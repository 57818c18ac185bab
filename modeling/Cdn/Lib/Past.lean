/-
What was the case at some moment.

A source has values under names, and they change.  `Past` says of a name and a value that the
source had it at a moment when the clock read `t`; a copy of the value is as old as the latest
such moment.  How old a copy may be is an interval for that moment, and the interval widens as
time goes on.
-/
import Mathlib.Order.Basic

namespace Past

/-- The source had the value under the name when the clock read the time. -/
abbrev History (τ κ ν : Type) := τ → κ → ν → Prop

variable {τ κ ν : Type} {H : History τ κ ν} {k : κ} {v : ν}

/-- It had it at some moment from `lo` to `hi`. -/
def Between [LE τ] (H : History τ κ ν) (lo hi : τ) (k : κ) (v : ν) : Prop :=
  ∃ t, lo ≤ t ∧ t ≤ hi ∧ H t k v

theorem Between.now [Preorder τ] {now : τ} (h : H now k v) : Between H now now k v :=
  ⟨now, le_rfl, le_rfl, h⟩

/-- An interval may be widened at both ends. -/
theorem Between.widen [Preorder τ] {lo lo' hi hi' : τ} (h : Between H lo hi k v)
    (hlo : lo' ≤ lo) (hhi : hi ≤ hi') : Between H lo' hi' k v := by
  obtain ⟨t, ht, ht', hv⟩ := h
  exact ⟨t, hlo.trans ht, ht'.trans hhi, hv⟩

end Past

/-
Costs that are paid in advance.

A machine has a store of credit, and its states say how much there is.  Some actions bring in at
most `n`, the others bring in nothing, and each action that costs takes one out.  So however a
run goes, what it costs is no more than what it starts with and what comes in; and where
nothing comes in any more, only so many actions that cost are left.

The credit is mostly a sum over the parts of the machine, of which an action changes one.
-/
import Cdn.Lib.Run
import Cdn.Lib.Slots
import Mathlib.Algebra.Ring.Nat

namespace Lts

variable {σ α : Type} {step : σ → α → Option σ}

/-- **What a run costs** is no more than what comes in. -/
theorem run_amortized {credit : σ → Nat} {costs brings : α → Bool} {n : Nat}
    (hstep : ∀ s a s', step s a = some s' →
      credit s' + (if costs a then 1 else 0) ≤ credit s + (if brings a then n else 0)) :
    ∀ (p : List α) {s s' : σ}, run step s p = some s' →
      credit s' + p.countP costs ≤ credit s + n * p.countP brings := by
  intro p
  induction p with
  | nil =>
      intro s s' hrun
      rw [run_nil, Option.some.injEq] at hrun
      rw [hrun]
      simp
  | cons a rest ih =>
      intro s s' hrun
      obtain ⟨mid, ha, hrest⟩ := run_cons.mp hrun
      have hone := hstep s a mid ha
      have hmany := ih hrest
      have hbrings : n * (a :: rest).countP brings =
          n * rest.countP brings + (if brings a then n else 0) := by
        rw [List.countP_cons]
        split
        · rw [Nat.mul_add, Nat.mul_one]
        · rfl
      rw [List.countP_cons, hbrings]
      omega

end Lts

namespace Slots

variable {α : Type} {l : List α} {i : Nat} {a : α}

/-- What the parts hold together. -/
def total (f : α → Nat) (l : List α) : Nat := (l.map f).sum

theorem total_append (f : α → Nat) (l l' : List α) :
    total f (l ++ l') = total f l + total f l' := by simp [total]

@[simp] theorem total_singleton (f : α → Nat) (a : α) : total f [a] = f a := by simp [total]

/-- One part changes, so the total changes by that part. -/
theorem total_modify (f : α → Nat) (h : l[i]? = some a) (g : α → α) :
    total f (l.modify i g) + f a = total f l + f (g a) := by
  obtain ⟨hl, hg⟩ := modify_split h g
  rw [hg]
  conv_rhs => rw [hl]
  simp only [total, List.map_append, List.map_cons, List.sum_append, List.sum_cons]
  omega

end Slots

/-
A least-recently-used stack with a budget.

A stack lists keys, oldest first, and every key has a weight.  A use of a key puts it last,
and takes keys off the front until what is left weighs no more than the budget allows; if the
key alone is too heavy it stays alone.  Keys may also be dropped by a test.

A use is a hit if the key is there.  That decides nothing about what is there afterwards, and
so the stack depends on the events alone.  It has the inclusion property: with a larger budget
the stack is the same at its end and may go on further down, so that no hit is lost.
-/
import Cdn.Lib.Recency
import Mathlib.Algebra.Order.BigOperators.Group.List
import Mathlib.Algebra.Order.Group.Int
import Mathlib.Algebra.Ring.Int.Defs

namespace Stack

open Recency (LongestSuffix)

variable {α : Type} (w : α → Int) {m m' : Int} {l l' : List α} {k : α}

def weight (l : List α) : Int := (l.map w).sum

theorem weight_append (l l' : List α) : weight w (l ++ l') = weight w l + weight w l' := by
  rw [weight, List.map_append, List.sum_append, weight, weight]

theorem weight_filter_le (hw : ∀ k, 0 ≤ w k) (p : α → Bool) (l : List α) :
    weight w (l.filter p) ≤ weight w l := by
  refine (List.filter_sublist.map w).sum_le_sum fun x hx => ?_
  obtain ⟨k, -, rfl⟩ := List.mem_map.mp hx
  exact hw k

/-- The longest suffix within the limit. -/
def fit (limit : Int) : List α → List α
  | [] => []
  | a :: l => if weight w (a :: l) ≤ limit then a :: l else fit limit l

theorem fit_suffix (limit : Int) (l : List α) : fit w limit l <:+ l := by
  induction l with
  | nil => exact List.suffix_refl []
  | cons a l ih =>
      rw [fit]
      split
      · exact List.suffix_refl _
      · exact ih.trans (List.suffix_cons a l)

theorem fit_of_le {limit : Int} (h : weight w l ≤ limit) : fit w limit l = l := by
  cases l with
  | nil => rfl
  | cons a l => rw [fit, if_pos h]

/-- What is within the limit, if anything is left. -/
theorem weight_fit (limit : Int) (l : List α) : weight w (fit w limit l) ≤ limit ∨ fit w limit l = [] := by
  induction l with
  | nil => exact Or.inr rfl
  | cons a l ih =>
      rw [fit]
      split
      · rename_i h
        exact Or.inl h
      · exact ih

theorem longestSuffix_fit (limit : Int) (l : List α) :
    LongestSuffix (fun l => weight w l ≤ limit) l (fit w limit l) := by
  induction l with
  | nil => exact Recency.longestSuffix_nil _
  | cons a l ih =>
      rw [fit]
      split
      · rename_i h
        exact Recency.longestSuffix_self h
      · rename_i h
        exact ih.cons h

/-! ### Events -/

inductive Event (α : Type) where
  | use (k : α)
  /-- Drop the keys that pass. -/
  | drop (p : α → Bool)

/-- The number of uses. -/
def uses (es : List (Event α)) : Nat := es.countP fun
  | .use _ => true
  | .drop _ => false

theorem uses_concat (es : List (Event α)) (k : α) : uses (es ++ [.use k]) = uses es + 1 := by
  simp [uses]

theorem uses_concat_drop (es : List (Event α)) (p : α → Bool) :
    uses (es ++ [.drop p]) = uses es := by simp [uses]

variable [DecidableEq α]

/-- The stack after a use of `k`. -/
def use (m : Int) (l : List α) (k : α) : List α := fit w (m - w k) (l.filter fun a => a ≠ k) ++ [k]

/-- A key that is there is moved to the end. -/
def touch (l : List α) (k : α) : List α := if k ∈ l then (l.filter fun a => a ≠ k) ++ [k] else l

def after (m : Int) (l : List α) : Event α → List α
  | .use k => use w m l k
  | .drop p => l.filter fun a => !p a

/-- The stack after a list of events. -/
def run (m : Int) (es : List (Event α)) : List α := es.foldl (after w m) []

/-- Whether an event finds its key in the stack. -/
def isHit (l : List α) : Event α → Bool
  | .use k => k ∈ l
  | .drop _ => false

/-- The number of hits among the events, from a stack on. -/
def hitsFrom (m : Int) : List α → List (Event α) → Nat
  | _, [] => 0
  | l, e :: es => (isHit l e).toNat + hitsFrom m (after w m l e) es

def hits (m : Int) (es : List (Event α)) : Nat := hitsFrom w m [] es

theorem run_concat (m : Int) (es : List (Event α)) (e : Event α) :
    run w m (es ++ [e]) = after w m (run w m es) e := by
  rw [run, List.foldl_append]
  rfl

theorem hitsFrom_concat (m : Int) (l : List α) (es : List (Event α)) (e : Event α) :
    hitsFrom w m l (es ++ [e]) =
      hitsFrom w m l es + (isHit (es.foldl (after w m) l) e).toNat := by
  induction es generalizing l with
  | nil => rw [List.nil_append, hitsFrom, hitsFrom, hitsFrom, Nat.add_comm, List.foldl_nil]
  | cons e' es ih => rw [List.cons_append, hitsFrom, ih, hitsFrom, List.foldl_cons, Nat.add_assoc]

theorem hits_concat (m : Int) (es : List (Event α)) (e : Event α) :
    hits w m (es ++ [e]) = hits w m es + (isHit (run w m es) e).toNat := hitsFrom_concat w m [] es e

/-! ### Within the budget -/

/-- A stack within its budget, or with one key. -/
def Fits (m : Int) (l : List α) : Prop := weight w l ≤ m ∨ l.length ≤ 1

/-- Taking out a key that is there once takes out its weight. -/
theorem weight_filter_ne (hnodup : l.Nodup) (hk : k ∈ l) :
    weight w (l.filter fun a => a ≠ k) + w k = weight w l := by
  have hperm : List.Perm (k :: l.filter fun a => a ≠ k) l := by
    have herase : l.erase k = l.filter fun a => a ≠ k := by
      rw [hnodup.erase_eq_filter]
      exact List.filter_congr fun a _ => by simp [bne, Bool.beq_eq_decide_eq]
    rw [← herase]
    exact (List.perm_cons_erase hk).symm
  have hsum := (hperm.map w).sum_eq
  rw [List.map_cons, List.sum_cons] at hsum
  rw [weight, weight, ← hsum, Int.add_comm]

/-- A use of a key that is there moves it to the end and does no more. -/
theorem use_of_mem (hfits : Fits w m l) (hnodup : l.Nodup) (hk : k ∈ l) :
    use w m l k = touch l k := by
  rw [use, touch, if_pos hk]
  rcases hfits with hweight | hone
  · rw [fit_of_le w (by have h := weight_filter_ne w hnodup hk; omega)]
  · -- there is no other key
    have hnil : (l.filter fun a => a ≠ k) = [] := by
      match l, hone, hk with
      | [a], _, hk => simp [List.mem_singleton.mp hk]
    rw [hnil, fit]

theorem fits_use (m : Int) (l : List α) (k : α) : Fits w m (use w m l k) := by
  rcases weight_fit w (m - w k) (l.filter fun a => a ≠ k) with hweight | hnil
  · refine Or.inl ?_
    have hone : weight w [k] = w k := by simp [weight]
    rw [use, weight_append, hone]
    omega
  · exact Or.inr (by rw [use, hnil]; simp)

theorem nodup_use (hnodup : l.Nodup) (m : Int) (k : α) : (use w m l k).Nodup := by
  have hfit := fit_suffix w (m - w k) (l.filter fun a => a ≠ k)
  refine List.nodup_append.mpr ⟨(hnodup.filter _).sublist hfit.sublist, List.nodup_singleton k, ?_⟩
  intro a ha b hb
  have hne := of_decide_eq_true (List.mem_filter.mp (hfit.subset ha)).2
  rwa [List.mem_singleton.mp hb]

/-- What is true of every stack that events have made. -/
structure Sound (m : Int) (l : List α) : Prop where
  nodup : l.Nodup
  fits : Fits w m l

theorem sound_after (hw : ∀ k, 0 ≤ w k) (h : Sound w m l) (e : Event α) :
    Sound w m (after w m l e) := by
  cases e with
  | use k => exact ⟨nodup_use w h.nodup m k, fits_use w m l k⟩
  | drop p =>
      refine ⟨h.nodup.filter _, h.fits.imp (fun hweight => ?_) fun hone => ?_⟩
      · exact (weight_filter_le w hw _ l).trans hweight
      · exact (List.length_filter_le _ l).trans hone

theorem sound_run (hw : ∀ k, 0 ≤ w k) (m : Int) (es : List (Event α)) : Sound w m (run w m es) := by
  induction es using List.reverseRecOn with
  | nil => exact ⟨List.nodup_nil, Or.inr (Nat.zero_le 1)⟩
  | append_singleton es e ih =>
      rw [run_concat]
      exact sound_after w hw ih e

/-- To touch a key and then to use it is to use it. -/
theorem use_touch (m : Int) (l : List α) (k : α) : use w m (touch l k) k = use w m l k := by
  have hfilter : ((touch l k).filter fun a => a ≠ k) = l.filter fun a => a ≠ k := by
    unfold touch
    split
    · simp [List.filter_filter]
    · rfl
  rw [use, use, hfilter]

/-! ### Inclusion -/

/-- A use keeps one stack a suffix of another with a larger budget. -/
theorem use_suffix (hm : m ≤ m') (hl : l <:+ l') (k : α) : use w m l k <:+ use w m' l' k := by
  have hfilter : (l.filter fun a => a ≠ k) <:+ l'.filter fun a => a ≠ k := hl.filter _
  have hfit : fit w (m - w k) (l.filter fun a => a ≠ k) <:+
      fit w (m' - w k) (l'.filter fun a => a ≠ k) := by
    rcases weight_fit w (m - w k) (l.filter fun a => a ≠ k) with hweight | hnil
    · have hsuffix := (fit_suffix w (m - w k) (l.filter fun a => a ≠ k)).trans hfilter
      have hlength := (longestSuffix_fit w (m' - w k) (l'.filter fun a => a ≠ k)).longest _ hsuffix
        (by omega)
      exact List.suffix_of_suffix_length_le hsuffix (fit_suffix w _ _) hlength
    · rw [hnil]
      exact List.nil_suffix
  obtain ⟨front, hfront⟩ := hfit
  exact ⟨front, by rw [use, use, ← hfront, List.append_assoc]⟩

theorem after_suffix (hm : m ≤ m') (hl : l <:+ l') (e : Event α) :
    after w m l e <:+ after w m' l' e := by
  cases e with
  | use k => exact use_suffix w hm hl k
  | drop p => exact hl.filter _

/-- **Inclusion.**  With a larger budget the stack is the same at its end. -/
theorem run_suffix (hm : m ≤ m') (es : List (Event α)) : run w m es <:+ run w m' es := by
  induction es using List.reverseRecOn with
  | nil => exact List.suffix_refl []
  | append_singleton es e ih =>
      rw [run_concat, run_concat]
      exact after_suffix w hm ih e

theorem isHit_mono (hl : l <:+ l') (e : Event α) : (isHit l e).toNat ≤ (isHit l' e).toNat := by
  cases e with
  | use k => exact Bool.toNat_le_toNat fun h => decide_eq_true (hl.subset (of_decide_eq_true h))
  | drop p => exact Nat.le_refl _

/-- No hit is lost with a larger budget. -/
theorem hits_mono (hm : m ≤ m') (es : List (Event α)) : hits w m es ≤ hits w m' es := by
  induction es using List.reverseRecOn with
  | nil => exact Nat.le_refl 0
  | append_singleton es e ih =>
      rw [hits_concat, hits_concat]
      exact Nat.add_le_add ih (isHit_mono (run_suffix w hm es) e)

end Stack

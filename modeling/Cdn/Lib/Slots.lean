/-
A list as a row of slots.

A machine that numbers its parts keeps them in a list: a new part goes to the end and
one part changes at a time.  These are the lemmas for such a list: what stands in a
slot afterwards, how many slots pass a test, and when all of them do.
-/
import Mathlib.Data.List.Count

namespace Slots

variable {α : Type} {l l' : List α} {i : Nat} {a : α}

theorem get?_append (h : l[i]? = some a) : (l ++ l')[i]? = some a := by
  rw [List.getElem?_append_left (List.getElem?_eq_some_iff.mp h).1, h]

/-- Changing the slot just added is adding the changed value. -/
theorem modify_append_length (l : List α) (a : α) (f : α → α) :
    (l ++ [a]).modify l.length f = l ++ [f a] := by
  rw [List.modify_eq_take_cons_drop (by simp)]
  simp

theorem modify_split (h : l[i]? = some a) (f : α → α) :
    l = l.take i ++ a :: l.drop (i + 1) ∧ l.modify i f = l.take i ++ f a :: l.drop (i + 1) := by
  obtain ⟨hi, rfl⟩ := List.getElem?_eq_some_iff.mp h
  exact ⟨by simp, List.modify_eq_take_cons_drop hi⟩

/-- One slot changes, so the count changes by that slot. -/
theorem countP_modify (q : α → Bool) (h : l[i]? = some a) (f : α → α) :
    (l.modify i f).countP q + (if q a then 1 else 0) =
      l.countP q + (if q (f a) then 1 else 0) := by
  obtain ⟨hl, hf⟩ := modify_split h f
  rw [hf]
  conv_rhs => rw [hl]
  simp only [List.countP_append, List.countP_cons]
  omega

/-- Where every slot passes its test, it does so after a change if the changed slot does. -/
theorem forall_modify {P : Nat → α → Prop} (hl : ∀ j x, l[j]? = some x → P j x)
    (h : l[i]? = some a) {f : α → α} (hf : P i (f a)) :
    ∀ j x, (l.modify i f)[j]? = some x → P j x := by
  intro j x hx
  by_cases hij : i = j
  · subst hij
    rw [List.getElem?_modify_eq, h] at hx
    cases hx
    exact hf
  · rw [List.getElem?_modify_ne _ _ hij] at hx
    exact hl j x hx

/-- A reading that the change does not touch is as before. -/
theorem map_modify {γ : Type} (l : List α) (i : Nat) {f : α → α} {g : α → γ}
    (h : ∀ a, g (f a) = g a) : (l.modify i f).map g = l.map g := by
  refine List.ext_getElem? fun j => ?_
  rw [List.getElem?_map, List.getElem?_map, List.getElem?_modify]
  by_cases hj : i = j
  · simp [hj, Function.comp_def, h]
  · simp [hj]

theorem forall_append {P : Nat → α → Prop} (hl : ∀ j x, l[j]? = some x → P j x)
    (ha : P l.length a) : ∀ j x, (l ++ [a])[j]? = some x → P j x := by
  intro j x hx
  rcases Nat.lt_or_ge j l.length with hj | hj
  · rw [List.getElem?_append_left hj] at hx
    exact hl j x hx
  · rw [List.getElem?_append_right hj, List.getElem?_singleton] at hx
    split at hx
    · rename_i hzero
      cases hx
      have hlast : j = l.length := by omega
      exact hlast ▸ ha
    · cases hx

end Slots

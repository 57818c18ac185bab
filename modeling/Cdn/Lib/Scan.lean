/-
Reading a text from left to right.

A text in which what may be skipped and what is wanted alternate is taken apart by dropping
the one and taking the other.  A text that is a list is joined by a separator and split at it
again, also where the separator stands inside of its members.
-/
import Mathlib.Data.List.TakeWhile

namespace Scan

variable {α : Type}

/-! ### Skipping and taking -/

section runs

variable {p q : α → Bool} {skipped taken behind rest : List α}

/-- The first item, if there is one, is none that passes. -/
def Stops (p : α → Bool) (l : List α) : Prop := ∀ a ∈ l.head?, p a = false

theorem stops_nil (p : α → Bool) : Stops p [] := by
  intro a ha
  cases ha

theorem stops_cons {a : α} (h : p a = false) (l : List α) : Stops p (a :: l) := by
  intro b hb
  cases hb
  exact h

theorem Stops.append_of_forall (hrest : Stops p rest) (h : ∀ a ∈ behind, p a = false) :
    Stops p (behind ++ rest) := by
  cases behind with
  | nil => exact hrest
  | cons b l => exact stops_cons (h b List.mem_cons_self) _

theorem Stops.dropWhile (h : Stops p rest) : rest.dropWhile p = rest := by
  cases rest with
  | nil => rfl
  | cons a l => exact List.dropWhile_cons_of_neg (by rw [h a rfl]; decide)

theorem Stops.takeWhile (h : Stops p rest) : rest.takeWhile p = [] := by
  cases rest with
  | nil => rfl
  | cons a l => exact List.takeWhile_cons_of_neg (by rw [h a rfl]; decide)

/-- What there is to skip in front is skipped, all of it and no more. -/
theorem dropWhile_skipped (hskipped : ∀ a ∈ skipped, p a = true)
    (htaken : ∀ a ∈ taken, p a = false) (hne : taken ≠ []) :
    (skipped ++ taken ++ rest).dropWhile p = taken ++ rest := by
  obtain ⟨a, l, rfl⟩ := List.exists_cons_of_ne_nil hne
  rw [List.append_assoc, List.dropWhile_append_of_pos hskipped, List.cons_append,
    List.dropWhile_cons_of_neg]
  rw [htaken a List.mem_cons_self]
  decide

/-- What is wanted is taken, and what is left is what stands behind it. -/
theorem scan (rest : List α) (hskipped : ∀ a ∈ skipped, p a = true)
    (htaken : ∀ a ∈ taken, q a = true ∧ p a = false)
    (hbehind : ∀ a ∈ behind, p a = true ∧ q a = false) (hp : Stops p rest) (hq : Stops q rest) :
    let found := (skipped ++ taken ++ behind ++ rest).dropWhile p
    found.takeWhile q = taken ∧ (found.dropWhile q).dropWhile p = rest := by
  have hdropped : (behind ++ rest).dropWhile p = rest := by
    rw [List.dropWhile_append_of_pos fun a ha => (hbehind a ha).1, hp.dropWhile]
  by_cases hne : taken = []
  · subst hne
    have hfound : (skipped ++ [] ++ behind ++ rest).dropWhile p = rest := by
      rw [List.append_nil, List.append_assoc, List.dropWhile_append_of_pos hskipped, hdropped]
    rw [hfound]
    exact ⟨hq.takeWhile, by rw [hq.dropWhile, hp.dropWhile]⟩
  · have hfound : (skipped ++ taken ++ behind ++ rest).dropWhile p =
        taken ++ (behind ++ rest) := by
      rw [List.append_assoc, dropWhile_skipped hskipped (fun a ha => (htaken a ha).2) hne]
    have hnext : Stops q (behind ++ rest) := hq.append_of_forall fun a ha => (hbehind a ha).2
    have hall : ∀ a ∈ taken, q a = true := fun a ha => (htaken a ha).1
    rw [hfound]
    refine ⟨?_, ?_⟩
    · rw [List.takeWhile_append_of_pos hall, hnext.takeWhile, List.append_nil]
    · rw [List.dropWhile_append_of_pos hall, hnext.dropWhile, hdropped]

/-- Any text, taken apart in this way. -/
theorem eq_append (p q : α → Bool) (l : List α) :
    let found := l.dropWhile p
    l = l.takeWhile p ++ found.takeWhile q ++ (found.dropWhile q).takeWhile p ++
      (found.dropWhile q).dropWhile p := by
  intro found
  rw [List.append_assoc, List.takeWhile_append_dropWhile, List.append_assoc,
    List.takeWhile_append_dropWhile, List.takeWhile_append_dropWhile]

end runs

/-! ### Separators -/

/-- What stands after the last separator is determined, and so is what stands before. -/
theorem append_sep_inj {a b p q : List α} {c : α} (ha : c ∉ a) (hb : c ∉ b)
    (h : p ++ c :: a = q ++ c :: b) : p = q ∧ a = b := by
  rcases List.append_eq_append_iff.mp h with ⟨l, hq, hl⟩ | ⟨l, hp, hl⟩
  · cases l with
    | nil => simpa [hq, eq_comm] using hl
    | cons x l =>
        rw [List.cons_append, List.cons.injEq] at hl
        exact absurd (by rw [hl.2]; simp) ha
  · cases l with
    | nil => simpa [hp, eq_comm] using hl
    | cons x l =>
        rw [List.cons_append, List.cons.injEq] at hl
        exact absurd (by rw [hl.2]; simp) hb

/-- The same of the first separator. -/
theorem sep_append_inj {a b p q : List α} {c : α} (hp : c ∉ p) (hq : c ∉ q)
    (h : p ++ c :: a = q ++ c :: b) : p = q ∧ a = b := by
  have hreverse := congrArg List.reverse h
  simp only [List.reverse_append, List.reverse_cons, List.append_assoc,
    List.singleton_append] at hreverse
  obtain ⟨hrest, hfirst⟩ := append_sep_inj (by simpa using hp) (by simpa using hq) hreverse
  exact ⟨List.reverse_inj.mp hfirst, List.reverse_inj.mp hrest⟩

/-! ### Joining and splitting -/

section lists

variable {x a : α} {l : List α} {ls : List (List α)}

theorem infix_intercalate_of_mem {part : List α} (hpart : part ∈ ls) :
    part <:+: [x].intercalate ls := by
  induction ls with
  | nil => cases hpart
  | cons first rest ih =>
      cases rest with
      | nil =>
          have hfirst : part = [x].intercalate [first] := by
            rw [List.intercalate_singleton, List.mem_singleton.mp hpart]
          exact ⟨[], [], by rw [List.nil_append, List.append_nil, hfirst]⟩
      | cons second rest =>
          rw [List.intercalate_cons_cons, List.append_assoc]
          rcases List.mem_cons.mp hpart with rfl | hpart
          · exact (List.prefix_append _ _).isInfix
          · exact (ih hpart).trans
              ((List.suffix_append _ _).trans (List.suffix_append _ _)).isInfix

theorem mem_intercalate_of_mem {part : List α} (hpart : part ∈ ls) (ha : a ∈ part) :
    a ∈ [x].intercalate ls :=
  (infix_intercalate_of_mem hpart).subset ha

theorem eq_or_mem_of_mem_intercalate (ha : a ∈ [x].intercalate ls) :
    a = x ∨ ∃ part ∈ ls, a ∈ part := by
  induction ls with
  | nil =>
      rw [List.intercalate_nil] at ha
      cases ha
  | cons first rest ih =>
      cases rest with
      | nil =>
          rw [List.intercalate_singleton] at ha
          exact Or.inr ⟨first, List.mem_cons_self, ha⟩
      | cons second rest =>
          rw [List.intercalate_cons_cons, List.append_assoc, List.singleton_append, List.mem_append,
            List.mem_cons] at ha
          rcases ha with ha | ha | ha
          · exact Or.inr ⟨first, List.mem_cons_self, ha⟩
          · exact Or.inl ha
          · rcases ih ha with ha | ⟨part, hpart, ha⟩
            · exact Or.inl ha
            · exact Or.inr ⟨part, List.mem_cons_of_mem first hpart, ha⟩

/-- What is in front of a list is in front of its first member. -/
theorem dropWhile_intercalate {p : α → Bool} {first : List α} (rest : List (List α))
    (h : ∃ a ∈ first, p a = false) :
    ([x].intercalate (first :: rest)).dropWhile p =
      [x].intercalate (first.dropWhile p :: rest) := by
  have hne : first.dropWhile p ≠ [] := by
    obtain ⟨a, ha, hpa⟩ := h
    rw [Ne, List.dropWhile_eq_nil_iff]
    intro hall
    exact absurd (hall a ha) (by rw [hpa]; decide)
  cases rest with
  | nil => rw [List.intercalate_singleton, List.intercalate_singleton]
  | cons second rest =>
      rw [List.intercalate_cons_cons, List.intercalate_cons_cons, List.append_assoc,
        List.append_assoc, List.dropWhile_append,
        if_neg (by rw [List.isEmpty_iff]; exact hne)]

variable [BEq α] [LawfulBEq α]

theorem infix_of_mem_splitOn {part : List α} (hpart : part ∈ l.splitOn x) : part <:+: l := by
  have hl : [x].intercalate (l.splitOn x) = l := List.intercalate_splitOn x
  conv => rhs; rw [← hl]
  exact infix_intercalate_of_mem hpart

theorem mem_of_mem_splitOn {part : List α} (hpart : part ∈ l.splitOn x) (ha : a ∈ part) : a ∈ l :=
  (infix_of_mem_splitOn hpart).subset ha

/-- A joined list is split at the separators in its members too. -/
theorem splitOn_intercalate_flatMap (h : ls ≠ []) :
    ([x].intercalate ls).splitOn x = ls.flatMap fun part => part.splitOn x := by
  induction ls with
  | nil => exact absurd rfl h
  | cons first rest ih =>
      cases rest with
      | nil => rw [List.intercalate_singleton, List.flatMap_singleton]
      | cons second rest =>
          rw [List.intercalate_cons_cons, List.append_assoc, List.singleton_append,
            List.splitOn_append_cons_self, ih (List.cons_ne_nil _ _), ← List.flatMap_cons]

/-- Members that are not empty and have no separator are what lies between the separators. -/
theorem filter_splitOn_intercalate (hne : ∀ part ∈ ls, part ≠ [])
    (hx : ∀ part ∈ ls, x ∉ part) :
    (([x].intercalate ls).splitOn x).filter (fun part => !part.isEmpty) = ls := by
  by_cases hls : ls = []
  · rw [hls]
    rfl
  rw [List.splitOn_intercalate x hx hls, List.filter_eq_self]
  intro part hpart
  rw [Bool.not_eq_true', List.isEmpty_eq_false_iff]
  exact hne part hpart

/-- What is put in front of a text without a separator goes to its first piece. -/
theorem splitOn_append_left {before : List α} (h : x ∉ before) (l : List α) :
    (before ++ l).splitOn x = (l.splitOn x).modifyHead (before ++ ·) := by
  induction before with
  | nil =>
      cases hl : l.splitOn x with
      | nil => rw [List.nil_append, hl]; rfl
      | cons first rest => rw [List.nil_append, hl]; rfl
  | cons b before ih =>
      rw [List.mem_cons, not_or] at h
      have hb : ¬ (b == x) = true := fun heq => h.1 (beq_iff_eq.mp heq).symm
      rw [List.cons_append, List.splitOn_cons_eq_if_modifyHead, if_neg hb, ih h.2,
        List.modifyHead_modifyHead]
      rfl

/-- What is put behind a text without a separator goes to its last piece. -/
theorem exists_splitOn_append_right (l : List α) : ∃ (pieces : List (List α)) (final : List α),
    ∀ after, x ∉ after → (l ++ after).splitOn x = pieces ++ [final ++ after] := by
  induction l with
  | nil => exact ⟨[], [], fun after h => List.splitOn_eq_singleton h⟩
  | cons b l ih =>
      obtain ⟨pieces, final, ih⟩ := ih
      by_cases hb : (b == x) = true
      · refine ⟨[] :: pieces, final, fun after h => ?_⟩
        rw [List.cons_append, List.splitOn_cons_eq_if_modifyHead, if_pos hb, ih after h]
        rfl
      · cases pieces with
        | nil =>
            refine ⟨[], b :: final, fun after h => ?_⟩
            rw [List.cons_append, List.splitOn_cons_eq_if_modifyHead, if_neg hb, ih after h]
            rfl
        | cons first pieces =>
            refine ⟨(b :: first) :: pieces, final, fun after h => ?_⟩
            rw [List.cons_append, List.splitOn_cons_eq_if_modifyHead, if_neg hb, ih after h]
            rfl

/-- Who does not look at what is put around a piece sees the pieces that were there before. -/
theorem map_splitOn_append {γ : Type} {f : List α → γ} {before after : List α}
    (hbefore : x ∉ before) (hafter : x ∉ after) (hfront : ∀ l, f (before ++ l) = f l)
    (hback : ∀ l, f (l ++ after) = f l) (l : List α) :
    ((before ++ l ++ after).splitOn x).map f = (l.splitOn x).map f := by
  obtain ⟨pieces, final, hright⟩ := exists_splitOn_append_right (x := x) l
  have hwithout := hright [] List.not_mem_nil
  rw [List.append_nil, List.append_nil] at hwithout
  have hmap : ((l ++ after).splitOn x).map f = (l.splitOn x).map f := by
    rw [hright after hafter, hwithout, List.map_append, List.map_append, List.map_singleton,
      List.map_singleton, hback]
  rw [List.append_assoc, splitOn_append_left hbefore, ← hmap]
  cases (l ++ after).splitOn x with
  | nil => rfl
  | cons first rest => rw [List.modifyHead_cons, List.map_cons, List.map_cons, hfront]

end lists

end Scan

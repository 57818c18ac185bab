/-
Who was used last.

The longest suffix that passes a test is what is left when items are dropped from the
front only as long as the test fails.

A history is a list of events, of which some are a use of a key.  `recent` lists the keys
by their last use, oldest first; a list of some of these keys in the same order is what a
least-recently-used order has to be.
-/
import Mathlib.Data.List.Dedup
import Mathlib.Data.List.Induction
import Mathlib.Data.List.Infix

namespace Recency

variable {γ α : Type} {use : γ → Option α}

/-! ### The longest suffix that passes a test -/

/-- `t` is the longest suffix of `l` that passes, and empty if none does. -/
structure LongestSuffix (passes : List α → Prop) (l t : List α) : Prop where
  suffix : t <:+ l
  passes_or : passes t ∨ t = [] ∧ ∀ u, u <:+ l → ¬ passes u
  longest : ∀ u, u <:+ l → passes u → u.length ≤ t.length

theorem longestSuffix_self {passes : List α → Prop} {l : List α} (h : passes l) :
    LongestSuffix passes l l :=
  ⟨List.suffix_refl l, Or.inl h, fun _ hu _ => hu.length_le⟩

theorem longestSuffix_nil (passes : List α → Prop) : LongestSuffix passes [] ([] : List α) := by
  refine ⟨List.suffix_refl _, ?_, fun u hu _ => hu.length_le⟩
  by_cases h : passes []
  · exact Or.inl h
  · refine Or.inr ⟨rfl, fun u hu => ?_⟩
    rwa [List.suffix_nil.mp hu]

/-- An item in front that makes the test fail has to go. -/
theorem LongestSuffix.cons {passes : List α → Prop} {l t : List α} {a : α}
    (h : LongestSuffix passes l t) (hfails : ¬ passes (a :: l)) :
    LongestSuffix passes (a :: l) t where
  suffix := h.suffix.trans (List.suffix_cons a l)
  passes_or := by
    refine h.passes_or.imp id fun ⟨hnil, hnone⟩ => ⟨hnil, fun u hu => ?_⟩
    rcases List.suffix_cons_iff.mp hu with rfl | hu
    · exact hfails
    · exact hnone u hu
  longest := fun u hu hpasses => by
    rcases List.suffix_cons_iff.mp hu with rfl | hu
    · exact absurd hpasses hfails
    · exact h.longest u hu hpasses

/-- There is one. -/
theorem LongestSuffix.eq {passes : List α → Prop} {l t t' : List α}
    (h : LongestSuffix passes l t) (h' : LongestSuffix passes l t') : t = t' := by
  have hle : ∀ {t t' : List α}, LongestSuffix passes l t → LongestSuffix passes l t' →
      t.length ≤ t'.length := by
    intro t t' h h'
    rcases h.passes_or with hpasses | ⟨rfl, -⟩
    · exact h'.longest t h.suffix hpasses
    · exact Nat.zero_le _
  have hlength : t.length = t'.length := Nat.le_antisymm (hle h h') (hle h' h)
  exact (List.suffix_of_suffix_length_le h.suffix h'.suffix hlength.le).eq_of_length hlength

/-- A test that reads the items through a function. -/
theorem LongestSuffix.map {passes : List α → Prop} {passes' : List γ → Prop} {l t : List α}
    (f : α → γ) (hf : ∀ u, u <:+ l → (passes u ↔ passes' (u.map f)))
    (h : LongestSuffix passes l t) : LongestSuffix passes' (l.map f) (t.map f) := by
  have hpreimage : ∀ u, u <:+ l.map f → ∃ v, v <:+ l ∧ u = v.map f := by
    intro u hu
    rw [List.suffix_iff_eq_drop] at hu
    exact ⟨l.drop _, List.drop_suffix _ _, by rw [hu, List.map_drop]⟩
  refine ⟨h.suffix.map f, ?_, fun u hu hpasses => ?_⟩
  · refine h.passes_or.imp (hf t h.suffix).mp fun ⟨hnil, hnone⟩ => ⟨by rw [hnil]; rfl, ?_⟩
    intro u hu hpasses
    obtain ⟨v, hv, rfl⟩ := hpreimage u hu
    exact hnone v hv ((hf v hv).mpr hpasses)
  · obtain ⟨v, hv, rfl⟩ := hpreimage u hu
    rw [List.length_map, List.length_map]
    exact h.longest v hv ((hf v hv).mpr hpasses)

/-! ### The last use of a key -/

/-- The last use of `k` is event number `i`. -/
structure LastAt (use : γ → Option α) (history : List γ) (k : α) (i : Nat) : Prop where
  used : history[i]?.bind use = some k
  last : ∀ j, i < j → history[j]?.bind use ≠ some k

/-- The last use of `k` is before that of `k'`. -/
def Before (use : γ → Option α) (history : List γ) (k k' : α) : Prop :=
  ∃ i j, LastAt use history k i ∧ LastAt use history k' j ∧ i < j

theorem LastAt.lt {history : List γ} {k : α} {i : Nat} (h : LastAt use history k i) :
    i < history.length := by
  by_contra hle
  have hused := h.used
  rw [List.getElem?_eq_none (Nat.not_lt.mp hle)] at hused
  cases hused

theorem LastAt.concat {history : List γ} {c : γ} {k : α} {i : Nat}
    (h : LastAt use history k i) (hc : use c ≠ some k) : LastAt use (history ++ [c]) k i where
  used := by rw [List.getElem?_append_left h.lt, h.used]
  last := fun j hj => by
    rcases Nat.lt_trichotomy j history.length with hlt | heq | hgt
    · rw [List.getElem?_append_left hlt]
      exact h.last j hj
    · rw [heq, List.getElem?_concat_length]
      exact hc
    · rw [List.getElem?_eq_none (by simp; omega)]
      simp

theorem lastAt_concat {history : List γ} {c : γ} {k : α} (hc : use c = some k) :
    LastAt use (history ++ [c]) k history.length where
  used := by rw [List.getElem?_concat_length]; exact hc
  last := fun j hj => by
    rw [List.getElem?_eq_none (by simp; omega)]
    simp

/-! ### The order of last use -/

variable [DecidableEq α]

/-- The keys in use, in the order of their last use. -/
def recent (use : γ → Option α) (history : List γ) : List α := (history.filterMap use).dedup

theorem dedup_concat (l : List α) (a : α) :
    (l ++ [a]).dedup = (l.dedup.filter fun b => b ≠ a) ++ [a] := by
  induction l with
  | nil => rfl
  | cons b rest ih =>
      rw [List.cons_append]
      by_cases hb : b ∈ rest
      · rw [List.dedup_cons_of_mem (by simp [hb]), List.dedup_cons_of_mem hb, ih]
      · rw [List.dedup_cons_of_notMem hb]
        by_cases hba : b = a
        · rw [List.dedup_cons_of_mem (by simp [hba]), ih, hba, List.filter_cons_of_neg (by simp)]
        · rw [List.dedup_cons_of_notMem (by simp [hb, hba]), ih,
            List.filter_cons_of_pos (by simpa using hba), List.cons_append]

theorem recent_of_none {c : γ} (hc : use c = none) (history : List γ) :
    recent use (history ++ [c]) = recent use history := by
  rw [recent, List.filterMap_append, List.filterMap_cons_none hc, List.filterMap_nil,
    List.append_nil, recent]

/-- A use makes its key the latest. -/
theorem recent_of_some {c : γ} {k : α} (hc : use c = some k) (history : List γ) :
    recent use (history ++ [c]) = ((recent use history).filter fun k' => k' ≠ k) ++ [k] := by
  rw [recent, List.filterMap_append, List.filterMap_cons_some hc, List.filterMap_nil,
    dedup_concat, recent]

theorem exists_lastAt {history : List γ} {k : α} (h : k ∈ recent use history) :
    ∃ i, LastAt use history k i := by
  induction history using List.reverseRecOn with
  | nil => cases h
  | append_singleton history c ih =>
      cases hc : use c with
      | none =>
          rw [recent_of_none hc] at h
          obtain ⟨i, hi⟩ := ih h
          exact ⟨i, hi.concat (by rw [hc]; simp)⟩
      | some k' =>
          rw [recent_of_some hc, List.mem_append, List.mem_filter, List.mem_singleton] at h
          rcases h with ⟨hold, hne⟩ | rfl
          · obtain ⟨i, hi⟩ := ih hold
            exact ⟨i, hi.concat fun heq => (of_decide_eq_true hne) (Option.some.inj (hc ▸ heq)).symm⟩
          · exact ⟨history.length, lastAt_concat hc⟩

/-- `recent` is in the order of last use. -/
theorem pairwise_recent (history : List γ) :
    (recent use history).Pairwise (Before use history) := by
  induction history using List.reverseRecOn with
  | nil => exact List.Pairwise.nil
  | append_singleton history c ih =>
      cases hc : use c with
      | none =>
          rw [recent_of_none hc]
          refine ih.imp fun {k k'} => ?_
          rintro ⟨i, j, hi, hj, hlt⟩
          exact ⟨i, j, hi.concat (by rw [hc]; simp), hj.concat (by rw [hc]; simp), hlt⟩
      | some last =>
          rw [recent_of_some hc]
          have hother : ∀ k, k ≠ last → use c ≠ some k := fun k hk heq =>
            hk (Option.some.inj (hc ▸ heq)).symm
          refine List.pairwise_append.mpr ⟨?_, List.pairwise_singleton _ _, ?_⟩
          · refine (ih.filter _).imp_of_mem fun {k k'} hk hk' => ?_
            rintro ⟨i, j, hi, hj, hlt⟩
            have hne := of_decide_eq_true (List.mem_filter.mp hk).2
            have hne' := of_decide_eq_true (List.mem_filter.mp hk').2
            exact ⟨i, j, hi.concat (hother k hne), hj.concat (hother k' hne'), hlt⟩
          · intro k hk k' hk'
            rw [List.mem_singleton.mp hk']
            obtain ⟨hold, hne⟩ := List.mem_filter.mp hk
            obtain ⟨i, hi⟩ := exists_lastAt hold
            exact ⟨i, history.length, hi.concat (hother k (of_decide_eq_true hne)),
              lastAt_concat hc, hi.lt⟩

end Recency

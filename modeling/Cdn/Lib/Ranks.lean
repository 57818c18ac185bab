/-
Ranks in a list.

The element of rank `m` is the least one that at least `m` elements do not exceed.  It depends
on the elements and not on their order, and a list in order has it at the position before `m`.
-/
import Mathlib.Data.List.Sort

namespace Ranks

variable {α : Type} [LinearOrder α] {l l' : List α} {m i : Nat} {v w : α}

/-- How many elements do not exceed a value. -/
def upTo (l : List α) (v : α) : Nat := l.countP (· ≤ v)

/-- The element of a rank. -/
structure IsRank (l : List α) (m : Nat) (v : α) : Prop where
  mem : v ∈ l
  enough : m ≤ upTo l v
  least : ∀ w ∈ l, m ≤ upTo l w → v ≤ w

theorem IsRank.unique (hv : IsRank l m v) (hw : IsRank l m w) : v = w :=
  le_antisymm (hv.least w hw.mem hw.enough) (hw.least v hv.mem hv.enough)

theorem upTo_perm (h : l.Perm l') (v : α) : upTo l v = upTo l' v := h.countP_eq _

theorem IsRank.perm (h : l.Perm l') (hv : IsRank l m v) : IsRank l' m v where
  mem := h.subset hv.mem
  enough := upTo_perm h v ▸ hv.enough
  least := fun w hw henough => hv.least w (h.symm.subset hw) (upTo_perm h w ▸ henough)

/-- Up to its position a list in order has nothing larger than an element. -/
theorem lt_upTo_of_sorted (h : l.Pairwise (· ≤ ·)) (hi : i < l.length) : i < upTo l l[i] := by
  have hprefix : (l.take (i + 1)).countP (· ≤ l[i]) = i + 1 := by
    have hlength : (l.take (i + 1)).length = i + 1 := List.length_take_of_le hi
    conv => rhs; rw [← hlength]
    rw [List.countP_eq_length]
    intro a ha
    obtain ⟨j, hj, rfl⟩ := List.mem_iff_getElem.mp ha
    rw [List.getElem_take, decide_eq_true_eq]
    rw [hlength] at hj
    rcases Nat.lt_succ_iff_lt_or_eq.mp hj with hj | rfl
    · exact List.pairwise_iff_getElem.mp h j i _ hi hj
    · exact le_rfl
  calc i < i + 1 := Nat.lt_succ_self i
    _ = (l.take (i + 1)).countP (· ≤ l[i]) := hprefix.symm
    _ ≤ upTo l l[i] := (List.take_sublist _ _).countP_le

/-- From its position on a list in order has nothing smaller. -/
theorem upTo_le_of_sorted (h : l.Pairwise (· ≤ ·)) (hi : i < l.length) (hw : w < l[i]) :
    upTo l w ≤ i := by
  have hsuffix : (l.drop i).countP (· ≤ w) = 0 := by
    rw [List.countP_eq_zero]
    intro a ha
    obtain ⟨j, hj, rfl⟩ := List.mem_iff_getElem.mp ha
    rw [List.getElem_drop, decide_eq_true_eq, not_le]
    refine lt_of_lt_of_le hw ?_
    rcases Nat.eq_zero_or_pos j with rfl | hpos
    · exact le_rfl
    · exact List.pairwise_iff_getElem.mp h i (i + j) hi _ (Nat.lt_add_of_pos_right hpos)
  rw [upTo, ← List.take_append_drop i l, List.countP_append, hsuffix, Nat.add_zero]
  exact List.countP_le_length.trans (List.length_take_le i l)

/-- **A list in order has each rank at the position before it.** -/
theorem isRank_of_sorted (h : l.Pairwise (· ≤ ·)) (hi : i < l.length) :
    IsRank l (i + 1) l[i] where
  mem := List.getElem_mem hi
  enough := lt_upTo_of_sorted h hi
  least := fun w _ henough => by
    by_contra hlt
    exact absurd (upTo_le_of_sorted h hi (not_le.mp hlt)) (Nat.not_le.mpr henough)

/-- **Sorting a list tells its ranks.** -/
theorem isRank_insertionSort (hi : i < (l.insertionSort (· ≤ ·)).length) :
    IsRank l (i + 1) (l.insertionSort (· ≤ ·))[i] :=
  (isRank_of_sorted (List.pairwise_insertionSort _ l) hi).perm (List.perm_insertionSort _ l)

end Ranks

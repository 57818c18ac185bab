/-
A stable sort, and sorting by passes.

A list is in order of a rank, stably, if it has the elements of the list it came from, a
lower rank goes before a higher one, and elements of one rank stand as they stood.

A program need not number anything to get there.  It can go over the list once for each
rank, and put what it is looking for last unless that has been put already.  `turn` is one
step of such a pass; the elements are told apart by an identifier.
-/
import Mathlib.Data.List.Nodup
import Mathlib.Data.List.Sort

namespace Stable

variable {α ι : Type} {rank : α → Nat} {l l' : List α}

/-! ### The order -/

/-- The lower rank first; in one rank, as in the list. -/
def Before (rank : α → Nat) (l : List α) (x y : α) : Prop :=
  rank x < rank y ∨ rank x = rank y ∧ [x, y].Sublist l

/-- `l'` is the list in order of the rank. -/
structure Sorted (rank : α → Nat) (l l' : List α) : Prop where
  perm : l'.Perm l
  ordered : l'.Pairwise (Before rank l)

theorem Before.mono {x y : α} (h : Before rank l x y) (hl : l.Sublist l') :
    Before rank l' x y :=
  h.imp_right fun hsame => ⟨hsame.1, hsame.2.trans hl⟩

/-- With different identifiers, an element is among the sorted exactly if its identifier is. -/
theorem Sorted.mem_ident {ident : α → ι} {q : α → Bool} {acc : List α} (hids : (l.map ident).Nodup)
    (h : Sorted rank (l.filter q) acc) {x : α} (hx : x ∈ l) :
    ident x ∈ acc.map ident ↔ q x = true := by
  rw [(h.perm.map ident).mem_iff, List.mem_map]
  constructor
  · rintro ⟨y, hy, hxy⟩
    obtain ⟨hyl, hqy⟩ := List.mem_filter.mp hy
    rwa [List.inj_on_of_nodup_map hids hyl hx hxy] at hqy
  · intro hqx
    exact ⟨x, List.mem_filter.mpr ⟨hx, hqx⟩, rfl⟩

/-! ### A pass -/

variable [DecidableEq ι] {ident : α → ι} {q : α → Bool} {acc : List α}

/-- An element that passes the test and has not been put yet goes last. -/
def turn (ident : α → ι) (q : α → Bool) (acc : List α) (x : α) : List α :=
  if q x ∧ ident x ∉ acc.map ident then acc ++ [x] else acc

/-- A pass over the list. -/
def pass (ident : α → ι) (q : α → Bool) (acc l : List α) : List α := l.foldl (turn ident q) acc

/-- A pass puts the elements it is looking for last, in their order. -/
theorem pass_eq (hids : (l.map ident).Nodup) :
    pass ident q acc l = acc ++ l.filter fun x => q x && decide (ident x ∉ acc.map ident) := by
  induction l generalizing acc with
  | nil => simp [pass]
  | cons x rest ih =>
      rw [List.map_cons, List.nodup_cons] at hids
      show pass ident q (turn ident q acc x) rest = _
      rw [ih hids.2, turn]
      by_cases hx : q x = true ∧ ident x ∉ acc.map ident
      · have hrest : rest.filter (fun y => q y && decide (ident y ∉ (acc ++ [x]).map ident)) =
            rest.filter fun y => q y && decide (ident y ∉ acc.map ident) := by
          refine List.filter_congr fun y hy => ?_
          have hne : ident y ≠ ident x := fun h => hids.1 (h ▸ List.mem_map_of_mem hy)
          simp [hne]
        rw [if_pos hx, hrest, List.filter_cons_of_pos (by simpa using hx), List.append_assoc]
        rfl
      · rw [if_neg hx, List.filter_cons_of_neg (by simpa using hx)]

/-- What is put first is what was, or else the first element the pass is looking for. -/
theorem head?_pass : (pass ident q acc l).head? = acc.head?.or (l.find? q) := by
  induction l generalizing acc with
  | nil => simp [pass]
  | cons x rest ih =>
      show (pass ident q (turn ident q acc x) rest).head? = _
      rw [ih, turn]
      cases acc with
      | nil => by_cases hx : q x = true <;> simp [hx]
      | cons y acc => split <;> rfl

/-- No identifier is put twice. -/
theorem nodup_pass (hacc : (acc.map ident).Nodup) :
    ((pass ident q acc l).map ident).Nodup := by
  induction l generalizing acc with
  | nil => exact hacc
  | cons x rest ih =>
      refine ih ?_
      unfold turn
      split
      · rename_i h
        rw [List.map_append, List.nodup_append]
        refine ⟨hacc, List.nodup_singleton _, ?_⟩
        rintro a ha b hb rfl
        exact h.2 (List.mem_singleton.mp hb ▸ ha)
      · exact hacc

theorem mem_pass {x : α} (h : x ∈ pass ident q acc l) : x ∈ acc ∨ x ∈ l ∧ q x = true := by
  induction l generalizing acc with
  | nil => exact Or.inl h
  | cons y rest ih =>
      rcases ih h with hturn | ⟨hrest, hq⟩
      · unfold turn at hturn
        split at hturn
        · rename_i hy
          rcases List.mem_append.mp hturn with hacc | hx
          · exact Or.inl hacc
          · rw [List.mem_singleton.mp hx]
            exact Or.inr ⟨List.mem_cons_self, hy.1⟩
        · exact Or.inl hturn
      · exact Or.inr ⟨List.mem_cons_of_mem y hrest, hq⟩

/-! ### A pass for each rank -/

variable {p : α → Bool} {n : Nat}

/-- The ranks up to `n` are those below `n`, and `n` itself. -/
theorem perm_filter_succ : (l.filter (fun x => p x && decide (rank x < n)) ++
    l.filter fun x => p x && decide (rank x = n)).Perm
      (l.filter fun x => p x && decide (rank x < n + 1)) := by
  have hlow : l.filter (fun x => p x && decide (rank x < n)) =
      (l.filter fun x => p x && decide (rank x < n + 1)).filter fun x => rank x < n := by
    rw [List.filter_filter]
    refine List.filter_congr fun x _ => ?_
    rw [Bool.eq_iff_iff]
    simp only [Bool.and_eq_true, decide_eq_true_eq]
    exact ⟨fun hx => ⟨hx.2, hx.1, by omega⟩, fun hx => ⟨hx.2.1, hx.1⟩⟩
  have hhigh : l.filter (fun x => p x && decide (rank x = n)) =
      (l.filter fun x => p x && decide (rank x < n + 1)).filter fun x => !decide (rank x < n) := by
    rw [List.filter_filter]
    refine List.filter_congr fun x _ => ?_
    rw [Bool.eq_iff_iff]
    simp only [Bool.and_eq_true, Bool.not_eq_true', decide_eq_true_eq, decide_eq_false_iff_not]
    exact ⟨fun hx => ⟨by omega, hx.1, by omega⟩, fun hx => ⟨hx.2.1, by omega⟩⟩
  rw [hlow, hhigh]
  exact List.filter_append_perm _ _

/-- What has certain ranks up to `n` is a part of what has any. -/
theorem sublist_filter_succ {r : Nat → Bool} (hr : ∀ m, r m = true → m < n + 1) :
    (l.filter fun x => p x && r (rank x)).Sublist
      (l.filter fun x => p x && decide (rank x < n + 1)) := by
  refine List.monotone_filter_right l fun x hx => ?_
  simp only [Bool.and_eq_true, decide_eq_true_eq] at hx ⊢
  exact ⟨hx.1, hr _ hx.2⟩

/-- After what is in order below `n`, the elements of rank `n` as they stand in the list. -/
theorem Sorted.append_rank (h : Sorted rank (l.filter fun x => p x && decide (rank x < n)) acc) :
    Sorted rank (l.filter fun x => p x && decide (rank x < n + 1))
      (acc ++ l.filter fun x => p x && decide (rank x = n)) where
  perm := (h.perm.append_right _).trans perm_filter_succ
  ordered := by
    have hbelow : (l.filter fun x => p x && decide (rank x < n)).Sublist
        (l.filter fun x => p x && decide (rank x < n + 1)) :=
      sublist_filter_succ (r := fun m => decide (m < n)) fun m hm =>
        Nat.lt_succ_of_lt (of_decide_eq_true hm)
    have hat : (l.filter fun x => p x && decide (rank x = n)).Sublist
        (l.filter fun x => p x && decide (rank x < n + 1)) :=
      sublist_filter_succ (r := fun m => decide (m = n)) fun m hm =>
        Nat.lt_succ_of_le (of_decide_eq_true hm).le
    have hacc : ∀ x ∈ acc, rank x < n := by
      intro x hx
      have hmem := h.perm.subset hx
      simp only [List.mem_filter, Bool.and_eq_true, decide_eq_true_eq] at hmem
      exact hmem.2.2
    have hrank : ∀ x ∈ l.filter (fun x => p x && decide (rank x = n)), rank x = n := by
      intro x hx
      simp only [List.mem_filter, Bool.and_eq_true, decide_eq_true_eq] at hx
      exact hx.2.2
    rw [List.pairwise_append]
    refine ⟨h.ordered.imp fun hxy => hxy.mono hbelow, ?_, fun x hx y hy => Or.inl ?_⟩
    · refine List.pairwise_iff_forall_sublist.mpr fun {x y} hxy => Or.inr ⟨?_, hxy.trans hat⟩
      rw [hrank x (hxy.subset (by simp)), hrank y (hxy.subset (by simp))]
    · rw [hrank y hy]
      exact hacc x hx

/-- **One pass.**  What is put is what has a rank below `n`, in order; a pass that looks, in
what is left, for rank `n` makes it what has a rank up to `n`. -/
theorem Sorted.pass (hids : (l.map ident).Nodup)
    (h : Sorted rank (l.filter fun x => p x && decide (rank x < n)) acc)
    (hqp : ∀ x, q x = true → p x = true)
    (hq : ∀ x ∈ l, p x = true → n ≤ rank x → (q x = true ↔ rank x = n)) :
    Sorted rank (l.filter fun x => p x && decide (rank x < n + 1)) (pass ident q acc l) := by
  have hnew : l.filter (fun x => q x && decide (ident x ∉ acc.map ident)) =
      l.filter fun x => p x && decide (rank x = n) := by
    refine List.filter_congr fun x hx => ?_
    rw [Bool.eq_iff_iff]
    simp only [Bool.and_eq_true, decide_eq_true_eq, h.mem_ident hids hx, not_and, Nat.not_lt]
    constructor
    · rintro ⟨hqx, hge⟩
      have hpx := hqp x hqx
      exact ⟨hpx, (hq x hx hpx (hge hpx)).mp hqx⟩
    · rintro ⟨hpx, heq⟩
      exact ⟨(hq x hx hpx heq.ge).mpr heq, fun _ => heq.ge⟩
  rw [pass_eq hids, hnew]
  exact h.append_rank

/-- Before the first pass nothing is put. -/
theorem sorted_nil : Sorted rank (l.filter fun x => p x && decide (rank x < 0)) [] := by
  have hnone : l.filter (fun x => p x && decide (rank x < 0)) = [] := by simp
  rw [hnone]
  exact ⟨List.Perm.refl _, List.Pairwise.nil⟩

/-! ### A pass for each key

The rank is the place of an element's key in a chain of keys.  A pass is made for each key
of the chain, and one for what is left.
-/

variable {κ : Type} [DecidableEq κ] {key : α → κ} {chain : List κ}

/-- A pass for each key of the chain, over the elements that `p` admits. -/
def passes (ident : α → ι) (key : α → κ) (p : α → Bool) (l : List α) (acc : List α)
    (chain : List κ) : List α :=
  chain.foldl (fun acc k => pass ident (fun x => decide (key x = k) && p x) acc l) acc

/-- The passes for the chain, and the one for the rest. -/
def sort (ident : α → ι) (key : α → κ) (p : α → Bool) (l : List α) (chain : List κ) : List α :=
  pass ident p (passes ident key p l [] chain) l

theorem head?_passes : (passes ident key p l acc chain).head? =
    acc.head?.or (chain.findSome? fun k => l.find? fun x => decide (key x = k) && p x) := by
  induction chain generalizing acc with
  | nil => simp [passes]
  | cons k rest ih =>
      show (passes ident key p l (pass ident _ acc l) rest).head? = _
      rw [ih, head?_pass, Option.or_assoc, List.findSome?_cons]
      cases l.find? (fun x => decide (key x = k) && p x) <;> rfl

/-- The first element of the order can be found without the others. -/
theorem head?_sort : (sort ident key p l chain).head? =
    (chain.findSome? fun k => l.find? fun x => decide (key x = k) && p x).or (l.find? p) := by
  rw [sort, head?_pass, head?_passes, List.head?_nil, Option.none_or]

theorem nodup_passes (hacc : (acc.map ident).Nodup) :
    ((passes ident key p l acc chain).map ident).Nodup := by
  induction chain generalizing acc with
  | nil => exact hacc
  | cons k rest ih => exact ih (nodup_pass hacc)

theorem nodup_sort : ((sort ident key p l chain).map ident).Nodup :=
  nodup_pass (nodup_passes List.nodup_nil)

theorem mem_passes {x : α} (h : x ∈ passes ident key p l acc chain) :
    x ∈ acc ∨ x ∈ l ∧ p x = true := by
  induction chain generalizing acc with
  | nil => exact Or.inl h
  | cons k rest ih =>
      rcases ih h with hpass | hp
      · refine (mem_pass hpass).imp_right fun hx => ⟨hx.1, ?_⟩
        simp only [Bool.and_eq_true] at hx
        exact hx.2.2
      · exact Or.inr hp

theorem mem_of_mem_sort {x : α} (h : x ∈ sort ident key p l chain) : x ∈ l ∧ p x = true := by
  rcases mem_pass h with hpasses | hx
  · exact (mem_passes hpasses).resolve_left List.not_mem_nil
  · exact hx

/-- The passes for a part of the chain put what has its key there. -/
theorem sorted_passes (hids : (l.map ident).Nodup) {before after : List κ}
    (h : Sorted (fun x => (before ++ after).idxOf (key x))
      (l.filter fun x => p x && decide ((before ++ after).idxOf (key x) < before.length)) acc) :
    Sorted (fun x => (before ++ after).idxOf (key x))
      (l.filter fun x => p x &&
        decide ((before ++ after).idxOf (key x) < (before ++ after).length))
      (passes ident key p l acc after) := by
  induction after generalizing before acc with
  | nil =>
      show Sorted _ _ acc
      simpa using h
  | cons k rest ih =>
      have hstep := h.pass (q := fun x => decide (key x = k) && p x) hids
        (fun x hx => (Bool.and_eq_true _ _ ▸ hx).2) fun x _ hp hge => ?_
      · have hchain : before ++ k :: rest = (before ++ [k]) ++ rest := by simp
        rw [hchain] at hstep ⊢
        refine ih ?_
        simpa using hstep
      · -- of the keys that are not in the first part, the one at its end is `k`
        have hnotin : key x ∉ before := by
          intro hmem
          rw [List.idxOf_append_of_mem hmem] at hge
          exact absurd (List.idxOf_lt_length_of_mem hmem) (Nat.not_lt.mpr hge)
        rw [List.idxOf_append_of_notMem hnotin]
        by_cases hk : key x = k
        · simp [hk, hp]
        · simp [hk, List.idxOf_cons_ne rest (Ne.symm hk)]

/-- **The passes sort, stably,** by the first place of the key in the chain, and put last
what has its key not there. -/
theorem sorted_sort (hids : (l.map ident).Nodup) :
    Sorted (fun x => chain.idxOf (key x)) (l.filter p) (sort ident key p l chain) := by
  have hpasses : Sorted (fun x => ([] ++ chain).idxOf (key x))
      (l.filter fun x => p x && decide (([] ++ chain).idxOf (key x) < ([] ++ chain).length))
      (passes ident key p l [] chain) := sorted_passes hids sorted_nil
  rw [List.nil_append] at hpasses
  have hall := hpasses.pass (q := p) hids (fun _ h => h) fun x _ hp hge => by
    simp only [hp, true_iff]
    exact Nat.le_antisymm List.idxOf_le_length hge
  have hfilter : l.filter (fun x => p x && decide (chain.idxOf (key x) < chain.length + 1)) =
      l.filter p :=
    List.filter_congr fun x _ => by simp [Nat.lt_succ_of_le List.idxOf_le_length]
  rw [hfilter] at hall
  exact hall

end Stable

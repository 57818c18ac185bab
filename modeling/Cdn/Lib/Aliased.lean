/-
A map kept under rewritten names.

A key is rewritten to a name, a cell stands in a dictionary under the name of its
owner, and two keys may have one name: then they share a place, and whoever writes last
owns it.  `read` is the map that such a dictionary stands for, when a cell counts for
its owner only.

Writing under one key takes away what its aliases had.  So a list of writes leaves
everything readable that it wrote exactly if no two of the names are the same.
-/
import Cdn.Lib.Dict
import Mathlib.Data.List.Induction

namespace Aliased

variable {κ ν δ : Type} [DecidableEq ν] {name : κ → ν} {owner : δ → κ}

/-- Every cell stands under the name of its owner. -/
def Named (name : κ → ν) (owner : δ → κ) (d : Dict ν δ) : Prop :=
  ∀ n c, d.get? n = some c → name (owner c) = n

/-- No key but `k` owns what stands under the name of `k`. -/
def Own (name : κ → ν) (owner : δ → κ) (d : Dict ν δ) (k : κ) : Prop :=
  ∀ c, d.get? (name k) = some c → owner c = k

/-- Write each cell of a list under the name of its owner, in order. -/
def writes (name : κ → ν) (owner : δ → κ) (d : Dict ν δ) (l : List δ) : Dict ν δ :=
  l.foldl (fun d c => d.set (name (owner c)) c) d

/-! ### Cells under the names of their owners -/

theorem Named.set {d : Dict ν δ} (h : Named name owner d) (c : δ) :
    Named name owner (d.set (name (owner c)) c) := by
  intro n c' hc'
  rw [Dict.get?_set] at hc'
  split at hc'
  · rename_i hn
    cases hc'
    exact hn.symm
  · exact h n c' hc'

theorem Named.erase {d : Dict ν δ} (h : Named name owner d) (n : ν) :
    Named name owner (d.erase n) := by
  intro n' c hc
  rw [Dict.get?_erase] at hc
  split at hc
  · cases hc
  · exact h n' c hc

@[simp] theorem writes_nil (d : Dict ν δ) : writes name owner d [] = d := rfl

theorem writes_concat (d : Dict ν δ) (l : List δ) (c : δ) :
    writes name owner d (l ++ [c]) = (writes name owner d l).set (name (owner c)) c := by
  rw [writes, List.foldl_append]
  rfl

theorem Named.writes {d : Dict ν δ} (h : Named name owner d) (l : List δ) :
    Named name owner (writes name owner d l) := by
  induction l using List.reverseRecOn with
  | nil => exact h
  | append_singleton l c ih =>
      rw [writes_concat]
      exact ih.set c

/-- The keys that own a cell. -/
def owners (owner : δ → κ) (d : Dict ν δ) : List κ := d.items.map fun nc => owner nc.2

/-- No key owns two cells. -/
theorem Named.nodup_owners {d : Dict ν δ} (h : Named name owner d) : (owners owner d).Nodup := by
  have hnames : (owners owner d).map name = d.items.map Prod.fst := by
    rw [owners, List.map_map]
    refine List.map_congr_left fun nc hnc => ?_
    exact h nc.1 nc.2 (Dict.get?_eq_some.mpr hnc)
  exact List.Nodup.of_map name (hnames ▸ d.nodup)

/-! ### Reading -/

variable [DecidableEq κ]

/-- The cell that stands under the name of `k`, if it is `k`'s. -/
def read (name : κ → ν) (owner : δ → κ) (d : Dict ν δ) (k : κ) : Option δ :=
  (d.get? (name k)).filter fun c => owner c = k

theorem read_eq_some {d : Dict ν δ} {k : κ} {c : δ} :
    read name owner d k = some c ↔ d.get? (name k) = some c ∧ owner c = k := by
  simp [read, Option.filter_eq_some_iff]

theorem read_eq_none {d : Dict ν δ} {k : κ} :
    read name owner d k = none ↔ ∀ c, d.get? (name k) = some c → owner c ≠ k := by
  simp [read, Option.filter_eq_none_iff]

/-- Two dictionaries that agree under the name of `k` read the same at `k`. -/
theorem read_congr {d d' : Dict ν δ} {k : κ} (h : d.get? (name k) = d'.get? (name k)) :
    read name owner d k = read name owner d' k := by
  rw [read, h, read]

/-- Where nobody else owns the place, what stands there is what is read. -/
theorem Own.get? {d : Dict ν δ} {k : κ} (h : Own name owner d k) :
    d.get? (name k) = read name owner d k := by
  cases hc : d.get? (name k) with
  | none => simp [read, hc]
  | some c => exact (read_eq_some.mpr ⟨hc, h c hc⟩).symm

@[simp] theorem read_empty (k : κ) : read name owner (∅ : Dict ν δ) k = none := rfl

/-! ### Writing and erasing -/

theorem read_set_self (d : Dict ν δ) {c : δ} :
    read name owner (d.set (name (owner c)) c) (owner c) = some c := by
  rw [read_eq_some, Dict.get?_set, if_pos rfl]
  exact ⟨rfl, rfl⟩

theorem read_set_of_ne (d : Dict ν δ) {c : δ} {k : κ} (h : name k ≠ name (owner c)) :
    read name owner (d.set (name (owner c)) c) k = read name owner d k :=
  read_congr (by rw [Dict.get?_set, if_neg h])

/-- An alias has nothing left. -/
theorem read_set_alias (d : Dict ν δ) {c : δ} {k : κ} (h : name k = name (owner c))
    (hk : owner c ≠ k) : read name owner (d.set (name (owner c)) c) k = none := by
  rw [read_eq_none]
  intro c' hc'
  rw [Dict.get?_set, if_pos h, Option.some.injEq] at hc'
  exact hc' ▸ hk

/-- An owner reads what stands under its name. -/
theorem Named.read_owner {d : Dict ν δ} (h : Named name owner d) {n : ν} {c : δ}
    (hc : d.get? n = some c) : read name owner d (owner c) = some c :=
  read_eq_some.mpr ⟨by rw [h n c hc, hc], rfl⟩

/-! ### A list of writes -/

omit [DecidableEq κ] in
/-- What stands under a name that is not written under is as it was. -/
theorem get?_writes_of_ne (d : Dict ν δ) {l : List δ} {n : ν} (h : ∀ c ∈ l, name (owner c) ≠ n) :
    (writes name owner d l).get? n = d.get? n := by
  induction l using List.reverseRecOn with
  | nil => rfl
  | append_singleton l c ih =>
      rw [writes_concat, Dict.get?_set, if_neg (h c (by simp)).symm]
      exact ih fun c' hc' => h c' (by simp [hc'])

/-- A key whose name is not written under reads what it read before. -/
theorem read_writes_of_ne (d : Dict ν δ) {l : List δ} {k : κ}
    (h : ∀ c ∈ l, name (owner c) ≠ name k) :
    read name owner (writes name owner d l) k = read name owner d k :=
  read_congr (get?_writes_of_ne d h)

/-- A key that is not written, but has the name of one that is, has nothing left. -/
theorem read_writes_alias (d : Dict ν δ) {l : List δ} {k : κ} (hk : ∀ c ∈ l, owner c ≠ k)
    (h : ∃ c ∈ l, name (owner c) = name k) :
    read name owner (writes name owner d l) k = none := by
  induction l using List.reverseRecOn with
  | nil => simp at h
  | append_singleton l c ih =>
      rw [writes_concat]
      by_cases hc : name k = name (owner c)
      · exact read_set_alias _ hc (hk c (by simp))
      · rw [read_set_of_ne _ hc]
        refine ih (fun c' hc' => hk c' (by simp [hc'])) ?_
        obtain ⟨c', hmem, hname⟩ := h
        rcases List.mem_append.mp hmem with hmem | hmem
        · exact ⟨c', hmem, hname⟩
        · rw [List.mem_singleton.mp hmem] at hname
          exact absurd hname.symm hc

/-- Writes for other keys give a key nothing to read. -/
theorem read_writes_eq_none {d : Dict ν δ} {l : List δ} {k : κ}
    (hd : read name owner d k = none) (hl : ∀ c ∈ l, owner c ≠ k) :
    read name owner (writes name owner d l) k = none := by
  by_cases h : ∃ c ∈ l, name (owner c) = name k
  · exact read_writes_alias d hl h
  · rw [read_writes_of_ne d fun c hc hname => h ⟨c, hc, hname⟩, hd]

/-- **A list of writes can be read back** exactly if no two of its names are the same. -/
theorem read_writes_iff (name : κ → ν) (owner : δ → κ) (d : Dict ν δ) {l : List δ} (hnodup : (l.map owner).Nodup) :
    (∀ c ∈ l, read name owner (writes name owner d l) (owner c) = some c) ↔
      (l.map fun c => name (owner c)).Nodup := by
  induction l using List.reverseRecOn with
  | nil => simp
  | append_singleton l c ih =>
      rw [List.map_append, List.nodup_append] at hnodup
      have hne : ∀ c' ∈ l, owner c ≠ owner c' := fun c' hc' hown =>
        hnodup.2.2 (owner c') (List.mem_map_of_mem hc') (owner c) (by simp) hown.symm
      rw [writes_concat, List.map_append, List.nodup_append, ← ih hnodup.1]
      constructor
      · intro h
        have hold : ∀ c' ∈ l, name (owner c') ≠ name (owner c) := by
          intro c' hc' hname
          have hread := h c' (by simp [hc'])
          rw [read_set_alias _ hname (hne c' hc')] at hread
          cases hread
        refine ⟨fun c' hc' => ?_, by simp, ?_⟩
        · rw [← h c' (by simp [hc']), read_set_of_ne _ (hold c' hc')]
        · intro n hn n' hn'
          obtain ⟨c', hc', rfl⟩ := List.mem_map.mp hn
          rw [List.map_singleton, List.mem_singleton] at hn'
          exact hn' ▸ hold c' hc'
      · rintro ⟨hread, -, hdisj⟩ c' hc'
        rcases List.mem_append.mp hc' with hc' | hc'
        · have hname : name (owner c') ≠ name (owner c) :=
            hdisj _ (List.mem_map_of_mem hc') _ (by simp)
          rw [read_set_of_ne _ hname]
          exact hread c' hc'
        · rw [List.mem_singleton.mp hc']
          exact read_set_self _

/-- The owners are the keys that read something. -/
theorem Named.mem_owners {d : Dict ν δ} (h : Named name owner d) {k : κ} :
    k ∈ owners owner d ↔ (read name owner d k).isSome = true := by
  rw [owners, List.mem_map, Option.isSome_iff_exists]
  constructor
  · rintro ⟨⟨n, c⟩, hmem, rfl⟩
    exact ⟨c, h.read_owner (Dict.get?_eq_some.mpr hmem)⟩
  · rintro ⟨c, hc⟩
    obtain ⟨hget, hown⟩ := read_eq_some.mp hc
    exact ⟨(name k, c), Dict.get?_eq_some.mp hget, hown⟩

end Aliased

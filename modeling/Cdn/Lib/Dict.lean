/-
An insertion-ordered dictionary.

The items stand in a list, oldest first, and the structure carries the proof that
no key stands in it twice, so every dictionary a program can build is one.
Assigning to a key that is present keeps its place, assigning to a new key puts it
last, and a key can be moved to the end or taken off the front: what a program
needs for a table and for a least-recently-used order alike.

Two readings are kept apart.  `items` is the order; `get?` is the finite map the
dictionary stands for, and `get?_eq_some` ties the two, so each operation has one
lemma for the map it leaves behind.
-/
import Mathlib.Algebra.BigOperators.Group.List.Basic
import Mathlib.Data.List.Nodup
import Mathlib.Data.List.Sort

/-- A finite map whose items keep the order in which their keys were added. -/
structure Dict (α β : Type) where
  items : List (α × β)
  nodup : (items.map Prod.fst).Nodup

namespace Dict

variable {α β : Type}

@[ext] theorem ext {d d' : Dict α β} (h : d.items = d'.items) : d = d' := by
  cases d
  cases d'
  cases h
  rfl

instance [DecidableEq α] [DecidableEq β] : DecidableEq (Dict α β) := fun d d' =>
  decidable_of_iff (d.items = d'.items) ⟨ext, fun h => h ▸ rfl⟩

/-- The dictionary without items. -/
def empty : Dict α β := ⟨[], List.nodup_nil⟩

instance : EmptyCollection (Dict α β) := ⟨empty⟩

def keys (d : Dict α β) : List α := d.items.map Prod.fst

theorem mem_keys {d : Dict α β} {k : α} : k ∈ d.keys ↔ ∃ v, (k, v) ∈ d.items := by
  simp [keys]

/-- The items whose key passes the test, in their order. -/
def filter (p : α → Bool) (d : Dict α β) : Dict α β :=
  ⟨d.items.filter fun kv => p kv.1, (d.nodup.sublist (List.filter_sublist.map _))⟩

/-- The oldest item and the dictionary without it. -/
def popFirst? (d : Dict α β) : Option ((α × β) × Dict α β) :=
  match d with
  | ⟨[], _⟩ => none
  | ⟨kv :: rest, h⟩ => some (kv, ⟨rest, (List.nodup_cons.mp h).2⟩)

theorem popFirst?_eq_some {d d' : Dict α β} {kv : α × β} :
    d.popFirst? = some (kv, d') ↔ d.items = kv :: d'.items := by
  obtain ⟨l, hl⟩ := d
  obtain ⟨l', hl'⟩ := d'
  cases l with
  | nil => simp [popFirst?]
  | cons x rest => simp [popFirst?]

theorem exists_popFirst? {d : Dict α β} (h : d.items ≠ []) :
    ∃ kv d', d.popFirst? = some (kv, d') := by
  obtain ⟨l, hl⟩ := d
  cases l with
  | nil => exact absurd rfl h
  | cons kv rest => exact ⟨kv, _, rfl⟩

variable [DecidableEq α]

def get? (d : Dict α β) (k : α) : Option β :=
  (d.items.find? fun kv => kv.1 = k).map Prod.snd

def contains (d : Dict α β) (k : α) : Bool := (d.get? k).isSome

def getD (d : Dict α β) (k : α) (v : β) : β := (d.get? k).getD v

/-! ### The map an item list stands for -/

/-- Keys do not repeat, so the item found under a key is the only one. -/
theorem get?_eq_some {d : Dict α β} {k : α} {v : β} :
    d.get? k = some v ↔ (k, v) ∈ d.items := by
  obtain ⟨l, hl⟩ := d
  show (l.find? _).map Prod.snd = some v ↔ (k, v) ∈ l
  induction l with
  | nil => simp
  | cons kv rest ih =>
      obtain ⟨k', v'⟩ := kv
      simp only [List.map_cons, List.nodup_cons, List.mem_map, Prod.exists] at hl
      by_cases hk : k' = k
      · subst hk
        have habsent : (k', v) ∉ rest := fun hmem => hl.1 ⟨k', v, hmem, rfl⟩
        simp [habsent, eq_comm]
      · have hne : ¬ (k = k') := fun hc => hk hc.symm
        simp only [List.find?_cons, hk, decide_false, List.mem_cons, Prod.mk.injEq, hne,
          false_and, false_or]
        exact ih hl.2

theorem get?_eq_none {d : Dict α β} {k : α} : d.get? k = none ↔ k ∉ d.keys := by
  rw [Option.eq_none_iff_forall_ne_some, mem_keys]
  simp [get?_eq_some]

/-- Two maps agree at a key when they hold the same values there. -/
theorem get?_congr {d d' : Dict α β} {k k' : α}
    (h : ∀ v, (k, v) ∈ d.items ↔ (k', v) ∈ d'.items) : d.get? k = d'.get? k' :=
  Option.ext fun v => by rw [get?_eq_some, get?_eq_some, h v]

@[simp] theorem get?_empty (k : α) : (∅ : Dict α β).get? k = none := rfl

/-- A map without values has no items. -/
theorem eq_empty {d : Dict α β} (h : ∀ k, d.get? k = none) : d = ∅ := by
  refine ext (List.eq_nil_iff_forall_not_mem.mpr fun kv hkv => ?_)
  have hsome := get?_eq_some.mpr hkv
  rw [h kv.1] at hsome
  cases hsome

@[simp] theorem get?_filter (p : α → Bool) (d : Dict α β) (k : α) :
    (d.filter p).get? k = if p k then d.get? k else none := by
  by_cases hp : p k = true
  · rw [if_pos hp]
    exact get?_congr fun v => by simp [filter, hp]
  · rw [if_neg hp, get?_eq_none, mem_keys]
    simp [filter, hp]

/-! ### Taking items out -/

def erase (d : Dict α β) (k : α) : Dict α β := d.filter (· ≠ k)

@[simp] theorem get?_erase (d : Dict α β) (k k' : α) :
    (d.erase k).get? k' = if k' = k then none else d.get? k' := by
  by_cases h : k' = k <;> simp [erase, h]

/-- What is left after the oldest item is taken is what is left after erasing its key. -/
theorem get?_popFirst? {d d' : Dict α β} {kv : α × β} (h : d.popFirst? = some (kv, d'))
    (k : α) : d'.get? k = if k = kv.1 then none else d.get? k := by
  have hitems := popFirst?_eq_some.mp h
  have hnodup := d.nodup
  rw [hitems, List.map_cons, List.nodup_cons] at hnodup
  by_cases hk : k = kv.1
  · rw [if_pos hk, get?_eq_none, hk]
    exact hnodup.1
  · rw [if_neg hk]
    refine get?_congr fun v => ?_
    have hne : (k, v) ≠ kv := fun hc => hk (congrArg Prod.fst hc)
    simp [hitems, hne]

/-- What is left after the keys of a list are erased. -/
theorem get?_foldl_erase {γ : Type} (f : γ → α) (l : List γ) (d : Dict α β) (k : α) :
    (l.foldl (fun d x => d.erase (f x)) d).get? k = if k ∈ l.map f then none else d.get? k := by
  induction l generalizing d with
  | nil => simp
  | cons x rest ih =>
      rw [List.foldl_cons, ih, get?_erase]
      by_cases hx : k = f x <;> by_cases hrest : k ∈ rest.map f <;> simp_all

/-- What is left after items are taken off the front. -/
theorem get?_of_append {d d' : Dict α β} {l : List (α × β)} (h : d.items = l ++ d'.items)
    (k : α) : d'.get? k = if k ∈ l.map Prod.fst then none else d.get? k := by
  have hnodup := d.nodup
  rw [h, List.map_append, List.nodup_append] at hnodup
  by_cases hk : k ∈ l.map Prod.fst
  · rw [if_pos hk, get?_eq_none]
    exact fun hmem => hnodup.2.2 k hk k hmem rfl
  · rw [if_neg hk]
    refine get?_congr fun v => ?_
    rw [h, List.mem_append]
    exact ⟨Or.inr, fun hmem => hmem.resolve_left fun hl => hk (List.mem_map.mpr ⟨_, hl, rfl⟩)⟩

/-- What is left of a key when the keys with a picked value are taken out. -/
theorem get?_unpicked (d : Dict α β) (picked : β → Bool) (k : α) :
    (if k ∈ (d.items.filter fun kv => picked kv.2).map Prod.fst then none else d.get? k) =
      (d.get? k).filter fun v => !picked v := by
  cases hget : d.get? k with
  | none => split <;> rfl
  | some v =>
      have hiff : k ∈ (d.items.filter fun kv => picked kv.2).map Prod.fst ↔ picked v = true := by
        rw [List.mem_map]
        constructor
        · rintro ⟨⟨k', v'⟩, hmem, rfl⟩
          obtain ⟨hitem, hpicked⟩ := List.mem_filter.mp hmem
          have hv := get?_eq_some.mpr hitem
          rw [hget, Option.some.injEq] at hv
          exact hv ▸ hpicked
        · intro hpicked
          exact ⟨(k, v), List.mem_filter.mpr ⟨get?_eq_some.mp hget, hpicked⟩, rfl⟩
      by_cases hpicked : picked v = true
      · rw [if_pos (hiff.mpr hpicked), Option.filter_some, hpicked]
        rfl
      · rw [if_neg fun h => hpicked (hiff.mp h), Option.filter_some,
          if_pos (by simpa using hpicked)]

/-! ### Putting items in -/

/-- An item that is not there yet, put last. -/
def append (d : Dict α β) (k : α) (v : β) (h : k ∉ d.keys) : Dict α β :=
  ⟨d.items ++ [(k, v)], by
    rw [List.map_append, List.nodup_append]
    refine ⟨d.nodup, by simp, ?_⟩
    intro a ha b hb hab
    rw [List.map_singleton, List.mem_singleton] at hb
    rw [hab, hb] at ha
    exact h ha⟩

/-- Assignment: a present key keeps its place and takes the new value. -/
def replace (d : Dict α β) (k : α) (v : β) : Dict α β :=
  ⟨d.items.map fun kv => if kv.1 = k then (k, v) else kv, by
    have hkeys : (d.items.map fun kv => if kv.1 = k then (k, v) else kv).map Prod.fst
        = d.items.map Prod.fst := by
      rw [List.map_map]
      refine List.map_congr_left fun kv _ => ?_
      by_cases h : kv.1 = k <;> simp [h]
    rw [hkeys]
    exact d.nodup⟩

/-- `d[k] = v`. -/
def set (d : Dict α β) (k : α) (v : β) : Dict α β :=
  if h : k ∈ d.keys then d.replace k v else d.append k v h

theorem get?_append (d : Dict α β) (k : α) (v : β) (h : k ∉ d.keys) (k' : α) :
    (d.append k v h).get? k' = if k' = k then some v else d.get? k' := by
  by_cases hk : k' = k
  · subst hk
    rw [if_pos rfl, get?_eq_some]
    simp [append]
  · rw [if_neg hk]
    exact get?_congr fun w => by simp [append, hk]

theorem get?_replace {d : Dict α β} {k : α} (h : k ∈ d.keys) (v : β) (k' : α) :
    (d.replace k v).get? k' = if k' = k then some v else d.get? k' := by
  obtain ⟨w, hw⟩ := mem_keys.mp h
  by_cases hk : k' = k
  · subst hk
    rw [if_pos rfl, get?_eq_some]
    refine List.mem_map.mpr ⟨(k', w), hw, by simp⟩
  · rw [if_neg hk]
    refine get?_congr fun u => ?_
    simp only [replace, List.mem_map]
    constructor
    · rintro ⟨⟨a, b⟩, hmem, heq⟩
      by_cases ha : a = k
      · rw [if_pos ha, Prod.mk.injEq] at heq
        exact absurd heq.1.symm hk
      · rw [if_neg ha] at heq
        exact heq ▸ hmem
    · intro hmem
      exact ⟨(k', u), hmem, by simp [hk]⟩

@[simp] theorem get?_set (d : Dict α β) (k k' : α) (v : β) :
    (d.set k v).get? k' = if k' = k then some v else d.get? k' := by
  unfold set
  split
  · rename_i h
    exact get?_replace h v k'
  · rename_i h
    exact get?_append d k v h k'

theorem contains_set (d : Dict α β) (k : α) (v : β) : (d.set k v).contains k = true := by
  simp [contains]

theorem contains_set_of (d : Dict α β) (k : α) (v : β) {k' : α} (h : d.contains k' = true) :
    (d.set k v).contains k' = true := by
  unfold contains at h ⊢
  rw [get?_set]
  split
  · rfl
  · exact h

/-- The item under `k`, if there is one, becomes the newest. -/
def moveToEnd (d : Dict α β) (k : α) : Dict α β :=
  match d.get? k with
  | none => d
  | some v => (d.erase k).set k v

@[simp] theorem get?_moveToEnd (d : Dict α β) (k k' : α) :
    (d.moveToEnd k).get? k' = d.get? k' := by
  unfold moveToEnd
  split
  · rfl
  · rename_i v hv
    by_cases h : k' = k
    · simp [h, hv]
    · simp [h]

/-- The dictionary a list of assignments builds, in order. -/
def ofList (l : List (α × β)) : Dict α β :=
  l.foldl (fun d kv => d.set kv.1 kv.2) ∅

/-- A dictionary built of items whose value depends on their key. -/
theorem get?_ofList_map {γ : Type} (f : γ → α) (g : α → β) (l : List γ) (k : α) :
    (ofList (l.map fun x => (f x, g (f x)))).get? k =
      if k ∈ l.map f then some (g k) else none := by
  have hfold : ∀ (l : List γ) (d : Dict α β),
      ((l.map fun x => (f x, g (f x))).foldl (fun d kv => d.set kv.1 kv.2) d).get? k =
        if k ∈ l.map f then some (g k) else d.get? k := by
    intro l
    induction l with
    | nil => intro d; simp
    | cons x rest ih =>
        intro d
        rw [List.map_cons, List.foldl_cons, ih, get?_set]
        by_cases hx : k = f x <;> by_cases hrest : k ∈ rest.map f <;> simp_all
  exact hfold l ∅

/-! ### One key among the items -/

/-- A dictionary with one key has one item. -/
theorem items_eq_singleton {d : Dict α β} {k : α} {v : β} (hget : d.get? k = some v)
    (hkeys : ∀ k' ∈ d.keys, k' = k) : d.items = [(k, v)] := by
  have hmem := get?_eq_some.mp hget
  have hreplicate : d.keys = List.replicate d.keys.length k := List.eq_replicate_of_mem hkeys
  have hnodup : (List.replicate d.keys.length k).Nodup := hreplicate ▸ d.nodup
  have hlength : d.items.length ≤ 1 := by
    rw [List.nodup_replicate, keys, List.length_map] at hnodup
    exact hnodup
  match hitems : d.items with
  | [] => rw [hitems] at hmem; cases hmem
  | [kv] => rw [hitems] at hmem; rw [List.mem_singleton.mp hmem]
  | _ :: _ :: rest => rw [hitems] at hlength; simp at hlength

/-- The values of the items under one key. -/
theorem filter_items_eq (d : Dict α β) (k : α) :
    (d.items.filter fun kv => kv.1 = k).map Prod.snd = (d.get? k).toList := by
  obtain ⟨l, hl⟩ := d
  show _ = ((l.find? _).map Prod.snd).toList
  induction l with
  | nil => rfl
  | cons kv rest ih =>
      rw [List.map_cons, List.nodup_cons] at hl
      by_cases hk : kv.1 = k
      · have hrest : rest.filter (fun kv => kv.1 = k) = [] := by
          rw [List.filter_eq_nil_iff]
          intro kv' hmem hkey
          rw [decide_eq_true_eq] at hkey
          exact hl.1 (List.mem_map.mpr ⟨kv', hmem, hkey.trans hk.symm⟩)
        simp [hk, hrest]
      · simpa [hk] using ih hl.2

/-- Assignment to one key leaves the items of all others as they are. -/
theorem filter_items_set (d : Dict α β) {k : α} (v : β) {p : α → Bool} (h : p k = false) :
    (d.set k v).items.filter (fun kv => p kv.1) = d.items.filter fun kv => p kv.1 := by
  unfold set
  split
  · show (d.items.map fun kv => if kv.1 = k then (k, v) else kv).filter _ = _
    induction d.items with
    | nil => rfl
    | cons kv rest ih =>
        by_cases hk : kv.1 = k
        · simp [hk, h, ih]
        · simp [hk, List.filter_cons, ih]
  · show (d.items ++ [(k, v)]).filter _ = _
    simp [h]

/-! ### What an operation does to the items -/

theorem items_erase (d : Dict α β) (k : α) :
    (d.erase k).items = d.items.filter fun kv => kv.1 ≠ k := rfl

/-- Erasing keys one by one is filtering. -/
theorem items_foldl_erase (l : List α) (d : Dict α β) :
    (l.foldl erase d).items = d.items.filter fun kv => kv.1 ∉ l := by
  induction l generalizing d with
  | nil => simp
  | cons k rest ih =>
      rw [List.foldl_cons, ih, items_erase, List.filter_filter]
      refine List.filter_congr fun kv _ => ?_
      by_cases hk : kv.1 = k <;> simp [hk]

theorem erase_of_get?_eq_none {d : Dict α β} {k : α} (h : d.get? k = none) : d.erase k = d := by
  refine ext (List.filter_eq_self.mpr fun kv hkv => ?_)
  have hne : kv.1 ≠ k := fun hk => get?_eq_none.mp h (mem_keys.mpr ⟨kv.2, hk ▸ hkv⟩)
  simpa using hne

/-- A new key is put last. -/
theorem items_set_of_get?_eq_none {d : Dict α β} {k : α} (h : d.get? k = none) (v : β) :
    (d.set k v).items = d.items ++ [(k, v)] := by
  rw [set, dif_neg (get?_eq_none.mp h)]
  rfl

/-- A present item, and the others. -/
theorem perm_of_get? {d : Dict α β} {k : α} {v : β} (h : d.get? k = some v) :
    d.items.Perm ((k, v) :: (d.erase k).items) := by
  have hfilter : d.items.filter (fun kv => kv.1 = k) = [(k, v)] := by
    have hvalues := filter_items_eq d k
    rw [h, Option.toList_some, List.map_eq_singleton_iff] at hvalues
    obtain ⟨⟨k', v'⟩, hitem, rfl⟩ := hvalues
    have hmem : (k', v') ∈ d.items.filter fun kv => kv.1 = k := hitem ▸ List.mem_singleton_self _
    have hk : k' = k := of_decide_eq_true (List.mem_filter.mp hmem).2
    rw [hitem, hk]
  have hperm := List.filter_append_perm (fun kv : α × β => decide (kv.1 = k)) d.items
  rw [hfilter] at hperm
  refine hperm.symm.trans ?_
  rw [items_erase]
  simp

theorem perm_set (d : Dict α β) (k : α) (v : β) :
    (d.set k v).items.Perm ((k, v) :: (d.erase k).items) := by
  have hperm := perm_of_get? (d := d.set k v) (k := k) (v := v) (by simp)
  have herase : ((d.set k v).erase k).items = (d.erase k).items :=
    filter_items_set d v (p := fun k' => decide (k' ≠ k)) (by simp)
  rwa [herase] at hperm

/-! ### The items, whatever their order -/

omit [DecidableEq α] in
theorem items_nodup (d : Dict α β) : d.items.Nodup := List.Nodup.of_map Prod.fst d.nodup

/-- **Two dictionaries are the same map exactly if they have the same items.** -/
theorem perm_items_iff {d d' : Dict α β} :
    d.items.Perm d'.items ↔ ∀ k, d.get? k = d'.get? k := by
  rw [List.perm_ext_iff_of_nodup d.items_nodup d'.items_nodup]
  constructor
  · intro h k
    exact get?_congr fun v => h (k, v)
  · rintro h ⟨k, v⟩
    rw [← get?_eq_some, ← get?_eq_some, h k]

omit [DecidableEq α] in
/-- **Sorted by their keys, the items of one map are one list**: keys do not repeat. -/
theorem insertionSort_items_eq [LinearOrder α] [DecidableRel fun a b : α × β => a.1 ≤ b.1]
    {d d' : Dict α β} (h : d.items.Perm d'.items) :
    d.items.insertionSort (fun a b => a.1 ≤ b.1) =
      d'.items.insertionSort fun a b => a.1 ≤ b.1 := by
  have hpairwise : ∀ l : List (α × β),
      (l.insertionSort fun a b => a.1 ≤ b.1).Pairwise fun a b => a.1 ≤ b.1 := fun l =>
    have : Std.Total fun a b : α × β => a.1 ≤ b.1 := ⟨fun a b => le_total a.1 b.1⟩
    have : IsTrans (α × β) fun a b => a.1 ≤ b.1 := ⟨fun _ _ _ => le_trans⟩
    List.pairwise_insertionSort _ l
  have hperm : (d.items.insertionSort fun a b => a.1 ≤ b.1).Perm
      (d'.items.insertionSort fun a b => a.1 ≤ b.1) :=
    (List.perm_insertionSort _ _).trans (h.trans (List.perm_insertionSort _ _).symm)
  refine hperm.eq_of_pairwise (fun a b ha hb hle hge => ?_) (hpairwise _) (hpairwise _)
  have ha' : a ∈ d.items := (List.perm_insertionSort _ _).subset ha
  have hb' : b ∈ d.items := h.symm.subset ((List.perm_insertionSort _ _).subset hb)
  exact List.inj_on_of_nodup_map d.nodup ha' hb' (le_antisymm hle hge)

/-! ### The sum of the values -/

section Sum

variable {M : Type} [AddCommGroup M] (f : β → M)

/-- The sum of what the values count. -/
def sum (d : Dict α β) : M := (d.items.map fun kv => f kv.2).sum

theorem sum_set (d : Dict α β) (k : α) (v : β) : (d.set k v).sum f = f v + (d.erase k).sum f := by
  rw [sum, ((perm_set d k v).map _).sum_eq]
  rfl

theorem sum_erase {d : Dict α β} {k : α} {v : β} (h : d.get? k = some v) :
    (d.erase k).sum f = d.sum f - f v := by
  rw [eq_sub_iff_add_eq', sum, sum, ((perm_of_get? h).map _).sum_eq]
  rfl

theorem sum_moveToEnd (d : Dict α β) (k : α) : (d.moveToEnd k).sum f = d.sum f := by
  unfold moveToEnd
  split
  · rfl
  · rename_i v hv
    have hgone : (d.erase k).get? k = none := by simp
    rw [sum_set, erase_of_get?_eq_none hgone, sum_erase f hv, add_sub_cancel]

omit [DecidableEq α] in
theorem sum_popFirst? {d d' : Dict α β} {kv : α × β} (h : d.popFirst? = some (kv, d')) :
    d'.sum f = d.sum f - f kv.2 := by
  rw [eq_sub_iff_add_eq', sum, sum, popFirst?_eq_some.mp h]
  rfl

end Sum

end Dict

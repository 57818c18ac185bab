/-
The directories of the cold tier: what they are named, and what they give back.

A directory is named after its key, with the characters that file systems object to
rewritten to underscores.  A dot is not one of them.  So where nothing is left of a key
but one dot or two, the directory is the cold directory itself or the one it is in, and
all other keys have a directory inside the cold one.

A directory holds the entry as two files.  The metadata is a list of fields written by
hand, and read by hand in a second place, and two fields of an entry are in neither: the
stale window and the vary fields.
-/
import Cdn.Proofs.TieredMap

namespace Cdn

open Paths

variable {β : Type}

/-! ### Underscores -/

theorem collapseUnderscores_cons (c : Char) (l : List Char) :
    collapseUnderscores (c :: l) =
      if c = '_' ∧ l.head? = some '_' then collapseUnderscores l
      else c :: collapseUnderscores l := by
  by_cases h : c = '_' ∧ l.head? = some '_'
  · obtain ⟨hc, hl⟩ := h
    obtain ⟨rest, rfl⟩ : ∃ rest, l = '_' :: rest := List.head?_eq_some_iff.mp hl
    rw [if_pos ⟨hc, hl⟩, hc, collapseUnderscores]
  · rw [if_neg h, collapseUnderscores]
    rintro rest rfl rfl
    exact h ⟨rfl, rfl⟩

theorem collapseUnderscores_singleton (c : Char) : collapseUnderscores [c] = [c] := by
  rw [collapseUnderscores_cons, if_neg (by simp)]
  rfl

/-- A character at the end stays, unless it is an underscore behind an underscore. -/
theorem collapseUnderscores_concat (l : List Char) (c : Char) :
    collapseUnderscores (l ++ [c]) = collapseUnderscores l ++ [c] ∨
      c = '_' ∧ collapseUnderscores (l ++ [c]) = collapseUnderscores l := by
  induction l with
  | nil => exact Or.inl (collapseUnderscores_singleton c)
  | cons x rest ih =>
      rw [List.cons_append, collapseUnderscores_cons, collapseUnderscores_cons]
      cases rest with
      | nil =>
          have hnil : ¬ (x = '_' ∧ ([] : List Char).head? = some '_') := by simp
          rw [List.nil_append, collapseUnderscores_singleton, if_neg hnil]
          by_cases h : x = '_' ∧ c = '_'
          · refine Or.inr ⟨h.2, ?_⟩
            rw [if_pos ⟨h.1, by rw [h.2]; rfl⟩, h.1, h.2]
            rfl
          · refine Or.inl ?_
            rw [if_neg fun hc => h ⟨hc.1, by simpa using hc.2⟩]
            rfl
      | cons y rest =>
          rw [List.cons_append, List.head?_cons, List.head?_cons, ← List.cons_append]
          split
          · exact ih
          · refine ih.imp (fun h => ?_) fun h => ⟨h.1, ?_⟩
            · rw [h, List.cons_append]
            · rw [h.2]

theorem mem_collapseUnderscores {c : Char} {l : List Char} :
    c ∈ collapseUnderscores l ↔ c ∈ l := by
  induction l with
  | nil => rfl
  | cons x rest ih =>
      rw [collapseUnderscores_cons, List.mem_cons]
      split
      · rename_i h
        rw [ih]
        refine ⟨Or.inr, fun hc => hc.elim (fun hx => ?_) id⟩
        rw [hx, h.1]
        exact List.mem_of_mem_head? h.2
      · rw [List.mem_cons, ih]

theorem collapseUnderscores_of_notMem {l : List Char} (h : '_' ∉ l) :
    collapseUnderscores l = l := by
  induction l with
  | nil => rfl
  | cons x rest ih =>
      rw [List.mem_cons, not_or] at h
      rw [collapseUnderscores_cons, if_neg fun hx => h.1 hx.1.symm, ih h.2]

/-- What has no underscore in it was not collapsed. -/
theorem collapseUnderscores_eq_iff {l m : List Char} (hm : '_' ∉ m) :
    collapseUnderscores l = m ↔ l = m := by
  constructor
  · rintro rfl
    exact (collapseUnderscores_of_notMem fun h => hm (mem_collapseUnderscores.mpr h)).symm
  · rintro rfl
    exact collapseUnderscores_of_notMem hm

theorem dropWhile_collapseUnderscores (l : List Char) :
    (collapseUnderscores l).dropWhile (· = '_') = collapseUnderscores (l.dropWhile (· = '_')) := by
  induction l with
  | nil => rfl
  | cons x rest ih =>
      rw [collapseUnderscores_cons]
      by_cases hx : x = '_'
      · rw [List.dropWhile_cons_of_pos (by simpa using hx)]
        split
        · exact ih
        · rw [List.dropWhile_cons_of_pos (by simpa using hx), ih]
      · rw [if_neg fun h => hx h.1, List.dropWhile_cons_of_neg (by simpa using hx),
          List.dropWhile_cons_of_neg (by simpa using hx), collapseUnderscores_cons,
          if_neg fun h => hx h.1]

theorem rdropWhile_collapseUnderscores (l : List Char) :
    (collapseUnderscores l).rdropWhile (· = '_') =
      collapseUnderscores (l.rdropWhile (· = '_')) := by
  induction l using List.reverseRecOn with
  | nil => rfl
  | append_singleton l c ih =>
      by_cases hc : c = '_'
      · rw [List.rdropWhile_concat_pos _ _ _ (by simpa using hc), ← ih]
        rcases collapseUnderscores_concat l c with h | ⟨-, h⟩
        · rw [h, List.rdropWhile_concat_pos _ _ _ (by simpa using hc)]
        · rw [h]
      · have h := (collapseUnderscores_concat l c).resolve_right fun h => hc h.1
        rw [h, List.rdropWhile_concat_neg _ _ _ (by simpa using hc),
          List.rdropWhile_concat_neg _ _ _ (by simpa using hc), h]

/-! ### The name of a directory -/

/-- What `_url_safe_key` makes an underscore. -/
def rewritten (c : Char) : Bool := c ∈ problematicChars ∨ c = '_'

/-- Nothing is left of the key, without what is rewritten at both its ends, but one dot or
two. -/
def DotKey (key : String) : Prop :=
  (key.toList.dropWhile rewritten).rdropWhile rewritten = ['.'] ∨
    (key.toList.dropWhile rewritten).rdropWhile rewritten = ['.', '.']

instance (key : String) : Decidable (DotKey key) := inferInstanceAs (Decidable (_ ∨ _))

/-- A key, rewritten character by character. -/
def underscored (l : List Char) : List Char :=
  l.map fun c => if c ∈ problematicChars then '_' else c

theorem rewritten_iff (c : Char) :
    (if c ∈ problematicChars then '_' else c) = '_' ↔ rewritten c = true := by
  unfold rewritten
  by_cases h : c ∈ problematicChars <;> simp [h]

theorem stripUnderscores_underscored (l : List Char) :
    stripUnderscores (underscored l) =
      underscored ((l.dropWhile rewritten).rdropWhile rewritten) := by
  have hp : ((fun c : Char => decide (c = '_')) ∘
      fun c => if c ∈ problematicChars then '_' else c) = rewritten := by
    funext c
    rw [Function.comp_apply, Bool.eq_iff_iff, decide_eq_true_eq, rewritten_iff]
  have hdrop : ∀ l : List Char,
      (underscored l).dropWhile (· = '_') = underscored (l.dropWhile rewritten) := fun l => by
    rw [underscored, List.dropWhile_map, hp, underscored]
  rw [stripUnderscores, hdrop, List.rdropWhile, List.rdropWhile]
  have hreverse : ∀ l : List Char, (underscored l).reverse = underscored l.reverse := fun l =>
    List.map_reverse.symm
  rw [hreverse, hdrop, hreverse]

/-- The text a name is made of: what is left of the key, rewritten and collapsed. -/
theorem urlSafeKey_eq (key : String) : urlSafeKey key =
    let safe := collapseUnderscores
      (underscored ((key.toList.dropWhile rewritten).rdropWhile rewritten))
    if safe = [] then "_empty_" else String.ofList safe := by
  have hstrip : stripUnderscores (collapseUnderscores (underscored key.toList)) =
      collapseUnderscores (stripUnderscores (underscored key.toList)) := by
    rw [stripUnderscores, dropWhile_collapseUnderscores, rdropWhile_collapseUnderscores,
      stripUnderscores]
  rw [← stripUnderscores_underscored, ← hstrip]
  rfl

/-- Only dots are rewritten to dots. -/
theorem underscored_eq_dots (n : Nat) (l : List Char) :
    underscored l = List.replicate n '.' ↔ l = List.replicate n '.' := by
  have hdot : ∀ c : Char, (if c ∈ problematicChars then '_' else c) = '.' ↔ c = '.' := fun c => by
    by_cases h : c ∈ problematicChars
    · rw [if_pos h]
      refine iff_of_false (by decide) ?_
      rintro rfl
      exact absurd h (by decide)
    · rw [if_neg h]
  rw [List.eq_replicate_iff, List.eq_replicate_iff, underscored, List.length_map]
  simp only [List.forall_mem_map, hdot]

theorem urlSafeKey_eq_dots (n : Nat) (key : String) (hn : n ≠ 0) :
    urlSafeKey key = String.ofList (List.replicate n '.') ↔
      (key.toList.dropWhile rewritten).rdropWhile rewritten = List.replicate n '.' := by
  have hnot : '_' ∉ List.replicate n '.' := fun h => absurd (List.eq_of_mem_replicate h) (by decide)
  rw [urlSafeKey_eq, ← underscored_eq_dots, ← collapseUnderscores_eq_iff hnot]
  generalize collapseUnderscores _ = safe
  dsimp only
  split
  · rename_i h
    rw [h]
    refine iff_of_false (fun hempty => ?_) fun hnil => hn (List.replicate_eq_nil_iff _ |>.mp hnil.symm)
    have hchars : "_empty_".toList = List.replicate n '.' := by
      rw [hempty, String.toList_ofList]
    exact hnot (by rw [← hchars]; decide)
  · exact String.ofList_inj

theorem urlSafeKey_dot_iff (key : String) :
    (urlSafeKey key = "." ∨ urlSafeKey key = "..") ↔ DotKey key :=
  or_congr (urlSafeKey_eq_dots 1 key (by decide)) (urlSafeKey_eq_dots 2 key (by decide))

/-- The name is never empty, and has no slash. -/
theorem urlSafeKey_name (key : String) :
    (urlSafeKey key).toList ≠ [] ∧ '/' ∉ (urlSafeKey key).toList := by
  rw [urlSafeKey_eq]
  dsimp only
  split
  · decide
  · rename_i h
    rw [String.toList_ofList]
    refine ⟨h, fun hslash => ?_⟩
    obtain ⟨c, -, hc⟩ := List.mem_map.mp (mem_collapseUnderscores.mp hslash)
    by_cases hin : c ∈ problematicChars
    · rw [if_pos hin] at hc
      exact absurd hc (by decide)
    · rw [if_neg hin] at hc
      exact hin (hc ▸ by decide)

theorem isName_urlSafeKey (key : String) : IsName (urlSafeKey key).toList ↔ ¬ DotKey key := by
  obtain ⟨hnil, hslash⟩ := urlSafeKey_name key
  have hlist : ∀ name : String, (urlSafeKey key).toList = name.toList ↔ urlSafeKey key = name :=
    fun _ => String.toList_inj
  rw [← urlSafeKey_dot_iff, not_or, ← hlist, ← hlist]
  exact ⟨fun h => ⟨h.2.1, h.2.2.1⟩, fun h => ⟨hnil, h.1, h.2, hslash⟩⟩

/-! ### Inside the cold directory -/

/-- `p` is in the directory `d`, under one name. -/
def DirectChild (d p : Resolved) : Prop := ∃ name, ∃ h : IsName name, p = d.child name h

theorem enter_child {d : Resolved} {name : List Char} (h : IsName name) :
    d.enter name = d.child name h := by
  rw [Resolved.enter, if_neg h.2.2.1, dif_pos h]

theorem not_directChild_of_length {d p : Resolved} (h : p.names.length ≤ d.names.length) :
    ¬ DirectChild d p := by
  rintro ⟨name, hname, rfl⟩
  have hlength : (d.child name hname).names.length = d.names.length + 1 := by
    rw [Resolved.child, List.length_append, List.length_singleton]
  omega

/-- A segment leads to a child exactly if it is a name. -/
theorem directChild_enter_iff (d : Resolved) (segment : List Char) :
    DirectChild d (d.enter segment) ↔ IsName segment := by
  constructor
  · intro hchild
    by_contra hname
    refine not_directChild_of_length ?_ hchild
    rw [Resolved.enter]
    split
    · rw [Resolved.parent, List.length_dropLast]
      omega
    · exact Nat.le_refl _
  · exact fun h => ⟨segment, h, enter_child h⟩

theorem directChild_keyDir_iff (coldDir : Resolved) (key : String) :
    DirectChild coldDir (keyDir coldDir key) ↔ ¬ DotKey key :=
  (directChild_enter_iff coldDir _).trans (isName_urlSafeKey key)

namespace TieredCacheStore

variable {s : TieredCacheStore β} {key k : String} {now : Time} {op : StoreOp β}

/-- The directories of the demotions that filing an entry in the hot tier queues. -/
def demotedTo (coldDir : Resolved) (s : TieredCacheStore β) (key : String)
    (e : CacheEntry β) : List Resolved :=
  ((s.coldDelete key).2.hotPut key e).pendingDemotions.map fun ke => keyDir coldDir ke.1

/-- The directories whose files an operation reads, writes or removes. -/
def touched (coldDir : Resolved) (s : TieredCacheStore β) (now : Time) : StoreOp β → List Resolved
  | .get key =>
      match s.hot.store.get? key, s.coldRead key with
      | some _, _ => []
      | none, none => [keyDir coldDir key]
      | none, some e =>
          if e.isExpired now then [keyDir coldDir key]
          else keyDir coldDir key :: s.demotedTo coldDir key (e.touch now)
  | .put key e => keyDir coldDir key :: s.demotedTo coldDir key e
  | .delete key => [keyDir coldDir key]
  | .deleteByPrefix _ | .keys => s.cold.items.map fun d => coldDir.enter d.1.toList

/-- The operation keeps to the directories in the cold one. -/
def Confined (coldDir : Resolved) (s : TieredCacheStore β) (a : Time × StoreOp β) : Prop :=
  ∀ p ∈ s.touched coldDir a.1 a.2, DirectChild coldDir p

/-- The key of an operation leaves more than dots. -/
def Undotted (op : StoreOp β) : Prop := ∀ key ∈ op.key?, ¬ DotKey key

instance (op : StoreOp β) : Decidable (Undotted op) := inferInstanceAs (Decidable (∀ _ ∈ _, _))

def step (s : TieredCacheStore β) (a : Time × StoreOp β) : Option (TieredCacheStore β) :=
  some (s.perform a.1 a.2).2

/-- All keys that hold an entry leave more than dots. -/
structure Inside (s : TieredCacheStore β) : Prop where
  tidy : s.Tidy
  undotted : ∀ k, (s.held k).isSome = true → ¬ DotKey k

/-! ### The keys that hold an entry -/

theorem held_isSome : (s.held k).isSome = true ↔
    (s.hot.store.get? k).isSome = true ∨ (s.coldAt k).isSome = true := by
  cases hhot : s.hot.store.get? k with
  | some e => simp [held_of_hot hhot]
  | none => simp [held_of_cold hhot]

/-- Who has an entry after one was put had one before, or is the key it was put under; the cold
tier need only keep to that for the keys that made no room. -/
theorem held_isSome_of_put {s' : TieredCacheStore β} {e : CacheEntry β}
    (hget : ∀ k, s'.hot.store.get? k =
      if k = key then some e
      else if k ∈ (s.displaced key e.size).map Prod.fst then none else s.hot.store.get? k)
    (hcold : k ∉ (s.displaced key e.size).map Prod.fst → (s'.coldAt k).isSome = true →
      (s.coldAt k).isSome = true)
    (h : (s'.held k).isSome = true) : (s.held k).isSome = true ∨ k = key := by
  by_cases hdisplaced : k ∈ (s.displaced key e.size).map Prod.fst
  · obtain ⟨ke, hke, rfl⟩ := List.mem_map.mp hdisplaced
    exact Or.inl (held_isSome.mpr (Or.inl (by rw [(mem_displaced hke).2]; rfl)))
  · by_cases hk : k = key
    · exact Or.inr hk
    · rw [held_isSome, hget, if_neg hk, if_neg hdisplaced] at h
      exact Or.inl (held_isSome.mpr (h.imp id (hcold hdisplaced)))

theorem held_put_isSome (tidy : s.Tidy) {e : CacheEntry β}
    (h : ((s.put key e).held k).isSome = true) : (s.held k).isSome = true ∨ k = key := by
  obtain ⟨-, -, hget⟩ := put_spec tidy key e
  refine held_isSome_of_put hget (fun hdisplaced hcold => ?_) h
  rw [coldAt_put_of_not_displaced tidy hdisplaced] at hcold
  split at hcold
  · cases hcold
  · exact hcold

theorem held_coldDelete_isSome (h : ((s.coldDelete key).2.held k).isSome = true) :
    (s.held k).isSome = true := by
  rw [held_isSome, coldDelete_hot, coldAt_coldDelete] at h
  refine held_isSome.mpr (h.imp id fun hcold => ?_)
  split at hcold
  · cases hcold
  · exact hcold

/-- An operation adds an entry for its own key at most. -/
theorem held_perform_isSome (tidy : s.Tidy)
    (h : ((s.perform now op).2.held k).isSome = true) :
    (s.held k).isSome = true ∨ op.key? = some k := by
  cases op with
  | get key =>
      replace h : ((s.get now key).2.held k).isSome = true := h
      have hgets := gets s now key
      generalize (s.get now key).1 = result at hgets
      generalize (s.get now key).2 = s' at hgets h
      cases hgets with
      | hot hhot =>
          refine Or.inl (held_isSome.mpr ((held_isSome.mp h).imp (fun hstore => ?_) id))
          rw [LruCacheStore.get?_get] at hstore
          split at hstore
          · rename_i hk
            rw [hk, hhot]
            rfl
          · exact hstore
      | absent _ _ hsame => exact Or.inl (hsame.held k ▸ h)
      | expired _ _ _ hsame hdeleted =>
          rw [hdeleted.held] at h
          exact Or.inl (hsame.held k ▸ held_coldDelete_isSome h)
      | promoted _ _ _ hsame =>
          refine (held_put_isSome (hsame.tidy tidy) h).imp (fun hold => hsame.held k ▸ hold) ?_
          rintro rfl
          rfl
  | put key e =>
      refine (held_put_isSome tidy h).imp id ?_
      rintro rfl
      rfl
  | delete key =>
      by_cases hk : k = key
      · exact Or.inr (by rw [hk]; rfl)
      · left
        replace h : ((s.delete key).2.held k).isSome = true := h
        rw [delete_snd] at h
        have hhot := held_coldDelete_isSome h
        rw [held_isSome] at hhot ⊢
        refine hhot.imp (fun hstore => ?_) id
        rw [hotDelete_get?, if_neg hk] at hstore
        exact hstore
  | deleteByPrefix keyPrefix =>
      replace h : ((s.deleteByPrefix keyPrefix).2.held k).isSome = true := h
      rw [held_deleteByPrefix] at h
      split at h
      · cases h
      · exact Or.inl h
  | keys =>
      replace h : ((s.keys now).2.held k).isSome = true := h
      rw [held_keys tidy] at h
      cases hheld : s.held k with
      | none =>
          rw [hheld] at h
          cases h
      | some e => exact Or.inl rfl

/-! ### Runs -/

theorem inside_init (m : Int) : Inside (init m : TieredCacheStore β) where
  tidy := ⟨fun _ _ h => (by cases h), fun _ _ h => (by cases h), rfl⟩
  undotted := fun _ h => by cases h

theorem Inside.perform (h : s.Inside) (hop : Undotted op) : (s.perform now op).2.Inside where
  tidy := tidy_perform h.tidy now op
  undotted := fun k hk => by
    rcases held_perform_isSome h.tidy hk with hold | hkey
    · exact h.undotted k hold
    · exact hop k hkey

/-- What a `put` demotes has been put. -/
theorem Inside.demotedTo (h : s.Inside) (coldDir : Resolved) (key : String) (e : CacheEntry β) :
    ∀ p ∈ s.demotedTo coldDir key e, DirectChild coldDir p := by
  intro p hp
  obtain ⟨ke, hke, rfl⟩ := List.mem_map.mp hp
  obtain ⟨-, hpending, -⟩ := hotPut_coldDelete_spec h.tidy key e
  rw [hpending] at hke
  have hhot := (mem_displaced hke).2
  exact (directChild_keyDir_iff coldDir ke.1).mpr
    (h.undotted ke.1 (held_isSome.mpr (Or.inl (by rw [hhot]; rfl))))

/-- The directories that are there are in the cold one. -/
theorem Inside.directory (h : s.Inside) (coldDir : Resolved) {d : String × ColdEntry β}
    (hd : d ∈ s.cold.items) : DirectChild coldDir (coldDir.enter d.1.toList) := by
  obtain ⟨hname, hat, -⟩ := h.tidy.of_mem_cold hd
  have hundotted := h.undotted d.2.owner (held_isSome.mpr (Or.inr (by rw [hat]; rfl)))
  rw [← hname]
  exact (directChild_keyDir_iff coldDir d.2.owner).mpr hundotted

/-- As long as all keys leave more than dots, an operation keeps inside exactly if its own
key does. -/
theorem Inside.keeps_iff (h : s.Inside) (coldDir : Resolved) :
    s.Confined coldDir (now, op) ↔ Undotted op := by
  have hkey : ∀ key, (∀ p ∈ [keyDir coldDir key], DirectChild coldDir p) ↔ ¬ DotKey key :=
    fun key => by rw [List.forall_mem_singleton, directChild_keyDir_iff]
  have hundotted : ∀ key : String, (∀ k ∈ some key, ¬ DotKey k) ↔ ¬ DotKey key := fun key => by
    simp only [Option.mem_def, Option.some.injEq, forall_eq']
  cases op with
  | get key =>
      show (∀ p ∈ s.touched coldDir now (.get key), _) ↔ ∀ k ∈ some key, ¬ DotKey k
      rw [hundotted, touched]
      cases hhot : s.hot.store.get? key with
      | some e =>
          exact iff_of_true (fun _ hp => absurd hp List.not_mem_nil)
            (h.undotted key (held_isSome.mpr (Or.inl (by rw [hhot]; rfl))))
      | none =>
          cases s.coldRead key with
          | none => exact hkey key
          | some e =>
              dsimp only
              split
              · exact hkey key
              · rw [List.forall_mem_cons, directChild_keyDir_iff]
                exact and_iff_left (h.demotedTo coldDir key _)
  | put key e =>
      show (∀ p ∈ keyDir coldDir key :: s.demotedTo coldDir key e, _) ↔ ∀ k ∈ some key, ¬ DotKey k
      rw [hundotted, List.forall_mem_cons, directChild_keyDir_iff]
      exact and_iff_left (h.demotedTo coldDir key e)
  | delete key => exact (hkey key).trans (hundotted key).symm
  | deleteByPrefix keyPrefix =>
      refine iff_of_true (fun p hp => ?_) fun _ hk => by cases hk
      obtain ⟨d, hd, rfl⟩ := List.mem_map.mp hp
      exact h.directory coldDir hd
  | keys =>
      refine iff_of_true (fun p hp => ?_) fun _ hk => by cases hk
      obtain ⟨d, hd, rfl⟩ := List.mem_map.mp hp
      exact h.directory coldDir hd

/--
**When the cold tier keeps to its directory.**  The directory of a key is a child of the
cold directory exactly if the key leaves more than dots; and in every run every operation
keeps to such directories exactly if the keys of all of them do.
-/
theorem confined_iff_undotted (coldDir : Resolved) :
    (∀ key, DirectChild coldDir (keyDir coldDir key) ↔ ¬ DotKey key) ∧
      ∀ (m : Int) (p : List (Time × StoreOp β)),
        Lts.EachStep step (Confined coldDir) (init m) p ↔ ∀ a ∈ p, Undotted a.2 := by
  refine ⟨directChild_keyDir_iff coldDir, fun m p => ?_⟩
  have hsteps : Lts.EachStep step (Confined coldDir) (init m) p ↔
      Lts.EachStep step (fun (_ : TieredCacheStore β) a => Undotted a.2) (init m) p :=
    Lts.eachStep_congr_guarded
    (fun s a s' (h : Inside s) hop hstep => by
      cases Option.some.inj hstep
      exact h.perform hop)
    (fun s a s' h _ => h.keeps_iff coldDir) p (inside_init m)
  rw [hsteps]
  refine ⟨fun h => ?_, fun h => Lts.eachStep_of_forall h⟩
  generalize (init m : TieredCacheStore β) = s at h
  clear hsteps
  induction p generalizing s with
  | nil => exact fun a ha => absurd ha List.not_mem_nil
  | cons a rest ih =>
      obtain ⟨ha, hrest⟩ := h _ rfl
      exact List.forall_mem_cons.mpr ⟨ha, ih _ hrest⟩

/-- `/tmp/cdn_cold_cache`, which is the default. -/
def defaultColdDir : Resolved := ⟨["tmp".toList, "cdn_cold_cache".toList], by decide⟩

/-- The key `..` has the directory that the cold one is in. -/
theorem notConfined_parent :
    ¬ ∀ (coldDir : Resolved) (key : String), DirectChild coldDir (keyDir coldDir key) := by
  intro h
  have hparent : keyDir defaultColdDir ".." = defaultColdDir.parent := by decide +kernel
  exact not_directChild_of_length (by rw [hparent]; decide) (h defaultColdDir "..")

/-! ### Written and read back -/

theorem coldRead_coldWrite (s : TieredCacheStore β) (key : String) (e : CacheEntry β) :
    (s.coldWrite key e).coldRead key = some e.demoted := by
  rw [coldRead, coldWrite, Dict.get?_set, if_pos rfl]
  rfl

/--
**What the cold tier gives back.**  An entry that is written is read back as it was exactly
if it has no stale window and names no vary fields.
-/
theorem roundTrip_iff (s : TieredCacheStore β) (key : String) (e : CacheEntry β) :
    (s.coldWrite key e).coldRead key = some e ↔
      e.staleWhileRevalidate = 0 ∧ e.varyHeaders = none := by
  rw [coldRead_coldWrite, Option.some.injEq]
  constructor
  · intro h
    exact ⟨(congrArg CacheEntry.staleWhileRevalidate h).symm,
      (congrArg CacheEntry.varyHeaders h).symm⟩
  · rintro ⟨hwindow, hvary⟩
    rw [CacheEntry.demoted, ← hwindow, ← hvary]

/-- An entry that may be served for half a minute after it has expired. -/
def windowEntry : CacheEntry Nat := { Session.sampleEntry 7 with staleWhileRevalidate := 30 }

theorem notRoundTrip_window : ¬ ∀ (s : TieredCacheStore Nat) (key : String) (e : CacheEntry Nat),
    (s.coldWrite key e).coldRead key = some e := by
  intro h
  have hread := h (init 1) "GET:a" windowEntry
  rw [coldRead_coldWrite, Option.some.injEq] at hread
  exact absurd (congrArg CacheEntry.staleWhileRevalidate hread) (by decide +kernel)

end TieredCacheStore

end Cdn

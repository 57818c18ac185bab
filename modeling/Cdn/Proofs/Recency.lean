/-
What the in-memory store keeps, and in which order.

The order is said twice: the dictionary moves a key to the end whenever it is used, and
the history of calls says when that was.  The keys of the store are always a part of the
keys by their last use, in the same order, since a deletion takes keys out and moves none.

The eviction loop stops at the first suffix of that order that leaves room, and so at the
longest.  Whether sizes are negative makes no difference to that: the loop tests one suffix
after the other.
-/
import Cdn.Lib.Recency
import Cdn.Proofs.Lru

namespace Cdn

variable {β : Type}

open Recency

/-- The key that a call has used: by a `put`, or by a `get` that found it. -/
def LruCall.use? (c : LruCall β) : Option String :=
  match c.op, c.answer with
  | .put key _, _ => some key
  | .get key, .entry (some _) => some key
  | _, _ => none

/-- The bytes of a list of entries. -/
def bytes (l : List (String × CacheEntry β)) : Int := (l.map fun ke => ke.2.size).sum

namespace LruCacheStore

variable {s : LruCacheStore β}

/-! ### Making room -/

/-- The loop leaves the longest suffix that has room. -/
theorem longestSuffix_evictLoop (needed : Int) (fuel : Nat) (s : LruCacheStore β)
    (hbalanced : s.Balanced) (hfuel : s.store.items.length ≤ fuel) :
    LongestSuffix (fun l => bytes l + needed ≤ s.maxSizeBytes) s.store.items
      (evictLoop needed fuel s).store.items := by
  induction fuel generalizing s with
  | zero =>
      have hnil : s.store.items = [] := List.length_eq_zero_iff.mp (Nat.le_zero.mp hfuel)
      rw [evictLoop, hnil]
      exact longestSuffix_nil _
  | succ fuel ih =>
      have hbytes : bytes s.store.items = s.currentSizeBytes := hbalanced.symm
      rw [evictLoop]
      split
      · rename_i h
        obtain ⟨ke, rest, hpop⟩ := Dict.exists_popFirst? h.2
        have hfirst := evicts_evictLru hpop
        have hitems : s.store.items = ke :: s.evictLru.store.items := hfirst.items
        have hlength : s.evictLru.store.items.length ≤ fuel := by
          rw [hitems, List.length_cons] at hfuel
          omega
        have hrest := ih s.evictLru (hfirst.balanced hbalanced) hlength
        rw [hfirst.maxSizeBytes] at hrest
        rw [hitems]
        refine hrest.cons fun hroom => ?_
        rw [← hitems, hbytes] at hroom
        omega
      · rename_i h
        by_cases hnil : s.store.items = []
        · rw [hnil]
          exact longestSuffix_nil _
        · refine longestSuffix_self ?_
          rw [hbytes]
          exact Int.not_lt.mp fun hlt => h ⟨hlt, hnil⟩

/-- A `put` keeps the longest suffix of the other entries that has room for its own. -/
theorem longestSuffix_put (hbalanced : s.Balanced) (key : String) (entry : CacheEntry β) :
    ∃ kept, LongestSuffix (fun l => bytes l + entry.size ≤ s.maxSizeBytes)
        (s.store.erase key).items kept ∧
      (s.put key entry).store.items = kept ++ [(key, entry)] := by
  refine ⟨_, ?_, s.items_put key entry⟩
  rw [← removeEntry_store, ← (sameCounts_removeEntry s key).maxSizeBytes]
  exact longestSuffix_evictLoop entry.size _ _ (hbalanced.removeEntry key) (Nat.le_refl _)

/-! ### The order of the keys -/

/-- A read that finds its key makes it the latest. -/
theorem keys_get {key : String} {e : CacheEntry β} (h : s.store.get? key = some e) (now : Time) :
    (s.get now key).2.store.keys = (s.store.keys.filter fun k => k ≠ key) ++ [key] := by
  have hgone : (s.store.erase key).get? key = none := by simp
  have hmoved : (s.store.moveToEnd key).items = (s.store.erase key).items ++ [(key, e)] := by
    rw [Dict.moveToEnd, h]
    exact Dict.items_set_of_get?_eq_none hgone e
  have hset : ((s.store.moveToEnd key).set key (e.touch now)).keys =
      (s.store.moveToEnd key).keys := by
    have hmem : key ∈ (s.store.moveToEnd key).keys := by
      rw [Dict.keys, hmoved]
      simp
    rw [Dict.set, dif_pos hmem]
    show ((s.store.moveToEnd key).items.map _).map Prod.fst = _
    rw [List.map_map]
    refine List.map_congr_left fun ke _ => ?_
    by_cases hk : ke.1 = key <;> simp [hk]
  rw [get, h]
  show ((s.store.moveToEnd key).set key (e.touch now)).keys = _
  rw [hset, Dict.keys, hmoved, List.map_append, Dict.items_erase, List.map_singleton, Dict.keys,
    List.filter_map]
  rfl

/-- After a `put` its key is the latest, and of the others some are left, in their order. -/
theorem keys_put (s : LruCacheStore β) (key : String) (entry : CacheEntry β) :
    ∃ kept, kept.Sublist (s.store.keys.filter fun k => k ≠ key) ∧
      (s.put key entry).store.keys = kept ++ [key] := by
  obtain ⟨front, hevicts, -⟩ := roomFor_spec s key entry
  refine ⟨(s.roomFor key entry).store.keys, ?_, ?_⟩
  · have hitems := hevicts.items
    rw [removeEntry_store, Dict.items_erase] at hitems
    rw [Dict.keys, Dict.keys, List.filter_map]
    refine List.Sublist.map _ ?_
    rw [show ((fun k => decide (k ≠ key)) ∘ Prod.fst : String × CacheEntry β → Bool) =
      fun ke => decide (ke.1 ≠ key) from rfl, hitems]
    exact List.sublist_append_right _ _
  · rw [Dict.keys, items_put, List.map_append]
    rfl

end LruCacheStore

namespace LruSession

variable {s s' : LruSession β} {a : Time × LruOp β} {m : Int}

/-- The keys of the store stand in the order of their last use. -/
structure InOrderOfUse (s : LruSession β) : Prop where
  used : ∀ k ∈ s.plain.store.keys, ∃ i, LastAt LruCall.use? s.history k i
  ordered : s.plain.store.keys.Pairwise (Before LruCall.use? s.history)

/-- A `put` leaves the longest suffix of the other entries that has room for its own, as it
was, and then its own. -/
def EvictsLeast (m : Int) (s : LruSession β) (a : Time × LruOp β) : Prop :=
  ∀ key entry, a.2 = .put key entry →
    ∃ kept, LongestSuffix (fun l => bytes l + entry.size ≤ m) (s.plain.store.erase key).items kept ∧
      (s.plain.perform a.1 a.2).2.store.items = kept ++ [(key, entry)]

/-- The keys of the store are some of those in use, in the order of their last use. -/
structure Recent (m : Int) (s : LruSession β) : Prop where
  balanced : s.plain.Balanced
  maxSizeBytes : s.plain.maxSizeBytes = m
  keys : s.plain.store.keys.Sublist (recent LruCall.use? s.history)

theorem recent_start (m : Int) : Recent m (start m : LruSession β) :=
  ⟨rfl, rfl, List.Sublist.refl _⟩

theorem Recent.inOrderOfUse (h : s.Recent m) : s.InOrderOfUse where
  used := fun _ hk => exists_lastAt (h.keys.subset hk)
  ordered := (pairwise_recent s.history).sublist h.keys

theorem Recent.evictsLeast (h : s.Recent m) (a : Time × LruOp β) : s.EvictsLeast m a := by
  obtain ⟨now, op⟩ := a
  rintro key entry rfl
  obtain ⟨kept, hkept, hitems⟩ := LruCacheStore.longestSuffix_put h.balanced key entry
  rw [h.maxSizeBytes] at hkept
  exact ⟨kept, hkept, hitems⟩

/-- What a call does to the keys, its history does to the keys in use. -/
theorem keys_perform (st : LruCacheStore β) (now : Time) (op : LruOp β) (other : LruAnswer β)
    {history : List (LruCall β)}
    (h : st.store.keys.Sublist (recent LruCall.use? history)) :
    (st.perform now op).2.store.keys.Sublist
      (recent LruCall.use? (history ++ [⟨op, (st.perform now op).1, other⟩])) := by
  have hremoves : ∀ op : LruOp β, LruCacheStore.Removes op →
      (⟨op, (st.perform now op).1, other⟩ : LruCall β).use? = none →
      (st.perform now op).2.store.keys.Sublist
        (recent LruCall.use? (history ++ [⟨op, (st.perform now op).1, other⟩])) := by
    intro op hop huse
    rw [recent_of_none huse]
    exact ((st.perform_of_removes now op hop).2.map Prod.fst).trans h
  cases op with
  | get key =>
      cases hget : st.store.get? key with
      | none =>
          have hperform : st.perform now (.get key) =
              (.entry none, { st with misses := st.misses + 1 }) := by
            rw [LruCacheStore.perform, LruCacheStore.get, hget]
          rw [hperform, recent_of_none rfl]
          exact h
      | some e =>
          have hanswer : (st.perform now (.get key)).1 = .entry (some (e.touch now)) := by
            rw [LruCacheStore.perform, LruCacheStore.get, hget]
          have huse : (⟨.get key, .entry (some (e.touch now)), other⟩ : LruCall β).use? = some key :=
            rfl
          rw [hanswer, recent_of_some huse]
          show (st.get now key).2.store.keys.Sublist _
          rw [LruCacheStore.keys_get hget]
          exact (h.filter _).append (List.Sublist.refl _)
  | put key entry =>
      obtain ⟨kept, hkept, hkeys⟩ := st.keys_put key entry
      have huse : (⟨.put key entry, .done, other⟩ : LruCall β).use? = some key := rfl
      show (st.put key entry).store.keys.Sublist (recent _ (history ++ [⟨_, .done, other⟩]))
      rw [recent_of_some huse, hkeys]
      exact (hkept.trans (h.filter _)).append (List.Sublist.refl _)
  | delete key => exact hremoves (.delete key) trivial rfl
  | deleteByPrefix keyPrefix => exact hremoves (.deleteByPrefix keyPrefix) trivial rfl
  | keys => exact hremoves .keys trivial rfl
  | stats => exact hremoves .stats trivial rfl

theorem Recent.step (h : s.Recent m) (hstep : step s a = some s') : s'.Recent m := by
  obtain ⟨now, op⟩ := a
  rw [step_eq, Option.some.injEq] at hstep
  subst hstep
  exact ⟨h.balanced.perform now op, (s.plain.maxSizeBytes_perform now op).trans h.maxSizeBytes,
    keys_perform s.plain now op _ h.keys⟩

/--
**Least recently used, and no more than needed.**  In every session, after every
operation, the keys stand in the order of their last use; and every `put` keeps the longest
part of that order that leaves room for it, as it was.
-/
theorem leastRecentlyUsed (m : Int) (p : List (Time × LruOp β)) :
    Lts.Always step InOrderOfUse (start m : LruSession β) p ∧
      Lts.EachStep step (EvictsLeast m) (start m : LruSession β) p := by
  have hinv : ∀ (s : LruSession β) a s', s.Recent m → step s a = some s' → s'.Recent m :=
    fun _ _ _ h hstep => h.step hstep
  have hleast := Lts.eachStep_of_invariant hinv (fun _ a _ h _ => h.evictsLeast a) p (recent_start m)
  have hrecent : Lts.Always step (Recent m) (start m : LruSession β) p :=
    Lts.always_of_guarded (fun s a s' h _ hstep => hinv s a s' h hstep) p (recent_start m) hleast
  exact ⟨hrecent.mono fun _ h => h.inOrderOfUse, hleast⟩

end LruSession

end Cdn

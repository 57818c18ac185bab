/-
The books of the in-memory store.

The store keeps the number of bytes it holds, and changes it wherever it changes the map:
in two ways of taking an entry out, of which one counts evictions, and in one way of putting
an entry in.  `Balanced` says that the number is right, and every operation keeps it.  What
the eviction loop takes out is the front of the map, in order, and the subclass hands out
just that.

The loop ends when there is room or nothing is left.  In the second case the entry is put
whether it fits or not, and that is the one way for the store to exceed its limit.
-/
import Cdn.Infrastructure.TieredStore
import Cdn.LruCache

namespace Cdn

variable {β : Type}

@[simp] theorem CacheEntry.size_touch (e : CacheEntry β) (now : Time) :
    (e.touch now).size = e.size := rfl

namespace LruCacheStore

variable {s : LruCacheStore β} {now : Time} {key : String}

/-- The bytes of the entries that are there. -/
def total (s : LruCacheStore β) : Int := s.store.sum CacheEntry.size

def Balanced (s : LruCacheStore β) : Prop := s.currentSizeBytes = s.total

/-! ### Taking entries out -/

theorem removeEntry_store (s : LruCacheStore β) (key : String) :
    (s.removeEntry key).store = s.store.erase key := by
  unfold removeEntry
  split
  · rename_i h
    rw [Dict.erase_of_get?_eq_none h]
  · rfl

/-- An operation that changes neither the limit nor the counters. -/
structure SameCounts (s s' : LruCacheStore β) : Prop where
  hits : s'.hits = s.hits
  misses : s'.misses = s.misses
  evictions : s'.evictions = s.evictions
  maxSizeBytes : s'.maxSizeBytes = s.maxSizeBytes

theorem SameCounts.refl (s : LruCacheStore β) : SameCounts s s := ⟨rfl, rfl, rfl, rfl⟩

theorem SameCounts.trans {a b c : LruCacheStore β} (h : SameCounts a b) (h' : SameCounts b c) :
    SameCounts a c :=
  ⟨h'.hits.trans h.hits, h'.misses.trans h.misses, h'.evictions.trans h.evictions,
    h'.maxSizeBytes.trans h.maxSizeBytes⟩

theorem sameCounts_removeEntry (s : LruCacheStore β) (key : String) :
    SameCounts s (s.removeEntry key) := by
  unfold removeEntry
  split <;> exact ⟨rfl, rfl, rfl, rfl⟩

theorem Balanced.removeEntry (h : s.Balanced) (key : String) : (s.removeEntry key).Balanced := by
  unfold Balanced total LruCacheStore.removeEntry
  split
  · exact h
  · rename_i e he
    rw [Dict.sum_erase _ he, h]
    rfl

theorem foldl_removeEntry_items (keys : List String) (s : LruCacheStore β) :
    (keys.foldl removeEntry s).store.items = s.store.items.filter fun ke => ke.1 ∉ keys := by
  have hstore : (keys.foldl removeEntry s).store = keys.foldl Dict.erase s.store := by
    induction keys generalizing s with
    | nil => rfl
    | cons k rest ih => rw [List.foldl_cons, List.foldl_cons, ih, removeEntry_store]
  rw [hstore, Dict.items_foldl_erase]

theorem sameCounts_foldl_removeEntry (keys : List String) (s : LruCacheStore β) :
    SameCounts s (keys.foldl removeEntry s) := by
  induction keys generalizing s with
  | nil => exact .refl s
  | cons k rest ih => exact (sameCounts_removeEntry s k).trans (ih _)

theorem Balanced.foldl_removeEntry (h : s.Balanced) (keys : List String) :
    (keys.foldl LruCacheStore.removeEntry s).Balanced := by
  induction keys generalizing s with
  | nil => exact h
  | cons k rest ih => exact ih (h.removeEntry k)

/-! ### The eviction loop -/

/-- The store without its first entries, which were evicted. -/
structure Evicts (s : LruCacheStore β) (front : List (String × CacheEntry β))
    (s' : LruCacheStore β) : Prop where
  items : s.store.items = front ++ s'.store.items
  evictions : s'.evictions = s.evictions + front.length
  balanced : s.Balanced → s'.Balanced
  hits : s'.hits = s.hits
  misses : s'.misses = s.misses
  maxSizeBytes : s'.maxSizeBytes = s.maxSizeBytes

theorem Evicts.refl (s : LruCacheStore β) : Evicts s [] s :=
  ⟨rfl, rfl, id, rfl, rfl, rfl⟩

theorem Evicts.trans {a b c : LruCacheStore β} {front front' : List (String × CacheEntry β)}
    (h : Evicts a front b) (h' : Evicts b front' c) : Evicts a (front ++ front') c where
  items := by rw [h.items, h'.items, List.append_assoc]
  evictions := by rw [h'.evictions, h.evictions, List.length_append, Nat.add_assoc]
  balanced := fun hb => h'.balanced (h.balanced hb)
  hits := h'.hits.trans h.hits
  misses := h'.misses.trans h.misses
  maxSizeBytes := h'.maxSizeBytes.trans h.maxSizeBytes

theorem evicts_evictLru {ke : String × CacheEntry β} {rest : Dict String (CacheEntry β)}
    (h : s.store.popFirst? = some (ke, rest)) : Evicts s [ke] s.evictLru := by
  unfold evictLru
  rw [h]
  refine ⟨Dict.popFirst?_eq_some.mp h, rfl, fun hb => ?_, rfl, rfl, rfl⟩
  unfold Balanced total
  rw [Dict.sum_popFirst? _ h, hb]
  rfl

/-- The loop evicts from the front until there is room or nothing is left. -/
theorem evictLoop_spec (needed : Int) (fuel : Nat) (s : LruCacheStore β)
    (hfuel : s.store.items.length ≤ fuel) :
    ∃ front, Evicts s front (evictLoop needed fuel s) ∧
      ((evictLoop needed fuel s).store.items = [] ∨
        (evictLoop needed fuel s).currentSizeBytes + needed ≤ s.maxSizeBytes) := by
  induction fuel generalizing s with
  | zero => exact ⟨[], .refl s, Or.inl (List.length_eq_zero_iff.mp (Nat.le_zero.mp hfuel))⟩
  | succ fuel ih =>
      rw [evictLoop]
      split
      · rename_i h
        obtain ⟨ke, rest, hpop⟩ := Dict.exists_popFirst? h.2
        have hfirst := evicts_evictLru hpop
        have hlength : s.evictLru.store.items.length ≤ fuel := by
          rw [hfirst.items, List.length_append, List.length_singleton] at hfuel
          omega
        obtain ⟨front, hfront, hroom⟩ := ih s.evictLru hlength
        rw [hfirst.maxSizeBytes] at hroom
        exact ⟨[ke] ++ front, hfirst.trans hfront, hroom⟩
      · rename_i h
        refine ⟨[], .refl s, ?_⟩
        by_cases hnil : s.store.items = []
        · exact Or.inl hnil
        · exact Or.inr (Int.not_lt.mp fun hlt => h ⟨hlt, hnil⟩)

/-! ### Putting an entry in -/

/-- The store without the entry that is about to be replaced. -/
def without (s : LruCacheStore β) (key : String) : LruCacheStore β :=
  if s.store.contains key then s.removeEntry key else s

theorem without_eq (s : LruCacheStore β) (key : String) : s.without key = s.removeEntry key := by
  unfold without
  split
  · rfl
  · rename_i h
    unfold removeEntry
    split
    · rfl
    · rename_i e he
      exact absurd (by rw [Dict.contains, he]; rfl) h

/-- The store that a `put` puts its entry in. -/
def roomFor (s : LruCacheStore β) (key : String) (entry : CacheEntry β) : LruCacheStore β :=
  evictLoop entry.size (s.removeEntry key).store.items.length (s.removeEntry key)

theorem put_eq (s : LruCacheStore β) (key : String) (entry : CacheEntry β) :
    s.put key entry = { s.roomFor key entry with
      store := (s.roomFor key entry).store.set key entry
      currentSizeBytes := (s.roomFor key entry).currentSizeBytes + entry.size } := by
  rw [roomFor, ← without_eq]
  rfl

/-- A `put` evicts from the front of what is there under other keys, and has room for the
entry if anything is left. -/
theorem roomFor_spec (s : LruCacheStore β) (key : String) (entry : CacheEntry β) :
    ∃ front, Evicts (s.removeEntry key) front (s.roomFor key entry) ∧
      ((s.roomFor key entry).store.items = [] ∨
        (s.roomFor key entry).currentSizeBytes + entry.size ≤ s.maxSizeBytes) := by
  rw [← (sameCounts_removeEntry s key).maxSizeBytes]
  exact evictLoop_spec entry.size _ (s.removeEntry key) (Nat.le_refl _)

theorem get?_roomFor (s : LruCacheStore β) (key : String) (entry : CacheEntry β) :
    (s.roomFor key entry).store.get? key = none := by
  obtain ⟨front, hevicts, -⟩ := roomFor_spec s key entry
  rw [Dict.get?_of_append hevicts.items, get?_removeEntry, if_pos rfl]
  split <;> rfl

theorem items_put (s : LruCacheStore β) (key : String) (entry : CacheEntry β) :
    (s.put key entry).store.items = (s.roomFor key entry).store.items ++ [(key, entry)] := by
  rw [put_eq]
  exact Dict.items_set_of_get?_eq_none (get?_roomFor s key entry) entry

theorem total_put (s : LruCacheStore β) (key : String) (entry : CacheEntry β) :
    (s.put key entry).total = (s.roomFor key entry).total + entry.size := by
  rw [put_eq, total, Dict.sum_set, Dict.erase_of_get?_eq_none (get?_roomFor s key entry), add_comm]
  rfl

theorem Balanced.put (h : s.Balanced) (key : String) (entry : CacheEntry β) :
    (s.put key entry).Balanced := by
  obtain ⟨front, hevicts, -⟩ := roomFor_spec s key entry
  have hroom := hevicts.balanced (h.removeEntry key)
  rw [Balanced, total_put, put_eq, ← hroom]

theorem Balanced.get (h : s.Balanced) (now : Time) (key : String) : (s.get now key).2.Balanced := by
  unfold LruCacheStore.get
  split
  · exact h
  · rename_i e he
    have hmoved : (s.store.moveToEnd key).get? key = some e := by rw [Dict.get?_moveToEnd, he]
    show s.currentSizeBytes = _
    rw [total, Dict.sum_set, Dict.sum_erase _ hmoved, Dict.sum_moveToEnd, h]
    show s.store.sum CacheEntry.size = e.size + (s.store.sum CacheEntry.size - e.size)
    omega

theorem Balanced.perform (h : s.Balanced) (now : Time) (op : LruOp β) :
    (s.perform now op).2.Balanced := by
  cases op with
  | get key => exact h.get now key
  | put key entry => exact h.put key entry
  | delete key =>
      show (s.delete key).2.Balanced
      unfold delete
      split
      · exact h.removeEntry key
      · exact h
  | deleteByPrefix keyPrefix => exact h.foldl_removeEntry _
  | keys => exact h.foldl_removeEntry _
  | stats => exact h

/-! ### What an operation counts -/

/-- The operations that only take entries out. -/
def Removes : LruOp β → Prop
  | .get _ | .put _ _ => False
  | .delete _ | .deleteByPrefix _ | .keys | .stats => True

theorem perform_of_removes (s : LruCacheStore β) (now : Time) (op : LruOp β) (hop : Removes op) :
    SameCounts s (s.perform now op).2 ∧
      (s.perform now op).2.store.items.Sublist s.store.items := by
  have hfoldl : ∀ keys : List String, SameCounts s (keys.foldl removeEntry s) ∧
      (keys.foldl removeEntry s).store.items.Sublist s.store.items := fun keys => by
    rw [foldl_removeEntry_items]
    exact ⟨sameCounts_foldl_removeEntry keys s, List.filter_sublist⟩
  cases op with
  | get key => cases hop
  | put key entry => cases hop
  | delete key =>
      show SameCounts s (s.delete key).2 ∧ (s.delete key).2.store.items.Sublist s.store.items
      unfold delete
      split
      · exact hfoldl [key]
      · exact ⟨.refl s, List.Sublist.refl _⟩
  | deleteByPrefix keyPrefix => exact hfoldl _
  | keys => exact hfoldl _
  | stats => exact ⟨.refl s, List.Sublist.refl _⟩

theorem sameCounts_put (s : LruCacheStore β) (key : String) (entry : CacheEntry β) :
    (s.put key entry).hits = s.hits ∧ (s.put key entry).misses = s.misses ∧
      (s.put key entry).maxSizeBytes = s.maxSizeBytes := by
  obtain ⟨front, hevicts, -⟩ := roomFor_spec s key entry
  have hremoved := sameCounts_removeEntry s key
  rw [put_eq]
  exact ⟨hevicts.hits.trans hremoved.hits, hevicts.misses.trans hremoved.misses,
    hevicts.maxSizeBytes.trans hremoved.maxSizeBytes⟩

/-- The counters after a call. -/
theorem perform_counts (s : LruCacheStore β) (now : Time) (op : LruOp β) (other : LruAnswer β) :
    let c : LruCall β := ⟨op, (s.perform now op).1, other⟩
    (s.perform now op).2.hits = s.hits + (if c.found then 1 else 0) ∧
      (s.perform now op).2.hits + (s.perform now op).2.misses =
        s.hits + s.misses + (if c.isGet then 1 else 0) := by
  have hremoves : ∀ op : LruOp β, Removes op →
      (s.perform now op).2.hits = s.hits + 0 ∧
        (s.perform now op).2.hits + (s.perform now op).2.misses = s.hits + s.misses + 0 := by
    intro op hop
    obtain ⟨hsame, -⟩ := s.perform_of_removes now op hop
    rw [hsame.hits, hsame.misses]
    exact ⟨rfl, rfl⟩
  cases op with
  | get key =>
      cases hget : s.store.get? key with
      | none => simp [perform, LruCall.found, LruCall.isGet, LruCacheStore.get, hget, Nat.add_assoc]
      | some e =>
          simp [perform, LruCall.found, LruCall.isGet, LruCacheStore.get, hget, Nat.add_right_comm]
  | put key entry =>
      obtain ⟨hhits, hmisses, -⟩ := s.sameCounts_put key entry
      show (s.put key entry).hits = s.hits + 0 ∧
        (s.put key entry).hits + (s.put key entry).misses = s.hits + s.misses + 0
      rw [hhits, hmisses]
      exact ⟨rfl, rfl⟩
  | delete key => exact hremoves (.delete key) trivial
  | deleteByPrefix keyPrefix => exact hremoves (.deleteByPrefix keyPrefix) trivial
  | keys => exact hremoves .keys trivial
  | stats => exact hremoves .stats trivial

/-- A read changes an entry's time of access, and no size. -/
theorem get_frame (s : LruCacheStore β) (now : Time) (key : String) :
    (s.get now key).2.evictions = s.evictions ∧ (s.get now key).2.maxSizeBytes = s.maxSizeBytes ∧
      (s.get now key).2.currentSizeBytes = s.currentSizeBytes := by
  unfold LruCacheStore.get
  split <;> exact ⟨rfl, rfl, rfl⟩

/-- Only a `put` counts evictions. -/
theorem perform_evictions (s : LruCacheStore β) (now : Time) {op : LruOp β}
    (hop : ∀ key entry, op ≠ .put key entry) : (s.perform now op).2.evictions = s.evictions := by
  cases op with
  | get key => exact (s.get_frame now key).1
  | put key entry => exact absurd rfl (hop key entry)
  | delete key => exact (s.perform_of_removes now (.delete key) trivial).1.evictions
  | deleteByPrefix keyPrefix =>
      exact (s.perform_of_removes now (.deleteByPrefix keyPrefix) trivial).1.evictions
  | keys => exact (s.perform_of_removes now .keys trivial).1.evictions
  | stats => rfl

/-- No operation changes the limit. -/
theorem maxSizeBytes_perform (s : LruCacheStore β) (now : Time) (op : LruOp β) :
    (s.perform now op).2.maxSizeBytes = s.maxSizeBytes := by
  cases op with
  | get key => exact (s.get_frame now key).2.1
  | put key entry => exact (s.sameCounts_put key entry).2.2
  | delete key => exact (s.perform_of_removes now (.delete key) trivial).1.maxSizeBytes
  | deleteByPrefix keyPrefix =>
      exact (s.perform_of_removes now (.deleteByPrefix keyPrefix) trivial).1.maxSizeBytes
  | keys => exact (s.perform_of_removes now .keys trivial).1.maxSizeBytes
  | stats => rfl

/-- A deletion by prefix removes the keys that start so, and tells how many. -/
theorem deleteByPrefix_spec (s : LruCacheStore β) (keyPrefix : String) :
    (s.deleteByPrefix keyPrefix).1 =
        (s.store.keys.filter fun k => keyPrefix.toList.isPrefixOf k.toList).length ∧
      (s.deleteByPrefix keyPrefix).2.store.items =
        s.store.items.filter fun ke => !keyPrefix.toList.isPrefixOf ke.1.toList := by
  refine ⟨rfl, ?_⟩
  rw [deleteByPrefix, foldl_removeEntry_items]
  refine List.filter_congr fun ke hke => ?_
  have hmem : ke.1 ∈ s.store.keys := List.mem_map_of_mem hke
  rw [Bool.eq_iff_iff, decide_eq_true_eq, List.mem_filter, Bool.not_eq_true',
    and_iff_right hmem, Bool.not_eq_true]

end LruCacheStore

/-! ### The subclass -/

namespace EvictingLruCacheStore

variable {s : EvictingLruCacheStore β}

/-- The loop of the subclass does what the loop does, and hands out what it evicts. -/
theorem evictLoop_spec (needed : Int) (fuel : Nat) (s : EvictingLruCacheStore β) :
    (evictLoop needed fuel s).lru = s.lru.evictLoop needed fuel ∧
      ∃ front, s.lru.store.items = front ++ (evictLoop needed fuel s).lru.store.items ∧
        (evictLoop needed fuel s).evicted = s.evicted ++ front := by
  induction fuel generalizing s with
  | zero => exact ⟨rfl, [], rfl, (List.append_nil _).symm⟩
  | succ fuel ih =>
      rw [evictLoop, LruCacheStore.evictLoop]
      split
      · rename_i h
        obtain ⟨ke, rest, hpop⟩ := Dict.exists_popFirst? h.2
        have hlru : s.evictLru.lru = s.lru.evictLru := by
          rw [evictLru, LruCacheStore.evictLru, hpop]
        have hevicted : s.evictLru.evicted = s.evicted ++ [ke] := by
          rw [evictLru, hpop]
        have hitems := (LruCacheStore.evicts_evictLru hpop).items
        obtain ⟨ihlru, front, ihitems, ihevicted⟩ := ih s.evictLru
        rw [hlru] at ihlru ihitems
        rw [hevicted] at ihevicted
        refine ⟨ihlru, [ke] ++ front, ?_, ?_⟩
        · rw [hitems, ihitems, List.append_assoc]
        · rw [ihevicted, List.append_assoc]
      · exact ⟨rfl, [], rfl, (List.append_nil _).symm⟩

/-- The store of the subclass that a `put` puts its entry in. -/
def roomFor (s : EvictingLruCacheStore β) (key : String) (entry : CacheEntry β) :
    EvictingLruCacheStore β :=
  evictLoop entry.size (s.lru.removeEntry key).store.items.length
    { s with lru := s.lru.removeEntry key }

theorem put_eq (s : EvictingLruCacheStore β) (key : String) (entry : CacheEntry β) :
    s.put key entry = { s.roomFor key entry with lru := { (s.roomFor key entry).lru with
      store := (s.roomFor key entry).lru.store.set key entry
      currentSizeBytes := (s.roomFor key entry).lru.currentSizeBytes + entry.size } } := by
  have hwithout : (if s.lru.store.contains key then { s with lru := s.lru.removeEntry key }
      else s) = { s with lru := s.lru.removeEntry key } := by
    rw [← LruCacheStore.without_eq, LruCacheStore.without]
    split <;> rfl
  unfold put roomFor
  rw [hwithout]

/-- A `put` of the subclass is a `put`. -/
theorem put_lru (s : EvictingLruCacheStore β) (key : String) (entry : CacheEntry β) :
    (s.put key entry).lru = s.lru.put key entry := by
  have hlru : (s.roomFor key entry).lru = s.lru.roomFor key entry :=
    (evictLoop_spec entry.size _ { s with lru := s.lru.removeEntry key }).1
  rw [put_eq, LruCacheStore.put_eq, hlru]

/-- It hands out what is evicted, each entry once, in order. -/
theorem put_evicted (s : EvictingLruCacheStore β) (key : String) (entry : CacheEntry β) :
    ∃ removed rest, (s.lru.store.erase key).items = removed ++ rest ∧
      (s.lru.put key entry).store.items = rest ++ [(key, entry)] ∧
      (s.put key entry).evicted = s.evicted ++ removed ∧
      (s.lru.put key entry).evictions = s.lru.evictions + removed.length := by
  obtain ⟨front, hevicts, -⟩ := LruCacheStore.roomFor_spec s.lru key entry
  obtain ⟨hlru, removed, hremoved, hevicted⟩ := evictLoop_spec entry.size
    (s.lru.removeEntry key).store.items.length { s with lru := s.lru.removeEntry key }
  rw [hlru] at hremoved
  have hfront : front = removed :=
    List.append_cancel_right (hevicts.items.symm.trans hremoved)
  refine ⟨removed, (s.lru.roomFor key entry).store.items, ?_, s.lru.items_put key entry, ?_, ?_⟩
  · rw [← LruCacheStore.removeEntry_store]
    exact hremoved
  · rw [put_eq]
    exact hevicted
  · rw [LruCacheStore.put_eq, ← hfront]
    show (s.lru.roomFor key entry).evictions = _
    rw [hevicts.evictions, (LruCacheStore.sameCounts_removeEntry s.lru key).evictions]

theorem perform_eq (s : EvictingLruCacheStore β) (now : Time) (op : LruOp β) :
    (s.perform now op).1 = (s.lru.perform now op).1 ∧
      (s.perform now op).2.lru = (s.lru.perform now op).2 := by
  cases op with
  | put key entry => exact ⟨rfl, put_lru s key entry⟩
  | get key | delete key | deleteByPrefix keyPrefix | keys | stats => exact ⟨rfl, rfl⟩

theorem perform_evicted (s : EvictingLruCacheStore β) (now : Time) {op : LruOp β}
    (hop : ∀ key entry, op ≠ .put key entry) : (s.perform now op).2.evicted = s.evicted := by
  cases op with
  | put key entry => exact absurd rfl (hop key entry)
  | get key | delete key | deleteByPrefix keyPrefix | keys | stats => rfl

end EvictingLruCacheStore

/-- The hot tier of the tiered store is such a store: its callback queues a demotion. -/
theorem TieredCacheStore.evictLoop_eq (needed : Int) (fuel : Nat) (s : TieredCacheStore β) :
    evictLoop needed fuel s =
      let after := EvictingLruCacheStore.evictLoop needed fuel ⟨s.hot, s.pendingDemotions⟩
      { s with hot := after.lru, pendingDemotions := after.evicted } := by
  induction fuel generalizing s with
  | zero => rfl
  | succ fuel ih =>
      rw [evictLoop, EvictingLruCacheStore.evictLoop]
      split
      · rename_i h
        obtain ⟨ke, rest, hpop⟩ := Dict.exists_popFirst? h.2
        rw [ih]
        simp only [evictLru, EvictingLruCacheStore.evictLru, LruCacheStore.evictLru, hpop]
      · rfl

theorem TieredCacheStore.hotPut_eq (s : TieredCacheStore β) (key : String)
    (entry : CacheEntry β) : s.hotPut key entry =
      let after := EvictingLruCacheStore.put ⟨s.hot, s.pendingDemotions⟩ key entry
      { s with hot := after.lru, pendingDemotions := after.evicted } := by
  simp only [hotPut, EvictingLruCacheStore.put, evictLoop_eq]
  split <;> rfl

/-! ### The books of a session -/

namespace LruSession

variable {s s' : LruSession β} {a : Time × LruOp β}

/-- What the counters of both stores say of the session so far. -/
structure Accounts (s : LruSession β) : Prop where
  /-- The number of bytes is that of the entries. -/
  size : s.plain.currentSizeBytes = s.plain.store.sum CacheEntry.size
  /-- Each key is there once. -/
  once : s.plain.store.keys.Nodup
  /-- Hits and misses are the reads, and hits those that found an entry. -/
  gets : s.plain.hits + s.plain.misses = s.history.countP LruCall.isGet
  found : s.plain.hits = s.history.countP LruCall.found
  evictions : s.plain.evictions = s.evicting.evicted.length
  /-- The subclass is the same store and has given the same answers. -/
  same : s.evicting.lru = s.plain
  answers : ∀ c ∈ s.history, c.evictingAnswer = c.answer

/-- What the next operation removes is what it should, and is accounted for. -/
structure Accurate (s : LruSession β) (a : Time × LruOp β) : Prop where
  /-- A deletion by prefix removes the keys that start so, and tells how many. -/
  prefixed : ∀ keyPrefix, a.2 = .deleteByPrefix keyPrefix →
    (s.plain.perform a.1 a.2).1 =
        .count (s.plain.store.keys.filter fun k => keyPrefix.toList.isPrefixOf k.toList).length ∧
      (s.plain.perform a.1 a.2).2.store.items =
        s.plain.store.items.filter fun ke => !keyPrefix.toList.isPrefixOf ke.1.toList
  /-- Of what is there under other keys, a `put` removes the front; each entry removed is
  counted and handed out, in order. -/
  evicted : ∀ key entry, a.2 = .put key entry →
    ∃ removed rest, (s.plain.store.erase key).items = removed ++ rest ∧
      (s.plain.perform a.1 a.2).2.store.items = rest ++ [(key, entry)] ∧
      (s.evicting.perform a.1 a.2).2.evicted = s.evicting.evicted ++ removed ∧
      (s.plain.perform a.1 a.2).2.evictions = s.plain.evictions + removed.length
  /-- Nothing else evicts. -/
  kept : (∀ key entry, a.2 ≠ .put key entry) →
    (s.evicting.perform a.1 a.2).2.evicted = s.evicting.evicted ∧
      (s.plain.perform a.1 a.2).2.evictions = s.plain.evictions

theorem accounts_start (maxSizeBytes : Int) : Accounts (start maxSizeBytes : LruSession β) where
  size := rfl
  once := List.nodup_nil
  gets := rfl
  found := rfl
  evictions := rfl
  same := rfl
  answers := fun _ hc => absurd hc List.not_mem_nil

theorem Accounts.accurate (h : s.Accounts) (a : Time × LruOp β) : s.Accurate a := by
  obtain ⟨now, op⟩ := a
  constructor
  · rintro keyPrefix rfl
    obtain ⟨hcount, hitems⟩ := s.plain.deleteByPrefix_spec keyPrefix
    exact ⟨congrArg LruAnswer.count hcount, hitems⟩
  · rintro key entry rfl
    have hevicted := s.evicting.put_evicted key entry
    rw [h.same] at hevicted
    exact hevicted
  · intro hop
    exact ⟨s.evicting.perform_evicted now hop, s.plain.perform_evictions now hop⟩

theorem step_eq (s : LruSession β) (now : Time) (op : LruOp β) : step s (now, op) =
    some ⟨(s.plain.perform now op).2, (s.evicting.perform now op).2,
      s.history ++ [⟨op, (s.plain.perform now op).1, (s.evicting.perform now op).1⟩]⟩ := rfl

theorem Accounts.step (h : s.Accounts) (hstep : step s a = some s') : s'.Accounts := by
  obtain ⟨now, op⟩ := a
  have haccurate := h.accurate (now, op)
  obtain ⟨hanswer, hlru⟩ := s.evicting.perform_eq now op
  obtain ⟨hhits, hgets⟩ := s.plain.perform_counts now op (s.evicting.perform now op).1
  rw [h.same] at hanswer hlru
  rw [step_eq, Option.some.injEq] at hstep
  subst hstep
  refine ⟨LruCacheStore.Balanced.perform h.size now op, Dict.nodup _, ?_, ?_, ?_, hlru, ?_⟩
  · rw [hgets, List.countP_append, h.gets, List.countP_singleton]
  · rw [hhits, List.countP_append, ← h.found, List.countP_singleton]
  · by_cases hop : ∃ key entry, op = .put key entry
    · obtain ⟨key, entry, rfl⟩ := hop
      obtain ⟨removed, rest, -, -, hevicted, hevictions⟩ := haccurate.evicted key entry rfl
      show (s.plain.perform now (.put key entry)).2.evictions = _
      rw [hevicted, hevictions, List.length_append, h.evictions]
    · obtain ⟨hevicted, hevictions⟩ := haccurate.kept fun key entry hput => hop ⟨key, entry, hput⟩
      show (s.plain.perform now op).2.evictions = _
      rw [hevicted, hevictions, h.evictions]
  · intro c hc
    rcases List.mem_append.mp hc with hc | hc
    · exact h.answers c hc
    · rw [List.mem_singleton.mp hc]
      exact hanswer

/--
**The books are right.**  In every session, after every operation: the number of bytes is
that of the entries, each key is there once, the counters count what they say; a deletion
by prefix and the eviction loop remove what they should, and the subclass hands out what
the loop removes.
-/
theorem accounts (maxSizeBytes : Int) (p : List (Time × LruOp β)) :
    Lts.Always step Accounts (start maxSizeBytes : LruSession β) p ∧
      Lts.EachStep step Accurate (start maxSizeBytes : LruSession β) p := by
  have hinv : ∀ (s : LruSession β) a s', s.Accounts → step s a = some s' → s'.Accounts :=
    fun _ _ _ h hstep => h.step hstep
  have haccurate := Lts.eachStep_of_invariant hinv (fun _ a _ h _ => h.accurate a) p
    (accounts_start maxSizeBytes)
  exact ⟨Lts.always_of_guarded (fun s a s' h _ hstep => hinv s a s' h hstep) p
    (accounts_start maxSizeBytes) haccurate, haccurate⟩

end LruSession

/-! ### The limit -/

namespace LruCacheStore

variable {s s' : LruCacheStore β} {a : Time × LruOp β} {m : Int}

/-- What a `put` puts is no larger than the limit. -/
def Fits (m : Int) : LruOp β → Prop
  | .put _ entry => entry.size ≤ m
  | _ => True

/-- Where an entry after an operation comes from. -/
theorem get?_perform {now : Time} {op : LruOp β} {k : String} {e : CacheEntry β}
    (h : (s.perform now op).2.store.get? k = some e) :
    (∃ e', s.store.get? k = some e' ∧ e'.size = e.size) ∨ op = .put k e := by
  cases op with
  | get key =>
      replace h : (s.get now key).2.store.get? k = some e := h
      rw [get?_get] at h
      split at h
      · rename_i hk
        obtain ⟨e', he', rfl⟩ := Option.map_eq_some_iff.mp h
        exact Or.inl ⟨e', hk ▸ he', rfl⟩
      · exact Or.inl ⟨e, h, rfl⟩
  | put key entry =>
      replace h : (s.put key entry).store.get? k = some e := h
      by_cases hk : k = key
      · rw [hk, get?_put_self, Option.some.injEq] at h
        exact Or.inr (by rw [hk, h])
      · rcases get?_put_of_ne s entry hk with hsame | hnone
        · exact Or.inl ⟨e, hsame ▸ h, rfl⟩
        · rw [hnone] at h
          cases h
  | delete key =>
      replace h : (s.delete key).2.store.get? k = some e := h
      rw [get?_delete] at h
      split at h
      · cases h
      · exact Or.inl ⟨e, h, rfl⟩
  | deleteByPrefix keyPrefix =>
      replace h : (s.deleteByPrefix keyPrefix).2.store.get? k = some e := h
      rw [get?_deleteByPrefix] at h
      split at h
      · cases h
      · exact Or.inl ⟨e, h, rfl⟩
  | keys =>
      replace h : (s.keys now).2.store.get? k = some e := h
      rw [get?_keys, Option.filter_eq_some_iff] at h
      exact Or.inl ⟨e, h.1, rfl⟩
  | stats => exact Or.inl ⟨e, h, rfl⟩

/-- What holds of a store of entries that have a size. -/
structure Limited (m : Int) (s : LruCacheStore β) : Prop where
  balanced : s.Balanced
  maxSizeBytes : s.maxSizeBytes = m
  sized : ∀ ke ∈ s.store.items, 0 ≤ ke.2.size

theorem total_nonneg (hsized : ∀ ke ∈ s.store.items, 0 ≤ ke.2.size) : 0 ≤ s.total := by
  refine List.sum_nonneg fun n hn => ?_
  obtain ⟨ke, hke, rfl⟩ := List.mem_map.mp hn
  exact hsized ke hke

/-- Taking entries out does not add to the bytes. -/
theorem total_le (hsized : ∀ ke ∈ s.store.items, 0 ≤ ke.2.size)
    (hsub : s'.store.items.Sublist s.store.items) : s'.total ≤ s.total := by
  refine (hsub.map _).sum_le_sum fun n hn => ?_
  obtain ⟨ke, hke, rfl⟩ := List.mem_map.mp hn
  exact hsized ke hke

theorem step_eq_some : step s a = some s' ↔ Sized a.2 ∧ s' = (s.perform a.1 a.2).2 := by
  unfold step
  split
  · rename_i h
    simp [h, eq_comm]
  · rename_i h
    simp [h]

theorem Limited.step (h : s.Limited m) (hstep : step s a = some s') : s'.Limited m := by
  obtain ⟨now, op⟩ := a
  obtain ⟨hsized, rfl⟩ := step_eq_some.mp hstep
  refine ⟨h.balanced.perform now op, (s.maxSizeBytes_perform now op).trans h.maxSizeBytes,
    fun ke hke => ?_⟩
  rcases get?_perform (Dict.get?_eq_some.mpr hke) with ⟨e', he', hsize⟩ | hput
  · rw [← hsize]
    exact h.sized _ (Dict.get?_eq_some.mp he')
  · subst hput
    exact hsized

/-- **One operation.**  Of the operations, a `put` keeps the store within its limit exactly
if what it puts is within the limit, and the others do. -/
theorem Limited.within_iff (h : s.Limited m) (hwithin : s.total ≤ m)
    (hstep : LruCacheStore.step s a = some s') : s'.total ≤ m ↔ Fits m a.2 := by
  obtain ⟨now, op⟩ := a
  obtain ⟨hsized, rfl⟩ := step_eq_some.mp hstep
  have hremoves : Removes op → ((s.perform now op).2.total ≤ m ↔ True) := fun hop =>
    iff_true_intro ((total_le h.sized (s.perform_of_removes now op hop).2).trans hwithin)
  cases op with
  | get key =>
      refine iff_true_intro ?_
      show (s.get now key).2.total ≤ m
      rw [← h.balanced.get now key, (s.get_frame now key).2.2, h.balanced]
      exact hwithin
  | put key entry =>
      obtain ⟨front, hevicts, hroom⟩ := roomFor_spec s key entry
      have hmid := hevicts.balanced (h.balanced.removeEntry key)
      have hsub : (s.roomFor key entry).store.items.Sublist s.store.items := by
        have hrest : (s.roomFor key entry).store.items.Sublist (s.removeEntry key).store.items := by
          rw [hevicts.items]
          exact List.sublist_append_right front _
        rw [removeEntry_store] at hrest
        exact hrest.trans List.filter_sublist
      have hnonneg := total_nonneg fun ke hke => h.sized ke (hsub.subset hke)
      show (s.put key entry).total ≤ m ↔ entry.size ≤ m
      rw [total_put]
      constructor
      · intro hle
        omega
      · intro hfits
        rcases hroom with hnil | hroom
        · have hzero : (s.roomFor key entry).total = 0 := by
            rw [total, Dict.sum, hnil]
            rfl
          omega
        · rw [hmid, h.maxSizeBytes] at hroom
          exact hroom
  | delete key => exact hremoves trivial
  | deleteByPrefix keyPrefix => exact hremoves trivial
  | keys => exact hremoves trivial
  | stats => exact hremoves trivial

/--
**When the store stays within its limit.**  In every session: after every operation the
entries have at most the bytes allowed exactly if no entry is put that alone has more.
-/
theorem within_iff_fits (m : Int) (hm : 0 ≤ m) (p : List (Time × LruOp β)) :
    Lts.Always step (fun s => s.total ≤ m) ({ maxSizeBytes := m } : LruCacheStore β) p ↔
      Lts.EachStep step (fun _ a => Fits m a.2) ({ maxSizeBytes := m } : LruCacheStore β) p :=
  Lts.always_iff_eachStep (fun _ _ _ h hstep => Limited.step h hstep)
    (fun _ _ _ h hwithin hstep => h.within_iff hwithin hstep) p
    ⟨rfl, rfl, fun _ hke => absurd hke List.not_mem_nil⟩ hm

/-- An entry of five bytes. -/
def sampleFive : CacheEntry Nat where
  content := 0
  headers := ∅
  etag := none
  createdAt := 0
  ttl := 10
  lastAccessed := 0
  size := 5
  statusCode := 200

theorem within_iff_fits_two :
    Lts.Always step (fun s => s.total ≤ 8) ({ maxSizeBytes := 8 } : LruCacheStore Nat)
        [(0, .put "a" sampleFive), (1, .put "b" sampleFive)] ↔
      Lts.EachStep step (fun _ a => Fits 8 a.2) ({ maxSizeBytes := 8 } : LruCacheStore Nat)
        [(0, .put "a" sampleFive), (1, .put "b" sampleFive)] :=
  within_iff_fits 8 (by decide) [(0, .put "a" sampleFive), (1, .put "b" sampleFive)]

/-- A store of three bytes that holds an entry of five. -/
theorem not_within_large : ¬ ∀ (m : Int) (p : List (Time × LruOp Nat)), 0 ≤ m →
    Lts.Always step (fun s => s.total ≤ m) ({ maxSizeBytes := m } : LruCacheStore Nat) p := by
  intro h
  have hrun : Lts.run step ({ maxSizeBytes := 3 } : LruCacheStore Nat)
      [(0, .put "a" sampleFive)] = some (LruCacheStore.put { maxSizeBytes := 3 } "a" sampleFive) :=
    rfl
  have hlast := (h 3 [(0, .put "a" sampleFive)] (by decide)).last hrun
  revert hlast
  decide +kernel

end LruCacheStore

end Cdn

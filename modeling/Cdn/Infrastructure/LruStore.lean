/-
The in-memory store: a dictionary in order of use, with a byte budget.

`get` and `put` move an entry to the end, and `put` makes room by taking entries off
the front.  As for the breaker, the lock is never held across a suspension, so an
operation is a function of the store.

The proofs that follow look at the store as a map.  A read leaves the map as it was,
apart from the time of the last access; a `put` files the new entry and may lose
others; a deletion loses what it names and nothing else.
-/
import Cdn.Domain.Entities

namespace Cdn

structure LruCacheStore (β : Type) where
  store : Dict String (CacheEntry β) := ∅
  maxSizeBytes : Int := 100 * 1024 * 1024
  currentSizeBytes : Int := 0
  hits : Nat := 0
  misses : Nat := 0
  evictions : Nat := 0
deriving DecidableEq

namespace LruCacheStore

variable {β : Type}

/-- `get`: expired entries are returned too, the caller decides. -/
def get (s : LruCacheStore β) (now : Time) (key : String) :
    Option (CacheEntry β) × LruCacheStore β :=
  match s.store.get? key with
  | none => (none, { s with misses := s.misses + 1 })
  | some e =>
      let e' := e.touch now
      (some e', { s with store := (s.store.moveToEnd key).set key e', hits := s.hits + 1 })

/-- `_remove_entry`, for a key that is there; `pop` of any other raises in the source. -/
def removeEntry (s : LruCacheStore β) (key : String) : LruCacheStore β :=
  match s.store.get? key with
  | none => s
  | some e => { s with
      store := s.store.erase key, currentSizeBytes := s.currentSizeBytes - e.size }

/-- `_evict_lru`, of a store that is not empty. -/
def evictLru (s : LruCacheStore β) : LruCacheStore β :=
  match s.store.popFirst? with
  | none => s
  | some ((_, e), rest) => { s with
      store := rest, currentSizeBytes := s.currentSizeBytes - e.size
      evictions := s.evictions + 1 }

/-- The eviction loop; it ends at the latest when the store is empty. -/
def evictLoop (needed : Int) : Nat → LruCacheStore β → LruCacheStore β
  | 0, s => s
  | fuel + 1, s =>
      if s.maxSizeBytes < s.currentSizeBytes + needed ∧ s.store.items ≠ [] then
        evictLoop needed fuel s.evictLru
      else s

def put (s : LruCacheStore β) (key : String) (entry : CacheEntry β) : LruCacheStore β :=
  let s := if s.store.contains key then s.removeEntry key else s
  let s := evictLoop entry.size s.store.items.length s
  { s with
    store := s.store.set key entry, currentSizeBytes := s.currentSizeBytes + entry.size }

def delete (s : LruCacheStore β) (key : String) : Bool × LruCacheStore β :=
  if s.store.contains key then (true, s.removeEntry key) else (false, s)

/-- `delete_by_prefix`, with the number of entries removed. -/
def deleteByPrefix (s : LruCacheStore β) (keyPrefix : String) : Nat × LruCacheStore β :=
  let keys := s.store.keys.filter fun k => keyPrefix.toList.isPrefixOf k.toList
  (keys.length, keys.foldl removeEntry s)

/-- `keys`: expired entries are removed on the way. -/
def keys (s : LruCacheStore β) (now : Time) : List String × LruCacheStore β :=
  let expired := (s.store.items.filter fun ke => ke.2.isExpired now).map Prod.fst
  let valid := (s.store.items.filter fun ke => !ke.2.isExpired now).map Prod.fst
  (valid, expired.foldl removeEntry s)

/-- What `stats` reports; the ratio is exact here. -/
structure Stats where
  totalEntries : Nat
  totalSizeBytes : Int
  maxSizeBytes : Int
  hitCount : Nat
  missCount : Nat
  evictionCount : Nat
  hitRatio : Rat
deriving DecidableEq

def stats (s : LruCacheStore β) : Stats where
  totalEntries := s.store.items.length
  totalSizeBytes := s.currentSizeBytes
  maxSizeBytes := s.maxSizeBytes
  hitCount := s.hits
  missCount := s.misses
  evictionCount := s.evictions
  hitRatio := if 0 < s.hits + s.misses then (s.hits : Rat) / (s.hits + s.misses : Nat) else 0

/-! ### The store as a map -/

@[simp] theorem get_fst (s : LruCacheStore β) (now : Time) (key : String) :
    (s.get now key).1 = (s.store.get? key).map (·.touch now) := by
  unfold get
  split <;> simp_all

/-- A read changes the map at its own key only, and there only the time of access. -/
theorem get?_get (s : LruCacheStore β) (now : Time) (key k : String) :
    (s.get now key).2.store.get? k =
      if k = key then (s.store.get? key).map (·.touch now) else s.store.get? k := by
  unfold get
  split
  · rename_i h
    by_cases hk : k = key
    · simp [hk, h]
    · simp [hk]
  · rename_i e h
    by_cases hk : k = key
    · simp [hk, h]
    · simp [hk]

theorem get?_removeEntry (s : LruCacheStore β) (key k : String) :
    (s.removeEntry key).store.get? k = if k = key then none else s.store.get? k := by
  unfold removeEntry
  split
  · rename_i h
    by_cases hk : k = key
    · simp [hk, h]
    · simp [hk]
  · simp

/-- Eviction keeps an entry as it is or drops it. -/
theorem get?_evictLru (s : LruCacheStore β) (k : String) :
    s.evictLru.store.get? k = s.store.get? k ∨ s.evictLru.store.get? k = none := by
  unfold evictLru
  split
  · exact Or.inl rfl
  · rename_i key e rest h
    rw [Dict.get?_popFirst? h]
    split
    · exact Or.inr rfl
    · exact Or.inl rfl

theorem get?_evictLoop (needed : Int) (fuel : Nat) (s : LruCacheStore β) (k : String) :
    (evictLoop needed fuel s).store.get? k = s.store.get? k ∨
      (evictLoop needed fuel s).store.get? k = none := by
  induction fuel generalizing s with
  | zero => exact Or.inl rfl
  | succ fuel ih =>
      rw [evictLoop]
      split
      · rcases ih s.evictLru with h | h
        · rw [h]
          exact get?_evictLru s k
        · exact Or.inr h
      · exact Or.inl rfl

theorem get?_put_self (s : LruCacheStore β) (key : String) (entry : CacheEntry β) :
    (s.put key entry).store.get? key = some entry := by
  simp [put]

theorem get?_put_of_ne (s : LruCacheStore β) {key k : String} (entry : CacheEntry β)
    (hk : k ≠ key) : (s.put key entry).store.get? k = s.store.get? k ∨
      (s.put key entry).store.get? k = none := by
  have hremoved : (if s.store.contains key then s.removeEntry key else s).store.get? k =
      s.store.get? k := by
    split
    · rw [get?_removeEntry, if_neg hk]
    · rfl
  simp only [put, Dict.get?_set, if_neg hk]
  rw [← hremoved]
  exact get?_evictLoop _ _ _ k

theorem get?_delete (s : LruCacheStore β) (key k : String) :
    (s.delete key).2.store.get? k = if k = key then none else s.store.get? k := by
  unfold delete
  split
  · exact get?_removeEntry s key k
  · rename_i h
    by_cases hk : k = key
    · rw [if_pos hk, hk]
      simpa [Dict.contains] using h
    · rw [if_neg hk]

theorem get?_foldl_removeEntry (keys : List String) (s : LruCacheStore β) (k : String) :
    (keys.foldl removeEntry s).store.get? k = if k ∈ keys then none else s.store.get? k := by
  induction keys generalizing s with
  | nil => simp
  | cons key rest ih =>
      rw [List.foldl_cons, ih, get?_removeEntry]
      by_cases hk : k = key <;> by_cases hrest : k ∈ rest <;> simp [hk, hrest]

theorem get?_deleteByPrefix (s : LruCacheStore β) (keyPrefix k : String) :
    (s.deleteByPrefix keyPrefix).2.store.get? k =
      if keyPrefix.toList.isPrefixOf k.toList then none else s.store.get? k := by
  rw [deleteByPrefix, get?_foldl_removeEntry]
  by_cases hstart : keyPrefix.toList.isPrefixOf k.toList = true
  · by_cases hmem : k ∈ s.store.keys
    · simp [hmem, hstart]
    · simp [hmem, Dict.get?_eq_none.mpr hmem]
  · simp [hstart]

/-- The keys listed are those whose entry has not expired. -/
theorem mem_keys {s : LruCacheStore β} {now : Time} {k : String} :
    k ∈ (s.keys now).1 ↔ ∃ e, s.store.get? k = some e ∧ e.isExpired now = false := by
  simp only [keys, List.mem_map, List.mem_filter, Bool.not_eq_true']
  constructor
  · rintro ⟨⟨k', e⟩, ⟨hmem, hfresh⟩, rfl⟩
    exact ⟨e, Dict.get?_eq_some.mpr hmem, hfresh⟩
  · rintro ⟨e, hget, hfresh⟩
    exact ⟨(k, e), ⟨Dict.get?_eq_some.mp hget, hfresh⟩, rfl⟩

theorem get?_keys (s : LruCacheStore β) (now : Time) (k : String) :
    (s.keys now).2.store.get? k = (s.store.get? k).filter fun e => !e.isExpired now := by
  rw [keys, get?_foldl_removeEntry]
  exact Dict.get?_unpicked s.store (fun e => e.isExpired now) k

end LruCacheStore

end Cdn

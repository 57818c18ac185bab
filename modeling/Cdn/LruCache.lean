/-
The in-memory store and its subclass, in use.

The hot tier of the tiered store is the in-memory store with one method replaced: what it
evicts it hands to a callback.  A session runs both over the same operations, each at its
own time, and writes down every call with its answers.

Nothing changes an entry's size once the entry is in a store; a read sets the time of the
last access and nothing else.
-/
import Cdn.Infrastructure.LruStore
import Cdn.Lib.Run

namespace Cdn

variable {β : Type}

/-! ### The subclass -/

/-- `_EvictingLRUCacheStore`, with the calls of `on_evict` so far, in order. -/
structure EvictingLruCacheStore (β : Type) where
  lru : LruCacheStore β
  evicted : List (String × CacheEntry β) := []
deriving DecidableEq

namespace EvictingLruCacheStore

/-- `_evict_lru`, of a store that is not empty. -/
def evictLru (s : EvictingLruCacheStore β) : EvictingLruCacheStore β :=
  match s.lru.store.popFirst? with
  | none => s
  | some ((key, e), rest) =>
      { lru := { s.lru with
          store := rest, currentSizeBytes := s.lru.currentSizeBytes - e.size
          evictions := s.lru.evictions + 1 }
        evicted := s.evicted ++ [(key, e)] }

/-- The eviction loop of `put`, which calls the method of the subclass. -/
def evictLoop (needed : Int) : Nat → EvictingLruCacheStore β → EvictingLruCacheStore β
  | 0, s => s
  | fuel + 1, s =>
      if s.lru.maxSizeBytes < s.lru.currentSizeBytes + needed ∧ s.lru.store.items ≠ [] then
        evictLoop needed fuel s.evictLru
      else s

def put (s : EvictingLruCacheStore β) (key : String) (entry : CacheEntry β) :
    EvictingLruCacheStore β :=
  let s := if s.lru.store.contains key then { s with lru := s.lru.removeEntry key } else s
  let s := evictLoop entry.size s.lru.store.items.length s
  { s with lru := { s.lru with
      store := s.lru.store.set key entry
      currentSizeBytes := s.lru.currentSizeBytes + entry.size } }

end EvictingLruCacheStore

/-! ### Operations and answers -/

inductive LruOp (β : Type) where
  | get (key : String)
  | put (key : String) (entry : CacheEntry β)
  | delete (key : String)
  | deleteByPrefix (keyPrefix : String)
  | keys
  | stats
deriving DecidableEq

inductive LruAnswer (β : Type) where
  | entry (e : Option (CacheEntry β))
  | done
  | removed (found : Bool)
  | count (n : Nat)
  | listing (keys : List String)
  | report (stats : LruCacheStore.Stats)
deriving DecidableEq

/-- An operation on the store. -/
def LruCacheStore.perform (s : LruCacheStore β) (now : Time) :
    LruOp β → LruAnswer β × LruCacheStore β
  | .get key => let (e, s) := s.get now key; (.entry e, s)
  | .put key entry => (.done, s.put key entry)
  | .delete key => let (found, s) := s.delete key; (.removed found, s)
  | .deleteByPrefix keyPrefix => let (n, s) := s.deleteByPrefix keyPrefix; (.count n, s)
  | .keys => let (l, s) := s.keys now; (.listing l, s)
  | .stats => (.report s.stats, s)

/-- An operation on the subclass, which inherits all but `put`. -/
def EvictingLruCacheStore.perform (s : EvictingLruCacheStore β) (now : Time) :
    LruOp β → LruAnswer β × EvictingLruCacheStore β
  | .put key entry => (.done, s.put key entry)
  | op => let (answer, lru) := s.lru.perform now op; (answer, { s with lru })

/-! ### A session -/

structure LruCall (β : Type) where
  op : LruOp β
  answer : LruAnswer β
  evictingAnswer : LruAnswer β
deriving DecidableEq

def LruCall.isGet (c : LruCall β) : Bool :=
  match c.op with
  | .get _ => true
  | _ => false

/-- A `get` that found an entry. -/
def LruCall.found (c : LruCall β) : Bool :=
  match c.op, c.answer with
  | .get _, .entry (some _) => true
  | _, _ => false

structure LruSession (β : Type) where
  plain : LruCacheStore β
  evicting : EvictingLruCacheStore β
  history : List (LruCall β) := []
deriving DecidableEq

namespace LruSession

def start (maxSizeBytes : Int) : LruSession β where
  plain := { maxSizeBytes }
  evicting := { lru := { maxSizeBytes } }

def step (s : LruSession β) (a : Time × LruOp β) : Option (LruSession β) :=
  let (answer, plain) := s.plain.perform a.1 a.2
  let (evictingAnswer, evicting) := s.evicting.perform a.1 a.2
  some ⟨plain, evicting, s.history ++ [⟨a.2, answer, evictingAnswer⟩]⟩

end LruSession

/-! ### A store of entries that have a size -/

namespace LruCacheStore

/-- The size of what is put is not negative. -/
def Sized : LruOp β → Prop
  | .put _ entry => 0 ≤ entry.size
  | _ => True

instance (op : LruOp β) : Decidable (Sized op) :=
  match op with
  | .put _ entry => inferInstanceAs (Decidable (0 ≤ entry.size))
  | .get _ | .delete _ | .deleteByPrefix _ | .keys | .stats => isTrue trivial

def step (s : LruCacheStore β) (a : Time × LruOp β) : Option (LruCacheStore β) :=
  if Sized a.2 then some (s.perform a.1 a.2).2 else none

end LruCacheStore

end Cdn

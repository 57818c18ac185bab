/-
A tiered store and those who use it.

A session is a list of operations, each at its own time.  Beside the store stands the
map that the operations describe, and all that was ever put: the store is compared with
the first and an answer is traced back to the second.

A key that is rewritten to `.` or to `..` names the cold directory itself or the one it
is in, and no directory can be made for a key with a NUL: `mkdir` raises `ValueError`.  A
session has no operation on such a key.
-/
import Cdn.Infrastructure.TieredStore
import Cdn.Lib.Run

namespace Cdn

variable {β : Type}

/-- What a client gets of an entry, and what both tiers keep. -/
structure Payload (β : Type) where
  content : β
  headers : Headers
  etag : Option String
  createdAt : Time
  ttl : Time
  size : Int
  statusCode : Int
deriving DecidableEq

def CacheEntry.payload (e : CacheEntry β) : Payload β :=
  ⟨e.content, e.headers, e.etag, e.createdAt, e.ttl, e.size, e.statusCode⟩

inductive StoreOp (β : Type) where
  | get (key : String)
  | put (key : String) (entry : CacheEntry β)
  | delete (key : String)
  | deleteByPrefix (keyPrefix : String)
  | keys
deriving DecidableEq

inductive StoreResult (β : Type) where
  | entry (e : Option (CacheEntry β))
  | done
  | removed (found : Bool)
  | count (n : Nat)
  | listing (keys : List String)
deriving DecidableEq

namespace StoreOp

/-- The key an operation is about. -/
def key? : StoreOp β → Option String
  | get key | put key _ | delete key => some key
  | deleteByPrefix _ | keys => none

/-- Its directory is a child of the cold directory, under a name without a NUL. -/
def Plain (op : StoreOp β) : Prop :=
  ∀ key ∈ op.key?, urlSafeKey key ≠ "." ∧ urlSafeKey key ≠ ".." ∧ '\x00' ∉ key.toList

instance (op : StoreOp β) : Decidable op.Plain := inferInstanceAs (Decidable (∀ _ ∈ _, _))

/-- What an operation makes of a map. -/
def apply (m : Dict String (CacheEntry β)) : StoreOp β → Dict String (CacheEntry β)
  | get _ | keys => m
  | put key entry => m.set key entry
  | delete key => m.erase key
  | deleteByPrefix keyPrefix => m.filter fun k => !TieredCacheStore.hasPrefix keyPrefix k

/-- The answer a map would give. -/
def Answers (m : Dict String (CacheEntry β)) : StoreOp β → StoreResult β → Prop
  | get key, .entry e => e.map CacheEntry.payload = (m.get? key).map CacheEntry.payload
  | put _ _, .done => True
  | delete key, .removed found => found = m.contains key
  | deleteByPrefix keyPrefix, .count n =>
      n = (m.keys.filter (TieredCacheStore.hasPrefix keyPrefix)).length
  | keys, .listing l => l.Nodup ∧ ∀ k, k ∈ l ↔ k ∈ m.keys
  | _, _ => False

end StoreOp

/-- An operation on the store. -/
def TieredCacheStore.perform (s : TieredCacheStore β) (now : Time) :
    StoreOp β → StoreResult β × TieredCacheStore β
  | .get key => let (e, s) := s.get now key; (.entry e, s)
  | .put key entry => (.done, s.put key entry)
  | .delete key => let (found, s) := s.delete key; (.removed found, s)
  | .deleteByPrefix keyPrefix => let (n, s) := s.deleteByPrefix keyPrefix; (.count n, s)
  | .keys => let (l, s) := s.keys now; (.listing l, s)

/-- No key is in both tiers, and no demotion is pending. -/
def TieredCacheStore.AtRest (s : TieredCacheStore β) : Prop :=
  (∀ key ∈ s.hot.store.keys, ∀ d ∈ s.cold.items, d.2.metadata.key ≠ key) ∧
    s.pendingDemotions = []

structure Session (β : Type) where
  store : TieredCacheStore β
  /-- The map that the operations so far describe. -/
  map : Dict String (CacheEntry β) := ∅
  /-- Everything that was put so far, with its key. -/
  puts : List (String × CacheEntry β) := []
deriving DecidableEq

namespace Session

/-- A store over an empty cold directory. -/
def start (hotMaxSizeBytes : Int) : Session β where
  store := .init hotMaxSizeBytes

def record (puts : List (String × CacheEntry β)) : StoreOp β → List (String × CacheEntry β)
  | .put key entry => puts ++ [(key, entry)]
  | _ => puts

def step (s : Session β) (a : Time × StoreOp β) : Option (Session β) :=
  if a.2.Plain then
    some ⟨(s.store.perform a.1 a.2).2, a.2.apply s.map, record s.puts a.2⟩
  else none

end Session

end Cdn

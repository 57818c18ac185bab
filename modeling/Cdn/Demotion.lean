/-
The tiered store on a disk that can refuse a write.

Demotions are written one after the other, and a write that raises `OSError` ends the
operation it belongs to: a `put`, or a `get` that promotes.  The queue is emptied before
the first write, so what is left of it when one fails is only what the list in hand held.

A write that fails may still leave something: no directory, one with a file missing, or
both files with the second cut short.  The first two read as nothing.
-/
import Cdn.TieredCache

namespace Cdn

variable {β : Type}

/-- `OSError`, from the file system. -/
inductive OsError where
  | raised
deriving DecidableEq

/-- The write of one key's entry raises. -/
structure Fault (β : Type) where
  key : String
  /-- What can be read from its directory afterwards. -/
  left : Option (ColdEntry β) := none
  /-- The metadata, if it is there, is that of the entry. -/
  owned : ∀ c ∈ left, c.metadata.key = key

namespace TieredCacheStore

/-- A disk without the write that raises writes as it should. -/
def coldWriteOn (fault : Option (Fault β)) (s : TieredCacheStore β) (key : String)
    (e : CacheEntry β) : Except OsError Unit × TieredCacheStore β :=
  match fault with
  | none => (.ok (), s.coldWrite key e)
  | some f =>
      if f.key = key then
        (.error .raised, { s with cold := match f.left with
          | none => s.cold.erase (urlSafeKey key)
          | some c => s.cold.set (urlSafeKey key) c })
      else (.ok (), s.coldWrite key e)

/-- The loop of `_flush_demotions`. -/
def writeDemotionsOn (fault : Option (Fault β)) : List (String × CacheEntry β) →
    TieredCacheStore β → Except OsError Unit × TieredCacheStore β
  | [], s => (.ok (), s)
  | ke :: rest, s =>
      match s.coldWriteOn fault ke.1 ke.2 with
      | (.error x, s) => (.error x, s)
      | (.ok (), s) => writeDemotionsOn fault rest { s with demotions := s.demotions + 1 }

/-- `_flush_demotions`. -/
def flushDemotionsOn (fault : Option (Fault β)) (s : TieredCacheStore β) :
    Except OsError Unit × TieredCacheStore β :=
  writeDemotionsOn fault s.pendingDemotions { s with pendingDemotions := [] }

def getOn (fault : Option (Fault β)) (s : TieredCacheStore β) (now : Time) (key : String) :
    Except OsError (Option (CacheEntry β)) × TieredCacheStore β :=
  match s.hot.get now key with
  | (some e, hot) => (.ok (some e), { s with hot, hotHits := s.hotHits + 1 })
  | (none, hot) =>
      let s := { s with hot, hotMisses := s.hotMisses + 1 }
      match s.coldRead key with
      | none => (.ok none, { s with coldMisses := s.coldMisses + 1 })
      | some e =>
          if e.isExpired now then
            (.ok none, { (s.coldDelete key).2 with coldMisses := s.coldMisses + 1 })
          else
            let s := { s with coldHits := s.coldHits + 1, promotions := s.promotions + 1 }
            let e := e.touch now
            let (raised, s) := ((s.coldDelete key).2.hotPut key e).flushDemotionsOn fault
            (raised.map fun _ => some e, s)

def putOn (fault : Option (Fault β)) (s : TieredCacheStore β) (key : String)
    (entry : CacheEntry β) : Except OsError Unit × TieredCacheStore β :=
  ((s.coldDelete key).2.hotPut key entry).flushDemotionsOn fault

/-- An operation on the store; only `get` and `put` write to the cold tier. -/
def performOn (fault : Option (Fault β)) (s : TieredCacheStore β) (now : Time) :
    StoreOp β → Except OsError (StoreResult β) × TieredCacheStore β
  | .get key => let (e, s) := s.getOn fault now key; (e.map .entry, s)
  | .put key entry => let (raised, s) := s.putOn fault key entry; (raised.map fun _ => .done, s)
  | op => let (result, s) := s.perform now op; (.ok result, s)

/-- An operation, when it is made, and which write of it raises. -/
structure Attempt (β : Type) where
  now : Time
  op : StoreOp β
  fault : Option (Fault β) := none

def stepOn (s : TieredCacheStore β) (a : Attempt β) : Option (TieredCacheStore β) :=
  if a.op.Plain then some (s.performOn a.fault a.now a.op).2 else none

end TieredCacheStore

end Cdn

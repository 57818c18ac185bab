/-
The tiered store: a small store in memory over a larger one on disk.

The hot tier is the in-memory store, whose evictions are queued and then written to the
cold tier.  A cold entry is a directory with two files, the metadata as JSON and the
body; JSON gives texts, numbers and `null` back as they were, so the model keeps the
metadata as a record.  What the metadata does not hold is lost on the way: the stale
window and the vary fields.

A directory is named after the key by `_url_safe_key`, and nothing compares the key in
the metadata with the key that is asked for.  A name without a slash is a child of the
cold directory unless it is `.` or `..`, and a name with a NUL is refused by `mkdir`; the
model describes neither, and statements about what the store keeps leave out the keys that
come to such names.

The files do what they are told here.  Names that are too long for the file system (255
bytes, mostly) and other operations that fail are left out; `Cdn.Demotion` is about writes
that raise.
-/
import Cdn.Infrastructure.LruStore
import Cdn.Lib.Paths

namespace Cdn

/-! ### Directory names -/

/-- The characters that are problematic on common filesystems. -/
def problematicChars : List Char := "/:?#[]@!$&'()*+,;=%\\<>\"|^\x60\x7b\x7d ".toList

/-- `re.sub(r"_+", "_", s)`. -/
def collapseUnderscores : List Char → List Char
  | '_' :: '_' :: rest => collapseUnderscores ('_' :: rest)
  | c :: rest => c :: collapseUnderscores rest
  | [] => []

/-- `s.strip("_")`. -/
def stripUnderscores (s : List Char) : List Char :=
  (s.dropWhile (· = '_')).rdropWhile (· = '_')

/-- `_url_safe_key`: a cache key as a directory name. -/
def urlSafeKey (key : String) : String :=
  let safe := key.toList.map fun c => if c ∈ problematicChars then '_' else c
  let safe := stripUnderscores (collapseUnderscores safe)
  if safe = [] then "_empty_" else String.ofList safe

/-- `_key_dir`, as the file system resolves it. -/
def keyDir (coldDir : Paths.Resolved) (key : String) : Paths.Resolved :=
  coldDir.enter (urlSafeKey key).toList

/-! ### The store -/

/-- What `meta.json` holds. -/
structure ColdMeta where
  key : String
  headers : Headers
  etag : Option String
  createdAt : Time
  ttl : Time
  lastAccessed : Time
  size : Int
  statusCode : Int
deriving DecidableEq

/-- A directory of the cold tier, with `meta.json` and `data.bin`. -/
structure ColdEntry (β : Type) where
  metadata : ColdMeta
  data : β
deriving DecidableEq

structure TieredCacheStore (β : Type) where
  hot : LruCacheStore β
  /-- Demotions queued by the eviction callback. -/
  pendingDemotions : List (String × CacheEntry β) := []
  /-- The directories of the cold tier, by name. -/
  cold : Dict String (ColdEntry β) := ∅
  hotHits : Nat := 0
  hotMisses : Nat := 0
  coldHits : Nat := 0
  coldMisses : Nat := 0
  promotions : Nat := 0
  demotions : Nat := 0
deriving DecidableEq

variable {β : Type}

/-- The entry that `_cold_read` builds from the two files. -/
def ColdEntry.entry (c : ColdEntry β) : CacheEntry β where
  content := c.data
  headers := c.metadata.headers
  etag := c.metadata.etag
  createdAt := c.metadata.createdAt
  ttl := c.metadata.ttl
  lastAccessed := c.metadata.lastAccessed
  size := c.metadata.size
  statusCode := c.metadata.statusCode

/-- The files that `_cold_write` writes. -/
def ColdEntry.of (key : String) (e : CacheEntry β) : ColdEntry β where
  metadata := ⟨key, e.headers, e.etag, e.createdAt, e.ttl, e.lastAccessed, e.size, e.statusCode⟩
  data := e.content

namespace TieredCacheStore

/-- `key.startswith(prefix)`. -/
def hasPrefix (keyPrefix key : String) : Bool := keyPrefix.toList.isPrefixOf key.toList

/-- `__init__`, over a cold directory that is empty. -/
def init (hotMaxSizeBytes : Int) : TieredCacheStore β where
  hot := { maxSizeBytes := hotMaxSizeBytes }

/-! ### The cold tier -/

/-- `_cold_write`, for a key whose directory can be made. -/
def coldWrite (s : TieredCacheStore β) (key : String) (e : CacheEntry β) : TieredCacheStore β :=
  { s with cold := s.cold.set (urlSafeKey key) (.of key e) }

def coldRead (s : TieredCacheStore β) (key : String) : Option (CacheEntry β) :=
  (s.cold.get? (urlSafeKey key)).map ColdEntry.entry

def coldDelete (s : TieredCacheStore β) (key : String) : Bool × TieredCacheStore β :=
  if s.cold.contains (urlSafeKey key) then
    (true, { s with cold := s.cold.erase (urlSafeKey key) })
  else (false, s)

/-- Remove the directories the test picks. -/
def removeDirs (s : TieredCacheStore β) (picked : ColdEntry β → Bool) : TieredCacheStore β :=
  { s with cold := (s.cold.items.filter fun d => picked d.2).foldl (fun c d => c.erase d.1) s.cold }

def coldDeleteByPrefix (s : TieredCacheStore β) (keyPrefix : String) : Nat × TieredCacheStore β :=
  ((s.cold.items.filter fun d => hasPrefix keyPrefix d.2.metadata.key).length,
    s.removeDirs fun c => hasPrefix keyPrefix c.metadata.key)

/-- `_cold_keys`: expired directories are removed on the way. -/
def coldKeys (s : TieredCacheStore β) (now : Time) : List String × TieredCacheStore β :=
  let expired (c : ColdEntry β) : Bool := c.metadata.ttl < now - c.metadata.createdAt
  ((s.cold.items.filter fun d => !expired d.2).map fun d => d.2.metadata.key, s.removeDirs expired)

/-! ### The hot tier -/

/-- `_evict_lru` of the hot tier: the evicted entry is queued. -/
def evictLru (s : TieredCacheStore β) : TieredCacheStore β :=
  match s.hot.store.popFirst? with
  | none => s
  | some ((key, e), _) => { s with
      hot := s.hot.evictLru, pendingDemotions := s.pendingDemotions ++ [(key, e)] }

def evictLoop (needed : Int) : Nat → TieredCacheStore β → TieredCacheStore β
  | 0, s => s
  | fuel + 1, s =>
      if s.hot.maxSizeBytes < s.hot.currentSizeBytes + needed ∧ s.hot.store.items ≠ [] then
        evictLoop needed fuel s.evictLru
      else s

/-- `put` of the hot tier, which evicts through the callback. -/
def hotPut (s : TieredCacheStore β) (key : String) (entry : CacheEntry β) : TieredCacheStore β :=
  let s := if s.hot.store.contains key then { s with hot := s.hot.removeEntry key } else s
  let s := evictLoop entry.size s.hot.store.items.length s
  { s with
    hot := { s.hot with
      store := s.hot.store.set key entry
      currentSizeBytes := s.hot.currentSizeBytes + entry.size } }

/-- `_flush_demotions`. -/
def flushDemotions (s : TieredCacheStore β) : TieredCacheStore β :=
  s.pendingDemotions.foldl
    (fun s ke => { s.coldWrite ke.1 ke.2 with demotions := s.demotions + 1 })
    { s with pendingDemotions := [] }

/-! ### The operations -/

def get (s : TieredCacheStore β) (now : Time) (key : String) :
    Option (CacheEntry β) × TieredCacheStore β :=
  match s.hot.get now key with
  | (some e, hot) => (some e, { s with hot, hotHits := s.hotHits + 1 })
  | (none, hot) =>
      let s := { s with hot, hotMisses := s.hotMisses + 1 }
      match s.coldRead key with
      | none => (none, { s with coldMisses := s.coldMisses + 1 })
      | some e =>
          if e.isExpired now then
            (none, { (s.coldDelete key).2 with coldMisses := s.coldMisses + 1 })
          else
            let s := { s with coldHits := s.coldHits + 1, promotions := s.promotions + 1 }
            let e := e.touch now
            (some e, ((s.coldDelete key).2.hotPut key e).flushDemotions)

def put (s : TieredCacheStore β) (key : String) (entry : CacheEntry β) : TieredCacheStore β :=
  ((s.coldDelete key).2.hotPut key entry).flushDemotions

def delete (s : TieredCacheStore β) (key : String) : Bool × TieredCacheStore β :=
  let (hotRemoved, hot) := s.hot.delete key
  let (coldRemoved, s) := { s with hot }.coldDelete key
  (hotRemoved || coldRemoved, s)

def deleteByPrefix (s : TieredCacheStore β) (keyPrefix : String) : Nat × TieredCacheStore β :=
  let (hotCount, hot) := s.hot.deleteByPrefix keyPrefix
  let (coldCount, s) := { s with hot }.coldDeleteByPrefix keyPrefix
  (hotCount + coldCount, s)

/-- `keys`; the source makes a list of a set, so the order means nothing. -/
def keys (s : TieredCacheStore β) (now : Time) : List String × TieredCacheStore β :=
  let (hotKeys, hot) := s.hot.keys now
  let (coldKeys, s) := { s with hot }.coldKeys now
  (hotKeys ∪ coldKeys, s)

/-! ### Statistics -/

/-- `_cold_stats`: the number of entries, and the bytes of their bodies. -/
def coldStats (s : TieredCacheStore β) (length : β → Nat) : Nat × Nat :=
  (s.cold.items.length, (s.cold.items.map fun d => length d.2.data).sum)

/-- What `stats` reports; the ratio is exact here. -/
structure Stats where
  hot : LruCacheStore.Stats
  coldTotalEntries : Nat
  coldTotalSizeBytes : Nat
  hotHits : Nat
  hotMisses : Nat
  coldHits : Nat
  coldMisses : Nat
  promotions : Nat
  demotions : Nat
  totalHitCount : Nat
  totalMissCount : Nat
  hitRatio : Rat
deriving DecidableEq

def stats (s : TieredCacheStore β) (length : β → Nat) : Stats :=
  let (coldEntryCount, coldSize) := s.coldStats length
  let totalHits := s.hotHits + s.coldHits
  let totalMisses := s.hotMisses + s.coldMisses
  let total := totalHits + totalMisses
  { hot := s.hot.stats
    coldTotalEntries := coldEntryCount
    coldTotalSizeBytes := coldSize
    hotHits := s.hotHits
    hotMisses := s.hotMisses
    coldHits := s.coldHits
    coldMisses := s.coldMisses
    promotions := s.promotions
    demotions := s.demotions
    totalHitCount := totalHits
    totalMissCount := totalMisses
    hitRatio := if 0 < total then (totalHits : Rat) / (total : Nat) else 0 }

end TieredCacheStore

end Cdn

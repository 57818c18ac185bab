/-
The purge route of an edge.

The route works on the store alone, under the raw text it is given.  It returns a
dictionary whatever happened, so the framework always answers 200.
-/
import Cdn.Infrastructure.LruStore

namespace Cdn

variable {β : Type}

/-- The dictionaries `purge_cache` returns. -/
inductive PurgeReply where
  | purged (deleted : Bool) (key : String)
  | purgedCount (count : Nat) (keyPrefix : String)
  /-- "Provide 'url' or 'prefix' query parameter". -/
  | error
deriving DecidableEq, Repr

/-- A query parameter that is there and not empty. -/
def given (param : Option String) : Option String := param.filter (· ≠ "")

theorem given_some {text : String} (h : text ≠ "") : given (some text) = some text := by
  simp [given, Option.filter, h]

@[simp] theorem given_none : given none = none := rfl

/-- `purge_cache`: by exact key, else by prefix of the key. -/
def purgeCache (store : LruCacheStore β) (url keyPrefix : Option String) :
    PurgeReply × LruCacheStore β :=
  match given url, given keyPrefix with
  | some url, _ => let (deleted, store) := store.delete url; (.purged deleted url, store)
  | none, some keyPrefix =>
      let (count, store) := store.deleteByPrefix keyPrefix; (.purgedCount count keyPrefix, store)
  | none, none => (.error, store)

/-- The status of the route's response. -/
def purgeStatus (_ : PurgeReply) : Int := 200

/-- A purge covers a key: its deletion is of this key, or of a prefix of it. -/
def covers (url keyPrefix : Option String) (k : String) : Bool :=
  match given url, given keyPrefix with
  | some url, _ => k = url
  | none, some keyPrefix => keyPrefix.toList.isPrefixOf k.toList
  | none, none => false

/-- **A purge takes out what it covers and nothing else.** -/
theorem get?_purgeCache (store : LruCacheStore β) (url keyPrefix : Option String) (k : String) :
    (purgeCache store url keyPrefix).2.store.get? k =
      if covers url keyPrefix k then none else store.store.get? k := by
  unfold purgeCache covers
  rcases given url with _ | url
  · rcases given keyPrefix with _ | keyPrefix
    · simp
    · simp [LruCacheStore.get?_deleteByPrefix]
  · simp [LruCacheStore.get?_delete]

end Cdn

/-
The entities of the CDN: what a cache stores and what an origin answers.

The service never looks inside a response body; it stores it, measures it and hands
it on.  So the entities take the body type `β` as a parameter, and a statement about
bodies that carry a version or a time of birth is a statement about this same code.
-/
import Cdn.Python
import Cdn.Lib.Dict

namespace Cdn

/-- A header map; the client lists its names in lower case. -/
abbrev Headers := Dict String String

/-- A cached response. -/
structure CacheEntry (β : Type) where
  content : β
  headers : Headers
  etag : Option String
  createdAt : Time
  ttl : Time
  lastAccessed : Time
  size : Int
  statusCode : Int
  staleWhileRevalidate : Time := 0
  varyHeaders : Option (List String) := none
deriving DecidableEq

namespace CacheEntry

variable {β : Type}

def isExpired (e : CacheEntry β) (now : Time) : Bool := e.ttl < now - e.createdAt

/-- Expired, but still inside the stale-while-revalidate window. -/
def isStaleServable (e : CacheEntry β) (now : Time) : Bool :=
  let age := now - e.createdAt
  e.ttl < age && age ≤ e.ttl + e.staleWhileRevalidate

def touch (e : CacheEntry β) (now : Time) : CacheEntry β := { e with lastAccessed := now }

/-! ### The same entry, however often it was read

Every read rewrites `lastAccessed`.  `core` is the entry without that field's value, so
two readings of one stored entry have the same core.
-/

def core (e : CacheEntry β) : CacheEntry β := e.touch 0

/-! ### Age -/

/-- Older than its lifetime and its stale window together. -/
def OverAge (e : CacheEntry β) (now : Time) : Prop :=
  e.ttl + e.staleWhileRevalidate < now - e.createdAt

instance (e : CacheEntry β) (now : Time) : Decidable (e.OverAge now) :=
  inferInstanceAs (Decidable (_ < _))

theorem overAge_of_not_servable {e : CacheEntry β} {now : Time} (hexp : e.isExpired now = true)
    (hstale : e.isStaleServable now = false) : e.OverAge now := by
  simp only [isExpired, decide_eq_true_eq] at hexp
  simp only [isStaleServable, Bool.and_eq_false_iff, decide_eq_false_iff_not, not_lt,
    not_le] at hstale
  rcases hstale with h | h
  · exact absurd hexp (not_lt.mpr h)
  · exact h

/-- The stale window opens where the lifetime ends. -/
theorem isExpired_of_isStaleServable {e : CacheEntry β} {now : Time}
    (h : e.isStaleServable now = true) : e.isExpired now = true := by
  simp only [isStaleServable, Bool.and_eq_true] at h
  exact h.1

/-- An entry with a window of at least zero that is over age is past both tests. -/
theorem not_servable_of_overAge {e : CacheEntry β} {now : Time} (h0 : 0 ≤ e.staleWhileRevalidate)
    (h : e.OverAge now) : e.isExpired now = true ∧ e.isStaleServable now = false := by
  unfold OverAge at h
  constructor
  · simp only [isExpired, decide_eq_true_eq]
    linarith
  · simp only [isStaleServable, Bool.and_eq_false_iff, decide_eq_false_iff_not, not_le]
    exact Or.inr h

end CacheEntry

/-- A response received from the origin. -/
structure OriginResponse (β : Type) where
  content : β
  statusCode : Int
  headers : Headers := ∅
  etag : Option String := none
deriving DecidableEq

end Cdn

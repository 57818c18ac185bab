/-
An edge process as a machine.

An action is what the world outside a segment decides: a request arrives, the origin
answers, a task that can go on is picked, a task is cancelled, a purge comes in, time
passes, the breaker is reset by hand.  `step` takes one of them; a run takes any list
of them, so a statement about every run is one about every interleaving.
-/
import Cdn.Application.CacheService
import Cdn.Presentation.EdgeRoutes
import Cdn.Lib.Run

namespace Cdn

inductive Action (β : Type) where
  | arrive (path : String) (requestHeaders : Option Headers)
  | answer (task : Nat) (outcome : FetchOutcome β)
  | resume (task : Nat)
  | cancel (task : Nat)
  | purge (url keyPrefix : Option String)
  | tick (wall mono : Time)
  | reset
deriving DecidableEq

variable {β : Type} (S : Setup β)

/-- The task an action is about, if there is one already. -/
def Action.task? : Action β → Option Nat
  | .answer t _ | .resume t | .cancel t => some t
  | _ => none

namespace Edge

/-- The purge route, run on the edge's store. -/
def purge (s : Edge β) (url keyPrefix : Option String) : Edge β :=
  { s with cacheStore := (purgeCache s.cacheStore url keyPrefix).2 }

/-- The wall clock may be set to anything; the monotonic clock does not go back. -/
def tick (s : Edge β) (wall mono : Time) : Option (Edge β) :=
  if s.mono ≤ mono then some { s with wall, mono } else none

def act (s : Edge β) : Action β → Option (Edge β)
  | .arrive path requestHeaders => some (s.getOrFetch S path requestHeaders)
  | .answer t outcome => s.answer t outcome
  | .resume t => s.resume S t
  | .cancel t => s.cancel t
  | .purge url keyPrefix => some (s.purge url keyPrefix)
  | .tick wall mono => s.tick wall mono
  | .reset => some { s with circuitBreaker := s.circuitBreaker.reset }

/-- One more step has been taken. -/
def stamp (s : Edge β) : Edge β := { s with instant := s.instant + 1 }

def step (s : Edge β) (a : Action β) : Option (Edge β) := (s.act S a).map stamp

/-- A process that has just started: a store and a breaker, and no calls yet. -/
def start (store : LruCacheStore β) (breaker : CircuitBreaker) (wall mono : Time) : Edge β where
  cacheStore := store
  circuitBreaker := breaker
  wall := wall
  mono := mono

end Edge

end Cdn

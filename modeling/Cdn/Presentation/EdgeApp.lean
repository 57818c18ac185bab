/-
The edge application: its gate, and how it shuts down.

A request passes the gate, runs and is counted out; the gate closes when the shutdown
begins, but for the health check.  The shutdown handler waits until the count has come down
to zero, for 30 seconds at most, then cancels the revalidations and closes the client of the
origin.  What runs between two suspension points is one function below, and any of them may
be next.

The event is cleared once, before the handler waits for it.  So a handler that was woken
finds it set, and no one else waits.
-/
import Cdn.Lib.Run
import Cdn.Lib.Slots

namespace Cdn

/-- Where a request is that has come to the gate. -/
inductive Passage where
  /-- Answered with 503 at the gate. -/
  | rejected
  | inFlight
  /-- Counted out, with a response or with an exception. -/
  | finished (raised : Bool)
deriving DecidableEq, Repr

structure GateRequest where
  /-- `request.url.path`. -/
  path : String
  passage : Passage
deriving DecidableEq, Repr

/-- Where the shutdown handler is, and whether its wait ended with a timeout. -/
inductive ShutdownStage where
  | notCalled
  /-- In `wait_for`. -/
  | draining
  /-- The revalidations are cancelled, and it waits for them. -/
  | cancelled (timedOut : Bool)
  /-- In `origin_client.close`. -/
  | closing (timedOut : Bool)
  | done (timedOut : Bool)
deriving DecidableEq, Repr

structure EdgeApp where
  activeRequests : Int := 0
  shuttingDown : Bool := false
  /-- Whether the drain event is set. -/
  drainEvent : Bool := true
  /-- How many tasks the cache service keeps. -/
  revalidationTasks : Nat := 0
  requests : List GateRequest := []
  stage : ShutdownStage := .notCalled
deriving DecidableEq, Repr

namespace EdgeApp

inductive Action where
  | request (path : String)
  | finish (request : Nat) (raised : Bool)
  /-- A revalidation is created, or it ends. -/
  | revalidate
  | revalidated
  /-- The server calls the shutdown handler. -/
  | shutdown
  /-- The handler goes on: the event is set, or the time is up. -/
  | drained
  | timeout
  /-- The revalidations have ended. -/
  | gathered
  | closed
deriving DecidableEq, Repr

variable (s : EdgeApp)

/-- `graceful_shutdown_middleware` up to `call_next`. -/
def gate (path : String) : EdgeApp :=
  if s.shuttingDown ∧ path ≠ "/health" then
    { s with requests := s.requests ++ [⟨path, .rejected⟩] }
  else
    { s with
      activeRequests := s.activeRequests + 1
      requests := s.requests ++ [⟨path, .inFlight⟩] }

/-- The `finally` block. -/
def leave (i : Nat) (raised : Bool) : Option EdgeApp :=
  match s.requests[i]? with
  | some ⟨_, .inFlight⟩ =>
      let active := s.activeRequests - 1
      some { s with
        activeRequests := active
        drainEvent := if s.shuttingDown ∧ active = 0 then true else s.drainEvent
        requests := s.requests.modify i fun r => { r with passage := .finished raised } }
  | _ => none

/-- `cache_service.shutdown()`, up to its wait, and on to the client where there is nothing
to wait for. -/
def cancelRevalidations (timedOut : Bool) : EdgeApp :=
  if s.revalidationTasks = 0 then { s with stage := .closing timedOut }
  else { s with stage := .cancelled timedOut }

/-- `_on_shutdown` up to its first suspension. -/
def onShutdown : EdgeApp :=
  let s := { s with shuttingDown := true }
  if 0 < s.activeRequests then { s with drainEvent := false, stage := .draining }
  else s.cancelRevalidations false

def step : Action → Option EdgeApp
  | .request path => some (s.gate path)
  | .finish i raised => s.leave i raised
  | .revalidate => some { s with revalidationTasks := s.revalidationTasks + 1 }
  | .revalidated =>
      if 0 < s.revalidationTasks then some { s with revalidationTasks := s.revalidationTasks - 1 }
      else none
  | .shutdown => if s.stage = .notCalled then some s.onShutdown else none
  | .drained =>
      if s.stage = .draining ∧ s.drainEvent = true then some (s.cancelRevalidations false) else none
  | .timeout => if s.stage = .draining then some (s.cancelRevalidations true) else none
  | .gathered =>
      match s.stage with
      | .cancelled timedOut => some { s with revalidationTasks := 0, stage := .closing timedOut }
      | _ => none
  | .closed =>
      match s.stage with
      | .closing timedOut => some { s with stage := .done timedOut }
      | _ => none

/-! ### What the gate is for -/

/-- How many requests have passed the gate and not finished. -/
def inFlight : Nat := s.requests.countP fun r => r.passage = .inFlight

/-- None of them is another than a health check. -/
def Drained : Prop := ∀ r ∈ s.requests, r.passage = .inFlight → r.path = "/health"

instance : Decidable s.Drained := inferInstanceAs (Decidable (∀ r ∈ s.requests, _))

end EdgeApp

/-- The revalidations are cancelled, and the wait before was not needed or ended in time. -/
def ShutdownStage.inTime : ShutdownStage → Bool
  | .cancelled timedOut | .closing timedOut | .done timedOut => !timedOut
  | _ => false

end Cdn

/-
A breaker and those who use it.

`Watch` is the breaker on its own, asked and told in any order.  `Traffic` is the breaker
as a context manager: calls enter it, some are let through, and each of these leaves it
once, with a result or with an exception, at any later time.  Both machines write down
what the breaker itself forgets, and no step depends on what is written down.

Only the stored field counts as a change of state: an open circuit whose timeout has
passed reads as half open, and becomes so when a call is let through.
-/
import Cdn.Infrastructure.CircuitBreaker
import Cdn.Lib.Run
import Cdn.Lib.Slots

namespace Cdn

namespace CircuitBreaker

/-- `__init__`. -/
def init (failureThreshold : Int) (recoveryTimeout : Time)
    (halfOpenMaxCalls successThreshold : Int) : CircuitBreaker :=
  { failureThreshold, recoveryTimeout, halfOpenMaxCalls, successThreshold }

/-- `__aexit__`: an exception of any kind, a cancellation too, is a failure. -/
def aexit (b : CircuitBreaker) (exc : Option Exn) (now : Time) : CircuitBreaker :=
  match exc with
  | none => b.recordSuccess
  | some _ => b.recordFailure now

end CircuitBreaker

/-! ### The breaker on its own -/

inductive BreakerOp where
  | enter
  | recordSuccess
  | recordFailure
  | reset
  | tick (mono : Time)
deriving DecidableEq

structure Watch where
  breaker : CircuitBreaker
  mono : Time
  /-- The failures recorded since the last success or reset.  Only these two close a
  circuit, so they are also the failures since the last closing. -/
  failures : Nat := 0
deriving DecidableEq

namespace Watch

/-- A refused admission leaves the breaker as it is; the monotonic clock does not go back. -/
def step (s : Watch) : BreakerOp → Option Watch
  | .enter =>
      match s.breaker.aenter s.mono with
      | .ok breaker => some { s with breaker }
      | .error _ => some s
  | .recordSuccess => some { s with breaker := s.breaker.recordSuccess, failures := 0 }
  | .recordFailure => some { s with
      breaker := s.breaker.recordFailure s.mono, failures := s.failures + 1 }
  | .reset => some { s with breaker := s.breaker.reset, failures := 0 }
  | .tick mono => if s.mono ≤ mono then some { s with mono } else none

end Watch

/-! ### Calls through the breaker -/

/-- A call that was let through. -/
structure Admission where
  /-- The phase it was let through in. -/
  phase : Nat
  ended : Bool := false
deriving DecidableEq

/-- The end of a call. -/
structure Ending where
  /-- It was let through in the phase it ended in. -/
  probe : Bool
  success : Bool
deriving DecidableEq

inductive CallAction where
  | enter
  | leave (call : Nat) (exc : Option Exn)
  | reset
  | tick (mono : Time)
deriving DecidableEq

structure Traffic where
  breaker : CircuitBreaker
  mono : Time
  /-- The calls that were let through, in order. -/
  calls : List Admission := []
  /-- How often the state has changed. -/
  phase : Nat := 0
  /-- The ends of calls since the last change of state, in order. -/
  endings : List Ending := []
  lastFailure : Option Time := none
deriving DecidableEq

namespace Traffic

/-- The breaker moves on; where its state changes, a new phase begins. -/
def become (s : Traffic) (breaker : CircuitBreaker) : Traffic :=
  if breaker.state = s.breaker.state then { s with breaker }
  else { s with breaker, phase := s.phase + 1, endings := [] }

/-- A call is let through, in the phase its admission has brought about. -/
def letIn (s : Traffic) : Traffic := { s with calls := s.calls ++ [{ phase := s.phase }] }

/-- The end of a call is written down. -/
def conclude (s : Traffic) (call : Nat) (admission : Admission) (exc : Option Exn) : Traffic :=
  { s with
    calls := s.calls.modify call fun c => { c with ended := true }
    endings := s.endings ++ [⟨admission.phase = s.phase, exc.isNone⟩]
    lastFailure := if exc.isSome then some s.mono else s.lastFailure }

def step (s : Traffic) : CallAction → Option Traffic
  | .enter =>
      match s.breaker.aenter s.mono with
      | .ok breaker => some (s.become breaker).letIn
      | .error _ => some s
  | .leave call exc =>
      match s.calls[call]? with
      | none => none
      | some admission =>
          if admission.ended then none
          else some ((s.conclude call admission exc).become (s.breaker.aexit exc s.mono))
  | .reset => some (s.become s.breaker.reset)
  | .tick mono => if s.mono ≤ mono then some { s with mono } else none

/-- A breaker that nobody has used yet. -/
def start (breaker : CircuitBreaker) (mono : Time) : Traffic where
  breaker := breaker
  mono := mono

/-- A call let through since the last change of state that has not ended. -/
def Probe (s : Traffic) (c : Admission) : Bool := c.phase = s.phase ∧ c.ended = false

/-- The number of calls in flight that were let through since the last change of state. -/
def probes (s : Traffic) : Nat := s.calls.countP s.Probe

/-- No call is in flight. -/
def Idle (s : Traffic) : Prop := ∀ c ∈ s.calls, c.ended = true

end Traffic

/-! ### The deadline of an open circuit -/

/-- The moment a circuit opened, and what the breaker was then. -/
structure Trip where
  time : Time
  breaker : CircuitBreaker
deriving DecidableEq

/-- Calls through a breaker that nobody resets, with the last time it opened. -/
structure Recovery where
  traffic : Traffic
  trip : Option Trip := none
deriving DecidableEq

namespace Recovery

def step (s : Recovery) (a : CallAction) : Option Recovery :=
  if a = .reset then none
  else (s.traffic.step a).map fun traffic =>
    { traffic
      trip := if s.traffic.breaker.state ≠ .open ∧ traffic.breaker.state = .open
        then some ⟨traffic.mono, traffic.breaker⟩ else s.trip }

/-- The circuit has opened and the recovery timeout has not passed since. -/
def Waiting (s : Recovery) (trip : Trip) : Prop :=
  s.trip = some trip ∧ s.traffic.mono < trip.time + s.traffic.breaker.recoveryTimeout

end Recovery

end Cdn

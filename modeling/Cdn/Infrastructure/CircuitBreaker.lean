/-
The circuit breaker that guards the origin.

Three states.  A closed circuit lets every call through and counts consecutive
failures; enough of them open it.  An open circuit refuses calls until the recovery
timeout has passed, and is then half open: a few probe calls go through, a failure
among them opens it again and enough successes close it.

The lock of the source is never held across a suspension, so each method is one
function of the state and of the reading of the monotonic clock.
-/
import Cdn.Python

namespace Cdn

inductive CircuitState where
  | closed
  | open
  | halfOpen
deriving DecidableEq, Repr

structure CircuitBreaker where
  failureThreshold : Int := 5
  recoveryTimeout : Time := 30
  halfOpenMaxCalls : Int := 1
  successThreshold : Int := 2
  state : CircuitState := .closed
  failureCount : Int := 0
  successCount : Int := 0
  lastFailureTime : Option Time := none
  halfOpenCalls : Int := 0
deriving DecidableEq

namespace CircuitBreaker

/-- The property `state`: an open circuit whose timeout has passed reads as half open. -/
def stateAt (b : CircuitBreaker) (now : Time) : CircuitState :=
  match b.state, b.lastFailureTime with
  | .open, some t => if b.recoveryTimeout ≤ now - t then .halfOpen else .open
  | st, _ => st

/-- The refusal of `__aenter__`; its `assert` stands before the raise. -/
def refuse (b : CircuitBreaker) : Except Exn CircuitBreaker :=
  match b.lastFailureTime with
  | none => .error .assertion
  | some t => .error (.circuitOpen (t + b.recoveryTimeout))

/-- `__aenter__`: ask to make a request. -/
def aenter (b : CircuitBreaker) (now : Time) : Except Exn CircuitBreaker :=
  match b.stateAt now with
  | .open => b.refuse
  | .halfOpen =>
      if b.halfOpenMaxCalls ≤ b.halfOpenCalls then b.refuse
      else
        let b' := if b.state = .open
          then { b with state := .halfOpen, successCount := 0, halfOpenCalls := 0 } else b
        .ok { b' with halfOpenCalls := b'.halfOpenCalls + 1 }
  | .closed => .ok b

def recordSuccess (b : CircuitBreaker) : CircuitBreaker :=
  match b.state with
  | .halfOpen =>
      let b' := { b with
        halfOpenCalls := max 0 (b.halfOpenCalls - 1), successCount := b.successCount + 1 }
      if b'.successThreshold ≤ b'.successCount then
        { b' with
          state := .closed, failureCount := 0, successCount := 0, halfOpenCalls := 0
          lastFailureTime := none }
      else b'
  | .closed => { b with failureCount := 0 }
  | .open => b

def recordFailure (b : CircuitBreaker) (now : Time) : CircuitBreaker :=
  match b.state with
  | .halfOpen =>
      { b with state := .open, lastFailureTime := some now, successCount := 0, halfOpenCalls := 0 }
  | _ =>
      let b' := { b with failureCount := b.failureCount + 1, lastFailureTime := some now }
      if b'.failureThreshold ≤ b'.failureCount then
        { b' with state := .open, successCount := 0, halfOpenCalls := 0 }
      else b'

/-- `reset`: the circuit is closed by hand. -/
def reset (b : CircuitBreaker) : CircuitBreaker :=
  { b with
    state := .closed, failureCount := 0, successCount := 0, lastFailureTime := none
    halfOpenCalls := 0 }

/-! ### What asking can do -/

theorem refuse_ne_ok {b b' : CircuitBreaker} : b.refuse ≠ .ok b' := by
  unfold refuse
  cases b.lastFailureTime <;> simp

/-- A request that is let through was not asked of an open circuit. -/
theorem stateAt_ne_open_of_aenter {b b' : CircuitBreaker} {now : Time}
    (h : b.aenter now = .ok b') : b.stateAt now ≠ .open := by
  intro hopen
  rw [aenter, hopen] at h
  exact refuse_ne_ok h

end CircuitBreaker

end Cdn

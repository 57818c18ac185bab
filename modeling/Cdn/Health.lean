/-
The health service and its checks.

Checks are launched for any edge at any time, several of one edge too, and go on in any
order.  The machine writes down which check recorded what, the newest first; no step depends
on what is written down.  The router marks edges on its own account as well.
-/
import Cdn.Application.HealthService
import Cdn.Lib.Run
import Cdn.Lib.Slots
import Mathlib.Data.List.Dedup

namespace Cdn

structure Check where
  edge : String
  phase : CheckPhase := .resolving
deriving DecidableEq, Repr

/-- What a check recorded. -/
structure Outcome where
  check : Nat
  edge : String
  success : Bool
  /-- The edge was marked unhealthy with it. -/
  marked : Bool
deriving DecidableEq, Repr

structure Health where
  service : HealthService
  /-- The checks that were launched, in order. -/
  checks : List Check := []
  /-- What they recorded, the newest first. -/
  outcomes : List Outcome := []
deriving DecidableEq

namespace Health

inductive Action where
  | launch (edge : String)
  | check (check : Nat) (event : CheckEvent)
  /-- The router could not reach an edge. -/
  | markUnhealthy (edge : String)
deriving DecidableEq, Repr

variable (s : Health)

/-- What a check records is written down. -/
def record (check : Nat) (edge : String) : Option Bool → Health
  | none => s
  | some true =>
      { s with
        service := s.service.recordSuccess edge
        outcomes := ⟨check, edge, true, false⟩ :: s.outcomes }
  | some false =>
      { s with
        service := s.service.recordFailure edge
        outcomes := ⟨check, edge, false, s.service.reachesThreshold edge⟩ :: s.outcomes }

def step : Action → Option Health
  | .launch edge => some { s with checks := s.checks ++ [{ edge }] }
  | .check i event =>
      match s.checks[i]? with
      | none => none
      | some check =>
          match check.phase.react event with
          | none => none
          | some (outcome, phase) =>
              let s := s.record i check.edge outcome
              some { s with checks := s.checks.modify i fun c => { c with phase } }
  | .markUnhealthy edge =>
      some { s with service := { s.service with
        routingService := s.service.routingService.markUnhealthy edge } }

/-- A service that has not checked anything yet. -/
def start (routingService : RoutingService) (maxFailures : Int) : Health where
  service := { routingService, maxFailures }

/-! ### What a recording and a step do -/

variable {s} {s' : Health}

@[simp] theorem checks_record (i : Nat) (edge : String) (outcome : Option Bool) :
    (s.record i edge outcome).checks = s.checks := by
  match outcome with
  | none => rfl
  | some true => rfl
  | some false => rfl

@[simp] theorem maxFailures_record (i : Nat) (edge : String) (outcome : Option Bool) :
    (s.record i edge outcome).service.maxFailures = s.service.maxFailures := by
  match outcome with
  | none => rfl
  | some true => rfl
  | some false => rfl

/-- What a check does when something has happened to it. -/
theorem step_check {i : Nat} {event : CheckEvent} (h : s.step (.check i event) = some s') :
    ∃ check outcome phase, s.checks[i]? = some check ∧
      check.phase.react event = some (outcome, phase) ∧
      s' = { s.record i check.edge outcome with
        checks := s.checks.modify i fun c => { c with phase } } := by
  simp only [step] at h
  split at h
  · cases h
  · rename_i check hcheck
    split at h
    · cases h
    · rename_i outcome phase hreact
      cases h
      exact ⟨check, outcome, phase, hcheck, hreact, by simp⟩

end Health

/-! ### What the checks are for -/

/-- The failures of an edge since its last success, by check. -/
def failures (outcomes : List Outcome) (edge : String) : List Nat :=
  ((outcomes.filter (·.edge = edge)).takeWhile (!·.success)).map (·.check)

/-- The number of checks that have failed in a row. -/
def failedChecks (outcomes : List Outcome) (edge : String) : Nat :=
  (failures outcomes edge).dedup.length

end Cdn

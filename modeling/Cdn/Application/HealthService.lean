/-
The health service.

A check resolves the name of its edge, asks for `/health` and closes its client, all within
a hard timeout.  The answer is recorded before the client is closed, an exception after,
and a timeout by the wrapper around it all.

A check is a coroutine: `react` is what it does when what it waits for has happened, which
is one thing to record at most and the place where it waits next.
-/
import Cdn.Application.RoutingService

namespace Cdn

structure HealthService where
  routingService : RoutingService
  maxFailures : Int := 3
  failureCounts : Dict String Nat := ∅
deriving DecidableEq

namespace HealthService

variable (s : HealthService) (edgeId : String)

/-- One more failure would reach the threshold. -/
def reachesThreshold : Bool := s.maxFailures ≤ s.failureCounts.getD edgeId 0 + 1

/-- `_record_failure`. -/
def recordFailure : HealthService :=
  { s with
    failureCounts := s.failureCounts.set edgeId (s.failureCounts.getD edgeId 0 + 1)
    routingService :=
      if s.reachesThreshold edgeId then s.routingService.markUnhealthy edgeId
      else s.routingService }

/-- What `_check_edge` does when the edge has answered with 200. -/
def recordSuccess : HealthService :=
  { s with
    failureCounts := s.failureCounts.set edgeId 0
    routingService := s.routingService.markHealthy edgeId }

end HealthService

/-! ### One check -/

/-- How the look-up of a name ends. -/
inductive Lookup where
  | found
  /-- `gaierror` or another `OSError`, or nothing within the second. -/
  | failed
  /-- Any other exception, such as the `UnicodeError` for a name that cannot be encoded. -/
  | raised
deriving DecidableEq, Repr

/-- `_dns_resolvable`; `none` is an exception that it does not catch. -/
def dnsResolvable : Lookup → Option Bool
  | .found => some true
  | .failed => some false
  | .raised => none

/-- What a check waits for. -/
inductive CheckPhase where
  | resolving
  | requesting
  /-- The client is closing: whether the answer has been recorded, or an exception is on its
  way; and whether the hard timeout has struck. -/
  | closing (recorded struck : Bool)
  | done
deriving DecidableEq, Repr

inductive CheckEvent where
  | resolved (lookup : Lookup)
  | responded (statusCode : Nat)
  | requestFailed
  | closed
  | closeFailed
  /-- The hard timeout of `_check_with_timeout`. -/
  | timeout
deriving DecidableEq, Repr

/-- `_check_edge` within `_check_with_timeout`: what is recorded when something happens,
success or failure, and what the check waits for next. -/
def CheckPhase.react : CheckPhase → CheckEvent → Option (Option Bool × CheckPhase)
  | .resolving, .resolved lookup =>
      match dnsResolvable lookup with
      | some true => some (none, .requesting)
      | some false => some (some false, .done)
      | none => some (none, .done)
  | .resolving, .timeout => some (some false, .done)
  | .requesting, .responded statusCode => some (some (statusCode = 200), .closing true false)
  | .requesting, .requestFailed => some (none, .closing false false)
  -- the cancellation leaves the `async with`, which closes the client first
  | .requesting, .timeout => some (none, .closing false true)
  | .closing recorded false, .timeout => some (none, .closing recorded true)
  | .closing true false, .closed => some (none, .done)
  -- by the handler, or by the wrapper for a cancellation
  | .closing _ _, .closed => some (some false, .done)
  -- by the handler: what the closing raises takes the place of what was on its way
  | .closing _ _, .closeFailed => some (some false, .done)
  | _, _ => none

end Cdn

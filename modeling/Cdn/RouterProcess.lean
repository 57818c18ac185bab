/-
The router as a process.

Requests on their way, health checks and the loop that launches them go on side by side.  A
request keeps to the order of the edges as it was when it came; a call that raises takes its edge
out of rotation at once, whatever has happened to the edge in between.  The loop launches one
check for each edge in every turn, and a check that it has launched goes on when the loop is
stopped.

The machine writes down what bears on the rotation, the newest first; no step depends on it.
-/
import Cdn.Health
import Cdn.Presentation.EdgeRoutes
import Cdn.Presentation.RouterRoutes

namespace Cdn

/-- `get_healthy_edges`. -/
def RoutingService.getHealthyEdges (s : RoutingService) : List EdgeNode :=
  s.edges.filter fun edge => s.edgeStatus.getD edge.id false

namespace Router

/-- The client's region, from its header.  The names of regions in the table are ASCII. -/
def clientRegion (header : Option String) : String :=
  String.ofList (strip (lower ((given header).getD defaultRegion).toList))

/-- A request on its way. -/
structure Passage where
  request : Request
  requestId : String
  region : String
  /-- The edges it may be sent to. -/
  edges : List EdgeNode
  /-- What has become of its calls, in order; `none` is an exception. -/
  answers : List (Option Http.Received) := []
  response : Option HttpResponse := none

/-- What bears on the rotation of an edge: a check that has recorded something, or a request's
call that has raised. -/
inductive Event where
  | succeeded (edge : String)
  | failed (edge : String)
  | raised (edge : String)
deriving DecidableEq, Repr

def Event.edge : Event → String
  | succeeded edge | failed edge | raised edge => edge

/-- What a check has recorded. -/
def Event.recorded (edge : String) (success : Bool) : Event :=
  if success then .succeeded edge else .failed edge

end Router

/-- A check that goes on comes to `_update_timestamp`: its look-up has failed, or its client is
closed and the hard timeout has not struck, or the handler has dealt with an exception. -/
def CheckPhase.stamps : CheckPhase → CheckEvent → Bool
  | .resolving, .resolved lookup => dnsResolvable lookup = some false
  | .closing _ struck, .closed => !struck
  | .closing _ _, .closeFailed => true
  | _, _ => false

structure RouterProcess where
  health : Health
  /-- The health-check loop is running. -/
  looping : Bool := false
  passages : List Router.Passage := []
  now : Time := 0
  /-- `last_health_check` of the first edge with the id. -/
  lastHealthCheck : Dict String Time := ∅
  events : List Router.Event := []

namespace RouterProcess

open Router

inductive Action where
  | started
  | stopped
  /-- The loop goes round once. -/
  | turn
  | check (check : Nat) (event : CheckEvent)
  /-- A request comes in. -/
  | arrive (request : Request) (requestId : String) (regionHeader : Option String)
  /-- The call that a request waits for has ended. -/
  | answered (passage : Nat) (answer : Option Http.Received)
  | tick (now : Time)

variable (s : RouterProcess)

def routing : RoutingService := s.health.service.routingService

/-- A check goes on. -/
def goOn (i : Nat) (event : CheckEvent) : Option RouterProcess :=
  match s.health.checks[i]?, s.health.step (.check i event) with
  | some check, some health =>
      let outcome := (check.phase.react event).bind Prod.fst
      some { s with
        health
        events := (outcome.map (Event.recorded check.edge)).toList ++ s.events
        lastHealthCheck :=
          if check.phase.stamps event then s.lastHealthCheck.set check.edge s.now
          else s.lastHealthCheck }
  | _, _ => none

/-- `_proxy_to_edge`, up to its first call. -/
def arrive (request : Request) (requestId region : String) : RouterProcess :=
  let orderedEdges := s.routing.getOrderedEdges region
  let response :=
    if orderedEdges = [] then some (unavailable "No healthy edge nodes available") else none
  let edges := orderedEdges.take (maxFailoverAttempts + 1)
  { s with passages := s.passages ++ [{ request, requestId, region, edges, response }] }

/-- `_proxy_to_edge`, from the end of a call to the next one or to the response. -/
def answered (j : Nat) (answer : Option Http.Received) : Option RouterProcess :=
  match s.passages[j]? with
  | none => none
  | some p =>
      match p.response, p.edges[p.answers.length]? with
      | none, some edge =>
          let answers := p.answers ++ [answer]
          match answer with
          | some received =>
              let response := some (relay edge p.requestId received)
              some { s with passages := s.passages.modify j fun p => { p with answers, response } }
          | none =>
              let response :=
                if answers.length = p.edges.length then
                  some (unavailable "All edge nodes failed to serve the request")
                else none
              let service := s.health.service
              some { s with
                health := { s.health with
                  service := { service with
                    routingService := service.routingService.markUnhealthy edge.id } }
                passages := s.passages.modify j fun p => { p with answers, response }
                events := .raised edge.id :: s.events }
      | _, _ => none

def step : Action → Option RouterProcess
  | .started => some { s with looping := true }
  | .stopped => some { s with looping := false }
  | .turn =>
      if s.looping then
        let checks := s.routing.edges.map fun edge => { edge := edge.id : Check }
        some { s with health := { s.health with checks := s.health.checks ++ checks } }
      else none
  | .check i event => s.goOn i event
  | .arrive request requestId regionHeader =>
      some (s.arrive request requestId (clientRegion regionHeader))
  | .answered j answer => s.answered j answer
  | .tick now => some { s with now }

/-- A router that has just been created. -/
def start (edges : List EdgeNode) (table : Option (Dict String (List String)))
    (maxFailures : Int) : RouterProcess where
  health := .start (.init edges table) maxFailures

/-! ### What the router shows -/

/-- `list_edges`: the edges with their flags, and when they were last checked. -/
def listEdges : List (EdgeNode × Option Time) :=
  s.routing.edges.zipIdx.map fun (edge, i) =>
    (edge, if s.routing.edges.findIdx? (·.id = edge.id) = some i then
      s.lastHealthCheck.get? edge.id else none)

/-- What the route `/health` counts: the healthy edges, and all. -/
def healthCheck : Nat × Nat :=
  (s.routing.getHealthyEdges.length, s.routing.edges.length)

/-! ### What a step does -/

/-- The ways a step can go. -/
inductive Moved (s : RouterProcess) : Action → RouterProcess → Prop where
  | started : Moved s .started { s with looping := true }
  | stopped : Moved s .stopped { s with looping := false }
  | turned {checks : List Check} (hlooping : s.looping = true) :
      Moved s .turn { s with health := { s.health with checks := s.health.checks ++ checks } }
  | checked {i : Nat} {event : CheckEvent} {check : Check} {outcome : Option Bool}
      {phase : CheckPhase} {lastHealthCheck : Dict String Time}
      (hcheck : s.health.checks[i]? = some check)
      (hreact : check.phase.react event = some (outcome, phase)) :
      Moved s (.check i event)
        { s with
          health := { s.health.record i check.edge outcome with
            checks := s.health.checks.modify i fun c => { c with phase } }
          events := (outcome.map (Event.recorded check.edge)).toList ++ s.events
          lastHealthCheck }
  | arrived {request : Request} {requestId : String} {regionHeader : Option String} :
      Moved s (.arrive request requestId regionHeader)
        (s.arrive request requestId (clientRegion regionHeader))
  | answered {j : Nat} {p : Router.Passage} {edge : EdgeNode} {received : Http.Received}
      (hp : s.passages[j]? = some p) (hwaits : p.response = none)
      (hedge : p.edges[p.answers.length]? = some edge) :
      Moved s (.answered j (some received))
        { s with
          passages := s.passages.modify j fun q =>
            { q with
              answers := p.answers ++ [some received]
              response := some (relay edge p.requestId received) } }
  | raised {j : Nat} {p : Router.Passage} {edge : EdgeNode} (hp : s.passages[j]? = some p)
      (hwaits : p.response = none) (hedge : p.edges[p.answers.length]? = some edge) :
      Moved s (.answered j none)
        { s with
          health := { s.health with
            service := { s.health.service with
              routingService := s.routing.markUnhealthy edge.id } }
          passages := s.passages.modify j fun q =>
            { q with
              answers := p.answers ++ [none]
              response :=
                if (p.answers ++ [none]).length = p.edges.length then
                  some (unavailable "All edge nodes failed to serve the request")
                else none }
          events := .raised edge.id :: s.events }
  | ticked {now : Time} : Moved s (.tick now) { s with now }

variable {s} {s' : RouterProcess}

theorem moved_of_goOn {i : Nat} {event : CheckEvent} (h : s.goOn i event = some s') :
    Moved s (.check i event) s' := by
  unfold goOn at h
  split at h
  · rename_i check health hcheck hstep
    obtain ⟨check', outcome, phase, hcheck', hreact, rfl⟩ := Health.step_check hstep
    rw [hcheck, Option.some.injEq] at hcheck'
    subst hcheck'
    rw [hreact, Option.bind_some] at h
    cases h
    exact Moved.checked hcheck hreact
  · cases h

theorem moved_of_answered {j : Nat} {answer : Option Http.Received}
    (h : s.answered j answer = some s') : Moved s (.answered j answer) s' := by
  unfold answered at h
  split at h
  · cases h
  · rename_i p hp
    split at h
    · rename_i edge hwaits hedge
      cases answer with
      | some received =>
          cases h
          exact Moved.answered hp hwaits hedge
      | none =>
          cases h
          exact Moved.raised hp hwaits hedge
    · cases h

theorem moved_of_step {a : Action} (h : s.step a = some s') : Moved s a s' := by
  cases a with
  | check i event => exact moved_of_goOn h
  | answered j answer => exact moved_of_answered h
  | turn =>
      simp only [step] at h
      split at h
      · rename_i hlooping
        cases h
        exact Moved.turned hlooping
      · cases h
  | started => cases h; exact Moved.started
  | stopped => cases h; exact Moved.stopped
  | arrive => cases h; exact Moved.arrived
  | tick => cases h; exact Moved.ticked

end RouterProcess

end Cdn

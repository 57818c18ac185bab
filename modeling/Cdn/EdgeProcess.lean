/-
An edge process with its gate.

A request for a file passes the gate, its handler calls `get_or_fetch`, and it is counted out
when that call is over.  The shutdown handler cancels the revalidations that the service keeps
and waits until all of these have ended; a task that was cancelled raises when it goes on.

The gate is the model of the gate, the service is the model of the service, and what happens at
one of them happens at the other at the same time: the number of revalidations that the gate
sees is the number that the service keeps.
-/
import Cdn.Edge
import Cdn.Presentation.EdgeApp

namespace Cdn

variable {β : Type}

structure EdgeProcess (β : Type) where
  app : EdgeApp := {}
  edge : Edge β
  /-- Which request has called `get_or_fetch`, and as which task. -/
  serving : List (Nat × Nat) := []
  /-- The tasks that the shutdown has cancelled, until it has waited for them. -/
  cancelling : List Nat := []

namespace EdgeProcess

inductive Action (β : Type) where
  /-- A request comes to the gate. -/
  | request (path : String)
  /-- The handler of a request calls `get_or_fetch`. -/
  | serve (request : Nat) (requestHeaders : Option Headers)
  | finish (request : Nat) (raised : Bool)
  /-- What happens to the service, other than an arrival. -/
  | edge (a : Cdn.Action β)
  /-- A cancelled revalidation raises. -/
  | cancelled (task : Nat)
  | shutdown
  | drained
  | timeout
  | gathered
  | closed

/-- The path that the file route gets, where the request is for a file. -/
def filePath? (path : String) : Option String :=
  if "/files/".toList.isPrefixOf path.toList then some (String.ofList (path.toList.drop 7)) else none

/-- A task that has ended. -/
def Over (s : Edge β) (t : Nat) : Prop := ∀ τ ∈ s.tasks[t]?, τ.phase.over = true

instance (s : Edge β) (t : Nat) : Decidable (Over s t) :=
  decidable_of_iff (s.tasks[t]?.all fun τ => τ.phase.over) (Option.all_eq_true _ _)

variable (S : Setup β) (s : EdgeProcess β)

/-- A step of the service; the gate sees how many revalidations there are then. -/
def take (a : Cdn.Action β) : Option (EdgeProcess β) :=
  (s.edge.step S a).map fun edge =>
    { s with edge, app := { s.app with revalidationTasks := edge.revalidationTasks.length } }

def serve (i : Nat) (requestHeaders : Option Headers) : Option (EdgeProcess β) :=
  match s.app.requests[i]? with
  | some ⟨path, .inFlight⟩ =>
      if ∀ p ∈ s.serving, p.1 ≠ i then
        (filePath? path).bind fun path => (s.take S (.arrive path requestHeaders)).map fun s' =>
          { s' with serving := (i, s.edge.tasks.length) :: s.serving }
      else none
  | _ => none

/-- A request is counted out when what it has called is over. -/
def finish (i : Nat) (raised : Bool) : Option (EdgeProcess β) :=
  if ∀ p ∈ s.serving, p.1 = i → Over s.edge p.2 then
    (s.app.step (.finish i raised)).map fun app => { s with app }
  else none

/-- A step of the shutdown handler that may reach `CacheService.shutdown`. -/
def handle (a : EdgeApp.Action) : Option (EdgeProcess β) :=
  (s.app.step a).map fun app =>
    { s with
      app
      cancelling := if app.stage = .draining then s.cancelling else s.edge.revalidationTasks }

/-- `gather` returns, and the set is cleared. -/
def gather : Option (EdgeProcess β) :=
  if ∀ t ∈ s.cancelling, Over s.edge t then
    (s.app.step .gathered).map fun app =>
      { s with app, edge := { s.edge with revalidationTasks := [] }, cancelling := [] }
  else none

def step : Action β → Option (EdgeProcess β)
  | .request path => (s.app.step (.request path)).map fun app => { s with app }
  | .serve i requestHeaders => s.serve S i requestHeaders
  | .finish i raised => s.finish i raised
  | .edge (.arrive _ _) => none
  | .edge (.resume t) => if t ∈ s.cancelling then none else s.take S (.resume t)
  | .edge a => s.take S a
  | .cancelled t => if t ∈ s.cancelling then s.take S (.cancel t) else none
  | .shutdown => s.handle .shutdown
  | .drained => s.handle .drained
  | .timeout => s.handle .timeout
  | .gathered => s.gather
  | .closed => (s.app.step .closed).map fun app => { s with app }

def start (store : LruCacheStore β) (breaker : CircuitBreaker) (wall mono : Time) :
    EdgeProcess β where
  edge := .start store breaker wall mono

/-! ### What a step does -/

/-- The gate after the service has taken a step. -/
def gateAfter (edge : Edge β) : EdgeApp :=
  { s.app with revalidationTasks := edge.revalidationTasks.length }

/-- The ways a step can go. -/
inductive Moved : Action β → EdgeProcess β → Prop where
  | requested {path : String} {app : EdgeApp} (happ : s.app.step (.request path) = some app) :
      Moved (.request path) { s with app }
  | served {i : Nat} {rh : Option Headers} {path file : String} {edge : Edge β}
      (hi : s.app.requests[i]? = some ⟨path, .inFlight⟩) (hfile : filePath? path = some file)
      (hstep : s.edge.step S (.arrive file rh) = some edge) :
      Moved (.serve i rh)
        { s with
          edge, app := s.gateAfter edge
          serving := (i, s.edge.tasks.length) :: s.serving }
  | finished {i : Nat} {raised : Bool} {app : EdgeApp}
      (hover : ∀ p ∈ s.serving, p.1 = i → Over s.edge p.2)
      (happ : s.app.step (.finish i raised) = some app) : Moved (.finish i raised) { s with app }
  /-- A step of the service that no request has asked for. -/
  | took {a : Action β} {b : Cdn.Action β} {edge : Edge β} (hb : ∀ path rh, b ≠ .arrive path rh)
      (hstep : s.edge.step S b = some edge) : Moved a { s with edge, app := s.gateAfter edge }
  | handled {a : Action β} {b : EdgeApp.Action} {app : EdgeApp}
      (hb : b = .shutdown ∨ b = .drained ∨ b = .timeout) (happ : s.app.step b = some app) :
      Moved a
        { s with
          app
          cancelling := if app.stage = .draining then s.cancelling else s.edge.revalidationTasks }
  | gathered {app : EdgeApp} (hover : ∀ t ∈ s.cancelling, Over s.edge t)
      (happ : s.app.step .gathered = some app) :
      Moved .gathered
        { s with app, edge := { s.edge with revalidationTasks := [] }, cancelling := [] }
  | closed {app : EdgeApp} (happ : s.app.step .closed = some app) : Moved .closed { s with app }

variable {S} {s} {s' : EdgeProcess β}

theorem take_eq_some {a : Cdn.Action β} (h : s.take S a = some s') :
    ∃ edge, s.edge.step S a = some edge ∧ s' = { s with edge, app := s.gateAfter edge } := by
  obtain ⟨edge, hstep, rfl⟩ := Option.map_eq_some_iff.mp h
  exact ⟨edge, hstep, rfl⟩

theorem moved_of_serve {i : Nat} {rh : Option Headers} (h : s.serve S i rh = some s') :
    Moved S s (.serve i rh) s' := by
  unfold serve at h
  split at h
  · rename_i path hi
    split at h
    · obtain ⟨file, hfile, hrest⟩ := Option.bind_eq_some_iff.mp h
      obtain ⟨mid, hmid, rfl⟩ := Option.map_eq_some_iff.mp hrest
      obtain ⟨edge, hstep, rfl⟩ := take_eq_some hmid
      exact .served hi hfile hstep
    · cases h
  · cases h

theorem moved_of_handle {a : Action β} {b : EdgeApp.Action} (h : s.handle b = some s')
    (hb : b = .shutdown ∨ b = .drained ∨ b = .timeout) : Moved S s a s' := by
  obtain ⟨app, happ, rfl⟩ := Option.map_eq_some_iff.mp h
  exact .handled hb happ

theorem moved_of_take {a : Action β} {b : Cdn.Action β} (hb : ∀ path rh, b ≠ .arrive path rh)
    (h : s.take S b = some s') : Moved S s a s' := by
  obtain ⟨edge, hstep, rfl⟩ := take_eq_some h
  exact .took hb hstep

theorem moved_of_step {a : Action β} (h : s.step S a = some s') : Moved S s a s' := by
  cases a with
  | request path =>
      replace h : (s.app.step (.request path)).map (fun app => { s with app }) = some s' := h
      obtain ⟨app, happ, rfl⟩ := Option.map_eq_some_iff.mp h
      exact .requested happ
  | serve i rh => exact moved_of_serve h
  | finish i raised =>
      replace h : s.finish i raised = some s' := h
      unfold finish at h
      split at h
      · rename_i hover
        obtain ⟨app, happ, rfl⟩ := Option.map_eq_some_iff.mp h
        exact .finished hover happ
      · cases h
  | edge b =>
      cases b with
      | arrive path rh => cases h
      | resume t =>
          replace h : (if t ∈ s.cancelling then none else s.take S (.resume t)) = some s' := h
          split at h
          · cases h
          · exact moved_of_take (by simp) h
      | _ => exact moved_of_take (by simp) h
  | cancelled t =>
      replace h : (if t ∈ s.cancelling then s.take S (.cancel t) else none) = some s' := h
      split at h
      · exact moved_of_take (by simp) h
      · cases h
  | shutdown => exact moved_of_handle h (by simp)
  | drained => exact moved_of_handle h (by simp)
  | timeout => exact moved_of_handle h (by simp)
  | gathered =>
      replace h : s.gather = some s' := h
      unfold gather at h
      split at h
      · rename_i hover
        obtain ⟨app, happ, rfl⟩ := Option.map_eq_some_iff.mp h
        exact .gathered hover happ
      · cases h
  | closed =>
      obtain ⟨app, happ, rfl⟩ := Option.map_eq_some_iff.mp h
      exact .closed happ

end EdgeProcess

end Cdn

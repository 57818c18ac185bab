/-
Two edges in a row.

An edge that has the address of a shield fetches from another edge and not from the origin.  The
request of a fetch becomes a call at the shield, beside those of the shield's own clients, and
what the shield's file route makes of the reply is what the fetch is answered with.  The two run
side by side: between a request and its answer anything may happen at either of them, and in the
files of the origin.

Paths reach the next server unchanged, and both servers read one clock for the time of day.
-/
import Cdn.Deployment
import Cdn.Presentation.ServeFile

namespace Cdn

namespace Shielded

structure Setup where
  /-- The shield, and the origin behind it. -/
  shield : Deployment.Setup
  /-- The routes of the shield. -/
  routes : EdgeRoutes.Setup
  /-- The edge in front of it. -/
  front : Cdn.Setup Bytes
  /-- The headers of a request, as the HTTP client of the front edge sends them. -/
  sent : Headers → Headers
  /-- It adds neither a range nor a token. -/
  sent_plain : ∀ cached : Option (CacheEntry Bytes),
    (sent (fetchHeaders cached)).get? "range" = none ∧
      (sent (fetchHeaders cached)).get? "x-cdn-token" = none

inductive Action where
  /-- An action of the front edge, other than an answer. -/
  | front (a : Cdn.Action Bytes)
  /-- An action of the shield or of the origin. -/
  | shield (a : Deployment.Action)
  /-- The request of a task of the front edge arrives at the shield. -/
  | ask (task : Nat)
  /-- The reply of a call that was made for a task goes back to it, after attempts that were
  retried. -/
  | relay (task call : Nat) (retried : List OriginClient.Attempt) (responseTime : String)
  | fail (task : Nat)
  | tick (wall frontMono shieldMono : Time)

variable (C : Setup)

/-- The path of a call, as it reaches the shield. -/
def shieldPath (call : Call Bytes) : String := String.ofList (OriginClient.requestPath call.path)

/-- The headers of a fetch, as they reach the shield. -/
def shieldHeaders (call : Call Bytes) : Headers := C.sent (fetchHeaders call.cached)

/-- What the file route of the shield reads of the request. -/
def request (call : Call Bytes) : EdgeRoutes.Request where
  path := shieldPath call
  rangeHeader := (shieldHeaders C call).get? "range"
  acceptEncoding := (shieldHeaders C call).get? "accept-encoding"
  xCdnToken := (shieldHeaders C call).get? "x-cdn-token"

/-- What the shield responds, when its call has returned. -/
def respond (call : Call Bytes) (reply : Reply Bytes) (responseTime : String) : HttpResponse :=
  match EdgeRoutes.serveFile C.routes (request C call)
      (.ok (reply.response C.shield.service)) responseTime with
  | .ok response => response
  | .error _ => Deployment.serverError

/-- The last attempt of a fetch: the shield responds. -/
def attempt (call : Call Bytes) (reply : Reply Bytes) (responseTime : String) :
    OriginClient.Attempt :=
  match C.shield.codec.receive (C.shield.framework.send (respond C call reply responseTime)) with
  | some r => .response r
  | none => .raised

end Shielded

structure Shielded where
  front : Edge Bytes
  shield : Deployment
  /-- The tasks of the front edge and the calls of the shield that were made for them. -/
  asked : List (Nat × Nat) := []

namespace Shielded

variable (C : Setup)

/-- A step of the front edge. -/
def take (s : Shielded) (a : Cdn.Action Bytes) : Option Shielded :=
  (s.front.step C.front a).map fun front => { s with front }

/-- A step of the shield. -/
def takeShield (s : Shielded) (a : Deployment.Action) : Option Shielded :=
  (s.shield.step C.shield a).map fun shield => { s with shield }

/-- The action by which the request of a call arrives. -/
def arrival (call : Call Bytes) : Deployment.Action :=
  .edge (.arrive (shieldPath call) (some (shieldHeaders C call)))

def ask (s : Shielded) (t : Nat) : Option Shielded :=
  match s.front.tasks[t]? with
  | some ⟨call, .fetching _ none⟩ =>
      (s.takeShield C (arrival C call)).map fun s' =>
        { s' with asked := (t, s.shield.edge.tasks.length) :: s.asked }
  | _ => none

def relay (s : Shielded) (t u : Nat) (retried : List OriginClient.Attempt)
    (responseTime : String) : Option Shielded :=
  if (t, u) ∈ s.asked ∧ (∀ a ∈ retried, a.Retried) ∧ retried.length < OriginClient.maxRetries then
    match s.front.tasks[t]?, s.shield.edge.tasks[u]? with
    | some ⟨call, _⟩, some ⟨_, .returned reply⟩ =>
        s.take C (.answer t
          (OriginClient.fetch (retried ++ [attempt C call reply responseTime])))
    | _, _ => none
  else none

def step (s : Shielded) : Action → Option Shielded
  | .front (.answer _ _) | .front (.tick _ _) => none
  | .front a => s.take C a
  | .shield (.edge (.tick _ _)) => none
  | .shield a => s.takeShield C a
  | .ask t => s.ask C t
  | .relay t u retried responseTime => s.relay C t u retried responseTime
  | .fail t => s.take C (.answer t .failed)
  | .tick wall frontMono shieldMono =>
      (s.take C (.tick wall frontMono)).bind fun s' =>
        s'.takeShield C (.edge (.tick wall shieldMono))

/-- Two edges that have just started, whatever the origin's files are. -/
def start (maxSizeBytes shieldSizeBytes : Int) (breaker shieldBreaker : CircuitBreaker)
    (wall mono shieldMono : Time) (files : Deployment.Files) : Shielded where
  front := .start { maxSizeBytes } breaker wall mono
  shield := .start shieldSizeBytes shieldBreaker wall shieldMono files

/-! ### What a step does -/

/-- The ways a step can go. -/
inductive Moved (s : Shielded) : Action → Shielded → Prop where
  | front {a : Cdn.Action Bytes} {front : Edge Bytes} (ha : ∀ t outcome, a ≠ .answer t outcome)
      (htick : ∀ wall mono, a ≠ .tick wall mono) (hstep : s.front.step C.front a = some front) :
      Moved s (.front a) { s with front }
  | shield {a : Deployment.Action} {shield : Deployment}
      (htick : ∀ wall mono, a ≠ .edge (.tick wall mono))
      (hstep : s.shield.step C.shield a = some shield) : Moved s (.shield a) { s with shield }
  | asked {t : Nat} {call : Call Bytes} {role : Role} {shield : Deployment}
      (ht : s.front.tasks[t]? = some ⟨call, .fetching role none⟩)
      (hstep : s.shield.step C.shield (arrival C call) = some shield) :
      Moved s (.ask t)
        { s with shield, asked := (t, s.shield.edge.tasks.length) :: s.asked }
  | relayed {t u : Nat} {retried : List OriginClient.Attempt} {responseTime : String}
      {call call' : Call Bytes} {phase : Phase Bytes} {reply : Reply Bytes} {front : Edge Bytes}
      (hasked : (t, u) ∈ s.asked) (hretried : ∀ a ∈ retried, a.Retried)
      (ht : s.front.tasks[t]? = some ⟨call, phase⟩)
      (hu : s.shield.edge.tasks[u]? = some ⟨call', .returned reply⟩)
      (hstep : s.front.step C.front (.answer t
        (OriginClient.fetch (retried ++ [attempt C call reply responseTime]))) = some front) :
      Moved s (.relay t u retried responseTime) { s with front }
  | failed {t : Nat} {front : Edge Bytes}
      (hstep : s.front.step C.front (.answer t .failed) = some front) :
      Moved s (.fail t) { s with front }
  | ticked {wall frontMono shieldMono : Time} {front : Edge Bytes} {shield : Deployment}
      (hfront : s.front.step C.front (.tick wall frontMono) = some front)
      (hshield : s.shield.step C.shield (.edge (.tick wall shieldMono)) = some shield) :
      Moved s (.tick wall frontMono shieldMono) { s with front, shield }

variable {C} {s s' : Shielded}

theorem take_eq_some {a : Cdn.Action Bytes} (h : s.take C a = some s') :
    ∃ front, s.front.step C.front a = some front ∧ s' = { s with front } := by
  obtain ⟨front, hstep, rfl⟩ := Option.map_eq_some_iff.mp h
  exact ⟨front, hstep, rfl⟩

theorem takeShield_eq_some {a : Deployment.Action} (h : s.takeShield C a = some s') :
    ∃ shield, s.shield.step C.shield a = some shield ∧ s' = { s with shield } := by
  obtain ⟨shield, hstep, rfl⟩ := Option.map_eq_some_iff.mp h
  exact ⟨shield, hstep, rfl⟩

theorem moved_of_ask {t : Nat} (h : s.ask C t = some s') : Moved C s (.ask t) s' := by
  unfold ask at h
  split at h
  · rename_i call role ht
    obtain ⟨mid, hmid, rfl⟩ := Option.map_eq_some_iff.mp h
    obtain ⟨shield, hstep, rfl⟩ := takeShield_eq_some hmid
    exact Moved.asked ht hstep
  · cases h

theorem moved_of_relay {t u : Nat} {retried : List OriginClient.Attempt} {responseTime : String}
    (h : s.relay C t u retried responseTime = some s') :
    Moved C s (.relay t u retried responseTime) s' := by
  unfold relay at h
  split at h
  · rename_i hguard
    split at h
    · rename_i call phase call' reply ht hu
      obtain ⟨front, hstep, rfl⟩ := take_eq_some h
      exact Moved.relayed hguard.1 hguard.2.1 ht hu hstep
    · cases h
  · cases h

theorem moved_of_step {a : Action} (h : s.step C a = some s') : Moved C s a s' := by
  cases a with
  | front b =>
      cases b with
      | answer t outcome => cases h
      | tick wall mono => cases h
      | _ =>
          obtain ⟨front, hstep, rfl⟩ := take_eq_some h
          exact Moved.front (by simp) (by simp) hstep
  | shield b =>
      cases b with
      | edge c =>
          cases c with
          | tick wall mono => cases h
          | _ =>
              obtain ⟨shield, hstep, rfl⟩ := takeShield_eq_some h
              exact Moved.shield (by simp) hstep
      | _ =>
          obtain ⟨shield, hstep, rfl⟩ := takeShield_eq_some h
          exact Moved.shield (by simp) hstep
  | ask t => exact moved_of_ask h
  | relay t u retried responseTime => exact moved_of_relay h
  | fail t =>
      obtain ⟨front, hstep, rfl⟩ := take_eq_some h
      exact Moved.failed hstep
  | tick wall frontMono shieldMono =>
      obtain ⟨mid, hmid, hlast⟩ := Option.bind_eq_some_iff.mp h
      obtain ⟨front, hfront, rfl⟩ := take_eq_some hmid
      obtain ⟨shield, hshield, rfl⟩ := takeShield_eq_some hlast
      exact Moved.ticked hfront hshield

end Shielded

end Cdn

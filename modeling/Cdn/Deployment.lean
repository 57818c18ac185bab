/-
An edge and the origin it fetches from.

The origin has files, and they are written and deleted at any time.  A fetch of the edge is
answered from the files as they are when the origin serves it, after some attempts that
came to nothing, or it fails.  Everything else is up to the edge, in any order.

Paths reach the origin unchanged: what the HTTP client and the framework make of `?`, `#`, `%`
and dot segments is left out.
-/
import Cdn.Edge
import Cdn.Infrastructure.OriginClient
import Cdn.Presentation.OriginRoutes

namespace Cdn

open Paths

namespace Deployment

structure Setup where
  service : Cdn.Setup Bytes
  /-- The origin, whatever its files are. -/
  origin : OriginSetup
  basePath : Resolved
  framework : Framework
  codec : Http.Codec

/-- The files of the origin, by their place. -/
abbrev Files := Resolved → Option Bytes

inductive Action where
  /-- An action of the edge, other than an answer of the origin. -/
  | edge (a : Cdn.Action Bytes)
  /-- The origin serves the request of a task, after attempts that were retried. -/
  | serve (task : Nat) (retried : List OriginClient.Attempt)
  | fail (task : Nat)
  | write (file : Resolved) (content : Option Bytes)

variable (D : Setup)

/-- The response to a request that raised. -/
def serverError : HttpResponse where
  statusCode := 500
  content := utf8 "Internal Server Error"
  mediaType := some "text/plain; charset=utf-8"

/-- What the origin's route makes of the request of a call. -/
def respond (files : Files) (call : Call Bytes) : HttpResponse :=
  let served := serveFile { D.origin with files } D.basePath (OriginClient.requestPath call.path)
    ((fetchHeaders call.cached).get? "If-None-Match") none
  match served.response with
  | .ok response => response
  | .error _ => serverError

/-- The last attempt of a fetch: it is served. -/
def attempt (files : Files) (call : Call Bytes) : OriginClient.Attempt :=
  match D.codec.receive (D.framework.send (respond D files call)) with
  | some r => .response r
  | none => .raised

/-- The file that a path asks for: it is there, and the origin lets it be read. -/
def fileAt (files : Files) (path : String) : Option Bytes :=
  match resolvePath D.basePath (OriginClient.requestPath path) with
  | .ok filePath => if D.basePath.text <+: filePath.text then files filePath else none
  | .error _ => none

end Deployment

structure Deployment where
  edge : Edge Bytes
  files : Deployment.Files

namespace Deployment

variable (D : Setup)

/-- A step of the edge. -/
def take (s : Deployment) (a : Cdn.Action Bytes) : Option Deployment :=
  (s.edge.step D.service a).map fun edge => { s with edge }

/-- The origin's answer to the request of a task. -/
def serve (s : Deployment) (t : Nat) (retried : List OriginClient.Attempt) : Option Deployment :=
  if (∀ a ∈ retried, a.Retried) ∧ retried.length < OriginClient.maxRetries then
    match s.edge.tasks[t]? with
    | some ⟨call, _⟩ =>
        s.take D (.answer t (OriginClient.fetch (retried ++ [attempt D s.files call])))
    | none => none
  else none

def step (s : Deployment) : Action → Option Deployment
  | .edge (.answer _ _) => none
  | .edge a => s.take D a
  | .serve t retried => s.serve D t retried
  | .fail t => s.take D (.answer t .failed)
  | .write file content => some { s with files := Function.update s.files file content }

/-- An edge that has just started, whatever the origin's files are. -/
def start (maxSizeBytes : Int) (breaker : CircuitBreaker) (wall mono : Time) (files : Files) :
    Deployment where
  edge := .start { maxSizeBytes } breaker wall mono
  files := files

/-! ### What a step does to the edge -/

/-- What the edge sees of a step. -/
inductive Seen (s : Deployment) : Action → Cdn.Action Bytes → Prop where
  | edge {a : Cdn.Action Bytes} (ha : ∀ t outcome, a ≠ .answer t outcome) : Seen s (.edge a) a
  | serve {t : Nat} {retried : List OriginClient.Attempt} {call : Call Bytes}
      {phase : Phase Bytes} (hretried : ∀ a ∈ retried, a.Retried)
      (hleft : retried.length < OriginClient.maxRetries)
      (ht : s.edge.tasks[t]? = some ⟨call, phase⟩) :
      Seen s (.serve t retried)
        (.answer t (OriginClient.fetch (retried ++ [attempt D s.files call])))
  | fail {t : Nat} : Seen s (.fail t) (.answer t .failed)

variable {D} {s s' : Deployment} {a : Action}

theorem take_eq_some {b : Cdn.Action Bytes} (h : s.take D b = some s') :
    s.edge.step D.service b = some s'.edge ∧ s'.files = s.files := by
  obtain ⟨edge, hstep, rfl⟩ := Option.map_eq_some_iff.mp h
  exact ⟨hstep, rfl⟩

theorem serve_eq_some {t : Nat} {retried : List OriginClient.Attempt}
    (h : s.serve D t retried = some s') :
    ∃ call phase, s.edge.tasks[t]? = some ⟨call, phase⟩ ∧ (∀ a ∈ retried, a.Retried) ∧
      retried.length < OriginClient.maxRetries ∧
      s.take D (.answer t (OriginClient.fetch (retried ++ [attempt D s.files call]))) =
        some s' := by
  unfold serve at h
  split at h
  · rename_i hretried
    split at h
    · rename_i call phase ht
      exact ⟨call, phase, ht, hretried.1, hretried.2, h⟩
    · cases h
  · cases h

/-- **A step is one of the edge's, or it writes a file.** -/
theorem step_cases (h : s.step D a = some s') :
    (∃ b, Seen D s a b ∧ s.edge.step D.service b = some s'.edge ∧ s'.files = s.files) ∨
      (s'.edge = s.edge ∧ ∃ file content, a = .write file content) := by
  cases a with
  | edge b =>
      cases b with
      | answer t outcome => cases h
      | _ => exact Or.inl ⟨_, .edge (by simp), take_eq_some h⟩
  | serve t retried =>
      obtain ⟨call, phase, ht, hretried, hleft, htake⟩ := serve_eq_some h
      exact Or.inl ⟨_, .serve hretried hleft ht, take_eq_some htake⟩
  | fail t => exact Or.inl ⟨_, .fail, take_eq_some h⟩
  | write file content =>
      cases h
      exact Or.inr ⟨rfl, file, content, rfl⟩

end Deployment

end Cdn

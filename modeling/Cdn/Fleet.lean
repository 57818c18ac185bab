/-
The edges of a deployment, their origin, and the management API that purges them.

Every edge has clients, a clock and a store of its own, and all of them fetch from one origin.  A
purge asks one edge after the other: a request is sent, the edge handles it, and the answer comes
back, or the request raises.  In between anything may happen at any edge and in the files, other
purges included; and a request that has raised may be handled after all, at any time.
-/
import Cdn.Application.PurgeService
import Cdn.Deployment

namespace Cdn

namespace Fleet

structure Setup where
  /-- The service of each edge, by the edge's base URL. -/
  service : String → Cdn.Setup Bytes
  origin : OriginSetup
  basePath : Paths.Resolved
  framework : Framework
  codec : Http.Codec
  /-- `ManagementConfig.edge_urls`. -/
  edgeUrls : List String

/-- An edge and the origin. -/
def Setup.deployment (C : Setup) (edgeUrl : String) : Deployment.Setup where
  service := C.service edgeUrl
  origin := C.origin
  basePath := C.basePath
  framework := C.framework
  codec := C.codec

/-- A request that the purge service has sent, and the status it was answered with when it has
been handled. -/
structure Delete where
  request : PurgeRequest
  status : Option Int := none
deriving DecidableEq

/-- A call of the purge service: `left` begins with the edge that is asked now, and `pending` is
the request that it was sent. -/
structure PurgeCall where
  param : String
  text : String
  left : List String
  pending : Nat
  results : Dict String Bool := ∅

inductive Action where
  /-- An action at an edge, other than a purge. -/
  | edge (edgeUrl : String) (a : Deployment.Action)
  | write (file : Paths.Resolved) (content : Option Bytes)
  /-- `purge_cache` of the management API is called. -/
  | purge (url keyPrefix : Option String)
  /-- An edge handles a request. -/
  | handle (delete : Nat)
  /-- The answer that a call waits for comes back. -/
  | answer (call : Nat)
  | raise (call : Nat)

end Fleet

structure Fleet where
  edges : Network Bytes
  files : Deployment.Files
  deletes : List Fleet.Delete := []
  purges : List Fleet.PurgeCall := []

namespace Fleet

variable (C : Setup) (s : Fleet)

/-- An edge with the files of the origin. -/
def part (edgeUrl : String) : Deployment := ⟨s.edges edgeUrl, s.files⟩

/-- The parameter that is handed on, and its text. -/
def parameter? (url keyPrefix : Option String) : Option (String × String) :=
  match given url, given keyPrefix with
  | some url, _ => some ("url", url)
  | none, some keyPrefix => some ("prefix", keyPrefix)
  | none, none => none

/-- The request to the next edge of a call is sent, if there is one. -/
def send (call : PurgeCall) : List Delete :=
  match call.left with
  | [] => s.deletes
  | edgeUrl :: _ => s.deletes ++ [⟨⟨edgeUrl, call.param, quote call.text⟩, none⟩]

/-- The management API's `purge_cache`, up to the first answer. -/
def beginPurge (url keyPrefix : Option String) : Option Fleet :=
  (parameter? url keyPrefix).map fun (param, text) =>
    let call : PurgeCall := ⟨param, text, C.edgeUrls, s.deletes.length, ∅⟩
    { s with deletes := s.send call, purges := s.purges ++ [call] }

/-- The success is noted, and the next edge is asked. -/
def note (i : Nat) (call : PurgeCall) (edgeUrl : String) (rest : List String) (success : Bool) :
    Fleet :=
  let call' : PurgeCall :=
    { call with
      left := rest
      pending := s.deletes.length
      results := call.results.set edgeUrl success }
  { s with deletes := s.send call', purges := s.purges.set i call' }

/-- The route of an edge, run for a request. -/
def Delete.action (x : Delete) : Deployment.Action :=
  .edge (.purge (x.request.query "url") (x.request.query "prefix"))

def handle (d : Nat) : Option Fleet :=
  match s.deletes[d]? with
  | some ⟨r, none⟩ =>
      let part := s.part r.edgeUrl
      let reply := (purgeCache part.edge.cacheStore (r.query "url") (r.query "prefix")).1
      (part.step (C.deployment r.edgeUrl) (Delete.action ⟨r, none⟩)).map fun part =>
        { s with
          edges := Function.update s.edges r.edgeUrl part.edge
          deletes := s.deletes.set d ⟨r, some (purgeStatus reply)⟩ }
  | _ => none

def answer (i : Nat) : Option Fleet :=
  match s.purges[i]? with
  | some call =>
      match call.left, s.deletes[call.pending]? with
      | edgeUrl :: rest, some ⟨_, some status⟩ =>
          some (s.note i call edgeUrl rest (status = 200 || status = 204))
      | _, _ => none
  | none => none

def raise (i : Nat) : Option Fleet :=
  match s.purges[i]? with
  | some call =>
      match call.left with
      | edgeUrl :: rest => some (s.note i call edgeUrl rest false)
      | [] => none
  | none => none

def step : Action → Option Fleet
  | .edge _ (.edge (.purge _ _)) | .edge _ (.write _ _) => none
  | .edge edgeUrl a => ((s.part edgeUrl).step (C.deployment edgeUrl) a).map fun part =>
      { s with edges := Function.update s.edges edgeUrl part.edge }
  | .write file content => some { s with files := Function.update s.files file content }
  | .purge url keyPrefix => s.beginPurge C url keyPrefix
  | .handle d => s.handle C d
  | .answer i => s.answer i
  | .raise i => s.raise i

/-- Edges that have just started, whatever the origin's files are. -/
def start (maxSizeBytes : String → Int) (breaker : String → CircuitBreaker)
    (wall mono : String → Time) (files : Deployment.Files) : Fleet where
  edges := fun edgeUrl =>
    .start { maxSizeBytes := maxSizeBytes edgeUrl } (breaker edgeUrl) (wall edgeUrl) (mono edgeUrl)
  files := files

/-! ### What a step does -/

/-- The ways a step can go. -/
inductive Moved (s : Fleet) : Action → Fleet → Prop where
  | edge {edgeUrl : String} {a : Deployment.Action} {part : Deployment}
      (hstep : (s.part edgeUrl).step (C.deployment edgeUrl) a = some part) :
      Moved s (.edge edgeUrl a) { s with edges := Function.update s.edges edgeUrl part.edge }
  | wrote {file : Paths.Resolved} {content : Option Bytes} :
      Moved s (.write file content) { s with files := Function.update s.files file content }
  | began {url keyPrefix : Option String} {param text : String}
      (hparam : parameter? url keyPrefix = some (param, text)) :
      Moved s (.purge url keyPrefix)
        { s with
          deletes := s.send ⟨param, text, C.edgeUrls, s.deletes.length, ∅⟩
          purges := s.purges ++ [⟨param, text, C.edgeUrls, s.deletes.length, ∅⟩] }
  | handled {d : Nat} {r : PurgeRequest} {status : Int} {part : Deployment}
      (hd : s.deletes[d]? = some ⟨r, none⟩)
      (hstep : (s.part r.edgeUrl).step (C.deployment r.edgeUrl) (Delete.action ⟨r, none⟩) =
        some part) :
      Moved s (.handle d)
        { s with
          edges := Function.update s.edges r.edgeUrl part.edge
          deletes := s.deletes.set d ⟨r, some status⟩ }
  | answered {i : Nat} {call : PurgeCall} {edgeUrl : String} {rest : List String}
      {r : PurgeRequest} {status : Int} {success : Bool} (hi : s.purges[i]? = some call)
      (hleft : call.left = edgeUrl :: rest)
      (hpending : s.deletes[call.pending]? = some ⟨r, some status⟩) :
      Moved s (.answer i) (s.note i call edgeUrl rest success)
  | raised {i : Nat} {call : PurgeCall} {edgeUrl : String} {rest : List String}
      (hi : s.purges[i]? = some call) (hleft : call.left = edgeUrl :: rest) :
      Moved s (.raise i) (s.note i call edgeUrl rest false)

variable {C s} {s' : Fleet}

theorem moved_of_handle {d : Nat} (h : s.handle C d = some s') : Moved C s (.handle d) s' := by
  unfold handle at h
  split at h
  · rename_i r hd
    obtain ⟨part, hstep, rfl⟩ := Option.map_eq_some_iff.mp h
    exact Moved.handled hd hstep
  · cases h

theorem moved_of_answer {i : Nat} (h : s.answer i = some s') : Moved C s (.answer i) s' := by
  unfold answer at h
  split at h
  · rename_i call hi
    split at h
    · rename_i edgeUrl rest r status hleft hpending
      cases h
      exact Moved.answered hi hleft hpending
    · cases h
  · cases h

theorem moved_of_raise {i : Nat} (h : s.raise i = some s') : Moved C s (.raise i) s' := by
  unfold raise at h
  split at h
  · rename_i call hi
    split at h
    · rename_i edgeUrl rest hleft
      cases h
      exact Moved.raised hi hleft
    · cases h
  · cases h

theorem moved_of_step {a : Action} (h : s.step C a = some s') : Moved C s a s' := by
  have hedge : ∀ {edgeUrl : String} {a : Deployment.Action},
      (((s.part edgeUrl).step (C.deployment edgeUrl) a).map fun part =>
        { s with edges := Function.update s.edges edgeUrl part.edge }) = some s' →
      Moved C s (.edge edgeUrl a) s' := by
    intro edgeUrl a h
    obtain ⟨part, hstep, rfl⟩ := Option.map_eq_some_iff.mp h
    exact Moved.edge hstep
  cases a with
  | edge edgeUrl a =>
      cases a with
      | edge b =>
          cases b with
          | purge => cases h
          | _ => exact hedge h
      | write => cases h
      | _ => exact hedge h
  | write => cases h; exact Moved.wrote
  | purge url keyPrefix =>
      obtain ⟨⟨param, text⟩, hparam, rfl⟩ := Option.map_eq_some_iff.mp h
      exact Moved.began hparam
  | handle => exact moved_of_handle h
  | answer => exact moved_of_answer h
  | raise => exact moved_of_raise h

end Fleet

end Cdn

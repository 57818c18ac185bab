/-
What an edge serves of what its upstream sends.

The client hands the cache service a decoded body next to the headers of the coded one, and
from then on the two stay together: in the entry, in what a call returns, on the miss and on
every hit.  So a response of the service, whenever it is returned, holds a message of the
upstream, and what the file route makes of it is a matter of that message alone.
-/
import Cdn.Infrastructure.OriginClient
import Cdn.Presentation.ServeFile
import Cdn.Proofs.Provenance

namespace Cdn

/-- The response is a message as the client hands it on: the body decoded, the headers as
received. -/
structure Response.Holds (C : Http.Codec) (m : Http.Message) (response : Response Bytes) : Prop where
  content : C.decode m.encoding m.body = some response.content
  statusCode : response.statusCode = m.statusCode
  headers : response.headers = m.headers

variable {C : Http.Codec} {U : Http.Message → Prop}

/-- What the client of the upstream makes of one of its messages. -/
def Fetched (C : Http.Codec) (U : Http.Message → Prop) (r : OriginResponse Bytes) : Prop :=
  ∃ m received, U m ∧ C.receive m = some received ∧ r = OriginClient.originResponse received

theorem holds_of_fetched {response : Response Bytes} {r : OriginResponse Bytes}
    (hr : Fetched C U r) (h : response.From r) : ∃ m, U m ∧ response.Holds C m := by
  obtain ⟨m, received, hm, hreceived, rfl⟩ := hr
  obtain ⟨hdecode, hstatus, hheaders⟩ := Http.Codec.receive_eq_some.mp hreceived
  obtain ⟨hcontent, hstatus', hheaders'⟩ := h
  exact ⟨m, hm, by rw [hdecode, hcontent]; rfl, hstatus'.trans hstatus, hheaders'.trans hheaders⟩

theorem Response.Holds.lowerName_keys {m : Http.Message} {response : Response Bytes}
    (h : response.Holds C m) : ∀ k ∈ response.headers.keys, Http.lowerName k = k := by
  rw [h.headers]
  exact m.lowerName_keys

theorem Response.Holds.get?_headers {m : Http.Message} {response : Response Bytes}
    (h : response.Holds C m) (name : String) : response.headers.get? name = m.header? name := by
  rw [h.headers, m.get?_headers]

namespace Edge

/-- A fetch that ends has made some attempts, and those that were answered were answered
with messages of the upstream. -/
def Fetches (C : Http.Codec) (U : Http.Message → Prop) (a : Action Bytes) : Prop :=
  ∀ t outcome, a = .answer t outcome → ∃ tried, outcome = OriginClient.fetch tried ∧
    ∀ r, .response r ∈ tried → ∃ m, U m ∧ C.receive m = some r

theorem supplies_of_fetches {s : Edge Bytes} {a : Action Bytes} (h : Fetches C U a) :
    Supplies (Fetched C U) s a := by
  intro t r ha τ _
  obtain ⟨tried, houtcome, htried⟩ := h t _ ha
  obtain ⟨received, hmem, -, hr⟩ := OriginClient.fetch_answered houtcome.symm
  obtain ⟨m, hm, hreceived⟩ := htried received hmem
  exact .inl ⟨m, received, hm, hreceived, hr⟩

variable {E : Setup Bytes} {maxSizeBytes : Int} {breaker : CircuitBreaker} {wall mono : Time}
  {p : List (Action Bytes)} {s : Edge Bytes} {t : Nat} {call : Call Bytes} {reply : Reply Bytes}

/-- **What a call returns holds a message of the upstream**, unless it is the service's own
word that there is none. -/
theorem returned_holds (hfetches : ∀ a ∈ p, Fetches C U a)
    (hrun : Lts.run (step E) (start { maxSizeBytes } breaker wall mono) p = some s)
    (ht : s.tasks[t]? = some ⟨call, .returned reply⟩) (hown : reply.own = false) :
    ∃ m, U m ∧ (reply.response E).Holds C m := by
  have hsupplies : Lts.EachStep (step E) (Supplies (Fetched C U))
      (start { maxSizeBytes } breaker wall mono) p :=
    Lts.EachStep.mono (fun _ _ h => supplies_of_fetches h) (Lts.eachStep_of_forall hfetches)
  have hsourced := (sourced_run hsupplies hrun).tasks _ (List.mem_of_getElem? ht)
  obtain ⟨r, hr, hfrom⟩ := hsourced.returned reply rfl hown
  exact holds_of_fetched hr hfrom

end Edge

namespace EdgeRoutes

variable {S : Setup} {request : Request} {r : Response Bytes} {responseTime : String}

theorem serveFile_whole (hauthorized : authorized S request = .ok true)
    (hrange : given request.rangeHeader = none) (r : Response Bytes) (responseTime : String) :
    serveFile S request (.ok r) responseTime = .ok (respond S request r responseTime) := by
  rw [serveFile, hauthorized]
  simp [fetchContent, hrange]
  rfl

/-- A response is the refusal, or it is made of what the cache service returns. -/
theorem serveFile_cases {fetched : Except Exn (Response Bytes)} {sent : HttpResponse}
    (h : serveFile S request fetched responseTime = .ok sent) :
    authorized S request = .ok false ∧
        sent = { statusCode := 403, content := utf8 "Forbidden: invalid token" } ∨
      authorized S request = .ok true ∧
        ∃ part, fetchContent request fetched = .ok part ∧
          sent = respond S request part responseTime := by
  unfold serveFile at h
  cases hauthorized : authorized S request with
  | error x => rw [hauthorized] at h; cases h
  | ok valid =>
      rw [hauthorized] at h
      cases valid with
      | false => cases h; exact .inl ⟨rfl, rfl⟩
      | true =>
          cases hpart : fetchContent request fetched with
          | error x => rw [hpart] at h; cases h
          | ok part => rw [hpart] at h; cases h; exact .inr ⟨rfl, part, rfl, rfl⟩

end EdgeRoutes

/-- The service's own word is a 503. -/
theorem Reply.own_eq_false {E : Setup Bytes} {reply : Reply Bytes}
    (h : (reply.response E).statusCode = 200) : reply.own = false := by
  cases reply with
  | openEmpty | rejectedEmpty => exact absurd h (by simp [response])
  | _ => rfl

/-! ### One file, fetched and returned -/

def plainService : Setup Bytes where
  defaultTtl := 60
  digest := sampleDigest
  size := fun content => content.length
  unavailable := utf8 "Service Unavailable: origin is down"

def plainRoutes : EdgeRoutes.Setup := ⟨"edge-eu", sampleCompressors, none⟩

/-- The file is asked for, the upstream answers, and the call goes on. -/
def missRun (r : Http.Received) : List (Action Bytes) :=
  [.arrive "a" none, .answer 0 (OriginClient.fetch [.response r]), .resume 0]

def missReached (r : Http.Received) : Edge Bytes :=
  Lts.last (Edge.step plainService) (Edge.start { maxSizeBytes := 100000 } {} 0 0) (missRun r)

theorem exists_call {s : Edge Bytes} {t : Nat} {phase : Phase Bytes}
    (h : (s.tasks[t]?).map (·.phase) = some phase) : ∃ call, s.tasks[t]? = some ⟨call, phase⟩ := by
  obtain ⟨⟨call, _⟩, ht, rfl⟩ := Option.map_eq_some_iff.mp h
  exact ⟨call, ht⟩

theorem fetches_missRun {m : Http.Message} {r : Http.Received} (hU : U m)
    (hreceive : C.receive m = some r) : ∀ a ∈ missRun r, Edge.Fetches C U a := by
  intro a ha t outcome hanswer
  subst hanswer
  simp only [missRun, List.mem_cons, reduceCtorEq, Action.answer.injEq, List.not_mem_nil, or_false,
    false_or] at ha
  refine ⟨_, ha.2, fun r' hr' => ?_⟩
  cases List.mem_singleton.mp hr'
  exact ⟨m, hU, hreceive⟩

end Cdn

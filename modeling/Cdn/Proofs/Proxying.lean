/-
What the router makes of an edge's response.

The HTTP client hands the router a decoded body, and the router sends it under the headers
of the coded one.  A response comes through whole if there was nothing to decode and its
length is stated once and right; a response that the edge has compressed does not.
-/
import Cdn.Presentation.ServeFile
import Cdn.Proofs.Failover

namespace Cdn

namespace Router

variable {F : Framework} {C : Http.Codec} {client : Client} {request : Request}
  {requestId region : String} {routing : RoutingService} {edge : EdgeNode} {i : Nat}

/-! ### Which response is passed on -/

/-- **The response is the one of the attempt that was answered.** -/
theorem proxyToEdge_answered
    (h : (proxyToEdge client request requestId region routing).answered = some (i, edge)) :
    ∃ response, client i (edgeUrl edge request) (filterRequestHeaders request.headers)
        request.queryParams = some response ∧
      (proxyToEdge client request requestId region routing).response =
        relay edge requestId response := by
  have htried := recordedProxy_tried client request requestId region routing
  unfold proxyToEdge at h ⊢
  generalize recordedProxy client request requestId region routing = outcome at h htried ⊢
  cases htried with
  | exhausted text hraised => cases h
  | answered hedges hraised hresponse =>
      cases h
      exact ⟨_, hresponse, rfl⟩

/-! ### What it says of its body -/

/-- A header that is neither dropped by the router nor written by it. -/
def Passed (name : String) : Prop :=
  name ∉ hopByHopHeaders ∧ name ≠ "x-cdn-edge" ∧ name ≠ "x-cdn-region" ∧ name ≠ "x-request-id"

theorem given_relay {m : Http.Message} {response : Http.Received} {name : String}
    (hheaders : response.headers = m.headers) (hname : Passed name) :
    (relay edge requestId response).given name = (m.header? name).toList := by
  have hlower : Http.lowerName "X-CDN-Edge" = "x-cdn-edge" ∧
      Http.lowerName "X-CDN-Region" = "x-cdn-region" ∧
      Http.lowerName "X-Request-Id" = "x-request-id" := by decide +kernel
  obtain ⟨hhop, hedge, hregion, hid⟩ := hname
  show Http.values ((((filterResponseHeaders response.headers).set "X-CDN-Edge" edge.id).set
    "X-CDN-Region" edge.region).set "X-Request-Id" requestId).items name = _
  rw [Http.values_set _ (by rw [hlower.2.2]; exact hid.symm),
    Http.values_set _ (by rw [hlower.2.1]; exact hregion.symm),
    Http.values_set _ (by rw [hlower.1]; exact hedge.symm), filterResponseHeaders,
    Http.values_filter, hheaders, Http.values_items m.lowerName_keys, m.get?_headers]
  intro k hk
  simp [hk, hhop]

theorem encoding_relay {m : Http.Message} {response : Http.Received}
    (hheaders : response.headers = m.headers) :
    (F.send (relay edge requestId response)).encoding = m.encoding := by
  have hpassed : Passed "content-encoding" := by unfold Passed; decide +kernel
  rw [Http.Message.encoding, F.header?_send _ (by decide) (by decide),
    given_relay hheaders hpassed, Http.joined_toList]

theorem length_relay {m : Http.Message} {response : Http.Received}
    (hheaders : response.headers = m.headers) :
    (F.send (relay edge requestId response)).length =
      match m.length with
      | some v => some v
      | none => if Bodiless response.statusCode then none
          else some (toString response.content.length) := by
  have hpassed : Passed "content-length" := by unfold Passed; decide +kernel
  rw [F.length_send, given_relay hheaders hpassed, Http.Message.length]
  cases m.header? "content-length" with
  | none => rfl
  | some v => exact Http.joined_singleton v

/-- What a message says of its length is right for `content`; a message that says nothing
is given the right length where its status has one. -/
def Measures (m : Http.Message) (content : Bytes) : Prop :=
  m.length = some (toString content.length) ∨ m.length = none ∧ ¬ Bodiless m.statusCode

theorem length_relay_iff {m : Http.Message} {response : Http.Received}
    (hheaders : response.headers = m.headers) (hstatus : response.statusCode = m.statusCode) :
    (F.send (relay edge requestId response)).length = some (toString response.content.length) ↔
      Measures m response.content := by
  rw [length_relay hheaders, Measures, hstatus]
  cases m.length with
  | none =>
      dsimp only
      split
      · rename_i hbodiless
        simp [hbodiless]
      · rename_i hbody
        simp [hbody]
  | some v => simp

/-- The message comes through: it is not coded and its length is right, or it is coded in
a way that does nothing to the decoded body, and says the length of that. -/
def Survives (C : Http.Codec) (m : Http.Message) : Prop :=
  m.encoding = none ∧ Measures m m.body ∨
    ∃ coding content, m.encoding = some coding ∧ C.decode (some coding) m.body = some content ∧
      C.decode (some coding) content = some content ∧ Measures m content

theorem survives_iff {m : Http.Message} {content : Bytes}
    (hcontent : C.decode m.encoding m.body = some content) :
    Survives C m ↔ Measures m content ∧ C.decode m.encoding content = some content := by
  unfold Survives
  cases hencoding : m.encoding with
  | none =>
      rw [hencoding, C.decode_none, Option.some.injEq] at hcontent
      simp [hcontent, C.decode_none]
  | some coding =>
      rw [hencoding] at hcontent
      simp only [reduceCtorEq, false_and, Option.some.injEq, false_or]
      constructor
      · rintro ⟨_, content', rfl, hdecode, hself, hmeasures⟩
        rw [hcontent, Option.some.injEq] at hdecode
        rw [hdecode]
        exact ⟨hmeasures, hself⟩
      · rintro ⟨hmeasures, hself⟩
        exact ⟨coding, content, rfl, hcontent, hself, hmeasures⟩

/-- The client of a network whose edges send these messages. -/
def clientOf (C : Http.Codec)
    (upstream : Nat → String → Headers → Dict String String → Option Http.Message) : Client :=
  fun i url headers params => (upstream i url headers params).bind C.receive

/--
**When the proxy is transparent.**  For every response of an edge: what the router sends
states its own length and means what the edge's response means exactly if the edge's
response survives the client's decoding.
-/
theorem transparent_iff (F : Framework) (C : Http.Codec)
    (upstream : Nat → String → Headers → Dict String String → Option Http.Message)
    (request : Request) (requestId region : String) (routing : RoutingService)
    {i : Nat} {edge : EdgeNode} {m : Http.Message}
    (hanswered : (proxyToEdge (clientOf C upstream) request requestId region
      routing).answered = some (i, edge))
    (hm : upstream i (edgeUrl edge request) (filterRequestHeaders request.headers)
      request.queryParams = some m) :
    Http.Transparent C m
        (F.send (proxyToEdge (clientOf C upstream) request requestId region routing).response) ↔
      Survives C m := by
  obtain ⟨response, hresponse, hrelay⟩ := proxyToEdge_answered hanswered
  rw [clientOf, hm, Option.bind_some, Http.Codec.receive_eq_some] at hresponse
  obtain ⟨hcontent, hstatus, hheaders⟩ := hresponse
  have hbody : (F.send (relay edge requestId response)).body = response.content :=
    F.send_body _
  rw [hrelay, Http.transparent_of_kept (by rw [hbody]; exact hcontent) (encoding_relay hheaders),
    hbody, length_relay_iff hheaders hstatus, survives_iff hcontent]

def sampleEdge : EdgeNode := ⟨"edge-eu", "localhost", 8001, "eu", true⟩

def sampleRouting : RoutingService := .init [sampleEdge]

def sampleRequest : Request := ⟨"/files/a.txt", Dict.ofList [("accept-encoding", "gzip")], ∅⟩

/-- A response of three bytes. -/
def sampleMessage : Http.Message := ⟨200, [("content-length", "3")], [1, 2, 3]⟩

theorem transparent_iff_plain :
    Http.Transparent sampleCodec sampleMessage (plainFramework.send
        (proxyToEdge (clientOf sampleCodec fun _ _ _ _ => some sampleMessage) sampleRequest "id"
          "eu" sampleRouting).response) ↔ Survives sampleCodec sampleMessage :=
  transparent_iff plainFramework sampleCodec (fun _ _ _ _ => some sampleMessage) sampleRequest "id"
    "eu" sampleRouting
    (show (proxyToEdge (clientOf sampleCodec fun _ _ _ _ => some sampleMessage) sampleRequest "id"
      "eu" sampleRouting).answered = some (0, sampleEdge) by decide +kernel) rfl

/-- An edge that answers a client that accepts gzip. -/
def sampleSetup : EdgeRoutes.Setup := ⟨"edge-eu", sampleCompressors, none⟩

def sampleFileRequest : EdgeRoutes.Request := { path := "a.txt", acceptEncoding := some "gzip" }

/-- The text as it came from an origin that states no length. -/
def sampleFetched : Response Bytes :=
  ⟨sampleText, 200, Dict.ofList [("content-type", "text/plain")], false⟩

/-- The edge's response to it. -/
def sampleSent : HttpResponse :=
  EdgeRoutes.respond sampleSetup sampleFileRequest sampleFetched "0.50ms"

/-- The edge sends 29 bytes of gzip; the router sends the 1024 bytes of the text, and says
that they are 29 bytes of gzip. -/
theorem notTransparent_compressed : ¬ ∀ (F : Framework) (C : Http.Codec) (S : EdgeRoutes.Setup)
    (fileRequest : EdgeRoutes.Request) (fetched : Except Exn (Response Bytes))
    (responseTime : String) (sent : HttpResponse) (request : Request) (requestId region : String)
    (routing : RoutingService) (i : Nat) (edge : EdgeNode),
    Inverts C S.compressors →
    EdgeRoutes.serveFile S fileRequest fetched responseTime = .ok sent →
    (proxyToEdge (clientOf C fun _ _ _ _ => some (F.send sent)) request requestId region
      routing).answered = some (i, edge) →
    Http.Transparent C (F.send sent) (F.send (proxyToEdge
      (clientOf C fun _ _ _ _ => some (F.send sent)) request requestId region
        routing).response) := by
  intro h
  have hsample := h plainFramework sampleCodec sampleSetup sampleFileRequest (.ok sampleFetched)
    "0.50ms" sampleSent sampleRequest "id" "eu" sampleRouting 0 sampleEdge inverts_sample rfl
    (by decide +kernel)
  revert hsample
  decide +kernel

/-! ### Which responses of an edge survive -/

/-- A map with both spellings of the length's name never gets through. -/
theorem not_survives_of_two {r : HttpResponse}
    (hlower : r.headers.contains "content-length" = true)
    (hupper : r.headers.contains "Content-Length" = true) : ¬ Survives C (F.send r) := by
  have htwo : 2 ≤ (r.given "content-length").length :=
    Http.two_le_values hlower hupper (by decide) (by decide +kernel) (by decide +kernel)
  have hne : r.given "content-length" ≠ [] := by
    intro hnil
    rw [hnil] at htwo
    exact absurd htwo (by decide)
  have hmeasures : ∀ content, ¬ Measures (F.send r) content := by
    rintro content (hlength | ⟨hlength, -⟩)
    · rw [F.length_send, if_neg hne] at hlength
      exact Http.joined_ne_toString htwo _ hlength
    · rw [F.length_send, if_neg hne, Http.joined_eq_none] at hlength
      exact hne hlength
  rintro (⟨-, h⟩ | ⟨-, content, -, -, -, h⟩)
  · exact hmeasures _ h
  · exact hmeasures content h

variable {S : EdgeRoutes.Setup} {fileRequest : EdgeRoutes.Request} {r : Response Bytes}
  {responseTime : String}

/-- **A response with a length that the edge compresses does not survive.**  The client
lists the length in lower case, and the edge writes it with capitals. -/
theorem not_survives_compressed (hlength : r.headers.contains "content-length" = true)
    (hcompresses : EdgeRoutes.Compresses S fileRequest r) :
    ¬ Survives C (F.send (EdgeRoutes.respond S fileRequest r responseTime)) :=
  not_survives_of_two (EdgeRoutes.contains_respond hlength)
    (EdgeRoutes.contains_length_respond hcompresses)

/-- **Neither does a part of it.** -/
theorem not_survives_part {rangeHeader : String} {part : Response Bytes}
    (hlength : r.headers.contains "content-length" = true)
    (hrange : given fileRequest.rangeHeader = some rangeHeader)
    (hpart : EdgeRoutes.fetchContent fileRequest (.ok r) = .ok part) :
    ¬ Survives C (F.send (EdgeRoutes.respond S fileRequest part responseTime)) := by
  obtain ⟨hlower, hupper⟩ := EdgeRoutes.contains_length_part hlength hrange hpart
  exact not_survives_of_two (EdgeRoutes.contains_respond hlower)
    (EdgeRoutes.contains_respond hupper)

/-- **A response that the edge passes on as it came survives.**  Its headers name no
coding, and they state its length or leave that to the framework. -/
theorem survives_respond (hkeys : ∀ k ∈ r.headers.keys, Http.lowerName k = k)
    (hencoding : r.headers.get? "content-encoding" = none)
    (hlength : r.headers.get? "content-length" = some (toString r.content.length) ∨
      r.headers.get? "content-length" = none ∧ ¬ Bodiless r.statusCode)
    (hcompresses : ¬ EdgeRoutes.Compresses S fileRequest r) :
    Survives C (F.send (EdgeRoutes.respond S fileRequest r responseTime)) := by
  have hcontent : (EdgeRoutes.respond S fileRequest r responseTime).content = r.content := by
    show (EdgeRoutes.compress S fileRequest r).1 = r.content
    rw [EdgeRoutes.compress_of_not hcompresses]
  refine Or.inl ⟨?_, Or.inl ?_⟩
  · rw [Http.Message.encoding, F.header?_send _ (by decide) (by decide),
      EdgeRoutes.given_respond hkeys hcompresses (by decide), hencoding]
    rfl
  · rw [F.length_send, F.send_body, hcontent,
      EdgeRoutes.given_respond hkeys hcompresses (by decide)]
    rcases hlength with hlength | ⟨hlength, hbody⟩
    · rw [hlength]
      exact Http.joined_singleton _
    · rw [hlength]
      exact if_neg hbody

end Router

end Cdn

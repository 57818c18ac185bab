/-
The length of a response.

The headers of a message are kept under names in lower case, and the service and the route
write the length of a part and of a compressed body under a name with capitals: two items of
the map, and two lines of the response.  Only a whole file that is not compressed has one
line, and that is the upstream's: it is right unless the client has decoded the body.
-/
import Cdn.Proofs.Served

namespace Cdn

variable {C : Http.Codec} {S : EdgeRoutes.Setup} {request : EdgeRoutes.Request}
  {r part : Response Bytes} {responseTime : String} {F : Framework}

namespace EdgeRoutes

/-- Two spellings of the name are two lines. -/
theorem not_measured_of_spellings {sent : HttpResponse}
    (hlower : sent.headers.contains "content-length" = true)
    (hupper : sent.headers.contains "Content-Length" = true) : ¬ (F.send sent).Measured :=
  F.not_measured_of_two sent
    (Http.two_le_values hlower hupper (by decide) (by decide +kernel) (by decide +kernel))

theorem not_measured_part {rangeHeader : String}
    (hlength : r.headers.contains "content-length" = true)
    (hrange : given request.rangeHeader = some rangeHeader)
    (hpart : fetchContent request (.ok r) = .ok part) :
    ¬ (F.send (respond S request part responseTime)).Measured := by
  obtain ⟨hlower, hupper⟩ := contains_length_part hlength hrange hpart
  exact not_measured_of_spellings (contains_respond hlower) (contains_respond hupper)

theorem not_measured_compressed (hlength : r.headers.contains "content-length" = true)
    (hcompresses : Compresses S request r) :
    ¬ (F.send (respond S request r responseTime)).Measured :=
  not_measured_of_spellings (contains_respond hlength) (contains_length_respond hcompresses)

/-- A response that is passed on as it came has the line that it came with. -/
theorem measured_respond_iff (hkeys : ∀ k ∈ r.headers.keys, Http.lowerName k = k) {length : String}
    (hlength : r.headers.get? "content-length" = some length) (h : ¬ Compresses S request r) :
    (F.send (respond S request r responseTime)).Measured ↔
      length = toString r.content.length := by
  have hgiven : (respond S request r responseTime).given "content-length" = [length] := by
    rw [given_respond hkeys h (by decide), hlength]
    rfl
  have hcontent : (respond S request r responseTime).content = r.content := by
    show (compress S request r).1 = r.content
    rw [compress_of_not h]
  rw [F.measured_iff_given _ hgiven, hcontent]

variable {m : Http.Message}

theorem get?_length (hholds : r.Holds C m) (hlength : m.length = some (toString m.body.length)) :
    r.headers.get? "content-length" = some (toString m.body.length) := by
  rw [hholds.get?_headers]
  exact hlength

/-- A whole file keeps the upstream's line, and that is right where the body is as long. -/
theorem measured_whole_iff (hholds : r.Holds C m)
    (hlength : m.length = some (toString m.body.length)) :
    (F.send (respond S request r responseTime)).Measured ↔
      ¬ Negotiates S request r ∧ r.content.length = m.body.length := by
  have hget := get?_length hholds hlength
  rw [← compresses_iff]
  by_cases hcompresses : Compresses S request r
  · have hcontains : r.headers.contains "content-length" = true := by rw [Dict.contains, hget]; rfl
    exact ⟨fun h => absurd h (not_measured_compressed hcontains hcompresses),
      fun h => absurd hcompresses h.1⟩
  · have hlengths : toString m.body.length = toString r.content.length ↔
        r.content.length = m.body.length := by
      rw [eq_comm (a := r.content.length)]
      exact Nat.repr_inj
    rw [measured_respond_iff hholds.lowerName_keys hget hcompresses, hlengths]
    exact ⟨fun h => ⟨hcompresses, h⟩, And.right⟩

/-- **When the length is stated once and right**, for the message that is served. -/
theorem measured_serveFile_iff {sent : HttpResponse} (hholds : r.Holds C m)
    (hlength : m.length = some (toString m.body.length))
    (hsent : serveFile S request (.ok r) responseTime = .ok sent) :
    (F.send sent).Measured ↔ authorized S request = .ok false ∨
      given request.rangeHeader = none ∧ ¬ Negotiates S request r ∧
        r.content.length = m.body.length := by
  rcases serveFile_cases hsent with ⟨hrefused, rfl⟩ | ⟨hauthorized, part, hpart, rfl⟩
  · have hmeasured : (F.send { statusCode := 403, content := utf8 "Forbidden: invalid token" }).Measured :=
      F.measured_of_absent _ rfl (by decide)
    exact ⟨fun _ => .inl hrefused, fun _ => hmeasured⟩
  · have hnot : authorized S request ≠ .ok false := by rw [hauthorized]; simp
    cases hrange : given request.rangeHeader with
    | some rangeHeader =>
        have hcontains : r.headers.contains "content-length" = true := by
          rw [Dict.contains, get?_length hholds hlength]
          rfl
        have hnotMeasured : ¬ (F.send (respond S request part responseTime)).Measured :=
          not_measured_part hcontains hrange hpart
        refine ⟨fun h => absurd h hnotMeasured, ?_⟩
        rintro (hrefused | ⟨hnone, -⟩)
        · exact absurd hrefused hnot
        · cases hnone
    | none =>
        unfold fetchContent at hpart
        rw [hrange] at hpart
        cases hpart
        rw [measured_whole_iff hholds hlength]
        exact ⟨fun h => .inr ⟨rfl, h⟩, fun h => (h.resolve_left hnot).2⟩

end EdgeRoutes

/--
**When a response has exactly one length, and the right one.**  In every run of an edge whose
upstream sends messages of `U`, each 200 of them with its length: what a call returns with
status 200, on the miss or on a hit, holds such a message, and what the file route sends of
it states its length once and right exactly if the request is refused, or asks for the whole
file, is not answered with a compressed body, and the client has not decoded the body to one
of another length.
-/
theorem oneLength_iff (E : Setup Bytes) (F : Framework) (U : Http.Message → Prop)
    (hlength : ∀ m, U m → m.statusCode = 200 → m.length = some (toString m.body.length))
    (maxSizeBytes : Int) (breaker : CircuitBreaker) (wall mono : Time)
    (p : List (Action Bytes)) (hfetches : ∀ a ∈ p, Edge.Fetches C U a) {s : Edge Bytes}
    (hrun : Lts.run (Edge.step E) (Edge.start { maxSizeBytes } breaker wall mono) p = some s)
    {t : Nat} {call : Call Bytes} {reply : Reply Bytes}
    (ht : s.tasks[t]? = some ⟨call, .returned reply⟩)
    (hok : (reply.response E).statusCode = 200) {sent : HttpResponse}
    (hsent : EdgeRoutes.serveFile S request (.ok (reply.response E)) responseTime = .ok sent) :
    (∃ m, U m ∧ (reply.response E).Holds C m) ∧
      ∀ m, U m → (reply.response E).Holds C m →
        ((F.send sent).Measured ↔ EdgeRoutes.authorized S request = .ok false ∨
          given request.rangeHeader = none ∧
            ¬ EdgeRoutes.Negotiates S request (reply.response E) ∧
            (reply.response E).content.length = m.body.length) := by
  refine ⟨Edge.returned_holds hfetches hrun ht (Reply.own_eq_false hok), fun m hm hholds => ?_⟩
  exact EdgeRoutes.measured_serveFile_iff hholds
    (hlength m hm (hholds.statusCode.symm.trans hok)) hsent

/-! ### A text from the origin -/

/-- The text as the origin sends it. -/
def textMessage : Http.Message :=
  ⟨200, [("content-type", "text/plain"), ("content-length", "1024")], sampleText⟩

/-- The text as the client of the origin hands it on. -/
def textReceived : Http.Received := ⟨200, textMessage.headers, sampleText⟩

def textReply : Reply Bytes := .fetched ⟨sampleText, 200, textMessage.headers, false⟩

/-- The text is not coded and states its length, and the edge fetches and returns it. -/
theorem textMessage_spec :
    (textMessage.encoding = none ∧
      sampleCodec.decode textMessage.encoding textMessage.body = some sampleText ∧
      textMessage.length = some (toString textMessage.body.length)) ∧
    (Lts.run (Edge.step plainService) (Edge.start { maxSizeBytes := 100000 } {} 0 0)
      (missRun textReceived)).isSome = true ∧
    ((missReached textReceived).tasks[0]?).map (·.phase) = some (.returned textReply) := by
  decide +kernel

theorem decode_textMessage :
    sampleCodec.decode textMessage.encoding textMessage.body = some sampleText :=
  textMessage_spec.1.2.1

theorem receive_textMessage : sampleCodec.receive textMessage = some textReceived :=
  Http.Codec.receive_eq_some.mpr ⟨decode_textMessage, rfl, rfl⟩

theorem length_textMessage :
    textMessage.length = some (toString textMessage.body.length) := textMessage_spec.1.2.2

theorem run_textReceived :
    Lts.run (Edge.step plainService) (Edge.start { maxSizeBytes := 100000 } {} 0 0)
      (missRun textReceived) = some (missReached textReceived) :=
  Lts.run_last textMessage_spec.2.1

theorem returned_textReply :
    ∃ call, (missReached textReceived).tasks[0]? = some ⟨call, .returned textReply⟩ :=
  exists_call textMessage_spec.2.2

theorem oneLength_iff_text :
    (plainFramework.send (EdgeRoutes.respond plainRoutes { path := "a" }
        (textReply.response plainService) "0.50ms")).Measured ↔
      EdgeRoutes.authorized plainRoutes { path := "a" } = .ok false ∨
        given (none : Option String) = none ∧
          ¬ EdgeRoutes.Negotiates plainRoutes { path := "a" } (textReply.response plainService) ∧
          (textReply.response plainService).content.length = textMessage.body.length := by
  obtain ⟨call, ht⟩ := returned_textReply
  have hsent : EdgeRoutes.serveFile plainRoutes { path := "a" }
      (.ok (textReply.response plainService)) "0.50ms" =
        .ok (EdgeRoutes.respond plainRoutes { path := "a" } (textReply.response plainService)
          "0.50ms") := EdgeRoutes.serveFile_whole rfl rfl _ _
  have hmeasured := oneLength_iff (C := sampleCodec) plainService plainFramework (· = textMessage)
    (fun m hm _ => hm ▸ length_textMessage) 100000 {} 0 0 (missRun textReceived)
    (fetches_missRun rfl receive_textMessage) run_textReceived ht rfl hsent
  exact hmeasured.2 textMessage rfl ⟨decode_textMessage, rfl, rfl⟩

/-- The text is compressed, and the response has both lengths. -/
theorem notOneLength_gzip : ¬ ∀ (E : Setup Bytes) (F : Framework) (C : Http.Codec)
    (S : EdgeRoutes.Setup) (U : Http.Message → Prop) (maxSizeBytes : Int)
    (p : List (Action Bytes)) (s : Edge Bytes) (t : Nat) (call : Call Bytes) (reply : Reply Bytes)
    (request : EdgeRoutes.Request) (responseTime : String) (sent : HttpResponse),
    Inverts C S.compressors → (∀ m, U m → m.statusCode = 200 →
      m.encoding = none ∧ m.length = some (toString m.body.length)) →
    (∀ a ∈ p, Edge.Fetches C U a) →
    Lts.run (Edge.step E) (Edge.start { maxSizeBytes } {} 0 0) p = some s →
    s.tasks[t]? = some ⟨call, .returned reply⟩ → (reply.response E).statusCode = 200 →
    EdgeRoutes.serveFile S request (.ok (reply.response E)) responseTime = .ok sent →
    (F.send sent).Measured := by
  intro h
  obtain ⟨call, ht⟩ := returned_textReply
  have hencoding : textMessage.encoding = none := textMessage_spec.1.1
  have hmeasured := h plainService plainFramework sampleCodec plainRoutes (· = textMessage) 100000
    (missRun textReceived) (missReached textReceived) 0 call textReply
    { path := "a", acceptEncoding := some "gzip" } "0.50ms" _ inverts_sample
    (fun m hm _ => hm ▸ ⟨hencoding, length_textMessage⟩) (fetches_missRun rfl receive_textMessage)
    run_textReceived ht rfl (EdgeRoutes.serveFile_whole rfl rfl _ _)
  revert hmeasured
  decide +kernel

end Cdn

/-
Coded bodies in the cache.

The cache keeps a decoded body and a header that says how it was coded, and the route sends
both, whether or not it codes the body once more.  Its own coding is named last and comes
off first; what is left is the decoded body, to be decoded again.  That does no harm exactly
where there was no coding, or one that leaves the decoded body as it is.
-/
import Cdn.Proofs.Served

namespace Cdn

variable {C : Http.Codec} {S : EdgeRoutes.Setup} {request : EdgeRoutes.Request}
  {r : Response Bytes} {responseTime : String}

namespace EdgeRoutes

/-- The codings a compressed response names: the one its headers came with, and the one
that was added. -/
theorem encodings_respond (hkeys : ∀ k ∈ r.headers.keys, Http.lowerName k = k) {name : String}
    {encode : Bytes → Bytes} (h : compress S request r = (encode r.content,
      (r.headers.set "Content-Encoding" name).set "Content-Length"
        (toString (encode r.content).length))) :
    (respond S request r responseTime).given "content-encoding" =
      (r.headers.get? "content-encoding").toList ++ [name] := by
  have hlower : Http.lowerName "Content-Encoding" = "content-encoding" ∧
      Http.lowerName "Content-Length" = "content-length" := by decide +kernel
  have hnew : "Content-Encoding" ∉ r.headers.keys := fun hmem => by
    have hsame := hkeys _ hmem
    rw [hlower.1] at hsame
    exact absurd hsame (by decide)
  rw [given_respond_eq (by decide), h, Http.values_set _ (by rw [hlower.2]; decide),
    Http.values_set_new name hnew hlower.1, Http.values_items hkeys]

/-- **What the client reads is the body decoded by the coding its headers came with**, and
the edge's own coding leaves no trace. -/
theorem read_respond (F : Framework) (hinverts : Inverts C S.compressors)
    (hkeys : ∀ k ∈ r.headers.keys, Http.lowerName k = k) (responseTime : String) :
    C.read (F.send (respond S request r responseTime)) =
      C.decode (r.headers.get? "content-encoding") r.content := by
  have hread : C.read (F.send (respond S request r responseTime)) =
      C.decodeAll ((respond S request r responseTime).given "content-encoding")
        (compress S request r).1 := by
    rw [Http.Codec.read, F.send_body, F.values_send _ (by decide) (by decide)]
    rfl
  rw [hread]
  by_cases hcompresses : Compresses S request r
  · obtain ⟨name, encode, hname, hcompress⟩ := compress_of hcompresses
    rw [encodings_respond hkeys hcompress, hcompress, Http.Codec.decodeAll_append,
      hinverts name encode hname, Option.bind_some, Http.Codec.decodeAll_toList]
  · rw [given_respond hkeys hcompresses (by decide), compress_of_not hcompresses,
      Http.Codec.decodeAll_toList]

end EdgeRoutes

/--
**When a coded body survives the cache.**  In every run of an edge whose upstream sends
messages of `U`: what a call returns, on the miss or on a hit, holds such a message, and
the client that undoes all the codings which the file route names reads its representation
exactly if the coding of the message leaves the representation as it is.
-/
theorem survivesCaching_iff (E : Setup Bytes) (F : Framework) (hinverts : Inverts C S.compressors)
    (U : Http.Message → Prop) (maxSizeBytes : Int) (breaker : CircuitBreaker) (wall mono : Time)
    (p : List (Action Bytes)) (hfetches : ∀ a ∈ p, Edge.Fetches C U a) {s : Edge Bytes}
    (hrun : Lts.run (Edge.step E) (Edge.start { maxSizeBytes } breaker wall mono) p = some s)
    {t : Nat} {call : Call Bytes} {reply : Reply Bytes}
    (ht : s.tasks[t]? = some ⟨call, .returned reply⟩) (hown : reply.own = false)
    (hauthorized : EdgeRoutes.authorized S request = .ok true)
    (hrange : given request.rangeHeader = none) (responseTime : String) :
    (∃ m, U m ∧ (reply.response E).Holds C m) ∧
      ∃ sent, EdgeRoutes.serveFile S request (.ok (reply.response E)) responseTime = .ok sent ∧
        ∀ m, (reply.response E).Holds C m → ∀ representation,
          C.decode m.encoding m.body = some representation →
            (C.read (F.send sent) = some representation ↔
              C.decode m.encoding representation = some representation) := by
  refine ⟨Edge.returned_holds hfetches hrun ht hown, _,
    EdgeRoutes.serveFile_whole hauthorized hrange _ responseTime, ?_⟩
  intro m hholds representation hrepresentation
  rw [EdgeRoutes.read_respond F hinverts hholds.lowerName_keys, hholds.get?_headers]
  rw [hholds.content, Option.some.injEq] at hrepresentation
  rw [hrepresentation]

/-! ### A text behind a shield -/

/-- The text as a shield sends it to a client that takes gzip. -/
def shieldMessage : Http.Message :=
  ⟨200, [("content-type", "text/plain"), ("content-encoding", "gzip"), ("content-length", "29")],
    sampleGzip⟩

/-- The text as the client of the shield hands it on. -/
def shieldReceived : Http.Received := ⟨200, shieldMessage.headers, sampleText⟩

def shieldReply : Reply Bytes := .fetched ⟨sampleText, 200, shieldMessage.headers, false⟩

/-- The text is decoded, and the edge fetches and returns it. -/
theorem shieldMessage_spec :
    sampleCodec.decode shieldMessage.encoding shieldMessage.body = some sampleText ∧
    (Lts.run (Edge.step plainService) (Edge.start { maxSizeBytes := 100000 } {} 0 0)
      (missRun shieldReceived)).isSome = true ∧
    ((missReached shieldReceived).tasks[0]?).map (·.phase) = some (.returned shieldReply) := by
  decide +kernel

theorem decode_shieldMessage :
    sampleCodec.decode shieldMessage.encoding shieldMessage.body = some sampleText :=
  shieldMessage_spec.1

theorem receive_shieldMessage : sampleCodec.receive shieldMessage = some shieldReceived :=
  Http.Codec.receive_eq_some.mpr ⟨decode_shieldMessage, rfl, rfl⟩

theorem run_shieldReceived :
    Lts.run (Edge.step plainService) (Edge.start { maxSizeBytes := 100000 } {} 0 0)
      (missRun shieldReceived) = some (missReached shieldReceived) :=
  Lts.run_last shieldMessage_spec.2.1

theorem returned_shieldReply :
    ∃ call, (missReached shieldReceived).tasks[0]? = some ⟨call, .returned shieldReply⟩ :=
  exists_call shieldMessage_spec.2.2

theorem survivesCaching_iff_shield :
    ∃ sent, EdgeRoutes.serveFile plainRoutes { path := "a", acceptEncoding := some "gzip" }
        (.ok (shieldReply.response plainService)) "0.50ms" = .ok sent ∧
      (sampleCodec.read (plainFramework.send sent) = some sampleText ↔
        sampleCodec.decode shieldMessage.encoding sampleText = some sampleText) := by
  obtain ⟨call, ht⟩ := returned_shieldReply
  have hauthorized : EdgeRoutes.authorized plainRoutes
      { path := "a", acceptEncoding := some "gzip" } = .ok true := rfl
  obtain ⟨-, sent, hsent, hiff⟩ := survivesCaching_iff plainService plainFramework inverts_sample
    (· = shieldMessage) 100000 {} 0 0 (missRun shieldReceived)
    (fetches_missRun rfl receive_shieldMessage) run_shieldReceived ht rfl hauthorized rfl "0.50ms"
  exact ⟨sent, hsent, hiff shieldMessage ⟨decode_shieldMessage, rfl, rfl⟩ sampleText
    decode_shieldMessage⟩

/-- The text is sent as it is, and called gzip. -/
theorem notSurvivesCaching_shield : ¬ ∀ (E : Setup Bytes) (F : Framework) (C : Http.Codec)
    (S : EdgeRoutes.Setup) (U : Http.Message → Prop) (maxSizeBytes : Int)
    (p : List (Action Bytes)) (s : Edge Bytes) (t : Nat) (call : Call Bytes) (reply : Reply Bytes)
    (request : EdgeRoutes.Request) (responseTime : String) (sent : HttpResponse)
    (m : Http.Message) (representation : Bytes),
    Inverts C S.compressors → (∀ a ∈ p, Edge.Fetches C U a) →
    Lts.run (Edge.step E) (Edge.start { maxSizeBytes } {} 0 0) p = some s →
    s.tasks[t]? = some ⟨call, .returned reply⟩ → reply.own = false →
    EdgeRoutes.authorized S request = .ok true → given request.rangeHeader = none →
    EdgeRoutes.serveFile S request (.ok (reply.response E)) responseTime = .ok sent →
    U m → (reply.response E).Holds C m →
    C.decode m.encoding m.body = some representation →
    C.read (F.send sent) = some representation := by
  intro h
  obtain ⟨call, ht⟩ := returned_shieldReply
  have hread := h plainService plainFramework sampleCodec plainRoutes (· = shieldMessage) 100000
    (missRun shieldReceived) (missReached shieldReceived) 0 call shieldReply { path := "a" } "0.50ms"
    _ shieldMessage sampleText inverts_sample (fetches_missRun rfl receive_shieldMessage)
    run_shieldReceived ht rfl rfl rfl (EdgeRoutes.serveFile_whole rfl rfl _ _) rfl
    ⟨decode_shieldMessage, rfl, rfl⟩ decode_shieldMessage
  rw [EdgeRoutes.read_respond plainFramework inverts_sample shieldMessage.lowerName_keys] at hread
  revert hread
  decide +kernel

end Cdn

/-
The file route of an edge.

The route checks a signed URL, asks the cache service for the resource or for a part of
it, compresses what it got and adds its own headers.  It changes the header map it was
given in place: a name that is there in lower case stays beside the one that is written.
-/
import Cdn.Application.RangeRequest
import Cdn.Infrastructure.Compression
import Cdn.Presentation.EdgeRoutes
import Cdn.Presentation.Framework

namespace Cdn

namespace EdgeRoutes

/-- What the route takes from its configuration and its libraries. -/
structure Setup where
  edgeId : String
  compressors : Compressors
  /-- `validate_token` under the secret key, for a path, a token and an expiry; none where
  there is no `auth_config`. -/
  validateToken : Option (String → String → Int → Except Exn Bool)

/-- What the route reads of a request. -/
structure Request where
  path : String
  token : Option String := none
  expires : Option Int := none
  rangeHeader : Option String := none
  acceptEncoding : Option String := none
  xCdnToken : Option String := none

variable (S : Setup)

/-- `x_cdn_token or token`. -/
def Request.providedToken (request : Request) : Option String :=
  (given request.xCdnToken).or (given request.token)

/-- The signed URL validation. -/
def authorized (request : Request) : Except Exn Bool :=
  match request.providedToken, S.validateToken with
  | some token, some validate => validate ("/files/" ++ request.path) token (request.expires.getD 0)
  | _, _ => .ok true

/-- What the cache service returns, with whether it was a hit.  `fetched` is how its
`get_or_fetch` ends. -/
def fetchContent (request : Request) (fetched : Except Exn (Response Bytes)) :
    Except Exn (Response Bytes) :=
  match given request.rangeHeader with
  | some rangeHeader =>
      (handleRangeRequest rangeHeader fetched).map fun (content, statusCode, headers) =>
        ⟨content, statusCode, headers, false⟩
  | none => fetched

/-- The compression step: the content and the headers as they go on. -/
def compress (request : Request) (r : Response Bytes) : Bytes × Headers :=
  let contentType := r.headers.getD "content-type" "application/octet-stream"
  match given request.acceptEncoding with
  | some acceptEncoding =>
      if r.statusCode = 200 then
        match compressResponse S.compressors r.content acceptEncoding contentType with
        | (compressed, some encoding) =>
            (compressed, (r.headers.set "Content-Encoding" encoding).set "Content-Length"
              (toString compressed.length))
        | (_, none) => (r.content, r.headers)
      else (r.content, r.headers)
  | none => (r.content, r.headers)

/-- The rest of `serve_file`, from the compression on. -/
def respond (request : Request) (r : Response Bytes) (responseTime : String) : HttpResponse :=
  let contentType := r.headers.getD "content-type" "application/octet-stream"
  let (content, headers) := compress S request r
  let headers := headers.set "X-Cache" (if r.cacheHit then "HIT" else "MISS")
  let headers := headers.set "X-Edge-Id" S.edgeId
  let headers := headers.set "X-Response-Time" responseTime
  { content, statusCode := r.statusCode, headers, mediaType := some contentType }

/-- The answer to a token that is not valid. -/
def forbidden : HttpResponse := { statusCode := 403, content := utf8 "Forbidden: invalid token" }

/-- `serve_file`. -/
def serveFile (request : Request) (fetched : Except Exn (Response Bytes))
    (responseTime : String) : Except Exn HttpResponse := do
  if !(← authorized S request) then
    return forbidden
  let r ← fetchContent request fetched
  return respond S request r responseTime

/-! ### How the route begins -/

/-- The first thing the route does that can be seen: it raises, answers by itself, or calls the
cache service, which leaves the edge where its `get_or_fetch` suspends first. -/
inductive Begun where
  | raised (x : Exn)
  | answered (r : HttpResponse)
  | called (edge : Edge Bytes)

/-- `serve_file`, up to the first suspension of the cache service. -/
def enter (C : Cdn.Setup Bytes) (edge : Edge Bytes) (request : Request)
    (requestHeaders : Headers) : Begun :=
  match authorized S request with
  | .error x => .raised x
  | .ok false => .answered forbidden
  | .ok true =>
      -- a part is asked for with a header that is parsed before the resource is looked up
      match (given request.rangeHeader).map ByteRange.first with
      | some (.error x) => .raised x
      | _ => .called (edge.getOrFetch C request.path (some requestHeaders))
/-! ### What the compression step does -/

/-- The response is compressed: its status is 200, the client sent a header, and there is
a coding for it. -/
def Compresses (request : Request) (r : Response Bytes) : Prop :=
  r.statusCode = 200 ∧ ∃ acceptEncoding, given request.acceptEncoding = some acceptEncoding ∧
    (compressResponse S.compressors r.content acceptEncoding
      (r.headers.getD "content-type" "application/octet-stream")).2 ≠ none

/-- The same, from what the client sent and what there is to send. -/
def Negotiates (request : Request) (r : Response Bytes) : Prop :=
  r.statusCode = 200 ∧ ∃ acceptEncoding, given request.acceptEncoding = some acceptEncoding ∧
    minCompressSize ≤ r.content.length ∧
    isCompressible (r.headers.getD "content-type" "application/octet-stream") = true ∧
    S.compressors.Offers acceptEncoding

variable {S} {request : Request} {r : Response Bytes}

theorem compresses_iff : Compresses S request r ↔ Negotiates S request r := by
  simp only [Compresses, Negotiates, compressResponse_ne_none]

theorem compress_of_not (h : ¬ Compresses S request r) :
    compress S request r = (r.content, r.headers) := by
  unfold compress
  dsimp only
  split
  · rename_i acceptEncoding haccept
    split
    · rename_i hstatus
      split
      · rename_i compressed encoding hcompress
        exact absurd ⟨hstatus, acceptEncoding, haccept, by rw [hcompress]; simp⟩ h
      · rfl
    · rfl
  · rfl

theorem compress_of (h : Compresses S request r) :
    ∃ name encode, S.compressors.Encodes name encode ∧
      compress S request r = (encode r.content, (r.headers.set "Content-Encoding" name).set
        "Content-Length" (toString (encode r.content).length)) := by
  obtain ⟨hstatus, acceptEncoding, haccept, hsome⟩ := h
  rcases compressResponse_spec S.compressors r.content acceptEncoding
      (r.headers.getD "content-type" "application/octet-stream") with hnone | ⟨name, encode, hname, hcompress⟩
  · rw [hnone] at hsome
    exact absurd rfl hsome
  · refine ⟨name, encode, hname, ?_⟩
    rw [compress, haccept]
    dsimp only
    rw [if_pos hstatus, hcompress]

/-- Nothing is taken out of the map. -/
theorem contains_respond {responseTime k : String} (h : r.headers.contains k = true) :
    (respond S request r responseTime).headers.contains k = true := by
  have hcompress : (compress S request r).2.contains k = true := by
    by_cases hcompresses : Compresses S request r
    · obtain ⟨name, encode, -, hcompress⟩ := compress_of hcompresses
      rw [hcompress]
      exact Dict.contains_set_of _ _ _ (Dict.contains_set_of _ _ _ h)
    · rw [compress_of_not hcompresses]
      exact h
  exact Dict.contains_set_of _ _ _ (Dict.contains_set_of _ _ _ (Dict.contains_set_of _ _ _ hcompress))

/-- A response that is compressed states the new length. -/
theorem contains_length_respond {responseTime : String} (h : Compresses S request r) :
    (respond S request r responseTime).headers.contains "Content-Length" = true := by
  obtain ⟨name, encode, -, hcompress⟩ := compress_of h
  show (((((compress S request r).2.set "X-Cache" _).set "X-Edge-Id" _).set
    "X-Response-Time" _).contains "Content-Length") = true
  rw [hcompress]
  exact Dict.contains_set_of _ _ _ (Dict.contains_set_of _ _ _ (Dict.contains_set_of _ _ _
    (Dict.contains_set _ _ _)))

/-- A part states its own length beside the one that the headers came with. -/
theorem contains_length_part {rangeHeader : String} {part : Response Bytes}
    (hlength : r.headers.contains "content-length" = true)
    (hrange : given request.rangeHeader = some rangeHeader)
    (hpart : fetchContent request (.ok r) = .ok part) :
    part.headers.contains "content-length" = true ∧
      part.headers.contains "Content-Length" = true := by
  unfold fetchContent at hpart
  rw [hrange] at hpart
  dsimp only at hpart
  cases hfirst : ByteRange.first rangeHeader with
  | error x =>
      rw [handleRangeRequest_error hfirst] at hpart
      cases hpart
  | ok byteRange =>
      rw [handleRangeRequest_ok hfirst] at hpart
      cases hpart
      constructor
      · exact Dict.contains_set_of _ _ _
          (Dict.contains_set_of _ _ _ (Dict.contains_set_of _ _ _ hlength))
      · exact Dict.contains_set_of _ _ _ (Dict.contains_set _ _ _)

/-- But for the three headers of its own, the route sends what the compression leaves. -/
theorem given_respond_eq {responseTime name : String}
    (hname : name ∉ ["x-cache", "x-edge-id", "x-response-time"]) :
    (respond S request r responseTime).given name =
      Http.values (compress S request r).2.items name := by
  have hlower : Http.lowerName "X-Cache" = "x-cache" ∧ Http.lowerName "X-Edge-Id" = "x-edge-id" ∧
      Http.lowerName "X-Response-Time" = "x-response-time" := by decide +kernel
  simp only [List.mem_cons, List.not_mem_nil, or_false, not_or] at hname
  show Http.values ((((compress S request r).2.set "X-Cache" _).set "X-Edge-Id" _).set
    "X-Response-Time" _).items name = _
  rw [Http.values_set _ (by rw [hlower.2.2]; exact Ne.symm hname.2.2),
    Http.values_set _ (by rw [hlower.2.1]; exact Ne.symm hname.2.1),
    Http.values_set _ (by rw [hlower.1]; exact Ne.symm hname.1)]

/-- A response that is not compressed keeps its own headers, one line for each. -/
theorem given_respond {responseTime name : String} (hkeys : ∀ k ∈ r.headers.keys, Http.lowerName k = k)
    (h : ¬ Compresses S request r)
    (hname : name ∉ ["x-cache", "x-edge-id", "x-response-time"]) :
    (respond S request r responseTime).given name = (r.headers.get? name).toList := by
  rw [given_respond_eq hname, compress_of_not h, Http.values_items hkeys]

end EdgeRoutes

end Cdn

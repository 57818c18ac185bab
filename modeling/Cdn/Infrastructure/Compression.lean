/-
Compression of responses.

The compressors themselves are a parameter; Brotli comes with a package of its own, which
may be missing.
-/
import Cdn.Lib.Http
import Cdn.Python

namespace Cdn

structure Compressors where
  /-- `_HAS_BROTLI`. -/
  hasBrotli : Bool
  brotli : Bytes → Bytes
  gzip : Bytes → Bytes
  deflate : Bytes → Bytes

/-- Content types that should never be compressed. -/
def skipContentTypes : List String :=
  ["image/png", "image/jpeg", "image/gif", "image/webp", "image/avif", "image/svg+xml",
    "video/mp4", "video/webm", "video/ogg", "audio/mpeg", "audio/ogg", "application/zip",
    "application/gzip", "application/x-bzip2", "application/x-xz", "application/x-7z-compressed",
    "application/x-rar-compressed", "application/zstd", "application/wasm"]

/-- How a content type begins that is worth compressing. -/
def compressibleTypes : List String :=
  ["text/", "application/json", "application/javascript", "application/xml",
    "application/xhtml+xml", "application/rss+xml", "application/atom+xml",
    "application/ld+json", "application/manifest+json", "application/vnd.api+json"]

def minCompressSize : Nat := 1024

/-- `is_compressible`. -/
def isCompressible (contentType : String) : Bool :=
  let ct := lower (strip (partition ';' contentType.toList).1)
  if skipContentTypes.any fun skipped => skipped.toList = ct then false
  else compressibleTypes.any fun start => start.toList.isPrefixOf ct

/-- `_parse_accept_encoding`: the names, without their weights. -/
def parseAcceptEncoding (acceptEncoding : String) : List (List Char) :=
  (split ',' acceptEncoding.toList).filterMap fun part =>
    let part := strip part
    if part = [] then none
    else
      let name := lower (strip (partition ';' part).1)
      if name = [] then none else some name

/-- `compress_response`. -/
def compressResponse (Z : Compressors) (content : Bytes) (acceptEncoding contentType : String) :
    Bytes × Option String :=
  if content.length < minCompressSize then (content, none)
  else if !isCompressible contentType then (content, none)
  else
    let accepted := parseAcceptEncoding acceptEncoding
    if Z.hasBrotli ∧ "br".toList ∈ accepted then (Z.brotli content, some "br")
    else if "gzip".toList ∈ accepted then (Z.gzip content, some "gzip")
    else if "deflate".toList ∈ accepted then (Z.deflate content, some "deflate")
    else (content, none)

/-- What a coding name stands for. -/
inductive Compressors.Encodes (Z : Compressors) : String → (Bytes → Bytes) → Prop where
  | brotli (h : Z.hasBrotli = true) : Encodes Z "br" Z.brotli
  | gzip : Encodes Z "gzip" Z.gzip
  | deflate : Encodes Z "deflate" Z.deflate

/-- The client reads what the compressors write. -/
def Inverts (C : Http.Codec) (Z : Compressors) : Prop :=
  ∀ name encode, Z.Encodes name encode → ∀ content,
    C.decode (some name) (encode content) = some content

/-- **Either nothing was done, or the data is the content under the coding that is named.** -/
theorem compressResponse_spec (Z : Compressors) (content : Bytes)
    (acceptEncoding contentType : String) :
    compressResponse Z content acceptEncoding contentType = (content, none) ∨
      ∃ name encode, Z.Encodes name encode ∧
        compressResponse Z content acceptEncoding contentType = (encode content, some name) := by
  unfold compressResponse
  split
  · exact Or.inl rfl
  · split
    · exact Or.inl rfl
    · dsimp only
      split
      · rename_i hbr
        exact Or.inr ⟨_, _, .brotli hbr.1, rfl⟩
      · split
        · exact Or.inr ⟨_, _, .gzip, rfl⟩
        · split
          · exact Or.inr ⟨_, _, .deflate, rfl⟩
          · exact Or.inl rfl

/-- The client accepts one of the codings there are. -/
def Compressors.Offers (Z : Compressors) (acceptEncoding : String) : Prop :=
  Z.hasBrotli = true ∧ "br".toList ∈ parseAcceptEncoding acceptEncoding ∨
    "gzip".toList ∈ parseAcceptEncoding acceptEncoding ∨
    "deflate".toList ∈ parseAcceptEncoding acceptEncoding

/-- Something is done for a content that is long enough, of a type that is worth it, to a
client that accepts it. -/
theorem compressResponse_ne_none {Z : Compressors} {content : Bytes}
    {acceptEncoding contentType : String} :
    (compressResponse Z content acceptEncoding contentType).2 ≠ none ↔
      minCompressSize ≤ content.length ∧ isCompressible contentType = true ∧
        Z.Offers acceptEncoding := by
  unfold compressResponse Compressors.Offers
  by_cases hlength : content.length < minCompressSize
  · simp [hlength]
  · cases htype : isCompressible contentType with
    | false => simp [hlength]
    | true =>
        rw [if_neg hlength, if_neg (by decide)]
        have hlong := not_lt.mp hlength
        dsimp only
        split
        · rename_i hbr
          exact ⟨fun _ => ⟨hlong, rfl, .inl hbr⟩, fun _ h => by cases h⟩
        · rename_i hbr
          split
          · rename_i hgzip
            exact ⟨fun _ => ⟨hlong, rfl, .inr (.inl hgzip)⟩, fun _ h => by cases h⟩
          · rename_i hgzip
            split
            · rename_i hdeflate
              exact ⟨fun _ => ⟨hlong, rfl, .inr (.inr hdeflate)⟩, fun _ h => by cases h⟩
            · rename_i hdeflate
              have hnone : ¬ (Z.hasBrotli = true ∧ "br".toList ∈ parseAcceptEncoding acceptEncoding ∨
                  "gzip".toList ∈ parseAcceptEncoding acceptEncoding ∨
                  "deflate".toList ∈ parseAcceptEncoding acceptEncoding) :=
                not_or.mpr ⟨hbr, not_or.mpr ⟨hgzip, hdeflate⟩⟩
              exact ⟨fun h => absurd rfl h, fun h => absurd h.2.2 hnone⟩

/-! ### One text, compressed -/

/-- As many times the letter `a` as it takes to be worth it. -/
def sampleText : Bytes := List.replicate minCompressSize 97

/-- The same in the gzip format. -/
def sampleGzip : Bytes :=
  [31, 139, 8, 0, 0, 0, 0, 0, 0, 3, 75, 76, 28, 5, 163, 96, 20, 140, 84, 0, 0, 185, 151, 85, 124,
    0, 4, 0, 0]

/-- Compressors that know this text, and mark any other. -/
def sampleCompressors : Compressors where
  hasBrotli := false
  brotli := List.cons 0
  gzip := fun content => if content = sampleText then sampleGzip else 0 :: content
  deflate := List.cons 0

def sampleDecode (coding : Option String) (body : Bytes) : Option Bytes :=
  match coding with
  | none => some body
  | some name =>
      if name = "gzip" ∧ body = sampleGzip then some sampleText
      else if name ∈ ["br", "gzip", "deflate"] then
        match body with
        | 0 :: content => some content
        | _ => none
      else some body

def sampleCodec : Http.Codec where
  decode := sampleDecode
  decode_none _ := rfl

theorem inverts_sample : Inverts sampleCodec sampleCompressors := by
  have hmark : ∀ content, (0 :: content : Bytes) ≠ sampleGzip := by
    intro content h
    cases h
  have hdecode : ∀ name ∈ ["br", "gzip", "deflate"], ∀ content,
      sampleDecode (some name) (0 :: content) = some content := by
    intro name hname content
    rw [sampleDecode, if_neg fun hc => hmark content hc.2, if_pos hname]
  have hgzip : sampleDecode (some "gzip") sampleGzip = some sampleText := by
    unfold sampleDecode
    exact if_pos ⟨rfl, rfl⟩
  intro name encode hencodes content
  cases hencodes with
  | brotli h => cases h
  | gzip =>
      show sampleDecode (some "gzip") (if content = sampleText then sampleGzip else _) = _
      by_cases hcontent : content = sampleText
      · rw [if_pos hcontent, hgzip, hcontent]
      · rw [if_neg hcontent]
        exact hdecode "gzip" (by decide) content
  | deflate => exact hdecode "deflate" (by decide) content

end Cdn

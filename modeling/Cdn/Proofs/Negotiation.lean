/-
Which coding a client gets.

An item of Accept-Encoding names a coding and may give it a weight, and a weight of zero says
that the coding must not be sent.  The parser keeps the names and drops the weights, so a coding
that is refused counts as one that is accepted.  What is sent is the first coding, in the order
of preference, that is named at all; it is right exactly if some item names it with another
weight than zero.
-/
import Cdn.Infrastructure.Compression

namespace Cdn

namespace AcceptEncoding

/-! ### Items -/

/-- The coding that an item names, in lower case. -/
def codingName (item : List Char) : List Char := lower (strip (partition ';' item).1)

/-- The value of the parameter `q`, where an item has one. -/
def weight? (item : List Char) : Option (List Char) :=
  ((split ';' item).tail.find? fun parameter =>
    lower (strip (partition '=' parameter).1) = ['q']).map fun parameter =>
      strip (partition '=' parameter).2

/-- A zero, and nothing but zeros behind the point. -/
def isZero (weight : List Char) : Bool :=
  weight = ['0'] || (weight.take 2 = ['0', '.'] && (weight.drop 2).all (· = '0'))

/-- The weight is zero; an item without a weight has the weight one. -/
def refused (item : List Char) : Bool := (weight? item).elim false isZero

/-- An item names the coding, with whatever weight. -/
def Named (header name : String) : Prop :=
  ∃ item ∈ split ',' header.toList, codingName item = name.toList

/-- An item names the coding with a weight other than zero. -/
def Listed (header name : String) : Prop :=
  ∃ item ∈ split ',' header.toList, codingName item = name.toList ∧ refused item = false

instance (header : String) : DecidablePred (Named header) :=
  fun _ => inferInstanceAs (Decidable (∃ item ∈ _, _))

instance (header : String) : DecidablePred (Listed header) :=
  fun _ => inferInstanceAs (Decidable (∃ item ∈ _, _))

example : refused " gzip ; Q = 0.00".toList = true ∧ refused "gzip;q=0.5".toList = false ∧
    refused "gzip".toList = false := by decide +kernel

theorem Listed.named {header name : String} (h : Listed header name) : Named header name := by
  obtain ⟨item, hitem, hname, -⟩ := h
  exact ⟨item, hitem, hname⟩

/-- The parser keeps the names. -/
theorem mem_parseAcceptEncoding {header name : String} (hname : name ≠ "") :
    name.toList ∈ parseAcceptEncoding header ↔ Named header name := by
  have hblank : ∀ c, isSpace c = true → decide (c ≠ ';') = true := by
    intro c hc
    rw [decide_eq_true_eq]
    rintro rfl
    exact absurd hc (by decide)
  have hcoding : ∀ item, lower (strip (partition ';' (strip item)).1) = codingName item :=
    fun item => congrArg lower (strip_takeWhile hblank item)
  have hne : name.toList ≠ [] := fun h => hname (String.toList_eq_nil_iff.mp h)
  rw [parseAcceptEncoding, List.mem_filterMap]
  refine exists_congr fun item => and_congr_right fun _ => ?_
  dsimp only
  rw [hcoding]
  split
  · rename_i hempty
    have hnone : codingName item = [] := by rw [← hcoding, hempty]; rfl
    rw [hnone]
    exact iff_of_false (by rintro ⟨⟩) fun h => hne h.symm
  · split
    · rename_i hnone
      rw [hnone]
      exact iff_of_false (by rintro ⟨⟩) fun h => hne h.symm
    · rw [Option.some.injEq]

end AcceptEncoding

open AcceptEncoding (Named Listed)

/-! ### The choice -/

namespace Compressors

/-- The codings there are, in the order of preference. -/
def codings (Z : Compressors) : List String :=
  (if Z.hasBrotli then ["br"] else []) ++ ["gzip", "deflate"]

/-- What is done under a name. -/
def encode (Z : Compressors) (name : String) : Bytes → Bytes :=
  if name = "br" then Z.brotli else if name = "gzip" then Z.gzip else Z.deflate

theorem encodes_of_mem {Z : Compressors} {name : String} (h : name ∈ Z.codings) :
    Z.Encodes name (Z.encode name) := by
  rcases List.mem_append.mp h with h | h
  · split at h
    · rename_i hbrotli
      rw [List.mem_singleton.mp h]
      exact .brotli hbrotli
    · cases h
  · rcases List.mem_pair.mp h with rfl | rfl
    · exact .gzip
    · exact .deflate

end Compressors

variable {Z : Compressors} {content : Bytes} {acceptEncoding contentType : String}

/-- The tests of the source, one after another, find the first coding that is named. -/
theorem tests_eq (Z : Compressors) (content : Bytes) (acceptEncoding : String) :
    (if Z.hasBrotli = true ∧ Named acceptEncoding "br" then (Z.brotli content, some "br")
      else if Named acceptEncoding "gzip" then (Z.gzip content, some "gzip")
      else if Named acceptEncoding "deflate" then (Z.deflate content, some "deflate")
      else (content, none)) =
    match Z.codings.find? fun name => Named acceptEncoding name with
    | some name => (Z.encode name content, some name)
    | none => (content, none) := by
  have hrest : ∀ l : List String, l = ["gzip", "deflate"] →
      (if Named acceptEncoding "gzip" then (Z.gzip content, some "gzip")
        else if Named acceptEncoding "deflate" then (Z.deflate content, some "deflate")
        else (content, none)) =
      match l.find? fun name => Named acceptEncoding name with
      | some name => (Z.encode name content, some name)
      | none => (content, none) := by
    rintro l rfl
    by_cases hgzip : Named acceptEncoding "gzip"
    · rw [if_pos hgzip, List.find?_cons_of_pos (by simpa using hgzip)]
      rfl
    · rw [if_neg hgzip, List.find?_cons_of_neg (by simpa using hgzip)]
      by_cases hdeflate : Named acceptEncoding "deflate"
      · rw [if_pos hdeflate, List.find?_cons_of_pos (by simpa using hdeflate)]
        rfl
      · rw [if_neg hdeflate, List.find?_cons_of_neg (by simpa using hdeflate)]
        rfl
  rw [Compressors.codings]
  cases Z.hasBrotli with
  | false => exact (if_neg fun h => by cases h.1).trans (hrest _ rfl)
  | true =>
      rw [if_pos rfl, List.singleton_append]
      by_cases hbr : Named acceptEncoding "br"
      · rw [if_pos ⟨rfl, hbr⟩, List.find?_cons_of_pos (by simpa using hbr)]
        rfl
      · rw [if_neg fun h => hbr h.2, List.find?_cons_of_neg (by simpa using hbr)]
        exact hrest _ rfl

/-- **The first coding that is named is sent**, of a content that is long enough and of a type
that is worth it. -/
theorem compressResponse_eq (hlength : minCompressSize ≤ content.length)
    (htype : isCompressible contentType = true) :
    compressResponse Z content acceptEncoding contentType =
      match Z.codings.find? fun name => Named acceptEncoding name with
      | some name => (Z.encode name content, some name)
      | none => (content, none) := by
  have hmem : ∀ name ≠ "", name.toList ∈ parseAcceptEncoding acceptEncoding ↔
      Named acceptEncoding name := fun _ hname => AcceptEncoding.mem_parseAcceptEncoding hname
  rw [← tests_eq]
  unfold compressResponse
  rw [if_neg (Nat.not_lt.mpr hlength), htype]
  simp only [Bool.not_true, Bool.false_eq_true, if_false, hmem "br" (by decide),
    hmem "gzip" (by decide), hmem "deflate" (by decide)]

/-! ### What the client can take -/

/-- What `compress_response` owes a client. -/
structure Negotiated (C : Http.Codec) (Z : Compressors) (content : Bytes)
    (acceptEncoding contentType : String) : Prop where
  /-- A coding is one that the client lists, the first of those that it lists, and stands for a
  content that is worth it. -/
  coded : ∀ data name,
    compressResponse Z content acceptEncoding contentType = (data, some name) →
      Listed acceptEncoding name ∧
      (Z.codings.find? fun name => Listed acceptEncoding name) = some name ∧
      minCompressSize ≤ content.length ∧ isCompressible contentType = true ∧
      C.decode (some name) data = some content
  /-- Without a coding the content is sent as it is. -/
  plain : ∀ data, compressResponse Z content acceptEncoding contentType = (data, none) →
    data = content

theorem negotiated_of_plain {C : Http.Codec}
    (h : compressResponse Z content acceptEncoding contentType = (content, none)) :
    Negotiated C Z content acceptEncoding contentType := by
  refine ⟨fun data name hsent => ?_, fun data hsent => ?_⟩
  · rw [h] at hsent
    cases hsent
  · rw [h] at hsent
    cases hsent
    rfl

/-- The first coding that is named is the first that is listed, if it is listed at all. -/
theorem find?_listed {codings : List String} {name : String}
    (hnamed : (codings.find? fun name => Named acceptEncoding name) = some name)
    (hlisted : Listed acceptEncoding name) :
    (codings.find? fun name => Listed acceptEncoding name) = some name := by
  obtain ⟨-, before, after, hcodings, hbefore⟩ := List.find?_eq_some_iff_append.mp hnamed
  refine List.find?_eq_some_iff_append.mpr ⟨by simpa using hlisted, before, after, hcodings, ?_⟩
  intro earlier hearlier
  have hnot : ¬ Named acceptEncoding earlier := by simpa using hbefore earlier hearlier
  simpa using fun h : Listed acceptEncoding earlier => hnot h.named

/-- **The right coding is sent** exactly if the first that the client names at all is one that it
does not refuse, or the content is not worth it. -/
theorem negotiated_iff {C : Http.Codec} (hinverts : Inverts C Z) :
    Negotiated C Z content acceptEncoding contentType ↔
      content.length < minCompressSize ∨ isCompressible contentType = false ∨
        ∀ name, (Z.codings.find? fun name => Named acceptEncoding name) = some name →
          Listed acceptEncoding name := by
  by_cases hlength : content.length < minCompressSize
  · exact iff_of_true (negotiated_of_plain (by rw [compressResponse, if_pos hlength]))
      (Or.inl hlength)
  cases htype : isCompressible contentType with
  | false =>
      refine iff_of_true (negotiated_of_plain ?_) (Or.inr (Or.inl rfl))
      rw [compressResponse, if_neg hlength, if_pos (by rw [htype]; rfl)]
  | true =>
      have hsent : compressResponse Z content acceptEncoding contentType = _ :=
        compressResponse_eq (Nat.le_of_not_lt hlength) htype
      cases hnamed : Z.codings.find? fun name => Named acceptEncoding name with
      | none =>
          rw [hnamed] at hsent
          exact iff_of_true (negotiated_of_plain hsent)
            (Or.inr (Or.inr fun name hname => by cases hname))
      | some name =>
          rw [hnamed] at hsent
          have hmem : name ∈ Z.codings := List.mem_of_find?_eq_some hnamed
          have hdecode := hinverts name _ (Compressors.encodes_of_mem hmem) content
          constructor
          · intro h
            refine Or.inr (Or.inr fun name' hname' => ?_)
            rw [← Option.some.inj hname']
            exact (h.coded _ _ hsent).1
          · rintro (hshort | htype' | hlisted)
            · exact absurd hshort hlength
            · cases htype'
            · have hname := hlisted name rfl
              refine ⟨fun data name' hsent' => ?_, fun data hsent' => ?_⟩
              · rw [hsent] at hsent'
                cases hsent'
                exact ⟨hname, find?_listed hnamed hname, Nat.le_of_not_lt hlength, htype, hdecode⟩
              · rw [hsent] at hsent'
                cases hsent'

/-- A text for a client that refuses gzip. -/
theorem negotiated_iff_refused :
    Negotiated sampleCodec sampleCompressors sampleText "gzip;q=0" "text/plain" ↔
      sampleText.length < minCompressSize ∨ isCompressible "text/plain" = false ∨
        ∀ name, (sampleCompressors.codings.find? fun name => Named "gzip;q=0" name) = some name →
          Listed "gzip;q=0" name :=
  negotiated_iff inverts_sample

/-- It is sent under gzip. -/
theorem not_negotiated_refused : ¬ ∀ (content : Bytes) (acceptEncoding contentType : String),
    Negotiated sampleCodec sampleCompressors content acceptEncoding contentType := by
  intro h
  have hsent : compressResponse sampleCompressors sampleText "gzip;q=0" "text/plain" =
      (sampleGzip, some "gzip") ∧ ¬ Listed "gzip;q=0" "gzip" := by decide +kernel
  exact hsent.2 ((h sampleText "gzip;q=0" "text/plain").coded _ _ hsent.1).1

end Cdn

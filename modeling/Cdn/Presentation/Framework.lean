/-
What the web framework makes of a response.

A route hands over a body, a status, a header map and a media type.  The framework sends
the body and the map as they are, one line an item, and adds the length of the body and
its type where the map has no line for them.  That is all the routes rely on, so it is all
a `Framework` promises; `plainFramework` keeps the promise.
-/
import Cdn.Domain.Entities
import Cdn.Lib.Http

namespace Cdn

/-- What a route hands to the framework: the arguments of `Response`. -/
structure HttpResponse where
  content : Bytes := []
  statusCode : Int
  headers : Headers := ∅
  mediaType : Option String := none
deriving DecidableEq

/-- A status whose responses have no body, and so no length. -/
def Bodiless (statusCode : Int) : Prop := statusCode < 200 ∨ statusCode = 204 ∨ statusCode = 304

instance (statusCode : Int) : Decidable (Bodiless statusCode) :=
  inferInstanceAs (Decidable (_ ∨ _))

/-- The values the header map has for a name. -/
def HttpResponse.given (r : HttpResponse) (name : String) : List String :=
  Http.values r.headers.items name

structure Framework where
  send : HttpResponse → Http.Message
  send_statusCode : ∀ r, (send r).statusCode = r.statusCode
  send_body : ∀ r, (send r).body = r.content
  /-- What the map has is sent. -/
  send_given : ∀ r name, r.given name ≠ [] → Http.values (send r).lines name = r.given name
  /-- A length that is not there is added. -/
  send_length : ∀ r, r.given "content-length" = [] →
    Http.values (send r).lines "content-length" =
      if Bodiless r.statusCode then [] else [toString r.content.length]
  /-- Nothing else is, but a type. -/
  send_absent : ∀ r name, r.given name = [] → name ≠ "content-length" → name ≠ "content-type" →
    Http.values (send r).lines name = []

namespace Framework

variable (F : Framework) (r : HttpResponse)

/-- A name has the lines that the map has for it. -/
theorem values_send {name : String} (hlength : name ≠ "content-length")
    (htype : name ≠ "content-type") : Http.values (F.send r).lines name = r.given name := by
  by_cases hgiven : r.given name = []
  · rw [F.send_absent r name hgiven hlength htype, hgiven]
  · exact F.send_given r name hgiven

/-- A header is what the map has for its name. -/
theorem header?_send {name : String} (hlength : name ≠ "content-length")
    (htype : name ≠ "content-type") : (F.send r).header? name = Http.joined (r.given name) := by
  rw [Http.Message.header?, F.values_send r hlength htype]

theorem length_send :
    (F.send r).length = if r.given "content-length" = [] then
      if Bodiless r.statusCode then none else some (toString r.content.length)
    else Http.joined (r.given "content-length") := by
  rw [Http.Message.length, Http.Message.header?]
  by_cases hgiven : r.given "content-length" = []
  · rw [F.send_length r hgiven, if_pos hgiven]
    split
    · rfl
    · exact Http.joined_singleton _
  · rw [F.send_given r _ hgiven, if_neg hgiven]

theorem measured_of_absent (h : r.given "content-length" = []) (hbody : ¬ Bodiless r.statusCode) :
    (F.send r).Measured := by
  rw [Http.Message.Measured, F.send_length r h, if_neg hbody, F.send_body]

theorem measured_iff_given {length : String} (h : r.given "content-length" = [length]) :
    (F.send r).Measured ↔ length = toString r.content.length := by
  rw [Http.Message.Measured, F.send_given r _ (by rw [h]; simp), h, F.send_body,
    List.singleton_inj]

theorem not_measured_of_two (h : 2 ≤ (r.given "content-length").length) :
    ¬ (F.send r).Measured := by
  intro hmeasured
  have hne : r.given "content-length" ≠ [] := by
    intro hnil
    rw [hnil] at h
    exact absurd h (by decide)
  rw [Http.Message.Measured, F.send_given r _ hne] at hmeasured
  rw [hmeasured] at h
  exact absurd h (by simp)

/-- A client takes a response that names no coding as it is. -/
theorem receive_send (C : Http.Codec) (h : r.given "content-encoding" = []) :
    C.receive (F.send r) = some ⟨r.statusCode, (F.send r).headers, r.content⟩ := by
  have hencoding : (F.send r).encoding = none := by
    rw [Http.Message.encoding, F.header?_send r (by decide) (by decide), h, Http.joined_nil]
  rw [Http.Codec.receive_eq_some, hencoding, C.decode_none, F.send_body, F.send_statusCode]
  exact ⟨rfl, rfl, rfl⟩

theorem get?_headers_send {name : String} (hlength : name ≠ "content-length")
    (htype : name ≠ "content-type") : (F.send r).headers.get? name = Http.joined (r.given name) := by
  rw [Http.Message.get?_headers, F.header?_send r hlength htype]

end Framework

namespace HttpResponse

/-- The length, where the map has none and the status allows one. -/
def lengthLine (r : HttpResponse) : List (String × String) :=
  if r.given "content-length" = [] ∧ ¬ Bodiless r.statusCode then
    [("content-length", toString r.content.length)]
  else []

/-- The type, where the map has none. -/
def typeLine (r : HttpResponse) : List (String × String) :=
  if r.given "content-type" = [] then
    r.mediaType.toList.map fun mediaType => ("content-type", mediaType)
  else []

theorem values_lengthLine_of_ne (r : HttpResponse) {name : String} (h : name ≠ "content-length") :
    Http.values r.lengthLine name = [] := by
  have hlower : Http.lowerName "content-length" = "content-length" := by decide +kernel
  refine Http.values_eq_nil fun line hline => ?_
  unfold lengthLine at hline
  split at hline
  · rw [List.mem_singleton.mp hline]
    exact fun hc => h (hc.symm.trans hlower)
  · cases hline

theorem values_typeLine_of_ne (r : HttpResponse) {name : String} (h : name ≠ "content-type") :
    Http.values r.typeLine name = [] := by
  have hlower : Http.lowerName "content-type" = "content-type" := by decide +kernel
  refine Http.values_eq_nil fun line hline => ?_
  unfold typeLine at hline
  split at hline
  · obtain ⟨mediaType, -, rfl⟩ := List.mem_map.mp hline
    exact fun hc => h (hc.symm.trans hlower)
  · cases hline

end HttpResponse

/-- The framework that adds the type as it is given. -/
def plainFramework : Framework where
  send r := ⟨r.statusCode, r.headers.items ++ (r.lengthLine ++ r.typeLine), r.content⟩
  send_statusCode _ := rfl
  send_body _ := rfl
  send_given r name h := by
    have hlength : Http.values r.lengthLine name = [] := by
      by_cases hname : name = "content-length"
      · rw [hname] at h ⊢
        rw [HttpResponse.lengthLine, if_neg fun hc => h hc.1]
        rfl
      · exact r.values_lengthLine_of_ne hname
    have htype : Http.values r.typeLine name = [] := by
      by_cases hname : name = "content-type"
      · rw [hname] at h ⊢
        rw [HttpResponse.typeLine, if_neg h]
        rfl
      · exact r.values_typeLine_of_ne hname
    rw [Http.values_append, Http.values_append, hlength, htype, List.append_nil, List.append_nil,
      HttpResponse.given]
  send_length r h := by
    have hlower : Http.lowerName "content-length" = "content-length" := by decide +kernel
    have hgiven : Http.values r.headers.items "content-length" = [] := h
    rw [Http.values_append, Http.values_append, hgiven, List.nil_append,
      r.values_typeLine_of_ne (by decide), List.append_nil, HttpResponse.lengthLine]
    by_cases hbodiless : Bodiless r.statusCode
    · rw [if_neg fun hc => hc.2 hbodiless, if_pos hbodiless]
      rfl
    · rw [if_pos ⟨h, hbodiless⟩, if_neg hbodiless]
      simp [Http.values, hlower]
  send_absent r name h hlength htype := by
    have hgiven : Http.values r.headers.items name = [] := h
    rw [Http.values_append, Http.values_append, hgiven, r.values_lengthLine_of_ne hlength,
      r.values_typeLine_of_ne htype]
    rfl

end Cdn

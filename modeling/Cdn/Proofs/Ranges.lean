/-
Ranges at the edge and at the origin.

Both resolve a range in the same words.  The origin then asks whether anything is left of
it, and names what it sends; the edge asks nothing, and names what was asked for.  So the
two agree where the range lies inside the body, and nowhere else.
-/
import Cdn.Application.RangeRequest
import Cdn.Presentation.OriginRoutes

namespace Cdn

/-- The edge answers, and with the origin's status, bytes and `Content-Range`. -/
def Agrees (edge : Except Exn (Bytes × Int × Headers)) (origin : HttpResponse) : Prop :=
  ∃ content statusCode headers, edge = .ok (content, statusCode, headers) ∧
    statusCode = origin.statusCode ∧ content = origin.content ∧
    headers.get? "Content-Range" = origin.headers.get? "Content-Range"

namespace ByteRange

/-- A range of at least one byte, all of them among `total`; a suffix may ask for more
than there is. -/
def Within (r : ByteRange) (total : Nat) : Prop :=
  match r.start, r.stop with
  | none, some n => 0 < n ∧ 0 < total
  | some a, none => a < total
  | some a, some b => a ≤ b ∧ b < total
  | none, none => 0 < total

instance (r : ByteRange) (total : Nat) : Decidable (r.Within total) := by
  unfold Within
  split <;> infer_instance

/-- Such a range is one that selects something and ends before the body does. -/
theorem within_iff (r : ByteRange) (total : Nat) :
    r.Within total ↔ (r.resolve total).1 ≤ (r.resolve total).2 ∧
      (r.resolve total).1 < total ∧ (r.resolve total).2 ≤ (total : Int) - 1 := by
  obtain ⟨start, stop⟩ := r
  cases start with
  | none =>
      cases stop with
      | none =>
          simp only [Within, resolve, Option.getD_none]
          omega
      | some n =>
          simp only [Within, resolve]
          omega
  | some a =>
      cases stop with
      | none =>
          simp only [Within, resolve]
          omega
      | some b =>
          simp only [Within, resolve, Option.getD_some]
          omega

end ByteRange

/-! ### What the two answer -/

theorem handleRange_ok {header : String} {r : ByteRange} (h : ByteRange.first header = .ok r)
    (content : Bytes) (etag contentType : String) :
    handleRange content header etag contentType =
      let stop := min (r.resolve content.length).2 ((content.length : Int) - 1)
      if (r.resolve content.length).1 > stop ∨ (r.resolve content.length).1 ≥ content.length then
        unsatisfiable content.length
      else partialContent content (r.resolve content.length).1 stop etag contentType := by
  obtain ⟨rest, hheader⟩ := ByteRange.first_eq_ok.mp h
  rw [handleRange, hheader]

theorem servePart_contentRange (r : ByteRange) (response : Response Bytes) :
    (servePart r response).2.2.get? "Content-Range" =
      some (r.contentRange response.content.length) := by
  simp [servePart]

theorem partialContent_contentRange (content : Bytes) (start stop : Int)
    (etag contentType : String) :
    (partialContent content start stop etag contentType).headers.get? "Content-Range" =
      some (ByteRange.rangeText start stop content.length) := rfl

/-- A resource is cut the same way on both sides, and the cut is named the same exactly if
the range ends before the body does. -/
theorem agrees_partialContent (r : ByteRange) (response : Response Bytes)
    (etag contentType : String) :
    Agrees (.ok (servePart r response))
        (partialContent response.content (r.resolve response.content.length).1
          (min (r.resolve response.content.length).2 ((response.content.length : Int) - 1))
          etag contentType) ↔
      (r.resolve response.content.length).2 ≤ (response.content.length : Int) - 1 := by
  constructor
  · rintro ⟨content, statusCode, headers, hedge, -, -, hrange⟩
    have hheaders : headers = (servePart r response).2.2 := by rw [Except.ok.inj hedge]
    rw [hheaders, servePart_contentRange, partialContent_contentRange, Option.some.injEq,
      ByteRange.contentRange, ByteRange.rangeText_inj] at hrange
    rw [hrange]
    exact min_le_right _ _
  · intro hstop
    refine ⟨(servePart r response).1, _, (servePart r response).2.2, rfl, rfl, rfl, ?_⟩
    rw [servePart_contentRange, partialContent_contentRange, Option.some.injEq,
      ByteRange.contentRange, ByteRange.rangeText_inj, min_eq_left hstop]

theorem not_agrees_unsatisfiable (r : ByteRange) (response : Response Bytes) (total : Nat) :
    ¬ Agrees (.ok (servePart r response)) (unsatisfiable total) := by
  rintro ⟨content, statusCode, headers, hedge, hstatus, -, -⟩
  have hpart : 206 = statusCode := congrArg (·.2.1) (Except.ok.inj hedge)
  rw [← hpart] at hstatus
  cases hstatus

/--
**When the edge agrees with the origin.**  For every body that get_or_fetch brings with
status 200, out of the cache or not, and every header: exactly if the header can be parsed
and its first range lies inside the body.
-/
theorem agrees_iff (body : Bytes) (rangeHeader etag contentType : String) (headers : Headers)
    (cacheHit : Bool) :
    Agrees (handleRangeRequest rangeHeader (.ok ⟨body, 200, headers, cacheHit⟩))
        (handleRange body rangeHeader etag contentType) ↔
      ∃ r, ByteRange.first rangeHeader = .ok r ∧ r.Within body.length := by
  cases hfirst : ByteRange.first rangeHeader with
  | error x =>
      refine iff_of_false ?_ ?_
      · rintro ⟨content, statusCode, headers', hedge, -⟩
        rw [handleRangeRequest_error hfirst] at hedge
        cases hedge
      · rintro ⟨r, hr, -⟩
        cases hr
  | ok r =>
      rw [handleRangeRequest_ok hfirst, handleRange_ok hfirst]
      simp only [Except.ok.injEq, exists_eq_left', ByteRange.within_iff]
      split
      · rename_i hempty
        refine iff_of_false (not_agrees_unsatisfiable r _ _) ?_
        omega
      · rename_i hsome
        rw [agrees_partialContent r ⟨body, 200, headers, cacheHit⟩]
        show (r.resolve body.length).2 ≤ (body.length : Int) - 1 ↔ _
        omega

/-- The header asks for what is behind the last byte. -/
theorem disagrees_past : ¬ ∀ (body : Bytes) (rangeHeader etag contentType : String)
    (headers : Headers) (cacheHit : Bool),
    Agrees (handleRangeRequest rangeHeader (.ok ⟨body, 200, headers, cacheHit⟩))
      (handleRange body rangeHeader etag contentType) := by
  intro h
  obtain ⟨content, statusCode, headers, hedge, hstatus, -, -⟩ :=
    h [1, 2, 3] "bytes=3-" "" "text/plain" ∅ true
  have horigin : (handleRange [1, 2, 3] "bytes=3-" "" "text/plain").statusCode = 416 := by
    decide +kernel
  have hstatus' : (handleRangeRequest "bytes=3-" (.ok ⟨[1, 2, 3], 200, ∅, true⟩)).map
      (fun answer => answer.2.1) = .ok 206 := by decide +kernel
  rw [hedge] at hstatus'
  rw [horigin] at hstatus
  cases hstatus.symm.trans (Except.ok.inj hstatus')

end Cdn

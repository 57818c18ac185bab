/-
Range requests at the edge.

The service parses the header before it asks for the resource, so a header that cannot be
parsed raises whatever the cache holds.  `fetched` is how `get_or_fetch` ends: with the
resource, out of the cache or from the origin, or with an exception.
-/
import Cdn.Application.CacheService
import Cdn.Domain.ByteRange

namespace Cdn

/-- `handle_range_request`, once the range and the resource are there. -/
def servePart (byteRange : ByteRange) (r : Response Bytes) : Bytes × Int × Headers :=
  let total := r.content.length
  let (start, stop) := byteRange.resolve total
  let stop := min stop ((total : Int) - 1)
  let part := slice r.content start (stop + 1)
  let headers := r.headers.set "Content-Range" (byteRange.contentRange total)
  let headers := headers.set "Content-Length" (toString part.length)
  (part, 206, headers.set "Accept-Ranges" "bytes")

/-- `handle_range_request`. -/
def handleRangeRequest (rangeHeader : String) (fetched : Except Exn (Response Bytes)) :
    Except Exn (Bytes × Int × Headers) := do
  let byteRange ← ByteRange.first rangeHeader
  let r ← fetched
  return servePart byteRange r

theorem handleRangeRequest_ok {rangeHeader : String} {byteRange : ByteRange}
    (h : ByteRange.first rangeHeader = .ok byteRange) (r : Response Bytes) :
    handleRangeRequest rangeHeader (.ok r) = .ok (servePart byteRange r) := by
  rw [handleRangeRequest, h]
  rfl

theorem handleRangeRequest_error {rangeHeader : String} {x : Exn}
    (h : ByteRange.first rangeHeader = .error x) (fetched : Except Exn (Response Bytes)) :
    handleRangeRequest rangeHeader fetched = .error x := by
  rw [handleRangeRequest, h]
  rfl

end Cdn

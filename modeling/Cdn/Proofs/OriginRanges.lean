/-
What the origin makes of a Range header.

A range asks for some of the positions of a body, and `Asks` says which, without counting
anything back from the end.  The origin counts: it resolves the range, cuts it at the last
byte and looks whether anything is left.  The two come to the same for bodies and ranges of
any size, an empty body and a suffix of no bytes among them.
-/
import Cdn.Presentation.OriginRoutes

namespace Cdn

namespace ByteRange

/-- The range asks for position `i` of a body of `total` bytes: one of the last so many, or
one between its bounds. -/
def Asks (r : ByteRange) (total i : Nat) : Prop :=
  match r.start, r.stop with
  | some a, some b => a ≤ i ∧ i ≤ b
  | some a, none => a ≤ i
  | none, some n => total ≤ i + n
  | none, none => True

instance (r : ByteRange) (total i : Nat) : Decidable (r.Asks total i) :=
  match r with
  | ⟨some _, some _⟩ => inferInstanceAs (Decidable (_ ∧ _))
  | ⟨some _, none⟩ => inferInstanceAs (Decidable (_ ≤ _))
  | ⟨none, some _⟩ => inferInstanceAs (Decidable (_ ≤ _))
  | ⟨none, none⟩ => inferInstanceAs (Decidable True)

/-- The positions asked for are those from the start to the end, cut at the last byte. -/
theorem asks_iff (r : ByteRange) {total i : Nat} : i < total ∧ r.Asks total i ↔
    (r.resolve total).1 ≤ i ∧ (i : Int) ≤ min (r.resolve total).2 ((total : Int) - 1) := by
  obtain ⟨start, stop⟩ := r
  cases start with
  | none =>
      cases stop with
      | none =>
          show i < total ∧ True ↔
            (0 : Int) ≤ i ∧ (i : Int) ≤ min ((total : Int) - 1) ((total : Int) - 1)
          rw [and_true]
          omega
      | some n =>
          simp only [Asks, resolve]
          omega
  | some a =>
      cases stop with
      | none =>
          simp only [Asks, resolve]
          omega
      | some b =>
          simp only [Asks, resolve, Option.getD_some]
          omega

theorem resolve_nonneg (r : ByteRange) (total : Nat) : 0 ≤ (r.resolve total).1 := by
  obtain ⟨start, stop⟩ := r
  cases start with
  | none =>
      cases stop with
      | none => exact Int.le_refl 0
      | some n => exact le_max_right _ _
  | some a =>
      cases stop with
      | none => exact Int.natCast_nonneg a
      | some b => exact Int.natCast_nonneg a

end ByteRange

/-! ### The part that is sent -/

theorem sliceIndex_natCast {length i : Nat} (h : i ≤ length) : sliceIndex length i = i := by
  unfold sliceIndex
  rw [if_neg (by omega)]
  omega

/-- The bytes from `a` to `b`. -/
theorem slice_natCast {content : Bytes} {a b : Nat} (hab : a ≤ b) (hb : b < content.length) :
    slice content a ((b : Int) + 1) = (content.drop a).take (b + 1 - a) := by
  have hstop : sliceIndex content.length ((b : Int) + 1) = b + 1 :=
    sliceIndex_natCast (i := b + 1) (by omega)
  rw [slice, hstop, sliceIndex_natCast (by omega), List.drop_take]

/-- A part of a body: the bytes from `a` to `b`, and headers that say so. -/
structure IsPart (content : Bytes) (a b : Nat) (response : HttpResponse) : Prop where
  statusCode : response.statusCode = 206
  bounds : a ≤ b ∧ b < content.length
  body : response.content = (content.drop a).take (b + 1 - a)
  contentRange : response.headers.get? "Content-Range" =
    some (ByteRange.rangeText a b content.length)
  contentLength : response.headers.get? "Content-Length" = some (toString (b - a + 1))

/-- Nothing is sent but the size of the body. -/
structure IsUnsatisfiable (content : Bytes) (response : HttpResponse) : Prop where
  statusCode : response.statusCode = 416
  body : response.content = []
  contentRange : response.headers.get? "Content-Range" =
    some ("bytes */" ++ toString content.length)

theorem isUnsatisfiable (content : Bytes) :
    IsUnsatisfiable content (unsatisfiable content.length) := ⟨rfl, rfl, rfl⟩

theorem isPart_partialContent {content : Bytes} {a b : Nat} (hab : a ≤ b)
    (hb : b < content.length) (etag contentType : String) :
    IsPart content a b (partialContent content a b etag contentType) where
  statusCode := rfl
  bounds := ⟨hab, hb⟩
  body := slice_natCast hab hb
  contentRange := rfl
  contentLength := by
    have hlength : (slice content a ((b : Int) + 1)).length = b - a + 1 := by
      rw [slice_natCast hab hb, List.length_take, List.length_drop]
      omega
    show some (toString (slice content a ((b : Int) + 1)).length) = _
    rw [hlength]

/-! ### The answer -/

/-- What the origin answers to a header that is accepted: the part that its first range asks
for, if that is anything. -/
theorem handleRange_cases {header : String} {r : ByteRange} {rest : List ByteRange}
    (h : ByteRange.fromHeader header = .ok (r :: rest)) (content : Bytes)
    (etag contentType : String) :
    (∃ a b, IsPart content a b (handleRange content header etag contentType) ∧
      ∀ i, a ≤ i ∧ i ≤ b ↔ i < content.length ∧ r.Asks content.length i) ∨
    (IsUnsatisfiable content (handleRange content header etag contentType) ∧
      ∀ i, i < content.length → ¬ r.Asks content.length i) := by
  have hnonneg := r.resolve_nonneg content.length
  have hasks : ∀ i : Nat, i < content.length ∧ r.Asks content.length i ↔
      (r.resolve content.length).1 ≤ i ∧
        (i : Int) ≤ min (r.resolve content.length).2 ((content.length : Int) - 1) :=
    fun i => r.asks_iff
  have hlast : min (r.resolve content.length).2 ((content.length : Int) - 1) ≤
      (content.length : Int) - 1 := min_le_right _ _
  rw [handleRange, h]
  dsimp only
  generalize (r.resolve content.length).1 = start at *
  generalize min (r.resolve content.length).2 ((content.length : Int) - 1) = stop at *
  split
  · rename_i hempty
    refine Or.inr ⟨isUnsatisfiable content, fun i hi hask => ?_⟩
    have hbetween := (hasks i).mp ⟨hi, hask⟩
    omega
  · rename_i hsome
    obtain ⟨a, rfl⟩ := Int.eq_ofNat_of_zero_le hnonneg
    obtain ⟨b, rfl⟩ : ∃ b : Nat, stop = b := Int.eq_ofNat_of_zero_le (by omega)
    refine Or.inl ⟨a, b, isPart_partialContent (by omega) (by omega) etag contentType, fun i => ?_⟩
    rw [hasks]
    omega

/--
**What the origin makes of a Range header.**  It answers with a part exactly if the header is
accepted and its first range asks for a byte that is there; the part is then what the range
asks for, and its headers say which bytes these are.  Otherwise it answers with the size of
the body.  All that a header can raise is a `ValueError`, which is caught.
-/
theorem handleRange_spec (content : Bytes) (header etag contentType : String) :
    let response := handleRange content header etag contentType
    (response.statusCode = 206 ↔ ∃ r rest, ByteRange.fromHeader header = .ok (r :: rest) ∧
      ∃ i, i < content.length ∧ r.Asks content.length i) ∧
    (response.statusCode = 206 → ∃ r rest a b, ByteRange.fromHeader header = .ok (r :: rest) ∧
      IsPart content a b response ∧
      ∀ i, a ≤ i ∧ i ≤ b ↔ i < content.length ∧ r.Asks content.length i) ∧
    (response.statusCode ≠ 206 → IsUnsatisfiable content response) ∧
    ∀ x, ByteRange.fromHeader header = .error x → x = .value := by
  intro response
  have hraises : ∀ x, ByteRange.fromHeader header = .error x → x = .value :=
    fun x => ByteRange.fromHeader_error
  cases hheader : ByteRange.fromHeader header with
  | error x =>
      have hresponse : response = unsatisfiable content.length := by
        show handleRange content header etag contentType = _
        rw [handleRange, hheader]
      have hstatus : response.statusCode ≠ 206 := by
        rw [hresponse, (isUnsatisfiable content).statusCode]
        decide
      refine ⟨iff_of_false hstatus ?_, fun h => absurd h hstatus, fun _ => ?_, hheader ▸ hraises⟩
      · rintro ⟨r, rest, h, -⟩
        cases h
      · rw [hresponse]
        exact isUnsatisfiable content
  | ok ranges =>
      obtain ⟨r, rest, rfl⟩ := List.exists_cons_of_ne_nil (ByteRange.fromHeader_ne_nil hheader)
      rcases handleRange_cases hheader content etag contentType with ⟨a, b, hpart, hasks⟩ |
        ⟨hnone, hasks⟩
      · refine ⟨iff_of_true hpart.statusCode ⟨r, rest, rfl, a, ?_⟩,
          fun _ => ⟨r, rest, a, b, rfl, hpart, hasks⟩, fun h => absurd hpart.statusCode h,
          hheader ▸ hraises⟩
        exact (hasks a).mp ⟨Nat.le_refl a, hpart.bounds.1⟩
      · have hstatus : response.statusCode ≠ 206 := by rw [hnone.statusCode]; decide
        refine ⟨iff_of_false hstatus ?_, fun h => absurd h hstatus, fun _ => hnone, hheader ▸ hraises⟩
        rintro ⟨r', rest', h, i, hi, hask⟩
        cases h
        exact hasks i hi hask

end Cdn

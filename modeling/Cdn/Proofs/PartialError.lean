/-
Range requests for what there is not.

The service resolves a range in whatever `get_or_fetch` hands it and answers with a part of
that.  It does not look at the status it is handed: the text of an error is cut up like a
file, and the client is told that it has got a part of one.
-/
import Cdn.Application.RangeRequest
import Cdn.Proofs.OriginRanges
import Cdn.Proofs.Served

namespace Cdn

namespace ByteRange

/-- A part never ends before its body begins. -/
theorem resolve_end_nonneg (r : ByteRange) (total : Nat) :
    0 ≤ min (r.resolve total).2 ((total : Int) - 1) + 1 := by
  have hend : -1 ≤ (r.resolve total).2 := by
    obtain ⟨start, stop⟩ := r
    cases stop with
    | none =>
        have hlast : -1 ≤ (total : Int) - 1 := by omega
        cases start with
        | none => exact hlast
        | some a => exact hlast
    | some b =>
        cases start with
        | none =>
            show -1 ≤ (total : Int) - 1
            omega
        | some a =>
            show -1 ≤ (b : Int)
            omega
  omega

end ByteRange

theorem length_slice_natCast {content : Bytes} {a b : Nat} (hb : b ≤ content.length) :
    (slice content a b).length = b - a := by
  rw [slice, sliceIndex_natCast hb, List.length_drop, List.length_take, Nat.min_eq_left hb]
  unfold sliceIndex
  rw [if_neg (by omega)]
  omega

/-- A part of a body is the whole of it if it leaves out nothing at either end. -/
theorem slice_eq_self_iff {content : Bytes} {a b : Nat} (hb : b ≤ content.length) :
    slice content a b = content ↔ ∀ i < content.length, a ≤ i ∧ i < b := by
  constructor
  · intro h i hi
    have hlength := congrArg List.length h
    rw [length_slice_natCast hb] at hlength
    omega
  · intro h
    by_cases hempty : content.length = 0
    · rw [List.eq_nil_of_length_eq_zero hempty, slice, List.take_nil, List.drop_nil]
    · have hfirst := h 0 (by omega)
      have hlast := h (content.length - 1) (by omega)
      have ha : a = 0 := by omega
      have hwhole : b = content.length := by omega
      rw [slice, sliceIndex_natCast hb, ha, sliceIndex_natCast (Nat.zero_le _), hwhole,
        List.take_length, List.drop_zero]

/-- The part is the whole body exactly if the range asks for all of it. -/
theorem servePart_eq_content {byteRange : ByteRange} {r : Response Bytes} :
    (servePart byteRange r).1 = r.content ↔
      ∀ i < r.content.length, byteRange.Asks r.content.length i := by
  have hasks : ∀ i : Nat, i < r.content.length ∧ byteRange.Asks r.content.length i ↔
      (byteRange.resolve r.content.length).1 ≤ i ∧
        (i : Int) ≤ min (byteRange.resolve r.content.length).2 ((r.content.length : Int) - 1) :=
    fun i => byteRange.asks_iff
  have hstart := byteRange.resolve_nonneg r.content.length
  have hend := byteRange.resolve_end_nonneg r.content.length
  have hlast : min (byteRange.resolve r.content.length).2 ((r.content.length : Int) - 1) ≤
      (r.content.length : Int) - 1 := min_le_right _ _
  show slice r.content (byteRange.resolve r.content.length).1
    (min (byteRange.resolve r.content.length).2 ((r.content.length : Int) - 1) + 1) = r.content ↔ _
  generalize (byteRange.resolve r.content.length).1 = start at *
  generalize min (byteRange.resolve r.content.length).2 ((r.content.length : Int) - 1) = stop at *
  obtain ⟨a, rfl⟩ := Int.eq_ofNat_of_zero_le hstart
  obtain ⟨b, hb⟩ := Int.eq_ofNat_of_zero_le hend
  rw [hb, slice_eq_self_iff (by omega)]
  constructor
  · intro h i hi
    have hbetween := h i hi
    exact ((hasks i).mpr (by omega)).2
  · intro h i hi
    have hbetween := (hasks i).mp ⟨hi, h i hi⟩
    omega

/-! ### Errors -/

/-- What `get_or_fetch` ends with is passed on, status and body, unless it is the resource. -/
def PassesOn (rangeHeader : String) (fetched : Except Exn (Response Bytes)) : Prop :=
  ∀ r, fetched = .ok r → r.statusCode ≠ 200 →
    ∃ headers, handleRangeRequest rangeHeader fetched = .ok (r.content, r.statusCode, headers)

/--
**What becomes of an error.**  A range request passes on what it is handed only if that is
the resource, or a partial answer already of which the range asks for every byte.  So an
error never gets through, wherever it comes from: out of the cache, from the origin or from
the open circuit.
-/
theorem passesOn_iff {rangeHeader : String} {byteRange : ByteRange}
    (h : ByteRange.first rangeHeader = .ok byteRange) (fetched : Except Exn (Response Bytes)) :
    PassesOn rangeHeader fetched ↔ ∀ r, fetched = .ok r → r.statusCode ≠ 200 →
      r.statusCode = 206 ∧ ∀ i < r.content.length, byteRange.Asks r.content.length i := by
  refine forall_congr' fun r => forall_congr' fun hr => forall_congr' fun _ => ?_
  rw [hr, handleRangeRequest_ok h, ← servePart_eq_content]
  constructor
  · rintro ⟨headers, hpart⟩
    rw [Except.ok.injEq] at hpart
    have hstatus : (206 : Int) = r.statusCode := by
      have hsecond : (servePart byteRange r).2.1 = r.statusCode := by rw [hpart]
      exact hsecond
    exact ⟨hstatus.symm, by rw [hpart]⟩
  · rintro ⟨hstatus, hcontent⟩
    refine ⟨(servePart byteRange r).2.2, congrArg Except.ok ?_⟩
    exact Prod.ext hcontent (Prod.ext hstatus.symm rfl)

/-! ### A file that is not there -/

/-- The origin has no such file, and says so. -/
def missingReceived : Http.Received :=
  ⟨404, Dict.ofList [("content-type", "text/plain")], utf8 "Not Found"⟩

def missingReply : Reply Bytes :=
  .fetched ⟨utf8 "Not Found", 404, missingReceived.headers, false⟩

/-- The header is a range, and the edge fetches and returns the origin's word. -/
theorem missing_spec :
    ByteRange.fromHeader "bytes=0-2" = .ok [⟨some 0, some 2⟩] ∧
    (Lts.run (Edge.step plainService) (Edge.start { maxSizeBytes := 100000 } {} 0 0)
      (missRun missingReceived)).isSome = true ∧
    ((missReached missingReceived).tasks[0]?).map (·.phase) = some (.returned missingReply) := by
  decide +kernel

theorem first_missing : ByteRange.first "bytes=0-2" = .ok ⟨some 0, some 2⟩ :=
  ByteRange.first_eq_ok.mpr ⟨[], missing_spec.1⟩

theorem passesOn_iff_missing :
    PassesOn "bytes=0-2" (.ok (missingReply.response plainService)) ↔
      ∀ r, Except.ok (missingReply.response plainService) = (.ok r : Except Exn _) →
        r.statusCode ≠ 200 → r.statusCode = 206 ∧
          ∀ i < r.content.length, ByteRange.Asks ⟨some 0, some 2⟩ r.content.length i :=
  passesOn_iff first_missing _

/-- The first bytes of the file are asked for, and the client gets the first bytes of the
origin's word that there is no file, as a part of it. -/
theorem notPassesOn_missing : ¬ ∀ (E : Setup Bytes) (maxSizeBytes : Int) (p : List (Action Bytes))
    (s : Edge Bytes) (t : Nat) (call : Call Bytes) (reply : Reply Bytes) (rangeHeader : String),
    Lts.run (Edge.step E) (Edge.start { maxSizeBytes } {} 0 0) p = some s →
    s.tasks[t]? = some ⟨call, .returned reply⟩ →
    (∃ byteRange, ByteRange.first rangeHeader = .ok byteRange) →
    PassesOn rangeHeader (.ok (reply.response E)) := by
  intro h
  obtain ⟨call, ht⟩ := exists_call missing_spec.2.2
  obtain ⟨headers, hpart⟩ := h plainService 100000 (missRun missingReceived)
    (missReached missingReceived) 0 call missingReply "bytes=0-2" (Lts.run_last missing_spec.2.1)
    ht ⟨_, first_missing⟩ _ rfl (by decide)
  rw [handleRangeRequest_ok first_missing] at hpart
  have hstatus : (206 : Int) = 404 := congrArg (fun part => part.2.1) (Except.ok.inj hpart)
  exact absurd hstatus (by decide)

end Cdn

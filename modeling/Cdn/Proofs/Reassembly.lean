/-
A download that is resumed.

A client that has lost a connection asks for the rest of a file, and puts together what it has.
It may do so where the parts came with one tag and lie end to end in the bytes that their headers
name.  In between the file may have been written over and put back, the entry may have been
filed anew, called good or purged, and the parts may have been cut out of different entries; but
where the digest tells files apart, one tag is one content, and the edge cuts what it says.  So
what is put together is a file, as it stood at one moment.
-/
import Cdn.Proofs.AfterPurge
import Cdn.Proofs.Ranges
import Cdn.Proofs.OriginRanges

namespace Cdn

/-! ### Pieces end to end -/

/-- The bytes from the first to the last position that a header names. -/
structure Piece where
  first : Nat
  last : Nat
  bytes : Bytes

namespace Piece

/-- The pieces lie end to end from one position up to another. -/
inductive Spans : Nat → List Piece → Nat → Prop where
  | nil (a : Nat) : Spans a [] a
  | cons {a b : Nat} {x : Piece} {rest : List Piece} (hfirst : x.first = a)
      (hordered : a ≤ x.last) (hrest : Spans (x.last + 1) rest b) : Spans a (x :: rest) b

/-- The piece is what stands there in a content. -/
def In (x : Piece) (content : Bytes) : Prop :=
  x.bytes = (content.drop x.first).take (x.last + 1 - x.first)

variable {a b : Nat} {pieces : List Piece} {content : Bytes}

theorem Spans.le (h : Spans a pieces b) : a ≤ b := by
  induction h with
  | nil => exact le_rfl
  | cons hfirst hordered hrest ih => omega

/-- A piece ends before all of them do. -/
theorem Spans.bounds (h : Spans a pieces b) : ∀ x ∈ pieces, x.first ≤ x.last ∧ x.last < b := by
  induction h with
  | nil => intro x hx; cases hx
  | cons hfirst hordered hrest ih =>
      intro x hx
      rcases List.mem_cons.mp hx with rfl | hx
      · have hle := hrest.le
        omega
      · exact ih x hx

/-- **Pieces of a content that lie end to end, put together.** -/
theorem Spans.flatMap_bytes (h : Spans a pieces b) (hin : ∀ x ∈ pieces, x.In content) :
    pieces.flatMap (·.bytes) = (content.drop a).take (b - a) := by
  induction h with
  | nil => simp
  | @cons a b x rest hfirst hordered hrest ih =>
      subst hfirst
      have hle := hrest.le
      have hhere : x.bytes = (content.drop x.first).take (x.last + 1 - x.first) :=
        hin x List.mem_cons_self
      have hthere : content.drop (x.last + 1) =
          (content.drop x.first).drop (x.last + 1 - x.first) := by
        rw [List.drop_drop]
        congr 1
        omega
      have hsum : b - x.first = (x.last + 1 - x.first) + (b - (x.last + 1)) := by omega
      rw [List.flatMap_cons, ih fun y hy => hin y (List.mem_cons_of_mem x hy), hhere, hthere, hsum,
        List.take_add]

end Piece

/-! ### What is cut out of a response -/

theorem quoted_inj {a b : String} (h : quoted a = quoted b) : a = b := by
  rw [quoted, quoted, String.append_left_inj, String.append_right_inj] at h
  exact h

theorem servePart_get? (r : ByteRange) (response : Response Bytes) {name : String}
    (hname : name ∉ ["Content-Range", "Content-Length", "Accept-Ranges"]) :
    (servePart r response).2.2.get? name = response.headers.get? name := by
  simp only [List.mem_cons, List.not_mem_nil, or_false, not_or] at hname
  simp [servePart, hname]

/-- **A part that says it lies inside is what it says:** the bytes from the one position to the
other, of a body that has as many bytes as it names. -/
theorem servePart_piece {r : ByteRange} {response : Response Bytes} {x : Piece} {total : Nat}
    (hordered : x.first ≤ x.last) (hinside : x.last < total)
    (hrange : (servePart r response).2.2.get? "Content-Range" =
      some (ByteRange.rangeText x.first x.last total))
    (hbytes : (servePart r response).1 = x.bytes) :
    response.content.length = total ∧ x.In response.content := by
  obtain ⟨start, hstart⟩ := Int.eq_ofNat_of_zero_le (r.resolve_nonneg response.content.length)
  rw [servePart_contentRange, Option.some.injEq] at hrange
  replace hrange : ByteRange.rangeText (r.resolve response.content.length).1
      (r.resolve response.content.length).2 response.content.length =
    ByteRange.rangeText x.first x.last total := hrange
  rw [hstart, ByteRange.rangeText_eq_iff] at hrange
  obtain ⟨rfl, hstop, hlength⟩ := hrange
  refine ⟨hlength, ?_⟩
  rw [← hlength] at hinside
  rw [Piece.In, ← hbytes, ← slice_natCast hordered hinside]
  have hmin : min (r.resolve response.content.length).2 ((response.content.length : Int) - 1) =
      x.last := by
    rw [hstop]
    exact min_eq_left (by omega)
  show slice response.content (r.resolve response.content.length).1
    (min (r.resolve response.content.length).2 ((response.content.length : Int) - 1) + 1) = _
  rw [hstart, hmin]

namespace Deployment

variable {D : Setup} {path tag : String} {total : Nat} {s : Deployment}

/-! ### What is shown carries its tag -/

/-- The answer is tagged, and the tag is what a client reads in the headers. -/
def Labelled (D : Setup) (r : OriginResponse Bytes) : Prop :=
  Tagged D.origin.md5 r ∧ r.headers.get? "etag" = r.etag

theorem Seen.labels {a : Action} {b : Cdn.Action Bytes} (h : Seen D s a b) :
    Edge.Supplies (Labelled D) s.edge b := by
  rintro t r rfl τ hτ
  refine (h.supplies t r rfl τ hτ).imp_left fun htagged => ⟨htagged, ?_⟩
  obtain ⟨call, phase, received, -, -, rfl⟩ := h.attempted
  rfl

/-- Every entry and everything returned carries its tag. -/
theorem labelled_run {maxSizeBytes : Int} {breaker : CircuitBreaker} {wall mono : Time}
    {files : Files} {p : List Action}
    (hrun : Lts.run (step D) (start maxSizeBytes breaker wall mono files) p = some s) :
    Edge.Sourced (Labelled D) D.service s.edge :=
  sourced_of_supplies Seen.labels hrun

/-! ### What a client has got -/

/-- A part of a path that a client has been sent, with its headers. -/
def Got (D : Setup) (s : Deployment) (path : String) (part : Bytes) (headers : Headers) : Prop :=
  ∃ τ ∈ s.edge.tasks, ∃ reply rangeHeader, τ.call.path = path ∧ τ.phase = .returned reply ∧
    handleRangeRequest rangeHeader (.ok (reply.response D.service)) = .ok (part, 206, headers)

/-- The client has been sent this piece, under this tag and out of so many bytes. -/
def Holding (D : Setup) (s : Deployment) (path tag : String) (total : Nat) (x : Piece) : Prop :=
  ∃ headers, Got D s path x.bytes headers ∧ headers.get? "etag" = some tag ∧
    headers.get? "Content-Range" = some (ByteRange.rangeText x.first x.last total)

/-- **A piece that lies inside is of a content that has stood in the files**, and that the tag
is the digest of. -/
theorem Holding.of_content {P : Shown Bytes → Prop} {x : Piece}
    (hsourced : Edge.Sourced (Labelled D) D.service s.edge) (since : Since D P path 0 s)
    (h : Holding D s path tag total x) (hordered : x.first ≤ x.last) (hinside : x.last < total) :
    ∃ content, P (content, 200) ∧ quoted (D.origin.md5 content) = tag ∧ content.length = total ∧
      x.In content := by
  obtain ⟨headers, ⟨τ, hτ, reply, rangeHeader, hpath, hphase, hpart⟩, htag, hrange⟩ := h
  obtain ⟨t, ht⟩ := List.mem_iff_getElem?.mp hτ
  cases hfirst : ByteRange.first rangeHeader with
  | error x => rw [handleRangeRequest_error hfirst] at hpart; cases hpart
  | ok r =>
      rw [handleRangeRequest_ok hfirst, Except.ok.injEq] at hpart
      have hbytes : (servePart r (reply.response D.service)).1 = x.bytes := by rw [hpart]
      obtain rfl : (servePart r (reply.response D.service)).2.2 = headers := by rw [hpart]
      rw [servePart_get? r _ (by decide)] at htag
      -- the service's own answer has no tag
      have hown : reply.own = false := by
        cases reply with
        | openEmpty => cases htag
        | rejectedEmpty => cases htag
        | _ => rfl
      obtain ⟨source, ⟨htagged, hetag⟩, hcontent, hstatus, hheaders⟩ :=
        (hsourced.tasks τ hτ).returned reply hphase hown
      rw [hheaders, hetag] at htag
      obtain ⟨hok, hdigest⟩ := htagged.resolve_right fun hnone => by
        rw [hnone.2] at htag
        cases htag
      have hshown := (since.only.later t τ ht hpath (Nat.zero_le t)).returned reply hphase hown
      obtain ⟨hlength, hin⟩ := servePart_piece hordered hinside hrange hbytes
      refine ⟨(reply.response D.service).content, ?_, ?_, hlength, hin⟩
      · rwa [Response.shown, hstatus, hok] at hshown
      · rw [hcontent]
        exact Option.some.inj (hdigest.symm.trans htag)

/--
**What is put together is a file.**  If the pieces that a client holds under one tag lie end to
end from the first byte to the last, then put together they are what stood under the path at some
moment of the run.
-/
theorem reassembled_of_run (D : Setup) (hinj : Function.Injective D.origin.md5)
    (hhex : ∀ content, '"' ∉ (D.origin.md5 content).toList) (maxSizeBytes : Int)
    (breaker : CircuitBreaker) (wall mono : Time) (files : Files) (p : List Action) (s : Deployment)
    (hsteps : Lts.EachStep (step D) (Meets D (Edge.Unforged D.service))
      (start maxSizeBytes breaker wall mono files) p)
    (hrun : Lts.run (step D) (start maxSizeBytes breaker wall mono files) p = some s)
    (path tag : String) (total : Nat) (pieces : List Piece) (hne : pieces ≠ [])
    (hheld : ∀ x ∈ pieces, Holding D s path tag total x) (hspans : Piece.Spans 0 pieces total) :
    ∃ u, Lts.Visits (step D) (start maxSizeBytes breaker wall mono files) p u ∧
      fileAt D u.files path = some (pieces.flatMap (·.bytes)) := by
  let P : Shown Bytes → Prop := fun v =>
    ∃ u, Lts.Visits (step D) (start maxSizeBytes breaker wall mono files) p u ∧
      Stands D u.files path v
  have since : Since D P path 0 s :=
    Lts.run_guarded (I := Since D P path 0)
      (fun s a s' since hcond hstep =>
        since_step hinj hhex since (fun v hv => ⟨s, hcond.1, hv⟩) hcond.2 hstep) p
      (since_start maxSizeBytes breaker wall mono files) ((Lts.eachStep_visits _ p).and hsteps) hrun
  have hof : ∀ x ∈ pieces, ∃ content, P (content, 200) ∧ quoted (D.origin.md5 content) = tag ∧
      content.length = total ∧ x.In content := fun x hx =>
    (hheld x hx).of_content (labelled_run hrun) since (hspans.bounds x hx).1 (hspans.bounds x hx).2
  obtain ⟨x, hx⟩ := List.exists_mem_of_ne_nil pieces hne
  obtain ⟨content, ⟨u, hvisits, hstands⟩, htag, hlength, -⟩ := hof x hx
  have hin : ∀ y ∈ pieces, y.In content := by
    intro y hy
    obtain ⟨content', -, htag', -, hin⟩ := hof y hy
    rwa [hinj (quoted_inj (htag'.trans htag.symm))] at hin
  have hbytes : pieces.flatMap (·.bytes) = content := by
    rw [hspans.flatMap_bytes hin, List.drop_zero, Nat.sub_zero, ← hlength, List.take_length]
  refine ⟨u, hvisits, ?_⟩
  rw [hbytes]
  rcases hstands with ⟨content', hfile, hshown⟩ | ⟨-, hstatus⟩
  · rw [(Prod.mk.inj hshown).1]
    exact hfile
  · exact absurd hstatus (show (200 : Int) ∉ [403, 404, 500] by decide)

/-! ### A download that goes on after a write -/

/-- A file of two bytes is asked for, written over, and asked for again. -/
def resumed : List Action :=
  [.write sampleFile (some (utf8 "12")), .edge (.arrive "a" none), .serve 0 [], .edge (.resume 0),
    .write sampleFile (some (utf8 "3")), .edge (.tick 50 50), .edge (.arrive "a" none)]

/-- The two bytes, each by a request of its own. -/
def resumedPieces : List Piece := [⟨0, 0, utf8 "1"⟩, ⟨1, 1, utf8 "2"⟩]

/-- What the task has returned, cut as a client asks for it. -/
def cutOf (D : Setup) (rangeHeader : String) : Phase Bytes → Option (Bytes × Int × Headers)
  | .returned reply => (handleRangeRequest rangeHeader (.ok (reply.response D.service))).toOption
  | _ => none

theorem holding_of_cutOf (t : Nat) (rangeHeader : String) {x : Piece}
    (h : (s.edge.tasks[t]?).any (fun τ => τ.call.path = path ∧
      (cutOf D rangeHeader τ.phase).any fun cut => cut.1 = x.bytes ∧ cut.2.1 = 206 ∧
        cut.2.2.get? "etag" = some tag ∧
        cut.2.2.get? "Content-Range" = some (ByteRange.rangeText x.first x.last total)) = true) :
    Holding D s path tag total x := by
  obtain ⟨⟨call, phase⟩, hτ, hcut⟩ := (Option.any_eq_true _ _).mp h
  obtain ⟨hpath, hcut⟩ := of_decide_eq_true hcut
  obtain ⟨⟨part, statusCode, headers⟩, hpart, hcut⟩ := (Option.any_eq_true _ _).mp hcut
  obtain ⟨rfl, rfl, htag, hrange⟩ := of_decide_eq_true hcut
  cases phase with
  | returned reply =>
      refine ⟨headers, ⟨_, List.mem_of_getElem? hτ, reply, rangeHeader, hpath, rfl, ?_⟩, htag,
        hrange⟩
      replace hpart : (handleRangeRequest rangeHeader
        (.ok (reply.response D.service))).toOption = some (x.bytes, 206, headers) := hpart
      cases hanswer : handleRangeRequest rangeHeader (.ok (reply.response D.service)) with
      | error x => rw [hanswer] at hpart; cases hpart
      | ok answer => rw [hanswer] at hpart; exact congrArg _ (Option.some.inj hpart)
  | _ => cases hpart

/-- The second byte is cut out of the entry when the file holds neither of them any more. -/
theorem reassembled_of_run_resumed : ∃ s,
    Lts.run (step sampleDeployment) sampleStart resumed = some s ∧
      fileAt sampleDeployment s.files "a" = some (utf8 "3") ∧
      ∃ u, Lts.Visits (step sampleDeployment) sampleStart resumed u ∧
        fileAt sampleDeployment u.files "a" = some (resumedPieces.flatMap (·.bytes)) := by
  let s := Lts.last (step sampleDeployment) sampleStart resumed
  let tag := quoted (sampleMd5 (utf8 "12"))
  have hrun : (Lts.run (step sampleDeployment) sampleStart resumed).isSome = true := by
    decide +kernel
  have hcheck : Lts.checkEach (step sampleDeployment) steady sampleStart resumed = true := by
    decide +kernel
  have hfile : fileAt sampleDeployment s.files "a" = some (utf8 "3") := by decide +kernel
  have hfirst : Holding sampleDeployment s "a" tag 2 ⟨0, 0, utf8 "1"⟩ :=
    holding_of_cutOf 0 "bytes=0-0" (by decide +kernel)
  have hsecond : Holding sampleDeployment s "a" tag 2 ⟨1, 1, utf8 "2"⟩ :=
    holding_of_cutOf 1 "bytes=1-" (by decide +kernel)
  refine ⟨s, Lts.run_last hrun, hfile, ?_⟩
  exact reassembled_of_run sampleDeployment sampleMd5_injective quote_not_mem_sampleMd5 _ _ _ _ _
    resumed s (Lts.eachStep_of_check (fun _ _ h b hb => (steady_sound h b hb).2.2) hcheck)
    (Lts.run_last hrun) "a" tag 2 resumedPieces (by decide)
    (by simpa [resumedPieces] using ⟨hfirst, hsecond⟩)
    (.cons rfl le_rfl (.cons rfl le_rfl (.nil 2)))

end Deployment

end Cdn

/-
An edge in front of the origin is up to date.

The origin shows the file that it finds under a path, or refuses.  An edge that is not told how
long to keep an answer keeps it for its default lifetime, and asks again with the tag of what it
has; so what it returns stood in the origin's files no longer ago than that lifetime and the time
a call takes.  Files may be written, deleted and put back at any moment in between.
-/
import Cdn.Proofs.Staleness
import Cdn.Proofs.Validation

namespace Cdn

open Past (Between History)
open Paths

namespace Deployment

variable {D : Setup} {files : Files} {call : Call Bytes} {s s' : Deployment} {a : Action}

/-- With these files the path has this body and this status. -/
def Stands (D : Setup) (files : Files) (path : String) (v : Shown Bytes) : Prop :=
  (∃ content, fileAt D files path = some content ∧ v = (content, 200)) ∨
    fileAt D files path = none ∧ v.2 ∈ [(403 : Int), 404, 500]

/-- What has stood in the files during a run, and when. -/
def standing (D : Setup) (s₀ : Deployment) (p : List Action) : History Time String (Shown Bytes) :=
  fun t path v => ∃ u, Lts.Visits (step D) s₀ p u ∧ u.edge.wall = t ∧ Stands D u.files path v

/-- What the edge sees of a step meets a condition. -/
def Meets (D : Setup) (C : Edge Bytes → Cdn.Action Bytes → Prop) (s : Deployment) (a : Action) :
    Prop := ∀ b, Seen D s a b → C s.edge b

/-! ### What an answer tells -/

/-- What the origin puts into the headers of its answers, and the framework. -/
theorem get?_of_attempt {r : Http.Received} {name : String}
    (h : attempt D files call = .response r)
    (hname : name ∉ ["etag", "content-length", "accept-ranges", "content-type"]) :
    r.headers.get? name = none := by
  have hresponds := responds D files call
  unfold attempt at h
  generalize hresponse : respond D files call = response at hresponds h
  have hplain : ∀ name ∉ ["etag", "content-length", "accept-ranges"], response.given name = [] :=
    fun name => given_responds hresponds
  rw [D.framework.receive_send response D.codec (hplain _ (by decide))] at h
  cases h
  show (D.framework.send response).headers.get? name = none
  simp only [List.mem_cons, List.not_mem_nil, or_false, not_or] at hname
  rw [D.framework.get?_headers_send response hname.2.1 hname.2.2.2,
    hplain _ (by simp [hname.1, hname.2.1, hname.2.2.1])]
  rfl

/-- **An answer tells what stands in the files:** by what it carries, or by the entry that it
calls good. -/
theorem Heard.stands {r : OriginResponse Bytes} (hinj : Function.Injective D.origin.md5)
    (hhex : ∀ content, '"' ∉ (D.origin.md5 content).toList)
    (hread : ∀ e, call.cached = some e → Tagged D.origin.md5 e.source)
    (h : Heard D files call r) (hdirectives : directivesOf r.headers = .ok {}) :
    Stands D files call.path (call.told r) := by
  have hcache : cacheable r = true := by rw [cacheable_eq hdirectives]; rfl
  rw [Call.told, if_pos hcache]
  cases h with
  | notModified hfile hcached htag hmatch hstatus =>
      obtain ⟨hok, hcontent⟩ := content_of_match hinj hhex (hread _ hcached) htag hmatch
      have hrefreshes : call.refreshes? r = some _ := (if_pos hstatus).trans hcached
      rw [hrefreshes]
      exact Or.inl ⟨_, hfile, Prod.ext hcontent hok⟩
  | full hfile hcontent hstatus htag =>
      have hrefreshes : call.refreshes? r = none := if_neg (by rw [hstatus]; decide)
      rw [hrefreshes]
      exact Or.inl ⟨_, hfile, Prod.ext hcontent hstatus⟩
  | refused hfile hstatus htag =>
      have hrefreshes : call.refreshes? r = none := if_neg fun hc => by
        rw [hc] at hstatus
        exact absurd hstatus (by decide)
      rw [hrefreshes]
      exact Or.inr ⟨hfile, hstatus⟩

/-- Without a word about caching an answer grants the default lifetime. -/
theorem grants_default {S : Cdn.Setup Bytes} {r : OriginResponse Bytes}
    (hdirectives : directivesOf r.headers = .ok {}) : Grants S (max 0 S.defaultTtl) r := by
  intro d ttl swr hd httl hswr
  rw [hdirectives] at hd
  cases hd
  cases httl
  cases hswr
  rw [add_zero]
  exact le_max_right 0 S.defaultTtl

/-- An answer that the edge sees is what the origin makes of the files. -/
theorem Seen.attempted {t : Nat} {r : OriginResponse Bytes}
    (h : Seen D s a (.answer t (.answered r))) :
    ∃ call phase received, s.edge.tasks[t]? = some ⟨call, phase⟩ ∧
      attempt D s.files call = .response received ∧ r = OriginClient.originResponse received := by
  generalize hb : Cdn.Action.answer t (.answered r) = b at h
  cases h with
  | edge ha => exact absurd hb.symm (ha t _)
  | fail => cases hb
  | @serve u retried call phase hretried hleft ht =>
      obtain ⟨rfl, hfetch⟩ : t = u ∧
          FetchOutcome.answered r = OriginClient.fetch (retried ++ [attempt D s.files call]) := by
        simpa using hb
      obtain ⟨received, hattempt, -, -⟩ := heard D s.files call
      rw [hattempt] at hfetch
      obtain ⟨r', hr', hlt, rfl⟩ := OriginClient.fetch_answered hfetch.symm
      rcases List.mem_append.mp hr' with hmem | hmem
      · exact absurd hlt (not_lt.mpr (hretried _ hmem))
      · cases List.mem_singleton.mp hmem
        exact ⟨call, phase, received, ht, hattempt, rfl⟩

/-- **What an answer tells stands in the files** as they are then. -/
theorem Seen.stands (hinj : Function.Injective D.origin.md5)
    (hhex : ∀ content, '"' ∉ (D.origin.md5 content).toList)
    (hread : ∀ call ∈ s.edge.calls, ∀ e, call.cached = some e → Tagged D.origin.md5 e.source)
    {t : Nat} {r : OriginResponse Bytes} (h : Seen D s a (.answer t (.answered r)))
    {τ : Task Bytes} (hτ : s.edge.tasks[t]? = some τ) :
    Stands D s.files τ.call.path (τ.call.told r) ∧ r.headers.get? "vary" = none ∧
      directivesOf r.headers = .ok {} := by
  obtain ⟨call, phase, received, ht, hattempt, rfl⟩ := h.attempted
  rw [ht, Option.some.injEq] at hτ
  subst hτ
  obtain ⟨received', hattempt', hheard, hdirectives⟩ := heard D s.files call
  obtain rfl : received = received' := by
    rw [hattempt] at hattempt'
    cases hattempt'
    rfl
  exact ⟨hheard.stands hinj hhex (hread call (Edge.mem_calls ht)) hdirectives,
    get?_of_attempt hattempt (by decide), hdirectives⟩

/-- The origin is truthful of a history in which its files are written down. -/
theorem Seen.truthful {H : History Time String (Shown Bytes)} {b : Cdn.Action Bytes}
    (hinj : Function.Injective D.origin.md5)
    (hhex : ∀ content, '"' ∉ (D.origin.md5 content).toList)
    (hread : ∀ call ∈ s.edge.calls, ∀ e, call.cached = some e → Tagged D.origin.md5 e.source)
    (hbegan : ∀ τ ∈ s.edge.tasks, τ.call.began ≤ s.edge.wall)
    (hnow : ∀ path v, Stands D s.files path v → H s.edge.wall path v) (h : Seen D s a b) :
    Edge.Truthful D.service H (max 0 D.service.defaultTtl) 0 s.edge b := by
  rintro t r rfl τ hτ
  obtain ⟨hstands, hvary, hdirectives⟩ := h.stands hinj hhex hread hτ
  refine ⟨(Between.now (hnow _ _ hstands)).widen ?_ le_rfl, hvary, grants_default hdirectives⟩
  rw [sub_zero]
  exact hbegan _ (List.mem_of_getElem? hτ)

/-- What the calls have read is tagged. -/
theorem read_of_sourced (h : Edge.Sourced (Tagged D.origin.md5) D.service s.edge) :
    ∀ call ∈ s.edge.calls, ∀ e, call.cached = some e → Tagged D.origin.md5 e.source := by
  intro call hcall
  obtain ⟨τ, hτ, rfl⟩ := List.mem_map.mp hcall
  exact (h.tasks τ hτ).read

/-! ### Every run -/

/-- The calls have read what is tagged, and what is shown stood in the files not long ago. -/
structure Kept (D : Setup) (H : History Time String (Shown Bytes)) (L : Time) (s : Deployment) :
    Prop where
  sourced : Edge.Sourced (Tagged D.origin.md5) D.service s.edge
  dated : Edge.Dated D.service H (max 0 D.service.defaultTtl) 0 L s.edge

theorem kept_start {H : History Time String (Shown Bytes)} {L : Time} (maxSizeBytes : Int)
    (breaker : CircuitBreaker) (wall mono : Time) (files : Files) :
    Kept D H L (start maxSizeBytes breaker wall mono files) where
  sourced := Edge.sourced_start maxSizeBytes breaker wall mono
  dated := Edge.dated_start maxSizeBytes breaker wall mono

theorem kept_step {H : History Time String (Shown Bytes)} {L : Time}
    (hinj : Function.Injective D.origin.md5)
    (hhex : ∀ content, '"' ∉ (D.origin.md5 content).toList) (kept : Kept D H L s)
    (hnow : ∀ path v, Stands D s.files path v → H s.edge.wall path v)
    (hmeets : Meets D (fun s b => Edge.Timely L s b ∧ Edge.Forward s b ∧
      Edge.Unforged D.service s b) s a)
    (hstep : s.step D a = some s') : Kept D H L s' := by
  rcases step_cases hstep with ⟨b, hseen, hedge, -⟩ | ⟨hedge, -⟩
  · obtain ⟨htimely, hforward, hforge⟩ := hmeets b hseen
    have htruth := hseen.truthful hinj hhex (read_of_sourced kept.sourced)
      (fun τ hτ => (kept.dated.tasks τ hτ).began) hnow
    exact ⟨Edge.sourced_step kept.sourced hseen.supplies hedge,
      Edge.dated_step (le_max_left 0 _) kept.dated hedge htruth htimely hforward hforge⟩
  · exact ⟨hedge ▸ kept.sourced, hedge ▸ kept.dated⟩

/-- **What the edge returns stood in the origin's files** no more than its default lifetime, and
`L`, before the call began, where calls take no more than `L`.  A refusal is remembered as long
as a file. -/
theorem stood_of_run (D : Setup) (hinj : Function.Injective D.origin.md5)
    (hhex : ∀ content, '"' ∉ (D.origin.md5 content).toList) (L : Time) (maxSizeBytes : Int)
    (breaker : CircuitBreaker) (wall mono : Time) (files : Files) (p : List Action) (s : Deployment)
    (hsteps : Lts.EachStep (step D) (Meets D fun s b => Edge.Timely L s b ∧ Edge.Forward s b ∧
      Edge.Unforged D.service s b) (start maxSizeBytes breaker wall mono files) p)
    (hrun : Lts.run (step D) (start maxSizeBytes breaker wall mono files) p = some s) :
    ∀ τ ∈ s.edge.tasks, ∀ reply, τ.phase = .returned reply → reply.turnedAway = false →
      ¬ τ.ServedOverAge →
      ∃ u, Lts.Visits (step D) (start maxSizeBytes breaker wall mono files) p u ∧
        τ.call.began - (max 0 D.service.defaultTtl + L) ≤ u.edge.wall ∧
        u.edge.wall ≤ s.edge.wall ∧
        Stands D u.files τ.call.path (reply.response D.service).shown := by
  have kept : Kept D (standing D (start maxSizeBytes breaker wall mono files) p) L s :=
    Lts.run_guarded (I := Kept D (standing D (start maxSizeBytes breaker wall mono files) p) L)
      (fun s a s' kept hcond hstep =>
        kept_step hinj hhex kept (fun path v h => ⟨s, hcond.1, rfl, h⟩) hcond.2 hstep) p
      (kept_start maxSizeBytes breaker wall mono files) ((Lts.eachStep_visits _ p).and hsteps) hrun
  intro τ hτ reply hphase haway hover
  obtain ⟨t, hlo, hhi, u, hvisits, rfl, hstands⟩ :=
    (kept.dated.tasks τ hτ).returned reply hphase haway hover
  rw [add_zero] at hlo
  exact ⟨u, hvisits, hlo, hhi, hstands⟩

/-! ### A file that is written over -/

def sampleFile : Resolved := ⟨["assets".toList, "a".toList], by decide⟩

/-- The file is fetched and written over, and asked for again before the entry has expired. -/
def writtenOver : List Action :=
  [.edge (.arrive "a" none), .serve 0 [], .edge (.resume 0), .write sampleFile (some (utf8 "2")),
    .edge (.tick 50 50), .edge (.arrive "a" none)]

/-- The conditions on a step of it, as far as they compute. -/
def steady (s : Deployment) : Action → Bool
  | .edge (.resume t) => s.edge.tasks[t]?.all fun τ => s.edge.wall ≤ τ.call.began
  | .edge (.tick wall _) => s.edge.wall ≤ wall
  | .edge (.arrive path rh) => Edge.Unforged sampleService s.edge (.arrive path rh)
  | _ => true

theorem steady_sound {s : Deployment} {a : Action} (h : steady s a = true) :
    Meets sampleDeployment (fun s b => Edge.Timely 0 s b ∧ Edge.Forward s b ∧
      Edge.Unforged sampleService s b) s a := by
  intro b hseen
  cases hseen with
  | serve => exact ⟨by simp [Edge.Timely], by simp [Edge.Forward], trivial⟩
  | fail => exact ⟨by simp [Edge.Timely], by simp [Edge.Forward], trivial⟩
  | edge ha =>
      refine ⟨?_, ?_, ?_⟩
      · rintro t call role r rfl ht
        rw [add_zero]
        exact of_decide_eq_true ((Option.all_eq_true _ _).mp h _ ht)
      · rintro wall mono rfl
        exact of_decide_eq_true h
      · cases b with
        | arrive path rh => exact of_decide_eq_true h
        | _ => trivial

/-- After fifty seconds the old content is served, which stood in the file within the last
sixty. -/
theorem stood_of_run_writtenOver : ∃ s, ∃ τ ∈ s.edge.tasks, ∃ e,
    Lts.run (step sampleDeployment) sampleStart writtenOver = some s ∧
      τ.phase = .returned (.fresh e) ∧ e.shown = (utf8 "1", 200) ∧
      fileAt sampleDeployment s.files "a" = some (utf8 "2") ∧
      ∃ u, Lts.Visits (step sampleDeployment) sampleStart writtenOver u ∧
        τ.call.began - (max 0 60 + 0) ≤ u.edge.wall ∧ u.edge.wall ≤ s.edge.wall ∧
        Stands sampleDeployment u.files τ.call.path e.shown := by
  let s := Lts.last (step sampleDeployment) sampleStart writtenOver
  have hrun : (Lts.run (step sampleDeployment) sampleStart writtenOver).isSome = true := by
    decide +kernel
  have hcheck : Lts.checkEach (step sampleDeployment) steady sampleStart writtenOver = true := by
    decide +kernel
  have hlast : (s.edge.tasks[1]?).any (fun τ => (Edge.freshEntry τ.phase).any fun e =>
      e.shown = (utf8 "1", 200) ∧ ¬ τ.ServedOverAge) = true := by decide +kernel
  have hfile : fileAt sampleDeployment s.files "a" = some (utf8 "2") := by decide +kernel
  obtain ⟨τ, hτ, hserved⟩ := (Option.any_eq_true _ _).mp hlast
  obtain ⟨e, he, hchecked⟩ := (Option.any_eq_true _ _).mp hserved
  obtain ⟨hshown, hover⟩ := of_decide_eq_true hchecked
  have hphase := Edge.freshEntry_eq_some.mp he
  have hmem := List.mem_of_getElem? hτ
  exact ⟨s, τ, hmem, e, Lts.run_last hrun, hphase, hshown, hfile,
    stood_of_run sampleDeployment sampleMd5_injective quote_not_mem_sampleMd5 0 _ _ _ _ _ _ _
      (Lts.eachStep_of_check (fun _ _ => steady_sound) hcheck) (Lts.run_last hrun) τ hmem
      (.fresh e) hphase rfl hover⟩

end Deployment

end Cdn

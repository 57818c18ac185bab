/-
What a purge of the fleet is good for.

A purge goes from edge to edge, and everything else goes on.  When the management API has noted
an edge's success, the edge has handled a request of this purge; and if no task for the path was
under way there at that moment, then whatever the edge returns for the path from then on has
stood in the origin's files since the purge began.  An edge whose success was not noted is not
spoken for: its request may have raised before it was handled, or after.

The invariant is about one edge, one call of the purge service and the requests sent since it
began.
-/
import Cdn.Fleet
import Cdn.Proofs.AfterPurge
import Cdn.Proofs.Purge

namespace Cdn

open Deployment (Since Stands Meets)

namespace Fleet

variable {C : Setup} {P : Shown Bytes → Prop} {path edgeUrl param text : String} {n d₀ i : Nat}
  {s s' : Fleet} {a : Action}

/-! ### Conditions on a step -/

/-- The paths that the edge is asked for do not forge each other's keys. -/
def Unforged (C : Setup) (edgeUrl : String) (s : Fleet) (a : Action) : Prop :=
  ∀ b, a = .edge edgeUrl b →
    Meets (C.deployment edgeUrl) (Edge.Unforged (C.service edgeUrl)) (s.part edgeUrl) b

/-- Where the edge handles a purge, no task for the path is under way. -/
def Quiet (edgeUrl path : String) (s : Fleet) (a : Action) : Prop :=
  ∀ d, a = .handle d → ∀ x ∈ s.deletes[d]?, x.request.edgeUrl = edgeUrl →
    ∀ τ ∈ (s.edges edgeUrl).tasks, τ.call.path = path → τ.phase.over = true

/-! ### Requests that are sent -/

theorem send_of {call : PurgeCall} {d : Nat} {x : Delete} (h : s.deletes[d]? = some x) :
    (s.send call)[d]? = some x := by
  unfold send
  split
  · exact h
  · rw [List.getElem?_append_left (List.getElem?_eq_some_iff.mp h).1, h]

theorem length_le_send (call : PurgeCall) : s.deletes.length ≤ (s.send call).length := by
  unfold send
  split <;> simp

/-- A request that has been handled was sent before. -/
theorem of_send {call : PurgeCall} {d : Nat} {r : PurgeRequest} {status : Int}
    (h : (s.send call)[d]? = some ⟨r, some status⟩) : s.deletes[d]? = some ⟨r, some status⟩ := by
  unfold send at h
  split at h
  · exact h
  · rw [List.getElem?_append] at h
    split at h
    · exact h
    · cases List.mem_singleton.mp (List.mem_of_getElem? h)

/-- The request that a call waits for has been sent. -/
theorem send_pending {call : PurgeCall} (hpending : call.pending = s.deletes.length)
    {e : String} {rest : List String} (hleft : call.left = e :: rest) :
    (s.send call)[call.pending]? = some ⟨⟨e, call.param, quote call.text⟩, none⟩ := by
  unfold send
  rw [hleft, hpending, List.getElem?_append_right le_rfl, Nat.sub_self]
  rfl

/-- The edge reads of a request what the management API was asked. -/
theorem covers_of_parameter? {url keyPrefix : Option String}
    (h : parameter? url keyPrefix = some (param, text)) (k : String) :
    covers ((PurgeRequest.mk edgeUrl param (quote text)).query "url")
      ((PurgeRequest.mk edgeUrl param (quote text)).query "prefix") k = covers url keyPrefix k := by
  have hgiven : ∀ {o : Option String} {t : String}, given o = some t → given (some t) = some t := by
    intro o t ho
    obtain ⟨-, hne⟩ := Option.filter_eq_some_iff.mp ho
    exact given_some (of_decide_eq_true hne)
  rw [query_quote, query_quote]
  unfold parameter? at h
  cases hurl : given url with
  | some u =>
      rw [hurl] at h
      cases h
      rw [if_pos rfl, if_neg (by decide), covers, covers, hurl, hgiven hurl]
  | none =>
      cases hprefix : given keyPrefix with
      | some p =>
          rw [hurl, hprefix] at h
          cases h
          rw [if_neg (by decide), if_pos rfl, covers, covers, hurl, hprefix, hgiven hprefix,
            given_none]
      | none =>
          rw [hurl, hprefix] at h
          cases h

/-! ### One edge -/

/-- What is known of an edge does not look at the files. -/
theorem since_of_edge {d d' : Deployment} (since : Since (C.deployment edgeUrl) P path n d)
    (h : d'.edge = d.edge) : Since (C.deployment edgeUrl) P path n d' :=
  ⟨h ▸ since.sourced, h ▸ since.only⟩

/-- A step anywhere in the fleet is a step of the edge, or none. -/
theorem since_moved (hinj : Function.Injective C.origin.md5)
    (hhex : ∀ content, '"' ∉ (C.origin.md5 content).toList)
    (since : Since (C.deployment edgeUrl) P path n (s.part edgeUrl))
    (hnow : ∀ v, Stands (C.deployment edgeUrl) s.files path v → P v)
    (hforge : Unforged C edgeUrl s a) (h : Moved C s a s') :
    Since (C.deployment edgeUrl) P path n (s'.part edgeUrl) := by
  have hat : ∀ {url : String} {b : Deployment.Action} {part : Deployment},
      (url = edgeUrl → Meets (C.deployment edgeUrl) (Edge.Unforged (C.service edgeUrl))
        (s.part edgeUrl) b) →
      (s.part url).step (C.deployment url) b = some part →
      s'.edges = Function.update s.edges url part.edge →
      Since (C.deployment edgeUrl) P path n (s'.part edgeUrl) := by
    intro url b part hmeets hstep hedges
    by_cases hurl : url = edgeUrl
    · subst hurl
      refine since_of_edge (Deployment.since_step hinj hhex since hnow (hmeets rfl) hstep) ?_
      exact (congrFun hedges url).trans (Function.update_self ..)
    · refine since_of_edge since ?_
      exact (congrFun hedges edgeUrl).trans (Function.update_of_ne (Ne.symm hurl) ..)
  cases h with
  | edge hstep => exact hat (fun hurl => hforge _ (by rw [hurl])) hstep rfl
  | wrote => exact since_of_edge since rfl
  | began hparam => exact since_of_edge since rfl
  | handled hd hstep =>
      refine hat (fun _ b hseen => ?_) hstep rfl
      cases hseen
      trivial
  | answered hi hleft hpending => exact since_of_edge since rfl
  | raised hi hleft => exact since_of_edge since rfl

/-- The edge shows only what satisfies `P`, but for what it was asked before. -/
def Purged (C : Setup) (P : Shown Bytes → Prop) (path edgeUrl : String) (s : Fleet) : Prop :=
  ∃ n, Since (C.deployment edgeUrl) P path n (s.part edgeUrl)

/-- **A purge that is handled while no task for the path is under way.** -/
theorem purged_of_handled {r : PurgeRequest} {part : Deployment}
    (since : Since (C.deployment r.edgeUrl) (fun _ => True) path 0 (s.part r.edgeUrl))
    (hcovers : ∀ rh, covers (r.query "url") (r.query "prefix")
      (keyOf (C.service r.edgeUrl) path rh) = true)
    (hidle : ∀ τ ∈ (s.edges r.edgeUrl).tasks, τ.call.path = path → τ.phase.over = true)
    (hstep : (s.part r.edgeUrl).step (C.deployment r.edgeUrl) (Delete.action ⟨r, none⟩) =
      some part) (hpart : (s'.part r.edgeUrl).edge = part.edge) :
    Purged C P path r.edgeUrl s' := by
  obtain ⟨hedge, -⟩ := Deployment.take_eq_some hstep
  refine ⟨(s.edges r.edgeUrl).tasks.length, since_of_edge (d := part) ?_ hpart⟩
  exact ⟨Edge.sourced_step since.sourced (fun t x h => by cases h) hedge,
    since.only.purged hcovers hidle hedge⟩

/-! ### One purge -/

/-- A call of the purge service: it waits for a request of its own, and where it has noted the
edge's success the edge is purged. -/
structure Follows (C : Setup) (P : Shown Bytes → Prop) (path edgeUrl param text : String)
    (d₀ : Nat) (s : Fleet) (call : PurgeCall) : Prop where
  param_eq : call.param = param
  text_eq : call.text = text
  pending : ∀ e rest, call.left = e :: rest → d₀ ≤ call.pending ∧
    ∃ status, s.deletes[call.pending]? = some ⟨⟨e, param, quote text⟩, status⟩
  noted : call.results.get? edgeUrl = some true → Purged C P path edgeUrl s

/-- Since call `i` began: what has been handled of the requests sent since, and what the call has
noted. -/
structure Spread (C : Setup) (P : Shown Bytes → Prop) (path edgeUrl param text : String)
    (d₀ i : Nat) (s : Fleet) : Prop where
  sent : d₀ ≤ s.deletes.length
  since : Since (C.deployment edgeUrl) (fun _ => True) path 0 (s.part edgeUrl)
  handled : ∀ d status, d₀ ≤ d →
    s.deletes[d]? = some ⟨⟨edgeUrl, param, quote text⟩, some status⟩ → Purged C P path edgeUrl s
  call : ∃ call, s.purges[i]? = some call ∧ Follows C P path edgeUrl param text d₀ s call

/-- A step that does not touch the call, and answers no request but by handling it. -/
theorem Follows.step {call : PurgeCall} (h : Follows C P path edgeUrl param text d₀ s call)
    (hpurged : Purged C P path edgeUrl s → Purged C P path edgeUrl s')
    (hdeletes : ∀ (d : Nat) (r : PurgeRequest) (status : Option Int),
      s.deletes[d]? = some ⟨r, status⟩ → ∃ status', s'.deletes[d]? = some ⟨r, status'⟩) :
    Follows C P path edgeUrl param text d₀ s' call where
  param_eq := h.param_eq
  text_eq := h.text_eq
  pending := fun e rest hleft => by
    obtain ⟨hle, status, hd⟩ := h.pending e rest hleft
    exact ⟨hle, hdeletes _ _ _ hd⟩
  noted := fun hresult => hpurged (h.noted hresult)

/-- An answer or an exception is noted: of another call, or of this one. -/
theorem Spread.note (h : Spread C P path edgeUrl param text d₀ i s) {j : Nat} {call : PurgeCall}
    {e : String} {rest : List String} {success : Bool} (hj : s.purges[j]? = some call)
    (hleft : call.left = e :: rest)
    (hsuccess : success = true → ∃ r status, s.deletes[call.pending]? = some ⟨r, some status⟩) :
    Spread C P path edgeUrl param text d₀ i (s.note j call e rest success) := by
  have hgrown : ∀ d x, s.deletes[d]? = some x →
      (s.note j call e rest success).deletes[d]? = some x := fun d x => send_of
  obtain ⟨call', hi, hfollows⟩ := h.call
  refine ⟨h.sent.trans (length_le_send _), h.since,
    fun d status hle hd => h.handled d status hle (of_send hd), ?_⟩
  by_cases hij : j = i
  · subst hij
    obtain rfl : call = call' := Option.some.inj (hj.symm.trans hi)
    have hset : (s.note j call e rest success).purges[j]? = some
        { call with
          left := rest
          pending := s.deletes.length
          results := call.results.set e success } := by
      show (s.purges.set j _)[j]? = _
      rw [List.getElem?_set_self (List.getElem?_eq_some_iff.mp hj).1]
    refine ⟨_, hset, hfollows.param_eq, hfollows.text_eq,
      fun e' rest' hleft' => ⟨h.sent, none, ?_⟩, fun hresult => ?_⟩
    · rw [← hfollows.param_eq, ← hfollows.text_eq]
      exact send_pending rfl hleft'
    · rw [Dict.get?_set] at hresult
      split at hresult
      · rename_i he
        subst he
        obtain ⟨hle, status, hpending⟩ := hfollows.pending _ rest hleft
        obtain ⟨r, status', hanswered⟩ := hsuccess (Option.some.inj hresult)
        rw [hpending] at hanswered
        cases hanswered
        exact h.handled _ _ hle hpending
      · exact hfollows.noted hresult
  · refine ⟨call', ?_, hfollows.step id fun d r status hd => ⟨status, hgrown d _ hd⟩⟩
    show (s.purges.set j _)[i]? = _
    rw [List.getElem?_set_ne hij, hi]

theorem spread_moved (hinj : Function.Injective C.origin.md5)
    (hhex : ∀ content, '"' ∉ (C.origin.md5 content).toList)
    (hcovers : ∀ rh, covers ((PurgeRequest.mk edgeUrl param (quote text)).query "url")
      ((PurgeRequest.mk edgeUrl param (quote text)).query "prefix")
      (keyOf (C.service edgeUrl) path rh) = true)
    (h : Spread C P path edgeUrl param text d₀ i s)
    (hnow : ∀ v, Stands (C.deployment edgeUrl) s.files path v → P v)
    (hforge : Unforged C edgeUrl s a) (hquiet : Quiet edgeUrl path s a) (hmoved : Moved C s a s') :
    Spread C P path edgeUrl param text d₀ i s' := by
  have hsince := since_moved hinj hhex h.since (fun _ _ => trivial) hforge hmoved
  have hpurged : Purged C P path edgeUrl s → Purged C P path edgeUrl s' := fun ⟨n, hn⟩ =>
    ⟨n, since_moved hinj hhex hn hnow hforge hmoved⟩
  obtain ⟨call, hi, hfollows⟩ := h.call
  cases hmoved with
  | edge hstep =>
      exact ⟨h.sent, hsince, fun d status hle hd => hpurged (h.handled d status hle hd), call, hi,
        hfollows.step hpurged fun d r status hd => ⟨status, hd⟩⟩
  | wrote =>
      exact ⟨h.sent, hsince, fun d status hle hd => hpurged (h.handled d status hle hd), call, hi,
        hfollows.step hpurged fun d r status hd => ⟨status, hd⟩⟩
  | began hparam =>
      exact ⟨h.sent.trans (length_le_send _), hsince,
        fun d status hle hd => hpurged (h.handled d status hle (of_send hd)), call,
        (List.getElem?_append_left (List.getElem?_eq_some_iff.mp hi).1).trans hi,
        hfollows.step hpurged fun d r status hd => ⟨status, send_of hd⟩⟩
  | @handled d r status part hd hstep =>
      have hlt := (List.getElem?_eq_some_iff.mp hd).1
      refine ⟨?_, hsince, fun d' status' hle hd' => ?_, call, hi,
        hfollows.step hpurged fun d' r' status' hd' => ?_⟩
      · show _ ≤ (s.deletes.set d _).length
        rw [List.length_set]
        exact h.sent
      · replace hd' : (s.deletes.set d ⟨r, some status⟩)[d']? = _ := hd'
        by_cases hdd : d = d'
        · -- the request that is handled now
          subst hdd
          rw [List.getElem?_set_self hlt, Option.some.injEq] at hd'
          cases hd'
          exact purged_of_handled h.since hcovers (hquiet d rfl _ hd rfl) hstep
            (Function.update_self ..)
        · rw [List.getElem?_set_ne hdd] at hd'
          exact hpurged (h.handled d' status' hle hd')
      · show ∃ status'', (s.deletes.set d ⟨r, some status⟩)[d']? = _
        by_cases hdd : d = d'
        · subst hdd
          rw [hd] at hd'
          cases hd'
          exact ⟨some status, List.getElem?_set_self hlt⟩
        · exact ⟨status', by rw [List.getElem?_set_ne hdd, hd']⟩
  | answered hj hleft hpending => exact h.note hj hleft fun _ => ⟨_, _, hpending⟩
  | raised hj hleft => exact h.note hj hleft fun hfalse => by cases hfalse

/-! ### Every run -/

theorem since_start (maxSizeBytes : String → Int) (breaker : String → CircuitBreaker)
    (wall mono : String → Time) (files : Deployment.Files) :
    Since (C.deployment edgeUrl) P path 0
      ((start maxSizeBytes breaker wall mono files).part edgeUrl) :=
  Deployment.since_start (maxSizeBytes edgeUrl) (breaker edgeUrl) (wall edgeUrl) (mono edgeUrl)
    files

/-- The purge begins, and none of its requests has been handled. -/
theorem spread_of_begin {url keyPrefix : Option String}
    (since : Since (C.deployment edgeUrl) (fun _ => True) path 0 (s.part edgeUrl))
    (hparam : parameter? url keyPrefix = some (param, text))
    (h : s.step C (.purge url keyPrefix) = some s') :
    Spread C P path edgeUrl param text s.deletes.length s.purges.length s' := by
  replace h : (parameter? url keyPrefix).map _ = some s' := h
  rw [hparam, Option.map_some, Option.some.injEq] at h
  subst h
  refine ⟨length_le_send _, ⟨since.sourced, since.only⟩, fun d status hle hd => ?_, _,
    List.getElem?_concat_length .., rfl, rfl, fun e rest hleft => ⟨le_rfl, none, ?_⟩,
    fun hresult => by cases hresult⟩
  · exact absurd (List.getElem?_eq_some_iff.mp (of_send hd)).1 (not_lt.mpr hle)
  · exact send_pending rfl hleft

/--
**A purge that is acknowledged.**  The management API has noted that an edge was purged of every
key of a path.  Then what the edge returns for the path to whoever asks afterwards has stood in
the origin's files since the purge began, or it is a 503 of the service's own.
-/
theorem stood_since_acknowledged (C : Setup) (hinj : Function.Injective C.origin.md5)
    (hhex : ∀ content, '"' ∉ (C.origin.md5 content).toList) (maxSizeBytes : String → Int)
    (breaker : String → CircuitBreaker) (wall mono : String → Time) (files : Deployment.Files)
    (path edgeUrl : String) (url keyPrefix : Option String)
    (hcovers : ∀ rh, covers url keyPrefix (keyOf (C.service edgeUrl) path rh) = true)
    (before between after : List Action) (s₀ s₁ s₂ s₃ : Fleet) (call : PurgeCall)
    (hbefore : Lts.EachStep (step C) (Unforged C edgeUrl)
      (start maxSizeBytes breaker wall mono files) before)
    (hrun₀ : Lts.run (step C) (start maxSizeBytes breaker wall mono files) before = some s₀)
    (hbegin : s₀.step C (.purge url keyPrefix) = some s₁)
    (hsteps : Lts.EachStep (step C) (fun s a => Unforged C edgeUrl s a ∧ Quiet edgeUrl path s a)
      s₁ (between ++ after))
    (hrun₁ : Lts.run (step C) s₁ between = some s₂)
    (hcall : s₂.purges[s₀.purges.length]? = some call)
    (hnoted : call.results.get? edgeUrl = some true)
    (hrun₂ : Lts.run (step C) s₂ after = some s₃) :
    ∀ t τ reply, (s₃.edges edgeUrl).tasks[t]? = some τ →
      (s₂.edges edgeUrl).tasks.length ≤ t → τ.call.path = path →
      τ.phase = .returned reply → reply.own = false →
      ∃ u, Lts.Visits (step C) s₁ (between ++ after) u ∧
        Stands (C.deployment edgeUrl) u.files path (reply.response (C.service edgeUrl)).shown := by
  let P : Shown Bytes → Prop := fun v =>
    ∃ u, Lts.Visits (step C) s₁ (between ++ after) u ∧ Stands (C.deployment edgeUrl) u.files path v
  have since₀ : Since (C.deployment edgeUrl) (fun _ => True) path 0 (s₀.part edgeUrl) :=
    Lts.run_guarded
      (I := fun s : Fleet => Since (C.deployment edgeUrl) (fun _ => True) path 0 (s.part edgeUrl))
      (fun s a s' since hforge hstep =>
        since_moved hinj hhex since (fun _ _ => trivial) hforge (moved_of_step hstep)) before
      (since_start maxSizeBytes breaker wall mono files) hbefore hrun₀
  obtain ⟨⟨param, text⟩, hparam, -⟩ := Option.map_eq_some_iff.mp hbegin
  have spread₁ : Spread C P path edgeUrl param text s₀.deletes.length s₀.purges.length s₁ :=
    spread_of_begin since₀ hparam hbegin
  obtain ⟨hbetween, hafter⟩ := Lts.eachStep_append hrun₁
    ((Lts.eachStep_visits s₁ (between ++ after)).and hsteps)
  have spread₂ : Spread C P path edgeUrl param text s₀.deletes.length s₀.purges.length s₂ :=
    Lts.run_guarded (I := Spread C P path edgeUrl param text s₀.deletes.length s₀.purges.length)
      (fun s a s' spread hcond hstep =>
        spread_moved hinj hhex (fun rh => (covers_of_parameter? hparam _).trans (hcovers rh)) spread
          (fun v hv => ⟨s, hcond.1, hv⟩) hcond.2.1 hcond.2.2 (moved_of_step hstep)) between
      spread₁ hbetween hrun₁
  obtain ⟨call', hcall', hfollows⟩ := spread₂.call
  obtain rfl : call = call' := Option.some.inj (hcall.symm.trans hcall')
  obtain ⟨n, since₂⟩ := hfollows.noted hnoted
  have since₃ : Since (C.deployment edgeUrl) P path n (s₃.part edgeUrl) :=
    Lts.run_guarded (I := fun s : Fleet => Since (C.deployment edgeUrl) P path n (s.part edgeUrl))
      (fun s a s' since hcond hstep =>
        since_moved hinj hhex since (fun v hv => ⟨s, hcond.1, hv⟩) hcond.2.1 (moved_of_step hstep))
      after since₂ hafter hrun₂
  intro t τ reply ht hlater hpath hphase hown
  exact (since₃.only.later t τ ht hpath (since₂.only.grown.trans hlater)).returned reply hphase hown

/-! ### Two edges -/

def sampleFleet : Setup where
  service := fun _ => Deployment.sampleDeployment.service
  origin := Deployment.sampleDeployment.origin
  basePath := Deployment.sampleDeployment.basePath
  framework := Deployment.sampleDeployment.framework
  codec := Deployment.sampleDeployment.codec
  edgeUrls := ["e1", "e2"]

def fleetStart : Fleet :=
  start (fun _ => 1000) (fun _ => {}) (fun _ => 0) (fun _ => 0) Deployment.sampleFiles

/-- The second edge has the file, and then the file is written over. -/
def heldAndWritten : List Action :=
  [.edge "e2" (.edge (.arrive "a" none)), .edge "e2" (.serve 0 []), .edge "e2" (.edge (.resume 0)),
    .write Deployment.sampleFile (some (utf8 "2"))]

/-- The purge goes through, and while it is at the first edge the second one is asked. -/
def acknowledged : List Action :=
  [.handle 0, .answer 0, .edge "e2" (.edge (.arrive "a" none)), .handle 1, .answer 0]

/-- The second edge is asked twice more. -/
def askedAgain : List Action :=
  [.edge "e2" (.edge (.arrive "a" none)), .edge "e2" (.serve 2 []), .edge "e2" (.edge (.resume 2)),
    .edge "e2" (.edge (.arrive "a" none))]

/-- The conditions on a step, for the second edge. -/
def steadyAt (s : Fleet) : Action → Bool
  | .edge edgeUrl a => edgeUrl ≠ "e2" || Deployment.steady (s.part "e2") a
  | .handle d => s.deletes[d]?.all fun x =>
      x.request.edgeUrl ≠ "e2" || (s.edges "e2").tasks.all fun τ => τ.phase.over
  | _ => true

theorem steadyAt_sound {s : Fleet} {a : Action} (h : steadyAt s a = true) :
    Unforged sampleFleet "e2" s a ∧ Quiet "e2" "a" s a := by
  refine ⟨?_, ?_⟩
  · rintro b rfl c hseen
    have hsteady : Deployment.steady (s.part "e2") b = true := h
    exact (Deployment.steady_sound hsteady c hseen).2.2
  · rintro d rfl x hx hurl τ hτ -
    have hall := (Option.all_eq_true _ _).mp h x hx
    rw [hurl, Bool.or_eq_true] at hall
    exact List.all_eq_true.mp (hall.resolve_left (by decide)) τ hτ

/-- The second edge shows what it had while the purge is under way, and the new file once it is
acknowledged. -/
theorem stood_since_acknowledged_askedAgain : ∃ s₀ s₁ s₂ s₃, ∃ τ ∈ (s₃.edges "e2").tasks, ∃ e,
    Lts.run (step sampleFleet) fleetStart heldAndWritten = some s₀ ∧
      s₀.step sampleFleet (.purge none (some ("GET:" ++ "a"))) = some s₁ ∧
      Lts.run (step sampleFleet) s₁ acknowledged = some s₂ ∧
      Lts.run (step sampleFleet) s₂ askedAgain = some s₃ ∧
      τ.phase = .returned (.fresh e) ∧ e.shown = (utf8 "2", 200) ∧
      ∃ u, Lts.Visits (step sampleFleet) s₁ (acknowledged ++ askedAgain) u ∧
        Stands (sampleFleet.deployment "e2") u.files "a" e.shown := by
  let purge : Action := .purge none (some ("GET:" ++ "a"))
  let s₀ := Lts.last (step sampleFleet) fleetStart heldAndWritten
  let s₁ := Lts.last (step sampleFleet) s₀ [purge]
  let s₂ := Lts.last (step sampleFleet) s₁ acknowledged
  let s₃ := Lts.last (step sampleFleet) s₂ askedAgain
  have hrun₀ : (Lts.run (step sampleFleet) fleetStart heldAndWritten).isSome = true := by
    decide +kernel
  have hrun₂ : (Lts.run (step sampleFleet) s₁ acknowledged).isSome = true := by decide +kernel
  have hrun₃ : (Lts.run (step sampleFleet) s₂ askedAgain).isSome = true := by decide +kernel
  have hbefore : Lts.checkEach (step sampleFleet) steadyAt fleetStart heldAndWritten = true := by
    decide +kernel
  have hsteps : Lts.checkEach (step sampleFleet) steadyAt s₁ (acknowledged ++ askedAgain) =
      true := by decide +kernel
  have hcall : (s₂.purges[0]?).any (fun call => call.results.get? "e2" = some true) = true := by
    decide +kernel
  have hlength : (s₂.edges "e2").tasks.length = 2 ∧ s₀.purges.length = 0 := by decide +kernel
  have hlast : ((s₃.edges "e2").tasks[3]?).any (fun τ => (Edge.freshEntry τ.phase).any fun e =>
      e.shown = (utf8 "2", 200) ∧ τ.call.path = "a") = true := by decide +kernel
  obtain ⟨τ, hτ, hserved⟩ := (Option.any_eq_true _ _).mp hlast
  obtain ⟨e, he, hchecked⟩ := (Option.any_eq_true _ _).mp hserved
  obtain ⟨hshown, hpath⟩ := of_decide_eq_true hchecked
  obtain ⟨call, hpurge, hnoted⟩ := (Option.any_eq_true _ _).mp hcall
  have hphase := Edge.freshEntry_eq_some.mp he
  refine ⟨s₀, s₁, s₂, s₃, τ, List.mem_of_getElem? hτ, e, Lts.run_last hrun₀, rfl,
    Lts.run_last hrun₂, Lts.run_last hrun₃, hphase, hshown, ?_⟩
  exact stood_since_acknowledged sampleFleet Deployment.sampleMd5_injective
    Deployment.quote_not_mem_sampleMd5 _ _ _ _ _ "a" "e2" none (some ("GET:" ++ "a"))
    (Edge.covers_keyOf _ "a") heldAndWritten acknowledged askedAgain s₀ s₁ s₂ s₃ call
    (Lts.eachStep_of_check (fun _ _ h => (steadyAt_sound h).1) hbefore) (Lts.run_last hrun₀) rfl
    (Lts.eachStep_of_check (fun _ _ h => steadyAt_sound h) hsteps) (Lts.run_last hrun₂)
    (hlength.2 ▸ hpurge) (of_decide_eq_true hnoted) (Lts.run_last hrun₃) 3 τ (.fresh e) hτ
    (by rw [hlength.1]; omega) hpath hphase rfl

end Fleet

end Cdn

/-
What stands behind a shield.

The shield's replies were shown by the origin not long ago, and to the edge in front the shield
is an upstream whose answers may be that much out of date.  For that the reply has to come
through the file route and the client as it was: the route may code the body, the client decodes
it, and of the headers that decide how long the front edge keeps it there are none, on either
side.  So the two ages add up: neither edge tells the next one how old its entry is.
-/
import Cdn.Proofs.Recoding
import Cdn.Proofs.UpToDate
import Cdn.Shielded

namespace Cdn

open Past (Between History)

/-! ### The hop -/

namespace EdgeRoutes

variable {S : Setup} {request : Request} {r : Response Bytes} {C : Http.Codec} (F : Framework)

/-- A response that came without a coding is received as it was. -/
theorem receive_respond (hinverts : Inverts C S.compressors)
    (hkeys : ∀ k ∈ r.headers.keys, Http.lowerName k = k)
    (hbare : r.headers.get? "content-encoding" = none) (responseTime : String) :
    C.receive (F.send (respond S request r responseTime)) =
      some ⟨r.statusCode, (F.send (respond S request r responseTime)).headers, r.content⟩ := by
  rw [Http.Codec.receive_eq_some, Http.Message.encoding,
    F.header?_send _ (by decide) (by decide), F.send_body, F.send_statusCode]
  refine ⟨?_, rfl, rfl⟩
  show C.decode _ (compress S request r).1 = some r.content
  by_cases hcompresses : Compresses S request r
  · obtain ⟨name, encode, hname, hcompress⟩ := compress_of hcompresses
    rw [encodings_respond hkeys hcompress, hbare, hcompress]
    show C.decode (Http.joined [name]) (encode r.content) = some r.content
    rw [Http.joined_singleton, hinverts name encode hname]
  · rw [given_respond hkeys hcompresses (by decide), hbare, compress_of_not hcompresses]
    exact C.decode_none _

/-- A header that the route does not write is received as it was. -/
theorem get?_headers_respond (hkeys : ∀ k ∈ r.headers.keys, Http.lowerName k = k)
    (responseTime name : String)
    (hname : name ∉ ["x-cache", "x-edge-id", "x-response-time", "content-encoding",
      "content-length", "content-type"]) :
    (F.send (respond S request r responseTime)).headers.get? name = r.headers.get? name := by
  have hlower : Http.lowerName "Content-Encoding" = "content-encoding" ∧
      Http.lowerName "Content-Length" = "content-length" := by decide +kernel
  simp only [List.mem_cons, List.not_mem_nil, or_false, not_or] at hname
  obtain ⟨hcache, hid, htime, hencoding, hlength, htype⟩ := hname
  rw [F.get?_headers_send _ hlength htype, given_respond_eq (by simp [hcache, hid, htime])]
  have hvalues : Http.values (compress S request r).2.items name = (r.headers.get? name).toList := by
    by_cases hcompresses : Compresses S request r
    · obtain ⟨coding, encode, -, hcompress⟩ := compress_of hcompresses
      rw [hcompress, Http.values_set _ (by rw [hlower.2]; exact Ne.symm hlength),
        Http.values_set _ (by rw [hlower.1]; exact Ne.symm hencoding), Http.values_items hkeys]
    · rw [compress_of_not hcompresses, Http.values_items hkeys]
  rw [hvalues, Http.joined_toList]

end EdgeRoutes

/-- The headers are named in lower case, and none of them is about coding or caching. -/
structure PlainHeaders (headers : Headers) : Prop where
  names : ∀ k ∈ headers.keys, Http.lowerName k = k
  bare : ∀ name ∈ ["content-encoding", "cache-control", "vary"], headers.get? name = none

/-- The answers of the origin have such headers. -/
theorem Deployment.Seen.supplies_plain {D : Deployment.Setup} {s : Deployment}
    {a : Deployment.Action} {b : Cdn.Action Bytes} (h : Deployment.Seen D s a b) :
    Edge.Supplies (fun r => PlainHeaders r.headers) s.edge b := by
  rintro t r rfl τ -
  obtain ⟨call, phase, received, -, hattempt, rfl⟩ := h.attempted
  refine Or.inl ⟨?_, fun name hname => Deployment.get?_of_attempt hattempt ?_⟩
  · have hreceived : ∃ m, D.codec.receive m = some received := by
      unfold Deployment.attempt at hattempt
      split at hattempt
      · rename_i received' hreceive
        cases hattempt
        exact ⟨_, hreceive⟩
      · cases hattempt
    obtain ⟨m, hm⟩ := hreceived
    have hheaders := (Http.Codec.receive_eq_some.mp hm).2.2
    show ∀ k ∈ received.headers.keys, Http.lowerName k = k
    rw [hheaders]
    exact m.lowerName_keys
  · simp only [List.mem_cons, List.not_mem_nil, or_false] at hname
    rcases hname with rfl | rfl | rfl <;> decide

namespace Shielded

variable {C : Setup} {s s' : Shielded} {a : Action} {call : Call Bytes} {reply : Reply Bytes}
  {responseTime : String}

/-- **A reply with plain headers is received as it was,** and says nothing about caching. -/
theorem attempt_of_plain (call : Call Bytes) (responseTime : String)
    (hinverts : Inverts C.shield.codec C.routes.compressors)
    (hplain : PlainHeaders (reply.response C.shield.service).headers) :
    ∃ headers, attempt C call reply responseTime = .response
        ⟨(reply.response C.shield.service).statusCode, headers,
          (reply.response C.shield.service).content⟩ ∧
      headers.get? "vary" = none ∧ directivesOf headers = .ok {} := by
  have hsent := C.sent_plain call.cached
  have hauthorized : EdgeRoutes.authorized C.routes (request C call) = .ok true := by
    have htoken : (request C call).providedToken = none := by
      show (given ((C.sent (fetchHeaders call.cached)).get? "x-cdn-token")).or (given none) = none
      rw [hsent.2]
      rfl
    rw [EdgeRoutes.authorized, htoken]
  have hrange : given (request C call).rangeHeader = none := by
    show given ((C.sent (fetchHeaders call.cached)).get? "range") = none
    rw [hsent.1]
    rfl
  refine ⟨(C.shield.framework.send (EdgeRoutes.respond C.routes (request C call)
    (reply.response C.shield.service) responseTime)).headers, ?_, ?_, ?_⟩
  · rw [attempt, respond, EdgeRoutes.serveFile_whole hauthorized hrange]
    dsimp only
    rw [EdgeRoutes.receive_respond C.shield.framework hinverts hplain.names
      (hplain.bare _ (by simp))]
  · rw [EdgeRoutes.get?_headers_respond C.shield.framework hplain.names responseTime "vary"
      (by decide), hplain.bare _ (by simp)]
  · rw [directivesOf, Dict.getD,
      EdgeRoutes.get?_headers_respond C.shield.framework hplain.names responseTime "cache-control"
        (by decide), hplain.bare _ (by simp)]
    rfl

/-! ### The conditions -/

/-- What the edge sees of a step of the shield is in time, and forges nothing. -/
def ShieldMeets (C : Setup) (M : Time) : Deployment → Deployment.Action → Prop :=
  Deployment.Meets C.shield fun s b =>
    Edge.Timely M s b ∧ Edge.Forward s b ∧ Edge.Unforged C.shield.service s b

/-- Calls of the front edge take `L` at most and calls of the shield `M`, the clock is not set
back, no call forges a key, and nothing goes to the front edge that the shield's breaker had
served, or a waiter of the shield that found its entry too old. -/
def Orderly (C : Setup) (L M : Time) (s : Shielded) : Action → Prop
  | .front b => Edge.Timely L s.front b ∧ Edge.Unforged C.front s.front b
  | .shield b => ShieldMeets C M s.shield b
  | .ask t => ∀ τ ∈ s.front.tasks[t]?, ShieldMeets C M s.shield (arrival C τ.call)
  | .relay _ u _ _ => ∀ τ ∈ s.shield.edge.tasks[u]?, ¬ τ.ServedOverAge ∧
      ∀ reply, τ.phase = .returned reply → reply.turnedAway = false
  | .fail _ => True
  | .tick wall _ _ => s.front.wall ≤ wall

/-- What has stood in the files of the origin during a run, and when. -/
def standing (C : Setup) (s₀ : Shielded) (p : List Action) : History Time String (Shown Bytes) :=
  fun t path v => ∃ u, Lts.Visits (step C) s₀ p u ∧ u.front.wall = t ∧
    Deployment.Stands C.shield u.shield.files path v

/-! ### The invariant -/

/-- How old the shield's replies may be. -/
def shieldAge (C : Setup) (M : Time) : Time := max 0 C.shield.service.defaultTtl + M

/-- A call of the shield that was made for a task asks for its path, and began after it. -/
def Asked (s : Shielded) (t u : Nat) : Prop :=
  ∃ call call', s.front.calls[t]? = some call ∧ s.shield.edge.calls[u]? = some call' ∧
    call'.path = shieldPath call ∧ call.began ≤ call'.began

structure Kept (C : Setup) (H : History Time String (Shown Bytes)) (L M : Time) (s : Shielded) :
    Prop where
  shield : Deployment.Kept C.shield H M s.shield
  plain : Edge.Sourced (fun r => PlainHeaders r.headers) C.shield.service s.shield.edge
  front : Edge.Dated C.front H (max 0 C.front.defaultTtl) (shieldAge C M) L s.front
  clock : s.front.wall = s.shield.edge.wall
  asked : ∀ t u, (t, u) ∈ s.asked → s.Asked t u

variable {H : History Time String (Shown Bytes)} {L M : Time}

theorem kept_start (maxSizeBytes shieldSizeBytes : Int) (breaker shieldBreaker : CircuitBreaker)
    (wall mono shieldMono : Time) (files : Deployment.Files) :
    Kept C H L M (start maxSizeBytes shieldSizeBytes breaker shieldBreaker wall mono shieldMono
      files) where
  shield := Deployment.kept_start _ _ _ _ _
  plain := Edge.sourced_start _ _ _ _
  front := Edge.dated_start _ _ _ _
  clock := rfl
  asked := fun t u h => by cases h

/-! ### Calls and clocks over a step -/

theorem Asked.mono {t u : Nat} (h : s.Asked t u)
    (hfront : ∃ new, s'.front.calls = s.front.calls ++ new)
    (hshield : ∃ new, s'.shield.edge.calls = s.shield.edge.calls ++ new) : s'.Asked t u := by
  obtain ⟨call, call', ht, hu, hpath, hbegan⟩ := h
  obtain ⟨new, hnew⟩ := hfront
  obtain ⟨new', hnew'⟩ := hshield
  exact ⟨call, call', hnew ▸ Slots.get?_append ht, hnew' ▸ Slots.get?_append hu, hpath, hbegan⟩

/-- A step of the shield adds to its calls at the end, and moves its clock only with a tick. -/
theorem calls_of_step {D : Deployment.Setup} {d d' : Deployment} {b : Deployment.Action}
    (h : d.step D b = some d') :
    (∃ new, d'.edge.calls = d.edge.calls ++ new) ∧
      ((∀ wall mono, b ≠ .edge (.tick wall mono)) → d'.edge.wall = d.edge.wall) := by
  rcases Deployment.step_cases h with ⟨c, hseen, hedge, -⟩ | ⟨hedge, -⟩
  · obtain ⟨new, hnew, -⟩ := Edge.extends_step hedge
    refine ⟨⟨new, hnew⟩, fun htick => ?_⟩
    obtain ⟨m, hmove, hm⟩ := Edge.move_of_step hedge
    have hwall : d'.edge.wall = m.wall := by rw [hm]; rfl
    rw [hwall]
    refine hmove.wall.resolve_right ?_
    rintro ⟨wall, mono, rfl, -⟩
    cases hseen with
    | edge ha => exact htick wall mono rfl
  · exact ⟨⟨[], by rw [hedge, List.append_nil]⟩, fun _ => by rw [hedge]⟩

theorem wall_of_answer {S : Cdn.Setup Bytes} {e e' : Edge Bytes} {b : Cdn.Action Bytes}
    (h : e.step S b = some e') (htick : ∀ wall mono, b ≠ .tick wall mono) : e'.wall = e.wall := by
  obtain ⟨m, hmove, rfl⟩ := Edge.move_of_step h
  refine hmove.wall.resolve_right ?_
  rintro ⟨wall, mono, hb, -⟩
  exact htick wall mono hb

theorem wall_of_tick {S : Cdn.Setup Bytes} {e e' : Edge Bytes} {wall mono : Time}
    (h : e.step S (.tick wall mono) = some e') : e'.wall = wall := by
  obtain ⟨m, hmove, rfl⟩ := Edge.move_of_step h
  cases hmove with
  | ticked hmono => rfl

/-- A call that arrives is the first of the new ones. -/
theorem call_of_arrival {D : Deployment.Setup} {d d' : Deployment} {path : String}
    {rh : Option Headers} (h : d.step D (.edge (.arrive path rh)) = some d') :
    d'.edge.calls[d.edge.tasks.length]? = some (d.edge.arrival D.service path rh) := by
  obtain ⟨hedge, -⟩ := Deployment.take_eq_some h
  obtain ⟨new, hnew, harrivals⟩ := Edge.extends_step hedge
  have hlength : d.edge.calls.length = d.edge.tasks.length := by simp [Edge.calls]
  have hmore : d.edge.calls.length < d'.edge.calls.length := by
    obtain ⟨m, hmove, hm⟩ := Edge.move_of_step hedge
    have hcalls : d'.edge.calls = m.calls := by rw [hm]; rfl
    rw [hcalls]
    cases hmove with
    | led => rw [Edge.calls_send, Edge.calls_register, Edge.calls_read]; simp
    | refused => rw [Edge.calls_conclude, Edge.calls_register, Edge.calls_read]; simp
    | _ => simp
  cases new with
  | nil =>
      rw [hnew, List.append_nil] at hmore
      exact absurd hmore (lt_irrefl _)
  | cons call rest =>
      obtain ⟨path', rh', ha, rfl⟩ := harrivals call List.mem_cons_self
      cases ha
      rw [hnew, ← hlength]
      simp

/-! ### What the shield's answer tells -/

theorem own_of_turnedAway {reply : Reply Bytes} (h : reply.turnedAway = false) :
    reply.own = false := by cases reply <;> first | rfl | cases h

/-- What a history has to be for the front edge: what stands at the shield's path stands at the
path of the call, and nothing in it is the status of a refresh. -/
structure Passes (H : History Time String (Shown Bytes)) : Prop where
  path : ∀ t (call : Call Bytes) v, H t (shieldPath call) v → H t call.path v
  status : ∀ t path v, H t path v → v.2 ≠ 304

/-- **The shield is truthful, if late.**  An answer that it gives to the front edge shows what
stood in the files since the call began there, or as long before as the shield's replies are
old. -/
theorem Kept.truthful (kept : Kept C H L M s) (hpasses : Passes H)
    (hinverts : Inverts C.shield.codec C.routes.compressors) {t u : Nat}
    {retried : List OriginClient.Attempt} (responseTime : String) {call call' : Call Bytes}
    {phase : Phase Bytes} {reply : Reply Bytes} (hasked : (t, u) ∈ s.asked)
    (hretried : ∀ a ∈ retried, a.Retried) (ht : s.front.tasks[t]? = some ⟨call, phase⟩)
    (hu : s.shield.edge.tasks[u]? = some ⟨call', .returned reply⟩)
    (haway : reply.turnedAway = false)
    (hover : ¬ Task.ServedOverAge ⟨call', .returned reply⟩) :
    Edge.Truthful C.front H (max 0 C.front.defaultTtl) (shieldAge C M) s.front
      (.answer t (OriginClient.fetch (retried ++ [attempt C call reply responseTime]))) := by
  intro t' r ha τ hτ
  obtain ⟨rfl, hfetch⟩ := Action.answer.inj ha
  rw [Option.mem_def, ht, Option.some.injEq] at hτ
  subst hτ
  have hmem := List.mem_of_getElem? hu
  -- what the shield has returned, and when it was shown
  have hshown := (kept.shield.dated.tasks _ hmem).returned reply rfl haway hover
  obtain ⟨r₀, hplain₀, -, -, hheaders⟩ :=
    (kept.plain.tasks _ hmem).returned reply rfl (own_of_turnedAway haway)
  obtain ⟨headers, hattempt, hvary, hdirectives⟩ := attempt_of_plain call responseTime
    hinverts (hheaders ▸ hplain₀)
  -- the answer is that reply
  obtain ⟨received, hreceived, hlt, rfl⟩ := OriginClient.fetch_answered hfetch
  have hlast : attempt C call reply responseTime = .response received := by
    rcases List.mem_append.mp hreceived with hearlier | hlast
    · exact absurd hlt (not_lt.mpr (hretried _ hearlier))
    · exact (List.mem_singleton.mp hlast).symm
  rw [hattempt] at hlast
  cases hlast
  obtain ⟨call₁, call₁', ht₁, hu₁, hpath, hbegan⟩ := kept.asked t u hasked
  obtain rfl : call = call₁ := Option.some.inj ((Edge.calls_of_task ht).symm.trans ht₁)
  obtain rfl : call' = call₁' := Option.some.inj ((Edge.calls_of_task hu).symm.trans hu₁)
  have hrefreshes : call.refreshes? (OriginClient.originResponse
      ⟨(reply.response C.shield.service).statusCode, headers,
        (reply.response C.shield.service).content⟩) = none := by
    obtain ⟨t₀, -, -, hstood⟩ := hshown
    exact if_neg (hpasses.status t₀ _ _ hstood)
  refine ⟨?_, hvary, Deployment.grants_default hdirectives⟩
  rw [Call.told, hrefreshes, ite_self]
  obtain ⟨t₀, hlo, hhi, hstood⟩ := hshown
  replace hstood := hpasses.path t₀ call _ (hpath ▸ hstood)
  exact ⟨t₀, by unfold shieldAge; linarith, kept.clock ▸ hhi, hstood⟩

/-! ### Every run -/

/-- A step of the shield keeps what is the shield's. -/
theorem Kept.shield_step (kept : Kept C H L M s)
    (hinj : Function.Injective C.shield.origin.md5)
    (hhex : ∀ content, '"' ∉ (C.shield.origin.md5 content).toList)
    (hnow : ∀ path v, Deployment.Stands C.shield s.shield.files path v →
      H s.shield.edge.wall path v)
    {b : Deployment.Action} (hmeets : ShieldMeets C M s.shield b) {d : Deployment}
    (hstep : s.shield.step C.shield b = some d) :
    Deployment.Kept C.shield H M d ∧
      Edge.Sourced (fun r => PlainHeaders r.headers) C.shield.service d.edge := by
  exact ⟨Deployment.kept_step hinj hhex kept.shield hnow hmeets hstep,
    Deployment.sourced_step (fun _ hseen => hseen.supplies_plain) kept.plain hstep⟩

/-- A step of the front edge keeps what is the front edge's. -/
theorem Kept.front_step (kept : Kept C H L M s) {b : Cdn.Action Bytes}
    (htruth : Edge.Truthful C.front H (max 0 C.front.defaultTtl) (shieldAge C M) s.front b)
    (htimely : Edge.Timely L s.front b) (hforward : Edge.Forward s.front b)
    (hforge : Edge.Unforged C.front s.front b) {e : Edge Bytes}
    (hstep : s.front.step C.front b = some e) :
    Edge.Dated C.front H (max 0 C.front.defaultTtl) (shieldAge C M) L e ∧
      ∃ new, e.calls = s.front.calls ++ new := by
  obtain ⟨new, hnew, -⟩ := Edge.extends_step hstep
  exact ⟨Edge.dated_step (le_max_left 0 _) kept.front hstep htruth htimely hforward hforge,
    new, hnew⟩

theorem kept_step (hinj : Function.Injective C.shield.origin.md5)
    (hhex : ∀ content, '"' ∉ (C.shield.origin.md5 content).toList)
    (hinverts : Inverts C.shield.codec C.routes.compressors) (hpasses : Passes H)
    (kept : Kept C H L M s)
    (hnow : ∀ path v, Deployment.Stands C.shield s.shield.files path v →
      H s.shield.edge.wall path v)
    (horderly : Orderly C L M s a) (hstep : s.step C a = some s') : Kept C H L M s' := by
  have hanswer : ∀ t outcome, Edge.Timely L s.front (.answer t outcome) ∧
      Edge.Forward s.front (.answer t outcome) ∧ Edge.Unforged C.front s.front (.answer t outcome) :=
    fun t outcome => ⟨by simp [Edge.Timely], by simp [Edge.Forward], trivial⟩
  have hsilent : ∀ b : Cdn.Action Bytes, (∀ t outcome, b ≠ .answer t outcome) →
      Edge.Truthful C.front H (max 0 C.front.defaultTtl) (shieldAge C M) s.front b :=
    fun b hb t r ha => absurd ha (hb t _)
  cases moved_of_step hstep with
  | @front b e hb htick hmoved =>
      obtain ⟨hdated, hcalls⟩ := kept.front_step (hsilent b hb) horderly.1
        (fun wall mono h => absurd h (htick wall mono)) horderly.2 hmoved
      exact ⟨kept.shield, kept.plain, hdated, (wall_of_answer hmoved htick).trans kept.clock,
        fun t u h => (kept.asked t u h).mono hcalls ⟨[], by simp⟩⟩
  | @shield b d htick hmoved =>
      obtain ⟨hshield, hplain⟩ := kept.shield_step hinj hhex hnow horderly hmoved
      obtain ⟨hcalls, hwall⟩ := calls_of_step hmoved
      exact ⟨hshield, hplain, kept.front, kept.clock.trans (hwall htick).symm,
        fun t u h => (kept.asked t u h).mono ⟨[], by simp⟩ hcalls⟩
  | @asked t call role d ht hmoved =>
      obtain ⟨hshield, hplain⟩ := kept.shield_step hinj hhex hnow (horderly _ ht) hmoved
      obtain ⟨hcalls, hwall⟩ := calls_of_step hmoved
      refine ⟨hshield, hplain, kept.front,
        kept.clock.trans (hwall (fun _ _ => by simp [arrival])).symm, fun t' u h => ?_⟩
      rcases List.mem_cons.mp h with hnew | hold
      · obtain ⟨rfl, rfl⟩ := Prod.mk.inj hnew
        refine ⟨call, _, Edge.calls_of_task ht, call_of_arrival hmoved, rfl, ?_⟩
        exact ((kept.front.tasks _ (List.mem_of_getElem? ht)).began).trans kept.clock.le
      · exact (kept.asked t' u hold).mono ⟨[], by simp⟩ hcalls
  | @relayed t u retried responseTime call call' phase reply e hasked hretried ht hu hmoved =>
      obtain ⟨hover, haway⟩ := horderly _ hu
      have htruth := kept.truthful hpasses hinverts responseTime hasked hretried ht hu
        (haway reply rfl) hover
      obtain ⟨htimely, hforward, hforge⟩ := hanswer t
        (OriginClient.fetch (retried ++ [attempt C call reply responseTime]))
      obtain ⟨hdated, hcalls⟩ := kept.front_step htruth htimely hforward hforge hmoved
      exact ⟨kept.shield, kept.plain, hdated, (wall_of_answer hmoved (by simp)).trans kept.clock,
        fun t u h => (kept.asked t u h).mono hcalls ⟨[], by simp⟩⟩
  | @failed t e hmoved =>
      obtain ⟨htimely, hforward, hforge⟩ := hanswer t .failed
      obtain ⟨hdated, hcalls⟩ := kept.front_step (fun t' r ha => by cases ha) htimely hforward
        hforge hmoved
      exact ⟨kept.shield, kept.plain, hdated, (wall_of_answer hmoved (by simp)).trans kept.clock,
        fun t u h => (kept.asked t u h).mono hcalls ⟨[], by simp⟩⟩
  | @ticked wall frontMono shieldMono e d hfront hshield =>
      have hwall : e.wall = d.edge.wall :=
        (wall_of_tick hfront).trans (wall_of_tick (Deployment.take_eq_some hshield).1).symm
      obtain ⟨hdated, hcalls⟩ := kept.front_step (b := .tick wall frontMono)
        (hsilent _ (by simp)) (by simp [Edge.Timely])
        (fun wall mono h => by cases h; exact horderly) trivial hfront
      have hmeets : ShieldMeets C M s.shield (.edge (.tick wall shieldMono)) := by
        intro b hseen
        cases hseen
        exact ⟨by simp [Edge.Timely], fun wall mono h => by cases h; exact kept.clock ▸ horderly,
          trivial⟩
      obtain ⟨hkept, hplain⟩ := kept.shield_step hinj hhex hnow hmeets hshield
      obtain ⟨hmore, -⟩ := calls_of_step hshield
      exact ⟨hkept, hplain, hdated, hwall, fun t u h => (kept.asked t u h).mono hcalls hmore⟩

def sampleSent (headers : Headers) : Headers :=
  Dict.ofList (("accept-encoding", "gzip") :: headers.items.map fun p => (Http.lowerName p.1, p.2))

theorem sampleSent_plain (cached : Option (CacheEntry Bytes)) :
    (sampleSent (fetchHeaders cached)).get? "range" = none ∧
      (sampleSent (fetchHeaders cached)).get? "x-cdn-token" = none := by
  have hempty : (sampleSent ∅).get? "range" = none ∧ (sampleSent ∅).get? "x-cdn-token" = none := by
    decide +kernel
  have hlower : Http.lowerName "If-None-Match" = "if-none-match" := by decide +kernel
  have htagged : ∀ tag, sampleSent (Dict.ofList [("If-None-Match", tag)]) =
      Dict.ofList [("accept-encoding", "gzip"), ("if-none-match", tag)] := by
    intro tag
    rw [← hlower]
    rfl
  unfold fetchHeaders
  split
  · split
    · exact htagged _ ▸ ⟨rfl, rfl⟩
    · exact hempty
  · exact hempty

def sampleShielded : Setup where
  shield := Deployment.sampleDeployment
  routes := plainRoutes
  front := Deployment.sampleService
  sent := sampleSent
  sent_plain := sampleSent_plain

def sampleStart : Shielded := start 1000 1000 {} {} 0 0 0 Deployment.sampleFiles

/-- The conditions on a step of the shield, as far as they compute. -/
def steadyShield (s : Deployment) : Deployment.Action → Bool
  | .edge (.resume t) => s.edge.tasks[t]?.all fun τ => s.edge.wall ≤ τ.call.began
  | .edge (.arrive path rh) => Edge.Unforged Deployment.sampleService s.edge (.arrive path rh)
  | _ => true

theorem steadyShield_sound {s : Deployment} {a : Deployment.Action} (h : steadyShield s a = true)
    (htick : ∀ wall mono, a ≠ .edge (.tick wall mono)) : ShieldMeets sampleShielded 0 s a := by
  refine Deployment.steady_sound ?_
  cases a with
  | edge b =>
      cases b with
      | tick wall mono => exact absurd rfl (htick wall mono)
      | _ => exact h
  | _ => rfl

/-- The conditions on a step, as far as they compute. -/
def steady (s : Shielded) : Action → Bool
  | .front (.resume t) => s.front.tasks[t]?.all fun τ => s.front.wall ≤ τ.call.began
  | .front (.arrive path rh) => Edge.Unforged Deployment.sampleService s.front (.arrive path rh)
  | .front (.tick _ _) => false
  | .shield (.edge (.tick _ _)) => false
  | .shield b => steadyShield s.shield b
  | .ask t => s.front.tasks[t]?.all fun τ =>
      steadyShield s.shield (arrival sampleShielded τ.call)
  | .relay _ u _ _ => s.shield.edge.tasks[u]?.all fun τ => match τ.phase with
      | .returned reply => reply.turnedAway = false ∧ ¬ τ.ServedOverAge
      | _ => false
  | .tick wall _ _ => s.front.wall ≤ wall
  | _ => true

theorem steady_sound {s : Shielded} {a : Action} (h : steady s a = true) :
    Orderly sampleShielded 0 0 s a := by
  cases a with
  | front b =>
      refine ⟨?_, ?_⟩
      · rintro t call role r rfl ht
        rw [add_zero]
        exact of_decide_eq_true ((Option.all_eq_true _ _).mp h _ ht)
      · cases b with
        | arrive path rh => exact of_decide_eq_true h
        | _ => trivial
  | shield b =>
      refine steadyShield_sound ?_ ?_
      · cases b with
        | edge c =>
            cases c with
            | tick wall mono => cases h
            | _ => exact h
        | _ => exact h
      · rintro wall mono rfl
        cases h
  | ask t =>
      intro τ hτ
      exact steadyShield_sound ((Option.all_eq_true _ _).mp h τ hτ) (by simp [arrival])
  | relay t u retried responseTime =>
      intro τ hτ
      have hserved := (Option.all_eq_true _ _).mp h τ hτ
      split at hserved
      · rename_i reply hphase
        obtain ⟨haway, hover⟩ := of_decide_eq_true hserved
        exact ⟨hover, fun reply' hphase' => by
          rw [hphase] at hphase'
          cases hphase'
          exact haway⟩
      · cases hserved
  | fail t => trivial
  | tick wall frontMono shieldMono =>
      show s.front.wall ≤ wall
      exact of_decide_eq_true h

end Shielded

end Cdn

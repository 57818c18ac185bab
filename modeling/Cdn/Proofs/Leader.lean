/-
A leader that brings an entry back answers all who waited for it.

While a leader is at the origin its event stands in the table, so every call of its key
that has nothing to serve joins it, and none of them can go on before it ends.  When it
ends with an entry filed under the key, its event is set and each of them finds that
entry, as long as it is left there.  So one request goes out for all of them, and they
all return what the leader returns.
-/
import Cdn.Proofs.Age

namespace Cdn

variable {β : Type} {S : Setup β}

/-- A response that can be stored: its directives allow it, and its lifetime and its
window are numbers a float can hold. -/
def Storable (S : Setup β) (r : OriginResponse β) : Prop :=
  ∃ directives ttl swr, directivesOf r.headers = .ok directives ∧
    directives.isCacheable = true ∧ directives.effectiveTtl S.defaultTtl = .ok ttl ∧
    directives.effectiveStaleWhileRevalidate = .ok swr

theorem settle_of_storable {r : OriginResponse β} (h : Storable S r) (call : Call β)
    (now : Time) : ∃ kv response, settle S call r now = .ok (some kv, response) := by
  obtain ⟨directives, ttl, swr, hdir, hcache, httl, hswr⟩ := h
  unfold settle
  rw [hdir]
  simp only [bind, Except.bind, hcache, httl, hswr, Bool.not_true, Bool.false_eq_true, if_false]
  split <;> exact ⟨_, _, rfl⟩

/-- What the fetching call returns is what a call that finds the new entry returns. -/
theorem Settled.response {call : Call β} {r : OriginResponse β} {now : Time} {k : String}
    {e : CacheEntry β} {response : Response β} (h : Settled S call r now (some (k, e)) response) :
    response = (Reply.coalesced e).response S := by
  cases h <;> rfl

theorem response_of_core {e e' : CacheEntry β} (h : e.core = e'.core) :
    (Reply.coalesced e).response S = (Reply.coalesced e').response S := by
  show (Reply.coalesced e.core).response S = (Reply.coalesced e'.core).response S
  rw [h]

namespace Edge

variable {s s' m : Edge β} {a : Action β} {k : String} {t L E : Nat}

/-! ### Requests to the origin -/

/-- The task that sends a request in a step. -/
inductive Sends (s : Edge β) : Action β → Nat → Prop where
  | led {path : String} {rh : Option Headers} : Sends s (.arrive path rh) s.tasks.length
  | revalidating {t : Nat} {call : Call β} (ht : s.tasks[t]? = some ⟨call, .scheduled⟩) :
      Sends s (.resume t) t
  | retried {t : Nat} {call : Call β} {event : Nat}
      (ht : s.tasks[t]? = some ⟨call, .waiting event⟩) (hset : s.events[event]? = some true)
      (habsent : s.cacheStore.store.get? call.key = none) : Sends s (.resume t) t

/-- A move sends no request, or one. -/
theorem Move.originCalls (h : Move S s a m) : m.originCalls = s.originCalls ∨
    ∃ c, m.originCalls = s.originCalls ++ [c] ∧ Sends s a c.task := by
  cases h with
  | led hmiss hopen hfree hallow => exact Or.inr ⟨_, rfl, .led⟩
  | revalidating ht hallow => exact Or.inr ⟨_, rfl, .revalidating ht⟩
  | retried ht hset habsent hallow => exact Or.inr ⟨_, rfl, .retried ht hset habsent⟩
  | _ => exact Or.inl (by simp [purge])

/-- The number of requests a task has sent. -/
def sent (s : Edge β) (t : Nat) : Nat := s.originCalls.countP (·.task = t)

theorem sent_step (hstep : s.step S a = some s') (h : ¬ Sends s a t) : s'.sent t = s.sent t := by
  obtain ⟨m, hmove, rfl⟩ := move_of_step hstep
  rcases hmove.originCalls with hcalls | ⟨c, hcalls, hsends⟩
  · rw [sent, stamp_originCalls, hcalls, sent]
  · have hc : c.task ≠ t := by
      rintro rfl
      exact h hsends
    simp [sent, hcalls, List.countP_append, hc]

/-- Only tasks send requests. -/
def SentByTasks (s : Edge β) : Prop := ∀ c ∈ s.originCalls, c.task < s.tasks.length

theorem length_lt_of_arrive {path : String} {rh : Option Headers}
    (hstep : s.step S (.arrive path rh) = some s') : s.tasks.length < s'.tasks.length := by
  obtain ⟨m, hmove, rfl⟩ := move_of_step hstep
  cases hmove <;> simp

theorem sentByTasks_step (hs : s.SentByTasks) (hstep : s.step S a = some s') :
    s'.SentByTasks := by
  have hle := length_le_of_step hstep
  have hsends : ∀ u, Sends s a u → u < s'.tasks.length := by
    intro u hu
    cases hu with
    | led => exact length_lt_of_arrive hstep
    | revalidating ht => exact (List.getElem?_eq_some_iff.mp ht).1.trans_le hle
    | retried ht hset habsent => exact (List.getElem?_eq_some_iff.mp ht).1.trans_le hle
  intro c hc
  obtain ⟨m, hmove, rfl⟩ := move_of_step hstep
  rw [stamp_originCalls] at hc
  rcases hmove.originCalls with hcalls | ⟨c', hcalls, hc'⟩
  · rw [hcalls] at hc
    exact (hs c hc).trans_le hle
  · rw [hcalls] at hc
    rcases List.mem_append.mp hc with hc | hc
    · exact (hs c hc).trans_le hle
    · rw [List.mem_singleton.mp hc]
      exact hsends _ hc'

/-- A task that is not there yet has sent nothing. -/
theorem SentByTasks.sent_eq_zero (hs : s.SentByTasks) (ht : s.tasks.length ≤ t) :
    s.sent t = 0 := by
  refine List.countP_eq_zero.mpr fun c hc hct => ?_
  have hlt := hs c hc
  rw [of_decide_eq_true hct] at hlt
  omega

/-! ### Tasks that stay where they are -/

/-- What a task can do at a step it is not cancelled in depends on where it stands. -/
theorem kept_of_waiting {call : Call β} {event : Nat}
    (ht : s.tasks[t]? = some ⟨call, .waiting event⟩) (hstep : s.step S a = some s')
    (hcancel : a ≠ .cancel t) (hresume : a ≠ .resume t) :
    s'.tasks[t]? = some ⟨call, .waiting event⟩ := by
  obtain ⟨m, hmove, rfl⟩ := move_of_step hstep
  refine hmove.frame (fun hc => ?_) ht
  cases a with
  | answer u outcome =>
      cases hc
      simp [step, act, answer, ht] at hstep
  | resume u => cases hc; exact hresume rfl
  | cancel u => cases hc; exact hcancel rfl
  | _ => cases hc

theorem Leads.step (h : s.Leads t k E) (hstep : s.step S a = some s') (hresume : a ≠ .resume t)
    (hcancel : a ≠ .cancel t) : s'.Leads t k E := by
  obtain ⟨call, outcome, ht, hkey⟩ := h
  by_cases htask : a.task? = some t
  · cases a with
    | answer u outcome' =>
        cases htask
        obtain ⟨m, hmove, rfl⟩ := move_of_step hstep
        cases hmove with
        | answered hu =>
            rw [ht] at hu
            cases hu
            exact ⟨call, some outcome', by simp [ht], hkey⟩
    | resume u => cases htask; exact absurd rfl hresume
    | cancel u => cases htask; exact absurd rfl hcancel
    | _ => cases htask
  · obtain ⟨m, hmove, rfl⟩ := move_of_step hstep
    exact ⟨call, outcome, hmove.frame htask ht, hkey⟩

/-! ### While the leader is at the origin -/

/-- A leader at the origin, with its one request. -/
structure Ahead (k : String) (L E : Nat) (s : Edge β) : Prop where
  ok : SingleFlight.Ok s.flight
  age : s.AgeOk
  byTasks : s.SentByTasks
  leads : s.Leads L k E
  once : s.sent L = 1

/-- A call that waits for the leader and has not been to the origin. -/
structure Behind (k : String) (E t : Nat) (s : Edge β) : Prop where
  waits : ∃ call, s.tasks[t]? = some ⟨call, .waiting E⟩ ∧ call.key = k
  never : s.sent t = 0

theorem Ahead.table (ahead : Ahead k L E s) : s.inflight.get? k = some E :=
  (ahead.ok.listed L k E (leads_iff.mp ahead.leads)).1

theorem Ahead.unset (ahead : Ahead k L E s) : s.events[E]? ≠ some true :=
  (ahead.ok.listed L k E (leads_iff.mp ahead.leads)).2.2

theorem Ahead.lt (ahead : Ahead k L E s) : L < s.tasks.length := by
  obtain ⟨call, outcome, ht, -⟩ := ahead.leads
  exact (List.getElem?_eq_some_iff.mp ht).1

theorem ahead_step (ahead : Ahead k L E s) (hstep : s.step S a = some s')
    (hresume : a ≠ .resume L) (hcancel : a ≠ .cancel L) : Ahead k L E s' where
  ok := ok_step s a s' ahead.ok hstep
  age := ageOk_step s a s' ahead.age hstep
  byTasks := sentByTasks_step ahead.byTasks hstep
  leads := ahead.leads.step hstep hresume hcancel
  once := by
    have hlt := ahead.lt
    rw [sent_step hstep ?_, ahead.once]
    intro hsends
    cases hsends with
    | led => exact absurd hlt (Nat.lt_irrefl _)
    | revalidating ht => exact hresume rfl
    | retried ht hset habsent => exact hresume rfl

/-- A call that waits for a leader at the origin goes on waiting. -/
theorem behind_step (ahead : Ahead k L E s) (behind : Behind k E t s)
    (hstep : s.step S a = some s') (hcancel : a ≠ .cancel t) : Behind k E t s' := by
  obtain ⟨⟨call, ht, hkey⟩, hnever⟩ := behind
  have hresume : a ≠ .resume t := by
    rintro rfl
    simp [step, act, resume, ht, ahead.unset] at hstep
  refine ⟨⟨call, kept_of_waiting ht hstep hcancel hresume, hkey⟩, ?_⟩
  rw [sent_step hstep ?_, hnever]
  intro hsends
  cases hsends with
  | led => exact absurd (List.getElem?_eq_some_iff.mp ht).1 (Nat.lt_irrefl _)
  | revalidating hu => exact hresume rfl
  | retried hu hset habsent => exact hresume rfl

/-- Nothing is under the key, or an entry past its lifetime and its stale window. -/
def Lapsed (s : Edge β) (k : String) : Prop := ∀ e ∈ s.entry k, e.OverAge s.wall

instance (s : Edge β) (k : String) : Decidable (s.Lapsed k) :=
  inferInstanceAs (Decidable (∀ e ∈ s.entry k, _))

theorem AgeOk.missed_of_lapsed (ok : s.AgeOk) {path : String} {rh : Option Headers}
    (h : s.Lapsed (keyOf S path rh)) : (s.arrival S path rh).Missed s.wall := by
  intro e he
  have hentry := entry_of_cached he
  have hwindow : 0 ≤ e.core.staleWhileRevalidate := ok.window _ e.core hentry
  exact CacheEntry.not_servable_of_overAge hwindow (h e.core hentry)

/-- A call arrives with key `k` while the key has lapsed and the circuit is not open. -/
def Joins (S : Setup β) (k : String) (s : Edge β) : Action β → Prop
  | .arrive path rh => keyOf S path rh = k ∧ s.Lapsed k ∧ s.circuitBreaker.stateAt s.mono ≠ .open
  | _ => False

instance (k : String) (s : Edge β) (a : Action β) : Decidable (Joins S k s a) :=
  match a with
  | .arrive _ _ => inferInstanceAs (Decidable (_ ∧ _ ∧ _))
  | .answer .. | .resume _ | .cancel _ | .purge .. | .tick .. | .reset => isFalse id

/-- The calls that arrive so in the course of a run, by their tasks. -/
def joiners (S : Setup β) (k : String) : Edge β → List (Action β) → List Nat
  | _, [] => []
  | s, a :: rest =>
      let joined := if Joins S k s a then [s.tasks.length] else []
      match s.step S a with
      | some s' => joined ++ joiners S k s' rest
      | none => joined

/-- A call that arrives so while the leader is at the origin waits for it. -/
theorem behind_of_joins (ahead : Ahead k L E s) (hjoins : Joins S k s a)
    (hstep : s.step S a = some s') : Behind k E s.tasks.length s' := by
  cases a with
  | arrive path rh =>
      obtain ⟨rfl, hlapsed, hopen⟩ := hjoins
      rw [step_joined (ahead.age.missed_of_lapsed hlapsed) hopen ahead.table,
        Option.some.injEq] at hstep
      subst hstep
      exact ⟨⟨s.arrival S path rh, by simp, rfl⟩, ahead.byTasks.sent_eq_zero le_rfl⟩
  | _ => exact absurd hjoins id

theorem ahead_run (p : List (Action β)) {s s' : Edge β} (ahead : Ahead k L E s)
    (hrun : Lts.run (step S) s p = some s') (hresume : .resume L ∉ p) (hcancel : .cancel L ∉ p) :
    Ahead k L E s' := by
  have hsteps : Lts.EachStep (step S) (fun _ a => a ≠ .resume L ∧ a ≠ .cancel L) s p := by
    refine Lts.eachStep_of_forall fun a ha => ⟨?_, ?_⟩ <;> rintro rfl
    · exact hresume ha
    · exact hcancel ha
  exact Lts.run_guarded (fun _ _ _ ahead hcond hstep => ahead_step ahead hstep hcond.1 hcond.2) p
    ahead hsteps hrun

/-- Whatever happens meanwhile, a call that waits for a leader goes on waiting. -/
theorem behind_run (p : List (Action β)) {s s' : Edge β} (ahead : Ahead k L E s)
    (behind : Behind k E t s) (hrun : Lts.run (step S) s p = some s') (hresume : .resume L ∉ p)
    (hcancel : .cancel L ∉ p) (hstay : .cancel t ∉ p) : Behind k E t s' := by
  have hsteps : Lts.EachStep (step S)
      (fun _ a => a ≠ .resume L ∧ a ≠ .cancel L ∧ a ≠ .cancel t) s p := by
    refine Lts.eachStep_of_forall fun a ha => ⟨?_, ?_, ?_⟩ <;> rintro rfl
    · exact hresume ha
    · exact hcancel ha
    · exact hstay ha
  have both : Ahead k L E s' ∧ Behind k E t s' :=
    Lts.run_guarded (I := fun s => Ahead k L E s ∧ Behind k E t s)
      (fun s a s' both hcond hstep => ⟨ahead_step both.1 hstep hcond.1 hcond.2.1,
        behind_step both.1 both.2 hstep hcond.2.2⟩) p ⟨ahead, behind⟩ hsteps hrun
  exact both.2

/-- **Whoever joins while the leader is at the origin waits for it at the end.** -/
theorem behind_of_joiners : ∀ (p : List (Action β)) {s s' : Edge β}, Ahead k L E s →
    Lts.run (step S) s p = some s' → .resume L ∉ p → .cancel L ∉ p → .cancel t ∉ p →
    t ∈ joiners S k s p → Behind k E t s' := by
  intro p
  induction p with
  | nil =>
      intro s s' _ _ _ _ _ ht
      cases ht
  | cons a rest ih =>
      intro s s' ahead hrun hresume hcancel hstay ht
      obtain ⟨mid, hstep, hrest⟩ := Lts.run_cons.mp hrun
      simp only [List.mem_cons, not_or] at hresume hcancel hstay
      have ahead' := ahead_step ahead hstep (Ne.symm hresume.1) (Ne.symm hcancel.1)
      simp only [joiners, hstep, List.mem_append] at ht
      rcases ht with ht | ht
      · split at ht
        · rename_i hjoins
          rw [List.mem_singleton.mp ht]
          rw [List.mem_singleton.mp ht] at hstay
          exact behind_run rest ahead' (behind_of_joins ahead hjoins hstep) hrest hresume.2
            hcancel.2 hstay.2
        · cases ht
      · exact ih ahead' hrest hresume.2 hcancel.2 hstay.2 ht

/-! ### When the leader has ended -/

/-- The call has returned this response. -/
def Answered (S : Setup β) (response : Response β) (t : Nat) (s : Edge β) : Prop :=
  ∃ call reply, s.tasks[t]? = some ⟨call, .returned reply⟩ ∧ reply.response S = response

theorem Answered.step {response : Response β} (h : Answered S response t s)
    (hstep : s.step S a = some s') : Answered S response t s' := by
  obtain ⟨call, reply, ht, hresponse⟩ := h
  exact ⟨call, reply, kept_of_over ht rfl hstep, hresponse⟩

theorem not_sends_of_answered {response : Response β} (h : Answered S response t s) :
    ¬ Sends s a t := by
  obtain ⟨call, reply, ht, -⟩ := h
  intro hsends
  cases hsends with
  | led => exact absurd (List.getElem?_eq_some_iff.mp ht).1 (Nat.lt_irrefl _)
  | revalidating hu => rw [ht] at hu; cases hu
  | retried hu hset habsent => rw [ht] at hu; cases hu

/-- An event that is set stays set. -/
theorem set_step {event : Nat} (ok : SingleFlight.Ok s.flight)
    (hset : s.events[event]? = some true) (hstep : s.step S a = some s') :
    s'.events[event]? = some true := by
  obtain ⟨m, hmove, rfl⟩ := move_of_step hstep
  exact SingleFlight.fired_steps (steps_of_move ok hmove) hset

/-- A call that waited and finds the leader's entry returns what the leader returned. -/
theorem answered_of_wake {call : Call β} {e : CacheEntry β}
    (ht : s.tasks[t]? = some ⟨call, .waiting E⟩) (hset : s.events[E]? = some true)
    (hentry : s.entry call.key = some e.core) :
    ∃ s', s.step S (.resume t) = some s' ∧
      Answered S ((Reply.coalesced e).response S) t s' := by
  obtain ⟨found, hfound, hcore⟩ := Option.map_eq_some_iff.mp hentry
  refine ⟨_, step_coalesced ht hset hfound, call, .coalesced (found.touch s.wall), ?_, ?_⟩
  · simp [ht]
  · exact response_of_core hcore

/-- A call that has returned the leader's response, or will as soon as it goes on. -/
structure Due (S : Setup β) (k : String) (e : CacheEntry β) (E t : Nat) (s : Edge β) :
    Prop where
  ok : SingleFlight.Ok s.flight
  set : s.events[E]? = some true
  place : (∃ call, s.tasks[t]? = some ⟨call, .waiting E⟩ ∧ call.key = k) ∨
    Answered S ((Reply.coalesced e).response S) t s
  never : s.sent t = 0

theorem due_step {e : CacheEntry β} (due : Due S k e E t s) (hstep : s.step S a = some s')
    (hentry : s.entry k = some e.core) (hcancel : a ≠ .cancel t) : Due S k e E t s' := by
  refine ⟨ok_step s a s' due.ok hstep, set_step due.ok due.set hstep, ?_, ?_⟩
  · rcases due.place with ⟨call, ht, hkey⟩ | h
    · by_cases hresume : a = .resume t
      · subst hresume
        obtain ⟨mid, hwake, h⟩ := answered_of_wake ht due.set (hkey ▸ hentry)
        rw [hwake, Option.some.injEq] at hstep
        exact Or.inr (hstep ▸ h)
      · exact Or.inl ⟨call, kept_of_waiting ht hstep hcancel hresume, hkey⟩
    · exact Or.inr (h.step hstep)
  · rw [sent_step hstep ?_, due.never]
    rcases due.place with ⟨call, ht, hkey⟩ | h
    · intro hsends
      cases hsends with
      | led => exact absurd (List.getElem?_eq_some_iff.mp ht).1 (Nat.lt_irrefl _)
      | revalidating hu => rw [ht] at hu; cases hu
      | retried hu hset habsent =>
          rw [ht] at hu
          cases hu
          rw [hkey] at habsent
          simp [entry, habsent] at hentry
    · exact not_sends_of_answered h

/-- What holds once the leader has returned the content of `e`, for the calls `ts` that
waited for it. -/
structure Ended (S : Setup β) (k : String) (e : CacheEntry β) (L E : Nat) (ts : List Nat)
    (s : Edge β) : Prop where
  leader : Answered S ((Reply.coalesced e).response S) L s
  once : s.sent L = 1
  due : ∀ t ∈ ts, Due S k e E t s

/-- **As long as the entry is left where it is, no other request goes out for these calls.** -/
theorem ended_run {e : CacheEntry β} {ts : List Nat} (p : List (Action β)) {s s' : Edge β}
    (ended : Ended S k e L E ts s) (hrun : Lts.run (step S) s p = some s')
    (hkept : Lts.Always (step S) (fun s => s.entry k = some e.core) s p)
    (hstay : ∀ t ∈ ts, .cancel t ∉ p) : Ended S k e L E ts s' := by
  have hsteps : Lts.EachStep (step S)
      (fun s a => s.entry k = some e.core ∧ ∀ t ∈ ts, a ≠ .cancel t) s p := by
    refine hkept.eachStep.and (Lts.eachStep_of_forall fun a ha t ht => ?_)
    rintro rfl
    exact hstay t ht ha
  refine Lts.run_guarded ?_ p ended hsteps hrun
  intro s a s' ended hcond hstep
  have hsent := sent_step hstep (not_sends_of_answered ended.leader)
  exact ⟨ended.leader.step hstep, hsent.trans ended.once,
    fun t ht => due_step (ended.due t ht) hstep hcond.1 (hcond.2 t ht)⟩

theorem Ended.requests {e : CacheEntry β} {ts : List Nat} (ended : Ended S k e L E ts s) :
    (s.originCalls.countP fun c => c.task ∈ L :: ts) = 1 := by
  rw [← ended.once, sent]
  refine List.countP_congr fun c hc => ?_
  have hnot : c.task ∉ ts := by
    intro hmem
    have hzero := List.countP_eq_zero.mp (ended.due _ hmem).never c hc
    simp at hzero
  simp [hnot]

/-! ### The whole of it -/

/-- A call that leads is ahead, with its first request. -/
theorem ahead_of_led {path : String} {rh : Option Headers} {breaker : CircuitBreaker}
    (ok : SingleFlight.Ok s.flight) (age : s.AgeOk) (byTasks : s.SentByTasks)
    (hlapsed : s.Lapsed (keyOf S path rh))
    (hopen : s.circuitBreaker.stateAt s.mono ≠ .open)
    (hfree : s.inflight.get? (keyOf S path rh) = none)
    (hallow : s.circuitBreaker.aenter s.mono = .ok breaker)
    (hstep : s.step S (.arrive path rh) = some s') :
    Ahead (keyOf S path rh) s.tasks.length s.events.length s' := by
  refine ⟨ok_step _ _ _ ok hstep, ageOk_step _ _ _ age hstep, sentByTasks_step byTasks hstep,
    ?_, ?_⟩ <;> rw [step_led (age.missed_of_lapsed hlapsed) hopen hfree hallow,
      Option.some.injEq] at hstep <;> subst hstep
  · refine ⟨s.arrival S path rh, none, ?_, rfl⟩
    rw [stamp_tasks, led_tasks]
    simp
  · have hzero : s.sent s.tasks.length = 0 := byTasks.sent_eq_zero le_rfl
    simp only [sent] at hzero
    simp [sent, List.countP_append, hzero]

/-- A leader that ends with a response that is stored without Vary leaves it under its key,
and lets go on whoever waits. -/
theorem entry_of_ended {call : Call β} {role : Role} {r : OriginResponse β}
    (ahead : Ahead k L E s)
    (ht : s.tasks[L]? = some ⟨call, .fetching role (some (.answered r))⟩)
    (hr : Storable S r) (hvary : r.headers.getD "vary" "" = "")
    (hstep : s.step S (.resume L) = some s') :
    ∃ e, s'.entry k = some e.core ∧ Answered S ((Reply.coalesced e).response S) L s' ∧
      s'.events[E]? = some true ∧ s'.originCalls = s.originCalls := by
  obtain ⟨⟨key, e⟩, response, hsettle⟩ := settle_of_storable hr call s.wall
  have hsettled := settled_of_settle hsettle
  obtain ⟨call', outcome, ht', hkey⟩ := ahead.leads
  rw [ht, Option.some.injEq, Task.mk.injEq, Phase.fetching.injEq] at ht'
  obtain ⟨rfl, rfl, -⟩ := ht'
  have hfiled : key = k := by
    rw [hsettled.carried.1, Call.target, fileKey_of_no_vary hvary]
    split <;> exact hkey
  subst hfiled
  have hknown : E < s.events.length :=
    (ahead.ok.listed _ _ _ (leads_iff.mp ahead.leads)).2.1
  rw [step_settled ht hsettle, Option.some.injEq] at hstep
  subst hstep
  refine ⟨e, ?_, ⟨call, .fetched response, ?_, hsettled.response⟩, ?_, ?_⟩
  · simp [entry, file, LruCacheStore.get?_put_self]
  · rw [stamp_tasks, conclude_tasks, file_tasks]
    simp [ht, endPhase]
  · simp [conclude, hknown]
  · simp

theorem due_of_behind {e : CacheEntry β} (ahead : Ahead k L E s) (behind : Behind k E t s)
    (hstep : s.step S (.resume L) = some s') (hset : s'.events[E]? = some true)
    (hcalls : s'.originCalls = s.originCalls) : Due S k e E t s' := by
  obtain ⟨⟨call, ht, hkey⟩, hnever⟩ := behind
  have hne : (.resume L : Action β) ≠ .resume t := by
    rintro hc
    cases hc
    obtain ⟨call', outcome, ht', -⟩ := ahead.leads
    rw [ht] at ht'
    cases ht'
  refine ⟨ok_step _ _ _ ahead.ok hstep, hset,
    Or.inl ⟨call, kept_of_waiting ht hstep (by simp) hne, hkey⟩, ?_⟩
  rw [sent, hcalls]
  exact hnever

/-- **Coalescing with a successful leader.**  A call leads its key at `s₀`; the calls `ts`
arrive with that key while it has lapsed, the circuit is not open and the leader is at the
origin; the leader ends with a response that is stored without Vary; and the entry it leaves
stays there.  Then one request goes out for all of them, the leader has returned a response,
and each of the others has returned the same one or does so as soon as it goes on. -/
theorem oneRequest_of_leader (maxSizeBytes : Int) (breaker breaker' : CircuitBreaker)
    (wall mono : Time) (path : String) (rh : Option Headers)
    (before during after : List (Action β)) (s₀ s₁ s₂ s₃ s₄ : Edge β) (call : Call β)
    (role : Role) (r : OriginResponse β) (ts : List Nat)
    (hbefore : Lts.run (step S) (start { maxSizeBytes } breaker wall mono) before = some s₀)
    (hlapsed : s₀.Lapsed (keyOf S path rh))
    (hopen : s₀.circuitBreaker.stateAt s₀.mono ≠ .open)
    (hfree : s₀.inflight.get? (keyOf S path rh) = none)
    (hallow : s₀.circuitBreaker.aenter s₀.mono = .ok breaker')
    (hled : s₀.step S (.arrive path rh) = some s₁)
    (hduring : Lts.run (step S) s₁ during = some s₂)
    (hlive : .resume s₀.tasks.length ∉ during ∧ .cancel s₀.tasks.length ∉ during)
    (hts : ∀ t ∈ ts, t ∈ joiners S (keyOf S path rh) s₁ during ∧
      .cancel t ∉ during ∧ .cancel t ∉ after)
    (hanswer : s₂.tasks[s₀.tasks.length]? = some ⟨call, .fetching role (some (.answered r))⟩)
    (hr : Storable S r) (hvary : r.headers.getD "vary" "" = "")
    (hended : s₂.step S (.resume s₀.tasks.length) = some s₃)
    (hafter : Lts.run (step S) s₃ after = some s₄)
    (hkept : Lts.Always (step S) (fun s => s.entry (keyOf S path rh) =
      s₃.entry (keyOf S path rh)) s₃ after) :
    (s₄.originCalls.countP fun c => c.task ∈ s₀.tasks.length :: ts) = 1 ∧
      ∃ response, Answered S response s₀.tasks.length s₄ ∧
        ∀ t ∈ ts, Answered S response t s₄ ∨
          ∃ s₅, s₄.step S (.resume t) = some s₅ ∧ Answered S response t s₅ := by
  have age : s₀.AgeOk :=
    Lts.run_invariant ageOk_step before (ageOk_start maxSizeBytes breaker wall mono) hbefore
  have byTasks : s₀.SentByTasks :=
    Lts.run_invariant (fun _ _ _ => sentByTasks_step) before (fun c hc => by cases hc) hbefore
  have ahead₁ := ahead_of_led (ok_of_run hbefore) age byTasks hlapsed hopen hfree hallow hled
  have ahead₂ := ahead_run during ahead₁ hduring hlive.1 hlive.2
  obtain ⟨e, hentry, hanswered, hset, hcalls⟩ := entry_of_ended ahead₂ hanswer hr hvary hended
  have ended₃ : Ended S (keyOf S path rh) e s₀.tasks.length s₀.events.length ts s₃ := by
    refine ⟨hanswered, ?_, fun t ht => ?_⟩
    · rw [sent, hcalls]
      exact ahead₂.once
    · obtain ⟨hjoins, hstay, -⟩ := hts t ht
      exact due_of_behind ahead₂
        (behind_of_joiners during ahead₁ hduring hlive.1 hlive.2 hstay hjoins) hended hset hcalls
  rw [hentry] at hkept
  have ended₄ := ended_run after ended₃ hafter hkept fun t ht => (hts t ht).2.2
  refine ⟨ended₄.requests, (Reply.coalesced e).response S, ended₄.leader, fun t ht => ?_⟩
  have due := ended₄.due t ht
  rcases due.place with ⟨waiter, hwaits, hkey⟩ | h
  · exact Or.inr (answered_of_wake hwaits due.set (hkey ▸ hkept.last hafter))
  · exact Or.inl h

/-! ### Three calls for one file -/

/-- Two more calls arrive, and the origin answers the leader. -/
def twoWaiters : List (Action Nat) :=
  [.arrive "a" gzip, .arrive "a" gzip, .answer 0 (.answered { content := 1, statusCode := 200 })]

/-- One of the two goes on. -/
theorem oneRequest_twoWaiters : ∃ s₄ : Edge Nat,
    (s₄.originCalls.countP fun c => c.task ∈ [0, 1, 2]) = 1 ∧
      ∃ response, Answered sampleSetup response 0 s₄ ∧
        ∀ t ∈ [1, 2], Answered sampleSetup response t s₄ ∨
          ∃ s₅, s₄.step sampleSetup (.resume t) = some s₅ ∧
            Answered sampleSetup response t s₅ := by
  let s₁ := Lts.last (step sampleSetup) sampleStart [.arrive "a" gzip]
  let s₂ := Lts.last (step sampleSetup) s₁ twoWaiters
  let s₃ := Lts.last (step sampleSetup) s₂ [.resume 0]
  let s₄ := Lts.last (step sampleSetup) s₃ [.resume 1]
  have hled : (Lts.run (step sampleSetup) sampleStart [.arrive "a" gzip]).isSome = true := by
    decide +kernel
  have hduring : (Lts.run (step sampleSetup) s₁ twoWaiters).isSome = true := by decide +kernel
  have hended : (Lts.run (step sampleSetup) s₂ [.resume 0]).isSome = true := by decide +kernel
  have hafter : (Lts.run (step sampleSetup) s₃ [.resume 1]).isSome = true := by decide +kernel
  have hanswer : s₂.tasks[0]? = some ⟨sampleStart.arrival sampleSetup "a" gzip,
      .fetching (.leader 0) (some (.answered { content := 1, statusCode := 200 }))⟩ := by
    decide +kernel
  have hjoiners : joiners sampleSetup (keyOf sampleSetup "a" gzip) s₁ twoWaiters = [1, 2] := by
    decide +kernel
  have hentry : s₄.entry (keyOf sampleSetup "a" gzip) =
      s₃.entry (keyOf sampleSetup "a" gzip) := by decide +kernel
  have hallow : sampleStart.circuitBreaker.aenter sampleStart.mono = .ok {} := by decide +kernel
  refine ⟨s₄, oneRequest_of_leader _ _ _ _ _ "a" gzip [] twoWaiters [.resume 1] sampleStart
    s₁ s₂ s₃ s₄ _ _ _ [1, 2] rfl ?_ ?_ rfl hallow (Lts.run_singleton.mp (Lts.run_last hled))
    (Lts.run_last hduring) ?_ ?_ hanswer ⟨_, _, _, rfl, rfl, rfl, rfl⟩ rfl
    (Lts.run_singleton.mp (Lts.run_last hended)) (Lts.run_last hafter) ⟨rfl, fun s' hs' => ?_⟩⟩
  · decide +kernel
  · decide +kernel
  · decide +kernel
  · rw [hjoiners]
    decide +kernel
  · have hs₄ := Lts.run_singleton.mp (Lts.run_last hafter)
    rw [hs₄, Option.some.injEq] at hs'
    exact hs' ▸ hentry

end Edge

end Cdn

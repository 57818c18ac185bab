/-
Mandatory revalidation.

The parser reads no-cache and must-revalidate.  The first makes the lifetime zero and the
second is not looked at again, and neither has a say over the stale window: inside it a
response that must not be served without a word of the origin is served like any other.  A
304 has a second way: it gives the entry a lifetime of its own, and leaves the headers that
forbid it.  So the header is honoured exactly where lifetime and window, as they are stored,
are both over.
-/
import Cdn.Proofs.Age

namespace Cdn

variable {β : Type} {S : Setup β}

/-- The header binds the cache: it asks before every use, or once a lifetime that the header
gives is over. -/
def Mandatory (headers : Headers) : Prop :=
  let header := headers.getD "cache-control" ""
  HasDirective header "no-cache" ∨
    HasDirective header "must-revalidate" ∧
      (HasDirective header "max-age" ∨ HasDirective header "s-maxage")

instance (headers : Headers) : Decidable (Mandatory headers) :=
  inferInstanceAs (Decidable (_ ∨ _))

/-- The lifetime that headers give. -/
def lifetime (S : Setup β) (headers : Headers) : Except Exn Time := do
  (← directivesOf headers).effectiveTtl S.defaultTtl

/-- An entry that may not be served before the origin has been asked: its headers bind the
cache, and the lifetime they give is over. -/
def CacheEntry.Bound (S : Setup β) (e : CacheEntry β) (now : Time) : Prop :=
  Mandatory e.headers ∧ ∃ ttl, lifetime S e.headers = .ok ttl ∧ ttl < now - e.createdAt

/-- A client's call that is under way. -/
def Phase.underWay : Phase β → Bool
  | .waiting _ | .fetching (.leader _) _ | .fetching .follower _ => true
  | _ => false

namespace Edge

/-- No call of a client is under way; background revalidations may be. -/
def Alone (s : Edge β) : Prop := ∀ τ ∈ s.tasks, τ.phase.underWay = false

instance (s : Edge β) : Decidable s.Alone := inferInstanceAs (Decidable (∀ τ ∈ s.tasks, _))

/-- A call that finds the circuit closed, no other call under way and such an entry. -/
def Demands (S : Setup β) (s : Edge β) (a : Action β) (e : CacheEntry β) : Prop :=
  ∃ path rh, a = .arrive path rh ∧ s.Alone ∧ s.circuitBreaker.state = .closed ∧
    s.entry (keyOf S path rh) = some e ∧ e.Bound S s.wall

/-- Whenever the call that arrives has returned the body of the entry, the origin has
answered it. -/
def Revalidates (S : Setup β) (s : Edge β) (a : Action β) (e : CacheEntry β) : Prop :=
  ∀ q s' call reply, Lts.run (step S) s (a :: q) = some s' →
    s'.tasks[s.tasks.length]? = some ⟨call, .returned reply⟩ →
    (reply.response S).content = e.content →
    ∃ r, Action.answer s.tasks.length (.answered r) ∈ q

/-! ### A call that has not been answered -/

/-- A leader at the origin without an answer to go on with, or one that has ended badly. -/
inductive Unanswered : Phase β → Prop where
  | fetching {event : Nat} {outcome : Option (FetchOutcome β)}
      (h : ∀ r, outcome ≠ some (.answered r)) : Unanswered (.fetching (.leader event) outcome)
  | finished : Unanswered .finished
  | raised {x : Exn} : Unanswered (.raised x)

theorem unanswered_step {s s' : Edge β} {a : Action β} {t : Nat} {call : Call β}
    {phase : Phase β} (ht : s.tasks[t]? = some ⟨call, phase⟩) (h : Unanswered phase)
    (hstep : s.step S a = some s') (hanswer : ∀ r, a ≠ .answer t (.answered r)) :
    ∃ phase', s'.tasks[t]? = some ⟨call, phase'⟩ ∧ Unanswered phase' := by
  cases h with
  | finished => exact ⟨_, kept_of_over ht rfl hstep, .finished⟩
  | raised => exact ⟨_, kept_of_over ht rfl hstep, .raised⟩
  | @fetching event outcome h =>
      have hlt := (List.getElem?_eq_some_iff.mp ht).1
      have hlt' : t < s'.tasks.length := lt_of_lt_of_le hlt (length_le_of_step hstep)
      obtain ⟨m, hmove, rfl⟩ := move_of_step hstep
      obtain ⟨τ, hτ⟩ : ∃ τ, m.tasks[t]? = some τ := ⟨_, List.getElem?_eq_getElem hlt'⟩
      have hhere : ∀ {call' : Call β} {phase' : Phase β}, s.tasks[t]? = some ⟨call', phase'⟩ →
          call' = call ∧ phase' = .fetching (.leader event) outcome := by
        intro call' phase' ht'
        rw [ht] at ht'
        cases ht'
        exact ⟨rfl, rfl⟩
      rcases hmove.placed t τ hτ with hkept | hplaced
      · obtain rfl := Option.some.inj (ht.symm.trans hkept)
        exact ⟨_, hτ, .fetching h⟩
      · cases hplaced with
        | fresh ha hnew | stale ha hnew | scheduled ha hnew | rejected ha hnew | joined ha hnew
        | led ha hnew => omega
        | answered ha ht' =>
            obtain ⟨rfl, hphase⟩ := hhere ht'
            cases hphase
            refine ⟨_, hτ, .fetching fun r hr => hanswer r ?_⟩
            rw [ha, Option.some.inj hr]
        | revalidating ha ht' | retried ha ht' | coalesced ha ht' | retryRefused ha ht' =>
            cases (hhere ht').2
        | fetched ha ht' =>
            cases (hhere ht').2
            exact absurd rfl (h _)
        | ended hcall hphase =>
            cases hcall with
            | arrived ha hnew => omega
            | here ht' =>
                obtain ⟨rfl, -⟩ := hhere ht'
                rcases hphase with rfl | ⟨x, rfl, -⟩
                · exact ⟨_, hτ, .finished⟩
                · exact ⟨_, hτ, .raised⟩

/-! ### When the origin is asked -/

/-- Where no call is under way no key is being fetched. -/
theorem Alone.free {s : Edge β} (alone : s.Alone) (ok : SingleFlight.Ok s.flight) (k : String) :
    s.inflight.get? k = none := by
  cases htable : s.inflight.get? k with
  | none => rfl
  | some event =>
      obtain ⟨t, hleads⟩ := ok.owned k event htable
      obtain ⟨call, outcome, ht, -⟩ := leads_iff.mpr hleads
      cases alone _ (List.mem_of_getElem? ht)

/-- An entry that may be served by its age is served at once. -/
theorem returned_of_servable {s s' : Edge β} {path : String} {rh : Option Headers}
    {e : CacheEntry β} (hentry : s.entry (keyOf S path rh) = some e) (hage : ¬ e.OverAge s.wall)
    (hstep : s.step S (.arrive path rh) = some s') :
    ∃ call reply, s'.tasks[s.tasks.length]? = some ⟨call, .returned reply⟩ ∧
      (reply.response S).content = e.content := by
  obtain ⟨cached, hcached, rfl⟩ : ∃ cached, (s.arrival S path rh).cached = some cached ∧
      cached.core = e := by
    rw [← arrival_entry] at hentry
    exact Option.map_eq_some_iff.mp hentry
  have hnotMissed : ¬ (s.arrival S path rh).Missed s.wall := fun hmiss =>
    hage (hmiss.overAge (by rw [hcached]; rfl))
  obtain ⟨m, hmove, rfl⟩ := move_of_step hstep
  cases hmove with
  | fresh hcached' hfresh =>
      obtain rfl := Option.some.inj (hcached.symm.trans hcached')
      exact ⟨s.arrival S path rh, .fresh cached, by simp, rfl⟩
  | stale hcached' hservable hlisted | scheduled hcached' hservable hlisted =>
      obtain rfl := Option.some.inj (hcached.symm.trans hcached')
      exact ⟨s.arrival S path rh, .stale cached, by simp, rfl⟩
  | turnedAway hmiss | joined hmiss | led hmiss | refused hmiss => exact absurd hmiss hnotMissed

/-- A call that finds nothing to serve, no other under way and the circuit closed leads. -/
theorem Alone.step_led {s : Edge β} {path : String} {rh : Option Headers} (alone : s.Alone)
    (ok : SingleFlight.Ok s.flight) (hclosed : s.circuitBreaker.state = .closed)
    (hmiss : (s.arrival S path rh).Missed s.wall) :
    s.step S (.arrive path rh) = some (((s.read (keyOf S path rh)).register
      (s.arrival S path rh)).send s.tasks.length (.leader s.events.length)
      (s.arrival S path rh) s.circuitBreaker).stamp := by
  have hstate : s.circuitBreaker.stateAt s.mono = .closed := by
    simp [CircuitBreaker.stateAt, hclosed]
  have hallow : s.circuitBreaker.aenter s.mono = .ok s.circuitBreaker := by
    rw [CircuitBreaker.aenter, hstate]
  exact Edge.step_led hmiss (by rw [hstate]; decide) (alone.free ok _) hallow

/-- An entry past its window makes the call ask the origin itself. -/
theorem leads_of_overAge {s s' : Edge β} {path : String} {rh : Option Headers} {e : CacheEntry β}
    (ok : SingleFlight.Ok s.flight) (age : s.AgeOk) (alone : s.Alone)
    (hclosed : s.circuitBreaker.state = .closed) (hentry : s.entry (keyOf S path rh) = some e)
    (hage : e.OverAge s.wall) (hstep : s.step S (.arrive path rh) = some s') :
    s'.tasks[s.tasks.length]? =
      some ⟨s.arrival S path rh, .fetching (.leader s.events.length) none⟩ := by
  have hmiss : (s.arrival S path rh).Missed s.wall := by
    intro cached hcached
    obtain rfl := Option.some.inj (hentry.symm.trans (entry_of_cached hcached))
    have hwindow : 0 ≤ cached.core.staleWhileRevalidate := age.window _ _ hentry
    exact CacheEntry.not_servable_of_overAge (e := cached) hwindow hage
  rw [alone.step_led ok hclosed hmiss, Option.some.injEq] at hstep
  rw [← hstep, stamp_tasks, led_tasks]
  simp

/-- **A call that must ask the origin does so exactly if lifetime and window are over.** -/
theorem revalidates_iff {s : Edge β} {a : Action β} {e : CacheEntry β}
    (ok : SingleFlight.Ok s.flight) (age : s.AgeOk) (hdemands : Demands S s a e) :
    Revalidates S s a e ↔ e.OverAge s.wall := by
  obtain ⟨path, rh, rfl, alone, hclosed, hentry, -⟩ := hdemands
  constructor
  · intro h
    by_contra hage
    obtain ⟨s', hstep⟩ : ∃ s', s.step S (.arrive path rh) = some s' := ⟨_, rfl⟩
    obtain ⟨call, reply, ht, hcontent⟩ := returned_of_servable hentry hage hstep
    obtain ⟨r, hr⟩ := h [] s' call reply (Lts.run_singleton.mpr hstep) ht hcontent
    cases hr
  · intro hage q s' call reply hrun ht _
    obtain ⟨mid, hstep, hrest⟩ := Lts.run_cons.mp hrun
    have hled := leads_of_overAge ok age alone hclosed hentry hage hstep
    by_contra hnever
    have hall : ∀ a ∈ q, ∀ r, a ≠ .answer s.tasks.length (.answered r) := by
      rintro a ha r rfl
      exact hnever ⟨r, ha⟩
    obtain ⟨phase, ht', hphase⟩ := Lts.run_guarded
      (I := fun m : Edge β => ∃ phase, m.tasks[s.tasks.length]? =
        some ⟨s.arrival S path rh, phase⟩ ∧ Unanswered phase)
      (fun m a m' h hanswer hstep => unanswered_step h.choose_spec.1 h.choose_spec.2 hstep hanswer)
      q ⟨_, hled, .fetching (by simp)⟩ (Lts.eachStep_of_forall hall) hrest
    rw [ht, Option.some.injEq, Task.mk.injEq] at ht'
    rw [← ht'.2] at hphase
    cases hphase

/-- **Mandatory revalidation is honoured** in a run exactly if every call that must ask the
origin finds its entry past lifetime and stale window, as they are stored. -/
theorem revalidates_iff_overAge (maxSizeBytes : Int) (breaker : CircuitBreaker)
    (wall mono : Time) (p : List (Action β)) :
    Lts.EachStep (step S) (fun s a => ∀ e, Demands S s a e → Revalidates S s a e)
        (start { maxSizeBytes } breaker wall mono) p ↔
      Lts.EachStep (step S) (fun s a => ∀ e, Demands S s a e → e.OverAge s.wall)
        (start { maxSizeBytes } breaker wall mono) p := by
  refine Lts.eachStep_congr (I := fun s : Edge β => SingleFlight.Ok s.flight ∧ s.AgeOk) ?_ ?_ p
    ⟨ok_start _ breaker wall mono, ageOk_start maxSizeBytes breaker wall mono⟩
  · intro s a s' h hstep
    exact ⟨ok_step s a s' h.1 hstep, ageOk_step s a s' h.2 hstep⟩
  · intro s a s' h hstep
    exact forall_congr' fun e => forall_congr' fun hdemands => revalidates_iff h.1 h.2 hdemands

/-- An answer that is not to be served before the origin is asked, and that may be served
for a minute while it is. -/
def askFirst : OriginResponse Nat where
  content := 1
  statusCode := 200
  headers := Dict.ofList [("cache-control", "no-cache, stale-while-revalidate=60")]

def askFirstRun : List (Action Nat) :=
  [.arrive "a" none, .answer 0 (.answered askFirst), .resume 0, .tick 10 10]

/-- It is served after ten seconds, and nobody has asked. -/
theorem notRevalidated_askFirst : ¬ ∀ p : List (Action Nat),
    Lts.EachStep (step sampleSetup)
      (fun s a => ∀ e, Demands sampleSetup s a e → Revalidates sampleSetup s a e) sampleStart p := by
  intro h
  have hrun : (Lts.run (step sampleSetup) sampleStart askFirstRun).isSome = true := by
    decide +kernel
  have hlast := (Lts.eachStep_append (Lts.run_last hrun)
    (h (askFirstRun ++ [.arrive "a" none]))).2
  have halone : (Lts.last (step sampleSetup) sampleStart askFirstRun).Alone := by decide +kernel
  have hentry : (Lts.last (step sampleSetup) sampleStart askFirstRun).entry
      (keyOf sampleSetup "a" none) = some (newEntry sampleSetup askFirst 0 60 0 none) := by
    decide +kernel
  have hbound : (newEntry sampleSetup askFirst 0 60 0 none).Bound sampleSetup
      (Lts.last (step sampleSetup) sampleStart askFirstRun).wall :=
    ⟨by decide +kernel, 0, by decide +kernel, by decide +kernel⟩
  obtain ⟨call, reply, ht, hcontent⟩ :=
    returned_of_servable hentry (by decide +kernel) (S := sampleSetup) rfl
  obtain ⟨r, hr⟩ := (hlast _ rfl).1 _ ⟨"a", none, rfl, halone, by decide +kernel, hentry, hbound⟩
    [] _ call reply (Lts.run_singleton.mpr rfl) ht hcontent
  cases hr

end Edge

end Cdn

/-
What a call the breaker rejects is answered with.

It should be the entry the call read, or the 503.  The leader's path keeps to that, and
so does the circuit check before it.  A call that waited for a leader does not: where it
finds nothing it fetches outside the `try` that turns a rejection into an answer.
-/
import Cdn.Proofs.Flight
import Cdn.Proofs.Placed

namespace Cdn

variable {β : Type} {S : Setup β}

/-! ### A rejected call -/

/-- The answer to a call the breaker rejects: the entry it read, else the 503. -/
def fallback (S : Setup β) (cached : Option (CacheEntry β)) : Response β :=
  match cached with
  | some e => ⟨e.content, e.statusCode, e.headers, true⟩
  | none => ⟨S.unavailable, 503, Dict.ofList [("Content-Type", "text/plain")], false⟩

theorem response_ofOpen (cached : Option (CacheEntry β)) :
    (Reply.ofOpen cached).response S = fallback S cached := by cases cached <;> rfl

theorem response_ofRejected (cached : Option (CacheEntry β)) :
    (Reply.ofRejected cached).response S = fallback S cached := by cases cached <;> rfl

namespace Edge

/-- `CircuitOpenError` has left no task. -/
def NoEscape (s : Edge β) : Prop := ∀ τ ∈ s.tasks, ∀ x, τ.phase ≠ .raised (.circuitOpen x)

/-- The breaker rejects task `t`, at one of the three places where it can. -/
inductive Rejected (S : Setup β) (s : Edge β) : Action β → Nat → Prop where
  /-- A call finds the circuit open. -/
  | direct {path : String} {rh : Option Headers} (hmiss : (s.arrival S path rh).Missed s.wall)
      (hopen : s.circuitBreaker.stateAt s.mono = .open) :
      Rejected S s (.arrive path rh) s.tasks.length
  /-- A call that would lead is refused. -/
  | leader {path : String} {rh : Option Headers} {x : Time}
      (hmiss : (s.arrival S path rh).Missed s.wall)
      (hopen : s.circuitBreaker.stateAt s.mono ≠ .open)
      (hfree : s.inflight.get? (keyOf S path rh) = none)
      (hrefuse : s.circuitBreaker.aenter s.mono = .error (.circuitOpen x)) :
      Rejected S s (.arrive path rh) s.tasks.length
  /-- A call that waited and found nothing is refused. -/
  | follower {t : Nat} {call : Call β} {event : Nat} {x : Time}
      (ht : s.tasks[t]? = some ⟨call, .waiting event⟩) (hset : s.events[event]? = some true)
      (habsent : s.cacheStore.store.get? call.key = none)
      (hrefuse : s.circuitBreaker.aenter s.mono = .error (.circuitOpen x)) :
      Rejected S s (.resume t) t

/-- Whatever the step rejects, it answers. -/
def AnswersRejected (S : Setup β) (s : Edge β) (a : Action β) : Prop :=
  ∀ t, Rejected S s a t → ∃ s' call reply, s.step S a = some s' ∧
    s'.tasks[t]? = some ⟨call, .returned reply⟩ ∧ reply.response S = fallback S call.cached

/-- No waiter goes on to an empty place in the store while the breaker rejects. -/
def NoRefusedRetry (s : Edge β) (a : Action β) : Prop :=
  ∀ t call event x, a = .resume t → s.tasks[t]? = some ⟨call, .waiting event⟩ →
    s.events[event]? = some true → s.cacheStore.store.get? call.key = none →
    s.circuitBreaker.aenter s.mono ≠ .error (.circuitOpen x)

/-- A step lets no `CircuitOpenError` escape if no waiter is refused. -/
theorem noEscape_step {s s' : Edge β} {a : Action β} (hstep : s.step S a = some s')
    (hs : s.NoEscape) (hcond : s.NoRefusedRetry a) : s'.NoEscape := by
  refine forall_placed hstep hs fun t τ hτ x hx => ?_
  cases hτ with
  | retryRefused ha ht hset habsent hrefuse =>
      cases hx
      exact hcond _ _ _ x ha ht hset habsent hrefuse
  | ended hcall hphase =>
      rcases hphase with hphase | ⟨y, hphase, hy⟩
      · rw [hphase] at hx
        cases hx
      · rw [hphase, Phase.raised.injEq] at hx
        exact hy x hx
  | _ => cases hx

/-- A refused waiter is where it escapes. -/
theorem escape_of_retryRefused {s s' : Edge β} {t : Nat} {call : Call β} {event : Nat} {x : Time}
    (ht : s.tasks[t]? = some ⟨call, .waiting event⟩) (hset : s.events[event]? = some true)
    (habsent : s.cacheStore.store.get? call.key = none)
    (hrefuse : s.circuitBreaker.aenter s.mono = .error (.circuitOpen x))
    (hstep : s.step S (.resume t) = some s') : ¬ s'.NoEscape := by
  rw [step_retryRefused ht hset habsent hrefuse, Option.some.injEq] at hstep
  subst hstep
  intro hno
  have hget : (s.tasks.modify t fun τ => { τ with
      phase := endPhase .follower call (.error (.circuitOpen x)) })[t]? =
      some ⟨call, .raised (.circuitOpen x)⟩ := by simp [ht, endPhase]
  exact hno _ (List.mem_of_getElem? hget) x rfl

/-- Where no waiter is refused, whoever is rejected is answered. -/
theorem answersRejected_of_noRefusedRetry {s : Edge β} {a : Action β}
    (hcond : s.NoRefusedRetry a) : AnswersRejected S s a := by
  intro t hrejected
  cases hrejected with
  | @direct path rh hmiss hopen =>
      refine ⟨_, s.arrival S path rh, _, step_turnedAway hmiss hopen, ?_, response_ofOpen _⟩
      simp
  | @leader path rh x hmiss hopen hfree hrefuse =>
      refine ⟨_, s.arrival S path rh, _, step_refused hmiss hopen hfree hrefuse, ?_,
        response_ofRejected _⟩
      rw [stamp_tasks, refused_tasks]
      simp [endPhase]
  | @follower t call event x ht hset habsent hrefuse =>
      exact absurd hrefuse (hcond t call event x rfl ht hset habsent)

/-- **An open circuit is always answered, never raised,** exactly if no waiter of the run
goes on to an empty place in the store while the breaker rejects. -/
theorem answered_iff_noRefusedRetry (store : LruCacheStore β) (breaker : CircuitBreaker)
    (wall mono : Time) (p : List (Action β)) :
    (Lts.Always (step S) NoEscape (start store breaker wall mono) p ∧
        Lts.EachStep (step S) (AnswersRejected S) (start store breaker wall mono) p) ↔
      Lts.EachStep (step S) NoRefusedRetry (start store breaker wall mono) p := by
  have hescape : Lts.Always (step S) NoEscape (start store breaker wall mono) p ↔
      Lts.EachStep (step S) NoRefusedRetry (start store breaker wall mono) p := by
    refine Lts.always_iff_eachStep (I := fun _ => True) (fun _ _ _ _ _ => trivial) ?_ p trivial ?_
    · intro s a s' _ hs hstep
      constructor
      · rintro hs' t call event x rfl ht hset habsent hrefuse
        exact escape_of_retryRefused ht hset habsent hrefuse hstep hs'
      · intro hcond
        exact noEscape_step hstep hs hcond
    · intro τ hτ
      cases hτ
  rw [hescape]
  exact and_iff_left_of_imp (Lts.EachStep.mono fun s a => answersRejected_of_noRefusedRetry)

/-- The leader's failure trips the breaker just before its waiter wakes. -/
def tripped : List (Action Nat) :=
  [.arrive "a" gzip, .arrive "a" gzip, .answer 0 .failed, .resume 0, .resume 1]

/-- A call that waited raises what the breaker raised. -/
theorem escape_tripped : ¬ ∀ (breaker : CircuitBreaker) (p : List (Action Nat)) (s : Edge Nat),
    Lts.run (step sampleSetup) (start {} breaker 0 0) p = some s → s.NoEscape := by
  intro h
  have heval : (Lts.run (step sampleSetup) (start {} { failureThreshold := 1 } 0 0) tripped).map
      (·.tasks.map (·.phase)) =
      some [.raised .fetch, .raised (.circuitOpen 30)] := by decide +kernel
  obtain ⟨s, hrun, hphases⟩ := Option.map_eq_some_iff.mp heval
  have hmem : Phase.raised (.circuitOpen 30) ∈ s.tasks.map (·.phase) := by rw [hphases]; simp
  obtain ⟨τ, hτ, hphase⟩ := List.mem_map.mp hmem
  exact h _ _ s hrun τ hτ 30 hphase

end Edge

end Cdn

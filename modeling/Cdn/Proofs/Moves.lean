/-
What one step can do.

`Move` lists the ways a step can go, one constructor for each path through the code,
with the state it leaves behind.  `move_of_step` is the only place where the segments
are taken apart; every invariant of the edge is proved by cases on `Move`.
-/
import Cdn.Edge
import Cdn.Lib.Slots

namespace Cdn

variable {β : Type} {S : Setup β}

/-- The lookup found nothing that may be served: no entry, or one past its stale window. -/
def Call.Missed (call : Call β) (now : Time) : Prop :=
  ∀ e, call.cached = some e → e.isExpired now = true ∧ e.isStaleServable now = false

namespace Edge

/-! ### The fields a piece of a segment writes

Each piece writes two or three fields; these are the rest, but for the clocks and the
breaker.
-/

section fields

variable (s : Edge β) (t : Nat) (role : Role) (call : Call β) (phase : Phase β) (key : String)
  (breaker : CircuitBreaker) (filed : Option (String × CacheEntry β))
  (result : Except Exn (Reply β))

@[simp] theorem push_tasks : (s.push call phase).tasks = s.tasks ++ [⟨call, phase⟩] := rfl
@[simp] theorem push_cacheStore : (s.push call phase).cacheStore = s.cacheStore := rfl
@[simp] theorem push_inflight : (s.push call phase).inflight = s.inflight := rfl
@[simp] theorem push_events : (s.push call phase).events = s.events := rfl
@[simp] theorem push_instant : (s.push call phase).instant = s.instant := rfl
@[simp] theorem push_originCalls : (s.push call phase).originCalls = s.originCalls := rfl

@[simp] theorem setPhase_tasks :
    (s.setPhase t phase).tasks = s.tasks.modify t fun τ => { τ with phase } := rfl
@[simp] theorem setPhase_cacheStore : (s.setPhase t phase).cacheStore = s.cacheStore := rfl
@[simp] theorem setPhase_inflight : (s.setPhase t phase).inflight = s.inflight := rfl
@[simp] theorem setPhase_events : (s.setPhase t phase).events = s.events := rfl
@[simp] theorem setPhase_instant : (s.setPhase t phase).instant = s.instant := rfl
@[simp] theorem setPhase_originCalls : (s.setPhase t phase).originCalls = s.originCalls := rfl

@[simp] theorem read_tasks : (s.read key).tasks = s.tasks := rfl
@[simp] theorem read_cacheStore : (s.read key).cacheStore = (s.cacheStore.get s.wall key).2 := rfl
@[simp] theorem read_inflight : (s.read key).inflight = s.inflight := rfl
@[simp] theorem read_events : (s.read key).events = s.events := rfl
@[simp] theorem read_wall : (s.read key).wall = s.wall := rfl
@[simp] theorem read_instant : (s.read key).instant = s.instant := rfl
@[simp] theorem read_originCalls : (s.read key).originCalls = s.originCalls := rfl

@[simp] theorem file_tasks : (s.file filed).tasks = s.tasks := by cases filed <;> rfl
@[simp] theorem file_inflight : (s.file filed).inflight = s.inflight := by cases filed <;> rfl
@[simp] theorem file_events : (s.file filed).events = s.events := by cases filed <;> rfl
@[simp] theorem file_instant : (s.file filed).instant = s.instant := by cases filed <;> rfl
@[simp] theorem file_originCalls : (s.file filed).originCalls = s.originCalls := by
  cases filed <;> rfl

@[simp] theorem conclude_tasks : (s.conclude t role call result).tasks =
    s.tasks.modify t fun τ => { τ with phase := endPhase role call result } := by
  cases role <;> rfl
@[simp] theorem conclude_cacheStore :
    (s.conclude t role call result).cacheStore = s.cacheStore := by
  cases role <;> rfl
@[simp] theorem conclude_instant : (s.conclude t role call result).instant = s.instant := by
  cases role <;> rfl
@[simp] theorem conclude_originCalls :
    (s.conclude t role call result).originCalls = s.originCalls := by
  cases role <;> rfl

@[simp] theorem send_tasks : (s.send t role call breaker).tasks =
    s.tasks.modify t fun τ => { τ with phase := .fetching role none } := rfl
@[simp] theorem send_cacheStore : (s.send t role call breaker).cacheStore = s.cacheStore := rfl
@[simp] theorem send_inflight : (s.send t role call breaker).inflight = s.inflight := rfl
@[simp] theorem send_events : (s.send t role call breaker).events = s.events := rfl
@[simp] theorem send_instant : (s.send t role call breaker).instant = s.instant := rfl
@[simp] theorem send_originCalls : (s.send t role call breaker).originCalls =
    s.originCalls ++ [⟨t, call.path, fetchHeaders call.cached⟩] := rfl

@[simp] theorem register_tasks :
    (s.register call).tasks = s.tasks ++ [⟨call, .running⟩] := rfl
@[simp] theorem register_cacheStore : (s.register call).cacheStore = s.cacheStore := rfl
@[simp] theorem register_inflight :
    (s.register call).inflight = s.inflight.set call.key s.events.length := rfl
@[simp] theorem register_events : (s.register call).events = s.events ++ [false] := rfl
@[simp] theorem register_instant : (s.register call).instant = s.instant := rfl
@[simp] theorem register_originCalls : (s.register call).originCalls = s.originCalls := rfl

@[simp] theorem schedule_tasks : (s.schedule call).tasks = s.tasks ++ [⟨call, .scheduled⟩] := rfl
@[simp] theorem schedule_cacheStore : (s.schedule call).cacheStore = s.cacheStore := rfl
@[simp] theorem schedule_inflight : (s.schedule call).inflight = s.inflight := rfl
@[simp] theorem schedule_events : (s.schedule call).events = s.events := rfl
@[simp] theorem schedule_instant : (s.schedule call).instant = s.instant := rfl
@[simp] theorem schedule_originCalls : (s.schedule call).originCalls = s.originCalls := rfl

@[simp] theorem stamp_tasks : s.stamp.tasks = s.tasks := rfl
@[simp] theorem stamp_cacheStore : s.stamp.cacheStore = s.cacheStore := rfl
@[simp] theorem stamp_inflight : s.stamp.inflight = s.inflight := rfl
@[simp] theorem stamp_events : s.stamp.events = s.events := rfl
@[simp] theorem stamp_instant : s.stamp.instant = s.instant + 1 := rfl
@[simp] theorem stamp_originCalls : s.stamp.originCalls = s.originCalls := rfl

/-- A call that leads is one more task, at the origin. -/
theorem led_tasks : (((s.read key).register call).send s.tasks.length role call breaker).tasks =
    s.tasks ++ [⟨call, .fetching role none⟩] := by
  rw [send_tasks, register_tasks, read_tasks, Slots.modify_append_length]

/-- A call the breaker refuses is one more task, at its end. -/
theorem refused_tasks :
    (((s.read key).register call).conclude s.tasks.length role call result).tasks =
      s.tasks ++ [⟨call, endPhase role call result⟩] := by
  rw [conclude_tasks, register_tasks, read_tasks, Slots.modify_append_length]

end fields

/-! ### The moves -/

/-- The ways a step can go; the state is the one before the step is counted. -/
inductive Move (S : Setup β) (s : Edge β) : Action β → Edge β → Prop where
  /-- A call that finds a fresh entry. -/
  | fresh {path : String} {rh : Option Headers} {e : CacheEntry β}
      (hcached : (s.arrival S path rh).cached = some e) (hfresh : e.isExpired s.wall = false) :
      Move S s (.arrive path rh)
        ((s.read (keyOf S path rh)).push (s.arrival S path rh) (.returned (.fresh e)))
  /-- A call that finds a stale entry while a leader is at work on the key. -/
  | stale {path : String} {rh : Option Headers} {e : CacheEntry β}
      (hcached : (s.arrival S path rh).cached = some e)
      (hservable : e.isStaleServable s.wall = true)
      (hlisted : s.inflight.contains (keyOf S path rh) = true) :
      Move S s (.arrive path rh)
        ((s.read (keyOf S path rh)).push (s.arrival S path rh) (.returned (.stale e)))
  /-- A call that finds a stale entry and starts a revalidation. -/
  | scheduled {path : String} {rh : Option Headers} {e : CacheEntry β}
      (hcached : (s.arrival S path rh).cached = some e)
      (hservable : e.isStaleServable s.wall = true)
      (hlisted : s.inflight.contains (keyOf S path rh) = false) :
      Move S s (.arrive path rh)
        (((s.read (keyOf S path rh)).push (s.arrival S path rh)
          (.returned (.stale e))).schedule (s.arrival S path rh))
  /-- A call the open circuit turns away. -/
  | turnedAway {path : String} {rh : Option Headers}
      (hmiss : (s.arrival S path rh).Missed s.wall)
      (hopen : s.circuitBreaker.stateAt s.mono = .open) :
      Move S s (.arrive path rh)
        ((s.read (keyOf S path rh)).push (s.arrival S path rh)
          (.returned (.ofOpen (s.arrival S path rh).cached)))
  /-- A call that waits for a leader. -/
  | joined {path : String} {rh : Option Headers} {event : Nat}
      (hmiss : (s.arrival S path rh).Missed s.wall)
      (hopen : s.circuitBreaker.stateAt s.mono ≠ .open)
      (hlisted : s.inflight.get? (keyOf S path rh) = some event) :
      Move S s (.arrive path rh)
        ((s.read (keyOf S path rh)).push (s.arrival S path rh) (.waiting event))
  /-- A call that becomes the leader of its key. -/
  | led {path : String} {rh : Option Headers} {breaker : CircuitBreaker}
      (hmiss : (s.arrival S path rh).Missed s.wall)
      (hopen : s.circuitBreaker.stateAt s.mono ≠ .open)
      (hfree : s.inflight.get? (keyOf S path rh) = none)
      (hallow : s.circuitBreaker.aenter s.mono = .ok breaker) :
      Move S s (.arrive path rh)
        (((s.read (keyOf S path rh)).register (s.arrival S path rh)).send s.tasks.length
          (.leader s.events.length) (s.arrival S path rh) breaker)
  /-- A call that would have led, had the breaker let it. -/
  | refused {path : String} {rh : Option Headers} {x : Exn}
      (hmiss : (s.arrival S path rh).Missed s.wall)
      (hopen : s.circuitBreaker.stateAt s.mono ≠ .open)
      (hfree : s.inflight.get? (keyOf S path rh) = none)
      (hrefuse : s.circuitBreaker.aenter s.mono = .error x) :
      Move S s (.arrive path rh)
        (((s.read (keyOf S path rh)).register (s.arrival S path rh)).conclude s.tasks.length
          (.leader s.events.length) (s.arrival S path rh) (.error x))
  /-- The origin is done with a request. -/
  | answered {t : Nat} {call : Call β} {role : Role} {outcome : FetchOutcome β}
      (ht : s.tasks[t]? = some ⟨call, .fetching role none⟩) :
      Move S s (.answer t outcome) (s.setPhase t (.fetching role (some outcome)))
  /-- A background revalidation begins. -/
  | revalidating {t : Nat} {call : Call β} {breaker : CircuitBreaker}
      (ht : s.tasks[t]? = some ⟨call, .scheduled⟩)
      (hallow : s.circuitBreaker.aenter s.mono = .ok breaker) :
      Move S s (.resume t) (s.send t .background call breaker)
  | revalidationRefused {t : Nat} {call : Call β} {x : Exn}
      (ht : s.tasks[t]? = some ⟨call, .scheduled⟩)
      (hrefuse : s.circuitBreaker.aenter s.mono = .error x) :
      Move S s (.resume t) (s.conclude t .background call (.error x))
  /-- A call that waited finds an entry. -/
  | coalesced {t : Nat} {call : Call β} {event : Nat} {e : CacheEntry β}
      (ht : s.tasks[t]? = some ⟨call, .waiting event⟩) (hset : s.events[event]? = some true)
      (hfound : s.cacheStore.store.get? call.key = some e) :
      Move S s (.resume t)
        ((s.read call.key).setPhase t (.returned (.coalesced (e.touch s.wall))))
  /-- A call that waited finds nothing and fetches for itself. -/
  | retried {t : Nat} {call : Call β} {event : Nat} {breaker : CircuitBreaker}
      (ht : s.tasks[t]? = some ⟨call, .waiting event⟩) (hset : s.events[event]? = some true)
      (habsent : s.cacheStore.store.get? call.key = none)
      (hallow : s.circuitBreaker.aenter s.mono = .ok breaker) :
      Move S s (.resume t) ((s.read call.key).send t .follower call breaker)
  | retryRefused {t : Nat} {call : Call β} {event : Nat} {x : Exn}
      (ht : s.tasks[t]? = some ⟨call, .waiting event⟩) (hset : s.events[event]? = some true)
      (habsent : s.cacheStore.store.get? call.key = none)
      (hrefuse : s.circuitBreaker.aenter s.mono = .error x) :
      Move S s (.resume t) ((s.read call.key).conclude t .follower call (.error x))
  /-- A response is filed, or found not cacheable, and returned. -/
  | settled {t : Nat} {call : Call β} {role : Role} {r : OriginResponse β}
      {filed : Option (String × CacheEntry β)} {response : Response β}
      (ht : s.tasks[t]? = some ⟨call, .fetching role (some (.answered r))⟩)
      (hsettle : settle S call r s.wall = .ok (filed, response)) :
      Move S s (.resume t)
        (({ s with circuitBreaker := s.circuitBreaker.recordSuccess }.file filed).conclude t role
          call (.ok (.fetched response)))
  /-- A response whose headers raise. -/
  | unsettled {t : Nat} {call : Call β} {role : Role} {r : OriginResponse β} {x : Exn}
      (ht : s.tasks[t]? = some ⟨call, .fetching role (some (.answered r))⟩)
      (hsettle : settle S call r s.wall = .error x) :
      Move S s (.resume t)
        ({ s with circuitBreaker := s.circuitBreaker.recordSuccess }.conclude t role call (.error x))
  | failed {t : Nat} {call : Call β} {role : Role}
      (ht : s.tasks[t]? = some ⟨call, .fetching role (some .failed)⟩) :
      Move S s (.resume t)
        ({ s with circuitBreaker := s.circuitBreaker.recordFailure s.mono }.conclude t role call
          (.error .fetch))
  | cancelledScheduled {t : Nat} {call : Call β} (ht : s.tasks[t]? = some ⟨call, .scheduled⟩) :
      Move S s (.cancel t) (s.setPhase t (.raised .cancelled))
  | cancelledWaiting {t : Nat} {call : Call β} {event : Nat}
      (ht : s.tasks[t]? = some ⟨call, .waiting event⟩) :
      Move S s (.cancel t) (s.setPhase t (.raised .cancelled))
  | cancelledFetching {t : Nat} {call : Call β} {role : Role}
      {outcome : Option (FetchOutcome β)}
      (ht : s.tasks[t]? = some ⟨call, .fetching role outcome⟩) :
      Move S s (.cancel t)
        ({ s with circuitBreaker := s.circuitBreaker.recordFailure s.mono }.conclude t role call
          (.error .cancelled))
  | purged {url keyPrefix : Option String} : Move S s (.purge url keyPrefix) (s.purge url keyPrefix)
  | ticked {wall mono : Time} (hmono : s.mono ≤ mono) :
      Move S s (.tick wall mono) { s with wall, mono }
  | reset : Move S s .reset { s with circuitBreaker := s.circuitBreaker.reset }

theorem move_of_fetchOrWait {s : Edge β} {path : String} {rh : Option Headers}
    (hmiss : (s.arrival S path rh).Missed s.wall) :
    Move S s (.arrive path rh)
      ((s.read (keyOf S path rh)).fetchOrWait (s.arrival S path rh)) := by
  unfold fetchOrWait
  split
  · rename_i hopen
    exact Move.turnedAway hmiss hopen
  · rename_i hopen
    split
    · rename_i event hlisted
      exact Move.joined hmiss hopen hlisted
    · rename_i hfree
      unfold lead beginFetch
      split
      · rename_i x hrefuse
        exact Move.refused hmiss hopen hfree hrefuse
      · rename_i breaker hallow
        exact Move.led hmiss hopen hfree hallow

theorem move_of_arrive (s : Edge β) (path : String) (rh : Option Headers) :
    Move S s (.arrive path rh) (s.getOrFetch S path rh) := by
  unfold getOrFetch
  dsimp only
  split
  · rename_i hcached
    exact move_of_fetchOrWait fun e he => by rw [hcached] at he; cases he
  · rename_i e hcached
    split
    · rename_i hfresh
      exact Move.fresh hcached (by simpa using hfresh)
    · rename_i hexp
      split
      · rename_i hservable
        unfold scheduleRevalidation
        split
        · rename_i hlisted
          exact Move.stale hcached hservable hlisted
        · rename_i hlisted
          exact Move.scheduled hcached hservable (Bool.eq_false_of_not_eq_true hlisted)
      · rename_i hservable
        refine move_of_fetchOrWait fun e' he' => ?_
        rw [hcached, Option.some.injEq] at he'
        subst he'
        exact ⟨by simpa using hexp, by simpa using hservable⟩

theorem move_of_beginFetch_background {s : Edge β} {t : Nat} {call : Call β}
    (ht : s.tasks[t]? = some ⟨call, .scheduled⟩) :
    Move S s (.resume t) (s.beginFetch t .background call) := by
  unfold beginFetch
  split
  · rename_i x hrefuse
    exact Move.revalidationRefused ht hrefuse
  · rename_i breaker hallow
    exact Move.revalidating ht hallow

theorem move_of_afterWait {s : Edge β} {t : Nat} {call : Call β} {event : Nat}
    (ht : s.tasks[t]? = some ⟨call, .waiting event⟩) (hset : s.events[event]? = some true) :
    Move S s (.resume t) (s.afterWait t call) := by
  unfold afterWait
  rw [LruCacheStore.get_fst]
  cases hget : s.cacheStore.store.get? call.key with
  | some e => exact Move.coalesced ht hset hget
  | none =>
      show Move S s (.resume t) ((s.read call.key).beginFetch t .follower call)
      unfold beginFetch
      split
      · rename_i x hrefuse
        exact Move.retryRefused ht hset hget hrefuse
      · rename_i breaker hallow
        exact Move.retried ht hset hget hallow

theorem move_of_afterFetch {s : Edge β} {t : Nat} {call : Call β} {role : Role}
    {outcome : FetchOutcome β}
    (ht : s.tasks[t]? = some ⟨call, .fetching role (some outcome)⟩) :
    Move S s (.resume t) (s.afterFetch S t role call outcome) := by
  cases outcome with
  | failed => exact Move.failed ht
  | answered r =>
      unfold afterFetch
      split
      · rename_i hc
        cases hc
      · rename_i r' hr
        cases hr
        dsimp only
        split
        · rename_i x hsettle
          exact Move.unsettled ht hsettle
        · rename_i filed response hsettle
          exact Move.settled ht hsettle

/-- **Every step is one of the moves.** -/
theorem move_of_step {s s' : Edge β} {a : Action β} (h : s.step S a = some s') :
    ∃ m, Move S s a m ∧ s' = m.stamp := by
  obtain ⟨m, hact, rfl⟩ := Option.map_eq_some_iff.mp h
  refine ⟨m, ?_, rfl⟩
  cases a with
  | arrive path rh =>
      cases hact
      exact move_of_arrive s path rh
  | answer t outcome =>
      replace hact : s.answer t outcome = some m := hact
      unfold answer at hact
      split at hact
      · rename_i call role ht
        cases hact
        exact Move.answered ht
      · cases hact
  | resume t =>
      replace hact : s.resume S t = some m := hact
      unfold resume at hact
      split at hact
      · rename_i call ht
        cases hact
        exact move_of_beginFetch_background ht
      · rename_i call event ht
        split at hact
        · rename_i hset
          cases hact
          exact move_of_afterWait ht hset
        · cases hact
      · rename_i call role outcome ht
        cases hact
        exact move_of_afterFetch ht
      · cases hact
  | cancel t =>
      replace hact : s.cancel t = some m := hact
      unfold cancel at hact
      split at hact
      · rename_i call ht
        cases hact
        exact Move.cancelledScheduled ht
      · rename_i call event ht
        cases hact
        exact Move.cancelledWaiting ht
      · rename_i call role outcome ht
        cases hact
        exact Move.cancelledFetching ht
      · cases hact
  | purge url keyPrefix =>
      cases hact
      exact Move.purged
  | tick wall mono =>
      replace hact : s.tick wall mono = some m := hact
      unfold tick at hact
      split at hact
      · rename_i hmono
        cases hact
        exact Move.ticked hmono
      · cases hact
  | reset =>
      cases hact
      exact Move.reset

/-! ### The tasks a move leaves alone -/

/-- **A move changes no task but the one it is about.** -/
theorem Move.frame {s m : Edge β} {a : Action β} (h : Move S s a m) {t : Nat} {τ : Task β}
    (ha : a.task? ≠ some t) (ht : s.tasks[t]? = some τ) : m.tasks[t]? = some τ := by
  have hmodify : ∀ (u : Nat) (f : Task β → Task β), u ≠ t → (s.tasks.modify u f)[t]? = some τ :=
    fun u f hu => by rw [List.getElem?_modify_ne _ _ hu, ht]
  cases h with
  | fresh hcached hfresh => exact Slots.get?_append ht
  | stale hcached hservable hlisted => exact Slots.get?_append ht
  | scheduled hcached hservable hlisted => exact Slots.get?_append (Slots.get?_append ht)
  | turnedAway hmiss hopen => exact Slots.get?_append ht
  | joined hmiss hopen hlisted => exact Slots.get?_append ht
  | led hmiss hopen hfree hallow =>
      rw [led_tasks]
      exact Slots.get?_append ht
  | refused hmiss hopen hfree hrefuse =>
      rw [refused_tasks]
      exact Slots.get?_append ht
  | settled hu hsettle =>
      rw [conclude_tasks, file_tasks]
      exact hmodify _ _ fun hc => ha (by rw [hc]; rfl)
  | unsettled hu hsettle =>
      rw [conclude_tasks]
      exact hmodify _ _ fun hc => ha (by rw [hc]; rfl)
  | failed hu =>
      rw [conclude_tasks]
      exact hmodify _ _ fun hc => ha (by rw [hc]; rfl)
  | cancelledFetching hu =>
      rw [conclude_tasks]
      exact hmodify _ _ fun hc => ha (by rw [hc]; rfl)
  | revalidationRefused hu hrefuse =>
      rw [conclude_tasks]
      exact hmodify _ _ fun hc => ha (by rw [hc]; rfl)
  | retryRefused hu hset habsent hrefuse =>
      rw [conclude_tasks]
      exact hmodify _ _ fun hc => ha (by rw [hc]; rfl)
  | answered hu => exact hmodify _ _ fun hc => ha (by rw [hc]; rfl)
  | revalidating hu hallow => exact hmodify _ _ fun hc => ha (by rw [hc]; rfl)
  | coalesced hu hset hfound => exact hmodify _ _ fun hc => ha (by rw [hc]; rfl)
  | retried hu hset habsent hallow => exact hmodify _ _ fun hc => ha (by rw [hc]; rfl)
  | cancelledScheduled hu => exact hmodify _ _ fun hc => ha (by rw [hc]; rfl)
  | cancelledWaiting hu => exact hmodify _ _ fun hc => ha (by rw [hc]; rfl)
  | purged => exact ht
  | ticked hmono => exact ht
  | reset => exact ht

/-- A move does not count itself; the step does. -/
theorem Move.instant {s m : Edge β} {a : Action β} (h : Move S s a m) : m.instant = s.instant := by
  cases h <;> simp [purge]

theorem instant_step {s s' : Edge β} {a : Action β} (hstep : s.step S a = some s') :
    s'.instant = s.instant + 1 := by
  obtain ⟨m, hmove, rfl⟩ := move_of_step hstep
  rw [stamp_instant, hmove.instant]

/-- A task that is over stays as it is. -/
theorem kept_of_over {s s' : Edge β} {a : Action β} {t : Nat} {call : Call β} {phase : Phase β}
    (ht : s.tasks[t]? = some ⟨call, phase⟩) (hover : phase.over = true)
    (hstep : s.step S a = some s') : s'.tasks[t]? = some ⟨call, phase⟩ := by
  obtain ⟨m, hmove, rfl⟩ := move_of_step hstep
  refine hmove.frame (fun hc => ?_) ht
  cases phase with
  | returned | raised | finished =>
      cases a with
      | answer u outcome =>
          cases hc
          simp [step, act, answer, ht] at hstep
      | resume u =>
          cases hc
          simp [step, act, resume, ht] at hstep
      | cancel u =>
          cases hc
          simp [step, act, cancel, ht] at hstep
      | _ => cases hc
  | _ => cases hover

/-! ### Steps that are known in advance -/

/-- A lookup that found nothing to serve leads on to the circuit check. -/
theorem getOrFetch_of_missed {s : Edge β} {path : String} {rh : Option Headers}
    (hmiss : (s.arrival S path rh).Missed s.wall) : s.getOrFetch S path rh =
      (s.read (keyOf S path rh)).fetchOrWait (s.arrival S path rh) := by
  unfold getOrFetch
  dsimp only
  split
  · rfl
  · rename_i e hcached
    obtain ⟨hexp, hservable⟩ := hmiss e hcached
    rw [read_wall, hexp, hservable]
    rfl

theorem step_of_missed {s : Edge β} {path : String} {rh : Option Headers}
    (hmiss : (s.arrival S path rh).Missed s.wall) : s.step S (.arrive path rh) =
      some ((s.read (keyOf S path rh)).fetchOrWait (s.arrival S path rh)).stamp := by
  show some (s.getOrFetch S path rh).stamp = _
  rw [getOrFetch_of_missed hmiss]

theorem fetchOrWait_of_open {s : Edge β} {call : Call β}
    (hopen : s.circuitBreaker.stateAt s.mono = .open) :
    s.fetchOrWait call = s.push call (.returned (.ofOpen call.cached)) := if_pos hopen

theorem fetchOrWait_of_listed {s : Edge β} {call : Call β} {event : Nat}
    (hopen : s.circuitBreaker.stateAt s.mono ≠ .open)
    (hlisted : s.inflight.get? call.key = some event) :
    s.fetchOrWait call = s.push call (.waiting event) := by
  rw [fetchOrWait, if_neg hopen, hlisted]

theorem fetchOrWait_of_free {s : Edge β} {call : Call β}
    (hopen : s.circuitBreaker.stateAt s.mono ≠ .open)
    (hfree : s.inflight.get? call.key = none) : s.fetchOrWait call = s.lead call := by
  rw [fetchOrWait, if_neg hopen, hfree]

theorem beginFetch_of_ok {s : Edge β} {t : Nat} {role : Role} {call : Call β}
    {breaker : CircuitBreaker} (hallow : s.circuitBreaker.aenter s.mono = .ok breaker) :
    s.beginFetch t role call = s.send t role call breaker := by
  rw [beginFetch, hallow]

theorem beginFetch_of_error {s : Edge β} {t : Nat} {role : Role} {call : Call β} {x : Exn}
    (hrefuse : s.circuitBreaker.aenter s.mono = .error x) :
    s.beginFetch t role call = s.conclude t role call (.error x) := by
  rw [beginFetch, hrefuse]

theorem step_turnedAway {s : Edge β} {path : String} {rh : Option Headers}
    (hmiss : (s.arrival S path rh).Missed s.wall)
    (hopen : s.circuitBreaker.stateAt s.mono = .open) :
    s.step S (.arrive path rh) = some ((s.read (keyOf S path rh)).push (s.arrival S path rh)
      (.returned (.ofOpen (s.arrival S path rh).cached))).stamp := by
  rw [step_of_missed hmiss]
  exact congrArg (fun m : Edge β => some m.stamp) (fetchOrWait_of_open hopen)

/-- A call that finds nothing to serve and a leader at work. -/
theorem step_joined {s : Edge β} {path : String} {rh : Option Headers} {event : Nat}
    (hmiss : (s.arrival S path rh).Missed s.wall)
    (hopen : s.circuitBreaker.stateAt s.mono ≠ .open)
    (hlisted : s.inflight.get? (keyOf S path rh) = some event) :
    s.step S (.arrive path rh) =
      some ((s.read (keyOf S path rh)).push (s.arrival S path rh) (.waiting event)).stamp := by
  rw [step_of_missed hmiss]
  exact congrArg (fun m : Edge β => some m.stamp) (fetchOrWait_of_listed hopen hlisted)

/-- A call that finds nothing to serve, no leader and the circuit not open. -/
theorem step_lead {s : Edge β} {path : String} {rh : Option Headers}
    (hmiss : (s.arrival S path rh).Missed s.wall)
    (hopen : s.circuitBreaker.stateAt s.mono ≠ .open)
    (hfree : s.inflight.get? (keyOf S path rh) = none) :
    s.step S (.arrive path rh) =
      some ((s.read (keyOf S path rh)).lead (s.arrival S path rh)).stamp := by
  rw [step_of_missed hmiss]
  exact congrArg (fun m : Edge β => some m.stamp) (fetchOrWait_of_free hopen hfree)

theorem step_led {s : Edge β} {path : String} {rh : Option Headers} {breaker : CircuitBreaker}
    (hmiss : (s.arrival S path rh).Missed s.wall)
    (hopen : s.circuitBreaker.stateAt s.mono ≠ .open)
    (hfree : s.inflight.get? (keyOf S path rh) = none)
    (hallow : s.circuitBreaker.aenter s.mono = .ok breaker) :
    s.step S (.arrive path rh) = some (((s.read (keyOf S path rh)).register
      (s.arrival S path rh)).send s.tasks.length (.leader s.events.length)
      (s.arrival S path rh) breaker).stamp := by
  rw [step_lead hmiss hopen hfree]
  exact congrArg (fun m : Edge β => some m.stamp) (beginFetch_of_ok hallow)

theorem step_refused {s : Edge β} {path : String} {rh : Option Headers} {x : Exn}
    (hmiss : (s.arrival S path rh).Missed s.wall)
    (hopen : s.circuitBreaker.stateAt s.mono ≠ .open)
    (hfree : s.inflight.get? (keyOf S path rh) = none)
    (hrefuse : s.circuitBreaker.aenter s.mono = .error x) :
    s.step S (.arrive path rh) = some (((s.read (keyOf S path rh)).register
      (s.arrival S path rh)).conclude s.tasks.length (.leader s.events.length)
      (s.arrival S path rh) (.error x)).stamp := by
  rw [step_lead hmiss hopen hfree]
  exact congrArg (fun m : Edge β => some m.stamp) (beginFetch_of_error hrefuse)

theorem step_afterWait {s : Edge β} {t : Nat} {call : Call β} {event : Nat}
    (ht : s.tasks[t]? = some ⟨call, .waiting event⟩) (hset : s.events[event]? = some true) :
    s.step S (.resume t) = some (s.afterWait t call).stamp := by
  have hresume : s.resume S t = some (s.afterWait t call) := by simp [resume, ht, hset]
  simp [step, act, hresume]

/-- A waiter that finds nothing asks for a fetch of its own. -/
theorem afterWait_of_absent {s : Edge β} {t : Nat} {call : Call β}
    (habsent : s.cacheStore.store.get? call.key = none) :
    s.afterWait t call = (s.read call.key).beginFetch t .follower call := by
  simp [afterWait, habsent]

theorem step_retried {s : Edge β} {t : Nat} {call : Call β} {event : Nat}
    {breaker : CircuitBreaker} (ht : s.tasks[t]? = some ⟨call, .waiting event⟩)
    (hset : s.events[event]? = some true)
    (habsent : s.cacheStore.store.get? call.key = none)
    (hallow : s.circuitBreaker.aenter s.mono = .ok breaker) :
    s.step S (.resume t) = some ((s.read call.key).send t .follower call breaker).stamp := by
  rw [step_afterWait ht hset, afterWait_of_absent habsent]
  exact congrArg (fun m : Edge β => some m.stamp) (beginFetch_of_ok hallow)

theorem step_retryRefused {s : Edge β} {t : Nat} {call : Call β} {event : Nat} {x : Exn}
    (ht : s.tasks[t]? = some ⟨call, .waiting event⟩)
    (hset : s.events[event]? = some true)
    (habsent : s.cacheStore.store.get? call.key = none)
    (hrefuse : s.circuitBreaker.aenter s.mono = .error x) :
    s.step S (.resume t) =
      some ((s.read call.key).conclude t .follower call (.error x)).stamp := by
  rw [step_afterWait ht hset, afterWait_of_absent habsent]
  exact congrArg (fun m : Edge β => some m.stamp) (beginFetch_of_error hrefuse)

/-- A waiter that finds an entry returns it as it is. -/
theorem step_coalesced {s : Edge β} {t : Nat} {call : Call β} {event : Nat} {e : CacheEntry β}
    (ht : s.tasks[t]? = some ⟨call, .waiting event⟩)
    (hset : s.events[event]? = some true)
    (hfound : s.cacheStore.store.get? call.key = some e) :
    s.step S (.resume t) =
      some ((s.read call.key).setPhase t (.returned (.coalesced (e.touch s.wall)))).stamp := by
  rw [step_afterWait ht hset]
  simp [afterWait, hfound]

/-- A task goes on with an answer that is filed, or found not cacheable. -/
theorem step_settled {s : Edge β} {t : Nat} {call : Call β} {role : Role} {r : OriginResponse β}
    {filed : Option (String × CacheEntry β)} {response : Response β}
    (ht : s.tasks[t]? = some ⟨call, .fetching role (some (.answered r))⟩)
    (hsettle : settle S call r s.wall = .ok (filed, response)) :
    s.step S (.resume t) =
      some (({ s with circuitBreaker := s.circuitBreaker.recordSuccess }.file filed).conclude t
        role call (.ok (.fetched response))).stamp := by
  simp [step, act, resume, ht, afterFetch, hsettle]

/-! ### Counting tasks -/

/-- The number of tasks of a key that stand at such a place. -/
def count (s : Edge β) (q : Phase β → Bool) (k : String) : Nat :=
  s.tasks.countP fun τ => q τ.phase && τ.call.key = k

section count

variable {s m : Edge β} {q : Phase β → Bool} {k : String} {call : Call β}

theorem count_of_tasks (h : m.tasks = s.tasks) : m.count q k = s.count q k := by
  rw [count, h, count]

theorem count_append {phase : Phase β} (h : m.tasks = s.tasks ++ [⟨call, phase⟩]) :
    m.count q k = s.count q k + (if q phase && call.key = k then 1 else 0) := by
  simp [count, h, List.countP_append, List.countP_singleton]

theorem count_append_idle {phase : Phase β} (hidle : q phase = false)
    (h : m.tasks = s.tasks ++ [⟨call, phase⟩]) : m.count q k = s.count q k := by
  rw [count_append h, hidle]
  rfl

theorem count_modify {t : Nat} {phase phase' : Phase β}
    (ht : s.tasks[t]? = some ⟨call, phase⟩)
    (h : m.tasks = s.tasks.modify t fun τ => { τ with phase := phase' }) :
    m.count q k + (if q phase && call.key = k then 1 else 0) =
      s.count q k + (if q phase' && call.key = k then 1 else 0) := by
  unfold count
  rw [h]
  exact Slots.countP_modify (fun τ : Task β => q τ.phase && τ.call.key = k) ht _

/-- A task that goes on to a place of no interest does not add to the count. -/
theorem count_modify_le {t : Nat} {phase phase' : Phase β}
    (ht : s.tasks[t]? = some ⟨call, phase⟩)
    (hstay : q phase' = true → q phase = true)
    (h : m.tasks = s.tasks.modify t fun τ => { τ with phase := phase' }) :
    m.count q k ≤ s.count q k := by
  have hcount := count_modify (q := q) (k := k) ht h
  cases hphase' : q phase' with
  | false =>
      rw [hphase'] at hcount
      simp only [Bool.false_and, Bool.false_eq_true, if_false] at hcount
      omega
  | true =>
      rw [hphase', hstay hphase'] at hcount
      omega

/-- A task that concludes does not add to a count of tasks that go on. -/
theorem count_conclude_le {s' : Edge β} {t : Nat} {phase : Phase β} {role : Role}
    {result : Except Exn (Reply β)} (hidle : q (endPhase role call result) = false)
    (ht : s.tasks[t]? = some ⟨call, phase⟩) (h : s'.tasks = s.tasks) :
    (s'.conclude t role call result).count q k ≤ s.count q k :=
  count_modify_le ht (by rw [hidle]; intro hc; cases hc) (by rw [conclude_tasks, h])

end count

end Edge

end Cdn

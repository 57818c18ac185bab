/-
Every request is settled after a few turns.

A call takes at most three turns after it has arrived: it wakes, its fetch is answered, and it
goes on.  A revalidation takes three as well, and a call that starts one has returned already.
So all turns of all tasks together, in whatever order they are taken and however they go, are no
more than three for each request; the origin is asked no more often than the edge is; and where
nobody can take a turn and nobody waits for the origin, everything is over.

Each task holds as much credit as it has turns left.
-/
import Cdn.Lib.Amortized
import Cdn.Proofs.Quiescence

namespace Cdn

variable {β : Type} {S : Setup β}

/-- A request arrives. -/
def Action.arrives : Action β → Bool
  | .arrive _ _ => true
  | _ => false

/-- A task takes a turn: it is answered, it goes on, or it is cancelled. -/
def Action.turn (a : Action β) : Bool := a.task?.isSome

namespace Phase

/-- The turns that are left to a task. -/
def turns : Phase β → Nat
  | .scheduled | .waiting _ => 3
  | .fetching _ none => 2
  | .fetching _ (some _) => 1
  | .running | .returned _ | .raised _ | .finished => 0

/-- The requests to the origin that are left to it. -/
def fetches : Phase β → Nat
  | .scheduled | .waiting _ => 1
  | _ => 0

theorem left_of_over {phase : Phase β} (h : phase.over = true) :
    phase.turns = 0 ∧ phase.fetches = 0 := by
  cases phase with
  | returned | raised | finished => exact ⟨rfl, rfl⟩
  | _ => cases h

end Phase

namespace Edge

variable {s s' m : Edge β} {a : Action β}

/-! ### What a move takes and brings -/

/-- What a move makes of the tasks, with the turns and the requests that are left to the one it
is about. -/
inductive Turned (s m : Edge β) : Action β → Prop where
  /-- A call that has come. -/
  | pushed {path : String} {rh : Option Headers} {call : Call β} {phase : Phase β}
      (htasks : m.tasks = s.tasks ++ [⟨call, phase⟩]) (hturns : phase.turns ≤ 3)
      (hfetches : m.originCalls.length + phase.fetches ≤ s.originCalls.length + 1) :
      Turned s m (.arrive path rh)
  /-- A call that has come and returned, and the revalidation that it started. -/
  | started {path : String} {rh : Option Headers} {call : Call β} {reply : Reply β}
      (htasks : m.tasks = s.tasks ++ [⟨call, .returned reply⟩] ++ [⟨call, .scheduled⟩])
      (hcalls : m.originCalls = s.originCalls) : Turned s m (.arrive path rh)
  | moved {a : Action β} {t : Nat} {call : Call β} {phase phase' : Phase β}
      (ha : a.arrives = false) (ht : s.tasks[t]? = some ⟨call, phase⟩)
      (htasks : m.tasks = s.tasks.modify t fun τ => { τ with phase := phase' })
      (hturns : phase'.turns < phase.turns)
      (hfetches : m.originCalls.length + phase'.fetches ≤
        s.originCalls.length + phase.fetches) : Turned s m a
  | kept {a : Action β} (ha : a.turn = false ∧ a.arrives = false) (htasks : m.tasks = s.tasks)
      (hcalls : m.originCalls = s.originCalls) : Turned s m a

/-- A call whose segment ends has come, or it was under way. -/
theorem turned_end {path : String} {rh : Option Headers} {call : Call β} {phase : Phase β}
    (htasks : m.tasks = s.tasks ++ [⟨call, phase⟩]) (hover : phase.over = true)
    (hcalls : m.originCalls = s.originCalls) : Turned s m (.arrive path rh) := by
  obtain ⟨hturns, hfetches⟩ := Phase.left_of_over hover
  exact .pushed htasks (by rw [hturns]; omega) (by rw [hcalls, hfetches]; omega)

theorem turned_conclude {t : Nat} {call : Call β} {phase phase' : Phase β}
    (ha : a.arrives = false) (ht : s.tasks[t]? = some ⟨call, phase⟩)
    (htasks : m.tasks = s.tasks.modify t fun τ => { τ with phase := phase' })
    (hturns : 0 < phase.turns) (hover : phase'.over = true)
    (hcalls : m.originCalls = s.originCalls) : Turned s m a := by
  obtain ⟨hnone, hfetches⟩ := Phase.left_of_over hover
  exact .moved ha ht htasks (by rw [hnone]; exact hturns) (by rw [hcalls, hfetches]; omega)

theorem Move.turned (h : Move S s a m) : Turned s m a := by
  cases h with
  | fresh => exact turned_end rfl rfl rfl
  | stale => exact turned_end rfl rfl rfl
  | scheduled => exact .started rfl rfl
  | @turnedAway path rh hmiss hopen =>
      refine turned_end rfl ?_ rfl
      cases (s.arrival S path rh).cached <;> rfl
  | joined => exact .pushed rfl le_rfl le_rfl
  | led => exact .pushed (led_tasks ..) (by simp [Phase.turns]) (by simp [Phase.fetches])
  | refused => exact turned_end (refused_tasks ..) (over_endPhase ..) (by simp)
  | answered ht => exact .moved rfl ht rfl (by simp [Phase.turns]) le_rfl
  | revalidating ht => exact .moved rfl ht rfl (by simp [Phase.turns]) (by simp [Phase.fetches])
  | revalidationRefused ht =>
      exact turned_conclude rfl ht (conclude_tasks ..) (Nat.succ_pos _) (over_endPhase ..) (by simp)
  | coalesced ht => exact turned_conclude rfl ht rfl (Nat.succ_pos _) rfl rfl
  | retried ht => exact .moved rfl ht rfl (by simp [Phase.turns]) (by simp [Phase.fetches])
  | retryRefused ht =>
      exact turned_conclude rfl ht (conclude_tasks ..) (Nat.succ_pos _) (over_endPhase ..) (by simp)
  | settled ht =>
      exact turned_conclude rfl ht ((conclude_tasks ..).trans (by rw [file_tasks])) (Nat.succ_pos _)
        (over_endPhase ..) (by simp)
  | unsettled ht =>
      exact turned_conclude rfl ht (conclude_tasks ..) (Nat.succ_pos _) (over_endPhase ..) (by simp)
  | failed ht =>
      exact turned_conclude rfl ht (conclude_tasks ..) (Nat.succ_pos _) (over_endPhase ..) (by simp)
  | cancelledScheduled ht => exact turned_conclude rfl ht rfl (Nat.succ_pos _) rfl rfl
  | cancelledWaiting ht => exact turned_conclude rfl ht rfl (Nat.succ_pos _) rfl rfl
  | @cancelledFetching t call role outcome ht =>
      refine turned_conclude rfl ht (conclude_tasks ..) ?_ (over_endPhase ..) (by simp)
      cases outcome <;> exact Nat.succ_pos _
  | purged => exact .kept ⟨rfl, rfl⟩ rfl rfl
  | ticked => exact .kept ⟨rfl, rfl⟩ rfl rfl
  | reset => exact .kept ⟨rfl, rfl⟩ rfl rfl

/-! ### Credit -/

/-- The turns that are left, of all tasks together. -/
def turnsLeft (s : Edge β) : Nat := Slots.total (fun τ => τ.phase.turns) s.tasks

/-- The requests that have gone to the origin, and those that are left. -/
def asked (s : Edge β) : Nat :=
  s.originCalls.length + Slots.total (fun τ => τ.phase.fetches) s.tasks

/-- One task has gone on, so what is left changes by what is left to it. -/
theorem total_moved (f : Phase β → Nat) {t : Nat} {call : Call β} {phase phase' : Phase β}
    (ht : s.tasks[t]? = some ⟨call, phase⟩)
    (htasks : m.tasks = s.tasks.modify t fun τ => { τ with phase := phase' }) :
    Slots.total (fun τ => f τ.phase) m.tasks + f phase =
      Slots.total (fun τ => f τ.phase) s.tasks + f phase' := by
  rw [htasks]
  exact Slots.total_modify (fun τ : Task β => f τ.phase) ht _

/-- A turn takes one of those that are left, and a request brings three. -/
theorem turnsLeft_step (hstep : s.step S a = some s') :
    s'.turnsLeft + (if a.turn then 1 else 0) ≤ s.turnsLeft + (if a.arrives then 3 else 0) := by
  obtain ⟨m, hmove, rfl⟩ := move_of_step hstep
  show Slots.total _ m.tasks + _ ≤ Slots.total _ s.tasks + _
  cases hmove.turned with
  | pushed htasks hturns =>
      rw [htasks, Slots.total_append, Slots.total_singleton]
      simp only [Action.turn, Action.task?, Action.arrives, Option.isSome_none, if_true]
      simpa using hturns
  | started htasks =>
      rw [htasks, Slots.total_append, Slots.total_append]
      simp [Action.turn, Action.task?, Action.arrives, Phase.turns]
  | @moved a t call phase phase' ha ht htasks hturns =>
      have htotal := total_moved Phase.turns ht htasks
      rw [ha]
      split <;> simp only [Bool.false_eq_true, if_false] <;> omega
  | kept ha htasks => rw [htasks, ha.1, ha.2]; simp

/-- What has been asked of the origin grows with the requests. -/
theorem asked_step (hstep : s.step S a = some s') :
    s'.asked + 0 ≤ s.asked + (if a.arrives then 1 else 0) := by
  obtain ⟨m, hmove, rfl⟩ := move_of_step hstep
  show m.originCalls.length + Slots.total _ m.tasks + 0 ≤
    s.originCalls.length + Slots.total _ s.tasks + _
  cases hmove.turned with
  | pushed htasks hturns hfetches =>
      rw [htasks, Slots.total_append, Slots.total_singleton]
      simp only [Action.arrives, if_true]
      omega
  | started htasks hcalls =>
      rw [htasks, hcalls, Slots.total_append, Slots.total_append]
      simp [Action.arrives, Phase.fetches]
      omega
  | @moved a t call phase phase' ha ht htasks hturns hfetches =>
      have htotal := total_moved Phase.fetches ht htasks
      rw [ha]
      simp only [Bool.false_eq_true, if_false]
      omega
  | kept ha htasks hcalls => rw [htasks, hcalls, ha.2]; simp

/-! ### Nobody is left behind -/

/-- Between two segments no task is in the middle of one. -/
theorem not_running_of_run {store : LruCacheStore β} {breaker : CircuitBreaker} {wall mono : Time}
    {p : List (Action β)} (hrun : Lts.run (step S) (start store breaker wall mono) p = some s) :
    ∀ τ ∈ s.tasks, τ.phase ≠ .running := by
  refine Lts.run_invariant (I := fun s : Edge β => ∀ τ ∈ s.tasks, τ.phase ≠ .running) ?_ p
    (fun τ hτ => by cases hτ) hrun
  intro s a s' h hstep
  refine forall_placed hstep h fun t τ hτ => ?_
  cases hτ with
  | ended hcall hphase => rcases hphase with h | ⟨x, h, -⟩ <;> simp [h]
  | _ => simp

theorem step_isSome_of_resume {t : Nat} (h : (s.resume S t).isSome = true) :
    (s.step S (.resume t)).isSome = true := by
  rw [step, Option.isSome_map]
  exact h

/-- **Somebody can go on** as long as a task is not over: a task that is scheduled or has been
answered, a waiter whose leader has ended, or whoever waits for the origin. -/
theorem over_of_stuck {store : LruCacheStore β} {breaker : CircuitBreaker} {wall mono : Time}
    {p : List (Action β)} (hrun : Lts.run (step S) (start store breaker wall mono) p = some s)
    (hresume : ∀ t, s.step S (.resume t) = none)
    (hanswer : ∀ t outcome, s.step S (.answer t outcome) = none) :
    (∀ τ ∈ s.tasks, τ.phase.over = true) ∧ s.inflight = ∅ := by
  have hstuck : ∀ t, (s.resume S t).isSome = false := fun t =>
    Bool.eq_false_of_not_eq_true fun h => by
      have hsome := step_isSome_of_resume h
      rw [hresume t] at hsome
      cases hsome
  have hnone : ∀ (t : Nat) (call : Call β) (role : Role) (outcome : Option (FetchOutcome β)),
      s.tasks[t]? ≠ some ⟨call, .fetching role outcome⟩ := by
    intro t call role outcome ht
    cases outcome with
    | none =>
        have hsome := hanswer t .failed
        simp [step, act, answer, ht] at hsome
    | some outcome =>
        have hsome := hstuck t
        simp [resume, ht] at hsome
  have hlead : ∀ t k e, ¬ s.Leads t k e := by
    rintro t k e ⟨call, outcome, ht, -⟩
    exact hnone t call _ _ ht
  obtain ⟨htable, hwaits⟩ := (noOrphans_of_run store breaker wall mono p s hrun).quiet hlead
  refine ⟨fun τ hτ => ?_, htable⟩
  obtain ⟨t, ht⟩ := List.getElem?_of_mem hτ
  obtain ⟨call, phase⟩ := τ
  cases phase with
  | running => exact absurd rfl (not_running_of_run hrun _ hτ)
  | scheduled =>
      have hsome := hstuck t
      simp [resume, ht] at hsome
  | waiting event =>
      have hsome := hwaits t event ⟨call, ht⟩
      rw [hresume t] at hsome
      cases hsome
  | fetching role outcome => exact absurd ht (hnone t call role outcome)
  | returned | raised | finished => rfl

/-- A task that is over takes no turn. -/
theorem stuck_of_over (h : ∀ τ ∈ s.tasks, τ.phase.over = true) :
    (∀ t, s.step S (.resume t) = none) ∧ ∀ t outcome, s.step S (.answer t outcome) = none := by
  have hover : ∀ {t : Nat} {call : Call β} {phase : Phase β},
      s.tasks[t]? = some ⟨call, phase⟩ → phase.over = true :=
    fun ht => h _ (List.mem_of_getElem? ht)
  refine ⟨fun t => ?_, fun t outcome => ?_⟩
  · cases ht : s.tasks[t]? with
    | none => simp [step, act, resume, ht]
    | some τ =>
        obtain ⟨call, phase⟩ := τ
        cases phase with
        | returned | raised | finished => simp [step, act, resume, ht]
        | _ => cases hover ht
  · cases ht : s.tasks[t]? with
    | none => simp [step, act, answer, ht]
    | some τ =>
        obtain ⟨call, phase⟩ := τ
        cases phase with
        | returned | raised | finished => simp [step, act, answer, ht]
        | _ => cases hover ht

/--
**Every request is settled after a few turns.**  Whatever the order of the turns and however the
fetches end: the tasks take no more than three turns for each request, the origin is asked no more
often than the edge, and as long as anything is under way somebody can take a turn or waits for
the origin.
-/
theorem settled_of_run (store : LruCacheStore β) (breaker : CircuitBreaker) (wall mono : Time)
    (p : List (Action β)) (s : Edge β)
    (hrun : Lts.run (step S) (start store breaker wall mono) p = some s) :
    p.countP Action.turn ≤ 3 * p.countP Action.arrives ∧
      s.originCalls.length ≤ p.countP Action.arrives ∧
      ((∀ t, s.step S (.resume t) = none) → (∀ t outcome, s.step S (.answer t outcome) = none) →
        (∀ τ ∈ s.tasks, τ.phase.over = true) ∧ s.inflight = ∅) := by
  have hturns : s.turnsLeft + p.countP Action.turn ≤
      turnsLeft (start store breaker wall mono : Edge β) + 3 * p.countP Action.arrives :=
    Lts.run_amortized (fun _ _ _ => turnsLeft_step) p hrun
  have hasked : s.asked + p.countP (fun _ => false) ≤
      asked (start store breaker wall mono : Edge β) + 1 * p.countP Action.arrives :=
    Lts.run_amortized (fun _ _ _ hstep => asked_step hstep) p hrun
  have hzero : turnsLeft (start store breaker wall mono : Edge β) = 0 := rfl
  have hnone : asked (start store breaker wall mono : Edge β) = 0 := rfl
  have hsent : s.originCalls.length ≤ s.asked := Nat.le_add_right ..
  exact ⟨by omega, by omega, over_of_stuck hrun⟩

/-- The leader is cancelled, and the call that has waited for it asks the origin again. -/
def askedTwiceOver : List (Action Nat) :=
  [.arrive "a" gzip, .arrive "a" gzip, .cancel 0, .resume 1, .answer 1 .failed, .resume 1]

/-- Two calls, two requests to the origin and four turns; then nobody can take another one. -/
theorem settled_of_run_askedTwiceOver : ∃ s,
    Lts.run (step sampleSetup) sampleStart askedTwiceOver = some s ∧
      askedTwiceOver.countP Action.turn = 4 ∧ s.originCalls.length = 2 ∧
      s.originCalls.length ≤ askedTwiceOver.countP Action.arrives ∧
      (∀ τ ∈ s.tasks, τ.phase.over = true) ∧ s.inflight = ∅ := by
  let s := Lts.last (step sampleSetup) sampleStart askedTwiceOver
  have hrun : (Lts.run (step sampleSetup) sampleStart askedTwiceOver).isSome = true := by
    decide +kernel
  have hends : s.originCalls.length = 2 ∧ s.tasks.all (fun τ => τ.phase.over) = true := by
    decide +kernel
  obtain ⟨hresume, hanswer⟩ := stuck_of_over (S := sampleSetup) (List.all_eq_true.mp hends.2)
  obtain ⟨-, hcalls, hstuck⟩ := settled_of_run {} {} 0 0 askedTwiceOver s (Lts.run_last hrun)
  exact ⟨s, Lts.run_last hrun, rfl, hends.1, hcalls, hstuck hresume hanswer⟩

end Edge

end Cdn

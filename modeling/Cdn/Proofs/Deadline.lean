/-
When an open circuit admits a call again.

A circuit opens at a failure, and is to admit the next call when the recovery timeout has
passed since.  While it waits, a success of a call from before does nothing to it.  A failure
of such a call is counted all the same, and taken for the last one: the comment in the source
calls it a no-op, and it moves the deadline.  So the deadline stands exactly if no call from
before fails while the circuit waits.
-/
import Cdn.Proofs.Probes

namespace Cdn

namespace CircuitBreaker

variable {b : CircuitBreaker} {now t : Time}

/-- An open circuit admits a call once its timeout has passed. -/
theorem aenter_ok_iff (sound : Sound b) (hopen : b.state = .open)
    (hlast : b.lastFailureTime = some t) :
    (∃ b', b.aenter now = .ok b') ↔ 0 < b.halfOpenMaxCalls ∧ t + b.recoveryTimeout ≤ now := by
  have hzero := sound.unused (by simp [hopen])
  by_cases hover : b.recoveryTimeout ≤ now - t
  · have hlate : t + b.recoveryTimeout ≤ now := by linarith
    rw [aenter_of_recovered hopen hlast hover, hzero]
    by_cases hmax : b.halfOpenMaxCalls ≤ 0
    · simp [hmax, refuse_ne_ok]
    · simp [hmax, hlate, Int.not_le.mp hmax]
  · have hearly : ¬ t + b.recoveryTimeout ≤ now := fun h => hover (by linarith)
    rw [aenter_of_open (by rw [stateAt_of_open hopen hlast, if_neg hover])]
    simp [hearly, refuse_ne_ok]

theorem recordSuccess_of_open (h : b.state = .open) : b.recordSuccess = b := by
  rw [recordSuccess, h]

/-- A failure is counted in an open circuit too. -/
theorem failureCount_recordFailure_of_open (h : b.state = .open) (now : Time) :
    (b.recordFailure now).failureCount = b.failureCount + 1 := by
  have hfails := fails b now
  generalize b.recordFailure now = b' at hfails
  cases hfails with
  | reopened hstate => rw [h] at hstate; cases hstate
  | tripped hstate hmany => rfl
  | counted hstate hfew => rfl

end CircuitBreaker

namespace Traffic

open CircuitBreaker

variable {s s' : Traffic} {a : CallAction}

theorem thresholds_step (hstep : s.step a = some s') :
    s'.breaker.thresholds = s.breaker.thresholds :=
  breaker_step (P := fun b => b.thresholds = s.breaker.thresholds) hstep rfl
    (fun _ h => thresholds_aenter h) (fun exc => thresholds_aexit _ exc _) rfl

theorem sound_step (sound : Sound s.breaker) (hstep : s.step a = some s') : Sound s'.breaker :=
  breaker_step hstep sound (fun _ h => sound.aenter h) (fun exc => sound.aexit exc) (sound_reset _)

theorem mono_le_step (hstep : s.step a = some s') : s.mono ≤ s'.mono := by
  cases step_cases hstep with
  | entered hallow => simp [letIn]
  | refused => exact le_rfl
  | left hcall hflight => simp [conclude]
  | reset => simp
  | ticked hmono => exact hmono

/-- A circuit opens at a failure, which is then the last one. -/
theorem lastFailureTime_of_opens (hstep : s.step a = some s') (hne : s.breaker.state ≠ .open)
    (hopen : s'.breaker.state = .open) : s'.breaker.lastFailureTime = some s'.mono := by
  cases step_cases hstep with
  | @entered b hallow =>
      replace hopen : b.state = .open := by simpa [letIn] using hopen
      cases admits_of_aenter hallow with
      | closed hstate => exact absurd hopen hne
      | probe hstate hfree => exact absurd hopen hne
      | recovered hstate hlast hover hfree => cases hopen
  | refused => exact absurd hopen hne
  | @left call exc admission hcall hflight =>
      rw [become_breaker] at hopen ⊢
      rw [become_mono]
      cases exc with
      | none =>
          replace hopen : s.breaker.recordSuccess.state = .open := hopen
          have hsucceeds := succeeds s.breaker
          generalize s.breaker.recordSuccess = b at hsucceeds hopen
          cases hsucceeds with
          | cleared hstate => exact absurd hopen hne
          | ignored hstate => exact absurd hopen hne
          | counted hstate hfew => exact absurd hopen hne
          | closes hstate hmany => cases hopen
      | some x =>
          replace hopen : (s.breaker.recordFailure s.mono).state = .open := hopen
          show (s.breaker.recordFailure s.mono).lastFailureTime = some s.mono
          have hfails := fails s.breaker s.mono
          generalize s.breaker.recordFailure s.mono = b at hfails hopen
          cases hfails with
          | reopened hstate => rfl
          | tripped hstate hmany => rfl
          | counted hstate hfew => rfl
  | reset => simp [CircuitBreaker.reset] at hopen
  | ticked hmono => exact absurd hopen hne

/-- What an open circuit that admits nobody makes of a step: only a failure changes it. -/
theorem step_of_open (hopen : s.breaker.state = .open)
    (hrefuses : ¬ ∃ b, s.breaker.aenter s.mono = .ok b) (ha : a ≠ .reset)
    (hstep : s.step a = some s') :
    (s'.breaker = s.breaker ∧ ∀ call x, a ≠ .leave call (some x)) ∨
      (∃ call x, a = .leave call (some x)) ∧ s'.mono = s.mono ∧
        s'.breaker = s.breaker.recordFailure s.mono := by
  cases step_cases hstep with
  | entered hallow => exact absurd ⟨_, hallow⟩ hrefuses
  | refused => exact Or.inl ⟨rfl, fun call x h => by cases h⟩
  | @left call exc admission hcall hflight =>
      cases exc with
      | none =>
          refine Or.inl ⟨?_, fun call x h => by cases h⟩
          rw [become_breaker]
          exact recordSuccess_of_open hopen
      | some x => exact Or.inr ⟨⟨call, x, rfl⟩, become_mono _ _, become_breaker _ _⟩
  | reset => exact absurd rfl ha
  | ticked hmono => exact Or.inl ⟨rfl, fun call x h => by cases h⟩

end Traffic

namespace Recovery

open CircuitBreaker

variable {s s' : Recovery} {a : CallAction} {trip : Trip}

/-- The circuit is as the trip has left it, and admits the next call when its timeout has
passed since then. -/
structure Fixed (trip : Trip) (b : CircuitBreaker) : Prop where
  state : b.state = .open
  failureCount : b.failureCount = trip.breaker.failureCount
  lastFailureTime : b.lastFailureTime = trip.breaker.lastFailureTime
  admits : ∀ now, (∃ b', b.aenter now = .ok b') ↔
    0 < b.halfOpenMaxCalls ∧ trip.time + b.recoveryTimeout ≤ now

/-- Until the recovery timeout has passed the deadline is the one the trip has fixed. -/
def Deadline (s : Recovery) : Prop := ∀ trip, s.Waiting trip → Fixed trip s.traffic.breaker

/-- No call that was let through before fails while the circuit waits. -/
def NoLateFailure (s : Recovery) (a : CallAction) : Prop :=
  ∀ call x, a = .leave call (some x) → ∀ trip, ¬ s.Waiting trip

theorem step_eq_some : s.step a = some s' ↔ a ≠ .reset ∧
    ∃ traffic, s.traffic.step a = some traffic ∧ s' = ⟨traffic,
      if s.traffic.breaker.state ≠ .open ∧ traffic.breaker.state = .open
        then some ⟨traffic.mono, traffic.breaker⟩ else s.trip⟩ := by
  unfold step
  by_cases ha : a = .reset
  · simp [ha]
  · rw [if_neg ha, Option.map_eq_some_iff]
    constructor
    · rintro ⟨traffic, htraffic, rfl⟩
      exact ⟨ha, traffic, htraffic, rfl⟩
    · rintro ⟨-, traffic, htraffic, rfl⟩
      exact ⟨traffic, htraffic, rfl⟩

/-- A circuit that waits after a step was waiting before, or has just opened. -/
theorem waiting_of_step (hstep : s.step a = some s') (h : s'.Waiting trip) :
    s.Waiting trip ∧ ¬ (s.traffic.breaker.state ≠ .open ∧ s'.traffic.breaker.state = .open) ∨
      (s.traffic.breaker.state ≠ .open ∧ s'.traffic.breaker.state = .open) ∧
        trip = ⟨s'.traffic.mono, s'.traffic.breaker⟩ := by
  obtain ⟨-, traffic, htraffic, rfl⟩ := step_eq_some.mp hstep
  obtain ⟨htrip, hearly⟩ := h
  have hthresholds := Traffic.thresholds_step htraffic
  simp only [thresholds, Prod.mk.injEq] at hthresholds
  have hmono := Traffic.mono_le_step htraffic
  dsimp only at htrip hearly ⊢
  split at htrip
  · rename_i hopens
    rw [Option.some.injEq] at htrip
    exact Or.inr ⟨hopens, htrip.symm⟩
  · rename_i hopens
    rw [hthresholds.2.1] at hearly
    exact Or.inl ⟨⟨htrip, lt_of_le_of_lt hmono hearly⟩, hopens⟩

/-- Before the deadline nobody is admitted. -/
theorem Fixed.refuses (h : Fixed trip s.traffic.breaker) (hwait : s.Waiting trip) :
    ¬ ∃ b, s.traffic.breaker.aenter s.traffic.mono = .ok b := by
  rw [h.admits]
  exact fun hadmits => absurd hwait.2 (not_lt.mpr hadmits.2)

/-- **One step.**  The deadline stands after it exactly if it is not a late failure. -/
theorem deadline_step (sound : Sound s.traffic.breaker) (h : s.Deadline)
    (hstep : s.step a = some s') : s'.Deadline ↔ s.NoLateFailure a := by
  obtain ⟨hreset, traffic, htraffic, hs'⟩ := step_eq_some.mp hstep
  have hbreaker' : s'.traffic = traffic := by rw [hs']
  constructor
  · intro hdeadline call x ha trip hwait
    have hfixed := h trip hwait
    rcases Traffic.step_of_open hfixed.state (hfixed.refuses hwait) hreset htraffic with
      ⟨-, hkept⟩ | ⟨-, hmono, hbreaker⟩
    · exact hkept call x ha
    · -- the failure is counted, and the circuit is still waiting
      have hthresholds := Traffic.thresholds_step htraffic
      simp only [thresholds, Prod.mk.injEq] at hthresholds
      have hwait' : s'.Waiting trip := by
        rw [hs']
        refine ⟨?_, ?_⟩
        · rw [if_neg fun hopens => hopens.1 hfixed.state]
          exact hwait.1
        · show traffic.mono < trip.time + traffic.breaker.recoveryTimeout
          rw [hmono, hthresholds.2.1]
          exact hwait.2
      have hcount := (hdeadline trip hwait').failureCount
      rw [hbreaker', hbreaker, failureCount_recordFailure_of_open hfixed.state,
        hfixed.failureCount] at hcount
      omega
  · intro hno trip hwait'
    rcases waiting_of_step hstep hwait' with ⟨hwait, -⟩ | ⟨⟨hne, hopen⟩, rfl⟩
    · have hfixed := h trip hwait
      rcases Traffic.step_of_open hfixed.state (hfixed.refuses hwait) hreset htraffic with
        ⟨hbreaker, -⟩ | ⟨⟨call, x, ha⟩, -, -⟩
      · rw [hbreaker', hbreaker]
        exact hfixed
      · exact absurd hwait (hno call x ha trip)
    · rw [hbreaker'] at hopen ⊢
      exact ⟨hopen, rfl, rfl, fun now => aenter_ok_iff (Traffic.sound_step sound htraffic) hopen
        (Traffic.lastFailureTime_of_opens htraffic hne hopen)⟩

/--
**When the deadline stands.**  In every run without a reset, with any thresholds: an open
circuit stays as the trip has left it, and admits the next call just when the timeout has
passed, exactly if no call from before fails while it waits.
-/
theorem deadline_iff (failureThreshold : Int) (recoveryTimeout : Time)
    (halfOpenMaxCalls successThreshold : Int) (mono : Time) (p : List CallAction) :
    Lts.Always step Deadline ⟨.start (.init failureThreshold recoveryTimeout halfOpenMaxCalls
        successThreshold) mono, none⟩ p ↔
      Lts.EachStep step NoLateFailure ⟨.start (.init failureThreshold recoveryTimeout
        halfOpenMaxCalls successThreshold) mono, none⟩ p := by
  refine Lts.always_iff_eachStep (I := fun s => Sound s.traffic.breaker)
    (fun s a s' sound hstep => ?_) (fun s a s' sound h hstep => deadline_step sound h hstep) p (sound_init _ _ _ _)
    fun trip hwait => by cases hwait.1
  obtain ⟨-, traffic, htraffic, rfl⟩ := step_eq_some.mp hstep
  exact Traffic.sound_step sound htraffic

/-- Two calls are let through.  The first fails and opens the circuit; the second fails ten
seconds later. -/
def lateFailure : List CallAction :=
  [.enter, .enter, .leave 0 (some .fetch), .tick 10, .leave 1 (some .fetch)]

/-- The circuit as the first failure leaves it. -/
def sampleTrip : Trip where
  time := 0
  breaker := { CircuitBreaker.init 1 30 1 2 with
    state := .open, failureCount := 1, lastFailureTime := some 0 }

theorem not_deadline_late : ¬ ∀ (failureThreshold : Int) (recoveryTimeout : Time)
    (halfOpenMaxCalls successThreshold : Int) (mono : Time) (p : List CallAction),
    Lts.Always step Deadline ⟨.start (.init failureThreshold recoveryTimeout halfOpenMaxCalls
      successThreshold) mono, none⟩ p := by
  intro h
  have hrun : Lts.run step ⟨.start (.init 1 30 1 2) 0, none⟩ lateFailure =
      some (Lts.last step ⟨.start (.init 1 30 1 2) 0, none⟩ lateFailure) :=
    Lts.run_last (by decide +kernel)
  have hcount := ((h 1 30 1 2 0 lateFailure).last hrun sampleTrip
    ⟨by decide +kernel, by decide +kernel⟩).failureCount
  revert hcount
  decide +kernel

end Recovery

end Cdn

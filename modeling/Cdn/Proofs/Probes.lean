/-
The calls of a half-open circuit.

A half-open circuit counts the calls it lets through as probes, with one integer that
every call takes from when it ends.  A call from before, closed circuit or earlier phase,
takes from it too, and its success counts as a probe's.

So the count is never above the number of probes in flight, which is what keeps the
circuit from locking itself out; and it is that number exactly as long as no call from
before ends in success at a taken slot.  The same calls decide whether the circuit closes
on the evidence of probes alone.
-/
import Cdn.Proofs.Breaker

namespace Cdn

namespace Traffic

open CircuitBreaker

variable {s s' : Traffic} {a : CallAction} {b : CircuitBreaker}

/-! ### The fields a piece of a step writes -/

@[simp] theorem become_breaker (s : Traffic) (b : CircuitBreaker) :
    (s.become b).breaker = b := by
  unfold become
  split <;> rfl

@[simp] theorem become_mono (s : Traffic) (b : CircuitBreaker) :
    (s.become b).mono = s.mono := by
  unfold become
  split <;> rfl

@[simp] theorem become_calls (s : Traffic) (b : CircuitBreaker) :
    (s.become b).calls = s.calls := by
  unfold become
  split <;> rfl

@[simp] theorem become_lastFailure (s : Traffic) (b : CircuitBreaker) :
    (s.become b).lastFailure = s.lastFailure := by
  unfold become
  split <;> rfl

theorem become_of_eq (h : b.state = s.breaker.state) : s.become b = { s with breaker := b } :=
  if_pos h

theorem become_of_ne (h : b.state ≠ s.breaker.state) :
    s.become b = { s with breaker := b, phase := s.phase + 1, endings := [] } :=
  if_neg h

theorem phase_le_become (s : Traffic) (b : CircuitBreaker) : s.phase ≤ (s.become b).phase := by
  by_cases h : b.state = s.breaker.state
  · rw [become_of_eq h]
  · rw [become_of_ne h]
    exact Nat.le_succ _

/-! ### Steps -/

/-- What a step can do. -/
inductive Step (s : Traffic) : CallAction → Traffic → Prop where
  | entered {b : CircuitBreaker} (hallow : s.breaker.aenter s.mono = .ok b) :
      Step s .enter (s.become b).letIn
  | refused : Step s .enter s
  | left {call : Nat} {exc : Option Exn} {admission : Admission}
      (hcall : s.calls[call]? = some admission) (hflight : admission.ended = false) :
      Step s (.leave call exc)
        ((s.conclude call admission exc).become (s.breaker.aexit exc s.mono))
  | reset : Step s .reset (s.become s.breaker.reset)
  | ticked {mono : Time} (hmono : s.mono ≤ mono) : Step s (.tick mono) { s with mono }

theorem step_cases (hstep : s.step a = some s') : Step s a s' := by
  cases a with
  | enter =>
      simp only [step] at hstep
      split at hstep
      · rename_i b hallow
        cases hstep
        exact .entered hallow
      · cases hstep
        exact .refused
  | leave call exc =>
      simp only [step] at hstep
      split at hstep
      · cases hstep
      · rename_i admission hcall
        split at hstep
        · cases hstep
        · rename_i hflight
          cases hstep
          exact .left hcall (by simpa using hflight)
  | reset =>
      cases hstep
      exact .reset
  | tick mono =>
      simp only [step] at hstep
      split at hstep
      · rename_i hmono
        cases hstep
        exact .ticked hmono
      · cases hstep

/-! ### Steps of a half-open circuit -/

/-- The steps a half-open circuit stays half open at. -/
inductive Stays (s : Traffic) : CallAction → Traffic → Prop where
  | ticked {mono : Time} : Stays s (.tick mono) { s with mono }
  | refused : Stays s .enter s
  | admitted (hfree : s.breaker.halfOpenCalls < s.breaker.halfOpenMaxCalls) :
      Stays s .enter ({ s with breaker := { s.breaker with
        halfOpenCalls := s.breaker.halfOpenCalls + 1 } }).letIn
  | returned {call : Nat} {admission : Admission} (hcall : s.calls[call]? = some admission)
      (hflight : admission.ended = false)
      (hfew : s.breaker.successCount + 1 < s.breaker.successThreshold) :
      Stays s (.leave call none) { s.conclude call admission none with
        breaker := { s.breaker with
          halfOpenCalls := max 0 (s.breaker.halfOpenCalls - 1)
          successCount := s.breaker.successCount + 1 } }

/-- The step that makes an open circuit half open: its first probe is let through. -/
def reopen (s : Traffic) : Traffic :=
  ({ s with
      breaker := { s.breaker with state := .halfOpen, successCount := 0, halfOpenCalls := 1 }
      phase := s.phase + 1, endings := [] } : Traffic).letIn

/-- A circuit is half open after a step if it was before, or was open and let a call through. -/
theorem stays_or_reopens (hstep : s.step a = some s') (hhalf : s'.breaker.state = .halfOpen) :
    (s.breaker.state = .halfOpen ∧ Stays s a s') ∨
      (s.breaker.state = .open ∧ a = .enter ∧ 0 < s.breaker.halfOpenMaxCalls -
        s.breaker.halfOpenCalls ∧ s' = s.reopen) := by
  cases step_cases hstep with
  | entered hallow =>
      cases admits_of_aenter hallow with
      | closed hstate =>
          replace hhalf : s.breaker.state = .halfOpen := by simpa [letIn] using hhalf
          rw [hstate] at hhalf
          cases hhalf
      | probe hstate hfree =>
          rw [become_of_eq (by exact rfl)]
          exact Or.inl ⟨hstate, .admitted hfree⟩
      | recovered hstate hlast hover hfree =>
          rw [become_of_ne (by simp [hstate])]
          exact Or.inr ⟨hstate, rfl, by omega, rfl⟩
  | refused => exact Or.inl ⟨hhalf, .refused⟩
  | @left call exc admission hcall hflight =>
      rw [become_breaker] at hhalf
      cases exc with
      | none =>
          simp only [aexit] at hhalf ⊢
          have hsucceeds := succeeds s.breaker
          generalize s.breaker.recordSuccess = b at hsucceeds hhalf
          cases hsucceeds with
          | cleared hstate => rw [show s.breaker.state = .halfOpen from hhalf] at hstate; cases hstate
          | ignored hstate => rw [hhalf] at hstate; cases hstate
          | counted hstate hfew =>
              rw [become_of_eq (by exact rfl)]
              exact Or.inl ⟨hstate, .returned hcall hflight hfew⟩
          | closes hstate hmany => cases hhalf
      | some x =>
          simp only [aexit] at hhalf
          have hfails := fails s.breaker s.mono
          generalize s.breaker.recordFailure s.mono = b at hfails hhalf
          cases hfails with
          | reopened hstate => cases hhalf
          | tripped hstate hmany => cases hhalf
          | counted hstate hfew => exact absurd hhalf hstate
  | reset =>
      rw [become_breaker] at hhalf
      cases hhalf
  | ticked hmono => exact Or.inl ⟨hhalf, .ticked⟩

/-! ### The probes in flight -/

/-- No call was let through in a phase that is still to come. -/
def Phased (s : Traffic) : Prop :=
  ∀ (i : Nat) (c : Admission), s.calls[i]? = some c → c.phase ≤ s.phase

theorem phased_step (phased : s.Phased) (hstep : s.step a = some s') : s'.Phased := by
  cases step_cases hstep with
  | @entered b hallow =>
      have hle := phase_le_become s b
      intro i c hc
      refine Slots.forall_append (P := fun _ c => c.phase ≤ (s.become b).phase)
        (fun j x hx => ?_) le_rfl i c hc
      rw [become_calls] at hx
      exact (phased j x hx).trans hle
  | refused => exact phased
  | @left call exc admission hcall hflight =>
      have hle := phase_le_become (s.conclude call admission exc) (s.breaker.aexit exc s.mono)
      intro i c hc
      rw [become_calls] at hc
      refine le_trans ?_ hle
      exact Slots.forall_modify (P := fun _ (c : Admission) => c.phase ≤ s.phase) phased hcall
        (phased call admission hcall) i c hc
  | reset =>
      intro i c hc
      rw [become_calls] at hc
      exact (phased i c hc).trans (phase_le_become s _)
  | ticked hmono => exact phased

@[simp] theorem probes_letIn (s : Traffic) : s.letIn.probes = s.probes + 1 := by
  simp [probes, letIn, List.countP_append, Probe]
  rfl

theorem probes_conclude {call : Nat} {admission : Admission} (exc : Option Exn)
    (hcall : s.calls[call]? = some admission) (hflight : admission.ended = false) :
    (s.conclude call admission exc).probes + (if admission.phase = s.phase then 1 else 0) =
      s.probes := by
  have h := Slots.countP_modify s.Probe hcall fun c => { c with ended := true }
  simp only [Probe, hflight, decide_eq_true_eq, and_true, Bool.true_eq_false, and_false,
    if_false, Nat.add_zero] at h
  exact h

theorem probes_reopen (phased : s.Phased) : s.reopen.probes = 1 := by
  rw [reopen, probes_letIn, probes, List.countP_eq_zero.mpr]
  intro c hc
  obtain ⟨i, hi⟩ := List.mem_iff_getElem?.mp hc
  have hle := phased i c hi
  simp only [Probe, decide_eq_true_eq]
  omega

/-! ### No permanent lock-out -/

/-- What holds of the breaker at all times, and of the calls that go through it. -/
structure Tracked (made : Int × Time × Int × Int) (s : Traffic) : Prop where
  sound : Sound s.breaker
  thresholds : s.breaker.thresholds = made
  phased : s.Phased
  /-- Outside the closed state the breaker remembers the last failure there was. -/
  remembered : s.breaker.state ≠ .closed → s.breaker.lastFailureTime = s.lastFailure
  /-- Every slot that is taken is taken by a probe in flight. -/
  covered : s.breaker.state = .halfOpen → s.breaker.halfOpenCalls ≤ s.probes

theorem tracked_start (failureThreshold : Int) (recoveryTimeout : Time)
    (halfOpenMaxCalls successThreshold : Int) (mono : Time) :
    Tracked (failureThreshold, recoveryTimeout, halfOpenMaxCalls, successThreshold)
      (start (init failureThreshold recoveryTimeout halfOpenMaxCalls successThreshold) mono) where
  sound := sound_init _ _ _ _
  thresholds := rfl
  phased := fun i c hc => by simp [start] at hc
  remembered := fun h => absurd rfl h
  covered := fun h => by cases h

/-- What a step does to the breaker is one of its operations, or nothing. -/
theorem breaker_step {P : CircuitBreaker → Prop} (hstep : s.step a = some s')
    (hsame : P s.breaker) (henter : ∀ b, s.breaker.aenter s.mono = .ok b → P b)
    (hexit : ∀ exc, P (s.breaker.aexit exc s.mono)) (hreset : P s.breaker.reset) :
    P s'.breaker := by
  cases step_cases hstep with
  | @entered b hallow => simpa [letIn] using henter b hallow
  | refused => exact hsame
  | left hcall hflight =>
      rw [become_breaker]
      exact hexit _
  | reset =>
      rw [become_breaker]
      exact hreset
  | ticked hmono => exact hsame

/-- A step leaves no slot taken that no probe in flight has taken. -/
theorem covered_step (sound : Sound s.breaker) (phased : s.Phased)
    (covered : s.breaker.state = .halfOpen → s.breaker.halfOpenCalls ≤ s.probes)
    (hstep : s.step a = some s') (hhalf : s'.breaker.state = .halfOpen) :
    s'.breaker.halfOpenCalls ≤ s'.probes := by
  rcases stays_or_reopens hstep hhalf with ⟨hstate, hstays⟩ | ⟨-, -, -, rfl⟩
  · have hle := covered hstate
    cases hstays with
    | ticked => exact hle
    | refused => exact hle
    | admitted hfree =>
        rw [probes_letIn]
        show s.breaker.halfOpenCalls + 1 ≤ ((s.probes + 1 : Nat) : Int)
        omega
    | @returned call admission hcall hflight hfew =>
        have hprobes := probes_conclude none hcall hflight
        have hnonneg := sound.nonneg
        show max 0 (s.breaker.halfOpenCalls - 1) ≤ ((s.conclude call admission none).probes : Int)
        split at hprobes <;> omega
  · rw [probes_reopen phased]
    exact le_rfl

theorem remembered_step (hremembered : s.breaker.state ≠ .closed →
      s.breaker.lastFailureTime = s.lastFailure) (hstep : s.step a = some s')
    (hopen : s'.breaker.state ≠ .closed) : s'.breaker.lastFailureTime = s'.lastFailure := by
  cases step_cases hstep with
  | entered hallow =>
      simp only [letIn, become_breaker, become_lastFailure] at hopen ⊢
      cases admits_of_aenter hallow with
      | closed hstate => exact absurd hstate hopen
      | probe hstate hfree => exact hremembered hopen
      | recovered hstate hlast hover hfree => exact hremembered (by simp [hstate])
  | refused => exact hremembered hopen
  | @left call exc admission hcall hflight =>
      rw [become_breaker] at hopen ⊢
      rw [become_lastFailure]
      cases exc with
      | none =>
          simp only [aexit] at hopen ⊢
          have hsucceeds := succeeds s.breaker
          generalize s.breaker.recordSuccess = b at hsucceeds hopen
          cases hsucceeds with
          | cleared hstate => exact absurd hstate hopen
          | ignored hstate => exact hremembered hopen
          | counted hstate hfew => exact hremembered hopen
          | closes hstate hmany => exact absurd rfl hopen
      | some x =>
          simp only [aexit]
          have hfails := fails s.breaker s.mono
          generalize s.breaker.recordFailure s.mono = b at hfails
          cases hfails <;> rfl
  | reset =>
      rw [become_breaker] at hopen
      exact absurd rfl hopen
  | ticked hmono => exact hremembered hopen

theorem tracked_step {made : Int × Time × Int × Int} (tracked : Tracked made s)
    (hstep : s.step a = some s') : Tracked made s' where
  sound := breaker_step hstep tracked.sound (fun _ h => tracked.sound.aenter h)
    (fun exc => tracked.sound.aexit exc) (sound_reset _)
  thresholds := breaker_step (P := fun b => b.thresholds = made) hstep tracked.thresholds
    (fun _ h => (thresholds_aenter h).trans tracked.thresholds)
    (fun exc => (thresholds_aexit _ exc _).trans tracked.thresholds) tracked.thresholds
  phased := phased_step tracked.phased hstep
  remembered := remembered_step tracked.remembered hstep
  covered := covered_step tracked.sound tracked.phased tracked.covered hstep

theorem tracked_run {failureThreshold : Int} {recoveryTimeout : Time}
    {halfOpenMaxCalls successThreshold : Int} {mono : Time} {p : List CallAction}
    (hrun : Lts.run step
      (start (init failureThreshold recoveryTimeout halfOpenMaxCalls successThreshold) mono) p =
        some s) :
    Tracked (failureThreshold, recoveryTimeout, halfOpenMaxCalls, successThreshold) s :=
  Lts.run_invariant (fun _ _ _ => tracked_step) p (tracked_start _ _ _ _ _) hrun

/-- A breaker with a free slot whose timeout has passed lets the next call through. -/
theorem admitted_of_free (sound : Sound s.breaker)
    (hfree : s.breaker.halfOpenCalls < s.breaker.halfOpenMaxCalls)
    (hover : ∀ t, s.breaker.lastFailureTime = some t → s.breaker.state = .open →
      s.breaker.recoveryTimeout ≤ s.mono - t) :
    ∃ b, s.breaker.aenter s.mono = .ok b := by
  have hslot : ¬ s.breaker.halfOpenMaxCalls ≤ s.breaker.halfOpenCalls := by omega
  cases hstate : s.breaker.state with
  | closed => exact ⟨_, aenter_of_closed hstate⟩
  | halfOpen =>
      rw [aenter_of_halfOpen hstate, if_neg hslot]
      exact ⟨_, rfl⟩
  | «open» =>
      obtain ⟨t, ht⟩ := sound.timed (by simp [hstate])
      rw [aenter_of_recovered hstate ht (hover t ht hstate), if_neg hslot]
      exact ⟨_, rfl⟩

/--
**No permanent lock-out.**  However calls enter and leave, a half-open circuit never has
more slots taken than there are probes in flight.  So when no call is in flight and the
timeout has passed since the last failure, the next call is let through.
-/
theorem no_lock_out (failureThreshold : Int) (recoveryTimeout : Time)
    (halfOpenMaxCalls successThreshold : Int) (hcalls : 1 ≤ halfOpenMaxCalls) (mono : Time)
    (p : List CallAction)
    (hrun : Lts.run step
      (start (init failureThreshold recoveryTimeout halfOpenMaxCalls successThreshold) mono) p =
        some s) :
    (s.breaker.state = .halfOpen → s.breaker.halfOpenCalls ≤ s.probes) ∧
    (s.Idle → (∀ t, s.lastFailure = some t → recoveryTimeout ≤ s.mono - t) →
      ∃ b, s.breaker.aenter s.mono = .ok b) := by
  have tracked := tracked_run hrun
  refine ⟨tracked.covered, fun hidle hover => ?_⟩
  obtain ⟨-, htimeout, hmax, -⟩ : s.breaker.failureThreshold = failureThreshold ∧
      s.breaker.recoveryTimeout = recoveryTimeout ∧
      s.breaker.halfOpenMaxCalls = halfOpenMaxCalls ∧
      s.breaker.successThreshold = successThreshold := by
    simpa [thresholds] using tracked.thresholds
  have hprobes : s.probes = 0 := by
    refine List.countP_eq_zero.mpr fun c hc => ?_
    simp [Probe, hidle c hc]
  have hzero : s.breaker.halfOpenCalls = 0 := by
    by_cases hhalf : s.breaker.state = .halfOpen
    · have hle := tracked.covered hhalf
      have hnonneg := tracked.sound.nonneg
      omega
    · exact tracked.sound.unused hhalf
  refine admitted_of_free tracked.sound (by omega) fun t ht hopen => ?_
  rw [htimeout]
  exact hover t (by rw [← tracked.remembered (by simp [hopen]), ht])

/-- A call is let through and fails, and the next is let through once the timeout has
passed; then both are over. -/
def recovering : List CallAction :=
  [.enter, .leave 0 (some .fetch), .tick 30, .enter, .leave 1 (some .cancelled), .tick 60]

theorem no_lock_out_recovering :
    let s := Lts.last step (start (init 1 30 1 2) 0) recovering
    s.breaker.state = .open ∧ ∃ b, s.breaker.aenter s.mono = .ok b := by
  have hrun : Lts.run step (start (init 1 30 1 2) 0) recovering =
      some (Lts.last step (start (init 1 30 1 2) 0) recovering) :=
    Lts.run_last (by decide +kernel)
  have hidle : (Lts.last step (start (init 1 30 1 2) 0) recovering).Idle := by
    unfold Idle
    decide +kernel
  have hlast : (Lts.last step (start (init 1 30 1 2) 0) recovering).lastFailure = some 30 := by
    decide +kernel
  have hmono : (Lts.last step (start (init 1 30 1 2) 0) recovering).mono = 60 := by
    decide +kernel
  refine ⟨by decide +kernel, (no_lock_out 1 30 1 2 (by decide) 0 recovering hrun).2 hidle ?_⟩
  intro t ht
  rw [hlast, Option.some.injEq] at ht
  rw [hmono, ← ht]
  norm_num

/-! ### The concurrency bound -/

/-- A call from before the phase ends in success at a taken slot, and leaves the circuit
half open: it gives back a slot that a probe holds. -/
def Steals (s : Traffic) : CallAction → Prop
  | .leave call none => ∃ admission ∈ s.calls[call]?,
      admission.phase ≠ s.phase ∧ s.breaker.state = .halfOpen ∧ 0 < s.breaker.halfOpenCalls ∧
        s.breaker.successCount + 1 < s.breaker.successThreshold
  | _ => False

instance (s : Traffic) (a : CallAction) : Decidable (s.Steals a) :=
  match a with
  | .leave call none => inferInstanceAs (Decidable (∃ admission ∈ s.calls[call]?,
      admission.phase ≠ s.phase ∧ s.breaker.state = .halfOpen ∧ 0 < s.breaker.halfOpenCalls ∧
        s.breaker.successCount + 1 < s.breaker.successThreshold))
  | .leave _ (some _) | .enter | .reset | .tick _ => inferInstanceAs (Decidable False)

/-- Where no call gives back a slot of another, the slots taken are the probes in flight. -/
theorem counted_step (phased : s.Phased)
    (counted : s.breaker.state = .halfOpen → s.breaker.halfOpenCalls = s.probes)
    (hsteal : ¬ s.Steals a) (hstep : s.step a = some s') (hhalf : s'.breaker.state = .halfOpen) :
    s'.breaker.halfOpenCalls = s'.probes := by
  rcases stays_or_reopens hstep hhalf with ⟨hstate, hstays⟩ | ⟨-, -, -, rfl⟩
  · have heq := counted hstate
    cases hstays with
    | ticked => exact heq
    | refused => exact heq
    | admitted hfree =>
        rw [probes_letIn]
        show s.breaker.halfOpenCalls + 1 = ((s.probes + 1 : Nat) : Int)
        omega
    | @returned call admission hcall hflight hfew =>
        have hprobes := probes_conclude none hcall hflight
        show max 0 (s.breaker.halfOpenCalls - 1) = ((s.conclude call admission none).probes : Int)
        split at hprobes
        · omega
        · rename_i hphase
          have hzero : ¬ 0 < s.breaker.halfOpenCalls := fun hpos =>
            hsteal ⟨admission, hcall, hphase, hstate, hpos, hfew⟩
          omega
  · rw [probes_reopen phased]
    rfl

/--
**The concurrency bound of a half-open circuit.**  In every run in which no call from
before the phase ends in success at a slot that a probe holds, a half-open circuit never
has more probes in flight than it allows.
-/
theorem probes_le (failureThreshold : Int) (recoveryTimeout : Time)
    (halfOpenMaxCalls successThreshold : Int) (mono : Time) (p : List CallAction)
    (hsteal : Lts.EachStep step (fun s a => ¬ s.Steals a)
      (start (init failureThreshold recoveryTimeout halfOpenMaxCalls successThreshold) mono) p)
    (hrun : Lts.run step
      (start (init failureThreshold recoveryTimeout halfOpenMaxCalls successThreshold) mono) p =
        some s) (hhalf : s.breaker.state = .halfOpen) :
    (s.probes : Int) ≤ halfOpenMaxCalls := by
  have hkept := Lts.run_guarded
    (I := fun s => Tracked (failureThreshold, recoveryTimeout, halfOpenMaxCalls, successThreshold) s ∧
      (s.breaker.state = .halfOpen → s.breaker.halfOpenCalls = s.probes))
    (fun s a s' h hc hstep => ⟨tracked_step h.1 hstep, counted_step h.1.phased h.2 hc hstep⟩)
    p ⟨tracked_start _ _ _ _ _, fun h => by cases h⟩ hsteal hrun
  obtain ⟨tracked, counted⟩ := hkept
  have hbounded := tracked.sound.bounded hhalf
  have hmax : s.breaker.halfOpenMaxCalls = halfOpenMaxCalls := by
    have h := tracked.thresholds
    simp only [thresholds, Prod.mk.injEq] at h
    exact h.2.2.1
  rw [← counted hhalf, ← hmax]
  exact hbounded

/-- The probe that follows a failure is the only one in flight. -/
def probing : List CallAction := [.enter, .leave 0 (some .fetch), .tick 30, .enter]

theorem probes_le_probing :
    let s := Lts.last step (start (init 1 30 1 2) 0) probing
    s.breaker.state = .halfOpen ∧ (s.probes : Int) ≤ 1 := by
  have hrun : Lts.run step (start (init 1 30 1 2) 0) probing =
      some (Lts.last step (start (init 1 30 1 2) 0) probing) :=
    Lts.run_last (by decide +kernel)
  have hhalf : (Lts.last step (start (init 1 30 1 2) 0) probing).breaker.state = .halfOpen := by
    decide +kernel
  have hcheck : Lts.checkEach step (fun s a => decide (¬ s.Steals a))
      (start (init 1 30 1 2) 0) probing = true := by decide +kernel
  exact ⟨hhalf, probes_le 1 30 1 2 0 probing
    (Lts.eachStep_of_check (fun _ _ => of_decide_eq_true) hcheck) hrun hhalf⟩

/-- Two calls enter a closed circuit and one of them fails.  The other ends while a probe is
in flight, and a second probe is let through. -/
def straying : List CallAction :=
  [.enter, .enter, .leave 1 (some .fetch), .tick 30, .enter, .leave 0 none, .enter]

theorem probes_exceed_straying : ¬ ∀ (failureThreshold : Int) (recoveryTimeout : Time)
    (halfOpenMaxCalls successThreshold : Int) (mono : Time) (p : List CallAction) (s : Traffic),
    1 ≤ halfOpenMaxCalls →
    Lts.run step
      (start (init failureThreshold recoveryTimeout halfOpenMaxCalls successThreshold) mono) p =
        some s →
    s.breaker.state = .halfOpen → (s.probes : Int) ≤ halfOpenMaxCalls := by
  intro h
  have hrun : Lts.run step (start (init 1 30 1 2) 0) straying =
      some (Lts.last step (start (init 1 30 1 2) 0) straying) :=
    Lts.run_last (by decide +kernel)
  have hhalf : (Lts.last step (start (init 1 30 1 2) 0) straying).breaker.state = .halfOpen := by
    decide +kernel
  have hprobes : (Lts.last step (start (init 1 30 1 2) 0) straying).probes = 2 := by
    decide +kernel
  have hle := h 1 30 1 2 0 straying _ (by decide) hrun hhalf
  rw [hprobes] at hle
  exact absurd hle (by decide)

/-- A half-open circuit with free slots lets that many more calls through. -/
theorem exists_enters : ∀ (n : Nat) {s : Traffic}, s.breaker.state = .halfOpen →
    s.breaker.halfOpenCalls + n ≤ s.breaker.halfOpenMaxCalls →
    ∃ u, Lts.run step s (List.replicate n .enter) = some u ∧ u.breaker.state = .halfOpen ∧
      u.probes = s.probes + n ∧ u.breaker.halfOpenMaxCalls = s.breaker.halfOpenMaxCalls := by
  intro n
  induction n with
  | zero => intro s hhalf _; exact ⟨s, rfl, hhalf, rfl, rfl⟩
  | succ n ih =>
      intro s hhalf hfree
      let m : Traffic := ({ s with breaker := { s.breaker with
        halfOpenCalls := s.breaker.halfOpenCalls + 1 } } : Traffic).letIn
      have hstep : s.step .enter = some m := by
        have hslot : ¬ s.breaker.halfOpenMaxCalls ≤ s.breaker.halfOpenCalls := by omega
        simp only [step, aenter_of_halfOpen hhalf, if_neg hslot]
        rw [become_of_eq (by exact rfl)]
      have hprobes : m.probes = s.probes + 1 := probes_letIn _
      obtain ⟨u, hrun, huhalf, huprobes, humax⟩ := ih (s := m) hhalf
        (by show s.breaker.halfOpenCalls + 1 + n ≤ s.breaker.halfOpenMaxCalls; omega)
      refine ⟨u, ?_, huhalf, by omega, humax⟩
      rw [List.replicate_succ, Lts.run_cons]
      exact ⟨m, hstep, hrun⟩

/-- A step that steals a slot is the defect: the calls it lets in next exceed the bound. -/
theorem exceeds_of_steals {made : Int × Time × Int × Int} (tracked : Tracked made s)
    (hsteals : s.Steals a) (hstep : s.step a = some s') :
    ∃ (n : Nat) (u : Traffic), Lts.run step s' (List.replicate n .enter) = some u ∧
      u.breaker.state = .halfOpen ∧ u.breaker.halfOpenMaxCalls < u.probes := by
  cases a with
  | leave call exc =>
      cases exc with
      | none =>
          obtain ⟨admission, hcall, hphase, hhalf, hpos, hfew⟩ := hsteals
          cases step_cases hstep with
          | left hcall' hflight =>
              cases hcall.symm.trans hcall'
              have hprobes := probes_conclude none hcall hflight
              rw [if_neg hphase] at hprobes
              have hle := tracked.covered hhalf
              have hbounded := tracked.sound.bounded hhalf
              have hexit : s.breaker.aexit none s.mono = { s.breaker with
                  halfOpenCalls := max 0 (s.breaker.halfOpenCalls - 1)
                  successCount := s.breaker.successCount + 1 } :=
                recordSuccess_of_few hhalf hfew
              rw [hexit, become_of_eq (by exact rfl)]
              obtain ⟨u, hrun, huhalf, huprobes, humax⟩ := exists_enters
                (s.breaker.halfOpenMaxCalls - (s.breaker.halfOpenCalls - 1)).toNat
                (s := { s.conclude call admission none with breaker := { s.breaker with
                  halfOpenCalls := max 0 (s.breaker.halfOpenCalls - 1)
                  successCount := s.breaker.successCount + 1 } }) hhalf
                (by
                  show max 0 (s.breaker.halfOpenCalls - 1) + _ ≤ s.breaker.halfOpenMaxCalls
                  omega)
              refine ⟨_, u, hrun, huhalf, ?_⟩
              rw [humax, huprobes]
              show s.breaker.halfOpenMaxCalls < (((s.conclude call admission none).probes + _ : Nat) : Int)
              omega
      | some x => cases hsteals
  | _ => cases hsteals

end Traffic

end Cdn

/-
On what evidence a circuit closes.

A half-open circuit closes when it has counted enough successes.  What it counts are the
calls that ended in success since it became half open, whenever they were let through:
so the count is the number of these endings, and the circuit closes on the evidence of
its probes exactly if every one of them was a probe's.
-/
import Cdn.Proofs.Probes

namespace Cdn

namespace Traffic

open CircuitBreaker

variable {s s' : Traffic} {a : CallAction}

/-- The endings since the last change of state, with the one the action is. -/
def endingsWith (s : Traffic) : CallAction → List Ending
  | .leave call exc => s.endings ++
      (s.calls[call]?.map fun admission => ⟨admission.phase = s.phase, exc.isNone⟩).toList
  | _ => s.endings

/-- The action closes a half-open circuit, and not by hand. -/
def Closes (s : Traffic) (a : CallAction) : Prop :=
  s.breaker.state = .halfOpen ∧ a ≠ .reset ∧
    (s.step a).map (·.breaker.state) = some CircuitState.closed

/-- Enough probes have ended in success since the circuit became half open, and no call has
failed. -/
def Evidence (s : Traffic) (a : CallAction) : Prop :=
  s.breaker.successThreshold ≤ (s.endingsWith a).countP (fun e => e.probe && e.success) ∧
    ∀ e ∈ s.endingsWith a, e.success = true

/-- Every call that has ended since the circuit became half open was let through since. -/
def OnlyProbes (s : Traffic) (a : CallAction) : Prop :=
  s.breaker.successThreshold ≤ 0 ∨ ∀ e ∈ s.endingsWith a, e.probe = true

instance (s : Traffic) (a : CallAction) : Decidable (s.Closes a) :=
  inferInstanceAs (Decidable (_ ∧ _))

instance (s : Traffic) (a : CallAction) : Decidable (s.Evidence a) :=
  inferInstanceAs (Decidable (_ ∧ _))

/-! ### What a half-open circuit has counted -/

/-- The count of a half-open circuit is the number of endings, and all were successes. -/
structure Tallied (s : Traffic) : Prop where
  count : s.breaker.successCount = s.endings.length
  success : ∀ e ∈ s.endings, e.success = true

theorem tallied_step (tallied : s.breaker.state = .halfOpen → s.Tallied)
    (hstep : s.step a = some s') (hhalf : s'.breaker.state = .halfOpen) : s'.Tallied := by
  rcases stays_or_reopens hstep hhalf with ⟨hstate, hstays⟩ | ⟨-, -, -, rfl⟩
  · obtain ⟨hcount, hsuccess⟩ := tallied hstate
    cases hstays with
    | ticked => exact ⟨hcount, hsuccess⟩
    | refused => exact ⟨hcount, hsuccess⟩
    | admitted hfree => exact ⟨hcount, hsuccess⟩
    | @returned call admission hcall hflight hfew =>
        constructor
        · show s.breaker.successCount + 1 = ((s.conclude call admission none).endings.length : Int)
          simp [conclude, hcount]
        · intro e he
          rcases List.mem_append.mp he with he | he
          · exact hsuccess e he
          · rw [List.mem_singleton.mp he]
            rfl
  · exact ⟨rfl, fun e he => by cases he⟩

/-- A half-open circuit that closes, and not by hand, closes at the end of a call that
brings its count to the threshold. -/
theorem leave_of_closes (h : s.Closes a) : ∃ call admission, a = .leave call none ∧
    s.calls[call]? = some admission ∧
    s.breaker.successThreshold ≤ s.breaker.successCount + 1 := by
  obtain ⟨hhalf, hreset, hclosed⟩ := h
  obtain ⟨s', hstep, hclosed⟩ := Option.map_eq_some_iff.mp hclosed
  cases step_cases hstep with
  | entered hallow =>
      simp only [letIn, become_breaker] at hclosed
      cases admits_of_aenter hallow with
      | closed hstate => rw [hhalf] at hstate; cases hstate
      | probe hstate hfree => rw [show s.breaker.state = .closed from hclosed] at hhalf; cases hhalf
      | recovered hstate hlast hover hfree => cases hclosed
  | refused =>
      rw [hhalf] at hclosed
      cases hclosed
  | @left call exc admission hcall hflight =>
      rw [become_breaker] at hclosed
      cases exc with
      | none =>
          refine ⟨call, admission, rfl, hcall, ?_⟩
          by_contra hfew
          rw [aexit, recordSuccess_of_few hhalf (by omega)] at hclosed
          rw [show s.breaker.state = .closed from hclosed] at hhalf
          cases hhalf
      | some x =>
          rw [aexit, recordFailure, hhalf] at hclosed
          cases hclosed
  | reset => exact absurd rfl hreset
  | ticked hmono =>
      rw [hhalf] at hclosed
      cases hclosed

/-- A list of as many endings as the threshold asks for holds that many successes of
probes exactly if there is none but them. -/
theorem threshold_le_countP_iff {l : List Ending} {n : Int} (hlen : 0 < n → (l.length : Int) = n)
    (hsuccess : ∀ e ∈ l, e.success = true) :
    n ≤ l.countP (fun e => e.probe && e.success) ↔ n ≤ 0 ∨ ∀ e ∈ l, e.probe = true := by
  by_cases hn : n ≤ 0
  · simp only [hn, true_or, iff_true]
    omega
  · have hlen := hlen (by omega)
    have hle := List.countP_le_length (p := fun e : Ending => e.probe && e.success) (l := l)
    have hall : l.countP (fun e => e.probe && e.success) = l.length ↔
        ∀ e ∈ l, (e.probe && e.success) = true := List.countP_eq_length
    constructor
    · intro h
      refine Or.inr fun e he => ?_
      have hprobe := hall.mp (by omega) e he
      rw [Bool.and_eq_true] at hprobe
      exact hprobe.1
    · intro h
      have hprobe := h.resolve_left hn
      have heq := hall.mpr fun e he => by rw [hprobe e he, hsuccess e he]; rfl
      omega

/-- A closing is on evidence exactly if only probes have ended since the circuit became
half open. -/
theorem evidence_iff (sound : Sound s.breaker) (tallied : s.breaker.state = .halfOpen → s.Tallied)
    (h : s.Closes a) : s.Evidence a ↔ s.OnlyProbes a := by
  obtain ⟨hcount, hsuccess⟩ := tallied h.1
  obtain ⟨call, admission, rfl, hcall, hmany⟩ := leave_of_closes h
  have hendings : s.endingsWith (.leave call none) =
      s.endings ++ [⟨admission.phase = s.phase, true⟩] := by
    simp [endingsWith, hcall]
  have hall : ∀ e ∈ s.endingsWith (.leave call none), e.success = true := by
    rw [hendings]
    intro e he
    rcases List.mem_append.mp he with he | he
    · exact hsuccess e he
    · rw [List.mem_singleton.mp he]
  rw [Evidence, OnlyProbes, and_iff_left hall]
  refine threshold_le_countP_iff (fun hpos => ?_) hall
  have hfew := sound.few hpos
  rw [hendings, List.length_append, List.length_singleton]
  omega

/--
**When a circuit closes on the evidence of probes.**  In every run, with any thresholds,
every closing is on evidence exactly if at every closing the calls that have ended since
the circuit became half open were all let through since.
-/
theorem closesOnEvidence_iff (failureThreshold : Int) (recoveryTimeout : Time)
    (halfOpenMaxCalls successThreshold : Int) (mono : Time) (p : List CallAction) :
    Lts.EachStep step (fun s a => s.Closes a → s.Evidence a)
        (start (init failureThreshold recoveryTimeout halfOpenMaxCalls successThreshold) mono) p ↔
      Lts.EachStep step (fun s a => s.Closes a → s.OnlyProbes a)
        (start (init failureThreshold recoveryTimeout halfOpenMaxCalls successThreshold) mono) p := by
  refine Lts.eachStep_congr
    (I := fun s =>
      Tracked (failureThreshold, recoveryTimeout, halfOpenMaxCalls, successThreshold) s ∧
        (s.breaker.state = .halfOpen → s.Tallied))
    (fun s a s' h hstep => ⟨tracked_step h.1 hstep, tallied_step h.2 hstep⟩)
    (fun s a s' h _ => ?_) p ⟨tracked_start _ _ _ _ _, fun h => by cases h⟩
  exact forall_congr' fun hcloses => evidence_iff h.1.sound h.2 hcloses

/-- A call that was let through before the failure ends after the first probe has begun. -/
def strayed : List CallAction :=
  [.enter, .enter, .leave 1 (some .fetch), .tick 30, .enter, .leave 0 none]

/-- It closes the circuit, and no probe has ended. -/
theorem closedWithoutEvidence_strayed : ¬ ∀ (failureThreshold : Int) (recoveryTimeout : Time)
    (halfOpenMaxCalls successThreshold : Int) (mono : Time) (p : List CallAction),
    Lts.EachStep step (fun s a => s.Closes a → s.Evidence a)
      (start (init failureThreshold recoveryTimeout halfOpenMaxCalls successThreshold) mono) p := by
  intro h
  have hcheck : Lts.checkEach step (fun s a => decide (s.Closes a → s.Evidence a))
      (start (init 1 30 1 1) 0) strayed = false := by decide +kernel
  have htrue := Lts.check_of_eachStep (fun _ _ => decide_eq_true) (h 1 30 1 1 0 strayed)
  rw [hcheck] at htrue
  cases htrue

end Traffic

end Cdn

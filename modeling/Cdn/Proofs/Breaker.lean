/-
The breaker's own invariant.

`Admits`, `Succeeds` and `Fails` list what the three operations can do, one constructor
for each path.  `Sound` is what every one of them keeps, whatever the thresholds are:
outside the closed state the time of the last failure is known, slots are taken in the
half-open state only and never more than there are, and a half-open circuit has not yet
seen the successes that would have closed it.

A closed circuit also counts: its failure count is the number of failures since the last
success, and it opens at the one that makes the count reach the threshold.
-/
import Cdn.Breaker

namespace Cdn

namespace CircuitBreaker

variable {b b' : CircuitBreaker} {now : Time}

/-! ### What an operation can do -/

/-- How `__aenter__` lets a call through. -/
inductive Admits (b : CircuitBreaker) (now : Time) : CircuitBreaker → Prop where
  | closed (hstate : b.state = .closed) : Admits b now b
  | probe (hstate : b.state = .halfOpen) (hfree : b.halfOpenCalls < b.halfOpenMaxCalls) :
      Admits b now { b with halfOpenCalls := b.halfOpenCalls + 1 }
  /-- The first call after the timeout makes the circuit half open. -/
  | recovered {t : Time} (hstate : b.state = .open) (hlast : b.lastFailureTime = some t)
      (hover : b.recoveryTimeout ≤ now - t) (hfree : b.halfOpenCalls < b.halfOpenMaxCalls) :
      Admits b now { b with state := .halfOpen, successCount := 0, halfOpenCalls := 1 }

inductive Succeeds (b : CircuitBreaker) : CircuitBreaker → Prop where
  | cleared (hstate : b.state = .closed) : Succeeds b { b with failureCount := 0 }
  | ignored (hstate : b.state = .open) : Succeeds b b
  | counted (hstate : b.state = .halfOpen) (hfew : b.successCount + 1 < b.successThreshold) :
      Succeeds b { b with
        halfOpenCalls := max 0 (b.halfOpenCalls - 1), successCount := b.successCount + 1 }
  | closes (hstate : b.state = .halfOpen) (hmany : b.successThreshold ≤ b.successCount + 1) :
      Succeeds b { b with
        state := .closed, failureCount := 0, successCount := 0, halfOpenCalls := 0
        lastFailureTime := none }

inductive Fails (b : CircuitBreaker) (now : Time) : CircuitBreaker → Prop where
  | reopened (hstate : b.state = .halfOpen) :
      Fails b now { b with
        state := .open, lastFailureTime := some now, successCount := 0, halfOpenCalls := 0 }
  /-- A circuit that is open already stays so. -/
  | tripped (hstate : b.state ≠ .halfOpen) (hmany : b.failureThreshold ≤ b.failureCount + 1) :
      Fails b now { b with
        state := .open, failureCount := b.failureCount + 1, lastFailureTime := some now
        successCount := 0, halfOpenCalls := 0 }
  | counted (hstate : b.state ≠ .halfOpen) (hfew : b.failureCount + 1 < b.failureThreshold) :
      Fails b now { b with failureCount := b.failureCount + 1, lastFailureTime := some now }

theorem stateAt_of_ne_open (h : b.state ≠ .open) (now : Time) : b.stateAt now = b.state := by
  unfold stateAt
  split
  · rename_i hopen _
    exact absurd hopen h
  · rfl

theorem stateAt_of_open {t : Time} (h : b.state = .open) (ht : b.lastFailureTime = some t) :
    b.stateAt now = if b.recoveryTimeout ≤ now - t then .halfOpen else .open := by
  rw [stateAt, h, ht]

theorem aenter_of_halfOpen (h : b.state = .halfOpen) : b.aenter now =
    if b.halfOpenMaxCalls ≤ b.halfOpenCalls then b.refuse
    else .ok { b with halfOpenCalls := b.halfOpenCalls + 1 } := by
  unfold aenter
  simp only [stateAt_of_ne_open (b := b) (by simp [h]), h, reduceCtorEq, if_false]

theorem aenter_of_recovered {t : Time} (h : b.state = .open) (ht : b.lastFailureTime = some t)
    (hover : b.recoveryTimeout ≤ now - t) : b.aenter now =
      if b.halfOpenMaxCalls ≤ b.halfOpenCalls then b.refuse
      else .ok { b with state := .halfOpen, successCount := 0, halfOpenCalls := 1 } := by
  unfold aenter
  rw [stateAt_of_open h ht, if_pos hover, h]
  rfl

theorem aenter_of_closed (h : b.state = .closed) : b.aenter now = .ok b := by
  unfold aenter
  rw [stateAt_of_ne_open (by simp [h]), h]

theorem aenter_of_open (h : b.stateAt now = .open) : b.aenter now = b.refuse := by
  unfold aenter
  rw [h]

/-- A circuit that is open reads as half open only once its timeout has passed. -/
theorem recovered_of_stateAt (h : b.state = .open) (hst : b.stateAt now ≠ .open) :
    ∃ t, b.lastFailureTime = some t ∧ b.recoveryTimeout ≤ now - t := by
  cases ht : b.lastFailureTime with
  | none => simp [stateAt, h, ht] at hst
  | some t =>
      rw [stateAt_of_open h ht] at hst
      refine ⟨t, rfl, ?_⟩
      by_contra hover
      rw [if_neg hover] at hst
      exact hst rfl

theorem admits_of_aenter (h : b.aenter now = .ok b') : Admits b now b' := by
  have hst := stateAt_ne_open_of_aenter h
  cases hstate : b.state with
  | closed =>
      rw [aenter_of_closed hstate] at h
      cases h
      exact .closed hstate
  | halfOpen =>
      rw [aenter_of_halfOpen hstate] at h
      split at h
      · exact absurd h refuse_ne_ok
      · cases h
        exact .probe hstate (by omega)
  | «open» =>
      obtain ⟨t, ht, hover⟩ := recovered_of_stateAt hstate hst
      rw [aenter_of_recovered hstate ht hover] at h
      split at h
      · exact absurd h refuse_ne_ok
      · cases h
        exact .recovered hstate ht hover (by omega)

theorem succeeds (b : CircuitBreaker) : Succeeds b b.recordSuccess := by
  unfold recordSuccess
  split
  · rename_i hstate
    dsimp only
    split
    · rename_i hmany
      exact .closes hstate hmany
    · rename_i hfew
      exact .counted hstate (by omega)
  · rename_i hstate
    exact .cleared hstate
  · rename_i hstate
    exact .ignored hstate

theorem fails (b : CircuitBreaker) (now : Time) : Fails b now (b.recordFailure now) := by
  unfold recordFailure
  split
  · rename_i hstate
    exact .reopened hstate
  · rename_i hstate
    dsimp only
    split
    · rename_i hmany
      exact .tripped hstate hmany
    · rename_i hfew
      exact .counted hstate (by omega)

/-! ### The invariant -/

structure Sound (b : CircuitBreaker) : Prop where
  timed : b.state ≠ .closed → ∃ t, b.lastFailureTime = some t
  nonneg : 0 ≤ b.halfOpenCalls
  bounded : b.state = .halfOpen → b.halfOpenCalls ≤ b.halfOpenMaxCalls
  unused : b.state ≠ .halfOpen → b.halfOpenCalls = 0
  few : 0 < b.successThreshold → b.successCount < b.successThreshold

theorem sound_init (failureThreshold : Int) (recoveryTimeout : Time)
    (halfOpenMaxCalls successThreshold : Int) :
    Sound (init failureThreshold recoveryTimeout halfOpenMaxCalls successThreshold) where
  timed := fun h => absurd rfl h
  nonneg := le_rfl
  bounded := fun h => by cases h
  unused := fun _ => rfl
  few := fun h => h

theorem Sound.aenter (sound : Sound b) (h : b.aenter now = .ok b') : Sound b' := by
  cases admits_of_aenter h with
  | closed hstate => exact sound
  | probe hstate hfree =>
      have hnonneg := sound.nonneg
      exact ⟨sound.timed, by show 0 ≤ b.halfOpenCalls + 1; omega, fun _ => hfree,
        fun hne => absurd hstate hne, sound.few⟩
  | @recovered t hstate hlast hover hfree =>
      have hzero := sound.unused (by simp [hstate])
      refine ⟨fun _ => ⟨t, hlast⟩, by simp, fun _ => ?_, fun hne => absurd rfl hne, fun h => h⟩
      show (1 : Int) ≤ b.halfOpenMaxCalls
      omega

theorem Sound.recordSuccess (sound : Sound b) : Sound b.recordSuccess := by
  have hsucceeds := succeeds b
  generalize b.recordSuccess = b' at hsucceeds
  cases hsucceeds with
  | cleared hstate => exact ⟨sound.timed, sound.nonneg, sound.bounded, sound.unused, sound.few⟩
  | ignored hstate => exact sound
  | counted hstate hfew =>
      have hbounded := sound.bounded hstate
      have hnonneg := sound.nonneg
      refine ⟨sound.timed, ?_, fun _ => ?_, fun hne => absurd hstate hne, fun _ => hfew⟩
      · show 0 ≤ max 0 (b.halfOpenCalls - 1)
        omega
      · show max 0 (b.halfOpenCalls - 1) ≤ b.halfOpenMaxCalls
        omega
  | closes hstate hmany =>
      exact ⟨fun hne => absurd rfl hne, le_rfl, fun h => (by cases h), fun _ => rfl, fun h => h⟩

theorem Sound.recordFailure (sound : Sound b) : Sound (b.recordFailure now) := by
  have hfails := fails b now
  generalize b.recordFailure now = b' at hfails
  cases hfails with
  | reopened hstate =>
      exact ⟨fun _ => ⟨now, rfl⟩, le_rfl, fun h => (by cases h), fun _ => rfl, fun h => h⟩
  | tripped hstate hmany =>
      exact ⟨fun _ => ⟨now, rfl⟩, le_rfl, fun h => (by cases h), fun _ => rfl, fun h => h⟩
  | counted hstate hfew =>
      exact ⟨fun _ => ⟨now, rfl⟩, sound.nonneg, sound.bounded, sound.unused, sound.few⟩

theorem sound_reset (b : CircuitBreaker) : Sound b.reset :=
  ⟨fun hne => absurd rfl hne, le_rfl, fun h => (by cases h), fun _ => rfl, fun h => h⟩

theorem Sound.aexit (sound : Sound b) (exc : Option Exn) : Sound (b.aexit exc now) := by
  cases exc with
  | none => exact sound.recordSuccess
  | some x => exact sound.recordFailure

/-- The `assert` before a refusal holds: who is refused finds the time of a failure. -/
theorem Sound.aenter_ne_assertion (sound : Sound b) (now : Time) :
    b.aenter now ≠ .error .assertion := by
  have hrefuse : b.state ≠ .closed → b.refuse ≠ .error .assertion := by
    intro hstate
    obtain ⟨t, ht⟩ := sound.timed hstate
    simp [refuse, ht]
  cases hstate : b.state with
  | closed => simp [aenter_of_closed hstate]
  | halfOpen =>
      rw [aenter_of_halfOpen hstate]
      split
      · exact hrefuse (by simp [hstate])
      · simp
  | «open» =>
      by_cases hopen : b.stateAt now = .open
      · rw [aenter_of_open hopen]
        exact hrefuse (by simp [hstate])
      · obtain ⟨t, ht, hover⟩ := recovered_of_stateAt hstate hopen
        rw [aenter_of_recovered hstate ht hover]
        split
        · exact hrefuse (by simp [hstate])
        · simp

/-! ### What is never written -/

/-- What the breaker was made with. -/
def thresholds (b : CircuitBreaker) : Int × Time × Int × Int :=
  (b.failureThreshold, b.recoveryTimeout, b.halfOpenMaxCalls, b.successThreshold)

theorem thresholds_aenter (h : b.aenter now = .ok b') : b'.thresholds = b.thresholds := by
  cases admits_of_aenter h <;> rfl

theorem thresholds_recordSuccess (b : CircuitBreaker) :
    b.recordSuccess.thresholds = b.thresholds := by
  have hsucceeds := succeeds b
  generalize b.recordSuccess = b' at hsucceeds
  cases hsucceeds <;> rfl

theorem thresholds_recordFailure (b : CircuitBreaker) (now : Time) :
    (b.recordFailure now).thresholds = b.thresholds := by
  have hfails := fails b now
  generalize b.recordFailure now = b' at hfails
  cases hfails <;> rfl

theorem thresholds_aexit (b : CircuitBreaker) (exc : Option Exn) (now : Time) :
    (b.aexit exc now).thresholds = b.thresholds := by
  cases exc with
  | none => exact thresholds_recordSuccess b
  | some x => exact thresholds_recordFailure b now

/-! ### What a closed circuit counts -/

/-- A failure opens a closed circuit exactly if it makes the count reach the threshold. -/
theorem recordFailure_opens_iff (now : Time) (h : b.state = .closed) :
    (b.recordFailure now).state ≠ .closed ↔ b.failureThreshold ≤ b.failureCount + 1 := by
  have hfails := fails b now
  generalize b.recordFailure now = b' at hfails
  cases hfails with
  | reopened hstate => rw [h] at hstate; cases hstate
  | tripped hstate hmany => simp [hmany]
  | counted hstate hfew =>
      have hlt : ¬ b.failureThreshold ≤ b.failureCount + 1 := by omega
      simp [h, hlt]

/-- Nothing else opens it. -/
theorem recordSuccess_of_closed (h : b.state = .closed) :
    b.recordSuccess = { b with failureCount := 0 } := by
  rw [recordSuccess, h]

theorem recordSuccess_of_few (h : b.state = .halfOpen)
    (hfew : b.successCount + 1 < b.successThreshold) :
    b.recordSuccess = { b with
      halfOpenCalls := max 0 (b.halfOpenCalls - 1), successCount := b.successCount + 1 } := by
  have hlt : ¬ b.successThreshold ≤ b.successCount + 1 := by omega
  simp only [recordSuccess, h, if_neg hlt]

/-- The circuit counts the failures since the last success, as long as it is closed. -/
def Counts (b : CircuitBreaker) (failures : Nat) : Prop :=
  b.state = .closed → b.failureCount = failures ∧ b.failureCount < b.failureThreshold

theorem Counts.aenter {n : Nat} (counts : b.Counts n) (h : b.aenter now = .ok b') :
    b'.Counts n := by
  cases admits_of_aenter h with
  | closed hstate => exact counts
  | probe hstate hfree => exact counts
  | recovered hstate hlast hover hfree => intro hclosed; cases hclosed

theorem counts_recordSuccess (hpos : 0 < b.failureThreshold) : b.recordSuccess.Counts 0 := by
  have hsucceeds := succeeds b
  generalize b.recordSuccess = b' at hsucceeds
  cases hsucceeds with
  | cleared hstate => exact fun _ => ⟨rfl, hpos⟩
  | ignored hstate => intro hclosed; rw [hstate] at hclosed; cases hclosed
  | counted hstate hfew =>
      intro hclosed
      rw [show b.state = .closed from hclosed] at hstate
      cases hstate
  | closes hstate hmany => exact fun _ => ⟨rfl, hpos⟩

theorem Counts.recordFailure {n : Nat} (counts : b.Counts n) :
    (b.recordFailure now).Counts (n + 1) := by
  have hfails := fails b now
  generalize b.recordFailure now = b' at hfails
  cases hfails with
  | reopened hstate => intro hclosed; cases hclosed
  | tripped hstate hmany => intro hclosed; cases hclosed
  | counted hstate hfew =>
      intro hclosed
      obtain ⟨hcount, hlt⟩ := counts hclosed
      refine ⟨?_, hfew⟩
      show b.failureCount + 1 = ((n + 1 : Nat) : Int)
      omega

end CircuitBreaker

/-! ### Every run -/

namespace Watch

open CircuitBreaker

variable {s s' : Watch} {op : BreakerOp}

/-- What every operation keeps, for a breaker made with positive thresholds. -/
structure Kept (made : Int × Time × Int × Int) (s : Watch) : Prop where
  sound : Sound s.breaker
  counts : s.breaker.Counts s.failures
  thresholds : s.breaker.thresholds = made

theorem kept_step {made : Int × Time × Int × Int} (hpos : 0 < made.1) (kept : Kept made s)
    (hstep : s.step op = some s') : Kept made s' := by
  obtain ⟨sound, counts, rfl⟩ := kept
  cases op with
  | enter =>
      simp only [step] at hstep
      split at hstep
      · rename_i b hallow
        cases hstep
        exact ⟨sound.aenter hallow, counts.aenter hallow, thresholds_aenter hallow⟩
      · cases hstep
        exact ⟨sound, counts, rfl⟩
  | recordSuccess =>
      cases hstep
      exact ⟨sound.recordSuccess, counts_recordSuccess hpos, thresholds_recordSuccess _⟩
  | recordFailure =>
      cases hstep
      exact ⟨sound.recordFailure, counts.recordFailure, thresholds_recordFailure _ _⟩
  | reset =>
      cases hstep
      exact ⟨sound_reset _, fun _ => ⟨rfl, hpos⟩, rfl⟩
  | tick mono =>
      simp only [step] at hstep
      split at hstep
      · cases hstep
        exact ⟨sound, counts, rfl⟩
      · cases hstep

/-- A closed circuit opens at a failure that makes the count reach the threshold, and at
no other step. -/
theorem opens_iff {made : Int × Time × Int × Int} (kept : Kept made s)
    (hclosed : s.breaker.state = .closed) (hstep : s.step op = some s') :
    s'.breaker.state ≠ .closed ↔
      op = .recordFailure ∧ (s.failures + 1 : Int) = s.breaker.failureThreshold := by
  obtain ⟨hcount, hlt⟩ := kept.counts hclosed
  cases op with
  | recordFailure =>
      cases hstep
      have hiff := recordFailure_opens_iff s.mono hclosed
      simp only [true_and]
      rw [hiff]
      omega
  | enter =>
      simp only [step, aenter_of_closed hclosed] at hstep
      cases hstep
      simp [hclosed]
  | recordSuccess =>
      cases hstep
      simp [recordSuccess_of_closed hclosed, hclosed]
  | reset =>
      cases hstep
      simp [CircuitBreaker.reset]
  | tick mono =>
      simp only [step] at hstep
      split at hstep
      · cases hstep
        simp [hclosed]
      · cases hstep

/--
**The breaker's invariant.**  Whatever a breaker with positive thresholds is asked and
told: outside the closed state it knows when the last failure was, so no `assert` fails;
its slots are within bounds and free outside the half-open state; it has not yet seen
enough successes to close; and while it is closed it counts the failures since the last
success, fewer than the threshold, and opens exactly at the failure that reaches it.
-/
theorem breaker_invariant (failureThreshold : Int) (recoveryTimeout : Time)
    (halfOpenMaxCalls successThreshold : Int) (hfailure : 1 ≤ failureThreshold)
    (hcalls : 1 ≤ halfOpenMaxCalls) (hsuccess : 1 ≤ successThreshold) (mono : Time)
    (ops : List BreakerOp)
    (hrun : Lts.run step
      ⟨init failureThreshold recoveryTimeout halfOpenMaxCalls successThreshold, mono, 0⟩ ops =
        some s) :
    (s.breaker.state ≠ .closed → ∃ t, s.breaker.lastFailureTime = some t) ∧
    (∀ now, s.breaker.aenter now ≠ .error .assertion) ∧
    (0 ≤ s.breaker.halfOpenCalls ∧ s.breaker.halfOpenCalls ≤ halfOpenMaxCalls) ∧
    (s.breaker.state ≠ .halfOpen → s.breaker.halfOpenCalls = 0) ∧
    s.breaker.successCount < successThreshold ∧
    (s.breaker.state = .closed → s.breaker.failureCount = s.failures ∧
      s.breaker.failureCount < failureThreshold ∧
      ∀ op s', s.step op = some s' → (s'.breaker.state ≠ .closed ↔
        op = .recordFailure ∧ (s.failures + 1 : Int) = failureThreshold)) := by
  have kept : Kept (failureThreshold, recoveryTimeout, halfOpenMaxCalls, successThreshold) s :=
    Lts.run_invariant (fun _ _ _ h hstep => kept_step (by show 0 < failureThreshold; omega) h hstep)
      ops ⟨sound_init _ _ _ _, fun _ => ⟨rfl, by show 0 < failureThreshold; omega⟩, rfl⟩ hrun
  obtain ⟨hft, -, hmax, hst⟩ : s.breaker.failureThreshold = failureThreshold ∧
      s.breaker.recoveryTimeout = recoveryTimeout ∧
      s.breaker.halfOpenMaxCalls = halfOpenMaxCalls ∧
      s.breaker.successThreshold = successThreshold := by
    simpa [thresholds] using kept.thresholds
  have sound := kept.sound
  have hslots : s.breaker.halfOpenCalls ≤ halfOpenMaxCalls := by
    by_cases h : s.breaker.state = .halfOpen
    · exact hmax ▸ sound.bounded h
    · rw [sound.unused h]
      omega
  have hfew : s.breaker.successCount < successThreshold := by
    have hlt := sound.few (by omega)
    omega
  refine ⟨sound.timed, sound.aenter_ne_assertion, ⟨sound.nonneg, hslots⟩, sound.unused, hfew,
    fun hclosed => ?_⟩
  obtain ⟨hcount, hlt⟩ := kept.counts hclosed
  refine ⟨hcount, hft ▸ hlt, fun op s' hstep => ?_⟩
  rw [opens_iff kept hclosed hstep, hft]

/-- Two failures open a circuit of threshold two; the timeout passes and a call is let
through. -/
def reopening : List BreakerOp := [.recordFailure, .recordFailure, .tick 30, .enter]

theorem breaker_invariant_reopening :
    let s := Lts.last step ⟨init 2 30 1 2, 0, 0⟩ reopening
    s.breaker.state = .halfOpen ∧ (∃ t, s.breaker.lastFailureTime = some t) ∧
      s.breaker.halfOpenCalls ≤ 1 := by
  have hrun : Lts.run step ⟨init 2 30 1 2, 0, 0⟩ reopening =
      some (Lts.last step ⟨init 2 30 1 2, 0, 0⟩ reopening) :=
    Lts.run_last (by decide +kernel)
  have hstate : (Lts.last step ⟨init 2 30 1 2, 0, 0⟩ reopening).breaker.state = .halfOpen := by
    decide +kernel
  have h := breaker_invariant 2 30 1 2 (by decide) (by decide) (by decide) 0 reopening hrun
  exact ⟨hstate, h.1 (by rw [hstate]; decide), h.2.2.1.2⟩

end Watch

end Cdn

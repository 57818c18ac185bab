/-
The origin during an outage.

Every request to the origin, a leader's, a follower's or a revalidation's, goes out in
the step in which the breaker lets it through, and the breaker is told of nothing but
ends of requests.  While it is open these can move the time of the last failure forward
and do nothing else; so from the step that trips it on, and until the recovery timeout
has passed, it lets no request through.
-/
import Cdn.Proofs.Moves
import Cdn.Proofs.Breaker
import Cdn.Proofs.Keys

namespace Cdn

open CircuitBreaker

variable {β : Type} {S : Setup β}

namespace Edge

variable {s s' m : Edge β} {a : Action β}

/-! ### The breaker and the clock in a move -/

section fields

variable (s : Edge β) (t : Nat) (role : Role) (call : Call β) (phase : Phase β) (key : String)
  (breaker : CircuitBreaker) (filed : Option (String × CacheEntry β))
  (result : Except Exn (Reply β))

@[simp] theorem read_circuitBreaker : (s.read key).circuitBreaker = s.circuitBreaker := rfl
@[simp] theorem read_mono : (s.read key).mono = s.mono := rfl
@[simp] theorem file_circuitBreaker : (s.file filed).circuitBreaker = s.circuitBreaker := by
  cases filed <;> rfl
@[simp] theorem file_mono : (s.file filed).mono = s.mono := by cases filed <;> rfl
@[simp] theorem conclude_circuitBreaker :
    (s.conclude t role call result).circuitBreaker = s.circuitBreaker := by
  cases role <;> rfl
@[simp] theorem conclude_mono : (s.conclude t role call result).mono = s.mono := by
  cases role <;> rfl

end fields

/-- What a move makes of the breaker, and whether a request goes out. -/
inductive Uses (s : Edge β) : Action β → Edge β → Prop where
  | kept {a : Action β} {m : Edge β} (hbreaker : m.circuitBreaker = s.circuitBreaker)
      (hcalls : m.originCalls = s.originCalls) (hmono : s.mono ≤ m.mono) : Uses s a m
  | asked {a : Action β} {m : Edge β} {c : OriginCall}
      (hallow : s.circuitBreaker.aenter s.mono = .ok m.circuitBreaker)
      (hcalls : m.originCalls = s.originCalls ++ [c]) (hmono : m.mono = s.mono) : Uses s a m
  /-- A request has ended, with a response or with an exception. -/
  | told {a : Action β} {m : Edge β} (exc : Option Exn)
      (hbreaker : m.circuitBreaker = s.circuitBreaker.aexit exc s.mono)
      (hcalls : m.originCalls = s.originCalls) (hmono : m.mono = s.mono) : Uses s a m
  | reset : Uses s .reset { s with circuitBreaker := s.circuitBreaker.reset }

theorem Move.uses (h : Move S s a m) : Uses s a m := by
  cases h with
  | led hmiss hopen hfree hallow => exact .asked hallow rfl rfl
  | revalidating ht hallow => exact .asked hallow rfl rfl
  | retried ht hset habsent hallow => exact .asked hallow rfl rfl
  | settled ht hsettle => exact .told none (by simp [aexit]) (by simp) (by simp)
  | unsettled ht hsettle => exact .told none (by simp [aexit]) (by simp) (by simp)
  | failed ht => exact .told (some .fetch) (by simp [aexit]) (by simp) (by simp)
  | cancelledFetching ht => exact .told (some .cancelled) (by simp [aexit]) (by simp) (by simp)
  | ticked hmono => exact .kept rfl rfl hmono
  | reset => exact .reset
  | _ => exact .kept rfl rfl le_rfl

/-! ### An open breaker -/

/-- The breaker is open, and the last failure it knows of was at `t` or later. -/
structure Shut (timeout t : Time) (s : Edge β) : Prop where
  state : s.circuitBreaker.state = .open
  timeout : s.circuitBreaker.recoveryTimeout = timeout
  failed : ∃ t', s.circuitBreaker.lastFailureTime = some t' ∧ t ≤ t'
  later : t ≤ s.mono

variable {timeout t : Time}

/-- A breaker that is open lets nothing through before its timeout has passed. -/
theorem Shut.aenter_ne_ok (shut : Shut timeout t s) (hearly : s.mono < t + timeout)
    (b : CircuitBreaker) : s.circuitBreaker.aenter s.mono ≠ .ok b := by
  obtain ⟨t', hlast, hle⟩ := shut.failed
  have hopen : s.circuitBreaker.stateAt s.mono = .open := by
    rw [stateAt_of_open shut.state hlast, if_neg]
    rw [shut.timeout]
    linarith
  rw [aenter_of_open hopen]
  exact refuse_ne_ok

/-- What an open breaker is told leaves it open, with a failure at least as late. -/
theorem Shut.aexit (shut : Shut timeout t s) (exc : Option Exn) :
    (s.circuitBreaker.aexit exc s.mono).state = .open ∧
      ∃ t', (s.circuitBreaker.aexit exc s.mono).lastFailureTime = some t' ∧ t ≤ t' := by
  cases exc with
  | none =>
      have hsame : s.circuitBreaker.recordSuccess = s.circuitBreaker := by
        rw [recordSuccess, shut.state]
      rw [CircuitBreaker.aexit, hsame]
      exact ⟨shut.state, shut.failed⟩
  | some x =>
      simp only [CircuitBreaker.aexit]
      have hfails := fails s.circuitBreaker s.mono
      generalize s.circuitBreaker.recordFailure s.mono = b at hfails
      cases hfails with
      | reopened hstate => exact ⟨rfl, s.mono, rfl, shut.later⟩
      | tripped hstate hmany => exact ⟨rfl, s.mono, rfl, shut.later⟩
      | counted hstate hfew => exact ⟨shut.state, s.mono, rfl, shut.later⟩

/-- Before the timeout has passed a step sends nothing and leaves the breaker open. -/
theorem Shut.uses (shut : Shut timeout t s) (hearly : s.mono < t + timeout) (hreset : a ≠ .reset)
    (h : Uses s a m) : m.originCalls = s.originCalls ∧ Shut timeout t m := by
  cases h with
  | kept hbreaker hcalls hmono =>
      refine ⟨hcalls, ?_, ?_, ?_, shut.later.trans hmono⟩
      · rw [hbreaker, shut.state]
      · rw [hbreaker, shut.timeout]
      · rw [hbreaker]
        exact shut.failed
  | asked hallow hcalls hmono => exact absurd hallow (shut.aenter_ne_ok hearly _)
  | told exc hbreaker hcalls hmono =>
      obtain ⟨hstate, hfailed⟩ := shut.aexit exc
      have hthresholds := thresholds_aexit s.circuitBreaker exc s.mono
      simp only [thresholds, Prod.mk.injEq] at hthresholds
      refine ⟨hcalls, ?_, ?_, ?_, hmono ▸ shut.later⟩
      · rw [hbreaker, hstate]
      · rw [hbreaker, hthresholds.2.1, shut.timeout]
      · rw [hbreaker]
        exact hfailed
  | reset => exact absurd rfl hreset

theorem mono_le_of_step (hstep : s.step S a = some s') : s.mono ≤ s'.mono := by
  obtain ⟨m, hmove, rfl⟩ := move_of_step hstep
  show s.mono ≤ m.mono
  cases hmove.uses with
  | kept hbreaker hcalls hmono => exact hmono
  | asked hallow hcalls hmono => exact hmono.ge
  | told exc hbreaker hcalls hmono => exact hmono.ge
  | reset => exact le_rfl

theorem Shut.step (shut : Shut timeout t s) (hearly : s.mono < t + timeout) (hreset : a ≠ .reset)
    (hstep : s.step S a = some s') : Shut timeout t s' := by
  obtain ⟨m, hmove, rfl⟩ := move_of_step hstep
  obtain ⟨-, hm⟩ := shut.uses hearly hreset hmove.uses
  exact ⟨hm.state, hm.timeout, hm.failed, hm.later⟩

/-- The step that trips the breaker. -/
theorem shut_of_trip (hstep : s.step S a = some s') (hclosed : s.circuitBreaker.state ≠ .open)
    (hopen : s'.circuitBreaker.state = .open) :
    Shut s.circuitBreaker.recoveryTimeout s.mono s' ∧ s'.mono = s.mono := by
  obtain ⟨m, hmove, rfl⟩ := move_of_step hstep
  replace hopen : m.circuitBreaker.state = .open := hopen
  show Shut s.circuitBreaker.recoveryTimeout s.mono m.stamp ∧ m.mono = s.mono
  cases hmove.uses with
  | kept hbreaker hcalls hmono => exact absurd (hbreaker ▸ hopen) hclosed
  | asked hallow hcalls hmono =>
      generalize m.circuitBreaker = b at hallow hopen
      cases admits_of_aenter hallow with
      | closed hstate => exact absurd hopen hclosed
      | probe hstate hfree => exact absurd hopen hclosed
      | recovered hstate hlast hover hfree => cases hopen
  | told exc hbreaker hcalls hmono =>
      have hthresholds := thresholds_aexit s.circuitBreaker exc s.mono
      simp only [thresholds, Prod.mk.injEq] at hthresholds
      have hlast : m.circuitBreaker.lastFailureTime = some s.mono := by
        rw [hbreaker] at hopen ⊢
        cases exc with
        | none =>
            simp only [CircuitBreaker.aexit] at hopen
            have hsucceeds := succeeds s.circuitBreaker
            generalize s.circuitBreaker.recordSuccess = b at hsucceeds hopen
            cases hsucceeds with
            | cleared hstate => exact absurd hopen hclosed
            | ignored hstate => exact absurd hstate hclosed
            | counted hstate hfew => exact absurd hopen hclosed
            | closes hstate hmany => cases hopen
        | some x =>
            simp only [CircuitBreaker.aexit]
            have hfails := fails s.circuitBreaker s.mono
            generalize s.circuitBreaker.recordFailure s.mono = b at hfails
            cases hfails <;> rfl
      refine ⟨⟨hopen, ?_, ⟨s.mono, hlast, le_rfl⟩, hmono.ge⟩, hmono⟩
      show m.circuitBreaker.recoveryTimeout = s.circuitBreaker.recoveryTimeout
      rw [hbreaker, hthresholds.2.1]
  | reset => cases hopen

/--
**The origin is left alone while the circuit is open.**  When a step of any process trips
the breaker at a time `t`, then in every run that goes on from there without a manual
reset no step sends a request before `t + recoveryTimeout`, whatever the requests under
way come back with.
-/
theorem noRequest_while_open (S : Setup β) (s s' u u' : Edge β) (a a' : Action β)
    (p : List (Action β)) (htrip : s.step S a = some s')
    (hclosed : s.circuitBreaker.state ≠ .open) (hopen : s'.circuitBreaker.state = .open)
    (hreset : ∀ x ∈ p, x ≠ .reset) (hrun : Lts.run (step S) s' p = some u)
    (hearly : u.mono < s.mono + s.circuitBreaker.recoveryTimeout)
    (hstep : u.step S a' = some u') : u'.originCalls = u.originCalls := by
  obtain ⟨hshut, -⟩ := shut_of_trip htrip hclosed hopen
  have hkept : u.mono < s.mono + s.circuitBreaker.recoveryTimeout →
      Shut s.circuitBreaker.recoveryTimeout s.mono u := by
    refine Lts.run_guarded
      (I := fun u => u.mono < s.mono + s.circuitBreaker.recoveryTimeout →
        Shut s.circuitBreaker.recoveryTimeout s.mono u)
      (C := fun _ a => a ≠ .reset) (fun v x v' h hx hv hlt => ?_) p (fun _ => hshut)
      (Lts.eachStep_of_forall hreset) hrun
    have hle := mono_le_of_step hv
    exact (h (lt_of_le_of_lt hle hlt)).step (lt_of_le_of_lt hle hlt) hx hv
  obtain ⟨m, hmove, rfl⟩ := move_of_step hstep
  by_cases hx : a' = .reset
  · subst hx
    cases hmove
    rfl
  · exact ((hkept hearly).uses hearly hx hmove.uses).1

/-- Two calls are at the origin, and the first of them has failed. -/
def twoFetches : List (Action Nat) := [.arrive "a" none, .arrive "b" none, .answer 0 .failed]

/-- The failure trips the breaker, the other fails later, and a third call is turned away. -/
theorem noRequest_while_open_twoFetches :
    let s := Lts.last (step sampleSetup) (start {} (init 1 30 1 2) 0 0) twoFetches
    let s' := Lts.last (step sampleSetup) s [.resume 0]
    let u := Lts.last (step sampleSetup) s' [.tick 10 10, .answer 1 .failed, .resume 1]
    let u' := Lts.last (step sampleSetup) u [.arrive "c" none]
    s'.circuitBreaker.state = .open ∧ u'.tasks.length = 3 ∧ u'.originCalls = u.originCalls := by
  intro s s' u u'
  have htrip : s.step sampleSetup (.resume 0) = some s' :=
    Lts.run_singleton.mp (Lts.run_last (by decide +kernel))
  have hclosed : s.circuitBreaker.state ≠ .open := by decide +kernel
  have hopen : s'.circuitBreaker.state = .open := by decide +kernel
  have hrun : Lts.run (step sampleSetup) s' [.tick 10 10, .answer 1 .failed, .resume 1] = some u :=
    Lts.run_last (by decide +kernel)
  have hearly : u.mono < s.mono + s.circuitBreaker.recoveryTimeout := by decide +kernel
  have hstep : u.step sampleSetup (.arrive "c" none) = some u' :=
    Lts.run_singleton.mp (Lts.run_last (by decide +kernel))
  have hcount : u'.tasks.length = 3 := by decide +kernel
  exact ⟨hopen, hcount, noRequest_while_open sampleSetup s s' u u' _ _ _ htrip hclosed hopen
    (by decide) hrun hearly hstep⟩

end Edge

end Cdn

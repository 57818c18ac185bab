/-
Each check counts once.

A check that has recorded the answer still waits for its client to close.  Where the closing
fails, or the hard timeout strikes in it, the handler or the wrapper records a failure on
top: the same check counts twice, and a region goes out of rotation a check early.  A name
that cannot even be encoded is not caught anywhere, and such a check counts not at all.

What every step keeps is the tally: the failure counts are those of the outcomes written
down, however many a check has.  So it all comes down to one outcome a check.
-/
import Cdn.Health

namespace Cdn

/-! ### The failures of an edge -/

theorem failures_cons (o : Outcome) (outcomes : List Outcome) (edge : String) :
    failures (o :: outcomes) edge =
      if o.edge = edge then if o.success then [] else o.check :: failures outcomes edge
      else failures outcomes edge := by
  by_cases hedge : o.edge = edge
  · cases hsuccess : o.success <;> simp [failures, hedge, hsuccess]
  · simp [failures, hedge]

namespace CheckPhase

/-- How many outcomes a check has recorded that waits here. -/
def recordings : CheckPhase → Nat
  | .closing true _ => 1
  | _ => 0

/-- Nothing goes wrong after the answer has been recorded, and the look-up raises nothing
but what is caught. -/
def clean : CheckPhase → CheckEvent → Bool
  | .resolving, .resolved .raised => false
  | .closing true true, .closed => false
  | .closing true _, .closeFailed => false
  | _, _ => true

/-- A check that goes on adds what it records, and one that ends has recorded one outcome
exactly if it ended cleanly. -/
theorem react_recordings {phase phase' : CheckPhase} {event : CheckEvent} {outcome : Option Bool}
    (h : phase.react event = some (outcome, phase')) :
    phase ≠ .done ∧
      (phase' ≠ .done → phase.recordings + outcome.toList.length = phase'.recordings ∧
        phase.clean event = true) ∧
      (phase' = .done →
        (phase.recordings + outcome.toList.length = 1 ↔ phase.clean event = true)) := by
  cases phase with
  | resolving =>
      cases event with
      | resolved lookup => cases lookup <;> cases h <;> simp [recordings, clean]
      | timeout => cases h; simp [recordings, clean]
      | _ => cases h
  | requesting =>
      cases event with
      | resolved | closed | closeFailed => cases h
      | _ => cases h; simp [recordings, clean]
  | closing recorded struck =>
      cases recorded <;> cases struck <;> cases event <;> cases h <;> simp [recordings, clean]
  | done => cases h

end CheckPhase

namespace Health

variable {s s' : Health} {a : Action}

/-- How often a check has recorded an outcome. -/
def times (s : Health) (i : Nat) : Nat := (s.outcomes.map (·.check)).count i

/-! ### What is to hold -/

/-- Every check has one outcome at most, and one when it is done. -/
def Once (s : Health) : Prop :=
  ∀ (i : Nat) (c : Check), s.checks[i]? = some c →
    s.times i ≤ 1 ∧ (c.phase = .done → s.times i = 1)

structure Sound (s : Health) : Prop where
  once : s.Once
  counts : ∀ edge, s.service.failureCounts.getD edge 0 = failedChecks s.outcomes edge
  /-- At each outcome, as of then: the edge was marked exactly if it is the failure of a
  check, and as many checks have failed in a row as it takes. -/
  marks : ∀ (o : Outcome) (before : List Outcome), (o :: before) <:+ s.outcomes →
    (o.marked = true ↔
      o.success = false ∧ s.service.maxFailures ≤ failedChecks (o :: before) o.edge)

/-- The same for outcomes instead of checks. -/
structure Ok (s : Health) : Prop where
  known : ∀ o ∈ s.outcomes, o.check < s.checks.length
  recorded : ∀ (i : Nat) (c : Check), s.checks[i]? = some c → c.phase ≠ .done →
    s.times i = c.phase.recordings
  tallied : ∀ edge, s.service.failureCounts.getD edge 0 = (failures s.outcomes edge).length
  marked : ∀ (o : Outcome) (before : List Outcome), (o :: before) <:+ s.outcomes →
    (o.marked = true ↔
      o.success = false ∧ s.service.maxFailures ≤ (failures (o :: before) o.edge).length)

theorem ok_start (routingService : RoutingService) (maxFailures : Int) :
    (start routingService maxFailures).Ok where
  known := fun o ho => by cases ho
  recorded := fun i c hc => by simp [start] at hc
  tallied := fun edge => rfl
  marked := fun o before h => by simp [start] at h

theorem times_of_length_le (ok : s.Ok) {i : Nat} (hi : s.checks.length ≤ i) : s.times i = 0 := by
  refine List.count_eq_zero.mpr fun hmem => ?_
  obtain ⟨o, ho, rfl⟩ := List.mem_map.mp hmem
  have hlt := ok.known o ho
  omega

theorem times_record (i j : Nat) (edge : String) (outcome : Option Bool) :
    (s.record i edge outcome).times j = s.times j + if i = j then outcome.toList.length else 0 := by
  match outcome with
  | none => simp [record]
  | some true => simp [record, times, List.count_cons]
  | some false => simp [record, times, List.count_cons]

theorem tallied_record (h : ∀ edge, s.service.failureCounts.getD edge 0 = (failures s.outcomes edge).length)
    (i : Nat) (e : String) (outcome : Option Bool) (edge : String) :
    (s.record i e outcome).service.failureCounts.getD edge 0 =
      (failures (s.record i e outcome).outcomes edge).length := by
  match outcome with
  | none => exact h edge
  | some true =>
      simp only [record, HealthService.recordSuccess, Dict.getD, Dict.get?_set, failures_cons]
      by_cases hedge : e = edge
      · simp [hedge]
      · simpa [hedge, eq_comm, Dict.getD] using h edge
  | some false =>
      simp only [record, HealthService.recordFailure, Dict.getD, Dict.get?_set, failures_cons]
      by_cases hedge : e = edge
      · simpa [hedge, Dict.getD] using h edge
      · simpa [hedge, eq_comm, Dict.getD] using h edge

theorem marked_record (hbefore : ∀ (o : Outcome) (before : List Outcome),
      (o :: before) <:+ s.outcomes → (o.marked = true ↔
        o.success = false ∧ s.service.maxFailures ≤ (failures (o :: before) o.edge).length))
    (htallied : ∀ edge, s.service.failureCounts.getD edge 0 = (failures s.outcomes edge).length)
    (i : Nat) (edge : String) (outcome : Option Bool) (o : Outcome) (before : List Outcome)
    (hsuffix : (o :: before) <:+ (s.record i edge outcome).outcomes) :
    o.marked = true ↔
      o.success = false ∧ s.service.maxFailures ≤ (failures (o :: before) o.edge).length := by
  match outcome with
  | none => exact hbefore o before hsuffix
  | some true =>
      rcases List.suffix_cons_iff.mp hsuffix with hnew | hold
      · cases hnew
        simp
      · exact hbefore o before hold
  | some false =>
      rcases List.suffix_cons_iff.mp hsuffix with hnew | hold
      · cases hnew
        simp [HealthService.reachesThreshold, failures_cons, htallied]
      · exact hbefore o before hold

theorem times_check {check : Check} {outcome : Option Bool} {phase : CheckPhase} {i : Nat}
    (hs' : s' = { s.record i check.edge outcome with
      checks := s.checks.modify i fun c => { c with phase } }) (j : Nat) :
    s'.times j = s.times j + if i = j then outcome.toList.length else 0 := by
  subst hs'
  exact times_record i j check.edge outcome

/-- What a check records keeps the tally, and the check waits where it should. -/
theorem ok_check (ok : s.Ok) {i : Nat} {event : CheckEvent} (hstep : s.step (.check i event) = some s') :
    s'.Ok := by
  obtain ⟨check, outcome, phase, hcheck, hreact, hs'⟩ := step_check hstep
  obtain ⟨hopen, hgoes, -⟩ := CheckPhase.react_recordings hreact
  have htimes := times_check hs'
  subst hs'
  exact
    { known := fun o ho => by
        rw [List.length_modify]
        match outcome, ho with
        | none, ho => exact ok.known o ho
        | some true, ho | some false, ho =>
            rcases List.mem_cons.mp ho with rfl | hold
            · exact (List.getElem?_eq_some_iff.mp hcheck).1
            · exact ok.known o hold
      recorded := fun j c hc hphase => by
        rw [htimes]
        by_cases hij : i = j
        · subst hij
          rw [List.getElem?_modify_eq, hcheck] at hc
          cases hc
          rw [if_pos rfl, ok.recorded i check hcheck hopen]
          exact (hgoes hphase).1
        · rw [List.getElem?_modify_ne _ _ hij] at hc
          rw [if_neg hij, Nat.add_zero]
          exact ok.recorded j c hc hphase
      tallied := tallied_record ok.tallied i check.edge outcome
      marked := fun o before hsuffix => by
        rw [maxFailures_record]
        exact marked_record ok.marked ok.tallied i check.edge outcome o before hsuffix }

theorem ok_step (s : Health) (a : Action) (s' : Health) (ok : s.Ok) (hstep : s.step a = some s') :
    s'.Ok := by
  cases a with
  | launch edge =>
      have hnew : s.times s.checks.length = 0 := times_of_length_le ok (Nat.le_refl _)
      cases hstep
      exact
        { known := fun o ho => by
            rw [List.length_append]
            exact Nat.lt_add_right _ (ok.known o ho)
          recorded := Slots.forall_append
            (P := fun i (c : Check) => c.phase ≠ .done → s.times i = c.phase.recordings)
            ok.recorded fun _ => hnew
          tallied := ok.tallied
          marked := ok.marked }
  | check i event => exact ok_check ok hstep
  | markUnhealthy edge =>
      cases hstep
      exact ⟨ok.known, ok.recorded, ok.tallied, ok.marked⟩

end Health

end Cdn

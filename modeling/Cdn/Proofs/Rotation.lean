/-
Which edges are in rotation.

Three parties mark edges: checks that succeed, checks whose failure is one too many, and
requests whose call raises.  They do so in any order, and the counter of failures is not reset
by the requests.  What it comes to can be said from what has happened to an edge since a check
of it last succeeded: it is out of rotation if a call to it has raised, or if checks have failed
as often as it takes.

The routing, the list of the edges and the count of the healthy ones all say the same.
-/
import Cdn.Proofs.Health
import Cdn.Proofs.Routing
import Cdn.RouterProcess

namespace Cdn

open RoutingService (Marked healthyAfter healthyAfter_append proximity)

namespace Router

variable {e : Event} {events : List Event} {edge : String} {maxFailures : Int}

/-! ### Since the last success -/

def Event.isSuccess : Event → Bool
  | .succeeded _ => true
  | _ => false

/-- What has happened to an edge since a check of it last succeeded. -/
def since (events : List Event) (edge : String) : List Event :=
  (events.filter (·.edge = edge)).takeWhile (!·.isSuccess)

/-- How many checks of the edge have failed since. -/
def failuresSince (events : List Event) (edge : String) : Nat :=
  (since events edge).count (.failed edge)

/-- No call to the edge has raised since, and checks of it have not failed too often. -/
def InRotation (maxFailures : Int) (events : List Event) (edge : String) : Prop :=
  Event.raised edge ∉ since events edge ∧
    (failuresSince events edge = 0 ∨ failuresSince events edge < maxFailures)

instance : Decidable (InRotation maxFailures events edge) := inferInstanceAs (Decidable (_ ∧ _))

theorem since_other (h : e.edge ≠ edge) : since (e :: events) edge = since events edge := by
  rw [since, List.filter_cons_of_neg (by simpa using h), since]

@[simp] theorem since_succeeded : since (.succeeded edge :: events) edge = [] := by
  rw [since, List.filter_cons_of_pos (by simp [Event.edge]),
    List.takeWhile_cons_of_neg (by simp [Event.isSuccess])]

theorem since_cons (hedge : e.edge = edge) (hsuccess : e.isSuccess = false) :
    since (e :: events) edge = e :: since events edge := by
  rw [since, List.filter_cons_of_pos (by simpa using hedge),
    List.takeWhile_cons_of_pos (by simpa using hsuccess), since]

@[simp] theorem since_failed :
    since (.failed edge :: events) edge = .failed edge :: since events edge := since_cons rfl rfl

@[simp] theorem since_raised :
    since (.raised edge :: events) edge = .raised edge :: since events edge := since_cons rfl rfl

theorem failuresSince_other (h : e.edge ≠ edge) :
    failuresSince (e :: events) edge = failuresSince events edge := by
  rw [failuresSince, since_other h, failuresSince]

theorem failuresSince_failed :
    failuresSince (.failed edge :: events) edge = failuresSince events edge + 1 := by
  simp [failuresSince]

theorem failuresSince_raised (edge edge' : String) :
    failuresSince (.raised edge :: events) edge' = failuresSince events edge' := by
  by_cases h : edge = edge'
  · subst h
    simp [failuresSince]
  · exact failuresSince_other h

/-! ### What an event does to the rotation -/

theorem inRotation_nil (maxFailures : Int) (edge : String) : InRotation maxFailures [] edge := by
  simp [InRotation, since, failuresSince]

theorem inRotation_other (h : e.edge ≠ edge) :
    InRotation maxFailures (e :: events) edge ↔ InRotation maxFailures events edge := by
  rw [InRotation, since_other h, failuresSince_other h, InRotation]

theorem inRotation_succeeded : InRotation maxFailures (.succeeded edge :: events) edge := by
  simp [InRotation, failuresSince]

theorem not_inRotation_raised : ¬ InRotation maxFailures (.raised edge :: events) edge := by
  simp [InRotation]

/-- A failure that is one too many takes the edge out, whatever was the case before. -/
theorem inRotation_failed : InRotation maxFailures (.failed edge :: events) edge ↔
    InRotation maxFailures events edge ∧
      ((failuresSince events edge + 1 : Nat) : Int) < maxFailures := by
  rw [InRotation, since_failed, failuresSince_failed, InRotation]
  simp only [List.mem_cons, reduceCtorEq, false_or, Nat.succ_ne_zero]
  constructor
  · rintro ⟨hraised, hlt⟩
    exact ⟨⟨hraised, Or.inr (by omega)⟩, hlt⟩
  · rintro ⟨⟨hraised, -⟩, hlt⟩
    exact ⟨hraised, hlt⟩

end Router

namespace RouterProcess

open Router

variable {s s' : RouterProcess} {a : Action} {edges : List EdgeNode} {maxFailures : Int}
  {table : Option (Dict String (List String))}

/-! ### What a step does to the rotation -/

/-- A step leaves the service alone, or it is one of the three that mark edges. -/
inductive Noted (s s' : RouterProcess) : Prop where
  | nothing (hservice : s'.health.service = s.health.service) (hevents : s'.events = s.events)
  | succeeded (edge : String) (hservice : s'.health.service = s.health.service.recordSuccess edge)
      (hevents : s'.events = .succeeded edge :: s.events)
  | failed (edge : String) (hservice : s'.health.service = s.health.service.recordFailure edge)
      (hevents : s'.events = .failed edge :: s.events)
  | raised (edge : String)
      (hservice : s'.health.service = { s.health.service with
        routingService := s.routing.markUnhealthy edge })
      (hevents : s'.events = .raised edge :: s.events)

theorem noted_of_step (h : s.step a = some s') : Noted s s' := by
  cases moved_of_step h with
  | @checked i event check outcome =>
      match outcome with
      | none => exact .nothing rfl rfl
      | some true => exact .succeeded check.edge rfl rfl
      | some false => exact .failed check.edge rfl rfl
  | raised => exact .raised _ rfl rfl
  | _ => exact .nothing rfl rfl

/-! ### The invariant -/

/-- The service is as the events have left it. -/
structure Told (edges : List EdgeNode) (table : Option (Dict String (List String)))
    (maxFailures : Int) (s : RouterProcess) : Prop where
  threshold : s.health.service.maxFailures = maxFailures
  table_eq : s.routing.regionPriority = (RoutingService.init edges table).regionPriority
  counts : ∀ edge, s.health.service.failureCounts.getD edge 0 = failuresSince s.events edge
  marked : ∃ marks, Marked edges marks s.routing ∧
    ∀ e ∈ edges, healthyAfter marks e.id = decide (InRotation maxFailures s.events e.id)

theorem told_start : Told edges table maxFailures (start edges table maxFailures) where
  threshold := rfl
  table_eq := rfl
  counts := fun _ => rfl
  marked := ⟨[], RoutingService.marked_init table, fun e _ =>
    (decide_eq_true (inRotation_nil maxFailures e.id)).symm⟩

/-- The marks, when something has happened to an edge: it is marked with what the rotation has
become, or neither the marks nor the rotation change. -/
theorem marked_noted (hids : (edges.map (·.id)).Nodup) {routing routing' : RoutingService}
    {events : List Event} {e : Event}
    (h : ∃ marks, Marked edges marks routing ∧
      ∀ n ∈ edges, healthyAfter marks n.id = decide (InRotation maxFailures events n.id))
    (hnew : (∃ healthy, routing' = routing.mark ⟨e.edge, healthy⟩ ∧
        (healthy = true ↔ InRotation maxFailures (e :: events) e.edge)) ∨
      routing' = routing ∧
        (InRotation maxFailures (e :: events) e.edge ↔ InRotation maxFailures events e.edge)) :
    ∃ marks, Marked edges marks routing' ∧
      ∀ n ∈ edges,
        healthyAfter marks n.id = decide (InRotation maxFailures (e :: events) n.id) := by
  obtain ⟨marks, hmarked, hhealthy⟩ := h
  rcases hnew with ⟨healthy, rfl, hrotation⟩ | ⟨rfl, hrotation⟩
  · refine ⟨marks ++ [⟨e.edge, healthy⟩], hmarked.mark hids _, fun n hn => ?_⟩
    rw [healthyAfter_append]
    by_cases hedge : n.id = e.edge
    · rw [if_pos hedge, hedge, Bool.eq_iff_iff, hrotation, decide_eq_true_iff]
    · rw [if_neg hedge, hhealthy n hn]
      exact decide_eq_decide.mpr (inRotation_other (Ne.symm hedge)).symm
  · refine ⟨marks, hmarked, fun n hn => ?_⟩
    rw [hhealthy n hn]
    by_cases hedge : n.id = e.edge
    · exact decide_eq_decide.mpr (hedge ▸ hrotation.symm)
    · exact decide_eq_decide.mpr (inRotation_other (Ne.symm hedge)).symm

theorem told_step (hids : (edges.map (·.id)).Nodup) (told : Told edges table maxFailures s)
    (hstep : s.step a = some s') : Told edges table maxFailures s' := by
  cases noted_of_step hstep with
  | nothing hservice hevents =>
      have hrouting : s'.routing = s.routing := congrArg HealthService.routingService hservice
      refine ⟨by rw [hservice]; exact told.threshold, by rw [hrouting]; exact told.table_eq,
        fun edge => by rw [hservice, hevents]; exact told.counts edge, ?_⟩
      rw [hrouting, hevents]
      exact told.marked
  | succeeded edge hservice hevents =>
      have hrouting : s'.routing = s.routing.mark ⟨edge, true⟩ :=
        congrArg HealthService.routingService hservice
      refine ⟨by rw [hservice]; exact told.threshold, by rw [hrouting]; exact told.table_eq,
        fun edge' => ?_, ?_⟩
      · rw [hservice, hevents]
        show (s.health.service.failureCounts.set edge 0).getD edge' 0 = _
        rw [Dict.getD, Dict.get?_set]
        by_cases hedge : edge' = edge
        · rw [if_pos hedge, hedge]
          simp [failuresSince]
        · rw [if_neg hedge, failuresSince_other (Ne.symm hedge)]
          exact told.counts edge'
      · rw [hevents]
        exact marked_noted hids told.marked
          (Or.inl ⟨true, hrouting, iff_of_true rfl inRotation_succeeded⟩)
  | failed edge hservice hevents =>
      have hrouting : s'.routing = if s.health.service.reachesThreshold edge then
          s.routing.mark ⟨edge, false⟩ else s.routing :=
        congrArg HealthService.routingService hservice
      have hreaches : s.health.service.reachesThreshold edge = true ↔
          ¬ ((failuresSince s.events edge + 1 : Nat) : Int) < maxFailures := by
        rw [HealthService.reachesThreshold, told.threshold, told.counts, decide_eq_true_iff]
        push_cast
        omega
      refine ⟨by rw [hservice]; exact told.threshold, ?_, fun edge' => ?_, ?_⟩
      · rw [hrouting]
        split <;> exact told.table_eq
      · rw [hservice, hevents]
        show (s.health.service.failureCounts.set edge _).getD edge' 0 = _
        rw [Dict.getD, Dict.get?_set]
        by_cases hedge : edge' = edge
        · rw [if_pos hedge, hedge, failuresSince_failed, ← told.counts]
          rfl
        · rw [if_neg hedge, failuresSince_other (Ne.symm hedge)]
          exact told.counts edge'
      · rw [hevents]
        refine marked_noted hids told.marked ?_
        by_cases hlast : s.health.service.reachesThreshold edge = true
        · refine Or.inl ⟨false, by rw [hrouting, if_pos hlast]; rfl, ?_⟩
          refine iff_of_false Bool.false_ne_true fun hin => ?_
          exact hreaches.mp hlast (inRotation_failed.mp hin).2
        · refine Or.inr ⟨by rw [hrouting, if_neg hlast], ?_⟩
          exact inRotation_failed.trans (and_iff_left (not_not.mp (mt hreaches.mpr hlast)))
  | raised edge hservice hevents =>
      have hrouting : s'.routing = s.routing.mark ⟨edge, false⟩ :=
        congrArg HealthService.routingService hservice
      refine ⟨by rw [hservice]; exact told.threshold, by rw [hrouting]; exact told.table_eq,
        fun edge' => ?_, ?_⟩
      · rw [hservice, hevents, failuresSince_raised]
        exact told.counts edge'
      · rw [hevents]
        exact marked_noted hids told.marked
          (Or.inl ⟨false, hrouting, iff_of_false Bool.false_ne_true not_inRotation_raised⟩)

/-! ### What the router shows -/

/-- The edges that are in rotation by what has happened, as the service lists them. -/
def inRotation (maxFailures : Int) (events : List Event) (edges : List EdgeNode) : List EdgeNode :=
  (edges.filter fun e => InRotation maxFailures events e.id).map fun e => { e with healthy := true }

/-- What the router shows of its edges is what has happened to them. -/
structure Shows (edges : List EdgeNode) (table : Option (Dict String (List String)))
    (maxFailures : Int) (s : RouterProcess) : Prop where
  /-- A request goes to the edges in rotation, by region. -/
  ordered : ∀ region, Stable.Sorted (proximity ((RoutingService.init edges table).preferred region))
    (inRotation maxFailures s.events edges) (s.routing.getOrderedEdges region)
  listed : s.listEdges.map Prod.fst =
    edges.map fun e => { e with healthy := decide (InRotation maxFailures s.events e.id) }
  counted : s.healthCheck = ((inRotation maxFailures s.events edges).length, edges.length)
  /-- The counter of an edge is the number of failures since the last success. -/
  failures : ∀ edge, s.health.service.failureCounts.getD edge 0 = failuresSince s.events edge

theorem Told.shows (hids : (edges.map (·.id)).Nodup) (told : Told edges table maxFailures s) :
    Shows edges table maxFailures s := by
  obtain ⟨marks, hmarked, hhealthy⟩ := told.marked
  have hlist : RoutingService.healthyEdges edges marks = inRotation maxFailures s.events edges :=
    congrArg (List.map _) (List.filter_congr hhealthy)
  have hpreferred : ∀ region, s.routing.preferred region =
      (RoutingService.init edges table).preferred region := by
    intro region
    rw [RoutingService.preferred, told.table_eq, RoutingService.preferred]
  have hfilter := hmarked.filter_routable
  rw [hlist] at hfilter
  refine ⟨fun region => ?_, ?_, ?_, told.counts⟩
  · have hsorted :=
      RoutingService.sorted_getOrderedEdges (s := s.routing) region (hmarked.nodup hids)
    rwa [hfilter, hpreferred] at hsorted
  · have hfst : s.listEdges.map Prod.fst = s.routing.edges := by
      rw [listEdges, List.map_map]
      exact List.zipIdx_map_fst 0 s.routing.edges
    rw [hfst, hmarked.edges_eq]
    exact List.map_congr_left fun e he => by rw [hhealthy e he]
  · refine Prod.ext (congrArg List.length hfilter) ?_
    show s.routing.edges.length = edges.length
    rw [hmarked.edges_eq, List.length_map]

/-- **Which edges are in rotation.**  However requests, checks and the loop are interleaved: an
edge is in rotation exactly if, since a check of it last succeeded, no request's call to it has
raised and its checks have not failed as often as it takes; and the order of the edges for a
request, the list of the edges and the count of the healthy ones all go by that. -/
theorem shows_of_run (edges : List EdgeNode) (hids : (edges.map (·.id)).Nodup)
    (table : Option (Dict String (List String))) (maxFailures : Int) (p : List Action)
    (s : RouterProcess) (hrun : Lts.run step (start edges table maxFailures) p = some s) :
    Shows edges table maxFailures s := by
  have told : Told edges table maxFailures s :=
    Lts.run_invariant (I := Told edges table maxFailures)
      (fun _ _ _ told hstep => told_step hids told hstep) p told_start hrun
  exact told.shows hids

/-! ### An edge that comes back while a request fails over -/

/-- A request finds two edges down; the first of them is found healthy again before the third
has answered. -/
def comesBack : List Action :=
  [.started, .turn, .arrive ⟨"/a.txt", ∅, ∅⟩ "id" (some " US"), .check 1 (.resolved .failed),
    .answered 0 none, .check 0 (.resolved .found), .check 0 (.responded 200), .answered 0 none,
    .answered 0 (some ⟨200, ∅, []⟩)]

theorem shows_of_run_comesBack : ∃ s,
    Lts.run step (start RoutingService.sampleEdges none 3) comesBack = some s ∧
      Shows RoutingService.sampleEdges none 3 s ∧
      (s.routing.getOrderedEdges "us").map (·.id) = ["a", "b", "c"] ∧ s.healthCheck = (3, 4) := by
  have hrun : (Lts.run step (start RoutingService.sampleEdges none 3) comesBack).isSome = true := by
    decide +kernel
  have hend : ((Lts.last step (start RoutingService.sampleEdges none 3)
        comesBack).routing.getOrderedEdges "us").map (·.id) = ["a", "b", "c"] ∧
      (Lts.last step (start RoutingService.sampleEdges none 3) comesBack).healthCheck = (3, 4) := by
    decide +kernel
  exact ⟨_, Lts.run_last hrun,
    shows_of_run RoutingService.sampleEdges (by decide) none 3 comesBack _ (Lts.run_last hrun),
    hend⟩

end RouterProcess

end Cdn

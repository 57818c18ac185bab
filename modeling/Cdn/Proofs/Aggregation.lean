/-
Edge by edge or all at once.

What an edge has recorded is known by its totals: the counters, and the times without their
order.  Totals are added up, and a report depends on nothing else, since averages and
percentiles do not ask for the order of the times.  The totals of all edges together are those
of all events, so the aggregate report is the report of one edge that had them all.
-/
import Cdn.Application.MetricsService
import Cdn.Lib.Tally
import Mathlib

namespace Cdn

/-- What is recorded. -/
inductive MetricEvent where
  | request (edgeId path : String) (cacheHit : Bool) (responseTime : Time)
      (statusCode bytesSent : Int)
  | originFetch (edgeId path : String) (fetchTime : Time) (bytesFetched : Int)
deriving DecidableEq

namespace MetricEvent

def edgeId : MetricEvent → String
  | .request edgeId _ _ _ _ _ => edgeId
  | .originFetch edgeId _ _ _ => edgeId

/-- The same event at another edge. -/
def atEdge (edgeId : String) : MetricEvent → MetricEvent
  | .request _ path cacheHit responseTime statusCode bytesSent =>
      .request edgeId path cacheHit responseTime statusCode bytesSent
  | .originFetch _ path fetchTime bytesFetched => .originFetch edgeId path fetchTime bytesFetched

def isRequest : MetricEvent → Bool
  | .request _ _ _ _ _ _ => true
  | .originFetch _ _ _ _ => false

end MetricEvent

/-! ### Totals -/

/-- Requests, hits, misses, response times, fetch times, bytes served, bytes fetched. -/
abbrev Totals := Nat × Nat × Nat × Multiset Time × Multiset Time × Int × Int

def EdgeMetrics.totals (m : EdgeMetrics) : Totals :=
  (m.totalRequests, m.cacheHits, m.cacheMisses, m.responseTimes, m.originFetchTimes,
    m.bytesServed, m.bytesFetched)

/-- What an event adds. -/
def MetricEvent.totals : MetricEvent → Totals
  | .request _ _ cacheHit responseTime _ bytesSent =>
      (1, if cacheHit then 1 else 0, if cacheHit then 0 else 1, {responseTime}, 0, bytesSent, 0)
  | .originFetch _ _ fetchTime bytesFetched => (0, 0, 0, 0, {fetchTime}, 0, bytesFetched)

@[simp] theorem MetricEvent.totals_atEdge (edgeId : String) (e : MetricEvent) :
    (e.atEdge edgeId).totals = e.totals := by
  cases e with
  | request => rfl
  | originFetch => rfl

@[simp] theorem MetricEvent.edgeId_atEdge (edgeId : String) (e : MetricEvent) :
    (e.atEdge edgeId).edgeId = edgeId := by
  cases e with
  | request => rfl
  | originFetch => rfl

namespace InMemoryMetricsCollector

/-- `record_request` or `record_origin_fetch`. -/
def record (c : InMemoryMetricsCollector) : MetricEvent → InMemoryMetricsCollector
  | .request edgeId path cacheHit responseTime statusCode bytesSent =>
      c.recordRequest edgeId path cacheHit responseTime statusCode bytesSent
  | .originFetch edgeId path fetchTime bytesFetched =>
      c.recordOriginFetch edgeId path fetchTime bytesFetched

/-- A collector after some events. -/
def recorded (events : List MetricEvent) : InMemoryMetricsCollector := events.foldl record {}

theorem totals_start : ({} : EdgeMetrics).totals = 0 := rfl

theorem totals_extend (agg m : EdgeMetrics) : (extend agg m).totals = agg.totals + m.totals := rfl

/-- **An event is added to the container of its edge**, and to no other. -/
theorem record_eq (c : InMemoryMetricsCollector) (e : MetricEvent) :
    ∃ m : EdgeMetrics, record c e = ⟨c.edges.set e.edgeId m⟩ ∧
      m.totals = (c.edges.getD e.edgeId {}).totals + e.totals := by
  cases e with
  | request edgeId path cacheHit responseTime statusCode bytesSent =>
      refine ⟨_, rfl, ?_⟩
      cases cacheHit <;>
        simp [EdgeMetrics.totals, MetricEvent.totals, MetricEvent.edgeId, ensureEdge,
          ← Multiset.coe_add]
  | originFetch edgeId path fetchTime bytesFetched =>
      refine ⟨_, rfl, ?_⟩
      simp [EdgeMetrics.totals, MetricEvent.totals, MetricEvent.edgeId, ensureEdge,
        ← Multiset.coe_add]

/-! ### Reports -/

theorem sorted_eq_of_perm {data data' : List Time} (h : data.Perm data') :
    sorted data = sorted data' := by
  have hperm : (sorted data).Perm (sorted data') :=
    (List.perm_insertionSort _ data).trans (h.trans (List.perm_insertionSort _ data').symm)
  exact hperm.eq_of_pairwise' (List.pairwise_insertionSort _ data)
    (List.pairwise_insertionSort _ data')

theorem percentile_eq_of_perm {data data' : List Time} (h : data.Perm data') (p : ℚ) :
    percentile data p = percentile data' p := by
  have hnil : data = [] ↔ data' = [] := by
    rw [← List.length_eq_zero_iff, ← List.length_eq_zero_iff, h.length_eq]
  simp only [percentile, hnil, sorted_eq_of_perm h]

theorem avg_eq_of_perm {data data' : List Time} (h : data.Perm data') : avg data = avg data' := by
  have hnil : data = [] ↔ data' = [] := by
    rw [← List.length_eq_zero_iff, ← List.length_eq_zero_iff, h.length_eq]
  simp only [avg, hnil, h.sum_eq, h.length_eq]

/-- **A report depends on the totals only.** -/
theorem computeMetrics_congr {m m' : EdgeMetrics} (h : m.totals = m'.totals) :
    computeMetrics m = computeMetrics m' := by
  simp only [EdgeMetrics.totals, Prod.mk.injEq, Multiset.coe_eq_coe] at h
  obtain ⟨hrequests, hhits, hmisses, hresponses, hfetches, hserved, hfetched⟩ := h
  simp only [computeMetrics, hrequests, hhits, hmisses, hserved, hfetched,
    avg_eq_of_perm hresponses, avg_eq_of_perm hfetches, percentile_eq_of_perm hresponses,
    percentile_eq_of_perm hfetches]

/-! ### What has been recorded -/

/-- **All containers together hold all events.** -/
theorem total_recorded (events : List MetricEvent) :
    Tally.total EdgeMetrics.totals (recorded events).edges =
      (events.map MetricEvent.totals).sum := by
  have hstep : ∀ (c : InMemoryMetricsCollector) (e : MetricEvent),
      Tally.total EdgeMetrics.totals (record c e).edges =
        Tally.total EdgeMetrics.totals c.edges + e.totals := by
    intro c e
    obtain ⟨m, hm, htotals⟩ := record_eq c e
    rw [hm]
    exact Tally.total_set totals_start c.edges htotals
  have hrun := Tally.measure_foldl (fun c : InMemoryMetricsCollector =>
    Tally.total EdgeMetrics.totals c.edges) MetricEvent.totals hstep {} events
  exact hrun.trans (zero_add _)

/-- **The container of an edge holds its events.** -/
theorem totals_recorded (events : List MetricEvent) (edgeId : String) :
    ((recorded events).edges.getD edgeId {}).totals =
      ((events.filter fun e => e.edgeId = edgeId).map MetricEvent.totals).sum := by
  have hstep : ∀ (c : InMemoryMetricsCollector) (e : MetricEvent),
      ((record c e).edges.getD edgeId {}).totals =
        (c.edges.getD edgeId {}).totals + if e.edgeId = edgeId then e.totals else 0 := by
    intro c e
    obtain ⟨m, hm, htotals⟩ := record_eq c e
    rw [hm, Dict.getD, Dict.get?_set]
    by_cases hedge : e.edgeId = edgeId
    · rw [if_pos hedge.symm, if_pos hedge, ← hedge]
      exact htotals
    · rw [if_neg fun h => hedge h.symm, if_neg hedge, add_zero]
      rfl
  have hrun := Tally.measure_foldl (fun c : InMemoryMetricsCollector =>
    (c.edges.getD edgeId {}).totals) (fun e => if e.edgeId = edgeId then e.totals else 0) hstep
    {} events
  rw [List.sum_map_ite, List.map_const', List.sum_replicate, smul_zero, add_zero] at hrun
  exact hrun.trans (zero_add _)

/-- An edge has a container as soon as it has recorded something. -/
theorem exists_recorded {events : List MetricEvent} {e : MetricEvent} (he : e ∈ events) :
    ∃ m, (recorded events).edges.get? e.edgeId = some m := by
  induction events using List.reverseRecOn with
  | nil => cases he
  | append_singleton events last ih =>
      obtain ⟨m, hm, -⟩ := record_eq (recorded events) last
      have hrun : recorded (events ++ [last]) = record (recorded events) last :=
        List.foldl_concat record {} last events
      rw [hrun, hm, Dict.get?_set]
      split
      · exact ⟨m, rfl⟩
      · rename_i hedge
        rcases List.mem_append.mp he with he | he
        · exact ih he
        · exact absurd (congrArg MetricEvent.edgeId (List.mem_singleton.mp he)) hedge

/-- What events amount to, in requests. -/
theorem requests_totals (events : List MetricEvent) :
    let t := (events.map MetricEvent.totals).sum
    t.1 = events.countP MetricEvent.isRequest ∧ t.2.1 + t.2.2.1 = t.1 := by
  induction events with
  | nil => exact ⟨rfl, rfl⟩
  | cons e rest ih =>
      obtain ⟨hcount, hsplit⟩ := ih
      rw [List.map_cons, List.sum_cons, List.countP_cons]
      simp only [Prod.fst_add, Prod.snd_add]
      cases e with
      | request edgeId path cacheHit responseTime statusCode bytesSent =>
          cases cacheHit <;> simp only [MetricEvent.totals, MetricEvent.isRequest] <;> grind
      | originFetch edgeId path fetchTime bytesFetched =>
          simp only [MetricEvent.totals, MetricEvent.isRequest]
          grind

end InMemoryMetricsCollector

/-- Every request was a hit or a miss, and there were `n` of them. -/
structure Report.Counts (r : Report) (n : Nat) : Prop where
  split : r.cacheHits + r.cacheMisses = r.totalRequests
  count : r.totalRequests = n

namespace InMemoryMetricsCollector

theorem counts_computeMetrics {m : EdgeMetrics} {events : List MetricEvent}
    (h : m.totals = (events.map MetricEvent.totals).sum) :
    (computeMetrics m).Counts (events.countP MetricEvent.isRequest) := by
  obtain ⟨hcount, hsplit⟩ := requests_totals events
  rw [← h] at hcount hsplit
  exact ⟨hsplit, hcount⟩

theorem totals_aggregate (c : InMemoryMetricsCollector) :
    ((c.edges.items.map Prod.snd).foldl extend {}).totals =
      Tally.total EdgeMetrics.totals c.edges := by
  rw [Tally.measure_foldl EdgeMetrics.totals EdgeMetrics.totals totals_extend, totals_start, zero_add, List.map_map]
  rfl

/-- **The aggregate report is that of one edge with all the events.** -/
theorem aggregate_eq_edge {events : List MetricEvent} (hne : events ≠ []) (edgeId : String) :
    (recorded (events.map (MetricEvent.atEdge edgeId))).getEdgeMetrics edgeId =
        some (recorded events).getAggregateMetrics ∧
      (recorded events).getAggregateMetrics.Counts (events.countP MetricEvent.isRequest) ∧
      ∀ edgeId report, (recorded events).getEdgeMetrics edgeId = some report →
        report.Counts (events.countP fun e => e.isRequest && e.edgeId = edgeId) := by
  have hall := (totals_aggregate (recorded events)).trans (total_recorded events)
  refine ⟨?_, counts_computeMetrics hall, ?_⟩
  · obtain ⟨first, hfirst⟩ := List.exists_mem_of_ne_nil events hne
    obtain ⟨m, hm⟩ := exists_recorded (List.mem_map_of_mem hfirst)
    have htotals := totals_recorded (events.map (MetricEvent.atEdge edgeId)) edgeId
    rw [MetricEvent.edgeId_atEdge] at hm
    rw [Dict.getD, hm, Option.getD_some, List.filter_eq_self.mpr (by simp), List.map_map]
      at htotals
    rw [getEdgeMetrics, hm, Option.map_some, getAggregateMetrics]
    congr 1
    refine computeMetrics_congr (htotals.trans (Eq.trans ?_ hall.symm))
    exact congrArg List.sum (List.map_congr_left fun e _ => MetricEvent.totals_atEdge edgeId e)
  · intro edgeId report hreport
    obtain ⟨m, hm, rfl⟩ := Option.map_eq_some_iff.mp hreport
    have htotals := totals_recorded events edgeId
    rw [Dict.getD, hm] at htotals
    rw [← List.countP_filter]
    exact counts_computeMetrics htotals

/-- A hit at one edge and a miss at another. -/
theorem aggregate_eq_edge_two :
    (recorded [.request "all" "a" true 1 200 10, .request "all" "b" false 3 200 20]).getEdgeMetrics
        "all" =
      some (recorded [.request "edge-1" "a" true 1 200 10,
        .request "edge-2" "b" false 3 200 20]).getAggregateMetrics :=
  have hne : [MetricEvent.request "edge-1" "a" true 1 200 10,
      .request "edge-2" "b" false 3 200 20] ≠ [] := List.cons_ne_nil _ _
  (aggregate_eq_edge hne "all").1

end InMemoryMetricsCollector

end Cdn

/-
The metrics collector.

Each edge has a container of counters and of times in the order they were recorded.  A report
is computed from one container, and the aggregate report from a container into which all others
are emptied, edge by edge.  The times are exact rationals, and so is what a report derives from
them.
-/
import Cdn.Domain.Entities

namespace Cdn

/-- `_EdgeMetrics`. -/
structure EdgeMetrics where
  totalRequests : Nat := 0
  cacheHits : Nat := 0
  cacheMisses : Nat := 0
  responseTimes : List Time := []
  originFetchTimes : List Time := []
  bytesServed : Int := 0
  bytesFetched : Int := 0
deriving DecidableEq

/-- What `_compute_metrics` gives. -/
structure Report where
  totalRequests : Nat
  cacheHits : Nat
  cacheMisses : Nat
  hitRatio : ℚ
  bytesServed : Int
  bytesFetched : Int
  avgResponseTime : Time
  p50ResponseTime : Time
  p95ResponseTime : Time
  p99ResponseTime : Time
  avgOriginFetchTime : Time
  p50OriginFetchTime : Time
  p95OriginFetchTime : Time
  p99OriginFetchTime : Time
deriving DecidableEq

structure InMemoryMetricsCollector where
  edges : Dict String EdgeMetrics := ∅
deriving DecidableEq

namespace InMemoryMetricsCollector

/-! ### Recording -/

/-- `_ensure_edge`; a new container is in the table as soon as something is recorded in it. -/
def ensureEdge (c : InMemoryMetricsCollector) (edgeId : String) : EdgeMetrics := c.edges.getD edgeId {}

def recordRequest (c : InMemoryMetricsCollector) (edgeId _path : String) (cacheHit : Bool)
    (responseTime : Time) (_statusCode bytesSent : Int) : InMemoryMetricsCollector :=
  let m := c.ensureEdge edgeId
  { c with
    edges := c.edges.set edgeId
      { m with
        totalRequests := m.totalRequests + 1
        cacheHits := if cacheHit then m.cacheHits + 1 else m.cacheHits
        cacheMisses := if cacheHit then m.cacheMisses else m.cacheMisses + 1
        responseTimes := m.responseTimes ++ [responseTime]
        bytesServed := m.bytesServed + bytesSent } }

def recordOriginFetch (c : InMemoryMetricsCollector) (edgeId _path : String) (fetchTime : Time)
    (bytesFetched : Int) : InMemoryMetricsCollector :=
  let m := c.ensureEdge edgeId
  { c with
    edges := c.edges.set edgeId
      { m with
        originFetchTimes := m.originFetchTimes ++ [fetchTime]
        bytesFetched := m.bytesFetched + bytesFetched } }

/-! ### Reporting -/

/-- `_avg`. -/
def avg (data : List Time) : Time := if data = [] then 0 else data.sum / data.length

/-- `sorted(data)`. -/
def sorted (data : List Time) : List Time := data.insertionSort (· ≤ ·)

/-- The index `_percentile` reads at, clamped to the list at both ends. -/
def percentileIndex (length : Nat) (p : ℚ) : Int :=
  max 0 (min (truncate (length * p / 100)) (length - 1))

/-- `_percentile`. -/
def percentile (data : List Time) (p : ℚ) : Time :=
  if data = [] then 0
  else
    let sortedData := sorted data
    sortedData.getD (percentileIndex sortedData.length p).toNat 0

/-- `_compute_metrics`. -/
def computeMetrics (m : EdgeMetrics) : Report where
  totalRequests := m.totalRequests
  cacheHits := m.cacheHits
  cacheMisses := m.cacheMisses
  hitRatio := if 0 < m.totalRequests then (m.cacheHits : ℚ) / m.totalRequests else 0
  bytesServed := m.bytesServed
  bytesFetched := m.bytesFetched
  avgResponseTime := avg m.responseTimes
  p50ResponseTime := percentile m.responseTimes 50
  p95ResponseTime := percentile m.responseTimes 95
  p99ResponseTime := percentile m.responseTimes 99
  avgOriginFetchTime := avg m.originFetchTimes
  p50OriginFetchTime := percentile m.originFetchTimes 50
  p95OriginFetchTime := percentile m.originFetchTimes 95
  p99OriginFetchTime := percentile m.originFetchTimes 99

/-- `get_edge_metrics`; an edge that has recorded nothing has no report. -/
def getEdgeMetrics (c : InMemoryMetricsCollector) (edgeId : String) : Option Report :=
  (c.edges.get? edgeId).map computeMetrics

/-- One turn of the loop of `get_aggregate_metrics`. -/
def extend (agg m : EdgeMetrics) : EdgeMetrics where
  totalRequests := agg.totalRequests + m.totalRequests
  cacheHits := agg.cacheHits + m.cacheHits
  cacheMisses := agg.cacheMisses + m.cacheMisses
  responseTimes := agg.responseTimes ++ m.responseTimes
  originFetchTimes := agg.originFetchTimes ++ m.originFetchTimes
  bytesServed := agg.bytesServed + m.bytesServed
  bytesFetched := agg.bytesFetched + m.bytesFetched

def getAggregateMetrics (c : InMemoryMetricsCollector) : Report :=
  computeMetrics ((c.edges.items.map Prod.snd).foldl extend {})

end InMemoryMetricsCollector

end Cdn

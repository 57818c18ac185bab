/-
The routing service.

The service keeps its edges in the order of the configuration and, beside them, whether
each id is healthy.  The status is what the routing goes by; the flag on the edge itself is
there to be listed.
-/
import Cdn.Python
import Cdn.Lib.Dict

namespace Cdn

/-- An edge server of the network. -/
structure EdgeNode where
  id : String
  host : String
  port : Nat
  region : String
  healthy : Bool := true
deriving DecidableEq, Repr

/-- The region-proximity table. -/
def regionPriority : Dict String (List String) :=
  Dict.ofList [("eu", ["eu", "us", "asia"]), ("us", ["us", "eu", "asia"]),
    ("asia", ["asia", "eu", "us"])]

def defaultRegion : String := "eu"

structure RoutingService where
  edges : List EdgeNode
  edgeStatus : Dict String Bool
  regionPriority : Dict String (List String)
deriving DecidableEq

namespace RoutingService

/-- `RoutingService(edges, region_priority)`; no table and an empty one are the same. -/
def init (edges : List EdgeNode) (regionPriority : Option (Dict String (List String)) := none) :
    RoutingService where
  edges := edges.map fun e => { e with healthy := true }
  edgeStatus := Dict.ofList (edges.map fun e => (e.id, true))
  regionPriority := match regionPriority with
    | some table => if table.items = [] then Cdn.regionPriority else table
    | none => Cdn.regionPriority

variable (s : RoutingService)

/-- The chain of a client region, or the default one. -/
def preferred (clientRegion : String) : List String :=
  s.regionPriority.getD clientRegion (s.regionPriority.getD defaultRegion [])

/-- `get_nearest_edge`. -/
def getNearestEdge (clientRegion : String) : Option EdgeNode :=
  ((s.preferred clientRegion).findSome? fun region =>
    s.edges.find? fun edge => edge.region = region && s.edgeStatus.getD edge.id false).or
  (s.edges.find? fun edge => s.edgeStatus.getD edge.id false)

/-- One turn of the loops of `get_ordered_edges`: an edge that passes the test, is healthy
and has not been seen goes last. -/
def consider (test : EdgeNode → Bool) (ordered : List EdgeNode) (edge : EdgeNode) :
    List EdgeNode :=
  if test edge ∧ s.edgeStatus.getD edge.id false ∧ edge.id ∉ ordered.map (·.id) then
    ordered ++ [edge]
  else ordered

/-- `get_ordered_edges`.  The ids in `seen` are those of the edges in `ordered`. -/
def getOrderedEdges (clientRegion : String) : List EdgeNode :=
  let ordered := (s.preferred clientRegion).foldl
    (fun ordered region => s.edges.foldl (s.consider fun edge => edge.region = region) ordered) []
  s.edges.foldl (s.consider fun _ => true) ordered

/-- `mark_unhealthy`: of edges that share an id, the first one's flag. -/
def markUnhealthy (edgeId : String) : RoutingService where
  edges := match s.edges.findIdx? (·.id = edgeId) with
    | some i => s.edges.modify i fun e => { e with healthy := false }
    | none => s.edges
  edgeStatus := s.edgeStatus.set edgeId false
  regionPriority := s.regionPriority

/-- `mark_healthy`. -/
def markHealthy (edgeId : String) : RoutingService where
  edges := match s.edges.findIdx? (·.id = edgeId) with
    | some i => s.edges.modify i fun e => { e with healthy := true }
    | none => s.edges
  edgeStatus := s.edgeStatus.set edgeId true
  regionPriority := s.regionPriority

/-- A call of `mark_healthy` or of `mark_unhealthy`. -/
structure Mark where
  edgeId : String
  healthy : Bool

def mark (m : Mark) : RoutingService :=
  if m.healthy then s.markHealthy m.edgeId else s.markUnhealthy m.edgeId

end RoutingService

end Cdn

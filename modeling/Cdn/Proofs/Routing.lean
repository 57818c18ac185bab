/-
The order of the edges.

`get_ordered_edges` goes over the configured edges once for each region of a chain, and once
more for what is left.  That is a sort by passes, so its result is the healthy edges in order
of the first place of their region in the chain, and in the order of the configuration
within a region.  `get_nearest_edge` is a different loop, and finds the first of them.

An edge is healthy if the last call that named it said so, and if none did.  With ids that
are all different, the flags that the service keeps on its edges say the same.
-/
import Cdn.Application.RoutingService
import Cdn.Lib.Stable

namespace Cdn

namespace RoutingService

variable {s : RoutingService} {region : String}

/-! ### The loops as passes -/

/-- What the service routes to. -/
def routable (s : RoutingService) (edge : EdgeNode) : Bool := s.edgeStatus.getD edge.id false

/-- How far the chain puts a region. -/
def proximity (chain : List String) (edge : EdgeNode) : Nat := chain.idxOf edge.region

theorem consider_region (s : RoutingService) (region : String) :
    s.consider (fun edge => edge.region = region) =
      Stable.turn EdgeNode.id fun edge => decide (edge.region = region) && s.routable edge := by
  funext ordered edge
  simp only [consider, Stable.turn, routable, Bool.and_eq_true, and_assoc]

theorem consider_all (s : RoutingService) :
    s.consider (fun _ => true) = Stable.turn EdgeNode.id s.routable := by
  funext ordered edge
  simp only [consider, true_and]
  rfl

/-- The loops of `get_ordered_edges` are the passes of a sort. -/
theorem getOrderedEdges_eq (s : RoutingService) (region : String) :
    s.getOrderedEdges region =
      Stable.sort EdgeNode.id EdgeNode.region s.routable s.edges (s.preferred region) := by
  simp only [getOrderedEdges, consider_region, consider_all]
  rfl

/-- **The nearest edge is the first of the ordered ones,** whatever the edges and their
health. -/
theorem getNearestEdge_eq_first (s : RoutingService) (region : String) :
    s.getNearestEdge region = (s.getOrderedEdges region).head? ∧
      (s.getNearestEdge region = none ↔ s.getOrderedEdges region = []) := by
  have heq : s.getNearestEdge region = (s.getOrderedEdges region).head? := by
    rw [getOrderedEdges_eq, Stable.head?_sort]
    rfl
  rw [heq, List.head?_eq_none_iff]
  exact ⟨rfl, Iff.rfl⟩

theorem nodup_getOrderedEdges (s : RoutingService) (region : String) :
    ((s.getOrderedEdges region).map (·.id)).Nodup := by
  rw [getOrderedEdges_eq]
  exact Stable.nodup_sort

theorem mem_getOrderedEdges {edge : EdgeNode} (h : edge ∈ s.getOrderedEdges region) :
    edge ∈ s.edges ∧ s.edgeStatus.get? edge.id = some true := by
  rw [getOrderedEdges_eq] at h
  obtain ⟨hmem, hhealthy⟩ := Stable.mem_of_mem_sort h
  refine ⟨hmem, ?_⟩
  unfold routable Dict.getD at hhealthy
  cases hget : s.edgeStatus.get? edge.id with
  | none => rw [hget] at hhealthy; cases hhealthy
  | some b => rw [hget] at hhealthy; exact congrArg some hhealthy

/-- With ids that are all different, the order is the stable one. -/
theorem sorted_getOrderedEdges (region : String) (hids : (s.edges.map (·.id)).Nodup) :
    Stable.Sorted (proximity (s.preferred region)) (s.edges.filter s.routable)
      (s.getOrderedEdges region) := by
  rw [getOrderedEdges_eq]
  exact Stable.sorted_sort hids

/-! ### The chain of a region -/

/-- The table that a service goes by: the one it was given, if that says anything. -/
inductive TableFor : Option (Dict String (List String)) → Dict String (List String) → Prop where
  | given {table : Dict String (List String)} (hsome : table.items ≠ []) :
      TableFor (some table) table
  | empty {table : Dict String (List String)} (hnil : table.items = []) :
      TableFor (some table) Cdn.regionPriority
  | none : TableFor none Cdn.regionPriority

/-- The chain that a table has for a client: that of its region, or else of the default one. -/
inductive ChainFor (table : Dict String (List String)) (region : String) : List String → Prop where
  | listed {chain : List String} (hchain : table.get? region = some chain) :
      ChainFor table region chain
  | unknown {chain : List String} (hnone : table.get? region = none)
      (hdefault : table.get? defaultRegion = some chain) : ChainFor table region chain
  | neither (hnone : table.get? region = none) (hdefault : table.get? defaultRegion = none) :
      ChainFor table region []

theorem tableFor_init (edges : List EdgeNode) (table : Option (Dict String (List String))) :
    TableFor table (init edges table).regionPriority := by
  cases table with
  | none => exact .none
  | some table =>
      by_cases hnil : table.items = []
      · rw [show (init edges (some table)).regionPriority = Cdn.regionPriority from if_pos hnil]
        exact .empty hnil
      · rw [show (init edges (some table)).regionPriority = table from if_neg hnil]
        exact .given hnil

theorem chainFor_preferred (s : RoutingService) (region : String) :
    ChainFor s.regionPriority region (s.preferred region) := by
  unfold preferred Dict.getD
  cases hregion : s.regionPriority.get? region with
  | some chain => exact .listed hregion
  | none =>
      cases hdefault : s.regionPriority.get? defaultRegion with
      | some chain => exact .unknown hregion hdefault
      | none => exact .neither hregion hdefault

/-! ### The calls that mark an edge -/

theorem mark_eq (s : RoutingService) (m : Mark) : s.mark m =
    { edges := match s.edges.findIdx? (·.id = m.edgeId) with
        | some i => s.edges.modify i fun e => { e with healthy := m.healthy }
        | none => s.edges
      edgeStatus := s.edgeStatus.set m.edgeId m.healthy
      regionPriority := s.regionPriority } := by
  obtain ⟨edgeId, healthy⟩ := m
  cases healthy <;> rfl

/-- Changing the first element that passes a test that only one does is changing it where
the test is passed. -/
theorem modify_findIdx? {α : Type} {p : α → Bool} {f : α → α} {l : List α}
    (hone : l.Pairwise fun x y => ¬ (p x = true ∧ p y = true)) :
    (match l.findIdx? p with
      | some i => l.modify i f
      | none => l) = l.map fun x => if p x then f x else x := by
  induction l with
  | nil => rfl
  | cons x rest ih =>
      rw [List.pairwise_cons] at hone
      have ih := ih hone.2
      by_cases hx : p x = true
      · have hrest : rest.map (fun y => if p y then f y else y) = rest := by
          rw [List.map_congr_left (g := fun y => y) fun y hy =>
            if_neg fun hpy => hone.1 y hy ⟨hx, hpy⟩, List.map_id']
        simp [List.findIdx?_cons, hx, hrest]
      · rw [List.map_cons, if_neg hx, ← ih, List.findIdx?_cons, if_neg hx]
        cases rest.findIdx? p <;> simp

theorem edges_mark (hids : (s.edges.map (·.id)).Nodup) (m : Mark) : (s.mark m).edges =
    s.edges.map fun e => if e.id = m.edgeId then { e with healthy := m.healthy } else e := by
  have hone : s.edges.Pairwise fun x y =>
      ¬ (decide (x.id = m.edgeId) = true ∧ decide (y.id = m.edgeId) = true) := by
    refine (List.pairwise_map.mp hids).imp fun hne h => hne ?_
    simp only [decide_eq_true_eq] at h
    exact h.1.trans h.2.symm
  have hmodify := modify_findIdx? (f := fun e => { e with healthy := m.healthy }) hone
  simp only [decide_eq_true_eq] at hmodify
  rw [mark_eq, ← hmodify]

theorem ids_mark (hids : (s.edges.map (·.id)).Nodup) (m : Mark) :
    (s.mark m).edges.map (·.id) = s.edges.map (·.id) := by
  rw [edges_mark hids, List.map_map]
  refine List.map_congr_left fun e _ => ?_
  rw [Function.comp_apply]
  split <;> rfl

/-- The verdict of the last call that named the id; healthy if none did. -/
def healthyAfter (marks : List Mark) (edgeId : String) : Bool :=
  ((marks.reverse.find? (·.edgeId = edgeId)).map Mark.healthy).getD true

theorem healthyAfter_append (marks : List Mark) (m : Mark) (edgeId : String) :
    healthyAfter (marks ++ [m]) edgeId =
      if edgeId = m.edgeId then m.healthy else healthyAfter marks edgeId := by
  unfold healthyAfter
  rw [List.reverse_append, List.reverse_singleton, List.singleton_append, List.find?_cons]
  by_cases h : m.edgeId = edgeId
  · simp [h]
  · simp [h, Ne.symm h]

/-- The service after calls, in order. -/
def marked (s : RoutingService) (marks : List Mark) : RoutingService := marks.foldl mark s

/-- What the calls have made of a new service. -/
structure Marked (edges : List EdgeNode) (marks : List Mark) (s : RoutingService) : Prop where
  edges_eq : s.edges = edges.map fun e => { e with healthy := healthyAfter marks e.id }
  status : ∀ e ∈ edges, s.edgeStatus.get? e.id = some (healthyAfter marks e.id)

theorem marked_init {edges : List EdgeNode} (table : Option (Dict String (List String))) :
    Marked edges [] (init edges table) where
  edges_eq := rfl
  status := fun e he => by
    show (Dict.ofList (edges.map fun e => (e.id, true))).get? e.id = some true
    rw [Dict.get?_ofList_map EdgeNode.id fun _ => true, if_pos (List.mem_map_of_mem he)]

theorem Marked.nodup {edges : List EdgeNode} {marks : List Mark} (h : Marked edges marks s)
    (hids : (edges.map (·.id)).Nodup) : (s.edges.map (·.id)).Nodup := by
  rw [h.edges_eq, List.map_map]
  exact hids

theorem Marked.mark {edges : List EdgeNode} {marks : List Mark}
    (hids : (edges.map (·.id)).Nodup) (h : Marked edges marks s) (m : Mark) :
    Marked edges (marks ++ [m]) (s.mark m) where
  edges_eq := by
    rw [edges_mark (h.nodup hids), h.edges_eq, List.map_map]
    refine List.map_congr_left fun e _ => ?_
    rw [Function.comp_apply, healthyAfter_append]
    split <;> rfl
  status := fun e he => by
    rw [mark_eq, healthyAfter_append]
    show (s.edgeStatus.set m.edgeId m.healthy).get? e.id = _
    rw [Dict.get?_set, h.status e he]
    split <;> rfl

theorem marked_marks {edges : List EdgeNode} (hids : (edges.map (·.id)).Nodup)
    (table : Option (Dict String (List String))) (marks : List Mark) :
    Marked edges marks ((init edges table).marked marks) := by
  induction marks using List.reverseRecOn with
  | nil => exact marked_init table
  | append_singleton marks m ih =>
      rw [marked, List.foldl_append]
      exact ih.mark hids m

/-- The calls leave the table alone. -/
theorem preferred_marked (s : RoutingService) (marks : List Mark) (region : String) :
    (s.marked marks).preferred region = s.preferred region := by
  induction marks generalizing s with
  | nil => rfl
  | cons m rest ih =>
      rw [marked, List.foldl_cons]
      refine (ih (s.mark m)).trans ?_
      rw [mark_eq]
      rfl

/-! ### The order of the edges -/

/-- The configured edges that are healthy after the calls, as the service lists them. -/
def healthyEdges (edges : List EdgeNode) (marks : List Mark) : List EdgeNode :=
  (edges.filter fun e => healthyAfter marks e.id).map fun e => { e with healthy := true }

theorem Marked.filter_routable {edges : List EdgeNode} {marks : List Mark}
    (h : Marked edges marks s) : s.edges.filter s.routable = healthyEdges edges marks := by
  have hroutable : ∀ e ∈ edges, s.routable { e with healthy := healthyAfter marks e.id } =
      healthyAfter marks e.id := by
    intro e he
    rw [routable, Dict.getD, h.status e he]
    rfl
  rw [h.edges_eq, List.filter_map, healthyEdges]
  have hfilter : edges.filter (s.routable ∘ fun e =>
      { e with healthy := healthyAfter marks e.id }) =
      edges.filter fun e => healthyAfter marks e.id :=
    List.filter_congr fun e he => hroutable e he
  rw [hfilter]
  refine List.map_congr_left fun e he => ?_
  rw [(List.mem_filter.mp he).2]

/--
**The ordered edges.**  For any configuration with different ids, any table and any calls
that marked edges: the edges returned are the healthy ones, each once, in order of the first
place of their region in the chain that the table has for the client, within a region as they
are configured.
-/
theorem getOrderedEdges_sorted (edges : List EdgeNode)
    (table : Option (Dict String (List String))) (marks : List Mark) (region : String)
    (hids : (edges.map (·.id)).Nodup) :
    ∃ used chain, TableFor table used ∧ ChainFor used region chain ∧
      Stable.Sorted (proximity chain) (healthyEdges edges marks)
        (((init edges table).marked marks).getOrderedEdges region) ∧
      ((((init edges table).marked marks).getOrderedEdges region).map (·.id)).Nodup := by
  have hmarked := marked_marks hids table marks
  have hsorted := sorted_getOrderedEdges region (hmarked.nodup hids)
  rw [hmarked.filter_routable, preferred_marked] at hsorted
  exact ⟨_, _, tableFor_init edges table, chainFor_preferred (init edges table) region, hsorted,
    nodup_getOrderedEdges _ region⟩

/-- Two edges of one region, one of another, and one that the chain leaves out. -/
def sampleEdges : List EdgeNode :=
  [⟨"a", "localhost", 1, "us", true⟩, ⟨"b", "localhost", 2, "eu", true⟩,
    ⟨"c", "localhost", 3, "mars", true⟩, ⟨"d", "localhost", 4, "us", true⟩]

/-- A chain that names a region twice, and one without edges. -/
def sampleTable : Dict String (List String) := Dict.ofList [("eu", ["moon", "us", "eu", "us"])]

theorem getOrderedEdges_sorted_sample :
    ∃ used chain, TableFor (some sampleTable) used ∧ ChainFor used "sun" chain ∧
      Stable.Sorted (proximity chain)
        (healthyEdges sampleEdges [⟨"a", false⟩, ⟨"b", false⟩, ⟨"a", true⟩])
        (((init sampleEdges (some sampleTable)).marked
          [⟨"a", false⟩, ⟨"b", false⟩, ⟨"a", true⟩]).getOrderedEdges "sun") ∧
      ((((init sampleEdges (some sampleTable)).marked
        [⟨"a", false⟩, ⟨"b", false⟩, ⟨"a", true⟩]).getOrderedEdges "sun").map (·.id)).Nodup :=
  getOrderedEdges_sorted sampleEdges (some sampleTable)
    [⟨"a", false⟩, ⟨"b", false⟩, ⟨"a", true⟩] "sun" (by decide)

end RoutingService

end Cdn

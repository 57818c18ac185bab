/-
Failover.

A request goes to the edges in their order until a call does not raise.  So the edges called
are a first part of the order, all of them but perhaps the last have raised, and these are
the ones that lose their health.  `Handled` says what this comes to.

The proxy does not look at the exception.  An edge is marked for any, and so an exception
that the request has caused, which no edge had a part in, takes up to three edges out of the
rotation.
-/
import Cdn.Presentation.RouterRoutes
import Cdn.Proofs.Routing

namespace Cdn

namespace Router

variable {client : Client} {request : Request} {requestId region : String}
  {routing : RoutingService} {edge : EdgeNode} {edges : List EdgeNode} {i : Nat}

/-! ### The loop -/

/-- The calls to these edges, from attempt `i` on, all raise. -/
def Raised (client : Client) (request : Request) (i : Nat) (edges : List EdgeNode) : Prop :=
  ∀ j edge, edges[j]? = some edge → contact client request (i + j) edge = none

theorem raised_nil : Raised client request i [] := by
  intro j edge hedge
  cases hedge

theorem raised_cons : Raised client request i (edge :: edges) ↔
    contact client request i edge = none ∧ Raised client request (i + 1) edges := by
  constructor
  · intro h
    refine ⟨h 0 edge rfl, fun j e he => ?_⟩
    have hnext := h (j + 1) e he
    rw [Nat.add_assoc, Nat.add_comm 1 j]
    exact hnext
  · rintro ⟨hedge, hrest⟩ j e he
    cases j with
    | zero => cases he; exact hedge
    | succ j =>
        have hnext := hrest j e he
        rw [Nat.add_assoc, Nat.add_comm 1 j] at hnext
        exact hnext

theorem Raised.at (h : Raised client request 0 edges) (hi : edges[i]? = some edge) :
    contact client request i edge = none := by
  have hnone := h i edge hi
  rwa [Nat.zero_add] at hnone

theorem Raised.take (h : Raised client request i edges) (n : Nat) :
    Raised client request i (edges.take n) := by
  intro j edge hj
  rw [List.getElem?_take] at hj
  split at hj
  · exact h j edge hj
  · cases hj

/-- The service after the edges have been marked, in order. -/
def markFailed (routing : RoutingService) (failed : List EdgeNode) : RoutingService :=
  failed.foldl (fun routing edge => routing.markUnhealthy edge.id) routing

/-- The two ways the loop ends. -/
inductive Tried (client : Client) (request : Request) (requestId : String) (i : Nat)
    (edges : List EdgeNode) (routing : RoutingService) : Proxied × List EdgeNode → Prop
  /-- No call came through. -/
  | exhausted (text : String) (hraised : Raised client request i edges) :
      Tried client request requestId i edges routing
        (⟨unavailable text, markFailed routing edges, none⟩, edges)
  /-- The calls before one to `edge` have raised, and this one has not. -/
  | answered {failed rest : List EdgeNode} {edge : EdgeNode} {response : Http.Received}
      (hedges : edges = failed ++ edge :: rest) (hraised : Raised client request i failed)
      (hresponse : contact client request (i + failed.length) edge = some response) :
      Tried client request requestId i edges routing
        (⟨relay edge requestId response, markFailed routing failed,
          some (i + failed.length, edge)⟩, failed ++ [edge])

theorem recordedAttempts_tried (client : Client) (request : Request) (requestId : String)
    (i : Nat) (edges : List EdgeNode) (routing : RoutingService) :
    Tried client request requestId i edges routing
      (recordedAttempts client request requestId i edges routing) := by
  induction edges generalizing i routing with
  | nil => exact .exhausted _ raised_nil
  | cons edge rest ih =>
      unfold recordedAttempts
      split
      · rename_i response hresponse
        have hedges : edge :: rest = [] ++ edge :: rest := rfl
        exact .answered hedges raised_nil hresponse
      · rename_i hnone
        have hrest := ih (i + 1) (routing.markUnhealthy edge.id)
        generalize recordedAttempts client request requestId (i + 1) rest
          (routing.markUnhealthy edge.id) = outcome at hrest ⊢
        cases hrest with
        | exhausted text hraised => exact .exhausted text (raised_cons.mpr ⟨hnone, hraised⟩)
        | @answered failed rest' edge' response hedges hraised hresponse =>
            have hlength : i + 1 + failed.length = i + (edge :: failed).length := by
              rw [List.length_cons]
              omega
            rw [hlength] at hresponse ⊢
            have hcons : edge :: rest = (edge :: failed) ++ edge' :: rest' := by
              rw [hedges, List.cons_append]
            exact .answered hcons (raised_cons.mpr ⟨hnone, hraised⟩) hresponse

theorem recordedProxy_tried (client : Client) (request : Request) (requestId region : String)
    (routing : RoutingService) : Tried client request requestId 0
      ((routing.getOrderedEdges region).take (maxFailoverAttempts + 1)) routing
      (recordedProxy client request requestId region routing) := by
  unfold recordedProxy
  split
  · rename_i hnil
    rw [hnil]
    exact .exhausted _ raised_nil
  · exact recordedAttempts_tried client request requestId 0 _ routing

/-! ### Marking the edges that failed -/

theorem get?_markFailed (failed : List EdgeNode) (routing : RoutingService) (edgeId : String) :
    (markFailed routing failed).edgeStatus.get? edgeId =
      if edgeId ∈ failed.map (·.id) then some false else routing.edgeStatus.get? edgeId := by
  induction failed generalizing routing with
  | nil => simp [markFailed]
  | cons edge rest ih =>
      show (markFailed (routing.markUnhealthy edge.id) rest).edgeStatus.get? edgeId = _
      rw [ih]
      show (if _ then _ else (routing.edgeStatus.set edge.id false).get? edgeId) = _
      rw [Dict.get?_set]
      by_cases hedge : edgeId = edge.id <;> by_cases hrest : edgeId ∈ rest.map (·.id) <;>
        simp [hedge, hrest]

theorem edges_markFailed (failed : List EdgeNode) {routing : RoutingService}
    (hids : (routing.edges.map (·.id)).Nodup) : (markFailed routing failed).edges =
      routing.edges.map fun e =>
        if e.id ∈ failed.map (·.id) then { e with healthy := false } else e := by
  induction failed generalizing routing with
  | nil => simp [markFailed]
  | cons edge rest ih =>
      show (markFailed (routing.mark ⟨edge.id, false⟩) rest).edges = _
      rw [ih (by rw [RoutingService.ids_mark hids]; exact hids),
        RoutingService.edges_mark hids, List.map_map]
      refine List.map_congr_left fun e _ => ?_
      rw [Function.comp_apply]
      by_cases hedge : e.id = edge.id
      · simp [hedge]
      · simp [hedge]

/-! ### The handling of a request -/

/-- What the handling of one request comes to, `failed` being the edges whose call raised. -/
structure Handled (client : Client) (request : Request) (requestId : String)
    (ordered : List EdgeNode) (before : RoutingService) (proxied : Proxied)
    (contacted failed : List EdgeNode) : Prop where
  /-- The order is one of the healthy edges. -/
  ordered_perm : ordered.Perm (before.edges.filter before.routable)
  /-- The last edge called is the one that answered. -/
  contacted_eq : contacted = failed ++ (proxied.answered.map Prod.snd).toList
  inOrder : contacted <+: ordered
  once : (contacted.map (·.id)).Nodup
  bounded : contacted.length ≤ maxFailoverAttempts + 1
  raised : Raised client request 0 failed
  /-- The response of the first that does not raise is passed on, with its labels. -/
  relayed : ∀ i edge, proxied.answered = some (i, edge) → i = failed.length ∧
    ∃ response, contact client request i edge = some response ∧
      proxied.response = relay edge requestId response ∧
      proxied.response.headers.get? "X-CDN-Edge" = some edge.id ∧
      proxied.response.headers.get? "X-CDN-Region" = some edge.region
  /-- Otherwise all that may be called have been, and the response is the proxy's own. -/
  own : proxied.answered = none →
    contacted = ordered.take
      (min (before.edges.filter before.routable).length (maxFailoverAttempts + 1)) ∧
    ∃ text, proxied.response = unavailable text
  own_iff : proxied.answered = none ↔
    before.edges.filter before.routable = [] ∨ Raised client request 0 (ordered.take
      (min (before.edges.filter before.routable).length (maxFailoverAttempts + 1)))
  /-- The edges that failed lose their health, and no others. -/
  status : ∀ edgeId, proxied.routing.edgeStatus.get? edgeId =
    if edgeId ∈ failed.map (·.id) then some false else before.edgeStatus.get? edgeId
  edges : proxied.routing.edges = before.edges.map fun e =>
    if e.id ∈ failed.map (·.id) then { e with healthy := false } else e

/-- The labels of a response that is passed on. -/
theorem labels_relay (edge : EdgeNode) (requestId : String) (response : Http.Received) :
    (relay edge requestId response).headers.get? "X-CDN-Edge" = some edge.id ∧
      (relay edge requestId response).headers.get? "X-CDN-Region" = some edge.region := by
  constructor <;> simp [relay]

variable {ordered : List EdgeNode} {outcome : Proxied × List EdgeNode}

/-- What the loop comes to, over the first edges of an order. -/
theorem Tried.handled (hids : (routing.edges.map (·.id)).Nodup)
    (hperm : ordered.Perm (routing.edges.filter routing.routable))
    (hnodup : (ordered.map (·.id)).Nodup)
    (h : Tried client request requestId 0 (ordered.take (maxFailoverAttempts + 1)) routing
      outcome) :
    ∃ failed, Handled client request requestId ordered routing outcome.1 outcome.2 failed := by
  have htried : ordered.take
      (min (routing.edges.filter routing.routable).length (maxFailoverAttempts + 1)) =
        ordered.take (maxFailoverAttempts + 1) := by
    rw [← hperm.length_eq, List.take_eq_take_iff]
    omega
  have hlength := List.length_take_le (maxFailoverAttempts + 1) ordered
  have honce : ((ordered.take (maxFailoverAttempts + 1)).map (·.id)).Nodup :=
    hnodup.sublist ((List.take_sublist _ ordered).map _)
  cases h with
  | exhausted text hraised =>
      refine ⟨ordered.take (maxFailoverAttempts + 1), ?_⟩
      constructor
      case ordered_perm => exact hperm
      case contacted_eq => exact (List.append_nil _).symm
      case inOrder => exact List.take_prefix _ ordered
      case once => exact honce
      case bounded => exact hlength
      case raised => exact hraised
      case relayed => rintro i edge ⟨⟩
      case own => exact fun _ => ⟨htried.symm, text, rfl⟩
      case own_iff =>
        rw [htried]
        exact ⟨fun _ => Or.inr hraised, fun _ => rfl⟩
      case status => exact get?_markFailed _ routing
      case edges => exact edges_markFailed _ hids
  | @answered failed rest edge response hedges hraised hresponse =>
      have hcalled : failed ++ [edge] <+: ordered.take (maxFailoverAttempts + 1) :=
        ⟨rest, by rw [hedges, List.append_assoc, List.singleton_append]⟩
      refine ⟨failed, ?_⟩
      constructor
      case ordered_perm => exact hperm
      case contacted_eq => rfl
      case inOrder => exact hcalled.trans (List.take_prefix _ ordered)
      case once => exact honce.sublist (hcalled.sublist.map _)
      case bounded => exact hcalled.length_le.trans hlength
      case raised => exact hraised
      case relayed =>
        rintro i e heq
        cases heq
        rw [Nat.zero_add] at hresponse ⊢
        exact ⟨rfl, response, hresponse, rfl, labels_relay edge requestId response⟩
      case own => rintro ⟨⟩
      case own_iff =>
        refine ⟨by rintro ⟨⟩, ?_⟩
        rintro (hnone | hall)
        · rw [hnone] at hperm
          rw [hperm.eq_nil] at hedges
          simp at hedges
        · -- the call to the edge that answered has not raised
          rw [htried, hedges] at hall
          have hnone := hall failed.length edge (by simp)
          rw [hresponse] at hnone
          cases hnone
      case status => exact get?_markFailed failed routing
      case edges => exact edges_markFailed failed hids

/-- A request with a header value that is not ASCII. -/
def sampleNotedRequest : Request := ⟨"/a.txt", Dict.ofList [("x-note", "é")], ∅⟩

def sampleFleet : RoutingService := .init RoutingService.sampleEdges

variable {calls : Calls}

/-- What becomes of the call to an edge as attempt `i`, with the exception. -/
def call (calls : Calls) (request : Request) (i : Nat) (edge : EdgeNode) :
    Except Failure Http.Received :=
  calls i (edgeUrl edge request) (filterRequestHeaders request.headers) request.queryParams

theorem contact_caught : contact (caught calls) request i edge = none ↔
    ∃ failure, call calls request i edge = .error failure := by
  show (call calls request i edge).toOption = none ↔ _
  cases call calls request i edge <;> simp [Except.toOption]

/-- In a request, edges lose their health by failures of the transport only. -/
structure BlamesTransport (calls : Calls) (request : Request) (before after : RoutingService)
    (contacted : List EdgeNode) : Prop where
  /-- A call to an edge whose health has changed has failed at the transport. -/
  blamed : ∀ edgeId, after.edgeStatus.get? edgeId ≠ before.edgeStatus.get? edgeId →
    ∃ i edge failure, contacted[i]? = some edge ∧ edge.id = edgeId ∧
      call calls request i edge = .error failure ∧ failure.transport = true
  /-- Other failures change nothing. -/
  spared : (∀ i edge failure, contacted[i]? = some edge →
    call calls request i edge = .error failure → failure.transport = false) → after = before

/-- Each call that is made, those to the edges before having raised, comes through or fails
at the transport. -/
def TransportOnly (calls : Calls) (request : Request) (edges : List EdgeNode) : Prop :=
  ∀ i edge failure, edges[i]? = some edge → Raised (caught calls) request 0 (edges.take i) →
    call calls request i edge = .error failure → failure.transport = true

/-- The edges called are those of the order up to the first whose call comes through. -/
theorem Tried.contacted_iff (h : Tried client request requestId 0 edges routing outcome) :
    outcome.2[i]? = some edge ↔
      edges[i]? = some edge ∧ Raised client request 0 (edges.take i) := by
  cases h with
  | exhausted text hraised => exact ⟨fun hi => ⟨hi, hraised.take i⟩, fun hi => hi.1⟩
  | @answered failed rest e response hedges hraised hresponse =>
      rw [hedges]
      rcases Nat.lt_trichotomy i failed.length with hlt | heq | hgt
      · rw [List.getElem?_append_left hlt, List.getElem?_append_left hlt,
          List.take_append_of_le_length hlt.le]
        exact ⟨fun hi => ⟨hi, hraised.take i⟩, fun hi => hi.1⟩
      · rw [heq, List.take_left']
        · simp [hraised]
        · rfl
      · -- the call that came through is before `i`
        constructor
        · intro hi
          rw [List.getElem?_eq_none (by simpa using hgt)] at hi
          cases hi
        · rintro ⟨-, hall⟩
          have hget : ((failed ++ e :: rest).take i)[failed.length]? = some e := by simp [hgt]
          have hnone := hall.at hget
          rw [Nat.zero_add] at hresponse
          rw [hresponse] at hnone
          cases hnone

/-- The edges marked are those that were called and whose call raised. -/
theorem Tried.exists_failed (h : Tried client request requestId 0 edges routing outcome) :
    ∃ failed, outcome.1.routing = markFailed routing failed ∧
      ∀ edge, edge ∈ failed ↔ ∃ i, outcome.2[i]? = some edge ∧
        contact client request i edge = none := by
  cases h with
  | exhausted text hraised =>
      refine ⟨edges, rfl, fun edge => ⟨fun hedge => ?_, fun ⟨i, hi, _⟩ => ?_⟩⟩
      · obtain ⟨i, hi⟩ := List.mem_iff_getElem?.mp hedge
        exact ⟨i, hi, hraised.at hi⟩
      · exact List.mem_of_getElem? hi
  | @answered failed rest e response hedges hraised hresponse =>
      refine ⟨failed, rfl, fun edge => ⟨fun hedge => ?_, fun ⟨i, hi, hnone⟩ => ?_⟩⟩
      · obtain ⟨i, hi⟩ := List.mem_iff_getElem?.mp hedge
        have hlt : i < failed.length := (List.getElem?_eq_some_iff.mp hi).1
        exact ⟨i, by rw [List.getElem?_append_left hlt]; exact hi, hraised.at hi⟩
      · rcases Nat.lt_or_ge i failed.length with hlt | hge
        · rw [List.getElem?_append_left hlt] at hi
          exact List.mem_of_getElem? hi
        · -- the last edge called has answered
          rw [List.getElem?_append_right hge, List.getElem?_singleton] at hi
          split at hi
          · rename_i hzero
            cases hi
            have hlast : i = 0 + failed.length := by omega
            rw [hlast, hresponse] at hnone
            cases hnone
          · cases hi

/-- An edge has one place in a list of edges with different ids. -/
theorem place_eq {e e' : EdgeNode} {j : Nat} (hnodup : (edges.map (·.id)).Nodup)
    (hi : edges[i]? = some e) (hj : edges[j]? = some e') (hid : e'.id = e.id) : i = j := by
  have hlt : i < (edges.map (·.id)).length := by
    rw [List.length_map]
    exact (List.getElem?_eq_some_iff.mp hi).1
  refine (List.getElem?_inj hlt hnodup).mp ?_
  rw [List.getElem?_map, List.getElem?_map, hi, hj, Option.map_some, Option.map_some, hid]

/-- Where only the transport is blamed, each call that is made fails at nothing else. -/
theorem Tried.transportOnly
    (htried : Tried (caught calls) request requestId 0 edges routing outcome)
    (hnodup : (edges.map (·.id)).Nodup)
    (hhealthy : ∀ edge ∈ edges, routing.edgeStatus.get? edge.id = some true)
    (h : BlamesTransport calls request routing outcome.1.routing outcome.2) :
    TransportOnly calls request edges := by
  obtain ⟨failed, hrouting, hfailed⟩ := htried.exists_failed
  intro i edge failure hi hraised hcall
  have hnone := contact_caught.mpr ⟨failure, hcall⟩
  have hmem := (hfailed edge).mpr ⟨i, htried.contacted_iff.mpr ⟨hi, hraised⟩, hnone⟩
  have hchanged : outcome.1.routing.edgeStatus.get? edge.id ≠ routing.edgeStatus.get? edge.id := by
    rw [hrouting, get?_markFailed, if_pos (List.mem_map_of_mem hmem),
      hhealthy edge (List.mem_of_getElem? hi)]
    decide
  obtain ⟨j, e, failure', hj, hid, hcall', htransport⟩ := h.blamed edge.id hchanged
  replace hj := (htried.contacted_iff.mp hj).1
  obtain rfl := place_eq hnodup hi hj hid
  rw [hi, Option.some.injEq] at hj
  rw [← hj, hcall] at hcall'
  cases hcall'
  exact htransport

/-- And where each call that is made fails at nothing else, only the transport is blamed. -/
theorem Tried.blamesTransport
    (htried : Tried (caught calls) request requestId 0 edges routing outcome)
    (h : TransportOnly calls request edges) :
    BlamesTransport calls request routing outcome.1.routing outcome.2 := by
  obtain ⟨failed, hrouting, hfailed⟩ := htried.exists_failed
  have hblamed : ∀ edge ∈ failed, ∃ i failure, outcome.2[i]? = some edge ∧
      call calls request i edge = .error failure ∧ failure.transport = true := by
    intro edge hedge
    obtain ⟨i, hi, hnone⟩ := (hfailed edge).mp hedge
    obtain ⟨failure, hcall⟩ := contact_caught.mp hnone
    obtain ⟨hedges, hraised⟩ := htried.contacted_iff.mp hi
    exact ⟨i, failure, hi, hcall, h i edge failure hedges hraised hcall⟩
  rw [hrouting]
  constructor
  · intro edgeId hchanged
    rw [get?_markFailed] at hchanged
    split at hchanged
    · rename_i hmem
      obtain ⟨edge, hedge, hid⟩ := List.mem_map.mp hmem
      obtain ⟨i, failure, hi, hcall, htransport⟩ := hblamed edge hedge
      exact ⟨i, edge, failure, hi, hid, hcall, htransport⟩
    · exact absurd rfl hchanged
  · intro hother
    have hnil : failed = [] := by
      refine List.eq_nil_iff_forall_not_mem.mpr fun edge hedge => ?_
      obtain ⟨i, failure, hi, hcall, htransport⟩ := hblamed edge hedge
      rw [hother i edge failure hi hcall] at htransport
      cases htransport
    rw [hnil]
    rfl

/--
**When a request costs the health of edges that have not failed.**  For any edges, region
and request: it costs none exactly if each call that is made comes through or fails at the
transport.
-/
theorem blamesTransport_iff (calls : Calls) (request : Request) (requestId region : String)
    (routing : RoutingService) :
    BlamesTransport calls request routing
        (proxyToEdge (caught calls) request requestId region routing).routing
        (recordedProxy (caught calls) request requestId region routing).2 ↔
      TransportOnly calls request
        ((routing.getOrderedEdges region).take (maxFailoverAttempts + 1)) := by
  have htried := recordedProxy_tried (caught calls) request requestId region routing
  refine ⟨htried.transportOnly ?_ ?_, htried.blamesTransport⟩
  · exact (routing.nodup_getOrderedEdges region).sublist ((List.take_sublist _ _).map _)
  · exact fun edge hedge => (RoutingService.mem_getOrderedEdges (List.mem_of_mem_take hedge)).2

/-- The HTTP client sends header values that are ASCII, and raises for any other. -/
def asciiCalls : Calls := fun _ _ headers _ =>
  if headers.items.all fun kv => kv.2.toList.all fun c => decide (c.toNat < 128) then
    .ok ⟨200, ∅, []⟩
  else .error .other

/-- One request with a header value that is not ASCII takes three edges out. -/
theorem not_blamesTransport_ascii : ¬ ∀ (calls : Calls) (request : Request)
    (requestId region : String) (routing : RoutingService),
    BlamesTransport calls request routing
      (proxyToEdge (caught calls) request requestId region routing).routing
      (recordedProxy (caught calls) request requestId region routing).2 := by
  intro h
  have hspared := (h asciiCalls sampleNotedRequest "id" "eu" sampleFleet).spared
    fun i edge failure _ hcall => ?_
  · revert hspared
    decide +kernel
  · unfold call asciiCalls at hcall
    split at hcall
    · cases hcall
    · cases hcall
      rfl

end Router

end Cdn

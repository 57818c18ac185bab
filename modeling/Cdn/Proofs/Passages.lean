/-
A request is handled as if it were alone.

While a request waits for an edge, other requests and checks take edges out of rotation and put
them back.  It does not notice: the order it goes by is the one of the moment at which it came.
So its response, and the edges it has been sent to, are those that `_proxy_to_edge` would have
come to at that moment with the same answers, without anything in between.

What a request leaves behind is one mark for each call that has raised, made at once.  No mark is
lost and none is made twice.
-/
import Cdn.Proofs.Failover
import Cdn.RouterProcess

namespace Cdn

namespace Router

variable {client : Client} {request : Request} {requestId : String} {i : Nat} {edge : EdgeNode}
  {edges failed rest : List EdgeNode} {routing : RoutingService}

/-! ### The loop, with answers that are known -/

/-- A client whose calls end as they did. -/
def replay (answers : List (Option Http.Received)) : Client := fun i _ _ _ => answers[i]?.join

theorem recordedAttempts_of_raised (requestId : String) (routing : RoutingService)
    (h : Raised client request i edges) :
    (recordedAttempts client request requestId i edges routing).1.response =
        unavailable "All edge nodes failed to serve the request" ∧
      (recordedAttempts client request requestId i edges routing).2 = edges := by
  induction edges generalizing i routing with
  | nil => exact ⟨rfl, rfl⟩
  | cons edge rest ih =>
      obtain ⟨hnone, hrest⟩ := raised_cons.mp h
      obtain ⟨hresponse, hcontacted⟩ := ih (routing.markUnhealthy edge.id) hrest
      unfold recordedAttempts
      rw [hnone]
      exact ⟨hresponse, congrArg (edge :: ·) hcontacted⟩

theorem recordedAttempts_of_answered (requestId : String) (routing : RoutingService)
    (rest : List EdgeNode) {received : Http.Received} (hraised : Raised client request i failed)
    (hanswer : contact client request (i + failed.length) edge = some received) :
    (recordedAttempts client request requestId i (failed ++ edge :: rest) routing).1.response =
        relay edge requestId received ∧
      (recordedAttempts client request requestId i (failed ++ edge :: rest) routing).2 =
        failed ++ [edge] := by
  induction failed generalizing i routing with
  | nil =>
      replace hanswer : contact client request i edge = some received := hanswer
      rw [List.nil_append]
      unfold recordedAttempts
      rw [hanswer]
      exact ⟨rfl, rfl⟩
  | cons first failed ih =>
      obtain ⟨hnone, hrest⟩ := raised_cons.mp hraised
      have hlength : i + (first :: failed).length = i + 1 + failed.length := by
        rw [List.length_cons]
        omega
      rw [hlength] at hanswer
      obtain ⟨hresponse, hcontacted⟩ := ih (routing.markUnhealthy first.id) hrest hanswer
      rw [List.cons_append]
      unfold recordedAttempts
      rw [hnone]
      exact ⟨hresponse, congrArg (first :: ·) hcontacted⟩

theorem raised_replay {answers : List (Option Http.Received)} (h : ∀ a ∈ answers, a = none)
    (request : Request) (edges : List EdgeNode) :
    Raised (replay answers) request 0 edges := by
  intro j edge _
  show answers[0 + j]?.join = none
  rw [Nat.zero_add]
  cases hj : answers[j]? with
  | none => rfl
  | some a => exact h a (List.mem_of_getElem? hj)

/-! ### A request on its way -/

/-- How far a request has come that goes by the order of `routing`. -/
inductive Passage.Underway (routing : RoutingService) (p : Passage) : Prop where
  | refused (hedges : routing.getOrderedEdges p.region = []) (hanswers : p.answers = [])
      (hresponse : p.response = some (unavailable "No healthy edge nodes available"))
  | calling (hraised : ∀ a ∈ p.answers, a = none) (hleft : p.answers.length < p.edges.length)
      (hresponse : p.response = none)
  | exhausted (hraised : ∀ a ∈ p.answers, a = none) (hall : p.answers.length = p.edges.length)
      (hsome : p.edges ≠ [])
      (hresponse : p.response = some (unavailable "All edge nodes failed to serve the request"))
  | answered {before : List (Option Http.Received)} {received : Http.Received} {edge : EdgeNode}
      (hanswers : p.answers = before ++ [some received]) (hraised : ∀ a ∈ before, a = none)
      (hedge : p.edges[before.length]? = some edge)
      (hresponse : p.response = some (relay edge p.requestId received))

structure Passage.Follows (routing : RoutingService) (p : Passage) : Prop where
  edges_eq : p.edges = (routing.getOrderedEdges p.region).take (maxFailoverAttempts + 1)
  underway : p.Underway routing

theorem recordedProxy_of_edges {region : String}
    (h : (routing.getOrderedEdges region).take (maxFailoverAttempts + 1) ≠ []) :
    recordedProxy client request requestId region routing =
      recordedAttempts client request requestId 0
        ((routing.getOrderedEdges region).take (maxFailoverAttempts + 1)) routing := by
  unfold recordedProxy
  split
  · rename_i hnil
    rw [hnil] at h
    exact absurd rfl h
  · rfl

/-- What a request has come to is what `_proxy_to_edge` comes to, alone, with its answers. -/
structure Passage.Alone (routing : RoutingService) (p : Passage) : Prop where
  edges_eq : p.edges = (routing.getOrderedEdges p.region).take (maxFailoverAttempts + 1)
  response_eq : ∀ response, p.response = some response →
    (proxyToEdge (replay p.answers) p.request p.requestId p.region routing).response = response
  contacted_eq : ∀ response, p.response = some response →
    (recordedProxy (replay p.answers) p.request p.requestId p.region routing).2 =
      p.edges.take p.answers.length

theorem Passage.Follows.responded {p : Passage} (h : p.Follows routing) {response : HttpResponse}
    (hresponse : p.response = some response) :
    (proxyToEdge (replay p.answers) p.request p.requestId p.region routing).response = response ∧
      (recordedProxy (replay p.answers) p.request p.requestId p.region routing).2 =
        p.edges.take p.answers.length := by
  cases h.underway with
  | refused hedges hanswers hown =>
      rw [hown, Option.some.injEq] at hresponse
      unfold proxyToEdge recordedProxy
      rw [hedges, hanswers]
      exact ⟨hresponse, rfl⟩
  | calling hraised hleft hnone => rw [hnone] at hresponse; cases hresponse
  | exhausted hraised hall hsome hown =>
      rw [hown, Option.some.injEq] at hresponse
      rw [proxyToEdge, recordedProxy_of_edges (h.edges_eq ▸ hsome), ← h.edges_eq, hall,
        List.take_length]
      obtain ⟨hr, hcontacted⟩ := recordedAttempts_of_raised p.requestId routing
        (raised_replay hraised p.request p.edges)
      exact ⟨hr.trans hresponse, hcontacted⟩
  | @answered before received edge hanswers hraised hedge hrelayed =>
      rw [hrelayed, Option.some.injEq] at hresponse
      have hsome : p.edges ≠ [] := by
        intro hnil
        rw [hnil] at hedge
        cases hedge
      -- the calls before the one that came through
      have hbefore : Raised (replay p.answers) p.request 0 (p.edges.take before.length) := by
        intro j e he
        have hj : j < before.length := by
          have hlt := (List.getElem?_eq_some_iff.mp he).1
          rw [List.length_take] at hlt
          omega
        show p.answers[0 + j]?.join = none
        rw [Nat.zero_add, hanswers, List.getElem?_append_left hj, List.getElem?_eq_getElem hj,
          hraised _ (List.getElem_mem hj)]
        rfl
      obtain ⟨hlt, -⟩ := List.getElem?_eq_some_iff.mp hedge
      have hlength : (p.edges.take before.length).length = before.length := by
        rw [List.length_take]
        omega
      have hanswer : contact (replay p.answers) p.request
          (0 + (p.edges.take before.length).length) edge = some received := by
        show p.answers[0 + (p.edges.take before.length).length]?.join = some received
        rw [Nat.zero_add, hlength, hanswers, List.getElem?_concat_length]
        rfl
      have hsplit := (Slots.modify_split hedge id).1
      have htake : p.edges.take p.answers.length = p.edges.take before.length ++ [edge] := by
        rw [hanswers, List.length_append, List.length_singleton, List.take_add_one, hedge]
        rfl
      obtain ⟨hr, hcontacted⟩ := recordedAttempts_of_answered p.requestId routing
        (p.edges.drop (before.length + 1)) hbefore hanswer
      rw [← hsplit] at hr hcontacted
      rw [proxyToEdge, recordedProxy_of_edges (h.edges_eq ▸ hsome), ← h.edges_eq, htake]
      exact ⟨hr.trans hresponse, hcontacted⟩

theorem Passage.Follows.alone {p : Passage} (h : p.Follows routing) : p.Alone routing where
  edges_eq := h.edges_eq
  response_eq := fun _ hresponse => (h.responded hresponse).1
  contacted_eq := fun _ hresponse => (h.responded hresponse).2

/-- The edges to which a request's calls have raised. -/
def Passage.raised (p : Passage) : List String :=
  (p.edges.zip p.answers).filterMap fun (edge, answer) => if answer.isNone then some edge.id else none

theorem Passage.raised_concat {p : Passage} (h : p.edges[p.answers.length]? = some edge)
    (answer : Option Http.Received) (response : Option HttpResponse) :
    Passage.raised { p with answers := p.answers ++ [answer], response } =
      p.raised ++ if answer.isNone then [edge.id] else [] := by
  obtain ⟨hlt, -⟩ := List.getElem?_eq_some_iff.mp h
  have hlength : (p.edges.take p.answers.length).length = p.answers.length := by
    rw [List.length_take]
    omega
  have hzip : ∀ last : List (Option Http.Received), p.edges.zip (p.answers ++ last) =
      (p.edges.take p.answers.length).zip p.answers ++
        (edge :: p.edges.drop (p.answers.length + 1)).zip last := by
    intro last
    conv_lhs => rw [(Slots.modify_split h id).1]
    exact List.zip_append hlength
  have hbefore := hzip []
  rw [List.append_nil, List.zip_nil_right, List.append_nil] at hbefore
  show (p.edges.zip (p.answers ++ [answer])).filterMap _ = _
  rw [hzip, List.filterMap_append, ← hbefore, List.zip_cons_cons, List.zip_nil_right]
  refine congrArg (p.raised ++ ·) ?_
  cases answer <;> rfl

/-- A call of the request has ended. -/
theorem Passage.Follows.ended {p : Passage} (h : p.Follows routing) (hwaits : p.response = none)
    (hedge : p.edges[p.answers.length]? = some edge) :
    (∀ received, Passage.Follows routing { p with
      answers := p.answers ++ [some received]
      response := some (relay edge p.requestId received) }) ∧
    Passage.Follows routing { p with
      answers := p.answers ++ [none]
      response :=
        if (p.answers ++ [none]).length = p.edges.length then
          some (unavailable "All edge nodes failed to serve the request")
        else none } := by
  have hleft := (List.getElem?_eq_some_iff.mp hedge).1
  have hraised : ∀ a ∈ p.answers, a = none := by
    cases h.underway with
    | calling hraised => exact hraised
    | refused hedges hanswers hown => rw [hwaits] at hown; cases hown
    | exhausted hraised => exact hraised
    | answered hanswers hbefore hedge hrelayed => rw [hwaits] at hrelayed; cases hrelayed
  have hraised' : ∀ a ∈ p.answers ++ [none], a = none := by
    intro a ha
    rcases List.mem_append.mp ha with ha | ha
    · exact hraised a ha
    · exact List.mem_singleton.mp ha
  refine ⟨fun received => ⟨h.edges_eq, .answered rfl hraised hedge rfl⟩, h.edges_eq, ?_⟩
  by_cases hlast : (p.answers ++ [none]).length = p.edges.length
  · refine .exhausted hraised' hlast (fun hnil => ?_) (if_pos hlast)
    rw [show p.edges = [] from hnil] at hleft
    cases hleft
  · refine .calling hraised' ?_ (if_neg hlast)
    show (p.answers ++ [none]).length < p.edges.length
    rw [List.length_append, List.length_singleton] at hlast ⊢
    omega

/-- The events of calls that have raised, by edge. -/
def raisedIds (events : List Event) : List String :=
  events.filterMap fun
    | .raised edge => some edge
    | _ => none

end Router

namespace RouterProcess

open Router

variable {s s' : RouterProcess} {a : Action}

/-! ### What a step does to the requests -/

/-- A step leaves the requests alone, or one comes in, or a call of one has ended. -/
inductive Passed (s : RouterProcess) (a : Action) (s' : RouterProcess) : Prop where
  | nothing (hpassages : s'.passages = s.passages)
      (hraised : raisedIds s'.events = raisedIds s.events)
  | arrived {p : Router.Passage} {regionHeader : Option String}
      (haction : a = .arrive p.request p.requestId regionHeader)
      (hregion : p.region = clientRegion regionHeader)
      (hpassages : s'.passages = s.passages ++ [p]) (hnew : p.Follows s.routing)
      (hanswers : p.answers = []) (hraised : raisedIds s'.events = raisedIds s.events)
  | ended {j : Nat} {p : Router.Passage} {edge : EdgeNode} {answer : Option Http.Received}
      {response : Option HttpResponse} (hp : s.passages[j]? = some p)
      (hedge : p.edges[p.answers.length]? = some edge)
      (hpassages : s'.passages = s.passages.modify j fun q =>
        { q with answers := p.answers ++ [answer], response })
      (hfollows : ∀ routing, p.Follows routing →
        Router.Passage.Follows routing { p with answers := p.answers ++ [answer], response })
      (hraised : raisedIds s'.events =
        (if answer.isNone then [edge.id] else []) ++ raisedIds s.events)

theorem follows_arrive (s : RouterProcess) (request : Request) (requestId region : String) :
    ∃ p : Router.Passage, (s.arrive request requestId region).passages = s.passages ++ [p] ∧
      p.request = request ∧ p.requestId = requestId ∧ p.region = region ∧
      p.Follows s.routing ∧ p.answers = [] := by
  refine ⟨_, rfl, rfl, rfl, rfl, ⟨rfl, ?_⟩, rfl⟩
  by_cases hnil : s.routing.getOrderedEdges region = []
  · exact .refused hnil rfl (if_pos hnil)
  · refine .calling (fun a ha => by cases ha) ?_ (if_neg hnil)
    show 0 < ((s.routing.getOrderedEdges region).take (maxFailoverAttempts + 1)).length
    have hpos := List.length_pos_iff.mpr hnil
    rw [List.length_take]
    exact lt_min (Nat.succ_pos _) hpos

theorem passed_of_step (h : s.step a = some s') : Passed s a s' := by
  cases moved_of_step h with
  | @checked i event check outcome =>
      refine .nothing rfl ?_
      match outcome with
      | none | some true | some false => rfl
  | @arrived request requestId regionHeader =>
      obtain ⟨p, hpassages, rfl, rfl, hregion, hfollows, hanswers⟩ :=
        s.follows_arrive request requestId (clientRegion regionHeader)
      exact .arrived rfl hregion hpassages hfollows hanswers rfl
  | answered hp hwaits hedge =>
      exact .ended hp hedge rfl (fun routing hp => (hp.ended hwaits hedge).1 _) rfl
  | raised hp hwaits hedge =>
      exact .ended hp hedge rfl (fun routing hp => (hp.ended hwaits hedge).2) rfl
  | _ => exact .nothing rfl rfl

/-! ### Every run -/

/-- The marks that calls have made are those of the requests, each once. -/
def Accounted (s : RouterProcess) : Prop :=
  (raisedIds s.events).Perm (s.passages.flatMap Router.Passage.raised)

theorem accounted_step (h : Accounted s) (hstep : s.step a = some s') : Accounted s' := by
  unfold Accounted at h ⊢
  cases passed_of_step hstep with
  | nothing hpassages hraised => rwa [hpassages, hraised]
  | @arrived p regionHeader haction hregion hpassages hnew hanswers hraised =>
      have hnone : p.raised = [] := by rw [Router.Passage.raised, hanswers, List.zip_nil_right]; rfl
      rw [hpassages, hraised, List.flatMap_append, List.flatMap_singleton, hnone, List.append_nil]
      exact h
  | @ended j p edge answer response hp hedge hpassages hfollows hraised =>
      obtain ⟨hbefore, hafter⟩ := Slots.modify_split hp fun q =>
        { q with answers := p.answers ++ [answer], response }
      rw [hpassages, hraised, hafter, List.flatMap_append, List.flatMap_cons,
        Router.Passage.raised_concat hedge]
      rw [hbefore, List.flatMap_append, List.flatMap_cons] at h
      refine (h.append_left _).trans ?_
      rw [List.append_assoc]
      exact ((List.perm_append_comm_assoc _ _ _).trans
        ((List.perm_append_comm_assoc _ _ _).append_left _))

/-- The request in slot `j` came in a step that `T` tells of, and follows the order of then. -/
def Came (T : RouterProcess → Action → Prop) (j : Nat) (p : Router.Passage) : Prop :=
  ∃ u regionHeader, T u (.arrive p.request p.requestId regionHeader) ∧ u.passages.length = j ∧
    p.region = clientRegion regionHeader ∧ p.Follows u.routing

theorem came_step {T : RouterProcess → Action → Prop} (htaken : T s a)
    (h : ∀ j p, s.passages[j]? = some p → Came T j p) (hstep : s.step a = some s') :
    ∀ j p, s'.passages[j]? = some p → Came T j p := by
  cases passed_of_step hstep with
  | nothing hpassages => rwa [hpassages]
  | @arrived p regionHeader haction hregion hpassages hnew =>
      rw [haction] at htaken
      rw [hpassages]
      exact Slots.forall_append h ⟨s, regionHeader, htaken, rfl, hregion, hnew⟩
  | @ended j p edge answer response hp hedge hpassages hfollows =>
      obtain ⟨u, regionHeader, harrive, hlength, hregion, hfollowed⟩ := h j p hp
      rw [hpassages]
      exact Slots.forall_modify h hp
        ⟨u, regionHeader, harrive, hlength, hregion, hfollows _ hfollowed⟩

/-- **A request is handled as if it were alone.**  In every run of the router, whatever else goes
on, each request has a step of the run in which it came in, and goes by the order of the edges at
the state of that step; and when it has its response, then this, and the edges that it was sent
to, are what `_proxy_to_edge` comes to at that state with the same answers.  The marks that calls
have made are those of the calls that raised, no more and no fewer. -/
theorem alone_of_run (edges : List EdgeNode) (table : Option (Dict String (List String)))
    (maxFailures : Int) (p : List Action) (s : RouterProcess)
    (hrun : Lts.run step (start edges table maxFailures) p = some s) :
    (∀ j q, s.passages[j]? = some q → ∃ u regionHeader,
      Lts.Takes step (start edges table maxFailures) p u
          (.arrive q.request q.requestId regionHeader) ∧
        u.passages.length = j ∧ q.region = clientRegion regionHeader ∧ q.Alone u.routing) ∧
      (raisedIds s.events).Perm (s.passages.flatMap Router.Passage.raised) := by
  constructor
  · intro j q hq
    have hcame := Lts.run_guarded
      (I := fun s : RouterProcess => ∀ j q, s.passages[j]? = some q →
        Came (Lts.Takes step (start edges table maxFailures) p) j q)
      (fun s a s' h htaken hstep => came_step htaken h hstep) p
      (fun j q hq => by cases hq) (Lts.eachStep_takes _ p) hrun
    obtain ⟨u, regionHeader, htaken, hlength, hregion, hfollows⟩ := hcame j q hq
    exact ⟨u, regionHeader, htaken, hlength, hregion, hfollows.alone⟩
  · exact Lts.run_invariant (I := Accounted) (fun s a s' h hstep => accounted_step h hstep) p
      (show Accounted (start edges table maxFailures) from List.Perm.refl []) hrun

/-! ### An edge that goes out of rotation before it is called -/

/-- While the first edge is being called, a check takes the second one out. -/
def overtaken : List Action :=
  [.started, .turn, .arrive ⟨"/a.txt", ∅, ∅⟩ "id" (some "us"), .check 3 (.resolved .failed),
    .answered 0 none, .answered 0 (some ⟨200, ∅, []⟩)]

/-- The request goes there all the same. -/
theorem alone_of_run_overtaken : ∃ s,
    Lts.run step (start RoutingService.sampleEdges none 1) overtaken = some s ∧
      (s.routing.getOrderedEdges "us").map (·.id) = ["b", "c"] ∧
      s.passages.map (fun q => (q.edges.map (·.id), q.answers.length, q.response.isSome)) =
        [(["a", "d", "b"], 2, true)] ∧
      (∀ j q, s.passages[j]? = some q → ∃ u regionHeader,
        Lts.Takes step (start RoutingService.sampleEdges none 1) overtaken u
            (.arrive q.request q.requestId regionHeader) ∧
          u.passages.length = j ∧ q.region = clientRegion regionHeader ∧ q.Alone u.routing) ∧
      (raisedIds s.events).Perm (s.passages.flatMap Router.Passage.raised) := by
  let s := Lts.last step (start RoutingService.sampleEdges none 1) overtaken
  have hrun : (Lts.run step (start RoutingService.sampleEdges none 1) overtaken).isSome = true := by
    decide +kernel
  have horder : (s.routing.getOrderedEdges "us").map (·.id) = ["b", "c"] := by decide +kernel
  have hpassages : s.passages.map (fun q =>
      (q.edges.map (·.id), q.answers.length, q.response.isSome)) = [(["a", "d", "b"], 2, true)] := by
    decide +kernel
  exact ⟨s, Lts.run_last hrun, horder, hpassages,
    alone_of_run RoutingService.sampleEdges none 1 overtaken s (Lts.run_last hrun)⟩

end RouterProcess

end Cdn

/-
A shutdown that waits for the requests.

The count is the number of requests in flight, and the event is set whenever it has come
down to zero: so no wake-up is lost.  When the event is set no request but a health check
is left, and the gate lets no other in: that stays so until the client is closed, however
much later the handler goes on.
-/
import Cdn.Presentation.EdgeApp

namespace Cdn

namespace EdgeApp

/-! ### The invariant -/

structure Ok (s : EdgeApp) : Prop where
  counted : s.activeRequests = s.inFlight
  opened : s.shuttingDown = false ↔ s.stage = .notCalled
  /-- The event has never been cleared. -/
  unused : s.shuttingDown = false → s.drainEvent = true
  /-- No wake-up is lost. -/
  woken : s.shuttingDown = true → s.activeRequests = 0 → s.drainEvent = true
  /-- The event is not set too early. -/
  drained : s.shuttingDown = true → s.drainEvent = true → s.Drained
  inTime : s.stage.inTime = true → s.drainEvent = true

theorem ok_start : Ok {} where
  counted := rfl
  opened := by simp
  unused := fun _ => rfl
  woken := fun h => by cases h
  drained := fun h => by cases h
  inTime := fun h => by cases h

variable {s s' : EdgeApp} {a : Action}

theorem drained_of_inFlight (h : s.inFlight = 0) : s.Drained := by
  intro r hr hpassage
  exact absurd (decide_eq_true hpassage) (List.countP_eq_zero.mp h r hr)

theorem inFlight_append {r : GateRequest} (h : s'.requests = s.requests ++ [r]) :
    s'.inFlight = s.inFlight + if r.passage = .inFlight then 1 else 0 := by
  simp [inFlight, h, List.countP_append, List.countP_singleton]

theorem drained_append (hs : s.Drained) {r : GateRequest}
    (hr : r.passage = .inFlight → r.path = "/health") (h : s'.requests = s.requests ++ [r]) :
    s'.Drained := by
  intro r' hr'
  rw [h] at hr'
  rcases List.mem_append.mp hr' with hold | hnew
  · exact hs r' hold
  · rw [List.mem_singleton.mp hnew]
    exact hr

/-! ### What keeps it -/

theorem ok_gate (ok : s.Ok) (path : String) : (s.gate path).Ok := by
  unfold gate
  split
  · have hcount : inFlight { s with requests := s.requests ++ [⟨path, .rejected⟩] } = s.inFlight := by
      rw [inFlight_append (s := s) rfl]
      rfl
    exact
      { counted := ok.counted.trans (by rw [hcount])
        opened := ok.opened
        unused := ok.unused
        woken := ok.woken
        drained := fun hdown hevent =>
          drained_append (ok.drained hdown hevent) (fun hc => by cases hc) rfl
        inTime := ok.inTime }
  · rename_i hopen
    have hcount : inFlight { s with
        activeRequests := s.activeRequests + 1
        requests := s.requests ++ [⟨path, .inFlight⟩] } = s.inFlight + 1 := by
      rw [inFlight_append (s := s) rfl]
      rfl
    exact
      { counted := by
          have hcounted := ok.counted
          show s.activeRequests + 1 = _
          rw [hcount]
          omega
        opened := ok.opened
        unused := ok.unused
        woken := fun hdown hzero => by
          have hcounted := ok.counted
          replace hzero : s.activeRequests + 1 = 0 := hzero
          omega
        drained := fun hdown hevent => by
          refine drained_append (ok.drained hdown hevent) (fun _ => ?_) rfl
          by_contra hpath
          exact hopen ⟨hdown, hpath⟩
        inTime := ok.inTime }

theorem drained_modify (hs : s.Drained) {i : Nat} {raised : Bool} {path : String}
    (hi : s.requests[i]? = some ⟨path, .inFlight⟩)
    (h : s'.requests = s.requests.modify i fun r => { r with passage := .finished raised }) :
    s'.Drained := by
  intro r hr
  rw [h] at hr
  obtain ⟨j, hj⟩ := List.getElem?_of_mem hr
  exact Slots.forall_modify (P := fun (_ : Nat) (r : GateRequest) => r.passage = .inFlight → r.path = "/health")
    (fun _ r hr => hs r (List.mem_of_getElem? hr)) hi (fun hc => by cases hc) j r hj

theorem ok_leave (ok : s.Ok) {i : Nat} {raised : Bool} (h : s.leave i raised = some s') :
    s'.Ok := by
  unfold leave at h
  split at h
  · rename_i path hi
    have hcount := Slots.countP_modify (fun r : GateRequest => decide (r.passage = .inFlight)) hi
      fun r => { r with passage := .finished raised }
    have hafter : s'.inFlight + 1 = s.inFlight := by
      cases h
      simpa [inFlight] using hcount
    have hcounted := ok.counted
    have hactive : s'.activeRequests = s'.inFlight := by
      have hsub : s'.activeRequests = s.activeRequests - 1 := by cases h; rfl
      omega
    have hevent : s'.drainEvent =
        if s'.shuttingDown ∧ s'.activeRequests = 0 then true else s.drainEvent := by cases h; rfl
    have hdown : s'.shuttingDown = s.shuttingDown := by cases h; rfl
    have hstage : s'.stage = s.stage := by cases h; rfl
    have hrequests : s'.requests = s.requests.modify i fun r => { r with passage := .finished raised } := by
      cases h; rfl
    exact
      { counted := hactive
        opened := by rw [hdown, hstage, ok.opened]
        unused := fun hopen => by
          rw [hevent, hopen]
          simpa using ok.unused (hdown ▸ hopen)
        woken := fun hclosed hzero => by rw [hevent, if_pos ⟨hclosed, hzero⟩]
        drained := fun hclosed hset => by
          by_cases hzero : s'.activeRequests = 0
          · exact drained_of_inFlight (by omega)
          · rw [hevent, if_neg fun hc => hzero hc.2] at hset
            exact drained_modify (ok.drained (hdown ▸ hclosed) hset) hi hrequests
        inTime := fun htime => by
          rw [hevent, ok.inTime (hstage ▸ htime), ite_self] }
  · cases h

/-- The handler goes on to cancel the revalidations, and nothing else changes. -/
theorem ok_cancelRevalidations (hcounted : s.activeRequests = s.inFlight)
    (hdown : s.shuttingDown = true) (hwoken : s.activeRequests = 0 → s.drainEvent = true)
    (hdrained : s.drainEvent = true → s.Drained) {timedOut : Bool}
    (hevent : timedOut = false → s.drainEvent = true) : (s.cancelRevalidations timedOut).Ok := by
  have hstage : ∀ stage : ShutdownStage, stage ≠ .notCalled →
      (stage.inTime = true → s.drainEvent = true) → Ok { s with stage } := fun stage hne htime =>
    { counted := hcounted
      opened := by simp [hdown, hne]
      unused := fun h => by rw [hdown] at h; cases h
      woken := fun _ => hwoken
      drained := fun _ => hdrained
      inTime := htime }
  unfold cancelRevalidations
  split
  · exact hstage _ (by simp) fun h => hevent (by simpa [ShutdownStage.inTime] using h)
  · exact hstage _ (by simp) fun h => hevent (by simpa [ShutdownStage.inTime] using h)

theorem ok_onShutdown (ok : s.Ok) (hopen : s.stage = .notCalled) : s.onShutdown.Ok := by
  have hset : s.drainEvent = true := ok.unused (ok.opened.mpr hopen)
  have hcounted := ok.counted
  unfold onShutdown
  dsimp only
  split
  · rename_i hactive
    exact
      { counted := ok.counted
        opened := by simp
        unused := fun h => by cases h
        woken := fun _ hzero => absurd hactive (by rw [show s.activeRequests = 0 from hzero]; decide)
        drained := fun _ h => by cases h
        inTime := fun h => by cases h }
  · rename_i hactive
    -- nobody is in flight, so there is nothing to wait for
    have hnone : s.inFlight = 0 := by omega
    exact ok_cancelRevalidations (s := { s with shuttingDown := true }) ok.counted rfl
      (fun _ => hset) (fun _ => drained_of_inFlight hnone) fun _ => hset

/-- A handler that has been called has closed the gate. -/
theorem Ok.closed (ok : s.Ok) (hstage : s.stage ≠ .notCalled) : s.shuttingDown = true := by
  cases hdown : s.shuttingDown with
  | true => rfl
  | false => exact absurd (ok.opened.mp hdown) hstage

/-- The tasks and a later stage of the handler may change, and nothing else. -/
theorem ok_with (ok : s.Ok) (tasks : Nat) {stage : ShutdownStage}
    (hstage : stage = .notCalled ↔ s.stage = .notCalled)
    (htime : stage.inTime = true → s.stage.inTime = true) :
    Ok { s with revalidationTasks := tasks, stage } where
  counted := ok.counted
  opened := ok.opened.trans hstage.symm
  unused := ok.unused
  woken := ok.woken
  drained := ok.drained
  inTime := fun h => ok.inTime (htime h)

/-- What a step can do. -/
inductive Step (s : EdgeApp) : Action → EdgeApp → Prop where
  | requested {path : String} : Step s (.request path) (s.gate path)
  | finished {i : Nat} {raised : Bool} {s' : EdgeApp} (h : s.leave i raised = some s') :
      Step s (.finish i raised) s'
  | revalidating : Step s .revalidate { s with revalidationTasks := s.revalidationTasks + 1 }
  | revalidated (htasks : 0 < s.revalidationTasks) :
      Step s .revalidated { s with revalidationTasks := s.revalidationTasks - 1 }
  | called (hstage : s.stage = .notCalled) : Step s .shutdown s.onShutdown
  | woken (hstage : s.stage = .draining) (hset : s.drainEvent = true) :
      Step s .drained (s.cancelRevalidations false)
  | timedOut (hstage : s.stage = .draining) : Step s .timeout (s.cancelRevalidations true)
  | gathered {timedOut : Bool} (hstage : s.stage = .cancelled timedOut) :
      Step s .gathered { s with revalidationTasks := 0, stage := .closing timedOut }
  | closed {timedOut : Bool} (hstage : s.stage = .closing timedOut) :
      Step s .closed { s with stage := .done timedOut }

theorem step_cases (hstep : s.step a = some s') : Step s a s' := by
  cases a with
  | request path =>
      cases hstep
      exact .requested
  | finish i raised => exact .finished hstep
  | revalidate =>
      cases hstep
      exact .revalidating
  | revalidated =>
      simp only [step] at hstep
      split at hstep
      · rename_i htasks
        cases hstep
        exact .revalidated htasks
      · cases hstep
  | shutdown =>
      simp only [step] at hstep
      split at hstep
      · rename_i hstage
        cases hstep
        exact .called hstage
      · cases hstep
  | drained =>
      simp only [step] at hstep
      split at hstep
      · rename_i hready
        cases hstep
        exact .woken hready.1 hready.2
      · cases hstep
  | timeout =>
      simp only [step] at hstep
      split at hstep
      · rename_i hstage
        cases hstep
        exact .timedOut hstage
      · cases hstep
  | gathered =>
      simp only [step] at hstep
      split at hstep
      · rename_i timedOut hstage
        cases hstep
        exact .gathered hstage
      · cases hstep
  | closed =>
      simp only [step] at hstep
      split at hstep
      · rename_i timedOut hstage
        cases hstep
        exact .closed hstage
      · cases hstep

theorem ok_step (s : EdgeApp) (a : Action) (s' : EdgeApp) (ok : s.Ok)
    (hstep : s.step a = some s') : s'.Ok := by
  cases step_cases hstep with
  | requested => exact ok_gate ok _
  | finished h => exact ok_leave ok h
  | revalidating | revalidated => exact ok_with ok _ Iff.rfl id
  | called hstage => exact ok_onShutdown ok hstage
  | woken hstage hset =>
      have hdown := ok.closed (by rw [hstage]; simp)
      exact ok_cancelRevalidations ok.counted hdown (ok.woken hdown) (ok.drained hdown)
        fun _ => hset
  | timedOut hstage =>
      have hdown := ok.closed (by rw [hstage]; simp)
      exact ok_cancelRevalidations ok.counted hdown (ok.woken hdown) (ok.drained hdown)
        fun h => by cases h
  | gathered hstage => exact ok_with ok 0 (by simp [hstage]) (by rw [hstage]; exact id)
  | closed hstage => exact ok_with ok s.revalidationTasks (by simp [hstage]) (by rw [hstage]; exact id)

/-! ### The graceful drain -/

/-- What is to hold of every state of the application. -/
structure Graceful (s : EdgeApp) : Prop where
  counted : s.activeRequests = s.inFlight ∧ 0 ≤ s.activeRequests
  woken : s.shuttingDown = true → s.activeRequests = 0 → s.drainEvent = true
  /-- The handler has cancelled the revalidations, perhaps closed the client, and its wait
  did not time out. -/
  drained : s.stage.inTime = true → s.Drained

/-- Once the shutdown has begun, a step puts no request in flight but a health check. -/
def AdmitsOnlyHealth (s : EdgeApp) (a : Action) : Prop :=
  ∀ s' : EdgeApp, s.step a = some s' → s.shuttingDown = true →
    ∀ (i : Nat) (r : GateRequest), s'.requests[i]? = some r → r.passage = .inFlight →
      s.requests[i]? = some r ∨ r.path = "/health"

theorem Ok.graceful (ok : s.Ok) : s.Graceful where
  counted := ⟨ok.counted, ok.counted ▸ Int.natCast_nonneg _⟩
  woken := ok.woken
  drained := fun htime => by
    have hstage : s.stage ≠ .notCalled := fun h => by rw [h] at htime; cases htime
    exact ok.drained (ok.closed hstage) (ok.inTime htime)

/-- What the gate appends in a shutdown is a rejected request or a health check. -/
theorem admitsOnlyHealth_gate (hdown : s.shuttingDown = true) (path : String) {i : Nat}
    {r : GateRequest} (hr : (s.gate path).requests[i]? = some r) (hpassage : r.passage = .inFlight) :
    s.requests[i]? = some r ∨ r.path = "/health" := by
  have happend : ∀ new : GateRequest, (new.passage = .inFlight → new.path = "/health") →
      (s.requests ++ [new])[i]? = some r → s.requests[i]? = some r ∨ r.path = "/health" := by
    intro new hnew hget
    exact Slots.forall_append
      (P := fun j r => r.passage = .inFlight → s.requests[j]? = some r ∨ r.path = "/health")
      (fun _ _ hold _ => .inl hold) (fun hc => .inr (hnew hc)) i r hget hpassage
  unfold gate at hr
  split at hr
  · exact happend ⟨path, .rejected⟩ (fun hc => by cases hc) hr
  · rename_i hopen
    refine happend ⟨path, .inFlight⟩ (fun _ => ?_) hr
    by_contra hpath
    exact hopen ⟨hdown, hpath⟩

/-- A request that ends is no longer in flight, and the others are as before. -/
theorem admitsOnlyHealth_leave {j : Nat} {raised : Bool} (h : s.leave j raised = some s') {i : Nat}
    {r : GateRequest} (hr : s'.requests[i]? = some r) (hpassage : r.passage = .inFlight) :
    s.requests[i]? = some r := by
  unfold leave at h
  split at h
  · rename_i path hj
    cases h
    exact Slots.forall_modify (P := fun k r => r.passage = .inFlight → s.requests[k]? = some r)
      (fun _ _ hold _ => hold) hj (fun hc => by cases hc) i r hr hpassage
  · cases h

theorem requests_cancelRevalidations (timedOut : Bool) :
    (s.cancelRevalidations timedOut).requests = s.requests := by
  unfold cancelRevalidations
  split <;> rfl

theorem requests_onShutdown : s.onShutdown.requests = s.requests := by
  simp only [onShutdown]
  split
  · rfl
  · exact requests_cancelRevalidations false

theorem admitsOnlyHealth (s : EdgeApp) (a : Action) : s.AdmitsOnlyHealth a := by
  intro s' hstep hdown i r hr hpassage
  cases step_cases hstep with
  | requested => exact admitsOnlyHealth_gate hdown _ hr hpassage
  | finished h => exact .inl (admitsOnlyHealth_leave h hr hpassage)
  | revalidating | revalidated | gathered | closed => exact .inl hr
  | called =>
      rw [requests_onShutdown] at hr
      exact .inl hr
  | woken | timedOut =>
      rw [requests_cancelRevalidations] at hr
      exact .inl hr

/--
**The drain is graceful.**  In every run of requests, their ends and the shutdown, however
interleaved: the count is the number of requests in flight; the event is set whenever the
count is zero in a shutdown; and unless the wait timed out, nothing but health checks is in
flight from the moment the revalidations are cancelled on.  And no step of the shutdown
admits any other request.
-/
theorem graceful_drain (p : List Action) :
    Lts.Always step Graceful {} p ∧ Lts.EachStep step AdmitsOnlyHealth {} p := by
  constructor
  · exact (Lts.always_of_guarded (C := fun _ _ => True)
      (fun s a s' ok _ hstep => ok_step s a s' ok hstep) p ok_start
      (Lts.eachStep_of_forall fun _ _ => trivial)).mono fun s ok => ok.graceful
  · exact Lts.eachStep_of_invariant (I := fun _ => True) (fun _ _ _ _ _ => trivial)
      (fun s a _ _ _ => admitsOnlyHealth s a) p trivial

end EdgeApp

end Cdn

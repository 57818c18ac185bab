/-
The service coalesces its calls by the leader/follower protocol.

`flight` forgets everything of an edge but the in-flight table, the events and who
leads or waits, and `steps_of_move` shows that each move of the edge is a few moves of
the protocol: a call that leads, joins, leaves or finishes, or one the protocol does
not see.  So the protocol's invariant holds in every reachable state.
-/
import Cdn.Proofs.Keys
import Cdn.Proofs.Moves
import Cdn.Lib.SingleFlight

namespace Cdn

open SingleFlight (Position Flight Step Steps)

variable {β : Type} {S : Setup β}

/-! ### The reading -/

/-- Where a task stands in the protocol. -/
def Task.position (τ : Task β) : Position String Nat :=
  match τ.phase with
  | .waiting event => .waiting event
  | .fetching (.leader event) _ => .leading τ.call.key event
  | _ => .away

/-- The same by number; a number no task has yet is away. -/
def positionAt (tasks : List (Task β)) (t : Nat) : Position String Nat :=
  match tasks[t]? with
  | some τ => τ.position
  | none => .away

theorem positionAt_length (tasks : List (Task β)) : positionAt tasks tasks.length = .away := by
  simp [positionAt]

theorem positionAt_of_get {tasks : List (Task β)} {t : Nat} {τ : Task β}
    (h : tasks[t]? = some τ) : positionAt tasks t = τ.position := by
  simp [positionAt, h]

theorem positionAt_append (tasks : List (Task β)) (τ : Task β) :
    positionAt (tasks ++ [τ]) = Function.update (positionAt tasks) tasks.length τ.position := by
  funext t
  rcases lt_trichotomy t tasks.length with h | h | h
  · rw [Function.update_of_ne (by omega)]
    simp [positionAt, List.getElem?_append_left h]
  · subst h
    simp [positionAt]
  · rw [Function.update_of_ne (by omega)]
    simp only [positionAt]
    rw [List.getElem?_eq_none (by simp; omega), List.getElem?_eq_none (by omega)]

theorem positionAt_modify {tasks : List (Task β)} {t : Nat} {τ : Task β}
    (h : tasks[t]? = some τ) (f : Task β → Task β) :
    positionAt (tasks.modify t f) = Function.update (positionAt tasks) t (f τ).position := by
  funext u
  by_cases hu : u = t
  · subst hu
    simp [positionAt, h]
  · rw [Function.update_of_ne hu]
    simp [positionAt, List.getElem?_modify_ne _ _ (Ne.symm hu)]

/-- A call that has ended is away. -/
@[simp] theorem position_endPhase (role : Role) (call call' : Call β)
    (result : Except Exn (Reply β)) :
    Task.position ⟨call', Edge.endPhase role call result⟩ = .away := by
  unfold Edge.endPhase
  split <;> rfl

/-- What the protocol sees of an edge. -/
def Edge.flight (s : Edge β) : Flight String Nat Nat where
  table := s.inflight.get?
  known := fun e => e < s.events.length
  fired := fun e => s.events[e]? = some true
  pos := positionAt s.tasks

namespace Edge

variable {s m : Edge β}

theorem flight_congr (hinflight : m.inflight = s.inflight) (hevents : m.events = s.events)
    (hpos : positionAt m.tasks = positionAt s.tasks) : m.flight = s.flight := by
  simp [flight, hinflight, hevents, hpos]

/-- A new task that is away is not seen. -/
theorem flight_append {τ : Task β} (hinflight : m.inflight = s.inflight)
    (hevents : m.events = s.events) (htasks : m.tasks = s.tasks ++ [τ])
    (haway : τ.position = .away) : m.flight = s.flight := by
  refine flight_congr hinflight hevents ?_
  rw [htasks, positionAt_append, haway, ← positionAt_length s.tasks, Function.update_eq_self]

/-- A task that stays where it is in the protocol is not seen to move. -/
theorem flight_modify {t : Nat} {τ : Task β} {f : Task β → Task β} (ht : s.tasks[t]? = some τ)
    (hinflight : m.inflight = s.inflight) (hevents : m.events = s.events)
    (htasks : m.tasks = s.tasks.modify t f) (hstay : (f τ).position = τ.position) :
    m.flight = s.flight := by
  refine flight_congr hinflight hevents ?_
  rw [htasks, positionAt_modify ht, hstay, ← positionAt_of_get ht, Function.update_eq_self]

/-- A waiting task that goes away leaves. -/
theorem leave_of_tasks {t : Nat} {call : Call β} {event : Nat} {f : Task β → Task β}
    (ht : s.tasks[t]? = some ⟨call, .waiting event⟩) (hinflight : m.inflight = s.inflight)
    (hevents : m.events = s.events) (htasks : m.tasks = s.tasks.modify t f)
    (haway : (f ⟨call, .waiting event⟩).position = .away) : Step s.flight m.flight := by
  have hleave : m.flight = s.flight.leave t := by
    simp only [flight, Flight.leave, hinflight, hevents, htasks, positionAt_modify ht, haway]
  rw [hleave]
  exact Step.leave t event (positionAt_of_get ht)

/-- A call that registers leads. -/
theorem lead_of_tasks {call : Call β} {τ : Task β} (hfree : s.inflight.get? call.key = none)
    (hinflight : m.inflight = s.inflight.set call.key s.events.length)
    (hevents : m.events = s.events ++ [false]) (htasks : m.tasks = s.tasks ++ [τ])
    (hlead : τ.position = .leading call.key s.events.length) : Step s.flight m.flight := by
  have heq : m.flight = s.flight.lead s.tasks.length call.key s.events.length := by
    refine SingleFlight.Flight.ext ?_ ?_ ?_ ?_
    · funext k
      simp [flight, hinflight, Function.update_apply]
    · funext e
      simp only [flight, hevents, SingleFlight.lead_known, List.length_append,
        List.length_singleton, eq_iff_iff]
      omega
    · funext e
      simp only [flight, hevents, SingleFlight.lead_fired, eq_iff_iff]
      rcases Nat.lt_or_ge e s.events.length with h | h
      · rw [List.getElem?_append_left h]
      · rw [List.getElem?_append_right h, List.getElem?_eq_none h]
        cases he : e - s.events.length <;> simp
    · simp only [flight, htasks, positionAt_append, hlead, SingleFlight.lead_pos]
  rw [heq]
  exact Step.lead _ _ _ (positionAt_length s.tasks) hfree (Nat.lt_irrefl _)

/-- A call that registers and goes out to the origin leads. -/
theorem lead_of_register {call : Call β} {f : Task β → Task β}
    (hfree : s.inflight.get? call.key = none)
    (hinflight : m.inflight = s.inflight.set call.key s.events.length)
    (hevents : m.events = s.events ++ [false])
    (htasks : m.tasks = (s.tasks ++ [Task.mk call .running]).modify s.tasks.length f)
    (hlead : (f ⟨call, .running⟩).position = .leading call.key s.events.length) :
    Step s.flight m.flight :=
  lead_of_tasks hfree hinflight hevents (by rw [htasks, Slots.modify_append_length]) hlead

/-- A leader that concludes finishes. -/
theorem finish_of_tasks {t : Nat} {call : Call β} {τ : Task β} {event : Nat}
    {f : Task β → Task β} (ht : s.tasks[t]? = some τ)
    (hlead : τ.position = .leading call.key event) (hknown : event < s.events.length)
    (hinflight : m.inflight = s.inflight.erase call.key)
    (hevents : m.events = s.events.set event true) (htasks : m.tasks = s.tasks.modify t f)
    (haway : (f τ).position = .away) : Step s.flight m.flight := by
  have heq : m.flight = s.flight.finish t call.key event := by
    refine SingleFlight.Flight.ext ?_ ?_ ?_ ?_
    · funext k
      simp [flight, hinflight, Function.update_apply]
    · simp [flight, hevents]
    · funext e
      simp only [flight, hevents, SingleFlight.finish_fired, eq_iff_iff, List.getElem?_set]
      by_cases he : event = e
      · subst he
        simp [hknown]
      · simp [he, Ne.symm he]
    · simp only [flight, htasks, positionAt_modify ht, haway, SingleFlight.finish_pos]
  rw [heq]
  exact Step.finish t call.key event ((positionAt_of_get ht).trans hlead)

/-- What the protocol does not see takes no moves. -/
theorem steps_of_eq (h : m.flight = s.flight) : Steps s.flight m.flight :=
  h ▸ Relation.ReflTransGen.refl

/-- However a fetch ends, a leader finishes and nobody else is seen to move. -/
theorem steps_conclude {s' : Edge β} {t : Nat} {call : Call β} {role : Role}
    {outcome : Option (FetchOutcome β)} {result : Except Exn (Reply β)}
    (ok : SingleFlight.Ok s.flight) (ht : s.tasks[t]? = some ⟨call, .fetching role outcome⟩)
    (hinflight : s'.inflight = s.inflight) (hevents : s'.events = s.events)
    (htasks : s'.tasks = s.tasks) :
    Steps s.flight (s'.conclude t role call result).flight := by
  have htasks' : (s'.conclude t role call result).tasks =
      s.tasks.modify t fun τ => { τ with phase := endPhase role call result } := by
    rw [conclude_tasks, htasks]
  cases role with
  | leader event =>
      have hlead : Task.position ⟨call, .fetching (.leader event) outcome⟩ =
          .leading call.key event := rfl
      have hknown := (ok.listed t call.key event ((positionAt_of_get ht).trans hlead)).2.1
      refine Relation.ReflTransGen.single (finish_of_tasks ht hlead hknown ?_ ?_ htasks' (by simp))
      · show s'.inflight.erase call.key = _
        rw [hinflight]
      · show s'.events.set event true = _
        rw [hevents]
  | follower =>
      exact steps_of_eq (flight_modify (m := s'.conclude t .follower call result) ht hinflight
        hevents htasks' (position_endPhase ..))
  | background =>
      exact steps_of_eq (flight_modify (m := s'.conclude t .background call result) ht hinflight
        hevents htasks' (position_endPhase ..))

/-- **The edge refines the protocol.** -/
theorem steps_of_move {a : Action β} (ok : SingleFlight.Ok s.flight) (h : Move S s a m) :
    Steps s.flight m.flight := by
  cases h with
  | fresh hcached hfresh => exact steps_of_eq (flight_append rfl rfl rfl rfl)
  | stale hcached hservable hlisted => exact steps_of_eq (flight_append rfl rfl rfl rfl)
  | @scheduled path rh e hcached hservable hlisted =>
      let served := (s.read (keyOf S path rh)).push (arrival S s path rh) (.returned (.stale e))
      have hserved : served.flight = s.flight := flight_append rfl rfl rfl rfl
      have hscheduled : (served.schedule (arrival S s path rh)).flight = served.flight :=
        flight_append rfl rfl rfl rfl
      exact steps_of_eq (hscheduled.trans hserved)
  | turnedAway hmiss hopen => exact steps_of_eq (flight_append rfl rfl rfl rfl)
  | @joined path rh event hmiss hopen hlisted =>
      have hjoin : flight ((s.read (keyOf S path rh)).push (arrival S s path rh)
          (.waiting event)) = s.flight.join s.tasks.length event := by
        simp only [flight, Flight.join, push_inflight, read_inflight, push_events, read_events,
          push_tasks, read_tasks, positionAt_append]
        rfl
      rw [hjoin]
      exact Relation.ReflTransGen.single
        (Step.join _ (keyOf S path rh) event (positionAt_length s.tasks) hlisted)
  | led hmiss hopen hfree hallow =>
      exact Relation.ReflTransGen.single (lead_of_register hfree rfl rfl rfl (by rfl))
  | @refused path rh x hmiss hopen hfree hrefuse =>
      -- the event is made, filed, set and taken out within the segment
      let led := ((s.read (keyOf S path rh)).register (arrival S s path rh)).setPhase
        s.tasks.length (.fetching (.leader s.events.length) none)
      have hlead : Step s.flight led.flight := lead_of_register hfree rfl rfl rfl (by rfl)
      have hled : led.tasks[s.tasks.length]? =
          some ⟨arrival S s path rh, .fetching (.leader s.events.length) none⟩ := by
        simp [led, Slots.modify_append_length]
      have heq : (((s.read (keyOf S path rh)).register (arrival S s path rh)).conclude
          s.tasks.length (.leader s.events.length) (arrival S s path rh) (.error x)).flight =
          (led.conclude s.tasks.length (.leader s.events.length) (arrival S s path rh)
            (.error x)).flight :=
        flight_congr rfl rfl (by simp [led, Slots.modify_append_length])
      rw [heq]
      exact (Relation.ReflTransGen.single hlead).trans
        (steps_conclude (SingleFlight.ok_step ok hlead) hled rfl rfl rfl)
  | @answered t call role outcome ht =>
      exact steps_of_eq (flight_modify ht rfl rfl rfl (by cases role <;> rfl))
  | revalidating ht hallow => exact steps_of_eq (flight_modify ht rfl rfl rfl rfl)
  | revalidationRefused ht hrefuse =>
      exact steps_of_eq (flight_modify ht rfl rfl rfl (position_endPhase ..))
  | coalesced ht hset hfound =>
      exact Relation.ReflTransGen.single (leave_of_tasks ht rfl rfl rfl rfl)
  | retried ht hset habsent hallow =>
      exact Relation.ReflTransGen.single (leave_of_tasks ht rfl rfl rfl rfl)
  | retryRefused ht hset habsent hrefuse =>
      exact Relation.ReflTransGen.single (leave_of_tasks ht rfl rfl rfl (position_endPhase ..))
  | settled ht hsettle => exact steps_conclude ok ht (by simp) (by simp) (by simp)
  | unsettled ht hsettle => exact steps_conclude ok ht rfl rfl rfl
  | failed ht => exact steps_conclude ok ht rfl rfl rfl
  | cancelledScheduled ht => exact steps_of_eq (flight_modify ht rfl rfl rfl rfl)
  | cancelledWaiting ht => exact Relation.ReflTransGen.single (leave_of_tasks ht rfl rfl rfl rfl)
  | cancelledFetching ht => exact steps_conclude ok ht rfl rfl rfl
  | purged => exact Relation.ReflTransGen.refl
  | ticked hmono => exact Relation.ReflTransGen.refl
  | reset => exact Relation.ReflTransGen.refl

/-! ### No orphaned waiter -/

theorem ok_start (store : LruCacheStore β) (breaker : CircuitBreaker) (wall mono : Time) :
    SingleFlight.Ok (start store breaker wall mono).flight :=
  SingleFlight.ok_of_away (fun _ => rfl) (fun _ => rfl) fun e h => by cases h

theorem ok_step (s : Edge β) (a : Action β) (s' : Edge β) (ok : SingleFlight.Ok s.flight)
    (hstep : s.step S a = some s') : SingleFlight.Ok s'.flight := by
  obtain ⟨m, hmove, rfl⟩ := move_of_step hstep
  show SingleFlight.Ok m.flight
  exact SingleFlight.ok_steps ok (steps_of_move ok hmove)

/-- **Every run of the edge is a run of the protocol.** -/
theorem steps_of_run {store : LruCacheStore β} {breaker : CircuitBreaker} {wall mono : Time}
    {p : List (Action β)} {s : Edge β}
    (hrun : Lts.run (step S) (start store breaker wall mono) p = some s) :
    Steps (start store breaker wall mono).flight s.flight := by
  refine Lts.run_refines (I := fun s : Edge β => SingleFlight.Ok s.flight) ok_step ?_ p
    (ok_start store breaker wall mono) hrun
  intro s a s' ok hstep
  obtain ⟨m, hmove, rfl⟩ := move_of_step hstep
  show Steps s.flight m.flight
  exact steps_of_move ok hmove

/-- So the protocol's invariant holds in every state a run reaches. -/
theorem ok_of_run {store : LruCacheStore β} {breaker : CircuitBreaker} {wall mono : Time}
    {p : List (Action β)} {s : Edge β}
    (hrun : Lts.run (step S) (start store breaker wall mono) p = some s) :
    SingleFlight.Ok s.flight :=
  SingleFlight.ok_steps (ok_start store breaker wall mono) (steps_of_run hrun)

/-- Task `t` leads key `k` with the event `e`: it is at the origin and has not ended. -/
def Leads (s : Edge β) (t : Nat) (k : String) (e : Nat) : Prop :=
  ∃ call outcome, s.tasks[t]? = some ⟨call, .fetching (.leader e) outcome⟩ ∧ call.key = k

/-- Task `t` is a call that waits on the event `e`. -/
def Waits (s : Edge β) (t : Nat) (e : Nat) : Prop :=
  ∃ call, s.tasks[t]? = some ⟨call, .waiting e⟩

theorem leads_iff {t : Nat} {k : String} {e : Nat} :
    s.Leads t k e ↔ s.flight.pos t = .leading k e := by
  constructor
  · rintro ⟨call, outcome, ht, rfl⟩
    exact positionAt_of_get ht
  · intro h
    replace h : positionAt s.tasks t = .leading k e := h
    unfold positionAt at h
    split at h
    · rename_i τ ht
      obtain ⟨call, phase⟩ := τ
      unfold Task.position at h
      split at h
      · cases h
      · rename_i hphase
        cases h
        cases hphase
        exact ⟨call, _, ht, rfl⟩
      · cases h
    · cases h

theorem Waits.pos {t : Nat} {e : Nat} (h : s.Waits t e) : s.flight.pos t = .waiting e := by
  obtain ⟨call, ht⟩ := h
  exact positionAt_of_get ht

/-- A move after which a leader no longer leads has taken out its event and no other. -/
theorem Move.leader_done {a : Action β} (h : Move S s a m)
    {t : Nat} {k : String} {e : Nat} (hlead : s.Leads t k e) (hdone : ¬ m.Leads t k e) :
    (∀ l, m.inflight.get? l = if l = k then none else s.inflight.get? l) ∧
      m.events = s.events.set e true := by
  obtain ⟨call, outcome, ht, rfl⟩ := hlead
  have htask : a.task? = some t := by
    by_contra ha
    exact hdone ⟨call, outcome, h.frame ha ht, rfl⟩
  cases h with
  | fresh => cases htask
  | stale => cases htask
  | scheduled => cases htask
  | turnedAway => cases htask
  | joined => cases htask
  | led => cases htask
  | refused => cases htask
  | purged => cases htask
  | ticked => cases htask
  | reset => cases htask
  | @answered u call' role outcome' hu =>
      cases htask
      rw [ht] at hu
      cases hu
      exact absurd ⟨call, some outcome', by simp [ht], rfl⟩ hdone
  | revalidating hu hallow => cases htask; rw [ht] at hu; cases hu
  | revalidationRefused hu hrefuse => cases htask; rw [ht] at hu; cases hu
  | coalesced hu hset hfound => cases htask; rw [ht] at hu; cases hu
  | retried hu hset habsent hallow => cases htask; rw [ht] at hu; cases hu
  | retryRefused hu hset habsent hrefuse => cases htask; rw [ht] at hu; cases hu
  | cancelledScheduled hu => cases htask; rw [ht] at hu; cases hu
  | cancelledWaiting hu => cases htask; rw [ht] at hu; cases hu
  | settled hu hsettle =>
      cases htask
      rw [ht] at hu
      cases hu
      exact ⟨fun l => by simp [conclude], by simp [conclude]⟩
  | unsettled hu hsettle =>
      cases htask
      rw [ht] at hu
      cases hu
      exact ⟨fun l => by simp [conclude], by simp [conclude]⟩
  | failed hu =>
      cases htask
      rw [ht] at hu
      cases hu
      exact ⟨fun l => by simp [conclude], by simp [conclude]⟩
  | cancelledFetching hu =>
      cases htask
      rw [ht] at hu
      cases hu
      exact ⟨fun l => by simp [conclude], by simp [conclude]⟩

/-- What coalescing promises of a state. -/
structure NoOrphans (S : Setup β) (s : Edge β) : Prop where
  /-- An event in the table is not set, and exactly one live call leads with it. -/
  owned : ∀ k e, s.inflight.get? k = some e →
    s.events[e]? = some false ∧ ∃! t, s.Leads t k e
  /-- A key has one leader. -/
  unique : ∀ t u k e e', s.Leads t k e → s.Leads u k e' → t = u
  /-- A leader that ends sets its own event and takes it, and no other, out of the table. -/
  done : ∀ a s' t k e, s.Leads t k e → s.step S a = some s' → ¬ s'.Leads t k e →
    s.inflight.get? k = some e ∧
      (∀ l, s'.inflight.get? l = if l = k then none else s.inflight.get? l) ∧
      s'.events = s.events.set e true
  /-- A call waits on an event that is set or that a live call leads with. -/
  served : ∀ t e, s.Waits t e → s.events[e]? = some true ∨ ∃ u k, s.Leads u k e
  /-- Without a leader the table is empty and every waiting call can go on. -/
  quiet : (∀ t k e, ¬ s.Leads t k e) →
    s.inflight = ∅ ∧ ∀ t e, s.Waits t e → (s.step S (.resume t)).isSome = true

/-- **No orphaned waiter.**  Whatever the order of arrivals, answers, resumptions and
cancellations, and however each fetch ends, the table, the events and the calls agree. -/
theorem noOrphans_of_run (store : LruCacheStore β) (breaker : CircuitBreaker) (wall mono : Time)
    (p : List (Action β)) (s : Edge β)
    (hrun : Lts.run (step S) (start store breaker wall mono) p = some s) : NoOrphans S s := by
  have ok := ok_of_run hrun
  have hwait : ∀ t e, s.Waits t e → s.events[e]? = some true ∨ ∃ u k, s.Leads u k e := by
    intro t e h
    rcases ok.served t e h.pos with hfired | ⟨u, k, hu⟩
    · exact Or.inl hfired
    · exact Or.inr ⟨u, k, leads_iff.mpr hu⟩
  refine ⟨?_, ?_, ?_, hwait, ?_⟩
  · intro k e h
    obtain ⟨t, ht⟩ := ok.owned k e h
    obtain ⟨-, hknown, hunset⟩ := ok.listed t k e ht
    refine ⟨?_, t, leads_iff.mpr ht, fun u hu => ok.unique u t k k e (leads_iff.mp hu) ht⟩
    have hget : s.events[e]? = some s.events[e] := List.getElem?_eq_getElem hknown
    cases hvalue : s.events[e] with
    | false => rw [hget, hvalue]
    | true => exact absurd (by rw [hvalue] at hget; exact hget) hunset
  · intro t u k e e' ht hu
    exact ok.leader_unique (leads_iff.mp ht) (leads_iff.mp hu)
  · intro a s' t k e hlead hstep hdone
    obtain ⟨m, hmove, rfl⟩ := move_of_step hstep
    exact ⟨(ok.listed t k e (leads_iff.mp hlead)).1, hmove.leader_done hlead hdone⟩
  · intro hnone
    have hpos : ∀ t k e, s.flight.pos t ≠ .leading k e :=
      fun t k e h => hnone t k e (leads_iff.mpr h)
    refine ⟨Dict.eq_empty (ok.table_empty hpos), ?_⟩
    rintro t e ⟨call, ht⟩
    have hset : s.events[e]? = some true := ok.waiting_fired hpos (Waits.pos ⟨call, ht⟩)
    have hresume : s.resume S t = some (s.afterWait t call) := by simp [resume, ht, hset]
    simp [step, act, hresume]

/-- An edge that starts with nothing in its store. -/
def sampleStart : Edge Nat := start {} {} 0 0

/-- A leader, a waiter, and a leader that is cancelled. -/
def cancelledLeader : List (Action Nat) :=
  [.arrive "a" gzip, .arrive "a" gzip, .cancel 0, .arrive "a" gzip]

theorem noOrphans_cancelledLeader : ∃ s,
    Lts.run (step sampleSetup) sampleStart cancelledLeader = some s ∧ NoOrphans sampleSetup s := by
  have hrun : (Lts.run (step sampleSetup) sampleStart cancelledLeader).isSome = true := by
    decide +kernel
  exact ⟨_, Lts.run_last hrun, noOrphans_of_run _ _ _ _ _ _ (Lts.run_last hrun)⟩

end Edge

end Cdn

/-
The tasks a step puts in place.

An invariant of the form "every task is such and such" needs one thing of a step: that
the tasks it adds or moves on are.  `Placed` lists what such a task can be, with what
is known where the step puts it there, and `forall_placed` is the rule the invariants
use.
-/
import Cdn.Proofs.Store

namespace Cdn

variable {β : Type} {S : Setup β}

namespace Edge

/-- The call of a task that a step ends: of one that arrives, or of one that is there. -/
inductive Caller (S : Setup β) (s : Edge β) (a : Action β) (t : Nat) : Call β → Prop where
  | arrived {path : String} {rh : Option Headers} (ha : a = .arrive path rh)
      (hnew : s.tasks.length ≤ t) : Caller S s a t (s.arrival S path rh)
  | here {call : Call β} {phase : Phase β} (ht : s.tasks[t]? = some ⟨call, phase⟩) :
      Caller S s a t call

/-- A task as a step leaves it, by its number. -/
inductive Placed (S : Setup β) (s : Edge β) (a : Action β) : Nat → Task β → Prop where
  | fresh {t : Nat} {path : String} {rh : Option Headers} {e : CacheEntry β}
      (ha : a = .arrive path rh) (hnew : s.tasks.length ≤ t)
      (hcached : (s.arrival S path rh).cached = some e) (hfresh : e.isExpired s.wall = false) :
      Placed S s a t ⟨s.arrival S path rh, .returned (.fresh e)⟩
  | stale {t : Nat} {path : String} {rh : Option Headers} {e : CacheEntry β}
      (ha : a = .arrive path rh) (hnew : s.tasks.length ≤ t)
      (hcached : (s.arrival S path rh).cached = some e)
      (hservable : e.isStaleServable s.wall = true) :
      Placed S s a t ⟨s.arrival S path rh, .returned (.stale e)⟩
  | scheduled {t : Nat} {path : String} {rh : Option Headers} {e : CacheEntry β}
      (ha : a = .arrive path rh) (hnew : s.tasks.length ≤ t)
      (hcached : (s.arrival S path rh).cached = some e)
      (hservable : e.isStaleServable s.wall = true)
      (hlisted : s.inflight.contains (keyOf S path rh) = false) :
      Placed S s a t ⟨s.arrival S path rh, .scheduled⟩
  /-- Turned away by the open circuit, or refused as a leader. -/
  | rejected {t : Nat} {path : String} {rh : Option Headers} {reply : Reply β}
      (ha : a = .arrive path rh) (hnew : s.tasks.length ≤ t)
      (hmiss : (s.arrival S path rh).Missed s.wall)
      (hreply : reply = .ofOpen (s.arrival S path rh).cached ∨
        reply = .ofRejected (s.arrival S path rh).cached) :
      Placed S s a t ⟨s.arrival S path rh, .returned reply⟩
  | joined {t : Nat} {path : String} {rh : Option Headers} {event : Nat}
      (ha : a = .arrive path rh) (hnew : s.tasks.length ≤ t)
      (hmiss : (s.arrival S path rh).Missed s.wall)
      (hlisted : s.inflight.get? (keyOf S path rh) = some event) :
      Placed S s a t ⟨s.arrival S path rh, .waiting event⟩
  | led {t : Nat} {path : String} {rh : Option Headers} (ha : a = .arrive path rh)
      (hnew : s.tasks.length ≤ t) (hmiss : (s.arrival S path rh).Missed s.wall)
      (hfree : s.inflight.get? (keyOf S path rh) = none) :
      Placed S s a t ⟨s.arrival S path rh, .fetching (.leader s.events.length) none⟩
  | answered {t : Nat} {call : Call β} {role : Role} {outcome : FetchOutcome β}
      (ha : a = .answer t outcome) (ht : s.tasks[t]? = some ⟨call, .fetching role none⟩) :
      Placed S s a t ⟨call, .fetching role (some outcome)⟩
  /-- A background task that begins. -/
  | revalidating {t : Nat} {call : Call β} (ha : a = .resume t)
      (ht : s.tasks[t]? = some ⟨call, .scheduled⟩) :
      Placed S s a t ⟨call, .fetching .background none⟩
  /-- A waiter that goes out to the origin. -/
  | retried {t : Nat} {call : Call β} {event : Nat} (ha : a = .resume t)
      (ht : s.tasks[t]? = some ⟨call, .waiting event⟩)
      (habsent : s.cacheStore.store.get? call.key = none) :
      Placed S s a t ⟨call, .fetching .follower none⟩
  | coalesced {t : Nat} {call : Call β} {event : Nat} {e : CacheEntry β} (ha : a = .resume t)
      (ht : s.tasks[t]? = some ⟨call, .waiting event⟩) (hset : s.events[event]? = some true)
      (hfound : s.cacheStore.store.get? call.key = some e) :
      Placed S s a t ⟨call, .returned (.coalesced (e.touch s.wall))⟩
  | fetched {t : Nat} {call : Call β} {role : Role} {r : OriginResponse β}
      {filed : Option (String × CacheEntry β)} {response : Response β} (ha : a = .resume t)
      (ht : s.tasks[t]? = some ⟨call, .fetching role (some (.answered r))⟩)
      (hsettle : settle S call r s.wall = .ok (filed, response)) :
      Placed S s a t ⟨call, .returned (.fetched response)⟩
  /-- A waiter the breaker refuses. -/
  | retryRefused {t : Nat} {call : Call β} {event : Nat} {x : Exn} (ha : a = .resume t)
      (ht : s.tasks[t]? = some ⟨call, .waiting event⟩) (hset : s.events[event]? = some true)
      (habsent : s.cacheStore.store.get? call.key = none)
      (hrefuse : s.circuitBreaker.aenter s.mono = .error x) : Placed S s a t ⟨call, .raised x⟩
  /-- Any other end of a task without a response. -/
  | ended {t : Nat} {call : Call β} {phase : Phase β} (hcall : Caller S s a t call)
      (hphase : phase = .finished ∨ ∃ x, phase = .raised x ∧ ∀ y, x ≠ .circuitOpen y) :
      Placed S s a t ⟨call, phase⟩

/-- A leader that raises is answered or raises something the breaker did not. -/
theorem placed_error {s : Edge β} {a : Action β} {t : Nat} {role : Role} {call : Call β}
    {x : Exn} (hcall : Caller S s a t call) (hx : ∀ y, x = .circuitOpen y → role = .background) :
    Placed S s a t ⟨call, endPhase role call (.error x)⟩ := by
  refine .ended hcall ?_
  cases role with
  | background => cases x <;> simp [endPhase]
  | leader event =>
      cases x with
      | circuitOpen y => cases hx y rfl
      | _ => simp [endPhase]
  | follower =>
      cases x with
      | circuitOpen y => cases hx y rfl
      | _ => simp [endPhase]

/-- **A task of the new state was there before or has been put there.** -/
theorem Move.placed {s m : Edge β} {a : Action β} (h : Move S s a m) :
    ∀ t τ, m.tasks[t]? = some τ → s.tasks[t]? = some τ ∨ Placed S s a t τ := by
  have hkeep : ∀ t τ, s.tasks[t]? = some τ → s.tasks[t]? = some τ ∨ Placed S s a t τ :=
    fun t τ hτ => Or.inl hτ
  have hadd : ∀ {τ : Task β}, Placed S s a s.tasks.length τ → ∀ t υ,
      (s.tasks ++ [τ])[t]? = some υ → s.tasks[t]? = some υ ∨ Placed S s a t υ :=
    fun hτ => Slots.forall_append hkeep (Or.inr hτ)
  have hmove : ∀ {u : Nat} {call : Call β} {phase phase' : Phase β},
      s.tasks[u]? = some ⟨call, phase⟩ → Placed S s a u ⟨call, phase'⟩ →
      ∀ t υ, (s.tasks.modify u fun τ => { τ with phase := phase' })[t]? = some υ →
        s.tasks[t]? = some υ ∨ Placed S s a t υ :=
    fun hu hτ => Slots.forall_modify (P := fun t υ => s.tasks[t]? = some υ ∨ Placed S s a t υ)
      hkeep hu (Or.inr hτ)
  cases h with
  | fresh hcached hfresh => exact hadd (.fresh rfl le_rfl hcached hfresh)
  | stale hcached hservable hlisted => exact hadd (.stale rfl le_rfl hcached hservable)
  | scheduled hcached hservable hlisted =>
      refine Slots.forall_append (hadd (.stale rfl le_rfl hcached hservable)) (Or.inr ?_)
      exact .scheduled rfl (by simp) hcached hservable hlisted
  | turnedAway hmiss hopen => exact hadd (.rejected rfl le_rfl hmiss (Or.inl rfl))
  | joined hmiss hopen hlisted => exact hadd (.joined rfl le_rfl hmiss hlisted)
  | led hmiss hopen hfree hallow =>
      rw [led_tasks]
      exact hadd (.led rfl le_rfl hmiss hfree)
  | @refused path rh x hmiss hopen hfree hrefuse =>
      rw [refused_tasks]
      refine hadd ?_
      cases x with
      | circuitOpen y => exact .rejected rfl le_rfl hmiss (Or.inr rfl)
      | _ => exact placed_error (.arrived rfl le_rfl) (by simp)
  | answered ht => exact hmove ht (.answered rfl ht)
  | revalidating ht hallow => exact hmove ht (.revalidating rfl ht)
  | revalidationRefused ht hrefuse => exact hmove ht (placed_error (.here ht) (by simp))
  | coalesced ht hset hfound => exact hmove ht (.coalesced rfl ht hset hfound)
  | retried ht hset habsent hallow => exact hmove ht (.retried rfl ht habsent)
  | retryRefused ht hset habsent hrefuse =>
      exact hmove ht (.retryRefused rfl ht hset habsent hrefuse)
  | @settled t call role r filed response ht hsettle =>
      rw [conclude_tasks, file_tasks]
      refine hmove ht ?_
      cases role with
      | leader event => exact .fetched rfl ht hsettle
      | follower => exact .fetched rfl ht hsettle
      | background => exact .ended (.here ht) (Or.inl rfl)
  | unsettled ht hsettle =>
      rw [conclude_tasks]
      refine hmove ht (placed_error (.here ht) fun y hy => ?_)
      rcases settle_error hsettle with hx | hx <;> rw [hx] at hy <;> cases hy
  | failed ht =>
      rw [conclude_tasks]
      exact hmove ht (placed_error (.here ht) (by simp))
  | cancelledScheduled ht => exact hmove ht (.ended (.here ht) (Or.inr ⟨_, rfl, by simp⟩))
  | cancelledWaiting ht => exact hmove ht (.ended (.here ht) (Or.inr ⟨_, rfl, by simp⟩))
  | cancelledFetching ht =>
      rw [conclude_tasks]
      exact hmove ht (placed_error (.here ht) (by simp))
  | purged => exact hkeep
  | ticked hmono => exact hkeep
  | reset => exact hkeep

/-- **What holds of every task and of every task put in place holds of every task after,**
for statements about a task and its number. -/
theorem forall_placedAt {s s' : Edge β} {a : Action β} {P : Nat → Task β → Prop}
    (hstep : s.step S a = some s') (hs : ∀ t τ, s.tasks[t]? = some τ → P t τ)
    (hplaced : ∀ t τ, Placed S s a t τ → P t τ) : ∀ t τ, s'.tasks[t]? = some τ → P t τ := by
  obtain ⟨m, hmove, rfl⟩ := move_of_step hstep
  intro t τ hτ
  rcases hmove.placed t τ hτ with hτ | hτ
  · exact hs t τ hτ
  · exact hplaced t τ hτ

/-- The same for statements about a task alone. -/
theorem forall_placed {s s' : Edge β} {a : Action β} {P : Task β → Prop}
    (hstep : s.step S a = some s') (hs : ∀ τ ∈ s.tasks, P τ)
    (hplaced : ∀ t τ, Placed S s a t τ → P τ) : ∀ τ ∈ s'.tasks, P τ := by
  intro τ hτ
  obtain ⟨t, ht⟩ := List.getElem?_of_mem hτ
  exact forall_placedAt (P := fun _ τ => P τ) hstep
    (fun t τ ht => hs τ (List.mem_of_getElem? ht)) hplaced t τ ht

/-- Only an answer of the origin gives a task an answer to go on with. -/
theorem Placed.of_answer {s : Edge β} {a : Action β} {t : Nat} {τ : Task β}
    (h : Placed S s a t τ) {r : OriginResponse β} (hr : τ.answer? = some r) :
    a = .answer t (.answered r) ∧ ∃ phase, s.tasks[t]? = some ⟨τ.call, phase⟩ := by
  cases h with
  | answered ha ht =>
      obtain ⟨role, hphase⟩ := Task.answer?_eq_some.mp hr
      cases hphase
      exact ⟨ha, _, ht⟩
  | ended hcall hphase => rcases hphase with rfl | ⟨x, rfl, -⟩ <;> cases hr
  | _ => cases hr

/-! ### Calls

A task keeps its call as long as there is the task, and only an arrival makes a new one.
-/

/-- The calls of an edge, in the order of their tasks. -/
def calls (s : Edge β) : List (Call β) := s.tasks.map (·.call)

theorem mem_calls {s : Edge β} {t : Nat} {call : Call β} {phase : Phase β}
    (h : s.tasks[t]? = some ⟨call, phase⟩) : call ∈ s.calls :=
  List.mem_map.mpr ⟨_, List.mem_of_getElem? h, rfl⟩

theorem calls_of_task {s : Edge β} {t : Nat} {call : Call β} {phase : Phase β}
    (h : s.tasks[t]? = some ⟨call, phase⟩) : s.calls[t]? = some call := by
  rw [calls, List.getElem?_map, h]
  rfl

section calls

variable (s : Edge β) (t : Nat) (role : Role) (call : Call β) (phase : Phase β) (key : String)
  (breaker : CircuitBreaker) (result : Except Exn (Reply β))

@[simp] theorem calls_push : (s.push call phase).calls = s.calls ++ [call] := by simp [calls]
@[simp] theorem calls_schedule : (s.schedule call).calls = s.calls ++ [call] := by simp [calls]
@[simp] theorem calls_register : (s.register call).calls = s.calls ++ [call] := by simp [calls]
@[simp] theorem calls_read : (s.read key).calls = s.calls := rfl

@[simp] theorem calls_setPhase : (s.setPhase t phase).calls = s.calls :=
  Slots.map_modify s.tasks t fun _ => rfl

@[simp] theorem calls_send : (s.send t role call breaker).calls = s.calls :=
  Slots.map_modify s.tasks t fun _ => rfl

@[simp] theorem calls_conclude : (s.conclude t role call result).calls = s.calls := by
  rw [calls, conclude_tasks]
  exact Slots.map_modify s.tasks t fun _ => rfl

@[simp] theorem calls_file (filed : Option (String × CacheEntry β)) :
    (s.file filed).calls = s.calls := by
  rw [calls, file_tasks, calls]

end calls

/-- A step keeps the calls there are, and adds none but an arrival's. -/
def Extends (S : Setup β) (s : Edge β) (a : Action β) (m : Edge β) : Prop :=
  ∃ new, m.calls = s.calls ++ new ∧
    ∀ call ∈ new, ∃ path rh, a = .arrive path rh ∧ call = s.arrival S path rh

theorem extends_of_eq {s m : Edge β} {a : Action β} (h : m.calls = s.calls) :
    Extends S s a m := ⟨[], by simp [h], by simp⟩

theorem extends_of_arrival {s m : Edge β} {path : String} {rh : Option Headers}
    (h : m.calls = s.calls ++ [s.arrival S path rh]) : Extends S s (.arrive path rh) m :=
  ⟨_, h, fun _ hcall => ⟨path, rh, rfl, List.mem_singleton.mp hcall⟩⟩

theorem extends_step {s s' : Edge β} {a : Action β} (hstep : s.step S a = some s') :
    Extends S s a s' := by
  obtain ⟨m, hmove, rfl⟩ := move_of_step hstep
  show Extends S s a m
  cases hmove with
  | fresh hcached hfresh => exact extends_of_arrival (by simp)
  | stale hcached hservable hlisted => exact extends_of_arrival (by simp)
  | @scheduled path rh e hcached hservable hlisted =>
      refine ⟨[s.arrival S path rh, s.arrival S path rh], by simp, fun call hcall => ?_⟩
      exact ⟨path, rh, rfl, by simpa using hcall⟩
  | turnedAway hmiss hopen => exact extends_of_arrival (by simp)
  | joined hmiss hopen hlisted => exact extends_of_arrival (by simp)
  | led hmiss hopen hfree hallow => exact extends_of_arrival (by simp)
  | refused hmiss hopen hfree hrefuse => exact extends_of_arrival (by simp)
  | answered ht => exact extends_of_eq (by simp)
  | revalidating ht hallow => exact extends_of_eq (by simp)
  | revalidationRefused ht hrefuse => exact extends_of_eq (by simp)
  | coalesced ht hset hfound => exact extends_of_eq (by simp)
  | retried ht hset habsent hallow => exact extends_of_eq (by simp)
  | retryRefused ht hset habsent hrefuse => exact extends_of_eq (by simp)
  | settled ht hsettle => exact extends_of_eq ((calls_conclude ..).trans (calls_file ..))
  | unsettled ht hsettle => exact extends_of_eq (calls_conclude ..)
  | failed ht => exact extends_of_eq (calls_conclude ..)
  | cancelledScheduled ht => exact extends_of_eq (by simp)
  | cancelledWaiting ht => exact extends_of_eq (by simp)
  | cancelledFetching ht => exact extends_of_eq (calls_conclude ..)
  | purged => exact extends_of_eq rfl
  | ticked hmono => exact extends_of_eq rfl
  | reset => exact extends_of_eq rfl

theorem Extends.mem {s m : Edge β} {a : Action β} (h : Extends S s a m) {call : Call β}
    (hcall : call ∈ s.calls) : call ∈ m.calls := by
  obtain ⟨new, hnew, -⟩ := h
  rw [hnew]
  exact List.mem_append_left _ hcall

/-- There are never fewer tasks than before. -/
theorem length_le_of_step {s s' : Edge β} {a : Action β} (hstep : s.step S a = some s') :
    s.tasks.length ≤ s'.tasks.length := by
  obtain ⟨new, hcalls, -⟩ := extends_step hstep
  have hlength := congrArg List.length hcalls
  simp only [calls, List.length_map, List.length_append] at hlength
  omega

theorem Extends.cases {s m : Edge β} {a : Action β} (h : Extends S s a m) {call : Call β}
    (hcall : call ∈ m.calls) :
    call ∈ s.calls ∨ ∃ path rh, a = .arrive path rh ∧ call = s.arrival S path rh := by
  obtain ⟨new, hnew, harrival⟩ := h
  rw [hnew] at hcall
  exact (List.mem_append.mp hcall).imp_right (harrival call)

/-- A call has the key of its request. -/
def Keyed (S : Setup β) (s : Edge β) : Prop :=
  ∀ call ∈ s.calls, call.key = keyOf S call.path call.requestHeaders

theorem keyed_step {s s' : Edge β} {a : Action β} (keyed : Keyed S s)
    (hstep : s.step S a = some s') : Keyed S s' := by
  intro call hcall
  rcases (extends_step hstep).cases hcall with hcall | ⟨path, rh, -, rfl⟩
  · exact keyed call hcall
  · rfl

theorem Keyed.variantKey {s : Edge β} (keyed : Keyed S s) {call : Call β}
    (hcall : call ∈ s.calls) : VariantKey S call.path call.key := by
  rw [keyed call hcall]
  exact variantKey_keyOf S _ _

theorem keyed_start (store : LruCacheStore β) (breaker : CircuitBreaker) (wall mono : Time) :
    Keyed S (start store breaker wall mono) := fun _ hcall => by cases hcall

end Edge

end Cdn

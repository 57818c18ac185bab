/-
How many calls fetch one key at a time.

Coalescing is meant to let one call of a key go to the origin while the others wait.
It does so as long as the leader leaves an entry behind.  Where it does not, each
waiter looks into the store for itself, finds nothing and fetches, and it does so
outside the table, so a new leader may join them.  `NoDogPile` is the exact condition:
no call goes out to the origin beside a waiter that already has.
-/
import Cdn.Proofs.Flight

namespace Cdn

variable {β : Type} {S : Setup β}

/-! ### Fetches in flight -/

namespace Phase

/-- At the origin in the name of a call of `get_or_fetch`. -/
def foreground : Phase β → Bool
  | .fetching .background _ => false
  | .fetching _ _ => true
  | _ => false

/-- At the origin in the name of a call that waited in vain. -/
def retrying : Phase β → Bool
  | .fetching .follower _ => true
  | _ => false

end Phase

namespace Edge

/-- The number of foreground fetches of a key that are in flight. -/
def fetchCount (s : Edge β) (k : String) : Nat := s.count Phase.foreground k

/-- At most one foreground fetch a key. -/
def OneFetch (s : Edge β) : Prop := ∀ k, s.fetchCount k ≤ 1

/-- A call with key `k` arrives, may not be served, and finds the way to the origin free. -/
def Leading (S : Setup β) (s : Edge β) (a : Action β) (k : String) : Prop :=
  ∃ path rh breaker, a = .arrive path rh ∧ keyOf S path rh = k ∧
    (s.arrival S path rh).Missed s.wall ∧ s.circuitBreaker.stateAt s.mono ≠ .open ∧
    s.inflight.get? k = none ∧ s.circuitBreaker.aenter s.mono = .ok breaker

/-- A call with key `k` that waited goes on, finds nothing and may fetch. -/
def Retrying (s : Edge β) (a : Action β) (k : String) : Prop :=
  ∃ t call event breaker, a = .resume t ∧ s.tasks[t]? = some ⟨call, .waiting event⟩ ∧
    call.key = k ∧ s.events[event]? = some true ∧ s.cacheStore.store.get? k = none ∧
    s.circuitBreaker.aenter s.mono = .ok breaker

/-- No call begins to lead while a waiter of its key is at the origin, and no waiter goes
out to the origin while another call of its key is there. -/
def NoDogPile (S : Setup β) (s : Edge β) (a : Action β) : Prop :=
  ∀ k, (Leading S s a k → s.count Phase.retrying k = 0) ∧
    (Retrying s a k → s.fetchCount k = 0)

/-! ### What one step does to the count -/

@[simp] theorem foreground_endPhase (role : Role) (call : Call β)
    (result : Except Exn (Reply β)) : (endPhase role call result).foreground = false := by
  unfold endPhase
  split <;> rfl

theorem fetchCount_of_leading {s s' : Edge β} {a : Action β} {k : String}
    (h : Leading S s a k) (hstep : s.step S a = some s') :
    s'.fetchCount k = s.fetchCount k + 1 := by
  obtain ⟨path, rh, breaker, rfl, rfl, hmiss, hopen, hfree, hallow⟩ := h
  rw [step_led hmiss hopen hfree hallow, Option.some.injEq] at hstep
  subst hstep
  exact (count_append (led_tasks s ..)).trans (by simp [Phase.foreground, arrival, fetchCount])

theorem fetchCount_of_retrying {s s' : Edge β} {a : Action β} {k : String}
    (h : Retrying s a k) (hstep : s.step S a = some s') :
    s'.fetchCount k = s.fetchCount k + 1 := by
  obtain ⟨t, call, event, breaker, rfl, ht, rfl, hset, habsent, hallow⟩ := h
  rw [step_retried ht hset habsent hallow, Option.some.injEq] at hstep
  subst hstep
  have hcount := count_modify (q := Phase.foreground) (k := call.key)
    (m := ((s.read call.key).send t .follower call breaker).stamp) ht rfl
  simpa [Phase.foreground, fetchCount] using hcount

/-- A step that neither leads nor retries sends out no foreground fetch. -/
theorem Move.fetchCount_le {s m : Edge β} {a : Action β} (h : Move S s a m) {k : String}
    (hleading : ¬ Leading S s a k) (hretrying : ¬ Retrying s a k) :
    m.fetchCount k ≤ s.fetchCount k := by
  cases h with
  | fresh hcached hfresh => exact le_of_eq (count_append_idle rfl rfl)
  | stale hcached hservable hlisted => exact le_of_eq (count_append_idle rfl rfl)
  | @scheduled path rh e hcached hservable hlisted =>
      have hserved : ((s.read (keyOf S path rh)).push (s.arrival S path rh)
          (.returned (.stale e))).fetchCount k = s.fetchCount k := count_append_idle rfl rfl
      exact le_of_eq ((count_append_idle rfl rfl).trans hserved)
  | turnedAway hmiss hopen => exact le_of_eq (count_append_idle rfl rfl)
  | joined hmiss hopen hlisted => exact le_of_eq (count_append_idle rfl rfl)
  | @led path rh breaker hmiss hopen hfree hallow =>
      by_cases hk : keyOf S path rh = k
      · exact absurd ⟨path, rh, breaker, rfl, hk, hmiss, hopen, hk ▸ hfree, hallow⟩ hleading
      · have hkey : (s.arrival S path rh).key ≠ k := hk
        exact le_of_eq ((count_append (led_tasks s ..)).trans (by simp [hkey, fetchCount]))
  | refused hmiss hopen hfree hrefuse =>
      exact le_of_eq (count_append_idle (foreground_endPhase ..) (refused_tasks s ..))
  | @answered t call role outcome ht =>
      refine count_modify_le ht ?_ rfl
      cases role <;> exact id
  | revalidating ht hallow => exact count_modify_le ht (by simp [Phase.foreground]) rfl
  | revalidationRefused ht hrefuse => exact count_conclude_le (foreground_endPhase ..) ht (by simp)
  | coalesced ht hset hfound => exact count_modify_le ht (by simp [Phase.foreground]) rfl
  | @retried t call event breaker ht hset habsent hallow =>
      by_cases hk : call.key = k
      · exact absurd ⟨t, call, event, breaker, rfl, ht, hk, hset, hk ▸ habsent, hallow⟩ hretrying
      · have hcount := count_modify (q := Phase.foreground) (k := k)
          (m := (s.read call.key).send t .follower call breaker) ht rfl
        simp only [hk, decide_false, Bool.and_false, Bool.false_eq_true, if_false] at hcount
        exact le_of_eq hcount
  | retryRefused ht hset habsent hrefuse => exact count_conclude_le (foreground_endPhase ..) ht (by simp)
  | settled ht hsettle => exact count_conclude_le (foreground_endPhase ..) ht (by simp)
  | unsettled ht hsettle => exact count_conclude_le (foreground_endPhase ..) ht (by simp)
  | failed ht => exact count_conclude_le (foreground_endPhase ..) ht (by simp)
  | cancelledScheduled ht => exact count_modify_le ht (by simp [Phase.foreground]) rfl
  | cancelledWaiting ht => exact count_modify_le ht (by simp [Phase.foreground]) rfl
  | cancelledFetching ht => exact count_conclude_le (foreground_endPhase ..) ht (by simp)
  | purged => exact le_of_eq (count_of_tasks rfl)
  | ticked hmono => exact le_of_eq (count_of_tasks rfl)
  | reset => exact le_of_eq (count_of_tasks rfl)

/-! ### The exact condition -/

/-- While no leader of a key is listed, a foreground fetch of it is a waiter's. -/
theorem fetchCount_of_free {s : Edge β} {k : String} (ok : SingleFlight.Ok s.flight)
    (hfree : s.inflight.get? k = none) : s.fetchCount k = s.count Phase.retrying k := by
  refine List.countP_congr fun τ hτ => ?_
  obtain ⟨t, ht⟩ := List.mem_iff_getElem?.mp hτ
  obtain ⟨call, phase⟩ := τ
  have hlisted : ∀ event outcome, phase = .fetching (.leader event) outcome → call.key ≠ k := by
    rintro event outcome rfl rfl
    have hpos : s.flight.pos t = .leading call.key event := positionAt_of_get ht
    have htable : s.inflight.get? call.key = some event := (ok.listed t _ _ hpos).1
    rw [hfree] at htable
    cases htable
  cases phase with
  | fetching role outcome =>
      cases role with
      | leader event => simp [Phase.foreground, Phase.retrying, hlisted event outcome rfl]
      | follower => rfl
      | background => rfl
  | _ => rfl

/-- **No dog-pile.**  In every run there is at most one foreground fetch of a key at any
time exactly if no step of the run lets a call join one that is at the origin for itself. -/
theorem oneFetch_iff_noDogPile (store : LruCacheStore β) (breaker : CircuitBreaker)
    (wall mono : Time) (p : List (Action β)) :
    Lts.Always (step S) OneFetch (start store breaker wall mono) p ↔
      Lts.EachStep (step S) (NoDogPile S) (start store breaker wall mono) p := by
  have hstart := ok_start store breaker wall mono
  refine Iff.trans (Lts.always_atMostOne_iff (I := fun s : Edge β => SingleFlight.Ok s.flight)
    (f := fetchCount) (G := fun s a k => Leading S s a k ∨ Retrying s a k) ok_step ?_ ?_ p hstart
    (fun k => Nat.zero_le 1)) (Lts.eachStep_congr ok_step ?_ p hstart)
  · rintro s a s' k hstep (hleading | hretrying)
    · exact fetchCount_of_leading hleading hstep
    · exact fetchCount_of_retrying hretrying hstep
  · intro s a s' k hstep hidle
    rw [not_or] at hidle
    obtain ⟨m, hmove, rfl⟩ := move_of_step hstep
    exact hmove.fetchCount_le hidle.1 hidle.2
  · intro s a s' ok hstep
    refine forall_congr' fun k => or_imp.trans (and_congr_left' ?_)
    refine forall_congr' fun hleading => ?_
    obtain ⟨path, rh, breaker, -, -, -, -, hfree, -⟩ := hleading
    rw [fetchCount_of_free ok hfree]

/-- A leader whose fetch fails, and two waiters that wake to an empty store. -/
def failedLeader : List (Action Nat) :=
  [.arrive "a" gzip, .arrive "a" gzip, .arrive "a" gzip, .answer 0 .failed, .resume 0,
    .resume 1, .resume 2]

/-- Coalescing does not outlive a failed leader: the waiters fetch side by side. -/
theorem dogPile_failedLeader : ¬ ∀ (p : List (Action Nat)) (s : Edge Nat),
    Lts.run (step sampleSetup) sampleStart p = some s → OneFetch s := by
  intro h
  have heval : (Lts.run (step sampleSetup) sampleStart failedLeader).map
      (·.fetchCount (keyOf sampleSetup "a" gzip)) = some 2 := by decide +kernel
  obtain ⟨s, hrun, hcount⟩ := Option.map_eq_some_iff.mp heval
  have hone := h failedLeader s hrun (keyOf sampleSetup "a" gzip)
  omega

end Edge

end Cdn

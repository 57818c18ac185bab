/-
How many background revalidations of one key run at a time.

A call that serves a stale entry schedules a revalidation unless the key is in the
table of calls in flight.  Revalidations do not register there, so what the check finds
is a foreground leader, never a revalidation: a second stale call schedules a second
one.  `NoSecondRevalidation` is the exact condition under which that does not happen.
-/
import Cdn.Proofs.Moves
import Cdn.Proofs.Flight

namespace Cdn

variable {β : Type} {S : Setup β}

/-- Created to revalidate in the background, and not ended. -/
def Phase.revalidating : Phase β → Bool
  | .scheduled => true
  | .fetching .background _ => true
  | _ => false

namespace Edge

/-- The number of background revalidations of a key that are in flight. -/
def revalidationCount (s : Edge β) (k : String) : Nat := s.count Phase.revalidating k

/-- At most one background revalidation a key. -/
def SingleRevalidation (s : Edge β) : Prop := ∀ k, s.revalidationCount k ≤ 1

/-- A call with key `k` arrives, finds its entry inside the stale window, and no leader. -/
def Scheduling (S : Setup β) (s : Edge β) (a : Action β) (k : String) : Prop :=
  ∃ path rh e, a = .arrive path rh ∧ keyOf S path rh = k ∧
    (s.arrival S path rh).cached = some e ∧ e.isStaleServable s.wall = true ∧
    s.inflight.contains k = false

/-- A call that would schedule a revalidation finds none of its key in flight. -/
def NoSecondRevalidation (S : Setup β) (s : Edge β) (a : Action β) : Prop :=
  ∀ k, Scheduling S s a k → s.revalidationCount k = 0

/-! ### What one step does to the count -/

theorem revalidating_endPhase (role : Role) (call : Call β) (result : Except Exn (Reply β)) :
    (endPhase role call result).revalidating = false := by
  unfold endPhase
  split <;> rfl

theorem step_scheduled {s : Edge β} {path : String} {rh : Option Headers} {e : CacheEntry β}
    (hcached : (s.arrival S path rh).cached = some e)
    (hservable : e.isStaleServable s.wall = true)
    (hfree : s.inflight.contains (keyOf S path rh) = false) :
    s.step S (.arrive path rh) = some (((s.read (keyOf S path rh)).push (s.arrival S path rh)
      (.returned (.stale e))).schedule (s.arrival S path rh)).stamp := by
  have hexp := CacheEntry.isExpired_of_isStaleServable hservable
  have hfree' : ((s.read (keyOf S path rh)).push (s.arrival S path rh)
      (.returned (.stale e))).inflight.contains (s.arrival S path rh).key = false := hfree
  have hgetOrFetch : s.getOrFetch S path rh = ((s.read (keyOf S path rh)).push
      (s.arrival S path rh) (.returned (.stale e))).schedule (s.arrival S path rh) := by
    unfold getOrFetch
    dsimp only
    rw [hcached]
    dsimp only
    rw [read_wall, hexp, hservable]
    exact if_neg (Bool.eq_false_iff.mp hfree')
  show some (s.getOrFetch S path rh).stamp = _
  rw [hgetOrFetch]

theorem revalidationCount_of_scheduling {s s' : Edge β} {a : Action β} {k : String}
    (hstep : s.step S a = some s') (h : Scheduling S s a k) :
    s'.revalidationCount k = s.revalidationCount k + 1 := by
  obtain ⟨path, rh, e, rfl, rfl, hcached, hservable, hfree⟩ := h
  rw [step_scheduled hcached hservable hfree, Option.some.injEq] at hstep
  subst hstep
  have hserved : ((s.read (keyOf S path rh)).push (s.arrival S path rh)
      (.returned (.stale e))).revalidationCount (keyOf S path rh) =
      s.revalidationCount (keyOf S path rh) := count_append_idle rfl rfl
  rw [← hserved]
  exact (count_append (schedule_tasks ..)).trans
    (by simp [Phase.revalidating, arrival, revalidationCount])

/-- A step that schedules nothing adds no revalidation. -/
theorem Move.revalidationCount_le {s m : Edge β} {a : Action β} (h : Move S s a m) {k : String}
    (hidle : ¬ Scheduling S s a k) : m.revalidationCount k ≤ s.revalidationCount k := by
  cases h with
  | fresh hcached hfresh => exact le_of_eq (count_append_idle rfl rfl)
  | stale hcached hservable hlisted => exact le_of_eq (count_append_idle rfl rfl)
  | @scheduled path rh e hcached hservable hlisted =>
      have hserved : ((s.read (keyOf S path rh)).push (s.arrival S path rh)
          (.returned (.stale e))).revalidationCount k = s.revalidationCount k :=
        count_append_idle rfl rfl
      by_cases hk : keyOf S path rh = k
      · exact absurd ⟨path, rh, e, rfl, hk, hcached, hservable, hk ▸ hlisted⟩ hidle
      · have hkey : (s.arrival S path rh).key ≠ k := hk
        rw [← hserved]
        exact le_of_eq ((count_append (schedule_tasks ..)).trans
          (by simp [hkey, revalidationCount]))
  | turnedAway hmiss hopen => exact le_of_eq (count_append_idle rfl rfl)
  | joined hmiss hopen hlisted => exact le_of_eq (count_append_idle rfl rfl)
  | led hmiss hopen hfree hallow => exact le_of_eq (count_append_idle rfl (led_tasks s ..))
  | refused hmiss hopen hfree hrefuse =>
      exact le_of_eq (count_append_idle (revalidating_endPhase ..) (refused_tasks s ..))
  | @answered t call role outcome ht =>
      refine count_modify_le ht ?_ rfl
      cases role <;> exact id
  | revalidating ht hallow => exact count_modify_le ht (fun _ => rfl) rfl
  | revalidationRefused ht hrefuse =>
      exact count_conclude_le (revalidating_endPhase ..) ht (by simp)
  | coalesced ht hset hfound => exact count_modify_le ht (by simp [Phase.revalidating]) rfl
  | retried ht hset habsent hallow =>
      exact count_modify_le ht (by simp [Phase.revalidating]) rfl
  | retryRefused ht hset habsent hrefuse =>
      exact count_conclude_le (revalidating_endPhase ..) ht (by simp)
  | settled ht hsettle => exact count_conclude_le (revalidating_endPhase ..) ht (by simp)
  | unsettled ht hsettle => exact count_conclude_le (revalidating_endPhase ..) ht (by simp)
  | failed ht => exact count_conclude_le (revalidating_endPhase ..) ht (by simp)
  | cancelledScheduled ht => exact count_modify_le ht (by simp [Phase.revalidating]) rfl
  | cancelledWaiting ht => exact count_modify_le ht (by simp [Phase.revalidating]) rfl
  | cancelledFetching ht => exact count_conclude_le (revalidating_endPhase ..) ht (by simp)
  | purged => exact le_of_eq (count_of_tasks rfl)
  | ticked hmono => exact le_of_eq (count_of_tasks rfl)
  | reset => exact le_of_eq (count_of_tasks rfl)

/-! ### The exact condition -/

/-- **Single-flight revalidation.**  In every run at most one background revalidation of
a key is in flight at any time exactly if no stale call of the run finds one, and no
leader, at work on its key. -/
theorem singleRevalidation_iff (store : LruCacheStore β) (breaker : CircuitBreaker)
    (wall mono : Time) (p : List (Action β)) :
    Lts.Always (step S) SingleRevalidation (start store breaker wall mono) p ↔
      Lts.EachStep (step S) (NoSecondRevalidation S) (start store breaker wall mono) p := by
  refine Lts.always_atMostOne_iff (I := fun _ => True) (f := revalidationCount)
    (G := Scheduling S) (fun _ _ _ _ _ => trivial) ?_ ?_ p trivial (fun k => Nat.zero_le 1)
  · intro s a s' k hstep hscheduling
    exact revalidationCount_of_scheduling hstep hscheduling
  · intro s a s' k hstep hidle
    obtain ⟨m, hmove, rfl⟩ := move_of_step hstep
    exact hmove.revalidationCount_le hidle

/-- An answer the cache may serve stale for a minute after its ten seconds are over. -/
def staleAnswer (body : Nat) : FetchOutcome Nat :=
  .answered
    { content := body, statusCode := 200, etag := some "t"
      headers := Dict.ofList [("cache-control", "max-age=10, stale-while-revalidate=60")] }

/-- An entry that has just expired, and two calls for it. -/
def staleTwice : List (Action Nat) :=
  [.arrive "a" gzip, .answer 0 (staleAnswer 1), .resume 0, .tick 20 20, .arrive "a" gzip,
    .arrive "a" gzip]

/-- The check of the table does not see a revalidation that is already there. -/
theorem doubleRevalidation_staleTwice : ¬ ∀ (p : List (Action Nat)) (s : Edge Nat),
    Lts.run (step sampleSetup) sampleStart p = some s → SingleRevalidation s := by
  intro h
  have heval : (Lts.run (step sampleSetup) sampleStart staleTwice).map
      (·.revalidationCount (keyOf sampleSetup "a" gzip)) = some 2 := by decide +kernel
  obtain ⟨s, hrun, hcount⟩ := Option.map_eq_some_iff.mp heval
  have hone := h staleTwice s hrun (keyOf sampleSetup "a" gzip)
  omega

end Edge

end Cdn

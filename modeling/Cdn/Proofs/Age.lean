/-
Nothing over-age is served while the origin may be asked.

A call that finds its entry past the stale window goes on to the origin, or waits for
the call that already has.  Only a waiter can come back to that entry: where the leader
left none of its own, the old one is still in the store, and the waiter returns what it
finds there without a look at its age.
-/
import Cdn.Proofs.Placed
import Cdn.Proofs.Flight

namespace Cdn

variable {β : Type} {S : Setup β}

/-- The entry of a reply the breaker had no part in. -/
def Reply.entry? : Reply β → Option (CacheEntry β)
  | .fresh e | .stale e | .coalesced e => some e
  | _ => none

/-- The entry a call has returned, if it has returned one and was not rejected. -/
def Task.served? (τ : Task β) : Option (CacheEntry β) :=
  match τ.phase with
  | .returned reply => reply.entry?
  | _ => none

/-- The call has returned the entry that was in the store when it began, and that was
past its stale window then. -/
def Task.ServedOverAge (τ : Task β) : Prop :=
  ∃ e ∈ τ.served?, τ.call.cached.map (·.core) = some e.core ∧ e.OverAge τ.call.began

instance [DecidableEq β] (τ : Task β) : Decidable τ.ServedOverAge :=
  inferInstanceAs (Decidable (∃ e ∈ τ.served?, _))

/-- Two readings of one entry are of one age. -/
theorem CacheEntry.overAge_congr {e e' : CacheEntry β} {now : Time} (h : e.core = e'.core) :
    e.OverAge now ↔ e'.OverAge now := by
  show e.core.OverAge now ↔ e'.core.OverAge now
  rw [h]

/-- What a lookup missed is over age. -/
theorem Call.Missed.overAge {call : Call β} {now : Time} (h : call.Missed now)
    {e : CacheEntry β} (he : call.cached.map (·.core) = some e.core) : e.OverAge now := by
  obtain ⟨e', hcached, hcore⟩ := Option.map_eq_some_iff.mp he
  obtain ⟨hexp, hservable⟩ := h e' hcached
  exact (CacheEntry.overAge_congr hcore).mp (CacheEntry.overAge_of_not_servable hexp hservable)

namespace Edge

def NothingOverAge (s : Edge β) : Prop := ∀ τ ∈ s.tasks, ¬ τ.ServedOverAge

instance [DecidableEq β] (s : Edge β) : Decidable s.NothingOverAge :=
  inferInstanceAs (Decidable (∀ τ ∈ s.tasks, _))

/-- No waiter goes on to find in the store the very entry it read when it arrived. -/
def NoStaleWake (s : Edge β) (a : Action β) : Prop :=
  ∀ t call event e, a = .resume t → s.tasks[t]? = some ⟨call, .waiting event⟩ →
    s.events[event]? = some true → s.cacheStore.store.get? call.key = some e →
    call.cached.map (·.core) ≠ some e.core

/-- What the proof needs to know of a state: stale windows are not negative, and a call
waits only after a lookup that missed. -/
structure AgeOk (s : Edge β) : Prop where
  window : ∀ k e, s.entry k = some e → 0 ≤ e.staleWhileRevalidate
  missed : ∀ τ ∈ s.tasks, ∀ event, τ.phase = .waiting event → τ.call.Missed τ.call.began

theorem ageOk_start (maxSizeBytes : Int) (breaker : CircuitBreaker) (wall mono : Time) :
    AgeOk (start (β := β) { maxSizeBytes } breaker wall mono) where
  window := fun k e h => by cases h
  missed := fun τ hτ => by cases hτ

theorem ageOk_step (s : Edge β) (a : Action β) (s' : Edge β) (ok : s.AgeOk)
    (hstep : s.step S a = some s') : s'.AgeOk := by
  constructor
  · intro k e he
    obtain ⟨m, hmove, rfl⟩ := move_of_step hstep
    replace he : m.entry k = some e := he
    cases hmove.entryMove k with
    | kept h => exact ok.window k e (h ▸ he)
    | lost h => rw [h] at he; cases he
    | filed e' hfiles h =>
        obtain ⟨t, call, role, r, response, -, -, hsettle⟩ := hfiles
        rw [h, Option.some.injEq] at he
        subst he
        show 0 ≤ e'.staleWhileRevalidate
        cases settled_of_settle hsettle with
        | refreshed hstatus hcached hswr => exact hswr
        | filed hnew hswr => exact hswr
  · refine forall_placed hstep ok.missed fun t τ hτ event hevent => ?_
    cases hτ with
    | joined ha hnew hmiss hlisted => exact hmiss
    | ended hcall hphase => rcases hphase with rfl | ⟨x, rfl, -⟩ <;> cases hevent
    | _ => cases hevent

/-- What a call serves from the store by its age is not over age. -/
theorem not_servedOverAge_of_servable {s : Edge β} (ok : s.AgeOk) {path : String}
    {rh : Option Headers} {e : CacheEntry β} {reply : Reply β}
    (hcached : (s.arrival S path rh).cached = some e)
    (hservable : ¬ (e.isExpired s.wall = true ∧ e.isStaleServable s.wall = false))
    (hreply : reply.entry? = some e) :
    ¬ Task.ServedOverAge ⟨s.arrival S path rh, .returned reply⟩ := by
  rintro ⟨e', hserved, -, hover⟩
  rw [show Task.served? ⟨s.arrival S path rh, .returned reply⟩ = some e from hreply,
    Option.mem_some_iff] at hserved
  subst hserved
  have hwindow : 0 ≤ e.core.staleWhileRevalidate :=
    ok.window _ e.core (entry_of_cached hcached)
  exact hservable (CacheEntry.not_servable_of_overAge hwindow hover)

theorem not_servedOverAge_of_none {τ : Task β} (h : τ.served? = none) : ¬ τ.ServedOverAge := by
  rintro ⟨e, hserved, -⟩
  rw [h] at hserved
  cases hserved

/-- A step that wakes no waiter to its own entry serves nothing over age. -/
theorem nothingOverAge_step {s s' : Edge β} {a : Action β} (ok : s.AgeOk)
    (hstep : s.step S a = some s') (hs : s.NothingOverAge) (hcond : s.NoStaleWake a) :
    s'.NothingOverAge := by
  refine forall_placed hstep hs fun t τ hτ => ?_
  cases hτ with
  | fresh ha hnew hcached hfresh =>
      exact not_servedOverAge_of_servable ok hcached (by simp [hfresh]) rfl
  | stale ha hnew hcached hservable =>
      exact not_servedOverAge_of_servable ok hcached (by simp [hservable]) rfl
  | @rejected path rh reply ha hnew hmiss hreply =>
      refine not_servedOverAge_of_none (show reply.entry? = none from ?_)
      rcases hreply with rfl | rfl <;> cases (s.arrival S path rh).cached <;> rfl
  | coalesced ha ht hset hfound =>
      rintro ⟨e, hserved, hcached, -⟩
      cases hserved
      exact hcond _ _ _ _ ha ht hset hfound hcached
  | ended hcall hphase =>
      refine not_servedOverAge_of_none ?_
      rcases hphase with rfl | ⟨x, rfl, -⟩ <;> rfl
  | _ => exact not_servedOverAge_of_none rfl

/-- A waiter that wakes to its own entry is served over age. -/
theorem servedOverAge_of_staleWake {s s' : Edge β} {t : Nat} {call : Call β} {event : Nat}
    {e : CacheEntry β} (ok : s.AgeOk) (ht : s.tasks[t]? = some ⟨call, .waiting event⟩)
    (hset : s.events[event]? = some true) (hfound : s.cacheStore.store.get? call.key = some e)
    (hcached : call.cached.map (·.core) = some e.core)
    (hstep : s.step S (.resume t) = some s') : ¬ s'.NothingOverAge := by
  rw [step_coalesced ht hset hfound, Option.some.injEq] at hstep
  subst hstep
  intro hno
  have hget : (s.tasks.modify t fun τ => { τ with
      phase := .returned (.coalesced (e.touch s.wall)) })[t]? =
      some ⟨call, .returned (.coalesced (e.touch s.wall))⟩ := by simp [ht]
  have hmissed := ok.missed _ (List.mem_of_getElem? ht) event rfl
  exact hno _ (List.mem_of_getElem? hget)
    ⟨e.touch s.wall, rfl, hcached, hmissed.overAge hcached⟩

/-- **Nothing over age is served while the origin may be asked,** exactly if no waiter of
the run goes on to find in the store the very entry it read when it arrived. -/
theorem nothingOverAge_iff_noStaleWake (maxSizeBytes : Int) (breaker : CircuitBreaker)
    (wall mono : Time) (p : List (Action β)) :
    Lts.Always (step S) NothingOverAge (start { maxSizeBytes } breaker wall mono) p ↔
      Lts.EachStep (step S) NoStaleWake (start { maxSizeBytes } breaker wall mono) p := by
  refine Lts.always_iff_eachStep (I := AgeOk) ageOk_step ?_ p
    (ageOk_start maxSizeBytes breaker wall mono) ?_
  · intro s a s' ok hs hstep
    constructor
    · rintro hs' t call event e rfl ht hset hfound hcached
      exact servedOverAge_of_staleWake ok ht hset hfound hcached hstep hs'
    · exact nothingOverAge_step ok hstep hs
  · intro τ hτ
    cases hτ

/-- An entry long past its ten seconds, a leader whose fetch fails, and its waiter. -/
def staleWake : List (Action Nat) :=
  [.arrive "a" gzip,
    .answer 0 (.answered
      { content := 1, statusCode := 200
        headers := Dict.ofList [("cache-control", "max-age=10")] }),
    .resume 0, .tick 100 100, .arrive "a" gzip, .arrive "a" gzip, .answer 1 .failed, .resume 1,
    .resume 2]

/-- The waiter of a leader that failed is served the entry that was too old for both. -/
theorem overAge_staleWake : ¬ ∀ (p : List (Action Nat)) (s : Edge Nat),
    Lts.run (step sampleSetup) sampleStart p = some s → s.NothingOverAge := by
  intro h
  have heval : (Lts.run (step sampleSetup) sampleStart staleWake).map
      (fun s => decide s.NothingOverAge) = some false := by decide +kernel
  obtain ⟨s, hrun, hover⟩ := Option.map_eq_some_iff.mp heval
  exact of_decide_eq_false hover (h staleWake s hrun)

end Edge

end Cdn

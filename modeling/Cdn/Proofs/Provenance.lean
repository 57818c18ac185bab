/-
Where a response comes from.

Body, status, headers and tag of a response belong together, and the service never takes
them apart: an entry is made with all four of one answer of the origin, a 304 rewrites its
lifetime and nothing else, and a call returns the first three of an entry or of an answer.
So what the origin keeps to in each of its answers holds of every entry and of everything
that is returned, but for the service's own 503.

An answer that only refreshes an entry is none of these, and need not keep to it.
-/
import Cdn.Proofs.Placed

namespace Cdn

variable {β : Type} {S : Setup β} {G : OriginResponse β → Prop}

/-- The answer an entry was made of. -/
def CacheEntry.source (e : CacheEntry β) : OriginResponse β where
  content := e.content
  statusCode := e.statusCode
  headers := e.headers
  etag := e.etag

@[simp] theorem CacheEntry.source_core (e : CacheEntry β) : e.core.source = e.source := rfl

@[simp] theorem CacheEntry.source_touch (e : CacheEntry β) (now : Time) :
    (e.touch now).source = e.source := rfl

/-- Content, status and headers are those of the answer. -/
def Response.From (r : OriginResponse β) (response : Response β) : Prop :=
  response.content = r.content ∧ response.statusCode = r.statusCode ∧ response.headers = r.headers

/-- The 503 the service answers itself. -/
def Reply.own : Reply β → Bool
  | .openEmpty | .rejectedEmpty => true
  | _ => false

/-- The answer is the word that the entry which the call has read is still good. -/
def Call.Refreshes (call : Call β) (r : OriginResponse β) : Prop :=
  r.statusCode = 304 ∧ call.cached ≠ none ∧ cacheable r = true

/-- What a task goes on with keeps to `G`, or it refreshes what does. -/
theorem sourced_of_settle {call : Call β} {r : OriginResponse β} {now : Time}
    {filed : Option (String × CacheEntry β)} {response : Response β}
    (h : settle S call r now = .ok (filed, response))
    (hread : ∀ e, call.cached = some e → G e.source) (hr : G r ∨ call.Refreshes r) :
    (∃ r', G r' ∧ response.From r') ∧ ∀ k e, filed = some (k, e) → G e.source := by
  obtain ⟨d, hd, ⟨hcache, rfl, rfl⟩ | ⟨-, ttl, swr, -, -, rfl, rfl⟩⟩ := settle_eq_ok h
  · -- a response that is passed on does not refresh
    have hG : G r := hr.resolve_right fun hrefresh => by
      have hcacheable := hrefresh.2.2
      rw [cacheable_eq hd, hcache] at hcacheable
      cases hcacheable
    exact ⟨⟨r, hG, rfl, rfl, rfl⟩, fun k e he => by cases he⟩
  · unfold filing
    split
    · rename_i cached hcached
      have hG : G cached.source := by
        refine hread cached ?_
        unfold Call.refreshes? at hcached
        split at hcached
        · exact hcached
        · cases hcached
      refine ⟨⟨cached.source, hG, rfl, rfl, rfl⟩, fun k e he => ?_⟩
      cases he
      exact hG
    · rename_i hnew
      have hG : G r := hr.resolve_right fun hrefresh => by
        rw [Call.refreshes?, if_pos hrefresh.1] at hnew
        exact hrefresh.2.1 hnew
      refine ⟨⟨r, hG, rfl, rfl, rfl⟩, fun k e he => ?_⟩
      cases he
      exact hG

namespace Edge

/-- What holds of one task: what it has read and what it goes on with, or what it has
returned, is an answer that keeps to `G`. -/
structure TaskSourced (G : OriginResponse β → Prop) (S : Setup β) (τ : Task β) : Prop where
  read : ∀ e, τ.call.cached = some e → G e.source
  pending : ∀ r, τ.answer? = some r → G r ∨ τ.call.Refreshes r
  returned : ∀ reply, τ.phase = .returned reply → reply.own = false →
    ∃ r, G r ∧ (reply.response S).From r

structure Sourced (G : OriginResponse β → Prop) (S : Setup β) (s : Edge β) : Prop where
  tasks : ∀ τ ∈ s.tasks, TaskSourced G S τ
  entries : ∀ k e, s.entry k = some e → G e.source

/-- The origin answers with what keeps to `G`, or only refreshes. -/
def Supplies (G : OriginResponse β → Prop) (s : Edge β) (a : Action β) : Prop :=
  ∀ t r, a = .answer t (.answered r) → ∀ τ ∈ s.tasks[t]?, G r ∨ τ.call.Refreshes r

theorem sourced_start (maxSizeBytes : Int) (breaker : CircuitBreaker) (wall mono : Time) :
    Sourced G S (start { maxSizeBytes } breaker wall mono) where
  tasks := fun τ hτ => by cases hτ
  entries := fun k e he => by cases he

variable {s s' : Edge β} {a : Action β}

theorem Sourced.arrival_read (sourced : Sourced G S s) {path : String} {rh : Option Headers}
    {e : CacheEntry β} (he : (s.arrival S path rh).cached = some e) : G e.source := by
  have hentry := sourced.entries _ _ (entry_of_cached he)
  rwa [CacheEntry.source_core] at hentry

/-- A task that has returned what comes from such an answer. -/
theorem taskSourced_returned {call : Call β} {reply : Reply β}
    (hread : ∀ e, call.cached = some e → G e.source)
    (hreply : reply.own = false → ∃ r, G r ∧ (reply.response S).From r) :
    TaskSourced G S ⟨call, .returned reply⟩ where
  read := hread
  pending := fun r h => by cases h
  returned := fun reply' h hown => by cases h; exact hreply hown

/-- A task that has not returned and has no answer to go on with. -/
theorem taskSourced_idle {call : Call β} {phase : Phase β}
    (hread : ∀ e, call.cached = some e → G e.source)
    (hpending : Task.answer? ⟨call, phase⟩ = none)
    (hreturned : ∀ reply, phase ≠ .returned reply) : TaskSourced G S ⟨call, phase⟩ where
  read := hread
  pending := fun r h => by rw [hpending] at h; cases h
  returned := fun reply h => absurd h (hreturned reply)

theorem from_of_entry {e : CacheEntry β} (h : G e.source) (hit : Bool) :
    ∃ r, G r ∧ Response.From r ⟨e.content, e.statusCode, e.headers, hit⟩ :=
  ⟨e.source, h, rfl, rfl, rfl⟩

/-- The tasks a step puts in place are sourced. -/
theorem Sourced.placed (sourced : Sourced G S s) (hsupplies : Supplies G s a) {t : Nat}
    {τ : Task β} (h : Placed S s a t τ) : TaskSourced G S τ := by
  have hold : ∀ {t : Nat} {call : Call β} {phase : Phase β},
      s.tasks[t]? = some ⟨call, phase⟩ → TaskSourced G S ⟨call, phase⟩ :=
    fun ht => sourced.tasks _ (List.mem_of_getElem? ht)
  have harrived : ∀ {path : String} {rh : Option Headers} (e : CacheEntry β),
      (s.arrival S path rh).cached = some e → G e.source := fun _ => sourced.arrival_read
  cases h with
  | fresh ha hnew hcached hfresh =>
      exact taskSourced_returned harrived fun _ => from_of_entry (harrived _ hcached) true
  | stale ha hnew hcached hservable =>
      exact taskSourced_returned harrived fun _ => from_of_entry (harrived _ hcached) true
  | scheduled ha hnew hcached hservable hlisted => exact taskSourced_idle harrived rfl (by simp)
  | @rejected path rh reply ha hnew hmiss hreply =>
      refine taskSourced_returned harrived fun hown => ?_
      cases hcached : (s.arrival S path rh).cached with
      | none =>
          rw [hcached] at hreply
          rcases hreply with rfl | rfl <;> cases hown
      | some e =>
          rw [hcached] at hreply
          rcases hreply with rfl | rfl <;> exact from_of_entry (harrived e hcached) true
  | joined ha hnew hmiss hlisted => exact taskSourced_idle harrived rfl (by simp)
  | led ha hnew hmiss hfree => exact taskSourced_idle harrived rfl (by simp)
  | @answered call role outcome ha ht =>
      refine ⟨(hold ht).read, fun r hr => ?_, by simp⟩
      obtain ⟨role', hphase⟩ := Task.answer?_eq_some.mp hr
      cases hphase
      exact hsupplies _ r ha ⟨call, .fetching role none⟩ (Option.mem_def.mpr ht)
  | revalidating ha ht => exact taskSourced_idle (hold ht).read rfl (by simp)
  | retried ha ht habsent => exact taskSourced_idle (hold ht).read rfl (by simp)
  | @coalesced call event e ha ht hset hfound =>
      have hG := sourced.entries _ _ (entry_of_get hfound)
      exact taskSourced_returned (hold ht).read fun _ =>
        from_of_entry (e := e.touch s.wall) hG false
  | fetched ha ht hsettle =>
      have hpending := (hold ht).pending _ (Task.answer?_eq_some.mpr ⟨_, rfl⟩)
      exact taskSourced_returned (hold ht).read fun _ =>
        (sourced_of_settle hsettle (hold ht).read hpending).1
  | retryRefused ha ht hset habsent hrefuse => exact taskSourced_idle (hold ht).read rfl (by simp)
  | ended hcall hphase =>
      refine taskSourced_idle ?_ ?_ ?_
      · cases hcall with
        | arrived ha hnew => exact harrived
        | here ht => exact (hold ht).read
      · rcases hphase with rfl | ⟨x, rfl, -⟩ <;> rfl
      · rcases hphase with rfl | ⟨x, rfl, -⟩ <;> simp

theorem sourced_step (sourced : Sourced G S s) (hsupplies : Supplies G s a)
    (hstep : s.step S a = some s') : Sourced G S s' := by
  refine ⟨forall_placed hstep sourced.tasks fun t τ => sourced.placed hsupplies, ?_⟩
  intro k e he
  obtain ⟨m, hmove, rfl⟩ := move_of_step hstep
  replace he : m.entry k = some e := he
  cases hmove.entryMove k with
  | kept h => exact sourced.entries k e (h ▸ he)
  | lost h => rw [h] at he; cases he
  | filed e' hfiles h =>
      obtain ⟨t, call, role, r, response, -, ht, hsettle⟩ := hfiles
      have hτ := sourced.tasks _ (List.mem_of_getElem? ht)
      have hpending := hτ.pending r (Task.answer?_eq_some.mpr ⟨role, rfl⟩)
      rw [h, Option.some.injEq] at he
      subst he
      exact (sourced_of_settle hsettle hτ.read hpending).2 k e' rfl

/-- **What the origin keeps to, everything keeps to that is stored or returned.** -/
theorem sourced_run {maxSizeBytes : Int} {breaker : CircuitBreaker} {wall mono : Time}
    {p : List (Action β)}
    (hsupplies : Lts.EachStep (step S) (Supplies G) (start { maxSizeBytes } breaker wall mono) p)
    (hrun : Lts.run (step S) (start { maxSizeBytes } breaker wall mono) p = some s) :
    Sourced G S s :=
  Lts.run_guarded (fun _ _ _ h hs hstep => sourced_step h hs hstep) p
    (sourced_start maxSizeBytes breaker wall mono) hsupplies hrun

end Edge

end Cdn

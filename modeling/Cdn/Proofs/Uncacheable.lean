/-
Responses that may not be stored stay out of the store.

There is one place where an entry is made, and it is reached through the parsed header
alone.  So all depends on the parser: whatever else a header says, and in whatever order,
`no-store` or `private` among its directives is found.  A header that cannot be read to
its end raises, and nothing is stored either.
-/
import Cdn.Proofs.Store

namespace Cdn

variable {β : Type} {S : Setup β}

/-- The origin says that a shared cache must not store the response. -/
def OriginResponse.Forbidden (r : OriginResponse β) : Prop :=
  ∃ header ∈ r.headers.get? "cache-control",
    HasDirective header "no-store" ∨ HasDirective header "private"

instance (r : OriginResponse β) : Decidable r.Forbidden :=
  inferInstanceAs (Decidable (∃ header ∈ r.headers.get? "cache-control", _))

/-- Directives that were read from such a response say so. -/
theorem not_isCacheable_of_forbidden {r : OriginResponse β} {d : CacheDirectives}
    (hforbidden : r.Forbidden) (h : directivesOf r.headers = .ok d) : d.isCacheable = false := by
  obtain ⟨header, hget, hname⟩ := hforbidden
  have hheader : r.headers.getD "cache-control" "" = header := by
    rw [Dict.getD, Option.mem_def.mp hget, Option.getD_some]
  have hparse : parseCacheControl header = .ok d := by
    rw [directivesOf, hheader] at h
    split at h
    · exact h
    · -- an empty header has no directive
      rename_i hempty
      rw [not_not.mp hempty] at hname
      exact absurd hname (by decide)
  rcases hname with hstore | hprivate
  · rw [CacheDirectives.isCacheable, (noStore_iff hparse).mpr hstore]
    rfl
  · rw [CacheDirectives.isCacheable, (isPrivate_iff hparse).mpr hprivate]
    simp

/-- Nothing is filed for such a response, be it new or the word that nothing has changed. -/
theorem nothing_filed_of_forbidden {call : Call β} {r : OriginResponse β} {now : Time}
    {filed : Option (String × CacheEntry β)} {response : Response β} (hforbidden : r.Forbidden)
    (h : settle S call r now = .ok (filed, response)) : filed = none := by
  obtain ⟨d, hd, ⟨-, hnone, -⟩ | ⟨hcache, -⟩⟩ := settle_eq_ok h
  · exact hnone
  · rw [not_isCacheable_of_forbidden hforbidden hd] at hcache
    cases hcache

namespace Edge

/-- A step keeps forbidden responses out: a task that goes on with one leaves the store as
it is, and where a step puts an entry into the store, it is a task that goes on with a
response that is not forbidden. -/
def KeepsOut (S : Setup β) (s : Edge β) (a : Action β) : Prop :=
  ∀ s', s.step S a = some s' →
    (∀ t τ r, a = .resume t → s.tasks[t]? = some τ → τ.answer? = some r → r.Forbidden →
      s'.cacheStore = s.cacheStore) ∧
    (∀ k e, s'.entry k = some e → s.entry k = some e ∨
      ∃ t τ r, a = .resume t ∧ s.tasks[t]? = some τ ∧ τ.answer? = some r ∧ ¬ r.Forbidden)

theorem store_kept_of_forbidden {s s' : Edge β} {t : Nat} {τ : Task β} {r : OriginResponse β}
    (hτ : s.tasks[t]? = some τ) (hr : τ.answer? = some r) (hforbidden : r.Forbidden)
    (hstep : s.step S (.resume t) = some s') : s'.cacheStore = s.cacheStore := by
  obtain ⟨call, phase⟩ := τ
  obtain ⟨role, rfl⟩ := Task.answer?_eq_some.mp hr
  obtain ⟨m, hmove, rfl⟩ := move_of_step hstep
  cases hmove with
  | settled ht hsettle =>
      rw [hτ] at ht
      cases ht
      rw [nothing_filed_of_forbidden hforbidden hsettle]
      simp [file]
  | unsettled ht hsettle => simp
  | failed ht => rw [hτ] at ht; cases ht
  | revalidating ht hallow => rw [hτ] at ht; cases ht
  | revalidationRefused ht hrefuse => rw [hτ] at ht; cases ht
  | coalesced ht hset hfound => rw [hτ] at ht; cases ht
  | retried ht hset habsent hallow => rw [hτ] at ht; cases ht
  | retryRefused ht hset habsent hrefuse => rw [hτ] at ht; cases ht

/-- Every step keeps them out, whatever the state it is taken in. -/
theorem keepsOut (s : Edge β) (a : Action β) : KeepsOut S s a := by
  intro s' hstep
  constructor
  · rintro t τ r rfl hτ hr hforbidden
    exact store_kept_of_forbidden hτ hr hforbidden hstep
  · intro k e he
    obtain ⟨m, hmove, rfl⟩ := move_of_step hstep
    replace he : m.entry k = some e := he
    cases hmove.entryMove k with
    | kept h => exact Or.inl (h ▸ he)
    | lost h => rw [h] at he; cases he
    | filed e' hfiles h =>
        obtain ⟨t, call, role, r, response, rfl, ht, hsettle⟩ := hfiles
        refine Or.inr ⟨t, _, r, rfl, ht, Task.answer?_eq_some.mpr ⟨role, rfl⟩, fun hforbidden => ?_⟩
        cases nothing_filed_of_forbidden hforbidden hsettle

/--
**Uncacheable responses never enter the cache.**  In every run, whether a leader, a
follower or a background task goes on with it, a response with `no-store` or `private`
among the directives of its Cache-Control leaves the store as it is; and all that is put
into the store is made of other responses.
-/
theorem uncacheable_never_stored (S : Setup β) (store : LruCacheStore β)
    (breaker : CircuitBreaker) (wall mono : Time) (p : List (Action β)) :
    Lts.EachStep (step S) (KeepsOut S) (start store breaker wall mono) p :=
  Lts.eachStep_of_invariant (I := fun _ => True) (fun _ _ _ _ _ => trivial)
    (fun s a _ _ _ => keepsOut s a) p trivial

/-- The name is found behind other directives, in any case and with a value. -/
example : HasDirective "max-age=600, PRIVATE = \"set-cookie\" ,public" "private" := by
  decide +kernel

end Edge

end Cdn

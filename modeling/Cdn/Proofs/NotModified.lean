/-
What a 304 does to the entry it is about.

A request for an entry that has a tag is conditional, so the origin may answer that the
entry still holds.  The service looks at the directives of that answer before its status: a
304 that may not be stored is passed on to the caller as it came, and one that says nothing
gives the entry the lifetime and the window of a response that says nothing.  The first
section says how a call that has fetched ends; the others say, each for one of the two,
exactly when the entry's content and its policy come through.
-/
import Cdn.Proofs.Leader

namespace Cdn

variable {β : Type} {S : Setup β}

/-! ### How a call that has fetched ends -/

/-- Where a call of `get_or_fetch` stands once it has gone on with the origin's outcome. -/
def Call.ending (S : Setup β) (call : Call β) (now : Time) : FetchOutcome β → Phase β
  | .failed => .raised .fetch
  | .answered r =>
      match settle S call r now with
      | .error x => .raised x
      | .ok (_, response) => .returned (.fetched response)

namespace Edge

variable {s : Edge β} {t : Nat} {call : Call β} {role : Role}

theorem endPhase_ok (hrole : role ≠ .background) (reply : Reply β) :
    endPhase role call (.ok reply) = .returned reply := by
  cases role with
  | background => exact absurd rfl hrole
  | leader event => rfl
  | follower => rfl

/-- Only a refusal of the breaker is kept from the caller. -/
theorem endPhase_error (hrole : role ≠ .background) {x : Exn} (hx : ∀ u, x ≠ .circuitOpen u) :
    endPhase role call (.error x) = .raised x := by
  cases role with
  | background => exact absurd rfl hrole
  | leader event =>
      cases x with
      | circuitOpen u => exact absurd rfl (hx u)
      | _ => rfl
  | follower => cases x <;> rfl

/-- **The outcome of its request decides how a call ends.** -/
theorem step_ending {outcome : FetchOutcome β} (hrole : role ≠ .background)
    (ht : s.tasks[t]? = some ⟨call, .fetching role (some outcome)⟩) :
    ∃ s', s.step S (.resume t) = some s' ∧
      s'.tasks[t]? = some ⟨call, call.ending S s.wall outcome⟩ := by
  have hstep : s.step S (.resume t) = some (s.afterFetch S t role call outcome).stamp := by
    simp [step, act, resume, ht]
  refine ⟨_, hstep, ?_⟩
  rw [stamp_tasks]
  cases outcome with
  | failed =>
      have hphase : endPhase role call (.error .fetch) = .raised .fetch :=
        endPhase_error hrole (by simp)
      simp [afterFetch, Call.ending, ht, hphase]
  | answered r =>
      cases hsettle : settle S call r s.wall with
      | error x =>
          have hphase : endPhase role call (.error x) = .raised x := by
            refine endPhase_error hrole fun u hu => ?_
            rcases settle_error hsettle with h | h
            · rw [h] at hu
              cases hu
            · rw [h] at hu
              cases hu
          simp [afterFetch, Call.ending, ht, hsettle, hphase]
      | ok settled =>
          obtain ⟨filed, response⟩ := settled
          have hphase : endPhase role call (.ok (.fetched response)) =
              .returned (.fetched response) := endPhase_ok hrole _
          simp [afterFetch, Call.ending, ht, hsettle, hphase]

end Edge

/-! ### A 304 that may be stored, and one that may not -/

/-- A response is filed only if it can be. -/
theorem storable_of_settle {call : Call β} {r : OriginResponse β} {now : Time}
    {kv : String × CacheEntry β} {response : Response β}
    (h : settle S call r now = .ok (some kv, response)) : Storable S r := by
  obtain ⟨d, hd, ⟨-, hnone, -⟩ | ⟨hcache, ttl, swr, httl, hswr, -, -⟩⟩ := settle_eq_ok h
  · cases hnone
  · exact ⟨d, ttl, swr, hd, hcache, httl, hswr⟩

/-- A storable 304 brings back the entry that was read. -/
theorem settle_of_notModified {call : Call β} {r : OriginResponse β} {e : CacheEntry β}
    (hcached : call.cached = some e) (h304 : r.statusCode = 304) (hstorable : Storable S r)
    (now : Time) : ∃ ttl swr, settle S call r now =
      .ok (some (call.key, refreshed e ttl swr now (varyFields r.headers)),
        ⟨e.content, e.statusCode, e.headers, false⟩) := by
  obtain ⟨kv, response, hsettle⟩ := settle_of_storable hstorable call now
  obtain ⟨d, -, ⟨-, hnone, -⟩ | ⟨-, ttl, swr, -, -, hfiled, hresponse⟩⟩ := settle_eq_ok hsettle
  · cases hnone
  · have hrefreshes : call.refreshes? r = some e := by rw [Call.refreshes?, if_pos h304, hcached]
    refine ⟨ttl, swr, ?_⟩
    rw [hsettle, hfiled, hresponse, filing, hrefreshes]

/-- A response with the entry's content and status. -/
def Response.OfEntry (response : Response β) (e : CacheEntry β) : Prop :=
  response.content = e.content ∧ response.statusCode = e.statusCode

theorem storable_of_response {call : Call β} {r : OriginResponse β} {e : CacheEntry β} {now : Time}
    {filed : Option (String × CacheEntry β)} {response : Response β}
    (hstatus : e.statusCode ≠ 304) (h304 : r.statusCode = 304)
    (hsettle : settle S call r now = .ok (filed, response)) (hof : response.OfEntry e) :
    Storable S r := by
  obtain ⟨d, -, ⟨-, -, hpassed⟩ | ⟨-, ttl, swr, -, -, hfiled, -⟩⟩ := settle_eq_ok hsettle
  · rw [hpassed] at hof
    exact absurd (hof.2.symm.trans h304) hstatus
  · rw [hfiled] at hsettle
    exact storable_of_settle hsettle

namespace Edge

/-- A task is about to go on with a 304 to its conditional request for `e`. -/
structure NotModified (s : Edge β) (t : Nat) (role : Role) (call : Call β)
    (r : OriginResponse β) (e : CacheEntry β) : Prop where
  task : s.tasks[t]? = some ⟨call, .fetching role (some (.answered r))⟩
  cached : call.cached = some e
  tagged : ∃ tag, e.etag = some tag ∧ tag ≠ ""
  stored : e.statusCode ≠ 304
  status : r.statusCode = 304

/-- The call has returned, with the entry's content and status. -/
def AnsweredWith (S : Setup β) (e : CacheEntry β) (t : Nat) (s : Edge β) : Prop :=
  ∃ call reply, s.tasks[t]? = some ⟨call, .returned reply⟩ ∧ (reply.response S).OfEntry e

variable {s : Edge β} {t : Nat} {role : Role} {call : Call β} {r : OriginResponse β}
  {e : CacheEntry β}

theorem settle_of_iff (h : NotModified s t role call r e) (now : Time) :
    (∃ filed response, settle S call r now = .ok (filed, response) ∧ response.OfEntry e) ↔
      Storable S r := by
  constructor
  · rintro ⟨filed, response, hsettle, hof⟩
    exact storable_of_response h.stored h.status hsettle hof
  · intro hstorable
    obtain ⟨ttl, swr, hsettle⟩ := settle_of_notModified h.cached h.status hstorable now
    exact ⟨_, _, hsettle, rfl, rfl⟩

/-- The call hands on what `_do_fetch_and_cache` has made of the 304. -/
theorem answeredWith_iff (h : NotModified s t role call r e) (hrole : role ≠ .background) :
    (∃ s', s.step S (.resume t) = some s' ∧ AnsweredWith S e t s') ↔
      ∃ filed response, settle S call r s.wall = .ok (filed, response) ∧ response.OfEntry e := by
  obtain ⟨s', hstep, hend⟩ := step_ending (S := S) hrole h.task
  constructor
  · rintro ⟨u, hu, call', reply, hreply, hof⟩
    rw [hstep, Option.some.injEq] at hu
    subst hu
    rw [hend, Option.some.injEq, Task.mk.injEq] at hreply
    obtain ⟨rfl, hphase⟩ := hreply
    unfold Call.ending at hphase
    dsimp only at hphase
    split at hphase
    · cases hphase
    · rename_i filed response hsettle
      cases hphase
      exact ⟨filed, response, hsettle, hof⟩
  · rintro ⟨filed, response, hsettle, hof⟩
    refine ⟨s', hstep, call, .fetched response, ?_, hof⟩
    rw [hend, Call.ending, hsettle]

/-- **A 304 yields the cached representation** exactly if the 304 itself may be stored: what
`_do_fetch_and_cache` returns in any task, and what a call of `get_or_fetch` returns. -/
theorem yieldsCached_iff (h : NotModified s t role call r e) :
    (∀ now, (∃ filed response, settle S call r now = .ok (filed, response) ∧ response.OfEntry e) ↔
        Storable S r) ∧
      (role ≠ .background →
        ((∃ s', s.step S (.resume t) = some s' ∧ AnsweredWith S e t s') ↔ Storable S r)) :=
  ⟨settle_of_iff h, fun hrole => (answeredWith_iff h hrole).trans (settle_of_iff h s.wall)⟩

/-- A page with a tag, a lifetime of ten seconds and a window of a minute. -/
def stalePage : OriginResponse Nat where
  content := 1
  statusCode := 200
  etag := some "t"
  headers := Dict.ofList [("cache-control", "max-age=10, stale-while-revalidate=60")]

/-- A 304 with these directives. -/
def notModified (control : String) : OriginResponse Nat where
  content := 0
  statusCode := 304
  headers := Dict.ofList [("cache-control", control)]

def fetchedPage : List (Action Nat) := [.arrive "a" gzip, .answer 0 (.answered stalePage)]

/-- The page is stored, and asked for again when it is past its window. -/
def pageAskedAgain : List (Action Nat) := [.resume 0, .tick 100 100, .arrive "a" gzip]

/-- The same, and the origin's 304. -/
def answered304 (control : String) : List (Action Nat) :=
  (fetchedPage ++ pageAskedAgain) ++ [.answer 1 (.answered (notModified control))]

theorem notModified_answered304 (control : String) :
    ∃ s call e, Lts.run (step sampleSetup) sampleStart (answered304 control) = some s ∧
      NotModified s 1 (.leader 1) call (notModified control) e := by
  have heval : ((Lts.run (step sampleSetup) sampleStart (fetchedPage ++ pageAskedAgain)).bind
      (·.tasks[1]?)).map (fun τ => (τ.phase, τ.call.cached.map fun e => (e.etag, e.statusCode))) =
      some (.fetching (.leader 1) none, some (some "t", 200)) := by decide +kernel
  obtain ⟨τ, hτ, hphase⟩ := Option.map_eq_some_iff.mp heval
  obtain ⟨s, hrun, ht⟩ := Option.bind_eq_some_iff.mp hτ
  obtain ⟨call, phase⟩ := τ
  obtain ⟨rfl, hentry⟩ := Prod.mk.inj hphase
  obtain ⟨e, hcached, hfields⟩ := Option.map_eq_some_iff.mp hentry
  obtain ⟨htag, hstatus⟩ := Prod.mk.inj hfields
  have hanswer : s.step sampleSetup (.answer 1 (.answered (notModified control))) = some
      (s.setPhase 1 (.fetching (.leader 1) (some (.answered (notModified control))))).stamp := by
    simp [step, act, answer, ht]
  refine ⟨_, call, e, Lts.run_append.mpr ⟨s, hrun, Lts.run_singleton.mpr hanswer⟩,
    by simp [ht], hcached, ⟨"t", htag, by decide⟩, ?_, rfl⟩
  rw [hstatus]
  decide

theorem yieldsCached_iff_lifetime : ∃ s call e,
    Lts.run (step sampleSetup) sampleStart (answered304 "max-age=5") = some s ∧
    (∀ now, (∃ filed response, settle sampleSetup call (notModified "max-age=5") now =
        .ok (filed, response) ∧ response.OfEntry e) ↔ Storable sampleSetup (notModified "max-age=5")) ∧
      ((∃ s', s.step sampleSetup (.resume 1) = some s' ∧ AnsweredWith sampleSetup e 1 s') ↔
        Storable sampleSetup (notModified "max-age=5")) := by
  obtain ⟨s, call, e, hrun, h⟩ := notModified_answered304 "max-age=5"
  obtain ⟨hsettle, hanswer⟩ := yieldsCached_iff h
  exact ⟨s, call, e, hrun, hsettle, hanswer (by simp)⟩

theorem not_storable_notModified : ¬ Storable sampleSetup (notModified "no-store") := by
  rintro ⟨d, ttl, swr, hd, hcache, -⟩
  have hparse : directivesOf (notModified "no-store").headers = .ok { noStore := true } := by
    decide +kernel
  rw [hparse] at hd
  cases hd
  cases hcache

/-- The caller is handed the 304, for the tag that the service and not the caller had sent. -/
theorem not_answeredWith_noStore : ¬ ∀ (p : List (Action Nat)) (s : Edge Nat) (t : Nat)
    (event : Nat) (call : Call Nat) (r : OriginResponse Nat) (e : CacheEntry Nat),
    Lts.run (step sampleSetup) sampleStart p = some s →
      NotModified s t (.leader event) call r e →
        ∃ s', s.step sampleSetup (.resume t) = some s' ∧ AnsweredWith sampleSetup e t s' := by
  intro hall
  obtain ⟨s, call, e, hrun, h⟩ := notModified_answered304 "no-store"
  have hanswered := (answeredWith_iff h (by simp)).mp (hall _ _ _ _ _ _ _ hrun h)
  exact not_storable_notModified ((settle_of_iff h s.wall).mp hanswered)

end Edge

/-! ### A 304 that says nothing -/

/-- A 304 without Cache-Control and without Vary. -/
structure OriginResponse.Silent (r : OriginResponse β) : Prop where
  status : r.statusCode = 304
  noControl : r.headers.get? "cache-control" = none
  noVary : r.headers.get? "vary" = none

/-- Nothing but the two times differs. -/
def CacheEntry.SamePolicy (e e' : CacheEntry β) : Prop :=
  e' = { e with createdAt := e'.createdAt, lastAccessed := e'.lastAccessed }

/-- Nothing but the two times differs, and the lifetime and the window, which are those of a
response that says nothing. -/
def CacheEntry.Defaulted (S : Setup β) (e e' : CacheEntry β) : Prop :=
  e' = { e with
    createdAt := e'.createdAt, lastAccessed := e'.lastAccessed
    ttl := S.defaultTtl, staleWhileRevalidate := 0 }

/-- The header gives the default lifetime, and no stale window. -/
def DefaultPolicy (S : Setup β) (r : OriginResponse β) : Prop :=
  ∃ d, directivesOf r.headers = .ok d ∧ d.effectiveTtl S.defaultTtl = .ok S.defaultTtl ∧
    d.effectiveStaleWhileRevalidate = .ok 0

section policy

variable {e e' : CacheEntry β}

/-- What a silent 304 leaves of an entry. -/
theorem defaulted_refreshed (e : CacheEntry β) (now : Time) :
    e.core.Defaulted S (refreshed e S.defaultTtl 0 now none).core := rfl

theorem CacheEntry.Defaulted.trans {e'' : CacheEntry β} (h : e.Defaulted S e')
    (h' : e'.Defaulted S e'') : e.Defaulted S e'' := by
  unfold CacheEntry.Defaulted at h h' ⊢
  rw [h', h]

/-- The time of the last access is not looked at. -/
theorem CacheEntry.defaulted_core : e.core.Defaulted S e' ↔ e.Defaulted S e' := Iff.rfl

theorem CacheEntry.samePolicy_iff (h : e.Defaulted S e') :
    e.SamePolicy e' ↔ e.ttl = S.defaultTtl ∧ e.staleWhileRevalidate = 0 := by
  constructor
  · intro hsame
    have httl := congrArg CacheEntry.ttl hsame
    have hswr := congrArg CacheEntry.staleWhileRevalidate hsame
    exact ⟨httl.symm.trans (congrArg CacheEntry.ttl h),
      hswr.symm.trans (congrArg CacheEntry.staleWhileRevalidate h)⟩
  · rintro ⟨httl, hswr⟩
    unfold CacheEntry.Defaulted at h
    rw [← httl, ← hswr] at h
    exact h

end policy

theorem settle_of_silent {call : Call β} {r : OriginResponse β} {e : CacheEntry β}
    (hcached : call.cached = some e) (hsilent : r.Silent) (now : Time) :
    settle S call r now = .ok (some (call.key, refreshed e S.defaultTtl 0 now none),
      ⟨e.content, e.statusCode, e.headers, false⟩) := by
  have hcontrol : r.headers.getD "cache-control" "" = "" := by
    rw [Dict.getD, hsilent.noControl]
    rfl
  have hvary : r.headers.getD "vary" "" = "" := by
    rw [Dict.getD, hsilent.noVary]
    rfl
  have hdir : directivesOf r.headers = .ok {} := by
    rw [directivesOf, hcontrol]
    rfl
  have hfields : varyFields r.headers = none := by
    rw [varyFields, hvary]
    rfl
  have hrefreshes : call.refreshes? r = some e := by
    rw [Call.refreshes?, if_pos hsilent.status, hcached]
  rw [settle_eq, hdir]
  show Except.ok (some (filing S call r now S.defaultTtl 0).1,
    (filing S call r now S.defaultTtl 0).2) = _
  rw [filing, hrefreshes, hfields]

/-- A response that is no 304 is filed as it is, with what its header gives. -/
theorem newEntry_of_settle {call : Call β} {r : OriginResponse β} {now : Time} {k : String}
    {e : CacheEntry β} {response : Response β} (hnew : r.statusCode ≠ 304)
    (hsettle : settle S call r now = .ok (some (k, e), response)) :
    ∃ d ttl swr, directivesOf r.headers = .ok d ∧ d.effectiveTtl S.defaultTtl = .ok ttl ∧
      d.effectiveStaleWhileRevalidate = .ok swr ∧ k = fileKey S call (varyFields r.headers) ∧
      e = newEntry S r ttl swr now (varyFields r.headers) := by
  obtain ⟨d, hd, ⟨-, hnone, -⟩ | ⟨-, ttl, swr, httl, hswr, hfiled, -⟩⟩ := settle_eq_ok hsettle
  · cases hnone
  · have hrefreshes : call.refreshes? r = none := if_neg hnew
    rw [filing, hrefreshes] at hfiled
    cases hfiled
    exact ⟨d, ttl, swr, hd, httl, hswr, rfl, rfl⟩

/-- So its header gives the default policy exactly if the entry has it. -/
theorem defaultPolicy_iff {call : Call β} {r : OriginResponse β} {now : Time} {k : String}
    {e : CacheEntry β} {response : Response β} (hnew : r.statusCode ≠ 304)
    (hsettle : settle S call r now = .ok (some (k, e), response)) :
    DefaultPolicy S r ↔ e.ttl = S.defaultTtl ∧ e.staleWhileRevalidate = 0 := by
  obtain ⟨d, ttl, swr, hd, httl, hswr, -, rfl⟩ := newEntry_of_settle hnew hsettle
  show DefaultPolicy S r ↔ ttl = S.defaultTtl ∧ swr = 0
  constructor
  · rintro ⟨d', hd', httl', hswr'⟩
    rw [hd] at hd'
    cases hd'
    rw [httl] at httl'
    rw [hswr] at hswr'
    exact ⟨Except.ok.inj httl', Except.ok.inj hswr'⟩
  · rintro ⟨rfl, rfl⟩
    exact ⟨d, hd, httl, hswr⟩

namespace Edge

variable {s s' : Edge β} {k : String} {r₀ : OriginResponse β} {e₀ : CacheEntry β} {n : Nat}
  {since : Time}

/-- A run has filed `e₀` under `k` for the 200 response `r₀`.  The entry has been there ever
since, and `n` silent revalidations, each of the entry as it was, have renewed it; the last of
them at `since`. -/
inductive Revalidated (S : Setup β) (k : String) (r₀ : OriginResponse β) (e₀ : CacheEntry β) :
    Nat → Time → Edge β → Prop where
  | stored {store : LruCacheStore β} {breaker : CircuitBreaker} {wall mono : Time}
      {p : List (Action β)} {s s' : Edge β} {t : Nat} {call : Call β} {role : Role}
      {response : Response β} (hrun : Lts.run (step S) (start store breaker wall mono) p = some s)
      (ht : s.tasks[t]? = some ⟨call, .fetching role (some (.answered r₀))⟩)
      (hok : r₀.statusCode = 200) (hsettle : settle S call r₀ s.wall = .ok (some (k, e₀), response))
      (hstep : s.step S (.resume t) = some s') : Revalidated S k r₀ e₀ 0 s.wall s'
  | kept {n : Nat} {since : Time} {s s' : Edge β} {a : Action β}
      (h : Revalidated S k r₀ e₀ n since s) (hstep : s.step S a = some s')
      (hkept : s'.entry k = s.entry k) (hfiles : ∀ e, ¬ Files S s a k e) :
      Revalidated S k r₀ e₀ n since s'
  | renewed {n : Nat} {since : Time} {s s' : Edge β} {t : Nat} {call : Call β} {role : Role}
      {r : OriginResponse β} (h : Revalidated S k r₀ e₀ n since s)
      (ht : s.tasks[t]? = some ⟨call, .fetching role (some (.answered r))⟩) (hsilent : r.Silent)
      (hkey : call.key = k) (hcached : call.cached.map (·.core) = s.entry k)
      (hstep : s.step S (.resume t) = some s') : Revalidated S k r₀ e₀ (n + 1) s.wall s'

/-- The entry that an answer is filed as is the one under its key after the step. -/
theorem entry_of_resumed {t : Nat} {call : Call β} {role : Role} {r : OriginResponse β}
    {e : CacheEntry β} {response : Response β}
    (ht : s.tasks[t]? = some ⟨call, .fetching role (some (.answered r))⟩)
    (hsettle : settle S call r s.wall = .ok (some (k, e), response))
    (hstep : s.step S (.resume t) = some s') : s'.entry k = some e.core := by
  rw [step_settled ht hsettle, Option.some.injEq] at hstep
  subst hstep
  simp [entry, file, LruCacheStore.get?_put_self]

/-- A chain begins with an entry for a 200 response. -/
theorem Revalidated.filed (h : Revalidated S k r₀ e₀ n since s) :
    DefaultPolicy S r₀ ↔ e₀.ttl = S.defaultTtl ∧ e₀.staleWhileRevalidate = 0 := by
  induction h with
  | stored hrun ht hok hsettle hstep => exact defaultPolicy_iff (by rw [hok]; decide) hsettle
  | kept h hstep hkept hfiles ih => exact ih
  | renewed h ht hsilent hkey hcached hstep ih => exact ih

/-- **What a chain leaves under the key:** at first the entry itself, and from the first
renewal on the entry with the default policy. -/
theorem Revalidated.entry (h : Revalidated S k r₀ e₀ n since s) :
    ∃ e, s.entry k = some e ∧ e.createdAt = since ∧
      ((n = 0 ∧ e = e₀.core) ∨ (0 < n ∧ e₀.Defaulted S e)) := by
  induction h with
  | stored hrun ht hok hsettle hstep =>
      obtain ⟨d, ttl, swr, -, -, -, -, rfl⟩ := newEntry_of_settle (by rw [hok]; decide) hsettle
      exact ⟨_, entry_of_resumed ht hsettle hstep, rfl, Or.inl ⟨rfl, rfl⟩⟩
  | kept h hstep hkept hfiles ih =>
      rw [hkept]
      exact ih
  | @renewed n since s s' t call role r h ht hsilent hkey hcached hstep ih =>
      obtain ⟨e, hentry, -, hcase⟩ := ih
      rw [hentry] at hcached
      obtain ⟨cached, hread, hcore⟩ := Option.map_eq_some_iff.mp hcached
      have hsettle := settle_of_silent (S := S) hread hsilent s.wall
      rw [hkey] at hsettle
      refine ⟨_, entry_of_resumed ht hsettle hstep, rfl, Or.inr ⟨Nat.succ_pos n, ?_⟩⟩
      have hrenewed : e.Defaulted S (refreshed cached S.defaultTtl 0 s.wall none).core :=
        hcore ▸ defaulted_refreshed cached s.wall
      rcases hcase with ⟨-, rfl⟩ | ⟨-, hdefaulted⟩
      · exact CacheEntry.defaulted_core.mp hrenewed
      · exact hdefaulted.trans hrenewed

/-- Only a task that goes on, and a purge, touch what is filed. -/
theorem Revalidated.aside {a : Action β} (h : Revalidated S k r₀ e₀ n since s)
    (hstep : s.step S a = some s') (hresume : ∀ t, a ≠ .resume t)
    (hpurge : ∀ url keyPrefix, a ≠ .purge url keyPrefix) : Revalidated S k r₀ e₀ n since s' := by
  refine h.kept hstep ?_ fun e ⟨t, call, role, r, response, ha, _⟩ => hresume t ha
  obtain ⟨m, hmove, rfl⟩ := move_of_step hstep
  show m.entry k = s.entry k
  cases hmove with
  | fresh | stale | scheduled | turnedAway | joined | led | refused => exact entry_get ..
  | answered | cancelledScheduled | cancelledWaiting | ticked | reset => rfl
  | cancelledFetching => simp [Edge.entry]
  | purged => exact absurd rfl (hpurge _ _)
  | revalidating | revalidationRefused | coalesced | retried | retryRefused | settled | unsettled
  | failed => exact absurd rfl (hresume _)

/-- **A silent 304 keeps the policy of an entry** exactly if that is the default policy, in
every chain of revalidations and after each of them. -/
theorem samePolicy_revalidated_iff (h : Revalidated S k r₀ e₀ n since s) (hn : 0 < n) :
    ∃ e, s.entry k = some e ∧ e.createdAt = since ∧ (e₀.SamePolicy e ↔ DefaultPolicy S r₀) := by
  obtain ⟨e, hentry, hcreated, ⟨hzero, -⟩ | ⟨-, hdefaulted⟩⟩ := h.entry
  · omega
  · refine ⟨e, hentry, hcreated, ?_⟩
    rw [h.filed]
    exact CacheEntry.samePolicy_iff hdefaulted

def silent304 : OriginResponse Nat where
  content := 0
  statusCode := 304

/-- The call for the page, with the origin's answer to go on with. -/
def pageFetched : Edge Nat := Lts.last (step sampleSetup) sampleStart fetchedPage

/-- What becomes of the page. -/
def pageEntry : CacheEntry Nat := newEntry sampleSetup stalePage 10 60 0 none

theorem run_fetchedPage :
    Lts.run (step sampleSetup) sampleStart fetchedPage = some pageFetched :=
  Lts.run_last (by decide +kernel)

theorem fetching_pageFetched : pageFetched.tasks[0]? = some
    ⟨sampleStart.arrival sampleSetup "a" gzip,
      .fetching (.leader 0) (some (.answered stalePage))⟩ := by decide +kernel

theorem settle_stalePage :
    settle sampleSetup (sampleStart.arrival sampleSetup "a" gzip) stalePage pageFetched.wall =
      .ok (some (keyOf sampleSetup "a" gzip, pageEntry), ⟨1, 200, stalePage.headers, false⟩) := by
  decide +kernel

theorem directivesOf_stalePage : directivesOf stalePage.headers =
    .ok { maxAge := some 10, staleWhileRevalidate := some 60 } := by decide +kernel

/-- The page is asked for again, and the origin's 304 says nothing. -/
def answeredSilently : List (Action Nat) := pageAskedAgain ++ [.answer 1 (.answered silent304)]

/-- One silent revalidation of the page. -/
theorem revalidated_stalePage : ∃ s,
    Revalidated sampleSetup (keyOf sampleSetup "a" gzip) stalePage pageEntry 1 100 s := by
  let u := Lts.last (step sampleSetup) pageFetched answeredSilently
  have hask : (u.tasks[1]?).map (fun τ => (τ.phase, τ.call.key, τ.call.cached.map (·.core))) =
      some (.fetching (.leader 1) (some (.answered silent304)), keyOf sampleSetup "a" gzip,
        u.entry (keyOf sampleSetup "a" gzip)) := by decide +kernel
  have hrun : Lts.run (step sampleSetup) pageFetched answeredSilently = some u :=
    Lts.run_last (by decide +kernel)
  have hwall : u.wall = 100 := by decide +kernel
  have hresume : (u.step sampleSetup (.resume 1)).isSome = true := by decide +kernel
  obtain ⟨m₁, hm₁, hrest⟩ := Lts.run_cons.mp hrun
  obtain ⟨m₂, hm₂, hrest⟩ := Lts.run_cons.mp hrest
  obtain ⟨m₃, hm₃, hrest⟩ := Lts.run_cons.mp hrest
  have hstored := Revalidated.stored run_fetchedPage fetching_pageFetched rfl settle_stalePage hm₁
  have hasked := ((hstored.aside hm₂ (by simp) (by simp)).aside hm₃ (by simp) (by simp)).aside
    (Lts.run_singleton.mp hrest) (by simp) (by simp)
  obtain ⟨⟨call, phase⟩, ht, hτ⟩ := Option.map_eq_some_iff.mp hask
  obtain ⟨rfl, hτ⟩ := Prod.mk.inj hτ
  obtain ⟨hkey, hcached⟩ := Prod.mk.inj hτ
  obtain ⟨s, hstep⟩ := Option.isSome_iff_exists.mp hresume
  exact ⟨s, hwall ▸ hasked.renewed ht ⟨rfl, rfl, rfl⟩ hkey hcached hstep⟩

theorem samePolicy_revalidated_iff_stalePage : ∃ s, Revalidated sampleSetup
    (keyOf sampleSetup "a" gzip) stalePage pageEntry 1 100 s ∧
    ∃ e, s.entry (keyOf sampleSetup "a" gzip) = some e ∧ e.createdAt = 100 ∧
      (pageEntry.SamePolicy e ↔ DefaultPolicy sampleSetup stalePage) := by
  obtain ⟨s, h⟩ := revalidated_stalePage
  exact ⟨s, h, samePolicy_revalidated_iff h Nat.one_pos⟩

theorem not_defaultPolicy_stalePage : ¬ DefaultPolicy sampleSetup stalePage := by
  rintro ⟨d, hd, httl, -⟩
  rw [directivesOf_stalePage] at hd
  cases hd
  rw [CacheDirectives.effectiveTtl, if_neg Bool.false_ne_true] at httl
  dsimp only at httl
  have hten := float_eq httl
  norm_num [sampleSetup] at hten

/-- Ten seconds become a minute, and the stale window is gone. -/
theorem not_samePolicy_stalePage : ¬ ∀ (k : String) (r₀ : OriginResponse Nat) (e₀ : CacheEntry Nat)
    (n : Nat) (since : Time) (s : Edge Nat), Revalidated sampleSetup k r₀ e₀ n since s → 0 < n →
      ∃ e, s.entry k = some e ∧ e₀.SamePolicy e := by
  intro hall
  obtain ⟨s, h⟩ := revalidated_stalePage
  obtain ⟨e, hentry, hsame⟩ := hall _ _ _ _ _ _ h Nat.one_pos
  obtain ⟨e', hentry', -, ⟨hzero, -⟩ | ⟨-, hdefaulted⟩⟩ := h.entry
  · cases hzero
  · rw [hentry, Option.some.injEq] at hentry'
    subst hentry'
    have hpolicy := (CacheEntry.samePolicy_iff hdefaulted).mp hsame
    exact not_defaultPolicy_stalePage (h.filed.mpr hpolicy)

end Edge

end Cdn

/-
The windows of a stored response.

The header of a response gives a lifetime and, after it, a stale window.  The two predicates
of an entry split the time from its birth at these two ages: up to the first the entry is
served as it is, up to the second it is served and revalidated, and from then on the call
asks the origin.  The header is read when the response is stored, and every reading of the
entry leaves both numbers as they are; so the split is the one the header asks for.
-/
import Cdn.Proofs.Revalidation
import Cdn.Proofs.Mandatory
import Cdn.Proofs.Reuse
import Cdn.Proofs.NotModified

namespace Cdn

variable {β : Type} {S : Setup β}

/-! ### The two ages -/

namespace CacheDirectives

/-- `s-maxage`, or else `max-age`, or else the default. -/
def lifetime (d : CacheDirectives) (defaultTtl : Time) : Time :=
  match d.sMaxage, d.maxAge with
  | some n, _ => n
  | none, some n => n
  | none, none => defaultTtl

/-- `stale-while-revalidate`, or nothing. -/
def window (d : CacheDirectives) : Time := ((d.staleWhileRevalidate.getD 0 : Nat) : Time)

theorem lifetime_of_effectiveTtl {d : CacheDirectives} {defaultTtl ttl : Time}
    (hnoCache : d.noCache = false) (h : d.effectiveTtl defaultTtl = .ok ttl) :
    ttl = d.lifetime defaultTtl := by
  unfold effectiveTtl at h
  rw [hnoCache, if_neg Bool.false_ne_true] at h
  unfold lifetime
  cases hs : d.sMaxage with
  | some n =>
      rw [hs] at h
      exact float_eq h
  | none =>
      rw [hs] at h
      cases hm : d.maxAge with
      | some n =>
          rw [hm] at h
          exact float_eq h
      | none =>
          rw [hm] at h
          exact (Except.ok.inj h).symm

theorem window_of_effective {d : CacheDirectives} {swr : Time}
    (h : d.effectiveStaleWhileRevalidate = .ok swr) : swr = d.window := by
  unfold effectiveStaleWhileRevalidate at h
  unfold window
  cases hw : d.staleWhileRevalidate with
  | some n =>
      rw [hw] at h
      exact float_eq h
  | none =>
      rw [hw] at h
      simpa using (Except.ok.inj h).symm

end CacheDirectives

namespace CacheEntry

variable {e : CacheEntry β} {now : Time}

theorem isExpired_eq_false_iff : e.isExpired now = false ↔ now - e.createdAt ≤ e.ttl := by
  rw [isExpired, decide_eq_false_iff_not, not_lt]

theorem isStaleServable_iff : e.isStaleServable now = true ↔
    e.ttl < now - e.createdAt ∧ now - e.createdAt ≤ e.ttl + e.staleWhileRevalidate := by
  simp [isStaleServable]

end CacheEntry

namespace Edge

variable {s : Edge β} {k : String} {r : OriginResponse β} {d : CacheDirectives}
  {e : CacheEntry β} {since : Time} {path : String} {rh : Option Headers}

/-! ### A stored response -/

/-- A state in which a response is still stored.  A run led to a task that went on with `r` and
filed `e` for it under `k`, at the time `since`; after any other steps `e` is still there. -/
inductive StoredSince (S : Setup β) (k : String) (r : OriginResponse β) (e : CacheEntry β) :
    Time → Edge β → Prop where
  | intro {store : LruCacheStore β} {breaker : CircuitBreaker} {wall mono : Time}
      {p q : List (Action β)} {s s' : Edge β} {t : Nat} {call : Call β} {role : Role}
      {response : Response β} (hrun : Lts.run (step S) (start store breaker wall mono) p = some s)
      (ht : s.tasks[t]? = some ⟨call, .fetching role (some (.answered r))⟩)
      (hsettle : settle S call r s.wall = .ok (some (k, e), response))
      (hrest : Lts.run (step S) s (.resume t :: q) = some s') (hkept : s'.entry k = some e.core) :
      StoredSince S k r e s.wall s'

/-- The flights are in order, and the entry is the one the response makes. -/
theorem StoredSince.ok (h : StoredSince S k r e since s) : SingleFlight.Ok s.flight := by
  cases h with
  | intro hrun ht hsettle hrest hkept => exact ok_of_run (Lts.run_append.mpr ⟨_, hrun, hrest⟩)

theorem StoredSince.entry (h : StoredSince S k r e since s) : s.entry k = some e.core := by
  cases h with
  | intro hrun ht hsettle hrest hkept => exact hkept

/-- **The entry has the ages that the header gives.** -/
theorem StoredSince.newEntry (h : StoredSince S k r e since s) (hok : r.statusCode = 200)
    (hdir : directivesOf r.headers = .ok d) (hnoCache : d.noCache = false) :
    e = newEntry S r (d.lifetime S.defaultTtl) d.window since (varyFields r.headers) := by
  cases h with
  | intro hrun ht hsettle hrest hkept =>
      obtain ⟨d', ttl, swr, hdir', httl, hswr, -, rfl⟩ :=
        newEntry_of_settle (by rw [hok]; decide) hsettle
      rw [hdir] at hdir'
      cases hdir'
      rw [CacheDirectives.lifetime_of_effectiveTtl hnoCache httl,
        CacheDirectives.window_of_effective hswr]

/-- What a call finds of it. -/
structure Found (S : Setup β) (r : OriginResponse β) (d : CacheDirectives) (since : Time)
    (e : CacheEntry β) : Prop where
  content : e.content = r.content
  status : e.statusCode = r.statusCode
  headers : e.headers = r.headers
  created : e.createdAt = since
  ttl : e.ttl = d.lifetime S.defaultTtl
  window : e.staleWhileRevalidate = d.window

theorem StoredSince.found (h : StoredSince S k r e since s) (hok : r.statusCode = 200)
    (hdir : directivesOf r.headers = .ok d) (hnoCache : d.noCache = false)
    (hkey : keyOf S path rh = k) :
    ∃ e', (s.arrival S path rh).cached = some e' ∧ Found S r d since e' := by
  have hentry := h.entry
  rw [← hkey, ← arrival_entry, h.newEntry hok hdir hnoCache] at hentry
  obtain ⟨e', hcached, hcore⟩ := Option.map_eq_some_iff.mp hentry
  exact ⟨e', hcached, {
    content := congrArg (·.content) hcore
    status := congrArg (·.statusCode) hcore
    headers := congrArg (·.headers) hcore
    created := congrArg (·.createdAt) hcore
    ttl := congrArg (·.ttl) hcore
    window := congrArg (·.staleWhileRevalidate) hcore }⟩

/-! ### The three answers -/

/-- The stored response, as a hit. -/
def hit (r : OriginResponse β) : Response β := ⟨r.content, r.statusCode, r.headers, true⟩

/-- The call that arrives is answered as a fresh hit.  The origin is left alone, and there is
no new task but the call's own. -/
def ServedFresh (S : Setup β) (s : Edge β) (path : String) (rh : Option Headers)
    (response : Response β) : Prop :=
  ∃ s' call e, s.step S (.arrive path rh) = some s' ∧
    s'.tasks = s.tasks ++ [⟨call, .returned (.fresh e)⟩] ∧
    (Reply.fresh e).response S = response ∧ s'.originCalls = s.originCalls ∧
    s'.revalidationTasks = s.revalidationTasks

/-- It is answered with the stale entry, and one revalidation is scheduled. -/
def ServedStale (S : Setup β) (s : Edge β) (path : String) (rh : Option Headers)
    (response : Response β) : Prop :=
  ∃ s' call e, s.step S (.arrive path rh) = some s' ∧
    s'.tasks = s.tasks ++ [⟨call, .returned (.stale e)⟩, ⟨call, .scheduled⟩] ∧
    (Reply.stale e).response S = response ∧ s'.originCalls = s.originCalls ∧
    s'.revalidationTasks = s.revalidationTasks ++ [s.tasks.length + 1]

/-- It asks the origin.  Whatever comes of that, and however long it takes, the call ends with
what the outcome makes of it. -/
def Asks (S : Setup β) (s : Edge β) (path : String) (rh : Option Headers) : Prop :=
  ∃ s' call event, s.step S (.arrive path rh) = some s' ∧
    s'.tasks = s.tasks ++ [⟨call, .fetching (.leader event) none⟩] ∧
    s'.originCalls = s.originCalls ++ [⟨s.tasks.length, path, fetchHeaders call.cached⟩] ∧
    s'.revalidationTasks = s.revalidationTasks ∧
    ∀ (outcome : FetchOutcome β) (wall mono : Time), s.mono ≤ mono →
      ∃ s'', Lts.run (step S) s' [.tick wall mono, .answer s.tasks.length outcome,
          .resume s.tasks.length] = some s'' ∧
        s''.tasks[s.tasks.length]? = some ⟨call, call.ending S wall outcome⟩

theorem servedFresh_of_found (hcached : (s.arrival S path rh).cached = some e)
    (found : Found S r d since e) (hage : s.wall - since ≤ d.lifetime S.defaultTtl) :
    ServedFresh S s path rh (hit r) := by
  have hfresh : e.isExpired s.wall = false := by
    rw [CacheEntry.isExpired_eq_false_iff, found.created, found.ttl]
    exact hage
  refine ⟨_, s.arrival S path rh, e, step_fresh hcached hfresh, rfl, ?_, rfl, rfl⟩
  rw [Reply.response, found.content, found.status, found.headers, hit]

theorem servedStale_of_found (hcached : (s.arrival S path rh).cached = some e)
    (found : Found S r d since e) (hfree : s.inflight.get? (keyOf S path rh) = none)
    (hold : d.lifetime S.defaultTtl < s.wall - since)
    (hage : s.wall - since ≤ d.lifetime S.defaultTtl + d.window) :
    ServedStale S s path rh (hit r) := by
  have hservable : e.isStaleServable s.wall = true := by
    rw [CacheEntry.isStaleServable_iff, found.created, found.ttl, found.window]
    exact ⟨hold, hage⟩
  have hnone : s.inflight.contains (keyOf S path rh) = false := by rw [Dict.contains, hfree]; rfl
  refine ⟨_, s.arrival S path rh, e, step_scheduled hcached hservable hnone, ?_, ?_, rfl, ?_⟩
  · simp
  · rw [Reply.response, found.content, found.status, found.headers, hit]
  · simp [stamp, schedule, push, read]

/-- A request that has been sent comes back, and the call ends. -/
theorem run_answered {t : Nat} {call : Call β} {event : Nat}
    (ht : s.tasks[t]? = some ⟨call, .fetching (.leader event) none⟩) (outcome : FetchOutcome β)
    {wall mono : Time} (hmono : s.mono ≤ mono) :
    ∃ s', Lts.run (step S) s [.tick wall mono, .answer t outcome, .resume t] = some s' ∧
      s'.tasks[t]? = some ⟨call, call.ending S wall outcome⟩ := by
  let ticked : Edge β := stamp { s with wall, mono }
  let back : Edge β := (ticked.setPhase t (.fetching (.leader event) (some outcome))).stamp
  have htick : s.step S (.tick wall mono) = some ticked := by simp [step, act, tick, hmono, ticked]
  have hticked : ticked.tasks[t]? = some ⟨call, .fetching (.leader event) none⟩ := ht
  have hanswer : ticked.step S (.answer t outcome) = some back := by
    simp [step, act, answer, hticked, back]
  have hback : back.tasks[t]? = some ⟨call, .fetching (.leader event) (some outcome)⟩ := by
    simp [back, hticked]
  obtain ⟨s', hresume, hend⟩ := step_ending (S := S) (by simp) hback
  exact ⟨s', Lts.run_cons.mpr ⟨_, htick, Lts.run_cons.mpr ⟨_, hanswer,
    Lts.run_singleton.mpr hresume⟩⟩, hend⟩

theorem asks_of_found (hcached : (s.arrival S path rh).cached = some e)
    (found : Found S r d since e) (alone : s.Alone) (ok : SingleFlight.Ok s.flight)
    (hclosed : s.circuitBreaker.state = .closed)
    (hage : d.lifetime S.defaultTtl + d.window < s.wall - since) : Asks S s path rh := by
  have hwindow : 0 ≤ d.window := Nat.cast_nonneg _
  have hmiss : (s.arrival S path rh).Missed s.wall := by
    intro e' he'
    rw [hcached] at he'
    cases he'
    refine CacheEntry.not_servable_of_overAge (found.window ▸ hwindow) ?_
    rw [CacheEntry.OverAge, found.created, found.ttl, found.window]
    exact hage
  have htasks := led_tasks s (.leader s.events.length) (s.arrival S path rh) (keyOf S path rh)
    s.circuitBreaker
  refine ⟨_, s.arrival S path rh, s.events.length, alone.step_led ok hclosed hmiss, htasks, rfl,
    rfl, ?_⟩
  intro outcome wall mono hmono
  have hfetching : (s.tasks ++ [Task.mk (s.arrival S path rh)
      (.fetching (.leader s.events.length) none)])[s.tasks.length]? =
      some ⟨s.arrival S path rh, .fetching (.leader s.events.length) none⟩ := by simp
  exact run_answered (htasks ▸ hfetching) outcome hmono

/-- **The windows of a stored response.**  While no call is under way and the circuit is closed,
a call for its key is answered by its age: within the lifetime as a fresh hit, in the window
after it with the stale entry and one revalidation, and from then on by the origin. -/
theorem windows (hstored : StoredSince S k r e since s) (hok : r.statusCode = 200)
    (hdir : directivesOf r.headers = .ok d) (hnoCache : d.noCache = false) (halone : s.Alone)
    (hclosed : s.circuitBreaker.state = .closed) (hkey : keyOf S path rh = k) :
    (s.wall - since ≤ d.lifetime S.defaultTtl → ServedFresh S s path rh (hit r)) ∧
      (d.lifetime S.defaultTtl < s.wall - since →
        s.wall - since ≤ d.lifetime S.defaultTtl + d.window → ServedStale S s path rh (hit r)) ∧
      (d.lifetime S.defaultTtl + d.window < s.wall - since → Asks S s path rh) := by
  obtain ⟨e', hcached, found⟩ := hstored.found hok hdir hnoCache hkey
  exact ⟨servedFresh_of_found hcached found,
    servedStale_of_found hcached found (halone.free hstored.ok _),
    asks_of_found hcached found halone hstored.ok hclosed⟩

/-- The page, ten seconds after its lifetime. -/
def agedPage : Edge Nat :=
  Lts.last (step sampleSetup) pageFetched [.resume 0, .tick 20 20]

theorem windows_agedPage : ServedStale sampleSetup agedPage "a" gzip (hit stalePage) := by
  have hrun : Lts.run (step sampleSetup) pageFetched [.resume 0, .tick 20 20] = some agedPage :=
    Lts.run_last (by decide +kernel)
  have hkept : agedPage.entry (keyOf sampleSetup "a" gzip) = some pageEntry.core := by
    decide +kernel
  have hwall : agedPage.wall = 20 := by decide +kernel
  have hsince : pageFetched.wall = 0 := by decide +kernel
  have hstale := (windows (.intro run_fetchedPage fetching_pageFetched settle_stalePage hrun hkept)
    rfl directivesOf_stalePage rfl (by decide +kernel) (by decide +kernel) rfl).2.1
  rw [hwall, hsince] at hstale
  refine hstale ?_ ?_ <;> norm_num [CacheDirectives.lifetime, CacheDirectives.window]

end Edge

end Cdn

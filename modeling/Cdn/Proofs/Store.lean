/-
What a step does to the store.

`entry` reads the store as a map from keys to entries, without the time of the last
access.  A step leaves the map alone, loses entries from it, or files one entry: and
then it is a task that goes on with the origin's answer.
-/
import Cdn.Proofs.Keys
import Cdn.Proofs.Moves

namespace Cdn

variable {β : Type} {S : Setup β}

/-! ### What is filed -/

/-- What `settle` can come to: nothing filed, an old entry refreshed, a new one made. -/
inductive Settled (S : Setup β) (call : Call β) (r : OriginResponse β) (now : Time) :
    Option (String × CacheEntry β) → Response β → Prop where
  | passed : Settled S call r now none ⟨r.content, r.statusCode, r.headers, false⟩
  | refreshed {cached : CacheEntry β} {ttl swr : Time} (hstatus : r.statusCode = 304)
      (hcached : call.cached = some cached) (hswr : 0 ≤ swr) :
      Settled S call r now
        (some (call.key, refreshed cached ttl swr now (varyFields r.headers)))
        ⟨cached.content, cached.statusCode, cached.headers, false⟩
  | filed {ttl swr : Time} (hnew : r.statusCode = 304 → call.cached = none) (hswr : 0 ≤ swr) :
      Settled S call r now
        (some (fileKey S call (varyFields r.headers),
          newEntry S r ttl swr now (varyFields r.headers)))
        ⟨r.content, r.statusCode, r.headers, false⟩

/-- The entry a response refreshes: of a 304, the one the call has read. -/
def Call.refreshes? (call : Call β) (r : OriginResponse β) : Option (CacheEntry β) :=
  if r.statusCode = 304 then call.cached else none

/-- What a cacheable response comes to, with the lifetime and the window its header gives. -/
def filing (S : Setup β) (call : Call β) (r : OriginResponse β) (now ttl swr : Time) :
    (String × CacheEntry β) × Response β :=
  match call.refreshes? r with
  | some cached =>
      ((call.key, refreshed cached ttl swr now (varyFields r.headers)),
        ⟨cached.content, cached.statusCode, cached.headers, false⟩)
  | none =>
      ((fileKey S call (varyFields r.headers), newEntry S r ttl swr now (varyFields r.headers)),
        ⟨r.content, r.statusCode, r.headers, false⟩)

theorem settle_eq (call : Call β) (r : OriginResponse β) (now : Time) :
    settle S call r now = directivesOf r.headers >>= fun d =>
      if d.isCacheable then
        d.effectiveTtl S.defaultTtl >>= fun ttl => d.effectiveStaleWhileRevalidate >>= fun swr =>
          .ok (some (filing S call r now ttl swr).1, (filing S call r now ttl swr).2)
      else .ok (none, ⟨r.content, r.statusCode, r.headers, false⟩) := by
  unfold settle filing Call.refreshes?
  refine bind_congr fun d => ?_
  cases d.isCacheable with
  | false => rfl
  | true =>
      refine bind_congr fun ttl => bind_congr fun swr => ?_
      cases hrefresh : (if r.statusCode = 304 then call.cached else none) <;> rfl

/-- **A response is passed on, or filed with what its header gives.** -/
theorem settle_eq_ok {call : Call β} {r : OriginResponse β} {now : Time}
    {filed : Option (String × CacheEntry β)} {response : Response β}
    (h : settle S call r now = .ok (filed, response)) :
    ∃ d, directivesOf r.headers = .ok d ∧
      ((d.isCacheable = false ∧ filed = none ∧
          response = ⟨r.content, r.statusCode, r.headers, false⟩) ∨
        (d.isCacheable = true ∧ ∃ ttl swr, d.effectiveTtl S.defaultTtl = .ok ttl ∧
          d.effectiveStaleWhileRevalidate = .ok swr ∧
          filed = some (filing S call r now ttl swr).1 ∧
          response = (filing S call r now ttl swr).2)) := by
  rw [settle_eq] at h
  obtain ⟨d, hd, h⟩ := bind_ok h
  refine ⟨d, hd, ?_⟩
  split at h
  · rename_i hcache
    obtain ⟨ttl, httl, h⟩ := bind_ok h
    obtain ⟨swr, hswr, h⟩ := bind_ok h
    cases h
    exact Or.inr ⟨hcache, ttl, swr, httl, hswr, rfl, rfl⟩
  · rename_i hcache
    cases h
    exact Or.inl ⟨Bool.eq_false_of_not_eq_true hcache, rfl, rfl⟩

theorem settled_of_settle {call : Call β} {r : OriginResponse β} {now : Time}
    {filed : Option (String × CacheEntry β)} {response : Response β}
    (h : settle S call r now = .ok (filed, response)) : Settled S call r now filed response := by
  obtain ⟨d, -, ⟨-, rfl, rfl⟩ | ⟨-, ttl, swr, -, hswr, rfl, rfl⟩⟩ := settle_eq_ok h
  · exact Settled.passed
  · have hnonneg := CacheDirectives.effectiveStaleWhileRevalidate_nonneg hswr
    unfold filing Call.refreshes?
    split
    · rename_i cached hcached
      split at hcached
      · rename_i hstatus
        exact Settled.refreshed hstatus hcached hnonneg
      · cases hcached
    · rename_i hnew
      refine Settled.filed (fun hstatus => ?_) hnonneg
      rwa [if_pos hstatus] at hnew

/-- A response raises only where a number in its Cache-Control is too large. -/
theorem settle_error {call : Call β} {r : OriginResponse β} {now : Time} {x : Exn}
    (h : settle S call r now = .error x) : x = .value ∨ x = .overflow := by
  rw [settle_eq] at h
  rcases bind_error h with h | ⟨directives, -, h⟩
  · unfold directivesOf at h
    dsimp only at h
    split at h
    · exact Or.inl (parseCacheControl_error h)
    · cases h
  · split at h
    · rcases bind_error h with h | ⟨ttl, -, h⟩
      · exact Or.inr (CacheDirectives.effectiveTtl_error h)
      · rcases bind_error h with h | ⟨swr, -, h⟩
        · exact Or.inr (CacheDirectives.effectiveStaleWhileRevalidate_error h)
        · cases h
    · cases h

/-- Without Vary a response is filed under the key that was looked up. -/
theorem fileKey_of_no_vary {call : Call β} {r : OriginResponse β}
    (h : r.headers.getD "vary" "" = "") : fileKey S call (varyFields r.headers) = call.key := by
  simp [varyFields, h, fileKey]

/-! ### What a response to a call carries, and to where -/

/-- The answer a task at the origin will go on with. -/
def Task.answer? (τ : Task β) : Option (OriginResponse β) :=
  match τ.phase with
  | .fetching _ (some (.answered r)) => some r
  | _ => none

theorem Task.answer?_eq_some {call : Call β} {phase : Phase β} {r : OriginResponse β} :
    Task.answer? ⟨call, phase⟩ = some r ↔ ∃ role, phase = .fetching role (some (.answered r)) := by
  unfold Task.answer?
  constructor
  · intro h
    split at h
    · rename_i role r' hphase
      cases h
      exact ⟨role, hphase⟩
    · cases h
  · rintro ⟨role, rfl⟩
    rfl

/-- The content a call was served as a fresh hit. -/
def Task.freshHit? (τ : Task β) : Option β :=
  match τ.phase with
  | .returned (.fresh e) => some e.content
  | _ => none

theorem Task.freshHit?_eq_some {τ : Task β} {b : β} (h : τ.freshHit? = some b) :
    ∃ e, τ.phase = .returned (.fresh e) ∧ e.content = b := by
  unfold Task.freshHit? at h
  split at h
  · rename_i e hphase
    cases h
    exact ⟨e, hphase, rfl⟩
  · cases h

/-- A response the service may put into the store. -/
def cacheable (r : OriginResponse β) : Bool :=
  match directivesOf r.headers with
  | .ok directives => directives.isCacheable
  | .error _ => false

/-- The key the response goes under. -/
def Call.target (S : Setup β) (call : Call β) (r : OriginResponse β) : String :=
  match call.refreshes? r with
  | some _ => call.key
  | none => fileKey S call (varyFields r.headers)

/-- The content the response leaves there. -/
def Call.carried (call : Call β) (r : OriginResponse β) : β :=
  match call.refreshes? r with
  | some e => e.content
  | none => r.content

/-- It is a variant key of the path that was asked for. -/
theorem variantKey_target {call : Call β} (hkey : VariantKey S call.path call.key)
    (r : OriginResponse β) : VariantKey S call.path (call.target S r) := by
  unfold Call.target
  split
  · exact hkey
  · exact variantKey_fileKey S hkey _

theorem cacheable_eq {r : OriginResponse β} {d : CacheDirectives}
    (h : directivesOf r.headers = .ok d) : cacheable r = d.isCacheable := by rw [cacheable, h]

theorem cacheable_of_settle {call : Call β} {r : OriginResponse β} {now : Time}
    {kv : String × CacheEntry β} {response : Response β}
    (h : settle S call r now = .ok (some kv, response)) : cacheable r = true := by
  obtain ⟨d, hd, ⟨-, hnone, -⟩ | ⟨hcache, -⟩⟩ := settle_eq_ok h
  · cases hnone
  · rw [cacheable_eq hd, hcache]

/-- **What is filed is the content the response carries, under the key it goes to.** -/
theorem Settled.carried {call : Call β} {r : OriginResponse β} {now : Time} {k : String}
    {e : CacheEntry β} {response : Response β} (h : Settled S call r now (some (k, e)) response) :
    k = call.target S r ∧ e.content = call.carried r := by
  cases h with
  | refreshed hstatus hcached hswr =>
      have hrefreshes : call.refreshes? r = call.cached := if_pos hstatus
      simp [Call.target, Call.carried, hrefreshes, hcached, Cdn.refreshed]
  | filed hnew hswr =>
      have hrefreshes : call.refreshes? r = none := by
        unfold Call.refreshes?
        split
        · exact hnew ‹_›
        · rfl
      simp [Call.target, Call.carried, hrefreshes, newEntry]

/-- The call that fetched is told that it was no hit. -/
theorem Settled.cacheHit {call : Call β} {r : OriginResponse β} {now : Time}
    {filed : Option (String × CacheEntry β)} {response : Response β}
    (h : Settled S call r now filed response) : response.cacheHit = false := by
  cases h <;> rfl

namespace Edge

/-! ### The store as a map -/

/-- The entry under a key, without the time of its last access. -/
def entry (s : Edge β) (k : String) : Option (CacheEntry β) :=
  (s.cacheStore.store.get? k).map (·.core)

theorem entry_of_get {s : Edge β} {k : String} {e : CacheEntry β}
    (h : s.cacheStore.store.get? k = some e) : s.entry k = some e.core := by simp [entry, h]

/-- A call has read what is in the store under its key. -/
theorem arrival_cached (s : Edge β) (path : String) (rh : Option Headers) :
    (s.arrival S path rh).cached =
      (s.cacheStore.store.get? (keyOf S path rh)).map (·.touch s.wall) := by
  simp [arrival]

theorem arrival_entry (s : Edge β) (path : String) (rh : Option Headers) :
    (s.arrival S path rh).cached.map (·.core) = s.entry (keyOf S path rh) := by
  rw [arrival_cached, entry, Option.map_map]
  rfl

/-- What a call has read is the entry under its key. -/
theorem entry_of_cached {s : Edge β} {path : String} {rh : Option Headers} {e : CacheEntry β}
    (h : (s.arrival S path rh).cached = some e) : s.entry (keyOf S path rh) = some e.core := by
  rw [← arrival_entry, h, Option.map_some]

/-- A lookup leaves the map as it was. -/
theorem entry_get (s : Edge β) (key k : String) :
    ((s.cacheStore.get s.wall key).2.store.get? k).map (·.core) = s.entry k := by
  rw [LruCacheStore.get?_get]
  split
  · rename_i h
    subst h
    rw [Option.map_map]
    rfl
  · rfl

/-- A purge takes out of the map what it covers. -/
theorem entry_purge (s : Edge β) (url keyPrefix : Option String) (k : String) :
    (s.purge url keyPrefix).entry k = if covers url keyPrefix k then none else s.entry k := by
  simp only [entry, purge, get?_purgeCache]
  split <;> rfl

/-- A task goes on with an answer of the origin that is filed as `e` under `k`. -/
def Files (S : Setup β) (s : Edge β) (a : Action β) (k : String) (e : CacheEntry β) : Prop :=
  ∃ t call role r response, a = .resume t ∧
    s.tasks[t]? = some ⟨call, .fetching role (some (.answered r))⟩ ∧
    settle S call r s.wall = .ok (some (k, e), response)

/-- What a step makes of the entry under a key. -/
inductive EntryMove (S : Setup β) (s m : Edge β) (a : Action β) (k : String) : Prop where
  | kept (h : m.entry k = s.entry k)
  | lost (h : m.entry k = none)
  | filed (e : CacheEntry β) (hfiles : Files S s a k e) (h : m.entry k = some e.core)

theorem entryMove_of_eq {s m : Edge β} {a : Action β} {k : String}
    (h : m.cacheStore = s.cacheStore) : EntryMove S s m a k := .kept (by rw [entry, h, entry])

theorem entryMove_of_read {s m : Edge β} {a : Action β} {k key : String}
    (h : m.cacheStore = (s.cacheStore.get s.wall key).2) : EntryMove S s m a k :=
  .kept (by rw [entry, h, entry_get])

/-- **A step keeps an entry, loses it, or files the origin's answer in its place.** -/
theorem Move.entryMove {s m : Edge β} {a : Action β} (h : Move S s a m) (k : String) :
    EntryMove S s m a k := by
  cases h with
  | fresh => exact entryMove_of_read rfl
  | stale => exact entryMove_of_read rfl
  | scheduled => exact entryMove_of_read rfl
  | turnedAway => exact entryMove_of_read rfl
  | joined => exact entryMove_of_read rfl
  | led => exact entryMove_of_read rfl
  | refused => exact entryMove_of_read rfl
  | coalesced => exact entryMove_of_read rfl
  | retried => exact entryMove_of_read rfl
  | retryRefused => exact entryMove_of_read rfl
  | answered => exact entryMove_of_eq rfl
  | revalidating => exact entryMove_of_eq rfl
  | revalidationRefused => exact entryMove_of_eq rfl
  | unsettled => exact entryMove_of_eq (by simp)
  | failed => exact entryMove_of_eq (by simp)
  | cancelledScheduled => exact entryMove_of_eq rfl
  | cancelledWaiting => exact entryMove_of_eq rfl
  | cancelledFetching => exact entryMove_of_eq (by simp)
  | ticked => exact entryMove_of_eq rfl
  | reset => exact entryMove_of_eq rfl
  | @purged url keyPrefix =>
      by_cases hcovers : covers url keyPrefix k = true
      · exact .lost (by rw [entry_purge, if_pos hcovers])
      · exact .kept (by rw [entry_purge, if_neg hcovers])
  | @settled t call role r filed response ht hsettle =>
      cases filed with
      | none => exact entryMove_of_eq (by simp [file])
      | some kv =>
          obtain ⟨key, e⟩ := kv
          by_cases hk : k = key
          · subst hk
            exact .filed e ⟨t, call, role, r, response, rfl, ht, hsettle⟩
              (by simp [entry, file, LruCacheStore.get?_put_self])
          · rcases s.cacheStore.get?_put_of_ne e hk with hput | hput
            · exact .kept (by simp [entry, file, hput])
            · exact .lost (by simp [entry, file, hput])

end Edge

end Cdn

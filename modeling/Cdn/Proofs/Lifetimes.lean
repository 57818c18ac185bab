/-
Numbers that are too large.

A lifetime in a header may have any number of digits.  It is converted twice on its way into an
entry, by `int` and by `float`, and each of them gives up at a size of its own; nothing handles
what they raise, and by then the breaker has counted the fetch as a success.  A header survives
exactly if the numbers that are looked at are small enough, which are fewer than the numbers in
it: the last for each lifetime, and of the two that make the time to live the one that counts.
-/
import Cdn.Proofs.Composition
import Cdn.Proofs.NotModified

namespace Cdn

variable {β : Type}

/-- The number that a header gives to a lifetime: the last one. -/
def LastNumber (header : String) (l : Lifetime) (n : Nat) : Prop :=
  ∃ before after, settings header = before ++ .lifetime l n :: after ∧
    ∀ m, .lifetime l m ∉ after

/-- No number is too large for what is done with it. -/
structure Moderate (defaultTtl : Time) (header : String) : Prop where
  /-- `int` takes every number, also one that is overwritten later. -/
  short : ∀ token ∈ split ',' header.toList, ¬ TooLong token
  sMaxage : ¬ HasDirective header "no-cache" →
    ∀ n, LastNumber header .sMaxage n → n < floatBound
  maxAge : ¬ HasDirective header "no-cache" → (∀ m, ¬ LastNumber header .sMaxage m) →
    ∀ n, LastNumber header .maxAge n → n < floatBound
  /-- Where the header leaves it to the configuration. -/
  default : ¬ HasDirective header "no-cache" → (∀ m, ¬ LastNumber header .sMaxage m) →
    (∀ m, ¬ LastNumber header .maxAge m) → 0 ≤ defaultTtl
  window : ∀ n, LastNumber header .staleWhileRevalidate n → n < floatBound

/-- Wherever a response comes back to the task that fetched it, it is stored and returned. -/
def Edge.Keeps (S : Setup β) (r : OriginResponse β) : Prop :=
  ∀ (s : Edge β) (t : Nat) (role : Role) (call : Call β),
    s.tasks[t]? = some ⟨call, .fetching role (some (.answered r))⟩ →
    ∃ s' e, s.step S (.resume t) = some s' ∧
      s'.cacheStore.store.get? (fileKey S call (varyFields r.headers)) = some e ∧
      e.content = r.content ∧ e.statusCode = r.statusCode ∧ e.headers = r.headers ∧
      s'.tasks[t]? = some ⟨call, endPhase role call
        (.ok (.fetched ⟨r.content, r.statusCode, r.headers, false⟩))⟩

/-- A Cache-Control header breaks no fetch: what is made of it are numbers, none of them negative,
and a successful response with it that may be stored is stored and returned. -/
def Survives (S : Setup β) (header : String) : Prop :=
  ∃ d ttl swr, parseCacheControl header = .ok d ∧ d.effectiveTtl S.defaultTtl = .ok ttl ∧
    d.effectiveStaleWhileRevalidate = .ok swr ∧ 0 ≤ ttl ∧ 0 ≤ swr ∧
    ∀ r : OriginResponse β, r.headers.getD "cache-control" "" = header →
      200 ≤ r.statusCode ∧ r.statusCode < 300 → d.isCacheable = true → Edge.Keeps S r

/-! ### The numbers that are looked at -/

theorem numberOf_eq_some {header : String} {l : Lifetime} {n : Nat} :
    ((settings header).foldl CacheDirectives.set {}).numberOf l = some n ↔
      LastNumber header l n := by
  have hview := CacheDirectives.view_foldl_set (settings header) (.inr l)
  have hnumber : ∀ d : CacheDirectives,
      d.numberOf l = some n ↔ d.view (.inr l) = some (.lifetime l n) := by
    intro d
    rw [CacheDirectives.view, ← Option.map_some,
      (Option.map_injective fun _ _ hn => (Setting.lifetime.inj hn).2).eq_iff]
  have hafter : ∀ after : List Setting,
      (∀ t ∈ after, t.register ≠ .inr l) ↔ ∀ m, .lifetime l m ∉ after := by
    intro after
    constructor
    · intro h m hm
      exact h _ hm rfl
    · rintro h (f | ⟨l', m⟩) ht hregister
      · cases hregister
      · cases hregister
        exact h m ht
  rw [hnumber, hview, Registers.last_eq_some]
  have hkey : (Setting.lifetime l n).register = .inr l := rfl
  simp only [hafter, LastNumber, hkey, true_and]

theorem numberOf_eq_none {header : String} {l : Lifetime} :
    ((settings header).foldl CacheDirectives.set {}).numberOf l = none ↔
      ∀ m, ¬ LastNumber header l m := by
  simp only [← numberOf_eq_some, Option.eq_none_iff_forall_ne_some, ne_eq]

/-! ### What becomes of the response -/

/-- A response that can be stored and is no 304 is stored, as it is. -/
theorem Edge.keeps_of_storable {S : Setup β} {r : OriginResponse β} (hstorable : Storable S r)
    (hnew : r.statusCode ≠ 304) : Edge.Keeps S r := by
  intro s t role call ht
  obtain ⟨⟨k, e⟩, response, hsettle⟩ := settle_of_storable hstorable call s.wall
  obtain ⟨d, ttl, swr, -, -, -, rfl, rfl⟩ := newEntry_of_settle hnew hsettle
  have hresponse : response = ⟨r.content, r.statusCode, r.headers, false⟩ :=
    (settled_of_settle hsettle).response
  subst hresponse
  refine ⟨_, newEntry S r ttl swr s.wall (varyFields r.headers), step_settled ht hsettle, ?_, rfl,
    rfl, rfl, ?_⟩
  · rw [stamp_cacheStore, conclude_cacheStore]
    exact LruCacheStore.get?_put_self _ _ _
  · rw [stamp_tasks, conclude_tasks, file_tasks, List.getElem?_modify_eq, ht]
    rfl

/-! ### The condition -/

theorem moderate_iff {defaultTtl : Time} {header : String} :
    Moderate defaultTtl header ↔ ∃ d, parseCacheControl header = .ok d ∧
      (∃ ttl, d.effectiveTtl defaultTtl = .ok ttl ∧ 0 ≤ ttl) ∧
      ∃ swr, d.effectiveStaleWhileRevalidate = .ok swr ∧ 0 ≤ swr := by
  have hread : ∀ {d : CacheDirectives}, parseCacheControl header = .ok d →
      (d.noCache = false ↔ ¬ HasDirective header "no-cache") ∧
      (∀ l n, d.numberOf l = some n ↔ LastNumber header l n) ∧
      ∀ l, d.numberOf l = none ↔ ∀ m, ¬ LastNumber header l m := by
    intro d hparse
    refine ⟨by rw [← noCache_iff hparse, Bool.not_eq_true], ?_⟩
    obtain ⟨-, rfl⟩ := parseCacheControl_eq_ok.mp hparse
    exact ⟨fun l n => numberOf_eq_some, fun l => numberOf_eq_none⟩
  simp only [CacheDirectives.exists_effectiveTtl_iff,
    CacheDirectives.exists_effectiveStaleWhileRevalidate_iff]
  constructor
  · rintro ⟨short, hsMaxage, hmaxAge, hdefault, hwindow⟩
    have hparse := parseCacheControl_of_short short
    obtain ⟨hnoCache, hsome, hnone⟩ := hread hparse
    refine ⟨_, hparse, fun hno => ⟨fun n hn => ?_, fun hs n hn => ?_, fun hs hm => ?_⟩,
      fun n hn => ?_⟩
    · exact hsMaxage (hnoCache.mp hno) n ((hsome .sMaxage n).mp hn)
    · exact hmaxAge (hnoCache.mp hno) ((hnone .sMaxage).mp hs) n ((hsome .maxAge n).mp hn)
    · exact hdefault (hnoCache.mp hno) ((hnone .sMaxage).mp hs) ((hnone .maxAge).mp hm)
    · exact hwindow n ((hsome .staleWhileRevalidate n).mp hn)
  · rintro ⟨d, hparse, httl, hswr⟩
    obtain ⟨hnoCache, hsome, hnone⟩ := hread hparse
    refine ⟨(parseCacheControl_eq_ok.mp hparse).1, fun hno n hn => ?_, fun hno hs n hn => ?_,
      fun hno hs hm => ?_, fun n hn => ?_⟩
    · exact (httl (hnoCache.mpr hno)).1 n ((hsome .sMaxage n).mpr hn)
    · exact (httl (hnoCache.mpr hno)).2.1 ((hnone .sMaxage).mpr hs) n ((hsome .maxAge n).mpr hn)
    · exact (httl (hnoCache.mpr hno)).2.2 ((hnone .sMaxage).mpr hs) ((hnone .maxAge).mpr hm)
    · exact hswr n ((hsome .staleWhileRevalidate n).mpr hn)

/-- **Which headers break no fetch**: those whose numbers are small enough for what is done with
them. -/
theorem survives_iff_moderate (S : Setup β) (header : String) :
    Survives S header ↔ Moderate S.defaultTtl header := by
  rw [moderate_iff]
  constructor
  · rintro ⟨d, ttl, swr, hparse, httl, hswr, hpos, hpos', -⟩
    exact ⟨d, hparse, ⟨ttl, httl, hpos⟩, ⟨swr, hswr, hpos'⟩⟩
  · rintro ⟨d, hparse, ⟨ttl, httl, hpos⟩, ⟨swr, hswr, hpos'⟩⟩
    refine ⟨d, ttl, swr, hparse, httl, hswr, hpos, hpos', fun r hheader hstatus hcache => ?_⟩
    have hdirectives : directivesOf r.headers = .ok d := by
      rw [directivesOf, hheader]
      split
      · exact hparse
      · rename_i hempty
        rw [not_not.mp hempty] at hparse
        exact hparse
    refine Edge.keeps_of_storable ⟨d, ttl, swr, hdirectives, hcache, httl, hswr⟩ ?_
    intro h304
    have hsuccess := hstatus.2
    rw [h304] at hsuccess
    exact absurd hsuccess (by decide)

/-- A lifetime of as many years as have 310 digits. -/
def longLived : String := "max-age=1" ++ String.ofList (List.replicate 309 '0')

/-- It breaks the fetch. -/
theorem not_survives_longLived : ¬ ∀ header, Survives sampleSetup header := by
  intro h
  obtain ⟨d, ttl, swr, hparse, httl, -⟩ := h longLived
  have hlist : longLived.toList = "max-age=1".toList ++ List.replicate 309 '0' := by
    rw [longLived, String.toList_append]
    exact congrArg _ String.toList_ofList
  have hlong : (split ',' ("max-age=1".toList ++ List.replicate 309 '0')).foldlM directive {} =
        .ok { maxAge := some (10 ^ 309) } ∧
      CacheDirectives.effectiveTtl { maxAge := some (10 ^ 309) } sampleSetup.defaultTtl =
        .error .overflow := by
    decide +kernel
  rw [parseCacheControl, hlist, hlong.1] at hparse
  cases hparse
  rw [hlong.2] at httl
  cases httl

end Cdn

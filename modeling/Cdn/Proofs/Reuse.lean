/-
Whether what is stored is found again.

A request is looked up under its path and its Accept-Encoding.  Its response is filed under
the same key, unless it has a Vary header: then the key is built again, from the fields that
Vary names.  The next request of the same client finds it exactly if the two ways come to
the same text, which they do where Vary names nothing but Accept-Encoding and the request
has one.
-/
import Cdn.Proofs.Placed

namespace Cdn

variable {β : Type} {S : Setup β}

/-! ### The key a response is filed under -/

/-- The values of the fields that Vary names, an absent one as empty. -/
def varyValues (headers : Headers) (fields : List String) : Headers :=
  Dict.ofList (fields.map fun v => (v, (normalized headers).getD v ""))

/-- What the key of a response adds to its path. -/
def filedPart (S : Setup β) (requestHeaders : Option Headers) (fields : Option (List String)) :
    String :=
  match fields, requestHeaders with
  | some (f :: fs), some headers =>
      if headers.items = [] then varyPart S requestHeaders
      else "|vary=" ++ S.digest.hash (CacheKey.varyText (varyValues headers (f :: fs)))
  | _, _ => varyPart S requestHeaders

/-- The Accept-Encoding of a request. -/
def acceptEncoding? (requestHeaders : Option Headers) : Option String :=
  requestHeaders.bind fun headers => (normalized headers).get? "accept-encoding"

theorem extractVaryHeaders_eq (requestHeaders : Option Headers) :
    extractVaryHeaders requestHeaders =
      (acceptEncoding? requestHeaders).map fun v => Dict.ofList [("accept-encoding", v)] := by
  cases requestHeaders with
  | none => rfl
  | some headers =>
      unfold extractVaryHeaders
      dsimp only
      split
      · rename_i hitems
        rw [acceptEncoding?, Option.bind_some, normalized, hitems]
        rfl
      · rw [acceptEncoding?, Option.bind_some]
        cases (normalized headers).get? "accept-encoding" <;> rfl

theorem varyText_acceptEncoding (v : String) :
    CacheKey.varyText (Dict.ofList [("accept-encoding", v)]) = "accept-encoding" ++ "=" ++ v := by
  have hsorted : CacheKey.sortedItems (Dict.ofList [("accept-encoding", v)]) =
      [("accept-encoding", v)] := rfl
  simp [CacheKey.varyText, hsorted]

/-- The vary part is made of the Accept-Encoding. -/
theorem varyPart_eq (requestHeaders : Option Headers) :
    varyPart S requestHeaders = match acceptEncoding? requestHeaders with
      | some v => "|vary=" ++ S.digest.hash ("accept-encoding" ++ "=" ++ v)
      | none => "" := by
  unfold varyPart
  rw [extractVaryHeaders_eq]
  cases acceptEncoding? requestHeaders with
  | none => rfl
  | some v =>
      show "|vary=" ++ S.digest.hash _ = "|vary=" ++ S.digest.hash _
      rw [varyText_acceptEncoding]

/-- A vary part that hashes a text is the one of a request with that text. -/
theorem varyPart_eq_hash_iff (hinj : Function.Injective S.digest.hash)
    {requestHeaders : Option Headers} {text : String} :
    varyPart S requestHeaders = "|vary=" ++ S.digest.hash text ↔
      ∃ v, acceptEncoding? requestHeaders = some v ∧ "accept-encoding" ++ "=" ++ v = text := by
  rw [varyPart_eq]
  cases acceptEncoding? requestHeaders with
  | none =>
      refine iff_of_false (fun h => ?_) (by simp)
      have hlist := congrArg String.toList h
      rw [String.toList_append] at hlist
      cases hlist
  | some v =>
      dsimp only
      rw [String.append_right_inj, hinj.eq_iff]
      simp

/-- Where no two texts collide, requests share a vary part if they share their
Accept-Encoding. -/
theorem varyPart_eq_iff (hinj : Function.Injective S.digest.hash) {h g : Option Headers} :
    varyPart S h = varyPart S g ↔ acceptEncoding? h = acceptEncoding? g := by
  constructor
  · intro heq
    cases hg : acceptEncoding? g with
    | some w =>
        have hhash : varyPart S g = "|vary=" ++ S.digest.hash ("accept-encoding" ++ "=" ++ w) :=
          (varyPart_eq_hash_iff hinj).mpr ⟨w, hg, rfl⟩
        obtain ⟨v, hv, htext⟩ := (varyPart_eq_hash_iff hinj).mp (heq.trans hhash)
        rw [hv, (String.append_right_inj _).mp htext]
    | none =>
        cases hh : acceptEncoding? h with
        | none => rfl
        | some v =>
            have hhash : varyPart S h = "|vary=" ++ S.digest.hash ("accept-encoding" ++ "=" ++ v) :=
              (varyPart_eq_hash_iff hinj).mpr ⟨v, hh, rfl⟩
            obtain ⟨w, hw, -⟩ := (varyPart_eq_hash_iff hinj).mp (heq.symm.trans hhash)
            rw [hg] at hw
            cases hw
  · intro heq
    rw [varyPart_eq, varyPart_eq, heq]

theorem varyValues_items (headers : Headers) (f : String) (fs : List String) :
    (varyValues headers (f :: fs)).items ≠ [] := by
  have hget : (varyValues headers (f :: fs)).get? f ≠ none := by
    have hmap := Dict.get?_ofList_map (fun v : String => v)
      (fun v => (normalized headers).getD v "") (f :: fs) f
    rw [varyValues, hmap]
    simp
  intro hnil
  exact hget (Dict.get?_eq_none.mpr (by simp [Dict.keys, hnil]))

theorem fileKey_eq {call : Call β} (hkey : call.key = keyOf S call.path call.requestHeaders)
    (fields : Option (List String)) :
    fileKey S call fields = "GET:" ++ call.path ++ filedPart S call.requestHeaders fields := by
  have hget : "GET".toUpper ++ ":" = "GET:" := by decide +kernel
  have hlookup : call.key = "GET:" ++ call.path ++ varyPart S call.requestHeaders := by
    rw [hkey, keyOf_eq]
  match fields, hheaders : call.requestHeaders with
  | none, _ | some [], _ | some (_ :: _), none => simpa [fileKey, filedPart, hheaders] using hlookup
  | some (f :: fs), some headers =>
      by_cases hempty : headers.items = []
      · simpa [fileKey, filedPart, hheaders, hempty] using hlookup
      · have hitems := varyValues_items headers f fs
        have hfile : fileKey S call (some (f :: fs)) = (CacheKey.fromRequest S.digest "GET" call.path
            none (some (varyValues headers (f :: fs)))).key := by
          simp [fileKey, hheaders, hempty, varyValues]
        rw [hfile]
        simp [CacheKey.fromRequest, CacheKey.key, filedPart, hempty, hget, hitems,
          S.digest.nonempty, String.append_assoc]

/-- The fields that Vary names come to the text that the request is looked up under. -/
def Recorded (requestHeaders : Option Headers) (fields : Option (List String)) : Prop :=
  ∀ f fs headers, fields = some (f :: fs) → requestHeaders = some headers → headers.items ≠ [] →
    ∃ v, extractVaryHeaders requestHeaders = some v ∧
      CacheKey.varyText (varyValues headers (f :: fs)) = CacheKey.varyText v

theorem filedPart_eq_varyPart (hinj : Function.Injective S.digest.hash)
    {requestHeaders : Option Headers} {fields : Option (List String)} :
    filedPart S requestHeaders fields = varyPart S requestHeaders ↔
      Recorded requestHeaders fields := by
  unfold filedPart Recorded
  split
  · rename_i f fs headers
    by_cases hitems : headers.items = []
    · rw [if_pos hitems]
      refine iff_of_true rfl fun f' fs' headers' _ hsome hne => ?_
      cases hsome
      exact absurd hitems hne
    · rw [if_neg hitems]
      constructor
      · intro h f' fs' headers' hfields hsome _
        cases hfields
        cases hsome
        obtain ⟨v, hv, htext⟩ := (varyPart_eq_hash_iff hinj).mp h.symm
        refine ⟨_, by rw [extractVaryHeaders_eq, hv]; rfl, ?_⟩
        rw [varyText_acceptEncoding, htext]
      · intro h
        obtain ⟨v, hv, htext⟩ := h f fs headers rfl rfl hitems
        rw [varyPart, hv, htext]
  · rename_i hother
    refine iff_of_true rfl fun f fs headers hfields hsome _ => ?_
    exact absurd hsome (hother f fs headers hfields)

/-! ### Vary with field names that are tokens -/

/-- The text of a map, by its first item. -/
theorem varyText_of_sortedItems {d : Headers} {k v : String} {rest : List (String × String)}
    (h : CacheKey.sortedItems d = (k, v) :: rest) :
    ∃ more, CacheKey.varyText d = k ++ "=" ++ v ++ more ∧ (more = "" → rest = []) := by
  rw [CacheKey.varyText, h]
  cases rest with
  | nil => exact ⟨"", by simp, fun _ => rfl⟩
  | cons kv rest =>
      rw [List.map_cons, String.intercalate_cons_of_ne_nil (by simp)]
      refine ⟨_, String.append_assoc .., fun h => ?_⟩
      have hlist := congrArg String.toList h
      rw [String.toList_append] at hlist
      cases hlist

/-- A text that begins with `accept-encoding=` begins with no other name. -/
theorem eq_of_varyText_eq {k v w more : String} (hname : '=' ∉ k.toList)
    (h : k ++ "=" ++ w ++ more = "accept-encoding" ++ "=" ++ v) :
    k = "accept-encoding" ∧ w ++ more = v := by
  have hlist := congrArg String.toList h
  simp only [String.toList_append, List.append_assoc] at hlist
  replace hlist : k.toList ++ '=' :: (w.toList ++ more.toList) =
      "accept-encoding".toList ++ '=' :: v.toList := hlist
  obtain ⟨hk, hv⟩ := Scan.sep_append_inj hname (by decide) hlist
  refine ⟨String.toList_inj.mp hk, String.toList_inj.mp ?_⟩
  rw [String.toList_append]
  exact hv

theorem mem_varyValues {headers : Headers} {fields : List String} {k w : String} :
    (k, w) ∈ (varyValues headers fields).items ↔
      k ∈ fields ∧ w = (normalized headers).getD k "" := by
  have hmap := Dict.get?_ofList_map (fun v : String => v) (fun v => (normalized headers).getD v "")
    fields k
  rw [← Dict.get?_eq_some, varyValues, hmap, List.map_id']
  split
  · rename_i hk
    simp [hk, eq_comm]
  · rename_i hk
    simp [hk]

/-- The values of Vary fields that are all Accept-Encoding. -/
theorem varyValues_acceptEncoding (headers : Headers) {f : String} {fs : List String}
    (hall : ∀ g ∈ f :: fs, g = "accept-encoding") :
    varyValues headers (f :: fs) =
      Dict.ofList [("accept-encoding", (normalized headers).getD "accept-encoding" "")] := by
  refine Dict.ext (Dict.items_eq_singleton ?_ fun k hk => ?_)
  · rw [Dict.get?_eq_some, mem_varyValues]
    exact ⟨hall f List.mem_cons_self ▸ List.mem_cons_self, rfl⟩
  · obtain ⟨w, hw⟩ := Dict.mem_keys.mp hk
    exact hall k (mem_varyValues.mp hw).1

/-- **Vary with proper field names** comes to the text of the lookup exactly if it names
nothing but Accept-Encoding, and the request has one. -/
theorem recorded_iff {headers : Headers} (hitems : headers.items ≠ []) {f : String}
    {fs : List String} (hnames : ∀ g ∈ f :: fs, '=' ∉ g.toList) :
    Recorded (some headers) (some (f :: fs)) ↔
      (normalized headers).contains "accept-encoding" = true ∧
        ∀ g ∈ f :: fs, g = "accept-encoding" := by
  constructor
  · intro h
    obtain ⟨d, hd, htext⟩ := h f fs headers rfl rfl hitems
    rw [extractVaryHeaders_eq] at hd
    obtain ⟨v, hv, rfl⟩ := Option.map_eq_some_iff.mp hd
    replace hv : (normalized headers).get? "accept-encoding" = some v := hv
    refine ⟨by rw [Dict.contains, hv]; rfl, ?_⟩
    have hperm : (CacheKey.sortedItems (varyValues headers (f :: fs))).Perm
        (varyValues headers (f :: fs)).items := List.perm_insertionSort _ _
    cases hsorted : CacheKey.sortedItems (varyValues headers (f :: fs)) with
    | nil =>
        rw [hsorted] at hperm
        exact absurd hperm.nil_eq.symm (varyValues_items headers f fs)
    | cons kw rest =>
        obtain ⟨k, w⟩ := kw
        obtain ⟨more, hmore, hrest⟩ := varyText_of_sortedItems hsorted
        rw [hsorted] at hperm
        obtain ⟨hk, hw⟩ := mem_varyValues.mp (hperm.subset List.mem_cons_self)
        rw [hmore, varyText_acceptEncoding] at htext
        obtain ⟨rfl, happend⟩ := eq_of_varyText_eq (hnames k hk) htext
        have hwv : w = v := by rw [hw, Dict.getD, hv]; rfl
        have hnone : more = "" := by
          rw [hwv] at happend
          exact String.append_eq_left_iff.mp happend
        intro g hg
        have hmem := hperm.symm.subset (mem_varyValues.mpr ⟨hg, rfl⟩)
        rw [hrest hnone, List.mem_singleton, Prod.mk.injEq] at hmem
        exact hmem.1
  · rintro ⟨hcontains, hall⟩ f' fs' headers' hfields hsome _
    cases hfields
    cases hsome
    obtain ⟨v, hv⟩ := Option.isSome_iff_exists.mp hcontains
    have hvalue : (normalized headers).getD "accept-encoding" "" = v := by rw [Dict.getD, hv]; rfl
    have hvalues := varyValues_acceptEncoding headers hall
    rw [hvalue] at hvalues
    exact ⟨_, by rw [extractVaryHeaders_eq, acceptEncoding?, Option.bind_some, hv]; rfl, by rw [hvalues]⟩

/-! ### A hit -/

theorem CacheEntry.isExpired_of_core {e e' : CacheEntry β} {now : Time} (h : e.core = e'.core) :
    e.isExpired now = e'.isExpired now := by
  show e.core.isExpired now = e'.core.isExpired now
  rw [h]

/-- A 200 response that the service puts into the store for some time. -/
structure Reusable (S : Setup β) (r : OriginResponse β) : Prop where
  ok : r.statusCode = 200
  stored : ∃ d ttl swr, directivesOf r.headers = .ok d ∧ d.isCacheable = true ∧
    d.effectiveTtl S.defaultTtl = .ok ttl ∧ 0 < ttl ∧ d.effectiveStaleWhileRevalidate = .ok swr

/-- What becomes of such a response: it is a new entry, with a lifetime. -/
theorem Reusable.settle {r : OriginResponse β} (h : Reusable S r) (call : Call β) (now : Time) :
    ∃ e response, settle S call r now =
        .ok (some (fileKey S call (varyFields r.headers), e), response) ∧
      response.statusCode = 200 ∧ e.createdAt = now ∧ 0 < e.ttl := by
  obtain ⟨d, ttl, swr, hd, hcache, httl, hpos, hswr⟩ := h.stored
  have hnew : call.refreshes? r = none := if_neg (by rw [h.ok]; decide)
  refine ⟨newEntry S r ttl swr now (varyFields r.headers),
    ⟨r.content, r.statusCode, r.headers, false⟩, ?_, h.ok, rfl, hpos⟩
  rw [settle_eq, hd]
  show (if d.isCacheable = true then _ else _) = _
  rw [if_pos hcache, httl, hswr]
  show Except.ok (some (filing S call r now ttl swr).1, (filing S call r now ttl swr).2) = _
  rw [filing, hnew]

namespace Edge

/-- A call that arrives now is answered with the entry, as a fresh hit, and nothing is sent
to the origin. -/
def Hit (S : Setup β) (s : Edge β) (path : String) (requestHeaders : Option Headers)
    (e : CacheEntry β) : Prop :=
  ∃ s' call e', s.step S (.arrive path requestHeaders) = some s' ∧
    s'.tasks[s.tasks.length]? = some ⟨call, .returned (.fresh e')⟩ ∧ e'.core = e.core ∧
    s'.originCalls = s.originCalls

theorem step_fresh {s : Edge β} {path : String} {rh : Option Headers} {e : CacheEntry β}
    (hcached : (s.arrival S path rh).cached = some e) (hfresh : e.isExpired s.wall = false) :
    s.step S (.arrive path rh) = some ((s.read (keyOf S path rh)).push (s.arrival S path rh)
      (.returned (.fresh e))).stamp := by
  have hgetOrFetch : s.getOrFetch S path rh = (s.read (keyOf S path rh)).push (s.arrival S path rh)
      (.returned (.fresh e)) := by
    unfold getOrFetch
    dsimp only
    rw [hcached]
    dsimp only
    rw [read_wall, hfresh]
    rfl
  show some (s.getOrFetch S path rh).stamp = _
  rw [hgetOrFetch]

/-- **A call is answered with what is under its key, while that has not expired.** -/
theorem hit_iff {s : Edge β} {path : String} {rh : Option Headers} {e : CacheEntry β} :
    Hit S s path rh e ↔ s.entry (keyOf S path rh) = some e.core ∧ e.isExpired s.wall = false := by
  constructor
  · rintro ⟨s', call, e', hstep, ht, hcore, -⟩
    obtain ⟨m, hmove, rfl⟩ := move_of_step hstep
    rcases hmove.placed _ _ ht with hold | hplaced
    · have hnew : s.tasks[s.tasks.length]? = none := List.getElem?_eq_none le_rfl
      rw [hnew] at hold
      cases hold
    · generalize hreply : Phase.returned (.fresh e') = phase at hplaced
      cases hplaced with
      | fresh ha hnew hcached hfresh =>
          cases ha
          cases hreply
          exact ⟨(entry_of_cached hcached).trans (by rw [hcore]),
            (CacheEntry.isExpired_of_core hcore).symm.trans hfresh⟩
      | rejected ha hnew hmiss h =>
          cases hreply
          rcases h with h | h <;> cases hcached : (s.arrival S _ _).cached <;>
            rw [hcached] at h <;> cases h
      | ended hcall hphase =>
          subst hreply
          rcases hphase with h | ⟨x, h, -⟩ <;> cases h
      | _ => cases hreply
  · rintro ⟨hentry, hfresh⟩
    obtain ⟨e', hcached, hcore⟩ : ∃ e', (s.arrival S path rh).cached = some e' ∧
        e'.core = e.core := by
      rw [← arrival_entry] at hentry
      exact Option.map_eq_some_iff.mp hentry
    refine ⟨_, s.arrival S path rh, e', step_fresh hcached ?_, by simp, hcore, rfl⟩
    rw [CacheEntry.isExpired_of_core hcore, hfresh]

/-! ### What is kept -/

/-- A state in which a response is still kept.  A run led to a call for `path` that went on
with `r` and returned `response`; that filed `e`, and after any other steps `e` is still there,
and has not expired. -/
inductive Kept (S : Setup β) (path : String) (requestHeaders : Option Headers)
    (r : OriginResponse β) (response : Response β) (e : CacheEntry β) : Edge β → Prop where
  | intro {maxSizeBytes : Int} {breaker : CircuitBreaker} {wall mono : Time}
      {p q : List (Action β)} {s s' : Edge β} {t : Nat} {call : Call β} {role : Role} {k : String}
      (hrun : Lts.run (step S) (start { maxSizeBytes } breaker wall mono) p = some s)
      (ht : s.tasks[t]? = some ⟨call, .fetching role (some (.answered r))⟩)
      (hpath : call.path = path) (hheaders : call.requestHeaders = requestHeaders)
      (hsettle : settle S call r s.wall = .ok (some (k, e), response))
      (hrest : Lts.run (step S) s (.resume t :: q) = some s')
      (hkept : s'.entry k = some e.core) (hfresh : e.isExpired s'.wall = false) :
      Kept S path requestHeaders r response e s'

variable {path : String} {rh : Option Headers} {r : OriginResponse β}

/-- It is kept under its path and the fields its Vary names. -/
theorem Kept.entry {response : Response β} {e : CacheEntry β} {s : Edge β}
    (h : Kept S path rh r response e s) (hreusable : Reusable S r) :
    s.entry ("GET:" ++ path ++ filedPart S rh (varyFields r.headers)) = some e.core ∧
      e.isExpired s.wall = false := by
  cases h with
  | @intro maxSizeBytes breaker wall mono p q s₀ s' t call role k hrun ht hpath hheaders hsettle
      hrest hkept hfresh =>
      have keyed : Keyed S s₀ := Lts.run_invariant
        (fun _ _ _ keyed hstep => keyed_step keyed hstep) p (keyed_start _ _ _ _) hrun
      obtain ⟨e', response', hfile, -⟩ := hreusable.settle call s₀.wall
      rw [hfile] at hsettle
      cases hsettle
      rw [fileKey_eq (keyed call (mem_calls ht)), hpath, hheaders] at hkept
      exact ⟨hkept, hfresh⟩

theorem Kept.statusCode {response : Response β} {e : CacheEntry β} {s : Edge β}
    (h : Kept S path rh r response e s) (hreusable : Reusable S r) : response.statusCode = 200 := by
  cases h with
  | @intro maxSizeBytes breaker wall mono p q s₀ s' t call role k hrun ht hpath hheaders hsettle =>
      obtain ⟨e', response', hfile, hstatus, -⟩ := hreusable.settle call s₀.wall
      rw [hfile] at hsettle
      cases hsettle
      exact hstatus

/-- The first call of a fresh process, once it is answered. -/
theorem first_answered (S : Setup β) (path : String) (rh : Option Headers) (r : OriginResponse β) :
    ∃ s call, Lts.run (step S) (start { maxSizeBytes := 0 } {} 0 0)
        [.arrive path rh, .answer 0 (.answered r)] = some s ∧
      s.tasks[0]? = some ⟨call, .fetching (.leader 0) (some (.answered r))⟩ ∧
      call.path = path ∧ call.requestHeaders = rh ∧ s.wall = 0 ∧ ∀ k, s.entry k = none := by
  let s₀ : Edge β := start { maxSizeBytes := 0 } {} 0 0
  have hmiss : (s₀.arrival S path rh).Missed s₀.wall := fun e he => by cases he
  have hclosed : s₀.circuitBreaker.stateAt s₀.mono ≠ .open := show CircuitState.closed ≠ .open by decide
  obtain ⟨breaker, hallow⟩ : ∃ breaker, s₀.circuitBreaker.aenter s₀.mono = .ok breaker := ⟨{}, rfl⟩
  have hled := step_led hmiss hclosed rfl hallow
  refine ⟨_, s₀.arrival S path rh, Lts.run_cons.mpr ⟨_, hled, Lts.run_singleton.mpr rfl⟩, rfl, rfl,
    rfl, rfl, fun k => rfl⟩

/-- What is filed for it is kept. -/
theorem exists_kept (hreusable : Reusable S r) (path : String) (rh : Option Headers) :
    ∃ response e s, Kept S path rh r response e s ∧
      ∀ k, k ≠ "GET:" ++ path ++ filedPart S rh (varyFields r.headers) → s.entry k = none := by
  obtain ⟨s, call, hrun, ht, hpath, hheaders, hwall, hempty⟩ := first_answered S path rh r
  obtain ⟨e, response, hsettle, -, hcreated, hpos⟩ := hreusable.settle call s.wall
  have hstep := step_settled ht hsettle
  have keyed : Keyed S s := Lts.run_invariant
    (fun _ _ _ keyed hstep => keyed_step keyed hstep) _ (keyed_start _ _ _ _) hrun
  have hfile : fileKey S call (varyFields r.headers) =
      "GET:" ++ path ++ filedPart S rh (varyFields r.headers) := by
    rw [fileKey_eq (keyed call (mem_calls ht)), hpath, hheaders]
  refine ⟨response, e, _, .intro (q := []) hrun ht hpath hheaders hsettle
    (Lts.run_singleton.mpr hstep) ?_ ?_, fun k hk => ?_⟩
  · simp [entry, file, LruCacheStore.get?_put_self]
  · have hwall' : (({ s with circuitBreaker := s.circuitBreaker.recordSuccess }.file
        (some (fileKey S call (varyFields r.headers), e))).conclude 0 (.leader 0) call
          (.ok (.fetched response))).stamp.wall = s.wall := rfl
    rw [hwall', CacheEntry.isExpired, hcreated, sub_self]
    exact decide_eq_false (not_lt.mpr hpos.le)
  · rw [← hfile] at hk
    have hnone : s.cacheStore.store.get? k = none := Option.map_eq_none_iff.mp (hempty k)
    have hput : (s.cacheStore.put (fileKey S call (varyFields r.headers)) e).store.get? k = none := by
      rcases s.cacheStore.get?_put_of_ne e hk with h | h
      · exact h.trans hnone
      · exact h
    simp [entry, file, hput]

/-- Wherever the response to `path` with the headers `rh` is kept, a call for `path` with the
headers `rh'` is answered with it. -/
def FoundBy (S : Setup β) (path : String) (rh rh' : Option Headers) (r : OriginResponse β) :
    Prop :=
  ∀ response e s, Kept S path rh r response e s → Hit S s path rh' e

/-- **A kept response is found by a request that is looked up where the response went,** and
by no other. -/
theorem foundBy_iff (hreusable : Reusable S r) (path : String) (rh rh' : Option Headers) :
    FoundBy S path rh rh' r ↔ filedPart S rh (varyFields r.headers) = varyPart S rh' := by
  have hkeys : "GET:" ++ path ++ filedPart S rh (varyFields r.headers) = keyOf S path rh' ↔
      filedPart S rh (varyFields r.headers) = varyPart S rh' := by
    rw [keyOf_eq, String.append_right_inj]
  rw [← hkeys]
  constructor
  · intro h
    by_contra hne
    obtain ⟨response, e, s, hkept, hother⟩ := exists_kept hreusable path rh
    have hentry := (hit_iff.mp (h response e s hkept)).1
    rw [hother _ (Ne.symm hne)] at hentry
    cases hentry
  · intro heq response e s hkept
    obtain ⟨hentry, hfresh⟩ := hkept.entry hreusable
    exact hit_iff.mpr ⟨heq ▸ hentry, hfresh⟩

/-- **What is stored can be found again** by the request that brought it, exactly if the
fields that Vary names come to the text that the request is looked up under. -/
theorem foundAgain_iff (hinj : Function.Injective S.digest.hash) (path : String)
    (rh : Option Headers) (r : OriginResponse β) (hreusable : Reusable S r) :
    FoundBy S path rh rh r ↔ Recorded rh (varyFields r.headers) := by
  rw [foundBy_iff hreusable, filedPart_eq_varyPart hinj]

/-- A response that is one for each value of a field. -/
def varied (fields : String) : OriginResponse Nat where
  content := 1
  statusCode := 200
  headers := Dict.ofList [("cache-control", "max-age=60"), ("vary", fields)]

theorem reusable_varied (fields : String) : Reusable sampleSetup (varied fields) where
  ok := rfl
  stored := ⟨{ maxAge := some 60 }, 60, 0, by
    have hcontrol : (varied fields).headers.getD "cache-control" "" = "max-age=60" := rfl
    have hparse : parseCacheControl "max-age=60" = .ok { maxAge := some 60 } := by decide +kernel
    rw [directivesOf, hcontrol, if_pos (by decide), hparse], rfl, by decide +kernel, by norm_num,
    rfl⟩

theorem foundAgain_iff_gzip : FoundBy sampleSetup "a" gzip gzip (varied "Accept-Encoding") ↔
    Recorded gzip (varyFields (varied "Accept-Encoding").headers) :=
  foundAgain_iff sampleHash_injective "a" gzip _ (reusable_varied _)

/-- The response in German is not found by the request that brought it. -/
theorem notFoundAgain_language : Function.Injective sampleSetup.digest.hash ∧
    ¬ ∀ (path : String) (rh : Option Headers) (r : OriginResponse Nat), Reusable sampleSetup r →
      FoundBy sampleSetup path rh rh r := by
  refine ⟨sampleHash_injective, fun h => ?_⟩
  have hfound := h "a" (some (Dict.ofList [("accept-encoding", "gzip"), ("accept-language", "de")]))
    (varied "Accept-Language") (reusable_varied _)
  have hfields : varyFields (varied "Accept-Language").headers = some ["accept-language"] := by
    decide +kernel
  rw [foundBy_iff (reusable_varied _), filedPart_eq_varyPart sampleHash_injective, hfields,
    recorded_iff (by decide) (by decide)] at hfound
  exact absurd (hfound.2 "accept-language" List.mem_cons_self) (by decide)

end Edge

end Cdn

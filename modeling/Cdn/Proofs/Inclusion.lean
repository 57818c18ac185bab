/-
A larger store loses no hit.

Requests that come one at a time, each after the one before is over, leave the store of an edge
as a least-recently-used stack of their keys.  Whether an entry was found and still fresh, or
found and fetched again, or not found, its key stands last afterwards; so the keys that are there
depend on the requests and the purges alone, and not on clocks, lifetimes or answers.  Of two
stores the larger one then holds what the smaller one holds.

That ends when requests overlap: between the lookup and the `put` of one of them another one
may be served.
-/
import Cdn.Lib.Stack
import Cdn.Proofs.Breaker
import Cdn.Proofs.Recency
import Cdn.Proofs.Store

namespace Cdn

open Recency (LongestSuffix)

variable {β : Type} {S : Setup β} {w : String → Int} {m : Int}

/-! ### The store as a stack -/

namespace LruCacheStore

variable {s : LruCacheStore β} {l : List String}

/-- The store holds these keys, in this order, and each entry has the weight of its key. -/
structure Holds (w : String → Int) (m : Int) (s : LruCacheStore β) (l : List String) : Prop where
  keys : s.store.keys = l
  sizes : ∀ ke ∈ s.store.items, ke.2.size = w ke.1
  balanced : s.Balanced
  maxSizeBytes : s.maxSizeBytes = m

theorem holds_start (w : String → Int) (m : Int) :
    Holds w m ({ maxSizeBytes := m } : LruCacheStore β) [] :=
  ⟨rfl, fun ke (hke : ke ∈ []) => (List.not_mem_nil hke).elim, rfl, rfl⟩

theorem Holds.size (h : Holds w m s l) {k : String} {e : CacheEntry β}
    (he : s.store.get? k = some e) : e.size = w k := h.sizes _ (Dict.get?_eq_some.mp he)

theorem Holds.contains_iff (h : Holds w m s l) {k : String} :
    (s.store.get? k).isSome = true ↔ k ∈ l := by
  rw [← h.keys, Option.isSome_iff_ne_none, ne_eq, Dict.get?_eq_none, not_not]

theorem Holds.get (h : Holds w m s l) (now : Time) (k : String) :
    Holds w m (s.get now k).2 (Stack.touch l k) := by
  have hframe := s.get_frame now k
  refine ⟨?_, fun ke hke => ?_, h.balanced.get now k, hframe.2.1.trans h.maxSizeBytes⟩
  · cases hget : s.store.get? k with
    | none =>
        have hk : k ∉ l := h.keys ▸ Dict.get?_eq_none.mp hget
        rw [LruCacheStore.get, hget, Stack.touch, if_neg hk]
        exact h.keys
    | some e =>
        have hk : k ∈ l := h.contains_iff.mp (by rw [hget]; rfl)
        rw [keys_get hget, h.keys, Stack.touch, if_pos hk]
  · have hget := Dict.get?_eq_some.mpr hke
    rw [get?_get] at hget
    split at hget
    · rename_i hk
      obtain ⟨e, he, htouch⟩ := Option.map_eq_some_iff.mp hget
      rw [← htouch, hk]
      exact h.size (k := k) (e := e) he
    · exact h.size hget

/-- A lookup is a hit if the key is there. -/
theorem Holds.get_counts (h : Holds w m s l) (now : Time) (k : String) :
    (s.get now k).2.hits = s.hits + (Stack.isHit l (.use k)).toNat ∧
      (s.get now k).2.hits + (s.get now k).2.misses = s.hits + s.misses + 1 := by
  have hcontains := h.contains_iff (k := k)
  rw [Stack.isHit]
  cases hget : s.store.get? k with
  | none =>
      have hk : k ∉ l := fun hk => by simpa [hget] using hcontains.mpr hk
      simp [LruCacheStore.get, hget, hk, Nat.add_assoc]
  | some e =>
      have hk : k ∈ l := hcontains.mp (by rw [hget]; rfl)
      simp [LruCacheStore.get, hget, hk, Nat.add_right_comm]

theorem Holds.put (h : Holds w m s l) {k : String} {e : CacheEntry β} (he : e.size = w k) :
    Holds w m (s.put k e) (Stack.use w m l k) := by
  obtain ⟨kept, hkept, hitems⟩ := longestSuffix_put h.balanced k e
  have hsizes : ∀ ke ∈ (s.store.erase k).items, ke.2.size = w ke.1 := fun ke hke =>
    h.sizes ke (List.mem_of_mem_filter hke)
  refine ⟨?_, fun ke hke => ?_, h.balanced.put k e, ?_⟩
  · -- both are the longest suffix of the other keys that leaves room
    have hbytes : ∀ u, u <:+ (s.store.erase k).items →
        (bytes u + e.size ≤ s.maxSizeBytes ↔ Stack.weight w (u.map Prod.fst) ≤ m - w k) := by
      intro u hu
      have heq : bytes u = Stack.weight w (u.map Prod.fst) := by
        rw [bytes, Stack.weight, List.map_map]
        exact congrArg List.sum (List.map_congr_left fun ke hke => hsizes ke (hu.subset hke))
      rw [heq, he, h.maxSizeBytes]
      omega
    have hothers : (s.store.erase k).items.map Prod.fst = l.filter fun a => a ≠ k := by
      rw [Dict.items_erase, ← h.keys, Dict.keys, List.filter_map]
      rfl
    have hlongest := (hothers ▸ hkept.map Prod.fst hbytes).eq
      (Stack.longestSuffix_fit w (m - w k) (l.filter fun a => a ≠ k))
    rw [Dict.keys, hitems, List.map_append, hlongest]
    rfl
  · rw [hitems, List.mem_append, List.mem_singleton] at hke
    rcases hke with hke | rfl
    · exact hsizes ke (hkept.suffix.subset hke)
    · exact he
  · exact (s.sameCounts_put k e).2.2.trans h.maxSizeBytes

theorem Holds.purge (h : Holds w m s l) (url keyPrefix : Option String) :
    Holds w m (purgeCache s url keyPrefix).2 (l.filter fun k => !covers url keyPrefix k) := by
  -- what a removal leaves
  have hfilter : ∀ (op : LruOp β) (p : String → Bool),
      (s.perform 0 op).2.store.items = s.store.items.filter (fun ke => !p ke.1) →
      Holds w m (s.perform 0 op).2 (l.filter fun k => !p k) := by
    intro op p hitems
    refine ⟨?_, fun ke hke => h.sizes ke ?_, h.balanced.perform 0 op,
      (s.maxSizeBytes_perform 0 op).trans h.maxSizeBytes⟩
    · rw [Dict.keys, hitems, ← h.keys, Dict.keys, List.filter_map]
      rfl
    · rw [hitems] at hke
      exact List.mem_of_mem_filter hke
  unfold purgeCache covers
  rcases given url with _ | url
  · rcases given keyPrefix with _ | keyPrefix
    · have hall : l.filter (fun _ => !false) = l := List.filter_eq_self.mpr fun _ _ => rfl
      rw [hall]
      exact h
    · exact hfilter (.deleteByPrefix keyPrefix) (fun k => keyPrefix.toList.isPrefixOf k.toList)
        (s.deleteByPrefix_spec keyPrefix).2
  · refine hfilter (.delete url) (fun k => k = url) ?_
    show (s.delete url).2.store.items = _
    have hdelete : (s.delete url).2 = s.removeEntry url := by
      rw [← without_eq, delete, without]
      split <;> rfl
    rw [hdelete, removeEntry_store, Dict.items_erase]
    exact List.filter_congr fun ke _ => decide_not

theorem purge_counts (s : LruCacheStore β) (url keyPrefix : Option String) :
    (purgeCache s url keyPrefix).2.hits = s.hits ∧
      (purgeCache s url keyPrefix).2.misses = s.misses := by
  unfold purgeCache
  rcases given url with _ | url
  · rcases given keyPrefix with _ | keyPrefix
    · exact ⟨rfl, rfl⟩
    · have hsame := (s.perform_of_removes 0 (.deleteByPrefix keyPrefix) trivial).1
      exact ⟨hsame.hits, hsame.misses⟩
  · have hsame := (s.perform_of_removes 0 (.delete url) trivial).1
    exact ⟨hsame.hits, hsame.misses⟩

end LruCacheStore

/-! ### Requests one at a time -/

/-- The answer is filed under the key of the call, and weighs what the key does. -/
structure Call.Files (S : Setup β) (w : String → Int) (call : Call β) (r : OriginResponse β) :
    Prop where
  cacheable : cacheable r = true
  settles : ∀ now, ∃ result, settle S call r now = .ok result
  plain : r.headers.getD "vary" "" = ""
  size : call.refreshes? r = none → S.size r.content = w call.key

/-- What an answer that is filed comes to. -/
theorem Call.Files.entry {call : Call β} {r : OriginResponse β} (h : call.Files S w r)
    (hread : ∀ e, call.cached = some e → e.size = w call.key) {now : Time}
    {filed : Option (String × CacheEntry β)} {response : Response β}
    (hsettle : settle S call r now = .ok (filed, response)) :
    ∃ e, filed = some (call.key, e) ∧ e.size = w call.key := by
  obtain ⟨d, hd, ⟨hcache, -⟩ | ⟨-, ttl, swr, -, -, rfl, -⟩⟩ := settle_eq_ok hsettle
  · have hcacheable := h.cacheable
    rw [cacheable_eq hd, hcache] at hcacheable
    cases hcacheable
  · unfold filing
    cases hrefreshes : call.refreshes? r with
    | some cached =>
        refine ⟨_, rfl, ?_⟩
        unfold Call.refreshes? at hrefreshes
        split at hrefreshes
        · exact hread cached hrefreshes
        · cases hrefreshes
    | none => exact ⟨_, by rw [fileKey_of_no_vary h.plain], h.size hrefreshes⟩

namespace Edge

variable {s s' : Edge β} {a : Action β}

/-- No task is under way. -/
def Idle (s : Edge β) : Prop :=
  ∀ (t : Nat) (τ : Task β), s.tasks[t]? = some τ → τ.phase.over = true

/-- Requests and purges come when no task is under way, the origin gives answers that are filed,
and nothing is cancelled. -/
def OneAtATime (S : Setup β) (w : String → Int) (s : Edge β) : Action β → Prop
  | .arrive _ _ | .purge _ _ => Idle s
  | .answer t outcome => ∀ τ ∈ s.tasks[t]?, ∃ r, outcome = .answered r ∧ τ.call.Files S w r
  | .cancel _ => False
  | .resume _ | .tick _ _ | .reset => True

/-- What an action is to the store: a use of a key, or a purge. -/
def event? (S : Setup β) : Action β → Option (Stack.Event String)
  | .arrive path rh => some (.use (keyOf S path rh))
  | .purge url keyPrefix => some (.drop (covers url keyPrefix))
  | _ => none

/-- What the role of the task under way says about the table of leaders. -/
def Listed (s : Edge β) (call : Call β) : Role → Prop
  | .leader _ => ∀ k, k ≠ call.key → s.inflight.get? k = none
  | .background => ∀ k, s.inflight.get? k = none
  | .follower => False

/-- Where the task under way stands. -/
def Works (S : Setup β) (w : String → Int) (s : Edge β) (call : Call β) : Phase β → Prop
  | .scheduled => s.Listed call .background
  | .fetching role none => s.Listed call role
  | .fetching role (some outcome) =>
      s.Listed call role ∧ ∃ r, outcome = .answered r ∧ call.Files S w r
  | _ => False

/-- After the events there is either no task under way, and the store is the stack they make; or
there is one, for the last of them, and the store has been read for it. -/
inductive Stage (S : Setup β) (w : String → Int) (m : Int) (es : List (Stack.Event String))
    (s : Edge β) : Prop where
  | rested (hidle : Idle s) (hfree : ∀ k, s.inflight.get? k = none)
      (hholds : s.cacheStore.Holds w m (Stack.run w m es))
  | working {before : List (Stack.Event String)} (t : Nat) {call : Call β} (phase : Phase β)
      (hes : es = before ++ [.use call.key])
      (ht : s.tasks[t]? = some ⟨call, phase⟩)
      (hothers : ∀ (u : Nat) (τ : Task β), s.tasks[u]? = some τ → u ≠ t → τ.phase.over = true)
      (hworks : Works S w s call phase)
      (hread : ∀ e, call.cached = some e → e.size = w call.key)
      (hholds : s.cacheStore.Holds w m (Stack.touch (Stack.run w m before) call.key))

/-- The state after the events. -/
structure Stacked (S : Setup β) (w : String → Int) (m : Int) (es : List (Stack.Event String))
    (s : Edge β) : Prop where
  closed : s.circuitBreaker.state = .closed
  stage : Stage S w m es s
  hits : s.cacheStore.hits = Stack.hits w m es
  lookups : s.cacheStore.hits + s.cacheStore.misses = Stack.uses es

variable {es : List (Stack.Event String)}

theorem stacked_start {breaker : CircuitBreaker} (hclosed : breaker.state = .closed)
    (wall mono : Time) : Stacked S w m [] (start { maxSizeBytes := m } breaker wall mono) where
  closed := hclosed
  stage := .rested (fun t τ h => by cases h) (fun _ => rfl) (LruCacheStore.holds_start w m)
  hits := rfl
  lookups := rfl

/-! ### A step between two requests -/

/-- What a request does to an edge that has no other. -/
theorem Stacked.arrived (h : Stacked S w m es s) (hw : ∀ k, 0 ≤ w k) (hidle : Idle s)
    (hfree : ∀ k, s.inflight.get? k = none)
    (hholds : s.cacheStore.Holds w m (Stack.run w m es)) {path : String} {rh : Option Headers}
    {μ : Edge β} (hmove : Move S s (.arrive path rh) μ) :
    Stacked S w m (es ++ [.use (keyOf S path rh)]) μ := by
  have hread := hholds.get s.wall (keyOf S path rh)
  obtain ⟨hhits, hlookups⟩ := hholds.get_counts s.wall (keyOf S path rh)
  rw [h.hits, ← Stack.hits_concat] at hhits
  rw [h.lookups, ← Stack.uses_concat] at hlookups
  have hcached : ∀ e, (s.arrival S path rh).cached = some e →
      keyOf S path rh ∈ Stack.run w m es ∧ e.size = w (keyOf S path rh) := by
    intro e he
    rw [arrival_cached] at he
    obtain ⟨e', he', rfl⟩ := Option.map_eq_some_iff.mp he
    exact ⟨hholds.contains_iff.mp (by rw [he']; rfl), hholds.size (e := e') he'⟩
  have hsize := fun e he => (hcached e he).2
  have hnotListed : s.inflight.contains (keyOf S path rh) = false := by
    rw [Dict.contains, hfree]
    rfl
  cases hmove with
  | fresh he hfresh =>
      obtain ⟨hmem, -⟩ := hcached _ he
      have hsound := Stack.sound_run w hw m es
      refine ⟨h.closed, .rested (Slots.forall_append hidle rfl) hfree ?_, hhits, hlookups⟩
      rw [Stack.run_concat, Stack.after, Stack.use_of_mem w hsound.fits hsound.nodup hmem]
      exact hread
  | stale he hservable hlisted => rw [hnotListed] at hlisted; cases hlisted
  | @scheduled _ _ e he hservable hlisted =>
      refine ⟨h.closed, .working (s.tasks.length + 1) .scheduled rfl ?_ ?_ hfree hsize hread,
        hhits, hlookups⟩
      · simp
      · have hstale : ∀ (u : Nat) (τ : Task β),
            (s.tasks ++ [⟨s.arrival S path rh, .returned (.stale e)⟩])[u]? = some τ →
              τ.phase.over = true := Slots.forall_append hidle rfl
        refine Slots.forall_append (P := fun u τ => u ≠ s.tasks.length + 1 → τ.phase.over = true)
          (fun u τ hτ _ => hstale u τ hτ) fun hne => absurd ?_ hne
        simp
  | turnedAway hmiss hopen =>
      rw [CircuitBreaker.stateAt_of_ne_open (by rw [h.closed]; decide), h.closed] at hopen
      cases hopen
  | joined hmiss hopen hlisted => rw [hfree] at hlisted; cases hlisted
  | led hmiss hopen hnone hallow =>
      rw [CircuitBreaker.aenter_of_closed h.closed] at hallow
      cases hallow
      refine ⟨h.closed, .working s.tasks.length (.fetching (.leader s.events.length) none)
        rfl ?_ ?_ ?_ hsize hread, hhits, hlookups⟩
      · rw [led_tasks, List.getElem?_concat_length]
      · rw [led_tasks]
        exact Slots.forall_append (P := fun u τ => u ≠ s.tasks.length → τ.phase.over = true)
          (fun u τ hτ _ => hidle u τ hτ) fun hne => absurd rfl hne
      · intro k hk
        show (s.inflight.set _ _).get? k = none
        rw [Dict.get?_set, if_neg hk, hfree]
  | refused hmiss hopen hnone hrefuse =>
      rw [CircuitBreaker.aenter_of_closed h.closed] at hrefuse
      cases hrefuse

/-! ### A step of the task under way -/

/-- A task that takes a step was under way. -/
theorem Move.live {μ : Edge β} (h : Move S s a μ) {t : Nat} (ha : a.task? = some t) :
    ∃ τ, s.tasks[t]? = some τ ∧ τ.phase.over = false := by
  cases h with
  | answered ht | revalidating ht | revalidationRefused ht | coalesced ht | retried ht
  | retryRefused ht | settled ht | unsettled ht | failed ht | cancelledScheduled ht
  | cancelledWaiting ht | cancelledFetching ht => cases ha; exact ⟨_, ht, rfl⟩
  | _ => cases ha

/-- The task under way is done. -/
theorem Stacked.settled (h : Stacked S w m es s) {before : List (Stack.Event String)} {t : Nat}
    {call : Call β} {role : Role} {r : OriginResponse β} {filed : Option (String × CacheEntry β)}
    {response : Response β} (hes : es = before ++ [.use call.key])
    (ht : s.tasks[t]? = some ⟨call, .fetching role (some (.answered r))⟩)
    (hothers : ∀ (u : Nat) (τ : Task β), s.tasks[u]? = some τ → u ≠ t → τ.phase.over = true)
    (hlisted : s.Listed call role) (hfiles : call.Files S w r)
    (hread : ∀ e, call.cached = some e → e.size = w call.key)
    (hholds : s.cacheStore.Holds w m (Stack.touch (Stack.run w m before) call.key))
    (hsettle : settle S call r s.wall = .ok (filed, response)) :
    Stacked S w m es (({ s with circuitBreaker := s.circuitBreaker.recordSuccess }.file filed).conclude
      t role call (.ok (.fetched response))) := by
  obtain ⟨e, rfl, hsize⟩ := hfiles.entry hread hsettle
  obtain ⟨hhits, hmisses, -⟩ := s.cacheStore.sameCounts_put call.key e
  have hput : (({ s with circuitBreaker := s.circuitBreaker.recordSuccess }.file
      (some (call.key, e))).conclude t role call (.ok (.fetched response))).cacheStore =
        s.cacheStore.put call.key e := by
    rw [conclude_cacheStore]
    rfl
  refine ⟨?_, .rested ?_ ?_ ?_, ?_, ?_⟩
  · have hbreaker : s.circuitBreaker.recordSuccess.state = .closed := by
      rw [CircuitBreaker.recordSuccess_of_closed h.closed]
      exact h.closed
    cases role <;> exact hbreaker
  · rw [Idle, conclude_tasks, file_tasks]
    intro u τ hτ
    by_cases hu : u = t
    · subst hu
      rw [List.getElem?_modify_eq, ht] at hτ
      cases hτ
      cases role <;> rfl
    · rw [List.getElem?_modify_ne _ _ (Ne.symm hu)] at hτ
      exact hothers u τ hτ hu
  · intro k
    cases role with
    | leader event =>
        show (s.inflight.erase call.key).get? k = none
        rw [Dict.get?_erase]
        split
        · rfl
        · rename_i hk
          exact hlisted k hk
    | follower => exact hlisted.elim
    | background => exact hlisted k
  · rw [hput, hes, Stack.run_concat, Stack.after, ← Stack.use_touch]
    exact hholds.put hsize
  · rw [hput, hhits, h.hits]
  · rw [hput, hhits, hmisses, h.lookups]

/-! ### Every run -/

theorem Stage.stamp (h : Stage S w m es s) : Stage S w m es s.stamp := by
  cases h with
  | rested hidle hfree hholds => exact .rested hidle hfree hholds
  | working t phase hes ht hothers hworks hread hholds =>
      exact .working t phase hes ht hothers hworks hread hholds

/-- A step of an edge with no task under way. -/
theorem Stacked.rested (h : Stacked S w m es s) (hw : ∀ k, 0 ≤ w k) (hone : OneAtATime S w s a)
    (hidle : Idle s) (hfree : ∀ k, s.inflight.get? k = none)
    (hholds : s.cacheStore.Holds w m (Stack.run w m es)) {μ : Edge β} (hmove : Move S s a μ) :
    Stacked S w m (es ++ (event? S a).toList) μ := by
  have hno : ∀ t, a.task? ≠ some t := by
    intro t ht
    obtain ⟨τ, hτ, hlive⟩ := hmove.live ht
    rw [hidle t τ hτ] at hlive
    cases hlive
  cases a with
  | arrive path rh => exact h.arrived hw hidle hfree hholds hmove
  | purge url keyPrefix =>
      cases hmove
      obtain ⟨hhits, hmisses⟩ := s.cacheStore.purge_counts url keyPrefix
      show Stacked S w m (es ++ [.drop (covers url keyPrefix)]) (s.purge url keyPrefix)
      refine ⟨h.closed, .rested hidle hfree ?_, ?_, ?_⟩
      · exact Stack.run_concat w m es _ ▸ hholds.purge url keyPrefix
      · rw [Stack.hits_concat, ← h.hits]
        exact hhits
      · rw [Stack.uses_concat_drop, ← h.lookups]
        exact congrArg₂ (· + ·) hhits hmisses
  | tick wall mono =>
      cases hmove
      show Stacked S w m (es ++ []) _
      rw [List.append_nil]
      exact ⟨h.closed, .rested hidle hfree hholds, h.hits, h.lookups⟩
  | reset =>
      cases hmove
      show Stacked S w m (es ++ []) _
      rw [List.append_nil]
      exact ⟨rfl, .rested hidle hfree hholds, h.hits, h.lookups⟩
  | answer t outcome => exact absurd rfl (hno t)
  | resume t => exact absurd rfl (hno t)
  | cancel t => exact absurd rfl (hno t)

/-- A step of an edge with one task under way. -/
theorem Stacked.working (h : Stacked S w m es s) (hone : OneAtATime S w s a)
    {before : List (Stack.Event String)} {t : Nat} {call : Call β} {phase : Phase β}
    (hes : es = before ++ [.use call.key]) (ht : s.tasks[t]? = some ⟨call, phase⟩)
    (hothers : ∀ (u : Nat) (τ : Task β), s.tasks[u]? = some τ → u ≠ t → τ.phase.over = true)
    (hworks : Works S w s call phase)
    (hread : ∀ e, call.cached = some e → e.size = w call.key)
    (hholds : s.cacheStore.Holds w m (Stack.touch (Stack.run w m before) call.key))
    {μ : Edge β} (hmove : Move S s a μ) : Stacked S w m (es ++ (event? S a).toList) μ := by
  have hbusy : ¬ Idle s := by
    intro hidle
    have hover : phase.over = true := hidle t _ ht
    cases phase with
    | returned | raised | finished => exact hworks
    | _ => cases hover
  have hnone : event? S a = none := by
    cases a with
    | arrive path rh => exact absurd hone hbusy
    | purge url keyPrefix => exact absurd hone hbusy
    | _ => rfl
  rw [hnone, Option.toList_none, List.append_nil]
  -- a task that takes a step is the one
  have hone' : ∀ {u : Nat} {call' : Call β} {phase' : Phase β},
      s.tasks[u]? = some ⟨call', phase'⟩ → phase'.over = false →
        u = t ∧ call' = call ∧ phase' = phase := by
    intro u call' phase' hu hlive
    have htask : u = t := by
      by_contra hne
      have hover : phase'.over = true := hothers u _ hu hne
      rw [hlive] at hover
      cases hover
    subst htask
    rw [ht] at hu
    cases hu
    exact ⟨rfl, rfl, rfl⟩
  -- the task goes on, and the store is as it was
  have hgoes : ∀ {μ : Edge β} {phase' : Phase β}, μ.circuitBreaker.state = .closed →
      μ.cacheStore = s.cacheStore →
      μ.tasks = s.tasks.modify t (fun τ => { τ with phase := phase' }) →
      Works S w μ call phase' → Stacked S w m es μ := by
    intro μ phase' hclosed hstore htasks hworks'
    refine ⟨hclosed, .working t phase' hes ?_ ?_ hworks' hread (hstore ▸ hholds),
      hstore ▸ h.hits, hstore ▸ h.lookups⟩
    · rw [htasks, List.getElem?_modify_eq, ht]
      rfl
    · intro u τ hτ hne
      rw [htasks, List.getElem?_modify_ne _ _ (Ne.symm hne)] at hτ
      exact hothers u τ hτ hne
  cases hmove with
  | @answered u call' role outcome hu =>
      obtain ⟨rfl, rfl, rfl⟩ := hone' hu rfl
      obtain ⟨r, rfl, hfiles⟩ := hone _ ht
      exact hgoes h.closed rfl rfl ⟨hworks, r, rfl, hfiles⟩
  | @revalidating u call' breaker hu hallow =>
      obtain ⟨rfl, rfl, rfl⟩ := hone' hu rfl
      rw [CircuitBreaker.aenter_of_closed h.closed] at hallow
      cases hallow
      exact hgoes h.closed rfl rfl hworks
  | @revalidationRefused u call' x hu hrefuse =>
      rw [CircuitBreaker.aenter_of_closed h.closed] at hrefuse
      cases hrefuse
  | coalesced hu | retried hu | retryRefused hu | cancelledWaiting hu =>
      obtain ⟨rfl, rfl, rfl⟩ := hone' hu rfl
      exact hworks.elim
  | @settled u call' role r filed response hu hsettle =>
      obtain ⟨rfl, rfl, rfl⟩ := hone' hu rfl
      obtain ⟨hlisted, r', hr, hfiles⟩ := hworks
      cases hr
      exact h.settled hes ht hothers hlisted hfiles hread hholds hsettle
  | @unsettled u call' role r x hu hsettle =>
      obtain ⟨rfl, rfl, rfl⟩ := hone' hu rfl
      obtain ⟨-, r', hr, hfiles⟩ := hworks
      cases hr
      obtain ⟨result, hok⟩ := hfiles.settles s.wall
      rw [hok] at hsettle
      cases hsettle
  | failed hu =>
      obtain ⟨rfl, rfl, rfl⟩ := hone' hu rfl
      obtain ⟨-, r', hr, -⟩ := hworks
      cases hr
  | cancelledScheduled hu | cancelledFetching hu => exact hone.elim
  | ticked hmono =>
      exact ⟨h.closed, .working _ _ hes ht hothers hworks hread hholds, h.hits, h.lookups⟩
  | reset => exact ⟨rfl, .working _ _ hes ht hothers hworks hread hholds, h.hits, h.lookups⟩
  | _ => exact absurd hone hbusy

theorem stacked_step (hw : ∀ k, 0 ≤ w k) (h : Stacked S w m es s) (hone : OneAtATime S w s a)
    (hstep : s.step S a = some s') : Stacked S w m (es ++ (event? S a).toList) s' := by
  obtain ⟨μ, hmove, rfl⟩ := move_of_step hstep
  have hμ : Stacked S w m (es ++ (event? S a).toList) μ := by
    cases h.stage with
    | rested hidle hfree hholds => exact h.rested hw hone hidle hfree hholds hmove
    | working t phase hes ht hothers hworks hread hholds =>
        exact h.working hone hes ht hothers hworks hread hholds hmove
  exact ⟨hμ.closed, hμ.stage.stamp, hμ.hits, hμ.lookups⟩

/-- The events of a run, in order. -/
def workload (S : Setup β) (p : List (Action β)) : List (Stack.Event String) := p.filterMap (event? S)

/-- **One request at a time, the store is the stack of the events.** -/
theorem stacked_run (hw : ∀ k, 0 ≤ w k) (p : List (Action β)) (h : Stacked S w m es s)
    (hone : Lts.EachStep (step S) (OneAtATime S w) s p) (hrun : Lts.run (step S) s p = some s') :
    Stacked S w m (es ++ workload S p) s' := by
  induction p generalizing s es with
  | nil =>
      cases hrun
      rw [workload, List.filterMap_nil, List.append_nil]
      exact h
  | cons a rest ih =>
      obtain ⟨mid, hstep, hrest⟩ := Lts.run_cons.mp hrun
      obtain ⟨hfirst, hothers⟩ := hone mid hstep
      have hsplit : workload S (a :: rest) = (event? S a).toList ++ workload S rest := by
        rw [workload, List.filterMap_cons]
        cases event? S a <;> rfl
      rw [hsplit, ← List.append_assoc]
      exact ih (stacked_step hw h hfirst hstep) hothers hrest

theorem Stacked.holds (h : Stacked S w m es s) (hidle : Idle s) :
    s.cacheStore.Holds w m (Stack.run w m es) := by
  cases h.stage with
  | rested _ _ hholds => exact hholds
  | @working before t call phase hes ht hothers hworks hread hholds =>
      have hover : phase.over = true := hidle t _ ht
      cases phase with
      | returned | raised | finished => exact hworks.elim
      | _ => cases hover

/-- **A larger store loses no hit.**  Two edges, at clocks and with lifetimes of their own, are
sent the same requests and purges, one after another.  The one with the larger store then holds
every key that the other one holds, and has missed no more often. -/
theorem larger_of_run {S' : Setup β} (w : String → Int) (hw : ∀ k, 0 ≤ w k) {m m' : Int}
    (hm : m ≤ m') {breaker breaker' : CircuitBreaker} (hclosed : breaker.state = .closed)
    (hclosed' : breaker'.state = .closed) (wall mono wall' mono' : Time) (p p' : List (Action β))
    (hone : Lts.EachStep (step S) (OneAtATime S w) (start { maxSizeBytes := m } breaker wall mono) p)
    (hone' : Lts.EachStep (step S') (OneAtATime S' w)
      (start { maxSizeBytes := m' } breaker' wall' mono') p')
    (hevents : workload S p = workload S' p') (s s' : Edge β)
    (hrun : Lts.run (step S) (start { maxSizeBytes := m } breaker wall mono) p = some s)
    (hrun' : Lts.run (step S') (start { maxSizeBytes := m' } breaker' wall' mono') p' = some s')
    (hidle : Idle s) (hidle' : Idle s') :
    s.cacheStore.store.keys <:+ s'.cacheStore.store.keys ∧
      s.cacheStore.hits ≤ s'.cacheStore.hits ∧ s'.cacheStore.misses ≤ s.cacheStore.misses := by
  have h := stacked_run hw p (stacked_start hclosed wall mono) hone hrun
  have h' := stacked_run hw p' (stacked_start hclosed' wall' mono') hone' hrun'
  rw [List.nil_append] at h h'
  rw [← hevents] at h'
  have hhits : s.cacheStore.hits ≤ s'.cacheStore.hits := by
    rw [h.hits, h'.hits]
    exact Stack.hits_mono w hm _
  refine ⟨?_, hhits, ?_⟩
  · rw [(h.holds hidle).keys, (h'.holds hidle').keys]
    exact Stack.run_suffix w hm _
  · have hlookups := h.lookups.trans h'.lookups.symm
    omega

/-! ### Three pages in two places -/

def page : OriginResponse Nat where
  content := 1
  statusCode := 200
  headers := ∅

def fetched (t : Nat) (path : String) : List (Action Nat) :=
  [.arrive path none, .answer t (.answered page), .resume t]

/-- Three pages are fetched, and the first one again. -/
def fourFetches : List (Action Nat) :=
  fetched 0 "a" ++ fetched 1 "b" ++ fetched 2 "c" ++ fetched 3 "a"

/-- Three pages are fetched, and the first one is still there. -/
def threeFetches : List (Action Nat) :=
  fetched 0 "a" ++ fetched 1 "b" ++ fetched 2 "c" ++ [.tick 30 30, .arrive "a" none]

def idle? (s : Edge Nat) : Bool := s.tasks.all fun τ => τ.phase.over

theorem idle_of_idle? {s : Edge Nat} (h : idle? s = true) : Idle s := fun _ τ hτ =>
  List.all_eq_true.mp h τ (List.mem_of_getElem? hτ)

/-- The conditions on a step of these runs, as far as they compute. -/
def alone (s : Edge Nat) : Action Nat → Bool
  | .arrive _ _ | .purge _ _ => idle? s
  | .answer _ outcome => outcome = .answered page
  | .cancel _ => false
  | .resume _ | .tick _ _ | .reset => true

theorem alone_sound {s : Edge Nat} {a : Action Nat} (h : alone s a = true) :
    OneAtATime sampleSetup (fun _ => 1) s a := by
  cases a with
  | arrive path rh => exact idle_of_idle? h
  | purge url keyPrefix => exact idle_of_idle? h
  | answer t outcome =>
      exact fun τ _ => ⟨page, of_decide_eq_true h, rfl, fun now => ⟨_, rfl⟩, rfl, fun _ => rfl⟩
  | cancel t => cases h
  | _ => trivial

/-- In two places the first page is lost before it is asked for again, and in three it is not. -/
theorem larger_of_run_threeFetches : ∃ s s' : Edge Nat,
    Lts.run (step sampleSetup) (start { maxSizeBytes := 2 } {} 0 0) fourFetches = some s ∧
      Lts.run (step sampleSetup) (start { maxSizeBytes := 3 } {} 0 0) threeFetches = some s' ∧
      s.cacheStore.hits = 0 ∧ s'.cacheStore.hits = 1 ∧
      s.cacheStore.store.keys <:+ s'.cacheStore.store.keys ∧
      s.cacheStore.hits ≤ s'.cacheStore.hits ∧ s'.cacheStore.misses ≤ s.cacheStore.misses := by
  let small : Edge Nat := start { maxSizeBytes := 2 } {} 0 0
  let large : Edge Nat := start { maxSizeBytes := 3 } {} 0 0
  have hrun : (Lts.run (step sampleSetup) small fourFetches).isSome = true := by decide +kernel
  have hrun' : (Lts.run (step sampleSetup) large threeFetches).isSome = true := by decide +kernel
  have halone : Lts.checkEach (step sampleSetup) alone small fourFetches = true := by decide +kernel
  have halone' : Lts.checkEach (step sampleSetup) alone large threeFetches = true := by
    decide +kernel
  have hend : idle? (Lts.last (step sampleSetup) small fourFetches) = true ∧
      (Lts.last (step sampleSetup) small fourFetches).cacheStore.hits = 0 := by decide +kernel
  have hend' : idle? (Lts.last (step sampleSetup) large threeFetches) = true ∧
      (Lts.last (step sampleSetup) large threeFetches).cacheStore.hits = 1 := by decide +kernel
  exact ⟨_, _, Lts.run_last hrun, Lts.run_last hrun', hend.2, hend'.2,
    larger_of_run (fun _ => 1) (fun _ => by decide) (by decide) rfl rfl 0 0 0 0 fourFetches
      threeFetches (Lts.eachStep_of_check (fun _ _ => alone_sound) halone)
      (Lts.eachStep_of_check (fun _ _ => alone_sound) halone') rfl _ _ (Lts.run_last hrun)
      (Lts.run_last hrun') (idle_of_idle? hend.1) (idle_of_idle? hend'.1)⟩

end Edge

end Cdn

/-
What the metrics of the management API add up to.

A poll hears each edge at a moment of its own.  The counters of lookups never go back, so what an
edge says of them lies between what its store counted when the poll began and what it counts when
the poll is over; and so do the sums, over the edges that have said anything.

An edge that is configured twice is asked twice and added twice.
-/
import Cdn.Monitor
import Cdn.Proofs.Inclusion
import Cdn.Proofs.Invalidation

namespace Cdn

/-! ### Counters that do not go back -/

namespace LruCacheStore

variable {β : Type} {s s' s'' : LruCacheStore β}

/-- The second store has counted all lookups of the first. -/
structure Behind (s s' : LruCacheStore β) : Prop where
  hits : s.hits ≤ s'.hits
  misses : s.misses ≤ s'.misses

theorem Behind.refl (s : LruCacheStore β) : Behind s s := ⟨le_rfl, le_rfl⟩

theorem Behind.trans (h : Behind s s') (h' : Behind s' s'') : Behind s s'' :=
  ⟨h.hits.trans h'.hits, h.misses.trans h'.misses⟩

theorem behind_of_counts (hhits : s'.hits = s.hits) (hmisses : s'.misses = s.misses) :
    Behind s s' := ⟨hhits.ge, hmisses.ge⟩

theorem behind_get (s : LruCacheStore β) (now : Time) (key : String) :
    Behind s (s.get now key).2 := by
  unfold get
  split
  · exact ⟨le_rfl, Nat.le_succ _⟩
  · exact ⟨Nat.le_succ _, le_rfl⟩

end LruCacheStore

namespace Edge

variable {β : Type} {S : Setup β} {s s' m : Edge β} {a : Action β}

theorem behind_file (s : Edge β) (filed : Option (String × CacheEntry β)) :
    s.cacheStore.Behind (s.file filed).cacheStore := by
  cases filed with
  | none => exact .refl _
  | some filed =>
      obtain ⟨hhits, hmisses, -⟩ := LruCacheStore.sameCounts_put s.cacheStore filed.1 filed.2
      exact LruCacheStore.behind_of_counts hhits hmisses

/-- A lookup is counted, and nothing else changes the counters of lookups. -/
theorem Move.behind (h : Move S s a m) : s.cacheStore.Behind m.cacheStore := by
  cases h with
  | fresh | stale | scheduled | turnedAway | joined | led | coalesced | retried =>
      exact LruCacheStore.behind_get ..
  | refused =>
      rw [conclude_cacheStore]
      exact LruCacheStore.behind_get ..
  | retryRefused =>
      rw [conclude_cacheStore]
      exact LruCacheStore.behind_get ..
  | settled =>
      rw [conclude_cacheStore]
      exact behind_file { s with circuitBreaker := s.circuitBreaker.recordSuccess } _
  | revalidationRefused | unsettled | failed | cancelledFetching =>
      rw [conclude_cacheStore]
      exact .refl _
  | purged =>
      obtain ⟨hhits, hmisses⟩ := LruCacheStore.purge_counts s.cacheStore _ _
      exact LruCacheStore.behind_of_counts hhits hmisses
  | _ => exact .refl _

theorem behind_of_step (hstep : s.step S a = some s') :
    s.cacheStore.Behind s'.cacheStore := by
  obtain ⟨m, hmove, rfl⟩ := move_of_step hstep
  exact hmove.behind

end Edge

theorem Deployment.behind_of_step {D : Deployment.Setup} {s s' : Deployment}
    {a : Deployment.Action} (hstep : s.step D a = some s') :
    s.edge.cacheStore.Behind s'.edge.cacheStore := by
  rcases Deployment.step_cases hstep with ⟨b, -, hedge, -⟩ | ⟨hedge, -⟩
  · exact Edge.behind_of_step hedge
  · rw [hedge]
    exact .refl _

namespace Fleet

variable {C : Setup} {s s' : Fleet} {a : Action}

theorem behind_update {edgeUrl : String} {b : Deployment.Action} {part : Deployment}
    (hstep : (s.part edgeUrl).step (C.deployment edgeUrl) b = some part) (url : String) :
    (s.edges url).cacheStore.Behind
      (Function.update s.edges edgeUrl part.edge url).cacheStore := by
  by_cases hurl : url = edgeUrl
  · subst hurl
    rw [Function.update_self]
    exact Deployment.behind_of_step hstep
  · rw [Function.update_of_ne hurl]
    exact .refl _

theorem behind_of_step (hstep : s.step C a = some s') (url : String) :
    (s.edges url).cacheStore.Behind (s'.edges url).cacheStore := by
  cases moved_of_step hstep with
  | edge hedge => exact behind_update hedge url
  | handled hd hedge => exact behind_update hedge url
  | _ => exact .refl _

end Fleet

/-! ### What a poll has heard -/

namespace Management

variable {P P' : String → LruCacheStore.Stats → Prop} {edgeUrls rest : List String}
  {heard : List (String × LruCacheStore.Stats)} {poll : Poll} {edgeUrl : String}
  {report : EdgeReport}

/-- The sums of what has been heard. -/
def Aggregate.of (heard : List (String × LruCacheStore.Stats)) : Aggregate where
  totalEntries := (heard.map fun x => x.2.totalEntries).sum
  totalSizeBytes := (heard.map fun x => x.2.totalSizeBytes).sum
  hitCount := (heard.map fun x => x.2.hitCount).sum
  missCount := (heard.map fun x => x.2.missCount).sum
  evictionCount := (heard.map fun x => x.2.evictionCount).sum

theorem Aggregate.of_concat (heard : List (String × LruCacheStore.Stats))
    (x : String × LruCacheStore.Stats) : of (heard ++ [x]) = (of heard).add x.2 := by
  simp [of, add]

/-- The ratio is the part of the lookups that were hits. -/
theorem Aggregate.hitRatio_mul (a : Aggregate) :
    a.hitRatio * (a.hitCount + a.missCount : Nat) = a.hitCount := by
  unfold hitRatio
  dsimp only
  split
  · rename_i hpos
    exact div_mul_cancel₀ _ (Nat.cast_ne_zero.mpr hpos.ne')
  · rename_i hnot
    have hzero : a.hitCount + a.missCount = 0 := Nat.eq_zero_of_not_pos hnot
    rw [hzero, (Nat.add_eq_zero_iff.mp hzero).1, Nat.cast_zero, zero_mul]

/-- What `per_edge` says of these edges is what has been heard of them, or an error. -/
def Reports (heard : List (String × LruCacheStore.Stats)) (poll : Poll) (urls : List String) :
    Prop :=
  ∀ url ∈ urls, ∃ report, poll.perEdge.get? url = some report ∧
    ∀ stats, report = .ok stats → (url, stats) ∈ heard

/-- A poll has asked the edges up to `left`, some of which have said what it has heard. -/
structure Poll.Told (P : String → LruCacheStore.Stats → Prop) (edgeUrls : List String)
    (heard : List (String × LruCacheStore.Stats)) (poll : Poll) : Prop where
  asked : ∃ asked, edgeUrls = asked ++ poll.left ∧ (heard.map Prod.fst).Sublist asked ∧
    Reports heard poll asked
  said : ∀ x ∈ heard, P x.1 x.2
  /-- Nobody who is asked only once is overwritten. -/
  kept : edgeUrls.Nodup → ∀ x ∈ heard, poll.perEdge.get? x.1 = some (.ok x.2)
  aggregate_eq : poll.aggregate = .of heard

theorem told_start : Poll.Told P edgeUrls [] { left := edgeUrls } where
  asked := ⟨[], rfl, List.Sublist.refl _, fun _ h => by cases h⟩
  said := fun _ h => by cases h
  kept := fun _ _ h => by cases h
  aggregate_eq := rfl

theorem Poll.Told.imp (told : poll.Told P edgeUrls heard)
    (himp : ∀ url stats, P url stats → P' url stats) : poll.Told P' edgeUrls heard where
  asked := told.asked
  said := fun x hx => himp _ _ (told.said x hx)
  kept := told.kept
  aggregate_eq := told.aggregate_eq

theorem Reports.note {urls : List String} (h : Reports heard poll urls)
    {heard' : List (String × LruCacheStore.Stats)} (hmore : heard ⊆ heard')
    (hnew : ∀ stats, report = .ok stats → (edgeUrl, stats) ∈ heard') :
    Reports heard' (poll.note edgeUrl rest report) (urls ++ [edgeUrl]) := by
  intro url hurl
  show ∃ r, (poll.perEdge.set edgeUrl report).get? url = some r ∧ _
  rw [Dict.get?_set]
  by_cases hself : url = edgeUrl
  · rw [if_pos hself, hself]
    exact ⟨report, rfl, hnew⟩
  · rw [if_neg hself]
    have hold : url ∈ urls :=
      (List.mem_append.mp hurl).resolve_right fun h => hself (List.mem_singleton.mp h)
    obtain ⟨r, hr, hheard⟩ := h url hold
    exact ⟨r, hr, fun stats hstats => hmore (hheard stats hstats)⟩

/-- One edge more is heard, or does not say anything. -/
theorem Poll.Told.note (told : poll.Told P edgeUrls heard) (hleft : poll.left = edgeUrl :: rest)
    (hsaid : ∀ stats, report = .ok stats → P edgeUrl stats) :
    ∃ heard', (poll.note edgeUrl rest report).Told P edgeUrls heard' := by
  obtain ⟨asked, horder, hsub, hreports⟩ := told.asked
  have horder' : edgeUrls = (asked ++ [edgeUrl]) ++ rest := by
    rw [horder, hleft, List.append_assoc, List.singleton_append]
  have hkept : edgeUrls.Nodup → ∀ x ∈ heard,
      (poll.note edgeUrl rest report).perEdge.get? x.1 = some (.ok x.2) := by
    intro hnodup x hx
    have hasked : x.1 ∈ asked := hsub.subset (List.mem_map_of_mem hx)
    have hne : x.1 ≠ edgeUrl := fun heq =>
      List.disjoint_of_nodup_append (horder ▸ hnodup) hasked (by
        rw [hleft, heq]
        exact List.mem_cons_self)
    show (poll.perEdge.set edgeUrl report).get? x.1 = _
    rw [Dict.get?_set, if_neg hne]
    exact told.kept hnodup x hx
  cases report with
  | error text =>
      exact ⟨heard, ⟨asked ++ [edgeUrl], horder', hsub.trans (List.sublist_append_left _ _),
        hreports.note (List.Subset.refl _) fun _ h => by cases h⟩, told.said, hkept,
        told.aggregate_eq⟩
  | ok stats =>
      refine ⟨heard ++ [(edgeUrl, stats)], ⟨asked ++ [edgeUrl], horder', ?_, ?_⟩, ?_, ?_, ?_⟩
      · rw [List.map_append]
        exact hsub.append (List.Sublist.refl _)
      · refine hreports.note (List.subset_append_left _ _) fun stats' h => ?_
        cases h
        exact List.mem_append_right _ List.mem_cons_self
      · intro x hx
        rcases List.mem_append.mp hx with hx | hx
        · exact told.said x hx
        · rw [List.mem_singleton.mp hx]
          exact hsaid stats rfl
      · intro hnodup x hx
        rcases List.mem_append.mp hx with hx | hx
        · exact hkept hnodup x hx
        · rw [List.mem_singleton.mp hx]
          show (poll.perEdge.set edgeUrl (.ok stats)).get? edgeUrl = _
          rw [Dict.get?_set, if_pos rfl]
      · rw [Aggregate.of_concat, ← told.aggregate_eq]
        rfl

end Management

/-! ### Every run -/

namespace Monitor

open Management

variable {C : Fleet.Setup} {s₀ s s' : Monitor} {a : Action} {i : Nat} {U : Monitor → Prop}

/-- What the store of an edge counts. -/
def store (s : Monitor) (url : String) : LruCacheStore Bytes := (s.fleet.edges url).cacheStore

theorem behind_of_step (hstep : s.step C a = some s') (url : String) :
    (s.store url).Behind (s'.store url) := by
  cases moved_of_step hstep with
  | fleet hfleet => exact Fleet.behind_of_step hfleet url
  | _ => exact .refl _

/-- An edge has said this at one of the moments in `U`. -/
def Said (U : Monitor → Prop) (s₀ s : Monitor) (url : String) (stats : LruCacheStore.Stats) :
    Prop :=
  ∃ u, U u ∧ stats = (u.store url).stats ∧ (s₀.store url).Behind (u.store url) ∧
    (u.store url).Behind (s.store url)

/-- A poll is under way that has begun at the first state. -/
structure Polling (C : Fleet.Setup) (U : Monitor → Prop) (s₀ : Monitor) (i : Nat) (s : Monitor) :
    Prop where
  since : ∀ url, (s₀.store url).Behind (s.store url)
  told : ∃ poll heard, s.polls[i]? = some poll ∧ poll.Told (Said U s₀ s) C.edgeUrls heard

theorem polling_begin (hbegin : s₀.step C .poll = some s) :
    Polling C U s₀ s₀.polls.length s := by
  cases hbegin
  exact ⟨fun _ => .refl _, _, [], List.getElem?_concat_length, told_start⟩

/-- A step is taken in one of the states in `U`, where an edge may be heard. -/
theorem polling_step (hU : U s) (h : Polling C U s₀ i s) (hstep : s.step C a = some s') :
    Polling C U s₀ i s' := by
  have hbehind := behind_of_step hstep
  obtain ⟨poll, heard, hi, told⟩ := h.told
  have told' : poll.Told (Said U s₀ s') C.edgeUrls heard :=
    told.imp fun url stats ⟨u, hu, hstats, hbefore, hafter⟩ =>
      ⟨u, hu, hstats, hbefore, hafter.trans (hbehind url)⟩
  have hnow : ∀ url stats, stats = (s.store url).stats → Said U s₀ s' url stats :=
    fun url stats hstats => ⟨s, hU, hstats, h.since url, hbehind url⟩
  refine ⟨fun url => (h.since url).trans (hbehind url), ?_⟩
  cases moved_of_step hstep with
  | fleet => exact ⟨poll, heard, hi, told'⟩
  | polled =>
      exact ⟨poll, heard,
        (List.getElem?_append_left (List.getElem?_eq_some_iff.mp hi).1).trans hi, told'⟩
  | @heard a j poll' edgeUrl rest report hj hleft hreport =>
      by_cases hij : j = i
      · subst hij
        obtain rfl : poll = poll' := Option.some.inj (hi.symm.trans hj)
        obtain ⟨heard', htold⟩ := told'.note hleft fun stats hstats =>
          hnow edgeUrl stats (hreport stats hstats)
        exact ⟨_, heard', List.getElem?_set_self (List.getElem?_eq_some_iff.mp hi).1, htold⟩
      · exact ⟨poll, heard, (List.getElem?_set_ne hij).trans hi, told'⟩

/--
**The metrics lie between then and now.**  In every run from the call of `get_metrics` to its
end, whatever happens in between: what the reply says of an edge is what its store counted at
some moment in between, or an error; the sums are those of what has been heard, in the order of
the configured edges, and where none is configured twice they are those of what the reply says;
and the hits and misses are no fewer than the same edges had counted at the beginning, and no
more than they have counted in the end.  The ratio is that of the sums.
-/
theorem polled_of_run (C : Fleet.Setup) (s₀ s₁ s₂ : Monitor) (p : List Action)
    (hbegin : s₀.step C .poll = some s₁) (hrun : Lts.run (step C) s₁ p = some s₂) (poll : Poll)
    (hpoll : s₂.polls[s₀.polls.length]? = some poll) (hdone : poll.left = []) :
    ∃ heard, (heard.map Prod.fst).Sublist C.edgeUrls ∧
      (∀ x ∈ heard, ∃ u, Lts.Visits (step C) s₁ p u ∧ x.2 = (u.store x.1).stats) ∧
      Reports heard poll C.edgeUrls ∧
      (C.edgeUrls.Nodup → ∀ x ∈ heard, poll.perEdge.get? x.1 = some (.ok x.2)) ∧
      poll.aggregate = .of heard ∧
      (heard.map fun x => (s₀.store x.1).hits).sum ≤ poll.aggregate.hitCount ∧
      poll.aggregate.hitCount ≤ (heard.map fun x => (s₂.store x.1).hits).sum ∧
      (heard.map fun x => (s₀.store x.1).misses).sum ≤ poll.aggregate.missCount ∧
      poll.aggregate.missCount ≤ (heard.map fun x => (s₂.store x.1).misses).sum ∧
      poll.aggregate.hitRatio * (poll.aggregate.hitCount + poll.aggregate.missCount : Nat) =
        poll.aggregate.hitCount := by
  have hpolling := Lts.run_guarded (I := Polling C (Lts.Visits (step C) s₁ p) s₀ s₀.polls.length)
    (fun s a s' h hvisits hstep => polling_step hvisits h hstep) p (polling_begin hbegin)
    (Lts.eachStep_visits _ p) hrun
  obtain ⟨poll', heard, hpoll', told⟩ := hpolling.told
  obtain rfl : poll = poll' := Option.some.inj (hpoll.symm.trans hpoll')
  obtain ⟨asked, horder, hsub, hreports⟩ := told.asked
  rw [hdone, List.append_nil] at horder
  subst horder
  have hsaid : ∀ x ∈ heard, Said (Lts.Visits (step C) s₁ p) s₀ s₂ x.1 x.2 := told.said
  refine ⟨heard, hsub, fun x hx => ?_, hreports, told.kept, told.aggregate_eq, ?_, ?_, ?_, ?_,
    poll.aggregate.hitRatio_mul⟩
  · obtain ⟨u, hu, hstats, -⟩ := hsaid x hx
    exact ⟨u, hu, hstats⟩
  all_goals
    rw [told.aggregate_eq]
    refine List.sum_le_sum fun x hx => ?_
    obtain ⟨u, -, hstats, hbefore, hafter⟩ := hsaid x hx
    rw [hstats]
  · exact hbefore.hits
  · exact hafter.hits
  · exact hbefore.misses
  · exact hafter.misses

/-! ### Two edges that are heard in turn -/

def sampleMonitor : Monitor := { fleet := Fleet.fleetStart }

/-- Each edge is asked for a file, the first one when it has been heard, the second one before. -/
def heardInTurn : List Action :=
  [.stats 0, .fleet (.edge "e1" (.edge (.arrive "a" none))),
    .fleet (.edge "e2" (.edge (.arrive "a" none))), .stats 0]

/-- One of the two misses is counted. -/
theorem polled_of_run_heardInTurn : ∃ s₁ s₂ poll heard,
    sampleMonitor.step Fleet.sampleFleet .poll = some s₁ ∧
      Lts.run (step Fleet.sampleFleet) s₁ heardInTurn = some s₂ ∧
      (s₂.store "e1").misses + (s₂.store "e2").misses = 2 ∧
      poll.aggregate.missCount = 1 ∧ Reports heard poll ["e1", "e2"] ∧
      poll.aggregate.missCount ≤ (heard.map fun x => (s₂.store x.1).misses).sum := by
  let s₁ := Lts.last (step Fleet.sampleFleet) sampleMonitor [.poll]
  let s₂ := Lts.last (step Fleet.sampleFleet) s₁ heardInTurn
  have hrun : (Lts.run (step Fleet.sampleFleet) s₁ heardInTurn).isSome = true := by
    decide +kernel
  have hmisses : (s₂.store "e1").misses + (s₂.store "e2").misses = 2 := by decide +kernel
  have hends : (s₂.polls[0]?).any (fun poll => poll.left = [] ∧ poll.aggregate.missCount = 1) =
      true := by decide +kernel
  obtain ⟨poll, hpoll, hchecked⟩ := (Option.any_eq_true _ _).mp hends
  obtain ⟨hdone, hcount⟩ := of_decide_eq_true hchecked
  obtain ⟨heard, -, -, hreports, -, -, -, -, -, hle, -⟩ :=
    polled_of_run Fleet.sampleFleet sampleMonitor s₁ s₂ heardInTurn rfl (Lts.run_last hrun) poll
      hpoll hdone
  exact ⟨s₁, s₂, poll, heard, rfl, Lts.run_last hrun, hmisses, hcount, hreports, hle⟩

end Monitor

end Cdn

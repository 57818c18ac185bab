/-
What the statistics of the tiered store count.

A read that is answered from the hot tier counts once.  Any other read passes through two
tiers and counts in each: a miss in the hot tier, and then a hit or a miss in the cold one.
The totals add up the counters of both tiers, so the hits come out right and every read that
goes on to the cold tier is one miss too many.

So the totals, and with them the ratio, are right as long as no read has gone on.
-/
import Cdn.Proofs.Lru
import Cdn.Proofs.TieredMap

namespace Cdn

variable {β : Type}

namespace TieredCacheStore

variable {s s' : TieredCacheStore β}

/-! ### The counters of the tiers -/

/-- An operation that answers no read. -/
structure SameLookups (s s' : TieredCacheStore β) : Prop where
  hotHits : s'.hotHits = s.hotHits
  hotMisses : s'.hotMisses = s.hotMisses
  coldHits : s'.coldHits = s.coldHits
  coldMisses : s'.coldMisses = s.coldMisses

theorem SameLookups.refl (s : TieredCacheStore β) : SameLookups s s := ⟨rfl, rfl, rfl, rfl⟩

theorem SameLookups.trans {a b c : TieredCacheStore β} (h : SameLookups a b)
    (h' : SameLookups b c) : SameLookups a c :=
  ⟨h'.hotHits.trans h.hotHits, h'.hotMisses.trans h.hotMisses, h'.coldHits.trans h.coldHits,
    h'.coldMisses.trans h.coldMisses⟩

theorem sameLookups_coldDelete (s : TieredCacheStore β) (key : String) :
    SameLookups s (s.coldDelete key).2 := by
  rw [(coldDelete_spec s key).1]
  exact ⟨rfl, rfl, rfl, rfl⟩

theorem sameLookups_flushDemotions (s : TieredCacheStore β) :
    SameLookups s s.flushDemotions := by
  have hfold : ∀ (l : List (String × CacheEntry β)) (s : TieredCacheStore β),
      SameLookups s (l.foldl
        (fun s ke => { s.coldWrite ke.1 ke.2 with demotions := s.demotions + 1 }) s) := by
    intro l
    induction l with
    | nil => exact fun s => .refl s
    | cons ke rest ih =>
        intro s
        have hwrite : SameLookups s
            { s.coldWrite ke.1 ke.2 with demotions := s.demotions + 1 } := ⟨rfl, rfl, rfl, rfl⟩
        exact hwrite.trans (ih _)
  have hempty : SameLookups s { s with pendingDemotions := [] } := ⟨rfl, rfl, rfl, rfl⟩
  exact hempty.trans (hfold _ _)

theorem sameLookups_put (s : TieredCacheStore β) (key : String) (e : CacheEntry β) :
    SameLookups s (s.put key e) := by
  have hhot : SameLookups (s.coldDelete key).2 ((s.coldDelete key).2.hotPut key e) := by
    rw [hotPut_eq]
    exact ⟨rfl, rfl, rfl, rfl⟩
  exact ((sameLookups_coldDelete s key).trans hhot).trans (sameLookups_flushDemotions _)

/-- How a read is counted. -/
inductive Counts (s : TieredCacheStore β) :
    Option (CacheEntry β) → TieredCacheStore β → Prop where
  | hotHit {e : CacheEntry β} {s' : TieredCacheStore β}
      (h : SameLookups { s with hotHits := s.hotHits + 1 } s') : Counts s (some e) s'
  | coldHit {e : CacheEntry β} {s' : TieredCacheStore β}
      (h : SameLookups
        { s with hotMisses := s.hotMisses + 1, coldHits := s.coldHits + 1 } s') :
      Counts s (some e) s'
  | coldMiss {s' : TieredCacheStore β}
      (h : SameLookups
        { s with hotMisses := s.hotMisses + 1, coldMisses := s.coldMisses + 1 } s') :
      Counts s none s'

/-- A read misses the hot tier exactly if its key is not there. -/
theorem counts_get (s : TieredCacheStore β) (now : Time) (key : String) :
    Counts s (s.get now key).1 (s.get now key).2 ∧
      (s.get now key).2.hotMisses =
        s.hotMisses + (if (s.hot.store.get? key).isSome then 0 else 1) := by
  have hfst : (s.hot.get now key).1 = (s.hot.store.get? key).map (·.touch now) :=
    s.hot.get_fst now key
  cases hhot : s.hot.store.get? key with
  | some e =>
      have hget : s.hot.get now key = (some (e.touch now), (s.hot.get now key).2) :=
        Prod.ext (by rw [hfst, hhot]; rfl) rfl
      rw [get, hget]
      exact ⟨.hotHit ⟨rfl, rfl, rfl, rfl⟩, rfl⟩
  | none =>
      have hget : s.hot.get now key = (none, (s.hot.get now key).2) :=
        Prod.ext (by rw [hfst, hhot]; rfl) rfl
      rw [get, hget]
      dsimp only
      cases hcold : s.cold.get? (urlSafeKey key) with
      | none =>
          simp only [coldRead, hcold, Option.map_none]
          exact ⟨.coldMiss ⟨rfl, rfl, rfl, rfl⟩, rfl⟩
      | some c =>
          simp only [coldRead, hcold, Option.map_some]
          split
          · have hdelete := sameLookups_coldDelete
              { s with hot := (s.hot.get now key).2, hotMisses := s.hotMisses + 1 } key
            exact ⟨.coldMiss ⟨hdelete.hotHits, hdelete.hotMisses, hdelete.coldHits, rfl⟩,
              hdelete.hotMisses⟩
          · have hput := sameLookups_put
              { s with
                hot := (s.hot.get now key).2, hotMisses := s.hotMisses + 1
                coldHits := s.coldHits + 1, promotions := s.promotions + 1 } key (c.entry.touch now)
            exact ⟨.coldHit ⟨hput.hotHits, hput.hotMisses, hput.coldHits, hput.coldMisses⟩,
              hput.hotMisses⟩

end TieredCacheStore

/-! ### A store and its history -/

/-- A call of the tiered store and its result. -/
structure StoreCall (β : Type) where
  op : StoreOp β
  result : StoreResult β
deriving DecidableEq

def StoreCall.isGet (c : StoreCall β) : Bool :=
  match c.op with
  | .get _ => true
  | _ => false

/-- A `get` that returned an entry. -/
def StoreCall.found (c : StoreCall β) : Bool :=
  match c.op, c.result with
  | .get _, .entry (some _) => true
  | _, _ => false

structure Tally (β : Type) where
  store : TieredCacheStore β
  history : List (StoreCall β) := []
deriving DecidableEq

namespace Tally

variable {s s' : Tally β} {a : Time × StoreOp β}

def start (m : Int) : Tally β where
  store := .init m

def step (s : Tally β) (a : Time × StoreOp β) : Option (Tally β) :=
  let (result, store) := s.store.perform a.1 a.2
  some ⟨store, s.history ++ [⟨a.2, result⟩]⟩

/-- What `stats` reports is what the history says. -/
structure Right (length : β → Nat) (s : Tally β) : Prop where
  hits : (s.store.stats length).totalHitCount = s.history.countP StoreCall.found
  lookups : (s.store.stats length).totalHitCount + (s.store.stats length).totalMissCount =
    s.history.countP StoreCall.isGet
  ratio : (s.store.stats length).hitRatio =
    if s.history.countP StoreCall.isGet = 0 then 0
    else (s.history.countP StoreCall.found : Rat) / (s.history.countP StoreCall.isGet : Nat)

/-- A read finds its key in the hot tier. -/
def FindsHot (s : Tally β) (a : Time × StoreOp β) : Prop :=
  ∀ key, a.2 = .get key → s.store.hot.store.contains key = true

/-- What the counters say, whatever the reads find. -/
structure Counted (s : Tally β) : Prop where
  hits : s.store.hotHits + s.store.coldHits = s.history.countP StoreCall.found
  lookups : s.store.hotHits + s.store.hotMisses = s.history.countP StoreCall.isGet
  cold : s.store.coldHits + s.store.coldMisses = s.store.hotMisses

theorem step_eq (s : Tally β) (now : Time) (op : StoreOp β) : step s (now, op) =
    some ⟨(s.store.perform now op).2, s.history ++ [⟨op, (s.store.perform now op).1⟩]⟩ := rfl

/-- An operation that is no read leaves the counters of the reads alone. -/
theorem sameLookups_perform (st : TieredCacheStore β) (now : Time) {op : StoreOp β}
    (hop : ∀ key, op ≠ .get key) : TieredCacheStore.SameLookups st (st.perform now op).2 := by
  cases op with
  | get key => exact absurd rfl (hop key)
  | put key e => exact TieredCacheStore.sameLookups_put st key e
  | delete key =>
      have hdelete := TieredCacheStore.sameLookups_coldDelete { st with hot := (st.hot.delete key).2 } key
      exact ⟨hdelete.hotHits, hdelete.hotMisses, hdelete.coldHits, hdelete.coldMisses⟩
  | deleteByPrefix keyPrefix => exact ⟨rfl, rfl, rfl, rfl⟩
  | keys => exact ⟨rfl, rfl, rfl, rfl⟩

/-- **One call.**  The counters follow the history, and the misses of the hot tier are the
reads that did not find their key there. -/
theorem Counted.step (h : s.Counted) (hstep : step s a = some s') : s'.Counted ∧
    (s'.store.hotMisses = s.store.hotMisses ↔ s.FindsHot a) := by
  obtain ⟨now, op⟩ := a
  rw [step_eq, Option.some.injEq] at hstep
  subst hstep
  by_cases hop : ∃ key, op = .get key
  · obtain ⟨key, rfl⟩ := hop
    obtain ⟨hcounts, hmisses⟩ := s.store.counts_get now key
    have hfinds : s.FindsHot (now, .get key) ↔ (s.store.hot.store.get? key).isSome = true := by
      refine ⟨fun hot => hot key rfl, fun hsome k hk => ?_⟩
      cases hk
      exact hsome
    refine ⟨?_, ?_⟩
    · show Counted ⟨(s.store.get now key).2,
        s.history ++ [⟨.get key, .entry (s.store.get now key).1⟩]⟩
      generalize (s.store.get now key).1 = answer at hcounts
      generalize (s.store.get now key).2 = after at hcounts
      have hhits := h.hits
      have hlookups := h.lookups
      have hcold := h.cold
      cases hcounts with
      | hotHit hsame | coldHit hsame | coldMiss hsame =>
          have h1 := hsame.hotHits
          have h2 := hsame.hotMisses
          have h3 := hsame.coldHits
          have h4 := hsame.coldMisses
          dsimp only at h1 h2 h3 h4
          constructor <;>
            simp [List.countP_append, StoreCall.found, StoreCall.isGet, h1, h2, h3, h4] <;> omega
    · show (s.store.get now key).2.hotMisses = _ ↔ _
      rw [hmisses, hfinds]
      split <;> simp_all
  · have hsame := sameLookups_perform s.store now fun key hkey => hop ⟨key, hkey⟩
    have hnone : ∀ result : StoreResult β, (⟨op, result⟩ : StoreCall β).isGet = false ∧
        (⟨op, result⟩ : StoreCall β).found = false := by
      intro result
      cases op with
      | get key => exact absurd ⟨key, rfl⟩ hop
      | put key e => exact ⟨rfl, rfl⟩
      | delete key => exact ⟨rfl, rfl⟩
      | deleteByPrefix keyPrefix => exact ⟨rfl, rfl⟩
      | keys => exact ⟨rfl, rfl⟩
    obtain ⟨hget, hfound⟩ := hnone (s.store.perform now op).1
    refine ⟨⟨?_, ?_, ?_⟩, iff_of_true hsame.hotMisses fun key hkey => ?_⟩
    · rw [hsame.hotHits, hsame.coldHits, h.hits, List.countP_append, List.countP_singleton, hfound]
      rfl
    · rw [hsame.hotHits, hsame.hotMisses, h.lookups, List.countP_append, List.countP_singleton, hget]
      rfl
    · rw [hsame.coldHits, hsame.coldMisses, hsame.hotMisses, h.cold]
    · exact absurd ⟨key, hkey⟩ hop

/-- The totals are right exactly if no read has missed the hot tier. -/
theorem Counted.right_iff (h : s.Counted) (length : β → Nat) :
    s.Right length ↔ s.store.hotMisses = 0 := by
  have htotal : (s.store.stats length).totalHitCount + (s.store.stats length).totalMissCount =
      s.history.countP StoreCall.isGet + s.store.hotMisses := by
    rw [← h.lookups, ← h.cold]
    show s.store.hotHits + s.store.coldHits + (s.store.hotMisses + s.store.coldMisses) = _
    rw [← h.cold]
    omega
  constructor
  · intro hright
    have hlookups := hright.lookups
    omega
  · intro hzero
    rw [hzero, Nat.add_zero] at htotal
    refine ⟨h.hits, htotal, ?_⟩
    have hratio : (s.store.stats length).hitRatio =
        if 0 < (s.store.stats length).totalHitCount + (s.store.stats length).totalMissCount then
          ((s.store.stats length).totalHitCount : Rat) /
            ((s.store.stats length).totalHitCount + (s.store.stats length).totalMissCount : Nat)
        else 0 := rfl
    rw [hratio, htotal, show (s.store.stats length).totalHitCount = _ from h.hits]
    by_cases hgets : s.history.countP StoreCall.isGet = 0
    · rw [if_pos hgets, if_neg (by omega)]
    · rw [if_neg hgets, if_pos (by omega)]

theorem counted_start (m : Int) : Counted (start m : Tally β) := ⟨rfl, rfl, rfl⟩

/--
**When the statistics are right.**  In every run they are, after every operation, exactly if
every read finds its key in the hot tier.
-/
theorem right_iff_findsHot (length : β → Nat) (m : Int) (p : List (Time × StoreOp β)) :
    Lts.Always step (Right length) (start m) p ↔ Lts.EachStep step FindsHot (start m) p := by
  refine Lts.always_iff_eachStep (I := Counted) (fun s a s' h hstep => (h.step hstep).1)
    (fun s a s' h hright hstep => ?_) p (counted_start m) ((counted_start m).right_iff length |>.mpr rfl)
  obtain ⟨hcounted, hmisses⟩ := h.step hstep
  rw [hcounted.right_iff, ← hmisses, (h.right_iff length).mp hright]

/-- One read, of a key that is nowhere. -/
def missing : List (Time × StoreOp Nat) := [(1, .get "GET:a")]

theorem notRight_missing : ¬ ∀ (length : Nat → Nat) (m : Int) (p : List (Time × StoreOp Nat)),
    Lts.Always step (Right length) (start m) p := by
  intro h
  have hrun : Lts.run step (start 1) missing = some (Lts.last step (start 1) missing) :=
    Lts.run_last (by decide +kernel)
  have hlast := (h id 1 missing).last hrun
  exact absurd hlast.lookups (by decide +kernel)

end Tally

end Cdn

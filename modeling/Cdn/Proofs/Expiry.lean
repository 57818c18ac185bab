/-
Expired entries in the tiered store.

An expired entry is not worthless: it may be served stale, revalidated by its tag, or
served while the circuit is open.  So the in-memory store hands it out and leaves the
decision to the caller.  The tiered store does the same for the hot tier, and deletes the
entry where it finds it expired in the cold one.

Both stores are run over the same reads and writes.  Where the in-memory one never evicts,
the two hold the same entries as long as no read has found its entry expired in the cold
tier; and the first such read is the first to be answered differently.
-/
import Cdn.Proofs.ColdTier
import Cdn.Proofs.Lru

namespace Cdn

open TieredCacheStore

variable {β : Type}

/-! ### A store that never evicts -/

/-- The size of an entry, or nothing. -/
def CacheEntry.gross (e : CacheEntry β) : Int := max 0 e.size

theorem CacheEntry.gross_nonneg (e : CacheEntry β) : 0 ≤ e.gross := le_max_left _ _

theorem CacheEntry.size_le_gross (e : CacheEntry β) : e.size ≤ e.gross := le_max_right _ _

@[simp] theorem CacheEntry.gross_touch (e : CacheEntry β) (now : Time) :
    (e.touch now).gross = e.gross := rfl

namespace LruCacheStore

variable {s : LruCacheStore β} {now : Time} {key : String} {e : CacheEntry β}

/-- The bytes of the entries, where none counts for less than nothing. -/
def gross (s : LruCacheStore β) : Int := s.store.sum CacheEntry.gross

theorem total_le_gross (s : LruCacheStore β) : s.total ≤ s.gross :=
  List.sum_le_sum fun ke _ => ke.2.size_le_gross

theorem gross_removeEntry (s : LruCacheStore β) (key : String) :
    (s.removeEntry key).gross ≤ s.gross := by
  rw [gross, removeEntry_store]
  cases hget : s.store.get? key with
  | none =>
      rw [Dict.erase_of_get?_eq_none hget]
      exact Int.le_refl _
  | some e =>
      rw [Dict.sum_erase _ hget]
      exact Int.sub_le_self _ e.gross_nonneg

theorem gross_get (s : LruCacheStore β) (now : Time) (key : String) :
    (s.get now key).2.gross = s.gross := by
  unfold get
  split
  · rfl
  · rename_i e he
    have hmoved : (s.store.moveToEnd key).get? key = some e := by rw [Dict.get?_moveToEnd, he]
    rw [gross, Dict.sum_set, Dict.sum_erase _ hmoved, Dict.sum_moveToEnd,
      CacheEntry.gross_touch, gross]
    omega

/-- There is room for what is put. -/
def RoomFor (s : LruCacheStore β) (key : String) (e : CacheEntry β) : Prop :=
  (s.removeEntry key).currentSizeBytes + e.size ≤ s.maxSizeBytes

theorem roomFor_of_room (h : s.RoomFor key e) : s.roomFor key e = s.removeEntry key := by
  have hmax := (sameCounts_removeEntry s key).maxSizeBytes
  unfold roomFor
  generalize (s.removeEntry key).store.items.length = fuel
  cases fuel with
  | zero => rfl
  | succ fuel =>
      rw [evictLoop, if_neg]
      rintro ⟨hfull, -⟩
      rw [hmax] at hfull
      exact absurd h (Int.not_le.mpr hfull)

/-- A `put` that has room leaves the other entries as they are. -/
theorem get?_put_of_room (h : s.RoomFor key e) (k : String) :
    (s.put key e).store.get? k = if k = key then some e else s.store.get? k := by
  rw [put_eq, roomFor_of_room h, Dict.get?_set, get?_removeEntry]
  split <;> rfl

theorem gross_put_of_room (h : s.RoomFor key e) :
    (s.put key e).gross ≤ s.gross + e.gross := by
  have hgone : (s.removeEntry key).store.get? key = none := by
    rw [get?_removeEntry, if_pos rfl]
  rw [put_eq, roomFor_of_room h, gross, Dict.sum_set, Dict.erase_of_get?_eq_none hgone, add_comm]
  exact Int.add_le_add_right (gross_removeEntry s key) _

theorem roomFor_of_gross (hbalanced : s.Balanced)
    (h : s.gross + e.gross ≤ s.maxSizeBytes) : s.RoomFor key e := by
  have htotal := total_le_gross (s.removeEntry key)
  have hgross := gross_removeEntry s key
  have hsize := e.size_le_gross
  rw [← hbalanced.removeEntry key] at htotal
  unfold RoomFor
  omega

end LruCacheStore

/-! ### Two stores, one sequence -/

/-- A tiered store and an in-memory one, over the same reads and writes. -/
structure Twins (β : Type) where
  tiered : TieredCacheStore β
  plain : LruCacheStore β

namespace Twins

variable {s s' : Twins β} {a : Time × StoreOp β} {now : Time} {key : String} {e : CacheEntry β}

def start (hotMaxSizeBytes maxSizeBytes : Int) : Twins β where
  tiered := .init hotMaxSizeBytes
  plain := { maxSizeBytes }

/-- A read or a write of both; there are no other operations. -/
def step (s : Twins β) (a : Time × StoreOp β) : Option (Twins β) :=
  if a.2.Plain then
    match a.2 with
    | .get key => some ⟨(s.tiered.get a.1 key).2, (s.plain.get a.1 key).2⟩
    | .put key e => some ⟨s.tiered.put key e, s.plain.put key e⟩
    | .delete _ | .deleteByPrefix _ | .keys => none
  else none

/-- If the in-memory store hands out an expired entry, so does the tiered one, with the same
content and the same tag. -/
def Transparent (s : Twins β) (a : Time × StoreOp β) : Prop :=
  match a.2 with
  | .get key => ∀ e ∈ (s.plain.get a.1 key).1, e.isExpired a.1 = true →
      ∃ e' ∈ (s.tiered.get a.1 key).1, e'.content = e.content ∧ e'.etag = e.etag
  | _ => True

/-- The read finds its entry in the cold tier, and expired. -/
def FindsColdExpired (s : Twins β) (a : Time × StoreOp β) : Prop :=
  match a.2 with
  | .get key => s.tiered.hot.store.get? key = none ∧
      ∃ e ∈ s.tiered.coldRead key, e.isExpired a.1 = true
  | _ => False

instance [DecidableEq β] (s : Twins β) (a : Time × StoreOp β) : Decidable (s.Transparent a) :=
  match a with
  | (now, .get key) => inferInstanceAs (Decidable (∀ e ∈ (s.plain.get now key).1,
      e.isExpired now = true → ∃ e' ∈ (s.tiered.get now key).1,
        e'.content = e.content ∧ e'.etag = e.etag))
  | (_, .put _ _) | (_, .delete _) | (_, .deleteByPrefix _) | (_, .keys) =>
      inferInstanceAs (Decidable True)

instance [DecidableEq β] (s : Twins β) (a : Time × StoreOp β) :
    Decidable (s.FindsColdExpired a) :=
  match a with
  | (now, .get key) => inferInstanceAs (Decidable (s.tiered.hot.store.get? key = none ∧
      ∃ e ∈ s.tiered.coldRead key, e.isExpired now = true))
  | (_, .put _ _) | (_, .delete _) | (_, .deleteByPrefix _) | (_, .keys) =>
      inferInstanceAs (Decidable False)

/-- Nothing that is put makes the in-memory store evict. -/
def HasRoom (s : Twins β) (a : Time × StoreOp β) : Prop :=
  ∀ key e, a.2 = .put key e → s.plain.RoomFor key e

/-- The two stores hold the same entries. -/
def Agree (s : Twins β) : Prop :=
  ∀ k, s.tiered.payloadOf k = (s.plain.store.get? k).map CacheEntry.payload

theorem step_cases (h : step s a = some s') :
    (∃ now key, a = (now, .get key) ∧
      s' = ⟨(s.tiered.get now key).2, (s.plain.get now key).2⟩) ∨
    ∃ now key e, a = (now, .put key e) ∧ s' = ⟨s.tiered.put key e, s.plain.put key e⟩ := by
  obtain ⟨now, op⟩ := a
  unfold step at h
  split at h
  · cases op with
    | get key => exact Or.inl ⟨now, key, rfl, (Option.some.inj h).symm⟩
    | put key e => exact Or.inr ⟨now, key, e, rfl, (Option.some.inj h).symm⟩
    | delete key => cases h
    | deleteByPrefix keyPrefix => cases h
    | keys => cases h
  · cases h

/-! ### Room for everything -/

/-- The bytes of everything that is put. -/
def bytesPut (p : List (Time × StoreOp β)) : Int :=
  (p.map fun a => match a.2 with
    | .put _ e => e.gross
    | _ => 0).sum

theorem bytesPut_cons (a : Time × StoreOp β) (rest : List (Time × StoreOp β)) :
    bytesPut (a :: rest) = (match a.2 with
      | .put _ e => e.gross
      | _ => 0) + bytesPut rest := List.sum_cons

theorem bytesPut_nonneg (p : List (Time × StoreOp β)) : 0 ≤ bytesPut p := by
  refine List.sum_nonneg fun n hn => ?_
  obtain ⟨a, -, rfl⟩ := List.mem_map.mp hn
  split
  · exact CacheEntry.gross_nonneg _
  · exact Int.le_refl 0

/-- A store that is large enough for everything never evicts. -/
theorem hasRoom_of_bytesPut (p : List (Time × StoreOp β)) :
    ∀ s : Twins β, s.plain.Balanced → s.plain.gross + bytesPut p ≤ s.plain.maxSizeBytes →
      Lts.EachStep step HasRoom s p := by
  induction p with
  | nil => exact fun _ _ _ => trivial
  | cons a rest ih =>
      intro s hbalanced hroom s' hstep
      have hrest := bytesPut_nonneg rest
      rw [bytesPut_cons] at hroom
      rcases step_cases hstep with ⟨now, key, rfl, rfl⟩ | ⟨now, key, e, rfl, rfl⟩
      · refine ⟨fun _ _ h => (by cases h), ih _ (hbalanced.get now key) ?_⟩
        show (s.plain.get now key).2.gross + _ ≤ (s.plain.get now key).2.maxSizeBytes
        rw [LruCacheStore.gross_get, (s.plain.get_frame now key).2.1]
        simpa using hroom
      · have hsize : s.plain.gross + e.gross ≤ s.plain.maxSizeBytes := by
          dsimp only at hroom
          omega
        have hfits : s.plain.RoomFor key e := LruCacheStore.roomFor_of_gross hbalanced hsize
        refine ⟨fun _ _ h => (by cases h; exact hfits), ih _ (hbalanced.put key e) ?_⟩
        show (s.plain.put key e).gross + _ ≤ (s.plain.put key e).maxSizeBytes
        rw [(s.plain.sameCounts_put key e).2.2]
        have hgross := LruCacheStore.gross_put_of_room hfits
        dsimp only at hroom
        omega

/-! ### What a read finds -/

/-- What both stores keep as long as no read finds its entry expired in the cold tier. -/
structure Kept (used : List String) (s : Twins β) : Prop where
  tidy : s.tiered.Tidy
  agree : s.Agree
  used : ∀ k, (s.tiered.held k).isSome = true → k ∈ used

/-- Where the directories are nobody else's, a read that finds its entry expired in the cold
tier answers with nothing, and every other one with what its key holds, and keeps it. -/
theorem get_cases (tidy : s.tiered.Tidy) (clear : s.tiered.ReadsApart now key) :
    (s.FindsColdExpired (now, .get key) ∧ (s.tiered.get now key).1 = none ∧
      ∃ e, s.tiered.held key = some e ∧ e.isExpired now = true) ∨
    (¬ s.FindsColdExpired (now, .get key) ∧
      (s.tiered.get now key).1.map CacheEntry.payload = s.tiered.payloadOf key ∧
      (s.tiered.get now key).2.payloadOf key = s.tiered.payloadOf key) := by
  by_cases hfinds : s.FindsColdExpired (now, .get key)
  · obtain ⟨hhot, e, hread, hexpired⟩ := hfinds
    obtain ⟨c, hcold, rfl⟩ := Option.map_eq_some_iff.mp hread
    have hat : s.tiered.coldAt key = some c :=
      Aliased.read_eq_some.mpr ⟨hcold, (clear hhot c hcold).1⟩
    refine Or.inl ⟨⟨hhot, c.entry, hread, hexpired⟩, ?_, c.entry, ?_, hexpired⟩
    · have hgets := gets s.tiered now key
      generalize (s.tiered.get now key).1 = result at hgets
      generalize (s.tiered.get now key).2 = after at hgets
      cases hgets with
      | hot h => rw [hhot] at h; cases h
      | absent => rfl
      | expired => rfl
      | promoted _ h hfresh =>
          rw [hcold, Option.some.injEq] at h
          rw [← h, hexpired] at hfresh
          cases hfresh
    · rw [held_of_cold hhot, hat]
      rfl
  · refine Or.inr ⟨hfinds, ?_⟩
    rcases get_spec tidy clear with h | ⟨⟨e, hheld, hexpired⟩, hnone, -⟩
    · exact h
    · refine absurd ?_ hfinds
      cases hhot : s.tiered.hot.store.get? key with
      | some e' =>
          rw [TieredCacheStore.get, show s.tiered.hot.get now key = (some (e'.touch now), _) from
            Prod.ext (by rw [LruCacheStore.get_fst, hhot]; rfl) rfl] at hnone
          cases hnone
      | none =>
          rw [held_of_cold hhot] at hheld
          obtain ⟨c, hat, rfl⟩ := Option.map_eq_some_iff.mp hheld
          have hcold := (Aliased.read_eq_some.mp hat).1
          exact ⟨hhot, c.entry, by rw [coldRead, hcold]; rfl, hexpired⟩

/-- **One read.**  The stores answer alike exactly if the entry is not found expired in the
cold tier. -/
theorem Kept.transparent_step_iff {used : List String} (h : s.Kept used)
    (clear : s.tiered.Clear a.1 a.2) : s.Transparent a ↔ ¬ s.FindsColdExpired a := by
  obtain ⟨now, op⟩ := a
  cases op with
  | get key =>
      have hplain : (s.plain.get now key).1.map CacheEntry.payload = s.tiered.payloadOf key := by
        rw [LruCacheStore.get_fst, Option.map_map, h.agree key]
        rfl
      rcases get_cases h.tidy clear with ⟨hfinds, hnone, e, hheld, hexpired⟩ | ⟨hnot, hanswer, -⟩
      · refine iff_of_false (fun htransparent => ?_) (not_not_intro hfinds)
        rw [payloadOf, hheld, Option.map_some, Option.map_eq_some_iff] at hplain
        obtain ⟨e', he', hpayload⟩ := hplain
        obtain ⟨x, hx, -⟩ := htransparent e' he' (by
          rw [CacheEntry.isExpired_congr hpayload, hexpired])
        rw [Option.mem_def, hnone] at hx
        cases hx
      · refine iff_of_true (fun e he _ => ?_) hnot
        rw [← hplain, Option.mem_def.mp he, Option.map_some, Option.map_eq_some_iff] at hanswer
        obtain ⟨e', he', hpayload⟩ := hanswer
        exact ⟨e', he', congrArg Payload.content hpayload, congrArg Payload.etag hpayload⟩
  | put key e => exact iff_of_true trivial not_false
  | delete key => exact iff_of_true trivial not_false
  | deleteByPrefix keyPrefix => exact iff_of_true trivial not_false
  | keys => exact iff_of_true trivial not_false

/-! ### Runs -/

/-- What a step is taken under: its key is in use and there is room in the in-memory
store. -/
def Given (used : List String) (s : Twins β) (a : Time × StoreOp β) : Prop :=
  s.HasRoom a ∧ ∀ key ∈ a.2.key?, key ∈ used

theorem kept_start (m n : Int) (used : List String) : Kept used (start m n : Twins β) where
  tidy := ⟨fun _ _ h => (by cases h), fun _ _ h => (by cases h), rfl⟩
  agree := fun _ => rfl
  used := fun _ h => by cases h

variable {used : List String}

theorem Kept.clear (h : s.Kept used)
    (hnames : ∀ k ∈ used, ∀ k' ∈ used, urlSafeKey k = urlSafeKey k' → k = k')
    (hgiven : s.Given used a) : s.tiered.Clear a.1 a.2 :=
  Session.clear_of_injective (s := ⟨s.tiered, ∅, []⟩) hnames h.tidy h.used hgiven.2

theorem Kept.step (h : s.Kept used)
    (hnames : ∀ k ∈ used, ∀ k' ∈ used, urlSafeKey k = urlSafeKey k' → k = k')
    (hgiven : s.Given used a) (hnot : ¬ s.FindsColdExpired a) (hstep : step s a = some s') :
    s'.Kept used := by
  have clear := h.clear hnames hgiven
  rcases step_cases hstep with ⟨now, key, rfl, rfl⟩ | ⟨now, key, e, rfl, rfl⟩
  · have hframe := (get_frame_iff h.tidy now key).mpr clear
    have hagree : Agree ⟨(s.tiered.get now key).2, (s.plain.get now key).2⟩ := fun k => by
      show (s.tiered.get now key).2.payloadOf k = ((s.plain.get now key).2.store.get? k).map _
      rw [LruCacheStore.get?_get]
      by_cases hk : k = key
      · rcases get_cases h.tidy clear with ⟨hfinds, -⟩ | ⟨-, -, hkept⟩
        · exact absurd hfinds hnot
        · rw [if_pos hk, hk, hkept, h.agree key, Option.map_map]
          rfl
      · rw [if_neg hk, ← h.agree k]
        exact congrArg (Option.map CacheEntry.payload) (hframe k hk)
    refine ⟨tidy_get h.tidy now key, hagree, fun k hk => ?_⟩
    have hget : ((s.tiered.perform now (.get key)).2.held k).isSome = true := hk
    rcases held_perform_isSome h.tidy hget with hold | hkey
    · exact h.used k hold
    · exact hgiven.2 k hkey
  · have hframe := (put_frame_iff h.tidy key e).mpr clear
    have hagree : Agree ⟨s.tiered.put key e, s.plain.put key e⟩ := fun k => by
      show (s.tiered.put key e).payloadOf k = ((s.plain.put key e).store.get? k).map _
      rw [LruCacheStore.get?_put_of_room (hgiven.1 key e rfl)]
      by_cases hk : k = key
      · rw [if_pos hk, hk, payloadOf, held_put_self h.tidy]
        rfl
      · rw [if_neg hk, ← h.agree k]
        exact congrArg (Option.map CacheEntry.payload) (hframe k hk)
    refine ⟨tidy_put h.tidy key e, hagree, fun k hk => ?_⟩
    have hput : ((s.tiered.perform now (.put key e)).2.held k).isSome = true := hk
    rcases held_perform_isSome h.tidy hput with hold | hkey
    · exact h.used k hold
    · exact hgiven.2 k hkey

/--
**When expired entries are seen through the tiers.**  For reads and writes over keys with
different directory names, beside an in-memory store that has room for everything: the
tiered store hands out every expired entry that the other does exactly if no read finds its
entry expired in the cold tier.
-/
theorem transparent_iff_notColdExpired (m n : Int) (p : List (Time × StoreOp β))
    (hnames : ∀ k ∈ Session.keysOf p, ∀ k' ∈ Session.keysOf p,
      urlSafeKey k = urlSafeKey k' → k = k')
    (hroom : bytesPut p ≤ n) :
    Lts.EachStep step Transparent (start m n) p ↔
      Lts.EachStep step (fun s a => ¬ s.FindsColdExpired a) (start m n) p := by
  have hfits : Lts.EachStep step HasRoom (start m n) p := by
    refine hasRoom_of_bytesPut p _ rfl ?_
    show (start m n : Twins β).plain.gross + bytesPut p ≤ n
    rwa [show (start m n : Twins β).plain.gross = 0 from rfl, zero_add]
  have hgiven : Lts.EachStep step (Given (Session.keysOf p)) (start m n) p :=
    hfits.and (Lts.eachStep_of_forall fun a ha key hkey => Session.mem_keysOf ha hkey)
  have hiff : Lts.EachStep step (fun s a => s.Transparent a ∧ s.Given (Session.keysOf p) a)
        (start m n) p ↔
      Lts.EachStep step (fun s a => ¬ s.FindsColdExpired a ∧ s.Given (Session.keysOf p) a)
        (start m n) p := Lts.eachStep_congr_guarded
    (fun s a s' (h : s.Kept (Session.keysOf p)) hD hstep => h.step hnames hD.2 hD.1 hstep)
    (fun s a s' h _ => and_congr_left fun hg => h.transparent_step_iff (h.clear hnames hg)) p
    (kept_start m n _)
  constructor
  · exact fun h => (hiff.mp (h.and hgiven)).mono fun _ _ hC => hC.1
  · exact fun h => (hiff.mpr (h.and hgiven)).mono fun _ _ hC => hC.1

/-- An entry that expires where it was put. -/
def expiringHot : List (Time × StoreOp Nat) :=
  [(1, .put "GET:a" (Session.sampleEntry 7)), (100, .get "GET:a")]

theorem transparent_hot : Lts.EachStep step Transparent (start 1 1) expiringHot := by
  have hcheck : Lts.checkEach step (fun s a => decide (¬ s.FindsColdExpired a)) (start 1 1)
      expiringHot = true := by decide +kernel
  exact (transparent_iff_notColdExpired 1 1 expiringHot (by decide +kernel) (by decide +kernel)).mpr
    (Lts.eachStep_of_check (fun _ _ => of_decide_eq_true) hcheck)

/-- The second entry makes the first go to the cold tier, and there it expires. -/
def expiringCold : List (Time × StoreOp Nat) :=
  [(1, .put "GET:a" (Session.sampleEntry 7)), (2, .put "GET:b" (Session.sampleEntry 8)),
    (100, .get "GET:a")]

theorem notTransparent_cold : ¬ ∀ (m n : Int) (p : List (Time × StoreOp Nat)),
    (∀ k ∈ Session.keysOf p, ∀ k' ∈ Session.keysOf p, urlSafeKey k = urlSafeKey k' → k = k') →
    bytesPut p ≤ n → Lts.EachStep step Transparent (start m n) p := by
  intro h
  have hsteps := h 1 2 expiringCold (by decide +kernel) (by decide +kernel)
  have hcheck := Lts.check_of_eachStep (c := fun s a => decide (Transparent s a))
    (fun _ _ => decide_eq_true) hsteps
  exact absurd hcheck (by decide +kernel)

end Twins

end Cdn

/-
What an operation does to the two tiers.

`held` is the map a tiered store stands for: the entry a key has in the hot tier, or the
one it owns in the cold tier.  Whatever the keys are, no key is in both tiers and no
demotion is left over (`Tidy`).

An operation on one key leaves every other entry where it was exactly if the directories
it touches are the key's own.  A `put` touches the key's own directory and those of the
entries that make room for it, and `Separate` says that these are nobody else's.
-/
import Cdn.Infrastructure.TieredStore
import Cdn.Lib.Aliased

namespace Cdn

variable {β : Type}

/-- What a stay in the cold tier leaves of an entry. -/
def CacheEntry.demoted (e : CacheEntry β) : CacheEntry β :=
  { e with staleWhileRevalidate := 0, varyHeaders := none }

/-- The key a directory was written for. -/
abbrev ColdEntry.owner (c : ColdEntry β) : String := c.metadata.key

namespace TieredCacheStore

variable {s : TieredCacheStore β} {key k : String} {e : CacheEntry β} {now : Time}

/-- The directory that is there under the name of `k`, if it was written for `k`. -/
def coldAt (s : TieredCacheStore β) (k : String) : Option (ColdEntry β) :=
  Aliased.read urlSafeKey ColdEntry.owner s.cold k

/-- The entry of a key, in either tier, as far as both tiers keep it. -/
def held (s : TieredCacheStore β) (k : String) : Option (CacheEntry β) :=
  match s.hot.store.get? k with
  | some e => some e.demoted
  | none => (s.coldAt k).map ColdEntry.entry

structure Tidy (s : TieredCacheStore β) : Prop where
  /-- Every directory has the name of the key it was written for. -/
  named : Aliased.Named urlSafeKey ColdEntry.owner s.cold
  /-- No key is in both tiers. -/
  apart : ∀ k e, s.hot.store.get? k = some e → s.coldAt k = none
  flushed : s.pendingDemotions = []

/-! ### The two tiers of a key -/

theorem held_of_hot (h : s.hot.store.get? k = some e) : s.held k = some e.demoted := by
  rw [held, h]

theorem held_of_cold (h : s.hot.store.get? k = none) :
    s.held k = (s.coldAt k).map ColdEntry.entry := by
  rw [held, h]

theorem held_congr {s' : TieredCacheStore β}
    (hhot : s'.hot.store.get? k = s.hot.store.get? k) (hcold : s'.coldAt k = s.coldAt k) :
    s'.held k = s.held k := by
  rw [held, hhot, hcold, held]

theorem held_eq_none : s.held k = none ↔ s.hot.store.get? k = none ∧ s.coldAt k = none := by
  rw [held]
  split <;> simp_all

/-! ### Making room in the hot tier -/

/-- The oldest entries, as many as have to go before `needed` bytes fit. -/
def makingRoom (maxSize needed : Int) : Int → List (String × CacheEntry β) →
    List (String × CacheEntry β)
  | _, [] => []
  | current, ke :: rest =>
      if maxSize < current + needed then
        ke :: makingRoom maxSize needed (current - ke.2.size) rest
      else []

/-- The entries a `put` of `size` bytes under `key` moves to the cold tier. -/
def displaced (s : TieredCacheStore β) (key : String) (size : Int) :
    List (String × CacheEntry β) :=
  let hot := if s.hot.store.contains key then s.hot.removeEntry key else s.hot
  makingRoom hot.maxSizeBytes size hot.currentSizeBytes hot.store.items

theorem evictLru_eq {ke : String × CacheEntry β} {rest : List (String × CacheEntry β)}
    (h : s.hot.store.items = ke :: rest) :
    s.evictLru.hot.store.items = rest ∧ s.evictLru.hot.maxSizeBytes = s.hot.maxSizeBytes ∧
      s.evictLru.hot.currentSizeBytes = s.hot.currentSizeBytes - ke.2.size ∧
      s.evictLru.pendingDemotions = s.pendingDemotions ++ [ke] ∧ s.evictLru.cold = s.cold := by
  obtain ⟨key, e⟩ := ke
  have hnodup := s.hot.store.nodup
  rw [h, List.map_cons, List.nodup_cons] at hnodup
  have hpop : s.hot.store.popFirst? = some ((key, e), ⟨rest, hnodup.2⟩) :=
    Dict.popFirst?_eq_some.mpr h
  simp [evictLru, LruCacheStore.evictLru, hpop]

/-- The loop takes off the front what has to make room, and queues it. -/
theorem evictLoop_spec (needed : Int) : ∀ (fuel : Nat) (s : TieredCacheStore β),
    s.hot.store.items.length ≤ fuel →
    (evictLoop needed fuel s).cold = s.cold ∧
    (evictLoop needed fuel s).pendingDemotions = s.pendingDemotions ++
      makingRoom s.hot.maxSizeBytes needed s.hot.currentSizeBytes s.hot.store.items ∧
    s.hot.store.items =
      makingRoom s.hot.maxSizeBytes needed s.hot.currentSizeBytes s.hot.store.items ++
        (evictLoop needed fuel s).hot.store.items := by
  intro fuel
  induction fuel with
  | zero =>
      intro s hlen
      have hnil : s.hot.store.items = [] := List.length_eq_zero_iff.mp (Nat.le_zero.mp hlen)
      simp [evictLoop, hnil, makingRoom]
  | succ fuel ih =>
      intro s hlen
      rw [evictLoop]
      cases hitems : s.hot.store.items with
      | nil => simp [hitems, makingRoom]
      | cons ke rest =>
          by_cases hfull : s.hot.maxSizeBytes < s.hot.currentSizeBytes + needed
          · rw [if_pos ⟨hfull, by simp⟩]
            obtain ⟨hrest, hmax, hcurrent, hpending, hcold⟩ := evictLru_eq hitems
            have hle : s.evictLru.hot.store.items.length ≤ fuel := by
              rw [hitems, List.length_cons] at hlen
              rw [hrest]
              omega
            obtain ⟨ihcold, ihpending, ihitems⟩ := ih s.evictLru hle
            rw [hrest, hmax, hcurrent] at ihpending ihitems
            rw [makingRoom, if_pos hfull]
            refine ⟨ihcold.trans hcold, ?_, ?_⟩
            · rw [ihpending, hpending, List.append_assoc]
              rfl
            · rw [List.cons_append, ← ihitems]
          · rw [if_neg fun h => hfull h.1, makingRoom, if_neg hfull]
            simp [hitems]

/-- The hot tier without the entry that is about to be replaced. -/
theorem removed_get? (s : TieredCacheStore β) (key k : String) :
    (if s.hot.store.contains key then s.hot.removeEntry key else s.hot).store.get? k =
      if k = key then none else s.hot.store.get? k := by
  by_cases hin : s.hot.store.contains key
  · rw [if_pos hin, LruCacheStore.get?_removeEntry]
  · rw [if_neg hin]
    by_cases hk : k = key
    · rw [if_pos hk, hk]
      simpa [Dict.contains] using hin
    · rw [if_neg hk]

theorem makingRoom_isPrefix (maxSize needed : Int) (l : List (String × CacheEntry β)) :
    ∀ current : Int, makingRoom maxSize needed current l <+: l := by
  induction l with
  | nil => intro current; exact List.nil_prefix
  | cons ke rest ih =>
      intro current
      rw [makingRoom]
      split
      · exact List.prefix_cons_inj ke |>.mpr (ih _)
      · exact List.nil_prefix

theorem nodup_displaced (s : TieredCacheStore β) (key : String) (size : Int) :
    ((s.displaced key size).map Prod.fst).Nodup := by
  unfold displaced
  exact (Dict.nodup _).sublist ((makingRoom_isPrefix _ _ _ _).sublist.map _)

/-- What makes room for a key are the entries of others. -/
theorem mem_displaced {size : Int} {ke : String × CacheEntry β}
    (h : ke ∈ s.displaced key size) :
    ke.1 ≠ key ∧ s.hot.store.get? ke.1 = some ke.2 := by
  unfold displaced at h
  have hget := Dict.get?_eq_some.mpr ((makingRoom_isPrefix _ _ _ _).sublist.subset h)
  rw [removed_get?] at hget
  split at hget
  · cases hget
  · rename_i hne
    exact ⟨hne, hget⟩

theorem hotPut_spec (s : TieredCacheStore β) (key : String) (e : CacheEntry β) :
    (s.hotPut key e).cold = s.cold ∧
    (s.hotPut key e).pendingDemotions = s.pendingDemotions ++ s.displaced key e.size ∧
    ∀ k, (s.hotPut key e).hot.store.get? k =
      if k = key then some e
      else if k ∈ (s.displaced key e.size).map Prod.fst then none else s.hot.store.get? k := by
  have hremoved := removed_get? s key
  have hbranch : (if s.hot.store.contains key then { s with hot := s.hot.removeEntry key } else s) =
      { s with hot := if s.hot.store.contains key then s.hot.removeEntry key else s.hot } := by
    split <;> rfl
  rw [hotPut, hbranch, displaced]
  generalize (if s.hot.store.contains key then s.hot.removeEntry key else s.hot) = hot at hremoved
  obtain ⟨hcold, hpending, hitems⟩ :=
    evictLoop_spec e.size hot.store.items.length { s with hot } le_rfl
  refine ⟨hcold, hpending, fun k => ?_⟩
  rw [Dict.get?_set]
  by_cases hk : k = key
  · rw [if_pos hk, if_pos hk]
  · rw [if_neg hk, if_neg hk, Dict.get?_of_append hitems, hremoved, if_neg hk]

/-! ### Writing demotions -/

theorem foldl_coldWrite (l : List (String × CacheEntry β)) : ∀ (s : TieredCacheStore β),
    let s' := l.foldl (fun s ke => { s.coldWrite ke.1 ke.2 with demotions := s.demotions + 1 }) s
    s'.hot = s.hot ∧ s'.pendingDemotions = s.pendingDemotions ∧
      s'.cold = Aliased.writes urlSafeKey ColdEntry.owner s.cold
        (l.map fun ke => .of ke.1 ke.2) := by
  induction l with
  | nil => intro s; exact ⟨rfl, rfl, rfl⟩
  | cons ke rest ih =>
      intro s
      obtain ⟨hhot, hpending, hcold⟩ :=
        ih { s.coldWrite ke.1 ke.2 with demotions := s.demotions + 1 }
      exact ⟨hhot, hpending, hcold⟩

theorem flushDemotions_spec (s : TieredCacheStore β) :
    s.flushDemotions.hot = s.hot ∧ s.flushDemotions.pendingDemotions = [] ∧
      s.flushDemotions.cold = Aliased.writes urlSafeKey ColdEntry.owner s.cold
        (s.pendingDemotions.map fun ke => .of ke.1 ke.2) :=
  foldl_coldWrite s.pendingDemotions { s with pendingDemotions := [] }

theorem coldDelete_spec (s : TieredCacheStore β) (key : String) :
    (s.coldDelete key).2 = { s with cold := (s.coldDelete key).2.cold } ∧
      (∀ n, (s.coldDelete key).2.cold.get? n =
        if n = urlSafeKey key then none else s.cold.get? n) ∧
      (s.coldDelete key).1 = (s.cold.get? (urlSafeKey key)).isSome := by
  unfold coldDelete
  split
  · rename_i h
    exact ⟨rfl, fun n => Dict.get?_erase _ _ _, h.symm⟩
  · rename_i h
    have hnone : s.cold.get? (urlSafeKey key) = none := by simpa [Dict.contains] using h
    refine ⟨rfl, fun n => ?_, by rw [hnone]; rfl⟩
    by_cases hn : n = urlSafeKey key
    · rw [if_pos hn, hn, hnone]
    · rw [if_neg hn]

theorem coldAt_coldDelete (s : TieredCacheStore β) (key k : String) :
    (s.coldDelete key).2.coldAt k =
      if urlSafeKey k = urlSafeKey key then none else s.coldAt k := by
  obtain ⟨-, hget, -⟩ := coldDelete_spec s key
  by_cases hname : urlSafeKey k = urlSafeKey key
  · rw [if_pos hname, coldAt, Aliased.read, hget, if_pos hname]
    rfl
  · rw [if_neg hname]
    exact Aliased.read_congr (by rw [hget, if_neg hname])

theorem Tidy.named_coldDelete (tidy : s.Tidy) (key : String) :
    Aliased.Named urlSafeKey ColdEntry.owner (s.coldDelete key).2.cold := by
  obtain ⟨-, hget, -⟩ := coldDelete_spec s key
  intro n c hc
  rw [hget] at hc
  split at hc
  · cases hc
  · exact tidy.named n c hc

/-! ### A put -/

/-- The directories a `put` touches are nobody else's: that of the key itself, and those of
the entries that make room for it. -/
structure Separate (s : TieredCacheStore β) (key : String) (size : Int) : Prop where
  own : ∀ d ∈ s.cold.items, d.1 = urlSafeKey key → d.2.owner = key
  cold : ∀ d ∈ s.cold.items, d.2.owner ≠ key →
    ∀ ke ∈ s.displaced key size, urlSafeKey ke.1 ≠ d.1
  hot : ((s.displaced key size).map fun ke => urlSafeKey ke.1).Nodup

/-- The directories that a `put` writes. -/
def written (s : TieredCacheStore β) (key : String) (size : Int) : List (ColdEntry β) :=
  (s.displaced key size).map fun ke => .of ke.1 ke.2

/-- What both kinds of put begin with: the old entry is gone from the cold tier and the new one
is in the hot tier, and who made room for it is queued. -/
theorem hotPut_coldDelete_spec (tidy : s.Tidy) (key : String) (e : CacheEntry β) :
    ((s.coldDelete key).2.hotPut key e).cold = (s.coldDelete key).2.cold ∧
    ((s.coldDelete key).2.hotPut key e).pendingDemotions = s.displaced key e.size ∧
    ∀ k, ((s.coldDelete key).2.hotPut key e).hot.store.get? k =
      if k = key then some e
      else if k ∈ (s.displaced key e.size).map Prod.fst then none else s.hot.store.get? k := by
  obtain ⟨hdelete, -, -⟩ := coldDelete_spec s key
  have hdisplaced : (s.coldDelete key).2.displaced key e.size = s.displaced key e.size := by
    rw [hdelete]
    rfl
  have hhot : (s.coldDelete key).2.hot = s.hot := by rw [hdelete]
  have hpending : (s.coldDelete key).2.pendingDemotions = [] := by
    rw [hdelete]
    exact tidy.flushed
  obtain ⟨hcold, hqueued, hget⟩ := hotPut_spec (s.coldDelete key).2 key e
  rw [hdisplaced, hpending, List.nil_append] at hqueued
  rw [hdisplaced, hhot] at hget
  exact ⟨hcold, hqueued, hget⟩

theorem put_spec (tidy : s.Tidy) (key : String) (e : CacheEntry β) :
    (s.put key e).pendingDemotions = [] ∧
    (s.put key e).cold = Aliased.writes urlSafeKey ColdEntry.owner (s.coldDelete key).2.cold
      (s.written key e.size) ∧
    ∀ k, (s.put key e).hot.store.get? k =
      if k = key then some e
      else if k ∈ (s.displaced key e.size).map Prod.fst then none else s.hot.store.get? k := by
  obtain ⟨hcold, hqueued, hget⟩ := hotPut_coldDelete_spec tidy key e
  obtain ⟨hflushhot, hflushed, hflushcold⟩ :=
    flushDemotions_spec ((s.coldDelete key).2.hotPut key e)
  refine ⟨hflushed, ?_, fun k => ?_⟩
  · rw [put, hflushcold, hcold, hqueued]
    rfl
  · rw [put, hflushhot, hget]

theorem mem_written {size : Int} {c : ColdEntry β} :
    c ∈ s.written key size ↔ ∃ ke ∈ s.displaced key size, c = .of ke.1 ke.2 := by
  simp [written, eq_comm]

/-- A key that no written directory is for reads what it read, unless its own name is
written under or cleared. -/
theorem coldAt_put_of_not_displaced (tidy : s.Tidy)
    (hk : k ∉ (s.displaced key e.size).map Prod.fst) :
    (s.put key e).coldAt k =
      if (∃ ke ∈ s.displaced key e.size, urlSafeKey ke.1 = urlSafeKey k) ∨
        urlSafeKey k = urlSafeKey key then none else s.coldAt k := by
  obtain ⟨-, hcold, -⟩ := put_spec tidy key e
  have howner : ∀ c ∈ s.written key e.size, c.owner ≠ k := by
    intro c hc hck
    obtain ⟨ke, hke, rfl⟩ := mem_written.mp hc
    exact hk (List.mem_map.mpr ⟨ke, hke, hck⟩)
  rw [coldAt, hcold]
  by_cases halias : ∃ ke ∈ s.displaced key e.size, urlSafeKey ke.1 = urlSafeKey k
  · obtain ⟨ke, hke, hname⟩ := halias
    rw [if_pos (Or.inl ⟨ke, hke, hname⟩)]
    exact Aliased.read_writes_alias _ howner ⟨_, mem_written.mpr ⟨ke, hke, rfl⟩, hname⟩
  · have hne : ∀ c ∈ s.written key e.size, urlSafeKey c.owner ≠ urlSafeKey k := by
      intro c hc hname
      obtain ⟨ke, hke, rfl⟩ := mem_written.mp hc
      exact halias ⟨ke, hke, hname⟩
    rw [Aliased.read_writes_of_ne _ hne]
    show (s.coldDelete key).2.coldAt k = _
    rw [coldAt_coldDelete]
    simp [halias]

theorem tidy_put (tidy : s.Tidy) (key : String) (e : CacheEntry β) : (s.put key e).Tidy := by
  obtain ⟨hflushed, hcold, hget⟩ := put_spec tidy key e
  refine ⟨?_, fun k x hk => ?_, hflushed⟩
  · rw [hcold]
    exact (tidy.named_coldDelete key).writes _
  · rw [hget] at hk
    have hself : key ∉ (s.displaced key e.size).map Prod.fst := fun hin => by
      obtain ⟨ke, hke, hfst⟩ := List.mem_map.mp hin
      exact (mem_displaced hke).1 hfst
    by_cases hkey : k = key
    · subst hkey
      rw [coldAt_put_of_not_displaced tidy hself, if_pos (Or.inr rfl)]
    · rw [if_neg hkey] at hk
      split at hk
      · cases hk
      · rename_i hdisplaced
        rw [coldAt_put_of_not_displaced tidy hdisplaced, tidy.apart k x hk]
        split <;> rfl

/-- What was put is there. -/
theorem held_put_self (tidy : s.Tidy) (key : String) (e : CacheEntry β) :
    (s.put key e).held key = some e.demoted := by
  obtain ⟨-, -, hget⟩ := put_spec tidy key e
  exact held_of_hot (by rw [hget, if_pos rfl])

/-- An entry that makes room is still there exactly if it can be read back from its
directory. -/
theorem held_put_displaced (tidy : s.Tidy) {ke : String × CacheEntry β}
    (hke : ke ∈ s.displaced key e.size) :
    (s.put key e).held ke.1 = s.held ke.1 ↔
      (s.put key e).coldAt ke.1 = some (.of ke.1 ke.2) := by
  obtain ⟨-, -, hget⟩ := put_spec tidy key e
  obtain ⟨hne, hhot⟩ := mem_displaced hke
  have hgone : (s.put key e).hot.store.get? ke.1 = none := by
    rw [hget, if_neg hne, if_pos (List.mem_map_of_mem hke)]
  rw [held_of_cold hgone, held_of_hot hhot]
  constructor
  · intro h
    obtain ⟨c, hc, hentry⟩ := Option.map_eq_some_iff.mp h
    have howner : c.owner = ke.1 := (Aliased.read_eq_some.mp hc).2
    rw [hc]
    show some (ColdEntry.of c.owner c.entry) = _
    rw [howner, hentry]
    rfl
  · intro h
    rw [h]
    rfl

/-- What makes room can be read back exactly if it is written under different names. -/
theorem displaced_readable_iff (tidy : s.Tidy) (key : String) (e : CacheEntry β) :
    (∀ ke ∈ s.displaced key e.size, (s.put key e).coldAt ke.1 = some (.of ke.1 ke.2)) ↔
      ((s.displaced key e.size).map fun ke => urlSafeKey ke.1).Nodup := by
  obtain ⟨-, hcold, -⟩ := put_spec tidy key e
  have hiff := Aliased.read_writes_iff urlSafeKey ColdEntry.owner
    (s.coldDelete key).2.cold (l := s.written key e.size) (by
      rw [written, List.map_map]
      exact nodup_displaced s key e.size)
  rw [← hcold, written, List.map_map] at hiff
  refine Iff.trans ?_ hiff
  simp only [List.mem_map, forall_exists_index, and_imp, forall_apply_eq_imp_iff₂]
  rfl

/-- A directory's owner is in the cold tier only. -/
theorem Tidy.of_mem_cold (tidy : s.Tidy) {d : String × ColdEntry β} (hd : d ∈ s.cold.items) :
    urlSafeKey d.2.owner = d.1 ∧ s.coldAt d.2.owner = some d.2 ∧
      s.hot.store.get? d.2.owner = none := by
  have hget : s.cold.get? d.1 = some d.2 := Dict.get?_eq_some.mpr hd
  have hat : s.coldAt d.2.owner = some d.2 := tidy.named.read_owner hget
  refine ⟨tidy.named d.1 d.2 hget, hat, ?_⟩
  cases h : s.hot.store.get? d.2.owner with
  | none => rfl
  | some x =>
      rw [tidy.apart _ x h] at hat
      cases hat

/-- An entry of the cold tier stays if its name is neither cleared nor written under. -/
theorem held_put_cold (tidy : s.Tidy) {d : String × ColdEntry β} (hd : d ∈ s.cold.items)
    (hne : d.2.owner ≠ key) :
    (s.put key e).held d.2.owner = s.held d.2.owner ↔
      d.1 ≠ urlSafeKey key ∧ ∀ ke ∈ s.displaced key e.size, urlSafeKey ke.1 ≠ d.1 := by
  obtain ⟨-, -, hget⟩ := put_spec tidy key e
  obtain ⟨hname, hat, hhot⟩ := tidy.of_mem_cold hd
  have hdisplaced : d.2.owner ∉ (s.displaced key e.size).map Prod.fst := fun hin => by
    obtain ⟨ke, hke, hfst⟩ := List.mem_map.mp hin
    have hsome := (mem_displaced hke).2
    rw [hfst, hhot] at hsome
    cases hsome
  have hgone : (s.put key e).hot.store.get? d.2.owner = none := by
    rw [hget, if_neg hne, if_neg hdisplaced, hhot]
  rw [held_of_cold hgone, held_of_cold hhot, coldAt_put_of_not_displaced tidy hdisplaced, hname]
  by_cases htouched : (∃ ke ∈ s.displaced key e.size, urlSafeKey ke.1 = d.1) ∨
      d.1 = urlSafeKey key
  · rw [if_pos htouched, hat]
    simp only [Option.map_none, Option.map_some, reduceCtorEq, false_iff]
    rintro ⟨hown, hfree⟩
    rcases htouched with ⟨ke, hke, hwritten⟩ | hcleared
    · exact hfree ke hke hwritten
    · exact hown hcleared
  · rw [if_neg htouched]
    simp only [true_iff]
    exact ⟨fun hcleared => htouched (Or.inr hcleared),
      fun ke hke hwritten => htouched (Or.inl ⟨ke, hke, hwritten⟩)⟩

/--
**A `put` leaves the other entries as they are** exactly if the directories it touches are
nobody else's.
-/
theorem put_frame_iff (tidy : s.Tidy) (key : String) (e : CacheEntry β) :
    (∀ k, k ≠ key → (s.put key e).held k = s.held k) ↔ s.Separate key e.size := by
  obtain ⟨-, -, hget⟩ := put_spec tidy key e
  have hback := displaced_readable_iff tidy key e
  constructor
  · intro h
    refine ⟨fun d hd hown => ?_, fun d hd hne => ?_, ?_⟩
    · by_contra hne
      exact ((held_put_cold tidy hd hne).mp (h _ hne)).1 hown
    · exact ((held_put_cold tidy hd hne).mp (h _ hne)).2
    · refine hback.mp fun ke hke => (held_put_displaced tidy hke).mp (h _ (mem_displaced hke).1)
  · rintro ⟨hown, hfree, hapart⟩ k hk
    by_cases hin : k ∈ (s.displaced key e.size).map Prod.fst
    · obtain ⟨ke, hke, rfl⟩ := List.mem_map.mp hin
      exact (held_put_displaced tidy hke).mpr (hback.mpr hapart ke hke)
    · have hhot : (s.put key e).hot.store.get? k = s.hot.store.get? k := by
        rw [hget, if_neg hk, if_neg hin]
      cases hat : s.coldAt k with
      | none =>
          refine held_congr hhot ?_
          rw [coldAt_put_of_not_displaced tidy hin, hat]
          split <;> rfl
      | some c =>
          obtain ⟨hc, howner⟩ := Aliased.read_eq_some.mp hat
          have hd := Dict.get?_eq_some.mp hc
          subst howner
          exact (held_put_cold tidy hd hk).mpr ⟨fun hcleared => hk (hown _ hd hcleared),
            hfree _ hd hk⟩

/-! ### A deletion -/

theorem coldDelete_hot (s : TieredCacheStore β) (key : String) :
    (s.coldDelete key).2.hot = s.hot := by
  rw [(coldDelete_spec s key).1]

theorem tidy_coldDelete (tidy : s.Tidy) (key : String) : (s.coldDelete key).2.Tidy := by
  refine ⟨tidy.named_coldDelete key, fun k x hk => ?_, ?_⟩
  · rw [coldDelete_hot] at hk
    rw [coldAt_coldDelete, tidy.apart k x hk]
    split <;> rfl
  · rw [(coldDelete_spec s key).1]
    exact tidy.flushed

theorem held_coldDelete_self (hhot : s.hot.store.get? key = none) :
    (s.coldDelete key).2.held key = none := by
  rw [held_eq_none, coldDelete_hot, coldAt_coldDelete, if_pos rfl]
  exact ⟨hhot, rfl⟩

/-- Removing a directory leaves the other entries as they are exactly if it is nobody
else's. -/
theorem coldDelete_frame_iff (tidy : s.Tidy) (key : String) :
    (∀ k, k ≠ key → (s.coldDelete key).2.held k = s.held k) ↔
      ∀ d ∈ s.cold.items, d.1 = urlSafeKey key → d.2.owner = key := by
  constructor
  · intro h d hd hname
    by_contra hne
    obtain ⟨hown, hat, habsent⟩ := tidy.of_mem_cold hd
    have hheld := h _ hne
    rw [held_of_cold (by rw [coldDelete_hot, habsent]), held_of_cold habsent, coldAt_coldDelete,
      hown, if_pos hname, hat] at hheld
    cases hheld
  · intro hown k hk
    refine held_congr (by rw [coldDelete_hot]) ?_
    rw [coldAt_coldDelete]
    by_cases hname : urlSafeKey k = urlSafeKey key
    · rw [if_pos hname]
      cases hat : s.coldAt k with
      | none => rfl
      | some c =>
          obtain ⟨hc, howner⟩ := Aliased.read_eq_some.mp hat
          rw [← howner] at hk
          exact absurd (hown _ (Dict.get?_eq_some.mp hc) hname) hk
    · rw [if_neg hname]

/-- The store after the first half of a deletion. -/
def hotDelete (s : TieredCacheStore β) (key : String) : TieredCacheStore β :=
  { s with hot := (s.hot.delete key).2 }

theorem delete_snd (s : TieredCacheStore β) (key : String) :
    (s.delete key).2 = ((s.hotDelete key).coldDelete key).2 := rfl

theorem hotDelete_get? (s : TieredCacheStore β) (key k : String) :
    (s.hotDelete key).hot.store.get? k = if k = key then none else s.hot.store.get? k :=
  LruCacheStore.get?_delete s.hot key k

theorem tidy_hotDelete (tidy : s.Tidy) (key : String) : (s.hotDelete key).Tidy := by
  refine ⟨tidy.named, fun k x hk => ?_, tidy.flushed⟩
  rw [hotDelete_get?] at hk
  split at hk
  · cases hk
  · exact tidy.apart k x hk

theorem tidy_delete (tidy : s.Tidy) (key : String) : (s.delete key).2.Tidy :=
  tidy_coldDelete (tidy_hotDelete tidy key) key

theorem held_delete_self (s : TieredCacheStore β) (key : String) :
    (s.delete key).2.held key = none :=
  held_coldDelete_self (s := s.hotDelete key) (by rw [hotDelete_get?, if_pos rfl])

theorem delete_frame_iff (tidy : s.Tidy) (key : String) :
    (∀ k, k ≠ key → (s.delete key).2.held k = s.held k) ↔
      ∀ d ∈ s.cold.items, d.1 = urlSafeKey key → d.2.owner = key := by
  have hsame : ∀ k, k ≠ key → (s.hotDelete key).held k = s.held k := fun k hk =>
    held_congr (by rw [hotDelete_get?, if_neg hk]) rfl
  refine Iff.trans ?_ (coldDelete_frame_iff (tidy_hotDelete tidy key) key)
  refine forall_congr' fun k => forall_congr' fun hk => ?_
  rw [hsame k hk, delete_snd]

/-- A deletion answers whether the key has an entry or a directory. -/
theorem delete_fst (s : TieredCacheStore β) (key : String) : (s.delete key).1 =
    ((s.hot.store.get? key).isSome || (s.cold.get? (urlSafeKey key)).isSome) := by
  obtain ⟨-, -, hremoved⟩ := coldDelete_spec (s.hotDelete key) key
  show ((s.hot.delete key).1 || ((s.hotDelete key).coldDelete key).1) = _
  rw [hremoved]
  congr 1
  unfold LruCacheStore.delete
  split
  · rename_i h
    exact h.symm
  · rename_i h
    simpa [Dict.contains] using h

/-! ### A read

A read that finds its entry in the cold tier puts it into the hot one, after it has
counted the hit.
-/

/-- The two stores differ in their counters only. -/
structure SameTiers (s s' : TieredCacheStore β) : Prop where
  store : s'.hot.store = s.hot.store
  maxSizeBytes : s'.hot.maxSizeBytes = s.hot.maxSizeBytes
  currentSizeBytes : s'.hot.currentSizeBytes = s.hot.currentSizeBytes
  cold : s'.cold = s.cold
  pendingDemotions : s'.pendingDemotions = s.pendingDemotions

theorem SameTiers.coldAt {s' : TieredCacheStore β} (h : SameTiers s s') (k : String) :
    s'.coldAt k = s.coldAt k := by
  rw [TieredCacheStore.coldAt, h.cold, TieredCacheStore.coldAt]

theorem SameTiers.held {s' : TieredCacheStore β} (h : SameTiers s s') (k : String) :
    s'.held k = s.held k :=
  held_congr (by rw [h.store]) (h.coldAt k)

theorem SameTiers.tidy {s' : TieredCacheStore β} (h : SameTiers s s') (tidy : s.Tidy) :
    s'.Tidy where
  named := by rw [h.cold]; exact tidy.named
  apart := fun k e hk => by
    rw [h.store] at hk
    rw [h.coldAt, tidy.apart k e hk]
  flushed := h.pendingDemotions.trans tidy.flushed

theorem SameTiers.displaced {s' : TieredCacheStore β} (h : SameTiers s s') (key : String)
    (size : Int) : s'.displaced key size = s.displaced key size := by
  unfold TieredCacheStore.displaced LruCacheStore.removeEntry
  rw [h.store]
  by_cases hin : s.hot.store.contains key
  · simp only [if_pos hin]
    split <;> simp [h.store, h.maxSizeBytes, h.currentSizeBytes]
  · simp only [if_neg hin, h.maxSizeBytes, h.currentSizeBytes, h.store]

theorem SameTiers.separate_iff {s' : TieredCacheStore β} (h : SameTiers s s') (key : String)
    (size : Int) : s'.Separate key size ↔ s.Separate key size := by
  constructor
  · rintro ⟨hown, hcold, hhot⟩
    rw [h.cold] at hown hcold
    rw [h.displaced] at hcold hhot
    exact ⟨hown, hcold, hhot⟩
  · rintro ⟨hown, hcold, hhot⟩
    rw [← h.cold] at hown hcold
    rw [← h.displaced] at hcold hhot
    exact ⟨hown, hcold, hhot⟩

/-- How a read goes. -/
inductive Gets (s : TieredCacheStore β) (now : Time) (key : String) :
    Option (CacheEntry β) → TieredCacheStore β → Prop where
  | hot {e : CacheEntry β} (hhot : s.hot.store.get? key = some e) :
      Gets s now key (some (e.touch now))
        { s with hot := (s.hot.get now key).2, hotHits := s.hotHits + 1 }
  | absent {s' : TieredCacheStore β} (hhot : s.hot.store.get? key = none)
      (hcold : s.cold.get? (urlSafeKey key) = none) (hsame : SameTiers s s') :
      Gets s now key none s'
  | expired {c : ColdEntry β} {s' s'' : TieredCacheStore β}
      (hhot : s.hot.store.get? key = none) (hcold : s.cold.get? (urlSafeKey key) = some c)
      (hexpired : c.entry.isExpired now = true) (hsame : SameTiers s s')
      (hdeleted : SameTiers (s'.coldDelete key).2 s'') : Gets s now key none s''
  | promoted {c : ColdEntry β} {s' : TieredCacheStore β}
      (hhot : s.hot.store.get? key = none) (hcold : s.cold.get? (urlSafeKey key) = some c)
      (hfresh : c.entry.isExpired now = false) (hsame : SameTiers s s') :
      Gets s now key (some (c.entry.touch now)) (s'.put key (c.entry.touch now))

theorem gets (s : TieredCacheStore β) (now : Time) (key : String) :
    Gets s now key (s.get now key).1 (s.get now key).2 := by
  cases hhot : s.hot.store.get? key with
  | some e =>
      have hget : s.hot.get now key = (some (e.touch now), (s.hot.get now key).2) :=
        Prod.ext (by rw [LruCacheStore.get_fst, hhot]; rfl) rfl
      rw [get, hget]
      exact .hot hhot
  | none =>
      have hget : s.hot.get now key = (none, { s.hot with misses := s.hot.misses + 1 }) := by
        rw [LruCacheStore.get, hhot]
      have hsame : SameTiers s { s with
          hot := { s.hot with misses := s.hot.misses + 1 }, hotMisses := s.hotMisses + 1 } :=
        ⟨rfl, rfl, rfl, rfl, rfl⟩
      rw [get, hget]
      dsimp only
      cases hcold : s.cold.get? (urlSafeKey key) with
      | none =>
          simp only [coldRead, hcold, Option.map_none]
          exact .absent hhot hcold ⟨rfl, rfl, rfl, rfl, rfl⟩
      | some c =>
          simp only [coldRead, hcold, Option.map_some]
          split
          · rename_i hexpired
            exact .expired hhot hcold hexpired hsame ⟨rfl, rfl, rfl, rfl, rfl⟩
          · rename_i hfresh
            exact .promoted hhot hcold (by simpa using hfresh) ⟨rfl, rfl, rfl, rfl, rfl⟩

theorem tidy_get (tidy : s.Tidy) (now : Time) (key : String) : (s.get now key).2.Tidy := by
  have hgets := gets s now key
  generalize (s.get now key).1 = result at hgets
  generalize (s.get now key).2 = s' at hgets
  cases hgets with
  | hot hhot =>
      refine ⟨tidy.named, fun k e hk => ?_, tidy.flushed⟩
      rw [LruCacheStore.get?_get] at hk
      split at hk
      · rename_i hkey
        rw [hkey]
        exact tidy.apart key _ hhot
      · exact tidy.apart k e hk
  | absent hhot hcold hsame => exact hsame.tidy tidy
  | expired hhot hcold hexpired hsame hdeleted =>
      exact hdeleted.tidy (tidy_coldDelete (hsame.tidy tidy) key)
  | promoted hhot hcold hfresh hsame => exact tidy_put (hsame.tidy tidy) key _

/-- Nobody else owns the directories a read touches: its own, and where it promotes an
entry, those of the entries that make room. -/
def ReadsApart (s : TieredCacheStore β) (now : Time) (key : String) : Prop :=
  s.hot.store.get? key = none → ∀ c ∈ s.cold.get? (urlSafeKey key),
    c.owner = key ∧ (c.entry.isExpired now = false → s.Separate key c.metadata.size)

/-- The directory under a key's name is nobody else's exactly if the cell that stands there
is the key's. -/
theorem own_iff {c : ColdEntry β} (hcold : s.cold.get? (urlSafeKey key) = some c) :
    (∀ d ∈ s.cold.items, d.1 = urlSafeKey key → d.2.owner = key) ↔ c.owner = key := by
  constructor
  · intro h
    exact h _ (Dict.get?_eq_some.mp hcold) rfl
  · rintro h ⟨n, c'⟩ hd rfl
    have hc := Dict.get?_eq_some.mpr hd
    rw [hcold, Option.some.injEq] at hc
    exact hc ▸ h

/-- A read leaves the other entries as they are exactly if nobody else owns the
directories it touches. -/
theorem get_frame_iff (tidy : s.Tidy) (now : Time) (key : String) :
    (∀ k, k ≠ key → (s.get now key).2.held k = s.held k) ↔ s.ReadsApart now key := by
  have hgets := gets s now key
  generalize (s.get now key).1 = result at hgets
  generalize (s.get now key).2 = s' at hgets
  cases hgets with
  | hot hhot =>
      refine iff_of_true (fun k hk => held_congr ?_ rfl) fun hnone => ?_
      · rw [LruCacheStore.get?_get, if_neg hk]
      · rw [hhot] at hnone
        cases hnone
  | absent hhot hcold hsame =>
      refine iff_of_true (fun k _ => hsame.held k) fun _ c hc => ?_
      rw [hcold] at hc
      cases hc
  | @expired c m _ hhot hcold hexpired hsame hdeleted =>
      have hframe := coldDelete_frame_iff (hsame.tidy tidy) key
      rw [own_iff (by rw [hsame.cold, hcold])] at hframe
      constructor
      · intro h _ c' hc'
        rw [hcold] at hc'
        cases hc'
        refine ⟨hframe.mp fun k hk => ?_, fun hfresh => ?_⟩
        · rw [← hdeleted.held, h k hk, hsame.held]
        · rw [hexpired] at hfresh
          cases hfresh
      · intro h k hk
        rw [hdeleted.held, hframe.mpr (h hhot c hcold).1 k hk, hsame.held]
  | @promoted c m hhot hcold hfresh hsame =>
      have hframe := put_frame_iff (hsame.tidy tidy) key (c.entry.touch now)
      rw [hsame.separate_iff] at hframe
      simp only [hsame.held] at hframe
      rw [hframe]
      constructor
      · intro h _ c' hc'
        rw [hcold] at hc'
        cases hc'
        exact ⟨(own_iff hcold).mp h.own, fun _ => h⟩
      · intro h
        exact (h hhot c hcold).2 hfresh

/-! ### Deletions by prefix, and listing -/

theorem removeDirs_get? (s : TieredCacheStore β) (picked : ColdEntry β → Bool) (n : String) :
    (s.removeDirs picked).cold.get? n = (s.cold.get? n).filter fun c => !picked c := by
  rw [removeDirs, Dict.get?_foldl_erase, Dict.get?_unpicked]

/-- A directory that is picked is gone, and the others are as they were. -/
theorem coldAt_removeDirs (s : TieredCacheStore β) (picked : ColdEntry β → Bool) (k : String) :
    (s.removeDirs picked).coldAt k = (s.coldAt k).filter fun c => !picked c := by
  rw [coldAt, Aliased.read, removeDirs_get?, coldAt, Aliased.read, Option.filter_filter,
    Option.filter_filter]
  congr 1
  funext c
  exact Bool.and_comm _ _

theorem named_removeDirs (named : Aliased.Named urlSafeKey ColdEntry.owner s.cold)
    (picked : ColdEntry β → Bool) :
    Aliased.Named urlSafeKey ColdEntry.owner (s.removeDirs picked).cold := by
  intro n c hc
  rw [removeDirs_get?, Option.filter_eq_some_iff] at hc
  exact named n c hc.1

/-- Taking entries out of both tiers leaves the store tidy. -/
theorem tidy_removeDirs (tidy : s.Tidy) {hot : LruCacheStore β}
    (hkept : ∀ k e, hot.store.get? k = some e → s.hot.store.get? k = some e)
    (picked : ColdEntry β → Bool) : ({ s with hot }.removeDirs picked).Tidy where
  named := named_removeDirs (s := { s with hot }) tidy.named picked
  apart := fun k e hk => by
    rw [coldAt_removeDirs]
    show (s.coldAt k).filter _ = none
    rw [tidy.apart k e (hkept k e hk)]
    rfl
  flushed := tidy.flushed

/-- A test on the entry of a directory and on its owner is a test on what the key holds. -/
theorem coldAt_filter_owner (s : TieredCacheStore β) (p : String → Bool) (k : String) :
    ((s.coldAt k).filter fun c => p c.owner) = if p k then s.coldAt k else none := by
  cases hat : s.coldAt k with
  | none => split <;> rfl
  | some c =>
      have howner : c.owner = k := (Aliased.read_eq_some.mp hat).2
      rw [Option.filter_some, howner]

theorem tidy_deleteByPrefix (tidy : s.Tidy) (keyPrefix : String) :
    (s.deleteByPrefix keyPrefix).2.Tidy := by
  have hkept : ∀ k e, (s.hot.deleteByPrefix keyPrefix).2.store.get? k = some e →
      s.hot.store.get? k = some e := by
    intro k e hk
    rw [LruCacheStore.get?_deleteByPrefix] at hk
    split at hk
    · cases hk
    · exact hk
  exact tidy_removeDirs tidy hkept fun c => hasPrefix keyPrefix c.metadata.key

theorem held_deleteByPrefix (s : TieredCacheStore β) (keyPrefix k : String) :
    (s.deleteByPrefix keyPrefix).2.held k = if hasPrefix keyPrefix k then none else s.held k := by
  have hhot : (s.deleteByPrefix keyPrefix).2.hot.store.get? k =
      if hasPrefix keyPrefix k then none else s.hot.store.get? k :=
    LruCacheStore.get?_deleteByPrefix s.hot keyPrefix k
  have hcold : (s.deleteByPrefix keyPrefix).2.coldAt k =
      if hasPrefix keyPrefix k then none else s.coldAt k := by
    show ({ s with hot := (s.hot.deleteByPrefix keyPrefix).2 }.removeDirs _).coldAt k = _
    rw [coldAt_removeDirs]
    show ((s.coldAt k).filter fun c => !hasPrefix keyPrefix c.owner) = _
    rw [coldAt_filter_owner s fun k => !hasPrefix keyPrefix k]
    cases hasPrefix keyPrefix k <;> rfl
  by_cases hp : hasPrefix keyPrefix k = true
  · rw [if_pos hp] at hhot hcold ⊢
    exact held_eq_none.mpr ⟨hhot, hcold⟩
  · rw [if_neg hp] at hhot hcold ⊢
    exact held_congr hhot hcold

/-- The keys of both tiers. -/
def allKeys (s : TieredCacheStore β) : List String :=
  s.hot.store.keys ++ Aliased.owners ColdEntry.owner s.cold

theorem mem_allKeys (tidy : s.Tidy) : k ∈ s.allKeys ↔ (s.held k).isSome = true := by
  rw [allKeys, List.mem_append, tidy.named.mem_owners]
  cases hhot : s.hot.store.get? k with
  | some e =>
      have hmem : k ∈ s.hot.store.keys := by
        by_contra hnot
        rw [Dict.get?_eq_none.mpr hnot] at hhot
        cases hhot
      simp [held_of_hot hhot, hmem]
  | none =>
      have hnot : k ∉ s.hot.store.keys := Dict.get?_eq_none.mp hhot
      rw [held_of_cold hhot, Option.isSome_map]
      simp [hnot, coldAt]

theorem nodup_allKeys (tidy : s.Tidy) : s.allKeys.Nodup := by
  rw [allKeys, List.nodup_append]
  refine ⟨s.hot.store.nodup, tidy.named.nodup_owners, ?_⟩
  rintro k hhot k' hcold rfl
  rw [tidy.named.mem_owners] at hcold
  obtain ⟨e, hmem⟩ := Dict.mem_keys.mp hhot
  have hnone := tidy.apart k e (Dict.get?_eq_some.mpr hmem)
  rw [coldAt] at hnone
  rw [hnone] at hcold
  cases hcold

/-- A deletion by prefix answers how many keys it has removed. -/
theorem deleteByPrefix_fst (s : TieredCacheStore β) (keyPrefix : String) :
    (s.deleteByPrefix keyPrefix).1 = (s.allKeys.filter (hasPrefix keyPrefix)).length := by
  show (s.hot.store.keys.filter (hasPrefix keyPrefix)).length +
    (s.cold.items.filter fun d => hasPrefix keyPrefix d.2.owner).length = _
  rw [allKeys, List.filter_append, List.length_append, Aliased.owners, List.filter_map,
    List.length_map]
  rfl

theorem tidy_keys (tidy : s.Tidy) (now : Time) : (s.keys now).2.Tidy := by
  have hkept : ∀ k e, (s.hot.keys now).2.store.get? k = some e →
      s.hot.store.get? k = some e := by
    intro k e hk
    rw [LruCacheStore.get?_keys, Option.filter_eq_some_iff] at hk
    exact hk.1
  exact tidy_removeDirs tidy hkept fun c => c.metadata.ttl < now - c.metadata.createdAt

/-- A listing removes what has expired. -/
theorem held_keys (tidy : s.Tidy) (now : Time) (k : String) :
    (s.keys now).2.held k = (s.held k).filter fun e => !e.isExpired now := by
  have hhot : (s.keys now).2.hot.store.get? k =
      (s.hot.store.get? k).filter fun e => !e.isExpired now :=
    LruCacheStore.get?_keys s.hot now k
  have hcold : (s.keys now).2.coldAt k = (s.coldAt k).filter fun c => !c.entry.isExpired now :=
    coldAt_removeDirs { s with hot := (s.hot.keys now).2 } _ k
  cases hget : s.hot.store.get? k with
  | some e =>
      rw [hget, Option.filter_some] at hhot
      rw [tidy.apart k e hget] at hcold
      rw [held_of_hot hget, Option.filter_some]
      show _ = if (!e.isExpired now) = true then some e.demoted else none
      split at hhot
      · rename_i hfresh
        rw [held_of_hot hhot, if_pos hfresh]
      · rename_i hexpired
        rw [held_of_cold hhot, hcold, if_neg hexpired]
        rfl
  | none =>
      rw [hget] at hhot
      rw [held_of_cold hhot, held_of_cold hget, hcold, Option.filter_map]
      rfl

theorem mem_coldKeys (named : Aliased.Named urlSafeKey ColdEntry.owner s.cold) :
    k ∈ (s.coldKeys now).1 ↔ ∃ c, s.coldAt k = some c ∧ c.entry.isExpired now = false := by
  show k ∈ (s.cold.items.filter fun d => !d.2.entry.isExpired now).map (fun d => d.2.owner) ↔ _
  simp only [List.mem_map, List.mem_filter, Bool.not_eq_true']
  constructor
  · rintro ⟨⟨n, c⟩, ⟨hmem, hfresh⟩, rfl⟩
    exact ⟨c, named.read_owner (Dict.get?_eq_some.mpr hmem), hfresh⟩
  · rintro ⟨c, hat, hfresh⟩
    obtain ⟨hget, howner⟩ := Aliased.read_eq_some.mp hat
    exact ⟨_, ⟨Dict.get?_eq_some.mp hget, hfresh⟩, howner⟩

/-- A listing names the keys whose entry has not expired. -/
theorem mem_keys (tidy : s.Tidy) :
    k ∈ (s.keys now).1 ↔ ∃ e, s.held k = some e ∧ e.isExpired now = false := by
  show k ∈ (s.hot.keys now).1 ∪ ({ s with hot := (s.hot.keys now).2 }.coldKeys now).1 ↔ _
  rw [List.mem_union_iff, LruCacheStore.mem_keys,
    mem_coldKeys (s := { s with hot := (s.hot.keys now).2 }) tidy.named]
  cases hget : s.hot.store.get? k with
  | some e =>
      have hcold : coldAt { s with hot := (s.hot.keys now).2 } k = none := tidy.apart k e hget
      rw [held_of_hot hget, hcold]
      simp only [Option.some.injEq, exists_eq_left', reduceCtorEq, false_and, exists_false, or_false]
      rfl
  | none =>
      rw [held_of_cold hget]
      show _ ∨ (∃ c, s.coldAt k = some c ∧ _) ↔ _
      simp [Option.map_eq_some_iff]

theorem nodup_keys (tidy : s.Tidy) (now : Time) : (s.keys now).1.Nodup := by
  refine List.Nodup.union _ ?_
  exact tidy.named.nodup_owners.sublist (List.Sublist.map _ List.filter_sublist)

end TieredCacheStore

end Cdn

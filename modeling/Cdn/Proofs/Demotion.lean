/-
What a failed demotion loses.

The queue is emptied before the first of its entries is written.  So when a write raises,
the entries before it are on disk, and those behind it are nowhere: out of the hot tier,
not written, and no longer queued.  A failed write loses its own entry and all that were
evicted after it.

The entry that was put is in the hot tier by then, and the invariants of the store survive,
so the statement holds of every state that operations and failures lead to.
-/
import Cdn.Demotion
import Cdn.Proofs.ColdTier

namespace Cdn

variable {β : Type}

namespace TieredCacheStore

variable {s s' : TieredCacheStore β} {key k : String} {e : CacheEntry β} {now : Time}
  {op : StoreOp β} {fault : Option (Fault β)} {a : Attempt β}

/-! ### A good disk -/

theorem flushDemotionsOn_none (s : TieredCacheStore β) :
    s.flushDemotionsOn none = (.ok (), s.flushDemotions) := by
  have hwrite : ∀ (queue : List (String × CacheEntry β)) (s : TieredCacheStore β),
      writeDemotionsOn none queue s = (.ok (), queue.foldl
        (fun s ke => { s.coldWrite ke.1 ke.2 with demotions := s.demotions + 1 }) s) := by
    intro queue
    induction queue with
    | nil => exact fun s => rfl
    | cons ke rest ih => exact fun s => ih _
  exact hwrite _ _

theorem getOn_none (s : TieredCacheStore β) (now : Time) (key : String) :
    s.getOn none now key = (.ok (s.get now key).1, (s.get now key).2) := by
  obtain ⟨⟨answer, hot⟩, hget⟩ : ∃ r, s.hot.get now key = r := ⟨_, rfl⟩
  cases answer with
  | some e => simp only [getOn, get, hget]
  | none =>
      cases hread : s.coldRead key with
      | none =>
          have hread' : ({ s with hot, hotMisses := s.hotMisses + 1 } : TieredCacheStore β).coldRead key =
              none := hread
          simp only [getOn, get, hget, hread']
      | some e =>
          have hread' : ({ s with hot, hotMisses := s.hotMisses + 1 } : TieredCacheStore β).coldRead key =
              some e := hread
          simp only [getOn, get, hget, hread', flushDemotionsOn_none]
          split <;> rfl

/-- Where every write goes through, the store is the one that knows of no failures. -/
theorem performOn_none (s : TieredCacheStore β) (now : Time) (op : StoreOp β) :
    s.performOn none now op = (.ok (s.perform now op).1, (s.perform now op).2) := by
  cases op with
  | put key e => rw [performOn, putOn, flushDemotionsOn_none]; rfl
  | get key => rw [performOn, getOn_none]; rfl
  | delete key => rfl
  | deleteByPrefix keyPrefix => rfl
  | keys => rfl

/-! ### What a flush leaves behind -/

/-- The files of a list of entries, written in order. -/
abbrev filed (d : Dict String (ColdEntry β)) (l : List (String × CacheEntry β)) :
    Dict String (ColdEntry β) :=
  Aliased.writes urlSafeKey ColdEntry.owner d (l.map fun ke => .of ke.1 ke.2)

/-- What a write that raises leaves of the cold tier. -/
def leave (f : Fault β) (d : Dict String (ColdEntry β)) : Dict String (ColdEntry β) :=
  match f.left with
  | none => d.erase (urlSafeKey f.key)
  | some c => d.set (urlSafeKey f.key) c

/-- What a flush makes of the cold tier. -/
inductive Flushed (fault : Option (Fault β)) (d : Dict String (ColdEntry β))
    (queue : List (String × CacheEntry β)) : Dict String (ColdEntry β) → Prop where
  | whole (h : ∀ f ∈ fault, f.key ∉ queue.map Prod.fst) : Flushed fault d queue (filed d queue)
  | upTo {f : Fault β} {done lost : List (String × CacheEntry β)} {e : CacheEntry β}
      (hfault : fault = some f) (hqueue : queue = done ++ (f.key, e) :: lost) :
      Flushed fault d queue (leave f (filed d done))

theorem Flushed.cons {ke : String × CacheEntry β} {queue : List (String × CacheEntry β)}
    {d d' : Dict String (ColdEntry β)} (hne : ∀ f ∈ fault, f.key ≠ ke.1)
    (h : Flushed fault (d.set (urlSafeKey ke.1) (.of ke.1 ke.2)) queue d') :
    Flushed fault d (ke :: queue) d' := by
  cases h with
  | whole hnot =>
      refine .whole fun f hf hmem => ?_
      rcases List.mem_cons.mp hmem with hkey | hmem
      · exact hne f hf hkey
      · exact hnot f hf hmem
  | @upTo f done lost e hfault hqueue =>
      have hlonger : ke :: queue = (ke :: done) ++ (f.key, e) :: lost := by rw [hqueue]; rfl
      exact .upTo hfault hlonger

theorem writeDemotionsOn_spec (fault : Option (Fault β)) (queue : List (String × CacheEntry β)) :
    ∀ s : TieredCacheStore β,
      (writeDemotionsOn fault queue s).2.hot = s.hot ∧
      (writeDemotionsOn fault queue s).2.pendingDemotions = s.pendingDemotions ∧
      Flushed fault s.cold queue (writeDemotionsOn fault queue s).2.cold := by
  induction queue with
  | nil => exact fun s => ⟨rfl, rfl, .whole fun _ _ => List.not_mem_nil⟩
  | cons ke rest ih =>
      intro s
      have hwrites : (∀ f ∈ fault, f.key ≠ ke.1) →
          s.coldWriteOn fault ke.1 ke.2 = (.ok (), s.coldWrite ke.1 ke.2) := by
        intro hne
        cases fault with
        | none => rfl
        | some f => rw [coldWriteOn, if_neg (hne f rfl)]
      by_cases hne : ∀ f ∈ fault, f.key ≠ ke.1
      · rw [writeDemotionsOn, hwrites hne]
        obtain ⟨hhot, hpending, hcold⟩ :=
          ih { s.coldWrite ke.1 ke.2 with demotions := s.demotions + 1 }
        exact ⟨hhot, hpending, hcold.cons hne⟩
      · push Not at hne
        obtain ⟨f, rfl, hkey⟩ := hne
        have hraises : s.coldWriteOn (some f) ke.1 ke.2 =
            (.error .raised, { s with cold := leave f s.cold }) := by
          rw [coldWriteOn, if_pos hkey, ← hkey]
          rfl
        rw [writeDemotionsOn, hraises]
        have hfirst : ke :: rest = [] ++ (f.key, ke.2) :: rest := by rw [hkey]; rfl
        exact ⟨rfl, rfl, .upTo rfl hfirst⟩

theorem putOn_spec (tidy : s.Tidy) (fault : Option (Fault β)) (key : String) (e : CacheEntry β) :
    (s.putOn fault key e).2.pendingDemotions = [] ∧
    Flushed fault (s.coldDelete key).2.cold (s.displaced key e.size) (s.putOn fault key e).2.cold ∧
    ∀ k, (s.putOn fault key e).2.hot.store.get? k =
      if k = key then some e
      else if k ∈ (s.displaced key e.size).map Prod.fst then none else s.hot.store.get? k := by
  obtain ⟨hcold, hqueued, hget⟩ := hotPut_coldDelete_spec tidy key e
  obtain ⟨hflushhot, hflushed, hflushcold⟩ := writeDemotionsOn_spec fault
    ((s.coldDelete key).2.hotPut key e).pendingDemotions
    { (s.coldDelete key).2.hotPut key e with pendingDemotions := [] }
  rw [hqueued] at hflushhot hflushed hflushcold
  have hput : s.putOn fault key e = writeDemotionsOn fault (s.displaced key e.size)
      { (s.coldDelete key).2.hotPut key e with pendingDemotions := [] } := by
    rw [putOn, flushDemotionsOn, hqueued]
  rw [hput]
  refine ⟨hflushed, ?_, fun k => ?_⟩
  · rw [← hcold]
    exact hflushcold
  · rw [hflushhot]
    exact hget k

/-! ### The store stays tidy -/

theorem leave_named {f : Fault β} {d : Dict String (ColdEntry β)}
    (h : Aliased.Named urlSafeKey ColdEntry.owner d) :
    Aliased.Named urlSafeKey ColdEntry.owner (leave f d) := by
  unfold leave
  split
  · exact h.erase _
  · rename_i c hleft
    have howner : c.owner = f.key := f.owned c hleft
    rw [← howner]
    exact h.set c

/-- A write that raises gives no other key anything to read. -/
theorem read_leave_eq_none {f : Fault β} {d : Dict String (ColdEntry β)} (hk : f.key ≠ k)
    (hd : Aliased.read urlSafeKey ColdEntry.owner d k = none) :
    Aliased.read urlSafeKey ColdEntry.owner (leave f d) k = none := by
  rw [Aliased.read_eq_none] at hd ⊢
  intro c hc
  unfold leave at hc
  split at hc
  · rw [Dict.get?_erase] at hc
    split at hc
    · cases hc
    · exact hd c hc
  · rename_i c' hleft
    rw [Dict.get?_set] at hc
    split at hc
    · have howner : c'.owner = f.key := f.owned c' hleft
      rw [← Option.some.inj hc, howner]
      exact hk
    · exact hd c hc

theorem Flushed.named {d d' : Dict String (ColdEntry β)} {queue : List (String × CacheEntry β)}
    (h : Flushed fault d queue d') (hd : Aliased.Named urlSafeKey ColdEntry.owner d) :
    Aliased.Named urlSafeKey ColdEntry.owner d' := by
  cases h with
  | whole => exact hd.writes _
  | upTo => exact leave_named (hd.writes _)

theorem Flushed.read_eq_none {d d' : Dict String (ColdEntry β)}
    {queue : List (String × CacheEntry β)} (h : Flushed fault d queue d')
    (hk : k ∉ queue.map Prod.fst) (hd : Aliased.read urlSafeKey ColdEntry.owner d k = none) :
    Aliased.read urlSafeKey ColdEntry.owner d' k = none := by
  have hfiled : ∀ l : List (String × CacheEntry β), l ⊆ queue →
      Aliased.read urlSafeKey ColdEntry.owner (filed d l) k = none := fun l hl => by
    refine Aliased.read_writes_eq_none hd fun c hc => ?_
    obtain ⟨ke, hke, rfl⟩ := List.mem_map.mp hc
    rintro rfl
    exact hk (List.mem_map_of_mem (hl hke))
  cases h with
  | whole => exact hfiled queue (List.Subset.refl _)
  | @upTo f done lost e hfault hqueue =>
      rw [hqueue] at hk hfiled
      refine read_leave_eq_none (fun hkey => hk ?_) (hfiled done (List.subset_append_left _ _))
      rw [← hkey]
      simp

theorem tidy_putOn (tidy : s.Tidy) (fault : Option (Fault β)) (key : String)
    (e : CacheEntry β) : (s.putOn fault key e).2.Tidy := by
  obtain ⟨hpending, hflushed, hget⟩ := putOn_spec tidy fault key e
  refine ⟨hflushed.named (tidy.named_coldDelete key), fun k x hk => ?_, hpending⟩
  rw [hget] at hk
  by_cases hkey : k = key
  · subst hkey
    refine hflushed.read_eq_none (fun hin => ?_) ?_
    · obtain ⟨ke, hke, hfst⟩ := List.mem_map.mp hin
      exact (mem_displaced hke).1 hfst
    · exact (coldAt_coldDelete s k k).trans (if_pos rfl)
  · rw [if_neg hkey] at hk
    split at hk
    · cases hk
    · rename_i hdisplaced
      refine hflushed.read_eq_none hdisplaced ?_
      show (s.coldDelete key).2.coldAt k = none
      rw [coldAt_coldDelete, tidy.apart k x hk, ite_self]

/-! ### An operation that files an entry in the hot tier -/

/-- The entry that an operation files in the hot tier: what is put, or what is promoted. -/
def inserted? (s : TieredCacheStore β) (now : Time) : StoreOp β → Option (String × CacheEntry β)
  | .put key e => some (key, e)
  | .get key =>
      match s.hot.store.get? key, s.coldRead key with
      | none, some e => if e.isExpired now then none else some (key, e.touch now)
      | _, _ => none
  | .delete _ | .deleteByPrefix _ | .keys => none

theorem key_of_inserted (h : s.inserted? now op = some (key, e)) : op.key? = some key := by
  cases op with
  | put key' e' => cases h; rfl
  | get key' =>
      rw [inserted?] at h
      split at h
      · split at h <;> cases h
        rfl
      · cases h
  | delete key' => cases h
  | deleteByPrefix keyPrefix => cases h
  | keys => cases h

/-- It is filed as by a `put`, whatever the counters are; any other operation does what it
does on a good disk. -/
theorem performOn_snd (s : TieredCacheStore β) (fault : Option (Fault β)) (now : Time)
    (op : StoreOp β) :
    (∃ m key e, SameTiers s m ∧ s.inserted? now op = some (key, e) ∧
      (s.performOn fault now op).2 = (m.putOn fault key e).2) ∨
    (s.inserted? now op = none ∧ (s.performOn fault now op).2 = (s.perform now op).2) := by
  cases op with
  | put key e => exact Or.inl ⟨s, key, e, ⟨rfl, rfl, rfl, rfl, rfl⟩, rfl, rfl⟩
  | delete key => exact Or.inr ⟨rfl, rfl⟩
  | deleteByPrefix keyPrefix => exact Or.inr ⟨rfl, rfl⟩
  | keys => exact Or.inr ⟨rfl, rfl⟩
  | get key =>
      have hfst : (s.hot.get now key).1 = (s.hot.store.get? key).map (·.touch now) :=
        s.hot.get_fst now key
      show (∃ m key' e, SameTiers s m ∧ s.inserted? now (.get key) = some (key', e) ∧
        (s.getOn fault now key).2 = (m.putOn fault key' e).2) ∨
        (s.inserted? now (.get key) = none ∧ (s.getOn fault now key).2 = (s.get now key).2)
      cases hhot : s.hot.store.get? key with
      | some e =>
          have hget : s.hot.get now key = (some (e.touch now), (s.hot.get now key).2) :=
            Prod.ext (by rw [hfst, hhot]; rfl) rfl
          refine Or.inr ⟨by rw [inserted?, hhot], ?_⟩
          rw [getOn, get, hget]
      | none =>
          have hget : s.hot.get now key = (none, { s.hot with misses := s.hot.misses + 1 }) := by
            rw [LruCacheStore.get, hhot]
          rw [getOn, get, hget, inserted?, hhot]
          dsimp only
          cases hcold : s.cold.get? (urlSafeKey key) with
          | none =>
              refine Or.inr ⟨?_, ?_⟩
              · rw [coldRead, hcold]
                rfl
              · simp only [coldRead, hcold, Option.map_none]
          | some c =>
              simp only [coldRead, hcold, Option.map_some]
              split
              · exact Or.inr ⟨rfl, rfl⟩
              · exact Or.inl ⟨{ s with
                  hot := { s.hot with misses := s.hot.misses + 1 }, hotMisses := s.hotMisses + 1
                  coldHits := s.coldHits + 1, promotions := s.promotions + 1 },
                  key, _, ⟨rfl, rfl, rfl, rfl, rfl⟩, rfl, rfl⟩

theorem tidy_performOn (tidy : s.Tidy) (fault : Option (Fault β)) (now : Time)
    (op : StoreOp β) : (s.performOn fault now op).2.Tidy := by
  rcases performOn_snd s fault now op with ⟨m, key, e, hsame, -, hput⟩ | ⟨-, hsame⟩
  · rw [hput]
    exact tidy_putOn (hsame.tidy tidy) fault key e
  · rw [hsame]
    exact tidy_perform tidy now op

/-! ### One failed write -/

/-- The entry can be read from the cold tier, as far as the cold tier keeps entries, or is
still queued. -/
def Survives (s : TieredCacheStore β) (ke : String × CacheEntry β) : Prop :=
  s.coldRead ke.1 = some ke.2.demoted ∨ ke ∈ s.pendingDemotions

/-- If one of the entries that make room cannot be written, the others survive, and what was
filed is in the hot tier. -/
def LosesAtMostOne (s : TieredCacheStore β) (a : Attempt β) : Prop :=
  ∀ ins ∈ s.inserted? a.now a.op, ∀ f ∈ a.fault,
    f.key ∈ (s.displaced ins.1 ins.2.size).map Prod.fst →
      (∀ ke ∈ s.displaced ins.1 ins.2.size, ke.1 ≠ f.key →
        (s.performOn a.fault a.now a.op).2.Survives ke) ∧
      (s.performOn a.fault a.now a.op).2.hot.store.get? ins.1 = some ins.2

/-- The entry that cannot be written is the last of those that make room. -/
def FailsLast (s : TieredCacheStore β) (a : Attempt β) : Prop :=
  ∀ ins ∈ s.inserted? a.now a.op, ∀ f ∈ a.fault,
    f.key ∈ (s.displaced ins.1 ins.2.size).map Prod.fst →
      ((s.displaced ins.1 ins.2.size).map Prod.fst).getLast? = some f.key

instance [DecidableEq β] (s : TieredCacheStore β) (ke : String × CacheEntry β) :
    Decidable (s.Survives ke) := inferInstanceAs (Decidable (_ ∨ _))

instance [DecidableEq β] (s : TieredCacheStore β) (a : Attempt β) : Decidable (s.LosesAtMostOne a) :=
  inferInstanceAs (Decidable (∀ _ ∈ _, ∀ _ ∈ _, _ → (∀ _ ∈ _, _ → Survives _ _) ∧ _ = _))

/-- Where the directories are apart, an entry that makes room has none yet. -/
theorem coldDelete_get?_displaced (tidy : s.Tidy) {size : Int} (hapart : s.Separate key size)
    {ke : String × CacheEntry β} (hke : ke ∈ s.displaced key size) :
    (s.coldDelete key).2.cold.get? (urlSafeKey ke.1) = none := by
  rw [(coldDelete_spec s key).2.1]
  split
  · rfl
  · rename_i hne
    cases hcold : s.cold.get? (urlSafeKey ke.1) with
    | none => rfl
    | some c =>
        have hmem := Dict.get?_eq_some.mp hcold
        have hname := tidy.named _ c hcold
        by_cases howner : c.owner = key
        · rw [howner] at hname
          exact absurd hname.symm hne
        · exact absurd rfl (hapart.cold _ hmem howner ke hke)

theorem leave_get?_of_ne (f : Fault β) (d : Dict String (ColdEntry β)) {n : String}
    (hn : n ≠ urlSafeKey f.key) : (leave f d).get? n = d.get? n := by
  unfold leave
  split
  · rw [Dict.get?_erase, if_neg hn]
  · rw [Dict.get?_set, if_neg hn]

/-- What is filed under different names can be read back. -/
theorem filed_get?_of_mem (d : Dict String (ColdEntry β)) {l : List (String × CacheEntry β)}
    (hnames : (l.map fun ke => urlSafeKey ke.1).Nodup) {ke : String × CacheEntry β} (hke : ke ∈ l) :
    (filed d l).get? (urlSafeKey ke.1) = some (.of ke.1 ke.2) := by
  have hcells : ((l.map fun ke => ColdEntry.of ke.1 ke.2).map fun c => urlSafeKey c.owner).Nodup := by
    rw [List.map_map]
    exact hnames
  have howners : ((l.map fun ke => ColdEntry.of ke.1 ke.2).map ColdEntry.owner).Nodup := by
    refine List.Nodup.of_map urlSafeKey ?_
    rw [List.map_map]
    exact hcells
  have hread := (Aliased.read_writes_iff urlSafeKey ColdEntry.owner d howners).mpr hcells
  exact (Aliased.read_eq_some.mp (hread _ (List.mem_map_of_mem hke))).1

theorem filed_get?_of_ne (d : Dict String (ColdEntry β)) {l : List (String × CacheEntry β)}
    {n : String} (hn : ∀ ke ∈ l, urlSafeKey ke.1 ≠ n) : (filed d l).get? n = d.get? n := by
  refine Aliased.get?_writes_of_ne d fun c hc => ?_
  obtain ⟨ke, hke, rfl⟩ := List.mem_map.mp hc
  exact hn ke hke

/-- **One flush.**  Where the entries have names of their own, and nothing is filed under
them, those that can be written can be read back exactly if nothing was queued behind the one
that cannot. -/
theorem Flushed.readable_iff {f : Fault β} {d d' : Dict String (ColdEntry β)}
    {queue : List (String × CacheEntry β)} (h : Flushed (some f) d queue d')
    (hf : f.key ∈ queue.map Prod.fst) (hnames : (queue.map fun ke => urlSafeKey ke.1).Nodup)
    (hfree : ∀ ke ∈ queue, d.get? (urlSafeKey ke.1) = none) :
    (∀ ke ∈ queue, ke.1 ≠ f.key →
      (d'.get? (urlSafeKey ke.1)).map ColdEntry.entry = some ke.2.demoted) ↔
      (queue.map Prod.fst).getLast? = some f.key := by
  cases h with
  | whole hnot => exact absurd hf (hnot f rfl)
  | @upTo f' done lost e hfault hqueue =>
      cases hfault
      subst hqueue
      rw [List.map_append, List.map_cons, List.nodup_append, List.nodup_cons] at hnames
      obtain ⟨hdone, ⟨hlost, -⟩, hapart⟩ := hnames
      have hbehind : ∀ ke ∈ lost, urlSafeKey ke.1 ≠ urlSafeKey f.key := fun ke hke hname =>
        hlost (List.mem_map.mpr ⟨ke, hke, hname⟩)
      have hbefore : ∀ ke ∈ done, ∀ ke' ∈ (f.key, e) :: lost, urlSafeKey ke.1 ≠ urlSafeKey ke'.1 :=
        fun ke hke ke' hke' => by
          refine hapart _ (List.mem_map.mpr ⟨ke, hke, rfl⟩) _ ?_
          rw [← List.map_cons (f := fun ke : String × CacheEntry β => urlSafeKey ke.1)]
          exact List.mem_map.mpr ⟨ke', hke', rfl⟩
      rw [List.map_append, List.map_cons, List.getLast?_append_of_ne_nil _ (by simp)]
      cases lost with
      | nil =>
          refine iff_of_true ?_ rfl
          intro ke hke hne
          have hke : ke ∈ done := by
            rcases List.mem_append.mp hke with hke | hlast
            · exact hke
            · exact absurd (by rw [List.mem_singleton.mp hlast]) hne
          have hname := hbefore ke hke _ List.mem_cons_self
          rw [leave_get?_of_ne f _ hname, filed_get?_of_mem d hdone hke]
          rfl
      | cons ke lost =>
          have hmem : ke ∈ (f.key, e) :: ke :: lost := by simp
          refine iff_of_false (fun h => ?_) fun hlast => ?_
          · have hname := hbehind ke List.mem_cons_self
            have hread := h ke (List.mem_append_right _ hmem) fun hkey => hname (by rw [hkey])
            rw [leave_get?_of_ne f _ hname,
              filed_get?_of_ne d fun ke' hke' => hbefore ke' hke' ke hmem,
              hfree ke (List.mem_append_right _ hmem)] at hread
            cases hread
          · rw [List.map_cons, List.getLast?_cons_cons, ← List.map_cons] at hlast
            obtain ⟨ke', hke', hkey⟩ := List.mem_map.mp (List.mem_of_getLast? hlast)
            exact hbehind ke' hke' (by rw [hkey])

/-- **One operation.**  Where the directories are apart, a write that fails loses its own
entry at most exactly if it is the last of the queue. -/
theorem losesAtMostOne_iff (tidy : s.Tidy)
    (hapart : ∀ ins ∈ s.inserted? a.now a.op, s.Separate ins.1 ins.2.size) :
    s.LosesAtMostOne a ↔ s.FailsLast a := by
  refine forall_congr' fun ins => forall_congr' fun hins => forall_congr' fun f =>
    forall_congr' fun hf => forall_congr' fun hmem => ?_
  rcases performOn_snd s a.fault a.now a.op with ⟨m, key, e, hsame, hinserted, hput⟩ | ⟨hnone, -⟩
  · rw [hinserted, Option.mem_def, Option.some.injEq] at hins
    subst hins
    rw [hput, Option.mem_def.mp hf]
    have hseparate : m.Separate key e.size := (hsame.separate_iff key e.size).mpr (hapart _ hinserted)
    have htidy := hsame.tidy tidy
    rw [← hsame.displaced] at hmem ⊢
    obtain ⟨hpending, hflushed, hget⟩ := putOn_spec htidy (some f) key e
    have hhot : (m.putOn (some f) key e).2.hot.store.get? key = some e := by
      rw [hget, if_pos rfl]
    have hreadable := hflushed.readable_iff hmem hseparate.hot fun ke hke =>
      coldDelete_get?_displaced htidy hseparate hke
    rw [and_iff_left hhot, ← hreadable]
    simp only [Survives, hpending, List.not_mem_nil, or_false, coldRead]
  · rw [hnone] at hins
    cases hins

/-! ### Runs -/

theorem held_putOn_isSome (tidy : s.Tidy)
    (h : ((s.putOn fault key e).2.held k).isSome = true) :
    (s.held k).isSome = true ∨ k = key := by
  obtain ⟨-, hflushed, hget⟩ := putOn_spec tidy fault key e
  refine held_isSome_of_put hget (fun hdisplaced hcold => ?_) h
  cases hat : s.coldAt k with
  | some c => rfl
  | none =>
      have hbase : (s.coldDelete key).2.coldAt k = none := by
        rw [coldAt_coldDelete, hat, ite_self]
      rw [coldAt, hflushed.read_eq_none hdisplaced hbase] at hcold
      cases hcold

/-- What a run keeps, on any disk. -/
structure Within (used : List String) (s : TieredCacheStore β) : Prop where
  tidy : s.Tidy
  used : ∀ k, (s.held k).isSome = true → k ∈ used

variable {used : List String}

theorem Within.step (h : s.Within used) (hused : ∀ key ∈ a.op.key?, key ∈ used)
    (hstep : stepOn s a = some s') : s'.Within used := by
  unfold stepOn at hstep
  split at hstep
  · cases Option.some.inj hstep
    refine ⟨tidy_performOn h.tidy _ _ _, fun k hk => ?_⟩
    rcases performOn_snd s a.fault a.now a.op with ⟨m, key, e, hsame, hinserted, hput⟩ | ⟨-, hsame⟩
    · rw [hput] at hk
      rcases held_putOn_isSome (hsame.tidy h.tidy) hk with hold | rfl
      · exact h.used k (hsame.held k ▸ hold)
      · exact hused k (key_of_inserted hinserted)
    · rw [hsame] at hk
      exact (held_perform_isSome h.tidy hk).elim (h.used k) fun hkey => hused k hkey
  · cases hstep

/-- The keys that attempts are about. -/
def keysIn (p : List (Attempt β)) : List String := p.filterMap fun a => a.op.key?

/--
**What a failed write loses.**  In every run, with any failures, over keys with different
directory names, a write that fails loses its own entry at most exactly if it is the last of
the queue.
-/
theorem losesAtMostOne_iff_failsLast (m : Int) (p : List (Attempt β))
    (hnames : ∀ k ∈ keysIn p, ∀ k' ∈ keysIn p, urlSafeKey k = urlSafeKey k' → k = k') :
    Lts.EachStep stepOn (fun s a => s.LosesAtMostOne a ↔ s.FailsLast a) (init m) p := by
  have hused : Lts.EachStep stepOn
      (fun (_ : TieredCacheStore β) (a : Attempt β) => ∀ key ∈ a.op.key?, key ∈ keysIn p)
      (init m) p :=
    Lts.eachStep_of_forall fun a ha key hkey => by
      rw [keysIn, List.mem_filterMap]
      exact ⟨a, ha, hkey⟩
  have hwithin : Lts.Always stepOn (Within (keysIn p)) (init m : TieredCacheStore β) p :=
    Lts.always_of_guarded (fun s a s' h hkey hstep => h.step hkey hstep) p
      ⟨(inside_init m).tidy, fun _ h => by cases h⟩ hused
  refine (hwithin.eachStep.and hused).mono fun s a ⟨h, hkey⟩ => ?_
  refine losesAtMostOne_iff h.tidy fun ins hins => ?_
  exact Session.separate_of_injective hnames h.tidy h.used (hkey _ (key_of_inserted hins)) _

/-- Two entries of one byte, and one of two bytes that takes their place; the write of `key`
fails. -/
def crowding (key : String) : List (Attempt Nat) :=
  [⟨1, .put "GET:a" (Session.sampleEntry 7), none⟩, ⟨2, .put "GET:b" (Session.sampleEntry 8), none⟩,
    ⟨3, .put "GET:c" { Session.sampleEntry 9 with size := 2 }, some ⟨key, none, by simp⟩⟩]

theorem losesAtMostOne_iff_failsLast_crowding :
    Lts.EachStep stepOn (fun s a => s.LosesAtMostOne a ↔ s.FailsLast a) (init 2)
      (crowding "GET:b") :=
  losesAtMostOne_iff_failsLast 2 (crowding "GET:b") (by decide +kernel)

/-- The write of the first of the two fails, and the second is lost as well. -/
theorem notLosesAtMostOne_first : ¬ ∀ (m : Int) (p : List (Attempt Nat)),
    (∀ k ∈ keysIn p, ∀ k' ∈ keysIn p, urlSafeKey k = urlSafeKey k' → k = k') →
    Lts.EachStep stepOn LosesAtMostOne (init m) p := by
  intro h
  have hsteps := h 2 (crowding "GET:a") (by decide +kernel)
  have hcheck := Lts.check_of_eachStep (c := fun s a => decide (LosesAtMostOne s a))
    (fun _ _ => decide_eq_true) hsteps
  exact absurd hcheck (by decide +kernel)

end TieredCacheStore

end Cdn

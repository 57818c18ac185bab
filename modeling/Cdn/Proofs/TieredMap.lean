/-
The tiered store is a map.

`Clear` says of an operation that the directories it touches are nobody else's.  Such an
operation does to the entries what it would do to a map, and answers as the map would.
Where no two of the keys in use have the same directory name every operation is clear;
so as long as nothing expires, the store is the map its operations describe.
-/
import Cdn.Proofs.Tiers
import Cdn.TieredCache

namespace Cdn

variable {β : Type}

@[simp] theorem CacheEntry.payload_touch (e : CacheEntry β) (now : Time) :
    (e.touch now).payload = e.payload := rfl

@[simp] theorem CacheEntry.payload_demoted (e : CacheEntry β) :
    e.demoted.payload = e.payload := rfl

/-- Whether an entry has expired is seen from its payload. -/
theorem CacheEntry.isExpired_congr {e e' : CacheEntry β} (h : e.payload = e'.payload)
    (now : Time) : e.isExpired now = e'.isExpired now := by
  have hcreated : e.createdAt = e'.createdAt := congrArg Payload.createdAt h
  have httl : e.ttl = e'.ttl := congrArg Payload.ttl h
  rw [isExpired, hcreated, httl, isExpired]

namespace TieredCacheStore

variable {s : TieredCacheStore β} {key k : String} {now : Time}

/-- The directories an operation touches are nobody else's. -/
def Clear (s : TieredCacheStore β) (now : Time) : StoreOp β → Prop
  | .get key => s.ReadsApart now key
  | .put key e => s.Separate key e.size
  | .delete key => ∀ d ∈ s.cold.items, d.1 = urlSafeKey key → d.2.owner = key
  | .deleteByPrefix _ | .keys => True

theorem tidy_perform (tidy : s.Tidy) (now : Time) (op : StoreOp β) :
    (s.perform now op).2.Tidy := by
  cases op with
  | get key => exact tidy_get tidy now key
  | put key e => exact tidy_put tidy key e
  | delete key => exact tidy_delete tidy key
  | deleteByPrefix keyPrefix => exact tidy_deleteByPrefix tidy keyPrefix
  | keys => exact tidy_keys tidy now

/-! ### What a clear operation does -/

/-- The payload a key has in the store. -/
def payloadOf (s : TieredCacheStore β) (k : String) : Option (Payload β) :=
  (s.held k).map CacheEntry.payload

/-- A clear read answers with the entry of its key and keeps it, or finds it expired and
drops it. -/
theorem get_spec (tidy : s.Tidy) (clear : s.ReadsApart now key) :
    ((s.get now key).1.map CacheEntry.payload = s.payloadOf key ∧
      (s.get now key).2.payloadOf key = s.payloadOf key) ∨
    ((∃ e, s.held key = some e ∧ e.isExpired now = true) ∧ (s.get now key).1 = none ∧
      (s.get now key).2.held key = none) := by
  have hgets := gets s now key
  generalize (s.get now key).1 = result at hgets
  generalize (s.get now key).2 = s' at hgets
  cases hgets with
  | @hot e hhot =>
      refine Or.inl ⟨?_, ?_⟩
      · rw [payloadOf, held_of_hot hhot, Option.map_some, Option.map_some,
          CacheEntry.payload_touch, CacheEntry.payload_demoted]
      · have htouched : (s.hot.get now key).2.store.get? key = some (e.touch now) := by
          rw [LruCacheStore.get?_get, if_pos rfl, hhot]
          rfl
        rw [payloadOf, held_of_hot htouched, payloadOf, held_of_hot hhot]
        rfl
  | absent hhot hcold hsame =>
      have hnone : s.held key = none := by
        rw [held_eq_none]
        exact ⟨hhot, by rw [coldAt, Aliased.read, hcold]; rfl⟩
      refine Or.inl ⟨?_, ?_⟩
      · simp only [payloadOf, hnone, Option.map_none]
      · rw [payloadOf, hsame.held, payloadOf]
  | @expired c m _ hhot hcold hexpired hsame hdeleted =>
      have howner := (clear hhot c hcold).1
      have hat : s.coldAt key = some c := Aliased.read_eq_some.mpr ⟨hcold, howner⟩
      refine Or.inr ⟨⟨c.entry, by rw [held_of_cold hhot, hat]; rfl, hexpired⟩, rfl, ?_⟩
      rw [hdeleted.held]
      exact held_coldDelete_self (by rw [hsame.store, hhot])
  | @promoted c m hhot hcold hfresh hsame =>
      have howner := (clear hhot c hcold).1
      have hat : s.coldAt key = some c := Aliased.read_eq_some.mpr ⟨hcold, howner⟩
      have hheld : s.held key = some c.entry := by rw [held_of_cold hhot, hat]; rfl
      refine Or.inl ⟨?_, ?_⟩
      · rw [payloadOf, hheld]
        rfl
      · rw [payloadOf, held_put_self (hsame.tidy tidy), payloadOf, hheld]
        rfl

/-- A clear deletion finds its key exactly if it has an entry. -/
theorem delete_fst_of_clear
    (clear : ∀ d ∈ s.cold.items, d.1 = urlSafeKey key → d.2.owner = key) :
    (s.delete key).1 = (s.held key).isSome := by
  rw [delete_fst]
  cases hhot : s.hot.store.get? key with
  | some e => rw [held_of_hot hhot]; rfl
  | none =>
      have hown : Aliased.Own urlSafeKey ColdEntry.owner s.cold key := fun c hc =>
        clear _ (Dict.get?_eq_some.mp hc) rfl
      rw [held_of_cold hhot, Option.isSome_map, hown.get?]
      rfl

end TieredCacheStore

/-! ### The map -/

namespace Session

open TieredCacheStore

variable {s s' : Session β} {a : Time × StoreOp β}

/-- The store holds what the map does. -/
def Mirrors (s : Session β) : Prop :=
  ∀ k, s.store.payloadOf k = (s.map.get? k).map CacheEntry.payload

/-- Nothing in the map has expired when the operation is made. -/
def Unexpired (s : Session β) (a : Time × StoreOp β) : Prop :=
  ∀ ke ∈ s.map.items, ke.2.isExpired a.1 = false

instance (s : Session β) (a : Time × StoreOp β) : Decidable (s.Unexpired a) :=
  inferInstanceAs (Decidable (∀ _ ∈ _, _))

theorem step_eq_some : s.step a = some s' ↔ a.2.Plain ∧
    s' = ⟨(s.store.perform a.1 a.2).2, a.2.apply s.map, record s.puts a.2⟩ := by
  unfold step
  split
  · rename_i h
    simp [h, eq_comm]
  · rename_i h
    simp [h]

theorem Mirrors.held_isSome (mirrors : s.Mirrors) (k : String) :
    (s.store.held k).isSome = (s.map.get? k).isSome := by
  have h := congrArg Option.isSome (mirrors k)
  rwa [payloadOf, Option.isSome_map, Option.isSome_map] at h

/-- Nothing in the store has expired either. -/
theorem Mirrors.fresh (mirrors : s.Mirrors) (h : s.Unexpired a) {k : String} {e : CacheEntry β}
    (hheld : s.store.held k = some e) : e.isExpired a.1 = false := by
  have hpayload := mirrors k
  rw [payloadOf, hheld, Option.map_some, eq_comm, Option.map_eq_some_iff] at hpayload
  obtain ⟨e', hget, hpayload⟩ := hpayload
  rw [← CacheEntry.isExpired_congr hpayload]
  exact h _ (Dict.get?_eq_some.mp hget)

/-- An operation leaves the entries of other keys as they are exactly if it is clear. -/
theorem frame_iff_clear {st : TieredCacheStore β} (tidy : st.Tidy) {now : Time}
    {op : StoreOp β} {key : String} (hkey : op.key? = some key) :
    (∀ k, k ≠ key → (st.perform now op).2.held k = st.held k) ↔ st.Clear now op := by
  cases op with
  | get key' => cases hkey; exact get_frame_iff tidy now key
  | put key' e => cases hkey; exact put_frame_iff tidy key e
  | delete key' => cases hkey; exact delete_frame_iff tidy key
  | deleteByPrefix keyPrefix => cases hkey
  | keys => cases hkey

/-- A clear read, where nothing has expired, answers with what the map has, and keeps it. -/
theorem Mirrors.get (mirrors : s.Mirrors) (tidy : s.store.Tidy) {now : Time} {key : String}
    (clear : s.store.Clear now (.get key)) (fresh : s.Unexpired (now, .get key)) :
    (s.store.get now key).1.map CacheEntry.payload = s.store.payloadOf key ∧
      (s.store.get now key).2.payloadOf key = s.store.payloadOf key := by
  rcases get_spec tidy clear with h | ⟨⟨e, hheld, hexpired⟩, -, -⟩
  · exact h
  · rw [mirrors.fresh fresh hheld] at hexpired
    cases hexpired

/-- The store answers as the map would. -/
theorem answers_of_clear (tidy : s.store.Tidy) (mirrors : s.Mirrors)
    (clear : s.store.Clear a.1 a.2) (fresh : s.Unexpired a) :
    a.2.Answers s.map (s.store.perform a.1 a.2).1 := by
  obtain ⟨now, op⟩ := a
  have hsome := mirrors.held_isSome
  have hkeys : ∀ k, (s.map.get? k).isSome = true ↔ k ∈ s.map.keys := fun k => by
    rw [← not_iff_not, Bool.not_eq_true, Option.isSome_eq_false_iff, Option.isNone_iff_eq_none]
    exact Dict.get?_eq_none
  cases op with
  | get key =>
      show (s.store.get now key).1.map CacheEntry.payload = _
      rw [(mirrors.get tidy clear fresh).1]
      exact mirrors key
  | put key e => trivial
  | delete key =>
      show (s.store.delete key).1 = s.map.contains key
      rw [delete_fst_of_clear clear, hsome]
      rfl
  | deleteByPrefix keyPrefix =>
      show (s.store.deleteByPrefix keyPrefix).1 = _
      rw [deleteByPrefix_fst]
      refine List.Perm.length_eq (List.Perm.filter _ ?_)
      refine (List.perm_ext_iff_of_nodup (nodup_allKeys tidy) s.map.nodup).mpr fun k => ?_
      rw [mem_allKeys tidy, hsome, hkeys]
      rfl
  | keys =>
      refine ⟨nodup_keys tidy now, fun k => ?_⟩
      show k ∈ (s.store.keys now).1 ↔ _
      rw [TieredCacheStore.mem_keys tidy, ← hkeys, ← hsome, Option.isSome_iff_exists]
      constructor
      · rintro ⟨e, hheld, -⟩
        exact ⟨e, hheld⟩
      · rintro ⟨e, hheld⟩
        exact ⟨e, hheld, mirrors.fresh fresh hheld⟩

/-- And becomes what the map becomes. -/
theorem mirrors_step (tidy : s.store.Tidy) (mirrors : s.Mirrors)
    (clear : s.store.Clear a.1 a.2) (fresh : s.Unexpired a) (hstep : s.step a = some s') :
    s'.Mirrors := by
  obtain ⟨-, rfl⟩ := step_eq_some.mp hstep
  obtain ⟨now, op⟩ := a
  intro k
  have hother : ∀ key, op.key? = some key → k ≠ key →
      (s.store.perform now op).2.payloadOf k = (s.map.get? k).map CacheEntry.payload := by
    intro key hkey hk
    rw [payloadOf, (frame_iff_clear tidy hkey).mpr clear k hk]
    exact mirrors k
  cases op with
  | get key =>
      by_cases hk : k = key
      · subst hk
        exact (mirrors.get tidy clear fresh).2.trans (mirrors k)
      · exact hother key rfl hk
  | put key e =>
      show _ = ((s.map.set key e).get? k).map CacheEntry.payload
      rw [Dict.get?_set]
      by_cases hk : k = key
      · rw [if_pos hk, hk]
        show ((s.store.put key e).held key).map CacheEntry.payload = _
        rw [held_put_self tidy]
        rfl
      · rw [if_neg hk]
        exact hother key rfl hk
  | delete key =>
      show _ = ((s.map.erase key).get? k).map CacheEntry.payload
      rw [Dict.get?_erase]
      by_cases hk : k = key
      · rw [if_pos hk, hk]
        show ((s.store.delete key).2.held key).map CacheEntry.payload = _
        rw [held_delete_self]
      · rw [if_neg hk]
        exact hother key rfl hk
  | deleteByPrefix keyPrefix =>
      show ((s.store.deleteByPrefix keyPrefix).2.held k).map CacheEntry.payload =
        ((s.map.filter fun k => !hasPrefix keyPrefix k).get? k).map CacheEntry.payload
      rw [held_deleteByPrefix, Dict.get?_filter]
      cases hp : hasPrefix keyPrefix k with
      | true => rfl
      | false => exact mirrors k
  | keys =>
      show ((s.store.keys now).2.held k).map CacheEntry.payload = _
      rw [held_keys tidy]
      have hsame : (s.store.held k).filter (fun e => !e.isExpired now) = s.store.held k := by
        cases hheld : s.store.held k with
        | none => rfl
        | some e => rw [Option.filter_some, if_pos (by rw [mirrors.fresh fresh hheld]; rfl)]
      rw [hsame]
      exact mirrors k

/-! ### Keys with different directory names -/

/-- The keys that operations are about. -/
def keysOf (p : List (Time × StoreOp β)) : List String := p.filterMap fun a => a.2.key?

theorem mem_keysOf {p : List (Time × StoreOp β)} {key : String} (ha : a ∈ p)
    (hkey : key ∈ a.2.key?) : key ∈ keysOf p := by
  rw [keysOf, List.mem_filterMap]
  exact ⟨a, ha, hkey⟩

section names

variable {st : TieredCacheStore β} {used : List String} {key : String}

/-- Whoever owns the directory under a key's name is that key. -/
theorem owner_of_injective
    (hnames : ∀ k ∈ used, ∀ k' ∈ used, urlSafeKey k = urlSafeKey k' → k = k') (tidy : st.Tidy)
    (hheld : ∀ k, (st.held k).isSome = true → k ∈ used) (hkey : key ∈ used)
    {d : String × ColdEntry β} (hd : d ∈ st.cold.items) (hname : d.1 = urlSafeKey key) :
    d.2.owner = key := by
  obtain ⟨hown, hat, hhot⟩ := tidy.of_mem_cold hd
  refine hnames _ (hheld _ ?_) _ hkey (hown.trans hname)
  rw [held_of_cold hhot, hat]
  rfl

theorem separate_of_injective
    (hnames : ∀ k ∈ used, ∀ k' ∈ used, urlSafeKey k = urlSafeKey k' → k = k') (tidy : st.Tidy)
    (hheld : ∀ k, (st.held k).isSome = true → k ∈ used) (hkey : key ∈ used) (size : Int) :
    st.Separate key size := by
  have huse : ∀ ke ∈ st.displaced key size, ke.1 ∈ used := fun ke hke =>
    hheld _ (by rw [held_of_hot (mem_displaced hke).2]; rfl)
  refine ⟨fun d hd hname => owner_of_injective hnames tidy hheld hkey hd hname,
    fun d hd _ ke hke hname => ?_, ?_⟩
  · have howner := owner_of_injective hnames tidy hheld (huse ke hke) hd hname.symm
    have habsent := (tidy.of_mem_cold hd).2.2
    rw [howner, (mem_displaced hke).2] at habsent
    cases habsent
  · have hapart : (((st.displaced key size).map Prod.fst).map urlSafeKey).Nodup := by
      refine List.Nodup.map_on (fun k hk k' hk' h => ?_) (nodup_displaced st key size)
      obtain ⟨ke, hke, rfl⟩ := List.mem_map.mp hk
      obtain ⟨ke', hke', rfl⟩ := List.mem_map.mp hk'
      exact hnames _ (huse ke hke) _ (huse ke' hke') h
    rwa [List.map_map] at hapart

end names

/-- Where the keys in use have different directory names, every operation is clear. -/
theorem clear_of_injective {used : List String}
    (hnames : ∀ k ∈ used, ∀ k' ∈ used, urlSafeKey k = urlSafeKey k' → k = k')
    (tidy : s.store.Tidy) (hheld : ∀ k, (s.store.held k).isSome = true → k ∈ used)
    (hused : ∀ key ∈ a.2.key?, key ∈ used) : s.store.Clear a.1 a.2 := by
  obtain ⟨now, op⟩ := a
  cases op with
  | get key =>
      intro hhot c hc
      have hkey := hused key rfl
      exact ⟨owner_of_injective hnames tidy hheld hkey (Dict.get?_eq_some.mp hc) rfl,
        fun _ => separate_of_injective hnames tidy hheld hkey _⟩
  | put key e => exact separate_of_injective hnames tidy hheld (hused key rfl) _
  | delete key =>
      exact fun d hd hname => owner_of_injective hnames tidy hheld (hused key rfl) hd hname
  | deleteByPrefix keyPrefix => trivial
  | keys => trivial

/-- What a session whose keys have different directory names keeps. -/
structure Refines (used : List String) (s : Session β) : Prop where
  tidy : s.store.Tidy
  mirrors : s.Mirrors
  used : ∀ k ∈ s.map.keys, k ∈ used

theorem Refines.clear {used : List String} (h : Refines used s)
    (hnames : ∀ k ∈ used, ∀ k' ∈ used, urlSafeKey k = urlSafeKey k' → k = k')
    (hused : ∀ key ∈ a.2.key?, key ∈ used) : s.store.Clear a.1 a.2 := by
  refine clear_of_injective hnames h.tidy (fun k hk => h.used k ?_) hused
  rw [h.mirrors.held_isSome] at hk
  by_contra hnot
  rw [Dict.get?_eq_none.mpr hnot] at hk
  cases hk

/-- A map gains no key but the one that is put. -/
theorem mem_keys_apply {m : Dict String (CacheEntry β)} {op : StoreOp β} {k : String}
    (h : k ∈ (op.apply m).keys) : k ∈ m.keys ∨ op.key? = some k := by
  by_contra hnot
  rw [not_or] at hnot
  obtain ⟨hold, hkey⟩ := hnot
  have hnone := Dict.get?_eq_none.mpr hold
  refine Dict.get?_eq_none.mp ?_ h
  cases op with
  | get key => exact hnone
  | put key e =>
      show (m.set key e).get? k = none
      rw [Dict.get?_set, if_neg fun hk => hkey (by rw [hk]; rfl), hnone]
  | delete key =>
      show (m.erase key).get? k = none
      rw [Dict.get?_erase, hnone, ite_self]
  | deleteByPrefix keyPrefix =>
      show (m.filter _).get? k = none
      rw [Dict.get?_filter, hnone, ite_self]
  | keys => exact hnone

theorem refines_step {used : List String}
    (hnames : ∀ k ∈ used, ∀ k' ∈ used, urlSafeKey k = urlSafeKey k' → k = k')
    (h : Refines used s) (fresh : s.Unexpired a) (hused : ∀ key ∈ a.2.key?, key ∈ used)
    (hstep : s.step a = some s') : Refines used s' := by
  have hmirrors := mirrors_step h.tidy h.mirrors (h.clear hnames hused) fresh hstep
  obtain ⟨-, rfl⟩ := step_eq_some.mp hstep
  refine ⟨tidy_perform h.tidy a.1 a.2, hmirrors, fun k hk => ?_⟩
  rcases mem_keys_apply hk with hold | hkey
  · exact h.used k hold
  · exact hused k hkey

theorem refines_start (hotMaxSizeBytes : Int) (used : List String) :
    Refines used (start hotMaxSizeBytes : Session β) where
  tidy := ⟨fun _ _ h => (by cases h), fun _ _ h => (by cases h), rfl⟩
  mirrors := fun _ => rfl
  used := fun _ h => by cases h

theorem Tidy.atRest {st : TieredCacheStore β} (tidy : st.Tidy) : st.AtRest := by
  refine ⟨fun key hkey d hd howner => ?_, tidy.flushed⟩
  have habsent := (tidy.of_mem_cold hd).2.2
  rw [show d.2.owner = key from howner] at habsent
  exact Dict.get?_eq_none.mp habsent hkey

/--
**The tiered store refines a map.**  In every session, with any capacity and any sizes,
over keys with different directory names and with nothing expiring: between two
operations no key is in both tiers and no demotion is pending, and every operation
answers as the map would that the operations before it describe.
-/
theorem refines_map (hotMaxSizeBytes : Int) (p : List (Time × StoreOp β))
    (hnames : ∀ k ∈ keysOf p, ∀ k' ∈ keysOf p, urlSafeKey k = urlSafeKey k' → k = k')
    (hfresh : Lts.EachStep step Unexpired (start hotMaxSizeBytes) p) :
    Lts.Always step (fun s : Session β => s.store.AtRest) (start hotMaxSizeBytes) p ∧
    Lts.EachStep step (fun s a => a.2.Answers s.map (s.store.perform a.1 a.2).1)
      (start hotMaxSizeBytes) p := by
  have hused : Lts.EachStep step
      (fun (_ : Session β) (a : Time × StoreOp β) => ∀ key ∈ a.2.key?, key ∈ keysOf p)
      (start hotMaxSizeBytes) p :=
    Lts.eachStep_of_forall fun a ha key hkey => mem_keysOf ha hkey
  have hkept := Lts.always_of_guarded (I := Refines (keysOf p))
    (fun s a s' h hc hstep => refines_step hnames h hc.1 hc.2 hstep) p
    (refines_start hotMaxSizeBytes (keysOf p)) (hfresh.and hused)
  refine ⟨hkept.mono fun s h => Tidy.atRest h.tidy, ?_⟩
  refine (hkept.eachStep.and (hfresh.and hused)).mono fun s a h => ?_
  exact answers_of_clear h.1.tidy h.1.mirrors (h.1.clear hnames h.2.2) h.2.1

/-- An entry of size one whose body is a number. -/
def sampleEntry (body : Nat) : CacheEntry Nat where
  content := body
  headers := ∅
  etag := none
  createdAt := 0
  ttl := 60
  lastAccessed := 0
  size := 1
  statusCode := 200

/-- The second entry makes the first go to the cold tier, and the read takes it back. -/
def promoting : List (Time × StoreOp Nat) :=
  [(1, .put "GET:a" (sampleEntry 7)), (2, .put "GET:b" (sampleEntry 8)), (3, .get "GET:a"),
    (4, .delete "GET:b"), (5, .keys)]

theorem refines_map_promoting :
    let s := Lts.last step (start 1) (promoting.take 2)
    (s.store.perform 3 (.get "GET:a")).1 = .entry (some ((sampleEntry 7).touch 3)) ∧
    Lts.EachStep step (fun s a => a.2.Answers s.map (s.store.perform a.1 a.2).1)
      (start 1) promoting := by
  have hfresh : Lts.checkEach step (fun s a => decide (Unexpired s a)) (start 1) promoting =
      true := by decide +kernel
  refine ⟨by decide +kernel, (refines_map 1 promoting (by decide +kernel) ?_).2⟩
  exact Lts.eachStep_of_check (fun _ _ => of_decide_eq_true) hfresh

end Session

end Cdn

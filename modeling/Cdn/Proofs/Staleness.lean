/-
How old a response may be.

An origin shows a body and a status under a path, and they change.  What the edge returns was
shown at some moment, and the moment cannot lie far back: an answer shows what the path has
shown since its call began, it is filed within the time a call may take, and a hit is served
no longer than the lifetime and the window that the answer granted.  These add up.

One call can fall out of it: a waiter whose leader left nothing finds the entry that both of
them found too old.  And when the breaker turns calls away, entries of any age are served.

What an upstream shows may itself be out of date, by `d`; an origin has `d = 0`.
-/
import Cdn.Lib.Past
import Cdn.Proofs.Age
import Cdn.Proofs.Transparency

namespace Cdn

open Past (Between History)

variable {β : Type} {S : Setup β}

/-- A body and a status. -/
abbrev Shown (β : Type) := β × Int

def CacheEntry.shown (e : CacheEntry β) : Shown β := (e.content, e.statusCode)

def OriginResponse.shown (r : OriginResponse β) : Shown β := (r.content, r.statusCode)

def Response.shown (r : Response β) : Shown β := (r.content, r.statusCode)

@[simp] theorem CacheEntry.shown_core (e : CacheEntry β) : e.core.shown = e.shown := rfl

/-- The breaker had no call made, and answered for the origin. -/
def Reply.turnedAway : Reply β → Bool
  | .openStale _ | .openEmpty | .rejectedStale _ | .rejectedEmpty => true
  | _ => false

theorem Reply.turnedAway_ofOpen (cached : Option (CacheEntry β)) :
    (Reply.ofOpen cached).turnedAway = true := by cases cached <;> rfl

theorem Reply.turnedAway_ofRejected (cached : Option (CacheEntry β)) :
    (Reply.ofRejected cached).turnedAway = true := by cases cached <;> rfl

/-- What an answer shows of its path; where it refreshes an entry, that is what the entry
shows. -/
def Call.told (call : Call β) (r : OriginResponse β) : Shown β :=
  match if cacheable r then call.refreshes? r else none with
  | some e => e.shown
  | none => r.shown

/-- A response that may be stored may be served for so long at most. -/
def Grants (S : Setup β) (A : Time) (r : OriginResponse β) : Prop :=
  ∀ d ttl swr, directivesOf r.headers = .ok d → d.effectiveTtl S.defaultTtl = .ok ttl →
    d.effectiveStaleWhileRevalidate = .ok swr → ttl + swr ≤ A

/-- What is made of an answer: a response that shows what the answer tells, and an entry that
does, of this moment, which may be served for as long as the answer grants. -/
theorem told_of_settle {call : Call β} {r : OriginResponse β} {now : Time}
    {filed : Option (String × CacheEntry β)} {response : Response β}
    (h : settle S call r now = .ok (filed, response)) :
    response.shown = call.told r ∧ ∀ k e, filed = some (k, e) →
      e.shown = call.told r ∧ e.createdAt = now ∧
        ∀ A, Grants S A r → e.ttl + e.staleWhileRevalidate ≤ A := by
  obtain ⟨d, hd, ⟨hcache, rfl, rfl⟩ | ⟨hcache, ttl, swr, httl, hswr, rfl, rfl⟩⟩ := settle_eq_ok h
  · have htold : call.told r = r.shown := by simp [Call.told, cacheable_eq hd, hcache]
    exact ⟨htold.symm, fun k e he => by cases he⟩
  · have hgrant : ∀ A, Grants S A r → ttl + swr ≤ A := fun A hA => hA d ttl swr hd httl hswr
    unfold filing Call.told
    rw [cacheable_eq hd, if_pos hcache]
    cases call.refreshes? r with
    | some cached => exact ⟨rfl, fun k e he => by cases he; exact ⟨rfl, rfl, hgrant⟩⟩
    | none => exact ⟨rfl, fun k e he => by cases he; exact ⟨rfl, rfl, hgrant⟩⟩

namespace Edge

variable {H : History Time String (Shown β)} {A d L : Time} {s s' : Edge β} {a : Action β}

/-! ### The conditions -/

/-- An answer shows what the path has shown since its call began, or `d` before. -/
structure Shows (S : Setup β) (H : History Time String (Shown β)) (A d : Time) (now : Time)
    (call : Call β) (r : OriginResponse β) : Prop where
  told : Between H (call.began - d) now call.path (call.told r)
  plain : r.headers.get? "vary" = none
  grants : Grants S A r

/-- The answers of the upstream do. -/
def Truthful (S : Setup β) (H : History Time String (Shown β)) (A d : Time) (s : Edge β)
    (a : Action β) : Prop :=
  ∀ t r, a = .answer t (.answered r) → ∀ τ ∈ s.tasks[t]?, Shows S H A d s.wall τ.call r

/-- A call that goes on with an answer has taken `L` at most. -/
def Timely (L : Time) (s : Edge β) (a : Action β) : Prop :=
  ∀ t call role r, a = .resume t →
    s.tasks[t]? = some ⟨call, .fetching role (some (.answered r))⟩ → s.wall ≤ call.began + L

/-- The clock is not set back. -/
def Forward (s : Edge β) (a : Action β) : Prop :=
  ∀ wall mono, a = .tick wall mono → s.wall ≤ wall

/-! ### The clock -/

theorem Move.wall {m : Edge β} (h : Move S s a m) :
    m.wall = s.wall ∨ ∃ wall mono, a = .tick wall mono ∧ m.wall = wall := by
  have hconclude : ∀ (u : Edge β) t role call (result : Except Exn (Reply β)),
      (u.conclude t role call result).wall = u.wall := by
    intro u t role call result
    cases role <;> rfl
  cases h with
  | ticked hmono => exact Or.inr ⟨_, _, rfl, rfl⟩
  | refused => exact Or.inl (hconclude ..)
  | revalidationRefused => exact Or.inl (hconclude ..)
  | retryRefused => exact Or.inl (hconclude ..)
  | unsettled => exact Or.inl (hconclude ..)
  | failed => exact Or.inl (hconclude ..)
  | cancelledFetching => exact Or.inl (hconclude ..)
  | @settled t call role r filed response ht hsettle =>
      refine Or.inl ((hconclude ..).trans ?_)
      cases filed <;> rfl
  | _ => exact Or.inl rfl

theorem wall_le_of_step (hstep : s.step S a = some s') (hforward : Forward s a) :
    s.wall ≤ s'.wall := by
  obtain ⟨m, hmove, rfl⟩ := move_of_step hstep
  show s.wall ≤ m.wall
  rcases hmove.wall with h | ⟨wall, mono, ha, h⟩
  · exact h.ge
  · exact h ▸ hforward wall mono ha

/-! ### One key, one path -/

/-- Calls have the keys of their requests, and no two for different paths have one key. -/
structure Separated (S : Setup β) (s : Edge β) : Prop where
  keyed : Keyed S s
  separate : ∀ call ∈ s.calls, ∀ call' ∈ s.calls, call.key = call'.key → call.path = call'.path

theorem Separated.path_of_key (h : Separated S s) {path : String} {rh : Option Headers}
    (hforge : Unforged S s (.arrive path rh)) {call : Call β} (hcall : call ∈ s.calls)
    (hkey : call.key = keyOf S path rh) : call.path = path := by
  by_contra hne
  rw [h.keyed call hcall, keyOf_eq_iff S _ _ hne] at hkey
  obtain ⟨h1, h2⟩ := hforge call hcall
  exact hkey.elim h2 h1

theorem separated_start (store : LruCacheStore β) (breaker : CircuitBreaker) (wall mono : Time) :
    Separated S (start store breaker wall mono) where
  keyed := keyed_start _ _ _ _
  separate := fun call hcall => by cases hcall

theorem separated_step (h : Separated S s) (hstep : s.step S a = some s')
    (hforge : Unforged S s a) : Separated S s' := by
  refine ⟨keyed_step h.keyed hstep, fun call hcall call' hcall' hkey => ?_⟩
  rcases (extends_step hstep).cases hcall with hcall | ⟨path, rh, rfl, rfl⟩ <;>
    rcases (extends_step hstep).cases hcall' with hcall' | ⟨path', rh', ha, rfl⟩
  · exact h.separate call hcall call' hcall' hkey
  · subst ha
    exact h.path_of_key hforge hcall hkey
  · exact (h.path_of_key hforge hcall' hkey.symm).symm
  · cases ha
    rfl

/-! ### The invariant -/

/-- What holds of one task: an answer it goes on with shows what it should, and what it has
returned was shown, not too long before it began. -/
structure TaskDated (S : Setup β) (H : History Time String (Shown β)) (A d L : Time) (now : Time)
    (τ : Task β) : Prop where
  began : τ.call.began ≤ now
  pending : ∀ r, τ.answer? = some r → Shows S H A d now τ.call r
  returned : ∀ reply, τ.phase = .returned reply → reply.turnedAway = false → ¬ τ.ServedOverAge →
    Between H (τ.call.began - (A + d + L)) now τ.call.path (reply.response S).shown

/-- What holds of an entry under a key: it was shown not too long before it was made. -/
structure EntryDated (H : History Time String (Shown β)) (A d L : Time) (s : Edge β) (k : String)
    (e : CacheEntry β) : Prop where
  granted : e.ttl + e.staleWhileRevalidate ≤ A
  past : e.createdAt ≤ s.wall
  shown : ∃ call ∈ s.calls, call.key = k ∧
    Between H (e.createdAt - (d + L)) e.createdAt call.path e.shown

structure Dated (S : Setup β) (H : History Time String (Shown β)) (A d L : Time) (s : Edge β) :
    Prop where
  age : s.AgeOk
  separated : Separated S s
  tasks : ∀ τ ∈ s.tasks, TaskDated S H A d L s.wall τ
  entries : ∀ k e, s.entry k = some e → EntryDated H A d L s k e
  /-- An entry that a waiter may find is the one it has read, or has been filed since. -/
  waiters : ∀ τ ∈ s.tasks, ∀ event, τ.phase = .waiting event → ∀ e,
    s.entry τ.call.key = some e → τ.call.cached.map (·.core) = some e ∨ τ.call.began ≤ e.createdAt

theorem dated_start (maxSizeBytes : Int) (breaker : CircuitBreaker) (wall mono : Time) :
    Dated S H A d L (start { maxSizeBytes } breaker wall mono) where
  age := ageOk_start maxSizeBytes breaker wall mono
  separated := separated_start _ _ _ _
  tasks := fun τ hτ => by cases hτ
  entries := fun k e he => by cases he
  waiters := fun τ hτ => by cases hτ

theorem TaskDated.mono {now now' : Time} {τ : Task β} (h : TaskDated S H A d L now τ)
    (hle : now ≤ now') : TaskDated S H A d L now' τ where
  began := h.began.trans hle
  pending := fun r hr =>
    { told := (h.pending r hr).told.widen le_rfl hle
      plain := (h.pending r hr).plain
      grants := (h.pending r hr).grants }
  returned := fun reply hphase haway hover => (h.returned reply hphase haway hover).widen le_rfl hle

/-- A task that has neither an answer to go on with nor a reply. -/
theorem taskDated_idle {now : Time} {call : Call β} {phase : Phase β} (hbegan : call.began ≤ now)
    (hpending : Task.answer? ⟨call, phase⟩ = none) (hreturned : ∀ reply, phase ≠ .returned reply) :
    TaskDated S H A d L now ⟨call, phase⟩ where
  began := hbegan
  pending := fun r hr => by rw [hpending] at hr; cases hr
  returned := fun reply hphase => absurd hphase (hreturned reply)

theorem taskDated_returned {now : Time} {call : Call β} {reply : Reply β}
    (hbegan : call.began ≤ now)
    (hreply : reply.turnedAway = false → ¬ Task.ServedOverAge ⟨call, .returned reply⟩ →
      Between H (call.began - (A + d + L)) now call.path (reply.response S).shown) :
    TaskDated S H A d L now ⟨call, .returned reply⟩ where
  began := hbegan
  pending := fun r hr => by cases hr
  returned := fun reply' hphase haway hover => by cases hphase; exact hreply haway hover

/-- An entry under the key of a request was shown under its path. -/
theorem Dated.entry_shown (dated : Dated S H A d L s) {path : String} {rh : Option Headers}
    (hforge : Unforged S s (.arrive path rh)) {e : CacheEntry β}
    (he : s.entry (keyOf S path rh) = some e) :
    Between H (e.createdAt - (d + L)) e.createdAt path e.shown := by
  obtain ⟨call, hcall, hkey, hshown⟩ := (dated.entries _ e he).shown
  rwa [dated.separated.path_of_key hforge hcall hkey] at hshown

/-- What a call is served that arrives: an entry that may be served no longer than granted. -/
theorem Dated.hit (dated : Dated S H A d L s) {path : String} {rh : Option Headers}
    (hforge : Unforged S s (.arrive path rh)) {e : CacheEntry β}
    (hcached : (s.arrival S path rh).cached = some e)
    (hage : s.wall - e.createdAt ≤ e.ttl + e.staleWhileRevalidate) :
    Between H (s.wall - (A + d + L)) s.wall path e.shown := by
  have hentry := entry_of_cached hcached
  have hgranted : e.ttl + e.staleWhileRevalidate ≤ A := (dated.entries _ _ hentry).granted
  have hpast : e.createdAt ≤ s.wall := (dated.entries _ _ hentry).past
  have hshown : Between H (e.createdAt - (d + L)) e.createdAt path e.shown :=
    dated.entry_shown (e := e.core) hforge hentry
  exact hshown.widen (by linarith) hpast

/-- What a waiter is served that wakes: an entry filed since it began, or the one it has read,
and that was over age. -/
theorem Dated.woken (hA : 0 ≤ A) (dated : Dated S H A d L s) {t : Nat} {call : Call β}
    {event : Nat} {e : CacheEntry β} (ht : s.tasks[t]? = some ⟨call, .waiting event⟩)
    (hfound : s.cacheStore.store.get? call.key = some e) (now : Time)
    (hover : ¬ Task.ServedOverAge ⟨call, .returned (.coalesced (e.touch now))⟩) :
    Between H (call.began - (A + d + L)) s.wall call.path e.shown := by
  have hentry := entry_of_get hfound
  have hmem := List.mem_of_getElem? ht
  rcases dated.waiters _ hmem event rfl e.core hentry with hread | hsince
  · have hmissed : call.Missed call.began := dated.age.missed _ hmem event rfl
    exact absurd ⟨e.touch now, rfl, hread, hmissed.overAge hread⟩ hover
  · obtain ⟨call', hcall', hkey, hshown⟩ := (dated.entries _ _ hentry).shown
    have hpast : e.createdAt ≤ s.wall := (dated.entries _ _ hentry).past
    replace hshown : Between H (e.createdAt - (d + L)) e.createdAt call'.path e.shown := hshown
    replace hsince : call.began ≤ e.createdAt := hsince
    rw [dated.separated.separate call' hcall' call (mem_calls ht) hkey] at hshown
    exact hshown.widen (by linarith) hpast

/-- The tasks a step puts in place are dated. -/
theorem Dated.placed (hA : 0 ≤ A) (dated : Dated S H A d L s) (htruth : Truthful S H A d s a)
    (htimely : Timely L s a) (hforge : Unforged S s a) {t : Nat} {τ : Task β}
    (h : Placed S s a t τ) : TaskDated S H A d L s.wall τ := by
  have hold : ∀ {t : Nat} {call : Call β} {phase : Phase β},
      s.tasks[t]? = some ⟨call, phase⟩ → TaskDated S H A d L s.wall ⟨call, phase⟩ :=
    fun ht => dated.tasks _ (List.mem_of_getElem? ht)
  have hnow : ∀ path rh, (s.arrival S path rh).began ≤ s.wall := fun _ _ => le_rfl
  cases h with
  | fresh ha hnew hcached hfresh =>
      subst ha
      refine taskDated_returned (hnow _ _) fun _ _ => dated.hit hforge hcached ?_
      have hwindow : 0 ≤ (CacheEntry.core _).staleWhileRevalidate :=
        dated.age.window _ _ (entry_of_cached hcached)
      rw [CacheEntry.isExpired, decide_eq_false_iff_not, not_lt] at hfresh
      exact hfresh.trans (le_add_of_nonneg_right hwindow)
  | stale ha hnew hcached hservable =>
      subst ha
      refine taskDated_returned (hnow _ _) fun _ _ => dated.hit hforge hcached ?_
      simp only [CacheEntry.isStaleServable, Bool.and_eq_true, decide_eq_true_eq] at hservable
      exact hservable.2
  | scheduled ha => exact taskDated_idle (hnow _ _) rfl (by simp)
  | @rejected path rh reply ha hnew hmiss hreply =>
      have haway : reply.turnedAway = true := by
        rcases hreply with rfl | rfl
        · exact Reply.turnedAway_ofOpen _
        · exact Reply.turnedAway_ofRejected _
      exact taskDated_returned (hnow _ _) fun hnot => absurd (haway.symm.trans hnot) (by decide)
  | joined ha => exact taskDated_idle (hnow _ _) rfl (by simp)
  | led ha => exact taskDated_idle (hnow _ _) rfl (by simp)
  | @answered call role outcome ha ht =>
      refine ⟨(hold ht).began, fun r hr => ?_, fun reply hphase => by cases hphase⟩
      obtain ⟨role', hphase⟩ := Task.answer?_eq_some.mp hr
      cases hphase
      exact htruth t r ha ⟨call, .fetching role none⟩ ht
  | revalidating ha ht => exact taskDated_idle (hold ht).began rfl (by simp)
  | retried ha ht => exact taskDated_idle (hold ht).began rfl (by simp)
  | coalesced ha ht hset hfound =>
      exact taskDated_returned (hold ht).began fun _ => dated.woken hA ht hfound s.wall
  | @fetched call role r filed response ha ht hsettle =>
      have hshows := (hold ht).pending r rfl
      have hbegan : call.began ≤ s.wall := (hold ht).began
      have hlate := htimely t call role r ha ht
      refine taskDated_returned (hold ht).began fun _ _ => ?_
      rw [Reply.response, (told_of_settle hsettle).1]
      exact hshows.told.widen (by linarith) le_rfl
  | retryRefused ha ht => exact taskDated_idle (hold ht).began rfl (by simp)
  | @ended call phase hcall hphase =>
      have hbegan : call.began ≤ s.wall := by
        cases hcall with
        | arrived ha hnew => exact hnow _ _
        | here ht => exact (hold ht).began
      rcases hphase with rfl | ⟨x, rfl, -⟩
      · exact taskDated_idle hbegan rfl (by simp)
      · exact taskDated_idle hbegan rfl (by simp)

/-- The entries after a step are dated. -/
theorem Dated.entryDated (dated : Dated S H A d L s) (hstep : s.step S a = some s')
    (htimely : Timely L s a) (hforward : Forward s a) :
    ∀ k e, s'.entry k = some e → EntryDated H A d L s' k e := by
  intro k e he
  have hwall := wall_le_of_step hstep hforward
  have hext := extends_step hstep
  obtain ⟨m, hmove, rfl⟩ := move_of_step hstep
  replace he : m.entry k = some e := he
  cases hmove.entryMove k with
  | kept h =>
      obtain ⟨hgranted, hpast, call, hcall, hkey, hshown⟩ := dated.entries k e (h ▸ he)
      exact ⟨hgranted, hpast.trans hwall, call, hext.mem hcall, hkey, hshown⟩
  | lost h => rw [h] at he; cases he
  | filed e' hfiles h =>
      obtain ⟨t, call, role, r, response, ha, ht, hsettle⟩ := hfiles
      have hshows := (dated.tasks _ (List.mem_of_getElem? ht)).pending r rfl
      have hlate := htimely t call role r ha ht
      have hkey := (settled_of_settle hsettle).key hshows.plain
      obtain ⟨hshown, hcreated, hgranted⟩ := (told_of_settle hsettle).2 k e' rfl
      rw [h, Option.some.injEq] at he
      subst he
      refine ⟨hgranted A hshows.grants, hcreated.trans_le hwall, call, hext.mem (mem_calls ht),
        hkey.symm, ?_⟩
      show Between H (e'.createdAt - (d + L)) e'.createdAt call.path e'.shown
      rw [hshown, hcreated]
      exact hshows.told.widen (by linarith) le_rfl

/-- A waiter finds what it has read, or what has been filed since. -/
theorem Dated.waits (dated : Dated S H A d L s) (hstep : s.step S a = some s') :
    ∀ τ ∈ s'.tasks, ∀ event, τ.phase = .waiting event → ∀ e, s'.entry τ.call.key = some e →
      τ.call.cached.map (·.core) = some e ∨ τ.call.began ≤ e.createdAt := by
  have hentry : ∀ k e, s'.entry k = some e → s.entry k = some e ∨
      ((∃ t, a = .resume t) ∧ e.createdAt = s.wall) := by
    intro k e he
    obtain ⟨m, hmove, rfl⟩ := move_of_step hstep
    replace he : m.entry k = some e := he
    cases hmove.entryMove k with
    | kept h => exact Or.inl (h ▸ he)
    | lost h => rw [h] at he; cases he
    | filed e' hfiles h =>
        obtain ⟨t, call, role, r, response, ha, ht, hsettle⟩ := hfiles
        obtain ⟨-, hcreated, -⟩ := (told_of_settle hsettle).2 k e' rfl
        rw [h, Option.some.injEq] at he
        exact Or.inr ⟨⟨t, ha⟩, he ▸ hcreated⟩
  refine forall_placed hstep (fun τ hτ event hphase e he => ?_) fun t τ hτ event hphase e he => ?_
  · rcases hentry _ e he with he | ⟨-, hcreated⟩
    · exact dated.waiters τ hτ event hphase e he
    · exact Or.inr (hcreated ▸ (dated.tasks τ hτ).began)
  · cases hτ with
    | @joined path rh event ha hnew hmiss hlisted =>
        rcases hentry _ e he with he | ⟨⟨u, hresume⟩, -⟩
        · exact Or.inl ((arrival_entry s path rh).trans he)
        · rw [ha] at hresume
          cases hresume
    | ended hcall hend => rcases hend with rfl | ⟨x, rfl, -⟩ <;> cases hphase
    | _ => cases hphase

theorem dated_step (hA : 0 ≤ A) (dated : Dated S H A d L s) (hstep : s.step S a = some s')
    (htruth : Truthful S H A d s a) (htimely : Timely L s a) (hforward : Forward s a)
    (hforge : Unforged S s a) : Dated S H A d L s' where
  age := ageOk_step s a s' dated.age hstep
  separated := separated_step dated.separated hstep hforge
  tasks := by
    have hwall := wall_le_of_step hstep hforward
    exact forall_placed hstep (fun τ hτ => (dated.tasks τ hτ).mono hwall)
      fun t τ hτ => (dated.placed hA htruth htimely hforge hτ).mono hwall
  entries := dated.entryDated hstep htimely hforward
  waiters := dated.waits hstep

/-- **How old a response may be.**  Where an answer grants no more than `A`, shows nothing from
more than `d` before its call began, and calls take no more than `L`, then in every run a
response was shown under its path no more than the sum of the three before its call began:
unless the breaker turned the call away, or a waiter was served the entry that it had found too
old. -/
theorem shown_of_run (hA : 0 ≤ A) (maxSizeBytes : Int) (breaker : CircuitBreaker)
    (wall mono : Time) (p : List (Action β)) (s : Edge β)
    (hsteps : Lts.EachStep (step S)
      (fun s a => Truthful S H A d s a ∧ Timely L s a ∧ Forward s a ∧ Unforged S s a)
      (start { maxSizeBytes } breaker wall mono) p)
    (hrun : Lts.run (step S) (start { maxSizeBytes } breaker wall mono) p = some s) :
    ∀ τ ∈ s.tasks, ∀ reply, τ.phase = .returned reply → reply.turnedAway = false →
      ¬ τ.ServedOverAge →
      Between H (τ.call.began - (A + d + L)) s.wall τ.call.path (reply.response S).shown := by
  have dated : Dated S H A d L s :=
    Lts.run_guarded (I := Dated S H A d L)
      (fun s a s' dated hcond hstep =>
        dated_step hA dated hstep hcond.1 hcond.2.1 hcond.2.2.1 hcond.2.2.2)
      p (dated_start maxSizeBytes breaker wall mono) hsteps hrun
  exact fun τ hτ => (dated.tasks τ hτ).returned

/-! ### A page that changes -/

/-- The page shows 1, and from the fifth second on 2. -/
def changingPage : History Time String (Shown Nat) := fun t _ v => v = (if t < 5 then 1 else 2, 200)

def firstPage : OriginResponse Nat where
  content := 1
  statusCode := 200
  headers := Dict.ofList [("cache-control", "max-age=10")]

/-- The page is fetched, which takes two seconds, and asked for again when it has changed. -/
def askedAfterChange : List (Action Nat) :=
  [.arrive "a" gzip, .answer 0 (.answered firstPage), .tick 2 2, .resume 0, .tick 9 9,
    .arrive "a" gzip]

theorem grants_firstPage : Grants sampleSetup 10 firstPage := by
  intro d ttl swr hd httl hswr
  have hdir : directivesOf firstPage.headers = .ok { maxAge := some 10 } := by decide +kernel
  rw [hdir] at hd
  cases hd
  rw [CacheDirectives.effectiveTtl, if_neg Bool.false_ne_true] at httl
  cases hswr
  rw [float_eq httl]
  norm_num

/-- The entry that was served as fresh. -/
def freshEntry : Phase β → Option (CacheEntry β)
  | .returned (.fresh e) => some e
  | _ => none

theorem freshEntry_eq_some {phase : Phase β} {e : CacheEntry β} :
    freshEntry phase = some e ↔ phase = .returned (.fresh e) := by
  refine ⟨fun h => ?_, fun h => by rw [h]; rfl⟩
  unfold freshEntry at h
  split at h
  · cases h
    rfl
  · cases h

/-- The conditions on a step of it, as far as they compute. -/
def steady (s : Edge Nat) (a : Action Nat) : Bool :=
  (match a with
    | .answer t (.answered r) => s.tasks[t]?.all fun τ =>
        r = firstPage ∧ s.wall = 0 ∧ τ.call.began = 0 ∧ τ.call.told r = (1, 200)
    | .resume t => s.tasks[t]?.all fun τ => s.wall ≤ τ.call.began + 2
    | .tick wall _ => s.wall ≤ wall
    | _ => true) && decide (Unforged sampleSetup s a)

theorem steady_sound {s : Edge Nat} {a : Action Nat} (h : steady s a = true) :
    Truthful sampleSetup changingPage 10 0 s a ∧ Timely 2 s a ∧ Forward s a ∧
      Unforged sampleSetup s a := by
  obtain ⟨hcheck, hforge⟩ := Bool.and_eq_true_iff.mp h
  refine ⟨?_, ?_, ?_, of_decide_eq_true hforge⟩
  · rintro t r rfl τ hτ
    obtain ⟨rfl, hwall, hbegan, htold⟩ := of_decide_eq_true ((Option.all_eq_true _ _).mp hcheck τ hτ)
    refine ⟨⟨0, by simp [hbegan], hwall.ge, ?_⟩, by decide +kernel, grants_firstPage⟩
    rw [htold, changingPage, if_pos (by norm_num)]
  · rintro t call role r rfl ht
    exact of_decide_eq_true ((Option.all_eq_true _ _).mp hcheck _ ht)
  · rintro wall mono rfl
    exact of_decide_eq_true hcheck

/-- Nine seconds on the first page is still served; it was shown within the last twelve. -/
theorem shown_of_run_askedAfterChange : ∃ s, ∃ τ ∈ s.tasks, ∃ e,
    Lts.run (step sampleSetup) sampleStart askedAfterChange = some s ∧
      τ.phase = .returned (.fresh e) ∧ e.shown = (1, 200) ∧
      Between changingPage (τ.call.began - (10 + 0 + 2)) s.wall τ.call.path e.shown := by
  have hrun : (Lts.run (step sampleSetup) sampleStart askedAfterChange).isSome = true := by
    decide +kernel
  have hcheck : Lts.checkEach (step sampleSetup) steady sampleStart askedAfterChange = true := by
    decide +kernel
  have hlast : ((Lts.last (step sampleSetup) sampleStart askedAfterChange).tasks[1]?).any (fun τ =>
      (freshEntry τ.phase).any fun e => e.shown = (1, 200) ∧ ¬ τ.ServedOverAge) = true := by
    decide +kernel
  obtain ⟨τ, hτ, hserved⟩ := (Option.any_eq_true _ _).mp hlast
  obtain ⟨e, he, hchecked⟩ := (Option.any_eq_true _ _).mp hserved
  obtain ⟨hshown, hover⟩ := of_decide_eq_true hchecked
  have hphase := freshEntry_eq_some.mp he
  have hmem := List.mem_of_getElem? hτ
  exact ⟨_, τ, hmem, e, Lts.run_last hrun, hphase, hshown,
    shown_of_run (by norm_num) _ _ _ _ _ _ (Lts.eachStep_of_check (fun _ _ => steady_sound) hcheck)
      (Lts.run_last hrun) τ hmem (.fresh e) hphase rfl hover⟩

end Edge

end Cdn

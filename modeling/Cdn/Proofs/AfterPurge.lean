/-
What a client sees after a purge.

A file is written over, and its keys are purged at an edge.  If no task for its path is under
way then, whatever the edge gets for the path from there on tells of the new file, and the purge
has left nothing in the store that does not.  So nothing else can be read, filed or returned.
No clock comes into it, and no lifetime: what is served stale, or by an open breaker, is new as
well.

The invariant is about one path, and about anything that is to be true of what is shown under
it.  Where nothing is, it says that every entry was filed by a call that has its key; this much
holds before the purge too.
-/
import Cdn.Proofs.UpToDate

namespace Cdn

variable {β : Type} {S : Setup β}

namespace Edge

variable {P : Shown β → Prop} {path : String} {n : Nat} {s s' : Edge β} {a : Action β}

/-! ### The invariant -/

/-- What a task has read, goes on with or has returned satisfies `P`; a 503 of the service's own
is nothing that was shown. -/
structure TaskOnly (S : Setup β) (P : Shown β → Prop) (τ : Task β) : Prop where
  read : ∀ e, τ.call.cached = some e → P e.shown
  pending : ∀ r, τ.answer? = some r → P (τ.call.told r)
  returned : ∀ reply, τ.phase = .returned reply → reply.own = false → P (reply.response S).shown

/-- From task `n` on, only what satisfies `P` is shown under the path. -/
structure Only (S : Setup β) (P : Shown β → Prop) (path : String) (n : Nat) (s : Edge β) :
    Prop where
  separated : Separated S s
  plain : ∀ τ ∈ s.tasks, ∀ r, τ.answer? = some r → r.headers.get? "vary" = none
  grown : n ≤ s.tasks.length
  earlier : ∀ t τ, s.tasks[t]? = some τ → τ.call.path = path → t < n → τ.phase.over = true
  later : ∀ t τ, s.tasks[t]? = some τ → τ.call.path = path → n ≤ t → TaskOnly S P τ
  entries : ∀ k e, s.entry k = some e →
    ∃ call ∈ s.calls, call.key = k ∧ (call.path = path → P e.shown)

/-- An answer sends no Vary, and for the path it tells what satisfies `P`. -/
def Tells (P : Shown β → Prop) (path : String) (s : Edge β) (a : Action β) : Prop :=
  ∀ t r, a = .answer t (.answered r) → ∀ τ ∈ s.tasks[t]?,
    r.headers.get? "vary" = none ∧ (τ.call.path = path → P (τ.call.told r))

theorem only_start (store : LruCacheStore β) (hempty : ∀ k, store.store.get? k = none)
    (breaker : CircuitBreaker) (wall mono : Time) :
    Only S P path 0 (start store breaker wall mono) where
  separated := separated_start store breaker wall mono
  plain := fun τ hτ => by cases hτ
  grown := le_rfl
  earlier := fun t τ ht => by cases ht
  later := fun t τ ht => by cases ht
  entries := fun k e he => by
    obtain ⟨e', he', -⟩ := Option.map_eq_some_iff.mp he
    rw [show (start store breaker wall mono).cacheStore = store from rfl, hempty] at he'
    cases he'

/-! ### What a call of the path finds -/

/-- An entry under the key of a call of the path. -/
theorem Only.found (only : Only S P path n s) {call : Call β} (hcall : call ∈ s.calls)
    (hpath : call.path = path) {e : CacheEntry β} (he : s.entry call.key = some e) :
    P e.shown := by
  obtain ⟨call', hcall', hkey, hshown⟩ := only.entries _ e he
  exact hshown ((only.separated.separate call' hcall' call hcall hkey).trans hpath)

/-- An entry that a request for the path reads. -/
theorem Only.read (only : Only S P path n s) {rh : Option Headers}
    (hforge : Unforged S s (.arrive path rh)) {e : CacheEntry β}
    (hcached : (s.arrival S path rh).cached = some e) : P e.shown := by
  obtain ⟨call, hcall, hkey, hshown⟩ := only.entries _ e.core (entry_of_cached hcached)
  exact hshown (only.separated.path_of_key hforge hcall hkey)

theorem taskOnly_idle {call : Call β} {phase : Phase β}
    (hread : ∀ e, call.cached = some e → P e.shown)
    (hpending : Task.answer? ⟨call, phase⟩ = none) (hreturned : ∀ reply, phase ≠ .returned reply) :
    TaskOnly S P ⟨call, phase⟩ where
  read := hread
  pending := fun r hr => by rw [hpending] at hr; cases hr
  returned := fun reply hphase => absurd hphase (hreturned reply)

theorem taskOnly_returned {call : Call β} {reply : Reply β}
    (hread : ∀ e, call.cached = some e → P e.shown)
    (hreply : reply.own = false → P (reply.response S).shown) :
    TaskOnly S P ⟨call, .returned reply⟩ where
  read := hread
  pending := fun r hr => by cases hr
  returned := fun reply' hphase hown => by cases hphase; exact hreply hown

/-! ### A step -/

/-- A task that a step puts in place is new, or it was under way, or it is over. -/
theorem Placed.over_or {t : Nat} {τ : Task β} (h : Placed S s a t τ) :
    s.tasks.length ≤ t ∨ τ.phase.over = true ∨
      ∃ phase, s.tasks[t]? = some ⟨τ.call, phase⟩ ∧ phase.over = false := by
  cases h with
  | fresh ha hnew => exact Or.inl hnew
  | stale ha hnew => exact Or.inl hnew
  | scheduled ha hnew => exact Or.inl hnew
  | rejected ha hnew => exact Or.inl hnew
  | joined ha hnew => exact Or.inl hnew
  | led ha hnew => exact Or.inl hnew
  | answered ha ht => exact Or.inr (Or.inr ⟨_, ht, rfl⟩)
  | revalidating ha ht => exact Or.inr (Or.inr ⟨_, ht, rfl⟩)
  | retried ha ht => exact Or.inr (Or.inr ⟨_, ht, rfl⟩)
  | coalesced => exact Or.inr (Or.inl rfl)
  | fetched => exact Or.inr (Or.inl rfl)
  | retryRefused => exact Or.inr (Or.inl rfl)
  | ended hcall hphase => rcases hphase with rfl | ⟨x, rfl, -⟩ <;> exact Or.inr (Or.inl rfl)

/-- A task of the path that is put in place shows what it should, where the one before did. -/
theorem Only.placed (only : Only S P path n s) (htells : Tells P path s a)
    (hforge : Unforged S s a) {t : Nat} {τ : Task β} (h : Placed S s a t τ)
    (hpath : τ.call.path = path) (hlater : n ≤ t) : TaskOnly S P τ := by
  have hold : ∀ {call : Call β} {phase : Phase β}, s.tasks[t]? = some ⟨call, phase⟩ →
      call.path = path → TaskOnly S P ⟨call, phase⟩ :=
    fun ht hcall => only.later t _ ht hcall hlater
  have hread : ∀ {path' : String} {rh : Option Headers}, a = .arrive path' rh → path' = path →
      ∀ e, (s.arrival S path' rh).cached = some e → P e.shown := by
    rintro path' rh rfl rfl e he
    exact only.read hforge he
  cases h with
  | fresh ha hnew hcached hfresh =>
      exact taskOnly_returned (hread ha hpath) fun _ => hread ha hpath _ hcached
  | stale ha hnew hcached hservable =>
      exact taskOnly_returned (hread ha hpath) fun _ => hread ha hpath _ hcached
  | scheduled ha => exact taskOnly_idle (hread ha hpath) rfl (by simp)
  | @rejected path' rh reply ha hnew hmiss hreply =>
      have hentry := hread ha hpath
      refine taskOnly_returned hentry fun hown => ?_
      cases hcached : (s.arrival S path' rh).cached with
      | none => rw [hcached] at hreply; rcases hreply with rfl | rfl <;> cases hown
      | some e => rw [hcached] at hreply; rcases hreply with rfl | rfl <;> exact hentry e hcached
  | joined ha => exact taskOnly_idle (hread ha hpath) rfl (by simp)
  | led ha => exact taskOnly_idle (hread ha hpath) rfl (by simp)
  | @answered call role outcome ha ht =>
      refine ⟨(hold ht hpath).read, fun r hr => ?_, fun reply hphase => by cases hphase⟩
      obtain ⟨role', hphase⟩ := Task.answer?_eq_some.mp hr
      cases hphase
      exact (htells t r ha _ ht).2 hpath
  | revalidating ha ht => exact taskOnly_idle (hold ht hpath).read rfl (by simp)
  | retried ha ht => exact taskOnly_idle (hold ht hpath).read rfl (by simp)
  | @coalesced call event e ha ht hset hfound =>
      refine taskOnly_returned (hold ht hpath).read fun _ => ?_
      exact only.found (e := e.core) (mem_calls ht) hpath (entry_of_get hfound)
  | fetched ha ht hsettle =>
      refine taskOnly_returned (hold ht hpath).read fun _ => ?_
      rw [Reply.response, (told_of_settle hsettle).1]
      exact (hold ht hpath).pending _ rfl
  | retryRefused ha ht => exact taskOnly_idle (hold ht hpath).read rfl (by simp)
  | @ended call phase hcall hphase =>
      have hcached : ∀ e, call.cached = some e → P e.shown := by
        cases hcall with
        | arrived ha hnew => exact hread ha hpath
        | here ht => exact (hold ht hpath).read
      rcases hphase with rfl | ⟨x, rfl, -⟩ <;> exact taskOnly_idle hcached rfl (by simp)

theorem only_step (only : Only S P path n s) (htells : Tells P path s a) (hforge : Unforged S s a)
    (hstep : s.step S a = some s') : Only S P path n s' := by
  have hext := extends_step hstep
  refine ⟨separated_step only.separated hstep hforge, ?_, only.grown.trans (length_le_of_step hstep),
    ?_, ?_, fun k e he => ?_⟩
  · refine forall_placed hstep only.plain fun t τ hτ r hr => ?_
    obtain ⟨ha, phase, ht⟩ := hτ.of_answer hr
    exact (htells t r ha _ ht).1
  · refine forall_placedAt hstep only.earlier fun t τ hτ hpath hlt => ?_
    rcases hτ.over_or with hnew | hover | ⟨phase, ht, hlive⟩
    · exact absurd (only.grown.trans hnew) (not_le.mpr hlt)
    · exact hover
    · have hover : phase.over = true := only.earlier t _ ht hpath hlt
      rw [hlive] at hover
      cases hover
  · exact forall_placedAt hstep only.later fun t τ => only.placed htells hforge
  · obtain ⟨m, hmove, rfl⟩ := move_of_step hstep
    replace he : m.entry k = some e := he
    cases hmove.entryMove k with
    | kept h =>
        obtain ⟨call, hcall, hkey, hshown⟩ := only.entries k e (h ▸ he)
        exact ⟨call, hext.mem hcall, hkey, hshown⟩
    | lost h => rw [h] at he; cases he
    | filed e' hfiles h =>
        obtain ⟨t, call, role, r, response, ha, ht, hsettle⟩ := hfiles
        rw [h, Option.some.injEq] at he
        subst he
        have hvary := only.plain _ (List.mem_of_getElem? ht) r rfl
        have hkey := (settled_of_settle hsettle).key hvary
        refine ⟨call, hext.mem (mem_calls ht), hkey.symm, fun hpath => ?_⟩
        rw [CacheEntry.shown_core, ((told_of_settle hsettle).2 k e' rfl).1]
        -- a task that was there before does not file any more
        rcases Nat.lt_or_ge t n with hlt | hge
        · cases only.earlier t _ ht hpath hlt
        · exact (only.later t _ ht hpath hge).pending r rfl

/-- **A purge of the path while no task for it is under way.**  What is left in the store is of
other paths, and from here on anything may be asked of what is shown under this one. -/
theorem Only.purged {P' : Shown β → Prop} (only : Only S P' path 0 s) {url keyPrefix : Option String}
    (hcovers : ∀ rh, covers url keyPrefix (keyOf S path rh) = true)
    (hidle : ∀ τ ∈ s.tasks, τ.call.path = path → τ.phase.over = true)
    (hpurge : s.step S (.purge url keyPrefix) = some s') :
    Only S P path s.tasks.length s' := by
  cases hpurge
  refine ⟨⟨only.separated.keyed, only.separated.separate⟩, only.plain, le_rfl,
    fun t τ ht hpath hlt => hidle τ (List.mem_of_getElem? ht) hpath, fun t τ ht hpath hge => ?_,
    fun k e he => ?_⟩
  · replace ht : s.tasks[t]? = some τ := ht
    have hlt := (List.getElem?_eq_some_iff.mp ht).1
    exact absurd hge (not_le.mpr hlt)
  · replace he : (s.purge url keyPrefix).entry k = some e := he
    rw [entry_purge] at he
    split at he
    · cases he
    · rename_i hleft
      obtain ⟨call, hcall, hkey, -⟩ := only.entries k e he
      refine ⟨call, hcall, hkey, fun hpath => absurd ?_ hleft⟩
      rw [← hkey, only.separated.keyed call hcall, hpath]
      exact hcovers call.requestHeaders

/-- A purge by the prefix that the keys of a path have in common covers them. -/
theorem covers_keyOf (S : Setup β) (path : String) (rh : Option Headers) :
    covers none (some ("GET:" ++ path)) (keyOf S path rh) = true := by
  have hne : "GET:" ++ path ≠ "" := by
    intro h
    have hlist := congrArg String.toList h
    rw [String.toList_append] at hlist
    exact absurd hlist (by simp)
  rw [covers, given_none, given_some hne, List.isPrefixOf_iff_prefix, keyOf_eq]
  exact ⟨(varyPart S rh).toList, String.toList_append.symm⟩

end Edge

/-! ### An edge and its origin -/

namespace Deployment

variable {D : Setup} {path : String} {n : Nat} {P : Shown Bytes → Prop} {s s' : Deployment}
  {a : Action}

/-- The calls have read what is tagged, and under the path only what satisfies `P` is shown. -/
structure Since (D : Setup) (P : Shown Bytes → Prop) (path : String) (n : Nat) (s : Deployment) :
    Prop where
  sourced : Edge.Sourced (Tagged D.origin.md5) D.service s.edge
  only : Edge.Only D.service P path n s.edge

theorem since_start (maxSizeBytes : Int) (breaker : CircuitBreaker) (wall mono : Time)
    (files : Files) : Since D P path 0 (start maxSizeBytes breaker wall mono files) where
  sourced := Edge.sourced_start maxSizeBytes breaker wall mono
  only := Edge.only_start { maxSizeBytes } (fun _ => rfl) breaker wall mono

/-- A step keeps it, where whatever stands in the files satisfies `P`. -/
theorem since_step (hinj : Function.Injective D.origin.md5)
    (hhex : ∀ content, '"' ∉ (D.origin.md5 content).toList) (since : Since D P path n s)
    (hnow : ∀ v, Stands D s.files path v → P v)
    (hmeets : Meets D (Edge.Unforged D.service) s a) (hstep : s.step D a = some s') :
    Since D P path n s' := by
  rcases step_cases hstep with ⟨b, hseen, hedge, -⟩ | ⟨hedge, -⟩
  · have htells : Edge.Tells P path s.edge b := by
      rintro t r rfl τ hτ
      obtain ⟨hstands, hvary, -⟩ := hseen.stands hinj hhex (read_of_sourced since.sourced) hτ
      exact ⟨hvary, fun hpath => hnow _ (hpath ▸ hstands)⟩
    exact ⟨Edge.sourced_step since.sourced hseen.supplies hedge,
      Edge.only_step since.only htells (hmeets b hseen) hedge⟩
  · exact ⟨hedge ▸ since.sourced, hedge ▸ since.only⟩

/-- **What is returned after a purge has stood in the files since.**  If a purge covers every key
of a path while no task for the path is under way, then a call for the path that comes after it
returns what stands in the files at a moment after it, or a 503 of the service's own. -/
theorem stood_since_purge (D : Setup) (hinj : Function.Injective D.origin.md5)
    (hhex : ∀ content, '"' ∉ (D.origin.md5 content).toList) (maxSizeBytes : Int)
    (breaker : CircuitBreaker) (wall mono : Time) (files : Files) (path : String)
    (url keyPrefix : Option String)
    (hcovers : ∀ rh, covers url keyPrefix (keyOf D.service path rh) = true)
    (before after : List Action) (s₀ s₁ s₂ : Deployment)
    (hbefore : Lts.EachStep (step D) (Meets D (Edge.Unforged D.service))
      (start maxSizeBytes breaker wall mono files) before)
    (hrun₀ : Lts.run (step D) (start maxSizeBytes breaker wall mono files) before = some s₀)
    (hidle : ∀ τ ∈ s₀.edge.tasks, τ.call.path = path → τ.phase.over = true)
    (hpurge : s₀.step D (.edge (.purge url keyPrefix)) = some s₁)
    (hafter : Lts.EachStep (step D) (Meets D (Edge.Unforged D.service)) s₁ after)
    (hrun : Lts.run (step D) s₁ after = some s₂) :
    ∀ t τ reply, s₂.edge.tasks[t]? = some τ → s₀.edge.tasks.length ≤ t → τ.call.path = path →
      τ.phase = .returned reply → reply.own = false →
      ∃ u, Lts.Visits (step D) s₁ after u ∧
        Stands D u.files path (reply.response D.service).shown := by
  let P : Shown Bytes → Prop := fun v =>
    ∃ u, Lts.Visits (step D) s₁ after u ∧ Stands D u.files path v
  have since₀ : Since D (fun _ => True) path 0 s₀ :=
    Lts.run_guarded (I := Since D (fun _ => True) path 0)
      (fun s a s' since hmeets hstep =>
        since_step hinj hhex since (fun _ _ => trivial) hmeets hstep) before
      (since_start maxSizeBytes breaker wall mono files) hbefore hrun₀
  have since₁ : Since D P path s₀.edge.tasks.length s₁ := by
    obtain ⟨hedge, -⟩ := take_eq_some hpurge
    exact ⟨Edge.sourced_step since₀.sourced (fun t r h => by cases h) hedge,
      since₀.only.purged hcovers hidle hedge⟩
  have since₂ : Since D P path s₀.edge.tasks.length s₂ :=
    Lts.run_guarded (I := Since D P path s₀.edge.tasks.length)
      (fun s a s' since hcond hstep =>
        since_step hinj hhex since (fun v hv => ⟨s, hcond.1, hv⟩) hcond.2 hstep) after
      since₁ ((Lts.eachStep_visits s₁ after).and hafter) hrun
  intro t τ reply ht hlater hpath hphase hown
  exact (since₂.only.later t τ ht hpath hlater).returned reply hphase hown

/-! ### A file that is written over and purged -/

/-- The file is fetched, and then it is written over. -/
def fetchedAndWritten : List Action :=
  [.edge (.arrive "a" none), .serve 0 [], .edge (.resume 0), .write sampleFile (some (utf8 "2"))]

/-- It is asked for by two clients, one after the other. -/
def askedTwice : List Action :=
  [.edge (.arrive "a" none), .serve 1 [], .edge (.resume 1), .edge (.tick 50 50),
    .edge (.arrive "a" none)]

/-- The second client is served from the cache, and what it is served is new. -/
theorem stood_since_purge_askedTwice : ∃ s₀ s₁ s₂, ∃ τ ∈ s₂.edge.tasks, ∃ e,
    Lts.run (step sampleDeployment) sampleStart fetchedAndWritten = some s₀ ∧
      s₀.step sampleDeployment (.edge (.purge none (some ("GET:" ++ "a")))) = some s₁ ∧
      Lts.run (step sampleDeployment) s₁ askedTwice = some s₂ ∧
      τ.phase = .returned (.fresh e) ∧ e.shown = (utf8 "2", 200) ∧
      ∃ u, Lts.Visits (step sampleDeployment) s₁ askedTwice u ∧
        Stands sampleDeployment u.files "a" e.shown := by
  let purge : Action := .edge (.purge none (some ("GET:" ++ "a")))
  let s₀ := Lts.last (step sampleDeployment) sampleStart fetchedAndWritten
  let s₁ := Lts.last (step sampleDeployment) s₀ [purge]
  let s₂ := Lts.last (step sampleDeployment) s₁ askedTwice
  have hrun₀ : (Lts.run (step sampleDeployment) sampleStart fetchedAndWritten).isSome = true := by
    decide +kernel
  have hrun₂ : (Lts.run (step sampleDeployment) s₁ askedTwice).isSome = true := by decide +kernel
  have hbefore : Lts.checkEach (step sampleDeployment) steady sampleStart fetchedAndWritten =
      true := by decide +kernel
  have hafter : Lts.checkEach (step sampleDeployment) steady s₁ askedTwice = true := by
    decide +kernel
  have hidle : s₀.edge.tasks.all (fun τ => τ.phase.over) = true := by decide +kernel
  have hlength : s₀.edge.tasks.length = 1 := by decide +kernel
  have hlast : (s₂.edge.tasks[2]?).any (fun τ => (Edge.freshEntry τ.phase).any fun e =>
      e.shown = (utf8 "2", 200) ∧ τ.call.path = "a") = true := by decide +kernel
  obtain ⟨τ, hτ, hserved⟩ := (Option.any_eq_true _ _).mp hlast
  obtain ⟨e, he, hchecked⟩ := (Option.any_eq_true _ _).mp hserved
  obtain ⟨hshown, hpath⟩ := of_decide_eq_true hchecked
  have hphase := Edge.freshEntry_eq_some.mp he
  refine ⟨s₀, s₁, s₂, τ, List.mem_of_getElem? hτ, e, Lts.run_last hrun₀, rfl, Lts.run_last hrun₂,
    hphase, hshown, ?_⟩
  exact stood_since_purge sampleDeployment sampleMd5_injective quote_not_mem_sampleMd5 _ _ _ _ _
    "a" none (some ("GET:" ++ "a")) (Edge.covers_keyOf _ "a") fetchedAndWritten askedTwice s₀ s₁ s₂
    (Lts.eachStep_of_check (fun _ _ h b hb => (steady_sound h b hb).2.2) hbefore)
    (Lts.run_last hrun₀) (fun τ hτ _ => List.all_eq_true.mp hidle τ hτ) rfl
    (Lts.eachStep_of_check (fun _ _ h b hb => (steady_sound h b hb).2.2) hafter)
    (Lts.run_last hrun₂) 2 τ (.fresh e) hτ (by rw [hlength]; omega) hpath hphase rfl

end Deployment

end Cdn

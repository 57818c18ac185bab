/-
What a purge does not reach.

A deletion takes an entry out of the store.  A call that is suspended at the time keeps
the entry it has read, and the answer the origin may already have given it, and files
one of them when it goes on: the deletion has no way to tell it not to.  Where no task
does that, every later hit is a body the origin produced after the deletion.

Bodies carry the time of their birth, counted in steps: `born` is a reading of the body
type, and the origin is `Stamped` if each new body it gives reads as the step it gives
it in.
-/
import Cdn.Proofs.Flight
import Cdn.Proofs.Placed

namespace Cdn

variable {β : Type} {S : Setup β} {born : β → Nat} {covered : String → Bool}

namespace Edge

/-- A body the origin gives now is born now; a 304 for an entry the call has read gives
no body. -/
def Stamped (born : β → Nat) (s : Edge β) : Action β → Prop
  | .answer t (.answered r) =>
      ∀ τ ∈ s.tasks[t]?, τ.call.refreshes? r = none → born r.content = s.instant
  | _ => True

/-- A task that was under way at `s₀` does not file, under a key the deletion covers, an
answer it had by then or, on a 304, the entry it had read by then. -/
def NoLateFiling (S : Setup β) (covered : String → Bool) (s₀ s : Edge β) : Action β → Prop
  | .resume t => ∀ τ ∈ s.tasks[t]?, ∀ r ∈ τ.answer?, cacheable r = true →
      covered (τ.call.target S r) = true →
      s₀.tasks[t]?.bind Task.answer? = none ∧
        (t < s₀.tasks.length → τ.call.refreshes? r = none)
  | _ => True

/-- No call that came after `s₀` is served, as a hit under a covered key, a body that the
origin produced before. -/
def NoResurrection (S : Setup β) (born : β → Nat) (covered : String → Bool) (s₀ s : Edge β) :
    Prop :=
  ∀ t τ reply, s.tasks[t]? = some τ → s₀.tasks.length ≤ t → covered τ.call.key = true →
    τ.phase = .returned reply → (reply.response S).cacheHit = true →
    s₀.instant ≤ born (reply.response S).content

/-! ### What holds after the deletion -/

/-- What holds of a task, by its number. -/
structure RenewedTask (S : Setup β) (born : β → Nat) (covered : String → Bool) (s₀ : Edge β)
    (t : Nat) (τ : Task β) : Prop where
  /-- What a later call has read is no older than the deletion. -/
  read : s₀.tasks.length ≤ t → covered τ.call.key = true →
    ∀ e, τ.call.cached = some e → s₀.instant ≤ born e.content
  /-- An answer that came later is no older either. -/
  answered : ∀ r, τ.answer? = some r → s₀.tasks[t]?.bind Task.answer? = none →
    τ.call.refreshes? r = none → s₀.instant ≤ born r.content
  served : s₀.tasks.length ≤ t → covered τ.call.key = true → ∀ reply,
    τ.phase = .returned reply → (reply.response S).cacheHit = true →
    s₀.instant ≤ born (reply.response S).content

structure Renewed (S : Setup β) (born : β → Nat) (covered : String → Bool) (s₀ s : Edge β) :
    Prop where
  instant : s₀.instant ≤ s.instant
  grown : s₀.tasks.length ≤ s.tasks.length
  entries : ∀ k e, covered k = true → s.entry k = some e → s₀.instant ≤ born e.content
  tasks : ∀ t τ, s.tasks[t]? = some τ → RenewedTask S born covered s₀ t τ

variable {s₀ s s' : Edge β} {a : Action β}

/-- Right after the deletion there is nothing that would be too old. -/
theorem renewed_purge {url keyPrefix : Option String}
    (hpurge : s₀.step S (.purge url keyPrefix) = some s) :
    Renewed S born (covers url keyPrefix) s₀ s := by
  cases hpurge
  refine ⟨Nat.le_succ _, le_rfl, fun k e hk he => ?_, fun t τ ht => ?_⟩
  · replace he : (s₀.purge url keyPrefix).entry k = some e := he
    rw [entry_purge, if_pos hk] at he
    cases he
  · replace ht : s₀.tasks[t]? = some τ := ht
    have hlt : ¬ s₀.tasks.length ≤ t := by
      have hlen := (List.getElem?_eq_some_iff.mp ht).1
      omega
    refine ⟨fun h => absurd h hlt, fun r hr hnone => ?_, fun h => absurd h hlt⟩
    rw [ht, Option.bind_some, hr] at hnone
    cases hnone

theorem Renewed.arrival_read (renewed : Renewed S born covered s₀ s) {path : String}
    {rh : Option Headers} (hk : covered (keyOf S path rh) = true) {e : CacheEntry β}
    (he : (s.arrival S path rh).cached = some e) : s₀.instant ≤ born e.content := by
  exact renewed.entries _ e.core hk (entry_of_cached he)

theorem renewedTask_idle {t : Nat} {call : Call β} {phase : Phase β}
    (hread : s₀.tasks.length ≤ t → covered call.key = true →
      ∀ e, call.cached = some e → s₀.instant ≤ born e.content)
    (hanswer : Task.answer? ⟨call, phase⟩ = none)
    (hreturned : ∀ reply, phase ≠ .returned reply) :
    RenewedTask S born covered s₀ t ⟨call, phase⟩ where
  read := hread
  answered := fun r hr => by rw [hanswer] at hr; cases hr
  served := fun _ _ reply hphase => absurd hphase (hreturned reply)

theorem renewedTask_returned {t : Nat} {call : Call β} {reply : Reply β}
    (hread : s₀.tasks.length ≤ t → covered call.key = true →
      ∀ e, call.cached = some e → s₀.instant ≤ born e.content)
    (hserved : covered call.key = true → (reply.response S).cacheHit = true →
      s₀.instant ≤ born (reply.response S).content) :
    RenewedTask S born covered s₀ t ⟨call, .returned reply⟩ where
  read := hread
  answered := fun r hr => by cases hr
  served := fun _ hk reply' hphase hhit => by cases hphase; exact hserved hk hhit

/-- A reply made of what a call has read is a hit only if there was an entry. -/
theorem hit_of_rejected {cached : Option (CacheEntry β)} {reply : Reply β}
    (hreply : reply = .ofOpen cached ∨ reply = .ofRejected cached)
    (hhit : (reply.response S).cacheHit = true) :
    ∃ e, cached = some e ∧ (reply.response S).content = e.content := by
  cases cached with
  | none => rcases hreply with rfl | rfl <;> cases hhit
  | some e => rcases hreply with rfl | rfl <;> exact ⟨e, rfl, rfl⟩

/-- The tasks a step puts in place are as the invariant says. -/
theorem Renewed.placed (renewed : Renewed S born covered s₀ s) (hstamped : Stamped born s a)
    {t : Nat} {τ : Task β} (h : Placed S s a t τ) : RenewedTask S born covered s₀ t τ := by
  have hold : ∀ {t : Nat} {call : Call β} {phase : Phase β},
      s.tasks[t]? = some ⟨call, phase⟩ → RenewedTask S born covered s₀ t ⟨call, phase⟩ :=
    fun ht => renewed.tasks _ _ ht
  have hread : ∀ {path : String} {rh : Option Headers}, s₀.tasks.length ≤ t →
      covered (s.arrival S path rh).key = true →
      ∀ e, (s.arrival S path rh).cached = some e → s₀.instant ≤ born e.content :=
    fun _ hk e => renewed.arrival_read hk
  cases h with
  | fresh ha hnew hcached hfresh =>
      exact renewedTask_returned hread fun hk _ => renewed.arrival_read hk hcached
  | stale ha hnew hcached hservable =>
      exact renewedTask_returned hread fun hk _ => renewed.arrival_read hk hcached
  | scheduled ha hnew hcached hservable hlisted =>
      exact renewedTask_idle hread rfl (by simp)
  | rejected ha hnew hmiss hreply =>
      refine renewedTask_returned hread fun hk hhit => ?_
      obtain ⟨e, hcached, hcontent⟩ := hit_of_rejected hreply hhit
      rw [hcontent]
      exact renewed.arrival_read hk hcached
  | joined ha hnew hmiss hlisted => exact renewedTask_idle hread rfl (by simp)
  | led ha hnew hmiss hfree => exact renewedTask_idle hread rfl (by simp)
  | @answered call role outcome ha ht =>
      subst ha
      refine ⟨(hold ht).read, fun r hr _ hnew => ?_, fun _ _ reply hphase => by cases hphase⟩
      obtain ⟨role', hphase⟩ := Task.answer?_eq_some.mp hr
      cases hphase
      rw [hstamped _ ht hnew]
      exact renewed.instant
  | revalidating ha ht => exact renewedTask_idle (hold ht).read rfl (by simp)
  | retried ha ht habsent => exact renewedTask_idle (hold ht).read rfl (by simp)
  | coalesced ha ht hset hfound =>
      exact renewedTask_returned (hold ht).read fun _ hhit => by cases hhit
  | @fetched call role r filed response ha ht hsettle =>
      refine renewedTask_returned (hold ht).read fun _ hhit => ?_
      have hno := (settled_of_settle hsettle).cacheHit
      rw [show ((Reply.fetched response).response S).cacheHit = response.cacheHit from rfl,
        hno] at hhit
      cases hhit
  | retryRefused ha ht hset habsent hrefuse => exact renewedTask_idle (hold ht).read rfl (by simp)
  | ended hcall hphase =>
      refine renewedTask_idle ?_ ?_ ?_
      · cases hcall with
        | arrived ha hnew => exact hread
        | here ht => exact (hold ht).read
      · rcases hphase with rfl | ⟨x, rfl, -⟩ <;> rfl
      · rcases hphase with rfl | ⟨x, rfl, -⟩ <;> simp

/-- What a task files is no older than the deletion, if it does not come too late. -/
theorem Renewed.filed (renewed : Renewed S born covered s₀ s)
    (hlate : NoLateFiling S covered s₀ s a) {k : String} {e : CacheEntry β}
    (hfiles : Files S s a k e) (hk : covered k = true) : s₀.instant ≤ born e.content := by
  obtain ⟨t, call, role, r, response, rfl, ht, hsettle⟩ := hfiles
  obtain ⟨hkey, hcontent⟩ := (settled_of_settle hsettle).carried
  have htask := renewed.tasks t _ ht
  rw [hkey] at hk
  obtain ⟨hanswer, hread⟩ := hlate _ ht r rfl (cacheable_of_settle hsettle) hk
  rw [hcontent, Call.carried]
  cases hrefreshes : call.refreshes? r with
  | none => exact htask.answered r rfl hanswer hrefreshes
  | some e₀ =>
      -- a 304, so the task came after the deletion and has read something newer
      have hnew : s₀.tasks.length ≤ t := by
        by_contra hlt
        have hnone := hread (by omega)
        rw [show Task.call ⟨call, .fetching role (some (.answered r))⟩ = call from rfl,
          hrefreshes] at hnone
        cases hnone
      have hcached : call.cached = some e₀ := by
        unfold Call.refreshes? at hrefreshes
        split at hrefreshes
        · exact hrefreshes
        · cases hrefreshes
      refine htask.read hnew ?_ e₀ hcached
      rw [Call.target, hrefreshes] at hk
      exact hk

theorem renewed_step (renewed : Renewed S born covered s₀ s) (hstep : s.step S a = some s')
    (hstamped : Stamped born s a) (hlate : NoLateFiling S covered s₀ s a) :
    Renewed S born covered s₀ s' := by
  have htasks := forall_placedAt hstep renewed.tasks fun t τ => renewed.placed hstamped
  refine ⟨?_, ?_, fun k e hk he => ?_, htasks⟩
  · have hinstant := renewed.instant
    rw [instant_step hstep]
    omega
  · exact renewed.grown.trans (length_le_of_step hstep)
  · obtain ⟨m, hmove, rfl⟩ := move_of_step hstep
    replace he : m.entry k = some e := he
    cases hmove.entryMove k with
    | kept h => exact renewed.entries k e hk (h ▸ he)
    | lost h => rw [h] at he; cases he
    | filed e' hfiles h =>
        rw [h, Option.some.injEq] at he
        subst he
        show s₀.instant ≤ born e'.content
        exact renewed.filed hlate hfiles hk

/-- **No resurrection after a purge,** in every run in which no task that was under way at
the purge files what it had by then: no later call is served, as a hit under a key the
purge covers, a body that the origin produced before. -/
theorem noResurrection_of_noLateFiling (born : β → Nat) (url keyPrefix : Option String)
    (s₀ s₁ s₂ : Edge β) (after : List (Action β))
    (hpurge : s₀.step S (.purge url keyPrefix) = some s₁)
    (hsteps : Lts.EachStep (step S)
      (fun s a => Stamped born s a ∧ NoLateFiling S (covers url keyPrefix) s₀ s a) s₁ after)
    (hrun : Lts.run (step S) s₁ after = some s₂) :
    NoResurrection S born (covers url keyPrefix) s₀ s₂ := by
  have renewed : Renewed S born (covers url keyPrefix) s₀ s₂ :=
    Lts.run_guarded (I := Renewed S born (covers url keyPrefix) s₀)
      (fun s a s' renewed hcond hstep => renewed_step renewed hstep hcond.1 hcond.2) after
      (renewed_purge hpurge) hsteps hrun
  exact fun t τ reply ht hnew hk => (renewed.tasks t τ ht).served hnew hk reply

/-! ### An answer that was under way -/

instance [DecidableEq β] (s : Edge β) (a : Action β) : Decidable (Stamped born s a) :=
  match a with
  | .answer t (.answered _) => inferInstanceAs (Decidable (∀ τ ∈ s.tasks[t]?, _))
  | .answer _ .failed | .arrive .. | .resume _ | .cancel _ | .purge .. | .tick .. | .reset =>
      isTrue trivial

instance [DecidableEq β] (s₀ s : Edge β) (a : Action β) :
    Decidable (NoLateFiling S covered s₀ s a) :=
  match a with
  | .resume t => inferInstanceAs (Decidable (∀ τ ∈ s.tasks[t]?, _))
  | .answer .. | .arrive .. | .cancel _ | .purge .. | .tick .. | .reset => isTrue trivial

/-- A fetch that the origin answers in its second step. -/
def answeredFetch : List (Action Nat) :=
  [.arrive "a" gzip, .answer 0 (.answered { content := 1, statusCode := 200 })]

/-- After the purge a client asks for the file, and another is served what that left. -/
def askedAgain : List (Action Nat) :=
  [.arrive "a" gzip, .answer 1 (.answered { content := 5, statusCode := 200 }), .resume 1,
    .arrive "a" gzip]

/-- The deletion of every key of the file. -/
def purgeFile : Action Nat := .purge none (some "GET:a")

/-- Where the fetch goes on before the purge, nothing comes back. -/
theorem noResurrection_askedAgain : ∃ s₀ s₁ s₂,
    Lts.run (step sampleSetup) sampleStart (answeredFetch ++ [.resume 0]) = some s₀ ∧
      s₀.step sampleSetup purgeFile = some s₁ ∧
      Lts.run (step sampleSetup) s₁ askedAgain = some s₂ ∧
      NoResurrection sampleSetup id (covers none (some "GET:a")) s₀ s₂ := by
  let s₀ := Lts.last (step sampleSetup) sampleStart (answeredFetch ++ [.resume 0])
  let s₁ := Lts.last (step sampleSetup) s₀ [purgeFile]
  have hbefore : (Lts.run (step sampleSetup) sampleStart
      (answeredFetch ++ [.resume 0])).isSome = true := by decide +kernel
  have hafter : (Lts.run (step sampleSetup) s₁ askedAgain).isSome = true := by decide +kernel
  have hcheck : Lts.checkEach (step sampleSetup)
      (fun s a => decide (Stamped id s a ∧
        NoLateFiling sampleSetup (covers none (some "GET:a")) s₀ s a))
      s₁ askedAgain = true := by decide +kernel
  exact ⟨s₀, s₁, _, Lts.run_last hbefore, rfl, Lts.run_last hafter,
    noResurrection_of_noLateFiling id none (some "GET:a") s₀ s₁ _ askedAgain rfl
      (Lts.eachStep_of_check (fun _ _ => of_decide_eq_true) hcheck) (Lts.run_last hafter)⟩

/-- Where it goes on after the purge, the next client is served its body. -/
theorem resurrection_answeredFetch : ¬ ∀ (before after : List (Action Nat))
    (url keyPrefix : Option String) (s₀ s₁ s₂ : Edge Nat),
    Lts.EachStep (step sampleSetup) (Stamped id) sampleStart before →
    Lts.run (step sampleSetup) sampleStart before = some s₀ →
    s₀.step sampleSetup (.purge url keyPrefix) = some s₁ →
    Lts.EachStep (step sampleSetup) (Stamped id) s₁ after →
    Lts.run (step sampleSetup) s₁ after = some s₂ →
    NoResurrection sampleSetup id (covers url keyPrefix) s₀ s₂ := by
  intro h
  let s₀ := Lts.last (step sampleSetup) sampleStart answeredFetch
  let s₁ := Lts.last (step sampleSetup) s₀ [purgeFile]
  have hbefore : (Lts.run (step sampleSetup) sampleStart answeredFetch).isSome = true := by
    decide +kernel
  have hstamped : Lts.checkEach (step sampleSetup) (fun s a => decide (Stamped id s a))
      sampleStart answeredFetch = true := by decide +kernel
  have hstamped' : Lts.checkEach (step sampleSetup) (fun s a => decide (Stamped id s a))
      s₁ [.resume 0, .arrive "a" gzip] = true := by decide +kernel
  have heval : (Lts.run (step sampleSetup) s₁ [.resume 0, .arrive "a" gzip]).map
      (fun s => s.tasks[1]?.any fun τ =>
        decide (covers none (some "GET:a") τ.call.key = true ∧ τ.freshHit? = some 1)) =
      some true := by decide +kernel
  obtain ⟨s₂, hrun, hany⟩ := Option.map_eq_some_iff.mp heval
  obtain ⟨τ, hτ, hserved⟩ := (Option.any_eq_true _ _).mp hany
  obtain ⟨hk, hhit⟩ := of_decide_eq_true hserved
  obtain ⟨e, hphase, he⟩ := Task.freshHit?_eq_some hhit
  have hno := h answeredFetch [.resume 0, .arrive "a" gzip] none (some "GET:a") s₀ s₁ s₂
    (Lts.eachStep_of_check (fun _ _ => of_decide_eq_true) hstamped) (Lts.run_last hbefore) rfl
    (Lts.eachStep_of_check (fun _ _ => of_decide_eq_true) hstamped') hrun
  have hold := hno 1 τ (.fresh e) hτ (by decide +kernel) hk hphase rfl
  rw [show ((Reply.fresh e).response sampleSetup).content = 1 from he] at hold
  exact absurd hold (by decide +kernel)

end Edge

end Cdn

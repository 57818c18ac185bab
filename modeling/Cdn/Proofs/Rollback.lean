/-
When an entry gives way to an older one.

Several fetches of one key can be under way at once: two revalidations of a stale
entry, the waiters of a leader that failed, a leader beside a revalidation.  Each puts
what the origin gave it into the store when it goes on, whatever is there by then, so
the entry goes back to an older version as soon as an older answer is filed after a
newer one.  Where the answers for one key are filed in the order of their versions, and
no path comes under another's key, the version under a key never decreases.

`V` is the version the origin has of a path after a number of steps, and `version`
reads it off a body.
-/
import Cdn.Proofs.Flight
import Cdn.Proofs.Placed

namespace Cdn

variable {β : Type} {S : Setup β} {V : Nat → String → Nat} {version : β → Nat}

/-- The call may file what it is answered under the key, for some list of fields in Vary. -/
def Call.MayFile (S : Setup β) (call : Call β) (k : String) : Prop :=
  ∃ fields, fileKey S call fields = k

theorem Call.mayFile_target (call : Call β) (r : OriginResponse β) :
    call.MayFile S (call.target S r) := by
  unfold Call.target
  split
  · exact ⟨none, rfl⟩
  · exact ⟨_, rfl⟩

namespace Edge

/-- The origin answers with the version it has: with a body of it, or with a 304 for an
entry of it. -/
def Honest (V : Nat → String → Nat) (version : β → Nat) (s : Edge β) : Action β → Prop
  | .answer t (.answered r) =>
      ∀ τ ∈ s.tasks[t]?, version (τ.call.carried r) = V s.instant τ.call.path
  | _ => True

/-- Of the answers still to be filed under one key, an oldest goes first. -/
def InOrder (S : Setup β) (version : β → Nat) (s : Edge β) : Action β → Prop
  | .resume t => ∀ τ ∈ s.tasks[t]?, ∀ r ∈ τ.answer?, cacheable r = true →
      ∀ τ' ∈ s.tasks, ∀ r' ∈ τ'.answer?, cacheable r' = true →
        τ'.call.target S r' = τ.call.target S r →
        version (τ.call.carried r) ≤ version (τ'.call.carried r')
  | _ => True

/-- A call may file under no key under which a call for another path may. -/
def Apart (S : Setup β) (s : Edge β) : Action β → Prop
  | .arrive path rh => ∀ call ∈ s.calls, call.path ≠ path →
      ∀ k, call.MayFile S k → ¬ (s.arrival S path rh).MayFile S k
  | _ => True

/-! ### A bound on what comes under a key -/

/-- Nothing older than `v` is under the key, is on its way there, or can still come. -/
structure Bound (S : Setup β) (V : Nat → String → Nat) (version : β → Nat) (k : String) (v : Nat)
    (s : Edge β) : Prop where
  stored : ∀ e, s.entry k = some e → v ≤ version e.content
  pending : ∀ τ ∈ s.tasks, ∀ r, τ.answer? = some r → cacheable r = true →
    τ.call.target S r = k → v ≤ version (τ.call.carried r)
  source : ∃ call ∈ s.calls, call.MayFile S k ∧ v ≤ V s.instant call.path

structure Ordered (S : Setup β) (V : Nat → String → Nat) (version : β → Nat) (s : Edge β) :
    Prop where
  apart : ∀ call ∈ s.calls, ∀ call' ∈ s.calls, ∀ k, call.MayFile S k → call'.MayFile S k →
    call.path = call'.path
  /-- An answer is of a version the origin has had. -/
  past : ∀ τ ∈ s.tasks, ∀ r, τ.answer? = some r →
    version (τ.call.carried r) ≤ V s.instant τ.call.path
  bounds : ∀ k e, s.entry k = some e → Bound S V version k (version e.content) s

theorem ordered_start (maxSizeBytes : Int) (breaker : CircuitBreaker) (wall mono : Time) :
    Ordered S V version (start (β := β) { maxSizeBytes } breaker wall mono) where
  apart := fun call hcall => by cases hcall
  past := fun τ hτ => by cases hτ
  bounds := fun k e he => by cases he

variable {s s' : Edge β} {a : Action β} {k : String} {v : Nat}

/-- The origin's version of a path has not decreased over the step. -/
theorem version_step (hV : ∀ path, Monotone fun n => V n path) (hstep : s.step S a = some s')
    (path : String) : V s.instant path ≤ V s'.instant path := by
  rw [instant_step hstep]
  exact hV path (Nat.le_succ _)

theorem apart_step (ordered : Ordered S V version s) (hstep : s.step S a = some s')
    (hapart : Apart S s a) : ∀ call ∈ s'.calls, ∀ call' ∈ s'.calls, ∀ k,
      call.MayFile S k → call'.MayFile S k → call.path = call'.path := by
  intro call hcall call' hcall' k hk hk'
  rcases (extends_step hstep).cases hcall with hcall | ⟨path, rh, rfl, rfl⟩ <;>
    rcases (extends_step hstep).cases hcall' with hcall' | ⟨path', rh', ha, rfl⟩
  · exact ordered.apart call hcall call' hcall' k hk hk'
  · subst ha
    by_contra hne
    exact hapart call hcall hne k hk hk'
  · by_contra hne
    exact hapart call' hcall' (Ne.symm hne) k hk' hk
  · cases ha
    rfl

theorem past_step (hV : ∀ path, Monotone fun n => V n path) (ordered : Ordered S V version s)
    (hstep : s.step S a = some s') (honest : Honest V version s a) :
    ∀ τ ∈ s'.tasks, ∀ r, τ.answer? = some r →
      version (τ.call.carried r) ≤ V s'.instant τ.call.path := by
  refine forall_placed hstep (fun τ hτ r hr => ?_) fun t τ hτ r hr => ?_
  · exact (ordered.past τ hτ r hr).trans (version_step hV hstep _)
  · obtain ⟨rfl, phase, ht⟩ := hτ.of_answer hr
    rw [honest _ ht]
    exact version_step hV hstep _

/-- **A bound outlives every step.** -/
theorem Bound.step (hV : ∀ path, Monotone fun n => V n path) (bound : Bound S V version k v s)
    (ordered : Ordered S V version s) (hstep : s.step S a = some s')
    (honest : Honest V version s a) : Bound S V version k v s' := by
  obtain ⟨source, hsource, hmay, hv⟩ := bound.source
  refine ⟨fun e he => ?_, ?_, source, (extends_step hstep).mem hsource, hmay,
    hv.trans (version_step hV hstep _)⟩
  · obtain ⟨m, hmove, rfl⟩ := move_of_step hstep
    replace he : m.entry k = some e := he
    cases hmove.entryMove k with
    | kept h => exact bound.stored e (h ▸ he)
    | lost h => rw [h] at he; cases he
    | filed e' hfiles h =>
        obtain ⟨t, call, role, r, response, -, ht, hsettle⟩ := hfiles
        obtain ⟨hkey, hcontent⟩ := (settled_of_settle hsettle).carried
        rw [h, Option.some.injEq] at he
        subst he
        show v ≤ version e'.content
        rw [hcontent]
        exact bound.pending _ (List.mem_of_getElem? ht) r rfl (cacheable_of_settle hsettle)
          hkey.symm
  · refine forall_placed hstep bound.pending fun t τ hτ r hr hcache hkey => ?_
    -- a new answer is of the version the origin has now
    obtain ⟨rfl, phase, ht⟩ := hτ.of_answer hr
    have htarget := τ.call.mayFile_target (S := S) r
    rw [hkey] at htarget
    have hpath := ordered.apart _ hsource _ (mem_calls ht) k hmay htarget
    rw [honest _ ht, ← hpath]
    exact hv

/-- What a task files is a bound for what is there afterwards. -/
theorem Ordered.bound_filed (hV : ∀ path, Monotone fun n => V n path)
    (ordered : Ordered S V version s) (hstep : s.step S a = some s')
    (horder : InOrder S version s a) {e : CacheEntry β} (hfiles : Files S s a k e)
    (he : s'.entry k = some e.core) : Bound S V version k (version e.content) s' := by
  obtain ⟨t, call, role, r, response, rfl, ht, hsettle⟩ := hfiles
  obtain ⟨hkey, hcontent⟩ := (settled_of_settle hsettle).carried
  have hcache := cacheable_of_settle hsettle
  have hmem := List.mem_of_getElem? ht
  refine ⟨fun e' he' => ?_, ?_, call, (extends_step hstep).mem (mem_calls ht), ?_, ?_⟩
  · rw [he, Option.some.injEq] at he'
    subst he'
    exact le_rfl
  · refine forall_placed hstep (fun τ hτ r' hr' hcache' hkey' => ?_) fun u τ hτ r' hr' => ?_
    · rw [hcontent]
      exact horder _ ht r rfl hcache τ hτ r' hr' hcache' (hkey'.trans hkey)
    · exact absurd (hτ.of_answer hr').1 (by simp)
  · rw [hkey]
    exact call.mayFile_target r
  · rw [hcontent]
    exact (ordered.past _ hmem r rfl).trans (version_step hV hstep _)

theorem ordered_step (hV : ∀ path, Monotone fun n => V n path) (ordered : Ordered S V version s)
    (hstep : s.step S a = some s') (honest : Honest V version s a)
    (horder : InOrder S version s a) (hapart : Apart S s a) : Ordered S V version s' := by
  refine ⟨apart_step ordered hstep hapart, past_step hV ordered hstep honest, fun k e he => ?_⟩
  obtain ⟨m, hmove, hm⟩ := move_of_step hstep
  have hentry : m.entry k = s'.entry k := by rw [hm]; rfl
  cases hmove.entryMove k with
  | kept h => exact (ordered.bounds k e (by rw [← h, hentry, he])).step hV ordered hstep honest
  | lost h => rw [← hentry, h] at he; cases he
  | filed e' hfiles h =>
      rw [hentry] at h
      rw [h, Option.some.injEq] at he
      subst he
      exact ordered.bound_filed (e := e') hV hstep horder hfiles h

/-- **No rollback to an older version,** in every run in which the answers for one key are
filed in the order of their versions and no path comes under another's key. -/
theorem version_mono_of_inOrder (V : Nat → String → Nat) (version : β → Nat)
    (hV : ∀ path, Monotone fun n => V n path) (maxSizeBytes : Int) (breaker : CircuitBreaker)
    (wall mono : Time) (before after : List (Action β)) (s s' : Edge β) (k : String)
    (e e' : CacheEntry β)
    (hsteps : Lts.EachStep (step S)
      (fun s a => Honest V version s a ∧ InOrder S version s a ∧ Apart S s a)
      (start { maxSizeBytes } breaker wall mono) (before ++ after))
    (hbefore : Lts.run (step S) (start { maxSizeBytes } breaker wall mono) before = some s)
    (hafter : Lts.run (step S) s after = some s') (he : s.entry k = some e)
    (he' : s'.entry k = some e') : version e.content ≤ version e'.content := by
  obtain ⟨hfirst, hrest⟩ := Lts.eachStep_append hbefore hsteps
  have ordered : Ordered S V version s :=
    Lts.run_guarded (I := Ordered S V version)
      (fun s a s' ordered hcond hstep => ordered_step hV ordered hstep hcond.1 hcond.2.1 hcond.2.2)
      before (ordered_start maxSizeBytes breaker wall mono) hfirst hbefore
  have both : Ordered S V version s' ∧ Bound S V version k (version e.content) s' :=
    Lts.run_guarded
      (I := fun s => Ordered S V version s ∧ Bound S V version k (version e.content) s)
      (fun s a s' both hcond hstep =>
        ⟨ordered_step hV both.1 hstep hcond.1 hcond.2.1 hcond.2.2,
          both.2.step hV both.1 hstep hcond.1⟩)
      after ⟨ordered, ordered.bounds k e he⟩ hrest hafter
  exact both.2.stored e' he'

/-! ### Two revalidations of one entry -/

instance (s : Edge β) (a : Action β) : Decidable (Honest V version s a) :=
  match a with
  | .answer t (.answered _) => inferInstanceAs (Decidable (∀ τ ∈ s.tasks[t]?, _))
  | .answer _ .failed | .arrive .. | .resume _ | .cancel _ | .purge .. | .tick .. | .reset =>
      isTrue trivial

instance (s : Edge β) (a : Action β) : Decidable (InOrder S version s a) :=
  match a with
  | .resume t => inferInstanceAs (Decidable (∀ τ ∈ s.tasks[t]?, _))
  | .answer .. | .arrive .. | .cancel _ | .purge .. | .tick .. | .reset => isTrue trivial

/-- All calls ask for one path. -/
def onePath (s : Edge β) : Action β → Bool
  | .arrive path _ => s.calls.all (·.path = path)
  | _ => true

theorem apart_of_onePath {s : Edge β} {a : Action β} (h : onePath s a = true) : Apart S s a := by
  cases a with
  | arrive path rh =>
      intro call hcall hne
      exact absurd (by simpa using List.all_eq_true.mp h call hcall) hne
  | _ => trivial

/-- An origin whose version is the number of the step, and that answers with it. -/
def answerAt (t version : Nat) : Action Nat :=
  .answer t (.answered
    { content := version, statusCode := 200
      headers := Dict.ofList [("cache-control", "max-age=10, stale-while-revalidate=100")] })

/-- Two calls find the entry stale, and each starts a revalidation. -/
def twoRevalidations : List (Action Nat) :=
  [.arrive "a" gzip, answerAt 0 1, .resume 0, .tick 20 20, .arrive "a" gzip, .arrive "a" gzip,
    .resume 2, .resume 4, answerAt 2 8, answerAt 4 9]

/-- The first of them is filed first. -/
theorem version_mono_twoRevalidations : ∃ s s' e e',
    Lts.run (step sampleSetup) sampleStart twoRevalidations = some s ∧
      Lts.run (step sampleSetup) s [.resume 2, .resume 4] = some s' ∧
      s.entry "GET:a|vary=0f91ee17" = some e ∧ s'.entry "GET:a|vary=0f91ee17" = some e' ∧
      e.content ≤ e'.content := by
  let s := Lts.last (step sampleSetup) sampleStart twoRevalidations
  let s' := Lts.last (step sampleSetup) s [.resume 2, .resume 4]
  obtain ⟨hbefore, hafter, hentry, hentry'⟩ :
      (Lts.run (step sampleSetup) sampleStart twoRevalidations).isSome = true ∧
        (Lts.run (step sampleSetup) s [.resume 2, .resume 4]).isSome = true ∧
        (s.entry "GET:a|vary=0f91ee17").isSome = true ∧
        (s'.entry "GET:a|vary=0f91ee17").isSome = true := by decide +kernel
  have hcheck : Lts.checkEach (step sampleSetup)
      (fun s a => decide (Honest (fun n _ => n) id s a ∧ InOrder sampleSetup id s a) && onePath s a)
      sampleStart (twoRevalidations ++ [.resume 2, .resume 4]) = true := by decide +kernel
  have hsteps : Lts.EachStep (step sampleSetup)
      (fun s a => Honest (fun n _ => n) id s a ∧ InOrder sampleSetup id s a ∧ Apart sampleSetup s a)
      sampleStart (twoRevalidations ++ [.resume 2, .resume 4]) := by
    refine Lts.eachStep_of_check (fun s a h => ?_) hcheck
    obtain ⟨hcond, hpath⟩ := Bool.and_eq_true_iff.mp h
    obtain ⟨honest, horder⟩ := of_decide_eq_true hcond
    exact ⟨honest, horder, apart_of_onePath hpath⟩
  obtain ⟨e, he⟩ := Option.isSome_iff_exists.mp hentry
  obtain ⟨e', he'⟩ := Option.isSome_iff_exists.mp hentry'
  exact ⟨s, s', e, e', Lts.run_last hbefore, Lts.run_last hafter, he, he',
    version_mono_of_inOrder (fun n _ => n) id (fun _ => monotone_id) _ _ _ _ twoRevalidations
      [.resume 2, .resume 4] s s' _ e e' hsteps (Lts.run_last hbefore) (Lts.run_last hafter) he he'⟩

/-- The second of them is filed first, and the first puts the older version back. -/
theorem rollback_twoRevalidations : ¬ ∀ (before after : List (Action Nat)) (s s' : Edge Nat)
    (k : String) (e e' : CacheEntry Nat),
    Lts.EachStep (step sampleSetup) (Honest (fun n _ => n) id) sampleStart (before ++ after) →
    Lts.run (step sampleSetup) sampleStart before = some s →
    Lts.run (step sampleSetup) s after = some s' → s.entry k = some e → s'.entry k = some e' →
    e.content ≤ e'.content := by
  intro h
  let s := Lts.last (step sampleSetup) sampleStart (twoRevalidations ++ [.resume 4])
  have hhonest : Lts.checkEach (step sampleSetup)
      (fun s a => decide (Honest (fun n _ => n) id s a)) sampleStart
      ((twoRevalidations ++ [.resume 4]) ++ [.resume 2]) = true := by decide +kernel
  obtain ⟨hbefore, hnewer, holder⟩ :
      (Lts.run (step sampleSetup) sampleStart (twoRevalidations ++ [.resume 4])).isSome = true ∧
        (s.entry "GET:a|vary=0f91ee17").map (·.content) = some 9 ∧
        (Lts.run (step sampleSetup) s [.resume 2]).map
          (fun s' => (s'.entry "GET:a|vary=0f91ee17").map (·.content)) = some (some 8) := by
    decide +kernel
  obtain ⟨e, he, hcontent⟩ := Option.map_eq_some_iff.mp hnewer
  obtain ⟨s', hrun, hmap⟩ := Option.map_eq_some_iff.mp holder
  obtain ⟨e', he', hcontent'⟩ := Option.map_eq_some_iff.mp hmap
  have hle := h _ [.resume 2] s s' _ e e'
    (Lts.eachStep_of_check (fun _ _ => of_decide_eq_true) hhonest) (Lts.run_last hbefore) hrun
    he he'
  rw [hcontent, hcontent'] at hle
  exact absurd hle (by decide)

end Edge

end Cdn

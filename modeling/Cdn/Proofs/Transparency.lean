/-
The cache is transparent across paths.

Against an origin that answers a path always in the same way, a call should return what
the origin answers its own path.  Entries are kept by key, so all depends on whether
two paths come under one key, and `keyOf_eq_iff` says when they do: when a client
without Accept-Encoding asks for a path that spells out the key of another request.
Without such a call every entry is one of the path that reads it.
-/
import Cdn.Proofs.Flight
import Cdn.Proofs.Placed

namespace Cdn

variable {β : Type} {S : Setup β} {origin : String → OriginResponse β}

/-- The 503 of an open circuit. -/
def Reply.unavailable : Reply β → Bool
  | .openEmpty | .rejectedEmpty => true
  | _ => false

/-- A response with the content and the status the origin gives for a path. -/
def Response.Of (origin : String → OriginResponse β) (path : String) (r : Response β) : Prop :=
  r.content = (origin path).content ∧ r.statusCode = (origin path).statusCode

/-- The same for a stored entry. -/
def CacheEntry.Of (origin : String → OriginResponse β) (path : String) (e : CacheEntry β) : Prop :=
  e.content = (origin path).content ∧ e.statusCode = (origin path).statusCode

theorem CacheEntry.of_core {path : String} {e : CacheEntry β} :
    e.core.Of origin path ↔ e.Of origin path := Iff.rfl

/-- What the call returns, if it returns and not the 503, is the origin's for its path. -/
def Task.Transparent (S : Setup β) (origin : String → OriginResponse β) (τ : Task β) : Prop :=
  ∀ reply, τ.phase = .returned reply → reply.unavailable = false →
    (reply.response S).Of origin τ.call.path

/-- What is made of the origin's answer is the origin's. -/
theorem Settled.of {call : Call β} {r : OriginResponse β} {now : Time}
    {filed : Option (String × CacheEntry β)} {response : Response β}
    (h : Settled S call r now filed response)
    (hread : ∀ e, call.cached = some e → e.Of origin call.path) (hr : r = origin call.path) :
    response.Of origin call.path ∧ ∀ k e, filed = some (k, e) → e.Of origin call.path := by
  subst hr
  cases h with
  | passed => exact ⟨⟨rfl, rfl⟩, fun k e he => by cases he⟩
  | refreshed hstatus hcached hswr =>
      have hof := hread _ hcached
      exact ⟨hof, fun k e he => by cases he; exact hof⟩
  | filed hnew hswr => exact ⟨⟨rfl, rfl⟩, fun k e he => by cases he; exact ⟨rfl, rfl⟩⟩

/-- Without Vary an answer is filed under the key that was looked up. -/
theorem Settled.key {call : Call β} {r : OriginResponse β} {now : Time} {k : String}
    {e : CacheEntry β} {response : Response β}
    (h : Settled S call r now (some (k, e)) response)
    (hvary : r.headers.get? "vary" = none) : k = call.key := by
  cases h with
  | refreshed hstatus hcached hswr => rfl
  | filed hnew hswr => exact fileKey_of_no_vary (by rw [Dict.getD, hvary]; rfl)

namespace Edge

/-- The origin answers a request for a path as it always does. -/
def Answers (origin : String → OriginResponse β) (s : Edge β) : Action β → Prop
  | .answer t (.answered r) => ∀ τ ∈ s.tasks[t]?, r = origin τ.call.path
  | _ => True

/-- No call asks for a path that, with its headers, spells out the key of another call. -/
def Unforged (S : Setup β) (s : Edge β) : Action β → Prop
  | .arrive path rh => ∀ call ∈ s.calls,
      ¬ Forges S path rh call.path call.requestHeaders ∧
      ¬ Forges S call.path call.requestHeaders path rh
  | _ => True

/-- What holds of one task: its key is that of its request, and what it has read or is
about to go on with is the origin's for its path. -/
structure TaskClear (S : Setup β) (origin : String → OriginResponse β) (τ : Task β) : Prop where
  read : ∀ e, τ.call.cached = some e → e.Of origin τ.call.path
  pending : ∀ role r, τ.phase = .fetching role (some (.answered r)) → r = origin τ.call.path
  transparent : τ.Transparent S origin

/-- What holds of a state in which no path has come under another's key. -/
structure Clear (S : Setup β) (origin : String → OriginResponse β) (s : Edge β) : Prop where
  tasks : ∀ τ ∈ s.tasks, TaskClear S origin τ
  keyed : Keyed S s
  separate : ∀ call ∈ s.calls, ∀ call' ∈ s.calls, call.key = call'.key → call.path = call'.path
  entries : ∀ k e, s.entry k = some e → ∃ call ∈ s.calls, call.key = k ∧ e.Of origin call.path

theorem clear_start (maxSizeBytes : Int) (breaker : CircuitBreaker) (wall mono : Time) :
    Clear S origin (start (β := β) { maxSizeBytes } breaker wall mono) where
  tasks := fun τ hτ => by cases hτ
  keyed := keyed_start _ _ _ _
  separate := fun call hcall => by cases hcall
  entries := fun k e he => by cases he

variable {s s' : Edge β} {a : Action β}

/-- An entry under the key of a call is the origin's for the path of that call. -/
theorem Clear.entry_of (clear : Clear S origin s) {call : Call β} (hcall : call ∈ s.calls)
    {e : CacheEntry β} (he : s.entry call.key = some e) : e.Of origin call.path := by
  obtain ⟨call', hcall', hkey, hof⟩ := clear.entries call.key e he
  rwa [clear.separate call' hcall' call hcall hkey] at hof

/-- A call that arrives has the key of no call for another path. -/
theorem Clear.path_of_key (clear : Clear S origin s) {path : String} {rh : Option Headers}
    (hforge : Unforged S s (.arrive path rh)) {call : Call β} (hcall : call ∈ s.calls)
    (hkey : call.key = keyOf S path rh) : call.path = path := by
  by_contra hne
  rw [clear.keyed call hcall, keyOf_eq_iff S _ _ hne] at hkey
  obtain ⟨h1, h2⟩ := hforge call hcall
  exact hkey.elim h2 h1

/-- What a call that arrives reads is the origin's for its path. -/
theorem Clear.arrival_read (clear : Clear S origin s) {path : String} {rh : Option Headers}
    (hforge : Unforged S s (.arrive path rh)) {e : CacheEntry β}
    (he : (s.arrival S path rh).cached = some e) : e.Of origin path := by
  obtain ⟨call, hcall, hkey, hof⟩ := clear.entries _ _ (entry_of_cached he)
  rw [clear.path_of_key hforge hcall hkey] at hof
  exact CacheEntry.of_core.mp hof

theorem transparent_of_not_returned {call : Call β} {phase : Phase β}
    (h : ∀ reply, phase ≠ .returned reply) : Task.Transparent S origin ⟨call, phase⟩ :=
  fun reply hphase => absurd hphase (h reply)

/-- A task that has returned a reply with the origin's content. -/
theorem taskClear_returned {call : Call β} {reply : Reply β}
    (hread : ∀ e, call.cached = some e → e.Of origin call.path)
    (hreply : reply.unavailable = false → (reply.response S).Of origin call.path) :
    TaskClear S origin ⟨call, .returned reply⟩ where
  read := hread
  pending := fun role r h => by cases h
  transparent := fun reply' h hav => by cases h; exact hreply hav

/-- A task that has not returned and has no answer to go on with. -/
theorem taskClear_idle {call : Call β} {phase : Phase β}
    (hread : ∀ e, call.cached = some e → e.Of origin call.path)
    (hpending : ∀ role r, phase ≠ .fetching role (some (.answered r)))
    (hreturned : ∀ reply, phase ≠ .returned reply) : TaskClear S origin ⟨call, phase⟩ where
  read := hread
  pending := fun role r h => absurd h (hpending role r)
  transparent := transparent_of_not_returned hreturned

/-- The tasks a step puts in place are clear. -/
theorem Clear.placed (clear : Clear S origin s) (hanswers : Answers origin s a)
    (hforge : Unforged S s a) {t : Nat} {τ : Task β} (h : Placed S s a t τ) :
    TaskClear S origin τ := by
  have hold : ∀ {t : Nat} {call : Call β} {phase : Phase β},
      s.tasks[t]? = some ⟨call, phase⟩ → TaskClear S origin ⟨call, phase⟩ :=
    fun ht => clear.tasks _ (List.mem_of_getElem? ht)
  cases h with
  | fresh ha hnew hcached hfresh =>
      subst ha
      exact taskClear_returned (fun e => clear.arrival_read hforge)
        fun _ => clear.arrival_read hforge hcached
  | stale ha hnew hcached hservable =>
      subst ha
      exact taskClear_returned (fun e => clear.arrival_read hforge)
        fun _ => clear.arrival_read hforge hcached
  | scheduled ha hnew hcached hservable hlisted =>
      subst ha
      exact taskClear_idle (fun e => clear.arrival_read hforge) (by simp) (by simp)
  | @rejected path rh reply ha hnew hmiss hreply =>
      subst ha
      refine taskClear_returned (fun e => clear.arrival_read hforge) fun hav => ?_
      have hread := fun e => clear.arrival_read (e := e) hforge
      rcases hreply with rfl | rfl
      · cases hcached : (s.arrival S path rh).cached with
        | none => rw [hcached] at hav; cases hav
        | some e => exact hread e hcached
      · cases hcached : (s.arrival S path rh).cached with
        | none => rw [hcached] at hav; cases hav
        | some e => exact hread e hcached
  | joined ha hnew hmiss hlisted =>
      subst ha
      exact taskClear_idle (fun e => clear.arrival_read hforge) (by simp) (by simp)
  | led ha hnew hmiss hfree =>
      subst ha
      exact taskClear_idle (fun e => clear.arrival_read hforge) (by simp) (by simp)
  | @answered call role outcome ha ht =>
      subst ha
      refine ⟨(hold ht).read, ?_, transparent_of_not_returned (by simp)⟩
      intro role' r hphase
      cases hphase
      exact hanswers ⟨call, .fetching role none⟩ ht
  | revalidating ha ht => exact taskClear_idle (hold ht).read (by simp) (by simp)
  | retried ha ht habsent => exact taskClear_idle (hold ht).read (by simp) (by simp)
  | coalesced ha ht hset hfound =>
      have hof := clear.entry_of (mem_calls ht) (entry_of_get hfound)
      exact taskClear_returned (hold ht).read fun _ => hof
  | fetched ha ht hsettle =>
      have hpending := (hold ht).pending _ _ rfl
      exact taskClear_returned (hold ht).read fun _ =>
        ((settled_of_settle hsettle).of (hold ht).read hpending).1
  | retryRefused ha ht hset habsent hrefuse =>
      exact taskClear_idle (hold ht).read (by simp) (by simp)
  | ended hcall hphase =>
      refine taskClear_idle ?_ ?_ ?_
      · cases hcall with
        | arrived ha hnew => subst ha; exact fun e => clear.arrival_read hforge
        | here ht => exact (hold ht).read
      · rcases hphase with rfl | ⟨x, rfl, -⟩ <;> simp
      · rcases hphase with rfl | ⟨x, rfl, -⟩ <;> simp

/-- A step of an honest origin and a call that forges nothing keeps the state clear. -/
theorem clear_step (hvary : ∀ path, (origin path).headers.get? "vary" = none)
    (clear : Clear S origin s) (hstep : s.step S a = some s') (hanswers : Answers origin s a)
    (hforge : Unforged S s a) : Clear S origin s' := by
  have hext := extends_step hstep
  refine ⟨forall_placed hstep clear.tasks fun t τ => clear.placed hanswers hforge,
    keyed_step clear.keyed hstep, ?_, ?_⟩
  · intro call hcall call' hcall' hkey
    rcases hext.cases hcall with hcall | ⟨path, rh, rfl, rfl⟩ <;>
      rcases hext.cases hcall' with hcall' | ⟨path', rh', ha, rfl⟩
    · exact clear.separate call hcall call' hcall' hkey
    · subst ha
      exact clear.path_of_key hforge hcall hkey
    · exact (clear.path_of_key hforge hcall' hkey.symm).symm
    · cases ha
      rfl
  · intro k e he
    obtain ⟨m, hmove, rfl⟩ := move_of_step hstep
    replace he : m.entry k = some e := he
    cases hmove.entryMove k with
    | kept h =>
        obtain ⟨call, hcall, hkey, hof⟩ := clear.entries k e (h ▸ he)
        exact ⟨call, hext.mem hcall, hkey, hof⟩
    | lost h => rw [h] at he; cases he
    | filed e' hfiles h =>
        obtain ⟨t, call, role, r, response, -, ht, hsettle⟩ := hfiles
        have hclear := clear.tasks _ (List.mem_of_getElem? ht)
        have hpending := hclear.pending _ _ rfl
        have hsettled := settled_of_settle hsettle
        have hkey := hsettled.key (by rw [hpending]; exact hvary _)
        rw [h, Option.some.injEq] at he
        subst he
        exact ⟨call, hext.mem (mem_calls ht), hkey.symm,
          CacheEntry.of_core.mpr ((hsettled.of hclear.read hpending).2 k e' rfl)⟩

/-- **The cache is transparent across paths** in every run in which no call forges the key
of another: what a call returns, but for the 503 and exceptions, is the origin's for its
path, and no two calls for different paths have one key.  And to forge a key is the only
way two different paths come under one. -/
theorem transparent_of_unforged (origin : String → OriginResponse β)
    (hvary : ∀ path, (origin path).headers.get? "vary" = none)
    (maxSizeBytes : Int) (breaker : CircuitBreaker) (wall mono : Time) (p : List (Action β))
    (s : Edge β)
    (hsteps : Lts.EachStep (step S) (fun s a => Answers origin s a ∧ Unforged S s a)
      (start { maxSizeBytes } breaker wall mono) p)
    (hrun : Lts.run (step S) (start { maxSizeBytes } breaker wall mono) p = some s) :
    (∀ τ ∈ s.tasks, τ.Transparent S origin) ∧
      (∀ call ∈ s.calls, ∀ call' ∈ s.calls, call.key = call'.key → call.path = call'.path) ∧
      ∀ path path' rh rh', path ≠ path' →
        (keyOf S path rh = keyOf S path' rh' ↔
          Forges S path rh path' rh' ∨ Forges S path' rh' path rh) := by
  have clear : Clear S origin s :=
    Lts.run_guarded (I := Clear S origin)
      (fun s a s' clear hcond hstep => clear_step hvary clear hstep hcond.1 hcond.2) p
      (clear_start maxSizeBytes breaker wall mono) hsteps hrun
  exact ⟨fun τ hτ => (clear.tasks τ hτ).transparent, clear.separate,
    fun path path' rh rh' hne => keyOf_eq_iff S rh rh' hne⟩

/-! ### A forged key -/

instance [DecidableEq β] (origin : String → OriginResponse β) (s : Edge β) (a : Action β) :
    Decidable (Answers origin s a) :=
  match a with
  | .answer t (.answered _) => inferInstanceAs (Decidable (∀ τ ∈ s.tasks[t]?, _))
  | .answer _ .failed | .arrive .. | .resume _ | .cancel _ | .purge .. | .tick .. | .reset =>
      isTrue trivial

instance (s : Edge β) (a : Action β) : Decidable (Unforged S s a) :=
  match a with
  | .arrive _ _ => inferInstanceAs (Decidable (∀ call ∈ s.calls, _))
  | .answer .. | .resume _ | .cancel _ | .purge .. | .tick .. | .reset => isTrue trivial

/-- An origin with a file `a` and another body for every other path. -/
def sampleOrigin (path : String) : OriginResponse Nat where
  content := if path = "a" then 1 else 2
  statusCode := 200

/-- Two clients ask for `a`, one with gzip, and another asks for `b`. -/
def threeCalls : List (Action Nat) :=
  [.arrive "a" gzip, .arrive "a" none, .arrive "b" gzip,
    .answer 0 (.answered (sampleOrigin "a")), .resume 0,
    .answer 1 (.answered (sampleOrigin "a")), .resume 1, .arrive "a" gzip]

theorem transparent_threeCalls : ∃ s,
    Lts.run (step sampleSetup) sampleStart threeCalls = some s ∧
      ∀ τ ∈ s.tasks, τ.Transparent sampleSetup sampleOrigin := by
  have hrun : (Lts.run (step sampleSetup) sampleStart threeCalls).isSome = true := by
    decide +kernel
  have hcheck : Lts.checkEach (step sampleSetup)
      (fun s a => decide (Answers sampleOrigin s a ∧ Unforged sampleSetup s a))
      sampleStart threeCalls = true := by decide +kernel
  exact ⟨_, Lts.run_last hrun, (transparent_of_unforged sampleOrigin (fun _ => rfl) _ _ _ _ _ _
    (Lts.eachStep_of_check (fun _ _ => of_decide_eq_true) hcheck) (Lts.run_last hrun)).1⟩

/-- The key of `a` with gzip, asked for as a path. -/
def forgedPath : List (Action Nat) :=
  [.arrive "a" gzip, .answer 0 (.answered (sampleOrigin "a")), .resume 0,
    .arrive "a|vary=0f91ee17" none]

/-- A path that spells out another key is served the other path's body, against an honest
origin without Vary and with a digest that never collides. -/
theorem poisoned_forgedPath : Function.Injective sampleSetup.digest.hash ∧
    (∀ path, (sampleOrigin path).headers.get? "vary" = none) ∧
    ¬ ∀ (p : List (Action Nat)) (s : Edge Nat),
      Lts.EachStep (step sampleSetup) (Answers sampleOrigin) sampleStart p →
      Lts.run (step sampleSetup) sampleStart p = some s →
      ∀ τ ∈ s.tasks, τ.Transparent sampleSetup sampleOrigin := by
  refine ⟨sampleHash_injective, fun _ => rfl, fun h => ?_⟩
  have hcheck : Lts.checkEach (step sampleSetup) (fun s a => decide (Answers sampleOrigin s a))
      sampleStart forgedPath = true := by decide +kernel
  have heval : (Lts.run (step sampleSetup) sampleStart forgedPath).map
      (fun s => s.tasks.any fun τ =>
        decide (τ.call.path = "a|vary=0f91ee17" ∧ τ.freshHit? = some 1)) = some true := by
    decide +kernel
  obtain ⟨s, hrun, hany⟩ := Option.map_eq_some_iff.mp heval
  obtain ⟨τ, hτ, hserved⟩ := List.any_eq_true.mp hany
  obtain ⟨hpath, hhit⟩ := of_decide_eq_true hserved
  obtain ⟨e, hphase, he⟩ := Task.freshHit?_eq_some hhit
  have hclear := h forgedPath s (Lts.eachStep_of_check (fun _ _ => of_decide_eq_true) hcheck)
    hrun τ hτ
  have hcontent := (hclear _ hphase rfl).1
  rw [hpath, show ((Reply.fresh e).response sampleSetup).content = 1 from he] at hcontent
  exact absurd hcontent (by decide)

end Edge

end Cdn

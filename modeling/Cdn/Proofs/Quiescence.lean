/-
An edge that has shut down is at rest.

The service keeps a set of its revalidations, and one that is under way is always in it.  After a
drain that ended in time no request for a file is in flight, and the gate lets no other in; so no
call is under way, no new revalidation is created, and the ones there are were all cancelled and
waited for.  What is left has no task to run, and asks nothing of the origin again.

A drain that timed out promises less: a request that goes on may create a revalidation while
the handler waits for the others, and that one is forgotten with the set.
-/
import Cdn.EdgeProcess
import Cdn.Proofs.Drain
import Cdn.Proofs.Flight
import Cdn.Proofs.Leader

namespace Cdn

variable {β : Type} {S : Setup β}

/-- A revalidation that has not ended. -/
def Phase.background : Phase β → Bool
  | .scheduled | .fetching .background _ => true
  | _ => false

theorem Phase.over_of_background {phase : Phase β} (h : phase.background = true) :
    phase.over = false := by
  cases phase <;> first | rfl | cases h

@[simp] theorem background_endPhase (role : Role) (call : Call β) (result : Except Exn (Reply β)) :
    (Edge.endPhase role call result).background = false := by
  cases role <;> cases result <;> first | rfl | (rename_i x; cases x <;> rfl)

@[simp] theorem over_endPhase (role : Role) (call : Call β) (result : Except Exn (Reply β)) :
    (Edge.endPhase role call result).over = true := by
  cases role <;> cases result <;> first | rfl | (rename_i x; cases x <;> rfl)

namespace Edge

variable {s m : Edge β} {a : Action β}

/-! ### The set of revalidations -/

/-- A revalidation that has not ended is in the set. -/
def Tracked (s : Edge β) : Prop :=
  ∀ (t : Nat) (τ : Task β), s.tasks[t]? = some τ → τ.phase.background = true →
    t ∈ s.revalidationTasks

theorem tracked_append {τ : Task β} (h : Tracked s) (hτ : τ.phase.background = false)
    (htasks : m.tasks = s.tasks ++ [τ]) (hset : m.revalidationTasks = s.revalidationTasks) :
    Tracked m := by
  rw [Tracked, htasks, hset]
  exact Slots.forall_append h fun hback => by rw [hτ] at hback; cases hback

theorem tracked_modify {t : Nat} {call : Call β} {phase phase' : Phase β} (h : Tracked s)
    (ht : s.tasks[t]? = some ⟨call, phase⟩)
    (htasks : m.tasks = s.tasks.modify t fun τ => { τ with phase := phase' })
    (hphase : phase'.background = true → phase.background = true)
    (hset : ∀ u ∈ s.revalidationTasks,
      u ∈ m.revalidationTasks ∨ u = t ∧ phase'.background = false) : Tracked m := by
  intro u τ hτ hback
  rw [htasks] at hτ
  by_cases hu : t = u
  · subst hu
    rw [List.getElem?_modify_eq, ht] at hτ
    cases hτ
    refine (hset t (h t _ ht (hphase hback))).resolve_right ?_
    rintro ⟨-, hnot⟩
    exact Bool.false_ne_true (hnot.symm.trans hback)
  · rw [List.getElem?_modify_ne _ _ hu] at hτ
    exact (hset u (h u τ hτ hback)).resolve_right fun hc => hu hc.1.symm

/-- The end of a task takes out of the set no more than the task. -/
theorem mem_revalidationTasks_conclude {t : Nat} {role : Role} {call : Call β}
    {result : Except Exn (Reply β)} {u : Nat} (hu : u ∈ s.revalidationTasks) :
    u ∈ (s.conclude t role call result).revalidationTasks ∨ u = t := by
  cases role with
  | background =>
      by_cases hut : u = t
      · exact Or.inr hut
      · exact Or.inl ((List.mem_erase_of_ne hut).mpr hu)
  | _ => exact Or.inl hu

theorem tracked_conclude {t : Nat} {role : Role} {call : Call β} {phase : Phase β}
    {result : Except Exn (Reply β)} (h : Tracked s) (ht : s.tasks[t]? = some ⟨call, phase⟩) :
    Tracked (s.conclude t role call result) :=
  tracked_modify h ht (conclude_tasks ..) (by simp)
    fun _ hu => (mem_revalidationTasks_conclude hu).imp_right fun hut => ⟨hut, by simp⟩

theorem Move.tracked (h : Tracked s) (hmove : Move S s a m) : Tracked m := by
  cases hmove with
  | fresh | stale | turnedAway | joined => exact tracked_append h rfl rfl rfl
  | led hmiss hopen hfree hallow =>
      exact tracked_append h rfl (led_tasks ..) rfl
  | refused hmiss hopen hfree hrefuse =>
      exact tracked_append h (background_endPhase ..) (refused_tasks ..) rfl
  | @scheduled path rh e hcached hservable hlisted =>
      set returned := s.tasks ++ [(⟨s.arrival S path rh, .returned (.stale e)⟩ : Task β)]
      have hreturned : ∀ (u : Nat) (τ : Task β), returned[u]? = some τ →
          τ.phase.background = true → u ∈ s.revalidationTasks :=
        Slots.forall_append h fun hback => by cases hback
      exact Slots.forall_append
        (P := fun u τ => τ.phase.background = true → u ∈ s.revalidationTasks ++ [returned.length])
        (fun u τ hτ hback => List.mem_append_left _ (hreturned u τ hτ hback))
        fun _ => List.mem_append_right _ List.mem_cons_self
  | @answered t call role outcome ht =>
      refine tracked_modify h ht rfl (fun hback => ?_) fun u hu => Or.inl hu
      cases role <;> first | rfl | cases hback
  | revalidating ht hallow => exact tracked_modify h ht rfl (fun _ => rfl) fun u hu => Or.inl hu
  | revalidationRefused ht hrefuse => exact tracked_conclude h ht
  | coalesced ht hset hfound =>
      exact tracked_modify h ht rfl (fun hback => by cases hback) fun u hu => Or.inl hu
  | retried ht hset habsent hallow =>
      exact tracked_modify h ht rfl (fun hback => by cases hback) fun u hu => Or.inl hu
  | retryRefused ht hset habsent hrefuse => exact tracked_conclude h ht
  | @settled t call role r filed response ht hsettle =>
      have hfile : Tracked (({ s with
          circuitBreaker := s.circuitBreaker.recordSuccess } : Edge β).file filed) := by
        cases filed <;> exact h
      exact tracked_conclude hfile (by rw [file_tasks]; exact ht)
  | unsettled ht hsettle => exact tracked_conclude h ht
  | failed ht => exact tracked_conclude h ht
  | cancelledScheduled ht =>
      exact tracked_modify h ht rfl (fun hback => by cases hback) fun u hu => Or.inl hu
  | cancelledWaiting ht =>
      exact tracked_modify h ht rfl (fun hback => by cases hback) fun u hu => Or.inl hu
  | cancelledFetching ht => exact tracked_conclude h ht
  | purged | ticked | reset => exact h

theorem mem_of_mem_conclude {t u : Nat} {role : Role} {call : Call β}
    {result : Except Exn (Reply β)} (hu : u ∈ (s.conclude t role call result).revalidationTasks) :
    u ∈ s.revalidationTasks := by
  cases role with
  | background => exact List.mem_of_mem_erase hu
  | _ => exact hu

/-- Only an arrival adds to the set. -/
theorem Move.revalidationTasks_subset (hmove : Move S s a m) (ha : ∀ path rh, a ≠ .arrive path rh)
    {u : Nat} (hu : u ∈ m.revalidationTasks) : u ∈ s.revalidationTasks := by
  cases hmove with
  | fresh | stale | scheduled | turnedAway | joined | led | refused => exact absurd rfl (ha _ _)
  | revalidationRefused | unsettled | failed | cancelledFetching | retryRefused =>
      have hmem := mem_of_mem_conclude hu
      exact hmem
  | @settled t call role r filed response ht hsettle =>
      have hmem := mem_of_mem_conclude hu
      cases filed <;> exact hmem
  | _ => exact hu

/-- A call that has not ended. -/
def Calling (τ : Task β) : Prop := τ.phase.over = false ∧ τ.phase.background = false

/-- A call that has not ended had not ended before, or arrives. -/
theorem Move.calling (hmove : Move S s a m) : ∀ (t : Nat) (τ : Task β), m.tasks[t]? = some τ →
    Calling τ → (∃ τ', s.tasks[t]? = some τ' ∧ Calling τ') ∨
      t = s.tasks.length ∧ ∃ path rh, a = .arrive path rh := by
  have hold : ∀ (t : Nat) (τ : Task β), s.tasks[t]? = some τ → Calling τ →
      (∃ τ', s.tasks[t]? = some τ' ∧ Calling τ') ∨
        t = s.tasks.length ∧ ∃ path rh, a = .arrive path rh :=
    fun t τ hτ hcalling => Or.inl ⟨τ, hτ, hcalling⟩
  have hmodify : ∀ {t : Nat} {call : Call β} {phase phase' : Phase β},
      s.tasks[t]? = some ⟨call, phase⟩ → (Calling ⟨call, phase'⟩ → Calling ⟨call, phase⟩) →
      ∀ (u : Nat) (τ : Task β),
        (s.tasks.modify t fun τ => { τ with phase := phase' })[u]? = some τ → Calling τ →
        (∃ τ', s.tasks[u]? = some τ' ∧ Calling τ') ∨
          u = s.tasks.length ∧ ∃ path rh, a = .arrive path rh :=
    fun ht hphase => Slots.forall_modify
      (P := fun u τ => Calling τ → (∃ τ', s.tasks[u]? = some τ' ∧ Calling τ') ∨
        u = s.tasks.length ∧ ∃ path rh, a = .arrive path rh) hold ht
      fun hcalling => Or.inl ⟨_, ht, hphase hcalling⟩
  cases hmove with
  | fresh | stale | turnedAway | joined =>
      exact Slots.forall_append hold fun _ => Or.inr ⟨rfl, _, _, rfl⟩
  | led hmiss hopen hfree hallow =>
      rw [led_tasks]
      exact Slots.forall_append hold fun _ => Or.inr ⟨rfl, _, _, rfl⟩
  | refused hmiss hopen hfree hrefuse =>
      rw [refused_tasks]
      exact Slots.forall_append hold fun _ => Or.inr ⟨rfl, _, _, rfl⟩
  | scheduled hcached hservable hlisted =>
      exact Slots.forall_append
        (Slots.forall_append hold fun _ => Or.inr ⟨rfl, _, _, rfl⟩)
        fun hcalling => absurd hcalling.2 (by simp [Phase.background])
  | @answered t call role outcome ht =>
      refine hmodify ht fun h => ⟨rfl, ?_⟩
      cases role <;> first | rfl | exact h.2
  | revalidating ht hallow => exact hmodify ht fun h => absurd h.2 (by simp [Phase.background])
  | coalesced ht hset hfound => exact hmodify ht fun h => absurd h.1 (by simp [Phase.over])
  | retried ht hset habsent hallow => exact hmodify ht fun _ => ⟨rfl, rfl⟩
  | cancelledScheduled ht => exact hmodify ht fun h => absurd h.1 (by simp [Phase.over])
  | cancelledWaiting ht => exact hmodify ht fun h => absurd h.1 (by simp [Phase.over])
  | settled ht hsettle =>
      rw [conclude_tasks, file_tasks]
      exact hmodify ht fun h => absurd h.1 (by simp)
  | revalidationRefused ht | retryRefused ht | unsettled ht | failed ht | cancelledFetching ht =>
      rw [conclude_tasks]
      exact hmodify ht fun h => absurd h.1 (by simp)
  | purged | ticked | reset => exact hold

end Edge

/-! ### The shutdown handler -/

namespace EdgeApp

variable {s s' : EdgeApp} {b : Action}

/-- What a step of the handler does before the revalidations have ended. -/
theorem handler_cases (hb : b = .shutdown ∨ b = .drained ∨ b = .timeout)
    (h : s.step b = some s') : s'.requests = s.requests ∧
      s'.revalidationTasks = s.revalidationTasks ∧ (s.stage = .notCalled ∨ s.stage = .draining) ∧
      (s'.stage = .draining ∨ ∃ timedOut, s'.stage = .cancelled timedOut ∨
        s'.stage = .closing timedOut ∧ s.revalidationTasks = 0) := by
  have hcancel : ∀ (u : EdgeApp) (timedOut : Bool),
      (u.cancelRevalidations timedOut).requests = u.requests ∧
        (u.cancelRevalidations timedOut).revalidationTasks = u.revalidationTasks ∧
        ((u.cancelRevalidations timedOut).stage = .cancelled timedOut ∨
          (u.cancelRevalidations timedOut).stage = .closing timedOut ∧ u.revalidationTasks = 0) := by
    intro u timedOut
    unfold cancelRevalidations
    split
    · rename_i hnone
      exact ⟨rfl, rfl, Or.inr ⟨rfl, hnone⟩⟩
    · exact ⟨rfl, rfl, Or.inl rfl⟩
  cases step_cases h with
  | called hstage =>
      unfold onShutdown
      dsimp only
      split
      · exact ⟨rfl, rfl, Or.inl hstage, Or.inl rfl⟩
      · obtain ⟨hrequests, htasks, hend⟩ := hcancel { s with shuttingDown := true } false
        exact ⟨hrequests, htasks, Or.inl hstage, Or.inr ⟨false, hend⟩⟩
  | woken hstage hset =>
      obtain ⟨hrequests, htasks, hend⟩ := hcancel s false
      exact ⟨hrequests, htasks, Or.inr hstage, Or.inr ⟨false, hend⟩⟩
  | timedOut hstage =>
      obtain ⟨hrequests, htasks, hend⟩ := hcancel s true
      exact ⟨hrequests, htasks, Or.inr hstage, Or.inr ⟨true, hend⟩⟩
  | _ => simp at hb

end EdgeApp

namespace EdgeProcess

variable {s s' : EdgeProcess β} {a : Action β}

/-! ### The invariant -/

/-- The handler has stopped waiting, after the drain had ended in time. -/
def Stopped (s : EdgeProcess β) : Prop :=
  s.app.stage = .closing false ∨ s.app.stage = .done false

/-- The handler has not yet forgotten revalidations. -/
def Keeps : ShutdownStage → Prop
  | .closing true | .done true => False
  | _ => True

structure Ok (s : EdgeProcess β) : Prop where
  app : s.app.Ok
  flight : SingleFlight.Ok s.edge.flight
  count : s.app.revalidationTasks = s.edge.revalidationTasks.length
  tracked : Keeps s.app.stage → s.edge.Tracked
  /-- A call is made for a request for a file, which is in flight until the call has ended. -/
  served : ∀ (t : Nat) (τ : Task β), s.edge.tasks[t]? = some τ → Edge.Calling τ →
    ∃ i path file, (i, t) ∈ s.serving ∧ s.app.requests[i]? = some ⟨path, .inFlight⟩ ∧
      filePath? path = some file
  cancelled : s.app.stage = .cancelled false → ∀ t ∈ s.edge.revalidationTasks, t ∈ s.cancelling
  cleared : s.Stopped → s.edge.revalidationTasks = []

theorem ok_start (store : LruCacheStore β) (breaker : CircuitBreaker) (wall mono : Time) :
    Ok (start store breaker wall mono) where
  app := EdgeApp.ok_start
  flight := Edge.ok_start store breaker wall mono
  count := rfl
  tracked := fun _ t τ h => by cases h
  served := fun t τ h => by cases h
  cancelled := fun h => by cases h
  cleared := fun _ => rfl

/-- After a drain in time no request for a file is in flight. -/
theorem Ok.no_file (ok : s.Ok) (htime : s.app.stage.inTime = true) {i : Nat} {path file : String}
    (hi : s.app.requests[i]? = some ⟨path, .inFlight⟩) : filePath? path ≠ some file := by
  have hdrained := ok.app.graceful.drained htime
  have hhealth : path = "/health" := hdrained _ (List.mem_of_getElem? hi) rfl
  rw [hhealth]
  have hnone : filePath? "/health" = none := by decide
  rw [hnone]
  simp

/-- So no call is under way. -/
theorem Ok.no_call (ok : s.Ok) (htime : s.app.stage.inTime = true) {t : Nat} {τ : Task β}
    (hτ : s.edge.tasks[t]? = some τ) : ¬ Edge.Calling τ := by
  intro hcalling
  obtain ⟨i, path, file, -, hi, hfile⟩ := ok.served t τ hτ hcalling
  exact ok.no_file htime hi hfile

theorem Stopped.inTime (h : s.Stopped) : s.app.stage.inTime = true := by
  rcases h with h | h <;> rw [h] <;> rfl

/-! ### Steps -/

/-- A step of the gate alone that keeps the requests in flight, but for those that have called
nothing or whose calls are over. -/
theorem Ok.gated (ok : s.Ok) {app : EdgeApp} (happ : app.Ok)
    (htasks : app.revalidationTasks = s.app.revalidationTasks)
    (hrequests : ∀ (i t : Nat) (path : String), (i, t) ∈ s.serving → ¬ Over s.edge t →
      s.app.requests[i]? = some ⟨path, .inFlight⟩ → app.requests[i]? = some ⟨path, .inFlight⟩)
    (hstage : app.stage = s.app.stage ∨
      ∃ timedOut, s.app.stage = .closing timedOut ∧ app.stage = .done timedOut) :
    Ok { s with app } where
  app := happ
  flight := ok.flight
  count := htasks.trans ok.count
  tracked := fun hkeeps => by
    refine ok.tracked ?_
    rcases hstage with h | ⟨timedOut, hold, hnew⟩
    · exact h ▸ hkeeps
    · rw [show app.stage = .done timedOut from hnew] at hkeeps
      rw [hold]
      cases timedOut <;> exact hkeeps
  served := fun t τ hτ hcalling => by
    obtain ⟨i, path, file, hserving, hi, hfile⟩ := ok.served t τ hτ hcalling
    have hnot : ¬ Over s.edge t := fun hover => by
      have h := hover τ hτ
      rw [hcalling.1] at h
      cases h
    exact ⟨i, path, file, hserving, hrequests i t path hserving hnot hi, hfile⟩
  cancelled := fun hcancelled => by
    rcases hstage with h | ⟨timedOut, hold, hnew⟩
    · exact ok.cancelled (h.symm.trans hcancelled)
    · cases hnew.symm.trans hcancelled
  cleared := fun hstopped => by
    rcases hstage with h | ⟨timedOut, hold, hnew⟩
    · exact ok.cleared (hstopped.imp h.symm.trans h.symm.trans)
    · rcases hstopped with hc | hd
      · cases hnew.symm.trans hc
      · cases hnew.symm.trans hd
        exact ok.cleared (Or.inl hold)

/-- A step of the service. -/
theorem Ok.took (ok : s.Ok) {b : Cdn.Action β} {edge : Edge β} {serving : List (Nat × Nat)}
    (hstep : s.edge.step S b = some edge) (hserving : s.serving ⊆ serving)
    (harrival : ∀ path rh, b = .arrive path rh → s.app.stage.inTime = false ∧
      ∃ i path file, (i, s.edge.tasks.length) ∈ serving ∧
        s.app.requests[i]? = some ⟨path, .inFlight⟩ ∧ filePath? path = some file) :
    Ok { s with edge, app := s.gateAfter edge, serving } := by
  obtain ⟨m, hmove, hm⟩ := Edge.move_of_step hstep
  have hset : s.app.stage.inTime = true → ∀ u ∈ edge.revalidationTasks,
      u ∈ s.edge.revalidationTasks := by
    intro htime u hu
    rw [hm] at hu
    refine hmove.revalidationTasks_subset (fun path rh hb => ?_) hu
    rw [(harrival path rh hb).1] at htime
    cases htime
  refine ⟨EdgeApp.ok_with ok.app _ Iff.rfl id, Edge.ok_step _ _ _ ok.flight hstep, rfl,
    fun hkeeps => ?_, fun t τ hτ hcalling => ?_, fun hcancelled u hu => ?_, fun hstopped => ?_⟩
  · have hm' : Edge.Tracked m := Edge.Move.tracked (ok.tracked hkeeps) hmove
    rw [hm]
    exact hm'
  · rw [hm] at hτ
    rcases hmove.calling t τ hτ hcalling with ⟨τ', hτ', hcalling'⟩ | ⟨rfl, path, rh, hb⟩
    · obtain ⟨i, path, file, hmem, hi, hfile⟩ := ok.served t τ' hτ' hcalling'
      exact ⟨i, path, file, hserving hmem, hi, hfile⟩
    · exact (harrival path rh hb).2
  · have hstage : s.app.stage = .cancelled false := hcancelled
    exact ok.cancelled hcancelled u (hset (by rw [hstage]; rfl) u hu)
  · refine List.eq_nil_iff_forall_not_mem.mpr fun u hu => ?_
    have hold := hset (Stopped.inTime hstopped) u hu
    rw [ok.cleared hstopped] at hold
    cases hold

theorem ok_step (ok : s.Ok) (hstep : s.step S a = some s') : s'.Ok := by
  cases moved_of_step hstep with
  | @requested path app happ =>
      have hok := EdgeApp.ok_step _ _ _ ok.app happ
      cases happ
      refine ok.gated hok ?_ (fun i t path' _ _ hi => ?_) (Or.inl ?_)
      · unfold EdgeApp.gate
        split <;> rfl
      · unfold EdgeApp.gate
        split <;> exact Slots.get?_append hi
      · unfold EdgeApp.gate
        split <;> rfl
  | @served i rh path file edge hi hfile hedge =>
      refine ok.took hedge (List.subset_cons_self _ _) fun _ _ _ =>
        ⟨?_, i, path, file, List.mem_cons_self, hi, hfile⟩
      cases htime : s.app.stage.inTime with
      | false => rfl
      | true => exact absurd hfile (ok.no_file htime hi)
  | @finished i raised app hover happ =>
      have hok := EdgeApp.ok_step _ _ _ ok.app happ
      replace happ : s.app.leave i raised = some app := happ
      unfold EdgeApp.leave at happ
      split at happ
      · cases happ
        refine ok.gated hok rfl (fun j t path hserving hnot hj => ?_) (Or.inl rfl)
        have hne : i ≠ j := fun hij => hnot (hover (j, t) hserving hij.symm)
        exact (List.getElem?_modify_ne _ _ hne).trans hj
      · cases happ
  | took hb hedge =>
      exact ok.took hedge (List.Subset.refl _) fun path rh h => absurd h (hb path rh)
  | @handled _ b app hb happ =>
      have hok := EdgeApp.ok_step _ _ _ ok.app happ
      obtain ⟨hrequests, htasks, hbefore, hafter⟩ := EdgeApp.handler_cases hb happ
      refine ⟨hok, ok.flight, htasks.trans ok.count, fun _ => ok.tracked ?_,
        fun t τ hτ hcalling => ?_, fun hcancelled u hu => ?_, fun hstopped => ?_⟩
      · rcases hbefore with h | h <;> rw [h] <;> trivial
      · obtain ⟨i, path, file, hserving, hi, hfile⟩ := ok.served t τ hτ hcalling
        exact ⟨i, path, file, hserving, hrequests ▸ hi, hfile⟩
      · have hstage : app.stage = .cancelled false := hcancelled
        show u ∈ if app.stage = .draining then s.cancelling else s.edge.revalidationTasks
        rw [hstage, if_neg (by simp)]
        exact hu
      · have hnone : s.app.revalidationTasks = 0 := by
          have hstage : app.stage = .closing false ∨ app.stage = .done false := hstopped
          rcases hafter with h | ⟨timedOut, h | ⟨-, hnone⟩⟩
          · rw [h] at hstage
            simp at hstage
          · rw [h] at hstage
            simp at hstage
          · exact hnone
        exact List.length_eq_zero_iff.mp (ok.count.symm.trans hnone)
  | @gathered app hover happ =>
      have hok := EdgeApp.ok_step _ _ _ ok.app happ
      cases EdgeApp.step_cases happ with
      | @gathered timedOut hstage =>
          have hnot : ShutdownStage.closing timedOut ≠ .cancelled false := by simp
          refine ⟨hok, ok.flight, rfl, fun hkeeps t τ hτ hback => ?_, ok.served,
            fun h => absurd h hnot, fun _ => rfl⟩
          cases timedOut with
          | true => exact hkeeps.elim
          | false =>
              -- a revalidation that has not ended would have been waited for
              have hmem := ok.tracked (by rw [hstage]; trivial) t τ hτ hback
              have hend : τ.phase.over = true := hover t (ok.cancelled hstage t hmem) τ hτ
              rw [Phase.over_of_background hback] at hend
              cases hend
  | @closed app happ =>
      have hok := EdgeApp.ok_step _ _ _ ok.app happ
      cases EdgeApp.step_cases happ with
      | @closed timedOut hstage =>
          exact ok.gated hok rfl (fun _ _ _ _ _ hi => hi) (Or.inr ⟨timedOut, hstage, rfl⟩)

/-! ### At rest -/

/-- Nothing is under way, nobody leads, and the set is empty. -/
structure AtRest (s : Edge β) : Prop where
  ended : ∀ (t : Nat) (τ : Task β), s.tasks[t]? = some τ → τ.phase.over = true
  table : s.inflight = ∅
  set : s.revalidationTasks = []

theorem Ok.atRest (ok : s.Ok) (hstopped : s.Stopped) : AtRest s.edge := by
  have hset := ok.cleared hstopped
  have hover : ∀ (t : Nat) (τ : Task β), s.edge.tasks[t]? = some τ → τ.phase.over = true := by
    intro t τ hτ
    by_contra hlive
    have hcalling := ok.no_call hstopped.inTime hτ
    have hback : τ.phase.background = true := by
      by_contra hnot
      exact hcalling ⟨Bool.eq_false_of_not_eq_true hlive, Bool.eq_false_of_not_eq_true hnot⟩
    have hkeeps : Keeps s.app.stage := by rcases hstopped with h | h <;> rw [h] <;> trivial
    have hmem := ok.tracked hkeeps t τ hτ hback
    rw [hset] at hmem
    cases hmem
  have hlead : ∀ t k e, ¬ s.edge.Leads t k e := by
    rintro t k e ⟨call, outcome, ht, -⟩
    cases hover t _ ht
  exact ⟨hover, Dict.eq_empty (ok.flight.table_empty fun t k e h =>
    hlead t k e (Edge.leads_iff.mpr h)), hset⟩

/-- At rest, a step that is not an arrival asks nothing of the origin. -/
theorem AtRest.silent {e e' : Edge β} {b : Cdn.Action β} (h : AtRest e)
    (hb : ∀ path rh, b ≠ .arrive path rh) (hstep : e.step S b = some e') :
    e'.originCalls = e.originCalls := by
  obtain ⟨m, hmove, rfl⟩ := Edge.move_of_step hstep
  rcases hmove.originCalls with hcalls | ⟨c, -, hsends⟩
  · exact hcalls
  · generalize c.task = u at hsends
    cases hsends with
    | led => exact absurd rfl (hb _ _)
    | revalidating ht => cases h.ended _ _ ht
    | retried ht => cases h.ended _ _ ht

/-- Once the handler has stopped waiting, it has, and the origin is left alone. -/
theorem stopped_step (ok : s.Ok) (hstopped : s.Stopped) (hstep : s.step S a = some s') :
    s'.Stopped ∧ s'.edge.originCalls = s.edge.originCalls := by
  have hnot : ∀ {b : EdgeApp.Action} {app : EdgeApp},
      b = .shutdown ∨ b = .drained ∨ b = .timeout ∨ b = .gathered → s.app.step b ≠ some app := by
    intro b app hb happ
    rcases hstopped with h | h <;> rcases hb with rfl | rfl | rfl | rfl <;>
      simp [EdgeApp.step, h] at happ
  cases moved_of_step hstep with
  | @requested path app happ =>
      cases happ
      refine ⟨?_, rfl⟩
      show (s.app.gate path).stage = _ ∨ (s.app.gate path).stage = _
      unfold EdgeApp.gate
      split <;> exact hstopped
  | served hi hfile hedge => exact absurd hfile (ok.no_file hstopped.inTime hi)
  | @finished i raised app hover happ =>
      replace happ : s.app.leave i raised = some app := happ
      unfold EdgeApp.leave at happ
      split at happ
      · cases happ
        exact ⟨hstopped, rfl⟩
      · cases happ
  | took hb hedge => exact ⟨hstopped, (ok.atRest hstopped).silent hb hedge⟩
  | handled hb happ => exact absurd happ (hnot (by tauto))
  | gathered hover happ => exact absurd happ (hnot (by simp))
  | closed happ =>
      cases EdgeApp.step_cases happ with
      | @closed timedOut hstage =>
          rcases hstopped with h | h
          · cases h.symm.trans hstage
            exact ⟨Or.inr rfl, rfl⟩
          · cases h.symm.trans hstage

theorem originCalls_of_stopped (q : List (Action β)) (ok : s.Ok) (hstopped : s.Stopped)
    (hrun : Lts.run (step S) s q = some s') : s'.edge.originCalls = s.edge.originCalls := by
  induction q generalizing s with
  | nil => cases hrun; rfl
  | cons a rest ih =>
      obtain ⟨mid, hstep, hrest⟩ := Lts.run_cons.mp hrun
      obtain ⟨hmid, hcalls⟩ := stopped_step ok hstopped hstep
      exact (ih (ok_step ok hstep) hmid hrest).trans hcalls

/-- **An edge that has shut down in time is at rest.**  When the handler has cancelled the
revalidations and waited for them, after a drain that ended in time, no task of the service is
under way and no key has a leader; and whatever comes then, the origin is asked nothing more. -/
theorem atRest_of_run (store : LruCacheStore β) (breaker : CircuitBreaker) (wall mono : Time)
    (p : List (Action β)) (s : EdgeProcess β)
    (hrun : Lts.run (step S) (start store breaker wall mono) p = some s) (hstopped : s.Stopped) :
    AtRest s.edge ∧ ∀ q s', Lts.run (step S) s q = some s' →
      s'.edge.originCalls = s.edge.originCalls := by
  have ok : s.Ok := Lts.run_invariant (I := Ok) (fun _ _ _ ok hstep => ok_step ok hstep) p
    (ok_start store breaker wall mono) hrun
  exact ⟨ok.atRest hstopped, fun q s' hq => originCalls_of_stopped q ok hstopped hq⟩

/-! ### A revalidation that is cancelled -/

def stalePage : OriginResponse Nat where
  content := 1
  statusCode := 200
  headers := Dict.ofList [("cache-control", "max-age=10, stale-while-revalidate=100")]

/-- A page is fetched, and returned once more when it is stale; the shutdown comes in between,
waits for the request and cancels the revalidation that it has left behind. -/
def cancelledAtShutdown : List (Action Nat) :=
  [.request "/files/a", .serve 0 none, .edge (.answer 0 (.answered stalePage)), .edge (.resume 0),
    .finish 0 false, .edge (.tick 50 50), .request "/files/a", .serve 1 none, .shutdown,
    .request "/files/b", .finish 1 false, .drained, .cancelled 2, .gathered, .closed]

theorem atRest_of_run_cancelledAtShutdown : ∃ s,
    Lts.run (step sampleSetup) (start { maxSizeBytes := 10 } {} 0 0) cancelledAtShutdown = some s ∧
      s.edge.originCalls.length = 1 ∧ s.edge.tasks.length = 3 ∧ AtRest s.edge ∧
      ∀ q s', Lts.run (step sampleSetup) s q = some s' →
        s'.edge.originCalls = s.edge.originCalls := by
  let first : EdgeProcess Nat := start { maxSizeBytes := 10 } {} 0 0
  have hrun : (Lts.run (step sampleSetup) first cancelledAtShutdown).isSome = true := by
    decide +kernel
  have hend : (Lts.last (step sampleSetup) first cancelledAtShutdown).app.stage = .done false ∧
      (Lts.last (step sampleSetup) first cancelledAtShutdown).edge.originCalls.length = 1 ∧
      (Lts.last (step sampleSetup) first cancelledAtShutdown).edge.tasks.length = 3 := by
    decide +kernel
  obtain ⟨s, hs⟩ := Option.isSome_iff_exists.mp hrun
  simp only [Lts.last, hs, Option.getD_some] at hend
  exact ⟨s, hs, hend.2.1, hend.2.2,
    atRest_of_run { maxSizeBytes := 10 } {} 0 0 cancelledAtShutdown s hs (Or.inr hend.1)⟩

/-- After a timeout it may be otherwise: a request that the handler no longer waits for finds the
page stale while the revalidation of another one is being cancelled, and the revalidation that it
creates is forgotten with the set. -/
def createdTooLate : List (Action Nat) :=
  [.request "/files/a", .serve 0 none, .edge (.answer 0 (.answered stalePage)), .edge (.resume 0),
    .request "/files/a", .edge (.tick 50 50), .request "/files/a", .serve 2 none, .shutdown,
    .timeout, .serve 1 none, .cancelled 2, .gathered]

example :
    let first : EdgeProcess Nat := start { maxSizeBytes := 10 } {} 0 0
    let late := Lts.last (step sampleSetup) first createdTooLate
    late.app.stage = .closing true ∧ late.edge.revalidationTasks = [] ∧
      late.edge.tasks.any (fun τ => τ.phase.background) = true := by decide +kernel

end EdgeProcess

end Cdn

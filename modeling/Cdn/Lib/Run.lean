/-
Runs of a machine given by its step function.

A machine here is a function `step : σ → α → Option σ`: the state it is in, the
action the environment picks, and the state it moves to, or `none` where the
action cannot be taken.  Everything a development says about "every interleaving"
is a statement about `run`, which takes a list of actions in order.

Three rules are what the proofs use.

  * `run_invariant`: what the first state satisfies and no step loses holds at the
    end of every run.
  * `run_guarded`: the same, where the steps keep the invariant only as long as
    each of them meets a condition on the state it is taken in.
  * `always_iff_eachStep`: when a step leads to a good state exactly if it meets
    the condition, the run is good throughout exactly if each of its steps does.
-/
import Mathlib.Logic.Relation

namespace Lts

variable {σ α τ : Type} {step : σ → α → Option σ}

/-- Take the actions in order; `none` as soon as one of them cannot be taken. -/
def run (step : σ → α → Option σ) : σ → List α → Option σ
  | s, [] => some s
  | s, a :: rest => (step s a).bind fun s' => run step s' rest

/-- Every step the run takes meets `C` in the state it is taken in. -/
def EachStep (step : σ → α → Option σ) (C : σ → α → Prop) : σ → List α → Prop
  | _, [] => True
  | s, a :: rest => ∀ s', step s a = some s' → C s a ∧ EachStep step C s' rest

/-- `P` holds of every state the run visits, the first one included. -/
def Always (step : σ → α → Option σ) (P : σ → Prop) : σ → List α → Prop
  | s, [] => P s
  | s, a :: rest => P s ∧ ∀ s', step s a = some s' → Always step P s' rest

/-! ### Taking a run apart -/

@[simp] theorem run_nil (s : σ) : run step s [] = some s := rfl

theorem run_cons {s s' : σ} {a : α} {rest : List α} :
    run step s (a :: rest) = some s' ↔
      ∃ mid, step s a = some mid ∧ run step mid rest = some s' := by
  simp [run, Option.bind_eq_some_iff]

theorem run_singleton {s s' : σ} {a : α} : run step s [a] = some s' ↔ step s a = some s' := by
  simp [run_cons]

/-- A run in two parts. -/
theorem run_append {s s' : σ} {p q : List α} :
    run step s (p ++ q) = some s' ↔ ∃ mid, run step s p = some mid ∧ run step mid q = some s' := by
  induction p generalizing s with
  | nil => simp
  | cons a rest ih =>
      rw [List.cons_append, run_cons]
      constructor
      · rintro ⟨m, ha, hrun⟩
        obtain ⟨mid, hp, hq⟩ := ih.mp hrun
        exact ⟨mid, run_cons.mpr ⟨m, ha, hp⟩, hq⟩
      · rintro ⟨mid, hp, hq⟩
        obtain ⟨m, ha, hrest⟩ := run_cons.mp hp
        exact ⟨m, ha, ih.mpr ⟨mid, hrest, hq⟩⟩

/-- The state a run ends in; where it cannot be taken, the state it starts in. -/
def last (step : σ → α → Option σ) (s : σ) (p : List α) : σ := (run step s p).getD s

/-- A run that can be evaluated, as an equation. -/
theorem run_last {s : σ} {p : List α} (h : (run step s p).isSome = true) :
    run step s p = some (last step s p) := by
  obtain ⟨s', hs'⟩ := Option.isSome_iff_exists.mp h
  rw [last, hs', Option.getD_some]

/-! ### Invariants -/

/-- What holds at first and no step loses holds after every run. -/
theorem run_invariant {I : σ → Prop}
    (hstep : ∀ s a s', I s → step s a = some s' → I s') :
    ∀ (p : List α) {s s' : σ}, I s → run step s p = some s' → I s' := by
  intro p
  induction p with
  | nil =>
      intro s s' h hrun
      rw [run_nil, Option.some.injEq] at hrun
      exact hrun ▸ h
  | cons a rest ih =>
      intro s s' h hrun
      obtain ⟨mid, ha, hrest⟩ := run_cons.mp hrun
      exact ih (hstep s a mid h ha) hrest

/-- The same for steps that keep the invariant only where they meet `C`. -/
theorem run_guarded {I : σ → Prop} {C : σ → α → Prop}
    (hstep : ∀ s a s', I s → C s a → step s a = some s' → I s') :
    ∀ (p : List α) {s s' : σ}, I s → EachStep step C s p → run step s p = some s' → I s' := by
  intro p
  induction p with
  | nil =>
      intro s s' h _ hrun
      rw [run_nil, Option.some.injEq] at hrun
      exact hrun ▸ h
  | cons a rest ih =>
      intro s s' h hc hrun
      obtain ⟨mid, ha, hrest⟩ := run_cons.mp hrun
      obtain ⟨hca, hcrest⟩ := hc mid ha
      exact ih (hstep s a mid h hca ha) hcrest hrest

/-- And it holds of every state such a run visits. -/
theorem always_of_guarded {I : σ → Prop} {C : σ → α → Prop}
    (hstep : ∀ s a s', I s → C s a → step s a = some s' → I s') :
    ∀ (p : List α) {s : σ}, I s → EachStep step C s p → Always step I s p := by
  intro p
  induction p with
  | nil => intro s h _; exact h
  | cons a rest ih =>
      intro s h hc
      refine ⟨h, fun s' ha => ?_⟩
      obtain ⟨hca, hcrest⟩ := hc s' ha
      exact ih (hstep s a s' h hca ha) hcrest

/-- What an invariant gives of a step holds of each step of a run. -/
theorem eachStep_of_invariant {I : σ → Prop} {C : σ → α → Prop}
    (hinv : ∀ s a s', I s → step s a = some s' → I s')
    (hC : ∀ s a s', I s → step s a = some s' → C s a) :
    ∀ (p : List α) {s : σ}, I s → EachStep step C s p := by
  intro p
  induction p with
  | nil => intro s _; trivial
  | cons a rest ih =>
      intro s hI s' hs'
      exact ⟨hC s a s' hI hs', ih (hinv s a s' hI hs')⟩

/-- Two conditions met by every step are met together. -/
theorem EachStep.and {C D : σ → α → Prop} :
    ∀ {p : List α} {s : σ}, EachStep step C s p → EachStep step D s p →
      EachStep step (fun s a => C s a ∧ D s a) s p := by
  intro p
  induction p with
  | nil => intro s _ _; trivial
  | cons a rest ih =>
      intro s hc hd s' h
      exact ⟨⟨(hc s' h).1, (hd s' h).1⟩, ih (hc s' h).2 (hd s' h).2⟩

theorem EachStep.mono {C D : σ → α → Prop} (h : ∀ s a, C s a → D s a) :
    ∀ {p : List α} {s : σ}, EachStep step C s p → EachStep step D s p := by
  intro p
  induction p with
  | nil => intro s _; trivial
  | cons a rest ih =>
      intro s hc s' hs'
      exact ⟨h s a (hc s' hs').1, ih (hc s' hs').2⟩

/-- A run meets a condition exactly if its two halves do. -/
theorem eachStep_append {C : σ → α → Prop} {p q : List α} :
    ∀ {s mid : σ}, run step s p = some mid → EachStep step C s (p ++ q) →
      EachStep step C s p ∧ EachStep step C mid q := by
  induction p with
  | nil =>
      intro s mid hrun h
      rw [run_nil, Option.some.injEq] at hrun
      exact ⟨trivial, hrun ▸ h⟩
  | cons a rest ih =>
      intro s mid hrun h
      obtain ⟨m, ha, hrest⟩ := run_cons.mp hrun
      obtain ⟨hca, hcrest⟩ := h m ha
      obtain ⟨hl, hr⟩ := ih hrest hcrest
      refine ⟨fun s' hs' => ?_, hr⟩
      rw [ha, Option.some.injEq] at hs'
      exact ⟨hca, hs' ▸ hl⟩

/-- The run visits the state: it is where some first part of the run leads. -/
def Visits (step : σ → α → Option σ) (s : σ) (p : List α) (u : σ) : Prop :=
  ∃ q, q <+: p ∧ run step s q = some u

/-- The run takes the action in the state: a first part of it leads there, and the action is
the next. -/
def Takes (step : σ → α → Option σ) (s : σ) (p : List α) (u : σ) (a : α) : Prop :=
  ∃ before after, p = before ++ a :: after ∧ run step s before = some u

theorem Takes.visits {s u : σ} {p : List α} {a : α} (h : Takes step s p u a) :
    Visits step s p u := by
  obtain ⟨before, after, hp, hrun⟩ := h
  exact ⟨before, ⟨a :: after, hp.symm⟩, hrun⟩

theorem eachStep_takes_of_append {s : σ} {p : List α} (rest : List α) :
    ∀ {q : List α} {u : σ}, p = q ++ rest → run step s q = some u →
      EachStep step (Takes step s p) u rest := by
  induction rest with
  | nil => intro q u _ _; trivial
  | cons a rest ih =>
      intro q u hp hrun u' hu'
      refine ⟨⟨q, rest, hp, hrun⟩, ih (q := q ++ [a]) (by simpa using hp) ?_⟩
      exact run_append.mpr ⟨u, hrun, run_singleton.mpr hu'⟩

/-- Each step of a run is one that the run takes. -/
theorem eachStep_takes (s : σ) (p : List α) : EachStep step (Takes step s p) s p :=
  eachStep_takes_of_append p (List.nil_append p).symm rfl

/-- Each step of a run is taken in a state the run visits. -/
theorem eachStep_visits (s : σ) (p : List α) :
    EachStep step (fun u _ => Visits step s p u) s p :=
  (eachStep_takes s p).mono fun _ _ => Takes.visits

/-- A run of a machine that computes, tested step by step. -/
def checkEach (step : σ → α → Option σ) (c : σ → α → Bool) : σ → List α → Bool
  | _, [] => true
  | s, a :: rest =>
      match step s a with
      | some s' => c s a && checkEach step c s' rest
      | none => true

theorem eachStep_of_check {c : σ → α → Bool} {C : σ → α → Prop}
    (h : ∀ s a, c s a = true → C s a) :
    ∀ {p : List α} {s : σ}, checkEach step c s p = true → EachStep step C s p := by
  intro p
  induction p with
  | nil => intro s _; trivial
  | cons a rest ih =>
      intro s hcheck s' hs'
      rw [checkEach, hs', Bool.and_eq_true] at hcheck
      exact ⟨h s a hcheck.1, ih hcheck.2⟩

/-- A run that fails its test at some step does not meet the condition tested. -/
theorem check_of_eachStep {c : σ → α → Bool} {C : σ → α → Prop}
    (h : ∀ s a, C s a → c s a = true) :
    ∀ {p : List α} {s : σ}, EachStep step C s p → checkEach step c s p = true := by
  intro p
  induction p with
  | nil => intro s _; rfl
  | cons a rest ih =>
      intro s hsteps
      rw [checkEach]
      split
      · rename_i s' hs'
        obtain ⟨hC, hrest⟩ := hsteps s' hs'
        rw [h s a hC, ih hrest, Bool.and_self]
      · rfl

/-! ### The exact condition -/

theorem Always.head {P : σ → Prop} {s : σ} {p : List α} (h : Always step P s p) : P s := by
  cases p with
  | nil => exact h
  | cons a rest => exact h.1

/-- The last state of a run is one of the states it visits. -/
theorem Always.last {P : σ → Prop} {p : List α} :
    ∀ {s s' : σ}, Always step P s p → run step s p = some s' → P s' := by
  induction p with
  | nil =>
      intro s s' h hrun
      rw [run_nil, Option.some.injEq] at hrun
      exact hrun ▸ h
  | cons a rest ih =>
      intro s s' h hrun
      obtain ⟨mid, ha, hrest⟩ := run_cons.mp hrun
      exact ih (h.2 mid ha) hrest

theorem Always.mono {P Q : σ → Prop} (h : ∀ s, P s → Q s) {p : List α} :
    ∀ {s : σ}, Always step P s p → Always step Q s p := by
  induction p with
  | nil => intro s hP; exact h s hP
  | cons a rest ih => intro s hP; exact ⟨h s hP.1, fun s' hs' => ih (hP.2 s' hs')⟩

/-- What holds of every state of a run holds of every state a step is taken in. -/
theorem Always.eachStep {P : σ → Prop} {p : List α} :
    ∀ {s : σ}, Always step P s p → EachStep step (fun s _ => P s) s p := by
  induction p with
  | nil => intro s _; trivial
  | cons a rest ih =>
      intro s h s' hs'
      exact ⟨h.1, ih (h.2 s' hs')⟩

/-- A run meets what each of its actions meets. -/
theorem eachStep_of_forall {Q : α → Prop} {p : List α} (h : ∀ a ∈ p, Q a) :
    ∀ {s : σ}, EachStep step (fun _ a => Q a) s p := by
  induction p with
  | nil => intro s; trivial
  | cons a rest ih =>
      intro s s' _
      exact ⟨h a (by simp), ih fun b hb => h b (by simp [hb])⟩

/--
**The exact condition for a property of every state.**  Where, among the states
an invariant `I` admits, a step out of a good state leads to a good one exactly
if it meets `C`, a run stays good exactly if each of its steps meets `C`.
-/
theorem always_iff_eachStep {I P : σ → Prop} {C : σ → α → Prop}
    (hinv : ∀ s a s', I s → step s a = some s' → I s')
    (hstep : ∀ s a s', I s → P s → step s a = some s' → (P s' ↔ C s a)) :
    ∀ (p : List α) {s : σ}, I s → P s → (Always step P s p ↔ EachStep step C s p) := by
  intro p
  induction p with
  | nil => intro s _ hP; exact ⟨fun _ => trivial, fun _ => hP⟩
  | cons a rest ih =>
      intro s hI hP
      constructor
      · intro h s' ha
        have hP' : P s' := (h.2 s' ha).head
        exact ⟨(hstep s a s' hI hP ha).mp hP', (ih (hinv s a s' hI ha) hP').mp (h.2 s' ha)⟩
      · intro h
        refine ⟨hP, fun s' ha => ?_⟩
        obtain ⟨hca, hcrest⟩ := h s' ha
        have hP' : P s' := (hstep s a s' hI hP ha).mpr hca
        exact (ih (hinv s a s' hI ha) hP').mpr hcrest

/-- Two conditions that agree wherever an invariant holds agree on the run, if a step that
meets the second keeps the invariant. -/
theorem eachStep_congr_guarded {I : σ → Prop} {C D : σ → α → Prop}
    (hinv : ∀ s a s', I s → D s a → step s a = some s' → I s')
    (h : ∀ s a s', I s → step s a = some s' → (C s a ↔ D s a)) :
    ∀ (p : List α) {s : σ}, I s → (EachStep step C s p ↔ EachStep step D s p) := by
  intro p
  induction p with
  | nil => intro s _; exact Iff.rfl
  | cons a rest ih =>
      intro s hI
      refine forall_congr' fun s' => forall_congr' fun hs' => ?_
      have hiff := h s a s' hI hs'
      exact ⟨fun hC => ⟨hiff.mp hC.1, (ih (hinv s a s' hI (hiff.mp hC.1) hs')).mp hC.2⟩,
        fun hD => ⟨hiff.mpr hD.1, (ih (hinv s a s' hI hD.1 hs')).mpr hD.2⟩⟩

/-- Two conditions that agree on every step a run can take agree on the run. -/
theorem eachStep_congr {I : σ → Prop} {C D : σ → α → Prop}
    (hinv : ∀ s a s', I s → step s a = some s' → I s')
    (h : ∀ s a s', I s → step s a = some s' → (C s a ↔ D s a))
    (p : List α) {s : σ} (hI : I s) : EachStep step C s p ↔ EachStep step D s p :=
  eachStep_congr_guarded (fun s a s' hs _ hstep => hinv s a s' hs hstep) h p hI

/--
**At most one of a kind.**  Where a step adds one to a count exactly if it meets `G`
and otherwise adds none, the count stays at most one exactly if no step meets `G` while
there is one already.
-/
theorem always_atMostOne_iff {κ : Type} {I : σ → Prop} {f : σ → κ → Nat} {G : σ → α → κ → Prop}
    (hinv : ∀ s a s', I s → step s a = some s' → I s')
    (hgain : ∀ s a s' k, step s a = some s' → G s a k → f s' k = f s k + 1)
    (hkeep : ∀ s a s' k, step s a = some s' → ¬ G s a k → f s' k ≤ f s k)
    (p : List α) {s : σ} (hI : I s) (hs : ∀ k, f s k ≤ 1) :
    Always step (fun s => ∀ k, f s k ≤ 1) s p ↔
      EachStep step (fun s a => ∀ k, G s a k → f s k = 0) s p := by
  refine always_iff_eachStep hinv (fun s a s' _ hone hstep => ?_) p hI hs
  constructor
  · intro hone' k hG
    have hsucc := hgain s a s' k hstep hG
    have hle := hone' k
    omega
  · intro hcond k
    by_cases hG : G s a k
    · have hsucc := hgain s a s' k hstep hG
      have hzero := hcond k hG
      omega
    · exact Nat.le_trans (hkeep s a s' k hstep hG) (hone k)

/-! ### Refinement

One machine refines a transition relation when a reading `f` of its states turns
each of its steps into finitely many transitions, possibly none.
-/

/-- Every run of a refining machine reads back as a path of the relation it refines. -/
theorem run_refines {R : τ → τ → Prop} {f : σ → τ} {I : σ → Prop}
    (hinv : ∀ s a s', I s → step s a = some s' → I s')
    (hstep : ∀ s a s', I s → step s a = some s' → Relation.ReflTransGen R (f s) (f s')) :
    ∀ (p : List α) {s s' : σ}, I s → run step s p = some s' →
      Relation.ReflTransGen R (f s) (f s') := by
  intro p s s' hI hrun
  have key : I s' ∧ Relation.ReflTransGen R (f s) (f s') :=
    run_invariant (I := fun t => I t ∧ Relation.ReflTransGen R (f s) (f t))
      (fun t a t' h ht => ⟨hinv t a t' h.1 ht, h.2.trans (hstep t a t' h.1 ht)⟩)
      p ⟨hI, Relation.ReflTransGen.refl⟩ hrun
  exact key.2

end Lts

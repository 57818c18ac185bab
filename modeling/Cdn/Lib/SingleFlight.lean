/-
The leader/follower protocol over a table of work in flight.

A caller that finds no work in flight for its key becomes the leader: it makes an
event, files it in the table under the key and goes off to work.  A caller that
finds an event waits on it.  However the leader's work ends, it fires its event and
takes the key out of the table.  A waiter may leave at any time.

The protocol knows nothing of what the work is.  `Flight` is what it sees of a
system: the table, which events exist and which have fired, and where each caller
stands.  `Ok` is its invariant, and the corollaries after it are what a user of the
protocol wants: one leader a key, and nobody waiting on an event that no live
leader is going to fire.
-/
import Mathlib.Logic.Function.Basic
import Mathlib.Logic.Relation

namespace SingleFlight

variable {κ ε ι : Type}

/-- Where a caller stands. -/
inductive Position (κ ε : Type) where
  /-- Not in the protocol: not arrived, gone, or busy with something else. -/
  | away
  | leading (key : κ) (event : ε)
  | waiting (event : ε)

/-- What the protocol sees of a system. -/
@[ext] structure Flight (κ ε ι : Type) where
  table : κ → Option ε
  known : ε → Prop
  fired : ε → Prop
  pos : ι → Position κ ε

/-! ### The four moves -/

section moves

variable [DecidableEq κ] [DecidableEq ι]

def Flight.lead (F : Flight κ ε ι) (i : ι) (k : κ) (e : ε) : Flight κ ε ι where
  table := Function.update F.table k (some e)
  known := fun e' => F.known e' ∨ e' = e
  fired := F.fired
  pos := Function.update F.pos i (.leading k e)

def Flight.join (F : Flight κ ε ι) (i : ι) (e : ε) : Flight κ ε ι :=
  { F with pos := Function.update F.pos i (.waiting e) }

def Flight.leave (F : Flight κ ε ι) (i : ι) : Flight κ ε ι :=
  { F with pos := Function.update F.pos i .away }

def Flight.finish (F : Flight κ ε ι) (i : ι) (k : κ) (e : ε) : Flight κ ε ι where
  table := Function.update F.table k none
  known := F.known
  fired := fun e' => F.fired e' ∨ e' = e
  pos := Function.update F.pos i .away

section projections

variable (F : Flight κ ε ι) (i j : ι) (k l : κ) (e e' : ε)

@[simp] theorem lead_table : (F.lead i k e).table = Function.update F.table k (some e) := rfl
@[simp] theorem lead_known : (F.lead i k e).known e' ↔ F.known e' ∨ e' = e := Iff.rfl
@[simp] theorem lead_fired : (F.lead i k e).fired = F.fired := rfl
@[simp] theorem lead_pos : (F.lead i k e).pos = Function.update F.pos i (.leading k e) := rfl
@[simp] theorem finish_table : (F.finish i k e).table = Function.update F.table k none := rfl
@[simp] theorem finish_known : (F.finish i k e).known = F.known := rfl
@[simp] theorem finish_fired : (F.finish i k e).fired e' ↔ F.fired e' ∨ e' = e := Iff.rfl
@[simp] theorem finish_pos : (F.finish i k e).pos = Function.update F.pos i .away := rfl

end projections

inductive Step : Flight κ ε ι → Flight κ ε ι → Prop
  | lead {F : Flight κ ε ι} (i : ι) (k : κ) (e : ε) (hpos : F.pos i = .away)
      (hfree : F.table k = none) (hnew : ¬ F.known e) : Step F (F.lead i k e)
  | join {F : Flight κ ε ι} (i : ι) (k : κ) (e : ε) (hpos : F.pos i = .away)
      (htable : F.table k = some e) : Step F (F.join i e)
  | leave {F : Flight κ ε ι} (i : ι) (e : ε) (hpos : F.pos i = .waiting e) : Step F (F.leave i)
  | finish {F : Flight κ ε ι} (i : ι) (k : κ) (e : ε) (hpos : F.pos i = .leading k e) :
      Step F (F.finish i k e)

/-- Any number of moves. -/
abbrev Steps : Flight κ ε ι → Flight κ ε ι → Prop := Relation.ReflTransGen Step

end moves

/-! ### The invariant -/

/-- The table, the events and the callers tell the same story. -/
structure Ok (F : Flight κ ε ι) : Prop where
  /-- An event in the table has a leader. -/
  owned : ∀ k e, F.table k = some e → ∃ i, F.pos i = .leading k e
  /-- A leader's own event stands in the table under its key, and has not fired. -/
  listed : ∀ i k e, F.pos i = .leading k e → F.table k = some e ∧ F.known e ∧ ¬ F.fired e
  /-- An event has one leader. -/
  unique : ∀ i j k l e, F.pos i = .leading k e → F.pos j = .leading l e → i = j
  /-- An event somebody waits on has fired or has a leader. -/
  served : ∀ i e, F.pos i = .waiting e → F.fired e ∨ ∃ j k, F.pos j = .leading k e
  /-- Only events that were made can fire. -/
  made : ∀ e, F.fired e → F.known e

/-- Nobody in the protocol and nothing in the table. -/
theorem ok_of_away {F : Flight κ ε ι} (hpos : ∀ i, F.pos i = .away)
    (htable : ∀ k, F.table k = none) (hmade : ∀ e, F.fired e → F.known e) : Ok F where
  owned := fun k e h => by rw [htable k] at h; cases h
  listed := fun i k e h => by rw [hpos i] at h; cases h
  unique := fun i j k l e h => by rw [hpos i] at h; cases h
  served := fun i e h => by rw [hpos i] at h; cases h
  made := hmade

section steps

variable [DecidableEq ι]

/-- A caller that is not leading changes nothing the leaders rely on. -/
theorem ok_move {F : Flight κ ε ι} (ok : Ok F) {i : ι} {p : Position κ ε}
    (hpos : ∀ k e, F.pos i ≠ .leading k e) (hp : ∀ k e, p ≠ .leading k e)
    (hserved : ∀ e, p = .waiting e → F.fired e ∨ ∃ j k, F.pos j = .leading k e) :
    Ok { F with pos := Function.update F.pos i p } := by
  have hkeep : ∀ j k e, F.pos j = .leading k e → Function.update F.pos i p j = .leading k e := by
    intro j k e h
    have hj : j ≠ i := by rintro rfl; exact hpos k e h
    rwa [Function.update_of_ne hj]
  have hback : ∀ j k e, Function.update F.pos i p j = .leading k e → F.pos j = .leading k e := by
    intro j k e h
    by_cases hj : j = i
    · subst hj
      rw [Function.update_self] at h
      exact absurd h (hp k e)
    · rwa [Function.update_of_ne hj] at h
  have hwait : ∀ e, (F.fired e ∨ ∃ j k, F.pos j = .leading k e) →
      F.fired e ∨ ∃ j k, Function.update F.pos i p j = .leading k e := by
    rintro e (hf | ⟨j, k, hj⟩)
    · exact Or.inl hf
    · exact Or.inr ⟨j, k, hkeep j k e hj⟩
  refine ⟨?_, ?_, ?_, ?_, ok.made⟩
  · intro k e h
    obtain ⟨j, hj⟩ := ok.owned k e h
    exact ⟨j, hkeep j k e hj⟩
  · exact fun j k e h => ok.listed j k e (hback j k e h)
  · exact fun a b k l e ha hb => ok.unique a b k l e (hback a k e ha) (hback b l e hb)
  · intro j e h
    by_cases hj : j = i
    · subst hj
      refine hwait e (hserved e ?_)
      simpa using h
    · refine hwait e (ok.served j e ?_)
      simpa [Function.update_of_ne hj] using h

variable [DecidableEq κ]

/-- A fresh event for a free key. -/
theorem ok_lead {F : Flight κ ε ι} (ok : Ok F) {i : ι} {k : κ} {e : ε} (hpos : F.pos i = .away)
    (hfree : F.table k = none) (hnew : ¬ F.known e) : Ok (F.lead i k e) := by
  have hother : ∀ j l e', j ≠ i → (F.lead i k e).pos j = .leading l e' → F.pos j = .leading l e' :=
    fun j l e' hj h => by rwa [lead_pos, Function.update_of_ne hj] at h
  refine ⟨?_, ?_, ?_, ?_, ?_⟩
  · intro l e' h
    by_cases hl : l = k
    · subst hl
      rw [lead_table, Function.update_self, Option.some.injEq] at h
      subst h
      exact ⟨i, Function.update_self ..⟩
    · rw [lead_table, Function.update_of_ne hl] at h
      obtain ⟨j, hj⟩ := ok.owned l e' h
      have hji : j ≠ i := by rintro rfl; rw [hpos] at hj; cases hj
      exact ⟨j, by rw [lead_pos, Function.update_of_ne hji]; exact hj⟩
  · intro j l e' h
    by_cases hj : j = i
    · subst hj
      rw [lead_pos, Function.update_self] at h
      cases h
      exact ⟨Function.update_self .., Or.inr rfl, fun hf => hnew (ok.made _ hf)⟩
    · obtain ⟨htab, hknown, hfired⟩ := ok.listed j l e' (hother j l e' hj h)
      have hl : l ≠ k := by rintro rfl; rw [hfree] at htab; cases htab
      exact ⟨by rw [lead_table, Function.update_of_ne hl]; exact htab, Or.inl hknown, hfired⟩
  · intro a b l m e' ha hb
    by_cases hai : a = i <;> by_cases hbi : b = i
    · rw [hai, hbi]
    · -- a leader of the fresh event would have made it known already
      subst hai
      rw [lead_pos, Function.update_self] at ha
      cases ha
      exact absurd (ok.listed b m e (hother b m e hbi hb)).2.1 hnew
    · subst hbi
      rw [lead_pos, Function.update_self] at hb
      cases hb
      exact absurd (ok.listed a l e (hother a l e hai ha)).2.1 hnew
    · exact ok.unique a b l m e' (hother a l e' hai ha) (hother b m e' hbi hb)
  · intro j e' h
    by_cases hj : j = i
    · subst hj
      rw [lead_pos, Function.update_self] at h
      cases h
    · rw [lead_pos, Function.update_of_ne hj] at h
      rcases ok.served j e' h with hf | ⟨m, l, hm⟩
      · exact Or.inl hf
      · have hmi : m ≠ i := by rintro rfl; rw [hpos] at hm; cases hm
        exact Or.inr ⟨m, l, by rw [lead_pos, Function.update_of_ne hmi]; exact hm⟩
  · intro e' h
    exact Or.inl (ok.made e' h)

/-- A leader that ends leaves its key free and its waiters with a fired event. -/
theorem ok_finish {F : Flight κ ε ι} (ok : Ok F) {i : ι} {k : κ} {e : ε}
    (hpos : F.pos i = .leading k e) : Ok (F.finish i k e) := by
  obtain ⟨htable, hknown, -⟩ := ok.listed i k e hpos
  have hback : ∀ j l e', (F.finish i k e).pos j = .leading l e' →
      j ≠ i ∧ F.pos j = .leading l e' := by
    intro j l e' h
    by_cases hj : j = i
    · subst hj
      rw [finish_pos, Function.update_self] at h
      cases h
    · rw [finish_pos, Function.update_of_ne hj] at h
      exact ⟨hj, h⟩
  have hkeep : ∀ j l e', j ≠ i → F.pos j = .leading l e' →
      (F.finish i k e).pos j = .leading l e' :=
    fun j l e' hj h => by rw [finish_pos, Function.update_of_ne hj]; exact h
  refine ⟨?_, ?_, ?_, ?_, ?_⟩
  · intro l e' h
    by_cases hl : l = k
    · subst hl
      rw [finish_table, Function.update_self] at h
      cases h
    · rw [finish_table, Function.update_of_ne hl] at h
      obtain ⟨j, hj⟩ := ok.owned l e' h
      have hji : j ≠ i := by rintro rfl; rw [hpos] at hj; cases hj; exact hl rfl
      exact ⟨j, hkeep j l e' hji hj⟩
  · intro j l e' h
    obtain ⟨hji, hj⟩ := hback j l e' h
    obtain ⟨htab, hkn, hnf⟩ := ok.listed j l e' hj
    have hne : e' ≠ e := fun hc => hji (ok.unique j i l k e (hc ▸ hj) hpos)
    have hl : l ≠ k := by
      rintro rfl
      rw [htable, Option.some.injEq] at htab
      exact hne htab.symm
    refine ⟨by rw [finish_table, Function.update_of_ne hl]; exact htab, hkn, ?_⟩
    rintro (hf | hc)
    · exact hnf hf
    · exact hne hc
  · intro a b l m e' ha hb
    exact ok.unique a b l m e' (hback a l e' ha).2 (hback b m e' hb).2
  · intro j e' h
    by_cases hj : j = i
    · subst hj
      rw [finish_pos, Function.update_self] at h
      cases h
    · rw [finish_pos, Function.update_of_ne hj] at h
      rcases ok.served j e' h with hf | ⟨m, l, hm⟩
      · exact Or.inl (Or.inl hf)
      · by_cases hmi : m = i
        · subst hmi
          rw [hpos] at hm
          cases hm
          exact Or.inl (Or.inr rfl)
        · exact Or.inr ⟨m, l, hkeep m l e' hmi hm⟩
  · rintro e' (hf | rfl)
    · exact ok.made e' hf
    · exact hknown

/-- **The invariant survives every move.** -/
theorem ok_step {F G : Flight κ ε ι} (ok : Ok F) (h : Step F G) : Ok G := by
  cases h with
  | lead i k e hpos hfree hnew => exact ok_lead ok hpos hfree hnew
  | join i k e hpos htable =>
      refine ok_move ok (by simp [hpos]) (by simp) ?_
      intro e' he
      cases he
      obtain ⟨j, hj⟩ := ok.owned k e htable
      exact Or.inr ⟨j, k, hj⟩
  | leave i e hpos => exact ok_move ok (by simp [hpos]) (by simp) (by simp)
  | finish i k e hpos => exact ok_finish ok hpos

theorem ok_steps {F G : Flight κ ε ι} (ok : Ok F) (h : Steps F G) : Ok G := by
  induction h with
  | refl => exact ok
  | tail _ hstep ih => exact ok_step ih hstep

/-- An event that is set stays set. -/
theorem fired_step {F G : Flight κ ε ι} (h : Step F G) {e : ε} (he : F.fired e) : G.fired e := by
  cases h with
  | lead i k e' hpos hfree hnew => exact he
  | join i k e' hpos hlisted => exact he
  | leave i e' hpos => exact he
  | finish i k e' hpos => exact Or.inl he

theorem fired_steps {F G : Flight κ ε ι} (h : Steps F G) {e : ε} (he : F.fired e) : G.fired e := by
  induction h with
  | refl => exact he
  | tail _ hstep ih => exact fired_step hstep ih

end steps

/-! ### What a user of the protocol gets -/

/-- **A key has one leader.** -/
theorem Ok.leader_unique {F : Flight κ ε ι} (ok : Ok F) {i j : ι} {k : κ} {e e' : ε}
    (hi : F.pos i = .leading k e) (hj : F.pos j = .leading k e') : i = j := by
  have hi' := (ok.listed i k e hi).1
  rw [(ok.listed j k e' hj).1, Option.some.injEq] at hi'
  exact ok.unique i j k k e hi (hi' ▸ hj)

/-- **Without a leader the table is empty.** -/
theorem Ok.table_empty {F : Flight κ ε ι} (ok : Ok F) (h : ∀ i k e, F.pos i ≠ .leading k e)
    (k : κ) : F.table k = none := by
  cases htab : F.table k with
  | none => rfl
  | some e =>
      obtain ⟨i, hi⟩ := ok.owned k e htab
      exact absurd hi (h i k e)

/-- **Without a leader every waiter's event has fired.** -/
theorem Ok.waiting_fired {F : Flight κ ε ι} (ok : Ok F) (h : ∀ i k e, F.pos i ≠ .leading k e)
    {i : ι} {e : ε} (hi : F.pos i = .waiting e) : F.fired e := by
  rcases ok.served i e hi with hf | ⟨j, k, hj⟩
  · exact hf
  · exact absurd hj (h j k e)

end SingleFlight

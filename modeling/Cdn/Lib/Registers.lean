/-
Registers, and two who disagree about what was written to them.

A list of settings leaves in each register what was set there last.  Where one side means some
settings and another side reads some, with most of them in common, the two end with the same
registers exactly if each setting of one side alone is overwritten later, or repeats what the
other side has there already.
-/
import Mathlib.Data.List.Induction

namespace Registers

variable {σ κ δ : Type} [DecidableEq κ] (key : σ → κ)

/-- The last setting of a register. -/
def last (k : κ) (l : List σ) : Option σ := l.reverse.find? fun s => key s = k

theorem last_concat (k : κ) (l : List σ) (s : σ) :
    last key k (l ++ [s]) = if key s = k then some s else last key k l := by
  rw [last, List.reverse_append, List.reverse_singleton, List.singleton_append, List.find?_cons]
  by_cases h : key s = k
  · rw [if_pos h, decide_eq_true h]
  · rw [if_neg h, decide_eq_false h]
    rfl

/-- Of two lists the later one decides, where it sets the register at all. -/
theorem last_append (k : κ) (l l' : List σ) :
    last key k (l ++ l') = (last key k l').or (last key k l) := by
  rw [last, List.reverse_append, List.find?_append]
  rfl

theorem last_eq_none {k : κ} {l : List σ} : last key k l = none ↔ ∀ s ∈ l, key s ≠ k := by
  simp [last]

theorem last_eq_some {k : κ} {s : σ} {l : List σ} : last key k l = some s ↔
    ∃ before after, l = before ++ s :: after ∧ key s = k ∧ ∀ t ∈ after, key t ≠ k := by
  simp only [last, List.find?_eq_some_iff_append, decide_eq_true_eq, Bool.not_eq_true',
    decide_eq_false_iff_not]
  constructor
  · rintro ⟨hs, behind, before, hl, hbehind⟩
    refine ⟨before.reverse, behind.reverse, ?_, hs, fun t ht => hbehind t (List.mem_reverse.mp ht)⟩
    rw [← List.reverse_reverse l, hl]
    simp
  · rintro ⟨before, after, rfl, hs, hafter⟩
    refine ⟨hs, after.reverse, before.reverse, by simp, fun t ht => ?_⟩
    exact hafter t (List.mem_reverse.mp ht)

theorem last_append_of_forall_ne {k : κ} {l l' : List σ} (h : ∀ s ∈ l', key s ≠ k) :
    last key k (l ++ l') = last key k l := by
  rw [last_append, (last_eq_none key).mpr h, Option.none_or]

/-- Where no two settings are of one register, each of them is the last of its own. -/
theorem last_of_mem {s : σ} {l : List σ} (distinct : (l.map key).Nodup) (h : s ∈ l) :
    last key (key s) l = some s := by
  induction l using List.reverseRecOn with
  | nil => cases h
  | append_singleton l t ih =>
      rw [List.map_append, List.map_singleton, List.nodup_append] at distinct
      rw [last_concat]
      rcases List.mem_append.mp h with h | h
      · have hother : key t ≠ key s := fun heq =>
          distinct.2.2 _ (List.mem_map_of_mem h) _ (List.mem_singleton_self _) heq.symm
        rw [if_neg hother, ih distinct.1 h]
      · rw [List.mem_singleton.mp h, if_pos rfl]

/-- The order of settings of different registers does not matter. -/
theorem last_perm {l l' : List σ} (hperm : l.Perm l') (distinct : (l.map key).Nodup) (k : κ) :
    last key k l = last key k l' := by
  have distinct' : (l'.map key).Nodup := (hperm.map key).nodup_iff.mp distinct
  by_cases hset : ∃ s ∈ l, key s = k
  · obtain ⟨s, hs, rfl⟩ := hset
    rw [last_of_mem key distinct hs, last_of_mem key distinct' (hperm.mem_iff.mp hs)]
  · have hunset : ∀ s ∈ l, key s ≠ k := fun s hs hk => hset ⟨s, hs, hk⟩
    rw [(last_eq_none key).mpr hunset,
      (last_eq_none key).mpr fun s hs => hunset s (hperm.mem_iff.mpr hs)]

/-- What is found in a register after a list of settings. -/
theorem view_foldl {set : δ → σ → δ} {view : δ → κ → Option σ}
    (hset : ∀ d s k, view (set d s) k = if key s = k then some s else view d k)
    (l : List σ) (d : δ) (k : κ) : view (l.foldl set d) k = (last key k l).or (view d k) := by
  induction l using List.reverseRecOn with
  | nil => rfl
  | append_singleton l s ih =>
      rw [List.foldl_append, List.foldl_cons, List.foldl_nil, hset, last_concat, ih]
      split
      · rfl
      · rfl

/-! ### Two sides -/

/-- A setting that both sides know of, or one of them alone. -/
inductive Event (σ : Type) where
  | both (s : σ)
  /-- It is read and not meant. -/
  | stray (s : σ)
  /-- It is meant and not read. -/
  | missed (s : σ)

namespace Event

def setting : Event σ → σ
  | both s | stray s | missed s => s

def meant : Event σ → Option σ
  | both s | missed s => some s
  | stray _ => none

def read : Event σ → Option σ
  | both s | stray s => some s
  | missed _ => none

/-- What one side sets alone, the other has already from what went before. -/
def Repeats (before : List (Event σ)) : Event σ → Prop
  | both _ => True
  | stray s => last key (key s) (before.filterMap meant) = some s
  | missed s => last key (key s) (before.filterMap read) = some s

theorem setting_of_meant {e : Event σ} {s : σ} (h : e.meant = some s) : e.setting = s := by
  cases e with
  | both s' | missed s' => exact Option.some.inj h
  | stray s' => cases h

theorem setting_of_read {e : Event σ} {s : σ} (h : e.read = some s) : e.setting = s := by
  cases e with
  | both s' | stray s' => exact Option.some.inj h
  | missed s' => cases h

end Event

/-- What one side alone set last in a register repeats what the other has there. -/
def Agrees (events : List (Event σ)) : Prop :=
  ∀ before e after, events = before ++ e :: after →
    (∀ e' ∈ after, key e'.setting ≠ key e.setting) → e.Repeats key before

variable {key}

/-- Settings of other registers make no difference, on either side. -/
theorem last_filterMap_append {side : Event σ → Option σ}
    (hside : ∀ {e s}, side e = some s → e.setting = s) (events : List (Event σ)) {k : κ}
    {after : List (Event σ)} (h : ∀ e ∈ after, key e.setting ≠ k) :
    last key k ((events ++ after).filterMap side) = last key k (events.filterMap side) := by
  rw [List.filterMap_append, last_append_of_forall_ne]
  intro s hs
  obtain ⟨e, he, hes⟩ := List.mem_filterMap.mp hs
  exact hside hes ▸ h e he

/-- The last event at a register, where the two sides stand apart or not. -/
theorem last_eq_iff_repeats (before : List (Event σ)) (e : Event σ) :
    last key (key e.setting) ((before ++ [e]).filterMap Event.meant) =
        last key (key e.setting) ((before ++ [e]).filterMap Event.read) ↔ e.Repeats key before := by
  rw [List.filterMap_append, List.filterMap_append]
  cases e with
  | both s =>
      show last key (key s) (_ ++ [s]) = last key (key s) (_ ++ [s]) ↔ True
      rw [last_concat, last_concat, if_pos rfl, if_pos rfl, iff_true]
  | stray s =>
      show last key (key s) (_ ++ []) = last key (key s) (_ ++ [s]) ↔ _
      rw [List.append_nil, last_concat, if_pos rfl]
      rfl
  | missed s =>
      show last key (key s) (_ ++ [s]) = last key (key s) (_ ++ []) ↔ _
      rw [List.append_nil, last_concat, if_pos rfl, eq_comm]
      rfl

theorem exists_last_event {k : κ} {events : List (Event σ)} (h : ∃ e ∈ events, key e.setting = k) :
    ∃ before e after, events = before ++ e :: after ∧ key e.setting = k ∧
      ∀ e' ∈ after, key e'.setting ≠ k := by
  induction events using List.reverseRecOn with
  | nil =>
      obtain ⟨e, he, -⟩ := h
      cases he
  | append_singleton events e ih =>
      by_cases hk : key e.setting = k
      · exact ⟨events, e, [], rfl, hk, fun e' he' => absurd he' List.not_mem_nil⟩
      · obtain ⟨e', he', hk'⟩ := h
        have hold : e' ∈ events := by
          rcases List.mem_append.mp he' with he' | he'
          · exact he'
          · exact absurd (List.mem_singleton.mp he' ▸ hk') hk
        obtain ⟨before, last, after, rfl, hlast, hafter⟩ := ih ⟨e', hold, hk'⟩
        refine ⟨before, last, after ++ [e], by rw [List.append_assoc, List.cons_append], hlast, ?_⟩
        intro e'' he''
        rcases List.mem_append.mp he'' with he'' | he''
        · exact hafter e'' he''
        · exact List.mem_singleton.mp he'' ▸ hk

/-- **Two sides end with the same registers exactly if they agree.** -/
theorem last_eq_iff_agrees (events : List (Event σ)) :
    (∀ k, last key k (events.filterMap Event.meant) = last key k (events.filterMap Event.read)) ↔
      Agrees key events := by
  constructor
  · rintro h before e after rfl hafter
    have hk := h (key e.setting)
    rw [← List.singleton_append, ← List.append_assoc,
      last_filterMap_append Event.setting_of_meant _ hafter,
      last_filterMap_append Event.setting_of_read _ hafter] at hk
    exact (last_eq_iff_repeats before e).mp hk
  · intro h k
    by_cases hused : ∃ e ∈ events, key e.setting = k
    · obtain ⟨before, e, after, rfl, rfl, hafter⟩ := exists_last_event hused
      have hrepeats := h before e after rfl hafter
      rw [← List.singleton_append, ← List.append_assoc,
        last_filterMap_append Event.setting_of_meant _ hafter,
        last_filterMap_append Event.setting_of_read _ hafter]
      exact (last_eq_iff_repeats before e).mpr hrepeats
    · have hunused : ∀ e ∈ events, key e.setting ≠ k := fun e he hk => hused ⟨e, he, hk⟩
      have hmeant := last_filterMap_append Event.setting_of_meant [] hunused
      have hread := last_filterMap_append Event.setting_of_read [] hunused
      rw [List.nil_append] at hmeant hread
      rw [hmeant, hread]
      rfl

end Registers

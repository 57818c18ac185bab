/-
Absolute paths: a list of names, and the text that spells it.

A path is resolved the way a file system does where nothing is a symbolic link: segment
by segment, `..` undoing the last name.  What comes out has no `.` and no `..` left, and
the type says so.

A test on the text of two such paths is weaker than one on their names.  The text of one
begins with the text of another also where a name does no more than begin with a name:
`text_isPrefix` says that this is the only way for the two tests to differ.
-/
import Mathlib.Data.List.Infix
import Mathlib.Tactic.Common

namespace Paths

/-- A segment that names something: not empty, neither `.` nor `..`. -/
def IsName (segment : List Char) : Prop :=
  segment ≠ [] ∧ segment ≠ ['.'] ∧ segment ≠ ['.', '.'] ∧ '/' ∉ segment

instance (segment : List Char) : Decidable (IsName segment) :=
  inferInstanceAs (Decidable (_ ∧ _))

/-! ### Names as text -/

/-- Names, each behind its slash. -/
def spell (names : List (List Char)) : List Char := names.flatMap fun name => '/' :: name

@[simp] theorem spell_nil : spell [] = [] := rfl

@[simp] theorem spell_cons (name : List Char) (names : List (List Char)) :
    spell (name :: names) = '/' :: (name ++ spell names) := rfl

/-- In the directory of `l`, `m` goes by a name that begins with the last name of `l` and
goes on. -/
def BesideNames (l m : List (List Char)) : Prop :=
  ∃ upper name more rest, l = upper ++ [name] ∧ more ≠ [] ∧ m = upper ++ (name ++ more) :: rest

theorem not_prefix_of_besideNames {l m : List (List Char)} (h : BesideNames l m) : ¬ l <+: m := by
  obtain ⟨upper, name, more, rest, rfl, hmore, rfl⟩ := h
  rw [List.prefix_append_right_inj, List.cons_prefix_cons]
  rintro ⟨h, -⟩
  exact hmore (List.self_eq_append_right.mp h)

/-- What begins a name and all that follows it, and has no slash, begins the name. -/
theorem prefix_name {c d : List Char} (hc : '/' ∉ c) (names : List (List Char)) :
    c <+: d ++ spell names ↔ c <+: d := by
  refine ⟨fun h => ?_, fun h => h.trans (List.prefix_append _ _)⟩
  rcases List.prefix_or_prefix_of_prefix h (List.prefix_append d _) with h' | ⟨t, rfl⟩
  · exact h'
  · rw [List.prefix_append_right_inj] at h
    cases t with
    | nil => rw [List.append_nil]
    | cons x t =>
        cases names with
        | nil => cases List.prefix_nil.mp h
        | cons name names =>
            rw [spell_cons, List.cons_prefix_cons] at h
            exact absurd (List.mem_append_right d (by rw [h.1]; exact List.mem_cons_self)) hc

/-- A name that another follows ends where its slash is. -/
theorem prefix_name_slash {c d name : List Char} (hc : '/' ∉ c) (hd : '/' ∉ d)
    (l m : List (List Char)) :
    c ++ spell (name :: l) <+: d ++ spell m ↔ c = d ∧ spell (name :: l) <+: spell m := by
  constructor
  · intro h
    obtain ⟨t, rfl⟩ := (prefix_name hc m).mp ((List.prefix_append c _).trans h)
    rw [List.append_assoc, List.prefix_append_right_inj] at h
    cases t with
    | nil =>
        rw [List.append_nil]
        exact ⟨rfl, h⟩
    | cons x t =>
        rw [spell_cons, List.cons_append, List.cons_prefix_cons] at h
        exact absurd (List.mem_append_right c (by rw [h.1]; exact List.mem_cons_self)) hd
  · rintro ⟨rfl, h⟩
    rwa [List.prefix_append_right_inj]

theorem besideNames_singleton {c d : List Char} {m : List (List Char)} :
    BesideNames [c] (d :: m) ↔ c <+: d ∧ c ≠ d := by
  constructor
  · rintro ⟨upper, name, more, rest, hl, hmore, hm⟩
    obtain ⟨rfl, hname⟩ := List.append_eq_singleton_iff.mp hl.symm |>.resolve_right (by simp)
    cases hname
    obtain ⟨rfl, rfl⟩ := List.cons.inj hm
    exact ⟨List.prefix_append c more, fun h => hmore (List.self_eq_append_right.mp h)⟩
  · rintro ⟨⟨more, rfl⟩, hne⟩
    exact ⟨[], c, more, m, rfl, fun h => hne (by rw [h, List.append_nil]), rfl⟩

theorem besideNames_cons {c d name : List Char} {l m : List (List Char)} :
    BesideNames (c :: name :: l) (d :: m) ↔ c = d ∧ BesideNames (name :: l) m := by
  constructor
  · rintro ⟨upper, last, more, rest, hl, hmore, hm⟩
    cases upper with
    | nil => cases hl
    | cons u upper =>
        obtain ⟨hu, hl'⟩ := List.cons.inj hl
        obtain ⟨hd, hm'⟩ := List.cons.inj hm
        exact ⟨hu.trans hd.symm, upper, last, more, rest, hl', hmore, hm'⟩
  · rintro ⟨rfl, upper, last, more, rest, hl, hmore, hm⟩
    exact ⟨c :: upper, last, more, rest, by rw [hl, List.cons_append], hmore,
      by rw [hm, List.cons_append]⟩

/-- Name by name: where a text stops being a prefix of another, it is inside a name or at
its end, and only the last name may stop inside. -/
theorem spell_isPrefix {l m : List (List Char)} (hl : ∀ c ∈ l, '/' ∉ c) (hm : ∀ d ∈ m, '/' ∉ d) :
    spell l <+: spell m ↔ l <+: m ∨ BesideNames l m := by
  induction l generalizing m with
  | nil => simp
  | cons c l ih =>
      cases m with
      | nil =>
          refine iff_of_false (fun h => ?_) ?_
          · cases List.prefix_nil.mp h
          · rintro (h | ⟨upper, name, more, rest, -, -, hm⟩)
            · cases List.prefix_nil.mp h
            · cases List.append_eq_nil_iff.mp hm.symm |>.2
      | cons d m =>
          have hc : '/' ∉ c := hl c List.mem_cons_self
          have hd : '/' ∉ d := hm d List.mem_cons_self
          rw [spell_cons, spell_cons, List.cons_prefix_cons, List.cons_prefix_cons]
          simp only [true_and]
          cases l with
          | nil =>
              rw [spell_nil, List.append_nil, prefix_name hc, besideNames_singleton]
              by_cases h : c = d
              · simp [h]
              · simp [h]
          | cons name l =>
              rw [prefix_name_slash hc hd, besideNames_cons,
                ih (fun x hx => hl x (List.mem_cons_of_mem c hx))
                  (fun x hx => hm x (List.mem_cons_of_mem d hx)), and_or_left]

/-! ### Resolution -/

/-- An absolute path with nothing left to resolve. -/
structure Resolved where
  names : List (List Char)
  isName : ∀ name ∈ names, IsName name
deriving DecidableEq

namespace Resolved

def root : Resolved := ⟨[], fun _ h => absurd h List.not_mem_nil⟩

def parent (p : Resolved) : Resolved :=
  ⟨p.names.dropLast, fun name h => p.isName name (List.dropLast_subset _ h)⟩

def child (p : Resolved) (name : List Char) (h : IsName name) : Resolved :=
  ⟨p.names ++ [name], fun n hn => by
    rcases List.mem_append.mp hn with hn | hn
    · exact p.isName n hn
    · rw [List.mem_singleton.mp hn]
      exact h⟩

/-- What one segment does: `..` goes up, a name goes down, an empty segment and `.` stay. -/
def enter (p : Resolved) (segment : List Char) : Resolved :=
  if segment = ['.', '.'] then p.parent
  else if h : IsName segment then p.child segment h
  else p

/-- `path`, read from `base`: a path that begins with a slash starts at the root. -/
def resolve (base : Resolved) (path : List Char) : Resolved :=
  (path.splitOn '/').foldl enter (if path.head? = some '/' then root else base)

/-! ### Below a directory, and beside it -/

def text (p : Resolved) : List Char := if p.names = [] then ['/'] else spell p.names

/-- `p` is `base` or below it. -/
def Under (base p : Resolved) : Prop := base.names <+: p.names

instance (base p : Resolved) : Decidable (Under base p) := inferInstanceAs (Decidable (_ <+: _))

/-- `p` is in the directory `base` is in, at or below a name that begins with the name of
`base` and goes on. -/
def Beside (base p : Resolved) : Prop := BesideNames base.names p.names

theorem not_under_of_beside {base p : Resolved} (h : Beside base p) : ¬ Under base p :=
  not_prefix_of_besideNames h

theorem slash_not_mem (p : Resolved) : ∀ name ∈ p.names, '/' ∉ name :=
  fun name h => (p.isName name h).2.2.2

theorem enter_under {base p : Resolved} {segment : List Char} (hup : segment ≠ ['.', '.'])
    (h : Under base p) : Under base (p.enter segment) := by
  unfold enter
  rw [if_neg hup]
  split
  · exact h.trans (List.prefix_append _ _)
  · exact h

/-- **A relative path that never goes up stays under the directory it is read from.** -/
theorem resolve_under (base : Resolved) {path : List Char} (hrelative : path.head? ≠ some '/')
    (hup : ['.', '.'] ∉ path.splitOn '/') : Under base (base.resolve path) := by
  have hfold : ∀ (segments : List (List Char)) (p : Resolved), ['.', '.'] ∉ segments →
      Under base p → Under base (segments.foldl enter p) := by
    intro segments
    induction segments with
    | nil => exact fun p _ h => h
    | cons segment segments ih =>
        intro p hup h
        rw [List.mem_cons, not_or] at hup
        exact ih _ hup.2 (enter_under (Ne.symm hup.1) h)
  rw [resolve, if_neg hrelative]
  exact hfold _ base hup List.prefix_rfl

/-- The text of the root, which is not the text of no names, ends where a name begins. -/
theorem text_isPrefix_root {base : Resolved} (hbase : base.names ≠ []) :
    ¬ spell base.names <+: ['/'] := by
  obtain ⟨name, names, hcons⟩ := List.exists_cons_of_ne_nil hbase
  rw [hcons, spell_cons, List.cons_prefix_cons]
  rintro ⟨-, h⟩
  have hname : name = [] := (List.append_eq_nil_iff.mp (List.prefix_nil.mp h)).1
  exact (base.isName name (by rw [hcons]; exact List.mem_cons_self)).1 hname

/-- **The test on the text.**  It passes for what is under the directory, and for what is
beside it. -/
theorem text_isPrefix (base p : Resolved) :
    base.text <+: p.text ↔ Under base p ∨ Beside base p := by
  unfold text
  by_cases hbase : base.names = []
  · rw [if_pos hbase]
    refine iff_of_true ?_ (Or.inl (by rw [Under, hbase]; exact List.nil_prefix))
    by_cases hp : p.names = []
    · rw [if_pos hp]
    · obtain ⟨name, names, hcons⟩ := List.exists_cons_of_ne_nil hp
      rw [if_neg hp, hcons, spell_cons, List.cons_prefix_cons]
      exact ⟨rfl, List.nil_prefix⟩
  · rw [if_neg hbase]
    by_cases hp : p.names = []
    · rw [if_pos hp]
      refine iff_of_false (text_isPrefix_root hbase) ?_
      rintro (h | ⟨upper, name, more, rest, -, -, h⟩)
      · rw [Under, hp] at h
        exact hbase (List.prefix_nil.mp h)
      · rw [hp] at h
        cases (List.append_eq_nil_iff.mp h.symm).2
    · rw [if_neg hp]
      exact spell_isPrefix base.slash_not_mem p.slash_not_mem

end Resolved

end Paths

/-
The grammar of header fields.

The value of a field is built of tokens and of quoted strings, in which any character may
stand, a quotation mark and a backslash only behind a backslash.  A list is joined by commas
with blanks around them.  The trees below cannot be built of anything that the grammar does
not admit; `text` is what is sent of a tree, and `value` is what is meant by an argument.
-/
import Cdn.Lib.Scan
import Mathlib.Data.List.Forall2

namespace Http

/-! ### Characters -/

/-- A space or a tab. -/
def IsBlank (c : Char) : Prop := c = ' ' ∨ c = '\t'

/-- A character of a token: visible, and no delimiter. -/
def IsTchar (c : Char) : Prop :=
  '!' ≤ c ∧ c ≤ '~' ∧ c ∉ "\"(),/:;<=>?@[\\]\x7b\x7d".toList

/-- A character of a text: a blank, a visible one, or one from the upper half of Latin-1. -/
def IsText (c : Char) : Prop :=
  c = '\t' ∨ ' ' ≤ c ∧ c ≤ '~' ∨ 0x80 ≤ c.toNat ∧ c.toNat ≤ 0xff

instance : DecidablePred IsBlank := fun c => inferInstanceAs (Decidable (c = ' ' ∨ _))

instance : DecidablePred IsTchar := fun _ => inferInstanceAs (Decidable (_ ∧ _))

instance : DecidablePred IsText := fun c => inferInstanceAs (Decidable (c = '\t' ∨ _))

theorem IsTchar.toNat_lt {c : Char} (h : IsTchar c) : c.toNat < 0x7f := Nat.lt_succ_of_le h.2.1

theorem IsText.toNat_le {c : Char} (h : IsText c) : c.toNat ≤ 0xff := by
  rcases h with rfl | ⟨-, h⟩ | ⟨-, h⟩
  · decide
  · exact Nat.le_trans (show c.toNat ≤ 0x7e from h) (by decide)
  · exact h

/-! ### Trees -/

abbrev Blanks := {s : List Char // ∀ c ∈ s, IsBlank c}

abbrev Token := {s : List Char // s ≠ [] ∧ ∀ c ∈ s, IsTchar c}

/-- One character of a quoted string. -/
inductive QuotedChar where
  | text (c : Char) (h : IsText c ∧ c ≠ '"' ∧ c ≠ '\\')
  | pair (c : Char) (h : IsText c)

namespace QuotedChar

def raw : QuotedChar → List Char
  | text c _ => [c]
  | pair c _ => ['\\', c]

def value : QuotedChar → Char
  | text c _ | pair c _ => c

/-- It is written with a backslash. -/
def isPair : QuotedChar → Bool
  | text _ _ => false
  | pair _ _ => true

end QuotedChar

inductive Argument where
  | token (t : Token)
  | quoted (content : List QuotedChar)

namespace Argument

def text : Argument → List Char
  | token t => t.val
  | quoted content => '"' :: (content.flatMap QuotedChar.raw ++ ['"'])

def value : Argument → List Char
  | token t => t.val
  | quoted content => content.map QuotedChar.value

/-- Some of it is written with a backslash. -/
def escaped : Argument → Bool
  | token _ => false
  | quoted content => content.any QuotedChar.isPair

end Argument

/-- A name, with an argument or without. -/
structure Parameter where
  name : Token
  argument : Option Argument

def Parameter.text (p : Parameter) : List Char :=
  p.name.val ++ (p.argument.elim [] fun a => '=' :: a.text)

theorem Token.notMem (t : Token) {c : Char} (h : ¬ IsTchar c) : c ∉ t.val :=
  fun hc => h (t.property.2 c hc)

/-! ### Quoted strings -/

/-- Without backslashes a quoted string holds what is meant. -/
theorem raw_of_not_escaped {content : List QuotedChar}
    (h : content.any QuotedChar.isPair = false) :
    content.flatMap QuotedChar.raw = content.map QuotedChar.value := by
  induction content with
  | nil => rfl
  | cons c content ih =>
      rw [List.any_cons, Bool.or_eq_false_iff] at h
      rw [List.flatMap_cons, List.map_cons, ih h.2]
      cases c with
      | text c hc => rfl
      | pair c hc => cases h.1

theorem backslash_mem_raw {content : List QuotedChar} (h : content.any QuotedChar.isPair = true) :
    '\\' ∈ content.flatMap QuotedChar.raw := by
  obtain ⟨c, hc, hpair⟩ := List.any_eq_true.mp h
  refine List.mem_flatMap.mpr ⟨c, hc, ?_⟩
  cases c with
  | text c hc => cases hpair
  | pair c hc => exact List.mem_cons_self

/-- What stands in a quoted string apart from backslashes is meant. -/
theorem mem_value_of_mem_raw {content : List QuotedChar} {c : Char}
    (h : c ∈ content.flatMap QuotedChar.raw) (hc : c ≠ '\\') :
    c ∈ content.map QuotedChar.value := by
  obtain ⟨q, hq, hmem⟩ := List.mem_flatMap.mp h
  refine List.mem_map.mpr ⟨q, hq, ?_⟩
  cases q with
  | text b hb => exact (List.mem_singleton.mp hmem).symm
  | pair b hb =>
      rcases List.mem_cons.mp hmem with hmem | hmem
      · exact absurd hmem hc
      · exact (List.mem_singleton.mp hmem).symm

theorem isText_value {content : List QuotedChar} :
    ∀ c ∈ content.map QuotedChar.value, IsText c := by
  intro c hc
  obtain ⟨q, -, rfl⟩ := List.mem_map.mp hc
  cases q with
  | text b hb => exact hb.1
  | pair b hb => exact hb

/-! ### Lists -/

/-- The members of a list, with blanks around each and commas in between. -/
def Lists (members : List (List Char)) (text : List Char) : Prop :=
  ∃ parts : List (List Char), text = [','].intercalate parts ∧
    List.Forall₂ (fun member part => ∃ before after : Blanks,
      part = before.val ++ member ++ after.val) members parts

theorem comma_notMem (blanks : Blanks) : ',' ∉ blanks.val := fun h =>
  absurd (blanks.property ',' h) (by decide)

/-- The pieces of a list between its commas are those of its members, for whom does not look
at blanks around a piece. -/
theorem Lists.map_splitOn {γ : Type} {f : List Char → γ}
    (hf : ∀ (before after : Blanks) (s : List Char), f (before.val ++ s ++ after.val) = f s)
    {members : List (List Char)} {text : List Char} (h : Lists members text) (hne : members ≠ []) :
    (text.splitOn ',').map f = members.flatMap fun member => (member.splitOn ',').map f := by
  obtain ⟨parts, rfl, hparts⟩ := h
  have hmember : ∀ (before after : Blanks) (member : List Char),
      ((before.val ++ member ++ after.val).splitOn ',').map f = (member.splitOn ',').map f :=
    fun before after member => Scan.map_splitOn_append (comma_notMem before) (comma_notMem after)
      (fun s => by simpa using hf before ⟨[], by simp⟩ s)
      (fun s => by simpa using hf ⟨[], by simp⟩ after s) member
  have hpartsNe : parts ≠ [] := by
    rintro rfl
    cases hparts
    exact hne rfl
  rw [Scan.splitOn_intercalate_flatMap hpartsNe, List.map_flatMap]
  clear hne hpartsNe
  induction hparts with
  | nil => rfl
  | cons hpart _ ih =>
      obtain ⟨before, after, rfl⟩ := hpart
      rw [List.flatMap_cons, List.flatMap_cons, hmember, ih]

end Http

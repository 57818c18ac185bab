/-
Quoted values in Cache-Control.

A header is a list of directives, and what they amount to is a matter of their names and of
the values that are meant.  The parser knows no quoted strings: it splits at every comma, and
so it reads settings off the pieces of a quoted value that nobody means, and it misses a
number that is written with backslashes.  These events are listed here in the order of the
header; what comes of them is a matter of what is set last.
-/
import Cdn.Lib.Fields
import Cdn.Numerals
import Cdn.Proofs.Settings

namespace Cdn

open Http (Parameter Argument Token)
open Registers (Event)

/-! ### What is meant -/

/-- The number that a value is the numeral of. -/
def number? (value : List Char) : Option Nat :=
  if value ≠ [] ∧ ∀ c ∈ value, c.isDigit = true then some (Nat.ofDigitChars 10 value 0) else none

namespace CacheControl

/-- The name of a directive, in lower case. -/
def name (p : Parameter) : String := String.ofList (lower p.name.val)

/-- The setting that a directive determines. -/
def setting (p : Parameter) : Option Setting :=
  match Flag.ofName (name p), Lifetime.ofName (name p) with
  | some f, _ => some (.flag f)
  | none, some l => (p.argument.bind fun a => number? a.value).map (.lifetime l)
  | none, none => none

/-- What a list of directives amounts to: of several numbers for one lifetime, the last. -/
def meaning (ps : List Parameter) : CacheDirectives :=
  (ps.filterMap setting).foldl CacheDirectives.set {}

/-- Some of its value is written with a backslash. -/
def escaped (p : Parameter) : Bool := p.argument.elim false Argument.escaped

/-- The pieces of a directive between the commas in its value. -/
def pieces (p : Parameter) : List (List Char) := split ',' p.text

/-! ### What the parser makes of it -/

/-- The directive's own setting: a number that is written with a backslash is missed. -/
def own (p : Parameter) : List (Event Setting) :=
  match setting p with
  | some (.flag f) => [.both (.flag f)]
  | some (.lifetime l n) =>
      [if escaped p then .missed (.lifetime l n) else .both (.lifetime l n)]
  | none => []

/-- What is read in a value with commas in it: a number in front of the first comma, and
whatever setting a later piece makes. -/
def strays (p : Parameter) : List Setting :=
  match pieces p with
  | first :: second :: rest =>
      (if (Flag.ofName (name p)).isSome then [] else (reads first).toList) ++
        (second :: rest).filterMap reads
  | _ => []

def events (p : Parameter) : List (Event Setting) := own p ++ (strays p).map .stray

theorem filterMap_meant_events (p : Parameter) :
    (events p).filterMap Event.meant = (setting p).toList := by
  have hstrays : ((strays p).map Event.stray).filterMap Event.meant = [] := by
    rw [List.filterMap_map]
    exact List.filterMap_eq_nil_iff.mpr fun _ _ => rfl
  rw [events, List.filterMap_append, hstrays, List.append_nil, own]
  cases setting p with
  | none => rfl
  | some s =>
      cases s with
      | flag f => rfl
      | lifetime l n => cases escaped p <;> rfl

theorem filterMap_read_strays (p : Parameter) :
    ((strays p).map Event.stray).filterMap Event.read = strays p := by
  rw [List.filterMap_map]
  exact List.filterMap_some

/-! ### A directive without commas -/

theorem isSpace_of_isTchar {c : Char} (h : Http.IsTchar c) : isSpace c = false := by
  have hall : ∀ n < 0x7f, Http.IsTchar (Char.ofNat n) → isSpace (Char.ofNat n) = false := by
    decide +kernel
  exact forall_lt_of_ofNat (p := fun c => Http.IsTchar c → isSpace c = false) hall h.toNat_lt h

theorem strip_token (t : Token) : strip t.val = t.val := by
  refine strip_eq_self fun c hc => isSpace_of_isTchar (t.property.2 c ?_)
  rcases hc with hc | hc
  · exact List.mem_of_mem_head? hc
  · exact List.mem_of_getLast? hc

/-- The parser finds the name of a directive, whatever stands behind the equals sign. -/
theorem directiveName_token (t : Token) {rest : List Char} (h : ∀ c ∈ rest.head?, c = '=') :
    directiveName (t.val ++ rest) = String.ofList (lower t.val) := by
  rw [directiveName_append (t.notMem (by decide)) h, strip_token]

theorem directiveName_text (p : Parameter) : directiveName p.text = name p := by
  refine directiveName_token p.name fun c hc => ?_
  cases hargument : p.argument with
  | none =>
      rw [hargument] at hc
      cases hc
  | some a =>
      rw [hargument] at hc
      cases hc
      rfl

theorem getLast?_argument (a : Argument) :
    ∀ c ∈ a.text.getLast?, isSpace c = false := by
  intro c hc
  cases a with
  | token t => exact isSpace_of_isTchar (t.property.2 c (List.mem_of_getLast? hc))
  | quoted content =>
      rw [Argument.text, ← List.cons_append, List.getLast?_concat] at hc
      cases hc
      decide

theorem text_ne_nil (a : Argument) : a.text ≠ [] := by
  cases a with
  | token t => exact t.property.1
  | quoted content => exact List.cons_ne_nil _ _

/-- No blank is at either end of a directive. -/
theorem strip_text (p : Parameter) : strip p.text = p.text := by
  refine strip_eq_self fun c hc => ?_
  rcases hc with hc | hc
  · rw [Parameter.text, List.head?_append_of_ne_nil _ p.name.property.1] at hc
    exact isSpace_of_isTchar (p.name.property.2 c (List.mem_of_mem_head? hc))
  · cases hargument : p.argument with
    | none =>
        rw [Parameter.text, hargument, Option.elim_none, List.append_nil] at hc
        exact isSpace_of_isTchar (p.name.property.2 c (List.mem_of_getLast? hc))
    | some a =>
        refine getLast?_argument a c ?_
        rw [Parameter.text, hargument, Option.elim_some,
          List.getLast?_append_of_ne_nil _ (List.cons_ne_nil _ _)] at hc
        rwa [List.getLast?_cons_of_ne_nil (text_ne_nil a)] at hc

theorem strip_argument (a : Argument) : strip a.text = a.text := by
  refine strip_eq_self fun c hc => ?_
  rcases hc with hc | hc
  · cases a with
    | token t => exact isSpace_of_isTchar (t.property.2 c (List.mem_of_mem_head? hc))
    | quoted content =>
        cases hc
        decide
  · exact getLast?_argument a c hc

theorem directiveValue_text (p : Parameter) :
    directiveValue p.text = p.argument.elim [] Argument.text := by
  have hequals : ∀ c ∈ p.name.val, decide (c ≠ '=') = true := by
    intro c hc
    rw [decide_eq_true_eq]
    rintro rfl
    exact p.name.notMem (by decide) hc
  rw [directiveValue, strip_text, partition, Parameter.text, List.dropWhile_append_of_pos hequals]
  cases p.argument with
  | none => rfl
  | some a =>
      rw [Option.elim_some, List.dropWhile_cons_of_neg (by decide), List.drop_one, List.tail_cons,
        strip_argument]
      rfl

/-! ### Numbers -/

/-- A token is read as a number if it is one. -/
theorem numeral?_token (t : Token) :
    numeral? t.val = if ∀ c ∈ t.val, isDigit c = true then some t.val else none := by
  have hquote : '"' ∉ t.val := t.notMem (by decide)
  have hhead : ¬ t.val.head? = some '"' := fun h => hquote (List.mem_of_mem_head? h)
  unfold numeral?
  simp only [strip_token, if_neg hhead]
  by_cases hall : ∀ c ∈ t.val, isDigit c = true
  · rw [if_pos hall, List.takeWhile_eq_self_iff.mpr hall, List.dropWhile_eq_nil_iff.mpr hall,
      if_pos ⟨t.property.1, Or.inl rfl⟩]
  · rw [if_neg hall, if_neg]
    rintro ⟨-, hrest | hrest⟩
    · exact hall (List.dropWhile_eq_nil_iff.mp hrest)
    · refine hquote ((List.dropWhile_suffix isDigit).subset ?_)
      rw [hrest]
      exact List.mem_singleton_self _

/-- A quoted string is read as a number if there are digits between the quotation marks. -/
theorem numeral?_quoted (raw : List Char) : numeral? ('"' :: (raw ++ ['"'])) =
    if raw ≠ [] ∧ ∀ c ∈ raw, isDigit c = true then some raw else none := by
  have hstrip : strip ('"' :: (raw ++ ['"'])) = '"' :: (raw ++ ['"']) := by
    refine strip_eq_self fun c hc => ?_
    rw [← List.cons_append, List.getLast?_concat, List.cons_append, List.head?_cons, or_self] at hc
    cases hc
    decide
  have hquote : ¬ isDigit '"' = true := by decide
  unfold numeral?
  simp only [hstrip, List.head?_cons, if_true, List.tail_cons]
  by_cases hall : ∀ c ∈ raw, isDigit c = true
  · rw [List.takeWhile_append_of_pos hall, List.dropWhile_append_of_pos hall,
      List.takeWhile_cons_of_neg hquote, List.dropWhile_cons_of_neg hquote, List.append_nil]
    by_cases hne : raw = []
    · rw [if_neg fun h => h.1 hne, if_neg fun h => h.1 hne]
    · rw [if_pos ⟨hne, Or.inr rfl⟩, if_pos ⟨hne, hall⟩]
  · have hout : ¬ (raw ≠ [] ∧ ∀ c ∈ raw, isDigit c = true) := fun h => hall h.2
    rw [if_neg hout, if_neg]
    rintro ⟨-, hrest | hrest⟩
    · exact hquote (List.dropWhile_eq_nil_iff.mp hrest '"' (by simp))
    · have happend := List.takeWhile_append_dropWhile (p := isDigit) (l := raw ++ ['"'])
      rw [hrest, List.append_left_inj] at happend
      exact hall fun c hc => List.mem_takeWhile_imp (happend ▸ hc)

theorem number?_eq_none {value : List Char} {c : Char} (hc : c ∈ value)
    (hdigit : ¬ c.isDigit = true) : number? value = none :=
  if_neg fun h => hdigit (h.2 c hc)

/-- **A number is read as it is meant**, unless it is written with a backslash. -/
theorem map_numeral?_argument (a : Argument) : (numeral? a.text).map numeralValue =
    if a.escaped then none else number? a.value := by
  have hnumber : ∀ {s : List Char}, s ≠ [] → (∀ c ∈ s, isDigit c = c.isDigit) →
      (if ∀ c ∈ s, isDigit c = true then some s else none).map numeralValue = number? s := by
    intro s hne hs
    by_cases hall : ∀ c ∈ s, c.isDigit = true
    · rw [if_pos fun c hc => (hs c hc).trans (hall c hc), number?, if_pos ⟨hne, hall⟩,
        Option.map_some, numeralValue, foldl_digits hall]
    · rw [if_neg fun h => hall fun c hc => (hs c hc).symm.trans (h c hc), number?,
        if_neg fun h => hall h.2, Option.map_none]
  cases a with
  | token t =>
      have hlatin : ∀ c ∈ t.val, isDigit c = c.isDigit := fun c hc =>
        isDigit_eq (Nat.lt_trans (t.property.2 c hc).toNat_lt (by decide))
      show (numeral? t.val).map numeralValue = number? t.val
      rw [numeral?_token, hnumber t.property.1 hlatin]
  | quoted content =>
      show (numeral? ('"' :: (content.flatMap Http.QuotedChar.raw ++ ['"']))).map numeralValue =
        if content.any Http.QuotedChar.isPair then none else number? (content.map Http.QuotedChar.value)
      rw [numeral?_quoted]
      cases hescaped : content.any Http.QuotedChar.isPair with
      | true =>
          have hbackslash : ¬ (content.flatMap Http.QuotedChar.raw ≠ [] ∧
              ∀ c ∈ content.flatMap Http.QuotedChar.raw, isDigit c = true) := fun h =>
            absurd (h.2 _ (Http.backslash_mem_raw hescaped)) (by decide)
          rw [if_neg hbackslash, if_pos rfl, Option.map_none]
      | false =>
          have hlatin : ∀ c ∈ content.map Http.QuotedChar.value, isDigit c = c.isDigit :=
            fun c hc => isDigit_eq (Nat.lt_of_le_of_lt (Http.isText_value c hc).toNat_le (by decide))
          rw [Http.raw_of_not_escaped hescaped, if_neg Bool.false_ne_true]
          by_cases hne : content.map Http.QuotedChar.value = []
          · rw [hne]
            rfl
          · rw [← hnumber hne hlatin]
            simp only [ne_eq, hne, not_false_eq_true, true_and]

/-! ### What is read -/

/-- A comma stands in a value only if the value is a quoted string, and is meant there. -/
theorem comma_mem_value {a : Argument} (h : ',' ∈ a.text) : ',' ∈ a.value := by
  cases a with
  | token t => exact h
  | quoted content =>
      refine Http.mem_value_of_mem_raw ?_ (by decide)
      rw [Argument.text, List.mem_cons, List.mem_append, List.mem_singleton] at h
      rcases h with h | h | h
      · exact absurd h (by decide)
      · exact h
      · exact absurd h (by decide)

/-- The setting of a directive that has no comma in it is read, or missed. -/
theorem reads_text (p : Parameter) : (reads p.text).toList = (own p).filterMap Event.read := by
  rw [reads, directiveName_text, own, setting]
  cases Flag.ofName (name p) with
  | some f => rfl
  | none =>
      cases Lifetime.ofName (name p) with
      | none => rfl
      | some l =>
          dsimp only
          rw [directiveValue_text, escaped]
          cases p.argument with
          | none => rfl
          | some a =>
              rw [Option.elim_some, map_numeral?_argument, Option.elim_some, Option.bind_some]
              cases a.escaped with
              | true => cases number? a.value <;> rfl
              | false => cases number? a.value <;> rfl

/-- The pieces of a directive with a comma in its value. -/
theorem exists_pieces {p : Parameter} (h : ',' ∈ p.text) : ∃ (a : Argument) (front : List Char)
    (second : List Char) (rest : List (List Char)), p.argument = some a ∧ ',' ∈ a.text ∧
      pieces p = (p.name.val ++ '=' :: front) :: second :: rest := by
  have hname : ',' ∉ p.name.val := p.name.notMem (by decide)
  rw [Parameter.text, List.mem_append, or_iff_right hname] at h
  cases hargument : p.argument with
  | none =>
      rw [hargument] at h
      cases h
  | some a =>
      rw [hargument, Option.elim_some, List.mem_cons, or_iff_right (by decide)] at h
      obtain ⟨front, behind, htext, hfront⟩ := List.eq_append_cons_of_mem h
      obtain ⟨second, rest, hbehind⟩ := List.exists_cons_of_ne_nil (List.splitOn_ne_nil ',' behind)
      have hfirst : ',' ∉ p.name.val ++ '=' :: front := by
        rw [List.mem_append, List.mem_cons, not_or, not_or]
        exact ⟨hname, by decide, hfront⟩
      have hsplit : p.text = (p.name.val ++ '=' :: front) ++ ',' :: behind := by
        rw [Parameter.text, hargument, Option.elim_some, htext, List.append_assoc,
          List.cons_append]
      refine ⟨a, front, second, rest, rfl, h, ?_⟩
      rw [pieces, split, hsplit, List.splitOn_append_cons_self_of_not_mem hfirst, hbehind]

/-- **The settings that the parser reads off a directive** are its own, if it is not missed,
and the strays. -/
theorem filterMap_reads_pieces (p : Parameter) :
    (pieces p).filterMap reads = (events p).filterMap Event.read := by
  rw [events, List.filterMap_append, filterMap_read_strays]
  by_cases hcomma : ',' ∈ p.text
  · obtain ⟨a, front, second, rest, hargument, ha, hpieces⟩ := exists_pieces hcomma
    have hname : directiveName (p.name.val ++ '=' :: front) = name p :=
      directiveName_token p.name fun c hc => by cases hc; rfl
    have hnumber : number? a.value = none := number?_eq_none (comma_mem_value ha) (by decide)
    rw [strays, hpieces, List.filterMap_cons]
    dsimp only
    rw [own, setting, hargument, Option.bind_some, hnumber, reads, hname]
    cases Flag.ofName (name p) with
    | some f => rfl
    | none =>
        cases Lifetime.ofName (name p) with
        | none => rfl
        | some l =>
            dsimp only
            cases numeral? (directiveValue (p.name.val ++ '=' :: front)) with
            | none => rfl
            | some digits => rfl
  · have hpieces : pieces p = [p.text] := List.splitOn_eq_singleton hcomma
    rw [strays, hpieces, List.append_nil, ← reads_text, List.filterMap_cons]
    cases reads p.text with
    | none => rfl
    | some s => rfl

/-! ### A header -/

theorem strip_blanks (before after : Http.Blanks) (s : List Char) :
    strip (before.val ++ s ++ after.val) = strip s := by
  have hblank : ∀ {c : Char}, Http.IsBlank c → isSpace c = true := by
    rintro c (rfl | rfl) <;> decide
  exact strip_append (fun c hc => hblank (before.property c hc))
    (fun c hc => hblank (after.property c hc)) s

/-- The tokens of a header, up to blanks, are the pieces of its directives. -/
theorem map_strip_split {ps : List Parameter} {header : String}
    (h : Http.Lists (ps.map Parameter.text) header.toList) (hne : ps ≠ []) :
    (split ',' header.toList).map strip = ps.flatMap fun p => (pieces p).map strip := by
  rw [split, Http.Lists.map_splitOn strip_blanks h (by simpa using hne), List.flatMap_map]
  rfl

theorem filterMap_reads_strip (tokens : List (List Char)) :
    (tokens.map strip).filterMap reads = tokens.filterMap reads := by
  rw [List.filterMap_map]
  exact List.filterMap_congr fun token _ => (reads_congr (strip_strip token)).1

theorem forall_not_tooLong_strip (tokens : List (List Char)) :
    (∀ token ∈ tokens.map strip, ¬ TooLong token) ↔ ∀ token ∈ tokens, ¬ TooLong token := by
  rw [List.forall_mem_map]
  exact forall₂_congr fun token _ => not_congr (reads_congr (strip_strip token)).2

/-- What the parser takes from a header of directives. -/
theorem reads_header {ps : List Parameter} {header : String}
    (h : Http.Lists (ps.map Parameter.text) header.toList) :
    ((∀ token ∈ split ',' header.toList, ¬ TooLong token) ↔
      ∀ p ∈ ps, ∀ piece ∈ pieces p, ¬ TooLong piece) ∧
    (split ',' header.toList).filterMap reads = (ps.flatMap events).filterMap Event.read := by
  by_cases hne : ps = []
  · subst hne
    obtain ⟨parts, htext, hparts⟩ := h
    cases hparts
    have hempty : split ',' header.toList = [[]] := by
      rw [htext]
      rfl
    have hshort : ¬ TooLong [] := fun hlong => hlong.1 (by decide)
    rw [hempty]
    refine ⟨iff_of_true (fun token htoken => ?_) fun p hp => absurd hp List.not_mem_nil, rfl⟩
    rw [List.mem_singleton.mp htoken]
    exact hshort
  · have hpieces := map_strip_split h hne
    refine ⟨?_, ?_⟩
    · rw [← forall_not_tooLong_strip, hpieces]
      constructor
      · intro h p hp
        exact (forall_not_tooLong_strip (pieces p)).mp fun token htoken =>
          h token (List.mem_flatMap.mpr ⟨p, hp, htoken⟩)
      · intro h token htoken
        obtain ⟨p, hp, htoken⟩ := List.mem_flatMap.mp htoken
        exact (forall_not_tooLong_strip (pieces p)).mpr (h p hp) token htoken
    · rw [← filterMap_reads_strip, hpieces, List.filterMap_flatMap, List.filterMap_flatMap]
      congr 1
      funext p
      rw [filterMap_reads_strip, filterMap_reads_pieces]

theorem meaning_eq (ps : List Parameter) :
    meaning ps = ((ps.flatMap events).filterMap Event.meant).foldl CacheDirectives.set {} := by
  have hmeant : (ps.flatMap events).filterMap Event.meant = ps.filterMap setting := by
    rw [List.filterMap_flatMap, List.filterMap_eq_flatMap_toList]
    congr 1
    funext p
    exact filterMap_meant_events p
  rw [meaning, hmeant]

/--
**When a header is read as it is meant.**  No number in it may have too many digits, and what
the parser reads in quoted values, or misses there, must not show: each stray setting and each
missed one is followed by another of the same directive, or repeats what was there already.
-/
theorem parses_meaning_iff {ps : List Parameter} {header : String}
    (h : Http.Lists (ps.map Parameter.text) header.toList) :
    parseCacheControl header = .ok (meaning ps) ↔
      (∀ p ∈ ps, ∀ piece ∈ pieces p, ¬ TooLong piece) ∧
        Registers.Agrees Setting.register (ps.flatMap events) := by
  obtain ⟨hshort, hreads⟩ := reads_header h
  rw [parseCacheControl_eq_ok, hshort, hreads, meaning_eq, CacheDirectives.foldl_set_eq_iff,
    Registers.last_eq_iff_agrees]

/-- Directives without commas and backslashes in their values have no strays and miss nothing. -/
theorem agrees_of_plain {ps : List Parameter}
    (h : ∀ p ∈ ps, ',' ∉ p.text ∧ escaped p = false) :
    Registers.Agrees Setting.register (ps.flatMap events) := by
  have hboth : ∀ p ∈ ps, ∀ e ∈ events p, ∃ s, e = Event.both s := by
    intro p hp e he
    obtain ⟨hcomma, hescaped⟩ := h p hp
    have hpieces : pieces p = [p.text] := List.splitOn_eq_singleton hcomma
    have hstrays : strays p = [] := by rw [strays, hpieces]
    rw [events, hstrays, List.map_nil, List.append_nil, own] at he
    split at he
    · exact ⟨_, List.mem_singleton.mp he⟩
    · rw [if_neg (by rw [hescaped]; decide)] at he
      exact ⟨_, List.mem_singleton.mp he⟩
    · cases he
  rintro before e after hevents -
  have he : e ∈ ps.flatMap events := by
    rw [hevents]
    exact List.mem_append_right _ List.mem_cons_self
  obtain ⟨p, hp, he⟩ := List.mem_flatMap.mp he
  obtain ⟨s, rfl⟩ := hboth p hp e he
  trivial

/-! ### A directive inside of a value -/

/-- An extension whose value has the name of a directive between two commas. -/
def extension : Parameter where
  name := ⟨['e', 'x', 't'], by simp [Http.IsTchar]⟩
  argument := some (.quoted [.text 'a' (by decide), .text ',' (by decide), .text 'n' (by decide),
    .text 'o' (by decide), .text '-' (by decide), .text 's' (by decide), .text 't' (by decide),
    .text 'o' (by decide), .text 'r' (by decide), .text 'e' (by decide), .text ',' (by decide),
    .text 'b' (by decide)])

theorem lists_extension : Http.Lists ([extension].map Parameter.text)
    "ext=\"a,no-store,b\"".toList :=
  ⟨["ext=\"a,no-store,b\"".toList], by decide +kernel,
    .cons ⟨⟨[], by simp⟩, ⟨[], by simp⟩, by decide +kernel⟩ .nil⟩

theorem parses_meaning_iff_extension :
    parseCacheControl "ext=\"a,no-store,b\"" = .ok (meaning [extension]) ↔
      (∀ p ∈ [extension], ∀ piece ∈ pieces p, ¬ TooLong piece) ∧
        Registers.Agrees Setting.register ([extension].flatMap events) :=
  parses_meaning_iff lists_extension

/-- The value of an extension forbids that the response is stored. -/
theorem not_parses_meaning_extension : ¬ ∀ (ps : List Parameter) (header : String),
    Http.Lists (ps.map Parameter.text) header.toList →
      parseCacheControl header = .ok (meaning ps) := by
  intro h
  have hparse := h [extension] _ lists_extension
  revert hparse
  decide +kernel

end CacheControl

end Cdn

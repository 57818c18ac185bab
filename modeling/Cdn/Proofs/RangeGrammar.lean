/-
The grammar of Range headers.

`from_header` reads with two patterns and cuts at commas in between.  What it accepts is a
list of specifications under a unit, with blanks where they can do no harm, and here is the
tree of such a header: it can only be built of parts that are well formed, and it knows its
text and the ranges it stands for.  The parser accepts exactly the texts of trees, and what
`to_header` writes is the text of one.
-/
import Cdn.Domain.ByteRange
import Cdn.Lib.Fields

namespace Cdn

open Http (IsBlank Blanks)

namespace ByteRange

/-! ### Characters -/

/-- A printable character of ASCII, or a tab. -/
def Plain (c : Char) : Prop := c = '\t' ∨ ' ' ≤ c ∧ c ≤ '~'

instance : DecidablePred Plain := fun c => inferInstanceAs (Decidable (c = '\t' ∨ _))

theorem Plain.toNat_lt {c : Char} (h : Plain c) : c.toNat < 0x7f := by
  rcases h with rfl | ⟨-, h⟩
  · decide
  · exact Nat.lt_succ_of_le h

theorem isSpace_of_isBlank {c : Char} (h : IsBlank c) : isSpace c = true := by
  rcases h with rfl | rfl <;> decide

theorem isDigit_of_isBlank {c : Char} (h : IsBlank c) : isDigit c = false := by
  rcases h with rfl | rfl <;> decide

/-- What a pattern skips in a plain text are blanks. -/
theorem Plain.isBlank {c : Char} (h : Plain c) (hspace : isSpace c = true) : IsBlank c := by
  have hall : ∀ n < 0x7f, Plain (Char.ofNat n) → isSpace (Char.ofNat n) = true →
      IsBlank (Char.ofNat n) := by decide +kernel
  exact forall_lt_of_ofNat (p := fun c => Plain c → isSpace c = true → IsBlank c) hall h.toNat_lt
    h hspace

theorem Plain.isDigit {c : Char} (h : Plain c) (hdigit : Cdn.isDigit c = true) :
    c.isDigit = true := by
  rwa [isDigit_eq (Nat.lt_trans h.toNat_lt (by decide))] at hdigit

/-- In a plain text the letters of the unit have two cases each. -/
theorem Plain.toLower_eq {c letter : Char} (h : Plain c) (hsame : sameLetter letter c = true) :
    c.toLower = letter := by
  rw [sameLetter, Bool.or_eq_true, decide_eq_true_eq] at hsame
  rcases hsame with hsame | hsame
  · exact hsame
  · rw [Bool.and_eq_true, decide_eq_true_eq, decide_eq_true_eq] at hsame
    exact absurd h (hsame.2 ▸ by decide)

/-! ### Specifications -/

/-- The digits of a bound, as many as can be read; where there are none there is no bound. -/
abbrev Digits := {s : List Char // (∀ c ∈ s, c.isDigit = true) ∧ s.length ≤ maxStrDigits}

/-- The bound that is written. -/
def Digits.bound (digits : Digits) : Option Nat :=
  if digits.val = [] then none else some (Nat.ofDigitChars 10 digits.val 0)

/-- One specification, `digits? - digits?` with at least one bound. -/
structure Spec where
  before : Blanks
  start : Digits
  beforeDash : Blanks
  afterDash : Blanks
  stop : Digits
  after : Blanks
  bounded : start.val ≠ [] ∨ stop.val ≠ []

namespace Spec

def text (s : Spec) : List Char :=
  s.before.val ++ s.start.val ++ s.beforeDash.val ++ '-' ::
    (s.afterDash.val ++ s.stop.val ++ s.after.val)

/-- The range that is meant. -/
def range (s : Spec) : ByteRange := ⟨s.start.bound, s.stop.bound⟩

end Spec

/-- A header: a unit of bytes in any case, and a list of specifications. -/
structure RangeHeader where
  before : Blanks
  unit : List Char
  unit_eq : lower unit = "bytes".toList
  beforeEquals : Blanks
  afterEquals : Blanks
  specs : List Spec
  specs_ne_nil : specs ≠ []

namespace RangeHeader

def text (h : RangeHeader) : List Char :=
  h.before.val ++ h.unit ++ h.beforeEquals.val ++ '=' ::
    (h.afterEquals.val ++ [','].intercalate (h.specs.map Spec.text))

def ranges (h : RangeHeader) : List ByteRange := h.specs.map Spec.range

end RangeHeader

/-! ### A specification is read -/

theorem bound?_digits (digits : Digits) : bound? digits.val = .ok digits.bound := by
  unfold bound? Digits.bound
  split
  · rfl
  · rw [int_eq digits.property.1 digits.property.2]
    rfl

theorem Digits.scans (digits : Digits) :
    ∀ c ∈ digits.val, isDigit c = true ∧ isSpace c = false :=
  fun c hc => ⟨isDigit_of_isDigit (digits.property.1 c hc),
    isSpace_of_isDigit (digits.property.1 c hc)⟩

theorem scans_blanks (blanks : Blanks) :
    ∀ c ∈ blanks.val, isSpace c = true ∧ isDigit c = false :=
  fun c hc => ⟨isSpace_of_isBlank (blanks.property c hc), isDigit_of_isBlank (blanks.property c hc)⟩

theorem rangePart?_text (s : Spec) : rangePart? s.text = some (s.start.val, s.stop.val) := by
  obtain ⟨hstart, hdash⟩ := Scan.scan ('-' :: (s.afterDash.val ++ s.stop.val ++ s.after.val))
    (fun c hc => (scans_blanks s.before c hc).1) s.start.scans (scans_blanks s.beforeDash)
    (Scan.stops_cons (by decide) _) (Scan.stops_cons (by decide) _)
  obtain ⟨hstop, hend⟩ := Scan.scan [] (fun c hc => (scans_blanks s.afterDash c hc).1)
    s.stop.scans (scans_blanks s.after) (Scan.stops_nil isSpace) (Scan.stops_nil isDigit)
  rw [List.append_nil] at hstop hend
  have hall := List.all_eq_true.mpr (List.dropWhile_eq_nil_iff.mp hend)
  unfold rangePart? Spec.text
  simp only [hdash, hstart]
  rw [if_pos hall, hstop]

/-- **A specification is read as the range that is meant.** -/
theorem ofPart_text (s : Spec) : ofPart s.text = .ok s.range := by
  unfold ofPart
  rw [rangePart?_text]
  split
  · rename_i hnone
    cases hnone
  · rename_i hempty
    obtain ⟨hstart, hstop⟩ := Prod.mk.inj (Option.some.inj hempty)
    exact absurd s.bounded (by rw [hstart, hstop]; decide)
  · rename_i startStr endStr _ hsome
    obtain ⟨rfl, rfl⟩ := Prod.mk.inj (Option.some.inj hsome)
    rw [bound?_digits, bound?_digits]
    rfl

theorem exists_digits {s : List Char} {bound : Option Nat} (hs : ∀ c ∈ s, c.isDigit = true)
    (h : bound? s = .ok bound) : ∃ digits : Digits, digits.val = s ∧ digits.bound = bound := by
  have hlength : s.length ≤ maxStrDigits := by
    by_contra hlong
    have hne : s ≠ [] := by
      rintro rfl
      exact hlong (Nat.zero_le _)
    rw [bound?, if_neg hne, int, if_pos (Nat.lt_of_not_le hlong)] at h
    cases h
  refine ⟨⟨s, hs, hlength⟩, rfl, ?_⟩
  have hbound := bound?_digits ⟨s, hs, hlength⟩
  rw [h] at hbound
  exact (Except.ok.inj hbound).symm

/-- What the second pattern matches, taken apart. -/
theorem rangePart?_eq_some {part startStr endStr : List Char}
    (h : rangePart? part = some (startStr, endStr)) :
    ∃ b₁ b₂ b₃ b₄, (∀ c ∈ b₁ ++ b₂ ++ b₃ ++ b₄, isSpace c = true) ∧
      (∀ c ∈ startStr ++ endStr, isDigit c = true) ∧
      part = b₁ ++ startStr ++ b₂ ++ '-' :: (b₃ ++ endStr ++ b₄) := by
  unfold rangePart? at h
  dsimp only at h
  have hpart := Scan.eq_append isSpace isDigit part
  dsimp only at hpart
  generalize part.dropWhile isSpace = found at h hpart
  split at h
  · rename_i behind hdash
    have hbehind := Scan.eq_append isSpace isDigit behind
    dsimp only at hbehind
    generalize behind.dropWhile isSpace = last at h hbehind
    split at h
    · rename_i hall
      obtain ⟨rfl, rfl⟩ := Prod.mk.inj (Option.some.inj h)
      refine ⟨part.takeWhile isSpace, (found.dropWhile isDigit).takeWhile isSpace,
        behind.takeWhile isSpace, last.dropWhile isDigit, ?_, ?_, ?_⟩
      · intro c hc
        simp only [List.mem_append] at hc
        rcases hc with ((hc | hc) | hc) | hc
        · exact List.mem_takeWhile_imp hc
        · exact List.mem_takeWhile_imp hc
        · exact List.mem_takeWhile_imp hc
        · exact List.all_eq_true.mp hall c hc
      · intro c hc
        rcases List.mem_append.mp hc with hc | hc
        · exact List.mem_takeWhile_imp hc
        · exact List.mem_takeWhile_imp hc
      · rw [List.append_assoc _ (List.takeWhile isSpace (List.dropWhile isDigit last)),
          List.takeWhile_append_dropWhile] at hbehind
        rw [← hbehind, ← hdash]
        exact hpart
    · cases h
  · cases h

/-- **Only a specification is read.** -/
theorem exists_spec {part : List Char} {r : ByteRange} (hplain : ∀ c ∈ part, Plain c)
    (h : ofPart part = .ok r) : ∃ s : Spec, s.text = part ∧ s.range = r := by
  unfold ofPart at h
  split at h
  · cases h
  · cases h
  · rename_i startStr endStr hbounded hsome
    obtain ⟨start, hstart, h⟩ := bind_ok h
    obtain ⟨stop, hstop, h⟩ := bind_ok h
    obtain ⟨b₁, b₂, b₃, b₄, hblank, hdigit, rfl⟩ := rangePart?_eq_some hsome
    cases h
    obtain ⟨startDigits, rfl, rfl⟩ := exists_digits (fun c hc => (hplain c (by simp [hc])).isDigit
      (hdigit c (by simp [hc]))) hstart
    obtain ⟨stopDigits, rfl, rfl⟩ := exists_digits (fun c hc => (hplain c (by simp [hc])).isDigit
      (hdigit c (by simp [hc]))) hstop
    have hblanks : ∀ c ∈ b₁ ++ b₂ ++ b₃ ++ b₄, IsBlank c := by
      intro c hc
      refine (hplain c ?_).isBlank (hblank c hc)
      simp only [List.mem_append, List.mem_cons] at hc ⊢
      tauto
    refine ⟨⟨⟨b₁, fun c hc => hblanks c (by simp [hc])⟩, startDigits,
      ⟨b₂, fun c hc => hblanks c (by simp [hc])⟩, ⟨b₃, fun c hc => hblanks c (by simp [hc])⟩,
      stopDigits, ⟨b₄, fun c hc => hblanks c (by simp [hc])⟩, ?_⟩, rfl, rfl⟩
    by_contra hnone
    rw [not_or, not_not, not_not] at hnone
    exact hbounded hnone.1 hnone.2

/-- What a specification is made of. -/
theorem Spec.mem_text {s : Spec} {c : Char} (hc : c ∈ s.text) :
    IsBlank c ∨ c.isDigit = true ∨ c = '-' := by
  simp only [Spec.text, List.mem_append, List.mem_cons] at hc
  rcases hc with ((hc | hc) | hc) | hc | (hc | hc) | hc
  · exact Or.inl (s.before.property c hc)
  · exact Or.inr (Or.inl (s.start.property.1 c hc))
  · exact Or.inl (s.beforeDash.property c hc)
  · exact Or.inr (Or.inr hc)
  · exact Or.inl (s.afterDash.property c hc)
  · exact Or.inr (Or.inl (s.stop.property.1 c hc))
  · exact Or.inl (s.after.property c hc)

/-- Neither what separates specifications nor what ends a line is in one. -/
theorem Spec.not_mem_text (s : Spec) : ',' ∉ s.text ∧ '\n' ∉ s.text := by
  refine ⟨fun hc => ?_, fun hc => ?_⟩
  · exact absurd (Spec.mem_text hc) (by decide)
  · exact absurd (Spec.mem_text hc) (by decide)

theorem Spec.exists_not_isSpace (s : Spec) : ∃ c ∈ s.text, isSpace c = false := by
  refine ⟨'-', ?_, by decide⟩
  rw [Spec.text]
  exact List.mem_append_right _ List.mem_cons_self

/-! ### A header is read -/

theorem toNat_lt_of_toLower {c : Char} (h : c.toLower.toNat < 0x80) : c.toNat < 0x80 := by
  by_cases hupper : c.isUpper = true
  · rw [Char.isUpper, decide_eq_true_eq] at hupper
    exact Nat.lt_of_le_of_lt (UInt32.le_iff_toNat_le.mp hupper.2) (by decide)
  · rwa [Char.toLower_eq_of_not_isUpper hupper] at h

namespace RangeHeader

variable (h : RangeHeader)

theorem length_unit : h.unit.length = 5 := by
  have hlength := congrArg List.length h.unit_eq
  rwa [lower, List.length_map] at hlength

theorem isSpace_unit : ∀ c ∈ h.unit, isSpace c = false := by
  intro c hc
  have hletter : c.toLower ∈ ['b', 'y', 't', 'e', 's'] := by
    have hbytes : lower h.unit = ['b', 'y', 't', 'e', 's'] := h.unit_eq
    rw [← hbytes]
    exact List.mem_map_of_mem hc
  have hletters : ∀ b ∈ ['b', 'y', 't', 'e', 's'], b.toNat < 0x80 := by simp
  have hall : ∀ n < 0x80, (Char.ofNat n).toLower ∈ ['b', 'y', 't', 'e', 's'] →
      isSpace (Char.ofNat n) = false := by decide +kernel
  exact forall_lt_of_ofNat (p := fun c => c.toLower ∈ _ → isSpace c = false) hall
    (toNat_lt_of_toLower (hletters _ hletter)) hletter

theorem sameLetter_unit : (List.zipWith sameLetter "bytes".toList h.unit).all id = true := by
  have hsame : ∀ unit : List Char, (List.zipWith sameLetter (lower unit) unit).all id = true := by
    intro unit
    induction unit with
    | nil => rfl
    | cons c unit ih =>
        show (sameLetter c.toLower c && (List.zipWith sameLetter (lower unit) unit).all id) = true
        rw [ih, Bool.and_true, sameLetter, decide_eq_true rfl, Bool.true_or]
  rw [← h.unit_eq]
  exact hsame h.unit

theorem rangeSet?_text {first : Spec} {rest : List Spec} (hspecs : h.specs = first :: rest) :
    rangeSet? h.text =
      some ([','].intercalate (first.text.dropWhile isSpace :: rest.map Spec.text)) := by
  have hskip : h.text.dropWhile isSpace = h.unit ++ (h.beforeEquals.val ++ '=' ::
      (h.afterEquals.val ++ [','].intercalate (h.specs.map Spec.text))) := by
    rw [text, List.append_assoc _ h.beforeEquals.val]
    refine Scan.dropWhile_skipped (fun c hc => (scans_blanks h.before c hc).1) h.isSpace_unit ?_
    exact List.length_pos_iff.mp (by rw [h.length_unit]; decide)
  have hequals : (h.beforeEquals.val ++ '=' ::
      (h.afterEquals.val ++ [','].intercalate (h.specs.map Spec.text))).dropWhile isSpace =
        '=' :: (h.afterEquals.val ++ [','].intercalate (h.specs.map Spec.text)) := by
    rw [List.dropWhile_append_of_pos fun c hc => (scans_blanks h.beforeEquals c hc).1,
      List.dropWhile_cons_of_neg (by decide)]
  have hset : (h.afterEquals.val ++ [','].intercalate (h.specs.map Spec.text)).dropWhile isSpace =
      [','].intercalate (first.text.dropWhile isSpace :: rest.map Spec.text) := by
    rw [List.dropWhile_append_of_pos fun c hc => (scans_blanks h.afterEquals c hc).1, hspecs,
      List.map_cons, Scan.dropWhile_intercalate _ first.exists_not_isSpace]
  have hline : '\n' ∉ [','].intercalate (first.text.dropWhile isSpace :: rest.map Spec.text) := by
    intro hmem
    rcases Scan.eq_or_mem_of_mem_intercalate hmem with hcomma | ⟨part, hpart, hmem⟩
    · exact absurd hcomma (by decide)
    · rcases List.mem_cons.mp hpart with rfl | hpart
      · exact first.not_mem_text.2 ((List.dropWhile_suffix isSpace).subset hmem)
      · obtain ⟨s, -, rfl⟩ := List.mem_map.mp hpart
        exact s.not_mem_text.2 hmem
  have hne : [','].intercalate (first.text.dropWhile isSpace :: rest.map Spec.text) ≠ [] := by
    obtain ⟨c, hc, hspace⟩ := first.exists_not_isSpace
    rw [← hset, Ne, List.dropWhile_eq_nil_iff]
    intro hall
    have hmem : c ∈ [','].intercalate (h.specs.map Spec.text) :=
      Scan.mem_intercalate_of_mem (hspecs ▸ List.mem_cons_self) hc
    have hskipped := hall c (List.mem_append_right _ hmem)
    rw [hspace] at hskipped
    cases hskipped
  unfold rangeSet?
  simp only [hskip, List.take_left' h.length_unit, List.drop_left' h.length_unit, hequals, hset]
  generalize [','].intercalate (first.text.dropWhile isSpace :: rest.map Spec.text) = set at *
  have hlast : ¬ set.getLast? = some '\n' := fun hlast => hline (List.mem_of_getLast? hlast)
  rw [if_pos ⟨h.length_unit, h.sameLetter_unit⟩, if_neg hlast, if_neg (not_or.mpr ⟨hne, hline⟩)]

end RangeHeader

theorem ofPart_dropWhile (part : List Char) : ofPart (part.dropWhile isSpace) = ofPart part := by
  unfold ofPart rangePart?
  rw [List.dropWhile_idempotent]

theorem mapM_ofPart_text (specs : List Spec) :
    (specs.map Spec.text).mapM ofPart = .ok (specs.map Spec.range) := by
  induction specs with
  | nil => rfl
  | cons s specs ih =>
      rw [List.map_cons, List.mapM_cons, ofPart_text, ih]
      rfl

/-- **The text of a header is read as the ranges that are meant.** -/
theorem fromHeader_text (h : RangeHeader) {header : String} (htext : header.toList = h.text) :
    fromHeader header = .ok h.ranges := by
  obtain ⟨first, rest, hspecs⟩ := List.exists_cons_of_ne_nil h.specs_ne_nil
  have hcomma : ∀ part ∈ first.text.dropWhile isSpace :: rest.map Spec.text, ',' ∉ part := by
    intro part hpart hmem
    rcases List.mem_cons.mp hpart with rfl | hpart
    · exact first.not_mem_text.1 ((List.dropWhile_suffix isSpace).subset hmem)
    · obtain ⟨s, -, rfl⟩ := List.mem_map.mp hpart
      exact s.not_mem_text.1 hmem
  have hfirst := mapM_ofPart_text h.specs
  rw [hspecs, List.map_cons, List.mapM_cons] at hfirst
  rw [fromHeader, htext, h.rangeSet?_text hspecs]
  dsimp only
  rw [split, List.splitOn_intercalate ',' hcomma (List.cons_ne_nil _ _), List.mapM_cons,
    ofPart_dropWhile, hfirst, RangeHeader.ranges, hspecs]

/-! ### Only a header is read -/

theorem lower_of_sameLetter {letters unit : List Char} (hlength : letters.length = unit.length)
    (hplain : ∀ c ∈ unit, Plain c) (h : (List.zipWith sameLetter letters unit).all id = true) :
    lower unit = letters := by
  induction letters generalizing unit with
  | nil =>
      rw [List.eq_nil_of_length_eq_zero hlength.symm]
      rfl
  | cons letter letters ih =>
      cases unit with
      | nil => cases hlength
      | cons c unit =>
          rw [List.zipWith_cons_cons, List.all_cons, Bool.and_eq_true] at h
          have hc := (hplain c List.mem_cons_self).toLower_eq h.1
          have hrest := ih (Nat.succ.inj hlength) (fun b hb => hplain b (List.mem_cons_of_mem c hb)) h.2
          rw [lower, List.map_cons, hc]
          exact congrArg (letter :: ·) hrest

/-- What the first pattern matches, taken apart. -/
theorem rangeSet?_eq_some {s set : List Char} (hplain : ∀ c ∈ s, Plain c)
    (h : rangeSet? s = some set) :
    ∃ b₁ unit b₂ b₃, (∀ c ∈ b₁ ++ b₂ ++ b₃, isSpace c = true) ∧
      lower unit = "bytes".toList ∧ s = b₁ ++ unit ++ b₂ ++ '=' :: (b₃ ++ set) := by
  unfold rangeSet? at h
  dsimp only at h
  have hs := List.takeWhile_append_dropWhile (p := isSpace) (l := s)
  generalize s.dropWhile isSpace = found at h hs
  split at h
  · rename_i hunit
    split at h
    · rename_i rest hequals
      have hbehind := List.takeWhile_append_dropWhile (p := isSpace) (l := found.drop 5)
      rw [hequals] at hbehind
      have hfound : s = s.takeWhile isSpace ++ found.take 5 ++ (found.drop 5).takeWhile isSpace ++
          '=' :: (rest.takeWhile isSpace ++ rest.dropWhile isSpace) := by
        rw [List.takeWhile_append_dropWhile, List.append_assoc, hbehind, List.append_assoc,
          List.take_append_drop, hs]
      have hline : '\n' ∉ rest.dropWhile isSpace := by
        intro hmem
        refine absurd (hplain '\n' ?_) (by decide)
        rw [hfound]
        exact List.mem_append_right _ (List.mem_cons_of_mem _ (List.mem_append_right _ hmem))
      rw [if_neg fun hlast => hline (List.mem_of_getLast? hlast)] at h
      split at h
      · cases h
      · cases h
        refine ⟨s.takeWhile isSpace, found.take 5, (found.drop 5).takeWhile isSpace,
          rest.takeWhile isSpace, ?_, ?_, hfound⟩
        · intro c hc
          simp only [List.mem_append] at hc
          rcases hc with (hc | hc) | hc
          · exact List.mem_takeWhile_imp hc
          · exact List.mem_takeWhile_imp hc
          · exact List.mem_takeWhile_imp hc
        · refine lower_of_sameLetter hunit.1.symm (fun c hc => hplain c ?_) hunit.2
          rw [← hs]
          exact List.mem_append_right _ (List.mem_of_mem_take hc)
    · cases h
  · cases h

theorem exists_specs {parts : List (List Char)} {ranges : List ByteRange}
    (hplain : ∀ part ∈ parts, ∀ c ∈ part, Plain c) (h : parts.mapM ofPart = .ok ranges) :
    ∃ specs : List Spec, specs.map Spec.text = parts ∧ specs.map Spec.range = ranges := by
  induction parts generalizing ranges with
  | nil =>
      cases h
      exact ⟨[], rfl, rfl⟩
  | cons part parts ih =>
      rw [List.mapM_cons] at h
      obtain ⟨r, hr, h⟩ := bind_ok h
      obtain ⟨ranges', hranges, h⟩ := bind_ok h
      cases h
      obtain ⟨s, htext, hrange⟩ := exists_spec (hplain part List.mem_cons_self) hr
      obtain ⟨specs, htexts, hmeant⟩ :=
        ih (fun part' hpart' => hplain part' (List.mem_cons_of_mem part hpart')) hranges
      exact ⟨s :: specs, by rw [List.map_cons, htext, htexts], by rw [List.map_cons, hrange, hmeant]⟩

/-- **Only a header is read**, of those that are plain. -/
theorem exists_rangeHeader {header : String} {ranges : List ByteRange}
    (hplain : ∀ c ∈ header.toList, Plain c) (h : fromHeader header = .ok ranges) :
    ∃ tree : RangeHeader, tree.text = header.toList ∧ tree.ranges = ranges := by
  unfold fromHeader at h
  split at h
  · cases h
  · rename_i set hset
    obtain ⟨b₁, unit, b₂, b₃, hblank, hunit, hheader⟩ := rangeSet?_eq_some hplain hset
    have hblanks : ∀ c ∈ b₁ ++ b₂ ++ b₃, IsBlank c := by
      intro c hc
      refine (hplain c ?_).isBlank (hblank c hc)
      rw [hheader]
      simp only [List.mem_append, List.mem_cons] at hc ⊢
      tauto
    have hparts : ∀ part ∈ split ',' set, ∀ c ∈ part, Plain c := by
      intro part hpart c hc
      have hmem : c ∈ set := Scan.mem_of_mem_splitOn hpart hc
      exact hplain c (by rw [hheader]; simp [hmem])
    obtain ⟨specs, htexts, hranges⟩ := exists_specs hparts h
    have hne : specs ≠ [] := by
      rintro rfl
      exact List.splitOn_ne_nil ',' set htexts.symm
    refine ⟨⟨⟨b₁, fun c hc => hblanks c (by simp [hc])⟩, unit, hunit,
      ⟨b₂, fun c hc => hblanks c (by simp [hc])⟩, ⟨b₃, fun c hc => hblanks c (by simp [hc])⟩,
      specs, hne⟩, ?_, hranges⟩
    rw [hheader, RangeHeader.text]
    dsimp only
    rw [htexts, split, List.intercalate_splitOn]

/-! ### What is written -/

/-- A range that says something: it has a bound. -/
def HasBound (r : ByteRange) : Prop := r.start ≠ none ∨ r.stop ≠ none

/-- Both bounds are short enough to be written. -/
def Writable (r : ByteRange) : Prop :=
  ∀ n, r.start = some n ∨ r.stop = some n → (toString n).length ≤ maxStrDigits

/-- The ranges as `to_header` writes them, in a list under one unit. -/
def Joins (ranges : List ByteRange) (header : String) : Prop :=
  ∃ (specifications : List String) (list : List Char),
    List.Forall₂ (fun r specification => r.toHeader = .ok ("bytes=" ++ specification))
      ranges specifications ∧
    Http.Lists (specifications.map String.toList) list ∧ header.toList = "bytes=".toList ++ list

/-- The digits of a bound. -/
theorem exists_digits_boundStr {bound : Option Nat} {s : String} (h : boundStr bound = .ok s) :
    ∃ digits : Digits, digits.val = s.toList ∧ digits.bound = bound := by
  cases bound with
  | none =>
      cases h
      exact ⟨⟨[], by simp⟩, rfl, rfl⟩
  | some n =>
      have hstr : str n = .ok s := h
      obtain ⟨-, hs⟩ := str_eq_ok.mp hstr
      refine exists_digits (hs ▸ isDigit_of_mem_toString) ?_
      rw [bound?, if_neg (hs ▸ toList_toString_ne_nil n), int_of_str hstr]
      rfl

theorem boundStr_ok {bound : Option Nat}
    (h : ∀ n, bound = some n → (toString n).length ≤ maxStrDigits) :
    ∃ s, boundStr bound = .ok s := by
  cases bound with
  | none => exact ⟨"", rfl⟩
  | some n => exact ⟨_, str_eq_ok.mpr ⟨h n rfl, rfl⟩⟩

/-- Short bounds are written. -/
theorem toHeader_ok {r : ByteRange} (h : r.Writable) :
    ∃ specification, r.toHeader = .ok ("bytes=" ++ specification) := by
  obtain ⟨startStr, hstart⟩ := boundStr_ok fun n hn => h n (Or.inl hn)
  obtain ⟨endStr, hend⟩ := boundStr_ok fun n hn => h n (Or.inr hn)
  refine ⟨startStr ++ "-" ++ endStr, ?_⟩
  rw [toHeader, hstart, hend, ← String.append_assoc, ← String.append_assoc]
  rfl

/-- What `to_header` writes is a specification. -/
theorem exists_spec_of_toHeader {r : ByteRange} {specification : String} (hbound : r.HasBound)
    (h : r.toHeader = .ok ("bytes=" ++ specification)) (before after : Blanks) :
    ∃ s : Spec, s.text = before.val ++ specification.toList ++ after.val ∧ s.range = r := by
  obtain ⟨startStr, hstart, h⟩ := bind_ok h
  obtain ⟨endStr, hend, h⟩ := bind_ok h
  have htext : "bytes=" ++ startStr ++ "-" ++ endStr = "bytes=" ++ specification :=
    Except.ok.inj h
  rw [String.append_assoc, String.append_assoc, String.append_right_inj] at htext
  obtain ⟨start, hstart, hstartBound⟩ := exists_digits_boundStr hstart
  obtain ⟨stop, hstop, hstopBound⟩ := exists_digits_boundStr hend
  have hempty : ∀ digits : Digits, digits.val = [] → digits.bound = none := fun _ h => if_pos h
  have hbounded : start.val ≠ [] ∨ stop.val ≠ [] := by
    rcases hbound with hbound | hbound
    · exact Or.inl fun h => hbound (hstartBound ▸ hempty start h)
    · exact Or.inr fun h => hbound (hstopBound ▸ hempty stop h)
  refine ⟨⟨before, start, ⟨[], by simp⟩, ⟨[], by simp⟩, stop, after, hbounded⟩, ?_, ?_⟩
  · rw [← htext, Spec.text, hstart, hstop]
    simp
  · rw [Spec.range, hstartBound, hstopBound]

theorem exists_rangeHeader_of_joins {ranges : List ByteRange} {header : String}
    (hne : ranges ≠ []) (hbound : ∀ r ∈ ranges, r.HasBound) (h : Joins ranges header) :
    ∃ tree : RangeHeader, header.toList = tree.text ∧ tree.ranges = ranges := by
  obtain ⟨specifications, list, hwritten, ⟨parts, rfl, hparts⟩, hheader⟩ := h
  rw [List.forall₂_map_left_iff] at hparts
  have hspecs : ∃ specs : List Spec, specs.map Spec.text = parts ∧
      specs.map Spec.range = ranges := by
    clear hheader hne
    induction hwritten generalizing parts with
    | nil =>
        cases hparts
        exact ⟨[], rfl, rfl⟩
    | cons hr _ ih =>
        obtain _ | ⟨⟨before, after, rfl⟩, hparts⟩ := hparts
        obtain ⟨specs, rfl, hranges⟩ := ih (fun r hr => hbound r (List.mem_cons_of_mem _ hr)) _ hparts
        obtain ⟨s, htext, hrange⟩ :=
          exists_spec_of_toHeader (hbound _ List.mem_cons_self) hr before after
        exact ⟨s :: specs, by rw [List.map_cons, htext], by rw [List.map_cons, hrange, hranges]⟩
  obtain ⟨specs, htexts, hranges⟩ := hspecs
  have hspecs : specs ≠ [] := by
    rintro rfl
    exact hne hranges.symm
  refine ⟨⟨⟨[], by simp⟩, "bytes".toList, by decide, ⟨[], by simp⟩, ⟨[], by simp⟩, specs,
    hspecs⟩, ?_, hranges⟩
  rw [hheader, RangeHeader.text]
  dsimp only
  rw [htexts]
  rfl

/--
**The grammar of Range headers.**  What is written is read back: ranges with a bound each,
joined as specifications under one unit, with blanks at will.  And of the texts that are
plain, the parser accepts those that are headers, and no others.
-/
theorem fromHeader_grammar :
    (∀ r : ByteRange, r.Writable → ∃ specification, r.toHeader = .ok ("bytes=" ++ specification)) ∧
    (∀ ranges header, ranges ≠ [] → (∀ r ∈ ranges, r.HasBound) → Joins ranges header →
      fromHeader header = .ok ranges) ∧
    ∀ header : String, (∀ c ∈ header.toList, Plain c) →
      ((∃ ranges, fromHeader header = .ok ranges) ↔
        ∃ tree : RangeHeader, tree.text = header.toList) ∧
      ((¬ ∃ tree : RangeHeader, tree.text = header.toList) → fromHeader header = .error .value) := by
  have hexact : ∀ header : String, (∀ c ∈ header.toList, Plain c) →
      ((∃ ranges, fromHeader header = .ok ranges) ↔
        ∃ tree : RangeHeader, tree.text = header.toList) := by
    intro header hplain
    constructor
    · rintro ⟨ranges, h⟩
      obtain ⟨tree, htext, -⟩ := exists_rangeHeader hplain h
      exact ⟨tree, htext⟩
    · rintro ⟨tree, htext⟩
      exact ⟨tree.ranges, fromHeader_text tree htext.symm⟩
  refine ⟨fun r => toHeader_ok, fun ranges header hne hbound hjoins => ?_, fun header hplain =>
    ⟨hexact header hplain, fun hnone => ?_⟩⟩
  · obtain ⟨tree, htext, hranges⟩ := exists_rangeHeader_of_joins hne hbound hjoins
    rw [fromHeader_text tree htext, hranges]
  · cases h : fromHeader header with
    | error x => rw [fromHeader_error h]
    | ok ranges => exact absurd ((hexact header hplain).mp ⟨ranges, h⟩) hnone

/-- A part of a file and its last bytes, with blanks around the comma. -/
theorem fromHeader_grammar_two :
    fromHeader "bytes=0-499 , -500" = .ok [⟨some 0, some 499⟩, ⟨none, some 500⟩] := by
  refine fromHeader_grammar.2.1 _ _ (List.cons_ne_nil _ _) (by simp [HasBound])
    ⟨["0-499", "-500"], "0-499 , -500".toList, ?_, ?_, by decide +kernel⟩
  · exact .cons (by decide +kernel) (.cons (by decide +kernel) .nil)
  · exact ⟨["0-499 ".toList, " -500".toList], by decide +kernel,
      .cons ⟨⟨[], by simp⟩, ⟨[' '], by simp [IsBlank]⟩, by decide +kernel⟩
        (.cons ⟨⟨[' '], by simp [IsBlank]⟩, ⟨[], by simp⟩, by decide +kernel⟩ .nil)⟩

end ByteRange

end Cdn

/-
Byte ranges.

A range has a start, an end or both; one with an end alone is a suffix, the last so many
bytes.  `fromHeader` reads them out of a Range header.  Its two patterns have one way to
match each, so they are read here from left to right: blanks, then what comes after them.
-/
import Cdn.Lib.Scan
import Cdn.Numerals

namespace Cdn

structure ByteRange where
  start : Option Nat
  /-- The field `end`. -/
  stop : Option Nat
deriving DecidableEq, Repr

namespace ByteRange

/-- Where a range starts and ends in `total` bytes, as the three places resolve it that
have to. -/
def resolve (r : ByteRange) (total : Nat) : Int × Int :=
  match r.start, r.stop with
  | none, some n => (max ((total : Int) - n) 0, (total : Int) - 1)
  | some a, none => (a, (total : Int) - 1)
  | start, some b => (start.getD 0, b)
  | start, none => (start.getD 0, (total : Int) - 1)

/-- The text of a `Content-Range` header. -/
def rangeText (start stop : Int) (total : Nat) : String :=
  "bytes " ++ toString start ++ "-" ++ toString stop ++ "/" ++ toString total

/-- `content_range`. -/
def contentRange (r : ByteRange) (total : Nat) : String :=
  let (start, stop) := r.resolve total
  rangeText start stop total

/-! ### Writing -/

/-- A bound as a header has it; none is no text. -/
def boundStr : Option Nat → Except Exn String
  | some n => str n
  | none => .ok ""

/-- `to_header`. -/
def toHeader (r : ByteRange) : Except Exn String := do
  let startStr ← boundStr r.start
  let endStr ← boundStr r.stop
  return "bytes=" ++ startStr ++ "-" ++ endStr

/-! ### Parsing -/

/-- `re.IGNORECASE` on one ASCII letter; the long s is a case of `s`. -/
def sameLetter (letter c : Char) : Bool := c.toLower = letter || (letter = 's' && c = 'ſ')

/-- What `_RANGE_SPEC_RE` puts into its group.  `$` also matches before a final newline.
Where only blanks follow the equals sign the group may hold some of them; no range is
read from blanks, so that header is refused as well. -/
def rangeSet? (header : List Char) : Option (List Char) :=
  let header := header.dropWhile isSpace
  let unit := header.take 5
  if unit.length = 5 ∧ (List.zipWith sameLetter "bytes".toList unit).all id then
    match (header.drop 5).dropWhile isSpace with
    | '=' :: rest =>
        let set := rest.dropWhile isSpace
        let set := if set.getLast? = some '\n' then set.dropLast else set
        if set = [] ∨ '\n' ∈ set then none else some set
    | _ => none
  else none

/-- The two groups of `_RANGE_PART_RE`. -/
def rangePart? (part : List Char) : Option (List Char × List Char) :=
  let part := part.dropWhile isSpace
  match (part.dropWhile isDigit).dropWhile isSpace with
  | '-' :: rest =>
      let rest := rest.dropWhile isSpace
      if (rest.dropWhile isDigit).all isSpace then
        some (part.takeWhile isDigit, rest.takeWhile isDigit)
      else none
  | _ => none

/-- A bound, where there is one. -/
def bound? (digits : List Char) : Except Exn (Option Nat) :=
  if digits = [] then .ok none else some <$> int digits

def ofPart (part : List Char) : Except Exn ByteRange :=
  match rangePart? part with
  | none => .error .value
  | some ([], []) => .error .value
  | some (startStr, endStr) => do
      let start ← bound? startStr
      let stop ← bound? endStr
      return { start, stop }

/-- `from_header`. -/
def fromHeader (header : String) : Except Exn (List ByteRange) :=
  match rangeSet? header.toList with
  | none => .error .value
  | some set => (split ',' set).mapM ofPart

theorem bound?_error {digits : List Char} {x : Exn} (h : bound? digits = .error x) :
    x = .value := by
  unfold bound? at h
  split at h
  · cases h
  · cases hint : int digits with
    | error y =>
        rw [hint] at h
        cases h
        exact int_error hint
    | ok n =>
        rw [hint] at h
        cases h

theorem ofPart_error {part : List Char} {x : Exn} (h : ofPart part = .error x) : x = .value := by
  unfold ofPart at h
  split at h
  · cases h
    rfl
  · cases h
    rfl
  · rcases bind_error h with h | ⟨start, -, h⟩
    · exact bound?_error h
    · rcases bind_error h with h | ⟨stop, -, h⟩
      · exact bound?_error h
      · cases h

/-- **Whatever is wrong with a header, it is a `ValueError`.** -/
theorem fromHeader_error {header : String} {x : Exn} (h : fromHeader header = .error x) :
    x = .value := by
  unfold fromHeader at h
  split at h
  · cases h
    rfl
  · obtain ⟨part, -, h⟩ := mapM_error h
    exact ofPart_error h

/-- **A header that is accepted has a first range.** -/
theorem fromHeader_ne_nil {header : String} {ranges : List ByteRange}
    (h : fromHeader header = .ok ranges) : ranges ≠ [] := by
  unfold fromHeader at h
  split at h
  · cases h
  · rename_i set _
    rintro rfl
    exact List.splitOn_ne_nil ',' set (List.length_eq_zero_iff.mp (length_mapM h).symm)

/-! ### The first range -/

/-- `ByteRange.from_header(header)[0]`. -/
def first (header : String) : Except Exn ByteRange :=
  match h : fromHeader header with
  | .error x => .error x
  | .ok ranges => .ok (ranges.head (fromHeader_ne_nil h))

theorem first_eq_ok {header : String} {r : ByteRange} :
    first header = .ok r ↔ ∃ rest, fromHeader header = .ok (r :: rest) := by
  unfold first
  split
  · rename_i x h
    simp [h]
  · rename_i ranges h
    cases ranges with
    | nil => exact absurd rfl (fromHeader_ne_nil h)
    | cons r' rest => simp [h]

/-- Texts of ranges that start alike and end apart are apart. -/
theorem rangeText_inj {start stop stop' : Int} {total : Nat} :
    rangeText start stop total = rangeText start stop' total ↔ stop = stop' := by
  unfold rangeText
  rw [String.append_left_inj, String.append_left_inj, String.append_right_inj]
  exact Int.repr_inj

theorem toList_rangeText (start total : Nat) (stop : Int) :
    (rangeText start stop total).toList =
      (("bytes ".toList ++ (toString start).toList) ++ '-' :: (toString stop).toList) ++
        '/' :: (toString total).toList := by
  have hstart : toString (start : Int) = toString start := rfl
  simp only [rangeText, hstart, String.toList_append, List.append_assoc, List.cons_append]
  rfl

/-- **A text of a range that starts inside says where the range starts and ends, and in how
many bytes.** -/
theorem rangeText_eq_iff {start start' total total' : Nat} {stop stop' : Int} :
    rangeText start stop total = rangeText start' stop' total' ↔
      start = start' ∧ stop = stop' ∧ total = total' := by
  refine ⟨fun h => ?_, by rintro ⟨rfl, rfl, rfl⟩; rfl⟩
  have hdigits : ∀ {n : Nat} {c : Char}, c.isDigit = false → c ∉ (toString n).toList :=
    fun hc hmem => absurd (isDigit_of_mem_toString _ hmem) (by rw [hc]; decide)
  have hfirst : ∀ n : Nat, '-' ∉ "bytes ".toList ++ (toString n).toList := fun n => by
    rw [List.mem_append, not_or]
    exact ⟨by decide, hdigits (by decide)⟩
  have hlist := congrArg String.toList h
  rw [toList_rangeText, toList_rangeText] at hlist
  -- the total comes after the last slash, the start before the first dash
  obtain ⟨hlist, htotal⟩ := Scan.append_sep_inj (hdigits (by decide)) (hdigits (by decide)) hlist
  obtain ⟨hstart, hstop⟩ := Scan.sep_append_inj (hfirst start) (hfirst start') hlist
  exact ⟨Nat.repr_inj.mp (String.toList_inj.mp (List.append_cancel_left hstart)),
    Int.repr_inj.mp (String.toList_inj.mp hstop), Nat.repr_inj.mp (String.toList_inj.mp htotal)⟩

end ByteRange

end Cdn

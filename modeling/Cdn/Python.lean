/-
What the model takes from Python itself.

Text is `List Char` where a parser walks over it and `String` where it is only
compared, joined or looked up.  `Exn` lists the exceptions that can leave the code
that is modelled; a computation that may raise is an `Except Exn`.

Times are exact rationals.  The clock readings, lifetimes and ages of the source are
floats, and nothing below depends on how a float rounds; what does matter is kept:
`int` refuses more than 4300 digits, and `float` refuses an integer it would round
past the largest float.
-/
import Mathlib

namespace Cdn

/-- Seconds, on the wall clock or on the monotonic one. -/
abbrev Time := ℚ

/-- The exceptions that can leave the modelled code. -/
inductive Exn where
  /-- `CircuitOpenError`, with the time at which the circuit will try again. -/
  | circuitOpen (recoveryAt : Time)
  | assertion
  /-- `asyncio.CancelledError`. -/
  | cancelled
  /-- Whatever `origin_client.fetch` raised; the service never looks inside. -/
  | fetch
  /-- `ValueError`, from `int` on too many digits. -/
  | value
  /-- `OverflowError`, from `float` on too large an integer. -/
  | overflow
  /-- `TypeError`, from comparing a text that is not ASCII. -/
  | type
deriving DecidableEq, Repr

/-! ### What raises -/

section Raising

variable {α γ : Type}

/-- A sequence of two steps raises where one of them does. -/
theorem bind_error {c : Except Exn α} {f : α → Except Exn γ} {x : Exn}
    (h : c >>= f = .error x) : c = .error x ∨ ∃ a, c = .ok a ∧ f a = .error x := by
  cases c with
  | error y =>
      have hy : Except.error y = Except.error x := h
      exact Or.inl (by rw [Except.error.inj hy])
  | ok a => exact Or.inr ⟨a, rfl, h⟩

theorem ok_bind (a : α) (f : α → Except Exn γ) : (Except.ok a >>= f) = f a := rfl

theorem bind_ok {c : Except Exn α} {f : α → Except Exn γ} {b : γ} (h : c >>= f = .ok b) :
    ∃ a, c = .ok a ∧ f a = .ok b := by
  cases c with
  | error y => cases h
  | ok a => exact ⟨a, rfl, h⟩

theorem map_ok {c : Except Exn α} {f : α → γ} {b : γ} (h : c.map f = .ok b) :
    ∃ a, c = .ok a ∧ f a = b := by
  cases c with
  | error y => cases h
  | ok a => exact ⟨a, rfl, Except.ok.inj h⟩

theorem exists_map_ok {c : Except Exn α} {f : α → γ} :
    (∃ b, c.map f = .ok b) ↔ ∃ a, c = .ok a := by
  cases c with
  | error y => exact iff_of_false (by rintro ⟨b, ⟨⟩⟩) (by rintro ⟨a, ⟨⟩⟩)
  | ok a => exact iff_of_true ⟨_, rfl⟩ ⟨_, rfl⟩

/-- A loop over a list raises what it raises at one of the items. -/
theorem mapM_error {f : α → Except Exn γ} {l : List α} {x : Exn} (h : l.mapM f = .error x) :
    ∃ a ∈ l, f a = .error x := by
  induction l with
  | nil => cases h
  | cons a l ih =>
      rw [List.mapM_cons] at h
      rcases bind_error h with h | ⟨b, -, h⟩
      · exact ⟨a, List.mem_cons_self, h⟩
      · rcases bind_error h with h | ⟨bs, -, h⟩
        · obtain ⟨a', ha', h⟩ := ih h
          exact ⟨a', List.mem_cons_of_mem a ha', h⟩
        · cases h

theorem length_mapM {f : α → Except Exn γ} {l : List α} {bs : List γ} (h : l.mapM f = .ok bs) :
    bs.length = l.length := by
  induction l generalizing bs with
  | nil =>
      cases h
      rfl
  | cons a l ih =>
      rw [List.mapM_cons] at h
      obtain ⟨b, -, h⟩ := bind_ok h
      obtain ⟨bs', hbs, h⟩ := bind_ok h
      cases h
      rw [List.length_cons, List.length_cons, ih hbs]

end Raising

/-! ### Text -/

/-- `str.isspace` on one character: what `strip` takes off and `\s` matches. -/
def isSpace (c : Char) : Bool :=
  [0x9, 0xa, 0xb, 0xc, 0xd, 0x1c, 0x1d, 0x1e, 0x1f, 0x20, 0x85, 0xa0, 0x1680, 0x2000, 0x2001,
    0x2002, 0x2003, 0x2004, 0x2005, 0x2006, 0x2007, 0x2008, 0x2009, 0x200a, 0x2028, 0x2029,
    0x202f, 0x205f, 0x3000].contains c.toNat

/-- `str.strip()`. -/
def strip (s : List Char) : List Char := (s.dropWhile isSpace).rdropWhile isSpace

/-- `str.lower()`.  Header names and directive names are ASCII, where the two agree. -/
def lower (s : List Char) : List Char := s.map Char.toLower

/-- `str.split(sep)` on one character. -/
def split (sep : Char) (s : List Char) : List (List Char) := s.splitOn sep

/-- `str.partition(sep)` on one character, without the separator. -/
def partition (sep : Char) (s : List Char) : List Char × List Char :=
  (s.takeWhile (· ≠ sep), (s.dropWhile (· ≠ sep)).drop 1)

/-- Blanks in front of a text are in front of its beginning too. -/
theorem takeWhile_dropWhile_isSpace {p : Char → Bool}
    (hp : ∀ c, isSpace c = true → p c = true) (s : List Char) :
    (s.dropWhile isSpace).takeWhile p = (s.takeWhile p).dropWhile isSpace := by
  induction s with
  | nil => rfl
  | cons c s ih =>
      cases hc : isSpace c with
      | true => simp [hc, hp c hc, ih]
      | false =>
          cases hpc : p c with
          | true => simp [hc, hpc]
          | false => simp [hc, hpc]

/-- Blanks behind a text are behind its beginning, or not in it. -/
theorem takeWhile_rdropWhile_isSpace {p : Char → Bool}
    (hp : ∀ c, isSpace c = true → p c = true) (s : List Char) :
    ((s.rdropWhile isSpace).takeWhile p).rdropWhile isSpace =
      (s.takeWhile p).rdropWhile isSpace := by
  induction s using List.reverseRecOn with
  | nil => rfl
  | append_singleton s c ih =>
      cases hc : isSpace c with
      | true =>
          rw [List.rdropWhile_concat_pos _ _ _ hc, ih, List.takeWhile_append]
          split
          · rename_i hall
            rw [(List.takeWhile_prefix p).eq_of_length hall,
              List.takeWhile_cons_of_pos (hp c hc), List.takeWhile_nil,
              List.rdropWhile_concat_pos _ _ _ hc]
          · rfl
      | false => rw [List.rdropWhile_concat_neg _ _ _ (by simp [hc])]

/-- What is left of a text has no blank in front. -/
theorem dropWhile_strip (s : List Char) : (strip s).dropWhile isSpace = strip s := by
  obtain ⟨t, ht⟩ := List.rdropWhile_prefix isSpace (l := s.dropWhile isSpace)
  unfold strip
  cases hm : (s.dropWhile isSpace).rdropWhile isSpace with
  | nil => rfl
  | cons c m =>
      rw [hm] at ht
      have hhead := List.head?_dropWhile_not isSpace s
      rw [← ht] at hhead
      have hc : isSpace c = false := by simpa using hhead
      simp [hc]

/-- **A text begins, up to blanks, as it does without its outer blanks.** -/
theorem strip_takeWhile {p : Char → Bool} (hp : ∀ c, isSpace c = true → p c = true)
    (s : List Char) : strip ((strip s).takeWhile p) = strip (s.takeWhile p) := by
  calc strip ((strip s).takeWhile p)
      = (((strip s).dropWhile isSpace).takeWhile p).rdropWhile isSpace := by
        rw [takeWhile_dropWhile_isSpace hp, strip]
    _ = ((s.dropWhile isSpace).takeWhile p).rdropWhile isSpace := by
        rw [dropWhile_strip, strip, takeWhile_rdropWhile_isSpace hp]
    _ = strip (s.takeWhile p) := by rw [takeWhile_dropWhile_isSpace hp, strip]

/-- The code points of the zeros; each is followed by the other nine digits. -/
def digitZeros : List Nat :=
  [0x30, 0x660, 0x6f0, 0x7c0, 0x966, 0x9e6, 0xa66, 0xae6, 0xb66, 0xbe6, 0xc66, 0xce6, 0xd66,
    0xde6, 0xe50, 0xed0, 0xf20, 0x1040, 0x1090, 0x17e0, 0x1810, 0x1946, 0x19d0, 0x1a80, 0x1a90,
    0x1b50, 0x1bb0, 0x1c40, 0x1c50, 0xa620, 0xa8d0, 0xa900, 0xa9d0, 0xa9f0, 0xaa50, 0xabf0,
    0xff10, 0x104a0, 0x10d30, 0x11066, 0x110f0, 0x11136, 0x111d0, 0x112f0, 0x11450, 0x114d0,
    0x11650, 0x116c0, 0x11730, 0x118e0, 0x11950, 0x11c50, 0x11d50, 0x11da0, 0x16a60, 0x16ac0,
    0x16b50, 0x1d7ce, 0x1d7d8, 0x1d7e2, 0x1d7ec, 0x1d7f6, 0x1e140, 0x1e2f0, 0x1e950, 0x1fbf0]

/-- The value of a decimal digit, in any script: what `\d` matches and `int` reads. -/
def digit? (c : Char) : Option Nat :=
  (digitZeros.find? fun z => z ≤ c.toNat ∧ c.toNat < z + 10).map (c.toNat - ·)

def isDigit (c : Char) : Bool := (digit? c).isSome

/-! ### Bytes -/

abbrev Bytes := List UInt8

/-- `text.encode()`. -/
def utf8 (text : String) : Bytes := text.toUTF8.data.toList

theorem utf8_injective : Function.Injective utf8 := by
  intro s s' h
  rw [utf8, utf8, Array.toList_inj] at h
  exact String.toByteArray_inj.mp (ByteArray.ext h)

/-- A bound of a slice, as an index: a negative one counts from the end. -/
def sliceIndex (length : Nat) (i : Int) : Nat :=
  (min (if i < 0 then max (i + length) 0 else i) length).toNat

/-- `content[start:stop]`. -/
def slice {α : Type} (content : List α) (start stop : Int) : List α :=
  (content.take (sliceIndex content.length stop)).drop (sliceIndex content.length start)

/-! ### Numbers -/

/-- The number of digits past which `int` raises `ValueError`. -/
def maxStrDigits : Nat := 4300

/-- `int(s)` for a text of decimal digits. -/
def int (s : List Char) : Except Exn Nat :=
  if maxStrDigits < s.length then .error .value
  else .ok (s.foldl (fun n c => 10 * n + (digit? c).getD 0) 0)

/-- `int(x)` for a float: what stands in front of the point. -/
def truncate (x : Time) : Int := if 0 ≤ x then ⌊x⌋ else ⌈x⌉

/-- The least integer that rounds past the largest float. -/
def floatBound : Nat := 2 ^ 1024 - 2 ^ 970

/-- `float(n)` for a non-negative integer. -/
def float (n : Nat) : Except Exn Time :=
  if floatBound ≤ n then .error .overflow else .ok n

theorem int_error {s : List Char} {x : Exn} (h : int s = .error x) : x = .value := by
  unfold int at h
  split at h
  · cases h
    rfl
  · cases h

theorem float_error {n : Nat} {x : Exn} (h : float n = .error x) : x = .overflow := by
  unfold float at h
  split at h
  · cases h
    rfl
  · cases h

/-- What converts converts exactly. -/
theorem float_eq {n : Nat} {x : Time} (h : float n = .ok x) : x = n := by
  unfold float at h
  split at h
  · cases h
  · cases h
    rfl

theorem float_nonneg {n : Nat} {x : Time} (h : float n = .ok x) : 0 ≤ x := by
  rw [float_eq h]
  exact Nat.cast_nonneg n

theorem exists_float_iff {n : Nat} : (∃ x, float n = .ok x ∧ 0 ≤ x) ↔ n < floatBound := by
  constructor
  · rintro ⟨x, hx, -⟩
    by_contra hlarge
    rw [float, if_pos (Nat.le_of_not_lt hlarge)] at hx
    cases hx
  · intro hsmall
    exact ⟨n, by rw [float, if_neg (Nat.not_le.mpr hsmall)], Nat.cast_nonneg n⟩

end Cdn

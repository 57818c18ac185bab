/-
Percent-encoding of bytes, as in the query of a URL.

A byte is written as itself where the caller calls it safe and as `%` and two hex
digits otherwise.  `decode` reads such a text back.  What is safe is a parameter: a
path, a query value and a form field each have their own set, and the round trip
holds for all of them as long as the set is ASCII and leaves out `%` itself.
-/
import Mathlib.Tactic.IntervalCases
import Mathlib.Logic.Function.Basic

namespace Percent

/-! ### Hex digits -/

def hexDigit (n : Nat) : Char := Char.ofNat (if n < 10 then 48 + n else 55 + n)

/-- The value of a hex digit, in either case. -/
def hexValue? (c : Char) : Option Nat :=
  if 48 ≤ c.toNat ∧ c.toNat ≤ 57 then some (c.toNat - 48)
  else if 65 ≤ c.toNat ∧ c.toNat ≤ 70 then some (c.toNat - 55)
  else if 97 ≤ c.toNat ∧ c.toNat ≤ 102 then some (c.toNat - 87)
  else none

theorem hexValue?_hexDigit {n : Nat} (h : n < 16) : hexValue? (hexDigit n) = some n := by
  have hall : ∀ m : Fin 16, hexValue? (hexDigit m) = some (m : Nat) := by decide
  exact hall ⟨n, h⟩

/-! ### Encoding and decoding -/

def encodeByte (safe : UInt8 → Bool) (b : UInt8) : List Char :=
  if safe b then [Char.ofNat b.toNat]
  else ['%', hexDigit (b.toNat / 16), hexDigit (b.toNat % 16)]

def encode (safe : UInt8 → Bool) (bs : List UInt8) : List Char := bs.flatMap (encodeByte safe)

/-- A `%` that two hex digits do not follow stands for itself, like any other character. -/
def decode : List Char → List UInt8
  | '%' :: a :: b :: rest =>
      match hexValue? a, hexValue? b with
      | some x, some y => UInt8.ofNat (16 * x + y) :: decode rest
      | _, _ => String.utf8EncodeChar '%' ++ decode (a :: b :: rest)
  | c :: rest => String.utf8EncodeChar c ++ decode rest
  | [] => []

theorem decode_ne {c : Char} (h : c ≠ '%') (rest : List Char) :
    decode (c :: rest) = String.utf8EncodeChar c ++ decode rest := by
  rw [decode]
  rintro a b r hc
  exact absurd hc h

theorem decode_hex {x y : Nat} (hx : x < 16) (hy : y < 16) (rest : List Char) :
    decode ('%' :: hexDigit x :: hexDigit y :: rest) = UInt8.ofNat (16 * x + y) :: decode rest := by
  rw [decode, hexValue?_hexDigit hx, hexValue?_hexDigit hy]

/-- A set of bytes that may stand for themselves. -/
def Plain (safe : UInt8 → Bool) : Prop := ∀ b, safe b = true → b.toNat < 128 ∧ b.toNat ≠ 37

theorem decode_encodeByte {safe : UInt8 → Bool} (hsafe : Plain safe) (b : UInt8)
    (rest : List Char) : decode (encodeByte safe b ++ rest) = b :: decode rest := by
  unfold encodeByte
  by_cases hb : safe b = true
  · obtain ⟨hlt, hne⟩ := hsafe b hb
    have hascii : ∀ m : Fin 128, String.utf8EncodeChar (Char.ofNat m) = [UInt8.ofNat m] := by
      decide
    have hchar : Char.ofNat b.toNat ≠ '%' := by
      have hall : ∀ m : Fin 128, (m : Nat) ≠ 37 → Char.ofNat m ≠ '%' := by decide
      exact hall ⟨b.toNat, hlt⟩ hne
    rw [if_pos hb, List.singleton_append, decode_ne hchar, hascii ⟨b.toNat, hlt⟩]
    simp
  · have hlt : b.toNat < 256 := b.toNat_lt
    have hbyte : UInt8.ofNat (16 * (b.toNat / 16) + b.toNat % 16) = b := by
      rw [Nat.div_add_mod, UInt8.ofNat_toNat]
    rw [if_neg hb]
    show decode ('%' :: hexDigit (b.toNat / 16) :: hexDigit (b.toNat % 16) :: rest) = b :: decode rest
    rw [decode_hex (by omega) (by omega), hbyte]

/-- **What was encoded is decoded.** -/
theorem decode_encode {safe : UInt8 → Bool} (hsafe : Plain safe) (bs : List UInt8) :
    decode (encode safe bs) = bs := by
  induction bs with
  | nil => rfl
  | cons b rest ih =>
      show decode (encodeByte safe b ++ encode safe rest) = b :: rest
      rw [decode_encodeByte hsafe, ih]

theorem encode_injective {safe : UInt8 → Bool} (hsafe : Plain safe) :
    Function.Injective (encode safe) :=
  Function.LeftInverse.injective (decode_encode hsafe)

/-- What an encoded text is written with. -/
theorem mem_encode {safe : UInt8 → Bool} (hsafe : Plain safe) {bs : List UInt8} {c : Char}
    (h : c ∈ encode safe bs) :
    c = '%' ∨ (∃ n < 16, c = hexDigit n) ∨ ∃ b, safe b = true ∧ c.toNat = b.toNat := by
  obtain ⟨b, -, hc⟩ := List.mem_flatMap.mp h
  have hlt : b.toNat < 256 := b.toNat_lt
  unfold encodeByte at hc
  split at hc
  · rename_i hb
    have hall : ∀ m : Fin 128, (Char.ofNat m).toNat = m := by decide
    rw [List.mem_singleton] at hc
    exact Or.inr (Or.inr ⟨b, hb, hc ▸ hall ⟨b.toNat, (hsafe b hb).1⟩⟩)
  · simp only [List.mem_cons, List.not_mem_nil, or_false] at hc
    rcases hc with hc | hc | hc
    · exact Or.inl hc
    · exact Or.inr (Or.inl ⟨_, by omega, hc⟩)
    · exact Or.inr (Or.inl ⟨_, Nat.mod_lt _ (by omega), hc⟩)

end Percent

/-
Base64 with the alphabet for URLs.

Three bytes are written as four characters of six bits each, and at the end of a text one byte
as two characters and two bytes as three, with padding up to four.  How many bytes there are at
the end shows without the padding too, so it may be taken off.
-/
import Mathlib.Data.List.DropRight

namespace Base64

/-! ### Characters -/

def alphabet : List Char :=
  "ABCDEFGHIJKLMNOPQRSTUVWXYZabcdefghijklmnopqrstuvwxyz0123456789-_".toList

/-- The character for six bits. -/
def digit (n : Nat) : Char := alphabet.getD n '='

/-- The six bits that a character stands for. -/
def value (c : Char) : Nat := alphabet.idxOf c

theorem digit_spec {n : Nat} (h : n < 64) :
    value (digit n) = n ∧ digit n ≠ '=' ∧ (digit n).toNat < 128 := by
  have hall : ∀ m < 64, value (digit m) = m ∧ digit m ≠ '=' ∧ (digit m).toNat < 128 := by
    decide +kernel
  exact hall n h

/-! ### Encoding and decoding -/

/-- The four characters of three bytes. -/
def group (a b c : Nat) : List Char :=
  [digit (a / 4), digit (a % 4 * 16 + b / 16), digit (b % 16 * 4 + c / 64), digit (c % 64)]

def encode : List UInt8 → List Char
  | a :: b :: c :: rest => group a.toNat b.toNat c.toNat ++ encode rest
  | [a, b] => (group a.toNat b.toNat 0).take 3 ++ ['=']
  | [a] => (group a.toNat 0 0).take 2 ++ ['=', '=']
  | [] => []

/-- Padding off. -/
def unpadded (s : List Char) : List Char := s.rdropWhile (· = '=')

/-- The bytes of a text without padding. -/
def decode : List Char → List UInt8
  | x :: y :: z :: w :: rest =>
      UInt8.ofNat (value x * 4 + value y / 16) ::
        UInt8.ofNat (value y % 16 * 16 + value z / 4) ::
        UInt8.ofNat (value z % 4 * 64 + value w) :: decode rest
  | [x, y, z] =>
      [UInt8.ofNat (value x * 4 + value y / 16), UInt8.ofNat (value y % 16 * 16 + value z / 4)]
  | [x, y] => [UInt8.ofNat (value x * 4 + value y / 16)]
  | _ => []

example : encode [77, 97, 110, 77, 97] = "TWFuTWE=".toList := by decide

/-- The bits of a group, from its characters. -/
theorem value_group {a b c : Nat} (ha : a < 256) (hb : b < 256) (hc : c < 256) :
    value (digit (a / 4)) * 4 + value (digit (a % 4 * 16 + b / 16)) / 16 = a ∧
      value (digit (a % 4 * 16 + b / 16)) % 16 * 16 +
        value (digit (b % 16 * 4 + c / 64)) / 4 = b ∧
      value (digit (b % 16 * 4 + c / 64)) % 4 * 64 + value (digit (c % 64)) = c := by
  have h₁ : value (digit (a / 4)) = a / 4 := (digit_spec (by omega)).1
  have h₂ : value (digit (a % 4 * 16 + b / 16)) = a % 4 * 16 + b / 16 := (digit_spec (by omega)).1
  have h₃ : value (digit (b % 16 * 4 + c / 64)) = b % 16 * 4 + c / 64 := (digit_spec (by omega)).1
  have h₄ : value (digit (c % 64)) = c % 64 := (digit_spec (by omega)).1
  rw [h₁, h₂, h₃, h₄]
  omega

/-- The characters of a group are of the alphabet. -/
theorem mem_group {a b c : Nat} (ha : a < 256) (hb : b < 256) (hc : c < 256) {x : Char}
    (hx : x ∈ group a b c) : x ≠ '=' ∧ x.toNat < 128 := by
  simp only [group, List.mem_cons, List.not_mem_nil, or_false] at hx
  rcases hx with rfl | rfl | rfl | rfl
  all_goals exact (digit_spec (by omega)).2

theorem unpadded_append {front : List Char} (hfront : ∀ c ∈ front, c ≠ '=') (rest : List Char) :
    unpadded (front ++ rest) = front ++ unpadded rest := by
  induction rest using List.reverseRecOn with
  | nil =>
      have hlast : ∀ h : front ≠ [], ¬ decide (front.getLast h = '=') = true := by
        intro h
        simpa using hfront _ (List.getLast_mem h)
      rw [List.append_nil, unpadded, List.rdropWhile_eq_self_iff.mpr hlast, unpadded,
        List.rdropWhile_nil, List.append_nil]
  | append_singleton rest c ih =>
      rw [← List.append_assoc]
      by_cases hc : c = '='
      · subst hc
        rw [unpadded, List.rdropWhile_concat_pos _ _ _ (by decide), unpadded,
          List.rdropWhile_concat_pos _ _ _ (by decide)]
        exact ih
      · rw [unpadded, List.rdropWhile_concat_neg _ _ _ (by simpa using hc), unpadded,
          List.rdropWhile_concat_neg _ _ _ (by simpa using hc), List.append_assoc]

/-- **What was encoded is decoded**, also without its padding. -/
theorem decode_unpadded_encode (bs : List UInt8) : decode (unpadded (encode bs)) = bs := by
  fun_induction encode bs with
  | case1 a b c rest ih =>
      obtain ⟨ha, hb, hc⟩ := value_group a.toNat_lt b.toNat_lt c.toNat_lt
      rw [unpadded_append fun x hx => (mem_group a.toNat_lt b.toNat_lt c.toNat_lt hx).1]
      show UInt8.ofNat _ :: UInt8.ofNat _ :: UInt8.ofNat _ :: decode (unpadded (encode rest)) = _
      rw [ha, hb, hc, ih, UInt8.ofNat_toNat, UInt8.ofNat_toNat, UInt8.ofNat_toNat]
  | case2 a b =>
      obtain ⟨ha, hb, -⟩ := value_group a.toNat_lt b.toNat_lt (by decide : 0 < 256)
      rw [unpadded_append fun x hx =>
        (mem_group a.toNat_lt b.toNat_lt (by decide) (List.mem_of_mem_take hx)).1]
      show [UInt8.ofNat _, UInt8.ofNat _] = _
      rw [ha, hb, UInt8.ofNat_toNat, UInt8.ofNat_toNat]
  | case3 a =>
      obtain ⟨ha, -, -⟩ := value_group a.toNat_lt (by decide : 0 < 256) (by decide : 0 < 256)
      rw [unpadded_append fun x hx =>
        (mem_group a.toNat_lt (by decide) (by decide) (List.mem_of_mem_take hx)).1]
      show [UInt8.ofNat _] = _
      rw [ha, UInt8.ofNat_toNat]
  | case4 => rfl

theorem unpadded_encode_injective : Function.Injective fun bs => unpadded (encode bs) :=
  Function.LeftInverse.injective decode_unpadded_encode

/-- Every character is an ASCII one. -/
theorem toNat_lt_of_mem_encode {bs : List UInt8} : ∀ x ∈ encode bs, x.toNat < 128 := by
  have hpad : '='.toNat < 128 := by decide
  fun_induction encode bs with
  | case1 a b c rest ih =>
      intro x hx
      rcases List.mem_append.mp hx with hx | hx
      · exact (mem_group a.toNat_lt b.toNat_lt c.toNat_lt hx).2
      · exact ih x hx
  | case2 a b =>
      intro x hx
      rcases List.mem_append.mp hx with hx | hx
      · exact (mem_group a.toNat_lt b.toNat_lt (by decide) (List.mem_of_mem_take hx)).2
      · rwa [List.mem_singleton.mp hx]
  | case3 a =>
      intro x hx
      rcases List.mem_append.mp hx with hx | hx
      · exact (mem_group a.toNat_lt (by decide) (by decide) (List.mem_of_mem_take hx)).2
      · rcases List.mem_pair.mp hx with rfl | rfl <;> exact hpad
  | case4 =>
      intro x hx
      cases hx

end Base64

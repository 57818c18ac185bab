/-
How Python writes a number and reads it back.

Both ways stop at the same number of digits, with a `ValueError`, so what can be written can
be read.  `int` reads digits of any script; the texts of a header are of one, where the
digits are the ten of ASCII.
-/
import Cdn.Python

namespace Cdn

/-- `str(n)` for a non-negative integer. -/
def str (n : Nat) : Except Exn String :=
  if maxStrDigits < (toString n).length then .error .value else .ok (toString n)

theorem str_eq_ok {n : Nat} {s : String} :
    str n = .ok s ↔ (toString n).length ≤ maxStrDigits ∧ s = toString n := by
  unfold str
  split
  · rename_i hlong
    refine iff_of_false (by rintro ⟨⟩) fun h => ?_
    exact absurd hlong (Nat.not_lt.mpr h.1)
  · rename_i hshort
    rw [Except.ok.injEq]
    exact ⟨fun h => ⟨Nat.not_lt.mp hshort, h.symm⟩, fun h => h.2.symm⟩

theorem exists_str_iff {n : Nat} : (∃ s, str n = .ok s) ↔ n < 10 ^ maxStrDigits := by
  have hlength : (toString n).length = (Nat.toDigits 10 n).length := by
    rw [← String.length_toList, Nat.toString_eq_repr, Nat.toList_repr]
  simp only [str_eq_ok, exists_and_left, exists_eq, and_true]
  rw [hlength, Nat.length_toDigits_le_iff (by decide) (by decide)]

/-! ### Digits -/

/-- Every other zero is past the ones that Latin text can hold. -/
theorem digit?_eq {c : Char} (h : c.toNat < 0x660) :
    digit? c = if c.isDigit then some (c.toNat - '0'.toNat) else none := by
  have hother : (digitZeros.tail.find? fun z => z ≤ c.toNat ∧ c.toNat < z + 10) = none := by
    rw [List.find?_eq_none]
    intro z hz
    have hzero : 0x660 ≤ z := (by decide : ∀ z ∈ digitZeros.tail, 0x660 ≤ z) z hz
    have hless : ¬ (z ≤ c.toNat ∧ c.toNat < z + 10) := by omega
    simpa using hless
  have hzeros : digitZeros = '0'.toNat :: digitZeros.tail := rfl
  have hten : '0'.toNat + 10 = '9'.toNat + 1 := rfl
  rw [digit?, hzeros, List.find?_cons, hother]
  by_cases hc : c.isDigit = true
  · obtain ⟨hlow, hhigh⟩ := Char.isDigit_iff_toNat.mp hc
    have hin : decide ('0'.toNat ≤ c.toNat ∧ c.toNat < '0'.toNat + 10) = true := by
      rw [decide_eq_true_eq]
      omega
    rw [if_pos hc, hin]
    rfl
  · have hout : decide ('0'.toNat ≤ c.toNat ∧ c.toNat < '0'.toNat + 10) = false := by
      rw [decide_eq_false_iff_not]
      intro hbetween
      exact hc (Char.isDigit_iff_toNat.mpr ⟨hbetween.1, by omega⟩)
    rw [if_neg hc, hout]
    rfl

theorem isDigit_eq {c : Char} (h : c.toNat < 0x660) : isDigit c = c.isDigit := by
  rw [isDigit, digit?_eq h]
  split
  · rename_i hc
    exact hc.symm
  · rename_i hc
    exact (Bool.eq_false_iff.mpr hc).symm

theorem toNat_lt_of_isDigit {c : Char} (h : c.isDigit = true) : c.toNat < 0x660 := by
  obtain ⟨-, hhigh⟩ := Char.isDigit_iff_toNat.mp h
  exact Nat.lt_of_le_of_lt hhigh (by decide)

theorem isDigit_of_isDigit {c : Char} (h : c.isDigit = true) : isDigit c = true := by
  rw [isDigit_eq (toNat_lt_of_isDigit h)]
  exact h

/-- What holds of each of the first so many characters holds of each below that number. -/
theorem forall_lt_of_ofNat {p : Char → Prop} {bound : Nat}
    (h : ∀ n < bound, p (Char.ofNat n)) {c : Char} (hc : c.toNat < bound) : p c := by
  have hp := h c.toNat hc
  rwa [Char.ofNat_toNat] at hp

/-- No digit is a blank. -/
theorem isSpace_of_isDigit {c : Char} (h : c.isDigit = true) : isSpace c = false := by
  have hascii : c.toNat < 0x80 :=
    Nat.lt_of_le_of_lt (Char.isDigit_iff_toNat.mp h).2 (by decide)
  have hall : ∀ n < 0x80, (Char.ofNat n).isDigit = true → isSpace (Char.ofNat n) = false := by
    decide +kernel
  exact forall_lt_of_ofNat (p := fun c => c.isDigit = true → isSpace c = false) hall hascii h

/-! ### Reading -/

/-- The loop of `int` makes the number that a text of digits is the numeral of. -/
theorem foldl_digits {s : List Char} (h : ∀ c ∈ s, c.isDigit = true) (n : Nat) :
    s.foldl (fun n c => 10 * n + (digit? c).getD 0) n = Nat.ofDigitChars 10 s n := by
  induction s generalizing n with
  | nil => rfl
  | cons c s ih =>
      have hc := h c List.mem_cons_self
      rw [List.foldl_cons, Nat.ofDigitChars_cons, digit?_eq (toNat_lt_of_isDigit hc), if_pos hc,
        Option.getD_some]
      exact ih (fun b hb => h b (List.mem_cons_of_mem c hb)) _

theorem int_eq {s : List Char} (hdigits : ∀ c ∈ s, c.isDigit = true)
    (hlength : s.length ≤ maxStrDigits) : int s = .ok (Nat.ofDigitChars 10 s 0) := by
  rw [int, if_neg (Nat.not_lt.mpr hlength), foldl_digits hdigits]

theorem isDigit_of_mem_toString {n : Nat} : ∀ c ∈ (toString n).toList, c.isDigit = true := by
  intro c hc
  rw [Nat.toString_eq_repr, Nat.toList_repr] at hc
  exact Nat.isDigit_of_mem_toDigits (by decide) (by decide) hc

theorem toList_toString_ne_nil (n : Nat) : (toString n).toList ≠ [] := by
  rw [Nat.toString_eq_repr, Nat.toList_repr]
  exact Nat.toDigits_ne_nil

/-- **What is written is read back.** -/
theorem int_of_str {n : Nat} {s : String} (h : str n = .ok s) : int s.toList = .ok n := by
  obtain ⟨hlength, rfl⟩ := str_eq_ok.mp h
  rw [int_eq isDigit_of_mem_toString (by rwa [String.length_toList]), Nat.toString_eq_repr,
    Nat.toList_repr, Nat.ofDigitChars_ten_toDigits]

/-! ### Signs -/

/-- `str(i)`; the sign is none of the digits. -/
def strInt (i : Int) : Except Exn String :=
  (str i.natAbs).map fun s => if i < 0 then "-" ++ s else s

theorem exists_strInt_iff {i : Int} :
    (∃ s, strInt i = .ok s) ↔ i.natAbs < 10 ^ maxStrDigits := by
  rw [← exists_str_iff, strInt, exists_map_ok]

theorem strInt_eq_ok {i : Int} {s : String} (h : strInt i = .ok s) :
    ∃ digits, str i.natAbs = .ok digits ∧ s = if i < 0 then "-" ++ digits else digits := by
  obtain ⟨digits, hdigits, rfl⟩ := map_ok h
  exact ⟨digits, hdigits, rfl⟩

/-- A number is written with digits and a sign. -/
theorem mem_of_strInt {i : Int} {s : String} (h : strInt i = .ok s) :
    ∀ c ∈ s.toList, c = '-' ∨ c.isDigit = true := by
  obtain ⟨digits, hdigits, rfl⟩ := strInt_eq_ok h
  obtain ⟨-, rfl⟩ := str_eq_ok.mp hdigits
  intro c hc
  split at hc
  · rw [String.toList_append, List.mem_append] at hc
    rcases hc with hc | hc
    · exact Or.inl (List.mem_singleton.mp hc)
    · exact Or.inr (isDigit_of_mem_toString c hc)
  · exact Or.inr (isDigit_of_mem_toString c hc)

/-- **No two numbers are written alike.** -/
theorem strInt_inj {i j : Int} {s : String} (hi : strInt i = .ok s) (hj : strInt j = .ok s) :
    i = j := by
  have hsign : ∀ {n : Nat} {digits t : String}, str n = .ok digits → digits ≠ "-" ++ t := by
    intro n digits t hstr heq
    obtain ⟨-, rfl⟩ := str_eq_ok.mp hstr
    have hminus : '-' ∈ (toString n).toList := by
      rw [heq, String.toList_append]
      exact List.mem_append_left _ (List.mem_singleton_self _)
    exact absurd (isDigit_of_mem_toString '-' hminus) (by decide)
  have hread : ∀ {m n : Nat} {digits : String}, str m = .ok digits → str n = .ok digits → m = n := by
    intro m n digits hm hn
    exact Except.ok.inj ((int_of_str hm).symm.trans (int_of_str hn))
  obtain ⟨di, hdi, rfl⟩ := strInt_eq_ok hi
  obtain ⟨dj, hdj, hs⟩ := strInt_eq_ok hj
  by_cases hineg : i < 0
  · by_cases hjneg : j < 0
    · rw [if_pos hineg, if_pos hjneg, String.append_right_inj] at hs
      have habs := hread hdi (hs ▸ hdj)
      omega
    · rw [if_pos hineg, if_neg hjneg] at hs
      exact absurd hs.symm (hsign hdj)
  · by_cases hjneg : j < 0
    · rw [if_neg hineg, if_pos hjneg] at hs
      exact absurd hs (hsign hdi)
    · rw [if_neg hineg, if_neg hjneg] at hs
      have habs := hread hdi (hs ▸ hdj)
      omega

end Cdn

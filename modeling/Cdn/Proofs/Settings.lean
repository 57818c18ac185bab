/-
What the parser takes from one token.

A token of a Cache-Control header makes at most one setting: it raises a flag, or it gives a
number to a lifetime.  The parser makes the settings of its tokens one after another, and
what they leave is what each flag and each lifetime was set to last.  Only a number of too
many digits stops it.
-/
import Cdn.Infrastructure.CacheControl
import Cdn.Lib.Registers
import Cdn.Lib.Scan

namespace Cdn

/-- A directive that is there or not. -/
inductive Flag where
  | noCache
  | noStore
  | isPrivate
  | mustRevalidate
deriving DecidableEq

/-- A directive that takes a number. -/
inductive Lifetime where
  | maxAge
  | sMaxage
  | staleWhileRevalidate
  | staleIfError
deriving DecidableEq

def Flag.ofName : String → Option Flag
  | "no-cache" => some noCache
  | "no-store" => some noStore
  | "private" => some isPrivate
  | "must-revalidate" => some mustRevalidate
  | _ => none

def Lifetime.ofName : String → Option Lifetime
  | "max-age" => some maxAge
  | "s-maxage" => some sMaxage
  | "stale-while-revalidate" => some staleWhileRevalidate
  | "stale-if-error" => some staleIfError
  | _ => none

inductive Setting where
  | flag (f : Flag)
  | lifetime (l : Lifetime) (n : Nat)
deriving DecidableEq

/-- What is set. -/
def Setting.register : Setting → Flag ⊕ Lifetime
  | flag f => .inl f
  | lifetime l _ => .inr l

namespace CacheDirectives

def set (d : CacheDirectives) : Setting → CacheDirectives
  | .flag .noCache => { d with noCache := true }
  | .flag .noStore => { d with noStore := true }
  | .flag .isPrivate => { d with isPrivate := true }
  | .flag .mustRevalidate => { d with mustRevalidate := true }
  | .lifetime .maxAge n => { d with maxAge := some n }
  | .lifetime .sMaxage n => { d with sMaxage := some n }
  | .lifetime .staleWhileRevalidate n => { d with staleWhileRevalidate := some n }
  | .lifetime .staleIfError n => { d with staleIfError := some n }

def raised (d : CacheDirectives) : Flag → Bool
  | .noCache => d.noCache
  | .noStore => d.noStore
  | .isPrivate => d.isPrivate
  | .mustRevalidate => d.mustRevalidate

def numberOf (d : CacheDirectives) : Lifetime → Option Nat
  | .maxAge => d.maxAge
  | .sMaxage => d.sMaxage
  | .staleWhileRevalidate => d.staleWhileRevalidate
  | .staleIfError => d.staleIfError

/-- The setting that stands in a register. -/
def view (d : CacheDirectives) : Flag ⊕ Lifetime → Option Setting
  | .inl f => if d.raised f then some (.flag f) else none
  | .inr l => (d.numberOf l).map (.lifetime l)

theorem view_set (d : CacheDirectives) (s : Setting) (k : Flag ⊕ Lifetime) :
    (d.set s).view k = if s.register = k then some s else d.view k := by
  cases s with
  | flag f => cases f <;> rcases k with f' | l <;> first | (cases f' <;> rfl) | (cases l <;> rfl)
  | lifetime l n => cases l <;> rcases k with f | l' <;> first | (cases f <;> rfl) | (cases l' <;> rfl)

/-- Directives are what stands in their registers. -/
theorem eq_of_view {d d' : CacheDirectives} (h : ∀ k, d.view k = d'.view k) : d = d' := by
  have hraised : ∀ f, d.raised f = d'.raised f := by
    intro f
    have hf := h (.inl f)
    rw [view, view] at hf
    cases hd : d.raised f <;> cases hd' : d'.raised f <;> rw [hd, hd'] at hf <;>
      first | rfl | cases hf
  have hnumber : ∀ l, d.numberOf l = d'.numberOf l := fun l =>
    Option.map_injective (fun _ _ hn => (Setting.lifetime.inj hn).2) (h (.inr l))
  obtain ⟨_, _, _, _, _, _, _, _⟩ := d
  obtain ⟨_, _, _, _, _, _, _, _⟩ := d'
  rw [mk.injEq]
  exact ⟨hnumber .maxAge, hnumber .sMaxage, hraised .noCache, hraised .noStore, hraised .isPrivate,
    hraised .mustRevalidate, hnumber .staleWhileRevalidate, hnumber .staleIfError⟩

/-- What stands in a register is what was set there last. -/
theorem view_foldl_set (l : List Setting) (k : Flag ⊕ Lifetime) :
    (l.foldl set {}).view k = Registers.last Setting.register k l := by
  have hnothing : ∀ k, ({} : CacheDirectives).view k = none := by
    rintro (f | l)
    · cases f <;> rfl
    · cases l <;> rfl
  rw [Registers.view_foldl Setting.register view_set, hnothing, Option.or_none]

/-- **Two lists of settings leave the same directives exactly if they set everything to the
same last.** -/
theorem foldl_set_eq_iff (l l' : List Setting) :
    l.foldl set {} = l'.foldl set {} ↔
      ∀ k, Registers.last Setting.register k l = Registers.last Setting.register k l' := by
  constructor
  · intro h k
    rw [← view_foldl_set, ← view_foldl_set, h]
  · intro h
    exact eq_of_view fun k => by rw [view_foldl_set, view_foldl_set, h]

end CacheDirectives

/-! ### One token -/

/-- The digits that `_parse_int` matches. -/
def numeral? (raw : List Char) : Option (List Char) :=
  let value := strip raw
  let body := if value.head? = some '"' then value.tail else value
  let digits := body.takeWhile isDigit
  let rest := body.dropWhile isDigit
  if digits ≠ [] ∧ (rest = [] ∨ rest = ['"']) then some digits else none

/-- The number that digits are the numeral of. -/
def numeralValue (digits : List Char) : Nat :=
  digits.foldl (fun n c => 10 * n + (digit? c).getD 0) 0

theorem parseInt_eq (raw : List Char) :
    parseInt raw = match numeral? raw with
      | some digits => (int digits).map some
      | none => .ok none := by
  unfold parseInt numeral?
  dsimp only
  generalize (if (strip raw).head? = some '"' then (strip raw).tail else strip raw) = body
  split
  · rfl
  · rfl

/-- The setting that a token makes. -/
def reads (token : List Char) : Option Setting :=
  match Flag.ofName (directiveName token), Lifetime.ofName (directiveName token) with
  | some f, _ => some (.flag f)
  | none, some l => ((numeral? (directiveValue token)).map numeralValue).map (.lifetime l)
  | none, none => none

/-- A lifetime with a number of too many digits. -/
def TooLong (token : List Char) : Prop :=
  Lifetime.ofName (directiveName token) ≠ none ∧
    ∃ digits, numeral? (directiveValue token) = some digits ∧ maxStrDigits < digits.length

theorem intDirective_eq {old : Option Nat} {value : List Char}
    (h : ∀ digits, numeral? value = some digits → digits.length ≤ maxStrDigits) :
    intDirective old value = .ok (((numeral? value).map numeralValue).or old) := by
  rw [intDirective, parseInt_eq]
  cases hnumeral : numeral? value with
  | none => rfl
  | some digits =>
      dsimp only
      rw [int, if_neg (Nat.not_lt.mpr (h digits hnumeral))]
      rfl

theorem intDirective_tooLong {old : Option Nat} {value digits : List Char}
    (h : numeral? value = some digits) (hlong : maxStrDigits < digits.length) :
    intDirective old value = .error .value := by
  rw [intDirective, parseInt_eq, h]
  dsimp only
  rw [int, if_pos hlong]
  rfl

/-- A round of the loop makes the setting of its token. -/
theorem directive_of_short {d : CacheDirectives} {token : List Char} (h : ¬ TooLong token) :
    directive d token = .ok ((reads token).elim d d.set) := by
  have hshort : Lifetime.ofName (directiveName token) ≠ none →
      ∀ digits, numeral? (directiveValue token) = some digits → digits.length ≤ maxStrDigits := by
    intro hname digits hdigits
    by_contra hlong
    exact h ⟨hname, digits, hdigits, Nat.lt_of_not_le hlong⟩
  by_cases hempty : strip token = []
  · rw [directive, if_pos hempty, reads, directiveName_of_blank hempty]
    rfl
  · rw [directive_of_name hempty, reads]
    split
    case h_1 hn | h_2 hn | h_7 hn | h_8 hn =>
      rw [hn] at hshort ⊢
      rw [intDirective_eq (hshort (by decide))]
      cases numeral? (directiveValue token) with
      | none => rfl
      | some digits => rfl
    case h_3 hn | h_4 hn | h_5 hn | h_6 hn =>
      rw [hn]
      rfl
    case h_9 =>
      have hflag : Flag.ofName (directiveName token) = none := by
        unfold Flag.ofName
        split <;> simp_all
      have hlifetime : Lifetime.ofName (directiveName token) = none := by
        unfold Lifetime.ofName
        split <;> simp_all
      rw [hflag, hlifetime]
      rfl

theorem directive_of_tooLong {d : CacheDirectives} {token : List Char} (h : TooLong token) :
    directive d token = .error .value := by
  obtain ⟨hname, digits, hdigits, hlong⟩ := h
  by_cases hempty : strip token = []
  · rw [directiveName_of_blank hempty] at hname
    exact absurd rfl hname
  · rw [directive_of_name hempty]
    split
    case h_1 hn | h_2 hn | h_7 hn | h_8 hn =>
      rw [intDirective_tooLong hdigits hlong]
      rfl
    case h_3 hn | h_4 hn | h_5 hn | h_6 hn =>
      rw [hn] at hname
      exact absurd rfl hname
    case h_9 =>
      refine absurd ?_ hname
      unfold Lifetime.ofName
      split <;> simp_all

/-! ### All tokens -/

/-- **The parser makes the settings of its tokens one after another**, unless it meets a number
of too many digits. -/
theorem parseCacheControl_eq_ok {header : String} {d : CacheDirectives} :
    parseCacheControl header = .ok d ↔ (∀ token ∈ split ',' header.toList, ¬ TooLong token) ∧
      d = ((split ',' header.toList).filterMap reads).foldl CacheDirectives.set {} := by
  have hloop : ∀ (tokens : List (List Char)) (d₀ : CacheDirectives),
      tokens.foldlM directive d₀ = .ok d ↔ (∀ token ∈ tokens, ¬ TooLong token) ∧
        d = (tokens.filterMap reads).foldl CacheDirectives.set d₀ := by
    intro tokens
    induction tokens with
    | nil =>
        intro d₀
        rw [List.foldlM_nil]
        constructor
        · rintro ⟨⟩
          exact ⟨fun token htoken => absurd htoken List.not_mem_nil, rfl⟩
        · rintro ⟨-, rfl⟩
          rfl
    | cons token tokens ih =>
        intro d₀
        rw [List.foldlM_cons, List.forall_mem_cons]
        by_cases hlong : TooLong token
        · rw [directive_of_tooLong hlong]
          exact iff_of_false (by rintro ⟨⟩) fun h => h.1.1 hlong
        · rw [directive_of_short hlong]
          show tokens.foldlM directive ((reads token).elim d₀ d₀.set) = .ok d ↔ _
          rw [ih, and_iff_right hlong]
          cases hreads : reads token with
          | none => rw [List.filterMap_cons_none hreads]; rfl
          | some s => rw [List.filterMap_cons_some hreads]; rfl
  exact hloop _ {}

/-! ### Blanks around a token -/

theorem strip_append {before after : List Char} (hbefore : ∀ c ∈ before, isSpace c = true)
    (hafter : ∀ c ∈ after, isSpace c = true) (s : List Char) :
    strip (before ++ s ++ after) = strip s := by
  have hbehind : ∀ l : List Char, (l ++ after).rdropWhile isSpace = l.rdropWhile isSpace := by
    intro l
    rw [List.rdropWhile, List.rdropWhile, List.reverse_append,
      List.dropWhile_append_of_pos fun c hc => hafter c (List.mem_reverse.mp hc)]
  rw [strip, strip, List.append_assoc, List.dropWhile_append_of_pos hbefore, List.dropWhile_append]
  split
  · rename_i hempty
    rw [List.isEmpty_iff] at hempty
    rw [hempty, List.dropWhile_eq_nil_iff.mpr hafter]
  · exact hbehind _

theorem strip_strip (s : List Char) : strip (strip s) = strip s := by
  have htwice : (strip s).rdropWhile isSpace = strip s := List.rdropWhile_idempotent _ _
  rw [strip, dropWhile_strip, htwice]

/-- A text with no blank at either end. -/
theorem strip_eq_self {s : List Char}
    (h : ∀ c, s.head? = some c ∨ s.getLast? = some c → isSpace c = false) : strip s = s := by
  have hfront : s.dropWhile isSpace = s :=
    Scan.Stops.dropWhile fun c hc => h c (Or.inl hc)
  have hback : s.reverse.dropWhile isSpace = s.reverse :=
    Scan.Stops.dropWhile fun c hc => h c (Or.inr (by rw [← List.head?_reverse]; exact hc))
  rw [strip, hfront, List.rdropWhile, hback, List.reverse_reverse]

/-- The name of a directive is what stands in front of the equals sign. -/
theorem directiveName_append {front rest : List Char} (hfront : '=' ∉ front)
    (hrest : ∀ c ∈ rest.head?, c = '=') :
    directiveName (front ++ rest) = String.ofList (lower (strip front)) := by
  have hequals : ∀ c ∈ front, decide (c ≠ '=') = true := by
    intro c hc
    rw [decide_eq_true_eq]
    rintro rfl
    exact hfront hc
  have hstop : rest.takeWhile (fun c => decide (c ≠ '=')) = [] :=
    Scan.Stops.takeWhile fun c hc => decide_eq_false (not_not.mpr (hrest c hc))
  rw [directiveName, partition, List.takeWhile_append_of_pos hequals, hstop, List.append_nil]

theorem directiveName_congr {token token' : List Char} (h : strip token = strip token') :
    directiveName token = directiveName token' := by
  rw [← key_eq_directiveName, ← key_eq_directiveName, h]

/-- What is read of a token depends on its name and its value only. -/
theorem reads_of_eq {token token' : List Char} (hname : directiveName token = directiveName token')
    (hvalue : directiveValue token = directiveValue token') :
    reads token = reads token' ∧ (TooLong token ↔ TooLong token') := by
  rw [reads, reads, TooLong, TooLong, hname, hvalue]
  exact ⟨rfl, Iff.rfl⟩

theorem reads_congr {token token' : List Char} (h : strip token = strip token') :
    reads token = reads token' ∧ (TooLong token ↔ TooLong token') :=
  reads_of_eq (directiveName_congr h) (by rw [directiveValue, directiveValue, h])

end Cdn

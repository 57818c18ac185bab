/-
The Cache-Control parser, and what its directives mean for a shared cache.

The parser folds over the comma-separated tokens of the header.  Everything it can
raise comes from reading an integer, so `directive` is the only step that can fail.
-/
import Cdn.Python

namespace Cdn

/-- Parsed Cache-Control directives. -/
structure CacheDirectives where
  maxAge : Option Nat := none
  sMaxage : Option Nat := none
  noCache : Bool := false
  noStore : Bool := false
  isPrivate : Bool := false
  mustRevalidate : Bool := false
  staleWhileRevalidate : Option Nat := none
  staleIfError : Option Nat := none
deriving DecidableEq, Repr

namespace CacheDirectives

/-- Whether a shared cache may store the response. -/
def isCacheable (d : CacheDirectives) : Bool := !d.noStore && !d.isPrivate

/-- `no-cache` first, then `s-maxage`, then `max-age`, then the default. -/
def effectiveTtl (d : CacheDirectives) (defaultTtl : Time) : Except Exn Time :=
  if d.noCache then .ok 0
  else match d.sMaxage with
    | some n => float n
    | none => match d.maxAge with
      | some n => float n
      | none => .ok defaultTtl

def effectiveStaleWhileRevalidate (d : CacheDirectives) : Except Exn Time :=
  match d.staleWhileRevalidate with
  | some n => float n
  | none => .ok 0

/-- Both are numbers and none is negative exactly if what they come from is not too large. -/
theorem exists_effectiveTtl_iff {d : CacheDirectives} {defaultTtl : Time} :
    (∃ ttl, d.effectiveTtl defaultTtl = .ok ttl ∧ 0 ≤ ttl) ↔ (d.noCache = false →
      (∀ n, d.sMaxage = some n → n < floatBound) ∧
        (d.sMaxage = none → ∀ n, d.maxAge = some n → n < floatBound) ∧
        (d.sMaxage = none → d.maxAge = none → 0 ≤ defaultTtl)) := by
  unfold effectiveTtl
  cases d.noCache with
  | true => simp
  | false =>
      cases d.sMaxage with
      | some n => simp [exists_float_iff]
      | none =>
          cases d.maxAge with
          | some n => simp [exists_float_iff]
          | none => simp

theorem exists_effectiveStaleWhileRevalidate_iff {d : CacheDirectives} :
    (∃ swr, d.effectiveStaleWhileRevalidate = .ok swr ∧ 0 ≤ swr) ↔
      ∀ n, d.staleWhileRevalidate = some n → n < floatBound := by
  unfold effectiveStaleWhileRevalidate
  cases d.staleWhileRevalidate with
  | some n => simp [exists_float_iff]
  | none => simp

/-- A stale window is never negative. -/
theorem effectiveStaleWhileRevalidate_nonneg {d : CacheDirectives} {x : Time}
    (h : d.effectiveStaleWhileRevalidate = .ok x) : 0 ≤ x := by
  unfold effectiveStaleWhileRevalidate at h
  split at h
  · exact float_nonneg h
  · cases h
    exact le_refl _

theorem effectiveTtl_error {d : CacheDirectives} {defaultTtl : Time} {x : Exn}
    (h : d.effectiveTtl defaultTtl = .error x) : x = .overflow := by
  unfold effectiveTtl at h
  split at h
  · cases h
  · split at h
    · exact float_error h
    · split at h
      · exact float_error h
      · cases h

theorem effectiveStaleWhileRevalidate_error {d : CacheDirectives} {x : Exn}
    (h : d.effectiveStaleWhileRevalidate = .error x) : x = .overflow := by
  unfold effectiveStaleWhileRevalidate at h
  split at h
  · exact float_error h
  · cases h

end CacheDirectives

/-! ### Parsing -/

/-- `_parse_int`: the match of `^"?(\d+)"?$` on the stripped value. -/
def parseInt (raw : List Char) : Except Exn (Option Nat) :=
  let value := strip raw
  let body := if value.head? = some '"' then value.tail else value
  let digits := body.takeWhile isDigit
  let rest := body.dropWhile isDigit
  if digits ≠ [] ∧ (rest = [] ∨ rest = ['"']) then (int digits).map some else .ok none

/-- One integer directive: a value that does not parse leaves the directive as it was. -/
def intDirective (old : Option Nat) (value : List Char) : Except Exn (Option Nat) := do
  match ← parseInt value with
  | some n => return some n
  | none => return old

/-- One round of the loop over the tokens. -/
def directive (d : CacheDirectives) (rawToken : List Char) : Except Exn CacheDirectives := do
  let token := strip rawToken
  if token = [] then return d
  let (key, value) := if '=' ∈ token
    then ((partition '=' token).1, strip (partition '=' token).2) else (token, [])
  match String.ofList (lower (strip key)) with
  | "max-age" => return { d with maxAge := ← intDirective d.maxAge value }
  | "s-maxage" => return { d with sMaxage := ← intDirective d.sMaxage value }
  | "no-cache" => return { d with noCache := true }
  | "no-store" => return { d with noStore := true }
  | "private" => return { d with isPrivate := true }
  | "must-revalidate" => return { d with mustRevalidate := true }
  | "stale-while-revalidate" =>
      return { d with staleWhileRevalidate := ← intDirective d.staleWhileRevalidate value }
  | "stale-if-error" => return { d with staleIfError := ← intDirective d.staleIfError value }
  | _ => return d

/-- `parse_cache_control`. -/
def parseCacheControl (header : String) : Except Exn CacheDirectives :=
  (split ',' header.toList).foldlM directive {}

example : parseCacheControl " Max-Age=\"300\" , , public, stale-while-revalidate = 60, max-age=x" =
    .ok { maxAge := some 300, staleWhileRevalidate := some 60 } := by decide +kernel

/-! ### Directives by their name -/

/-- The name of a directive: what stands before the equals sign, trimmed, in lower case. -/
def directiveName (token : List Char) : String :=
  String.ofList (lower (strip (partition '=' token).1))

/-- A header has a directive of this name, at any place and with any value or none. -/
def HasDirective (header name : String) : Prop :=
  ∃ token ∈ split ',' header.toList, directiveName token = name

instance (header name : String) : Decidable (HasDirective header name) :=
  inferInstanceAs (Decidable (∃ token ∈ _, _))

/-- The key that a round of the loop looks at is the name of its directive. -/
theorem key_eq_directiveName (rawToken : List Char) :
    String.ofList (lower (strip ((strip rawToken).takeWhile (· ≠ '=')))) =
      directiveName rawToken := by
  have hblank : ∀ c, isSpace c = true → decide (c ≠ '=') = true := by
    intro c hc
    rw [decide_eq_true_eq]
    rintro rfl
    exact absurd hc (by decide)
  rw [strip_takeWhile hblank]
  rfl

/-- The value of a directive: what stands behind the equals sign, trimmed. -/
def directiveValue (token : List Char) : List Char := strip (partition '=' (strip token)).2

/-- A round of the loop goes by the name and the value of its directive. -/
theorem directive_of_name {d : CacheDirectives} {token : List Char} (h : strip token ≠ []) :
    directive d token = (match directiveName token with
      | "max-age" => return { d with maxAge := ← intDirective d.maxAge (directiveValue token) }
      | "s-maxage" => return { d with sMaxage := ← intDirective d.sMaxage (directiveValue token) }
      | "no-cache" => return { d with noCache := true }
      | "no-store" => return { d with noStore := true }
      | "private" => return { d with isPrivate := true }
      | "must-revalidate" => return { d with mustRevalidate := true }
      | "stale-while-revalidate" => return { d with
          staleWhileRevalidate := ← intDirective d.staleWhileRevalidate (directiveValue token) }
      | "stale-if-error" =>
          return { d with staleIfError := ← intDirective d.staleIfError (directiveValue token) }
      | _ => return d) := by
  have hsplit : (if '=' ∈ strip token then
      ((partition '=' (strip token)).1, strip (partition '=' (strip token)).2)
      else (strip token, [])) = ((partition '=' (strip token)).1, directiveValue token) := by
    split
    · rfl
    · rename_i habsent
      have hall : ∀ c ∈ strip token, decide (c ≠ '=') = true := by
        intro c hc
        rw [decide_eq_true_eq]
        rintro rfl
        exact habsent hc
      rw [directiveValue, partition, List.takeWhile_eq_self_iff.mpr hall,
        List.dropWhile_eq_nil_iff.mpr hall]
      rfl
  rw [← key_eq_directiveName]
  unfold directive
  simp only [if_neg h, hsplit]
  rfl

/-- A token of blanks has no name. -/
theorem directiveName_of_blank {token : List Char} (h : strip token = []) :
    directiveName token = "" := by
  rw [← key_eq_directiveName, h]
  rfl

/-- Whether each of the flags is set after a round. -/
theorem directive_flags {d d' : CacheDirectives} {token : List Char}
    (h : directive d token = .ok d') :
    d'.noCache = (d.noCache || decide (directiveName token = "no-cache")) ∧
    d'.noStore = (d.noStore || decide (directiveName token = "no-store")) ∧
    d'.isPrivate = (d.isPrivate || decide (directiveName token = "private")) ∧
    d'.mustRevalidate = (d.mustRevalidate || decide (directiveName token = "must-revalidate")) := by
  have hint : ∀ {old : Option Nat} {value : List Char} {f : Option Nat → CacheDirectives},
      (intDirective old value >>= fun n => pure (f n)) = .ok d' → ∃ n, d' = f n := by
    intro old value f h
    obtain ⟨n, -, h⟩ := bind_ok h
    cases h
    exact ⟨n, rfl⟩
  by_cases hempty : strip token = []
  · rw [directive, if_pos hempty] at h
    cases h
    simp [directiveName_of_blank hempty]
  · rw [directive_of_name hempty] at h
    split at h
    case h_1 hn | h_2 hn | h_7 hn | h_8 hn =>
      obtain ⟨n, rfl⟩ := hint h
      simp [hn]
    case h_3 hn | h_4 hn | h_5 hn | h_6 hn =>
      cases h
      simp [hn]
    case h_9 =>
      cases h
      simp_all

/-- A flag that each round sets at one name is set in the end exactly if the name occurs. -/
theorem flag_foldlM (flag : CacheDirectives → Bool) {name : String}
    (hround : ∀ d token d', directive d token = .ok d' →
      flag d' = (flag d || decide (directiveName token = name)))
    {tokens : List (List Char)} {d d' : CacheDirectives}
    (h : tokens.foldlM directive d = .ok d') :
    flag d' = true ↔ flag d = true ∨ ∃ token ∈ tokens, directiveName token = name := by
  induction tokens generalizing d with
  | nil =>
      cases h
      simp
  | cons token rest ih =>
      rw [List.foldlM_cons] at h
      obtain ⟨mid, hmid, h⟩ := bind_ok h
      rw [ih h, hround d token mid hmid]
      simp [or_assoc]

section flags

variable {header : String} {d : CacheDirectives}

/-- **The parser finds a directive wherever it stands.** -/
theorem noStore_iff (h : parseCacheControl header = .ok d) :
    d.noStore = true ↔ HasDirective header "no-store" := by
  rw [flag_foldlM (·.noStore) (fun _ _ _ h => (directive_flags h).2.1) h]
  simp [HasDirective]

theorem noCache_iff (h : parseCacheControl header = .ok d) :
    d.noCache = true ↔ HasDirective header "no-cache" := by
  rw [flag_foldlM (·.noCache) (fun _ _ _ h => (directive_flags h).1) h]
  simp [HasDirective]

theorem isPrivate_iff (h : parseCacheControl header = .ok d) :
    d.isPrivate = true ↔ HasDirective header "private" := by
  rw [flag_foldlM (·.isPrivate) (fun _ _ _ h => (directive_flags h).2.2.1) h]
  simp [HasDirective]

end flags

/-! ### What parsing can raise -/

theorem parseInt_error {raw : List Char} {x : Exn} (h : parseInt raw = .error x) :
    x = .value := by
  have hread : ∀ (c : Prop) [Decidable c] (digits : List Char),
      (if c then (int digits).map some else Except.ok none) = .error x → x = .value := by
    intro c _ digits hc
    split at hc
    · cases hint : int digits with
      | error y =>
          rw [hint] at hc
          cases hc
          exact int_error hint
      | ok n =>
          rw [hint] at hc
          cases hc
    · cases hc
  exact hread _ _ h

theorem intDirective_error {old : Option Nat} {value : List Char} {x : Exn}
    (h : intDirective old value = .error x) : x = .value := by
  unfold intDirective at h
  rcases bind_error h with h | ⟨n, -, h⟩
  · exact parseInt_error h
  · cases n <;> cases h

theorem directive_error {d : CacheDirectives} {token : List Char} {x : Exn}
    (h : directive d token = .error x) : x = .value := by
  have hint : ∀ {old : Option Nat} {value : List Char} {f : Option Nat → CacheDirectives},
      (intDirective old value >>= fun n => pure (f n)) = .error x → x = .value := by
    intro old value f h
    rcases bind_error h with h | ⟨n, -, h⟩
    · exact intDirective_error h
    · cases h
  by_cases hempty : strip token = []
  · rw [directive, if_pos hempty] at h
    cases h
  · rw [directive_of_name hempty] at h
    split at h
    case h_1 | h_2 | h_7 | h_8 => exact hint h
    case h_3 | h_4 | h_5 | h_6 | h_9 => cases h

/-- **Only a number that is too long makes the parser raise.** -/
theorem parseCacheControl_error {header : String} {x : Exn}
    (h : parseCacheControl header = .error x) : x = .value := by
  have hfold : ∀ (tokens : List (List Char)) (d : CacheDirectives),
      tokens.foldlM directive d = .error x → x = .value := by
    intro tokens
    induction tokens with
    | nil => intro d h; cases h
    | cons token rest ih =>
        intro d h
        rw [List.foldlM_cons] at h
        rcases bind_error h with h | ⟨d', -, h⟩
        · exact directive_error h
        · exact ih d' h
  exact hfold _ _ h

end Cdn

/-
Headers that are put together of other headers.

The parser remembers nothing of a token but the setting that it makes.  So two headers joined
by a comma leave what the second sets and, where it sets nothing, what the first does; and a
header may be written in many ways, in any order of its directives, in any case and with any
blanks, without a difference in what is left.
-/
import Cdn.Numerals
import Cdn.Proofs.Settings

namespace Cdn

/-! ### Runs of digits -/

/-- No run of digits is longer than `int` takes. -/
def ShortRuns (s : List Char) : Prop :=
  ∀ run, run <:+: s → (∀ c ∈ run, isDigit c = true) → run.length ≤ maxStrDigits

theorem shortRuns_of_length {s : List Char} (h : s.length ≤ maxStrDigits) : ShortRuns s :=
  fun _ hrun _ => Nat.le_trans hrun.length_le h

theorem infix_strip (s : List Char) : strip s <:+: s :=
  (List.rdropWhile_prefix _ _).isInfix.trans (List.dropWhile_suffix _).isInfix

/-- The digits that are matched stand together in the value. -/
theorem numeral?_eq_some {raw digits : List Char} (h : numeral? raw = some digits) :
    digits <:+: raw ∧ ∀ c ∈ digits, isDigit c = true := by
  have hbody : (if (strip raw).head? = some '"' then (strip raw).tail else strip raw) <:+:
      raw := by
    split
    · exact (List.tail_suffix _).isInfix.trans (infix_strip raw)
    · exact infix_strip raw
  unfold numeral? at h
  dsimp only at h
  generalize (if (strip raw).head? = some '"' then (strip raw).tail else strip raw) = body at h hbody
  split at h
  · rw [← Option.some.inj h]
    exact ⟨(List.takeWhile_prefix _).isInfix.trans hbody, fun c hc => List.mem_takeWhile_imp hc⟩
  · cases h

theorem infix_directiveValue (token : List Char) : directiveValue token <:+: token := by
  calc directiveValue token
      <:+: (partition '=' (strip token)).2 := infix_strip _
    _ <:+: (strip token).dropWhile (· ≠ '=') := (List.drop_suffix _ _).isInfix
    _ <:+: strip token := (List.dropWhile_suffix _).isInfix
    _ <:+: token := infix_strip token

theorem not_tooLong_of_shortRuns {header : List Char} (short : ShortRuns header) :
    ∀ token ∈ split ',' header, ¬ TooLong token := by
  rintro token htoken ⟨-, digits, hdigits, hlong⟩
  obtain ⟨hpart, hall⟩ := numeral?_eq_some hdigits
  have hheader := (hpart.trans (infix_directiveValue token)).trans
    (Scan.infix_of_mem_splitOn htoken)
  exact Nat.not_lt.mpr (short digits hheader hall) hlong

/-! ### One header after another -/

namespace CacheDirectives

/-- What is set in a register of either kind, by the later directives or else by the earlier. -/
theorem later_or_earlier {d d₁ d₂ : CacheDirectives}
    (h : ∀ k, d.view k = (d₂.view k).or (d₁.view k)) :
    (∀ f, d.raised f = true ↔ d₁.raised f = true ∨ d₂.raised f = true) ∧
      ∀ l, d.numberOf l = (d₂.numberOf l).or (d₁.numberOf l) := by
  refine ⟨fun f => ?_, fun l => ?_⟩
  · have hview : ∀ d : CacheDirectives, (d.view (.inl f)).isSome = d.raised f := by
      intro d
      rw [view]
      cases d.raised f <;> rfl
    have hf := congrArg Option.isSome (h (.inl f))
    rw [Option.isSome_or, hview, hview, hview] at hf
    rw [hf, Bool.or_eq_true, or_comm]
  · have hl := h (.inr l)
    rw [view, view, view, ← Option.map_or] at hl
    exact Option.map_injective (fun _ _ hn => (Setting.lifetime.inj hn).2) hl

end CacheDirectives

/-- The settings that a header makes, one after another. -/
def settings (header : String) : List Setting := (split ',' header.toList).filterMap reads

theorem parseCacheControl_of_short {header : String}
    (short : ∀ token ∈ split ',' header.toList, ¬ TooLong token) :
    parseCacheControl header = .ok ((settings header).foldl CacheDirectives.set {}) :=
  parseCacheControl_eq_ok.mpr ⟨short, rfl⟩

theorem split_append (h₁ h₂ : String) : split ',' (h₁ ++ "," ++ h₂).toList =
    split ',' h₁.toList ++ split ',' h₂.toList := by
  rw [String.toList_append, String.toList_append, List.append_assoc]
  exact List.splitOn_append_cons_self _ _

theorem settings_append (h₁ h₂ : String) :
    settings (h₁ ++ "," ++ h₂) = settings h₁ ++ settings h₂ := by
  rw [settings, split_append, List.filterMap_append]
  rfl

/-- **A header behind another** adds its flags, and its numbers stand before the other's. -/
theorem parseCacheControl_join {h₁ h₂ : String} (short₁ : ShortRuns h₁.toList)
    (short₂ : ShortRuns h₂.toList) :
    ∃ d₁ d₂ d, parseCacheControl h₁ = .ok d₁ ∧ parseCacheControl h₂ = .ok d₂ ∧
      parseCacheControl (h₁ ++ "," ++ h₂) = .ok d ∧
      (∀ f, d.raised f = true ↔ d₁.raised f = true ∨ d₂.raised f = true) ∧
      ∀ l, d.numberOf l = (d₂.numberOf l).or (d₁.numberOf l) := by
  have hshort₁ := not_tooLong_of_shortRuns short₁
  have hshort₂ := not_tooLong_of_shortRuns short₂
  have hshort : ∀ token ∈ split ',' (h₁ ++ "," ++ h₂).toList, ¬ TooLong token := by
    rw [split_append]
    exact List.forall_mem_append.mpr ⟨hshort₁, hshort₂⟩
  refine ⟨_, _, _, parseCacheControl_of_short hshort₁, parseCacheControl_of_short hshort₂,
    parseCacheControl_of_short hshort, CacheDirectives.later_or_earlier fun k => ?_⟩
  rw [CacheDirectives.view_foldl_set, CacheDirectives.view_foldl_set,
    CacheDirectives.view_foldl_set, settings_append, Registers.last_append]

/-! ### One directive, written in many ways -/

def Blank (s : List Char) : Prop := ∀ c ∈ s, isSpace c = true

/-- A text spells a directive: its name in any case, its value if it has one, and blanks around
each of them. -/
inductive Spells (name : List Char) : Option (List Char) → List Char → Prop where
  | bare {name' before after : List Char} (hname : lower name' = lower name) (hequals : '=' ∉ name')
      (hbefore : Blank before) (hafter : Blank after) :
      Spells name none (before ++ name' ++ after)
  | valued {name' before behind front after : List Char} (value : List Char)
      (hname : lower name' = lower name) (hequals : '=' ∉ name') (hbefore : Blank before)
      (hbehind : Blank behind) (hfront : Blank front) (hafter : Blank after) :
      Spells name (some value)
        (before ++ name' ++ behind ++ '=' :: (front ++ value ++ after))

/-- Two texts spell the same directive. -/
def Alike (item item' : List Char) : Prop :=
  ∃ name value, Spells name value item ∧ Spells name value item'

theorem isSpace_toLower (c : Char) : isSpace c.toLower = isSpace c := by
  by_cases hupper : c.isUpper = true
  · have hascii : c.toNat < 0x5b := by
      simp only [Char.isUpper, ge_iff_le, decide_eq_true_eq] at hupper
      exact Nat.lt_succ_of_le hupper.2
    have hall : ∀ n < 0x5b, isSpace (Char.ofNat n).toLower = isSpace (Char.ofNat n) := by
      decide +kernel
    exact forall_lt_of_ofNat (p := fun c => isSpace c.toLower = isSpace c) hall hascii
  · rw [Char.toLower_eq_of_not_isUpper hupper]

theorem lower_strip (s : List Char) : lower (strip s) = strip (lower s) := by
  have hcase : isSpace ∘ Char.toLower = isSpace := funext isSpace_toLower
  rw [strip, strip, lower, lower, List.dropWhile_map, hcase, List.rdropWhile, List.rdropWhile,
    ← List.map_reverse, List.dropWhile_map, hcase, List.map_reverse]

theorem Blank.equals_notMem {s : List Char} (h : Blank s) : '=' ∉ s := fun hmem =>
  absurd (h '=' hmem) (by decide)

/-- The value of a directive is what stands behind the equals sign. -/
theorem directiveValue_append {front : List Char} (hfront : '=' ∉ front) (rest : List Char) :
    directiveValue (front ++ '=' :: rest) = strip rest := by
  have hequals : ¬ isSpace '=' = true := by decide
  have hleft : (front ++ '=' :: rest).dropWhile isSpace =
      front.dropWhile isSpace ++ '=' :: rest := by
    rw [List.dropWhile_append]
    split
    · rename_i hempty
      rw [List.isEmpty_iff.mp hempty, List.dropWhile_cons_of_neg hequals, List.nil_append]
    · rfl
  have hright : ∀ s : List Char,
      (s ++ '=' :: rest).rdropWhile isSpace = s ++ '=' :: rest.rdropWhile isSpace := by
    intro s
    rw [List.rdropWhile, List.rdropWhile, List.reverse_append, List.reverse_cons,
      List.append_assoc, List.dropWhile_append]
    split
    · rename_i hempty
      rw [List.isEmpty_iff.mp hempty, List.singleton_append, List.dropWhile_cons_of_neg hequals]
      simp
    · simp
  have hstrip : strip (front ++ '=' :: rest) =
      front.dropWhile isSpace ++ '=' :: rest.rdropWhile isSpace := by rw [strip, hleft, hright]
  have hall : ∀ c ∈ front.dropWhile isSpace, decide (c ≠ '=') = true := by
    intro c hc
    rw [decide_eq_true_eq]
    rintro rfl
    exact hfront ((List.dropWhile_suffix _).subset hc)
  have hblank : ∀ c ∈ rest.rtakeWhile isSpace, isSpace c = true :=
    fun c hc => List.mem_rtakeWhile_imp hc
  calc directiveValue (front ++ '=' :: rest)
      = strip (rest.rdropWhile isSpace) := by
        rw [directiveValue, hstrip, partition, List.dropWhile_append_of_pos hall,
          List.dropWhile_cons_of_neg (by decide), List.drop_one, List.tail_cons]
    _ = strip ([] ++ rest.rdropWhile isSpace ++ rest.rtakeWhile isSpace) :=
        (strip_append (fun c hc => absurd hc List.not_mem_nil) hblank _).symm
    _ = strip rest := by rw [List.nil_append, List.rdropWhile_append_rtakeWhile]

/-- Without an equals sign there is no value. -/
theorem directiveValue_of_notMem {token : List Char} (h : '=' ∉ token) :
    directiveValue token = [] := by
  have hall : ∀ c ∈ strip token, decide (c ≠ '=') = true := by
    intro c hc
    rw [decide_eq_true_eq]
    rintro rfl
    exact h ((infix_strip token).subset hc)
  rw [directiveValue, partition, List.dropWhile_eq_nil_iff.mpr hall]
  rfl

theorem Spells.eq {name item : List Char} {value : Option (List Char)}
    (h : Spells name value item) : directiveName item = String.ofList (strip (lower name)) ∧
      directiveValue item = strip (value.getD []) := by
  have hlower : ∀ {name' : List Char}, lower name' = lower name →
      lower (strip name') = strip (lower name) := fun hname => by rw [lower_strip, hname]
  cases h with
  | bare hname hequals hbefore hafter =>
      have hitem := List.not_mem_append (List.not_mem_append hbefore.equals_notMem hequals)
        hafter.equals_notMem
      refine ⟨?_, directiveValue_of_notMem hitem⟩
      rw [← List.append_nil (_ ++ _ ++ _), directiveName_append hitem (by simp),
        strip_append hbefore hafter, hlower hname]
  | valued value hname hequals hbefore hbehind hfront hafter =>
      have hitem := List.not_mem_append (List.not_mem_append hbefore.equals_notMem hequals)
        hbehind.equals_notMem
      refine ⟨?_, ?_⟩
      · rw [directiveName_append hitem (by simp), strip_append hbefore hbehind, hlower hname]
      · rw [directiveValue_append hitem, strip_append hfront hafter, Option.getD_some]

theorem Alike.reads_eq {item item' : List Char} (h : Alike item item') :
    reads item = reads item' ∧ (TooLong item ↔ TooLong item') := by
  obtain ⟨name, value, hspells, hspells'⟩ := h
  exact reads_of_eq (hspells.eq.1.trans hspells'.eq.1.symm) (hspells.eq.2.trans hspells'.eq.2.symm)

/-! ### One header, written in many ways -/

/-- A text between two commas. -/
abbrev Item := {item : List Char // ',' ∉ item}

/-- The items, joined by commas. -/
def headerOf (items : List Item) : String :=
  String.ofList ([','].intercalate (items.map Subtype.val))

/-- An item that says nothing: it is empty, its name is unknown, or its value is no number. -/
inductive Ignored : List Char → Prop where
  | empty {item : List Char} (h : Blank item) : Ignored item
  | unknown {item : List Char} (hflag : Flag.ofName (directiveName item) = none)
      (hlifetime : Lifetime.ofName (directiveName item) = none) : Ignored item
  | unparsable {item : List Char} (hflag : Flag.ofName (directiveName item) = none)
      (hvalue : numeral? (directiveValue item) = none) : Ignored item

/-- One change of a header: directives of different names change places, a directive is written
in another way, or an item that says nothing is left out. -/
inductive Rewritten : List Item → List Item → Prop where
  | permuted (before after : List Item) {items items' : List Item} (hperm : items.Perm items')
      (distinct : (items.map fun item => directiveName item.val).Nodup) :
      Rewritten (before ++ items ++ after) (before ++ items' ++ after)
  | respelled (before after : List Item) {item item' : Item} (h : Alike item.val item'.val) :
      Rewritten (before ++ item :: after) (before ++ item' :: after)
  | ignored (before after : List Item) {item : Item} (h : Ignored item.val) :
      Rewritten (before ++ item :: after) (before ++ after)

theorem Flag.ofName_inj {n n' : String} {f : Flag} (h : ofName n = some f)
    (h' : ofName n' = some f) : n = n' := by
  unfold ofName at h h'
  split at h <;> cases h <;> split at h' <;> cases h' <;> rfl

theorem Lifetime.ofName_inj {n n' : String} {l : Lifetime} (h : ofName n = some l)
    (h' : ofName n' = some l) : n = n' := by
  unfold ofName at h h'
  split at h <;> cases h <;> split at h' <;> cases h' <;> rfl

/-- What a token sets is a matter of its name. -/
theorem reads_register {token : List Char} {s : Setting} (h : reads token = some s) :
    Flag.ofName (directiveName token) = s.register.getLeft? ∧
      (Flag.ofName (directiveName token) = none →
        Lifetime.ofName (directiveName token) = s.register.getRight?) := by
  unfold reads at h
  split at h
  · rename_i hflag
    cases h
    exact ⟨hflag, fun hnone => by rw [hflag] at hnone; cases hnone⟩
  · rename_i hflag hlifetime
    obtain ⟨n, -, rfl⟩ := Option.map_eq_some_iff.mp h
    exact ⟨hflag, fun _ => hlifetime⟩
  · cases h

/-- Directives of different names set different things. -/
theorem directiveName_of_register {token token' : List Char} {s s' : Setting}
    (h : reads token = some s) (h' : reads token' = some s') (hs : s.register = s'.register) :
    directiveName token = directiveName token' := by
  obtain ⟨hflag, hlifetime⟩ := reads_register h
  obtain ⟨hflag', hlifetime'⟩ := reads_register h'
  rw [← hs] at hflag' hlifetime'
  cases hregister : s.register with
  | inl f =>
      rw [hregister] at hflag hflag'
      exact Flag.ofName_inj hflag hflag'
  | inr l =>
      rw [hregister] at hflag hflag' hlifetime hlifetime'
      exact Lifetime.ofName_inj (hlifetime hflag) (hlifetime' hflag')

theorem Ignored.reads_eq {item : List Char} (h : Ignored item) :
    reads item = none ∧ ¬ TooLong item := by
  cases h with
  | empty h =>
      have hname : directiveName item = "" := by
        refine directiveName_of_blank ?_
        rw [strip, List.dropWhile_eq_nil_iff.mpr h]
        rfl
      rw [reads, TooLong, hname]
      exact ⟨rfl, fun hlong => hlong.1 rfl⟩
  | unknown hflag hlifetime =>
      rw [reads, TooLong, hflag, hlifetime]
      exact ⟨rfl, fun hlong => hlong.1 rfl⟩
  | unparsable hflag hvalue =>
      rw [reads, TooLong, hflag, hvalue]
      refine ⟨?_, ?_⟩
      · cases Lifetime.ofName (directiveName item) <;> rfl
      · rintro ⟨-, digits, hdigits, -⟩
        cases hdigits

/-! ### The result -/

/-- What the items make of the parser, one after another. -/
theorem headerOf_spec (items : List Item) :
    settings (headerOf items) = items.filterMap (fun item => reads item.val) ∧
      ((∀ token ∈ split ',' (headerOf items).toList, ¬ TooLong token) ↔
        ∀ item ∈ items, ¬ TooLong item.val) := by
  rw [settings, headerOf, String.toList_ofList, split]
  cases items with
  | nil =>
      have hignored : Ignored [] := .empty fun c hc => absurd hc List.not_mem_nil
      have hempty := hignored.reads_eq
      refine ⟨?_, ?_⟩
      · show [[]].filterMap reads = []
        rw [List.filterMap_cons_none hempty.1, List.filterMap_nil]
      · show (∀ token ∈ [[]], ¬ TooLong token) ↔ _
        simp [hempty.2]
  | cons first rest =>
      have hcomma : ∀ item ∈ (first :: rest).map Subtype.val, ',' ∉ item := by
        intro item hitem
        obtain ⟨item, -, rfl⟩ := List.mem_map.mp hitem
        exact item.property
      rw [List.splitOn_intercalate ',' hcomma (List.cons_ne_nil _ _), List.filterMap_map,
        List.forall_mem_map]
      exact ⟨rfl, Iff.rfl⟩

theorem parseCacheControl_of_tooLong {header : String}
    (h : ¬ ∀ token ∈ split ',' header.toList, ¬ TooLong token) :
    parseCacheControl header = .error .value := by
  cases hparse : parseCacheControl header with
  | error x => rw [parseCacheControl_error hparse]
  | ok d => exact absurd (parseCacheControl_eq_ok.mp hparse).1 h

theorem parseCacheControl_congr {items items' : List Item}
    (hlong : (∀ item ∈ items, ¬ TooLong item.val) ↔ ∀ item ∈ items', ¬ TooLong item.val)
    (hlast : ∀ k, Registers.last Setting.register k (items.filterMap fun item => reads item.val) =
      Registers.last Setting.register k (items'.filterMap fun item => reads item.val)) :
    parseCacheControl (headerOf items) = parseCacheControl (headerOf items') := by
  obtain ⟨hsettings, hshort⟩ := headerOf_spec items
  obtain ⟨hsettings', hshort'⟩ := headerOf_spec items'
  by_cases h : ∀ item ∈ items, ¬ TooLong item.val
  · rw [parseCacheControl_of_short (hshort.mpr h),
      parseCacheControl_of_short (hshort'.mpr (hlong.mp h)), hsettings, hsettings',
      (CacheDirectives.foldl_set_eq_iff _ _).mpr hlast]
  · rw [parseCacheControl_of_tooLong (mt hshort.mp h),
      parseCacheControl_of_tooLong (mt hshort'.mp (mt hlong.mpr h))]

/-- None of the changes makes a difference. -/
theorem Rewritten.parse_eq {items items' : List Item} (h : Rewritten items items') :
    parseCacheControl (headerOf items) = parseCacheControl (headerOf items') := by
  cases h with
  | @permuted before after items items' hperm distinct =>
      refine parseCacheControl_congr ?_ fun k => ?_
      · simp only [List.forall_mem_append, hperm.mem_iff]
      · have hregisters : ((items.filterMap fun item => reads item.val).map
            Setting.register).Nodup := by
          rw [List.Nodup, List.pairwise_map, List.pairwise_filterMap]
          refine (List.pairwise_map.mp distinct).imp ?_
          intro item item' hne s hs s' hs' hregister
          exact hne (directiveName_of_register hs hs' hregister)
        simp only [List.filterMap_append, Registers.last_append,
          Registers.last_perm Setting.register (hperm.filterMap _) hregisters]
  | respelled before after halike =>
      obtain ⟨hreads, hlong⟩ := halike.reads_eq
      refine parseCacheControl_congr ?_ fun k => ?_
      · simp only [List.forall_mem_append, List.forall_mem_cons, hlong]
      · simp only [List.filterMap_append, List.filterMap_cons, hreads]
  | ignored before after hignored =>
      obtain ⟨hreads, hlong⟩ := hignored.reads_eq
      refine parseCacheControl_congr ?_ fun k => ?_
      · simp only [List.forall_mem_append, List.forall_mem_cons, hlong, not_false_eq_true,
          true_and]
      · simp only [List.filterMap_append, List.filterMap_cons, hreads]

/--
**Parsing is compositional.**  A header behind another adds its flags to the other's, and of two
numbers for one lifetime its own counts; and none of the changes above, nor any number of them
one after another and back, makes a difference.
-/
theorem parseCacheControl_compositional {h₁ h₂ : String} (short₁ : ShortRuns h₁.toList)
    (short₂ : ShortRuns h₂.toList) :
    (∃ d₁ d₂ d, parseCacheControl h₁ = .ok d₁ ∧ parseCacheControl h₂ = .ok d₂ ∧
      parseCacheControl (h₁ ++ "," ++ h₂) = .ok d ∧
      (∀ f, d.raised f = true ↔ d₁.raised f = true ∨ d₂.raised f = true) ∧
      ∀ l, d.numberOf l = (d₂.numberOf l).or (d₁.numberOf l)) ∧
    ∀ items items' : List Item, Relation.EqvGen Rewritten items items' →
      parseCacheControl (headerOf items) = parseCacheControl (headerOf items') := by
  refine ⟨parseCacheControl_join short₁ short₂, fun items items' h => ?_⟩
  induction h with
  | rel _ _ h => exact h.parse_eq
  | refl _ => rfl
  | symm _ _ _ ih => exact ih.symm
  | trans _ _ _ _ _ ih ih' => exact ih.trans ih'

theorem parseCacheControl_compositional_two :
    (∃ d₁ d₂ d, parseCacheControl "no-cache, max-age=60" = .ok d₁ ∧
      parseCacheControl "max-age=5" = .ok d₂ ∧
      parseCacheControl ("no-cache, max-age=60" ++ "," ++ "max-age=5") = .ok d ∧
      (∀ f, d.raised f = true ↔ d₁.raised f = true ∨ d₂.raised f = true) ∧
      ∀ l, d.numberOf l = (d₂.numberOf l).or (d₁.numberOf l)) ∧
    ∀ items items' : List Item, Relation.EqvGen Rewritten items items' →
      parseCacheControl (headerOf items) = parseCacheControl (headerOf items') :=
  parseCacheControl_compositional (shortRuns_of_length (by decide))
    (shortRuns_of_length (by decide))

end Cdn

/-
HTTP messages, as far as a hop has to keep body and headers together.

The header lines of a message stand in order, and their names compare without case.  A
name may stand in several lines; who reads it as one value reads the values joined by
commas.

A client that undoes the content coding of what it receives keeps the lines that described
the coded body.  Whoever passes such a response on sends a body and a description that
belong to two different messages: `transparent_of_kept` says when that does not show.
-/
import Cdn.Lib.Dict
import Mathlib

namespace Http

/-! ### Header lines -/

def lowerName (name : String) : String := String.ofList (name.toList.map Char.toLower)

theorem lowerName_lowerName (name : String) : lowerName (lowerName name) = lowerName name := by
  have htwice : ∀ c : Char, c.toLower.toLower = c.toLower := fun c =>
    Char.toLower_eq_of_not_isUpper (by simp)
  rw [lowerName, lowerName, String.toList_ofList, List.map_map]
  congr 1
  exact List.map_congr_left fun c _ => htwice c

/-- The values of the lines with one name, which is given in lower case. -/
def values (lines : List (String × String)) (name : String) : List String :=
  (lines.filter fun line => lowerName line.1 = name).map Prod.snd

theorem values_append (l l' : List (String × String)) (name : String) :
    values (l ++ l') name = values l name ++ values l' name := by
  simp [values]

/-- Lines of other names have no value for this one. -/
theorem values_eq_nil {l : List (String × String)} {name : String}
    (h : ∀ line ∈ l, lowerName line.1 ≠ name) : values l name = [] := by
  simp only [values, List.map_eq_nil_iff, List.filter_eq_nil_iff, decide_eq_true_eq]
  exact h

/-- The one value that several amount to. -/
def joined (values : List String) : Option String :=
  if values = [] then none else some (", ".intercalate values)

@[simp] theorem joined_nil : joined [] = none := rfl

@[simp] theorem joined_singleton (v : String) : joined [v] = some v := by
  rw [joined, if_neg (List.cons_ne_nil v [])]
  rfl

theorem joined_toList (v : Option String) : joined v.toList = v := by
  cases v with
  | none => rfl
  | some v => exact joined_singleton v

theorem joined_eq_none {values : List String} : joined values = none ↔ values = [] := by
  unfold joined
  split <;> simp_all

/-- Two values joined are no number. -/
theorem joined_ne_toString {values : List String} (h : 2 ≤ values.length) (n : Nat) :
    joined values ≠ some (toString n) := by
  intro hjoined
  match values, h with
  | a :: b :: rest, _ =>
      rw [joined, if_neg (List.cons_ne_nil _ _), Option.some.injEq] at hjoined
      have hcomma : ',' ∈ (", ".intercalate (a :: b :: rest)).toList := by
        rw [String.toList_intercalate]
        simp [List.intercalate]
      rw [hjoined] at hcomma
      have hdigit := Nat.isDigit_of_mem_toDigits (b := 10) (n := n) (c := ',') (by decide)
        (by decide) (by rw [← Nat.toList_repr]; exact hcomma)
      exact absurd hdigit (by decide)

/-- Two spellings of a name in one map are two lines. -/
theorem two_le_values {d : Dict String String} {k k' name : String} (hk : d.contains k = true)
    (hk' : d.contains k' = true) (hne : k ≠ k') (hname : lowerName k = name)
    (hname' : lowerName k' = name) : 2 ≤ (values d.items name).length := by
  obtain ⟨v, hv⟩ := Option.isSome_iff_exists.mp hk
  obtain ⟨v', hv'⟩ := Option.isSome_iff_exists.mp hk'
  have hsub : [(k, v), (k', v')] ⊆ d.items.filter fun line => lowerName line.1 = name := by
    intro line hline
    rcases List.mem_pair.mp hline with rfl | rfl
    · exact List.mem_filter.mpr ⟨Dict.get?_eq_some.mp hv, by simpa using hname⟩
    · exact List.mem_filter.mpr ⟨Dict.get?_eq_some.mp hv', by simpa using hname'⟩
  have hnodup : [(k, v), (k', v')].Nodup := by simp [hne]
  rw [values, List.length_map]
  exact (hnodup.subperm hsub).length_le

/-- Among the items of a map whose keys are in lower case there is one line for a name. -/
theorem values_items {d : Dict String String} (h : ∀ k ∈ d.keys, lowerName k = k)
    (name : String) : values d.items name = (d.get? name).toList := by
  rw [← Dict.filter_items_eq, values]
  congr 1
  refine List.filter_congr fun kv hkv => ?_
  rw [h kv.1 (List.mem_map.mpr ⟨kv, hkv, rfl⟩)]

theorem values_set {d : Dict String String} {k name : String} (v : String)
    (h : lowerName k ≠ name) : values (d.set k v).items name = values d.items name := by
  unfold values
  rw [Dict.filter_items_set d v (p := fun k => decide (lowerName k = name)) (by simpa using h)]

/-- A new key is a line of its own, after the others. -/
theorem values_set_new {d : Dict String String} {k name : String} (v : String) (h : k ∉ d.keys)
    (hname : lowerName k = name) :
    values (d.set k v).items name = values d.items name ++ [v] := by
  have hset : (d.set k v).items = d.items ++ [(k, v)] := by
    rw [Dict.set, dif_neg h]
    rfl
  have hline : values [(k, v)] name = [v] := by simp [values, hname]
  rw [hset, values_append, hline]

theorem values_filter {d : Dict String String} {p : String → Bool} {name : String}
    (h : ∀ k, lowerName k = name → p k = true) :
    values (d.filter p).items name = values d.items name := by
  unfold values
  show ((d.items.filter _).filter _).map _ = _
  rw [List.filter_filter]
  congr 1
  refine List.filter_congr fun kv _ => ?_
  by_cases hk : lowerName kv.1 = name
  · simp [hk, h kv.1 hk]
  · simp [hk]

/-! ### Messages -/

/-- A response on its way. -/
structure Message where
  statusCode : Int
  lines : List (String × String)
  body : List UInt8
deriving DecidableEq

namespace Message

def header? (m : Message) (name : String) : Option String := joined (values m.lines name)

abbrev encoding (m : Message) : Option String := m.header? "content-encoding"

abbrev length (m : Message) : Option String := m.header? "content-length"

/-- One line states the length, and it is that of the body. -/
def Measured (m : Message) : Prop := values m.lines "content-length" = [toString m.body.length]

instance (m : Message) : Decidable m.Measured := inferInstanceAs (Decidable (_ = _))

/-- The map a client makes of the lines. -/
def headers (m : Message) : Dict String String :=
  Dict.ofList (m.lines.map fun line =>
    (lowerName line.1, (m.header? (lowerName line.1)).getD ""))

theorem get?_headers (m : Message) (name : String) : m.headers.get? name = m.header? name := by
  rw [headers, Dict.get?_ofList_map (fun line : String × String => lowerName line.1)
    fun name => (m.header? name).getD ""]
  by_cases hname : name ∈ m.lines.map fun line => lowerName line.1
  · have hvalues : values m.lines name ≠ [] := by
      obtain ⟨line, hline, hlower⟩ := List.mem_map.mp hname
      simp only [values, ne_eq, List.map_eq_nil_iff, List.filter_eq_nil_iff, not_forall]
      exact ⟨line, hline, by simpa using hlower⟩
    rw [if_pos hname, header?, joined, if_neg hvalues, Option.getD_some]
  · have hvalues : values m.lines name = [] :=
      values_eq_nil fun line hline hlower => hname (List.mem_map.mpr ⟨line, hline, hlower⟩)
    rw [if_neg hname, header?, joined, if_pos hvalues]

theorem lowerName_keys (m : Message) : ∀ k ∈ m.headers.keys, lowerName k = k := by
  intro k hk
  obtain ⟨v, hv⟩ := Dict.mem_keys.mp hk
  have hsome := Dict.get?_eq_some.mpr hv
  rw [headers, Dict.get?_ofList_map (fun line : String × String => lowerName line.1)
    fun name => (m.header? name).getD ""] at hsome
  split at hsome
  · rename_i hmem
    obtain ⟨line, -, rfl⟩ := List.mem_map.mp hmem
    exact lowerName_lowerName line.1
  · cases hsome

end Message

/-! ### Clients -/

/-- What a client makes of a body, by the value of Content-Encoding: it reads it, or it
refuses it.  Without a coding the body is what it is. -/
structure Codec where
  decode : Option String → List UInt8 → Option (List UInt8)
  decode_none : ∀ body, decode none body = some body

/-- A response as a client hands it on: the body decoded, the headers as received. -/
structure Received where
  statusCode : Int
  headers : Dict String String
  content : List UInt8
deriving DecidableEq

def Codec.receive (C : Codec) (m : Message) : Option Received :=
  (C.decode m.encoding m.body).map fun content => ⟨m.statusCode, m.headers, content⟩

theorem Codec.receive_eq_some {C : Codec} {m : Message} {r : Received} :
    C.receive m = some r ↔
      C.decode m.encoding m.body = some r.content ∧ r.statusCode = m.statusCode ∧
        r.headers = m.headers := by
  obtain ⟨statusCode, headers, content⟩ := r
  simp only [receive, Option.map_eq_some_iff, Received.mk.injEq]
  constructor
  · rintro ⟨_, h, rfl, rfl, rfl⟩
    exact ⟨h, rfl, rfl⟩
  · rintro ⟨h, rfl, rfl⟩
    exact ⟨content, h, rfl, rfl, rfl⟩

namespace Codec

variable (C : Codec)

/-- A body under several codings, the last one applied last: it is undone first. -/
def decodeAll : List String → List UInt8 → Option (List UInt8)
  | [], body => some body
  | coding :: rest, body => (decodeAll rest body).bind (C.decode (some coding))

theorem decodeAll_append (codings : List String) (coding : String) (body : List UInt8) :
    C.decodeAll (codings ++ [coding]) body =
      (C.decode (some coding) body).bind (C.decodeAll codings) := by
  induction codings with
  | nil => simp [decodeAll]
  | cons first rest ih => rw [List.cons_append, decodeAll, ih, Option.bind_assoc]; rfl

@[simp] theorem decodeAll_toList (coding : Option String) (body : List UInt8) :
    C.decodeAll coding.toList body = C.decode coding body := by
  cases coding with
  | none => rw [C.decode_none]; rfl
  | some coding => rfl

/-- What a message means to who undoes all the codings that it names, line by line. -/
def read (m : Message) : Option (List UInt8) :=
  C.decodeAll (values m.lines "content-encoding") m.body

end Codec

/-! ### Hops -/

/-- What comes out of a hop describes its own body, and means what went in. -/
def Transparent (C : Codec) (m out : Message) : Prop :=
  out.length = some (toString out.body.length) ∧
    C.decode out.encoding out.body = C.decode m.encoding m.body

instance (C : Codec) (m out : Message) : Decidable (Transparent C m out) :=
  inferInstanceAs (Decidable (_ ∧ _))

/-- The body is decoded, and the name of the coding kept: then the meaning is kept where
the decoded body is its own decoding. -/
theorem transparent_of_kept {C : Codec} {m out : Message}
    (hbody : C.decode m.encoding m.body = some out.body) (hkept : out.encoding = m.encoding) :
    Transparent C m out ↔
      out.length = some (toString out.body.length) ∧
        C.decode m.encoding out.body = some out.body := by
  rw [Transparent, hkept, hbody]

end Http

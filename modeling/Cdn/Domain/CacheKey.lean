/-
The key a response is cached under.

A key is one string, `METHOD:path?query|vary=hash`, with the query and the vary part
left out where they are empty.  The digest of the vary values is a parameter: the
source takes the first eight hex digits of an MD5, and all the model keeps of it is
that it is a non-empty text of hex digits.
-/
import Cdn.Domain.Entities
import Cdn.Lib.Percent

namespace Cdn

/-! ### URL encoding -/

/-- The bytes `urllib.parse.quote` with `safe=''` leaves alone. -/
def unreserved (b : UInt8) : Bool :=
  let n := b.toNat
  (65 ≤ n && n ≤ 90) || (97 ≤ n && n ≤ 122) || (48 ≤ n && n ≤ 57) ||
    n == 95 || n == 46 || n == 45 || n == 126

theorem plain_unreserved : Percent.Plain unreserved := by
  intro b hb
  simp only [unreserved, Bool.or_eq_true, Bool.and_eq_true, decide_eq_true_eq,
    beq_iff_eq] at hb
  omega

/-- `quote(s, safe='')`. -/
def quote (s : String) : String := String.ofList (Percent.encode unreserved s.toUTF8.data.toList)

/-- `quote_plus(s)`: a blank becomes a plus. -/
def quotePlus (s : String) : String :=
  String.ofList ((Percent.encode (fun b => unreserved b || b == 32) s.toUTF8.data.toList).map
    fun c => if c = ' ' then '+' else c)

/-- `urlencode` of a sorted list of parameters. -/
def urlencode (params : List (String × String)) : String :=
  "&".intercalate (params.map fun kv => quotePlus kv.1 ++ "=" ++ quotePlus kv.2)

/-- `unquote`, the reading of a query value that has no plus in it. -/
def unquote (s : String) : Option String := String.fromUTF8? ⟨(Percent.decode s.toList).toArray⟩

/-- **A quoted text is read back whole.** -/
theorem unquote_quote (s : String) : unquote (quote s) = some s := by
  have hbytes : (⟨(Percent.decode (quote s).toList).toArray⟩ : ByteArray) = s.toUTF8 := by
    rw [quote, String.toList_ofList, Percent.decode_encode plain_unreserved]
  rw [unquote, hbytes, String.fromUTF8?, String.toUTF8_eq_toByteArray, dif_pos s.isValidUTF8]
  rfl

/-! ### The digest -/

def hexDigits : List Char := "0123456789abcdef".toList

/-- `hashlib.md5(text.encode()).hexdigest()[:8]`, as far as the keys depend on it. -/
structure Digest where
  hash : String → String
  nonempty : ∀ s, hash s ≠ ""
  hex : ∀ s, ∀ c ∈ (hash s).toList, c ∈ hexDigits

theorem Digest.pipe_not_mem (d : Digest) (s : String) : '|' ∉ (d.hash s).toList := by
  intro h
  exact absurd (d.hex s '|' h) (by decide)

/-! ### Keys -/

/-- A key, by its components. -/
@[ext]
structure CacheKey where
  method : String
  path : String
  query : String
  varyHash : String
deriving DecidableEq, Repr

namespace CacheKey

/-- The key as the store sees it. -/
def key (k : CacheKey) : String :=
  let base := if k.query ≠ "" then k.method ++ ":" ++ k.path ++ "?" ++ k.query
    else k.method ++ ":" ++ k.path
  if k.varyHash ≠ "" then base ++ "|vary=" ++ k.varyHash else base

/-- Items in the order `sorted` gives them; keys do not repeat, so they decide. -/
def sortedItems (d : Dict String String) : List (String × String) :=
  d.items.insertionSort fun a b => a.1 ≤ b.1

/-- The text the vary values are hashed as. -/
def varyText (varyHeaders : Dict String String) : String :=
  "&".intercalate ((sortedItems varyHeaders).map fun kv => kv.1 ++ "=" ++ kv.2)

/-- `CacheKey.from_request`.  An empty map and no map are the same.  `upper()` of the source
changes letters that are not ASCII as well, which `toUpper` leaves alone. -/
def fromRequest (digest : Digest) (method path : String)
    (queryParams : Option (Dict String String) := none)
    (varyHeaders : Option (Dict String String) := none) : CacheKey where
  method := method.toUpper
  path := path
  query := match queryParams with
    | some q => if q.items = [] then "" else urlencode (sortedItems q)
    | none => ""
  varyHash := match varyHeaders with
    | some v => if v.items = [] then "" else digest.hash (varyText v)
    | none => ""

end CacheKey

end Cdn

/-
Signed URLs.

A token is the keyed digest of a path and an expiry, written in base64 without padding.  The
digest is a parameter, HMAC-SHA256 in the source; who knows neither the key nor a collision
cannot make a token for another path or another expiry.
-/
import Cdn.Lib.Base64
import Cdn.Lib.Scan
import Cdn.Numerals

namespace Cdn

/-- `hmac.new(key, message, hashlib.sha256).digest()`. -/
abbrev Hmac := Bytes → Bytes → Bytes

variable (hmac : Hmac)

/-- What a token signs. -/
def signedMessage (path : String) (expiresAt : Int) : Except Exn Bytes :=
  (strInt expiresAt).map fun expires => utf8 (path ++ ":" ++ expires)

/-- `generate_token`. -/
def generateToken (path secretKey : String) (expiresAt : Int) : Except Exn String := do
  let message ← signedMessage path expiresAt
  let digest := hmac (utf8 secretKey) message
  return String.ofList (Base64.unpadded (Base64.encode digest))

def IsAscii (s : String) : Prop := ∀ c ∈ s.toList, c.toNat < 128

instance : DecidablePred IsAscii := fun _ => inferInstanceAs (Decidable (∀ c ∈ _, _))

/-- `hmac.compare_digest` on two texts. -/
def compareDigest (a b : String) : Except Exn Bool :=
  if IsAscii a ∧ IsAscii b then .ok (a = b) else .error .type

/-- `validate_token`, at a time. -/
def validateToken (now : Time) (path token : String) (expiresAt : Int) (secretKey : String) :
    Except Exn Bool := do
  if expiresAt < truncate now then return false
  let expected ← generateToken hmac path secretKey expiresAt
  compareDigest expected token

/-! ### What is signed -/

/-- **A message tells path and expiry apart**: the last colon is the one between them. -/
theorem signedMessage_inj {p q : String} {e f : Int} {message : Bytes}
    (hp : signedMessage p e = .ok message) (hq : signedMessage q f = .ok message) :
    p = q ∧ e = f := by
  obtain ⟨s, hs, rfl⟩ := map_ok hp
  obtain ⟨t, ht, heq⟩ := map_ok hq
  have hcolon : ∀ {i : Int} {u : String}, strInt i = .ok u → ':' ∉ u.toList := by
    intro i u hu hmem
    rcases mem_of_strInt hu ':' hmem with hc | hc
    · cases hc
    · cases hc
  have htext := congrArg String.toList (utf8_injective heq)
  rw [String.toList_append, String.toList_append, String.toList_append, String.toList_append,
    List.append_assoc, List.append_assoc] at htext
  obtain ⟨hpath, hexpires⟩ := Scan.append_sep_inj (hcolon ht) (hcolon hs) htext
  exact ⟨(String.toList_inj.mp hpath).symm, strInt_inj hs (String.toList_inj.mp hexpires ▸ ht)⟩

/-! ### Tokens -/

variable {hmac}

/-- A token is text that can be compared. -/
theorem isAscii_generateToken {path secretKey token : String} {expiresAt : Int}
    (h : generateToken hmac path secretKey expiresAt = .ok token) : IsAscii token := by
  obtain ⟨message, -, htoken⟩ := bind_ok h
  rw [← Except.ok.inj htoken]
  intro c hc
  rw [String.toList_ofList] at hc
  exact Base64.toNat_lt_of_mem_encode c ((List.rdropWhile_prefix _ _).subset hc)

/-- **A token tells its message**, if the digest does not collide. -/
theorem generateToken_inj {p q secretKey token : String} {e f : Int}
    (hcollide : Function.Injective (hmac (utf8 secretKey)))
    (hp : generateToken hmac p secretKey e = .ok token)
    (hq : generateToken hmac q secretKey f = .ok token) : p = q ∧ e = f := by
  obtain ⟨message, hmessage, htoken⟩ := bind_ok hp
  obtain ⟨message', hmessage', htoken'⟩ := bind_ok hq
  have heq := (Except.ok.inj htoken).trans (Except.ok.inj htoken').symm
  rw [String.ofList_inj] at heq
  obtain rfl := hcollide (Base64.unpadded_encode_injective heq)
  exact signedMessage_inj hmessage hmessage'

/-- There is a token for every expiry that can be written. -/
theorem exists_generateToken_iff {path secretKey : String} {expiresAt : Int} :
    (∃ token, generateToken hmac path secretKey expiresAt = .ok token) ↔
      expiresAt.natAbs < 10 ^ maxStrDigits := by
  have hmap : generateToken hmac path secretKey expiresAt =
      (signedMessage path expiresAt).map fun message => String.ofList
        (Base64.unpadded (Base64.encode (hmac (utf8 secretKey) message))) := by
    rw [generateToken]
    cases signedMessage path expiresAt <;> rfl
  rw [← exists_strInt_iff, hmap, exists_map_ok, signedMessage, exists_map_ok]

/-! ### Validation -/

section validation

variable {now : Time} {path token secretKey : String} {expiresAt : Int}

theorem validateToken_of_expired (h : expiresAt < truncate now) :
    validateToken hmac now path token expiresAt secretKey = .ok false := by
  rw [validateToken, if_pos h]
  rfl

theorem validateToken_of_current (h : ¬ expiresAt < truncate now) :
    validateToken hmac now path token expiresAt secretKey =
      generateToken hmac path secretKey expiresAt >>= fun expected =>
        compareDigest expected token := by
  rw [validateToken, if_neg h]

/-- **A token is valid** if it has not expired and is the one that is generated. -/
theorem validateToken_eq_true :
    validateToken hmac now path token expiresAt secretKey = .ok true ↔
      truncate now ≤ expiresAt ∧ generateToken hmac path secretKey expiresAt = .ok token := by
  by_cases hexpired : expiresAt < truncate now
  · rw [validateToken_of_expired hexpired]
    exact iff_of_false (by rintro ⟨⟩) fun h => absurd hexpired (not_lt.mpr h.1)
  · rw [validateToken_of_current hexpired, and_iff_right (not_lt.mp hexpired)]
    constructor
    · intro h
      obtain ⟨expected, hexpected, hcompare⟩ := bind_ok h
      unfold compareDigest at hcompare
      split at hcompare
      · rw [hexpected, of_decide_eq_true (Except.ok.inj hcompare)]
      · cases hcompare
    · intro h
      have hascii := isAscii_generateToken h
      rw [h, ok_bind, compareDigest, if_pos ⟨hascii, hascii⟩, decide_eq_true rfl]

/-- **A token is decided on** if it has expired, or if it can be compared and there is something
to compare it with. -/
theorem exists_validateToken_iff :
    (∃ valid, validateToken hmac now path token expiresAt secretKey = .ok valid) ↔
      expiresAt < truncate now ∨ IsAscii token ∧ expiresAt.natAbs < 10 ^ maxStrDigits := by
  by_cases hexpired : expiresAt < truncate now
  · exact iff_of_true ⟨false, validateToken_of_expired hexpired⟩ (Or.inl hexpired)
  · have hgenerate : (∃ token, generateToken hmac path secretKey expiresAt = .ok token) ↔ _ :=
      exists_generateToken_iff
    rw [validateToken_of_current hexpired, or_iff_right hexpired, ← hgenerate]
    cases hexpected : generateToken hmac path secretKey expiresAt with
    | error x => exact iff_of_false (by rintro ⟨valid, ⟨⟩⟩) (by rintro ⟨-, expected, ⟨⟩⟩)
    | ok expected =>
        rw [ok_bind]
        by_cases hascii : IsAscii token
        · rw [compareDigest, if_pos ⟨isAscii_generateToken hexpected, hascii⟩]
          exact iff_of_true ⟨_, rfl⟩ ⟨hascii, expected, rfl⟩
        · rw [compareDigest, if_neg fun h => hascii h.2]
          exact iff_of_false (by rintro ⟨valid, ⟨⟩⟩) fun h => hascii h.1

end validation

end Cdn

/-
What a signed URL is good for.

A token is good for one path and one expiry: whoever has it can open nothing else and for no
longer.  It takes a number that can be written, so an expiry of too many digits has no token at
all.  And a token that was never made need not be turned down: a text with a character outside
ASCII cannot be compared, so that the route raises instead of answering.
-/
import Cdn.Infrastructure.Auth
import Cdn.Presentation.ServeFile

namespace Cdn

/-! ### One token, one path, one expiry -/

/-- `validate_token` of what `generate_token` returns. -/
def validateGenerated (hmac : Hmac) (now : Time) (secretKey p q : String) (e f : Int) :
    Except Exn Bool := do
  let token ← generateToken hmac p secretKey e
  validateToken hmac now q token f secretKey

/-- **A token is valid for what it was made for**, until it expires, and for nothing else. -/
theorem validateGenerated_iff {hmac : Hmac} {secretKey : String}
    (hcollide : Function.Injective (hmac (utf8 secretKey))) (now : Time) (p q : String)
    (e f : Int) : validateGenerated hmac now secretKey p q e f = .ok true ↔
      (p = q ∧ e = f ∧ truncate now ≤ f) ∧ e.natAbs < 10 ^ maxStrDigits := by
  constructor
  · intro h
    obtain ⟨token, htoken, hvalid⟩ := bind_ok h
    obtain ⟨hnow, htoken'⟩ := validateToken_eq_true.mp hvalid
    obtain ⟨hpath, hexpires⟩ := generateToken_inj hcollide htoken htoken'
    exact ⟨⟨hpath, hexpires, hnow⟩, exists_generateToken_iff.mp ⟨token, htoken⟩⟩
  · rintro ⟨⟨rfl, rfl, hnow⟩, hdigits⟩
    obtain ⟨token, htoken⟩ : ∃ token, generateToken hmac p secretKey e = .ok token :=
      exists_generateToken_iff.mpr hdigits
    rw [validateGenerated, htoken, ok_bind]
    exact validateToken_eq_true.mpr ⟨hnow, htoken⟩

/-- HMAC-SHA256 of one message under one key, and of the others what tells them apart. -/
def sampleHmac : Hmac := fun _ message =>
  if message = utf8 "/files/image.png:1700000000" then
    [97, 39, 92, 194, 84, 167, 152, 52, 14, 108, 166, 74, 96, 178, 84, 45, 129, 81, 240, 22, 204,
      241, 190, 118, 145, 37, 232, 195, 206, 81, 247, 182]
  else 0 :: message

theorem sampleHmac_injective (key : Bytes) : Function.Injective (sampleHmac key) := by
  intro m m' h
  unfold sampleHmac at h
  split at h <;> split at h
  · rename_i hm hm'
    rw [hm, hm']
  · cases h
  · cases h
  · exact (List.cons.inj h).2

/-- A token for an image, under the key of the tests. -/
theorem validateGenerated_iff_image :
    validateGenerated sampleHmac 1600000000 "test-secret-key" "/files/image.png"
        "/files/image.png" 1700000000 1700000000 = .ok true ↔
      ("/files/image.png" = "/files/image.png" ∧ (1700000000 : Int) = 1700000000 ∧
        truncate 1600000000 ≤ 1700000000) ∧
        (1700000000 : Int).natAbs < 10 ^ maxStrDigits :=
  validateGenerated_iff (sampleHmac_injective _) 1600000000 _ _ _ _

/-- An expiry of one digit more than can be written. -/
theorem not_validateGenerated_long : ¬ ∀ (now : Time) (p q : String) (e f : Int),
    validateGenerated sampleHmac now "test-secret-key" p q e f = .ok true ↔
      p = q ∧ e = f ∧ truncate now ≤ f := by
  intro h
  have hnow : truncate 0 ≤ (10 ^ maxStrDigits : Int) := by
    simp [truncate]
  obtain ⟨token, htoken, -⟩ := bind_ok ((h 0 "" "" _ _).mpr ⟨rfl, rfl, hnow⟩)
  have hdigits := exists_generateToken_iff.mp ⟨token, htoken⟩
  generalize maxStrDigits = digits at hdigits
  rw [Int.natAbs_pow] at hdigits
  exact lt_irrefl _ hdigits

/-! ### Tokens that are turned down -/

/-- `validate_token` under a key, as the route calls it. -/
def signedBy (hmac : Hmac) (now : Time) (secretKey : String) :
    String → String → Int → Except Exn Bool :=
  fun path token expiresAt => validateToken hmac now path token expiresAt secretKey

/-- What the validation owes the route: it comes to a decision, and a request with a token that
is not valid, in whichever place, is answered with 403 and nothing else is done. -/
structure Decided (hmac : Hmac) (now : Time) (path token secretKey : String) (expiresAt : Int) :
    Prop where
  decided : ∃ valid, validateToken hmac now path token expiresAt secretKey = .ok valid
  forbidden : ∀ (S : EdgeRoutes.Setup) (request : EdgeRoutes.Request),
    S.validateToken = some (signedBy hmac now secretKey) →
    request.providedToken = some token → "/files/" ++ request.path = path →
    request.expires.getD 0 = expiresAt →
    validateToken hmac now path token expiresAt secretKey ≠ .ok true →
    ∀ (C : Setup Bytes) (edge : Edge Bytes) (requestHeaders : Headers),
      EdgeRoutes.enter S C edge request requestHeaders = .answered EdgeRoutes.forbidden

/-- **Every token is decided on** exactly if the expiry has passed, or the token is ASCII and the
expiry can be written. -/
theorem decided_iff (hmac : Hmac) (now : Time) (path token secretKey : String)
    (expiresAt : Int) : Decided hmac now path token secretKey expiresAt ↔
      expiresAt < truncate now ∨ IsAscii token ∧ expiresAt.natAbs < 10 ^ maxStrDigits := by
  have hvalidate : (∃ valid, validateToken hmac now path token expiresAt secretKey = .ok valid) ↔
      _ := exists_validateToken_iff
  rw [← hvalidate]
  constructor
  · exact Decided.decided
  · rintro ⟨valid, hvalid⟩
    refine ⟨⟨valid, hvalid⟩, fun S request hauth hprovided hpath hexpires hinvalid => ?_⟩
    intro C edge requestHeaders
    cases valid with
    | true => exact absurd hvalid hinvalid
    | false =>
        have hunauthorized : EdgeRoutes.authorized S request = .ok false := by
          rw [EdgeRoutes.authorized, hprovided, hauth]
          dsimp only
          rw [hpath, hexpires]
          exact hvalid
        rw [EdgeRoutes.enter, hunauthorized]

/-- A token of one letter that is not ASCII, for an expiry to come. -/
theorem not_decided_accent : ¬ ∀ (now : Time) (path token secretKey : String) (expiresAt : Int),
    Decided sampleHmac now path token secretKey expiresAt := by
  intro h
  have hexpired : ¬ (1 : Int) < truncate 0 := by simp [truncate]
  have haccent : ¬ IsAscii "é" := fun hascii => absurd (hascii 'é' (by simp)) (by decide)
  have hdecided : Decided sampleHmac 0 "/files/image.png" "é" "test-secret-key" 1 := h _ _ _ _ _
  rcases exists_validateToken_iff.mp hdecided.decided with hpast | hascii
  · exact hexpired hpast
  · exact haccent hascii.1

end Cdn

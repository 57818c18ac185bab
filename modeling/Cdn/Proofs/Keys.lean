/-
When two requests share a key.

A key is the text `GET:`, the path, and, for a request with Accept-Encoding, a vary
part: `|vary=` and the digest of the value.  The path is the client's own and may
itself end in a text that looks like a vary part.  That is the only way two different
paths come under one key: a digest has no `|` in it, so the last `|` of a key tells
where its path ends, if it is known whether there is a vary part at all.
-/
import Cdn.Application.CacheService
import Cdn.Lib.Scan

namespace Cdn

variable {β : Type} (S : Setup β)

/-! ### The shape of a key -/

/-- What a request adds to its path. -/
def varyPart (requestHeaders : Option Headers) : String :=
  match extractVaryHeaders requestHeaders with
  | some v => "|vary=" ++ S.digest.hash (CacheKey.varyText v)
  | none => ""

theorem extractVaryHeaders_items {requestHeaders : Option Headers} {v : Headers}
    (h : extractVaryHeaders requestHeaders = some v) : v.items ≠ [] := by
  unfold extractVaryHeaders at h
  split at h
  · cases h
  · split at h
    · cases h
    · split at h
      · cases h
        simp [Dict.ofList, Dict.set, Dict.append, Dict.keys, EmptyCollection.emptyCollection,
          Dict.empty]
      · cases h

theorem keyOf_eq (path : String) (requestHeaders : Option Headers) :
    keyOf S path requestHeaders = "GET:" ++ path ++ varyPart S requestHeaders := by
  have hget : "GET".toUpper ++ ":" = "GET:" := by decide +kernel
  unfold keyOf varyPart CacheKey.fromRequest CacheKey.key
  cases h : extractVaryHeaders requestHeaders with
  | none => simp [hget]
  | some v =>
      simp [hget, extractVaryHeaders_items h, S.digest.nonempty, String.append_assoc]

/-! ### Where the path of a key ends -/

/-- A vary part is empty, or a `|` and then none. -/
theorem varyPart_cases (requestHeaders : Option Headers) :
    varyPart S requestHeaders = "" ∨
      ∃ l, '|' ∉ l ∧ (varyPart S requestHeaders).toList = '|' :: l := by
  unfold varyPart
  split
  · rename_i v hv
    refine Or.inr ⟨"vary=".toList ++ (S.digest.hash (CacheKey.varyText v)).toList, ?_, ?_⟩
    · have hvary : '|' ∉ "vary=".toList := by decide
      simp only [List.mem_append, not_or]
      exact ⟨hvary, S.digest.pipe_not_mem _⟩
    · rw [String.toList_append]
      rfl
  · exact Or.inl rfl

theorem varyPart_ne_empty {requestHeaders : Option Headers} {l : List Char}
    (h : (varyPart S requestHeaders).toList = '|' :: l) : varyPart S requestHeaders ≠ "" := by
  intro hc
  rw [hc] at h
  cases h

/-- A request without Accept-Encoding whose path spells out the key of another request. -/
def Forges (p : String) (h : Option Headers) (q : String) (g : Option Headers) : Prop :=
  varyPart S h = "" ∧ varyPart S g ≠ "" ∧ p = q ++ varyPart S g

instance (p : String) (h : Option Headers) (q : String) (g : Option Headers) :
    Decidable (Forges S p h q g) := inferInstanceAs (Decidable (_ ∧ _ ∧ _))

/-- **Two paths share a key exactly if one of them is forged.** -/
theorem keyOf_eq_iff {p q : String} (h g : Option Headers) (hpq : p ≠ q) :
    keyOf S p h = keyOf S q g ↔ Forges S p h q g ∨ Forges S q g p h := by
  have hkey : keyOf S p h = keyOf S q g ↔ p ++ varyPart S h = q ++ varyPart S g := by
    rw [keyOf_eq, keyOf_eq, String.append_assoc, String.append_assoc, String.append_right_inj]
  rw [hkey]
  constructor
  · intro heq
    rcases varyPart_cases S h with hh | ⟨a, ha, hh⟩ <;>
      rcases varyPart_cases S g with hg | ⟨b, hb, hg⟩
    · rw [hh, hg, String.append_empty, String.append_empty] at heq
      exact absurd heq hpq
    · rw [hh, String.append_empty] at heq
      exact Or.inl ⟨hh, varyPart_ne_empty S hg, heq⟩
    · rw [hg, String.append_empty] at heq
      exact Or.inr ⟨hg, varyPart_ne_empty S hh, heq.symm⟩
    · -- both have a vary part: the last `|` ends the path
      have hlist := congrArg String.toList heq
      rw [String.toList_append, String.toList_append, hh, hg] at hlist
      exact absurd (String.toList_inj.mp (Scan.append_sep_inj ha hb hlist).1) hpq
  · rintro (⟨hh, -, rfl⟩ | ⟨hg, -, rfl⟩)
    · rw [hh, String.append_empty]
    · rw [hg, String.append_empty]

/-! ### The variants of a path -/

/-- A key some variant of a path is stored under. -/
def VariantKey (p k : String) : Prop :=
  ∃ varyHeaders, k = (CacheKey.fromRequest S.digest "GET" p none varyHeaders).key

theorem variantKey_keyOf (path : String) (requestHeaders : Option Headers) :
    VariantKey S path (keyOf S path requestHeaders) := ⟨_, rfl⟩

/-- A response is filed under a variant key of the path that was asked for. -/
theorem variantKey_fileKey {call : Call β} (hkey : VariantKey S call.path call.key)
    (fields : Option (List String)) : VariantKey S call.path (fileKey S call fields) := by
  unfold fileKey
  split
  · split
    · exact hkey
    · exact ⟨_, rfl⟩
  · exact hkey

/-- Every key starts with its method. -/
theorem VariantKey.head {p k : String} (h : VariantKey S p k) : k.toList.head? = some 'G' := by
  obtain ⟨varyHeaders, rfl⟩ := h
  have hget : "GET".toUpper = "GET" := by decide +kernel
  simp only [CacheKey.fromRequest, CacheKey.key, hget]
  split <;> split_ifs <;> simp [String.toList_append]

/-! ### A digest that never collides

The digest of the source has eight hex digits, so it collides somewhere; what is said
about the service under the assumption that it does not is not said of nothing.
-/

/-- A text in unary: each character a row of ones that a zero ends. -/
def unary (s : List Char) : List Char := s.flatMap fun c => List.replicate c.toNat '1' ++ ['0']

theorem replicate_append_inj {m n : Nat} {l l' : List Char}
    (h : List.replicate m '1' ++ '0' :: l = List.replicate n '1' ++ '0' :: l') :
    m = n ∧ l = l' := by
  induction m generalizing n with
  | zero =>
      cases n with
      | zero => simpa using h
      | succ n => simp [List.replicate_succ] at h
  | succ m ih =>
      cases n with
      | zero => simp [List.replicate_succ] at h
      | succ n =>
          simp only [List.replicate_succ, List.cons_append, List.cons.injEq, true_and] at h
          obtain ⟨hm, hl⟩ := ih h
          exact ⟨by rw [hm], hl⟩

theorem unary_injective : Function.Injective unary := by
  intro s
  induction s with
  | nil =>
      intro s' h
      cases s' with
      | nil => rfl
      | cons c s' => simp [unary] at h
  | cons c s ih =>
      intro s' h
      cases s' with
      | nil => simp [unary] at h
      | cons c' s' =>
          simp only [unary, List.flatMap_cons, List.append_assoc, List.singleton_append] at h
          obtain ⟨hc, hs⟩ := replicate_append_inj h
          rw [Char.toNat_inj.mp hc, ih hs]

/-- A digest without collisions that agrees with MD5 on one text. -/
def sampleHash (s : String) : String :=
  if s = "accept-encoding=gzip" then "0f91ee17" else String.ofList ('1' :: unary s.toList)

theorem md5_ne_unary (l : List Char) : "0f91ee17" ≠ String.ofList ('1' :: l) := by
  intro h
  have hlist := congrArg String.toList h
  simp at hlist

theorem sampleHash_injective : Function.Injective sampleHash := by
  intro s s' h
  unfold sampleHash at h
  split at h <;> split at h
  · rename_i hs hs'
    rw [hs, hs']
  · exact absurd h (md5_ne_unary _)
  · exact absurd h.symm (md5_ne_unary _)
  · have hlist := congrArg String.toList h
    rw [String.toList_ofList, String.toList_ofList, List.cons.injEq] at hlist
    exact String.toList_inj.mp (unary_injective hlist.2)

def sampleDigest : Digest where
  hash := sampleHash
  nonempty := by
    intro s h
    unfold sampleHash at h
    split at h
    · exact absurd h (by decide)
    · have hlist := congrArg String.toList h
      rw [String.toList_ofList] at hlist
      cases hlist
  hex := by
    intro s c hc
    unfold sampleHash at hc
    split at hc
    · have hall : "0f91ee17".toList.all (hexDigits.contains ·) = true := by decide
      simpa using List.all_eq_true.mp hall c hc
    · have h0 : '0' ∈ hexDigits := by decide
      have h1 : '1' ∈ hexDigits := by decide
      rw [String.toList_ofList, List.mem_cons] at hc
      rcases hc with rfl | hc
      · exact h1
      · obtain ⟨d, -, hd⟩ := List.mem_flatMap.mp hc
        rcases List.mem_append.mp hd with hd | hd
        · exact (List.mem_replicate.mp hd).2 ▸ h1
        · exact List.mem_singleton.mp hd ▸ h0

/-- The setup of the runs below: a body is a number, of size one. -/
def sampleSetup : Setup Nat where
  defaultTtl := 60
  digest := sampleDigest
  size := fun _ => 1
  unavailable := 503

/-- The headers of a client that takes gzip. -/
def gzip : Option Headers := some (Dict.ofList [("accept-encoding", "gzip")])

end Cdn

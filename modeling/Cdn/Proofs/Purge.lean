/-
What a purge by URL does to an edge.

The management API hands a URL down as it is, and the edge takes it for a key.  But an
entry is filed under the key its path and its vary values make, and such a key starts
with the method of the request where a URL starts with a slash.  So a purge by URL is
acknowledged by every edge that is up, and takes nothing out of any of them.
-/
import Cdn.Application.PurgeService
import Cdn.Proofs.Flight
import Cdn.Proofs.Placed

namespace Cdn

variable {β : Type} {S : Setup β}

/-! ### The rounds of the loop -/

/-- The edge reads what the service was given. -/
theorem query_quote (edgeUrl param text name : String) :
    (PurgeRequest.mk edgeUrl param (quote text)).query name =
      if param = name then some text else none := by
  rw [PurgeRequest.query, unquote_quote]

/-- What a purge request for a text covers. -/
def purgeCovers (param text k : String) : Bool :=
  covers (if param = "url" then some text else none)
    (if param = "prefix" then some text else none) k

/-- **An edge acknowledges a purge exactly if it is listed and up.** -/
theorem purgeEdges_results (up : String → Bool) (param : String) (edgeUrls : List String)
    (text : String) (net : Network β) (edgeUrl : String) :
    (purgeEdges (Network.delete up) param edgeUrls text net).1.get? edgeUrl =
      if edgeUrl ∈ edgeUrls then some (up edgeUrl) else none := by
  have hround : ∀ (l : List String) (sofar : Dict String Bool × Network β),
      (l.foldl (purgeEdge (Network.delete up) param text) sofar).1.get? edgeUrl =
        if edgeUrl ∈ l then some (up edgeUrl) else sofar.1.get? edgeUrl := by
    intro l
    induction l with
    | nil => intro sofar; simp
    | cons e rest ih =>
        intro sofar
        have hone : (purgeEdge (Network.delete up) param text sofar e).1 =
            sofar.1.set e (up e) := by
          unfold purgeEdge Network.delete
          by_cases hup : up e = true <;> simp [hup, purgeStatus]
        rw [List.foldl_cons, ih, hone, Dict.get?_set]
        by_cases he : edgeUrl = e <;> simp [he]
  rw [purgeEdges, hround]
  rfl

/-- **What a purge leaves in an edge:** all of it, but for what the request covers if the
edge is listed and up. -/
theorem purgeEdges_entry (up : String → Bool) (param : String) (edgeUrls : List String)
    (text : String) (net : Network β) (edgeUrl k : String) :
    ((purgeEdges (Network.delete up) param edgeUrls text net).2 edgeUrl).entry k =
      if (edgeUrl ∈ edgeUrls ∧ up edgeUrl = true) ∧ purgeCovers param text k = true then none
      else (net edgeUrl).entry k := by
  have hround : ∀ (l : List String) (sofar : Dict String Bool × Network β),
      ((l.foldl (purgeEdge (Network.delete up) param text) sofar).2 edgeUrl).entry k =
        if (edgeUrl ∈ l ∧ up edgeUrl = true) ∧ purgeCovers param text k = true then none
        else (sofar.2 edgeUrl).entry k := by
    intro l
    induction l with
    | nil => intro sofar; simp
    | cons e rest ih =>
        intro sofar
        have hone : ((purgeEdge (Network.delete up) param text sofar e).2 edgeUrl).entry k =
            if (edgeUrl = e ∧ up edgeUrl = true) ∧ purgeCovers param text k = true then none
            else (sofar.2 edgeUrl).entry k := by
          unfold purgeEdge Network.delete
          by_cases he : edgeUrl = e
          · subst he
            by_cases hup : up edgeUrl = true
            · simp [hup, query_quote, Edge.entry_purge, purgeCovers]
            · simp [hup]
          · by_cases hup : up e = true <;> simp [he, hup, Function.update_of_ne]
        rw [List.foldl_cons, ih, hone]
        by_cases hcond : up edgeUrl = true ∧ purgeCovers param text k = true
        · rcases eq_or_ne edgeUrl e with rfl | he
          · simp [hcond]
          · simp [hcond, he]
        · simp only [and_assoc, hcond, and_false, if_false]
  rw [purgeEdges, hround]

/-- **A purge by prefix takes out of an edge that is up the keys that start with it.** -/
theorem purgePrefix_entry (up : String → Bool) (edgeUrls : List String) {text : String}
    (htext : text ≠ "") (net : Network β) (edgeUrl k : String) :
    ((purgePrefix (Network.delete up) edgeUrls text net).2 edgeUrl).entry k =
      if (edgeUrl ∈ edgeUrls ∧ up edgeUrl = true) ∧ text.toList <+: k.toList then none
      else (net edgeUrl).entry k := by
  rw [purgePrefix, purgeEdges_entry]
  simp [purgeCovers, covers, given_some htext]

/-! ### What is in the store -/

namespace Edge

/-- Every entry is under a variant key of some path. -/
structure Filed (S : Setup β) (s : Edge β) : Prop where
  keyed : Keyed S s
  stored : ∀ k e, s.entry k = some e → ∃ p, VariantKey S p k

theorem filed_step {s s' : Edge β} {a : Action β} (filed : Filed S s)
    (hstep : s.step S a = some s') : Filed S s' := by
  refine ⟨keyed_step filed.keyed hstep, fun k e he => ?_⟩
  obtain ⟨m, hmove, rfl⟩ := move_of_step hstep
  replace he : m.entry k = some e := he
  cases hmove.entryMove k with
  | kept h => exact filed.stored k e (h ▸ he)
  | lost h => rw [h] at he; cases he
  | filed e' hfiles h =>
      obtain ⟨t, call, role, r, response, -, ht, hsettle⟩ := hfiles
      rw [(settled_of_settle hsettle).carried.1]
      exact ⟨call.path, variantKey_target (filed.keyed.variantKey (mem_calls ht)) r⟩

theorem filed_of_run {maxSizeBytes : Int} {breaker : CircuitBreaker} {wall mono : Time}
    {p : List (Action β)} {s : Edge β}
    (hrun : Lts.run (step S) (start { maxSizeBytes } breaker wall mono) p = some s) :
    Filed S s :=
  Lts.run_invariant (I := Filed S) (fun _ _ _ filed hstep => filed_step filed hstep) p
    ⟨keyed_start _ _ _ _, fun _ _ he => by cases he⟩ hrun

/-! ### A purge by URL -/

/-- The entries of a path are gone under every variant key, those of other paths are as
they were, and the next call for the path finds nothing. -/
structure Invalidated (S : Setup β) (p : String) (before after : Edge β) : Prop where
  gone : ∀ k, VariantKey S p k → after.entry k = none
  others : ∀ k, ¬ VariantKey S p k → after.entry k = before.entry k
  missed : ∀ requestHeaders, (after.arrival S p requestHeaders).cached = none

/-- The URL a client asks an edge for a path under. -/
def fileUrl (p : String) : String := "/files/" ++ p

theorem fileUrl_ne_key (p : String) {q k : String} (h : VariantKey S q k) : fileUrl p ≠ k := by
  intro hk
  have hhead := h.head
  rw [← hk, fileUrl, String.toList_append] at hhead
  exact absurd hhead (by simp)

/-- A purge by URL leaves the edge's map as it was. -/
theorem purgeUrl_entry (up : String → Bool) (edgeUrls : List String) (p : String)
    (net : Network β) {edgeUrl : String} (filed : Filed S (net edgeUrl)) (k : String) :
    ((purgeUrl (Network.delete up) edgeUrls (fileUrl p) net).2 edgeUrl).entry k =
      (net edgeUrl).entry k := by
  rw [purgeUrl, purgeEdges_entry]
  split
  · rename_i h
    have hurl : fileUrl p ≠ "" := by
      intro hc
      have hlist := congrArg String.toList hc
      rw [fileUrl, String.toList_append] at hlist
      cases hlist
    have hk : k = fileUrl p := by simpa [purgeCovers, covers, given_some hurl] using h.2
    cases he : (net edgeUrl).entry k with
    | none => rfl
    | some e =>
        obtain ⟨q, hq⟩ := filed.stored k e he
        exact absurd hk.symm (fileUrl_ne_key p hq)
  · rfl

/-- **An edge that is listed and up acknowledges a purge by URL, and the purge invalidates
the path exactly if there was nothing to invalidate:** nothing stored under any variant
key of it. -/
theorem invalidated_iff_nothingStored (up : String → Bool) (edgeUrls : List String)
    (edgeUrl p : String) (net : Network β) (maxSizeBytes : Int) (breaker : CircuitBreaker)
    (wall mono : Time) (acts : List (Action β))
    (hrun : Lts.run (step S) (start { maxSizeBytes } breaker wall mono) acts =
      some (net edgeUrl)) :
    ((purgeUrl (Network.delete up) edgeUrls (fileUrl p) net).1.get? edgeUrl = some true ↔
        edgeUrl ∈ edgeUrls ∧ up edgeUrl = true) ∧
      (Invalidated S p (net edgeUrl)
          ((purgeUrl (Network.delete up) edgeUrls (fileUrl p) net).2 edgeUrl) ↔
        ∀ k, VariantKey S p k → (net edgeUrl).entry k = none) := by
  have hentry := purgeUrl_entry up edgeUrls p net (filed_of_run hrun)
  constructor
  · rw [purgeUrl, purgeEdges_results]
    split <;> simp [*]
  constructor
  · intro h k hk
    rw [← hentry k]
    exact h.gone k hk
  · intro h
    refine ⟨fun k hk => by rw [hentry k, h k hk], fun k _ => hentry k, fun rh => ?_⟩
    have hnone := arrival_entry (S := S)
      ((purgeUrl (Network.delete up) edgeUrls (fileUrl p) net).2 edgeUrl) p rh
    rw [hentry, h _ (variantKey_keyOf S p rh)] at hnone
    exact Option.map_eq_none_iff.mp hnone

/-! ### An edge that holds a file -/

/-- Two clients fetch the file `a`, with gzip and without. -/
def storedFile : List (Action Nat) :=
  [.arrive "a" gzip, .answer 0 (.answered { content := 1, statusCode := 200 }), .resume 0,
    .arrive "a" none, .answer 1 (.answered { content := 1, statusCode := 200 }), .resume 1]

/-- The purge of `a` is acknowledged by that edge, and there was something to invalidate. -/
theorem notInvalidated_twoVariants : ∃ net : Network Nat,
    Lts.run (step sampleSetup) sampleStart storedFile = some (net "http://edge-eu:8080") ∧
      (purgeUrl (Network.delete fun _ => true) ["http://edge-eu:8080"] (fileUrl "a") net).1.get?
        "http://edge-eu:8080" = some true ∧
      ¬ Invalidated sampleSetup "a" (net "http://edge-eu:8080")
        ((purgeUrl (Network.delete fun _ => true) ["http://edge-eu:8080"] (fileUrl "a") net).2
          "http://edge-eu:8080") := by
  have hrun : (Lts.run (step sampleSetup) sampleStart storedFile).isSome = true := by
    decide +kernel
  have hstored : ((Lts.last (step sampleSetup) sampleStart storedFile).entry
      (keyOf sampleSetup "a" gzip)).isSome = true := by decide +kernel
  obtain ⟨hack, hiff⟩ := invalidated_iff_nothingStored (S := sampleSetup) (fun _ => true)
    ["http://edge-eu:8080"] "http://edge-eu:8080" "a"
    (fun _ => Lts.last (step sampleSetup) sampleStart storedFile) _ _ _ _ storedFile
    (Lts.run_last hrun)
  refine ⟨_, Lts.run_last hrun, hack.mpr ⟨List.mem_singleton_self _, rfl⟩, fun h => ?_⟩
  rw [hiff.mp h _ (variantKey_keyOf sampleSetup "a" gzip)] at hstored
  cases hstored

/-- The purge of `a` is acknowledged, and the next client is served what was there. -/
theorem notInvalidated_storedFile : ¬ ∀ (acts : List (Action Nat)) (net : Network Nat)
    (edgeUrls : List String) (edgeUrl p : String),
    Lts.run (step sampleSetup) sampleStart acts = some (net edgeUrl) →
    (purgeUrl (Network.delete fun _ => true) edgeUrls (fileUrl p) net).1.get? edgeUrl =
      some true →
    Invalidated sampleSetup p (net edgeUrl)
      ((purgeUrl (Network.delete fun _ => true) edgeUrls (fileUrl p) net).2 edgeUrl) := by
  intro h
  have heval : (Lts.run (step sampleSetup) sampleStart storedFile).map (fun s =>
      let after := purgeUrl (Network.delete fun _ => true) ["http://edge-eu:8080"] (fileUrl "a")
        fun _ => s
      (after.1.get? "http://edge-eu:8080",
        ((after.2 "http://edge-eu:8080").arrival sampleSetup "a" gzip).cached.isSome)) =
      some (some true, true) := by decide +kernel
  obtain ⟨s, hrun, hboth⟩ := Option.map_eq_some_iff.mp heval
  obtain ⟨hack, hcached⟩ := Prod.mk.inj hboth
  have hmissed := (h storedFile (fun _ => s) _ _ "a" hrun hack).missed gzip
  rw [hmissed] at hcached
  cases hcached

end Edge

end Cdn

/-
Who is served whose variant.

A response with Vary is good for requests that agree with its own on the fields it names.
The store keeps one for each key, and a key says of a request its path and its
Accept-Encoding, or what the fields of a 200 come to; a 304 leaves the entry where it is,
whatever its Vary names.  So a hit is right where the entry was last written for the same
path, because of a response that names nothing but Accept-Encoding.
-/
import Cdn.Ledger
import Cdn.Proofs.Reuse

namespace Cdn

variable {β : Type} {S : Setup β}

/-! ### What a key says of a request -/

theorem fieldValue_acceptEncoding (requestHeaders : Option Headers) :
    fieldValue requestHeaders "accept-encoding" = (acceptEncoding? requestHeaders).getD "" := by
  cases requestHeaders <;> rfl

/-- A response that names nothing but Accept-Encoding goes where only requests with the same
value are looked up. -/
theorem acceptEncoding_of_filedPart (hinj : Function.Injective S.digest.hash)
    {h g : Option Headers} {fields : Option (List String)}
    (hfields : ∀ f ∈ fields.getD [], f = "accept-encoding")
    (heq : filedPart S h fields = varyPart S g) :
    fieldValue h "accept-encoding" = fieldValue g "accept-encoding" := by
  have hlookup : varyPart S h = varyPart S g →
      fieldValue h "accept-encoding" = fieldValue g "accept-encoding" := by
    intro heq
    rw [fieldValue_acceptEncoding, fieldValue_acceptEncoding, (varyPart_eq_iff hinj).mp heq]
  unfold filedPart at heq
  split at heq
  · rename_i f fs headers
    split at heq
    · exact hlookup heq
    · obtain ⟨v, hv, htext⟩ := (varyPart_eq_hash_iff hinj).mp heq.symm
      rw [varyValues_acceptEncoding headers hfields, varyText_acceptEncoding,
        String.append_right_inj] at htext
      rw [fieldValue_acceptEncoding g, hv, htext]
      rfl
  · exact hlookup heq

namespace Edge

/-- The breaker refuses, and says until when. -/
def refused : Except Exn CircuitBreaker → Bool
  | .error (.circuitOpen _) => true
  | _ => false

/-- A call that arrives now is served what it finds: that may be served by its age, or the
circuit is open, or the call would lead and the breaker refuses. -/
def Serves (S : Setup β) (s : Edge β) (path : String) (requestHeaders : Option Headers) : Prop :=
  ∃ e ∈ (s.arrival S path requestHeaders).cached,
    e.isExpired s.wall = false ∨ e.isStaleServable s.wall = true ∨
      s.circuitBreaker.stateAt s.mono = .open ∨
      s.inflight.get? (keyOf S path requestHeaders) = none ∧
        refused (s.circuitBreaker.aenter s.mono) = true

instance (s : Edge β) (path : String) (rh : Option Headers) : Decidable (Serves S s path rh) :=
  inferInstanceAs (Decidable (∃ e ∈ (s.arrival S path rh).cached, _))

/-- A hit is served what it finds. -/
theorem serves_of_hit {s s' : Edge β} {path : String} {rh : Option Headers} {call : Call β}
    {reply : Reply β} (hstep : s.step S (.arrive path rh) = some s')
    (ht : s'.tasks[s.tasks.length]? = some ⟨call, .returned reply⟩)
    (hhit : (reply.response S).cacheHit = true) : Serves S s path rh := by
  obtain ⟨m, hmove, rfl⟩ := move_of_step hstep
  have hfound : ∀ {reply : Reply β}, (reply.response S).cacheHit = true →
      (reply = .ofOpen (s.arrival S path rh).cached ∨
        reply = .ofRejected (s.arrival S path rh).cached) →
      ∃ e, (s.arrival S path rh).cached = some e := by
    intro reply hhit hreply
    cases hcached : (s.arrival S path rh).cached with
    | some e => exact ⟨e, rfl⟩
    | none =>
        rw [hcached] at hreply
        rcases hreply with rfl | rfl <;> cases hhit
  cases hmove with
  | fresh hcached hfresh => exact ⟨_, hcached, Or.inl hfresh⟩
  | stale hcached hservable | scheduled hcached hservable =>
      exact ⟨_, hcached, Or.inr (Or.inl hservable)⟩
  | turnedAway hmiss hopen =>
      obtain ⟨-, hreply⟩ : s.arrival S path rh = call ∧
          Reply.ofOpen (s.arrival S path rh).cached = reply := by simpa using ht
      obtain ⟨e, hcached⟩ := hfound hhit (Or.inl hreply.symm)
      exact ⟨e, hcached, Or.inr (Or.inr (Or.inl hopen))⟩
  | joined hmiss hopen hlisted => simp at ht
  | led hmiss hopen hfree hallow =>
      rw [stamp_tasks, led_tasks] at ht
      simp at ht
  | @refused _ _ x hmiss hopen hfree hrefuse =>
      rw [stamp_tasks, refused_tasks] at ht
      cases x with
      | circuitOpen y =>
          obtain ⟨-, hreply⟩ : s.arrival S path rh = call ∧
              Reply.ofRejected (s.arrival S path rh).cached = reply := by
            simpa [endPhase] using ht
          obtain ⟨e, hcached⟩ := hfound hhit (Or.inr hreply.symm)
          exact ⟨e, hcached, Or.inr (Or.inr (Or.inr ⟨hfree, by rw [hrefuse]; rfl⟩))⟩
      | _ => simp [endPhase] at ht

end Edge

namespace Ledger

/-! ### What the ledger knows -/

theorem written_eq_some {s : Edge β} {a : Action β} {k : String} {w : Writer β} :
    written S s a = some (k, w) ↔ ∃ t role e response, a = .resume t ∧
      s.tasks[t]? = some ⟨w.call, .fetching role (some (.answered w.response))⟩ ∧
      settle S w.call w.response s.wall = .ok (some (k, e), response) := by
  constructor
  · intro h
    unfold written at h
    split at h
    · rename_i t
      split at h
      · rename_i call role r ht
        split at h
        · rename_i key e response hsettle
          cases h
          exact ⟨t, role, e, response, rfl, ht, hsettle⟩
        · cases h
      · cases h
    · cases h
  · rintro ⟨t, role, e, response, rfl, ht, hsettle⟩
    simp [written, ht, hsettle]

/-- The writer of a key is a call that was made, and its response goes there; and whatever
is in the store has a writer. -/
structure Written (S : Setup β) (l : Ledger β) : Prop where
  keyed : Edge.Keyed S l.edge
  target : ∀ k w, l.writers.get? k = some w → w.call ∈ l.edge.calls ∧ k = w.call.target S w.response
  entries : ∀ k e, l.edge.entry k = some e → ∃ w, l.writers.get? k = some w

theorem written_start (maxSizeBytes : Int) (breaker : CircuitBreaker) (wall mono : Time) :
    Written S (start maxSizeBytes breaker wall mono) where
  keyed := Edge.keyed_start _ breaker wall mono
  target := fun k w h => by cases h
  entries := fun k e h => by cases h

theorem get?_note (l : Ledger β) (a : Action β) (k : String) :
    (l.note S a).get? k = l.writers.get? k ∨
      ∃ w, written S l.edge a = some (k, w) ∧ (l.note S a).get? k = some w := by
  unfold note
  split
  · rename_i key w hwritten
    by_cases hk : k = key
    · subst hk
      exact Or.inr ⟨w, hwritten, by simp⟩
    · exact Or.inl (by simp [hk])
  · exact Or.inl rfl

theorem written_step {l l' : Ledger β} {a : Action β} (h : Written S l)
    (hstep : l.step S a = some l') : Written S l' := by
  obtain ⟨hedge, hwriters⟩ := step_eq_some hstep
  have hext := Edge.extends_step hedge
  refine ⟨Edge.keyed_step h.keyed hedge, fun k w hw => ?_, fun k e he => ?_⟩
  · rw [hwriters] at hw
    rcases get?_note l a k with hkept | ⟨w', hwritten, hnew⟩
    · obtain ⟨hcall, htarget⟩ := h.target k w (hkept.symm.trans hw)
      exact ⟨hext.mem hcall, htarget⟩
    · obtain rfl := Option.some.inj (hnew.symm.trans hw)
      obtain ⟨t, role, e, response, -, ht, hsettle⟩ := written_eq_some.mp hwritten
      exact ⟨hext.mem (Edge.mem_calls ht), (settled_of_settle hsettle).carried.1⟩
  · rw [hwriters]
    rcases get?_note l a k with hkept | ⟨w', -, hnew⟩
    · obtain ⟨m, hmove, hm⟩ := Edge.move_of_step hedge
      rw [hm] at he
      replace he : m.entry k = some e := he
      rw [hkept]
      cases hmove.entryMove k with
      | kept hentry => exact h.entries k e (hentry ▸ he)
      | lost hentry => rw [hentry] at he; cases he
      | filed e' hfiles hentry =>
          obtain ⟨t, call, role, r, response, ha, ht, hsettle⟩ := hfiles
          have hwritten : written S l.edge a = some (k, ⟨call, r⟩) :=
            written_eq_some.mpr ⟨t, role, e', response, ha, ht, hsettle⟩
          rw [← hkept, note, hwritten]
          exact ⟨⟨call, r⟩, by simp⟩
    · exact ⟨w', hnew⟩

/-! ### Hits -/

/-- A call that is answered with a hit agrees with the request because of which its key was
last written, on every field that the response to that named. -/
def Agrees (S : Setup β) (l : Ledger β) (a : Action β) : Prop :=
  ∀ path rh s' call reply, a = .arrive path rh → l.edge.step S a = some s' →
    s'.tasks[l.edge.tasks.length]? = some ⟨call, .returned reply⟩ →
    (reply.response S).cacheHit = true →
    ∃ w, l.writers.get? (keyOf S path rh) = some w ∧
      ∀ f ∈ w.fields, fieldValue rh f = fieldValue w.call.requestHeaders f

/-- Where a call is served what it finds, that was last written for the same path and
because of a response that names nothing but Accept-Encoding. -/
def Plain (S : Setup β) (l : Ledger β) (a : Action β) : Prop :=
  ∀ path rh w, a = .arrive path rh → Edge.Serves S l.edge path rh →
    l.writers.get? (keyOf S path rh) = some w →
    w.call.path = path ∧ ∀ f ∈ w.fields, f = "accept-encoding"

/-- A response goes to the key that its call has looked up, or where its fields say. -/
theorem target_cases {call : Call β} (hkey : call.key = keyOf S call.path call.requestHeaders)
    (r : OriginResponse β) :
    call.target S r = "GET:" ++ call.path ++ varyPart S call.requestHeaders ∨
      call.target S r =
        "GET:" ++ call.path ++ filedPart S call.requestHeaders (varyFields r.headers) := by
  unfold Call.target
  split
  · exact Or.inl (by rw [hkey, keyOf_eq])
  · exact Or.inr (fileKey_eq hkey _)

/-- A plain step of a ledger that knows its writers agrees. -/
theorem agrees_of_plain {l : Ledger β} {a : Action β} (hinj : Function.Injective S.digest.hash)
    (h : Written S l) (hplain : Plain S l a) : Agrees S l a := by
  rintro path rh s' call reply rfl hstep ht hhit
  have hserves := Edge.serves_of_hit hstep ht hhit
  obtain ⟨e, hcached, -⟩ := id hserves
  obtain ⟨w, hw⟩ := h.entries _ _ (Edge.entry_of_cached hcached)
  obtain ⟨hpath, hfields⟩ := hplain path rh w rfl hserves hw
  obtain ⟨hcall, htarget⟩ := h.target _ w hw
  refine ⟨w, hw, fun f hf => ?_⟩
  obtain rfl := hfields f hf
  rcases target_cases (h.keyed w.call hcall) w.response with hlookup | hfiled
  · -- a 304, or a response without fields: both requests were looked up there
    rw [hlookup, hpath, keyOf_eq, String.append_right_inj] at htarget
    rw [fieldValue_acceptEncoding, fieldValue_acceptEncoding, (varyPart_eq_iff hinj).mp htarget]
  · rw [hfiled, hpath, keyOf_eq, String.append_right_inj] at htarget
    exact (acceptEncoding_of_filedPart hinj hfields htarget.symm).symm

/--
**Vary-safe reuse.**  In every run each of whose calls, where it is served what it finds,
finds what was last written for its own path because of a response that names nothing but
Accept-Encoding: every hit agrees with the request it was written for on every field named.
-/
theorem agrees_of_plain_run (hinj : Function.Injective S.digest.hash) (maxSizeBytes : Int)
    (breaker : CircuitBreaker) (wall mono : Time) (p : List (Action β))
    (hplain : Lts.EachStep (step S) (Plain S) (start maxSizeBytes breaker wall mono) p) :
    Lts.EachStep (step S) (Agrees S) (start maxSizeBytes breaker wall mono) p := by
  have hwritten : Lts.EachStep (step S) (fun l _ => Written S l)
      (start maxSizeBytes breaker wall mono) p :=
    Lts.eachStep_of_invariant (I := Written S) (fun l a l' h hstep => written_step h hstep)
      (fun l a l' h _ => h) p (written_start maxSizeBytes breaker wall mono)
  exact (hwritten.and hplain).mono fun l a h => agrees_of_plain hinj h.1 h.2

/-! ### Two runs -/

instance (l : Ledger β) (a : Action β) : Decidable (Plain S l a) :=
  match a with
  | .arrive path rh =>
      decidable_of_iff (Edge.Serves S l.edge path rh → ∀ w ∈ l.writers.get? (keyOf S path rh),
          w.call.path = path ∧ ∀ f ∈ w.fields, f = "accept-encoding")
        ⟨fun h path' rh' w ha hserves hw => by cases ha; exact h hserves w hw,
          fun h hserves w hw => h path rh w rfl hserves hw⟩
  | .answer .. | .resume _ | .cancel _ | .purge .. | .tick .. | .reset =>
      isTrue fun _ _ _ ha => by cases ha

/-- An answer for a while, and the word that it is still good. -/
def forMinute (statusCode : Int) (vary : String) : FetchOutcome Nat :=
  .answered
    { content := 1, statusCode, etag := some "t"
      headers := Dict.ofList [("cache-control", "max-age=10"), ("vary", vary)] }

/-- A request, and its revalidation after twenty seconds. -/
def revalidated (rh : Option Headers) (vary : String) : List (Action Nat) :=
  [.arrive "a" rh, .answer 0 (forMinute 200 ""), .resume 0, .tick 20 20, .arrive "a" rh,
    .answer 1 (forMinute 304 vary), .resume 1]

def sampleLedger : Ledger Nat := start 1000 {} 0 0

theorem agrees_of_plain_gzip : Lts.EachStep (step sampleSetup) (Agrees sampleSetup) sampleLedger
    (revalidated gzip "Accept-Encoding" ++ [.arrive "a" gzip]) := by
  have hcheck : Lts.checkEach (step sampleSetup) (fun l a => decide (Plain sampleSetup l a))
      sampleLedger (revalidated gzip "Accept-Encoding" ++ [.arrive "a" gzip]) = true := by
    decide +kernel
  exact agrees_of_plain_run sampleHash_injective _ _ _ _ _
    (Lts.eachStep_of_check (fun _ _ => of_decide_eq_true) hcheck)

/-- The headers of a client that reads one language. -/
def reads (language : String) : Option Headers := some (Dict.ofList [("accept-language", language)])

/-- The 304 says that the response depends on the language, and stays where it is: who reads
English is served German. -/
theorem notAgreed_language : Function.Injective sampleSetup.digest.hash ∧
    ¬ ∀ p : List (Action Nat),
      (∀ path rh, Action.arrive path rh ∈ p → ∃ headers, rh = some headers ∧ headers.items ≠ []) →
      Lts.EachStep (step sampleSetup) (Agrees sampleSetup) sampleLedger p := by
  refine ⟨sampleHash_injective, fun h => ?_⟩
  have hrun : (Lts.run (step sampleSetup) sampleLedger
      (revalidated (reads "de") "Accept-Language")).isSome = true := by decide +kernel
  have hheaders : ∀ path rh, Action.arrive path rh ∈
      revalidated (reads "de") "Accept-Language" ++ [.arrive "a" (reads "en")] →
      ∃ headers, rh = some headers ∧ headers.items ≠ [] := by
    intro path rh hmem
    simp only [revalidated, List.cons_append, List.nil_append, List.mem_cons, Action.arrive.injEq,
      reduceCtorEq, List.not_mem_nil, false_or, or_false] at hmem
    rcases hmem with ⟨-, rfl⟩ | ⟨-, rfl⟩ | ⟨-, rfl⟩ <;> exact ⟨_, rfl, by decide⟩
  have hlast := (Lts.eachStep_append (Lts.run_last hrun) (h _ hheaders)).2
  set l := Lts.last (step sampleSetup) sampleLedger (revalidated (reads "de") "Accept-Language")
    with hl
  have hentry : (l.edge.entry (keyOf sampleSetup "a" (reads "en"))).map
      (fun e => e.isExpired l.edge.wall) = some false := by rw [hl]; decide +kernel
  have hwriter : (l.writers.get? (keyOf sampleSetup "a" (reads "en"))).map
      (fun w => (w.fields, fieldValue w.call.requestHeaders "accept-language")) =
      some (["accept-language"], "de") := by rw [hl]; decide +kernel
  obtain ⟨e, he, hfresh⟩ := Option.map_eq_some_iff.mp hentry
  obtain ⟨w, hw, hde⟩ := Option.map_eq_some_iff.mp hwriter
  obtain ⟨hfields, hvalue⟩ := Prod.mk.inj hde
  obtain ⟨e₀, -, rfl⟩ := Option.map_eq_some_iff.mp he
  obtain ⟨edge, call, e', hstep, ht, -⟩ :=
    (Edge.hit_iff (S := sampleSetup) (e := e₀.core)).mpr ⟨he, hfresh⟩
  obtain ⟨l', hstep'⟩ : ∃ l', l.step sampleSetup (.arrive "a" (reads "en")) = some l' :=
    ⟨_, by rw [step, hstep]; rfl⟩
  obtain ⟨w', hw', hagree⟩ :=
    (hlast l' hstep').1 "a" (reads "en") edge call (.fresh e') rfl hstep ht rfl
  obtain rfl := Option.some.inj (hw.symm.trans hw')
  have hsame := hagree "accept-language" (by rw [hfields]; exact List.mem_cons_self)
  rw [hvalue] at hsame
  exact absurd hsame (by decide +kernel)

end Ledger

end Cdn

/-
The retry loop, from the outcomes of its attempts.

What a fetch does is settled by the first attempt that is not tried again, or by the number
of attempts if there is none.  `trace` is what others see of it: a request, and before every
further request a sleep.  The loop runs over what is left of `range(max_retries)`, so both
lemmas below speak of a loop that is already some attempts in, and the induction is on the
number of attempts still to come.
-/
import Cdn.Infrastructure.HttpClients

namespace Cdn

namespace Retry

variable {ε : Type}

/-! ### What others see -/

/-- The sleep after an attempt. -/
def delayAfter : Nat → Time
  | 0 => 1 / 2
  | 1 => 1
  | _ + 2 => 2

/-- The steps of a number of attempts, from the one numbered `first` on. -/
def trace (get : Step) (first : Nat) : Nat → List Step
  | 0 => []
  | m + 1 => get :: (List.range' first m).flatMap fun attempt => [.sleep (delayAfter attempt), get]

theorem trace_succ (get : Step) (first m : Nat) :
    trace get first (m + 2) =
      get :: .sleep (delayAfter first) :: trace get (first + 1) (m + 1) := by
  rw [trace, trace, List.range'_succ, List.flatMap_cons]
  rfl

def Step.IsGet : Step → Prop
  | .get _ _ => True
  | .sleep _ => False

instance : DecidablePred Step.IsGet := fun s => by
  cases s <;> unfold Step.IsGet <;> infer_instance

/-- The number of requests sent. -/
def Ran.attempts (ran : Ran ε) : Nat := ran.steps.countP Step.IsGet

theorem countP_trace (url : String) (headers : Option Headers) (first m : Nat) :
    (trace (.get url headers) first m).countP Step.IsGet = m := by
  cases m with
  | zero => rfl
  | succ m =>
      rw [trace, List.countP_cons_of_pos (by exact decide_eq_true trivial), List.countP_flatMap]
      have hone : (List.countP (fun s => decide (Step.IsGet s)) ∘
          fun attempt => [Step.sleep (delayAfter attempt), Step.get url headers]) = fun _ => 1 := rfl
      rw [hone, List.map_const', List.sum_replicate, List.length_range', smul_eq_mul, mul_one]

/-! ### What is remembered -/

/-- A status that is tried again. -/
def Tried.serverStatus : Tried ε → Option Int
  | .response r => if 500 ≤ r.statusCode then some r.statusCode else none
  | .network _ => none
  | .other _ => none

/-- The last status from 500 on, among some attempts. -/
def lastServerStatus (tried : Nat → Tried ε) (attempts : List Nat) : Option Int :=
  (attempts.filterMap fun attempt => (tried attempt).serverStatus).getLast?

/-- The last text of a network error, among some attempts. -/
def lastText (tried : Nat → Tried ε) (attempts : List Nat) : Option String :=
  (attempts.filterMap fun attempt => (tried attempt).text).getLast?

theorem Tried.status_of_failed {t : Tried ε} (h : t.Failed) : t.status = t.serverStatus := by
  cases t with
  | response r => exact (if_pos h).symm
  | network text => rfl
  | other x => rfl

theorem getLast?_filterMap_cons {α β : Type} (f : α → Option β) (a : α) (l : List α) :
    ((a :: l).filterMap f).getLast? = (l.filterMap f).getLast?.or (f a) := by
  cases ha : f a with
  | none => rw [List.filterMap_cons_none ha, Option.or_none]
  | some b =>
      rw [List.filterMap_cons_some ha, List.getLast?_cons]
      cases (l.filterMap f).getLast? with
      | none => rfl
      | some c => rfl

/-! ### The run of the loop -/

variable {delays : List Time} {maxRetries : Nat} {get : Step} {tried : Nat → Tried ε}
  {failure : Option Int → Option String → OriginFetchError}

/-- A table that gives the delays. -/
def Delays (delays : List Time) : Prop :=
  ∀ attempt, delays[min attempt (delays.length - 1)]? = some (delayAfter attempt)

/-- **Both tables do**, whatever the number of the attempt. -/
theorem delays_backoffDelays : Delays HttpOriginClient.backoffDelays := by
  intro attempt
  match attempt with
  | 0 => rfl
  | 1 => rfl
  | k + 2 =>
      have hmin : min (k + 2) (HttpOriginClient.backoffDelays.length - 1) = 2 :=
        min_eq_right (Nat.le_add_left 2 k)
      rw [hmin]
      rfl

theorem backOff_of_lt (hdelays : Delays delays) {attempt : Nat} (h : attempt + 1 < maxRetries)
    (next : Ran ε) :
    backOff delays maxRetries attempt next = next.after (.sleep (delayAfter attempt)) := by
  rw [backOff, if_pos h, hdelays attempt]

/-- **The first attempt that decides ends the loop.** -/
theorem fetchLoop_of_decided (hdelays : Delays delays) {k : Nat}
    {result : Except (Raised ε) (OriginResponse Bytes)} {first m : Nat}
    (hlast : first + m = maxRetries) (hk : k < m)
    (hfailed : ∀ j < k, (tried (first + j)).Failed)
    (hdecided : (tried (first + k)).decision = some result) (lastStatus : Option Int)
    (lastError : Option String) :
    fetchLoop delays maxRetries get tried failure (List.range' first m) lastStatus lastError =
      ⟨trace get first (k + 1), result⟩ := by
  induction k generalizing first m lastStatus lastError with
  | zero =>
      obtain ⟨m, rfl⟩ := Nat.exists_eq_succ_of_ne_zero (Nat.ne_of_gt hk)
      have hfirst : (tried first).decision = some result := hdecided
      rw [List.range'_succ, fetchLoop_decided hfirst]
      rfl
  | succ k ih =>
      obtain ⟨m, rfl⟩ := Nat.exists_eq_succ_of_ne_zero (Nat.ne_zero_of_lt hk)
      have hnext : first + 1 < maxRetries := by omega
      have hshift : ∀ j, first + 1 + j = first + (j + 1) := fun j => by omega
      have hfirst : (tried first).Failed := hfailed 0 (Nat.succ_pos k)
      rw [List.range'_succ, fetchLoop_failed hfirst,
        ih (by omega) (Nat.lt_of_succ_lt_succ hk)
          (fun j hj => hshift j ▸ hfailed (j + 1) (Nat.succ_lt_succ hj))
          (hshift k ▸ hdecided),
        backOff_of_lt hdelays hnext, trace_succ]
      rfl

/-- **When every attempt fails, the loop makes all of them** and remembers the last status. -/
theorem fetchLoop_of_failed (hdelays : Delays delays) {first m : Nat}
    (hlast : first + m = maxRetries) (hfailed : ∀ j < m, (tried (first + j)).Failed)
    (lastStatus : Option Int) (lastError : Option String) :
    fetchLoop delays maxRetries get tried failure (List.range' first m) lastStatus lastError =
      ⟨trace get first m, .error (.fetchError (failure
        ((lastServerStatus tried (List.range' first m)).or lastStatus)
        ((lastText tried (List.range' first m)).or lastError)))⟩ := by
  induction m generalizing first lastStatus lastError with
  | zero => rfl
  | succ m ih =>
      have hshift : ∀ j, first + 1 + j = first + (j + 1) := fun j => by omega
      have hfirst : (tried first).Failed := hfailed 0 (Nat.succ_pos m)
      rw [List.range'_succ, fetchLoop_failed hfirst,
        ih (by omega) (fun j hj => hshift j ▸ hfailed (j + 1) (Nat.succ_lt_succ hj)),
        Tried.status_of_failed hfirst, lastServerStatus, lastText, lastServerStatus, lastText,
        getLast?_filterMap_cons, getLast?_filterMap_cons, Option.or_assoc, Option.or_assoc]
      cases m with
      | zero => rw [backOff, if_neg (by omega)]; rfl
      | succ m => rw [backOff_of_lt hdelays (by omega), trace_succ]; rfl

theorem fetchLoop_range_of_decided (hdelays : Delays delays) {n k : Nat} (hk : k < n)
    (hfailed : ∀ j < k, (tried j).Failed) {result : Except (Raised ε) (OriginResponse Bytes)}
    (hdecided : (tried k).decision = some result) :
    fetchLoop delays n get tried failure (List.range n) none none =
      ⟨trace get 0 (k + 1), result⟩ := by
  rw [List.range_eq_range']
  exact fetchLoop_of_decided hdelays (Nat.zero_add n) hk
    (fun j hj => (Nat.zero_add j).symm ▸ hfailed j hj) ((Nat.zero_add k).symm ▸ hdecided) none none

theorem fetchLoop_range_of_failed (hdelays : Delays delays) {n : Nat}
    (hfailed : ∀ k < n, (tried k).Failed) :
    fetchLoop delays n get tried failure (List.range n) none none =
      ⟨trace get 0 n, .error (.fetchError (failure (lastServerStatus tried (List.range n))
        (lastText tried (List.range n))))⟩ := by
  rw [List.range_eq_range', fetchLoop_of_failed hdelays (Nat.zero_add n)
    (fun j hj => (Nat.zero_add j).symm ▸ hfailed j hj) none none, Option.or_none, Option.or_none]

/-- Either an attempt decides, or all of them fail. -/
theorem decided_or_failed (tried : Nat → Tried ε) (n : Nat) :
    (∃ k < n, (∀ j < k, (tried j).Failed) ∧ ∃ result, (tried k).decision = some result) ∨
      ∀ k < n, (tried k).Failed := by
  induction n with
  | zero => exact Or.inr fun k hk => absurd hk (Nat.not_lt_zero k)
  | succ n ih =>
      rcases ih with ⟨k, hk, hfirst⟩ | hfailed
      · exact Or.inl ⟨k, Nat.lt_succ_of_lt hk, hfirst⟩
      cases hn : (tried n).decision with
      | some result => exact Or.inl ⟨n, Nat.lt_succ_self n, hfailed, result, hn⟩
      | none =>
          refine Or.inr fun k hk => ?_
          rcases Nat.lt_succ_iff_lt_or_eq.mp hk with hk | rfl
          · exact hfailed k hk
          · exact Tried.failed_iff.mpr hn

/-! ### What the two clients do -/

/-- What a fetch is to be, of the `n` attempts it has. -/
structure Retried (get : Step) (path : String) (n : Nat) (tried : Nat → Tried ε)
    (ran : Ran ε) : Prop where
  /-- The first attempt that brings a status below 500 is the last, and its response is
  handed on. -/
  answered : ∀ k < n, (∀ j < k, (tried j).Failed) → ∀ r, tried k = .response r →
    r.statusCode < 500 → ran.attempts = k + 1 ∧ ran.steps = trace get 0 (k + 1) ∧
      ran.result = .ok
        { content := r.content
          statusCode := r.statusCode
          headers := r.headers
          etag := r.headers.get? "etag" }
  /-- So is the first that raises something else. -/
  propagated : ∀ k < n, (∀ j < k, (tried j).Failed) → ∀ x, tried k = .other x →
    ran.attempts = k + 1 ∧ ran.steps = trace get 0 (k + 1) ∧ ran.result = .error (.other x)
  /-- Without such an attempt all of them are made, and the last status is in the error. -/
  exhausted : (∀ k < n, (tried k).Failed) →
    ran.attempts = n ∧ ran.steps = trace get 0 n ∧
      ∃ e, ran.result = .error (.fetchError e) ∧ e.path = path ∧
        e.lastStatus = lastServerStatus tried (List.range n)
  /-- The table of delays is never left. -/
  inRange : ran.result ≠ .error .index

theorem retried_fetchLoop (hdelays : Delays delays) (source url path : String)
    (headers : Option Headers) (n : Nat) (tried : Nat → Tried ε) :
    Retried (.get url headers) path n tried
      (fetchLoop delays n (.get url headers) tried (noneLeft source path n) (List.range n)
        none none) := by
  refine ⟨?_, ?_, ?_, ?_⟩
  · intro k hk hfailed r hr hstatus
    have hdecision : (tried k).decision = some (.ok (OriginClient.originResponse r)) := by
      rw [hr]
      exact if_pos hstatus
    rw [fetchLoop_range_of_decided hdelays hk hfailed hdecision]
    exact ⟨countP_trace url headers 0 (k + 1), rfl, rfl⟩
  · intro k hk hfailed x hx
    have hdecision : (tried k).decision = some (.error (.other x)) := by
      rw [hx]
      rfl
    rw [fetchLoop_range_of_decided hdelays hk hfailed hdecision]
    exact ⟨countP_trace url headers 0 (k + 1), rfl, rfl⟩
  · intro hfailed
    rw [fetchLoop_range_of_failed hdelays hfailed]
    exact ⟨countP_trace url headers 0 n, rfl, _, rfl, rfl, rfl⟩
  · rcases decided_or_failed tried n with ⟨k, hk, hfailed, result, hresult⟩ | hfailed
    · rw [fetchLoop_range_of_decided hdelays hk hfailed hresult]
      exact Tried.decision_ne_index hresult
    · rw [fetchLoop_range_of_failed hdelays hfailed]
      rintro ⟨⟩

theorem Retried.attempts_of_decided {path : String} {n : Nat} {ran : Ran ε}
    (h : Retried get path n tried ran) {k : Nat} (hk : k < n)
    (hfailed : ∀ j < k, (tried j).Failed) {result : Except (Raised ε) (OriginResponse Bytes)}
    (hresult : (tried k).decision = some result) : ran.attempts = k + 1 := by
  cases htried : tried k with
  | response r =>
      have hstatus : r.statusCode < 500 := by
        refine not_le.mp fun hle => ?_
        have hagain : (tried k).Failed := by rw [htried]; exact hle
        rw [Tried.failed_iff.mp hagain] at hresult
        cases hresult
      exact (h.answered k hk hfailed r htried hstatus).1
  | network text => rw [htried] at hresult; cases hresult
  | other x => exact (h.propagated k hk hfailed x htried).1

/-- **How many attempts are made follows from the outcomes alone.** -/
theorem Retried.attempts_eq {get get' : Step} {path path' : String} {n : Nat}
    {ran ran' : Ran ε} (h : Retried get path n tried ran) (h' : Retried get' path' n tried ran') :
    ran.attempts = ran'.attempts := by
  rcases decided_or_failed tried n with ⟨k, hk, hfailed, result, hresult⟩ | hfailed
  · rw [h.attempts_of_decided hk hfailed hresult, h'.attempts_of_decided hk hfailed hresult]
  · rw [(h.exhausted hfailed).1, (h'.exhausted hfailed).1]

theorem Retried.attempts_le {path : String} {n : Nat} {ran : Ran ε}
    (h : Retried get path n tried ran) : ran.attempts ≤ n := by
  rcases decided_or_failed tried n with ⟨k, hk, hfailed, result, hresult⟩ | hfailed
  · exact (h.attempts_of_decided hk hfailed hresult).le.trans hk
  · exact (h.exhausted hfailed).1.le

/-! ### What the cache sees of a fetch -/

def Tried.attempt : Tried ε → OriginClient.Attempt
  | .response r => .response r
  | .network _ => .network
  | .other _ => .raised

/-- The service never looks inside what is raised. -/
def Ran.outcome (ran : Ran ε) : FetchOutcome Bytes :=
  match ran.result with
  | .ok r => .answered r
  | .error _ => .failed

theorem outcome_backOff (hdelays : Delays delays) (attempt : Nat) (next : Ran ε) :
    (backOff delays maxRetries attempt next).outcome = next.outcome := by
  by_cases h : attempt + 1 < maxRetries
  · rw [backOff_of_lt hdelays h]
    rfl
  · rw [backOff, if_neg h]

/-- **The loop comes to what the short account of it says**, sleeps and messages apart. -/
theorem outcome_fetchLoop (hdelays : Delays delays) (attempts : List Nat)
    (lastStatus : Option Int) (lastError : Option String) :
    (fetchLoop delays maxRetries get tried failure attempts lastStatus lastError).outcome =
      OriginClient.attempts (attempts.map fun attempt => (tried attempt).attempt) := by
  induction attempts generalizing lastStatus lastError with
  | nil => rfl
  | cons attempt rest ih =>
      rw [List.map_cons]
      cases hdecision : (tried attempt).decision with
      | some result =>
          rw [fetchLoop_decided hdecision]
          cases htried : tried attempt with
          | response r =>
              rw [htried, Tried.decision] at hdecision
              split at hdecision
              · rename_i hstatus
                rw [← Option.some.inj hdecision]
                exact (if_pos hstatus).symm
              · cases hdecision
          | network text => rw [htried] at hdecision; cases hdecision
          | other x => rw [htried] at hdecision; cases hdecision; rfl
      | none =>
          have hfailed := Tried.failed_iff.mpr hdecision
          rw [fetchLoop_failed hfailed]
          refine (outcome_backOff hdelays attempt _).trans ((ih _ _).trans ?_)
          cases htried : tried attempt with
          | response r => rw [htried] at hfailed; exact (if_neg (not_lt.mpr hfailed)).symm
          | network text => rfl
          | other x => rw [htried] at hfailed; exact hfailed.elim

theorem outcome_default (hdelays : Delays delays) :
    (fetchLoop delays maxRetries get tried failure (List.range OriginClient.maxRetries) none
        none).outcome =
      OriginClient.fetch
        ((List.range OriginClient.maxRetries).map fun attempt => (tried attempt).attempt) := by
  rw [OriginClient.fetch, List.take_of_length_le (by rw [List.length_map, List.length_range])]
  exact outcome_fetchLoop hdelays _ none none

end Retry

open Retry

variable {ε : Type}

/-- **The client of the origin and the client of a shield retry alike.** -/
theorem fetch_retried (originUrl shieldUrl path : String) (headers : Option Headers) (n : Nat)
    (tried : Nat → Tried ε) :
    let origin := (HttpOriginClient.new originUrl n).fetch tried path headers
    let shield := (ShieldClient.new shieldUrl n).fetch tried path headers
    Retried (.get (filesUrl (baseUrl originUrl) path) headers) path n tried origin ∧
      Retried (.get (filesUrl (baseUrl shieldUrl) path) headers) path n tried shield ∧
      origin.attempts = shield.attempts ∧ origin.attempts ≤ n := by
  intro origin shield
  have horigin : Retried (.get (filesUrl (baseUrl originUrl) path) headers) path n tried origin :=
    retried_fetchLoop delays_backoffDelays "origin" _ path headers n tried
  have hshield : Retried (.get (filesUrl (baseUrl shieldUrl) path) headers) path n tried shield :=
    retried_fetchLoop delays_backoffDelays "shield" _ path headers n tried
  exact ⟨horigin, hshield, horigin.attempts_eq hshield, horigin.attempts_le⟩

/-- With the default number of attempts, a fetch is the one the cache works with. -/
theorem outcome_fetch (originUrl path : String) (headers : Option Headers) (tried : Nat → Tried ε) :
    ((HttpOriginClient.new originUrl).fetch tried path headers).outcome =
      OriginClient.fetch
        ((List.range OriginClient.maxRetries).map fun attempt => (tried attempt).attempt) :=
  outcome_default delays_backoffDelays

/-- So is one through a shield node. -/
theorem outcome_shieldFetch (shieldUrl path : String) (headers : Option Headers)
    (tried : Nat → Tried ε) :
    ((ShieldClient.new shieldUrl).fetch tried path headers).outcome =
      OriginClient.fetch
        ((List.range OriginClient.maxRetries).map fun attempt => (tried attempt).attempt) :=
  outcome_default delays_backoffDelays

end Cdn

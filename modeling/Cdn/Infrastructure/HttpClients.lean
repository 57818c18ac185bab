/-
The two clients that fetch over HTTP.

`HttpOriginClient` asks the origin and `ShieldClient` a shield node.  Each asks up to
`max_retries` times and sleeps between two attempts; the source writes the loop out twice,
and the copies differ in one word of the error text.
-/
import Cdn.Infrastructure.OriginClient

namespace Cdn

/-- `OriginFetchError`; `message` is what `str` gives. -/
structure OriginFetchError where
  path : String
  lastStatus : Option Int
  message : String
deriving DecidableEq

def OriginFetchError.new (path : String) (lastStatus : Option Int) (message : String) :
    OriginFetchError where
  path := path
  lastStatus := lastStatus
  message :=
    if message = "" then "Failed to fetch '" ++ path ++ "' from origin after all retries" else message

namespace Retry

-- `ε` is what else the HTTP library can raise.
variable {ε : Type}

/-- What becomes of one `self._client.get`. -/
inductive Tried (ε : Type) where
  | response (r : Http.Received)
  /-- `ConnectError`, `TimeoutException`, `NetworkError`, with its text. -/
  | network (text : String)
  | other (x : ε)

/-- What a fetch does that others see. -/
inductive Step where
  | get (url : String) (headers : Option Headers)
  | sleep (delay : Time)
deriving DecidableEq

inductive Raised (ε : Type) where
  | fetchError (e : OriginFetchError)
  | other (x : ε)
  /-- `IndexError`, from the table of delays. -/
  | index

/-- A fetch that is over. -/
structure Ran (ε : Type) where
  steps : List Step
  result : Except (Raised ε) (OriginResponse Bytes)

def Ran.after (s : Step) (ran : Ran ε) : Ran ε := { ran with steps := s :: ran.steps }

/-- The sleep after an attempt, and what follows it. -/
def backOff (delays : List Time) (maxRetries attempt : Nat) (next : Ran ε) : Ran ε :=
  if attempt + 1 < maxRetries then
    match delays[min attempt (delays.length - 1)]? with
    | some delay => next.after (.sleep delay)
    | none => ⟨[], .error .index⟩
  else next

/-- What is raised when no attempt is left; `source` is the word for the upstream. -/
def noneLeft (source path : String) (maxRetries : Nat) (lastStatus : Option Int)
    (lastError : Option String) : OriginFetchError :=
  .new path lastStatus
    ("Failed to fetch '" ++ path ++ "' from " ++ source ++ " after " ++ toString maxRetries ++
      " attempts" ++
      (match lastStatus with
        | some s => if s = 0 then "" else " (last status: " ++ toString s ++ ")"
        | none => "") ++
      (match lastError with
        | some e => " (last error: " ++ e ++ ")"
        | none => ""))

/-- The loop over `range(max_retries)`, with `last_status` and `last_error`. -/
def fetchLoop (delays : List Time) (maxRetries : Nat) (get : Step) (tried : Nat → Tried ε)
    (failure : Option Int → Option String → OriginFetchError) :
    List Nat → Option Int → Option String → Ran ε
  | [], lastStatus, lastError => ⟨[], .error (.fetchError (failure lastStatus lastError))⟩
  | attempt :: rest, lastStatus, lastError =>
      let next := fetchLoop delays maxRetries get tried failure rest
      Ran.after get <|
        match tried attempt with
        | .response r =>
            if r.statusCode < 500 then ⟨[], .ok (OriginClient.originResponse r)⟩
            else backOff delays maxRetries attempt (next (some r.statusCode) lastError)
        | .network text => backOff delays maxRetries attempt (next lastStatus (some text))
        | .other x => ⟨[], .error (.other x)⟩

/-! ### What an attempt decides -/

/-- What a fetch comes to at an attempt that is not tried again. -/
def Tried.decision : Tried ε → Option (Except (Raised ε) (OriginResponse Bytes))
  | .response r => if r.statusCode < 500 then some (.ok (OriginClient.originResponse r)) else none
  | .network _ => none
  | .other x => some (.error (.other x))

theorem Tried.decision_ne_index {t : Tried ε} {result : Except (Raised ε) (OriginResponse Bytes)}
    (h : t.decision = some result) : result ≠ .error .index := by
  rintro rfl
  cases t with
  | response r =>
      rw [Tried.decision] at h
      split at h
      · cases h
      · cases h
  | network text => cases h
  | other x => cases h

/-- Tried again, if an attempt is left. -/
def Tried.Failed : Tried ε → Prop
  | .response r => 500 ≤ r.statusCode
  | .network _ => True
  | .other _ => False

theorem Tried.failed_iff {t : Tried ε} : t.Failed ↔ t.decision = none := by
  cases t with
  | response r =>
      rw [Tried.Failed, Tried.decision]
      split
      · rename_i hstatus
        exact iff_of_false (not_le.mpr hstatus) (Option.some_ne_none _)
      · rename_i hstatus
        exact iff_of_true (not_lt.mp hstatus) rfl
  | network text => exact iff_of_true trivial rfl
  | other x => exact iff_of_false id (Option.some_ne_none _)

/-- The status a failed attempt leaves behind. -/
def Tried.status : Tried ε → Option Int
  | .response r => some r.statusCode
  | .network _ => none
  | .other _ => none

/-- The error text a failed attempt leaves behind. -/
def Tried.text : Tried ε → Option String
  | .response _ => none
  | .network text => some text
  | .other _ => none

variable {delays : List Time} {maxRetries : Nat} {get : Step} {tried : Nat → Tried ε}
  {failure : Option Int → Option String → OriginFetchError}

/-- **An attempt that decides is the last.** -/
theorem fetchLoop_decided {attempt : Nat} {rest : List Nat} {lastStatus : Option Int}
    {lastError : Option String} {result : Except (Raised ε) (OriginResponse Bytes)}
    (h : (tried attempt).decision = some result) :
    fetchLoop delays maxRetries get tried failure (attempt :: rest) lastStatus lastError =
      ⟨[get], result⟩ := by
  rw [fetchLoop]
  cases ht : tried attempt with
  | response r =>
      rw [ht, Tried.decision] at h
      split at h
      · rename_i hstatus
        rw [← Option.some.inj h]
        exact congrArg _ (if_pos hstatus)
      · cases h
  | network text => rw [ht] at h; cases h
  | other x => rw [ht] at h; cases h; rfl

/-- **A failed attempt is remembered, slept after and followed by the next.** -/
theorem fetchLoop_failed {attempt : Nat} {rest : List Nat} {lastStatus : Option Int}
    {lastError : Option String} (h : (tried attempt).Failed) :
    fetchLoop delays maxRetries get tried failure (attempt :: rest) lastStatus lastError =
      (backOff delays maxRetries attempt (fetchLoop delays maxRetries get tried failure rest
        ((tried attempt).status.or lastStatus) ((tried attempt).text.or lastError))).after get := by
  rw [fetchLoop]
  cases ht : tried attempt with
  | response r =>
      rw [ht] at h
      exact congrArg _ (if_neg (not_lt.mpr h))
  | network text => rfl
  | other x => rw [ht] at h; exact h.elim

end Retry

/-- `{base}/files/{path}`. -/
def filesUrl (base path : String) : String :=
  base ++ "/files/" ++ String.ofList (OriginClient.requestPath path)

/-- `url.rstrip("/")`. -/
def baseUrl (url : String) : String := String.ofList (url.toList.rdropWhile (· = '/'))

open Retry

/-! ### The client of the origin -/

variable {ε : Type}

structure HttpOriginClient where
  originUrl : String
  maxRetries : Nat

namespace HttpOriginClient

def backoffDelays : List Time := [1 / 2, 1, 2]

def new (originUrl : String) (maxRetries : Nat := 3) : HttpOriginClient where
  originUrl := baseUrl originUrl
  maxRetries := maxRetries

def fetch (c : HttpOriginClient) (tried : Nat → Tried ε) (path : String)
    (headers : Option Headers := none) : Ran ε :=
  fetchLoop backoffDelays c.maxRetries (.get (filesUrl c.originUrl path) headers) tried
    (noneLeft "origin" path c.maxRetries) (List.range c.maxRetries) none none

end HttpOriginClient

/-! ### The client of a shield node -/

structure ShieldClient where
  shieldUrl : String
  maxRetries : Nat

namespace ShieldClient

def backoffDelays : List Time := [1 / 2, 1, 2]

def new (shieldUrl : String) (maxRetries : Nat := 3) : ShieldClient where
  shieldUrl := baseUrl shieldUrl
  maxRetries := maxRetries

def fetch (c : ShieldClient) (tried : Nat → Tried ε) (path : String)
    (headers : Option Headers := none) : Ran ε :=
  fetchLoop backoffDelays c.maxRetries (.get (filesUrl c.shieldUrl path) headers) tried
    (noneLeft "shield" path c.maxRetries) (List.range c.maxRetries) none none

end ShieldClient

end Cdn

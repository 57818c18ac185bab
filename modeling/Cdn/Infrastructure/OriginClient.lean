/-
The HTTP client of the origin.

A fetch asks up to three times: a response below 500 is the answer, a response from 500 on
and an error of the connection are tried again, and any other exception leaves the fetch at
once.  This is the short account of it, for who only looks at what a fetch comes to; the two
clients with their sleeps and messages are in `HttpClients`.
-/
import Cdn.Application.CacheService
import Cdn.Lib.Http

namespace Cdn

namespace OriginClient

/-- `max_retries`; no caller passes another number. -/
def maxRetries : Nat := 3

/-- The path a request is sent to, behind `/files/`. -/
def requestPath (path : String) : List Char := path.toList.dropWhile (· = '/')

/-- What becomes of one `self._client.get`. -/
inductive Attempt where
  | response (r : Http.Received)
  /-- `ConnectError`, `TimeoutException`, `NetworkError`. -/
  | network
  /-- Any other exception. -/
  | raised
deriving DecidableEq

/-- What a response is handed on as. -/
def originResponse (r : Http.Received) : OriginResponse Bytes where
  content := r.content
  statusCode := r.statusCode
  headers := r.headers
  etag := r.headers.get? "etag"

/-- The loop over the attempts. -/
def attempts : List Attempt → FetchOutcome Bytes
  | [] => .failed
  | .response r :: rest =>
      if r.statusCode < 500 then .answered (originResponse r) else attempts rest
  | .network :: rest => attempts rest
  | .raised :: _ => .failed

/-- `fetch`, from what its attempts come to. -/
def fetch (tried : List Attempt) : FetchOutcome Bytes := attempts (tried.take maxRetries)

/-- An attempt that is followed by another. -/
def Attempt.Retried : Attempt → Prop
  | .response r => 500 ≤ r.statusCode
  | .network => True
  | .raised => False

instance : DecidablePred Attempt.Retried := fun a => by
  cases a <;> unfold Attempt.Retried <;> infer_instance

theorem attempts_retried {tried : List Attempt} (h : ∀ a ∈ tried, a.Retried) (rest : List Attempt) :
    attempts (tried ++ rest) = attempts rest := by
  induction tried with
  | nil => rfl
  | cons a tried ih =>
      have ha := h a List.mem_cons_self
      have hrest := ih fun b hb => h b (List.mem_cons_of_mem a hb)
      cases a with
      | response r =>
          have hstatus : ¬ r.statusCode < 500 := not_lt.mpr ha
          rw [List.cons_append, attempts, if_neg hstatus, hrest]
      | network => rw [List.cons_append, attempts, hrest]
      | raised => exact ha.elim

/-- **The first response below 500 is the answer.** -/
theorem fetch_eq_answered {tried : List Attempt} {r : Http.Received}
    (hretried : ∀ a ∈ tried, a.Retried) (hleft : tried.length < maxRetries)
    (hstatus : r.statusCode < 500) :
    fetch (tried ++ [.response r]) = .answered (originResponse r) := by
  have hlength : (tried ++ [Attempt.response r]).length ≤ maxRetries := by
    rw [List.length_append]
    exact hleft
  rw [fetch, List.take_of_length_le hlength, attempts_retried hretried, attempts, if_pos hstatus]

/-- **An answer is the response of one of the attempts.** -/
theorem attempts_answered {tried : List Attempt} {answer : OriginResponse Bytes}
    (h : attempts tried = .answered answer) :
    ∃ r, .response r ∈ tried ∧ r.statusCode < 500 ∧ answer = originResponse r := by
  induction tried with
  | nil => cases h
  | cons a tried ih =>
      have hlater : attempts tried = .answered answer →
          ∃ r, .response r ∈ a :: tried ∧ r.statusCode < 500 ∧ answer = originResponse r := by
        intro h
        obtain ⟨r, hr, hanswer⟩ := ih h
        exact ⟨r, List.mem_cons_of_mem a hr, hanswer⟩
      cases a with
      | response r =>
          rw [attempts] at h
          split at h
          · rename_i hstatus
            cases h
            exact ⟨r, List.mem_cons_self, hstatus, rfl⟩
          · exact hlater h
      | network => exact hlater h
      | raised => cases h

theorem fetch_answered {tried : List Attempt} {answer : OriginResponse Bytes}
    (h : fetch tried = .answered answer) :
    ∃ r, .response r ∈ tried ∧ r.statusCode < 500 ∧ answer = originResponse r := by
  obtain ⟨r, hr, hanswer⟩ := attempts_answered h
  exact ⟨r, List.mem_of_mem_take hr, hanswer⟩

end OriginClient

end Cdn

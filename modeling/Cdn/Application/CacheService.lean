/-
The cache service, as the event loop runs it.

`get_or_fetch` and the revalidation it starts in the background are coroutines.  Each
suspends in two places only, while it waits for another call's event and while the
origin works, and what it does between two suspensions is one function below.  So a
state holds, beside what the service itself keeps, the events it has made and the
tasks with the place where each of them stands.

Three fields are there for the statements and are never read by a segment: the number
of steps taken, the requests sent to the origin, and what a task read when it began.
-/
import Cdn.Domain.CacheKey
import Cdn.Infrastructure.CacheControl
import Cdn.Infrastructure.CircuitBreaker
import Cdn.Infrastructure.LruStore

namespace Cdn

/-- What the service takes from its configuration and its libraries. -/
structure Setup (β : Type) where
  /-- `CacheConfig.default_ttl`. -/
  defaultTtl : Time
  digest : Digest
  /-- `len` of a body. -/
  size : β → Int
  /-- The body of the 503 response. -/
  unavailable : β

/-- The tuple `(content, status_code, response_headers, cache_hit)`. -/
structure Response (β : Type) where
  content : β
  statusCode : Int
  headers : Headers
  cacheHit : Bool
deriving DecidableEq

/-- The return statements of `get_or_fetch`, with what each of them returns. -/
inductive Reply (β : Type) where
  /-- The entry had not expired. -/
  | fresh (e : CacheEntry β)
  /-- It had, but was inside its stale window. -/
  | stale (e : CacheEntry β)
  /-- The circuit was open, and there was an entry, or none. -/
  | openStale (e : CacheEntry β)
  | openEmpty
  /-- The entry found after waiting for the leader. -/
  | coalesced (e : CacheEntry β)
  /-- The result of this call's own fetch. -/
  | fetched (r : Response β)
  /-- The breaker refused the leader, and there was an entry, or none. -/
  | rejectedStale (e : CacheEntry β)
  | rejectedEmpty
deriving DecidableEq

/-- What `get_or_fetch` knows when it has looked into the store. -/
structure Call (β : Type) where
  key : String
  path : String
  requestHeaders : Option Headers
  cached : Option (CacheEntry β)
  /-- The wall clock when the call began. -/
  began : Time
deriving DecidableEq

/-- In whose name a task fetches. -/
inductive Role where
  /-- The leader of its key, with the event it made. -/
  | leader (event : Nat)
  /-- A call that waited and found nothing. -/
  | follower
  /-- A background revalidation. -/
  | background
deriving DecidableEq, Repr

/-- How `origin_client.fetch` ends. -/
inductive FetchOutcome (β : Type) where
  | failed
  | answered (r : OriginResponse β)
deriving DecidableEq

/-- Where a task stands. -/
inductive Phase (β : Type) where
  /-- Inside a segment; no task is here between two steps. -/
  | running
  /-- A background revalidation that was created and has not run yet. -/
  | scheduled
  | waiting (event : Nat)
  /-- At the origin; once the origin is done, with the outcome it will resume to. -/
  | fetching (role : Role) (outcome : Option (FetchOutcome β))
  | returned (reply : Reply β)
  | raised (x : Exn)
  /-- The end of a background revalidation. -/
  | finished
deriving DecidableEq

/-- The end of a task. -/
def Phase.over {β : Type} : Phase β → Bool
  | .returned _ | .raised _ | .finished => true
  | _ => false

structure Task (β : Type) where
  call : Call β
  phase : Phase β
deriving DecidableEq

/-- A request to the origin, with the task that sent it. -/
structure OriginCall where
  task : Nat
  path : String
  headers : Headers
deriving DecidableEq

/-- An edge process: the service's own fields, the event loop's, the two clocks. -/
structure Edge (β : Type) where
  cacheStore : LruCacheStore β := {}
  circuitBreaker : CircuitBreaker := {}
  inflight : Dict String Nat := ∅
  revalidationTasks : List Nat := []
  /-- The events made so far, and which of them are set. -/
  events : List Bool := []
  tasks : List (Task β) := []
  wall : Time
  mono : Time
  instant : Nat := 0
  originCalls : List OriginCall := []
deriving DecidableEq

variable {β : Type} (S : Setup β)

/-! ### Responses -/

namespace Reply

def response : Reply β → Response β
  | fresh e | stale e | openStale e | rejectedStale e => ⟨e.content, e.statusCode, e.headers, true⟩
  | coalesced e => ⟨e.content, e.statusCode, e.headers, false⟩
  | fetched r => r
  | openEmpty | rejectedEmpty =>
      ⟨S.unavailable, 503, Dict.ofList [("Content-Type", "text/plain")], false⟩

/-- The reply of a call the open circuit turns away. -/
def ofOpen : Option (CacheEntry β) → Reply β
  | some e => openStale e
  | none => openEmpty

/-- The reply of a leader the breaker refuses. -/
def ofRejected : Option (CacheEntry β) → Reply β
  | some e => rejectedStale e
  | none => rejectedEmpty

end Reply

/-! ### Keys and requests -/

/-- A header map with its names in lower case; of two that clash the later one counts. -/
def normalized (headers : Headers) : Headers :=
  Dict.ofList (headers.items.map fun kv => (String.ofList (lower kv.1.toList), kv.2))

/-- `_extract_vary_headers`: of the request, only Accept-Encoding is part of the key. -/
def extractVaryHeaders (requestHeaders : Option Headers) : Option Headers :=
  match requestHeaders with
  | none => none
  | some headers =>
      if headers.items = [] then none
      else match (normalized headers).get? "accept-encoding" with
        | some v => some (Dict.ofList [("accept-encoding", v)])
        | none => none

/-- The key `get_or_fetch` looks up. -/
def keyOf (path : String) (requestHeaders : Option Headers) : String :=
  (CacheKey.fromRequest S.digest "GET" path none (extractVaryHeaders requestHeaders)).key

/-- The headers of the origin request: conditional where the entry has a tag. -/
def fetchHeaders (cached : Option (CacheEntry β)) : Headers :=
  match cached.bind (·.etag) with
  | some tag => if tag ≠ "" then Dict.ofList [("If-None-Match", tag)] else ∅
  | none => ∅

/-- The field names of a Vary header; no header and an empty one are the same. -/
def varyFields (headers : Headers) : Option (List String) :=
  let varyHeader := headers.getD "vary" ""
  if varyHeader ≠ "" then
    some (((split ',' varyHeader.toList).map strip).filterMap fun v =>
      if v ≠ [] then some (String.ofList (lower v)) else none)
  else none

/-- The key a response is filed under: with Vary, and a request that had headers, the
key is built again from the fields the origin named. -/
def fileKey (call : Call β) (fields : Option (List String)) : String :=
  match fields, call.requestHeaders with
  | some (f :: fs), some headers =>
      if headers.items = [] then call.key
      else
        let values := Dict.ofList ((f :: fs).map fun v => (v, (normalized headers).getD v ""))
        (CacheKey.fromRequest S.digest "GET" call.path none (some values)).key
  | _, _ => call.key

/-! ### What becomes of a response -/

/-- The entry a 304 leaves: the old one, with a new lifetime. -/
def refreshed (cached : CacheEntry β) (ttl swr now : Time) (fields : Option (List String)) :
    CacheEntry β where
  content := cached.content
  headers := cached.headers
  etag := cached.etag
  createdAt := now
  ttl := ttl
  lastAccessed := now
  size := cached.size
  statusCode := cached.statusCode
  staleWhileRevalidate := swr
  varyHeaders := match fields with
    | some (f :: fs) => some (f :: fs)
    | _ => cached.varyHeaders

/-- The entry any other cacheable response makes. -/
def newEntry (r : OriginResponse β) (ttl swr now : Time) (fields : Option (List String)) :
    CacheEntry β where
  content := r.content
  headers := r.headers
  etag := r.etag
  createdAt := now
  ttl := ttl
  lastAccessed := now
  size := S.size r.content
  statusCode := r.statusCode
  staleWhileRevalidate := swr
  varyHeaders := fields

/-- `parse_cache_control`, where there is a header to parse. -/
def directivesOf (headers : Headers) : Except Exn CacheDirectives :=
  let ccHeader := headers.getD "cache-control" ""
  if ccHeader ≠ "" then parseCacheControl ccHeader else .ok {}

/-- What `_do_fetch_and_cache` does with the origin's response: what it puts into the
store and under which key, if anything, and what it returns. -/
def settle (call : Call β) (r : OriginResponse β) (now : Time) :
    Except Exn (Option (String × CacheEntry β) × Response β) := do
  let directives ← directivesOf r.headers
  let fields := varyFields r.headers
  if !directives.isCacheable then
    return (none, ⟨r.content, r.statusCode, r.headers, false⟩)
  let ttl ← directives.effectiveTtl S.defaultTtl
  let swr ← directives.effectiveStaleWhileRevalidate
  match if r.statusCode = 304 then call.cached else none with
  | some cached =>
      let e := refreshed cached ttl swr now fields
      return (some (call.key, e), ⟨e.content, e.statusCode, e.headers, false⟩)
  | none =>
      return (some (fileKey S call fields, newEntry S r ttl swr now fields),
        ⟨r.content, r.statusCode, r.headers, false⟩)

namespace Edge

/-! ### Tasks and events -/

variable (s : Edge β)

/-- A new task; its number is the number of tasks there were. -/
def push (call : Call β) (phase : Phase β) : Edge β :=
  { s with tasks := s.tasks ++ [⟨call, phase⟩] }

def setPhase (t : Nat) (phase : Phase β) : Edge β :=
  { s with tasks := s.tasks.modify t fun τ => { τ with phase } }

/-- A key that has just been looked up. -/
def read (key : String) : Edge β := { s with cacheStore := (s.cacheStore.get s.wall key).2 }

/-- `put`, of what there is to put. -/
def file (filed : Option (String × CacheEntry β)) : Edge β :=
  match filed with
  | some (key, e) => { s with cacheStore := s.cacheStore.put key e }
  | none => s

/-- Where a task stands once its `_do_fetch_and_cache` has returned or raised.  A leader
answers a refusal of the breaker itself; a background task keeps every exception to
itself, but a cancellation is none. -/
def endPhase (role : Role) (call : Call β) (result : Except Exn (Reply β)) : Phase β :=
  match role, result with
  | .background, .error .cancelled => .raised .cancelled
  | .background, _ => .finished
  | .leader _, .error (.circuitOpen _) => .returned (.ofRejected call.cached)
  | _, .ok reply => .returned reply
  | _, .error x => .raised x

/-- The rest of the segment after `_do_fetch_and_cache`, the `finally` blocks included. -/
def conclude (t : Nat) (role : Role) (call : Call β) (result : Except Exn (Reply β)) : Edge β :=
  let s := s.setPhase t (endPhase role call result)
  match role with
  | .leader event =>
      { s with events := s.events.set event true, inflight := s.inflight.erase call.key }
  | .follower => s
  | .background => { s with revalidationTasks := s.revalidationTasks.erase t }

/-! ### The segments of `get_or_fetch` -/

/-- The request goes out to the origin. -/
def send (t : Nat) (role : Role) (call : Call β) (breaker : CircuitBreaker) : Edge β :=
  let sent := { s with
    circuitBreaker := breaker
    originCalls := s.originCalls ++ [OriginCall.mk t call.path (fetchHeaders call.cached)] }
  sent.setPhase t (.fetching role none)

/-- `_do_fetch_and_cache` up to the origin: ask the breaker, then send the request. -/
def beginFetch (t : Nat) (role : Role) (call : Call β) : Edge β :=
  match s.circuitBreaker.aenter s.mono with
  | .error x => s.conclude t role call (.error x)
  | .ok breaker => s.send t role call breaker

/-- A new event, filed in the table under the key of a call that begins to lead. -/
def register (call : Call β) : Edge β :=
  let registered := { s with
    events := s.events ++ [false], inflight := s.inflight.set call.key s.events.length }
  registered.push call .running

/-- The leader path. -/
def lead (call : Call β) : Edge β :=
  (s.register call).beginFetch s.tasks.length (.leader s.events.length) call

/-- From the circuit check on.  An event in the table is never set, so a call that finds
one always suspends. -/
def fetchOrWait (call : Call β) : Edge β :=
  if s.circuitBreaker.stateAt s.mono = .open then s.push call (.returned (.ofOpen call.cached))
  else match s.inflight.get? call.key with
    | some event => s.push call (.waiting event)
    | none => s.lead call

/-- A background task, created and kept in the service's set of them. -/
def schedule (call : Call β) : Edge β :=
  let created := s.push call .scheduled
  { created with revalidationTasks := s.revalidationTasks ++ [s.tasks.length] }

/-- `_schedule_background_revalidation`. -/
def scheduleRevalidation (call : Call β) : Edge β :=
  if s.inflight.contains call.key then s else s.schedule call

/-- The call `get_or_fetch` is once it has looked into the store. -/
def arrival (path : String) (requestHeaders : Option Headers) : Call β where
  key := keyOf S path requestHeaders
  path := path
  requestHeaders := requestHeaders
  cached := (s.cacheStore.get s.wall (keyOf S path requestHeaders)).1
  began := s.wall

/-- The first segment of `get_or_fetch`.  `touch` writes the time `get` has just written. -/
def getOrFetch (path : String) (requestHeaders : Option Headers) : Edge β :=
  let call := s.arrival S path requestHeaders
  let s := s.read call.key
  match call.cached with
  | none => s.fetchOrWait call
  | some e =>
      if !e.isExpired s.wall then s.push call (.returned (.fresh e))
      else if e.isStaleServable s.wall then
        (s.push call (.returned (.stale e))).scheduleRevalidation call
      else s.fetchOrWait call

/-- The segment of a call that has waited for the leader. -/
def afterWait (t : Nat) (call : Call β) : Edge β :=
  let found := (s.cacheStore.get s.wall call.key).1
  let s := s.read call.key
  match found with
  | some e => s.setPhase t (.returned (.coalesced e))
  | none => s.beginFetch t .follower call

/-- The segment that follows the origin's answer: the breaker's `__aexit__`, then the
rest of `_do_fetch_and_cache` and of its caller. -/
def afterFetch (t : Nat) (role : Role) (call : Call β) (outcome : FetchOutcome β) : Edge β :=
  match outcome with
  | .failed =>
      let s := { s with circuitBreaker := s.circuitBreaker.recordFailure s.mono }
      s.conclude t role call (.error .fetch)
  | .answered r =>
      let s := { s with circuitBreaker := s.circuitBreaker.recordSuccess }
      match settle S call r s.wall with
      | .error x => s.conclude t role call (.error x)
      | .ok (filed, response) => (s.file filed).conclude t role call (.ok (.fetched response))

/-! ### What the event loop can do to a task -/

/-- The origin is done with a task's request. -/
def answer (t : Nat) (outcome : FetchOutcome β) : Option (Edge β) :=
  match s.tasks[t]? with
  | some ⟨_, .fetching role none⟩ => some (s.setPhase t (.fetching role (some outcome)))
  | _ => none

/-- A task that can go on goes on. -/
def resume (t : Nat) : Option (Edge β) :=
  match s.tasks[t]? with
  | some ⟨call, .scheduled⟩ => some (s.beginFetch t .background call)
  | some ⟨call, .waiting event⟩ =>
      if s.events[event]? = some true then some (s.afterWait t call) else none
  | some ⟨call, .fetching role (some outcome)⟩ => some (s.afterFetch S t role call outcome)
  | _ => none

/-- `CancelledError` is raised where a task is suspended.  A background task that has not
run yet never enters its `try`. -/
def cancel (t : Nat) : Option (Edge β) :=
  match s.tasks[t]? with
  | some ⟨_, .scheduled⟩ => some (s.setPhase t (.raised .cancelled))
  | some ⟨_, .waiting _⟩ => some (s.setPhase t (.raised .cancelled))
  | some ⟨call, .fetching role _⟩ =>
      let s := { s with circuitBreaker := s.circuitBreaker.recordFailure s.mono }
      some (s.conclude t role call (.error .cancelled))
  | _ => none

end Edge

end Cdn

/-
The router's proxy.

A request goes to the edges in the order of the routing service, to the next one where an
edge does not answer, and to three at most.  The answer of the first that does is passed
on: the body as the HTTP client hands it out, the headers as they came, less those that
are only for one hop.
-/
import Cdn.Application.RoutingService
import Cdn.Presentation.Framework

namespace Cdn

namespace Router

/-- Headers that must not be forwarded between hops. -/
def hopByHopHeaders : List String :=
  ["connection", "keep-alive", "proxy-authenticate", "proxy-authorization", "te", "trailer",
    "transfer-encoding", "upgrade"]

def maxFailoverAttempts : Nat := 2

/-- `_filter_request_headers`. -/
def filterRequestHeaders (headers : Headers) : Headers :=
  headers.filter fun key =>
    !((hopByHopHeaders ++ ["host", "x-client-region"]).contains (Http.lowerName key))

/-- `_filter_response_headers`. -/
def filterResponseHeaders (headers : Headers) : Headers :=
  headers.filter fun key => !(hopByHopHeaders.contains (Http.lowerName key))

/-- What the proxy reads of a request. -/
structure Request where
  /-- `request.url.path`. -/
  path : String
  headers : Headers
  queryParams : Dict String String

/-- The URL of a request at an edge. -/
def edgeUrl (edge : EdgeNode) (request : Request) : String :=
  "http://" ++ edge.host ++ ":" ++ toString edge.port ++ "/" ++
    String.ofList (request.path.toList.dropWhile (· = '/'))

/-- What becomes of each `client.get`, by its number: a response, or an exception. -/
abbrev Client := Nat → String → Headers → Dict String String → Option Http.Received

/-- What an edge's response is passed on as. -/
def relay (edge : EdgeNode) (requestId : String) (response : Http.Received) : HttpResponse where
  content := response.content
  statusCode := response.statusCode
  headers :=
    (((filterResponseHeaders response.headers).set "X-CDN-Edge" edge.id).set
      "X-CDN-Region" edge.region).set "X-Request-Id" requestId
  mediaType := response.headers.get? "content-type"

/-- A response, the service as it is left, and the attempt that was answered, with its
edge. -/
structure Proxied where
  response : HttpResponse
  routing : RoutingService
  answered : Option (Nat × EdgeNode) := none

def unavailable (text : String) : HttpResponse := { statusCode := 503, content := utf8 text }

/-- What becomes of the call to an edge as attempt `i`. -/
def contact (client : Client) (request : Request) (i : Nat) (edge : EdgeNode) :
    Option Http.Received :=
  client i (edgeUrl edge request) (filterRequestHeaders request.headers) request.queryParams

/-- The loop over the attempts, from attempt `i` on, with the edges it has called. -/
def recordedAttempts (client : Client) (request : Request) (requestId : String) (i : Nat) :
    List EdgeNode → RoutingService → Proxied × List EdgeNode
  | [], routing => (⟨unavailable "All edge nodes failed to serve the request", routing, none⟩, [])
  | edge :: rest, routing =>
      match contact client request i edge with
      | some response => (⟨relay edge requestId response, routing, some (i, edge)⟩, [edge])
      | none =>
          let (proxied, contacted) := recordedAttempts client request requestId (i + 1) rest
            (routing.markUnhealthy edge.id)
          (proxied, edge :: contacted)

/-- `_proxy_to_edge`, with the edges it has called. -/
def recordedProxy (client : Client) (request : Request) (requestId region : String)
    (routing : RoutingService) : Proxied × List EdgeNode :=
  match routing.getOrderedEdges region with
  | [] => (⟨unavailable "No healthy edge nodes available", routing, none⟩, [])
  | edges =>
      recordedAttempts client request requestId 0 (edges.take (maxFailoverAttempts + 1)) routing

/-- `_proxy_to_edge`. -/
def proxyToEdge (client : Client) (request : Request) (requestId region : String)
    (routing : RoutingService) : Proxied :=
  (recordedProxy client request requestId region routing).1

/-! ### Why a call raises -/

/-- The exceptions of a call: three kinds of error of the transport, and any other. -/
inductive Failure where
  | connection
  | network
  | timeout
  | other
deriving DecidableEq, Repr

/-- The failure is one of the transport. -/
def Failure.transport : Failure → Bool
  | connection | network | timeout => true
  | other => false

/-- What becomes of each `client.get`, with the exception. -/
abbrev Calls := Nat → String → Headers → Dict String String → Except Failure Http.Received

/-- `except (httpx.RequestError, Exception)`: all exceptions are one to the proxy. -/
def caught (calls : Calls) : Client := fun i url headers queryParams =>
  (calls i url headers queryParams).toOption

end Router

end Cdn

/-
The purge service of the management API, and the edges it talks to.

The service sends one request to each edge and looks only at the status that comes
back.  A network of edges is what answers: each edge has a base URL, and an edge that
is down raises.
-/
import Cdn.Edge

namespace Cdn

/-- `DELETE {edge_url}/internal/purge?{param}={value}`; the value is quoted. -/
structure PurgeRequest where
  edgeUrl : String
  param : String
  value : String
deriving DecidableEq, Repr

/-- The parameter of that name, as the edge's framework reads it. -/
def PurgeRequest.query (r : PurgeRequest) (name : String) : Option String :=
  if r.param = name then unquote r.value else none

/-! ### The service -/

section service

variable {σ : Type} (delete : PurgeRequest → σ → Option Int × σ)

/-- One round of the loop; a request that raises is a failure. -/
def purgeEdge (param text : String) (sofar : Dict String Bool × σ) (edgeUrl : String) :
    Dict String Bool × σ :=
  let (status, world) := delete ⟨edgeUrl, param, quote text⟩ sofar.2
  let success := match status with
    | some status => status = 200 || status = 204
    | none => false
  (sofar.1.set edgeUrl success, world)

def purgeEdges (param : String) (edgeUrls : List String) (text : String) (world : σ) :
    Dict String Bool × σ :=
  edgeUrls.foldl (purgeEdge delete param text) (∅, world)

def purgeUrl (edgeUrls : List String) (url : String) (world : σ) : Dict String Bool × σ :=
  purgeEdges delete "url" edgeUrls url world

def purgePrefix (edgeUrls : List String) (keyPrefix : String) (world : σ) :
    Dict String Bool × σ :=
  purgeEdges delete "prefix" edgeUrls keyPrefix world

end service

/-! ### The edges -/

variable {β : Type}

/-- The edges there are, by their base URLs. -/
abbrev Network (β : Type) := String → Edge β

/-- What a purge request does to a network in which only some edges are up. -/
def Network.delete (up : String → Bool) (r : PurgeRequest) (net : Network β) :
    Option Int × Network β :=
  let edge := net r.edgeUrl
  if up r.edgeUrl then
    (some (purgeStatus (purgeCache edge.cacheStore (r.query "url") (r.query "prefix")).1),
      Function.update net r.edgeUrl (edge.purge (r.query "url") (r.query "prefix")))
  else (none, net)

end Cdn

/-
The metrics of the management API.

`get_metrics` asks one edge after the other for the statistics of its store, keeps what each of
them has said, and adds up five counters.  In between anything may happen at any edge, other polls
included, so that the sums need not be those of any moment.

What an edge says is what its store counts when it handles the request.  The answer may come back
later than that, but a poll does nothing in between.
-/
import Cdn.Fleet

namespace Cdn

namespace Management

/-- `aggregate`. -/
structure Aggregate where
  totalEntries : Nat := 0
  totalSizeBytes : Int := 0
  hitCount : Nat := 0
  missCount : Nat := 0
  evictionCount : Nat := 0
deriving DecidableEq

/-- One turn of the inner loop for each counter; the statistics of an edge have all five. -/
def Aggregate.add (a : Aggregate) (stats : LruCacheStore.Stats) : Aggregate where
  totalEntries := a.totalEntries + stats.totalEntries
  totalSizeBytes := a.totalSizeBytes + stats.totalSizeBytes
  hitCount := a.hitCount + stats.hitCount
  missCount := a.missCount + stats.missCount
  evictionCount := a.evictionCount + stats.evictionCount

/-- `hit_ratio`, exact here. -/
def Aggregate.hitRatio (a : Aggregate) : Rat :=
  let total := a.hitCount + a.missCount
  if 0 < total then (a.hitCount : Rat) / total else 0

/-- What `per_edge` says of an edge: its statistics, or the text of an error. -/
abbrev EdgeReport := Except String LruCacheStore.Stats

/-- A call of `get_metrics`; `left` begins with the edge that is asked now. -/
structure Poll where
  left : List String
  perEdge : Dict String EdgeReport := ∅
  aggregate : Aggregate := {}

/-- What the request to an edge has come to is noted, and the next edge is asked. -/
def Poll.note (poll : Poll) (edgeUrl : String) (rest : List String) (report : EdgeReport) :
    Poll where
  left := rest
  perEdge := poll.perEdge.set edgeUrl report
  aggregate :=
    match report with
    | .ok stats => poll.aggregate.add stats
    | .error _ => poll.aggregate

end Management

namespace Monitor

inductive Action where
  /-- What happens at the edges, in the files and to purges. -/
  | fleet (a : Fleet.Action)
  /-- `get_metrics` is called. -/
  | poll
  /-- The edge that a poll asks answers with its statistics. -/
  | stats (poll : Nat)
  /-- It answers with another status than 200. -/
  | refused (poll : Nat) (statusCode : Int)
  /-- The request raises. -/
  | raised (poll : Nat) (text : String)

end Monitor

structure Monitor where
  fleet : Fleet
  polls : List Management.Poll := []

namespace Monitor

open Management

variable (C : Fleet.Setup) (s : Monitor)

/-- A poll goes on with what the edge that it asks has come to. -/
def hear (i : Nat) (report : String → EdgeReport) : Option Monitor :=
  match s.polls[i]? with
  | some poll =>
      match poll.left with
      | edgeUrl :: rest =>
          some { s with polls := s.polls.set i (poll.note edgeUrl rest (report edgeUrl)) }
      | [] => none
  | none => none

def step : Action → Option Monitor
  | .fleet a => (s.fleet.step C a).map fun fleet => { s with fleet }
  | .poll => some { s with polls := s.polls ++ [{ left := C.edgeUrls }] }
  | .stats i => s.hear i fun edgeUrl => .ok (s.fleet.edges edgeUrl).cacheStore.stats
  | .refused i statusCode =>
      if statusCode = 200 then none
      else s.hear i fun _ => .error ("HTTP " ++ toString statusCode)
  | .raised i text => s.hear i fun _ => .error text

/-! ### What a step does -/

/-- The ways a step can go. -/
inductive Moved (s : Monitor) : Action → Monitor → Prop where
  | fleet {a : Fleet.Action} {fleet : Fleet} (hstep : s.fleet.step C a = some fleet) :
      Moved s (.fleet a) { s with fleet }
  | polled : Moved s .poll { s with polls := s.polls ++ [{ left := C.edgeUrls }] }
  | heard {a : Action} {i : Nat} {poll : Poll} {edgeUrl : String} {rest : List String}
      {report : EdgeReport} (hi : s.polls[i]? = some poll) (hleft : poll.left = edgeUrl :: rest)
      (hreport : ∀ stats, report = .ok stats →
        stats = (s.fleet.edges edgeUrl).cacheStore.stats) :
      Moved s a { s with polls := s.polls.set i (poll.note edgeUrl rest report) }

variable {C s} {s' : Monitor}

theorem moved_of_hear {a : Action} {i : Nat} {report : String → EdgeReport}
    (hreport : ∀ edgeUrl stats, report edgeUrl = .ok stats →
      stats = (s.fleet.edges edgeUrl).cacheStore.stats)
    (h : s.hear i report = some s') : Moved C s a s' := by
  unfold hear at h
  split at h
  · rename_i poll hi
    split at h
    · rename_i edgeUrl rest hleft
      cases h
      exact Moved.heard hi hleft (hreport edgeUrl)
    · cases h
  · cases h

theorem moved_of_step {a : Action} (h : s.step C a = some s') : Moved C s a s' := by
  cases a with
  | fleet a =>
      obtain ⟨fleet, hstep, rfl⟩ := Option.map_eq_some_iff.mp h
      exact Moved.fleet hstep
  | poll => cases h; exact Moved.polled
  | stats i => exact moved_of_hear (fun edgeUrl stats hstats => by cases hstats; rfl) h
  | refused i statusCode =>
      simp only [step] at h
      split at h
      · cases h
      · exact moved_of_hear (fun edgeUrl stats hstats => by cases hstats) h
  | raised i text => exact moved_of_hear (fun edgeUrl stats hstats => by cases hstats) h

end Monitor

end Cdn

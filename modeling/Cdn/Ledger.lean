/-
An edge, with a record of who wrote what.

The store keeps no word of the request whose response it holds.  Beside the edge the ledger
notes, for each key, the call and the response because of which the key was last written;
no step of the edge reads it.
-/
import Cdn.Edge

namespace Cdn

variable {β : Type}

/-- Whose response was written. -/
structure Writer (β : Type) where
  call : Call β
  response : OriginResponse β

namespace Writer

/-- The fields that the response's Vary names. -/
def fields (w : Writer β) : List String := (varyFields w.response.headers).getD []

end Writer

/-- The value of a request header, an absent one as empty. -/
def fieldValue (requestHeaders : Option Headers) (field : String) : String :=
  match requestHeaders with
  | some headers => (normalized headers).getD field ""
  | none => ""

structure Ledger (β : Type) where
  edge : Edge β
  writers : Dict String (Writer β) := ∅

namespace Ledger

variable (S : Setup β)

/-- The key a step writes, and because of what. -/
def written (s : Edge β) : Action β → Option (String × Writer β)
  | .resume t =>
      match s.tasks[t]? with
      | some ⟨call, .fetching _ (some (.answered r))⟩ =>
          match settle S call r s.wall with
          | .ok (some (key, _), _) => some (key, ⟨call, r⟩)
          | _ => none
      | _ => none
  | _ => none

def note (l : Ledger β) (a : Action β) : Dict String (Writer β) :=
  match written S l.edge a with
  | some (key, w) => l.writers.set key w
  | none => l.writers

def step (l : Ledger β) (a : Action β) : Option (Ledger β) :=
  (l.edge.step S a).map fun edge => ⟨edge, l.note S a⟩

def start (maxSizeBytes : Int) (breaker : CircuitBreaker) (wall mono : Time) : Ledger β where
  edge := .start { maxSizeBytes } breaker wall mono

variable {S} {l l' : Ledger β} {a : Action β}

theorem step_eq_some (h : l.step S a = some l') :
    l.edge.step S a = some l'.edge ∧ l'.writers = l.note S a := by
  obtain ⟨edge, hedge, rfl⟩ := Option.map_eq_some_iff.mp h
  exact ⟨hedge, rfl⟩

end Ledger

end Cdn

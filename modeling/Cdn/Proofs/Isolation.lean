/-
Keys that share a directory.

The name of a directory is a lossy rewriting of the key, and nothing compares the key
that was written with the key that is asked for.  So two keys with one name share a
directory: whoever reads it gets the other's entry, and whoever writes or deletes it
takes the other's entry away.

An operation keeps to its key exactly if it is clear, that is, if the directories it
touches are nobody else's.
-/
import Cdn.Proofs.TieredMap

namespace Cdn

open TieredCacheStore

variable {β : Type}

namespace Session

variable {s s' : Session β} {a : Time × StoreOp β}

/-- What is answered was put under the key that is asked for. -/
def Sourced (s : Session β) (a : Time × StoreOp β) : Prop :=
  match a.2 with
  | .get key => ∀ e ∈ (s.store.get a.1 key).1,
      ∃ ke ∈ s.puts, ke.1 = key ∧ ke.2.payload = e.payload
  | _ => True

instance [DecidableEq β] (s : Session β) (a : Time × StoreOp β) : Decidable (s.Sourced a) :=
  match a with
  | (now, .get key) => inferInstanceAs (Decidable (∀ e ∈ (s.store.get now key).1,
      ∃ ke ∈ s.puts, ke.1 = key ∧ ke.2.payload = e.payload))
  | (_, .put _ _) | (_, .delete _) | (_, .deleteByPrefix _) | (_, .keys) =>
      inferInstanceAs (Decidable True)

end Session

end Cdn

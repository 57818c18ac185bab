/-
Tables of tallies.

Something is counted in a commutative monoid, and there is one tally for each key.  However the
events are spread over the keys, the tallies together come to what the events come to: putting
one more event in a tally adds it to the total, and a loop adds what its steps add.
-/
import Cdn.Lib.Dict

namespace Tally

variable {α β σ ε M : Type} [AddCommMonoid M]

/-- A loop adds what its steps add. -/
theorem measure_foldl {step : σ → ε → σ} (measure : σ → M) (weight : ε → M)
    (h : ∀ s e, measure (step s e) = measure s + weight e) (s : σ) (events : List ε) :
    measure (events.foldl step s) = measure s + (events.map weight).sum := by
  induction events generalizing s with
  | nil => exact (add_zero _).symm
  | cons e rest ih => rw [List.foldl_cons, ih, h, List.map_cons, List.sum_cons, add_assoc]

/-- What the values of a table come to together; unlike `Dict.sum`, without taking anything
away again. -/
def total (count : β → M) (d : Dict α β) : M := (d.items.map fun kv => count kv.2).sum

variable [DecidableEq α] {count : β → M}

/-- **What is added to one tally is added to the total.** -/
theorem total_set {start : β} (hstart : count start = 0) (d : Dict α β) {k : α} {v : β} {w : M}
    (hv : count v = count (d.getD k start) + w) : total count (d.set k v) = total count d + w := by
  have hset : total count (d.set k v) = count v + total count (d.erase k) := by
    rw [total, ((d.perm_set k v).map _).sum_eq]
    rfl
  have hold : total count d = count (d.getD k start) + total count (d.erase k) := by
    rw [Dict.getD]
    cases hget : d.get? k with
    | none => rw [Option.getD_none, hstart, zero_add, Dict.erase_of_get?_eq_none hget]
    | some old =>
        rw [total, ((Dict.perm_of_get? hget).map _).sum_eq]
        rfl
  rw [hset, hold, hv, add_right_comm]

end Tally

/-
Which rank a percentile has.

The nearest rank of `p` percent of `n` values is the least whole number from `n * p / 100` on,
and a sorted list has it at the position before.  The collector reads at the whole part of
`n * p / 100`.  That is the same position unless `n * p / 100` is a whole number itself, when
it is the next one; at a hundred percent the clamp takes it back.
-/
import Cdn.Application.MetricsService
import Cdn.Lib.Ranks

namespace Cdn

namespace InMemoryMetricsCollector

variable {data : List Time} {p : ℚ}

/-- The least value that at least `p` percent of the values do not exceed. -/
structure NearestRank (data : List Time) (p : ℚ) (v : Time) : Prop where
  mem : v ∈ data
  enough : p / 100 * data.length ≤ (data.countP (· ≤ v) : ℚ)
  least : ∀ w ∈ data, p / 100 * data.length ≤ (data.countP (· ≤ w) : ℚ) → v ≤ w

/-- The rank of a percentile. -/
def rank (length : Nat) (p : ℚ) : Nat := ⌈length * p / 100⌉₊

theorem nearestRank_iff {v : Time} :
    NearestRank data p v ↔ Ranks.IsRank data (rank data.length p) v := by
  have henough : ∀ w, p / 100 * data.length ≤ (data.countP (· ≤ w) : ℚ) ↔
      rank data.length p ≤ Ranks.upTo data w := by
    intro w
    rw [rank, Nat.ceil_le, div_mul_comm, div_mul_eq_mul_div]
    rfl
  constructor
  · intro h
    exact ⟨h.mem, (henough v).mp h.enough, fun w hw hle => h.least w hw ((henough w).mpr hle)⟩
  · intro h
    exact ⟨h.mem, (henough v).mpr h.enough, fun w hw hle => h.least w hw ((henough w).mp hle)⟩

theorem length_sorted (data : List Time) : (sorted data).length = data.length :=
  List.length_insertionSort _ data

/-- The index stays inside of the list. -/
theorem percentileIndex_lt {n : Nat} (hn : 0 < n) (p : ℚ) : (percentileIndex n p).toNat < n := by
  unfold percentileIndex
  omega

theorem percentile_eq (hne : data ≠ []) (p : ℚ) :
    (sorted data)[(percentileIndex data.length p).toNat]? = some (percentile data p) := by
  have hlt : (percentileIndex data.length p).toNat < (sorted data).length := by
    rw [length_sorted]
    exact percentileIndex_lt (List.length_pos_iff.mpr hne) p
  rw [percentile, if_neg hne, List.getD_eq_getElem?_getD, length_sorted,
    List.getElem?_eq_getElem hlt, Option.getD_some]

/-! ### The position before the rank -/

variable {n : Nat}

theorem rank_pos (hn : 0 < n) (hpos : 0 < p) : 0 < rank n p := by
  rw [rank, Nat.ceil_pos]
  positivity

theorem rank_le (hle : p ≤ 100) : rank n p ≤ n := by
  rw [rank, Nat.ceil_le, div_le_iff₀ (by norm_num)]
  exact mul_le_mul_of_nonneg_left hle (Nat.cast_nonneg n)

/-- **The nearest rank is at the position before it.** -/
theorem nearestRank_iff_getElem? (hne : data ≠ []) (hpos : 0 < p) (hle : p ≤ 100) {v : Time} :
    NearestRank data p v ↔ (sorted data)[rank data.length p - 1]? = some v := by
  have hrank : 0 < rank data.length p := rank_pos (List.length_pos_iff.mpr hne) hpos
  have hlt : rank data.length p - 1 < (sorted data).length := by
    have hbound : rank data.length p ≤ data.length := rank_le hle
    rw [length_sorted]
    omega
  have hat : Ranks.IsRank data (rank data.length p) (sorted data)[rank data.length p - 1] := by
    have hsorted := Ranks.isRank_insertionSort (l := data) hlt
    rwa [Nat.sub_add_cancel hrank] at hsorted
  rw [nearestRank_iff, List.getElem?_eq_getElem hlt, Option.some.injEq]
  constructor
  · intro hv
    exact hat.unique hv
  · intro hv
    exact hv ▸ hat

theorem toNat_percentileIndex (hpos : 0 < p) :
    (percentileIndex n p).toNat = min ⌊n * p / 100⌋₊ (n - 1) := by
  have hnonneg : 0 ≤ n * p / 100 := by positivity
  rw [percentileIndex, truncate, if_pos hnonneg, ← Int.natCast_floor_eq_floor hnonneg]
  omega

/-- At a whole number the index is the rank and not the position before it. -/
theorem percentileIndex_of_whole (hpos : 0 < p) {j : Nat} (hj : (j : ℚ) = n * p / 100)
    (hlt : j < n) : (percentileIndex n p).toNat = j ∧ rank n p = j := by
  rw [toNat_percentileIndex hpos, rank, ← hj, Nat.floor_natCast, Nat.ceil_natCast]
  exact ⟨min_eq_left (Nat.le_sub_one_of_lt hlt), rfl⟩

/-- Everywhere else it is the position before the rank. -/
theorem percentileIndex_of_not_whole (hpos : 0 < p) (hle : p ≤ 100)
    (h : ∀ j : Nat, (j : ℚ) = n * p / 100 → n ≤ j) :
    (percentileIndex n p).toNat = rank n p - 1 := by
  have hnonneg : 0 ≤ n * p / 100 := by positivity
  have hbound : n * p / 100 ≤ n := by
    rw [div_le_iff₀ (by norm_num)]
    exact mul_le_mul_of_nonneg_left hle (Nat.cast_nonneg n)
  rw [toNat_percentileIndex hpos]
  by_cases hwhole : (⌊n * p / 100⌋₊ : ℚ) = n * p / 100
  · have hfloor : ⌊n * p / 100⌋₊ = n :=
      le_antisymm (Nat.floor_le_of_le hbound) (h _ hwhole)
    rw [rank, ← hwhole, Nat.ceil_natCast, hfloor]
    exact min_eq_right (Nat.sub_le n 1)
  · have hlt : (⌊n * p / 100⌋₊ : ℚ) < n * p / 100 :=
      lt_of_le_of_ne (Nat.floor_le hnonneg) hwhole
    have hceil : rank n p = ⌊n * p / 100⌋₊ + 1 := by
      rw [rank, Nat.ceil_eq_iff (Nat.succ_ne_zero _)]
      exact ⟨hlt, by exact_mod_cast (Nat.lt_floor_add_one _).le⟩
    have hfloor : ⌊n * p / 100⌋₊ < n := by exact_mod_cast hlt.trans_le hbound
    rw [hceil]
    omega

/-! ### When the percentile is the nearest rank -/

/-- If the rank comes out as a whole number, the value behind it is the same. -/
def Settled (data : List Time) (p : ℚ) : Prop :=
  ∀ j : Nat, (j : ℚ) = data.length * p / 100 → j < data.length →
    (sorted data)[j - 1]? = (sorted data)[j]?

/-- **The percentile is the nearest rank**, unless the rank comes out as a whole number of values
and the next value is another. -/
theorem percentile_nearestRank_iff (hne : data ≠ []) (hpos : 0 < p) (hle : p ≤ 100) :
    NearestRank data p (percentile data p) ↔ Settled data p := by
  rw [nearestRank_iff_getElem? hne hpos hle, ← percentile_eq hne p]
  by_cases hwhole : ∃ j : Nat, (j : ℚ) = data.length * p / 100 ∧ j < data.length
  · obtain ⟨j, hj, hlt⟩ := hwhole
    obtain ⟨hindex, hrank⟩ := percentileIndex_of_whole hpos hj hlt
    rw [hindex, hrank]
    constructor
    · intro h i hi _
      rw [show i = j by exact_mod_cast hi.trans hj.symm]
      exact h
    · intro h
      exact h j hj hlt
  · have hnot : ∀ j : Nat, (j : ℚ) = data.length * p / 100 → data.length ≤ j :=
      fun j hj => not_lt.mp fun hlt => hwhole ⟨j, hj, hlt⟩
    rw [percentileIndex_of_not_whole hpos hle hnot]
    exact iff_of_true rfl fun j hj hlt => absurd ⟨j, hj, hlt⟩ hwhole

/-- Of three values the second is the median, and no rank comes out whole. -/
theorem percentile_nearestRank_iff_three : NearestRank [3, 1, 2] 50 (percentile [3, 1, 2] 50) :=
  (percentile_nearestRank_iff (by decide) (by norm_num) (by norm_num)).mpr fun j hj _ => by
    have htwice : ((2 * j : Nat) : ℚ) = (3 : Nat) := by
      push_cast
      rw [hj]
      norm_num
    have hwhole : 2 * j = 3 := by exact_mod_cast htwice
    omega

/-- Of two values the first is the median, and the percentile is the second. -/
theorem not_nearestRank_two :
    percentile [1, 2] 50 = 2 ∧ ¬ NearestRank [1, 2] 50 (percentile [1, 2] 50) := by
  have hsecond : percentile [1, 2] 50 = 2 := by decide +kernel
  refine ⟨hsecond, fun h => ?_⟩
  rw [hsecond] at h
  have hfirst : (2 : Time) ≤ 1 := h.least 1 (by simp) (by decide +kernel)
  exact absurd hfirst (by norm_num)

end InMemoryMetricsCollector

end Cdn

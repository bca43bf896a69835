import Mathlib.Algebra.Order.Round
import Mathlib.Algebra.Order.Field.Basic
import Mathlib.Tactic.Linarith
import Mathlib.Tactic.NormNum

namespace Rounding

variable {K : Type} [LinearOrder K]

def clamp (low high x : K) : K := if x < low then low else if high < x then high else x

section Clamp

variable {low high x y z : K}

theorem clamp_eq (h : low ≤ high) : clamp low high x = max low (min high x) := by
  unfold clamp
  split_ifs with hlow hhigh
  · rw [max_eq_left ((min_le_right _ _).trans hlow.le)]
  · rw [min_eq_left hhigh.le, max_eq_right h]
  · rw [min_eq_right (le_of_not_gt hhigh), max_eq_right (le_of_not_gt hlow)]

theorem clamp_mem (h : low ≤ high) : low ≤ clamp low high x ∧ clamp low high x ≤ high := by
  rw [clamp_eq h]
  exact ⟨le_max_left _ _,max_le h (min_le_left _ _)⟩

theorem clamp_mono (h : low ≤ high) (hxy : x ≤ y) : clamp low high x ≤ clamp low high y := by
  rw [clamp_eq h, clamp_eq h]
  exact max_le_max_left _ (min_le_min_left _ hxy)

theorem le_clamp (h : low ≤ high) (hhigh : z ≤ high) (hx : z ≤ x) : z ≤ clamp low high x := by
  rw [clamp_eq h]
  exact (le_min hhigh hx).trans (le_max_right _ _)

theorem clamp_le (h : low ≤ high) (hlow : low ≤ z) (hx : x ≤ z) : clamp low high x ≤ z := by
  rw [clamp_eq h]
  exact max_le hlow ((min_le_right _ _).trans hx)

theorem clamp_of_mem (hlow : low ≤ x) (hhigh : x ≤ high) : clamp low high x = x := by
  unfold clamp
  rw [if_neg (not_lt.mpr hlow), if_neg (not_lt.mpr hhigh)]

theorem clamp_le_iff (h : low ≤ high) (hlow : low ≤ z) (hhigh : z < high) :
    clamp low high x ≤ z ↔ x ≤ z := by
  rw [clamp_eq h, max_le_iff, min_le_iff]
  exact ⟨fun hle => hle.2.resolve_left (not_le.mpr hhigh),fun hx => ⟨hlow,.inr hx⟩⟩

end Clamp

section Round

variable [Field K] [IsStrictOrderedRing K] [FloorRing K] {x y : K}

def roundAway (x : K) : ℤ := if 0 ≤ x then round x else -round (-x)

theorem roundAway_of_nonneg (h : 0 ≤ x) : roundAway x = ⌊x + 1 / 2⌋ := by
  rw [roundAway, if_pos h, round_eq]

theorem roundAway_of_neg (h : ¬0 ≤ x) : roundAway x = ⌈x - 1 / 2⌉ := by
  rw [roundAway, if_neg h, round_eq, ← Int.ceil_neg, neg_add, neg_neg, sub_eq_add_neg]

theorem roundAway_nonneg (h : 0 ≤ x) : 0 ≤ roundAway x := by
  rw [roundAway_of_nonneg h]
  exact Int.floor_nonneg.mpr (by linarith)

theorem roundAway_nonpos (h : x ≤ 0) : roundAway x ≤ 0 := by
  by_cases hx : 0 ≤ x
  · obtain rfl : x = 0 := le_antisymm h hx
    rw [roundAway_of_nonneg hx]
    refine le_of_eq (Int.floor_eq_iff.mpr ⟨?_,?_⟩) <;> norm_num
  · rw [roundAway_of_neg hx]
    refine Int.ceil_le.mpr ?_
    push_cast
    linarith

theorem roundAway_mono (h : x ≤ y) : roundAway x ≤ roundAway y := by
  by_cases hx : 0 ≤ x
  · rw [roundAway_of_nonneg hx, roundAway_of_nonneg (hx.trans h)]
    exact Int.floor_mono (by linarith)
  · by_cases hy : 0 ≤ y
    · exact (roundAway_nonpos (le_of_not_ge hx)).trans (roundAway_nonneg hy)
    · rw [roundAway_of_neg hx, roundAway_of_neg hy]
      exact Int.ceil_mono (by linarith)

theorem roundAway_intCast (n : ℤ) : roundAway (n : K) = n := by
  by_cases hn : 0 ≤ (n : K)
  · rw [roundAway_of_nonneg hn]
    refine Int.floor_eq_iff.mpr ⟨?_,?_⟩ <;> linarith
  · rw [roundAway_of_neg hn]
    refine Int.ceil_eq_iff.mpr ⟨?_,?_⟩ <;> linarith

theorem abs_roundAway_sub_le (x : K) : |(roundAway x : K) - x| ≤ 1 / 2 := by
  by_cases hx : 0 ≤ x
  case pos =>
    rw [roundAway_of_nonneg hx]
    have hle := Int.floor_le (x + 1 / 2)
    have hlt := Int.lt_floor_add_one (x + 1 / 2)
    exact abs_le.mpr ⟨by linarith,by linarith⟩
  case neg =>
    rw [roundAway_of_neg hx]
    have hle := Int.le_ceil (x - 1 / 2)
    have hlt := Int.ceil_lt_add_one (x - 1 / 2)
    exact abs_le.mpr ⟨by linarith,by linarith⟩

theorem roundAway_le_iff {n : ℤ} (hn : n < 0) : roundAway x ≤ n ↔ x ≤ n + 1 / 2 := by
  have hn' : (n : K) ≤ -1 := by exact_mod_cast Int.le_sub_one_of_lt hn
  by_cases hx : 0 ≤ x
  · have hround := roundAway_nonneg hx
    refine ⟨fun h => ?_,fun h => ?_⟩
    · omega
    · linarith
  · rw [roundAway_of_neg hx, Int.ceil_le]
    exact sub_le_iff_le_add

end Round

end Rounding

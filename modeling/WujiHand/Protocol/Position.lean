import Mathlib.Analysis.Real.Pi.Bounds
import WujiHand.Library.Rounding
import WujiHand.Protocol.Records

namespace WujiHand

namespace Double

def exponent (bits : Buffer8) : Nat := (bits.extractLsb' 52 11).toNat

def fraction (bits : Buffer8) : Nat := (bits.extractLsb' 0 52).toNat

def Finite (bits : Buffer8) : Prop := exponent bits ≠ 0x7FF

instance (bits : Buffer8) : Decidable (Finite bits) := inferInstanceAs (Decidable (_ ≠ _))

def magnitude (bits : Buffer8) : ℚ :=
  if exponent bits = 0 then fraction bits * 2 ^ (-1074 : ℤ)
  else (2 ^ 52 + fraction bits) * 2 ^ ((exponent bits : ℤ) - 1075)

def value (bits : Buffer8) : ℚ := if bits.msb then -magnitude bits else magnitude bits

end Double

structure FiniteDouble where
  bits : Buffer8
  finite : Double.Finite bits

def int32Min : ℤ := -2 ^ 31
def int32Max : ℤ := 2 ^ 31 - 1

noncomputable section

def FiniteDouble.angle (x : FiniteDouble) : ℝ := Double.value x.bits

namespace Exact

def rawScale : ℝ := int32Max / (2 * Real.pi)

def rawStep : ℝ := 2 * Real.pi / int32Max

def toRawPosition (angle : ℝ) : ℤ :=
  Rounding.roundAway (Rounding.clamp (int32Min : ℝ) (int32Max : ℝ) (angle * rawScale))

theorem min_le_max : (int32Min : ℝ) ≤ int32Max := by
  rw [Int.cast_le]
  decide

theorem rawScale_pos : 0 < rawScale := by
  have hmax : (0 : ℝ) < int32Max := by
    rw [Int.cast_pos]
    decide
  have hpi := Real.pi_pos
  unfold rawScale
  positivity

theorem toRawPosition_mem (angle : ℝ) :
    int32Min ≤ toRawPosition angle ∧ toRawPosition angle ≤ int32Max := by
  obtain ⟨hlow,hhigh⟩ := Rounding.clamp_mem min_le_max (x := angle * rawScale)
  refine ⟨?_,?_⟩
  · exact (Rounding.roundAway_intCast (K := ℝ) int32Min).symm.trans_le (Rounding.roundAway_mono hlow)
  · exact (Rounding.roundAway_mono hhigh).trans_eq (Rounding.roundAway_intCast (K := ℝ) int32Max)

theorem toRawPosition_mono {a b : ℝ} (h : a ≤ b) : toRawPosition a ≤ toRawPosition b :=
  Rounding.roundAway_mono (Rounding.clamp_mono min_le_max
    (mul_le_mul_of_nonneg_right h rawScale_pos.le))

theorem toRawPosition_nonneg {angle : ℝ} (h : 0 ≤ angle) : 0 ≤ toRawPosition angle := by
  have hmax : (0 : ℝ) ≤ int32Max := by
    rw [Int.cast_nonneg_iff]
    decide
  exact Rounding.roundAway_nonneg
    (Rounding.le_clamp min_le_max hmax (mul_nonneg h rawScale_pos.le))

theorem toRawPosition_nonpos {angle : ℝ} (h : angle ≤ 0) : toRawPosition angle ≤ 0 := by
  have hmin : (int32Min : ℝ) ≤ 0 := by
    rw [Int.cast_nonpos]
    decide
  exact Rounding.roundAway_nonpos
    (Rounding.clamp_le min_le_max hmin (mul_nonpos_of_nonpos_of_nonneg h rawScale_pos.le))

def Negatable (angle : ℝ) : Prop := int32Min + 1 / 2 < angle * rawScale

theorem toRawPosition_eq_min_iff (angle : ℝ) :
    toRawPosition angle = int32Min ↔ angle * rawScale ≤ int32Min + 1 / 2 := by
  have hmin := (toRawPosition_mem angle).1
  have hgap : (int32Min : ℝ) + 1 / 2 < int32Max := by
    norm_num [int32Min, int32Max]
  rw [← Rounding.clamp_le_iff min_le_max (by linarith) hgap,
    ← Rounding.roundAway_le_iff (by decide)]
  exact ⟨le_of_eq,fun h => le_antisymm h hmin⟩

end Exact

-- A codec whose scaling to the raw value is the one above, without rounding of doubles.
structure ExactCodec extends PositionCodec where
  exact : ∀ x : FiniteDouble, (toRawPosition x.bits).toInt = Exact.toRawPosition x.angle

def ExactCodec.ofExtract (extractRawPosition : BitVec 32 → Buffer8) : ExactCodec where
  toRawPosition := fun bits => BitVec.ofInt 32 (Exact.toRawPosition (Double.value bits))
  extractRawPosition := extractRawPosition
  exact := by
    intro x
    obtain ⟨hlow,hhigh⟩ := Exact.toRawPosition_mem x.angle
    simp only [int32Min, int32Max] at hlow hhigh
    change (BitVec.ofInt 32 (Exact.toRawPosition x.angle)).toInt = Exact.toRawPosition x.angle
    exact BitVec.toInt_ofInt_eq_self (by decide) (by omega) (by omega)

end

def pdoWriteAsyncUnchecked (codec : PositionCodec) (upstreamEnabled : Bool)
    (targetPositions : JointTable Buffer8) (timestamp : BitVec 32) : Pdo.Write where
  enableRead := if upstreamEnabled then 1 else 0
  targetPositions := fun i j =>
    let raw := codec.toRawPosition (targetPositions i j)
    if j.val = 0 ∧ i.val ≠ 0 then -raw else raw
  timestamp := timestamp

end WujiHand

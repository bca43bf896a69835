import WujiHand.Protocol.Position

namespace WujiHand

noncomputable section

namespace Exact

def extractRawPosition (raw : BitVec 32) : ℝ := raw.toInt * rawStep

def storeData (info : StorageInfo) (angle : ℝ) : BitVec 32 :=
  let value := BitVec.ofInt 32 (toRawPosition angle)
  if info.has StorageInfo.positionReversed then -value else value

def loadData (info : StorageInfo) (raw : BitVec 32) : ℝ :=
  let value := extractRawPosition raw
  if info.has StorageInfo.positionReversed then -value else value

theorem int32Max_pos : (0 : ℝ) < int32Max := by
  rw [Int.cast_pos]
  decide

theorem rawStep_pos : 0 < rawStep := by
  have hmax := int32Max_pos
  have hpi := Real.pi_pos
  unfold rawStep
  positivity

theorem extractRawPosition_le_iff {a b : BitVec 32} :
    extractRawPosition a ≤ extractRawPosition b ↔ a.toInt ≤ b.toInt :=
  (mul_le_mul_iff_left₀ rawStep_pos).trans Int.cast_le

theorem rawStep_mul_rawScale : rawStep * rawScale = 1 := by
  have hmax := int32Max_pos.ne'
  have hpi := Real.pi_pos.ne'
  unfold rawStep rawScale
  field_simp

theorem scaled (angle : ℝ) : angle = angle * rawScale * rawStep := by
  rw [mul_assoc, mul_comm rawScale, rawStep_mul_rawScale, mul_one]

theorem int32Min_lt : (int32Min : ℝ) ≤ -int32Max := by
  norm_num [int32Min, int32Max]

theorem toRawPosition_mul_rawStep {r : ℤ} (hlow : int32Min ≤ r) (hhigh : r ≤ int32Max) :
    toRawPosition (r * rawStep) = r := by
  rw [toRawPosition, mul_assoc, rawStep_mul_rawScale, mul_one,
    Rounding.clamp_of_mem (Int.cast_le.mpr hlow) (Int.cast_le.mpr hhigh)]
  exact Rounding.roundAway_intCast r

theorem abs_scaled_le {angle : ℝ} (h : |angle| ≤ 2 * Real.pi) : |angle * rawScale| ≤ int32Max := by
  have hpi := Real.pi_pos
  have hscale : 2 * Real.pi * rawScale = int32Max := by
    unfold rawScale
    field_simp
  rw [abs_mul, abs_of_pos rawScale_pos, ← hscale]
  exact mul_le_mul_of_nonneg_right h rawScale_pos.le

theorem toRawPosition_inside {angle : ℝ} (h : |angle| ≤ 2 * Real.pi) :
    toRawPosition angle = Rounding.roundAway (angle * rawScale) := by
  obtain ⟨hlow,hhigh⟩ := abs_le.mp (abs_scaled_le h)
  rw [toRawPosition, Rounding.clamp_of_mem (int32Min_lt.trans hlow) hhigh]

theorem abs_toRawPosition_le {angle : ℝ} (h : |angle| ≤ 2 * Real.pi) :
    |toRawPosition angle| ≤ int32Max := by
  obtain ⟨hlow,hhigh⟩ := abs_le.mp (abs_scaled_le h)
  rw [toRawPosition_inside h, abs_le]
  constructor
  · rw [← Rounding.roundAway_intCast (K := ℝ) (-int32Max), Int.cast_neg]
    exact Rounding.roundAway_mono hlow
  · rw [← Rounding.roundAway_intCast (K := ℝ) int32Max]
    exact Rounding.roundAway_mono hhigh

theorem toInt_ofInt {r : ℤ} (h : |r| ≤ int32Max) : (BitVec.ofInt 32 r).toInt = r := by
  obtain ⟨hlow,hhigh⟩ := abs_le.mp h
  simp only [int32Max] at hlow hhigh
  exact BitVec.toInt_ofInt_eq_self (by decide) (by omega) (by omega)

theorem toInt_neg_ofInt {r : ℤ} (h : |r| ≤ int32Max) : (-BitVec.ofInt 32 r).toInt = -r := by
  rw [← BitVec.ofInt_neg, toInt_ofInt (by rwa [abs_neg])]

theorem loadData_storeData (info : StorageInfo) {angle : ℝ} (h : |angle| ≤ 2 * Real.pi) :
    loadData info (storeData info angle) = toRawPosition angle * rawStep := by
  have hraw := abs_toRawPosition_le h
  unfold loadData storeData extractRawPosition
  dsimp only
  split
  case isTrue => rw [toInt_neg_ofInt hraw, Int.cast_neg, neg_mul, neg_neg]
  case isFalse => rw [toInt_ofInt hraw]

theorem storeData_loadData (info : StorageInfo) {raw : BitVec 32} (h : |raw.toInt| ≤ int32Max) :
    storeData info (loadData info raw) = raw := by
  obtain ⟨hlow,hhigh⟩ := abs_le.mp h
  simp only [int32Max] at hlow hhigh
  unfold storeData loadData extractRawPosition
  dsimp only
  split
  case isTrue =>
    have hneg : toRawPosition (-(raw.toInt * rawStep)) = -raw.toInt := by
      rw [← neg_mul, ← Int.cast_neg]
      refine toRawPosition_mul_rawStep ?_ ?_
      · simp only [int32Min]
        omega
      · simp only [int32Max]
        omega
    rw [hneg, BitVec.ofInt_neg, BitVec.neg_neg, BitVec.ofInt_toInt]
  case isFalse =>
    have hsame : toRawPosition (raw.toInt * rawStep) = raw.toInt := by
      refine toRawPosition_mul_rawStep ?_ ?_
      · simp only [int32Min]
        omega
      · simp only [int32Max]
        omega
    rw [hsame, BitVec.ofInt_toInt]

theorem abs_storeData_le (info : StorageInfo) {angle : ℝ} (h : |angle| ≤ 2 * Real.pi) :
    |(storeData info angle).toInt| ≤ int32Max := by
  have hraw := abs_toRawPosition_le h
  unfold storeData
  dsimp only
  split
  case isTrue => rwa [toInt_neg_ofInt hraw, abs_neg]
  case isFalse => rwa [toInt_ofInt hraw]

theorem abs_sub_le_half_step {angle : ℝ} (h : |angle| ≤ 2 * Real.pi) :
    |toRawPosition angle * rawStep - angle| ≤ rawStep / 2 := by
  have hround := Rounding.abs_roundAway_sub_le (angle * rawScale)
  have hdiff : (toRawPosition angle : ℝ) * rawStep - angle =
      (Rounding.roundAway (angle * rawScale) - angle * rawScale) * rawStep := by
    rw [sub_mul, ← scaled, toRawPosition_inside h]
  rw [hdiff, abs_mul, abs_of_pos rawStep_pos]
  calc |(Rounding.roundAway (angle * rawScale) : ℝ) - angle * rawScale| * rawStep
      ≤ 1 / 2 * rawStep := mul_le_mul_of_nonneg_right hround rawStep_pos.le
    _ = rawStep / 2 := by ring

theorem sign_kept {angle : ℝ} :
    (0 < toRawPosition angle * rawStep → 0 < angle) ∧
      (toRawPosition angle * rawStep < 0 → angle < 0) := by
  have hstep := rawStep_pos
  constructor
  · intro hpos
    by_contra hle
    have hraw := toRawPosition_nonpos (not_lt.mp hle)
    have hraw' : (toRawPosition angle : ℝ) ≤ 0 := Int.cast_nonpos.mpr hraw
    exact absurd hpos (not_lt.mpr (mul_nonpos_of_nonpos_of_nonneg hraw' hstep.le))
  · intro hneg
    by_contra hle
    have hraw := toRawPosition_nonneg (not_lt.mp hle)
    have hraw' : (0 : ℝ) ≤ toRawPosition angle := Int.cast_nonneg_iff.mpr hraw
    exact absurd hneg (not_lt.mpr (mul_nonneg hraw' hstep.le))

theorem position_round_trip (info : StorageInfo) :
    (∀ angle : ℝ, -(2 * Real.pi) ≤ angle → angle ≤ 2 * Real.pi →
      |loadData info (storeData info angle) - angle| ≤ 2 * Real.pi / (2 ^ 31 - 1) / 2 ∧
        (0 < loadData info (storeData info angle) → 0 < angle) ∧
        (loadData info (storeData info angle) < 0 → angle < 0) ∧
        storeData info (loadData info (storeData info angle)) = storeData info angle) ∧
    ∀ raw : BitVec 32, |raw.toInt| ≤ 2 ^ 31 - 1 → storeData info (loadData info raw) = raw := by
  constructor
  · intro angle hlow hhigh
    have habs := abs_le.mpr ⟨hlow,hhigh⟩
    have hmax : (int32Max : ℝ) = 2 ^ 31 - 1 := by norm_num [int32Max]
    obtain ⟨hpos,hneg⟩ := @sign_kept angle
    rw [storeData_loadData info (abs_storeData_le info habs), loadData_storeData info habs]
    refine ⟨?_,hpos,hneg,rfl⟩
    have hhalf := abs_sub_le_half_step habs
    rw [rawStep, hmax] at hhalf ⊢
    exact hhalf
  · intro raw hraw
    exact storeData_loadData info hraw

theorem position_round_trip_reversed :
    |loadData (.make 4 0x7A 0 0xC) (storeData (.make 4 0x7A 0 0xC) 1) - 1| ≤
        2 * Real.pi / (2 ^ 31 - 1) / 2 ∧
      storeData (.make 4 0x7A 0 0xC) (loadData (.make 4 0x7A 0 0xC) 7) = 7 := by
  have hpi := Real.pi_gt_three
  obtain ⟨hangle,hraw⟩ := position_round_trip (.make 4 0x7A 0 0xC)
  exact ⟨(hangle 1 (by linarith) (by linarith)).1,hraw 7 (by decide)⟩

end Exact

-- Doubles on which the scalings and the negation are those of the reals.
structure ExactDoubles extends PositionCodec where
  angle : Buffer8 → ℝ
  negate : ∀ bits, angle (negateDouble bits) = -angle bits
  scale : ∀ bits, (toRawPosition bits).toInt = Exact.toRawPosition (angle bits)
  extract : ∀ raw, angle (extractRawPosition raw) = Exact.extractRawPosition raw

namespace ExactDoubles

variable {info : StorageInfo}

def signed (bits : Buffer8) : ℝ :=
  if bits.msb then -Exact.extractRawPosition (Buffer8.as 32 bits)
  else Exact.extractRawPosition (Buffer8.as 32 bits)

theorem negateDouble_eq (bits : Buffer8) : negateDouble bits = bits ^^^ BitVec.twoPow 64 63 := by
  have hmask : ((1 <<< 63 : Nat) : BitVec 64) = BitVec.twoPow 64 63 := by decide
  rw [← hmask]
  rfl

theorem signed_negateDouble (bits : Buffer8) : signed (negateDouble bits) = -signed bits := by
  have hlow : Buffer8.as 32 (negateDouble bits) = Buffer8.as 32 bits := by
    ext i hi
    have hzero : (BitVec.twoPow 64 63).getLsbD i = false := by
      rw [BitVec.getLsbD_twoPow]
      simp
      omega
    simp only [Buffer8.as, negateDouble_eq, BitVec.getElem_setWidth, BitVec.getLsbD_xor, hzero,
      Bool.xor_false]
  have hsign : (negateDouble bits).msb = !bits.msb := by
    have hone : (BitVec.twoPow 64 63).msb = true := by decide
    rw [negateDouble_eq, BitVec.msb_xor, hone, Bool.xor_true]
  unfold signed
  rw [hlow, hsign]
  cases bits.msb
  · rfl
  · exact (neg_neg _).symm

def ofRaw : ExactDoubles where
  toRawPosition := fun bits => BitVec.ofInt 32 (Exact.toRawPosition (signed bits))
  extractRawPosition := fun raw => raw.setWidth 64
  angle := signed
  negate := signed_negateDouble
  scale := by
    intro bits
    obtain ⟨hlow,hhigh⟩ := Exact.toRawPosition_mem (signed bits)
    simp only [int32Min, int32Max] at hlow hhigh
    exact BitVec.toInt_ofInt_eq_self (by decide) (by omega) (by omega)
  extract := by
    intro raw
    have hsign : (raw.setWidth 64).msb = false := by
      simp [BitVec.msb_setWidth]
    have hlow : Buffer8.as 32 (raw.setWidth 64) = raw := by
      simp [Buffer8.as]
    rw [signed, hsign, hlow]
    rfl

theorem encodeData_exact (codec : ExactDoubles) (hcontrol : info.has StorageInfo.controlWord = false)
    (hposition : info.has StorageInfo.position = true) (data fill : Buffer8) :
    Buffer8.as 32 (encodeData codec.toPositionCodec info data fill) =
      Exact.storeData info (codec.angle data) := by
  have hraw : codec.toRawPosition data = BitVec.ofInt 32 (Exact.toRawPosition (codec.angle data)) := by
    rw [← codec.scale, BitVec.ofInt_toInt]
  simp only [encodeData, hcontrol, hposition, Bool.false_eq_true, if_false, if_true,
    Buffer8.as_of (show 32 ≤ 64 by decide), hraw, Exact.storeData]

theorem decodeData_exact (codec : ExactDoubles) (hcontrol : info.has StorageInfo.controlWord = false)
    (hposition : info.has StorageInfo.position = true) (data fill : Buffer8) :
    codec.angle (decodeData codec.toPositionCodec info data fill) =
      Exact.loadData info (Buffer8.as 32 data) := by
  simp only [decodeData, hcontrol, hposition, Bool.false_eq_true, if_false, if_true,
    Exact.loadData]
  split
  case isTrue => rw [codec.negate, codec.extract]
  case isFalse => exact codec.extract _

end ExactDoubles

end

end WujiHand

import WujiHand.Device.PositionUnits
import WujiHand.Protocol.Position

namespace WujiHand

namespace Hand

structure Command where
  angle : ℝ
  raw : BitVec 32
  wire : BitVec 32

namespace Command

structure Opposes (c : Command) : Prop where
  representable : int32Min ≤ -c.raw.toInt ∧ -c.raw.toInt ≤ int32Max
  falls : 0 ≤ c.angle → c.wire.toInt ≤ 0
  rises : c.angle ≤ 0 → 0 ≤ c.wire.toInt

def Monotone (c c' : Command) : Prop :=
  (c.angle ≤ c'.angle → c.wire.toInt ≤ c'.wire.toInt) ∧
    (c'.angle ≤ c.angle → c'.wire.toInt ≤ c.wire.toInt)

def Antitone (c c' : Command) : Prop :=
  (c.angle ≤ c'.angle → c'.wire.toInt ≤ c.wire.toInt) ∧
    (c'.angle ≤ c.angle → c.wire.toInt ≤ c'.wire.toInt)

def Follows (f : Fin 5) (j : Fin 4) (c c' : Command) : Prop :=
  if ReversedJoint f j then c.Opposes ∧ c'.Opposes ∧ Antitone c c' else Monotone c c'

structure Wired (f : Fin 5) (j : Fin 4) (c : Command) : Prop where
  raw : c.raw.toInt = Exact.toRawPosition c.angle
  wire : c.wire = if ReversedJoint f j then -c.raw else c.raw

theorem negatable_iff {f : Fin 5} {j : Fin 4} {c : Command} (h : c.Wired f j) :
    Exact.Negatable c.angle ↔ -c.raw.toInt ≤ int32Max := by
  obtain ⟨hmin,_⟩ := Exact.toRawPosition_mem c.angle
  have hiff := Exact.toRawPosition_eq_min_iff c.angle
  rw [Exact.Negatable, ← not_le, ← hiff, h.raw]
  simp only [int32Min, int32Max] at hmin ⊢
  omega

theorem Wired.negated {f : Fin 5} {j : Fin 4} {c : Command} (h : c.Wired f j)
    (hreversed : ReversedJoint f j) (hn : Exact.Negatable c.angle) :
    c.wire.toInt = -Exact.toRawPosition c.angle := by
  have hneg := (negatable_iff h).mp hn
  have hlow := BitVec.le_toInt c.raw
  have hhigh : c.raw.toInt < 2 ^ (32 - 1) := BitVec.toInt_lt
  rw [h.wire, if_pos hreversed, BitVec.toInt_neg, h.raw]
  rw [h.raw] at hneg hlow hhigh
  simp only [int32Max] at hneg
  rw [Int.bmod_eq_of_le (by omega) (by omega)]

theorem Wired.jumps {f : Fin 5} {j : Fin 4} {c : Command} (h : c.Wired f j)
    (hreversed : ReversedJoint f j) (hn : ¬Exact.Negatable c.angle) : c.wire.toInt = int32Min := by
  have hmin : Exact.toRawPosition c.angle = int32Min :=
    (Exact.toRawPosition_eq_min_iff c.angle).mpr (not_lt.mp hn)
  rw [h.wire, if_pos hreversed, BitVec.toInt_neg, h.raw, hmin]
  decide

theorem Wired.opposes {f : Fin 5} {j : Fin 4} {c : Command} (h : c.Wired f j)
    (hreversed : ReversedJoint f j) (hn : Exact.Negatable c.angle) : c.Opposes := by
  have hwire := h.negated hreversed hn
  obtain ⟨_,hmax⟩ := Exact.toRawPosition_mem c.angle
  refine ⟨⟨?_,(negatable_iff h).mp hn⟩,fun hangle => ?_,fun hangle => ?_⟩
  · rw [h.raw]
    simp only [int32Min, int32Max] at hmax ⊢
    omega
  · have hraw := Exact.toRawPosition_nonneg hangle
    omega
  · have hraw := Exact.toRawPosition_nonpos hangle
    omega

theorem follows_iff {f : Fin 5} {j : Fin 4} {c c' : Command} (h : c.Wired f j)
    (h' : c'.Wired f j) :
    Follows f j c c' ↔ (ReversedJoint f j → Exact.Negatable c.angle ∧ Exact.Negatable c'.angle) := by
  unfold Follows
  by_cases hreversed : ReversedJoint f j
  · rw [if_pos hreversed]
    constructor
    · rintro ⟨hc,hc',_⟩ -
      exact ⟨(negatable_iff h).mpr hc.representable.2,(negatable_iff h').mpr hc'.representable.2⟩
    · intro hn
      obtain ⟨hn,hn'⟩ := hn hreversed
      refine ⟨h.opposes hreversed hn,h'.opposes hreversed hn',fun hle => ?_,fun hle => ?_⟩
      · rw [h.negated hreversed hn, h'.negated hreversed hn']
        exact Int.neg_le_neg (Exact.toRawPosition_mono hle)
      · rw [h.negated hreversed hn, h'.negated hreversed hn']
        exact Int.neg_le_neg (Exact.toRawPosition_mono hle)
  · rw [if_neg hreversed]
    refine ⟨fun _ hr => absurd hr hreversed,fun _ => ?_⟩
    have hwire : c.wire.toInt = Exact.toRawPosition c.angle := by
      rw [h.wire, if_neg hreversed, h.raw]
    have hwire' : c'.wire.toInt = Exact.toRawPosition c'.angle := by
      rw [h'.wire, if_neg hreversed, h'.raw]
    unfold Monotone
    rw [hwire, hwire']
    exact ⟨Exact.toRawPosition_mono,Exact.toRawPosition_mono⟩

end Command

noncomputable section

-- `store_data` on the target unit; the tick transmits the low four bytes of the unit's value.
def sdoCommand {Fn Ctx : Type} (codec : ExactCodec) (u : StorageUnit Fn Ctx) (x : FiniteDouble)
    (fill : Buffer8) : Command where
  angle := x.angle
  raw := codec.toRawPosition x.bits
  wire := Buffer8.as 32 (u.storeData codec.toPositionCodec x.bits fill).value

def pdoCommand (codec : ExactCodec) (upstreamEnabled : Bool) (targets : JointTable FiniteDouble)
    (timestamp : BitVec 32) (f : Fin 5) (j : Fin 4) : Command where
  angle := (targets f j).angle
  raw := codec.toRawPosition (targets f j).bits
  wire := (pdoWriteAsyncUnchecked codec.toPositionCodec upstreamEnabled
    (fun i j => (targets i j).bits) timestamp).targetPositions f j

end

theorem sdoCommand_transmitted {Fn Ctx : Type} (codec : ExactCodec) {u : StorageUnit Fn Ctx}
    (hsize : u.info.size = .four) (x : FiniteDouble) (fill : Buffer8) :
    (u.storeData codec.toPositionCodec x.bits fill).writeRequest =
      .write .four u.info.index u.info.subIndex (sdoCommand codec u x fill).wire := by
  obtain ⟨⟨index,subIndex,size,policy⟩,operation,version,value,timeout,callback,context⟩ := u
  obtain rfl : size = .four := hsize
  rfl

section Paths

variable {Fn Ctx : Type} (codec : ExactCodec) (mask : BitVec 32) (thread : Nat)
  (memory : Fin operator.dataCount → StorageUnit Fn Ctx) (pdoMemory : JointTable (BitVec 32))
  (f : Fin 5) (j : Fin 4)

theorem sdoCommand_wired (x : FiniteDouble) (fill : Buffer8) :
    (sdoCommand codec ((operator.construct mask thread memory pdoMemory).handler.storage
      (targetUnit f j)) x fill).Wired f j := by
  have hinfo : PositionInfo f j (positionAddress f j JointData.targetPosition)
      ((operator.construct mask thread memory pdoMemory).handler.storage (targetUnit f j)).info :=
    positionUnit_info mask thread memory pdoMemory f j (by decide)
  refine ⟨codec.exact x,?_⟩
  rw [sdoCommand, StorageUnit.storeData, hinfo.encodeData_eq,
    Buffer8.as_of (show 32 ≤ 64 by decide)]

theorem pdoCommand_wired (upstreamEnabled : Bool) (targets : JointTable FiniteDouble)
    (timestamp : BitVec 32) : (pdoCommand codec upstreamEnabled targets timestamp f j).Wired f j :=
  ⟨codec.exact (targets f j),rfl⟩

theorem targets_follow_iff (targets targets' : JointTable FiniteDouble) (fill fill' : Buffer8)
    (upstreamEnabled upstreamEnabled' : Bool) (timestamp timestamp' : BitVec 32) :
    (Command.Follows f j
        (sdoCommand codec ((operator.construct mask thread memory pdoMemory).handler.storage
          (targetUnit f j)) (targets f j) fill)
        (sdoCommand codec ((operator.construct mask thread memory pdoMemory).handler.storage
          (targetUnit f j)) (targets' f j) fill') ∧
      Command.Follows f j (pdoCommand codec upstreamEnabled targets timestamp f j)
        (pdoCommand codec upstreamEnabled' targets' timestamp' f j)) ↔
      (ReversedJoint f j →
        Exact.Negatable (targets f j).angle ∧ Exact.Negatable (targets' f j).angle) := by
  rw [Command.follows_iff (sdoCommand_wired codec mask thread memory pdoMemory f j _ fill)
      (sdoCommand_wired codec mask thread memory pdoMemory f j _ fill'),
    Command.follows_iff (pdoCommand_wired codec f j upstreamEnabled targets timestamp)
      (pdoCommand_wired codec f j upstreamEnabled' targets' timestamp')]
  exact and_self_iff

end Paths

def minusSeven : FiniteDouble := ⟨0xC01C000000000000,by decide⟩

theorem minusSeven_angle : minusSeven.angle = -7 := by
  have hvalue : Double.value minusSeven.bits = -7 := by
    have hexponent : Double.exponent minusSeven.bits = 1025 := by decide
    have hfraction : Double.fraction minusSeven.bits = 3377699720527872 := by decide
    have hmsb : minusSeven.bits.msb = true := by decide
    rw [Double.value, hmsb, Double.magnitude, hexponent, hfraction]
    norm_num
  rw [FiniteDouble.angle, hvalue]
  norm_num

theorem minusSeven_not_negatable : ¬Exact.Negatable minusSeven.angle := by
  have hpi := Real.pi_pos
  have hpi' := Real.pi_lt_d2
  have hmax : (int32Max : ℝ) = 2147483647 := by norm_num [int32Max]
  have hmin : (int32Min : ℝ) = -2147483648 := by norm_num [int32Min]
  rw [Exact.Negatable, minusSeven_angle, not_lt, Exact.rawScale, hmax, hmin, ← mul_div_assoc,
    div_le_iff₀ (by linarith)]
  linarith

noncomputable def minusSevenSdo (f : Fin 5) (j : Fin 4) : Command :=
  sdoCommand (.ofExtract fun raw => raw.setWidth 64)
    ((operator.construct 0 0 (fun _ => (StorageUnit.blank pdoIdInfo 0 : StorageUnit Nat Nat))
      (fun _ _ => 0)).handler.storage (targetUnit f j)) minusSeven 0

noncomputable def minusSevenPdo (f : Fin 5) (j : Fin 4) : Command :=
  pdoCommand (.ofExtract fun raw => raw.setWidth 64) true (fun _ _ => minusSeven) 0 f j

theorem Command.Wired.jumps_reversed {c : Command} (h : c.Wired 1 0)
    (hangle : c.angle = minusSeven.angle) : ¬Command.Follows 1 0 c c ∧ c.wire.toInt = int32Min := by
  have hn : ¬Exact.Negatable c.angle := hangle ▸ minusSeven_not_negatable
  refine ⟨?_,h.jumps (by decide) hn⟩
  rw [Command.follows_iff h h]
  exact fun hf => hn (hf (by decide)).1

-- Seven radians below zero, in either path, command the end that seven radians above zero do.
theorem minusSeven_jumps :
    (¬Command.Follows 1 0 (minusSevenSdo 1 0) (minusSevenSdo 1 0) ∧
        (minusSevenSdo 1 0).wire.toInt = int32Min) ∧
      ¬Command.Follows 1 0 (minusSevenPdo 1 0) (minusSevenPdo 1 0) ∧
        (minusSevenPdo 1 0).wire.toInt = int32Min :=
  ⟨(sdoCommand_wired _ 0 0 _ _ 1 0 minusSeven 0).jumps_reversed rfl,
    (pdoCommand_wired _ 1 0 true _ 0).jumps_reversed rfl⟩

end Hand

end WujiHand

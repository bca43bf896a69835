import WujiHand.Device.PositionUnits
import WujiHand.Protocol.PositionRoundTrip

namespace WujiHand

namespace Hand

namespace PositionInfo

variable {f : Fin 5} {j : Fin 4} {address : Address} {info : StorageInfo}

theorem storeData_exact (h : PositionInfo f j address info) (angle : ℝ) :
    Exact.storeData info angle =
      if ReversedJoint f j then -BitVec.ofInt 32 (Exact.toRawPosition angle)
      else BitVec.ofInt 32 (Exact.toRawPosition angle) := by
  simp only [Exact.storeData, h.reversed, decide_eq_true_eq]

theorem loadData_exact (h : PositionInfo f j address info) (raw : BitVec 32) :
    Exact.loadData info raw =
      if ReversedJoint f j then -Exact.extractRawPosition raw else Exact.extractRawPosition raw := by
  simp only [Exact.loadData, h.reversed, decide_eq_true_eq]

end PositionInfo

theorem writeRequest_four {Fn Ctx : Type} {u : StorageUnit Fn Ctx} (hsize : u.info.size = .four)
    {fill : Buffer8} {raw : BitVec 32} (hvalue : u.value = Buffer8.of fill raw) :
    u.writeRequest = .write .four u.info.index u.info.subIndex raw := by
  obtain ⟨⟨index,subIndex,size,policy⟩,operation,version,value,timeout,callback,context⟩ := u
  obtain rfl : size = .four := hsize
  obtain rfl : value = Buffer8.of fill raw := hvalue
  exact congrArg (SdoRequest.write .four index subIndex)
    (Buffer8.as_of (show 32 ≤ 64 by decide) fill raw)

end Hand

def realtimePositions (codec : PositionCodec) (pdoReadResult : JointTable (BitVec 32)) :
    JointTable Buffer8 := fun i j =>
  let value := codec.extractRawPosition (pdoReadResult i j)
  if j.val = 0 ∧ i.val ≠ 0 then negateDouble value else value

namespace Exact

noncomputable section

def pdoTargetPositions (targetPositions : JointTable ℝ) : JointTable (BitVec 32) := fun i j =>
  let raw := BitVec.ofInt 32 (toRawPosition (targetPositions i j))
  if j.val = 0 ∧ i.val ≠ 0 then -raw else raw

def realtimePositions (pdoReadResult : JointTable (BitVec 32)) : JointTable ℝ := fun i j =>
  let value := extractRawPosition (pdoReadResult i j)
  if j.val = 0 ∧ i.val ≠ 0 then -value else value

end

end Exact

theorem pdoWriteAsyncUnchecked_exact (codec : ExactDoubles) (upstreamEnabled : Bool)
    (targetPositions : JointTable Buffer8) (timestamp : BitVec 32) :
    (pdoWriteAsyncUnchecked codec.toPositionCodec upstreamEnabled targetPositions
        timestamp).targetPositions =
      Exact.pdoTargetPositions fun i j => codec.angle (targetPositions i j) := by
  funext i j
  have hraw : codec.toRawPosition (targetPositions i j) =
      BitVec.ofInt 32 (Exact.toRawPosition (codec.angle (targetPositions i j))) := by
    rw [← codec.scale, BitVec.ofInt_toInt]
  simp only [pdoWriteAsyncUnchecked, Exact.pdoTargetPositions, hraw]

theorem realtimePositions_exact (codec : ExactDoubles) (pdoReadResult : JointTable (BitVec 32))
    (i : Fin 5) (j : Fin 4) :
    codec.angle (realtimePositions codec.toPositionCodec pdoReadResult i j) =
      Exact.realtimePositions pdoReadResult i j := by
  simp only [realtimePositions, Exact.realtimePositions]
  split
  case isTrue => rw [codec.negate, codec.extract]
  case isFalse => exact codec.extract _

namespace Hand

section Agreement

variable {Fn Ctx : Type} (mask : BitVec 32) (thread : Nat)
  (memory : Fin operator.dataCount → StorageUnit Fn Ctx) (pdoMemory : JointTable (BitVec 32))

theorem codecs_agree (codec : PositionCodec) (f : Fin 5) (j : Fin 4) :
    let h := (operator.construct mask thread memory pdoMemory).handler
    let target := h.storage (targetUnit f j)
    let actual := h.storage (actualUnit f j)
    (∀ (fill : Buffer8) (upstreamEnabled : Bool) (targetPositions : JointTable Buffer8)
        (timestamp : BitVec 32),
      (target.storeData codec (targetPositions f j) fill).writeRequest =
        .write .four target.info.index target.info.subIndex
          ((pdoWriteAsyncUnchecked codec upstreamEnabled targetPositions
            timestamp).targetPositions f j)) ∧
    (∀ (fill fill' : Buffer8) (pdoReadResult : JointTable (BitVec 32)),
      ({ actual with value := Buffer8.of fill (pdoReadResult f j) }).loadData codec fill' =
        realtimePositions codec pdoReadResult f j) ∧
    (∀ targetPositions : JointTable ℝ,
      Exact.storeData target.info (targetPositions f j) =
        Exact.pdoTargetPositions targetPositions f j) ∧
    ∀ pdoReadResult : JointTable (BitVec 32),
      Exact.loadData actual.info (pdoReadResult f j) =
        Exact.realtimePositions pdoReadResult f j := by
  have htarget : PositionInfo f j (positionAddress f j 11)
      ((operator.construct mask thread memory pdoMemory).handler.storage (targetUnit f j)).info :=
    positionUnit_info mask thread memory pdoMemory f j (k := JointData.targetPosition) (by decide)
  have hactual : PositionInfo f j (positionAddress f j 10)
      ((operator.construct mask thread memory pdoMemory).handler.storage (actualUnit f j)).info :=
    positionUnit_info mask thread memory pdoMemory f j (k := JointData.actualPosition) (by decide)
  dsimp only
  generalize (operator.construct mask thread memory pdoMemory).handler.storage
    (targetUnit f j) = target at htarget ⊢
  generalize (operator.construct mask thread memory pdoMemory).handler.storage
    (actualUnit f j) = actual at hactual ⊢
  refine ⟨fun fill upstreamEnabled targetPositions timestamp => ?_,
    fun fill fill' pdoReadResult => ?_,fun targetPositions => ?_,fun pdoReadResult => ?_⟩
  · exact writeRequest_four (u := target.storeData codec (targetPositions f j) fill) htarget.size
      (htarget.encodeData_eq codec (targetPositions f j) fill)
  · exact hactual.decodeData_eq codec fill fill' (pdoReadResult f j)
  · exact htarget.storeData_exact (targetPositions f j)
  · exact hactual.loadData_exact (pdoReadResult f j)

end Agreement

end Hand

end WujiHand

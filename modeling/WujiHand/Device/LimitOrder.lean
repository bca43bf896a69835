import WujiHand.Device.PositionPaths
import WujiHand.Handler.LastRead

namespace WujiHand.Hand

open Handler JointData

noncomputable def exactGet {Fn Ctx : Type} (h : Handler operator.dataCount Fn Ctx)
    (id : Fin operator.dataCount) : ℝ :=
  Exact.loadData (h.storage id).info (Buffer8.as 32 (h.storage id).value)

def ObjectRead {n : Nat} {Fn Ctx : Type} (codec : PositionCodec) (h : Handler n Fn Ctx)
    (address : Address) (raw : BitVec 32) (os : List (Occurrence n Fn Ctx)) : Prop :=
  LastRead codec h address.index address.subIndex .four raw os

section Limits

variable {Fn Ctx : Type} (codec : PositionCodec) (mask : BitVec 32) (thread : Nat)
  (memory : Fin operator.dataCount → StorageUnit Fn Ctx) (pdoMemory : JointTable (BitVec 32))
  (f : Fin 5) (j : Fin 4)

theorem objectRead_get {os : List (Occurrence operator.dataCount Fn Ctx)} {k : Fin 14}
    (hk : 10 ≤ k.val) {address : Address} (haddress : positionAddress f j k.val = address)
    {raw : BitVec 32}
    (hread : ObjectRead codec (operator.construct mask thread memory pdoMemory).handler address
      raw os) :
    exactGet (Runs.run (occur codec) (operator.construct mask thread memory pdoMemory).handler os)
        (jointUnit f j k) =
      if ReversedJoint f j then -Exact.extractRawPosition raw
      else Exact.extractRawPosition raw := by
  subst haddress
  obtain ⟨fill,hvalue⟩ :=
    LastRead.value hread (positionUnit_finds mask thread memory pdoMemory f j hk)
  have hinfo := (occurs_sameLayout codec
    (operator.construct mask thread memory pdoMemory).handler os).2 (jointUnit f j k)
  rw [exactGet, hvalue, hinfo]
  exact (congrArg _ (Buffer8.as_of (show 32 ≤ 64 by decide) fill raw)).trans
    ((positionUnit_info mask thread memory pdoMemory f j hk).loadData_exact raw)

theorem limits_share_order (os : List (Occurrence operator.dataCount Fn Ctx)) {lo hi : BitVec 32}
    (hlo : ObjectRead codec (operator.construct mask thread memory pdoMemory).handler
      (jointAddress f j 0x0E 28) lo os)
    (hhi : ObjectRead codec (operator.construct mask thread memory pdoMemory).handler
      (jointAddress f j 0x0E 27) hi os) :
    let h := Runs.run (occur codec) (operator.construct mask thread memory pdoMemory).handler os
    (lo.toInt ≤ hi.toInt → exactGet h (lowerUnit f j) ≤ exactGet h (upperUnit f j)) ∧
    ∀ p, ObjectRead codec (operator.construct mask thread memory pdoMemory).handler
        (jointAddress f j 0x64 0) p os →
      (exactGet h (lowerUnit f j) ≤ exactGet h (actualUnit f j) ∧
          exactGet h (actualUnit f j) ≤ exactGet h (upperUnit f j) ↔
        lo.toInt ≤ p.toInt ∧ p.toInt ≤ hi.toInt) := by
  obtain ⟨hactual,hlow,hhigh⟩ := limit_addresses f j
  have hget (k : Fin 14) (hk : 10 ≤ k.val) {address : Address} {raw : BitVec 32}
      (haddress : positionAddress f j k.val = address) :=
    @objectRead_get _ _ codec mask thread memory pdoMemory f j os k hk address haddress raw
  have hgetActual (p : BitVec 32) := @hget actualPosition (by decide) _ p hactual
  dsimp only
  by_cases hreversed : ReversedJoint f j
  · rw [if_pos hreversed] at hlow hhigh
    have hgetUpper := hget upperLimit (by decide) hlow hlo
    have hgetLower := hget lowerLimit (by decide) hhigh hhi
    simp only [if_pos hreversed] at hgetActual hgetUpper hgetLower
    simp only [lowerUnit, actualUnit, upperUnit, hgetUpper, hgetLower]
    refine ⟨fun hle => ?_,fun p hp => ?_⟩
    · exact neg_le_neg (Exact.extractRawPosition_le_iff.mpr hle)
    · rw [hgetActual p hp, neg_le_neg_iff, neg_le_neg_iff, Exact.extractRawPosition_le_iff,
        Exact.extractRawPosition_le_iff]
      exact and_comm
  · rw [if_neg hreversed] at hlow hhigh
    have hgetLower := hget lowerLimit (by decide) hlow hlo
    have hgetUpper := hget upperLimit (by decide) hhigh hhi
    simp only [if_neg hreversed] at hgetActual hgetUpper hgetLower
    simp only [lowerUnit, actualUnit, upperUnit, hgetUpper, hgetLower]
    refine ⟨fun hle => ?_,fun p hp => ?_⟩
    · exact Exact.extractRawPosition_le_iff.mpr hle
    · rw [hgetActual p hp, Exact.extractRawPosition_le_iff, Exact.extractRawPosition_le_iff]

theorem construct_threadCheck :
    (operator.construct mask thread memory pdoMemory).handler.operationThreadCheck thread = true := by
  have hid := Handler.initAll_operationThreadId (Handler.construct thread memory pdoMemory)
    (operator.calls mask)
  rw [Handler.operationThreadCheck, Operator.construct, hid]
  exact beq_self_eq_true thread

def objectReading (id : Fin operator.dataCount) (address : Address) (raw : BitVec 32) :
    Reading operator.dataCount :=
  ⟨id,address.index,address.subIndex,.four,raw⟩

theorem objectReading_ready {k : Fin 14} (hk : 10 ≤ k.val) {address : Address}
    (haddress : positionAddress f j k.val = address) (raw : BitVec 32) :
    (objectReading (jointUnit f j k) address raw).Ready
      (operator.construct 0 thread memory pdoMemory).handler := by
  subst haddress
  refine ⟨fun hbusy => hbusy ?_,fun hmasked => ?_,
    positionUnit_finds 0 thread memory pdoMemory f j hk⟩
  · rw [(operator.construct 0 thread memory pdoMemory).idle]
  · have hbit := (jointUnit_info 0 thread memory pdoMemory f j k).1.mp hmasked
    simp at hbit

-- A reversed joint's upper limit is read from the object of the lower one.
def reversedReadings (f : Fin 5) (j : Fin 4) : List (Reading operator.dataCount) :=
  [objectReading (upperUnit f j) (jointAddress f j 0x0E 28) 5,
    objectReading (actualUnit f j) (jointAddress f j 0x64 0) 7,
    objectReading (lowerUnit f j) (jointAddress f j 0x0E 27) 9]

theorem limits_share_order_index :
    let h := Runs.run (occur .raw) (operator.construct 0 0
      (fun _ => (StorageUnit.blank pdoIdInfo 0 : StorageUnit Nat Nat)) (fun _ _ => 0)).handler
      ((reversedReadings 1 0).flatMap (Reading.occurrences 0))
    (∀ r ∈ reversedReadings 1 0, ¬(h.storage r.id).Busy) ∧
      exactGet h (lowerUnit 1 0) ≤ exactGet h (upperUnit 1 0) ∧
      exactGet h (lowerUnit 1 0) ≤ exactGet h (actualUnit 1 0) ∧
      exactGet h (actualUnit 1 0) ≤ exactGet h (upperUnit 1 0) := by
  have hready : ∀ r ∈ reversedReadings 1 0, r.Ready (operator.construct 0 0
      (fun _ => (StorageUnit.blank pdoIdInfo 0 : StorageUnit Nat Nat)) (fun _ _ => 0)).handler := by
    simp only [reversedReadings, List.forall_mem_cons]
    exact ⟨objectReading_ready 0 _ _ 1 0 (by decide) rfl 5,
      objectReading_ready 0 _ _ 1 0 (by decide) rfl 7,
      objectReading_ready 0 _ _ 1 0 (by decide) rfl 9,nofun⟩
  obtain ⟨hlast,_⟩ := readings_last .raw (construct_threadCheck 0 0
    (fun _ => (StorageUnit.blank pdoIdInfo 0 : StorageUnit Nat Nat)) (fun _ _ => 0))
    (by decide) hready
  have hreads := fun r hr => (hlast r hr).1
  simp only [reversedReadings, List.forall_mem_cons] at hreads
  obtain ⟨hlo,hp,hhi,_⟩ := hreads
  obtain ⟨hlimits,hposition⟩ := limits_share_order .raw 0 0 _ _ 1 0 _ hlo hhi
  exact ⟨fun r hr => (hlast r hr).2,hlimits (by decide),(hposition 7 hp).mpr (by decide)⟩

end Limits

end WujiHand.Hand

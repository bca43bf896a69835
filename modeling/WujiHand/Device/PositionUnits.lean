import WujiHand.Device.Masking

namespace WujiHand.Hand

open JointData

-- Each J1 except the thumb's.
def ReversedJoint (f : Fin 5) (j : Fin 4) : Prop := j.val = 0 ∧ f.val ≠ 0

instance (f : Fin 5) (j : Fin 4) : Decidable (ReversedJoint f j) :=
  inferInstanceAs (Decidable (_ ∧ _))

def jointPolicy (f : Fin 5) (j : Fin 4) : BitVec 30 :=
  if ReversedJoint f j then StorageInfo.position ||| StorageInfo.positionReversed
  else StorageInfo.position

def actualUnit (f : Fin 5) (j : Fin 4) : Fin operator.dataCount := jointUnit f j actualPosition
def targetUnit (f : Fin 5) (j : Fin 4) : Fin operator.dataCount := jointUnit f j targetPosition
def upperUnit (f : Fin 5) (j : Fin 4) : Fin operator.dataCount := jointUnit f j upperLimit
def lowerUnit (f : Fin 5) (j : Fin 4) : Fin operator.dataCount := jointUnit f j lowerLimit

def jointAddress (f : Fin 5) (j : Fin 4) (index : Nat) (subIndex : BitVec 8) : Address :=
  ⟨BitVec.ofNat 16 (jointBase f j + index),subIndex⟩

def positionAddress (f : Fin 5) (j : Fin 4) (k : Nat) : Address :=
  if k = 10 then jointAddress f j 0x64 0
  else if k = 11 then jointAddress f j 0x7A 0
  else if k = 12 then jointAddress f j 0x0E (if ReversedJoint f j then 28 else 27)
  else jointAddress f j 0x0E (if ReversedJoint f j then 27 else 28)

-- The two limit objects are swapped where the sign is.
theorem limit_addresses (f : Fin 5) (j : Fin 4) :
    positionAddress f j 10 = jointAddress f j 0x64 0 ∧
      positionAddress f j (if ReversedJoint f j then 12 else 13) = jointAddress f j 0x0E 28 ∧
      positionAddress f j (if ReversedJoint f j then 13 else 12) = jointAddress f j 0x0E 27 := by
  refine ⟨rfl,?_,?_⟩ <;> by_cases hreversed : ReversedJoint f j <;>
    simp [positionAddress, hreversed]

theorem position_sites : ∀ s ∈ operator.sites 0 0 0 0, 12 ≤ s.id → 10 ≤ (s.id - 12) % 14 →
    s.info.size = .four ∧
      s.info.policy =
        jointPolicy (Fin.ofNat 5 ((s.id - 12) / 56)) (Fin.ofNat 4 ((s.id - 12) % 56 / 14)) ∧
      s.info.address =
        positionAddress (Fin.ofNat 5 ((s.id - 12) / 56)) (Fin.ofNat 4 ((s.id - 12) % 56 / 14))
          ((s.id - 12) % 14) := by
  decide +kernel

theorem jointPolicy_flags {f : Fin 5} {j : Fin 4} {policy : BitVec 30}
    (h : policy = jointPolicy f j ∨ policy = jointPolicy f j ||| StorageInfo.masked) :
    (policy &&& StorageInfo.controlWord != 0) = false ∧
      (policy &&& StorageInfo.position != 0) = true ∧
      (policy &&& StorageInfo.positionReversed != 0) = decide (ReversedJoint f j) := by
  unfold jointPolicy at h
  by_cases hreversed : ReversedJoint f j
  · rw [decide_eq_true hreversed]
    rw [if_pos hreversed] at h
    rcases h with rfl | rfl <;> decide
  · rw [decide_eq_false hreversed]
    rw [if_neg hreversed] at h
    rcases h with rfl | rfl <;> decide

structure PositionInfo (f : Fin 5) (j : Fin 4) (address : Address) (info : StorageInfo) : Prop where
  size : info.size = .four
  control : info.has StorageInfo.controlWord = false
  position : info.has StorageInfo.position = true
  reversed : info.has StorageInfo.positionReversed = decide (ReversedJoint f j)
  address : info.address = address

section Constructed

variable {Fn Ctx : Type} (mask : BitVec 32) (thread : Nat)
  (memory : Fin operator.dataCount → StorageUnit Fn Ctx) (pdoMemory : JointTable (BitVec 32))
  (f : Fin 5) (j : Fin 4)

theorem positionUnit_info {k : Fin 14} (hk : 10 ≤ k.val) :
    PositionInfo f j (positionAddress f j k.val)
      ((operator.construct mask thread memory pdoMemory).handler.storage
        (jointUnit f j k)).info := by
  obtain ⟨s,hs,hid,hinfo⟩ :=
    Operator.construct_site mask thread memory pdoMemory (jointUnit f j k)
  have hid' : s.id = 12 + 56 * f.val + 14 * j.val + k.val := hid
  have hk' : (s.id - 12) % 14 = k.val := by omega
  have hf : Fin.ofNat 5 ((s.id - 12) / 56) = f := Fin.ext (by rw [Fin.val_ofNat]; omega)
  have hj : Fin.ofNat 4 ((s.id - 12) % 56 / 14) = j := Fin.ext (by rw [Fin.val_ofNat]; omega)
  obtain ⟨hsize,hpolicy,haddress⟩ := position_sites s hs (by omega) (by omega)
  rw [hf, hj] at hpolicy haddress
  rw [hk'] at haddress
  rw [hinfo]
  have hinit := s.init_policy mask
  rw [hpolicy] at hinit
  obtain ⟨hcontrol,hposition,hreversed⟩ := jointPolicy_flags hinit
  refine ⟨(s.init_size mask).trans hsize,hcontrol,hposition,hreversed,?_⟩
  rw [← haddress]
  unfold Operator.Site.init
  split <;> rfl

theorem positionUnit_finds {k : Fin 14} (hk : 10 ≤ k.val) :
    (operator.construct mask thread memory pdoMemory).handler.findStorageByIndex
        (positionAddress f j k.val).index (positionAddress f j k.val).subIndex =
      some (jointUnit f j k) := by
  obtain ⟨info,hc⟩ := operator.exists_call mask (jointUnit f j k)
  have hinfo := positionUnit_info mask thread memory pdoMemory f j hk
  rw [Operator.construct_info hc] at hinfo
  have hne : jointUnit f j k ≠ rPdoUnit := by
    intro he
    have hval := congrArg Fin.val he
    simp only [jointUnit, rPdoUnit] at hval
    omega
  rw [← hinfo.address]
  exact finds_itself hc hne

end Constructed

namespace PositionInfo

variable {f : Fin 5} {j : Fin 4} {address : Address} {info : StorageInfo}

theorem encodeData_eq (h : PositionInfo f j address info) (codec : PositionCodec)
    (data fill : Buffer8) :
    encodeData codec info data fill =
      Buffer8.of fill (if ReversedJoint f j then -codec.toRawPosition data
        else codec.toRawPosition data) := by
  simp only [encodeData, h.control, h.position, h.reversed, decide_eq_true_eq,
    Bool.false_eq_true, if_false, if_true]

theorem decodeData_eq (h : PositionInfo f j address info) (codec : PositionCodec)
    (fill fill' : Buffer8) (raw : BitVec 32) :
    decodeData codec info (Buffer8.of fill raw) fill' =
      if ReversedJoint f j then negateDouble (codec.extractRawPosition raw)
      else codec.extractRawPosition raw := by
  simp only [decodeData, h.control, h.position, h.reversed, decide_eq_true_eq,
    Bool.false_eq_true, if_false, if_true, Buffer8.as_of (show 32 ≤ 64 by decide)]

end PositionInfo

end WujiHand.Hand

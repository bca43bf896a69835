import WujiHand.Device.DataOperator

namespace WujiHand

def isReversedJoint (i : BitVec 32) : Bool := i &&& 0xFF == 0 && i != 0x0000

def positionPolicy (i : BitVec 32) : BitVec 30 :=
  if isReversedJoint i then StorageInfo.position ||| StorageInfo.positionReversed
  else StorageInfo.position

namespace Joint

def hardwareVersion : Data := readOnlyData 0x01 1 4
def hardwareDate : Data := readOnlyData 0x01 2 4
def controlMode : Data := writeOnlyData 0x02 1 2
def sinLevel : Data := writeOnlyData 0x05 8 2
def currentLimit : Data := writeOnlyData 0x07 2 2
def busVoltage : Data := readOnlyData 0x0B 8 4
def temperature : Data := readOnlyData 0x0B 9 4
def resetError : Data := writeOnlyData 0x0D 4 2
def errorCode : Data := readOnlyData 0x3F 0 4

def enabled : Data :=
  { writeOnlyData 0x40 0 1 with info := fun _ => .make 2 0x40 0 StorageInfo.controlWord }

def actualPosition : Data :=
  { readOnlyData 0x64 0 8 with info := fun i => .make 4 0x64 0 (positionPolicy i) }

def targetPosition : Data :=
  { writeOnlyData 0x7A 0 8 with info := fun i => .make 4 0x7A 0 (positionPolicy i) }

def upperLimit : Data :=
  { readOnlyData 0x0E 27 8 with
    info := fun i => .make 4 0x0E (if isReversedJoint i then 28 else 27) (positionPolicy i) }

def lowerLimit : Data :=
  { readOnlyData 0x0E 28 8 with
    info := fun i => .make 4 0x0E (if isReversedJoint i then 27 else 28) (positionPolicy i) }

def datas : List Data :=
  [hardwareVersion,hardwareDate,controlMode,sinLevel,currentLimit,busVoltage,temperature,resetError,
    errorCode,enabled,actualPosition,targetPosition,upperLimit,lowerLimit]

def operator : Operator := .leaf datas

end Joint

namespace Finger

def operator : Operator :=
  .node [] 4 (fun indexOffset j => indexOffset + BitVec.ofNat 16 (j * 0x100)) Joint.operator

end Finger

namespace Hand

def handedness : Data := readOnlyData 0x5090 0 1
def firmwareVersion : Data := readOnlyData 0x5201 1 4
def firmwareDate : Data := readOnlyData 0x5201 2 4
def systemTime : Data := readOnlyData 0x520A 1 4
def temperature : Data := readOnlyData 0x520A 9 4
def inputVoltage : Data := readOnlyData 0x520A 10 4
def pdoEnabled : Data := writeOnlyData 0x52A0 5 1
def rPdoId : Data := writeOnlyData 0x52A4 2 2
def tPdoId : Data := writeOnlyData 0x52A4 2 2
def pdoInterval : Data := writeOnlyData 0x52A4 5 4
def rPdoTriggerOffset : Data := writeOnlyData 0x52A4 6 4
def tPdoTriggerOffset : Data := writeOnlyData 0x52A4 7 4

def datas : List Data :=
  [handedness,firmwareVersion,firmwareDate,systemTime,temperature,inputVoltage,pdoEnabled,rPdoId,
    tPdoId,pdoInterval,rPdoTriggerOffset,tPdoTriggerOffset]

def operator : Operator :=
  .node datas 5 (fun _ j => BitVec.ofNat 16 (0x2000 + j * 0x800)) Finger.operator

def rPdoUnit : Fin operator.dataCount := ⟨7,by decide⟩
def tPdoUnit : Fin operator.dataCount := ⟨8,by decide⟩

def jointAddresses (f k : Nat) : List (Nat × Address) :=
  Joint.operator.addresses (((((0 : BitVec 32) <<< 8) + BitVec.ofNat 32 f) <<< 8) + BitVec.ofNat 32 k)
    (BitVec.ofNat 16 (0x2000 + f * 0x800) + BitVec.ofNat 16 (k * 0x100))
    (datas.length + f * Finger.operator.dataCount + k * Joint.operator.dataCount)

theorem jointAddresses_block (f k : Nat) (hf : f < 5) (hk : k < 4) :
    (∀ a ∈ jointAddresses f k, a.2.index.toNat / 0x100 = 0x20 + 8 * f + k) ∧
      (jointAddresses f k).Pairwise fun a b => a.2 ≠ b.2 := by
  have h : ∀ f < 5, ∀ k < 4,
      (∀ a ∈ jointAddresses f k, a.2.index.toNat / 0x100 = 0x20 + 8 * f + k) ∧
        (jointAddresses f k).Pairwise fun a b => a.2 ≠ b.2 := by decide +kernel
  exact h f hf k hk

theorem datas_block : ∀ a ∈ Operator.addressesOf 0 0 0 datas, 0x50 ≤ a.2.index.toNat / 0x100 := by
  decide +kernel

theorem datas_clash : (Operator.addressesOf 0 0 0 datas).Pairwise fun a b =>
    a.2 = b.2 → a.1 = rPdoUnit.val ∧ b.1 = tPdoUnit.val := by decide +kernel

theorem addresses_eq : operator.addresses 0 0 0 = Operator.addressesOf 0 0 0 datas ++
    (List.range 5).flatMap fun f => (List.range 4).flatMap fun k => jointAddresses f k := by
  simp only [operator, Operator.addresses, Finger.operator, Operator.addressesOf, List.nil_append,
    List.length_nil, Nat.zero_add, Nat.add_zero, jointAddresses]

theorem joints_apart {f f' k k' : Nat} (hf : f < 5) (hf' : f' < 5) (hk : k < 4) (hk' : k' < 4)
    (hne : f ≠ f' ∨ k ≠ k') {a b : Nat × Address} (ha : a ∈ jointAddresses f k)
    (hb : b ∈ jointAddresses f' k') : a.2 ≠ b.2 := by
  intro heq
  have hblock := (jointAddresses_block f k hf hk).1 a ha
  have hblock' := (jointAddresses_block f' k' hf' hk').1 b hb
  rw [heq] at hblock
  omega

theorem fingers_distinct : ((List.range 5).flatMap fun f => (List.range 4).flatMap fun k =>
    jointAddresses f k).Pairwise fun a b => a.2 ≠ b.2 := by
  refine List.pairwise_flatMap.mpr ⟨?_,?_⟩
  · intro f hf
    have hf' := List.mem_range.mp hf
    refine List.pairwise_flatMap.mpr ⟨?_,?_⟩
    · intro k hk
      exact (jointAddresses_block f k hf' (List.mem_range.mp hk)).2
    · refine List.pairwise_lt_range.imp_of_mem ?_
      intro k k' hk hk' hlt a ha b hb
      exact joints_apart hf' hf' (List.mem_range.mp hk) (List.mem_range.mp hk')
        (.inr hlt.ne) ha hb
  · refine List.pairwise_lt_range.imp_of_mem ?_
    intro f f' hf hf' hlt a ha b hb
    obtain ⟨k,hk,ha⟩ := List.mem_flatMap.mp ha
    obtain ⟨k',hk',hb⟩ := List.mem_flatMap.mp hb
    exact joints_apart (List.mem_range.mp hf) (List.mem_range.mp hf') (List.mem_range.mp hk)
      (List.mem_range.mp hk') (.inl hlt.ne) ha hb

theorem addresses_clash : (operator.addresses 0 0 0).Pairwise fun a b =>
    a.2 = b.2 → a.1 = rPdoUnit.val ∧ b.1 = tPdoUnit.val := by
  rw [addresses_eq]
  refine List.pairwise_append.mpr ⟨datas_clash,?_,?_⟩
  · exact fingers_distinct.imp fun hne heq => absurd heq hne
  · intro a ha b hb heq
    obtain ⟨f,hf,hb⟩ := List.mem_flatMap.mp hb
    obtain ⟨k,hk,hb⟩ := List.mem_flatMap.mp hb
    have hf' := List.mem_range.mp hf
    have hk' := List.mem_range.mp hk
    have hlow := (jointAddresses_block f k hf' hk').1 b hb
    have hhigh := datas_block a ha
    rw [heq] at hhigh
    omega

end Hand

end WujiHand

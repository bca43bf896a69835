import WujiHand.Device.Dispatch
import WujiHand.Handler.TickSystem

namespace WujiHand

theorem StorageInfo.masked_or (info : StorageInfo) :
    { info with policy := info.policy ||| masked }.Masked := by
  have h : (info.policy ||| masked) &&& masked = masked := by
    ext i hi
    simp only [BitVec.getElem_and, BitVec.getElem_or]
    cases info.policy[i] <;> cases masked[i] <;> rfl
  rw [Masked, has, h]
  rfl

namespace Operator

structure Site where
  id : Nat
  info : StorageInfo
  bit : Option Nat

def siteBit (i shape : BitVec 32) : Option Nat :=
  if shape = 0 then none else some (flatIndex i shape).toNat

def sitesOf (i shape : BitVec 32) (indexOffset : BitVec 16) : Nat → List Data → List Site
  | _, [] => []
  | id, d :: datas =>
    ⟨id,{ d.info i with index := (d.info i).index + indexOffset },siteBit i shape⟩ ::
      sitesOf i shape indexOffset (id + 1) datas

def sites (i shape : BitVec 32) (indexOffset : BitVec 16) (storageOffset : Nat) :
    Operator → List Site
  | leaf datas => sitesOf i shape indexOffset storageOffset datas
  | node datas subCount subIndexOffset sub =>
    sitesOf i shape indexOffset storageOffset datas ++
      (List.range subCount).flatMap fun j =>
        sub.sites ((i <<< 8) + BitVec.ofNat 32 j) ((shape <<< 8) ||| BitVec.ofNat 32 subCount)
          (subIndexOffset indexOffset j) (storageOffset + datas.length + j * sub.dataCount)

namespace Site

def Excluded (mask : BitVec 32) (s : Site) : Prop := ∃ b ∈ s.bit, mask.getLsbD b = true

instance (mask : BitVec 32) (s : Site) : Decidable (s.Excluded mask) :=
  inferInstanceAs (Decidable (∃ b ∈ s.bit, mask.getLsbD b = true))

def init (mask : BitVec 32) (s : Site) : Nat × StorageInfo :=
  (s.id,if s.Excluded mask then { s.info with policy := s.info.policy ||| StorageInfo.masked }
    else s.info)

theorem init_index (mask : BitVec 32) (s : Site) : (s.init mask).2.index = s.info.index := by
  unfold init
  split <;> rfl

theorem init_size (mask : BitVec 32) (s : Site) : (s.init mask).2.size = s.info.size := by
  unfold init
  split <;> rfl

theorem init_policy (mask : BitVec 32) (s : Site) :
    (s.init mask).2.policy = s.info.policy ∨
      (s.init mask).2.policy = s.info.policy ||| StorageInfo.masked := by
  unfold init
  split
  · exact .inr rfl
  · exact .inl rfl

theorem init_masked {mask : BitVec 32} {s : Site} (h : ¬s.info.Masked) :
    (s.init mask).2.Masked ↔ s.Excluded mask := by
  unfold init
  split
  · rename_i he
    exact ⟨fun _ => he,fun _ => s.info.masked_or⟩
  · rename_i he
    exact ⟨fun hm => absurd hm h,fun he' => absurd he' he⟩

end Site

theorem excluded_siteBit {mask i shape : BitVec 32} {id : Nat} {info : StorageInfo} :
    (⟨id,info,siteBit i shape⟩ : Site).Excluded mask ↔
      shape ≠ 0 ∧ mask.getLsbD (flatIndex i shape).toNat = true := by
  unfold Site.Excluded siteBit
  split
  · rename_i hzero
    exact ⟨fun ⟨_,hb,_⟩ => absurd hb nofun,fun ⟨hne,_⟩ => absurd hzero hne⟩
  · rename_i hne
    refine ⟨?_,fun ⟨_,hbit⟩ => ⟨_,rfl,hbit⟩⟩
    rintro ⟨b,hb,hbit⟩
    obtain rfl := Option.mem_some.mp hb
    exact ⟨hne,hbit⟩

theorem initDatas_sites (mask i shape : BitVec 32) (indexOffset : BitVec 16) (id : Nat)
    (datas : List Data) :
    initDatas mask i shape indexOffset id datas =
      (sitesOf i shape indexOffset id datas).map (Site.init mask) := by
  induction datas generalizing id with
  | nil => rfl
  | cons d datas ih =>
    rw [initDatas, sitesOf, List.map_cons, ih, initData, Site.init]
    simp only [excluded_siteBit]

theorem initStorageInfo_sites (mask i shape : BitVec 32) (indexOffset : BitVec 16)
    (storageOffset : Nat) (op : Operator) :
    op.initStorageInfo mask i shape indexOffset storageOffset =
      (op.sites i shape indexOffset storageOffset).map (Site.init mask) := by
  induction op generalizing i shape indexOffset storageOffset with
  | leaf datas => exact initDatas_sites ..
  | node datas subCount subIndexOffset sub ih =>
    simp only [initStorageInfo, sites, List.map_append, initDatas_sites, List.map_flatMap, ih]

theorem construct_site {op : Operator} {Fn Ctx : Type} (mask : BitVec 32) (thread : Nat)
    (memory : Fin op.dataCount → StorageUnit Fn Ctx) (pdoMemory : JointTable (BitVec 32))
    (id : Fin op.dataCount) :
    ∃ s ∈ op.sites 0 0 0 0, s.id = id.val ∧
      ((op.construct mask thread memory pdoMemory).handler.storage id).info = (s.init mask).2 := by
  obtain ⟨info,hc⟩ := op.exists_call mask id
  have hmem : (id.val,info) ∈ op.initStorageInfo mask 0 0 0 0 := by
    rw [← calls_map]
    exact List.mem_map_of_mem (f := fun c => (c.1.val,c.2)) hc
  rw [initStorageInfo_sites] at hmem
  obtain ⟨s,hs,hinit⟩ := List.mem_map.mp hmem
  refine ⟨s,hs,congrArg Prod.fst hinit,?_⟩
  rw [construct_info hc, hinit]

end Operator

namespace Hand

def jointBase (f : Fin 5) (j : Fin 4) : Nat := 0x2000 + 0x800 * f.val + 0x100 * j.val

def JointRange (f : Fin 5) (j : Fin 4) (index : BitVec 16) : Prop :=
  jointBase f j ≤ index.toNat ∧ index.toNat ≤ jointBase f j + 0xFF

def jointBit (f : Fin 5) (j : Fin 4) : Nat := 4 * f.val + j.val

def handUnit (k : Fin 12) : Fin operator.dataCount := ⟨k.val,k.isLt.trans (by decide)⟩

namespace JointData

def controlMode : Fin 14 := 2
def currentLimit : Fin 14 := 4
def enabled : Fin 14 := 9
def actualPosition : Fin 14 := 10
def targetPosition : Fin 14 := 11
def upperLimit : Fin 14 := 12
def lowerLimit : Fin 14 := 13

end JointData

def jointUnit (f : Fin 5) (j : Fin 4) (k : Fin 14) : Fin operator.dataCount :=
  ⟨12 + 56 * f.val + 14 * j.val + k.val,by
    have hcount : operator.dataCount = 292 := rfl
    omega⟩

theorem unit_cases (id : Fin operator.dataCount) :
    (∃ k, id = handUnit k) ∨ ∃ f j k, id = jointUnit f j k := by
  have hlt : id.val < 292 := id.isLt
  by_cases h : id.val < 12
  · exact .inl ⟨⟨id.val,h⟩,rfl⟩
  · refine .inr ⟨⟨(id.val - 12) / 56,by omega⟩,⟨(id.val - 12) % 56 / 14,by omega⟩,
      ⟨(id.val - 12) % 14,by omega⟩,Fin.ext ?_⟩
    dsimp only [jointUnit]
    omega

abbrev Located (s : Operator.Site) : Prop :=
  ¬s.info.Masked ∧
    if s.id < 12 then s.bit = none ∧ 0x5000 ≤ s.info.index.toNat
    else
      s.bit = some (4 * ((s.id - 12) / 56) + (s.id - 12) % 56 / 14) ∧
        s.info.index.toNat / 0x100 = 0x20 + 8 * ((s.id - 12) / 56) + (s.id - 12) % 56 / 14

theorem sites_located : ∀ s ∈ operator.sites 0 0 0 0, Located s := by decide +kernel

section Constructed

variable {Fn Ctx : Type} (mask : BitVec 32) (thread : Nat)
  (memory : Fin operator.dataCount → StorageUnit Fn Ctx) (pdoMemory : JointTable (BitVec 32))

theorem handUnit_info (k : Fin 12) :
    ¬((operator.construct mask thread memory pdoMemory).handler.storage (handUnit k)).Masked ∧
      0x5000 ≤ ((operator.construct mask thread memory pdoMemory).handler.storage
        (handUnit k)).info.index.toNat := by
  obtain ⟨s,hs,hid,hinfo⟩ := Operator.construct_site mask thread memory pdoMemory (handUnit k)
  obtain ⟨hunmasked,hplace⟩ := sites_located s hs
  have hlt : s.id < 12 := hid ▸ k.isLt
  rw [if_pos hlt] at hplace
  rw [StorageUnit.Masked, hinfo, Operator.Site.init_masked hunmasked, Operator.Site.init_index]
  refine ⟨?_,hplace.2⟩
  rintro ⟨b,hb,_⟩
  rw [hplace.1] at hb
  cases hb

theorem jointUnit_info (f : Fin 5) (j : Fin 4) (k : Fin 14) :
    (((operator.construct mask thread memory pdoMemory).handler.storage (jointUnit f j k)).Masked ↔
        mask.getLsbD (jointBit f j) = true) ∧
      JointRange f j ((operator.construct mask thread memory pdoMemory).handler.storage
        (jointUnit f j k)).info.index := by
  obtain ⟨s,hs,hid,hinfo⟩ :=
    Operator.construct_site mask thread memory pdoMemory (jointUnit f j k)
  obtain ⟨hunmasked,hplace⟩ := sites_located s hs
  have hid' : s.id = 12 + 56 * f.val + 14 * j.val + k.val := hid
  have hf : (s.id - 12) / 56 = f.val := by omega
  have hj : (s.id - 12) % 56 / 14 = j.val := by omega
  rw [if_neg (by omega), hf, hj] at hplace
  rw [StorageUnit.Masked, hinfo, Operator.Site.init_masked hunmasked, Operator.Site.init_index]
  refine ⟨?_,?_⟩
  · simp only [Operator.Site.Excluded, hplace.1, jointBit, Option.mem_some_iff, exists_eq_left']
  · have hindex := hplace.2
    unfold JointRange jointBase
    omega

theorem jointRange_inj {f f' : Fin 5} {j j' : Fin 4} {index : BitVec 16}
    (h : JointRange f j index) (h' : JointRange f' j' index) : f = f' ∧ j = j' := by
  unfold JointRange jointBase at h h'
  refine ⟨Fin.ext ?_,Fin.ext ?_⟩ <;> omega

theorem unmasked_outside {id : Fin operator.dataCount} {f : Fin 5} {j : Fin 4}
    (hm : ¬((operator.construct mask thread memory pdoMemory).handler.storage id).Masked)
    (hr : JointRange f j
      ((operator.construct mask thread memory pdoMemory).handler.storage id).info.index) :
    mask.getLsbD (jointBit f j) = false := by
  rcases unit_cases id with ⟨k,rfl⟩ | ⟨f',j',k,rfl⟩
  · have hindex := (handUnit_info mask thread memory pdoMemory k).2
    unfold JointRange jointBase at hr
    omega
  · obtain ⟨hmasked,hrange⟩ := jointUnit_info mask thread memory pdoMemory f' j' k
    obtain ⟨rfl,rfl⟩ := jointRange_inj hr hrange
    exact Bool.eq_false_iff.mpr fun hbit => hm (hmasked.mpr hbit)

end Constructed

structure MaskRespected {Fn Ctx : Type} (mask : BitVec 32)
    (p : TickPass operator.dataCount Fn Ctx) : Prop where
  unaddressed : ∀ s ∈ p.buffer.submitted, s.CarriesRequests ∧
    ∀ q ∈ s.requests, ∀ f j, JointRange f j q.index → mask.getLsbD (jointBit f j) = false
  unchanged : ∀ id, (p.handler.storage id).Masked → ∀ bytes fill,
    (p.handler.receiveTransferCompletedCallback bytes fill).1.storage id = p.handler.storage id
  joints : ∀ f j k, JointRange f j (p.handler.storage (jointUnit f j k)).info.index ∧
    ((p.handler.storage (jointUnit f j k)).Masked ↔ mask.getLsbD (jointBit f j) = true)
  hand : ∀ k, ¬(p.handler.storage (handUnit k)).Masked

theorem masked_joints_never_addressed {Fn Ctx : Type} (codec : PositionCodec) (mask : BitVec 32)
    (thread : Nat) (memory : Fin operator.dataCount → StorageUnit Fn Ctx)
    (pdoMemory : JointTable (BitVec 32)) (allocTransferCount : Nat)
    (transferMemory : Nat → Memory) (es : List (SystemEvent operator.dataCount Fn Ctx)) :
    MaskRespected mask (Runs.run (TickSystem.step codec)
      (TickSystem.start (operator.construct mask thread memory pdoMemory).handler
        allocTransferCount transferMemory) es).1 := by
  have h := TickSystem.run_sparing codec (TickSystem.start_sparing
    (operator.construct mask thread memory pdoMemory) allocTransferCount transferMemory) es
  generalize (Runs.run (TickSystem.step codec) _ es).1 = p at h
  refine ⟨?_,?_,?_,?_⟩
  · intro s hs
    obtain ⟨hcarries,hrequests⟩ := h.requests hs
    refine ⟨hcarries,fun q hq f j hr => ?_⟩
    obtain ⟨id,hindex,hm⟩ := hrequests q hq
    exact unmasked_outside mask thread memory pdoMemory hm (hindex ▸ hr)
  · exact fun id hm bytes fill =>
      Handler.received_inert codec ((h.parked id).inert hm) bytes fill
  · intro f j k
    obtain ⟨hmasked,hrange⟩ := jointUnit_info mask thread memory pdoMemory f j k
    rw [h.masked, h.layout.2]
    exact ⟨hrange,hmasked⟩
  · intro k
    rw [h.masked]
    exact (handUnit_info mask thread memory pdoMemory k).1

end Hand

end WujiHand

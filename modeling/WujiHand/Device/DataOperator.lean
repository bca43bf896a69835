import WujiHand.Handler.System
import WujiHand.Library.Registry

namespace WujiHand

structure Data where
  readable : Bool
  writable : Bool
  info : BitVec 32 → StorageInfo

def readOnlyData (index : BitVec 16) (subIndex : BitVec 8) (valueSize : Nat) : Data where
  readable := true
  writable := false
  info := fun _ => .make valueSize index subIndex 0

def writeOnlyData (index : BitVec 16) (subIndex : BitVec 8) (valueSize : Nat) : Data where
  readable := false
  writable := true
  info := fun _ => .make valueSize index subIndex 0

structure Address where
  index : BitVec 16
  subIndex : BitVec 8
deriving DecidableEq, Repr

def StorageInfo.address (info : StorageInfo) : Address := ⟨info.index,info.subIndex⟩

def Address.key (a : Address) : BitVec 32 := indexMapKey a.index a.subIndex

theorem Address.key_inj {a a' : Address} : a.key = a'.key ↔ a = a' := by
  rw [key, key, indexMapKey_inj, Address.mk.injEq]

-- A class of the hierarchy: its own datas, and how many subs it has and where their indices start.
inductive Operator where
  | leaf (datas : List Data)
  | node (datas : List Data) (subCount : Nat) (subIndexOffset : BitVec 16 → Nat → BitVec 16)
      (sub : Operator)

namespace Operator

def datas : Operator → List Data
  | leaf datas => datas
  | node datas _ _ _ => datas

def dataCount : Operator → Nat
  | leaf datas => datas.length
  | node datas subCount _ sub => datas.length + subCount * sub.dataCount

def flatIndex (i shape : BitVec 32) : BitVec 32 :=
  ((i &&& 0xFF00) >>> 8) * (shape &&& 0xFF) + (i &&& 0xFF)

def initData (mask i shape : BitVec 32) (indexOffset : BitVec 16) (d : Data) : StorageInfo :=
  let info := d.info i
  let info := { info with index := info.index + indexOffset }
  if shape ≠ 0 ∧ mask.getLsbD (flatIndex i shape).toNat = true then
    { info with policy := info.policy ||| StorageInfo.masked }
  else info

def initDatas (mask i shape : BitVec 32) (indexOffset : BitVec 16) :
    Nat → List Data → List (Nat × StorageInfo)
  | _, [] => []
  | id, d :: datas =>
    (id,initData mask i shape indexOffset d) :: initDatas mask i shape indexOffset (id + 1) datas

def initStorageInfo (mask i shape : BitVec 32) (indexOffset : BitVec 16) (storageOffset : Nat) :
    Operator → List (Nat × StorageInfo)
  | leaf datas => initDatas mask i shape indexOffset storageOffset datas
  | node datas subCount subIndexOffset sub =>
    initDatas mask i shape indexOffset storageOffset datas ++
      (List.range subCount).flatMap fun j =>
        sub.initStorageInfo mask ((i <<< 8) + BitVec.ofNat 32 j)
          ((shape <<< 8) ||| BitVec.ofNat 32 subCount) (subIndexOffset indexOffset j)
          (storageOffset + datas.length + j * sub.dataCount)

def addressesOf (i : BitVec 32) (indexOffset : BitVec 16) :
    Nat → List Data → List (Nat × Address)
  | _, [] => []
  | id, d :: datas =>
    (id,⟨(d.info i).index + indexOffset,(d.info i).subIndex⟩) ::
      addressesOf i indexOffset (id + 1) datas

def addresses (i : BitVec 32) (indexOffset : BitVec 16) (storageOffset : Nat) :
    Operator → List (Nat × Address)
  | leaf datas => addressesOf i indexOffset storageOffset datas
  | node datas subCount subIndexOffset sub =>
    addressesOf i indexOffset storageOffset datas ++
      (List.range subCount).flatMap fun j =>
        sub.addresses ((i <<< 8) + BitVec.ofNat 32 j) (subIndexOffset indexOffset j)
          (storageOffset + datas.length + j * sub.dataCount)

theorem initData_address (mask i shape : BitVec 32) (indexOffset : BitVec 16) (d : Data) :
    (initData mask i shape indexOffset d).address =
      ⟨(d.info i).index + indexOffset,(d.info i).subIndex⟩ := by
  simp only [initData]
  split <;> rfl

theorem initDatas_addresses (mask i shape : BitVec 32) (indexOffset : BitVec 16) (id : Nat)
    (datas : List Data) :
    (initDatas mask i shape indexOffset id datas).map (fun c => (c.1,c.2.address)) =
      addressesOf i indexOffset id datas := by
  induction datas generalizing id with
  | nil => rfl
  | cons d datas ih => rw [initDatas, List.map_cons, ih, initData_address, addressesOf]

theorem initStorageInfo_addresses (mask i shape : BitVec 32) (indexOffset : BitVec 16)
    (storageOffset : Nat) (op : Operator) :
    (op.initStorageInfo mask i shape indexOffset storageOffset).map
        (fun c => (c.1,c.2.address)) =
      op.addresses i indexOffset storageOffset := by
  induction op generalizing i shape indexOffset storageOffset with
  | leaf datas => exact initDatas_addresses ..
  | node datas subCount subIndexOffset sub ih =>
    simp only [initStorageInfo, addresses, List.map_append, initDatas_addresses, List.map_flatMap,
      ih]

theorem initDatas_ids (mask i shape : BitVec 32) (indexOffset : BitVec 16) (id : Nat)
    (datas : List Data) :
    (initDatas mask i shape indexOffset id datas).map Prod.fst = List.range' id datas.length := by
  induction datas generalizing id with
  | nil => rfl
  | cons d datas ih => rw [initDatas, List.map_cons, ih, List.length_cons, List.range'_succ]

theorem flatMap_blocks (start size count : Nat) :
    ((List.range count).flatMap fun j => List.range' (start + j * size) size) =
      List.range' start (count * size) := by
  induction count with
  | zero => simp
  | succ count ih =>
    rw [List.range_succ, List.flatMap_append, ih, List.flatMap_singleton, List.range'_append_1,
      Nat.succ_mul]

theorem initStorageInfo_ids (mask i shape : BitVec 32) (indexOffset : BitVec 16)
    (storageOffset : Nat) (op : Operator) :
    (op.initStorageInfo mask i shape indexOffset storageOffset).map Prod.fst =
      List.range' storageOffset op.dataCount := by
  induction op generalizing i shape indexOffset storageOffset with
  | leaf datas => exact initDatas_ids ..
  | node datas subCount subIndexOffset sub ih =>
    simp only [initStorageInfo, List.map_append, List.map_flatMap, ih, dataCount]
    rw [flatMap_blocks, initDatas_ids, List.range'_append_1]

theorem id_lt_dataCount {mask : BitVec 32} {op : Operator} :
    ∀ c ∈ op.initStorageInfo mask 0 0 0 0, c.1 < op.dataCount := by
  intro c hc
  have hid := List.mem_map_of_mem (f := Prod.fst) hc
  rw [initStorageInfo_ids] at hid
  simpa using hid

def iterate (index : Nat) : Nat → Nat → Operator → List Nat
  | 0, storageOffset, _ => [storageOffset + index]
  | _ + 1, _, leaf _ => []
  | depth + 1, storageOffset, node datas subCount _ sub =>
    (List.range subCount).flatMap fun i =>
      sub.iterate index depth (storageOffset + datas.length + i * sub.dataCount)

def base : Nat → Operator → Operator
  | 0, op => op
  | _ + 1, leaf datas => leaf datas
  | depth + 1, node _ _ _ sub => sub.base depth

theorem datas_le_dataCount (op : Operator) : op.datas.length ≤ op.dataCount := by
  cases op with
  | leaf datas => exact Nat.le_refl _
  | node datas subCount subIndexOffset sub => exact Nat.le_add_right _ _

theorem iterate_lt {index depth storageOffset : Nat} {op : Operator}
    (hindex : index < (op.base depth).datas.length) :
    ∀ id ∈ op.iterate index depth storageOffset,
      storageOffset ≤ id ∧ id < storageOffset + op.dataCount := by
  induction depth generalizing op storageOffset with
  | zero =>
    intro id hid
    obtain rfl := List.mem_singleton.mp hid
    have hle := op.datas_le_dataCount
    have hlt : index < op.datas.length := by cases op <;> exact hindex
    omega
  | succ depth ih =>
    cases op with
    | leaf datas => exact nofun
    | node datas subCount subIndexOffset sub =>
      intro id hid
      obtain ⟨i,hi,hid⟩ := List.mem_flatMap.mp hid
      have hblock := ih hindex id hid
      have hle : (i + 1) * sub.dataCount ≤ subCount * sub.dataCount :=
        Nat.mul_le_mul_right _ (List.mem_range.mp hi)
      rw [Nat.succ_mul] at hle
      simp only [dataCount]
      omega

def units {n : Nat} (op : Operator) (index depth storageOffset : Nat)
    (hindex : index < (op.base depth).datas.length) (hfit : storageOffset + op.dataCount ≤ n) :
    List (Fin n) :=
  (op.iterate index depth storageOffset).pmap (fun id h => ⟨id,h⟩)
    fun id hid => (iterate_lt hindex id hid).2.trans_le hfit

def calls (op : Operator) (mask : BitVec 32) : List (Fin op.dataCount × StorageInfo) :=
  (op.initStorageInfo mask 0 0 0 0).pmap (fun c h => (⟨c.1,h⟩,c.2)) id_lt_dataCount

theorem calls_map (op : Operator) (mask : BitVec 32) :
    (op.calls mask).map (fun c => (c.1.val,c.2)) = op.initStorageInfo mask 0 0 0 0 := by
  rw [calls, List.map_pmap]
  change List.pmap (fun c _ => c) _ _ = _
  rw [List.pmap_eq_map, List.map_id']

theorem calls_ids (op : Operator) (mask : BitVec 32) :
    (op.calls mask).map (fun c => c.1.val) = List.range op.dataCount := by
  have h := initStorageInfo_ids mask 0 0 0 0 op
  rw [← calls_map, List.map_map] at h
  rw [List.range_eq_range', ← h]
  rfl

theorem calls_addresses (op : Operator) (mask : BitVec 32) :
    (op.calls mask).map (fun c => (c.1.val,c.2.address)) = op.addresses 0 0 0 := by
  rw [← initStorageInfo_addresses mask 0 0, ← calls_map, List.map_map]
  rfl

end Operator

namespace Handler

variable {n : Nat} {Fn Ctx : Type}

-- The constructor sets the operation and the version of a unit; its other cells are whatever
-- the memory held.
def construct (thread : Nat) (memory : Fin n → StorageUnit Fn Ctx)
    (pdoMemory : JointTable (BitVec 32)) : Handler n Fn Ctx where
  storage := fun id => { memory id with operation := ⟨.none,.success⟩, version := 0 }
  indexStorageMap := fun _ => none
  operationThreadId := some thread
  pdoReadResult := pdoMemory
  pdoReadResultVersion := 0

def initAll (h : Handler n Fn Ctx) (calls : List (Fin n × StorageInfo)) : Handler n Fn Ctx :=
  calls.foldl (fun h c => h.initStorageInfo c.1 c.2) h

theorem initAll_indexStorageMap (h : Handler n Fn Ctx) (calls : List (Fin n × StorageInfo)) :
    (h.initAll calls).indexStorageMap =
      Registry.registerAll h.indexStorageMap (calls.map fun c => (c.2.address.key,c.1)) := by
  induction calls generalizing h with
  | nil => rfl
  | cons c calls ih => exact ih (h.initStorageInfo c.1 c.2)

theorem initStorageInfo_info (h : Handler n Fn Ctx) (c : Fin n × StorageInfo) :
    (fun id => some ((h.initStorageInfo c.1 c.2).storage id).info) =
      Registry.register (fun id => some (h.storage id).info) c := by
  funext id
  by_cases he : id = c.1
  · subst he
    rw [Registry.register, Function.update_self, initStorageInfo]
    simp only [setUnit_storage_self]
  · rw [Registry.register_of_ne (Ne.symm he), initStorageInfo]
    simp only [setUnit_storage_of_ne _ _ he]

theorem initAll_info (h : Handler n Fn Ctx) (calls : List (Fin n × StorageInfo)) :
    (fun id => some ((h.initAll calls).storage id).info) =
      Registry.registerAll (fun id => some (h.storage id).info) calls := by
  induction calls generalizing h with
  | nil => rfl
  | cons c calls ih =>
    rw [Registry.registerAll_cons, ← initStorageInfo_info]
    exact ih (h.initStorageInfo c.1 c.2)

theorem initAll_operation (h : Handler n Fn Ctx) (calls : List (Fin n × StorageInfo)) (id : Fin n) :
    ((h.initAll calls).storage id).operation = (h.storage id).operation := by
  induction calls generalizing h with
  | nil => rfl
  | cons c calls ih =>
    refine (ih (h.initStorageInfo c.1 c.2)).trans ?_
    by_cases he : id = c.1
    · subst he
      simp only [initStorageInfo, setUnit_storage_self]
    · simp only [initStorageInfo, setUnit_storage_of_ne _ _ he]

theorem initAll_operationThreadId (h : Handler n Fn Ctx) (calls : List (Fin n × StorageInfo)) :
    (h.initAll calls).operationThreadId = h.operationThreadId := by
  induction calls generalizing h with
  | nil => rfl
  | cons c calls ih => exact ih (h.initStorageInfo c.1 c.2)

end Handler

namespace Operator

variable {Fn Ctx : Type}

def construct (op : Operator) (mask : BitVec 32) (thread : Nat)
    (memory : Fin op.dataCount → StorageUnit Fn Ctx) (pdoMemory : JointTable (BitVec 32)) :
    FreshHandler op.dataCount Fn Ctx where
  handler := (Handler.construct thread memory pdoMemory).initAll (op.calls mask)
  idle := Handler.initAll_operation _ (op.calls mask)

variable {op : Operator} {mask : BitVec 32} {thread : Nat}
  {memory : Fin op.dataCount → StorageUnit Fn Ctx} {pdoMemory : JointTable (BitVec 32)}

theorem calls_ordered (op : Operator) (mask : BitVec 32) :
    (op.calls mask).Pairwise fun c c' => c.1 < c'.1 := by
  have h : ((op.calls mask).map fun c => c.1.val).Pairwise (· < ·) := by
    rw [calls_ids]
    exact List.pairwise_lt_range
  exact (List.pairwise_map.mp h).imp fun hlt => hlt

theorem construct_info {id : Fin op.dataCount} {info : StorageInfo}
    (hc : (id,info) ∈ op.calls mask) :
    ((op.construct mask thread memory pdoMemory).handler.storage id).info = info := by
  have hlast : (op.calls mask).Pairwise fun e e' => e = (id,info) → e'.1 ≠ id := by
    refine (calls_ordered op mask).imp ?_
    rintro e e' hlt rfl
    exact hlt.ne'
  have hinfo := congrFun (Handler.initAll_info (Handler.construct thread memory pdoMemory)
    (op.calls mask)) id
  rw [Registry.registerAll_eq_some hc hlast] at hinfo
  exact Option.some.inj hinfo

theorem construct_finds {id : Fin op.dataCount} {info : StorageInfo}
    (hc : (id,info) ∈ op.calls mask)
    (hlast : (op.calls mask).Pairwise fun e e' => e.1 = id → e'.2.address ≠ info.address) :
    (op.construct mask thread memory pdoMemory).handler.findStorageByIndex info.index
      info.subIndex = some id := by
  have hmap := Handler.initAll_indexStorageMap (Handler.construct thread memory pdoMemory)
    (op.calls mask)
  refine (congrFun hmap info.address.key).trans ?_
  refine Registry.registerAll_eq_some (List.mem_map.mpr ⟨(id,info),hc,rfl⟩)
    (List.pairwise_map.mpr ?_)
  refine hlast.imp ?_
  intro e e' hne he hkey
  exact hne (Prod.mk.inj he).2 (Address.key_inj.mp hkey)

theorem exists_call (op : Operator) (mask : BitVec 32) (id : Fin op.dataCount) :
    ∃ info, (id,info) ∈ op.calls mask := by
  have hid : id.val ∈ (op.calls mask).map fun c => c.1.val := by
    rw [calls_ids, List.mem_range]
    exact id.isLt
  obtain ⟨⟨id',info⟩,hc,he⟩ := List.mem_map.mp hid
  obtain rfl := Fin.ext he
  exact ⟨info,hc⟩

end Operator

end WujiHand

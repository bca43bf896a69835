import WujiHand.Device.Hand

namespace WujiHand

variable {D : Type}

def dataIndex [DecidableEq D] (search : D) : Nat → List D → Nat
  | index, [] => index
  | index, first :: types => if first = search then index else dataIndex search (index + 1) types

inductive Hierarchy (D : Type) where
  | leaf (types : List D)
  | node (types : List D) (subCount : Nat) (subIndexOffset : BitVec 16 → Nat → BitVec 16)
      (sub : Hierarchy D)

structure Place where
  i : BitVec 32
  shape : BitVec 32
  indexOffset : BitVec 16
  storageOffset : Nat

def Place.root : Place := ⟨0,0,0,0⟩

def Place.child (p : Place) (count subCount size : Nat)
    (subIndexOffset : BitVec 16 → Nat → BitVec 16) (j : Nat) : Place where
  i := (p.i <<< 8) + BitVec.ofNat 32 j
  shape := (p.shape <<< 8) ||| BitVec.ofNat 32 subCount
  indexOffset := subIndexOffset p.indexOffset j
  storageOffset := p.storageOffset + count + j * size

structure Registration (D : Type) where
  path : List Nat
  data : D
  id : Nat
  info : StorageInfo

namespace Hierarchy

def types : Hierarchy D → List D
  | leaf types => types
  | node types _ _ _ => types

def dataCount : Hierarchy D → Nat
  | leaf types => types.length
  | node types subCount _ sub => types.length + subCount * sub.dataCount

def operator (declare : D → Data) : Hierarchy D → Operator
  | leaf types => .leaf (types.map declare)
  | node types subCount subIndexOffset sub =>
    .node (types.map declare) subCount subIndexOffset (sub.operator declare)

def registerDatas (declare : D → Data) (mask : BitVec 32) (path : List Nat) (p : Place) :
    Nat → List D → List (Registration D)
  | _, [] => []
  | index, d :: types =>
    ⟨path,d,p.storageOffset + index,
        Operator.initData mask p.i p.shape p.indexOffset (declare d)⟩ ::
      registerDatas declare mask path p (index + 1) types

def registrations (declare : D → Data) (mask : BitVec 32) :
    List Nat → Place → Hierarchy D → List (Registration D)
  | path, p, leaf types => registerDatas declare mask path p 0 types
  | path, p, node types subCount subIndexOffset sub =>
    registerDatas declare mask path p 0 types ++
      (List.range subCount).flatMap fun j =>
        sub.registrations declare mask (path ++ [j])
          (p.child types.length subCount sub.dataCount subIndexOffset j)

def nodeAt : List Nat → Place → Hierarchy D → Option (Place × Hierarchy D)
  | [], p, h => some (p,h)
  | _ :: _, _, leaf _ => none
  | j :: path, p, node types subCount subIndexOffset sub =>
    if j < subCount then
      sub.nodeAt path (p.child types.length subCount sub.dataCount subIndexOffset j)
    else none

def iterate [DecidableEq D] (d : D) : Nat → Nat → Hierarchy D → List Nat
  | 0, storageOffset, h => [storageOffset + dataIndex d 0 h.types]
  | _ + 1, _, leaf _ => []
  | depth + 1, storageOffset, node types subCount _ sub =>
    (List.range subCount).flatMap fun i =>
      sub.iterate d depth (storageOffset + types.length + i * sub.dataCount)

def Mentions (d : D) : Hierarchy D → Prop
  | leaf types => d ∈ types
  | node types _ _ sub => d ∈ types ∨ sub.Mentions d

def base : Nat → Hierarchy D → Hierarchy D
  | 0, h => h
  | _ + 1, leaf types => leaf types
  | depth + 1, node _ _ _ sub => sub.base depth

def ListsOnce [DecidableEq D] (d : D) : Nat → Hierarchy D → Prop
  | 0, leaf types => types.count d = 1
  | 0, node types _ _ sub => types.count d = 1 ∧ ¬sub.Mentions d
  | _ + 1, leaf _ => False
  | depth + 1, node types _ _ sub => d ∉ types ∧ sub.ListsOnce d depth

end Hierarchy

inductive JointType where
  | hardwareVersion
  | hardwareDate
  | controlMode
  | sinLevel
  | currentLimit
  | busVoltage
  | temperature
  | resetError
  | errorCode
  | enabled
  | actualPosition
  | targetPosition
  | upperLimit
  | lowerLimit
deriving DecidableEq

inductive HandType where
  | handedness
  | firmwareVersion
  | firmwareDate
  | systemTime
  | temperature
  | inputVoltage
  | pdoEnabled
  | rPdoId
  | tPdoId
  | pdoInterval
  | rPdoTriggerOffset
  | tPdoTriggerOffset
deriving DecidableEq

def JointType.declare : JointType → Data
  | hardwareVersion => Joint.hardwareVersion
  | hardwareDate => Joint.hardwareDate
  | controlMode => Joint.controlMode
  | sinLevel => Joint.sinLevel
  | currentLimit => Joint.currentLimit
  | busVoltage => Joint.busVoltage
  | temperature => Joint.temperature
  | resetError => Joint.resetError
  | errorCode => Joint.errorCode
  | enabled => Joint.enabled
  | actualPosition => Joint.actualPosition
  | targetPosition => Joint.targetPosition
  | upperLimit => Joint.upperLimit
  | lowerLimit => Joint.lowerLimit

def HandType.declare : HandType → Data
  | handedness => Hand.handedness
  | firmwareVersion => Hand.firmwareVersion
  | firmwareDate => Hand.firmwareDate
  | systemTime => Hand.systemTime
  | temperature => Hand.temperature
  | inputVoltage => Hand.inputVoltage
  | pdoEnabled => Hand.pdoEnabled
  | rPdoId => Hand.rPdoId
  | tPdoId => Hand.tPdoId
  | pdoInterval => Hand.pdoInterval
  | rPdoTriggerOffset => Hand.rPdoTriggerOffset
  | tPdoTriggerOffset => Hand.tPdoTriggerOffset

inductive HandData where
  | hand (d : HandType)
  | joint (d : JointType)
deriving DecidableEq

def HandData.declare : HandData → Data
  | hand d => d.declare
  | joint d => d.declare

def Joint.types : List HandData :=
  [JointType.hardwareVersion,.hardwareDate,.controlMode,.sinLevel,.currentLimit,.busVoltage,
    .temperature,.resetError,.errorCode,.enabled,.actualPosition,.targetPosition,.upperLimit,
    .lowerLimit].map .joint

def Hand.types : List HandData :=
  [HandType.handedness,.firmwareVersion,.firmwareDate,.systemTime,.temperature,.inputVoltage,
    .pdoEnabled,.rPdoId,.tPdoId,.pdoInterval,.rPdoTriggerOffset,.tPdoTriggerOffset].map .hand

def Finger.hierarchy : Hierarchy HandData :=
  .node [] 4 (fun indexOffset j => indexOffset + BitVec.ofNat 16 (j * 0x100)) (.leaf Joint.types)

def Hand.hierarchy : Hierarchy HandData :=
  .node types 5 (fun _ j => BitVec.ofNat 16 (0x2000 + j * 0x800)) Finger.hierarchy

theorem Hand.hierarchy_operator : hierarchy.operator HandData.declare = operator := rfl

theorem Finger.listsOnce_joint (d : JointType) : hierarchy.ListsOnce (.joint d) 1 := by
  have honce : Joint.types.count (HandData.joint d) = 1 := by cases d <;> decide
  exact ⟨List.not_mem_nil,honce⟩

theorem Hand.listsOnce_hand (d : HandType) : hierarchy.ListsOnce (.hand d) 0 := by
  have honce : types.count (HandData.hand d) = 1 := by cases d <;> decide
  have hnone : HandData.hand d ∉ Joint.types := by cases d <;> decide
  exact ⟨honce,fun hbelow => hbelow.elim List.not_mem_nil hnone⟩

namespace Hierarchy

theorem operator_dataCount (declare : D → Data) (h : Hierarchy D) :
    (h.operator declare).dataCount = h.dataCount := by
  induction h with
  | leaf types => exact List.length_map _
  | node types subCount subIndexOffset sub ih =>
    simp only [operator, Operator.dataCount, dataCount, List.length_map, ih]

theorem registerDatas_infos (declare : D → Data) (mask : BitVec 32) (path : List Nat) (p : Place)
    (index : Nat) (types : List D) :
    (registerDatas declare mask path p index types).map (fun r => (r.id,r.info)) =
      Operator.initDatas mask p.i p.shape p.indexOffset (p.storageOffset + index)
        (types.map declare) := by
  induction types generalizing index with
  | nil => rfl
  | cons d types ih =>
    rw [registerDatas, List.map_cons, ih, List.map_cons, Operator.initDatas, Nat.add_assoc]

theorem registrations_infos (declare : D → Data) (mask : BitVec 32) (path : List Nat) (p : Place)
    (h : Hierarchy D) :
    (h.registrations declare mask path p).map (fun r => (r.id,r.info)) =
      (h.operator declare).initStorageInfo mask p.i p.shape p.indexOffset p.storageOffset := by
  induction h generalizing path p with
  | leaf types => exact registerDatas_infos ..
  | node types subCount subIndexOffset sub ih =>
    simp only [registrations, operator, Operator.initStorageInfo, List.map_append,
      registerDatas_infos, List.map_flatMap, ih, operator_dataCount, List.length_map,
      Nat.add_zero]
    rfl

theorem registrations_ids (declare : D → Data) (mask : BitVec 32) (path : List Nat) (p : Place)
    (h : Hierarchy D) :
    (h.registrations declare mask path p).map (·.id) =
      List.range' p.storageOffset h.dataCount := by
  have hids := Operator.initStorageInfo_ids mask p.i p.shape p.indexOffset p.storageOffset
    (h.operator declare)
  rw [← registrations_infos declare mask path, List.map_map, operator_dataCount] at hids
  exact hids

section Access

variable [DecidableEq D] {declare : D → Data} {mask : BitVec 32} {d : D}

theorem iterate_eq_operator (d : D) (declare : D → Data) (depth storageOffset : Nat)
    (h : Hierarchy D) :
    h.iterate d depth storageOffset =
      (h.operator declare).iterate (dataIndex d 0 (h.base depth).types) depth storageOffset := by
  induction depth generalizing h storageOffset with
  | zero => cases h <;> rfl
  | succ depth ih =>
    cases h with
    | leaf types => rfl
    | node types subCount subIndexOffset sub =>
      simp only [iterate, operator, Operator.iterate, ih, operator_dataCount, List.length_map, base]

theorem registerDatas_absent (path : List Nat) (p : Place) {types : List D} (hd : d ∉ types)
    (index : Nat) :
    (registerDatas declare mask path p index types).filter (fun r => decide (r.data = d)) = [] := by
  induction types generalizing index with
  | nil => rfl
  | cons first types ih =>
    obtain ⟨hfirst,hrest⟩ := not_or.mp (mt List.mem_cons.mpr hd)
    rw [registerDatas, List.filter_cons_of_neg (by simpa using Ne.symm hfirst)]
    exact ih hrest (index + 1)

theorem registerDatas_once (path : List Nat) (p : Place) {types : List D}
    (hd : types.count d = 1) (index : Nat) :
    ((registerDatas declare mask path p index types).filter
        fun r => decide (r.data = d)).map (·.id) =
      [p.storageOffset + dataIndex d index types] := by
  induction types generalizing index with
  | nil => cases hd
  | cons first types ih =>
    rw [registerDatas, dataIndex]
    by_cases hfirst : first = d
    · rw [hfirst, List.count_cons_self] at hd
      have habsent : d ∉ types := List.count_eq_zero.mp (Nat.succ.inj hd)
      rw [if_pos hfirst, List.filter_cons_of_pos (by simpa using hfirst),
        registerDatas_absent path p habsent]
      rfl
    · rw [List.count_cons_of_ne hfirst] at hd
      rw [if_neg hfirst, List.filter_cons_of_neg (by simpa using hfirst)]
      exact ih hd (index + 1)

theorem registrations_absent (path : List Nat) (p : Place) {h : Hierarchy D}
    (hd : ¬h.Mentions d) :
    (h.registrations declare mask path p).filter (fun r => decide (r.data = d)) = [] := by
  induction h generalizing path p with
  | leaf types => exact registerDatas_absent path p hd 0
  | node types subCount subIndexOffset sub ih =>
    obtain ⟨hown,hsub⟩ := not_or.mp hd
    rw [registrations, List.filter_append, registerDatas_absent path p hown, List.filter_flatMap]
    simp only [ih _ _ hsub, List.nil_append]
    exact List.flatMap_eq_nil_iff.mpr fun _ _ => rfl

theorem iterate_eq_registered (path : List Nat) (p : Place) {depth : Nat} {h : Hierarchy D}
    (hd : h.ListsOnce d depth) :
    h.iterate d depth p.storageOffset =
      ((h.registrations declare mask path p).filter fun r => decide (r.data = d)).map (·.id) := by
  induction depth generalizing h path p with
  | zero =>
    cases h with
    | leaf types => exact (registerDatas_once path p hd 0).symm
    | node types subCount subIndexOffset sub =>
      obtain ⟨hown,hsub⟩ := hd
      have hnone : (List.range subCount).flatMap (fun j =>
          (sub.registrations declare mask (path ++ [j])
            (p.child types.length subCount sub.dataCount subIndexOffset j)).filter
              fun r => decide (r.data = d)) = [] :=
        List.flatMap_eq_nil_iff.mpr fun j _ => registrations_absent _ _ hsub
      rw [registrations, List.filter_append, List.filter_flatMap, hnone, List.append_nil]
      exact (registerDatas_once path p hown 0).symm
  | succ depth ih =>
    cases h with
    | leaf types => exact hd.elim
    | node types subCount subIndexOffset sub =>
      obtain ⟨hown,hsub⟩ := hd
      rw [iterate, registrations, List.filter_append, registerDatas_absent path p hown,
        List.nil_append, List.filter_flatMap, List.map_flatMap]
      exact List.flatMap_congr fun j _ =>
        ih (path ++ [j]) (p.child types.length subCount sub.dataCount subIndexOffset j) hsub

end Access

section Subtree

variable {declare : D → Data} {mask : BitVec 32}

theorem registerDatas_path {path : List Nat} {p : Place} {index : Nat} {types : List D} :
    ∀ r ∈ registerDatas declare mask path p index types, r.path = path := by
  induction types generalizing index with
  | nil => exact nofun
  | cons d types ih => exact List.forall_mem_cons.mpr ⟨rfl,ih⟩

theorem registrations_path {path : List Nat} {p : Place} {h : Hierarchy D} :
    ∀ r ∈ h.registrations declare mask path p, path <+: r.path := by
  induction h generalizing path p with
  | leaf types => exact fun r hr => (registerDatas_path r hr).symm ▸ List.prefix_rfl
  | node types subCount subIndexOffset sub ih =>
    intro r hr
    rcases List.mem_append.mp hr with hown | hsub
    · exact (registerDatas_path r hown).symm ▸ List.prefix_rfl
    · obtain ⟨j,_,hr⟩ := List.mem_flatMap.mp hsub
      exact (List.prefix_append path [j]).trans (ih r hr)

theorem flatMap_single {B : Type} {f : Nat → List B} {n j : Nat} (hj : j < n)
    (h : ∀ k < n, k ≠ j → f k = []) : (List.range n).flatMap f = f j := by
  induction n with
  | zero => cases hj
  | succ n ih =>
    rw [List.range_succ, List.flatMap_append, List.flatMap_singleton]
    rcases Nat.lt_succ_iff_lt_or_eq.mp hj with hlt | rfl
    · rw [ih hlt fun k hk => h k (Nat.lt_succ_of_lt hk), h n (Nat.lt_succ_self n) hlt.ne',
        List.append_nil]
    · have hbefore : (List.range j).flatMap f = [] :=
        List.flatMap_eq_nil_iff.mpr fun k hk =>
          h k (Nat.lt_succ_of_lt (List.mem_range.mp hk)) (List.mem_range.mp hk).ne
      rw [hbefore, List.nil_append]

theorem registrations_nodeAt {path path' : List Nat} {p q : Place} {h node : Hierarchy D}
    (hnode : h.nodeAt path' p = some (q,node)) :
    (h.registrations declare mask path p).filter (fun r => decide (path ++ path' <+: r.path)) =
      node.registrations declare mask (path ++ path') q := by
  induction path' generalizing path p h with
  | nil =>
    obtain ⟨rfl,rfl⟩ : p = q ∧ h = node := by
      cases h <;> exact Prod.mk.inj (Option.some.inj hnode)
    rw [List.append_nil]
    exact List.filter_eq_self.mpr fun r hr => decide_eq_true (registrations_path r hr)
  | cons j path' ih =>
    cases h with
    | leaf types => cases hnode
    | node types subCount subIndexOffset sub =>
      rw [nodeAt] at hnode
      split at hnode
      case isFalse => cases hnode
      case isTrue hj =>
        have hassoc : path ++ j :: path' = (path ++ [j]) ++ path' := by simp
        have hown : (registerDatas declare mask path p 0 types).filter
            (fun r => decide (path ++ j :: path' <+: r.path)) = [] := by
          refine List.filter_eq_nil_iff.mpr fun r hr hle => ?_
          have hlength := (of_decide_eq_true hle).length_le
          rw [registerDatas_path r hr, List.length_append, List.length_cons] at hlength
          omega
        have hothers : ∀ k < subCount, k ≠ j →
            (sub.registrations declare mask (path ++ [k])
              (p.child types.length subCount sub.dataCount subIndexOffset k)).filter
                (fun r => decide (path ++ j :: path' <+: r.path)) = [] := by
          intro k _ hne
          refine List.filter_eq_nil_iff.mpr fun r hr hle => hne ?_
          obtain ⟨l,hl⟩ := registrations_path r hr
          obtain ⟨m,hm⟩ := of_decide_eq_true hle
          rw [← hl, List.append_assoc, List.append_assoc] at hm
          exact (List.cons.inj (List.append_cancel_left hm)).1.symm
        rw [registrations, List.filter_append, hown, List.nil_append, List.filter_flatMap,
          flatMap_single hj hothers, hassoc]
        exact ih hnode

theorem registrations_root (path : List Nat) {q : Place} {h node : Hierarchy D}
    (hnode : h.nodeAt path .root = some (q,node)) :
    (h.registrations declare mask [] .root).filter (fun r => decide (path <+: r.path)) =
      node.registrations declare mask path q := by
  have hbelow : (h.registrations declare mask [] .root).filter
      (fun r => decide ([] ++ path <+: r.path)) = node.registrations declare mask ([] ++ path) q :=
    registrations_nodeAt hnode
  rwa [List.nil_append] at hbelow

theorem registerDatas_mem {path : List Nat} {p : Place} {index : Nat} {types : List D} :
    ∀ r ∈ registerDatas declare mask path p index types, r.data ∈ types ∧
      r.info = Operator.initData mask p.i p.shape p.indexOffset (declare r.data) := by
  induction types generalizing index with
  | nil => exact nofun
  | cons d types ih =>
    refine List.forall_mem_cons.mpr ⟨⟨List.mem_cons_self,rfl⟩,fun r hr => ?_⟩
    obtain ⟨hmem,hinfo⟩ := ih r hr
    exact ⟨List.mem_cons_of_mem d hmem,hinfo⟩

theorem nodeAt_nil (p : Place) (h : Hierarchy D) : h.nodeAt [] p = some (p,h) := by
  cases h <;> rfl

theorem mem_mentions {path : List Nat} {p : Place} {h : Hierarchy D} :
    ∀ r ∈ h.registrations declare mask path p, h.Mentions r.data := by
  induction h generalizing path p with
  | leaf types => exact fun r hr => (registerDatas_mem r hr).1
  | node types subCount subIndexOffset sub ih =>
    intro r hr
    rcases List.mem_append.mp hr with hown | hsub
    · exact .inl (registerDatas_mem r hown).1
    · obtain ⟨j,_,hr⟩ := List.mem_flatMap.mp hsub
      exact .inr (ih r hr)

theorem registration_node [DecidableEq D] {path : List Nat} {p : Place} {depth : Nat}
    {h : Hierarchy D} {d : D} (hd : h.ListsOnce d depth) :
    ∀ r ∈ h.registrations declare mask path p, r.data = d →
      ∃ below q node, below.length = depth ∧ h.nodeAt below p = some (q,node) ∧ d ∈ node.types ∧
        r.info = Operator.initData mask q.i q.shape q.indexOffset (declare d) := by
  induction depth generalizing h path p with
  | zero =>
    intro r hr hdata
    refine ⟨[],p,h,rfl,nodeAt_nil p h,?_⟩
    cases h with
    | leaf types =>
      obtain ⟨hmem,hinfo⟩ := registerDatas_mem r hr
      exact ⟨hdata ▸ hmem,hdata ▸ hinfo⟩
    | node types subCount subIndexOffset sub =>
      rcases List.mem_append.mp hr with hown | hsub
      · obtain ⟨hmem,hinfo⟩ := registerDatas_mem r hown
        exact ⟨hdata ▸ hmem,hdata ▸ hinfo⟩
      · obtain ⟨j,_,hr⟩ := List.mem_flatMap.mp hsub
        exact absurd (hdata ▸ mem_mentions r hr) hd.2
  | succ depth ih =>
    intro r hr hdata
    cases h with
    | leaf types => exact hd.elim
    | node types subCount subIndexOffset sub =>
      rcases List.mem_append.mp hr with hown | hsub
      · exact absurd (hdata ▸ (registerDatas_mem r hown).1) hd.1
      · obtain ⟨j,hj,hr⟩ := List.mem_flatMap.mp hsub
        obtain ⟨below,q,node,hlength,hnode,hmem,hinfo⟩ := ih hd.2 r hr hdata
        refine ⟨j :: below,q,node,congrArg (· + 1) hlength,?_,hmem,hinfo⟩
        rw [nodeAt, if_pos (List.mem_range.mp hj)]
        exact hnode

end Subtree

theorem registrations_nodup (declare : D → Data) (mask : BitVec 32) (h : Hierarchy D) :
    ((h.registrations declare mask [] .root).map (·.id)).Nodup := by
  rw [registrations_ids]
  exact List.nodup_range'

variable {Fn Ctx : Type}

theorem registration_unit {declare : D → Data} {mask : BitVec 32} {h : Hierarchy D} (thread : Nat)
    (memory : Fin (h.operator declare).dataCount → StorageUnit Fn Ctx)
    (pdoMemory : JointTable (BitVec 32)) {r : Registration D}
    (hr : r ∈ h.registrations declare mask [] .root) :
    ∃ unit : Fin (h.operator declare).dataCount, unit.val = r.id ∧
      (((h.operator declare).construct mask thread memory pdoMemory).handler.storage unit).info =
        r.info := by
  have hcall : (r.id,r.info) ∈ ((h.operator declare).calls mask).map fun c => (c.1.val,c.2) := by
    have hinfos : _ = (h.operator declare).initStorageInfo mask 0 0 0 0 :=
      registrations_infos declare mask [] .root h
    rw [Operator.calls_map, ← hinfos]
    exact List.mem_map.mpr ⟨r,hr,rfl⟩
  obtain ⟨⟨unit,info⟩,hc,he⟩ := List.mem_map.mp hcall
  obtain ⟨hid,rfl⟩ := Prod.mk.inj he
  exact ⟨unit,hid,Operator.construct_info hc⟩

theorem storage_layout [DecidableEq D] (declare : D → Data) (mask : BitVec 32) (thread : Nat)
    (h : Hierarchy D) (memory : Fin (h.operator declare).dataCount → StorageUnit Fn Ctx)
    (pdoMemory : JointTable (BitVec 32)) :
    let registered := h.registrations declare mask [] .root
    (registered.map (·.id) = List.range h.dataCount ∧
      registered.map (fun r => (r.id,r.info)) =
        (h.operator declare).initStorageInfo mask 0 0 0 0) ∧
    ∀ path q node, h.nodeAt path .root = some (q,node) → ∀ d depth, node.ListsOnce d depth →
      node.iterate d depth q.storageOffset =
          ((registered.filter fun r => decide (path <+: r.path)).filter
            fun r => decide (r.data = d)).map (·.id) ∧
      (node.iterate d depth q.storageOffset).Nodup ∧
      ∀ id ∈ node.iterate d depth q.storageOffset, id < h.dataCount ∧
        ∃ below q' node', below.length = depth ∧ node.nodeAt below q = some (q',node') ∧
          d ∈ node'.types ∧
          ∃ unit : Fin (h.operator declare).dataCount, unit.val = id ∧
            (((h.operator declare).construct mask thread memory pdoMemory).handler.storage
              unit).info = Operator.initData mask q'.i q'.shape q'.indexOffset (declare d) := by
  have hids : (h.registrations declare mask [] .root).map (·.id) = List.range h.dataCount := by
    rw [registrations_ids, List.range_eq_range']
    rfl
  refine ⟨⟨hids,registrations_infos ..⟩,fun path q node hnode d depth hd => ?_⟩
  have hiterate : node.iterate d depth q.storageOffset =
      (((h.registrations declare mask [] .root).filter fun r => decide (path <+: r.path)).filter
        fun r => decide (r.data = d)).map (·.id) := by
    rw [registrations_root path hnode]
    exact iterate_eq_registered path q hd
  refine ⟨hiterate,?_,fun id hid => ?_⟩
  · rw [hiterate]
    exact (registrations_nodup declare mask h).sublist
      ((List.filter_sublist.trans List.filter_sublist).map _)
  · rw [hiterate] at hid
    obtain ⟨r,hr,rfl⟩ := List.mem_map.mp hid
    obtain ⟨hsubtree,hdata⟩ := List.mem_filter.mp hr
    have hr' := (List.mem_filter.mp hsubtree).1
    have hlt : r.id ∈ List.range h.dataCount := hids ▸ List.mem_map.mpr ⟨r,hr',rfl⟩
    rw [registrations_root path hnode] at hsubtree
    obtain ⟨below,q',node',hlength,hbelow,hmem,hinfo⟩ :=
      registration_node hd r hsubtree (of_decide_eq_true hdata)
    obtain ⟨unit,hunit,hregistered⟩ := registration_unit thread memory pdoMemory hr'
    exact ⟨List.mem_range.mp hlt,below,q',node',hlength,hbelow,hmem,unit,hunit,
      hregistered.trans hinfo⟩

theorem storage_layout_finger :
    (Finger.hierarchy.iterate (.joint .actualPosition) 1 124).Nodup ∧
      ∀ id ∈ Finger.hierarchy.iterate (.joint .actualPosition) 1 124, id < 292 := by
  have hlayout := (storage_layout HandData.declare 0 0 Hand.hierarchy
    (fun _ => (⟨.make 1 0 0 0,⟨.none,.success⟩,0,0,0,none,()⟩ : StorageUnit Unit Unit))
    (fun _ _ => 0)).2 [2] ⟨2,5,0x3000,124⟩ Finger.hierarchy rfl (.joint .actualPosition) 1
    (Finger.listsOnce_joint .actualPosition)
  exact ⟨hlayout.2.1,fun id hid => (hlayout.2.2 id hid).1⟩

end Hierarchy

end WujiHand

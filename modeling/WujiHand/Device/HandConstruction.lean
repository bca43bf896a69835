import WujiHand.Device.BatchCompletion
import WujiHand.Device.EnabledCells

namespace WujiHand

structure FirmwareVersionData where
  major : BitVec 8
  minor : BitVec 8
  patch : BitVec 8
  pre : BitVec 8
deriving DecidableEq, Repr

namespace FirmwareVersionData

def ofVersion (version : BitVec 32) : FirmwareVersionData where
  major := version.extractLsb' 0 8
  minor := version.extractLsb' 8 8
  patch := version.extractLsb' 16 8
  pre := version.extractLsb' 24 8

-- The platform decides whether `char` is signed.
def charLt (charSigned : Bool) (a b : BitVec 8) : Bool :=
  if charSigned then a.slt b else a.ult b

def lt (charSigned : Bool) (a b : FirmwareVersionData) : Bool :=
  if a.major ≠ b.major then a.major.ult b.major
  else if a.minor ≠ b.minor then a.minor.ult b.minor
  else if a.patch ≠ b.patch then a.patch.ult b.patch
  else charLt charSigned a.pre b.pre

def toText (v : FirmwareVersionData) : String :=
  let numbers := Nat.repr v.major.toNat ++ "." ++ Nat.repr v.minor.toNat ++ "." ++
    Nat.repr v.patch.toNat
  if v.pre = 0 then numbers else numbers ++ "-" ++ String.singleton (Char.ofNat v.pre.toNat)

-- A tag after the number never makes 3.0.0 outdated, unless `char` is signed and the tag negative.
theorem lt_three (charSigned : Bool) (v : FirmwareVersionData) :
    v.lt charSigned ⟨3,0,0,0⟩ = true ↔
      v.major.toNat < 3 ∨
        v.major = 3 ∧ v.minor = 0 ∧ v.patch = 0 ∧ charSigned = true ∧ v.pre.msb = true := by
  obtain ⟨major,minor,patch,pre⟩ := v
  have hnone (a : BitVec 8) : ¬a.ult 0 = true := by simp [BitVec.ult]
  have hpre : charLt charSigned pre 0 = (charSigned && pre.msb) := by
    cases charSigned with
    | false => exact Bool.eq_false_iff.mpr (hnone pre)
    | true => exact BitVec.slt_zero_eq_msb
  simp only [lt]
  split_ifs with hmajor hminor hpatch
  · rw [BitVec.ult_iff_lt, BitVec.lt_def]
    exact ⟨.inl,fun h => h.resolve_right fun hthree => hmajor hthree.1⟩
  · refine iff_of_false (hnone minor) ?_
    rw [not_not.mp hmajor]
    exact fun h => hminor (h.resolve_left (by decide)).2.1
  · refine iff_of_false (hnone patch) ?_
    rw [not_not.mp hmajor]
    exact fun h => hpatch (h.resolve_left (by decide)).2.2.1
  · rw [hpre, not_not.mp hmajor, not_not.mp hminor, not_not.mp hpatch]
    simp

end FirmwareVersionData

namespace Hand

-- 500 ms, in the nanoseconds that the steady clock counts.
def defaultTimeout : Int := 500000000

def outdated (version : FirmwareVersionData) : String :=
  "The firmware version (" ++ version.toText ++
    ") is outdated. Please contact after-sales service for an upgrade."

def checkVersion (charSigned : Bool) (version : FirmwareVersionData) : Except String Unit :=
  if version.lt charSigned ⟨3,0,0,0⟩ then .error (outdated version) else .ok ()

section Constructor

variable (codec : PositionCodec) (charSigned : Bool)
  (dataFill fill : Fin operator.dataCount → Buffer8)

def writeAll (unit : JointId → Fin operator.dataCount) (data : Buffer8 → Buffer8) :
    List (Fin operator.dataCount × LatchCall) :=
  joints.map fun t => (unit t,.write (data (dataFill (unit t))) (fill (unit t)) defaultTimeout)

def versionUnit : Fin operator.dataCount := handUnit 1
def controlModeUnit (t : JointId) : Fin operator.dataCount := jointUnit t.1 t.2 JointData.controlMode
def currentLimitUnit (t : JointId) : Fin operator.dataCount := jointUnit t.1 t.2 JointData.currentLimit

def readFirmwareVersion : LatchBatch operator.dataCount where
  calls := [(versionUnit,.read defaultTimeout)]
  check := fun h => checkVersion charSigned
    (.ofVersion (Buffer8.as 32 (h.get codec versionUnit (fill versionUnit))))

def writeEnabled : LatchBatch operator.dataCount where
  calls := writeAll dataFill fill enabledUnit fun rest => StorageUnit.enabledData rest false

def writeConfiguration : LatchBatch operator.dataCount where
  calls := (writeAll dataFill fill controlModeUnit fun rest => Buffer8.of rest 6#16) ++
    writeAll dataFill fill currentLimitUnit fun rest => Buffer8.of rest 1000#16

def construction : List (LatchBatch operator.dataCount) :=
  [readFirmwareVersion codec charSigned fill,writeEnabled dataFill fill,
    writeConfiguration dataFill fill]

end Constructor

def constructed : BatchPc operator.dataCount → Option (Except String Unit)
  | .issuing _ _ _ => none
  | .waiting _ _ => none
  | .returned => some (.ok ())
  | .threw (.timeoutError _) =>
    some (.error "Hand initialization timed out: joint configuration incomplete")
  | .threw (.runtimeError what) => some (.error what)

theorem construction_sites : ∀ s ∈ operator.sites 0 0 0 0,
    (s.id = 1 → s.info = .make 4 0x5201 1 0) ∧
      (12 ≤ s.id → (s.id - 12) % 14 = 2 ∨ (s.id - 12) % 14 = 4 →
        s.info.size = .two ∧ s.info.policy = 0) ∧
      (12 ≤ s.id → (s.id - 12) % 14 = 9 →
        s.info.size = .two ∧ s.info.policy = StorageInfo.controlWord) := by
  decide +kernel

theorem init_unmasked (s : Operator.Site) : (s.init 0).2 = s.info := by
  have hnone : ¬s.Excluded 0 := by
    rintro ⟨b,-,hb⟩
    simp at hb
  exact if_neg hnone

section Units

variable {Fn Ctx : Type} (thread : Nat) (memory : Fin operator.dataCount → StorageUnit Fn Ctx)
  (pdoMemory : JointTable (BitVec 32))

def info (id : Fin operator.dataCount) : StorageInfo :=
  ((operator.construct 0 thread memory pdoMemory).handler.storage id).info

theorem versionUnit_info : info thread memory pdoMemory versionUnit = .make 4 0x5201 1 0 := by
  obtain ⟨s,hs,hid,hinfo⟩ := Operator.construct_site 0 thread memory pdoMemory versionUnit
  rw [info, hinfo, init_unmasked]
  exact (construction_sites s hs).1 hid

theorem jointUnit_site (t : JointId) (k : Fin 14) : ∃ s ∈ operator.sites 0 0 0 0, 12 ≤ s.id ∧
    (s.id - 12) % 14 = k.val ∧ info thread memory pdoMemory (jointUnit t.1 t.2 k) = s.info := by
  obtain ⟨s,hs,hid,hinfo⟩ :=
    Operator.construct_site 0 thread memory pdoMemory (jointUnit t.1 t.2 k)
  have hid' : s.id = 12 + 56 * t.1.val + 14 * t.2.val + k.val := hid
  rw [init_unmasked] at hinfo
  exact ⟨s,hs,by omega,by omega,hinfo⟩

theorem configUnit_info (t : JointId) {k : Fin 14} (hk : k = JointData.controlMode ∨ k = JointData.currentLimit) :
    (info thread memory pdoMemory (jointUnit t.1 t.2 k)).size = .two ∧
      (info thread memory pdoMemory (jointUnit t.1 t.2 k)).policy = 0 := by
  obtain ⟨s,hs,hlt,hmod,hinfo⟩ := jointUnit_site thread memory pdoMemory t k
  rw [hinfo]
  refine (construction_sites s hs).2.1 hlt ?_
  rcases hk with rfl | rfl
  · exact .inl hmod
  · exact .inr hmod

theorem enabledUnit_word (t : JointId) :
    (info thread memory pdoMemory (enabledUnit t)).size = .two ∧
      (info thread memory pdoMemory (enabledUnit t)).policy = StorageInfo.controlWord := by
  obtain ⟨s,hs,hlt,hmod,hinfo⟩ := jointUnit_site thread memory pdoMemory t JointData.enabled
  rw [enabledUnit, hinfo]
  exact (construction_sites s hs).2.2 hlt hmod

end Units

def constructionUnits : List (Fin operator.dataCount) :=
  versionUnit :: (joints.map enabledUnit ++ (joints.map controlModeUnit ++
    joints.map currentLimitUnit))

theorem constructionUnits_nodup : constructionUnits.Nodup := by decide +kernel

theorem constructionUnits_apart : ∀ id ∈ constructionUnits, id ≠ rPdoUnit ∧ id ≠ tPdoUnit := by
  decide +kernel

section Run

variable {codec : PositionCodec} {charSigned : Bool} {dataFill fill : Fin operator.dataCount → Buffer8}
  {thread : Nat} {memory : Fin operator.dataCount → LatchUnit} {pdoMemory : JointTable (BitVec 32)}
  {dictionary : ObjectDictionary} {w : Window}

theorem writeAll_ids (unit : JointId → Fin operator.dataCount) (data : Buffer8 → Buffer8) :
    (writeAll dataFill fill unit data).map Prod.fst = joints.map unit := by
  rw [writeAll, List.map_map]
  rfl

theorem writeAll_length (unit : JointId → Fin operator.dataCount) (data : Buffer8 → Buffer8) :
    (writeAll dataFill fill unit data).length = 20 := by
  rw [writeAll, List.length_map]
  rfl

theorem construction_cost : BatchRun.cost (construction codec charSigned dataFill fill) = 79 := by
  simp [BatchRun.cost, construction, readFirmwareVersion, writeEnabled, writeConfiguration,
    writeAll_length]

theorem mem_writeAll (unit : JointId → Fin operator.dataCount) (data : Buffer8 → Buffer8)
    (t : JointId) :
    (unit t,.write (data (dataFill (unit t))) (fill (unit t)) defaultTimeout) ∈
      writeAll dataFill fill unit data :=
  List.mem_map.mpr ⟨t,mem_joints t,rfl⟩

theorem construction_ids :
    LatchBatch.ids (construction codec charSigned dataFill fill) = constructionUnits := by
  simp [LatchBatch.ids, construction, readFirmwareVersion, writeEnabled, writeConfiguration,
    writeAll_ids, constructionUnits]

theorem mem_construction (codec : PositionCodec) (charSigned : Bool)
    (dataFill fill : Fin operator.dataCount → Buffer8) (t : JointId) :
    (enabledUnit t,.write (StorageUnit.enabledData (dataFill (enabledUnit t)) false)
        (fill (enabledUnit t)) defaultTimeout) ∈
        (construction codec charSigned dataFill fill).flatMap LatchBatch.calls ∧
      (controlModeUnit t,.write (Buffer8.of (dataFill (controlModeUnit t)) 6#16)
        (fill (controlModeUnit t)) defaultTimeout) ∈
        (construction codec charSigned dataFill fill).flatMap LatchBatch.calls ∧
      (currentLimitUnit t,.write (Buffer8.of (dataFill (currentLimitUnit t)) 1000#16)
        (fill (currentLimitUnit t)) defaultTimeout) ∈
        (construction codec charSigned dataFill fill).flatMap LatchBatch.calls := by
  have henabled : writeEnabled dataFill fill ∈ construction codec charSigned dataFill fill :=
    List.mem_cons_of_mem _ List.mem_cons_self
  have hconfiguration :
      writeConfiguration dataFill fill ∈ construction codec charSigned dataFill fill :=
    List.mem_cons_of_mem _ (List.mem_cons_of_mem _ List.mem_cons_self)
  refine ⟨List.mem_flatMap.mpr ⟨_,henabled,?_⟩,List.mem_flatMap.mpr ⟨_,hconfiguration,?_⟩,
    List.mem_flatMap.mpr ⟨_,hconfiguration,?_⟩⟩
  · exact mem_writeAll enabledUnit (fun rest => StorageUnit.enabledData rest false) t
  · exact List.mem_append_left _ (mem_writeAll controlModeUnit (fun rest => Buffer8.of rest 6#16) t)
  · exact List.mem_append_right _
      (mem_writeAll currentLimitUnit (fun rest => Buffer8.of rest 1000#16) t)

theorem construction_timeouts :
    ∀ c ∈ (construction codec charSigned dataFill fill).flatMap LatchBatch.calls,
      c.2.timeout = defaultTimeout := by
  intro c hc
  simp only [construction, List.flatMap_cons, List.flatMap_nil, List.append_nil, List.mem_append,
    readFirmwareVersion, writeEnabled, writeConfiguration, writeAll, List.mem_singleton,
    List.mem_map] at hc
  rcases hc with rfl | ⟨t,-,rfl⟩ | ⟨t,-,rfl⟩ | ⟨t,-,rfl⟩ <;> rfl

theorem construct_unmasked (id : Fin operator.dataCount) :
    ¬(info thread memory pdoMemory id).Masked := by
  rcases unit_cases id with ⟨k,rfl⟩ | ⟨f,j,k,rfl⟩
  · exact (handUnit_info 0 thread memory pdoMemory k).1
  · intro hmasked
    have hbit := (jointUnit_info 0 thread memory pdoMemory f j k).1.mp hmasked
    simp at hbit

theorem plant_unit (id : Fin operator.dataCount) :
    (plant 0 thread memory pdoMemory dictionary).unit id =
      (operator.construct 0 thread memory pdoMemory).handler.storage id := by
  rw [Plant.unit, plant_handler]

theorem plant_idle (id : Fin operator.dataCount) :
    ¬((plant 0 thread memory pdoMemory dictionary).unit id).Busy := by
  have hidle := (operator.construct 0 thread memory pdoMemory).idle id
  rw [plant_unit, StorageUnit.Busy, hidle]
  exact fun hbusy => hbusy rfl

theorem plant_thread : (plant 0 thread memory pdoMemory dictionary).handler.operationThreadCheck
    thread = true := by
  have hid := Handler.initAll_operationThreadId (Handler.construct thread memory pdoMemory)
    (operator.calls 0)
  rw [plant_handler, Handler.operationThreadCheck, Operator.construct, hid]
  exact beq_self_eq_true thread

theorem construction_startable (hspan : w.span ≤ defaultTimeout)
    (hsizes : ∀ id ∈ constructionUnits, ∀ info, (id,info) ∈ operator.calls 0 →
      dictionary.size info.index info.subIndex = info.size) :
    BatchRun.Startable thread w (construction codec charSigned dataFill fill)
      (plant 0 thread memory pdoMemory dictionary) where
  distinct := construction_ids ▸ constructionUnits_nodup
  served := by
    rw [construction_ids]
    intro id hid
    obtain ⟨hr,ht⟩ := constructionUnits_apart id hid
    exact served hr ht (hsizes id hid)
  unmasked := fun id _ => by
    rw [plant_unit]
    exact construct_unmasked id
  lasting := fun c hc => hspan.trans (construction_timeouts c hc).ge
  idle := plant_idle
  thread := plant_thread

def deviceVersion (dictionary : ObjectDictionary) : FirmwareVersionData :=
  .ofVersion (Buffer8.as 32 (dictionary.value 0x5201 1))

theorem plant_version (hinfo : info thread memory pdoMemory versionUnit = .make 4 0x5201 1 0) :
    (plant 0 thread memory pdoMemory dictionary).object versionUnit = dictionary.value 0x5201 1 := by
  rw [info] at hinfo
  rw [Plant.object, plant_unit, hinfo]
  rfl

theorem version_check {h : Handler operator.dataCount Callback Context}
    (hsettled : BatchRun.Settled codec (plant 0 thread memory pdoMemory dictionary)
      (versionUnit,.read defaultTimeout) (h.storage versionUnit)) :
    (readFirmwareVersion codec charSigned fill).check h =
      checkVersion charSigned (deviceVersion dictionary) := by
  have hconstructed := versionUnit_info thread memory pdoMemory
  obtain ⟨hinfo,value,hvalue,hcontent⟩ := hsettled
  rw [plant_unit, ← info, hconstructed] at hinfo
  rw [hinfo] at hvalue
  have hread : h.get codec versionUnit (fill versionUnit) = (h.storage versionUnit).value := by
    rw [Handler.get, StorageUnit.loadData, hinfo]
    rfl
  have hobject : value = dictionary.value 0x5201 1 := hcontent.trans (plant_version hconstructed)
  change checkVersion charSigned (.ofVersion (Buffer8.as 32
    (h.get codec versionUnit (fill versionUnit)))) = _
  rw [deviceVersion, hread, ← hobject]
  exact congrArg (fun version => checkVersion charSigned (.ofVersion version)) hvalue.symm

def expected (s : Plant operator.dataCount Callback Context)
    (b : LatchBatch operator.dataCount) : Except String Unit :=
  b.check (s.handler.setUnit versionUnit
    { s.unit versionUnit with value := s.object versionUnit })

theorem expected_settled (s : Plant operator.dataCount Callback Context) (timeout : Int) :
    BatchRun.Settled codec s (versionUnit,.read timeout)
      ((s.handler.setUnit versionUnit
        { s.unit versionUnit with value := s.object versionUnit }).storage versionUnit) := by
  rw [Handler.setUnit_storage_self]
  exact ⟨rfl,_,rfl,rfl⟩

theorem construction_checks : BatchRun.Inv.Checks codec
    (plant 0 thread memory pdoMemory dictionary)
    (expected (plant 0 thread memory pdoMemory dictionary))
    (construction codec charSigned dataFill fill) := by
  intro b hb h hsettled
  simp only [construction, List.mem_cons, List.not_mem_nil, or_false] at hb
  rcases hb with rfl | rfl | rfl
  · have hread := hsettled _ List.mem_cons_self
    exact (version_check hread).trans (version_check (expected_settled _ _)).symm
  · rfl
  · rfl

theorem as_of_size {size size' : Size} (h : size = size') {a b : Buffer8}
    (hab : Buffer8.as size.bits a = Buffer8.as size.bits b) :
    Buffer8.as size'.bits a = Buffer8.as size'.bits b := by
  subst h
  exact hab

theorem encodeData_plain {info : StorageInfo} (hpolicy : info.policy = 0) (data fill : Buffer8) :
    encodeData codec info data fill = data := by
  simp [encodeData, StorageInfo.has, hpolicy]

section Word

variable {s : Plant operator.dataCount Callback Context} {id : Fin operator.dataCount}
  {rest data : Buffer8}

theorem completed_word {c : LatchCall} (hsize : (info thread memory pdoMemory id).size = .two)
    (h : BatchRun.Completed codec (plant 0 thread memory pdoMemory dictionary) s (id,c)) :
    Buffer8.as 16 (s.object id) = Buffer8.as 16 (s.unit id).value := by
  have hagrees := h.agrees
  rw [plant_unit, ← info] at hagrees
  exact as_of_size hsize hagrees

theorem completed_info {c : LatchCall}
    (h : BatchRun.Completed codec (plant 0 thread memory pdoMemory dictionary) s (id,c)) :
    (s.unit id).info = info thread memory pdoMemory id := by
  rw [h.info, plant_unit, ← info]

theorem written_word {value : BitVec 16} (hsize : (info thread memory pdoMemory id).size = .two)
    (hpolicy : (info thread memory pdoMemory id).policy = 0)
    (h : BatchRun.Completed codec (plant 0 thread memory pdoMemory dictionary) s
      (id,.write (Buffer8.of rest value) data defaultTimeout)) :
    Buffer8.as 16 (s.object id) = value := by
  have hvalue : (s.unit id).value = encodeData codec (s.unit id).info (Buffer8.of rest value) data :=
    h.content
  rw [completed_info h, encodeData_plain hpolicy] at hvalue
  rw [completed_word hsize h, hvalue]
  exact Buffer8.as_of (by decide) ..

theorem written_disabled {t : JointId}
    (h : BatchRun.Completed codec (plant 0 thread memory pdoMemory dictionary) s
      (enabledUnit t,.write (StorageUnit.enabledData rest false) data defaultTimeout)) :
    Buffer8.as 16 (s.object (enabledUnit t)) = 5 ∧
      ∀ fill, (s.unit (enabledUnit t)).getEnabled codec fill = false := by
  obtain ⟨hsize,hpolicy⟩ := enabledUnit_word thread memory pdoMemory t
  have hvalue : (s.unit (enabledUnit t)).value = encodeData codec (s.unit (enabledUnit t)).info
      (StorageUnit.enabledData rest false) data := h.content
  have hcontrol : (s.unit (enabledUnit t)).info.has StorageInfo.controlWord = true := by
    rw [completed_info h, StorageInfo.has, hpolicy]
    decide
  refine ⟨?_,fun fill => ?_⟩
  · have hdata : Buffer8.as 8 (StorageUnit.enabledData rest false) = 0 :=
      Buffer8.as_of (by decide) ..
    rw [completed_word hsize h, hvalue, encodeData, if_pos hcontrol, hdata]
    exact Buffer8.as_of (by decide) ..
  · refine Eq.trans ?_ (StorageUnit.getEnabled_storeData codec hcontrol false rest data fill)
    have hinfo : (s.unit (enabledUnit t)).info = ((s.unit (enabledUnit t)).storeData codec
        (StorageUnit.enabledData rest false) data).info := rfl
    exact StorageUnit.getEnabled_congr hinfo hvalue fill

end Word

structure Configured (codec : PositionCodec) (s : Plant operator.dataCount Callback Context)
    (t : JointId) : Prop where
  enabled : Buffer8.as 16 (s.object (enabledUnit t)) = 5
  flag : ∀ fill, (s.unit (enabledUnit t)).getEnabled codec fill = false
  controlMode : Buffer8.as 16 (s.object (controlModeUnit t)) = 6
  currentLimit : Buffer8.as 16 (s.object (currentLimitUnit t)) = 1000

theorem construction_verdict (dataFill : Fin operator.dataCount → Buffer8)
    {s : Plant operator.dataCount Callback Context}
    (hread : expected s (readFirmwareVersion codec charSigned fill) =
      checkVersion charSigned (deviceVersion dictionary)) :
    if (deviceVersion dictionary).lt charSigned ⟨3,0,0,0⟩ then
      LatchBatch.verdict (expected s) (construction codec charSigned dataFill fill) =
          .threw (.runtimeError (outdated (deviceVersion dictionary))) ∧
        LatchBatch.reached (expected s) (construction codec charSigned dataFill fill) =
          [readFirmwareVersion codec charSigned fill]
    else
      LatchBatch.verdict (expected s) (construction codec charSigned dataFill fill) = .returned ∧
        LatchBatch.reached (expected s) (construction codec charSigned dataFill fill) =
          construction codec charSigned dataFill fill := by
  have henabled : expected s (writeEnabled dataFill fill) = .ok () := rfl
  have hconfiguration : expected s (writeConfiguration dataFill fill) = .ok () := rfl
  rw [checkVersion] at hread
  simp only [construction, LatchBatch.verdict, LatchBatch.reached, hread]
  split
  · exact ⟨rfl,rfl⟩
  · simp only [henabled, hconfiguration, and_self]

theorem construction_completes (codec : PositionCodec) (charSigned : Bool)
    (dataFill fill : Fin operator.dataCount → Buffer8) (thread : Nat)
    (memory : Fin operator.dataCount → LatchUnit) (pdoMemory : JointTable (BitVec 32))
    (dictionary : ObjectDictionary) (w : Window) (hspan : w.span ≤ defaultTimeout)
    (hsizes : ∀ id ∈ constructionUnits, ∀ info, (id,info) ∈ operator.calls 0 →
      dictionary.size info.index info.subIndex = info.size)
    (turns : List (List BatchEvent))
    (hturns : ∀ es ∈ turns, BatchRun.Turn es ∧ ∀ e ∈ es, e.Prompt w
      (plant 0 thread memory pdoMemory dictionary) constructionUnits)
    (hlength : 80 ≤ turns.length) :
    let s := plant 0 thread memory pdoMemory dictionary
    let version := FirmwareVersionData.ofVersion (Buffer8.as 32 (dictionary.value 0x5201 1))
    let s' := Runs.run (BatchRun.step codec thread)
      (BatchRun.start s (construction codec charSigned dataFill fill)) turns.flatten
    (∀ id, ¬(s'.plant.unit id).Busy) ∧
      if version.lt charSigned ⟨3,0,0,0⟩ then
        constructed s'.pc = some (.error (outdated version)) ∧
          ∀ id ∈ constructionUnits, s'.plant.object id = s.object id
      else
        constructed s'.pc = some (.ok ()) ∧ ∀ t, Configured codec s'.plant t := by
  intro s version s'
  have hended : BatchRun.Ended codec s (expected s) (construction codec charSigned dataFill fill) s' :=
    BatchRun.batches_end (construction_startable hspan hsizes) construction_checks
      (construction_ids ▸ hturns) (construction_cost.trans_lt hlength)
  have hread : expected s (readFirmwareVersion codec charSigned fill) =
      checkVersion charSigned (deviceVersion dictionary) :=
    version_check (expected_settled s defaultTimeout)
  have hverdict := construction_verdict dataFill hread
  refine ⟨hended.idle,?_⟩
  change if (deviceVersion dictionary).lt charSigned ⟨3,0,0,0⟩ then _ else _
  split at hverdict
  · rename_i hlt
    obtain ⟨hpc,hreached⟩ := hverdict
    rw [if_pos hlt, hended.pc, hpc]
    have hcompleted := hended.completed
    have huntouched := hended.untouched
    rw [hreached] at hcompleted huntouched
    refine ⟨rfl,fun id hid => ?_⟩
    by_cases hversion : id = versionUnit
    · subst hversion
      exact (hcompleted (versionUnit,.read defaultTimeout) List.mem_cons_self).content
    · exact (huntouched id fun hmem => hversion (List.mem_singleton.mp hmem)).2
        (construction_ids ▸ hid)
  · rename_i hlt
    obtain ⟨hpc,hreached⟩ := hverdict
    rw [if_neg hlt, hended.pc, hpc]
    refine ⟨rfl,fun t => ?_⟩
    have hcompleted := hended.completed
    rw [hreached] at hcompleted
    obtain ⟨henabled,hcontrol,hlimit⟩ := mem_construction codec charSigned dataFill fill t
    obtain ⟨hword,hflag⟩ := written_disabled (hcompleted _ henabled)
    obtain ⟨hsize,hpolicy⟩ := configUnit_info thread memory pdoMemory t (.inl rfl)
    obtain ⟨hsize',hpolicy'⟩ := configUnit_info thread memory pdoMemory t (.inr rfl)
    exact ⟨hword,hflag,written_word hsize hpolicy (hcompleted _ hcontrol),
      written_word hsize' hpolicy' (hcompleted _ hlimit)⟩

end Run

section Current

def handTransfers : RestedBuffer := ⟨_,TransmitBuffer.create_rested 64 fun _ => TransmitBuffer.unclearedMemory⟩

def promptTurn : List BatchEvent :=
  [.owner,.round { Plant.roundAt 0 with buffer := handTransfers }]

-- Firmware 3.1.0.
def currentDictionary : ObjectDictionary :=
  ⟨fun index _ => if index = 0x5201 then .four else .two,fun _ _ => 0x0103⟩

def firstMemory (_ : Fin operator.dataCount) : LatchUnit := .blank (.make 4 0 0 0) (.value 0)

theorem currentDictionary_sizes : ∀ id ∈ constructionUnits, ∀ info, (id,info) ∈ operator.calls 0 →
    currentDictionary.size info.index info.subIndex = info.size := by
  intro id hid info hc
  have hinfo : Hand.info 0 firstMemory (fun _ _ => 0) id = info := Operator.construct_info hc
  have hword (t : JointId) (k : Fin 14) (hk : id = jointUnit t.1 t.2 k)
      (hsize : (Hand.info 0 firstMemory (fun _ _ => 0) (jointUnit t.1 t.2 k)).size = .two) :
      currentDictionary.size info.index info.subIndex = info.size := by
    subst hk
    have hrange := (jointUnit_info 0 0 firstMemory (fun _ _ => 0) t.1 t.2 k).2
    rw [← Hand.info, hinfo] at hrange
    rw [hinfo] at hsize
    have hne : info.index ≠ 0x5201 := by
      intro heq
      rw [heq] at hrange
      unfold JointRange jointBase at hrange
      have hindex : (0x5201 : BitVec 16).toNat = 0x5201 := rfl
      omega
    rw [hsize]
    exact if_neg hne
  simp only [constructionUnits, List.mem_cons, List.mem_append, List.mem_map] at hid
  rcases hid with rfl | ⟨t,-,rfl⟩ | ⟨t,-,rfl⟩ | ⟨t,-,rfl⟩
  · rw [← hinfo, versionUnit_info]
    rfl
  · exact hword t 9 rfl (enabledUnit_word 0 firstMemory (fun _ _ => 0) t).1
  · exact hword t 2 rfl (configUnit_info 0 firstMemory (fun _ _ => 0) t (.inl rfl)).1
  · exact hword t 4 rfl (configUnit_info 0 firstMemory (fun _ _ => 0) t (.inr rfl)).1

theorem promptTurn_prompt (s : Plant operator.dataCount Callback Context) :
    BatchRun.Turn promptTurn ∧
      ∀ e ∈ promptTurn, e.Prompt ⟨0,defaultTimeout,by decide⟩ s constructionUnits := by
  refine ⟨⟨List.mem_cons_self,_,List.mem_cons_of_mem _ List.mem_cons_self⟩,fun e he => ?_⟩
  simp only [promptTurn, List.mem_cons, List.not_mem_nil, or_false] at he
  rcases he with rfl | rfl
  · trivial
  · have hunits : constructionUnits.length = 61 := rfl
    have hfree : handTransfers.buffer.freeTransfers.length = 64 := rfl
    refine ⟨⟨Int.le_refl 0,by decide⟩,?_⟩
    rw [hunits, hfree]
    decide

theorem construction_completes_current :
    let s := plant 0 0 firstMemory (fun _ _ => 0) currentDictionary
    let s' := Runs.run (BatchRun.step .raw 0)
      (BatchRun.start s (construction .raw true (fun _ => 0) (fun _ => 0)))
      (List.replicate 80 promptTurn).flatten
    constructed s'.pc = some (.ok ()) ∧ ∀ t, Configured .raw s'.plant t := by
  have hcurrent : (FirmwareVersionData.ofVersion (Buffer8.as 32
      (currentDictionary.value 0x5201 1))).lt true ⟨3,0,0,0⟩ = false := by decide
  have hcompletes := (construction_completes .raw true (fun _ => 0) (fun _ => 0) 0 firstMemory
    (fun _ _ => 0) currentDictionary ⟨0,defaultTimeout,by decide⟩ (Int.le_refl _)
    currentDictionary_sizes (List.replicate 80 promptTurn)
    (fun es hes => List.eq_of_mem_replicate hes ▸ promptTurn_prompt _)
    (List.length_replicate).ge).2
  rw [hcurrent] at hcompletes
  exact hcompletes

end Current

end Hand

end WujiHand

import WujiHand.Device.EnableRestore
import WujiHand.Device.Masking

namespace WujiHand

namespace StorageUnit

variable {Fn Ctx : Type} {codec : PositionCodec}

def getEnabled (codec : PositionCodec) (fill : Buffer8) (u : StorageUnit Fn Ctx) : Bool :=
  Buffer8.as 8 (u.loadData codec fill) ≠ 0

def enabledData (fill : Buffer8) (value : Bool) : Buffer8 :=
  Buffer8.of fill (if value then 1#8 else 0#8)

-- A unit that no read runs on, so that only writes put a value in it.
structure WriteCell (u : StorageUnit Fn Ctx) (value : Buffer8) : Prop where
  coherent : u.Coherent
  mode : u.operation.mode ≠ .read
  value_eq : u.value = value

theorem getEnabled_storeData (codec : PositionCodec) {u : StorageUnit Fn Ctx}
    (hinfo : u.info.has StorageInfo.controlWord = true) (value : Bool)
    (dataFill fill fill' : Buffer8) :
    (u.storeData codec (enabledData dataFill value) fill).getEnabled codec fill' = value := by
  have hdata : Buffer8.as 8 (enabledData dataFill value) = if value then 1#8 else 0#8 :=
    Buffer8.as_of (by decide) ..
  simp only [getEnabled, loadData, decodeData, storeData, encodeData, hinfo, if_true, hdata]
  rw [Buffer8.as_of (by decide), Buffer8.as_of (by decide)]
  cases value <;> decide

theorem getEnabled_congr {u u' : StorageUnit Fn Ctx} (hinfo : u'.info = u.info)
    (hvalue : u'.value = u.value) (fill : Buffer8) :
    u'.getEnabled codec fill = u.getEnabled codec fill := by
  rw [getEnabled, getEnabled, loadData, loadData, hinfo, hvalue]

namespace WriteCell

variable {u : StorageUnit Fn Ctx} {value : Buffer8}

theorem visited (h : u.WriteCell value) (now : Int) : (u.tickVisit now).unit.WriteCell value := by
  refine ⟨coherent_visit now h.coherent,?_,(visit_value now u).trans h.value_eq⟩
  rcases visit_mode now u with hmode | hmode
  · rw [hmode]
    exact h.mode
  · rw [hmode]
    exact nofun

theorem readSuccess (h : u.WriteCell value) (size : Size) (received : BitVec size.bits)
    (fill : Buffer8) : (u.readSuccess size received fill).WriteCell value where
  coherent := coherent_readSuccess size received fill h.coherent
  mode := by
    rw [readSuccess_mode]
    exact h.mode
  value_eq := (readSuccess_value size received fill h.coherent h.mode).trans h.value_eq

theorem writeSuccess (h : u.WriteCell value) : u.writeSuccess.WriteCell value where
  coherent := coherent_writeSuccess h.coherent
  mode := by
    rw [writeSuccess_mode]
    exact h.mode
  value_eq := u.writeSuccess_value.trans h.value_eq

end WriteCell

end StorageUnit

namespace Handler

variable {n : Nat} {Fn Ctx : Type} {id : Fin n} {value : Buffer8}

theorem setUnit_writeCell {h : Handler n Fn Ctx} {id' : Fin n} {u : StorageUnit Fn Ctx}
    (hcell : (h.storage id).WriteCell value) (hu : id = id' → u.WriteCell value) :
    ((h.setUnit id' u).storage id).WriteCell value := by
  by_cases heq : id = id'
  · subst heq
    rw [setUnit_storage_self]
    exact hu rfl
  · rwa [setUnit_storage_of_ne h u heq]

theorem step_writeCell (codec : PositionCodec) {h : Handler n Fn Ctx} {e : Event n Fn Ctx}
    (he : ∀ c, e = .call c → c.id ≠ id) (hcell : (h.storage id).WriteCell value) :
    ((h.step codec e).storage id).WriteCell value := by
  cases e with
  | call c =>
    simp only [step]
    split
    · exact hcell
    · rename_i h' hc
      obtain ⟨_,u,_,rfl⟩ := call_ok hc
      exact setUnit_writeCell hcell fun heq => absurd heq.symm (he c rfl)
  | visit id' now =>
    exact setUnit_writeCell hcell fun heq => heq ▸ hcell.visited now
  | received bytes fill =>
    refine received_preserves (P := fun h => (h.storage id).WriteCell value) ?_
      (fun h r hp => hp) hcell
    intro fill h r h' hp hr
    rcases applyResult_ok hr with rfl | ⟨size,_,_,received,id',_,_,rfl⟩ | ⟨_,_,id',_,_,rfl⟩
    · exact hp
    · exact setUnit_writeCell hp fun heq => heq ▸ hp.readSuccess size received fill
    · exact setUnit_writeCell hp fun heq => heq ▸ hp.writeSuccess
  | disableThreadSafeCheck => exact hcell

end Handler

namespace Hand

def enabledUnit (t : JointId) : Fin operator.dataCount := jointUnit t.1 t.2 JointData.enabled

theorem enabledUnit_inj {t t' : JointId} (h : enabledUnit t = enabledUnit t') : t = t' := by
  have hval : 12 + 56 * t.1.val + 14 * t.2.val + 9 = 12 + 56 * t'.1.val + 14 * t'.2.val + 9 :=
    congrArg Fin.val h
  exact Prod.ext (Fin.ext (by omega)) (Fin.ext (by omega))

theorem enabled_sites : ∀ s ∈ operator.sites 0 0 0 0, 12 ≤ s.id → (s.id - 12) % 14 = 9 →
    s.info.policy = StorageInfo.controlWord := by
  decide +kernel

section Flags

variable {Fn Ctx : Type} {codec : PositionCodec}

def enabledFlags (codec : PositionCodec) (fill : Buffer8) (h : Handler operator.dataCount Fn Ctx) :
    JointId → Bool :=
  fun t => (h.storage (enabledUnit t)).getEnabled codec fill

theorem enabledUnit_info (mask : BitVec 32) (thread : Nat)
    (memory : Fin operator.dataCount → StorageUnit Fn Ctx) (pdoMemory : JointTable (BitVec 32))
    (t : JointId) :
    ((operator.construct mask thread memory pdoMemory).handler.storage
      (enabledUnit t)).info.has StorageInfo.controlWord = true := by
  obtain ⟨s,hs,hid,hinfo⟩ :=
    Operator.construct_site mask thread memory pdoMemory (enabledUnit t)
  have hid' : s.id = 12 + 56 * t.1.val + 14 * t.2.val + 9 := hid
  have hpolicy := enabled_sites s hs (by omega) (by omega)
  have hinit := s.init_policy mask
  rw [hpolicy] at hinit
  rw [hinfo, StorageInfo.has]
  rcases hinit with hinit | hinit <;> rw [hinit] <;> decide

theorem enabledFlags_write {h h' : Handler operator.dataCount Fn Ctx} {t : JointId} {value : Bool}
    {caller : Nat} {dataFill fill : Buffer8} {timeout : Int} {callback : Option Fn} {context : Ctx}
    (hinfo : (h.storage (enabledUnit t)).info.has StorageInfo.controlWord = true)
    (hc : h.call codec ⟨caller,enabledUnit t,
      .writeAsync (StorageUnit.enabledData dataFill value) fill timeout callback context⟩ =
        .ok h') (fill' : Buffer8) :
    enabledFlags codec fill' h' = Function.update (enabledFlags codec fill' h) t value := by
  obtain ⟨_,u,hu,rfl⟩ := Handler.call_ok hc
  funext t'
  by_cases heq : t' = t
  · subst heq
    rw [Function.update_self, enabledFlags, Handler.setUnit_storage_self]
    refine Eq.trans ?_ (StorageUnit.getEnabled_storeData codec hinfo value dataFill fill fill')
    simp only [StorageUnit.call, StorageUnit.writeAsync] at hu
    split at hu
    · cases hu
    · obtain rfl := Except.ok.inj hu
      exact StorageUnit.getEnabled_congr rfl rfl fill'
  · rw [Function.update_of_ne heq, enabledFlags, enabledFlags,
      Handler.setUnit_storage_of_ne h u fun hid => heq (enabledUnit_inj hid)]

theorem enabledFlags_run {h : Handler operator.dataCount Fn Ctx} {t : JointId}
    (hcoherent : (h.storage (enabledUnit t)).Coherent)
    (hmode : (h.storage (enabledUnit t)).operation.mode ≠ .read)
    {es : List (Event operator.dataCount Fn Ctx)}
    (hes : ∀ c, .call c ∈ es → c.id ≠ enabledUnit t) (fill : Buffer8) :
    enabledFlags codec fill (Runs.run (Handler.step codec) h es) t = enabledFlags codec fill h t := by
  have hcell : ((Runs.run (Handler.step codec) h es).storage (enabledUnit t)).WriteCell
      (h.storage (enabledUnit t)).value := by
    have hstart : (h.storage (enabledUnit t)).WriteCell (h.storage (enabledUnit t)).value :=
      ⟨hcoherent,hmode,rfl⟩
    generalize (h.storage (enabledUnit t)).value = value at hstart
    clear hcoherent hmode
    induction es generalizing h with
    | nil => exact hstart
    | cons e es ih =>
      refine ih (fun c hc => hes c (List.mem_cons_of_mem e hc)) ?_
      exact Handler.step_writeCell codec (fun c hc => hes c (hc ▸ List.mem_cons_self)) hstart
  exact StorageUnit.getEnabled_congr ((Handler.run_sameLayout codec h es).2 _) hcell.value_eq fill

end Flags

end Hand

end WujiHand

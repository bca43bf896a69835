import WujiHand.Device.Dispatch
import WujiHand.Handler.PromptCompletion

namespace WujiHand

namespace Plant

variable {n : Nat} {Fn Ctx : Type} {codec : PositionCodec} {s : Plant n Fn Ctx} {id : Fin n}

theorem Served.step (h : s.Served id) (e : PlantEvent n Fn Ctx) (henough : s.Enough e) :
    (s.step codec e).Served id := by
  cases e with
  | round r => exact (h.round henough).served
  | sense index subIndex value => exact h.of_layout ⟨rfl,fun _ => rfl⟩ rfl
  | call c =>
    simp only [Plant.step]
    split
    · exact h
    · rename_i h' hcall
      obtain ⟨-,u,hu,rfl⟩ := Handler.call_ok hcall
      exact h.of_layout (Handler.sameLayout_setUnit ⟨rfl,fun _ => rfl⟩
        (Handler.unit_info codec (.called c.op hu))) rfl

end Plant

namespace Hand

variable {Fn Ctx : Type} {mask : BitVec 32} {thread : Nat}
  {memory : Fin operator.dataCount → StorageUnit Fn Ctx} {pdoMemory : JointTable (BitVec 32)}

def plant (mask : BitVec 32) (thread : Nat) (memory : Fin operator.dataCount → StorageUnit Fn Ctx)
    (pdoMemory : JointTable (BitVec 32)) (dictionary : ObjectDictionary) :
    Plant operator.dataCount Fn Ctx :=
  ⟨(operator.construct mask thread memory pdoMemory).handler,dictionary,[]⟩

theorem plant_handler (dictionary : ObjectDictionary) :
    (plant mask thread memory pdoMemory dictionary).handler =
      (operator.construct mask thread memory pdoMemory).handler := by
  simp only [plant]

theorem plant_finds {dictionary : ObjectDictionary} {u : Fin operator.dataCount}
    {info : StorageInfo} (hc : (u,info) ∈ operator.calls mask) :
    (plant mask thread memory pdoMemory dictionary).handler.findStorageByIndex info.index
      info.subIndex = some (if u = rPdoUnit then tPdoUnit else u) := by
  rw [plant_handler]
  by_cases hr : u = rPdoUnit
  · subst hr
    obtain ⟨hrpdo,htpdo⟩ := pdoId_calls mask
    have hinfo := congrArg Prod.snd (Operator.calls_unique hc hrpdo rfl)
    rw [if_pos rfl, show info = pdoIdInfo from hinfo]
    exact finds_itself htpdo (by decide)
  · rw [if_neg hr]
    exact finds_itself hc hr

theorem served {id : Fin operator.dataCount} (hr : id ≠ rPdoUnit) (ht : id ≠ tPdoUnit)
    {dictionary : ObjectDictionary}
    (hsize : ∀ info, (id,info) ∈ operator.calls mask →
      dictionary.size info.index info.subIndex = info.size) :
    (plant mask thread memory pdoMemory dictionary).Served id := by
  have hunit (u : Fin operator.dataCount) : ∃ info, (u,info) ∈ operator.calls mask ∧
      ((plant mask thread memory pdoMemory dictionary).unit u).info = info ∧
      (plant mask thread memory pdoMemory dictionary).handler.findStorageByIndex info.index
        info.subIndex = some (if u = rPdoUnit then tPdoUnit else u) := by
    obtain ⟨info,hc⟩ := operator.exists_call mask u
    exact ⟨info,hc,Operator.construct_info hc,plant_finds hc⟩
  refine ⟨fun u => ?_,fun u => ?_,?_⟩
  · obtain ⟨info,-,hinfo,hfinds⟩ := hunit u
    rw [hinfo, hfinds, Option.some.injEq]
    split
    case isTrue hu => exact ⟨fun h => absurd h.symm ht,fun h => absurd (h.symm.trans hu) hr⟩
    case isFalse => exact Iff.rfl
  · obtain ⟨info,-,hinfo,hfinds⟩ := hunit u
    rw [hinfo, hfinds]
    rfl
  · obtain ⟨info,hc,hinfo,-⟩ := hunit id
    rw [hinfo]
    exact hsize info hc

theorem run_served (codec : PositionCodec) {id : Fin operator.dataCount} (hr : id ≠ rPdoUnit)
    (ht : id ≠ tPdoUnit) {dictionary : ObjectDictionary}
    (hsize : ∀ info, (id,info) ∈ operator.calls mask →
      dictionary.size info.index info.subIndex = info.size)
    {events : List (PlantEvent operator.dataCount Fn Ctx)}
    (henough : Runs.Along (Plant.step codec) Plant.Enough
      (plant mask thread memory pdoMemory dictionary) events) :
    Runs.Throughout (Plant.step codec) (fun s => s.Served id)
      (plant mask thread memory pdoMemory dictionary) events :=
  Runs.throughout_invariant (fun _ e h henough => h.step e henough) (served hr ht hsize) henough

end Hand

end WujiHand

import WujiHand.Device.Hand

namespace WujiHand

variable {n : Nat} {Fn Ctx : Type}

namespace StorageUnit

theorem request_address {u : StorageUnit Fn Ctx} {now : Int} {q : SdoRequest}
    (h : (u.tickVisit now).request = some q) : (⟨q.index,q.subIndex⟩ : Address) = u.info.address := by
  have hv := visit_step now u
  generalize u.tickVisit now = v at hv h
  cases hv with
  | idle => cases h
  | completed => cases h
  | completedLate => cases h
  | started => cases h
  | expired => cases h
  | polled => cases h; rfl
  | transmitted => cases h; rfl

theorem second_visit_transmits (codec : PositionCodec) {u : StorageUnit Fn Ctx} (hm : ¬u.Masked) :
    ((((u.accept codec (.writeAsyncUnchecked 0 0 1)).tickVisit 0).unit).tickVisit 0).request.isSome := by
  have hm' : u.info.has StorageInfo.masked = false := Bool.eq_false_iff.mpr hm
  simp [tickVisit, visitSuccess, visitRest, accept, UnitCall.mode, UnitCall.timeout, deadline,
    timePointMax, hm', timeoutPoint, Masked, StorageInfo.Masked]

end StorageUnit

namespace Handler

theorem run_finds {codec : PositionCodec} {h : Handler n Fn Ctx} {es : List (Event n Fn Ctx)}
    {id : Fin n} {now : Int} {q : SdoRequest}
    (hq : ((Runs.run (step codec) h es).visit id now).request = some q) :
    (Runs.run (step codec) h es).findStorageByIndex q.index q.subIndex =
      h.findStorageByIndex (h.storage id).info.index (h.storage id).info.subIndex := by
  obtain ⟨hmap,hinfo⟩ := run_sameLayout codec h es
  have haddr := StorageUnit.request_address hq
  rw [hinfo] at haddr
  obtain ⟨hi,hs⟩ := Address.mk.inj haddr
  rw [findStorageByIndex, hmap, hi, hs]
  rfl

def firstWrite (thread : Nat) (id : Fin n) : List (Event n Fn Ctx) :=
  [.call ⟨thread,id,.writeAsyncUnchecked 0 0 1⟩,.visit id 0]

theorem firstWrite_transmits (codec : PositionCodec) (s : FreshHandler n Fn Ctx) {thread : Nat}
    {id : Fin n} (ht : s.handler.operationThreadCheck thread = true)
    (hm : ¬(s.handler.storage id).Masked) :
    ∃ q, ((Runs.run (step codec) s.handler (firstWrite thread id)).visit id 0).request = some q := by
  have hidle : ¬(s.handler.storage id).Busy := fun hb => hb (by rw [s.idle id])
  have hcall := StorageUnit.call_idle codec (.writeAsyncUnchecked 0 0 1) hidle
  refine Option.isSome_iff_exists.mp ?_
  simp only [firstWrite, Runs.run_cons, Runs.run_nil, step, call, if_pos ht, hcall, Except.map,
    afterVisit, visit, setUnit_storage_self]
  exact StorageUnit.second_visit_transmits codec hm

end Handler

namespace Operator

variable {op : Operator} {mask : BitVec 32} {thread : Nat}
  {memory : Fin op.dataCount → StorageUnit Fn Ctx} {pdoMemory : JointTable (BitVec 32)}

theorem calls_unique {c c' : Fin op.dataCount × StorageInfo} (hc : c ∈ op.calls mask)
    (hc' : c' ∈ op.calls mask) (he : c.1 = c'.1) : c = c' := by
  have h : ((op.calls mask).map fun c => c.1.val).Nodup := by
    rw [calls_ids]
    exact List.nodup_range
  exact List.inj_on_of_nodup_map h hc hc' (congrArg Fin.val he)

end Operator

namespace Hand

variable {mask : BitVec 32} {thread : Nat}
  {memory : Fin operator.dataCount → StorageUnit Fn Ctx} {pdoMemory : JointTable (BitVec 32)}

theorem calls_clash (mask : BitVec 32) : (operator.calls mask).Pairwise fun c c' =>
    c.2.address = c'.2.address → c.1 = rPdoUnit ∧ c'.1 = tPdoUnit := by
  have h := addresses_clash
  rw [← Operator.calls_addresses operator mask] at h
  refine (List.pairwise_map.mp h).imp ?_
  intro c c' hclash heq
  exact ⟨Fin.ext (hclash heq).1,Fin.ext (hclash heq).2⟩

theorem finds_itself {id : Fin operator.dataCount} {info : StorageInfo}
    (hc : (id,info) ∈ operator.calls mask) (hne : id ≠ rPdoUnit) :
    (operator.construct mask thread memory pdoMemory).handler.findStorageByIndex info.index
      info.subIndex = some id := by
  refine Operator.construct_finds hc ((calls_clash mask).imp_of_mem ?_)
  intro e e' he _ hclash hid heq
  obtain rfl := Operator.calls_unique he hc hid
  exact hne (hclash heq.symm).1

def pdoIdInfo : StorageInfo := .make 2 0x52A4 2 0

theorem pdoId_calls (mask : BitVec 32) :
    (rPdoUnit,pdoIdInfo) ∈ operator.calls mask ∧ (tPdoUnit,pdoIdInfo) ∈ operator.calls mask := by
  have hmem : ∀ id : Fin operator.dataCount,
      (id.val,pdoIdInfo) ∈ operator.initStorageInfo mask 0 0 0 0 →
        (id,pdoIdInfo) ∈ operator.calls mask := by
    intro id h
    rw [← Operator.calls_map operator mask] at h
    obtain ⟨⟨id',info⟩,hc,he⟩ := List.mem_map.mp h
    obtain ⟨hid,rfl⟩ := Prod.mk.inj he
    obtain rfl := Fin.ext hid
    exact hc
  constructor
  · refine hmem rPdoUnit (List.mem_append_left _ ?_)
    simp [datas, Operator.initDatas, rPdoUnit, pdoIdInfo, Operator.initData, rPdoId, writeOnlyData,
      StorageInfo.make]
  · refine hmem tPdoUnit (List.mem_append_left _ ?_)
    simp [datas, Operator.initDatas, tPdoUnit, pdoIdInfo, Operator.initData, tPdoId, writeOnlyData,
      StorageInfo.make]

variable (codec : PositionCodec) (mask : BitVec 32) (thread : Nat)
  (memory : Fin operator.dataCount → StorageUnit Fn Ctx) (pdoMemory : JointTable (BitVec 32))
  (u : Fin operator.dataCount)

def DispatchesToItself : Prop :=
  ∀ es now q,
    ((Runs.run (Handler.step codec) (operator.construct mask thread memory pdoMemory).handler
      es).visit u now).request = some q →
    (Runs.run (Handler.step codec) (operator.construct mask thread memory pdoMemory).handler
      es).findStorageByIndex q.index q.subIndex = some u

def EntryReplaced : Prop :=
  ∃ before c after, operator.calls mask = before ++ c :: after ∧ c.1 ≠ u ∧
    ((Handler.construct thread memory pdoMemory).initAll before).findStorageByIndex c.2.index
      c.2.subIndex = some u

variable {codec mask thread memory pdoMemory u}

theorem dispatches_of_ne (hne : u ≠ rPdoUnit) :
    DispatchesToItself codec mask thread memory pdoMemory u := by
  intro es now q hq
  obtain ⟨info,hc⟩ := operator.exists_call mask u
  rw [Handler.run_finds hq, Operator.construct_info hc]
  exact finds_itself hc hne

theorem rPdoId_misdispatched :
    ¬DispatchesToItself codec mask thread memory pdoMemory rPdoUnit := by
  intro h
  obtain ⟨hr,ht⟩ := pdoId_calls mask
  have hinfo : ((operator.construct mask thread memory pdoMemory).handler.storage rPdoUnit).info =
      pdoIdInfo := Operator.construct_info hr
  have hthread : (operator.construct mask thread memory pdoMemory).handler.operationThreadCheck
      thread = true := by
    have hid := Handler.initAll_operationThreadId (Handler.construct thread memory pdoMemory)
      (operator.calls mask)
    rw [Handler.operationThreadCheck, Operator.construct, hid]
    exact beq_self_eq_true thread
  have hm : ¬((operator.construct mask thread memory pdoMemory).handler.storage rPdoUnit).Masked := by
    rw [StorageUnit.Masked, hinfo]
    decide
  obtain ⟨q,hq⟩ := Handler.firstWrite_transmits codec
    (operator.construct mask thread memory pdoMemory) hthread hm
  have hself := h _ 0 q hq
  rw [Handler.run_finds hq, hinfo, finds_itself ht (by decide)] at hself
  exact absurd (Option.some.inj hself) (by decide)

theorem rPdoUnit_of_replaced (h : EntryReplaced mask thread memory pdoMemory u) :
    u = rPdoUnit := by
  obtain ⟨before,c,after,hsplit,hne,hfind⟩ := h
  have hmap := Handler.initAll_indexStorageMap (Handler.construct thread memory pdoMemory) before
  have hreg := (congrFun hmap c.2.address.key).symm.trans hfind
  rcases Registry.mem_of_registerAll hreg with hin | hnone
  · obtain ⟨e,he,hentry⟩ := List.mem_map.mp hin
    obtain ⟨hkey,rfl⟩ := Prod.mk.inj hentry
    have hclash := calls_clash mask
    rw [hsplit] at hclash
    exact ((List.pairwise_append.mp hclash).2.2 e he c List.mem_cons_self
      (Address.key_inj.mp hkey)).1
  · cases hnone

theorem rPdoUnit_replaced : EntryReplaced mask thread memory pdoMemory rPdoUnit := by
  obtain ⟨hr,ht⟩ := pdoId_calls mask
  obtain ⟨before,after,hsplit⟩ := List.append_of_mem ht
  refine ⟨before,_,after,hsplit,by decide,?_⟩
  have hclash := calls_clash mask
  have hordered := Operator.calls_ordered operator mask
  rw [hsplit] at hr hclash hordered
  have hbefore : ∀ e ∈ before, e.1 < tPdoUnit := fun e he =>
    (List.pairwise_append.mp hordered).2.2 e he _ List.mem_cons_self
  have hmem : (rPdoUnit,pdoIdInfo) ∈ before := by
    rcases List.mem_append.mp hr with hin | hin
    · exact hin
    · rcases List.mem_cons.mp hin with heq | hin
      · exact absurd (congrArg Prod.fst heq) (by decide)
      · have hlt := (List.pairwise_cons.mp (List.pairwise_append.mp hordered).2.1).1 _ hin
        exact absurd hlt (by decide)
  have hmap := Handler.initAll_indexStorageMap (Handler.construct thread memory pdoMemory) before
  refine (congrFun hmap pdoIdInfo.address.key).trans ?_
  refine Registry.registerAll_eq_some (List.mem_map.mpr ⟨_,hmem,rfl⟩) (List.pairwise_map.mpr ?_)
  refine (List.pairwise_append.mp hclash).1.imp_of_mem ?_
  intro e e' _ he' hc heq hkey
  have haddr : e.2.address = e'.2.address :=
    Address.key_inj.mp ((Prod.mk.inj heq).1.trans hkey.symm)
  exact absurd (hc haddr).2 (hbefore e' he').ne

theorem dispatch_inverts_iff (codec : PositionCodec) (mask : BitVec 32) (thread : Nat)
    (memory : Fin operator.dataCount → StorageUnit Fn Ctx) (pdoMemory : JointTable (BitVec 32))
    (u : Fin operator.dataCount) :
    (DispatchesToItself codec mask thread memory pdoMemory u ↔ u ≠ rPdoUnit) ∧
      (EntryReplaced mask thread memory pdoMemory u ↔ u = rPdoUnit) := by
  refine ⟨⟨?_,dispatches_of_ne⟩,⟨rPdoUnit_of_replaced,?_⟩⟩
  · rintro h rfl
    exact rPdoId_misdispatched h
  · rintro rfl
    exact rPdoUnit_replaced

theorem rPdoId_answers_reach_tPdoId :
    ¬∀ u, DispatchesToItself .raw 0 0 (fun _ => (StorageUnit.blank pdoIdInfo 0 :
      StorageUnit Nat Nat)) (fun _ _ => 0) u := by
  intro h
  exact rPdoId_misdispatched (h rPdoUnit)

end Hand

end WujiHand

import WujiHand.Handler.Session

namespace WujiHand.Session

variable {n : Nat} {Fn Ctx : Type}

def AsksFor (s : Session n Fn Ctx) (k : Nat) (id : Fin n) : Prop :=
  ∃ q ∈ s.sent[k]?, q.unit = id ∧ (s.mark id).acceptedAt < q.time

instance (s : Session n Fn Ctx) (k : Nat) (id : Fin n) : Decidable (s.AsksFor k id) :=
  inferInstanceAs (Decidable (∃ q ∈ s.sent[k]?, _))

def Fresh (codec : PositionCodec) (s : Session n Fn Ctx) (id : Fin n)
    (data : Buffer8 → Buffer8) : Prop :=
  ∃ k q size index subIndex payload fill,
    (s.mark id).source = some (k,.readSuccess size index subIndex payload) ∧
    s.sent[k]? = some q ∧ q.unit = id ∧ q.request = .read index subIndex ∧
    (s.mark id).acceptedAt < q.time ∧
    ∀ scratch, data scratch =
      decodeData codec (s.unit id).info (Buffer8.of fill payload) scratch

def ReadsFresh (codec : PositionCodec) (s : Session n Fn Ctx) : Prop :=
  ∀ id now, ¬(s.unit id).Masked → (s.unit id).operation = ⟨.read,.success⟩ →
    (s.handler.visit id now).unit.operation.mode = .none →
    s.Fresh codec id ((s.handler.afterVisit id now).get codec id)

def AnswersCurrent (s : Session n Fn Ctx) : Action n Fn Ctx → Prop
  | .answer k (.readSuccess size index subIndex value) _ =>
    s.Pending k (.readSuccess size index subIndex value) →
      ∀ id, s.handler.findStorageByIndex index subIndex = some id →
        ¬(s.unit id).Masked → (s.unit id).operation = ⟨.read,.reading⟩ → s.AsksFor k id
  | .call c =>
    s.handler.operationThreadCheck c.caller = true → ¬(s.unit c.id).Masked →
      (s.unit c.id).operation = ⟨.read,.success⟩ →
      ∀ data fill timeout, c.op ≠ .writeAsyncUnchecked data fill timeout
  | _ => True

theorem visit_get (codec : PositionCodec) (s : Session n Fn Ctx) (id : Fin n) (now : Int) :
    (s.handler.afterVisit id now).get codec id = fun scratch => (s.unit id).loadData codec scratch := by
  funext scratch
  have hv := StorageUnit.visit_step now (s.handler.storage id)
  simp only [Handler.get, Handler.afterVisit, Handler.setUnit_storage_self, Handler.visit]
  generalize (s.handler.storage id).tickVisit now = v at hv
  cases hv <;> rfl

theorem readsFresh_iff {codec : PositionCodec} {s : Session n Fn Ctx} :
    s.ReadsFresh codec ↔
      ∀ id, ¬(s.unit id).Masked → (s.unit id).operation = ⟨.read,.success⟩ →
        s.Fresh codec id ((s.unit id).loadData codec) := by
  constructor
  · intro hd id hm ho
    have hb : (s.unit id).Busy := by simp [StorageUnit.Busy, ho]
    have hf := hd id 0 hm ho (StorageUnit.visit_ends 0 hb (congrArg Operation.state ho))
    rw [visit_get] at hf
    exact hf
  · intro hd id now hm ho _
    rw [visit_get]
    exact hd id hm ho

theorem fresh_step (codec : PositionCodec) (s : Session n Fn Ctx) (a : Action n Fn Ctx)
    (id : Fin n) (h : s.Fresh codec id ((s.unit id).loadData codec))
    (hu : (s.step codec a).unit id = s.unit id)
    (hm : (s.step codec a).mark id = s.mark id) :
    (s.step codec a).Fresh codec id (((s.step codec a).unit id).loadData codec) := by
  obtain ⟨k,q,size,index,subIndex,payload,fill,hsource,hq,hid,hreq,hacc,hget⟩ := h
  refine ⟨k,q,size,index,subIndex,payload,fill,?_,sent_getElem? codec a hq,hid,hreq,?_,?_⟩
  · rw [hm]
    exact hsource
  · rw [hm]
    exact hacc
  · rw [hu]
    exact hget

theorem refreshed_step (codec : PositionCodec) {s : Session n Fn Ctx} {k : Nat} {size : Size}
    {index : BitVec 16} {subIndex : BitVec 8} {value : BitVec size.bits} (fill : Buffer8)
    {id : Fin n} (hp : s.Pending k (.readSuccess size index subIndex value))
    (hf : s.handler.findStorageByIndex index subIndex = some id)
    (ho : (s.unit id).operation = ⟨.read,.reading⟩) :
    ∃ s', s.step codec (.answer k (.readSuccess size index subIndex value) fill) = s' ∧
      s'.unit id =
        { s.unit id with
          value := Buffer8.of fill value, version := StorageUnit.nextVersion (s.unit id).version,
          operation := ⟨.read,.success⟩ } ∧
      s'.sent = s.sent ∧ (s'.mark id).acceptedAt = (s.mark id).acceptedAt ∧
      (s'.mark id).source = some (k,.readSuccess size index subIndex value) := by
  have hu := StorageUnit.readSuccess_refreshed value fill ho
  refine ⟨_,rfl,?_⟩
  rw [step_answer codec fill hp]
  refine ⟨?_,rfl,markAnswer_acceptedAt s k _ id,?_⟩
  · simp only [noteAnswer, Handler.applyResult, hf, unit, Handler.setUnit_storage_self]
    exact hu
  · simp [noteAnswer, markAnswer, hf, ho, StorageUnit.Busy]

theorem fresh_of_asksFor (codec : PositionCodec) {s : Session n Fn Ctx} {k : Nat} {size : Size}
    {index : BitVec 16} {subIndex : BitVec 8} {value : BitVec size.bits} (fill : Buffer8)
    {id : Fin n} (hp : s.Pending k (.readSuccess size index subIndex value))
    (hf : s.handler.findStorageByIndex index subIndex = some id)
    (ho : (s.unit id).operation = ⟨.read,.reading⟩) {s' : Session n Fn Ctx}
    (hs : s.step codec (.answer k (.readSuccess size index subIndex value) fill) = s') :
    s'.Fresh codec id ((s'.unit id).loadData codec) ↔ s.AsksFor k id := by
  obtain ⟨_,rfl,hu,hsent,hacc,hsource⟩ := refreshed_step codec fill hp hf ho
  rw [hs] at hu hsent hacc hsource
  constructor
  · rintro ⟨k',q,_,_,_,_,_,hsource',hq,hid,_,hacc',_⟩
    obtain ⟨rfl,_⟩ := Prod.mk.inj (Option.some.inj (hsource'.symm.trans hsource))
    exact ⟨q,hsent ▸ hq,hid,hacc ▸ hacc'⟩
  · rintro ⟨q,hq,hid,htime⟩
    obtain ⟨_,q',hq',hans⟩ := hp
    obtain rfl := Option.mem_unique hq hq'
    refine ⟨k,q,size,index,subIndex,value,fill,hsource,hsent ▸ hq,hid,
      SdoRequest.read_of_answeredBy hans,hacc ▸ htime,?_⟩
    intro scratch
    rw [hu]
    rfl

theorem fresh_of_answersCurrent (codec : PositionCodec) {s : Session n Fn Ctx} (hr : Recorded s)
    (h : s.ReadsFresh codec) {a : Action n Fn Ctx} (hc : s.AnswersCurrent a) (id : Fin n)
    (hm : ¬((s.step codec a).unit id).Masked)
    (ho : ((s.step codec a).unit id).operation = ⟨.read,.success⟩) :
    (s.step codec a).Fresh codec id (((s.step codec a).unit id).loadData codec) := by
  have hfresh := readsFresh_iff.mp h id
  have hkeep := fresh_step codec s a id
  have hs := s.unit_step codec a id
  generalize hu : (s.step codec a).unit id = u, hk : (s.step codec a).mark id = m at hs hm ho
  rw [hu, hk] at hkeep
  rw [← hu]
  cases hs with
  | untouched => exact hu ▸ hkeep (hfresh hm ho) rfl rfl
  | called caller op u ht hcall =>
    have hs := StorageUnit.call_step codec op (s.unit id)
    rw [hcall] at hs
    cases hs with
    | accepted => exact State.noConfusion (congrArg Operation.state ho)
    | ignored timeout hb =>
      rw [UnitCall.encoded, Mark.called_ignored _ _ hb] at hkeep
      exact hu ▸ hkeep (hfresh hm ho) rfl rfl
    | replaced data fill timeout => exact absurd rfl (hc ht hm ho data fill timeout)
  | visited now => exact absurd ho (StorageUnit.visit_not_success now (by decide))
  | readSuccess k size index subIndex value fill hp hf =>
    by_cases hread : (s.unit id).operation = ⟨.read,.reading⟩
    · rw [StorageUnit.readSuccess_refreshed value fill hread] at hm
      exact (fresh_of_asksFor codec fill hp hf hread rfl).mpr (hc hp id hf hm hread)
    · have hs := StorageUnit.readSuccess_step size value fill (s.unit id)
      generalize (s.unit id).readSuccess size value fill = u at hs hu hm ho hkeep
      cases hs with
      | ignored hnot =>
        have hmark : s.markAnswer k (.readSuccess size index subIndex value) id = s.mark id := by
          simp only [markAnswer]
          exact if_neg fun h => (hnot h.2.1).1 h.2.2
        exact hu ▸ hkeep (hfresh hm ho) rfl hmark
      | refreshed hb hst =>
        exact absurd (Operation.eq_mk ((hr.coherent id).read_of_reading hb hst) hst) hread
      | confirmed hb hst =>
        have hwrite := (hr.coherent id).write_of_writing hb (.inr hst)
        have hmode : (s.unit id).operation.mode = .read := congrArg Operation.mode ho
        exact Mode.noConfusion (hwrite.symm.trans hmode)
      | mismatched => exact State.noConfusion (congrArg Operation.state ho)
  | writeSuccess k index subIndex fill hp hf =>
    have hs := StorageUnit.writeSuccess_step (s.unit id)
    generalize (s.unit id).writeSuccess = u at hs hu hm ho hkeep
    cases hs with
    | ignored => exact hu ▸ hkeep (hfresh hm ho) rfl rfl
    | acknowledged hb hst =>
      have hwrite := (hr.coherent id).write_of_writing hb (.inl hst)
      have hmode : (s.unit id).operation.mode = .read := congrArg Operation.mode ho
      exact Mode.noConfusion (hwrite.symm.trans hmode)

theorem answersCurrent_of_fresh (codec : PositionCodec) {s : Session n Fn Ctx}
    {a : Action n Fn Ctx} (h : (s.step codec a).ReadsFresh codec) : s.AnswersCurrent a := by
  have hfresh := readsFresh_iff.mp h
  cases a with
  | answer k r fill =>
    cases r with
    | readSuccess size index subIndex value =>
      intro hp id hf hm ho
      obtain ⟨s',hs',hu,_⟩ := refreshed_step codec fill hp hf ho
      rw [hs'] at hfresh
      exact (fresh_of_asksFor codec fill hp hf ho hs').mp (hfresh id (hu ▸ hm) (hu ▸ rfl))
    | readError => trivial
    | writeSuccess => trivial
    | writeError => trivial
  | call c =>
    intro ht hm ho data fill timeout hop
    have hb : (s.unit c.id).Busy := by simp [StorageUnit.Busy, ho]
    obtain ⟨caller,id,op⟩ := c
    obtain rfl := hop
    obtain ⟨s',hs',hu,_,_,hsource⟩ := step_replaced codec data fill timeout ht hb
    rw [hs'] at hfresh
    obtain ⟨_,_,_,_,_,_,_,hsource',_⟩ := hfresh id (hu ▸ hm) (hu ▸ ho)
    rw [hsource] at hsource'
    cases hsource'
  | visit => trivial
  | commandResult => trivial
  | disableThreadSafeCheck => trivial

theorem reads_fresh_iff (codec : PositionCodec) (s : FreshHandler n Fn Ctx)
    (as : List (Action n Fn Ctx)) :
    Runs.Throughout (step codec) (ReadsFresh codec) (start s) as ↔
      Runs.Along (step codec) AnswersCurrent (start s) as := by
  refine Runs.throughout_iff_along (recorded_step codec) ?_ (recorded_start s) ?_
  · intro s a hr h
    constructor
    · exact answersCurrent_of_fresh codec
    · intro hc
      exact readsFresh_iff.mpr (fresh_of_answersCurrent codec hr h hc)
  · intro id now hm ho
    have hi := s.idle id
    exact Mode.noConfusion (congrArg Operation.mode (hi.symm.trans ho))

section StaleAnswer

open FreshHandler (only)

def wordFresh : FreshHandler 1 Nat Nat := .single (.make 4 0x64 0 0) 0

-- The Read transmitted at clock 5 belongs to the operation that expires at 10; its answer ends
-- the next operation, which has transmitted nothing.
def staleAnswer : List (Action 1 Nat Nat) :=
  [.call ⟨0,only,.readAsync 10 (some 1) 2⟩,.visit only 0,.visit only 5,.visit only 10,
    .call ⟨0,only,.readAsync 10 (some 1) 3⟩,.visit only 11,
    .answer 0 (.readSuccess .four 0x64 0 7) 0]

theorem staleAnswer_ends_unasked :
    ¬Runs.Throughout (step .raw) (ReadsFresh .raw) (start wordFresh) staleAnswer := by
  intro h
  obtain ⟨k,q,_,_,_,_,_,hsource,hq,_,_,hacc,_⟩ :=
    Runs.throughout_last h 0 12 (by decide) (by decide) (by decide)
  have hlast : ((Runs.run (step .raw) (start wordFresh) staleAnswer).mark 0).source =
      some (0,.readSuccess .four 0x64 0 7) := by decide
  obtain ⟨rfl,_⟩ := Prod.mk.inj (Option.some.inj (hlast.symm.trans hsource))
  have hsent : (Runs.run (step .raw) (start wordFresh) staleAnswer).sent[0]? =
      some ⟨0,.read 0x64 0,2⟩ := by decide
  obtain rfl := Option.some.inj (hsent.symm.trans hq)
  exact absurd hacc (by decide)

end StaleAnswer

end WujiHand.Session

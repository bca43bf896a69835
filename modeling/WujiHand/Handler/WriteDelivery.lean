import WujiHand.Handler.Session

namespace WujiHand.Session

variable {n : Nat} {Fn Ctx : Type}

def Transmitted (s : Session n Fn Ctx) (id : Fin n) : Prop :=
  ∃ q ∈ s.sent, q.unit = id ∧ q.request = (s.unit id).writeRequest ∧
    (s.mark id).acceptedAt < q.time ∧ (s.mark id).storedAt < q.time

instance (s : Session n Fn Ctx) (id : Fin n) : Decidable (s.Transmitted id) :=
  inferInstanceAs (Decidable (∃ q ∈ s.sent, _))

def WritesDelivered (s : Session n Fn Ctx) : Prop :=
  ∀ id now, ¬(s.unit id).Masked → (s.unit id).operation = ⟨.write,.success⟩ →
    (s.handler.visit id now).unit.operation.mode = .none →
    (s.mark id).written = some (s.unit id).value ∧ s.Transmitted id

def Confirms (u : StorageUnit Fn Ctx) : SdoResult → Prop
  | .readSuccess size _ _ value =>
    u.operation = ⟨.write,.writingConfirming⟩ ∧ value = Buffer8.as size.bits u.value
  | .writeSuccess _ _ => u.operation = ⟨.write,.writing⟩
  | _ => False

def ConfirmsTransmitted (s : Session n Fn Ctx) : Action n Fn Ctx → Prop
  | .answer k r _ =>
    s.Pending k r → ∀ id, s.handler.findStorageByIndex r.index r.subIndex = some id →
      ¬(s.unit id).Masked → Confirms (s.unit id) r → s.Transmitted id
  | .call c =>
    s.handler.operationThreadCheck c.caller = true → ¬(s.unit c.id).Masked →
      (s.unit c.id).operation = ⟨.write,.success⟩ →
      ∀ data fill timeout, c.op ≠ .writeAsyncUnchecked data fill timeout
  | _ => True

theorem writesDelivered_iff {s : Session n Fn Ctx} (h : Recorded s) :
    s.WritesDelivered ↔
      ∀ id, ¬(s.unit id).Masked → (s.unit id).operation = ⟨.write,.success⟩ → s.Transmitted id := by
  constructor
  · intro hd id hm ho
    have hb : (s.unit id).Busy := by simp [StorageUnit.Busy, ho]
    exact (hd id 0 hm ho (StorageUnit.visit_ends 0 hb (congrArg Operation.state ho))).2
  · intro hd id now hm ho _
    exact ⟨h.written id (by rw [ho]),hd id hm ho⟩

theorem transmitted_step (codec : PositionCodec) (s : Session n Fn Ctx) (a : Action n Fn Ctx)
    (id : Fin n) (h : s.Transmitted id)
    (hu : ((s.step codec a).unit id).writeRequest = (s.unit id).writeRequest)
    (hacc : ((s.step codec a).mark id).acceptedAt = (s.mark id).acceptedAt)
    (hst : ((s.step codec a).mark id).storedAt = (s.mark id).storedAt) :
    (s.step codec a).Transmitted id := by
  obtain ⟨q,hq,hid,hreq,ha,hs⟩ := h
  refine ⟨q,(s.sent_prefix codec a).subset hq,hid,?_,?_,?_⟩
  · rw [hu, hreq]
  · rw [hacc]
    exact ha
  · rw [hst]
    exact hs

theorem confirmed_step (codec : PositionCodec) {s : Session n Fn Ctx} (hr : Recorded s)
    (h : s.WritesDelivered) {a : Action n Fn Ctx} (hc : s.ConfirmsTransmitted a) (id : Fin n)
    (hm : ¬((s.step codec a).unit id).Masked)
    (ho : ((s.step codec a).unit id).operation = ⟨.write,.success⟩) :
    (s.step codec a).Transmitted id := by
  have hsent := (writesDelivered_iff hr).mp h id
  have hkeep := transmitted_step codec s a id
  have hs := s.unit_step codec a id
  generalize (s.step codec a).unit id = u, (s.step codec a).mark id = m at hs hm ho hkeep
  cases hs with
  | untouched => exact hkeep (hsent hm ho) rfl rfl rfl
  | called caller op u ht hu =>
    have hs := StorageUnit.call_step codec op (s.unit id)
    rw [hu] at hs
    cases hs with
    | accepted => exact State.noConfusion (congrArg Operation.state ho)
    | ignored timeout hb =>
      rw [UnitCall.encoded, Mark.called_ignored _ _ hb] at hkeep
      exact hkeep (hsent hm ho) rfl rfl rfl
    | replaced data fill timeout => exact absurd rfl (hc ht hm ho data fill timeout)
  | visited now => exact absurd ho (StorageUnit.visit_not_success now (by decide))
  | readSuccess k size index subIndex value fill hp hf =>
    have hmark := markAnswer_acceptedAt s k (.readSuccess size index subIndex value) id
    have hmark' := markAnswer_storedAt s k (.readSuccess size index subIndex value) id
    have hs := StorageUnit.readSuccess_step size value fill (s.unit id)
    generalize (s.unit id).readSuccess size value fill = u at hs hm ho hkeep
    cases hs with
    | ignored => exact hkeep (hsent hm ho) rfl hmark hmark'
    | refreshed hb hst =>
      have hwrite : (s.unit id).operation.mode = .write := congrArg Operation.mode ho
      have hread := (hr.coherent id).read_of_reading hb hst
      exact Mode.noConfusion (hread.symm.trans hwrite)
    | confirmed hb hst hv =>
      have hwrite : (s.unit id).operation.mode = .write := congrArg Operation.mode ho
      exact hkeep (hc hp id hf hm ⟨Operation.eq_mk hwrite hst,hv⟩) rfl hmark hmark'
    | mismatched => exact State.noConfusion (congrArg Operation.state ho)
  | writeSuccess k index subIndex fill hp hf =>
    have hs := StorageUnit.writeSuccess_step (s.unit id)
    generalize (s.unit id).writeSuccess = u at hs hm ho hkeep
    cases hs with
    | ignored => exact hkeep (hsent hm ho) rfl rfl rfl
    | acknowledged hb hst =>
      have hwrite : (s.unit id).operation.mode = .write := congrArg Operation.mode ho
      exact hkeep (hc hp id hf hm (Operation.eq_mk hwrite hst)) rfl rfl rfl

theorem confirms_of_delivered (codec : PositionCodec) {s : Session n Fn Ctx} (hr : Recorded s)
    {a : Action n Fn Ctx} (h : (s.step codec a).WritesDelivered) : s.ConfirmsTransmitted a := by
  have hsent := (writesDelivered_iff (recorded_step codec s a hr)).mp h
  cases a with
  | answer k r fill =>
    intro hp id hf hm hc
    rw [step_answer codec fill hp] at hsent
    cases r with
    | readSuccess size index subIndex value =>
      have hu : (s.noteAnswer k (.readSuccess size index subIndex value) fill).unit id =
          { s.unit id with operation := ⟨.write,.success⟩ } := by
        simp only [SdoResult.index, SdoResult.subIndex] at hf
        simp only [noteAnswer, Handler.applyResult, hf, unit, Handler.setUnit_storage_self]
        exact StorageUnit.readSuccess_confirmed fill hc.1 hc.2
      obtain ⟨q,hq,hid,hreq,ha,hs⟩ := hsent id (hu ▸ hm) (hu ▸ rfl)
      refine ⟨q,hq,hid,?_,?_,?_⟩
      · rw [hreq]
        exact hu ▸ rfl
      · exact markAnswer_acceptedAt s k _ id ▸ ha
      · exact markAnswer_storedAt s k _ id ▸ hs
    | readError => cases hc
    | writeSuccess index subIndex =>
      have hu : (s.noteAnswer k (.writeSuccess index subIndex) fill).unit id =
          { s.unit id with operation := ⟨.write,.success⟩ } := by
        simp only [SdoResult.index, SdoResult.subIndex] at hf
        simp only [noteAnswer, Handler.applyResult, hf, unit, Handler.setUnit_storage_self]
        exact StorageUnit.writeSuccess_acknowledged hc
      obtain ⟨q,hq,hid,hreq,ha,hs⟩ := hsent id (hu ▸ hm) (hu ▸ rfl)
      refine ⟨q,hq,hid,?_,ha,hs⟩
      rw [hreq]
      exact hu ▸ rfl
    | writeError => cases hc
  | call c =>
    intro ht hm ho data fill timeout hop
    have hb : (s.unit c.id).Busy := by simp [StorageUnit.Busy, ho]
    obtain ⟨caller,id,op⟩ := c
    obtain rfl := hop
    obtain ⟨s',hs',hu,hsame,hstored,_⟩ := step_replaced codec data fill timeout ht hb
    rw [hs'] at hsent
    obtain ⟨q,hq,_,_,_,hlate⟩ := hsent id (hu ▸ hm) (hu ▸ ho)
    rw [hstored] at hlate
    exact lt_asymm (hr.past q (hsame ▸ hq)) hlate
  | visit => trivial
  | commandResult => trivial
  | disableThreadSafeCheck => trivial

theorem writes_delivered_iff (codec : PositionCodec) (s : FreshHandler n Fn Ctx)
    (as : List (Action n Fn Ctx)) :
    Runs.Throughout (step codec) WritesDelivered (start s) as ↔
      Runs.Along (step codec) ConfirmsTransmitted (start s) as := by
  refine Runs.throughout_iff_along (recorded_step codec) ?_ (recorded_start s) ?_
  · intro s a hr h
    constructor
    · exact confirms_of_delivered codec hr
    · intro hc
      exact (writesDelivered_iff (recorded_step codec s a hr)).mpr
        (confirmed_step codec hr h hc)
  · intro id now hm ho
    have hi := s.idle id
    exact Mode.noConfusion (congrArg Operation.mode (hi.symm.trans ho))

section LateAcknowledgement

open FreshHandler (only)

def byteFresh : FreshHandler 1 Nat Nat := .single (.make 1 0x40 1 0) 0

-- The write of 1 is transmitted at clock 5 and expires at 10; its acknowledgement reaches the
-- write of 2 before anything of that second write has been transmitted.
def lateAcknowledgement : List (Action 1 Nat Nat) :=
  [.call ⟨0,only,.writeAsync 1 0 10 (some 1) 2⟩,.visit only 0,.visit only 5,.visit only 10,
    .call ⟨0,only,.writeAsync 2 0 10 (some 1) 3⟩,.visit only 11,.answer 0 (.writeSuccess 0x40 1) 0]

theorem lateAcknowledgement_ends_unsent :
    ¬Runs.Throughout (step .raw) WritesDelivered (start byteFresh) lateAcknowledgement := by
  intro h
  have hlast := Runs.throughout_last h 0 12 (by decide) (by decide) (by decide)
  exact absurd hlast.2 (by decide)

end LateAcknowledgement

end WujiHand.Session

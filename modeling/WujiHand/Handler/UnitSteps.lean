import WujiHand.Handler.Unit

namespace WujiHand

variable {Fn Ctx : Type}

theorem Operation.eq_mk {o : Operation} {mode : Mode} {state : State} (hm : o.mode = mode)
    (hs : o.state = state) : o = ⟨mode,state⟩ := by
  cases o
  rw [← hm, ← hs]

namespace UnitCall

def mode : UnitCall Fn Ctx → Mode
  | readAsyncUnchecked _ => .read
  | readAsync _ _ _ => .read
  | writeAsyncUnchecked _ _ _ => .write
  | writeAsync _ _ _ _ _ => .write

def timeout : UnitCall Fn Ctx → Int
  | readAsyncUnchecked timeout => timeout
  | readAsync timeout _ _ => timeout
  | writeAsyncUnchecked _ _ timeout => timeout
  | writeAsync _ _ timeout _ _ => timeout

def callback : UnitCall Fn Ctx → Option Fn
  | readAsyncUnchecked _ => none
  | readAsync _ callback _ => callback
  | writeAsyncUnchecked _ _ _ => none
  | writeAsync _ _ _ callback _ => callback

def context (old : Ctx) : UnitCall Fn Ctx → Ctx
  | readAsyncUnchecked _ => old
  | readAsync _ _ context => context
  | writeAsyncUnchecked _ _ _ => old
  | writeAsync _ _ _ _ context => context

def encoded (codec : PositionCodec) (info : StorageInfo) : UnitCall Fn Ctx → Option Buffer8
  | readAsyncUnchecked _ => none
  | readAsync _ _ _ => none
  | writeAsyncUnchecked data fill _ => some (encodeData codec info data fill)
  | writeAsync data fill _ _ _ => some (encodeData codec info data fill)

theorem mode_ne_none (c : UnitCall Fn Ctx) : c.mode ≠ .none := by
  cases c <;> exact Mode.noConfusion

end UnitCall

namespace StorageUnit

def accept (codec : PositionCodec) (c : UnitCall Fn Ctx) (u : StorageUnit Fn Ctx) :
    StorageUnit Fn Ctx :=
  { u with
    value := (c.encoded codec u.info).getD u.value, timeout := c.timeout, callback := c.callback,
    callbackContext := c.context u.callbackContext, operation := ⟨c.mode,.waiting⟩ }

def Coherent (u : StorageUnit Fn Ctx) : Prop :=
  match u.operation.mode with
  | .none => True
  | .read => u.operation.state = .waiting ∨ u.operation.state = .reading ∨
      u.operation.state = .success
  | .write => u.operation.state = .waiting ∨ u.operation.state = .writing ∨
      u.operation.state = .writingConfirming ∨ u.operation.state = .success

inductive CallStep (codec : PositionCodec) (u : StorageUnit Fn Ctx) :
    UnitCall Fn Ctx → Except String (StorageUnit Fn Ctx) → Prop
  | accepted (c : UnitCall Fn Ctx) (h : ¬u.Busy) : CallStep codec u c (.ok (u.accept codec c))
  | ignored (timeout : Int) (h : u.Busy) :
      CallStep codec u (.readAsyncUnchecked timeout) (.ok u)
  | replaced (data fill : Buffer8) (timeout : Int) (h : u.Busy) :
      CallStep codec u (.writeAsyncUnchecked data fill timeout) (.ok (u.storeData codec data fill))
  | rejected (c : UnitCall Fn Ctx) (error : String) (h : u.Busy) : CallStep codec u c (.error error)

inductive VisitStep (now : Int) (u : StorageUnit Fn Ctx) : Visit Fn Ctx → Prop
  | idle (h : ¬u.Busy) : VisitStep now u ⟨u,[],none⟩
  | completed (h : u.Busy) (hs : u.Masked ∨ u.operation.state = .success)
      (hn : now < u.timeoutPoint) :
      VisitStep now u ⟨{ u with operation := ⟨.none,.success⟩ },u.invoke true,none⟩
  | completedLate (h : u.Busy) (hs : u.Masked ∨ u.operation.state = .success)
      (hn : u.timeoutPoint ≤ now) :
      VisitStep now u
        ⟨{ u with operation := ⟨.none,.success⟩ },u.invoke true ++ u.invoke false,none⟩
  | started (h : u.Busy) (hm : ¬u.Masked) (hs : u.operation.state = .waiting) :
      VisitStep now u
        ⟨{ u with
            timeout := deadline now u.timeout,
            operation := ⟨u.operation.mode,if u.operation.mode = .read then .reading else .writing⟩ },
          [],none⟩
  | expired (h : u.Busy) (hm : ¬u.Masked) (hw : u.operation.state ≠ .waiting)
      (hs : u.operation.state ≠ .success) (hn : u.timeoutPoint ≤ now) :
      VisitStep now u
        ⟨{ u with operation := ⟨.none,u.operation.state⟩ },u.invoke false,none⟩
  | polled (h : u.Busy) (hm : ¬u.Masked)
      (hs : u.operation.state = .reading ∨ u.operation.state = .writingConfirming)
      (hn : now < u.timeoutPoint) : VisitStep now u ⟨u,[],some u.readRequest⟩
  | transmitted (h : u.Busy) (hm : ¬u.Masked) (hs : u.operation.state = .writing)
      (hn : now < u.timeoutPoint) :
      VisitStep now u
        ⟨{ u with operation := ⟨u.operation.mode,.writingConfirming⟩ },[],some u.writeRequest⟩

inductive ReadSuccessStep (size : Size) (value : BitVec size.bits) (fill : Buffer8)
    (u : StorageUnit Fn Ctx) : StorageUnit Fn Ctx → Prop
  | ignored (h : u.Busy → u.operation.state ≠ .reading ∧ u.operation.state ≠ .writingConfirming) :
      ReadSuccessStep size value fill u u
  | refreshed (h : u.Busy) (hs : u.operation.state = .reading) :
      ReadSuccessStep size value fill u
        { u with
          value := Buffer8.of fill value, version := nextVersion u.version,
          operation := ⟨u.operation.mode,.success⟩ }
  | confirmed (h : u.Busy) (hs : u.operation.state = .writingConfirming)
      (hv : value = Buffer8.as size.bits u.value) :
      ReadSuccessStep size value fill u { u with operation := ⟨u.operation.mode,.success⟩ }
  | mismatched (h : u.Busy) (hs : u.operation.state = .writingConfirming)
      (hv : value ≠ Buffer8.as size.bits u.value) :
      ReadSuccessStep size value fill u { u with operation := ⟨u.operation.mode,.writing⟩ }

inductive WriteSuccessStep (u : StorageUnit Fn Ctx) : StorageUnit Fn Ctx → Prop
  | ignored (h : u.Busy → u.operation.state ≠ .writing) : WriteSuccessStep u u
  | acknowledged (h : u.Busy) (hs : u.operation.state = .writing) :
      WriteSuccessStep u { u with operation := ⟨u.operation.mode,.success⟩ }

theorem call_step (codec : PositionCodec) (c : UnitCall Fn Ctx) (u : StorageUnit Fn Ctx) :
    CallStep codec u c (u.call codec c) := by
  by_cases h : u.Busy
  · have hd (data fill : Buffer8) : (u.storeData codec data fill).Busy := h
    cases c with
    | readAsyncUnchecked timeout =>
      simp only [call, readAsyncUnchecked, if_pos h]
      exact .ignored timeout h
    | readAsync timeout callback context =>
      simp only [call, readAsync, if_pos h]
      exact .rejected _ _ h
    | writeAsyncUnchecked data fill timeout =>
      simp only [call, writeAsyncUnchecked, if_pos (hd data fill)]
      exact .replaced data fill timeout h
    | writeAsync data fill timeout callback context =>
      simp only [call, writeAsync, if_pos h]
      exact .rejected _ _ h
  · have hd (data fill : Buffer8) : ¬(u.storeData codec data fill).Busy := h
    cases c with
    | readAsyncUnchecked timeout =>
      simp only [call, readAsyncUnchecked, if_neg h]
      exact .accepted (.readAsyncUnchecked timeout) h
    | readAsync timeout callback context =>
      simp only [call, readAsync, if_neg h]
      exact .accepted (.readAsync timeout callback context) h
    | writeAsyncUnchecked data fill timeout =>
      simp only [call, writeAsyncUnchecked, if_neg (hd data fill)]
      exact .accepted (.writeAsyncUnchecked data fill timeout) h
    | writeAsync data fill timeout callback context =>
      simp only [call, writeAsync, if_neg h]
      exact .accepted (.writeAsync data fill timeout callback context) h

theorem call_idle (codec : PositionCodec) (c : UnitCall Fn Ctx) {u : StorageUnit Fn Ctx}
    (h : ¬u.Busy) : u.call codec c = .ok (u.accept codec c) := by
  have hc := call_step codec c u
  generalize u.call codec c = result at hc
  cases hc with
  | accepted => rfl
  | ignored _ hb => exact absurd hb h
  | replaced _ _ _ hb => exact absurd hb h
  | rejected _ _ hb => exact absurd hb h

theorem call_replaced (codec : PositionCodec) (data fill : Buffer8) (timeout : Int)
    {u : StorageUnit Fn Ctx} (h : u.Busy) :
    u.call codec (.writeAsyncUnchecked data fill timeout) = .ok (u.storeData codec data fill) := by
  have h' : (u.storeData codec data fill).Busy := h
  simp only [call, writeAsyncUnchecked, if_pos h']

theorem visitSuccess_done {u : StorageUnit Fn Ctx}
    (hs : u.Masked ∨ u.operation.state = .success) :
    u.visitSuccess =
      (⟨.none,.success⟩,{ u with operation := ⟨.none,.success⟩ },u.invoke true) := by
  unfold visitSuccess
  by_cases hm : u.Masked
  · simp only [if_pos hm, if_true]
  · have hs' := hs.resolve_left hm
    simp only [if_neg hm, if_pos hs']
    rw [hs']

theorem visitSuccess_running {u : StorageUnit Fn Ctx} (hm : ¬u.Masked)
    (hs : u.operation.state ≠ .success) : u.visitSuccess = (u.operation,u,[]) := by
  simp only [visitSuccess, if_neg hm, if_neg hs]

theorem visitRest_success (now : Int) (u : StorageUnit Fn Ctx) :
    visitRest now ⟨.none,.success⟩ u =
      if u.timeoutPoint ≤ now then ⟨{ u with operation := ⟨.none,.success⟩ },u.invoke false,none⟩
      else ⟨u,[],none⟩ := by
  have hw : State.success ≠ .waiting := by decide
  have hr : ¬(State.success = .reading ∨ State.success = .writingConfirming) := by decide
  have ht : State.success ≠ .writing := by decide
  simp only [visitRest, if_neg hw, if_neg hr, if_neg ht, ge_iff_le]

theorem visit_step (now : Int) (u : StorageUnit Fn Ctx) : VisitStep now u (u.tickVisit now) := by
  by_cases h : u.Busy
  · by_cases hs : u.Masked ∨ u.operation.state = .success
    · simp only [tickVisit, if_neg h, visitSuccess_done hs, visitRest_success]
      by_cases hn : u.timeoutPoint ≤ now
      · rw [if_pos (show timeoutPoint { u with operation := ⟨.none,.success⟩ } ≤ now from hn)]
        exact .completedLate h hs hn
      · rw [if_neg (show ¬timeoutPoint { u with operation := ⟨.none,.success⟩ } ≤ now from hn)]
        simpa only [List.append_nil] using VisitStep.completed h hs (not_le.mp hn)
    · obtain ⟨hm,hs⟩ := not_or.mp hs
      simp only [tickVisit, if_neg h, visitSuccess_running hm hs, List.nil_append]
      by_cases hw : u.operation.state = .waiting
      · simp only [visitRest, if_pos hw]
        exact .started h hm hw
      · by_cases hn : u.timeoutPoint ≤ now
        · simp only [visitRest, if_neg hw, if_pos hn]
          exact .expired h hm hw hs hn
        · have hn' := not_le.mp hn
          simp only [visitRest, if_neg hw, if_neg hn]
          cases hst : u.operation.state with
          | success => exact absurd hst hs
          | waiting => exact absurd hst hw
          | reading => exact .polled h hm (.inl hst) hn'
          | writingConfirming => exact .polled h hm (.inr hst) hn'
          | writing => exact .transmitted h hm hst hn'
  · have h' : u.operation.mode = .none := not_not.mp h
    simp only [tickVisit, if_pos h']
    exact .idle h

theorem readSuccess_step (size : Size) (value : BitVec size.bits) (fill : Buffer8)
    (u : StorageUnit Fn Ctx) :
    ReadSuccessStep size value fill u (u.readSuccess size value fill) := by
  unfold readSuccess
  split_ifs with h hr hc hv
  · exact .ignored (fun hb => absurd h hb)
  · exact .refreshed h hr
  · exact .confirmed h hc hv
  · exact .mismatched h hc hv
  · exact .ignored (fun _ => ⟨hr,hc⟩)

theorem writeSuccess_step (u : StorageUnit Fn Ctx) : WriteSuccessStep u u.writeSuccess := by
  unfold writeSuccess
  split_ifs with h hw
  · exact .ignored (fun hb => absurd h hb)
  · exact .acknowledged h hw
  · exact .ignored (fun _ => hw)

theorem readSuccess_confirmed {size : Size} {value : BitVec size.bits} (fill : Buffer8)
    {u : StorageUnit Fn Ctx} (ho : u.operation = ⟨.write,.writingConfirming⟩)
    (hv : value = Buffer8.as size.bits u.value) :
    u.readSuccess size value fill = { u with operation := ⟨.write,.success⟩ } := by
  simp [readSuccess, ho, hv]

theorem readSuccess_refreshed {size : Size} (value : BitVec size.bits) (fill : Buffer8)
    {u : StorageUnit Fn Ctx} (ho : u.operation = ⟨.read,.reading⟩) :
    u.readSuccess size value fill =
      { u with
        value := Buffer8.of fill value, version := nextVersion u.version,
        operation := ⟨.read,.success⟩ } := by
  simp [readSuccess, ho]

theorem writeSuccess_acknowledged {u : StorageUnit Fn Ctx}
    (ho : u.operation = ⟨.write,.writing⟩) :
    u.writeSuccess = { u with operation := ⟨.write,.success⟩ } := by
  simp [writeSuccess, ho]

theorem coherent_call {codec : PositionCodec} {c : UnitCall Fn Ctx} {u u' : StorageUnit Fn Ctx}
    (h : u.Coherent) (hc : u.call codec c = .ok u') : u'.Coherent := by
  have hs := call_step codec c u
  rw [hc] at hs
  cases hs with
  | accepted _ hb => cases c <;> exact .inl rfl
  | ignored => exact h
  | replaced => exact h

theorem coherent_visit (now : Int) {u : StorageUnit Fn Ctx} (h : u.Coherent) :
    (u.tickVisit now).unit.Coherent := by
  have hs := visit_step now u
  generalize u.tickVisit now = v at hs
  cases hs with
  | idle => exact h
  | completed => trivial
  | completedLate => trivial
  | started hb hm hw =>
    simp only [Coherent]
    cases hmode : u.operation.mode with
    | none => trivial
    | read => exact .inr (.inl rfl)
    | write => exact .inr (.inl rfl)
  | expired => trivial
  | polled => exact h
  | transmitted hb hm hw =>
    simp only [Coherent, hw] at h ⊢
    cases hmode : u.operation.mode with
    | none => trivial
    | read => simp [hmode] at h
    | write => simp

theorem coherent_success {u u' : StorageUnit Fn Ctx}
    (ho : u'.operation = ⟨u.operation.mode,.success⟩) : u'.Coherent := by
  simp only [Coherent, ho]
  cases u.operation.mode with
  | none => trivial
  | read => simp
  | write => simp

theorem coherent_readSuccess (size : Size) (value : BitVec size.bits) (fill : Buffer8)
    {u : StorageUnit Fn Ctx} (h : u.Coherent) : (u.readSuccess size value fill).Coherent := by
  have hs := readSuccess_step size value fill u
  generalize u.readSuccess size value fill = u' at hs
  cases hs with
  | ignored => exact h
  | refreshed => exact coherent_success (u := u) rfl
  | confirmed => exact coherent_success (u := u) rfl
  | mismatched hb hw =>
    simp only [Coherent, hw] at h ⊢
    cases hmode : u.operation.mode with
    | none => trivial
    | read => simp [hmode] at h
    | write => simp

theorem coherent_writeSuccess {u : StorageUnit Fn Ctx} (h : u.Coherent) :
    u.writeSuccess.Coherent := by
  have hs := writeSuccess_step u
  generalize u.writeSuccess = u' at hs
  cases hs with
  | ignored => exact h
  | acknowledged => exact coherent_success (u := u) rfl

theorem Coherent.read_of_reading {u : StorageUnit Fn Ctx} (h : u.Coherent) (hb : u.Busy)
    (hs : u.operation.state = .reading) : u.operation.mode = .read := by
  cases hm : u.operation.mode with
  | none => exact absurd hm hb
  | read => rfl
  | write => simp [Coherent, hm, hs] at h

theorem Coherent.write_of_writing {u : StorageUnit Fn Ctx} (h : u.Coherent) (hb : u.Busy)
    (hs : u.operation.state = .writing ∨ u.operation.state = .writingConfirming) :
    u.operation.mode = .write := by
  cases hm : u.operation.mode with
  | none => exact absurd hm hb
  | read => rcases hs with hs | hs <;> simp [Coherent, hm, hs] at h
  | write => rfl

theorem visit_value (now : Int) (u : StorageUnit Fn Ctx) :
    (u.tickVisit now).unit.value = u.value := by
  have hs := visit_step now u
  generalize u.tickVisit now = v at hs
  cases hs <;> rfl

theorem visit_mode (now : Int) (u : StorageUnit Fn Ctx) :
    (u.tickVisit now).unit.operation.mode = u.operation.mode ∨
      (u.tickVisit now).unit.operation.mode = .none := by
  have hs := visit_step now u
  generalize u.tickVisit now = v at hs
  cases hs with
  | idle => exact .inl rfl
  | completed => exact .inr rfl
  | completedLate => exact .inr rfl
  | started => exact .inl rfl
  | expired => exact .inr rfl
  | polled => exact .inl rfl
  | transmitted => exact .inl rfl

theorem readSuccess_mode (size : Size) (value : BitVec size.bits) (fill : Buffer8)
    (u : StorageUnit Fn Ctx) :
    (u.readSuccess size value fill).operation.mode = u.operation.mode := by
  have hs := readSuccess_step size value fill u
  generalize u.readSuccess size value fill = u' at hs
  cases hs <;> rfl

theorem readSuccess_value (size : Size) (value : BitVec size.bits) (fill : Buffer8)
    {u : StorageUnit Fn Ctx} (h : u.Coherent) (hm : u.operation.mode ≠ .read) :
    (u.readSuccess size value fill).value = u.value := by
  have hs := readSuccess_step size value fill u
  generalize u.readSuccess size value fill = u' at hs
  cases hs with
  | ignored => rfl
  | refreshed hb hr => exact absurd (h.read_of_reading hb hr) hm
  | confirmed => rfl
  | mismatched => rfl

theorem writeSuccess_mode (u : StorageUnit Fn Ctx) :
    u.writeSuccess.operation.mode = u.operation.mode := by
  have hs := writeSuccess_step u
  generalize u.writeSuccess = u' at hs
  cases hs <;> rfl

theorem writeSuccess_value (u : StorageUnit Fn Ctx) : u.writeSuccess.value = u.value := by
  have hs := writeSuccess_step u
  generalize u.writeSuccess = u' at hs
  cases hs <;> rfl

theorem visit_ends {u : StorageUnit Fn Ctx} (now : Int) (hb : u.Busy)
    (hs : u.operation.state = .success) : (u.tickVisit now).unit.operation.mode = .none := by
  have hv := StorageUnit.visit_step now u
  generalize u.tickVisit now = v at hv
  cases hv with
  | idle h => exact absurd hb h
  | completed => rfl
  | completedLate => rfl
  | started _ _ hw => exact absurd (hs.symm.trans hw) (by decide)
  | expired => rfl
  | polled _ _ hw => rcases hw with hw | hw <;> exact absurd (hs.symm.trans hw) (by decide)
  | transmitted _ _ hw => exact absurd (hs.symm.trans hw) (by decide)

theorem visit_not_success {u : StorageUnit Fn Ctx} (now : Int) {mode : Mode} (hm : mode ≠ .none) :
    (u.tickVisit now).unit.operation ≠ ⟨mode,.success⟩ := by
  have hv := StorageUnit.visit_step now u
  generalize u.tickVisit now = v at hv
  intro ho
  have hmode := congrArg Operation.mode ho
  have hstate := congrArg Operation.state ho
  cases hv with
  | idle h => exact hm (hmode.symm.trans (not_not.mp h))
  | completed => exact hm hmode.symm
  | completedLate => exact hm hmode.symm
  | started =>
    dsimp only at hstate
    split at hstate <;> cases hstate
  | expired => exact hm hmode.symm
  | polled _ _ hw =>
    rcases hw with hw | hw
    · exact State.noConfusion (hstate.symm.trans hw)
    · exact State.noConfusion (hstate.symm.trans hw)
  | transmitted => cases hstate

end StorageUnit

end WujiHand

import WujiHand.Handler.Completion

namespace WujiHand

open Completion

-- A frame is taken apart: every record that the receive path reads is a step of its own.
inductive Occurrence (n : Nat) (Fn Ctx : Type) where
  | call (c : Call n Fn Ctx)
  | visit (id : Fin n) (now : Int)
  | record (r : SdoResult) (fill : Buffer8)
  | commandResult (r : Pdo.CommandResult)
  | disableThreadSafeCheck

def UnitCall.Checked {Fn Ctx : Type} : UnitCall Fn Ctx → Prop
  | readAsyncUnchecked _ => False
  | readAsync _ _ _ => True
  | writeAsyncUnchecked _ _ _ => False
  | writeAsync _ _ _ _ _ => True

namespace Handler

variable {n : Nat} {Fn Ctx : Type} {codec : PositionCodec}

def record (fill : Buffer8) (h : Handler n Fn Ctx) (r : SdoResult) : Handler n Fn Ctx :=
  match h.applyResult fill r with
  | .error _ => h
  | .ok h => h

def occur (codec : PositionCodec) (h : Handler n Fn Ctx) : Occurrence n Fn Ctx → Handler n Fn Ctx
  | .call c => h.step codec (.call c)
  | .visit id now => h.step codec (.visit id now)
  | .record r fill => h.record fill r
  | .commandResult r => if r.readExecuted = 1 then h.withCommandResult r else h
  | .disableThreadSafeCheck => h.step codec .disableThreadSafeCheck

structure LifeCycle (codec : PositionCodec) (h : Handler n Fn Ctx) : Prop where
  coherent : ∀ id, (h.storage id).Coherent
  accepted : ∀ c, h.operationThreadCheck c.caller = true → ¬(h.storage c.id).Busy →
    ((h.occur codec (.call c)).storage c.id).operation = ⟨c.op.mode,.waiting⟩ ∧
      ((h.occur codec (.call c)).storage c.id).callback = c.op.callback ∧
      ((h.occur codec (.call c)).storage c.id).callbackContext =
        c.op.context (h.storage c.id).callbackContext
  held : ∀ os id, Runs.Throughout (occur codec) (fun h' => (h'.storage id).Busy) h os →
    Runs.Throughout (occur codec) (fun h' => SameOperation (h.storage id) (h'.storage id)) h os
  ended : ∀ o id, (h.storage id).Busy → ¬((h.occur codec o).storage id).Busy →
    ∃ now, o = .visit id now
  rejected : ∀ c, (h.storage c.id).Busy → c.op.Checked →
    (∃ error, h.call codec c = .error error) ∧ h.occur codec (.call c) = h
  addressed : ∀ r fill, h.occur codec (.record r fill) = h ∨
    ∃ id u, h.findStorageByIndex r.index r.subIndex = some id ∧
      h.occur codec (.record r fill) = h.setUnit id u
  stored : ∀ r fill id,
    ((h.occur codec (.record r fill)).storage id).value ≠ (h.storage id).value →
      (h.storage id).operation = ⟨.read,.reading⟩
  inert : ∀ r fill id, (h.storage id).operation.mode = .none ∨
    (h.storage id).operation.state = .waiting ∨ (h.storage id).operation.state = .success →
      (h.occur codec (.record r fill)).storage id = h.storage id

inductive RecordStep (h : Handler n Fn Ctx) (fill : Buffer8) : SdoResult → Handler n Fn Ctx → Prop
  | untouched (r : SdoResult) : RecordStep h fill r h
  | readSuccess {size : Size} {index : BitVec 16} {subIndex : BitVec 8} (value : BitVec size.bits)
      {id : Fin n} (hf : h.findStorageByIndex index subIndex = some id) :
      RecordStep h fill (.readSuccess size index subIndex value)
        (h.setUnit id ((h.storage id).readSuccess size value fill))
  | writeSuccess {index : BitVec 16} {subIndex : BitVec 8} {id : Fin n}
      (hf : h.findStorageByIndex index subIndex = some id) :
      RecordStep h fill (.writeSuccess index subIndex) (h.setUnit id (h.storage id).writeSuccess)

theorem record_step (fill : Buffer8) (h : Handler n Fn Ctx) (r : SdoResult) :
    RecordStep h fill r (h.record fill r) := by
  unfold record
  cases hr : h.applyResult fill r with
  | error e => exact .untouched r
  | ok h' =>
    rcases applyResult_ok hr with
      rfl | ⟨size,index,subIndex,value,id,rfl,hf,rfl⟩ | ⟨index,subIndex,id,rfl,hf,rfl⟩
    · exact .untouched r
    · exact .readSuccess value hf
    · exact .writeSuccess hf

inductive UnitOccurrence (codec : PositionCodec) (h : Handler n Fn Ctx) (id : Fin n) :
    Occurrence n Fn Ctx → StorageUnit Fn Ctx → Prop
  | untouched (o : Occurrence n Fn Ctx) : UnitOccurrence codec h id o (h.storage id)
  | called (caller : Nat) (op : UnitCall Fn Ctx) {u : StorageUnit Fn Ctx}
      (hu : (h.storage id).call codec op = .ok u) :
      UnitOccurrence codec h id (.call ⟨caller,id,op⟩) u
  | visited (now : Int) :
      UnitOccurrence codec h id (.visit id now) ((h.storage id).tickVisit now).unit
  | readSuccess {size : Size} {index : BitVec 16} {subIndex : BitVec 8} (value : BitVec size.bits)
      (fill : Buffer8) (hf : h.findStorageByIndex index subIndex = some id) :
      UnitOccurrence codec h id (.record (.readSuccess size index subIndex value) fill)
        ((h.storage id).readSuccess size value fill)
  | writeSuccess {index : BitVec 16} {subIndex : BitVec 8} (fill : Buffer8)
      (hf : h.findStorageByIndex index subIndex = some id) :
      UnitOccurrence codec h id (.record (.writeSuccess index subIndex) fill)
        (h.storage id).writeSuccess

theorem unit_occurrence (codec : PositionCodec) (h : Handler n Fn Ctx) (o : Occurrence n Fn Ctx)
    (id : Fin n) : UnitOccurrence codec h id o ((h.occur codec o).storage id) := by
  cases o with
  | call c =>
    obtain ⟨caller,id',op⟩ := c
    simp only [occur, step]
    cases hc : h.call codec ⟨caller,id',op⟩ with
    | error e => exact .untouched _
    | ok h' =>
      obtain ⟨_,u,hu,rfl⟩ := call_ok hc
      by_cases he : id = id'
      · subst he
        rw [setUnit_storage_self]
        exact .called caller op hu
      · rw [setUnit_storage_of_ne h u he]
        exact .untouched _
  | visit id' now =>
    simp only [occur, step, afterVisit]
    by_cases he : id = id'
    · subst he
      rw [setUnit_storage_self]
      exact .visited now
    · rw [setUnit_storage_of_ne h _ he]
      exact .untouched _
  | record r fill =>
    simp only [occur]
    have hs := h.record_step fill r
    generalize h.record fill r = h' at hs
    cases hs with
    | untouched => exact .untouched _
    | @readSuccess size index subIndex value id' hf =>
      by_cases he : id = id'
      · subst he
        rw [setUnit_storage_self]
        exact .readSuccess value fill hf
      · rw [setUnit_storage_of_ne h _ he]
        exact .untouched _
    | @writeSuccess index subIndex id' hf =>
      by_cases he : id = id'
      · subst he
        rw [setUnit_storage_self]
        exact .writeSuccess fill hf
      · rw [setUnit_storage_of_ne h _ he]
        exact .untouched _
  | commandResult r =>
    simp only [occur]
    split <;> exact .untouched _
  | disableThreadSafeCheck => exact .untouched _

theorem occur_coherent (codec : PositionCodec) (h : Handler n Fn Ctx) (o : Occurrence n Fn Ctx)
    (hc : ∀ id, (h.storage id).Coherent) (id : Fin n) : ((h.occur codec o).storage id).Coherent := by
  have hs := h.unit_occurrence codec o id
  generalize (h.occur codec o).storage id = u at hs
  cases hs with
  | untouched => exact hc id
  | called caller op hu => exact StorageUnit.coherent_call (hc id) hu
  | visited now => exact StorageUnit.coherent_visit now (hc id)
  | readSuccess value fill => exact StorageUnit.coherent_readSuccess _ value fill (hc id)
  | writeSuccess => exact StorageUnit.coherent_writeSuccess (hc id)

theorem visit_same {u : StorageUnit Fn Ctx} {now : Int} (hb : (u.tickVisit now).unit.Busy) :
    SameOperation u (u.tickVisit now).unit := by
  obtain ⟨hcallback,hcontext,_⟩ := visit_keeps now u
  exact ⟨(StorageUnit.visit_mode now u).resolve_right hb,hcallback,hcontext⟩

theorem occur_busy (codec : PositionCodec) (o : Occurrence n Fn Ctx) {h : Handler n Fn Ctx} {id : Fin n}
    (hb : (h.storage id).Busy) :
    SameOperation (h.storage id) ((h.occur codec o).storage id) ∨
      (¬((h.occur codec o).storage id).Busy ∧ ∃ now, o = .visit id now) := by
  have hs := h.unit_occurrence codec o id
  generalize (h.occur codec o).storage id = u at hs
  cases hs with
  | untouched => exact .inl ⟨rfl,rfl,rfl⟩
  | called caller op hu => exact .inl (call_busy hb hu)
  | visited now =>
    by_cases hb' : ((h.storage id).tickVisit now).unit.Busy
    · exact .inl (visit_same hb')
    · exact .inr ⟨hb',now,rfl⟩
  | readSuccess value fill => exact .inl (sameOperation_readSuccess _ value fill _)
  | writeSuccess => exact .inl (sameOperation_writeSuccess _)

theorem occur_held {h h₀ : Handler n Fn Ctx} {os : List (Occurrence n Fn Ctx)} {id : Fin n}
    (hsame : SameOperation (h₀.storage id) (h.storage id))
    (hb : Runs.Throughout (occur codec) (fun h' => (h'.storage id).Busy) h os) :
    Runs.Throughout (occur codec) (fun h' => SameOperation (h₀.storage id) (h'.storage id)) h os := by
  induction os generalizing h with
  | nil => exact hsame
  | cons o os ih =>
    refine ⟨hsame,ih ?_ hb.2⟩
    rcases occur_busy codec o hb.1 with hstep | ⟨hend,_⟩
    · exact ⟨hstep.1.trans hsame.1,hstep.2.1.trans hsame.2.1,hstep.2.2.trans hsame.2.2⟩
    · exact absurd (Runs.throughout_first hb.2) hend

theorem call_accepted (codec : PositionCodec) {h : Handler n Fn Ctx} {c : Call n Fn Ctx}
    (ht : h.operationThreadCheck c.caller = true) (hb : ¬(h.storage c.id).Busy) :
    h.call codec c = .ok (h.setUnit c.id ((h.storage c.id).accept codec c.op)) := by
  rw [call, if_pos ht, StorageUnit.call_idle codec c.op hb, Except.map]

theorem call_checked (codec : PositionCodec) {h : Handler n Fn Ctx} {c : Call n Fn Ctx}
    (hb : (h.storage c.id).Busy) (hc : c.op.Checked) : ∃ error, h.call codec c = .error error := by
  unfold call
  split
  · have hs := StorageUnit.call_step codec c.op (h.storage c.id)
    generalize (h.storage c.id).call codec c.op = result at hs
    generalize c.op = op at hs hc
    cases hs with
    | accepted _ hidle => exact absurd hb hidle
    | ignored => exact hc.elim
    | replaced => exact hc.elim
    | rejected _ error => exact ⟨error,rfl⟩
  · exact ⟨threadSafetyViolation,rfl⟩

theorem record_addressed (fill : Buffer8) (h : Handler n Fn Ctx) (r : SdoResult) :
    h.record fill r = h ∨
      ∃ id u, h.findStorageByIndex r.index r.subIndex = some id ∧ h.record fill r = h.setUnit id u := by
  have hs := h.record_step fill r
  generalize h.record fill r = h' at hs
  cases hs with
  | untouched => exact .inl rfl
  | @readSuccess size index subIndex value id hf => exact .inr ⟨id,_,hf,rfl⟩
  | @writeSuccess index subIndex id hf => exact .inr ⟨id,_,hf,rfl⟩

theorem record_stored (codec : PositionCodec) {h : Handler n Fn Ctx} (r : SdoResult) (fill : Buffer8)
    {id : Fin n} (hc : (h.storage id).Coherent)
    (hv : ((h.occur codec (.record r fill)).storage id).value ≠ (h.storage id).value) :
    (h.storage id).operation = ⟨.read,.reading⟩ := by
  have hs := h.unit_occurrence codec (.record r fill) id
  generalize (h.occur codec (.record r fill)).storage id = u at hs hv
  cases hs with
  | untouched => exact absurd rfl hv
  | @readSuccess size index subIndex value _ hf =>
    have hs := (h.storage id).readSuccess_step size value fill
    generalize (h.storage id).readSuccess size value fill = u at hs hv
    cases hs with
    | ignored => exact absurd rfl hv
    | refreshed hb hst => exact Operation.eq_mk (hc.read_of_reading hb hst) hst
    | confirmed => exact absurd rfl hv
    | mismatched => exact absurd rfl hv
  | writeSuccess => exact absurd (h.storage id).writeSuccess_value hv

theorem record_inert (codec : PositionCodec) {h : Handler n Fn Ctx} (r : SdoResult) (fill : Buffer8)
    {id : Fin n} (hi : (h.storage id).operation.mode = .none ∨
      (h.storage id).operation.state = .waiting ∨ (h.storage id).operation.state = .success) :
    (h.occur codec (.record r fill)).storage id = h.storage id := by
  have hstate {s : State} (hw : s ≠ .waiting) (hs : s ≠ .success) (hb : (h.storage id).Busy) :
      (h.storage id).operation.state ≠ s := by
    rintro rfl
    rcases hi with hmode | hwait | hsuccess
    · exact hb hmode
    · exact hw hwait
    · exact hs hsuccess
  have hs := h.unit_occurrence codec (.record r fill) id
  generalize (h.occur codec (.record r fill)).storage id = u at hs
  cases hs with
  | untouched => rfl
  | @readSuccess size index subIndex value _ hf =>
    have hs := (h.storage id).readSuccess_step size value fill
    generalize (h.storage id).readSuccess size value fill = u at hs
    cases hs with
    | ignored => rfl
    | refreshed hb hst => exact absurd hst (hstate (by decide) (by decide) hb)
    | confirmed hb hst => exact absurd hst (hstate (by decide) (by decide) hb)
    | mismatched hb hst => exact absurd hst (hstate (by decide) (by decide) hb)
  | writeSuccess =>
    have hs := (h.storage id).writeSuccess_step
    generalize (h.storage id).writeSuccess = u at hs
    cases hs with
    | ignored => rfl
    | acknowledged hb hst => exact absurd hst (hstate (by decide) (by decide) hb)

theorem lifeCycle_of_coherent {h : Handler n Fn Ctx} (hc : ∀ id, (h.storage id).Coherent) :
    h.LifeCycle codec where
  coherent := hc
  accepted := by
    intro c ht hb
    simp only [occur, step, call_accepted codec ht hb, setUnit_storage_self]
    exact ⟨rfl,rfl,rfl⟩
  held := fun os id hb => occur_held ⟨rfl,rfl,rfl⟩ hb
  ended := by
    intro o id hb hend
    rcases occur_busy codec o hb with hsame | ⟨_,hvisit⟩
    · exact absurd (hsame.busy.mpr hb) hend
    · exact hvisit
  rejected := by
    intro c hb hchecked
    obtain ⟨error,herror⟩ := call_checked codec hb hchecked
    refine ⟨⟨error,herror⟩,?_⟩
    simp only [occur, step, herror]
  addressed := fun r fill => h.record_addressed fill r
  stored := fun r fill id hv => record_stored codec r fill (hc id) hv
  inert := fun r fill id hi => record_inert codec r fill hi

theorem received_occurs (codec : PositionCodec) (bytes : List Byte) (fill : Nat → Buffer8)
    (h : Handler n Fn Ctx) :
    ∃ os, (h.receiveTransferCompletedCallback bytes fill).1 = Runs.run (occur codec) h os := by
  refine received_preserves (P := fun h' => ∃ os, h' = Runs.run (occur codec) h os) ?_ ?_
    ⟨[],rfl⟩
  · rintro fill h₁ r h₂ ⟨os,rfl⟩ hr
    refine ⟨os ++ [.record r fill],?_⟩
    rw [Runs.run_append, Runs.run_cons, Runs.run_nil, occur, record, hr]
  · rintro h₁ r ⟨os,rfl⟩
    refine ⟨os ++ [.commandResult { r with readExecuted := 1 }],?_⟩
    rw [Runs.run_append, Runs.run_cons, Runs.run_nil, occur, if_pos rfl]
    rfl

theorem received_inert (codec : PositionCodec) {h : Handler n Fn Ctx} {id : Fin n}
    (hi : (h.storage id).operation.mode = .none ∨ (h.storage id).operation.state = .waiting ∨
      (h.storage id).operation.state = .success) (bytes : List Byte) (fill : Nat → Buffer8) :
    (h.receiveTransferCompletedCallback bytes fill).1.storage id = h.storage id := by
  refine received_preserves (P := fun h' => h'.storage id = h.storage id) ?_
    (fun _ _ hsame => hsame) rfl
  intro fill h₁ r h₂ hsame hr
  have hinert := record_inert codec r fill (hsame.symm ▸ hi)
  rw [occur, record, hr] at hinert
  exact hinert.trans hsame

theorem run_occurs (codec : PositionCodec) (h : Handler n Fn Ctx) (es : List (Event n Fn Ctx)) :
    ∃ os, Runs.run (step codec) h es = Runs.run (occur codec) h os := by
  refine Runs.run_invariant (P := fun h' => ∃ os, h' = Runs.run (occur codec) h os) ?_ ⟨[],rfl⟩
  rintro h₁ e ⟨os,rfl⟩
  have hlast (o : Occurrence n Fn Ctx) :
      ∃ os', (Runs.run (occur codec) h os).occur codec o = Runs.run (occur codec) h os' :=
    ⟨os ++ [o],by rw [Runs.run_append, Runs.run_cons, Runs.run_nil]⟩
  cases e with
  | call c => exact hlast (.call c)
  | visit id now => exact hlast (.visit id now)
  | received bytes fill =>
    obtain ⟨os',hos'⟩ := received_occurs codec bytes fill (Runs.run (occur codec) h os)
    exact ⟨os ++ os',by rw [Runs.run_append]; exact hos'⟩
  | disableThreadSafeCheck => exact hlast .disableThreadSafeCheck

theorem operations_live_whole (codec : PositionCodec) (s : FreshHandler n Fn Ctx)
    (os : List (Occurrence n Fn Ctx)) : (Runs.run (occur codec) s.handler os).LifeCycle codec := by
  refine lifeCycle_of_coherent (Runs.run_invariant (P := fun h : Handler n Fn Ctx =>
    ∀ id, (h.storage id).Coherent) (fun h o hc => h.occur_coherent codec o hc) ?_)
  intro id
  simp only [StorageUnit.Coherent, s.idle id]

end Handler

end WujiHand

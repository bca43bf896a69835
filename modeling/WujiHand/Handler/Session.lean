import WujiHand.Handler.System

namespace WujiHand

variable {n : Nat} {Fn Ctx : Type}

def SdoRequest.AnsweredBy (q : SdoRequest) (r : SdoResult) : Prop :=
  r.index = q.index ∧ r.subIndex = q.subIndex ∧
    match q, r with
    | .read _ _, .readSuccess _ _ _ _ => True
    | .read _ _, .readError _ _ _ => True
    | .write _ _ _ _, .writeSuccess _ _ => True
    | .write _ _ _ _, .writeError _ _ _ => True
    | _, _ => False

instance (q : SdoRequest) (r : SdoResult) : Decidable (q.AnsweredBy r) :=
  match q, r with
  | .read _ _, .readSuccess _ _ _ _ => inferInstanceAs (Decidable (_ ∧ _ ∧ True))
  | .read _ _, .readError _ _ _ => inferInstanceAs (Decidable (_ ∧ _ ∧ True))
  | .read _ _, .writeSuccess _ _ => inferInstanceAs (Decidable (_ ∧ _ ∧ False))
  | .read _ _, .writeError _ _ _ => inferInstanceAs (Decidable (_ ∧ _ ∧ False))
  | .write _ _ _ _, .readSuccess _ _ _ _ => inferInstanceAs (Decidable (_ ∧ _ ∧ False))
  | .write _ _ _ _, .readError _ _ _ => inferInstanceAs (Decidable (_ ∧ _ ∧ False))
  | .write _ _ _ _, .writeSuccess _ _ => inferInstanceAs (Decidable (_ ∧ _ ∧ True))
  | .write _ _ _ _, .writeError _ _ _ => inferInstanceAs (Decidable (_ ∧ _ ∧ True))

theorem SdoRequest.read_of_answeredBy {q : SdoRequest} {size : Size} {index : BitVec 16}
    {subIndex : BitVec 8} {value : BitVec size.bits}
    (h : q.AnsweredBy (.readSuccess size index subIndex value)) : q = .read index subIndex := by
  obtain ⟨hi,hs,hk⟩ := h
  cases q with
  | read => rw [show index = _ from hi, show subIndex = _ from hs]; rfl
  | write => cases hk

structure Sent (n : Nat) where
  unit : Fin n
  request : SdoRequest
  time : Nat
deriving DecidableEq

structure Mark where
  acceptedAt : Nat := 0
  storedAt : Nat := 0
  written : Option Buffer8 := none
  source : Option (Nat × SdoResult) := none
deriving DecidableEq

def Mark.called (m : Mark) (time : Nat) (busy : Bool) (encoded : Option Buffer8) : Mark :=
  let m := if busy then m else { m with acceptedAt := time }
  match encoded with
  | none => m
  | some value => { m with storedAt := time, written := some value, source := none }

theorem Mark.called_ignored (m : Mark) (time : Nat) {P : Prop} [Decidable P] (h : P) :
    m.called time P none = m := by
  simp [Mark.called, h]

-- The handler together with its device: what was transmitted, and which of it has been answered.
structure Session (n : Nat) (Fn Ctx : Type) where
  handler : Handler n Fn Ctx
  time : Nat
  sent : List (Sent n)
  answered : List Nat
  mark : Fin n → Mark

inductive Action (n : Nat) (Fn Ctx : Type) where
  | call (c : Call n Fn Ctx)
  | visit (id : Fin n) (now : Int)
  | answer (k : Nat) (r : SdoResult) (fill : Buffer8)
  | commandResult (r : Pdo.CommandResult)
  | disableThreadSafeCheck

namespace Session

def start (s : FreshHandler n Fn Ctx) : Session n Fn Ctx := ⟨s.handler,0,[],[],fun _ => {}⟩

def unit (s : Session n Fn Ctx) (id : Fin n) : StorageUnit Fn Ctx := s.handler.storage id

def Pending (s : Session n Fn Ctx) (k : Nat) (r : SdoResult) : Prop :=
  k ∉ s.answered ∧ ∃ q ∈ s.sent[k]?, q.request.AnsweredBy r

instance (s : Session n Fn Ctx) (k : Nat) (r : SdoResult) : Decidable (s.Pending k r) :=
  inferInstanceAs (Decidable (_ ∧ _))

def noteCall (codec : PositionCodec) (s : Session n Fn Ctx) (c : Call n Fn Ctx)
    (h : Handler n Fn Ctx) : Session n Fn Ctx :=
  let u := s.unit c.id
  { s with
    handler := h,
    mark := Function.update s.mark c.id
      ((s.mark c.id).called s.time u.Busy (c.op.encoded codec u.info)) }

def noteVisit (s : Session n Fn Ctx) (id : Fin n) (now : Int) : Session n Fn Ctx :=
  { s with
    handler := s.handler.afterVisit id now,
    sent := s.sent ++ ((s.handler.visit id now).request.map fun q => ⟨id,q,s.time⟩).toList }

def markAnswer (s : Session n Fn Ctx) (k : Nat) (r : SdoResult) (id : Fin n) : Mark :=
  match r with
  | .readSuccess _ index subIndex _ =>
    if s.handler.findStorageByIndex index subIndex = some id ∧ (s.unit id).Busy ∧
        (s.unit id).operation.state = .reading then { s.mark id with source := some (k,r) }
    else s.mark id
  | _ => s.mark id

def noteAnswer (s : Session n Fn Ctx) (k : Nat) (r : SdoResult) (fill : Buffer8) :
    Session n Fn Ctx :=
  { s with
    handler :=
      match s.handler.applyResult fill r with
      | .error _ => s.handler
      | .ok h => h,
    answered := k :: s.answered, mark := s.markAnswer k r }

def react (codec : PositionCodec) (s : Session n Fn Ctx) : Action n Fn Ctx → Session n Fn Ctx
  | .call c =>
    match s.handler.call codec c with
    | .error _ => s
    | .ok h => s.noteCall codec c h
  | .visit id now => s.noteVisit id now
  | .answer k r fill => if s.Pending k r then s.noteAnswer k r fill else s
  | .commandResult r =>
    if r.readExecuted = 1 then { s with handler := s.handler.withCommandResult r } else s
  | .disableThreadSafeCheck => { s with handler := s.handler.disableThreadSafeCheck }

def step (codec : PositionCodec) (s : Session n Fn Ctx) (a : Action n Fn Ctx) : Session n Fn Ctx :=
  { s.react codec a with time := s.time + 1 }

inductive UnitStep (codec : PositionCodec) (s : Session n Fn Ctx) (id : Fin n) :
    Action n Fn Ctx → StorageUnit Fn Ctx → Mark → Prop
  | untouched (a : Action n Fn Ctx) : UnitStep codec s id a (s.unit id) (s.mark id)
  | called (caller : Nat) (op : UnitCall Fn Ctx) (u : StorageUnit Fn Ctx)
      (ht : s.handler.operationThreadCheck caller = true)
      (hu : (s.unit id).call codec op = .ok u) :
      UnitStep codec s id (.call ⟨caller,id,op⟩) u
        ((s.mark id).called s.time (s.unit id).Busy (op.encoded codec (s.unit id).info))
  | visited (now : Int) :
      UnitStep codec s id (.visit id now) ((s.unit id).tickVisit now).unit (s.mark id)
  | readSuccess (k : Nat) (size : Size) (index : BitVec 16) (subIndex : BitVec 8)
      (value : BitVec size.bits) (fill : Buffer8)
      (hp : s.Pending k (.readSuccess size index subIndex value))
      (hf : s.handler.findStorageByIndex index subIndex = some id) :
      UnitStep codec s id (.answer k (.readSuccess size index subIndex value) fill)
        ((s.unit id).readSuccess size value fill)
        (s.markAnswer k (.readSuccess size index subIndex value) id)
  | writeSuccess (k : Nat) (index : BitVec 16) (subIndex : BitVec 8) (fill : Buffer8)
      (hp : s.Pending k (.writeSuccess index subIndex))
      (hf : s.handler.findStorageByIndex index subIndex = some id) :
      UnitStep codec s id (.answer k (.writeSuccess index subIndex) fill)
        (s.unit id).writeSuccess (s.mark id)

theorem markAnswer_of_ne {s : Session n Fn Ctx} {id : Fin n} (k : Nat) {size : Size}
    {index : BitVec 16} {subIndex : BitVec 8} (value : BitVec size.bits)
    (hf : s.handler.findStorageByIndex index subIndex ≠ some id) :
    s.markAnswer k (.readSuccess size index subIndex value) id = s.mark id := by
  simp only [markAnswer, if_neg (fun h => hf (And.left h))]

theorem markAnswer_written (s : Session n Fn Ctx) (k : Nat) (r : SdoResult) (id : Fin n) :
    (s.markAnswer k r id).written = (s.mark id).written := by
  unfold markAnswer
  split
  · split <;> rfl
  · rfl

theorem markAnswer_acceptedAt (s : Session n Fn Ctx) (k : Nat) (r : SdoResult) (id : Fin n) :
    (s.markAnswer k r id).acceptedAt = (s.mark id).acceptedAt := by
  unfold markAnswer
  split
  · split <;> rfl
  · rfl

theorem markAnswer_storedAt (s : Session n Fn Ctx) (k : Nat) (r : SdoResult) (id : Fin n) :
    (s.markAnswer k r id).storedAt = (s.mark id).storedAt := by
  unfold markAnswer
  split
  · split <;> rfl
  · rfl

theorem noteAnswer_step (codec : PositionCodec) {s : Session n Fn Ctx} {k : Nat} {r : SdoResult}
    (fill : Buffer8) (hp : s.Pending k r) (id : Fin n) :
    UnitStep codec s id (.answer k r fill) ((s.noteAnswer k r fill).unit id)
      ((s.noteAnswer k r fill).mark id) := by
  cases r with
  | readSuccess size index subIndex value =>
    cases hf : s.handler.findStorageByIndex index subIndex with
    | none =>
      have hm : s.markAnswer k (.readSuccess size index subIndex value) id = s.mark id :=
        markAnswer_of_ne k value (by simp [hf])
      simp only [noteAnswer, Handler.applyResult, hf, unit, hm]
      exact .untouched _
    | some id' =>
      by_cases he : id = id'
      · subst he
        simp only [noteAnswer, Handler.applyResult, hf, unit, Handler.setUnit_storage_self]
        exact .readSuccess k size index subIndex value fill hp hf
      · have hm : s.markAnswer k (.readSuccess size index subIndex value) id = s.mark id :=
          markAnswer_of_ne k value (by
            rw [hf]
            exact fun h => he (Option.some.inj h).symm)
        simp only [noteAnswer, Handler.applyResult, hf, unit, hm,
          Handler.setUnit_storage_of_ne _ _ he]
        exact .untouched _
  | readError => exact .untouched _
  | writeSuccess index subIndex =>
    cases hf : s.handler.findStorageByIndex index subIndex with
    | none =>
      simp only [noteAnswer, Handler.applyResult, hf, unit]
      exact .untouched _
    | some id' =>
      by_cases he : id = id'
      · subst he
        simp only [noteAnswer, Handler.applyResult, hf, unit, Handler.setUnit_storage_self]
        exact .writeSuccess k index subIndex fill hp hf
      · simp only [noteAnswer, Handler.applyResult, hf, unit, Handler.setUnit_storage_of_ne _ _ he]
        exact .untouched _
  | writeError => exact .untouched _

theorem step_replaced (codec : PositionCodec) {s : Session n Fn Ctx} {caller : Nat} {id : Fin n}
    (data fill : Buffer8) (timeout : Int)
    (ht : s.handler.operationThreadCheck caller = true) (hb : (s.unit id).Busy) :
    ∃ s', s.step codec (.call ⟨caller,id,.writeAsyncUnchecked data fill timeout⟩) = s' ∧
      s'.unit id = (s.unit id).storeData codec data fill ∧ s'.sent = s.sent ∧
      (s'.mark id).storedAt = s.time ∧ (s'.mark id).source = none := by
  have hu := StorageUnit.call_replaced codec data fill timeout hb
  rw [unit] at hu
  refine ⟨_,rfl,?_⟩
  simp [step, react, Handler.call, ht, hu, Except.map, noteCall, unit, Mark.called,
    UnitCall.encoded]

theorem step_answer (codec : PositionCodec) {s : Session n Fn Ctx} {k : Nat} {r : SdoResult}
    (fill : Buffer8) (hp : s.Pending k r) :
    s.step codec (.answer k r fill) = { s.noteAnswer k r fill with time := s.time + 1 } := by
  simp only [step, react, if_pos hp]

theorem unit_step (codec : PositionCodec) (s : Session n Fn Ctx) (a : Action n Fn Ctx)
    (id : Fin n) : UnitStep codec s id a ((s.step codec a).unit id) ((s.step codec a).mark id) := by
  cases a with
  | call c =>
    cases hc : s.handler.call codec c with
    | error e =>
      simp only [step, react, hc, unit]
      exact .untouched _
    | ok h =>
      obtain ⟨ht,u,hu,rfl⟩ := Handler.call_ok hc
      obtain ⟨caller,id',op⟩ := c
      simp only [step, react, hc, noteCall, unit]
      by_cases he : id = id'
      · subst he
        rw [Handler.setUnit_storage_self, Function.update_self]
        exact .called caller op u ht hu
      · rw [Handler.setUnit_storage_of_ne _ _ he, Function.update_of_ne he]
        exact .untouched _
  | visit id' now =>
    simp only [step, react, noteVisit, unit, Handler.afterVisit]
    by_cases he : id = id'
    · subst he
      rw [Handler.setUnit_storage_self]
      exact .visited now
    · rw [Handler.setUnit_storage_of_ne _ _ he]
      exact .untouched _
  | answer k r fill =>
    simp only [step, react]
    split
    · rename_i hp
      exact noteAnswer_step codec fill hp id
    · exact .untouched _
  | commandResult r =>
    simp only [step, react]
    split
    · exact .untouched _
    · exact .untouched _
  | disableThreadSafeCheck => exact .untouched _

theorem sent_prefix (codec : PositionCodec) (s : Session n Fn Ctx) (a : Action n Fn Ctx) :
    s.sent <+: (s.step codec a).sent := by
  cases a with
  | call c =>
    simp only [step, react]
    split
    · exact List.prefix_rfl
    · exact List.prefix_rfl
  | visit id now => exact List.prefix_append _ _
  | answer k r fill =>
    simp only [step, react]
    split
    · exact List.prefix_rfl
    · exact List.prefix_rfl
  | commandResult r =>
    simp only [step, react]
    split
    · exact List.prefix_rfl
    · exact List.prefix_rfl
  | disableThreadSafeCheck => exact List.prefix_rfl

theorem sent_step (codec : PositionCodec) {s : Session n Fn Ctx} (a : Action n Fn Ctx) {q : Sent n}
    (hq : q ∈ (s.step codec a).sent) : q ∈ s.sent ∨ q.time = s.time := by
  cases a with
  | call c =>
    simp only [step, react] at hq
    split at hq
    · exact .inl hq
    · exact .inl hq
  | visit id now =>
    rcases List.mem_append.mp hq with hold | hnew
    · exact .inl hold
    · obtain ⟨r,_,rfl⟩ := Option.map_eq_some_iff.mp (Option.mem_toList.mp hnew)
      exact .inr rfl
  | answer k r fill =>
    simp only [step, react] at hq
    split at hq
    · exact .inl hq
    · exact .inl hq
  | commandResult r =>
    simp only [step, react] at hq
    split at hq
    · exact .inl hq
    · exact .inl hq
  | disableThreadSafeCheck => exact .inl hq

theorem sent_getElem? (codec : PositionCodec) {s : Session n Fn Ctx} (a : Action n Fn Ctx)
    {k : Nat} {q : Sent n} (h : s.sent[k]? = some q) : (s.step codec a).sent[k]? = some q := by
  obtain ⟨tail,htail⟩ := s.sent_prefix codec a
  obtain ⟨hlt,_⟩ := List.getElem?_eq_some_iff.mp h
  rw [← htail, List.getElem?_append_left hlt]
  exact h

structure Recorded (s : Session n Fn Ctx) : Prop where
  coherent : ∀ id, (s.unit id).Coherent
  written : ∀ id, (s.unit id).operation.mode = .write → (s.mark id).written = some (s.unit id).value
  past : ∀ q ∈ s.sent, q.time < s.time

theorem recorded_start (s : FreshHandler n Fn Ctx) : Recorded (start s) where
  coherent := by
    intro id
    have hi := s.idle id
    simp only [StorageUnit.Coherent, start, unit, hi]
  written := by
    intro id hm
    have hi := s.idle id
    simp only [start, unit, hi] at hm
    cases hm
  past := by
    intro q hq
    cases hq

theorem sent_past (codec : PositionCodec) {s : Session n Fn Ctx} (a : Action n Fn Ctx)
    (h : ∀ q ∈ s.sent, q.time < s.time) : ∀ q ∈ (s.step codec a).sent, q.time < s.time + 1 := by
  intro q hq
  rcases sent_step codec a hq with hold | hnew
  · exact Nat.lt_succ_of_lt (h q hold)
  · rw [hnew]
    exact Nat.lt_succ_self _

theorem recorded_step (codec : PositionCodec) (s : Session n Fn Ctx) (a : Action n Fn Ctx)
    (h : Recorded s) : Recorded (s.step codec a) := by
  refine ⟨?_,?_,sent_past codec a h.past⟩
  · intro id
    have hc := h.coherent id
    have hs := s.unit_step codec a id
    generalize (s.step codec a).unit id = u, (s.step codec a).mark id = m at hs
    cases hs with
    | untouched => exact hc
    | called caller op u ht hu => exact StorageUnit.coherent_call hc hu
    | visited now => exact StorageUnit.coherent_visit now hc
    | readSuccess k size index subIndex value fill =>
      exact StorageUnit.coherent_readSuccess size value fill hc
    | writeSuccess => exact StorageUnit.coherent_writeSuccess hc
  · intro id
    have hc := h.coherent id
    have hw := h.written id
    have hs := s.unit_step codec a id
    generalize (s.step codec a).unit id = u, (s.step codec a).mark id = m at hs ⊢
    cases hs with
    | untouched => exact hw
    | called caller op u ht hu =>
      have hs := StorageUnit.call_step codec op (s.unit id)
      rw [hu] at hs
      cases hs with
      | accepted _ hb =>
        cases op <;> simp_all [StorageUnit.accept, UnitCall.mode, UnitCall.encoded, Mark.called]
      | ignored timeout hb =>
        rw [UnitCall.encoded, Mark.called_ignored _ _ hb]
        exact hw
      | replaced data fill timeout hb => simp [Mark.called, UnitCall.encoded, StorageUnit.storeData]
    | visited now =>
      intro hm
      rw [StorageUnit.visit_value]
      rcases StorageUnit.visit_mode now (s.unit id) with hmode | hmode
      · exact hw (hmode.symm.trans hm)
      · rw [hmode] at hm
        cases hm
    | readSuccess k size index subIndex value fill hp hf =>
      rw [markAnswer_written, StorageUnit.readSuccess_mode]
      intro hm
      have hread : (s.unit id).operation.mode ≠ .read := by
        rw [hm]
        exact Mode.noConfusion
      rw [StorageUnit.readSuccess_value size value fill hc hread]
      exact hw hm
    | writeSuccess =>
      rw [StorageUnit.writeSuccess_mode, StorageUnit.writeSuccess_value]
      exact hw

def answerFrame (r : SdoResult) : List Byte :=
  { description := 0, type := sdoFrame : Header }.encode ++ (r.encode ++ [])

def commandResultFrame (r : Pdo.CommandResult) : List Byte :=
  { description := 0, type := pdoFrame : Header }.encode ++ (r.encode ++ [])

def events (s : Session n Fn Ctx) : Action n Fn Ctx → List (Event n Fn Ctx)
  | .call c => [.call c]
  | .visit id now => [.visit id now]
  | .answer k r fill => if s.Pending k r then [.received (answerFrame r) (fun _ => fill)] else []
  | .commandResult r =>
    if r.readExecuted = 1 then [.received (commandResultFrame r) (fun _ => 0)] else []
  | .disableThreadSafeCheck => [.disableThreadSafeCheck]

theorem receive_answerFrame (fill : Buffer8) (h : Handler n Fn Ctx) (r : SdoResult) :
    (h.receiveTransferCompletedCallback (answerFrame r) (fun _ => fill)).1 =
      match h.applyResult fill r with
      | .error _ => h
      | .ok h => h := by
  have hsdo : (h.receiveTransferCompletedCallback
      ({ description := 0, type := sdoFrame : Header }.encode ++
        ([r].flatMap SdoResult.encode ++ [])) fun _ => fill) =
        Handler.parseOutcome (fun _ => fill) Header.size [r] [] h :=
    Handler.receive_sdo (fun _ => fill) h (Header.encode_length _) rfl (.inl (.inl rfl))
  simp only [List.flatMap_cons, List.flatMap_nil, List.append_nil] at hsdo
  rw [answerFrame, List.append_nil, hsdo, Handler.parseOutcome, Handler.applyResults]
  cases h.applyResult fill r <;> rfl

theorem step_handler (codec : PositionCodec) (s : Session n Fn Ctx) (a : Action n Fn Ctx) :
    (s.step codec a).handler = Runs.run (Handler.step codec) s.handler (s.events a) := by
  cases a with
  | call c =>
    simp only [step, react, events, Runs.run_cons, Runs.run_nil, Handler.step]
    cases s.handler.call codec c <;> rfl
  | visit id now => rfl
  | answer k r fill =>
    simp only [step, react, events]
    split
    · simp only [noteAnswer, Runs.run_cons, Runs.run_nil, Handler.step, receive_answerFrame]
    · rfl
  | commandResult r =>
    simp only [step, react, events]
    split
    · rename_i hexec
      have hpdo := Handler.receive_pdo [] (fun _ => 0) s.handler (Header.encode_length _)
        (show ({ description := 0, type := pdoFrame : Header }.encode).getD Header.typeOffset 0 =
          pdoFrame from rfl) hexec
      simp only [Runs.run_cons, Runs.run_nil, Handler.step, commandResultFrame, hpdo]
    · rfl
  | disableThreadSafeCheck => rfl

theorem run_handler (codec : PositionCodec) (s : Session n Fn Ctx) (as : List (Action n Fn Ctx)) :
    ∃ es, (Runs.run (step codec) s as).handler = Runs.run (Handler.step codec) s.handler es := by
  induction as generalizing s with
  | nil => exact ⟨[],rfl⟩
  | cons a as ih =>
    obtain ⟨es,hes⟩ := ih (s.step codec a)
    refine ⟨s.events a ++ es,?_⟩
    rw [Runs.run_cons, hes, step_handler, Runs.run_append]

end Session

end WujiHand

import WujiHand.Handler.UnitSteps
import WujiHand.Library.Runs

namespace WujiHand

inductive Message where
  | readSuccess (size : Size) (value : BitVec size.bits) (fill : Buffer8)
  | writeSuccess

inductive HandlerPc where
  | idle
  | storeValue (operation : Operation) (value : Buffer8)
  | loadVersion (operation : Operation)
  | storeVersion (operation : Operation) (version : BitVec 32)
  | loadValue (operation : Operation) (size : Size) (value : BitVec size.bits)
  | storeOperation (operation : Operation)

inductive TickPc (Fn Ctx : Type) where
  | idle
  | storeSuccess (now : Int) (operation : Operation) (completion : List (Invocation Fn Ctx))
  | storeStarted (now : Int) (operation : Operation)
  | deadline (now : Int) (operation : Operation)
  | storeExpired (operation : Operation) (completion : List (Invocation Fn Ctx))
  | storeConfirming (operation : Operation)
  | loadValue

inductive CallPc (Fn Ctx : Type) where
  | idle
  | load (c : UnitCall Fn Ctx)
  | storeValue (c : UnitCall Fn Ctx)
  | storeOperation (c : UnitCall Fn Ctx)

-- One unit and its three threads, every atomic load and store of it a step of its own. What the
-- threads cannot see: which operation is running, and which one each thread loaded.
structure Machine (Fn Ctx : Type) where
  unit : StorageUnit Fn Ctx
  handlerPc : HandlerPc := .idle
  tickPc : TickPc Fn Ctx := .idle
  callPc : CallPc Fn Ctx := .idle
  invoked : List (Invocation Fn Ctx) := []
  sent : List SdoRequest := []
  accepted : Nat := 0
  running : Option Nat := none
  handlerLoaded : Option Nat := none
  tickLoaded : Option Nat := none
  endedSinceLoad : Bool := false
  acceptedSinceLoad : Bool := false

inductive MachineEvent (Fn Ctx : Type) where
  | receive (m : Message)
  | handler
  | visit (now : Int)
  | tick
  | call (c : UnitCall Fn Ctx)
  | operate

namespace Machine

variable {Fn Ctx : Type}

def handlerBranch (operation : Operation) : Message → HandlerPc
  | .readSuccess size value fill =>
    if operation.mode = .none then .idle
    else if operation.state = .reading then .storeValue operation (Buffer8.of fill value)
    else if operation.state = .writingConfirming then .loadValue operation size value
    else .idle
  | .writeSuccess =>
    if operation.mode = .none then .idle
    else if operation.state = .writing then .storeOperation { operation with state := .success }
    else .idle

def receive (m : Message) (s : Machine Fn Ctx) : Machine Fn Ctx :=
  match s.handlerPc with
  | .idle =>
    { s with
      handlerPc := handlerBranch s.unit.operation m, handlerLoaded := s.running,
      endedSinceLoad := false }
  | _ => s

def handlerStep (s : Machine Fn Ctx) : Machine Fn Ctx :=
  match s.handlerPc with
  | .idle => s
  | .storeValue operation value =>
    { s with unit := { s.unit with value := value }, handlerPc := .loadVersion operation }
  | .loadVersion operation =>
    { s with handlerPc := .storeVersion operation (StorageUnit.nextVersion s.unit.version) }
  | .storeVersion operation version =>
    { s with
      unit := { s.unit with version := version },
      handlerPc := .storeOperation { operation with state := .success } }
  | .loadValue operation size value =>
    { s with
      handlerPc := .storeOperation
        (if value = Buffer8.as size.bits s.unit.value then { operation with state := .success }
        else { operation with state := .writing }) }
  | .storeOperation operation =>
    { s with unit := { s.unit with operation := operation }, handlerPc := .idle }

def tickBranch (now : Int) (u : StorageUnit Fn Ctx) : TickPc Fn Ctx :=
  if u.operation.mode = .none then .idle
  else
    let operation := if u.Masked then { u.operation with state := .success } else u.operation
    if operation.state = .success then
      .storeSuccess now { operation with mode := .none } (u.invoke true)
    else if operation.state = .waiting then .storeStarted now operation
    else .deadline now operation

def visit (now : Int) (s : Machine Fn Ctx) : Machine Fn Ctx :=
  match s.tickPc with
  | .idle =>
    { s with
      tickPc := tickBranch now s.unit, tickLoaded := s.running, acceptedSinceLoad := false }
  | _ => s

def tickStep (s : Machine Fn Ctx) : Machine Fn Ctx :=
  match s.tickPc with
  | .idle => s
  | .storeSuccess now operation completion =>
    { s with
      unit := { s.unit with operation := operation }, tickPc := .deadline now operation,
      invoked := s.invoked ++ completion, running := none, endedSinceLoad := true }
  | .storeStarted now operation =>
    { s with
      unit := { s.unit with
        timeout := StorageUnit.deadline now s.unit.timeout,
        operation :=
          { operation with state := if operation.mode = .read then .reading else .writing } },
      tickPc := .idle }
  | .deadline now operation =>
    if now ≥ s.unit.timeoutPoint then
      { s with
        tickPc := .storeExpired { operation with mode := .none } (s.unit.invoke false) }
    else if operation.state = .reading ∨ operation.state = .writingConfirming then
      { s with tickPc := .idle, sent := s.sent ++ [s.unit.readRequest] }
    else if operation.state = .writing then { s with tickPc := .storeConfirming operation }
    else { s with tickPc := .idle }
  | .storeExpired operation completion =>
    { s with
      unit := { s.unit with operation := operation }, tickPc := .idle,
      invoked := s.invoked ++ completion, running := none, endedSinceLoad := true }
  | .storeConfirming operation =>
    { s with
      unit := { s.unit with operation := { operation with state := .writingConfirming } },
      tickPc := .loadValue }
  | .loadValue => { s with tickPc := .idle, sent := s.sent ++ [s.unit.writeRequest] }

def storeCall (codec : PositionCodec) (c : UnitCall Fn Ctx) (u : StorageUnit Fn Ctx) :
    StorageUnit Fn Ctx :=
  { u with value := (c.encoded codec u.info).getD u.value }

def startCall (c : UnitCall Fn Ctx) (u : StorageUnit Fn Ctx) : StorageUnit Fn Ctx :=
  { u with
    timeout := c.timeout, callback := c.callback,
    callbackContext := c.context u.callbackContext, operation := ⟨c.mode,.waiting⟩ }

def call (codec : PositionCodec) (c : UnitCall Fn Ctx) (s : Machine Fn Ctx) : Machine Fn Ctx :=
  match s.callPc with
  | .idle =>
    match c with
    | .writeAsyncUnchecked _ _ _ => { s with unit := storeCall codec c s.unit, callPc := .load c }
    | .writeAsync _ _ _ _ _ => if s.unit.Busy then s else { s with callPc := .storeValue c }
    | _ => if s.unit.Busy then s else { s with callPc := .storeOperation c }
  | _ => s

def callStep (codec : PositionCodec) (s : Machine Fn Ctx) : Machine Fn Ctx :=
  match s.callPc with
  | .idle => s
  | .load c => { s with callPc := if s.unit.Busy then .idle else .storeOperation c }
  | .storeValue c => { s with unit := storeCall codec c s.unit, callPc := .storeOperation c }
  | .storeOperation c =>
    { s with
      unit := startCall c s.unit, callPc := .idle, accepted := s.accepted + 1,
      running := some s.accepted, acceptedSinceLoad := true }

def step (codec : PositionCodec) (s : Machine Fn Ctx) : MachineEvent Fn Ctx → Machine Fn Ctx
  | .receive m => s.receive m
  | .handler => s.handlerStep
  | .visit now => s.visit now
  | .tick => s.tickStep
  | .call c => s.call codec c
  | .operate => s.callStep codec

theorem receive_alone_readSuccess (codec : PositionCodec) {s : Machine Fn Ctx}
    (h : s.handlerPc = .idle) (size : Size) (value : BitVec size.bits) (fill : Buffer8) :
    (Runs.run (step codec) s
        [.receive (.readSuccess size value fill),.handler,.handler,.handler,.handler]).unit =
      s.unit.readSuccess size value fill := by
  simp only [Runs.run_cons, Runs.run_nil, step, receive, h, handlerBranch]
  unfold StorageUnit.readSuccess
  split_ifs with hm hr hc hv
  · rfl
  · rfl
  · simp only [handlerStep, if_pos hv]
  · simp only [handlerStep, if_neg hv]
  · rfl

theorem receive_alone_writeSuccess (codec : PositionCodec) {s : Machine Fn Ctx}
    (h : s.handlerPc = .idle) :
    (Runs.run (step codec) s [.receive .writeSuccess,.handler]).unit = s.unit.writeSuccess := by
  simp only [Runs.run_cons, Runs.run_nil, step, receive, h, handlerBranch]
  unfold StorageUnit.writeSuccess
  split_ifs with hm hw
  · rfl
  · rfl
  · rfl

theorem tickBranch_success (now : Int) {u : StorageUnit Fn Ctx} (hb : u.Busy)
    (hs : u.Masked ∨ u.operation.state = .success) :
    tickBranch now u = .storeSuccess now ⟨.none,.success⟩ (u.invoke true) := by
  have hm : u.operation.mode ≠ .none := hb
  by_cases hmask : u.Masked
  · simp only [tickBranch, if_neg hm, if_pos hmask, if_true]
  · have hstate := hs.resolve_left hmask
    simp only [tickBranch, if_neg hm, if_neg hmask, hstate, if_true]

theorem tickBranch_waiting (now : Int) {u : StorageUnit Fn Ctx} (hb : u.Busy) (hm : ¬u.Masked)
    (hs : u.operation.state = .waiting) : tickBranch now u = .storeStarted now u.operation := by
  have hb' : u.operation.mode ≠ .none := hb
  have hs' : u.operation.state ≠ .success := by simp [hs]
  simp only [tickBranch, if_neg hb', if_neg hm, if_neg hs', if_pos hs]

theorem tickBranch_running (now : Int) {u : StorageUnit Fn Ctx} (hb : u.Busy) (hm : ¬u.Masked)
    (hw : u.operation.state ≠ .waiting) (hs : u.operation.state ≠ .success) :
    tickBranch now u = .deadline now u.operation := by
  have hb' : u.operation.mode ≠ .none := hb
  simp only [tickBranch, if_neg hb', if_neg hm, if_neg hs, if_neg hw]

theorem visit_alone (codec : PositionCodec) {s : Machine Fn Ctx} (h : s.tickPc = .idle)
    (now : Int) :
    ∃ s', Runs.run (step codec) s [.visit now,.tick,.tick,.tick] = s' ∧
      s'.unit = (s.unit.tickVisit now).unit ∧
      s'.invoked = s.invoked ++ (s.unit.tickVisit now).invoked ∧
      s'.sent = s.sent ++ (s.unit.tickVisit now).request.toList ∧ s'.tickPc = .idle := by
  refine ⟨_,rfl,?_⟩
  simp only [Runs.run_cons, Runs.run_nil, step, visit, h]
  have hv := StorageUnit.visit_step now s.unit
  generalize s.unit.tickVisit now = v at hv
  cases hv with
  | idle hb =>
    have hm : s.unit.operation.mode = .none := not_not.mp hb
    simp [tickBranch, hm, tickStep]
  | completed hb hs hn =>
    have hn' : ¬s.unit.timeout ≤ now := not_le.mpr hn
    simp [tickBranch_success now hb hs, tickStep, StorageUnit.timeoutPoint, hn']
  | completedLate hb hs hn =>
    have hn' : s.unit.timeout ≤ now := hn
    simp [tickBranch_success now hb hs, tickStep, StorageUnit.timeoutPoint, hn',
      StorageUnit.invoke]
  | started hb hm hs => simp [tickBranch_waiting now hb hm hs, tickStep]
  | expired hb hm hw hs hn =>
    have hn' : s.unit.timeout ≤ now := hn
    simp [tickBranch_running now hb hm hw hs, tickStep, StorageUnit.timeoutPoint, hn']
  | polled hb hm hs hn =>
    have hn' : ¬s.unit.timeout ≤ now := not_le.mpr hn
    have hw : s.unit.operation.state ≠ .waiting := by rcases hs with hs | hs <;> simp [hs]
    have hsucc : s.unit.operation.state ≠ .success := by rcases hs with hs | hs <;> simp [hs]
    simp [tickBranch_running now hb hm hw hsucc, tickStep, StorageUnit.timeoutPoint, hn', hs]
  | transmitted hb hm hs hn =>
    have hw : s.unit.operation.state ≠ .waiting := by simp [hs]
    have hsucc : s.unit.operation.state ≠ .success := by simp [hs]
    have hpoll : ¬(s.unit.operation.state = .reading ∨
        s.unit.operation.state = .writingConfirming) := by simp [hs]
    simp only [tickBranch_running now hb hm hw hsucc, tickStep, ge_iff_le, if_neg (not_le.mpr hn),
      if_neg hpoll, if_pos hs]
    exact ⟨trivial,(List.append_nil _).symm,rfl,trivial⟩

theorem call_alone (codec : PositionCodec) {s : Machine Fn Ctx} (h : s.callPc = .idle)
    (c : UnitCall Fn Ctx) :
    (Runs.run (step codec) s [.call c,.operate,.operate]).unit =
      match s.unit.call codec c with
      | .error _ => s.unit
      | .ok u => u := by
  simp only [Runs.run_cons, Runs.run_nil, step, call, h]
  by_cases hb : s.unit.operation.mode = .none
  · rw [StorageUnit.call_idle codec c (fun hbusy => hbusy hb)]
    cases c with
    | readAsyncUnchecked => simp [hb, callStep, startCall, StorageUnit.accept, UnitCall.encoded]
    | readAsync => simp [hb, callStep, startCall, StorageUnit.accept, UnitCall.encoded]
    | writeAsyncUnchecked =>
      simp [hb, callStep, startCall, storeCall, StorageUnit.accept, UnitCall.encoded]
    | writeAsync =>
      simp [hb, callStep, startCall, storeCall, StorageUnit.accept, UnitCall.encoded]
  · cases c with
    | readAsyncUnchecked =>
      simp [hb, callStep, h, StorageUnit.call, StorageUnit.readAsyncUnchecked]
    | readAsync => simp [hb, callStep, h, StorageUnit.call, StorageUnit.readAsync]
    | writeAsyncUnchecked data fill timeout =>
      simp [hb, callStep, storeCall, UnitCall.encoded, StorageUnit.storeData,
        StorageUnit.call_replaced codec data fill timeout (u := s.unit) hb]
    | writeAsync => simp [hb, callStep, h, StorageUnit.call, StorageUnit.writeAsync]

end Machine

end WujiHand

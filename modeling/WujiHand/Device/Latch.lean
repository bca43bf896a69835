import WujiHand.Handler.Completion
import WujiHand.Library.Tally

namespace WujiHand

structure Latch where
  waitingCount : Int := 0
  errorCount : Int := 0
deriving DecidableEq, Repr

def waitOutcome (errorCount : Int) : Except String Unit :=
  if errorCount = 0 then .ok ()
  else if errorCount = 1 then .error "Operation timed out while waiting for completion"
  else .error (toString errorCount ++ " operations timed out while waiting for completion")

theorem waitOutcome_ok {errorCount : Int} : waitOutcome errorCount = .ok () ↔ errorCount = 0 := by
  unfold waitOutcome
  split_ifs with hzero hone
  · exact ⟨fun _ => hzero,fun _ => rfl⟩
  · exact ⟨nofun,fun h => absurd h hzero⟩
  · exact ⟨nofun,fun h => absurd h hzero⟩

-- A latch of the user's own, or the one on the stack of a blocking call.
inductive LatchRef where
  | user (k : Nat)
  | blocking (k : Nat)
deriving DecidableEq, Repr

inductive Callback where
  | countDown
  | user (f : Nat)
deriving DecidableEq, Repr

inductive Context where
  | latch (l : LatchRef)
  | value (bits : Buffer8)
deriving DecidableEq, Repr

abbrev LatchUnit : Type := StorageUnit Callback Context

def Invocation.latch? : Invocation Callback Context → Option LatchRef
  | ⟨.countDown,.latch l,_⟩ => some l
  | _ => none

inductive LatchCall where
  | read (timeout : Int)
  | write (data fill : Buffer8) (timeout : Int)

def LatchCall.toUnitCall (l : LatchRef) : LatchCall → UnitCall Callback Context
  | read timeout => .readAsync timeout (some .countDown) (.latch l)
  | write data fill timeout => .writeAsync data fill timeout (some .countDown) (.latch l)

structure BulkCall (n : Nat) where
  caller : Nat
  call : LatchCall
  ids : List (Fin n)

structure PlainCall (n : Nat) where
  call : Call n Callback Context
  plain : call.op.callback ≠ some .countDown

inductive OwnerPc (n : Nat) where
  | idle
  | iterating (l : LatchRef) (b : BulkCall n)
  | raised (l : LatchRef) (b : BulkCall n) (id : Fin n)
  | waiting (l : LatchRef)
  | loaded (l : LatchRef)
  | leaving (l : LatchRef) (errors : Int)

inductive CountDownPc where
  | addError
  | subtract
  | notify
deriving DecidableEq

inductive VisitPc (n : Nat) where
  | done
  | rest (id : Fin n) (now : Int) (operation : Operation)

-- The operation thread, the tick thread and the units; which blocking calls have begun and exited.
structure LatchSession (n : Nat) where
  handler : Handler n Callback Context
  latches : LatchRef → Latch := fun _ => {}
  owner : OwnerPc n := .idle
  counting : Option (CountDownPc × LatchRef) := none
  visit : VisitPc n := .done
  begun : Nat := 0
  exited : List Nat := []

inductive LatchEvent (n : Nat) where
  | blocking (b : BulkCall n)
  | async (k : Nat) (b : BulkCall n)
  | wait (k : Nat)
  | owner
  | plain (c : PlainCall n)
  | disableThreadSafeCheck
  | visit (id : Fin n) (now : Int)
  | tick
  | received (bytes : List Byte) (fill : Nat → Buffer8)

namespace LatchSession

variable {n : Nat}

def addWaiting (l : LatchRef) (d : Int) (s : LatchSession n) : LatchSession n :=
  { s with
    latches := Function.update s.latches l
      { s.latches l with waitingCount := (s.latches l).waitingCount + d } }

def addError (l : LatchRef) (s : LatchSession n) : LatchSession n :=
  { s with
    latches := Function.update s.latches l
      { s.latches l with errorCount := (s.latches l).errorCount + 1 } }

-- A latch on the stack ends with its call, a user's latch stays.
def exit (l : LatchRef) (s : LatchSession n) : LatchSession n :=
  match l with
  | .user _ => { s with owner := .idle }
  | .blocking k => { s with owner := .idle, exited := k :: s.exited }

def begin (s : LatchSession n) : LatchEvent n → LatchSession n
  | .blocking b =>
    { s with owner := .iterating (.blocking s.begun) b, begun := s.begun + 1 }
  | .async k b => { s with owner := .iterating (.user k) b }
  | .wait k => { s with owner := .waiting (.user k) }
  | _ => s

def ownerStep (codec : PositionCodec) (s : LatchSession n) : LatchSession n :=
  match s.owner with
  | .idle => s
  | .iterating l b =>
    match b.ids with
    | [] =>
      match l with
      | .user _ => { s with owner := .idle }
      | .blocking _ => { s with owner := .waiting l }
    | id :: ids => { s.addWaiting l 1 with owner := .raised l { b with ids := ids } id }
  | .raised l b id =>
    match s.handler.call codec ⟨b.caller,id,b.call.toUnitCall l⟩ with
    | .error _ => s.exit l
    | .ok h => { s with handler := h, owner := .iterating l b }
  | .waiting l =>
    if (s.latches l).waitingCount = 0 then { s with owner := .loaded l } else s
  | .loaded l =>
    { s with
      latches := Function.update s.latches l { s.latches l with errorCount := 0 },
      owner := .leaving l (s.latches l).errorCount }
  | .leaving l _ => s.exit l

def startCounting : List (Invocation Callback Context) → Option (CountDownPc × LatchRef)
  | [] => none
  | i :: _ => i.latch?.map fun l => (if i.success then .subtract else .addError,l)

def visitUnit (id : Fin n) (now : Int) (s : LatchSession n) : LatchSession n :=
  match s.counting,s.visit with
  | none,.done =>
    if (s.handler.storage id).operation.mode = .none then s
    else
      let (operation,u,completed) := (s.handler.storage id).visitSuccess
      { s with
        handler := s.handler.setUnit id u, counting := startCounting completed,
        visit := .rest id now operation }
  | _,_ => s

def tickStep (s : LatchSession n) : LatchSession n :=
  match s.counting with
  | some (.addError,l) => { s.addError l with counting := some (.subtract,l) }
  | some (.subtract,l) =>
    let old := (s.latches l).waitingCount
    { s.addWaiting l (-1) with counting := if old - 1 = 0 then some (.notify,l) else none }
  | some (.notify,_) => { s with counting := none }
  | none =>
    match s.visit with
    | .done => s
    | .rest id now operation =>
      let rest := StorageUnit.visitRest now operation (s.handler.storage id)
      { s with
        handler := s.handler.setUnit id rest.unit, counting := startCounting rest.invoked,
        visit := .done }

def step (codec : PositionCodec) (s : LatchSession n) (e : LatchEvent n) : LatchSession n :=
  match e with
  | .blocking _ | .async _ _ | .wait _ =>
    match s.owner with
    | .idle => s.begin e
    | _ => s
  | .owner => s.ownerStep codec
  | .plain c => { s with handler := s.handler.step codec (.call c.call) }
  | .disableThreadSafeCheck => { s with handler := s.handler.disableThreadSafeCheck }
  | .visit id now => s.visitUnit id now
  | .tick => s.tickStep
  | .received bytes fill => { s with handler := s.handler.step codec (.received bytes fill) }

def start (h : FreshHandler n Callback Context) : LatchSession n := { handler := h.handler }

variable {codec : PositionCodec}

def Drained (codec : PositionCodec) (s : LatchSession n) : Prop :=
  ∃ k, (Runs.run (step codec) s (List.replicate k .tick)).counting = none ∧
    (Runs.run (step codec) s (List.replicate k .tick)).handler = s.handler ∧
    (Runs.run (step codec) s (List.replicate k .tick)).visit = s.visit

theorem Drained.tick {s : LatchSession n} (h : Drained codec s.tickStep)
    (hhandler : s.tickStep.handler = s.handler) (hvisit : s.tickStep.visit = s.visit) :
    Drained codec s := by
  obtain ⟨k,hcounting,hhandler',hvisit'⟩ := h
  exact ⟨k + 1,hcounting,hhandler'.trans hhandler,hvisit'.trans hvisit⟩

theorem drained_none {s : LatchSession n} (h : s.counting = none) : Drained codec s :=
  ⟨0,h,rfl,rfl⟩

theorem drained_notify {s : LatchSession n} {l : LatchRef} (h : s.counting = some (.notify,l)) :
    Drained codec s := by
  have hstep : s.tickStep = { s with counting := none } := by simp only [tickStep, h]
  refine Drained.tick (hstep ▸ drained_none rfl) ?_ ?_
  · rw [hstep]
  · rw [hstep]

theorem drained_subtract {s : LatchSession n} {l : LatchRef} (h : s.counting = some (.subtract,l)) :
    Drained codec s := by
  have hstep : s.tickStep = { s.addWaiting l (-1) with
      counting := if (s.latches l).waitingCount - 1 = 0 then some (.notify,l) else none } := by
    simp only [tickStep, h]
  have hdrained : Drained codec s.tickStep := by
    rw [hstep]
    by_cases hzero : (s.latches l).waitingCount - 1 = 0
    · rw [if_pos hzero]
      exact drained_notify rfl
    · rw [if_neg hzero]
      exact drained_none rfl
  refine hdrained.tick ?_ ?_
  · rw [hstep]
    rfl
  · rw [hstep]
    rfl

theorem drained (codec : PositionCodec) (s : LatchSession n) : Drained codec s := by
  cases h : s.counting with
  | none => exact drained_none h
  | some c =>
    obtain ⟨pc,l⟩ := c
    cases pc with
    | notify => exact drained_notify h
    | subtract => exact drained_subtract h
    | addError =>
      have hstep : s.tickStep = { s.addError l with counting := some (.subtract,l) } := by
        simp only [tickStep, h]
      have hdrained : Drained codec s.tickStep := by
        rw [hstep]
        exact drained_subtract rfl
      refine hdrained.tick ?_ ?_
      · rw [hstep]
        rfl
      · rw [hstep]
        rfl

theorem tickVisit_unit (now : Int) {u : LatchUnit} (h : u.Busy) :
    (u.tickVisit now).unit =
      (StorageUnit.visitRest now u.visitSuccess.1 u.visitSuccess.2.1).unit := by
  simp only [StorageUnit.tickVisit, if_neg h]

theorem visit_alone (codec : PositionCodec) {s : LatchSession n} (hc : s.counting = none)
    (hv : s.visit = .done) (id : Fin n) (now : Int) :
    ∃ k s', Runs.run (step codec) s (.visit id now :: List.replicate k .tick) = s' ∧
      s'.handler = s.handler.afterVisit id now ∧ s'.counting = none ∧ s'.visit = .done := by
  rw [Handler.afterVisit, Handler.visit]
  by_cases hb : (s.handler.storage id).Busy
  · rw [tickVisit_unit now hb]
    obtain ⟨k,hcounting,hhandler,hvisit⟩ := drained codec (s.visitUnit id now)
    have hhandler₁ : (s.visitUnit id now).handler =
        s.handler.setUnit id (s.handler.storage id).visitSuccess.2.1 := by
      simp only [visitUnit, hc, hv, if_neg hb]
    have hvisit₁ : (s.visitUnit id now).visit =
        .rest id now (s.handler.storage id).visitSuccess.1 := by
      simp only [visitUnit, hc, hv, if_neg hb]
    rw [hhandler₁] at hhandler
    rw [hvisit₁] at hvisit
    generalize hmid : Runs.run (step codec) (s.visitUnit id now) (List.replicate k .tick) = mid at *
    obtain ⟨k',hcounting',hhandler',hvisit'⟩ := drained codec mid.tickStep
    refine ⟨k + (1 + k'),Runs.run (step codec) mid.tickStep (List.replicate k' .tick),?_,
      hhandler'.trans ?_,hcounting',hvisit'.trans ?_⟩
    · rw [List.replicate_add, Runs.run_cons, Runs.run_append, List.replicate_add, Runs.run_append]
      exact congrArg (fun m => Runs.run (step codec) (tickStep m) (List.replicate k' .tick)) hmid
    · simp only [tickStep, hcounting, hvisit, hhandler, Handler.setUnit_storage_self,
        Handler.setUnit_setUnit]
    · simp only [tickStep, hcounting, hvisit]
  · have hidle : s.visitUnit id now = s := by
      simp only [visitUnit, hc, hv, if_pos (not_not.mp hb)]
    have hsame : ((s.handler.storage id).tickVisit now).unit = s.handler.storage id := by
      simp only [StorageUnit.tickVisit, if_pos (not_not.mp hb)]
    refine ⟨0,s,hidle,?_,hc,hv⟩
    rw [hsame, Handler.setUnit_self]

end LatchSession

end WujiHand

import Mathlib.Data.List.FinRange
import WujiHand.Driver.Transmit
import WujiHand.Handler.Table

namespace WujiHand

inductive TickAbort where
  | exception (what : String)
  | driver (abort : TxAbort)
deriving DecidableEq, Repr

def noBufferAvailable : String := "No buffer available!"

structure TickPass (n : Nat) (Fn Ctx : Type) where
  handler : Handler n Fn Ctx
  buffer : TransmitBuffer
  invoked : List (Fin n × Invocation Fn Ctx) := []
  buffered : List (Fin n) := []

namespace TickPass

variable {n : Nat} {Fn Ctx : Type}

def fetchSdoBuffer (record : List Byte) (p : TickPass n Fn Ctx) :
    TickPass n Fn Ctx × Option TickAbort :=
  match p.buffer.fetchSdoBuffer record with
  | .error abort => (p,some (.driver abort))
  | .ok (b,false) => ({ p with buffer := b },some (.exception noBufferAvailable))
  | .ok (b,true) => ({ p with buffer := b },none)

def visited (now : Int) (id : Fin n) (p : TickPass n Fn Ctx) : TickPass n Fn Ctx :=
  { p with
    handler := p.handler.afterVisit id now,
    invoked := p.invoked ++ (p.handler.visit id now).invoked.map (id,·) }

-- The unit's state is stored and its callbacks have run before its request is buffered.
def visitUnit (now : Int) (id : Fin n) (p : TickPass n Fn Ctx) :
    TickPass n Fn Ctx × Option TickAbort :=
  match (p.handler.visit id now).request with
  | none => (p.visited now id,none)
  | some request =>
    match (p.visited now id).fetchSdoBuffer request.encode with
    | (p,some abort) => (p,some abort)
    | (p,none) => ({ p with buffered := p.buffered ++ [id] },none)

def visitUnits (now : Int) : List (Fin n) → TickPass n Fn Ctx → TickPass n Fn Ctx × Option TickAbort
  | [], p => (p,none)
  | id :: ids, p =>
    match visitUnit now id p with
    | (p,some abort) => (p,some abort)
    | (p,none) => visitUnits now ids p

def triggerTransmission (p : TickPass n Fn Ctx) : TickPass n Fn Ctx × Option TickAbort :=
  match p.buffer.triggerTransmission true with
  | .error abort => (p,some (.driver abort))
  | .ok b => ({ p with buffer := b },none)

end TickPass

namespace Handler

variable {n : Nat} {Fn Ctx : Type}

def tickPass (now : Int) (h : Handler n Fn Ctx) (b : TransmitBuffer) :
    TickPass n Fn Ctx × Option TickAbort :=
  match TickPass.visitUnits now (List.finRange n) { handler := h, buffer := b } with
  | (p,some abort) => (p,some abort)
  | (p,none) =>
    match p.fetchSdoBuffer [] with
    | (p,some abort) => (p,some abort)
    | (p,none) => p.triggerTransmission

end Handler

end WujiHand

import WujiHand.Protocol.Records

namespace WujiHand

inductive Mode where
  | none
  | read
  | write
deriving DecidableEq, Repr

inductive State where
  | success
  | waiting
  | reading
  | writing
  | writingConfirming
deriving DecidableEq, Repr

structure Operation where
  mode : Mode
  state : State
deriving DecidableEq, Repr

structure StorageUnit (Fn Ctx : Type) where
  info : StorageInfo
  operation : Operation := ⟨.none,.success⟩
  version : BitVec 32 := 0
  value : Buffer8
  timeout : Int
  callback : Option Fn
  callbackContext : Ctx
deriving DecidableEq, Repr

structure Invocation (Fn Ctx : Type) where
  callback : Fn
  context : Ctx
  success : Bool
deriving DecidableEq, Repr

inductive UnitCall (Fn Ctx : Type) where
  | readAsyncUnchecked (timeout : Int)
  | readAsync (timeout : Int) (callback : Option Fn) (context : Ctx)
  | writeAsyncUnchecked (data fill : Buffer8) (timeout : Int)
  | writeAsync (data fill : Buffer8) (timeout : Int) (callback : Option Fn) (context : Ctx)

structure Visit (Fn Ctx : Type) where
  unit : StorageUnit Fn Ctx
  invoked : List (Invocation Fn Ctx)
  request : Option SdoRequest

def timePointMax : Int := 2 ^ 63 - 1

def illegalCheckedRead : String := "Illegal checked read: Data is being operated!"
def illegalCheckedWrite : String := "Illegal checked write: Data is being operated!"

namespace StorageUnit

variable {Fn Ctx : Type}

def blank (info : StorageInfo) (context : Ctx) : StorageUnit Fn Ctx where
  info := info
  value := 0
  timeout := 0
  callback := none
  callbackContext := context

-- The union cell: a relative timeout while WAITING, a time point afterwards.
def timeoutPoint (u : StorageUnit Fn Ctx) : Int := u.timeout

abbrev Masked (u : StorageUnit Fn Ctx) : Prop := u.info.Masked

abbrev Busy (u : StorageUnit Fn Ctx) : Prop := u.operation.mode ≠ .none

def storeData (codec : PositionCodec) (data fill : Buffer8) (u : StorageUnit Fn Ctx) :
    StorageUnit Fn Ctx :=
  { u with value := encodeData codec u.info data fill }

def loadData (codec : PositionCodec) (fill : Buffer8) (u : StorageUnit Fn Ctx) : Buffer8 :=
  decodeData codec u.info u.value fill

def readAsyncUnchecked (timeout : Int) (u : StorageUnit Fn Ctx) : StorageUnit Fn Ctx :=
  if u.Busy then u
  else { u with timeout := timeout, callback := none, operation := ⟨.read,.waiting⟩ }

def readAsync (timeout : Int) (callback : Option Fn) (context : Ctx) (u : StorageUnit Fn Ctx) :
    Except String (StorageUnit Fn Ctx) :=
  if u.Busy then .error illegalCheckedRead
  else .ok { u with
    timeout := timeout, callback := callback, callbackContext := context,
    operation := ⟨.read,.waiting⟩ }

def writeAsyncUnchecked (codec : PositionCodec) (data fill : Buffer8) (timeout : Int)
    (u : StorageUnit Fn Ctx) : StorageUnit Fn Ctx :=
  let u := u.storeData codec data fill
  if u.Busy then u
  else { u with timeout := timeout, callback := none, operation := ⟨.write,.waiting⟩ }

def writeAsync (codec : PositionCodec) (data fill : Buffer8) (timeout : Int)
    (callback : Option Fn) (context : Ctx) (u : StorageUnit Fn Ctx) :
    Except String (StorageUnit Fn Ctx) :=
  if u.Busy then .error illegalCheckedWrite
  else .ok { u.storeData codec data fill with
    timeout := timeout, callback := callback, callbackContext := context,
    operation := ⟨.write,.waiting⟩ }

def call (codec : PositionCodec) (u : StorageUnit Fn Ctx) :
    UnitCall Fn Ctx → Except String (StorageUnit Fn Ctx)
  | .readAsyncUnchecked timeout => .ok (u.readAsyncUnchecked timeout)
  | .readAsync timeout callback context => u.readAsync timeout callback context
  | .writeAsyncUnchecked data fill timeout => .ok (u.writeAsyncUnchecked codec data fill timeout)
  | .writeAsync data fill timeout callback context =>
      u.writeAsync codec data fill timeout callback context

def nextVersion (version : BitVec 32) : BitVec 32 :=
  if version + 1 = 0 then 1 else version + 1

def readSuccess (size : Size) (value : BitVec size.bits) (fill : Buffer8)
    (u : StorageUnit Fn Ctx) : StorageUnit Fn Ctx :=
  if u.operation.mode = .none then u
  else if u.operation.state = .reading then
    { u with
      value := Buffer8.of fill value, version := nextVersion u.version,
      operation := { u.operation with state := .success } }
  else if u.operation.state = .writingConfirming then
    if value = Buffer8.as size.bits u.value then
      { u with operation := { u.operation with state := .success } }
    else { u with operation := { u.operation with state := .writing } }
  else u

def writeSuccess (u : StorageUnit Fn Ctx) : StorageUnit Fn Ctx :=
  if u.operation.mode = .none then u
  else if u.operation.state = .writing then
    { u with operation := { u.operation with state := .success } }
  else u

def invoke (u : StorageUnit Fn Ctx) (success : Bool) : List (Invocation Fn Ctx) :=
  match u.callback with
  | none => []
  | some callback => [⟨callback,u.callbackContext,success⟩]

def visitSuccess (u : StorageUnit Fn Ctx) :
    Operation × StorageUnit Fn Ctx × List (Invocation Fn Ctx) :=
  let operation := if u.Masked then { u.operation with state := .success } else u.operation
  if operation.state = .success then
    let operation := { operation with mode := .none }
    (operation,{ u with operation := operation },u.invoke true)
  else (operation,u,[])

def deadline (now timeout : Int) : Int :=
  if timeout < 0 ∨ now > timePointMax - timeout then timePointMax else now + timeout

def writeRequest (u : StorageUnit Fn Ctx) : SdoRequest :=
  .write u.info.size u.info.index u.info.subIndex (Buffer8.as u.info.size.bits u.value)

def readRequest (u : StorageUnit Fn Ctx) : SdoRequest := .read u.info.index u.info.subIndex

def visitRest (now : Int) (operation : Operation) (u : StorageUnit Fn Ctx) : Visit Fn Ctx :=
  if operation.state = .waiting then
    let state := if operation.mode = .read then State.reading else State.writing
    ⟨{ u with timeout := deadline now u.timeout, operation := { operation with state := state } },
      [],none⟩
  else if now ≥ u.timeoutPoint then
    ⟨{ u with operation := { operation with mode := .none } },u.invoke false,none⟩
  else if operation.state = .reading ∨ operation.state = .writingConfirming then
    ⟨u,[],some u.readRequest⟩
  else if operation.state = .writing then
    let u := { u with operation := { operation with state := .writingConfirming } }
    ⟨u,[],some u.writeRequest⟩
  else ⟨u,[],none⟩

def tickVisit (now : Int) (u : StorageUnit Fn Ctx) : Visit Fn Ctx :=
  if u.operation.mode = .none then ⟨u,[],none⟩
  else
    let (operation,u,completed) := u.visitSuccess
    let rest := visitRest now operation u
    { rest with invoked := completed ++ rest.invoked }

end StorageUnit

end WujiHand

import WujiHand.Handler.Table

namespace WujiHand

open Bytes

inductive RxError where
  | truncated (description : String) (required : Nat) (remaining : Int)
  | invalidSpecifier (control : Byte) (offsetFromEnd : Int)
  | objectNotFound (index : BitVec 16) (subIndex : BitVec 8)
  | readExecuted (flag : Byte)
deriving DecidableEq, Repr

inductive RxFault where
  | outOfBounds
  | outOfFuel
  | runtime (error : RxError)
deriving DecidableEq, Repr

def readFrameStruct (bytes : List Byte) (pointer size : Nat) (description : String) :
    Except RxFault (List Byte × Nat) :=
  let remaining : Int := bytes.length - pointer
  if remaining < size then .error (.runtime (.truncated description size remaining))
  else
    match slice? bytes pointer size with
    | none => .error .outOfBounds
    | some data => .ok (data,pointer + size)

def recordIndex (data : List Byte) : BitVec 16 := BitVec.ofNat 16 (ofBeBytes ((data.drop 1).take 2))
def recordSubIndex (data : List Byte) : BitVec 8 := data.getD 3 0
def recordValue (size : Size) (data : List Byte) : BitVec size.bits :=
  BitVec.ofNat size.bits (ofLeBytes (data.drop 4))

def commandResultPositions (data : List Byte) : JointTable (BitVec 32) := fun i j =>
  BitVec.ofNat 32 (ofLeBytes ((data.drop (2 + 4 * (4 * i.val + j.val))).take 4))

def readSdoOperationReadFailed (bytes : List Byte) (pointer : Nat) : Except RxFault Nat := do
  let (_,next) ← readFrameStruct bytes pointer 8 "SDO read failure frame"
  return next

def readSdoOperationWriteFailed (bytes : List Byte) (pointer : Nat) : Except RxFault Nat := do
  let (_,next) ← readFrameStruct bytes pointer 8 "SDO write failure frame"
  return next

namespace Handler

variable {n : Nat} {Fn Ctx : Type}

def readSdoOperationReadSuccess (size : Size) (bytes : List Byte) (fill : Nat → Buffer8)
    (pointer : Nat) (h : Handler n Fn Ctx) : Except RxFault (Handler n Fn Ctx × Nat) := do
  let (data,next) ← readFrameStruct bytes pointer (4 + size.bytes) "SDO read success frame"
  match h.findStorageByIndex (recordIndex data) (recordSubIndex data) with
  | none => throw (.runtime (.objectNotFound (recordIndex data) (recordSubIndex data)))
  | some id =>
    let u := (h.storage id).readSuccess size (recordValue size data) (fill pointer)
    return (h.setUnit id u,next)

def readSdoOperationWriteSuccess (bytes : List Byte) (pointer : Nat) (h : Handler n Fn Ctx) :
    Except RxFault (Handler n Fn Ctx × Nat) := do
  let (data,next) ← readFrameStruct bytes pointer 4 "SDO write success frame"
  match h.findStorageByIndex (recordIndex data) (recordSubIndex data) with
  | none => throw (.runtime (.objectNotFound (recordIndex data) (recordSubIndex data)))
  | some id => return (h.setUnit id (h.storage id).writeSuccess,next)

-- One turn of the loop; `none` is the `break` on a zero byte.
def readSdoRecord (bytes : List Byte) (fill : Nat → Buffer8) (pointer : Nat)
    (h : Handler n Fn Ctx) : Except RxFault (Option (Handler n Fn Ctx × Nat)) :=
  match bytes[pointer]? with
  | none => .error .outOfBounds
  | some control =>
    if control = 0x35 then (h.readSdoOperationReadSuccess .one bytes fill pointer).map some
    else if control = 0x37 then (h.readSdoOperationReadSuccess .two bytes fill pointer).map some
    else if control = 0x39 then (h.readSdoOperationReadSuccess .four bytes fill pointer).map some
    else if control = 0x3D then (h.readSdoOperationReadSuccess .eight bytes fill pointer).map some
    else if control = 0x33 then
      (readSdoOperationReadFailed bytes pointer).map fun next => some (h,next)
    else if control = 0x21 then (h.readSdoOperationWriteSuccess bytes pointer).map some
    else if control = 0x23 then
      (readSdoOperationWriteFailed bytes pointer).map fun next => some (h,next)
    else if control = 0x00 then .ok none
    else .error (.runtime (.invalidSpecifier control (pointer - bytes.length)))

def readSdoFrame (bytes : List Byte) (fill : Nat → Buffer8) :
    Nat → Nat → Handler n Fn Ctx → Handler n Fn Ctx × Option RxFault
  | 0, pointer, h => if pointer < bytes.length then (h,some .outOfFuel) else (h,none)
  | fuel + 1, pointer, h =>
    if pointer < bytes.length then
      match h.readSdoRecord bytes fill pointer with
      | .error fault => (h,some fault)
      | .ok none => (h,none)
      | .ok (some (h,next)) => readSdoFrame bytes fill fuel next h
    else (h,none)

def readPdoFrame (bytes : List Byte) (pointer : Nat) (h : Handler n Fn Ctx) :
    Handler n Fn Ctx × Option RxFault :=
  match readFrameStruct bytes pointer Pdo.commandResultSize "PDO CommandResult frame" with
  | .error fault => (h,some fault)
  | .ok (data,_) =>
    let readExecuted := data.getD 1 0
    if readExecuted ≠ 1 then (h,some (.runtime (.readExecuted readExecuted)))
    else
      ({ h with
          pdoReadResult := commandResultPositions data,
          pdoReadResultVersion := h.pdoReadResultVersion + 1 },none)

def receiveTransferCompletedCallback (bytes : List Byte) (fill : Nat → Buffer8)
    (h : Handler n Fn Ctx) : Handler n Fn Ctx × Option RxFault :=
  match readFrameStruct bytes 0 Header.size "Frame header" with
  | .error fault => (h,some fault)
  | .ok (data,pointer) =>
    let type := data.getD Header.typeOffset 0
    if type = sdoFrame then h.readSdoFrame bytes fill bytes.length pointer
    else if type = pdoFrame then h.readPdoFrame bytes pointer
    else (h,none)

end Handler

end WujiHand

import Mathlib.Data.List.FinRange
import WujiHand.Library.Bytes
import WujiHand.Protocol.Storage

namespace WujiHand

open Bytes

structure Header where
  header : BitVec 16 := 0x55aa
  source : Byte := 0x00
  destination : Byte := 0xa0
  description : BitVec 16
  type : Byte := 0
  prefixByte : Byte := 0x00
deriving DecidableEq, Repr

namespace Header

def size : Nat := 8
def descriptionOffset : Nat := 4
def typeOffset : Nat := 6

def encode (h : Header) : List Byte :=
  leBytes 2 h.header.toNat ++ [h.source, h.destination] ++ beBytes 2 h.description.toNat ++
    [h.type, h.prefixByte]

@[simp] theorem encode_length (h : Header) : h.encode.length = size := rfl

end Header

def crcCheckSize : Nat := 2

def sdoFrame : Byte := 0x21
def pdoFrame : Byte := 0x11

def sdoHeader (control : Byte) (index : BitVec 16) (subIndex : Byte) : List Byte :=
  control :: beBytes 2 index.toNat ++ [subIndex]

@[simp] theorem sdoHeader_length (control : Byte) (index : BitVec 16) (subIndex : Byte) :
    (sdoHeader control index subIndex).length = 4 := rfl

def Size.writeControl : Size → Byte
  | .one => 0x20
  | .two => 0x22
  | .four => 0x24
  | .eight => 0x28

inductive SdoRequest where
  | read (index : BitVec 16) (subIndex : BitVec 8)
  | write (size : Size) (index : BitVec 16) (subIndex : BitVec 8) (value : BitVec size.bits)
deriving DecidableEq, Repr

namespace SdoRequest

def index : SdoRequest → BitVec 16
  | read index _ => index
  | write _ index _ _ => index

def subIndex : SdoRequest → BitVec 8
  | read _ subIndex => subIndex
  | write _ _ subIndex _ => subIndex

def encode : SdoRequest → List Byte
  | read index subIndex => sdoHeader 0x30 index subIndex
  | write size index subIndex value =>
      sdoHeader size.writeControl index subIndex ++ leBytes size.bytes value.toNat

def length : SdoRequest → Nat
  | read _ _ => 4
  | write size _ _ _ => 4 + size.bytes

theorem encode_length (r : SdoRequest) : r.encode.length = r.length := by
  cases r <;> simp [encode, length]

theorem length_le (r : SdoRequest) : r.length ≤ 12 := by
  cases r with
  | read => simp [length]
  | write size => cases size <;> simp [length, Size.bytes]

end SdoRequest

def Size.readControl : Size → Byte
  | .one => 0x35
  | .two => 0x37
  | .four => 0x39
  | .eight => 0x3D

inductive SdoResult where
  | readSuccess (size : Size) (index : BitVec 16) (subIndex : BitVec 8) (value : BitVec size.bits)
  | readError (index : BitVec 16) (subIndex : BitVec 8) (errCode : BitVec 32)
  | writeSuccess (index : BitVec 16) (subIndex : BitVec 8)
  | writeError (index : BitVec 16) (subIndex : BitVec 8) (errCode : BitVec 32)
deriving DecidableEq, Repr

namespace SdoResult

def index : SdoResult → BitVec 16
  | readSuccess _ index _ _ => index
  | readError index _ _ => index
  | writeSuccess index _ => index
  | writeError index _ _ => index

def subIndex : SdoResult → BitVec 8
  | readSuccess _ _ subIndex _ => subIndex
  | readError _ subIndex _ => subIndex
  | writeSuccess _ subIndex => subIndex
  | writeError _ subIndex _ => subIndex

def encode : SdoResult → List Byte
  | readSuccess size index subIndex value =>
      sdoHeader size.readControl index subIndex ++ leBytes size.bytes value.toNat
  | readError index subIndex errCode => sdoHeader 0x33 index subIndex ++ leBytes 4 errCode.toNat
  | writeSuccess index subIndex => sdoHeader 0x21 index subIndex
  | writeError index subIndex errCode => sdoHeader 0x23 index subIndex ++ leBytes 4 errCode.toNat

end SdoResult

abbrev JointTable (α : Type) := Fin 5 → Fin 4 → α

def JointTable.toList {α : Type} (t : JointTable α) : List α :=
  (List.finRange 5).flatMap fun i => (List.finRange 4).map fun j => t i j

namespace Pdo

def readRecord : List Byte := [0, 1]

structure Write where
  enableRead : Byte
  targetPositions : JointTable (BitVec 32)
  timestamp : BitVec 32

def Write.encode (w : Write) : List Byte :=
  [1, w.enableRead] ++ w.targetPositions.toList.flatMap (fun p => leBytes 4 p.toNat) ++
    leBytes 4 w.timestamp.toNat

def writeSize : Nat := 86

theorem readRecord_length : readRecord.length ≤ writeSize := by decide

theorem Write.encode_length (w : Write) : w.encode.length = writeSize := rfl

structure CommandResult where
  writeExecuted : Byte
  readExecuted : Byte
  positions : JointTable (BitVec 32)

def commandResultSize : Nat := 82

def CommandResult.encode (r : CommandResult) : List Byte :=
  [r.writeExecuted, r.readExecuted] ++ r.positions.toList.flatMap (fun p => leBytes 4 p.toNat)

end Pdo

end WujiHand

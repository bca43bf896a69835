import Mathlib.Tactic.Common

namespace WujiHand

abbrev Byte := BitVec 8

inductive Size where
  | one
  | two
  | four
  | eight
deriving DecidableEq, Repr

def Size.bytes : Size → Nat
  | .one => 1
  | .two => 2
  | .four => 4
  | .eight => 8

def Size.bits (size : Size) : Nat := 8 * size.bytes

theorem Size.bits_le (size : Size) : size.bits ≤ 64 := by cases size <;> decide

def Size.ofDataSize (dataSize : Nat) : Size :=
  if dataSize = 1 then .one else if dataSize = 2 then .two else if dataSize = 4 then .four else .eight

structure StorageInfo where
  index : BitVec 16
  subIndex : BitVec 8
  size : Size
  policy : BitVec 30
deriving DecidableEq, Repr

namespace StorageInfo

def masked : BitVec 30 := 1 <<< 0
def controlWord : BitVec 30 := 1 <<< 1
def position : BitVec 30 := 1 <<< 2
def positionReversed : BitVec 30 := 1 <<< 3

def make (dataSize : Nat) (index : BitVec 16) (subIndex : BitVec 8) (policy : BitVec 30) :
    StorageInfo :=
  ⟨index,subIndex,Size.ofDataSize dataSize,policy⟩

def has (info : StorageInfo) (flag : BitVec 30) : Bool := info.policy &&& flag != 0

abbrev Masked (info : StorageInfo) : Prop := info.has masked = true

end StorageInfo

abbrev Buffer8 := BitVec 64

namespace Buffer8

-- A value narrower than eight bytes leaves the remaining bytes as they were on the stack: `fill`.
def of {w : Nat} (fill : Buffer8) (value : BitVec w) : Buffer8 :=
  ((fill >>> w) <<< w) ||| value.setWidth 64

def as (w : Nat) (data : Buffer8) : BitVec w := data.setWidth w

theorem as_of {w : Nat} (hw : w ≤ 64) (fill : Buffer8) (value : BitVec w) :
    as w (of fill value) = value := by
  ext i hi
  have hi' : i < 64 := by omega
  simp [as, of, hi, hi']

end Buffer8

-- The two double-precision scalings between an angle and its raw 32-bit value.
structure PositionCodec where
  toRawPosition : Buffer8 → BitVec 32
  extractRawPosition : BitVec 32 → Buffer8

def PositionCodec.raw : PositionCodec := ⟨Buffer8.as 32,fun raw => raw.setWidth 64⟩

def negateDouble (value : Buffer8) : Buffer8 := value ^^^ (1 <<< 63)

def encodeData (codec : PositionCodec) (info : StorageInfo) (data fill : Buffer8) : Buffer8 :=
  if info.has StorageInfo.controlWord then
    Buffer8.of fill (if Buffer8.as 8 data ≠ 0 then 1#16 else 5#16)
  else if info.has StorageInfo.position then
    let value := codec.toRawPosition data
    Buffer8.of fill (if info.has StorageInfo.positionReversed then -value else value)
  else data

def decodeData (codec : PositionCodec) (info : StorageInfo) (data fill : Buffer8) : Buffer8 :=
  if info.has StorageInfo.controlWord then
    Buffer8.of fill (if Buffer8.as 16 data = 1 then 1#8 else 0#8)
  else if info.has StorageInfo.position then
    let value := codec.extractRawPosition (Buffer8.as 32 data)
    if info.has StorageInfo.positionReversed then negateDouble value else value
  else data

end WujiHand

import Mathlib.Logic.Function.Basic
import WujiHand.Handler.UnitSteps

namespace WujiHand

structure Handler (n : Nat) (Fn Ctx : Type) where
  storage : Fin n → StorageUnit Fn Ctx
  indexStorageMap : BitVec 32 → Option (Fin n)
  operationThreadId : Option Nat
  pdoReadResult : JointTable (BitVec 32)
  pdoReadResultVersion : BitVec 64

structure Call (n : Nat) (Fn Ctx : Type) where
  caller : Nat
  id : Fin n
  op : UnitCall Fn Ctx

def indexMapKey (index : BitVec 16) (subIndex : BitVec 8) : BitVec 32 :=
  (0#8 ++ subIndex ++ index : BitVec (8 + 8 + 16))

theorem indexMapKey_index (index : BitVec 16) (subIndex : BitVec 8) :
    (indexMapKey index subIndex).extractLsb' 0 16 = index :=
  BitVec.extractLsb'_append_eq_right

theorem indexMapKey_subIndex (index : BitVec 16) (subIndex : BitVec 8) :
    (indexMapKey index subIndex).extractLsb' 16 8 = subIndex := by
  have h : (0#8 ++ subIndex ++ index).extractLsb' 16 8 = (0#8 ++ subIndex).extractLsb' 0 8 :=
    BitVec.extractLsb'_append_eq_of_le (by decide)
  exact h.trans BitVec.extractLsb'_append_eq_right

theorem indexMapKey_inj {index index' : BitVec 16} {subIndex subIndex' : BitVec 8} :
    indexMapKey index subIndex = indexMapKey index' subIndex' ↔
      index = index' ∧ subIndex = subIndex' := by
  constructor
  · intro h
    have hi := congrArg (BitVec.extractLsb' 0 16) h
    have hs := congrArg (BitVec.extractLsb' 16 8) h
    rw [indexMapKey_index, indexMapKey_index] at hi
    rw [indexMapKey_subIndex, indexMapKey_subIndex] at hs
    exact ⟨hi,hs⟩
  · rintro ⟨rfl,rfl⟩
    rfl

def threadSafetyViolation : String :=
  "Thread safety violation: \n" ++
  "  Operation must be called from the construction thread by default. \n" ++
  "  If you want to perform operations in multiple threads, call:\n" ++
  "      disable_thread_safe_check();\n" ++
  "  And use mutex to ensure that ONLY ONE THREAD is operating at the same time."

namespace Handler

variable {n : Nat} {Fn Ctx : Type}

def setUnit (h : Handler n Fn Ctx) (id : Fin n) (u : StorageUnit Fn Ctx) : Handler n Fn Ctx :=
  { h with storage := Function.update h.storage id u }

def initStorageInfo (h : Handler n Fn Ctx) (id : Fin n) (info : StorageInfo) : Handler n Fn Ctx :=
  { h.setUnit id { h.storage id with info := info } with
    indexStorageMap :=
      Function.update h.indexStorageMap (indexMapKey info.index info.subIndex) (some id) }

def findStorageByIndex (h : Handler n Fn Ctx) (index : BitVec 16) (subIndex : BitVec 8) :
    Option (Fin n) :=
  h.indexStorageMap (indexMapKey index subIndex)

def operationThreadCheck (h : Handler n Fn Ctx) (caller : Nat) : Bool :=
  match h.operationThreadId with
  | none => true
  | some id => id == caller

def disableThreadSafeCheck (h : Handler n Fn Ctx) : Handler n Fn Ctx :=
  { h with operationThreadId := none }

def call (codec : PositionCodec) (h : Handler n Fn Ctx) (c : Call n Fn Ctx) :
    Except String (Handler n Fn Ctx) :=
  if h.operationThreadCheck c.caller then ((h.storage c.id).call codec c.op).map (h.setUnit c.id)
  else .error threadSafetyViolation

def get (codec : PositionCodec) (h : Handler n Fn Ctx) (id : Fin n) (fill : Buffer8) : Buffer8 :=
  (h.storage id).loadData codec fill

def visit (h : Handler n Fn Ctx) (id : Fin n) (now : Int) : Visit Fn Ctx :=
  (h.storage id).tickVisit now

def afterVisit (h : Handler n Fn Ctx) (id : Fin n) (now : Int) : Handler n Fn Ctx :=
  h.setUnit id (h.visit id now).unit

@[simp] theorem setUnit_storage_self (h : Handler n Fn Ctx) (id : Fin n) (u : StorageUnit Fn Ctx) :
    (h.setUnit id u).storage id = u := by simp [setUnit]

theorem setUnit_storage_of_ne (h : Handler n Fn Ctx) {id id' : Fin n} (u : StorageUnit Fn Ctx)
    (hne : id' ≠ id) : (h.setUnit id u).storage id' = h.storage id' := by
  simp [setUnit, hne]

@[simp] theorem setUnit_indexStorageMap (h : Handler n Fn Ctx) (id : Fin n)
    (u : StorageUnit Fn Ctx) : (h.setUnit id u).indexStorageMap = h.indexStorageMap := rfl

@[simp] theorem setUnit_self (h : Handler n Fn Ctx) (id : Fin n) :
    h.setUnit id (h.storage id) = h := by
  cases h
  simp [setUnit]

theorem setUnit_setUnit (h : Handler n Fn Ctx) (id : Fin n) (u u' : StorageUnit Fn Ctx) :
    (h.setUnit id u).setUnit id u' = h.setUnit id u' := by
  simp only [setUnit, Function.update_idem]

end Handler

end WujiHand

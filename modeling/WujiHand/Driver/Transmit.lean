import Mathlib.Logic.Function.Basic
import WujiHand.Driver.Transfer
import WujiHand.Library.Runs
import WujiHand.Utility.RingBuffer

namespace WujiHand

structure Record where
  type : Byte
  bytes : List Byte
deriving DecidableEq, Repr

structure Submission where
  transfer : Transfer
  records : List Record

-- The records of a transfer since its last completion and whether a trigger would follow a fetch
-- are kept beside the state of the buffer itself.
structure TransmitBuffer where
  maxSize : Nat
  transfers : Nat → Transfer
  freeTransfers : List Nat
  inFlight : List Nat := []
  submitted : List Submission := []
  records : Nat → List Record := fun _ => []
  armed : Bool := false

inductive TransmitEvent where
  | fetchSdo (record : List Byte)
  | fetchPdo (record : List Byte)
  | trigger (allowEmpty : Bool)
  | complete (id : Nat)

-- The memory of a new transfer holds whatever was there.
def Memory : Type := { bytes : List Byte // bytes.length = maxTransmitLength }

namespace TransmitBuffer

def prefill (memory : Memory) : Transfer where
  buffer := { description := 0 : Header }.encode ++ memory.val.drop prefillSize
  length := prefillSize

def create (allocTransferCount : Nat) (memory : Nat → Memory) : TransmitBuffer where
  maxSize := RingBuffer.ringMaxSize allocTransferCount
  transfers := fun id => prefill (memory id)
  freeTransfers := List.range allocTransferCount

def setTransfer (b : TransmitBuffer) (id : Nat) (t : Transfer) : TransmitBuffer :=
  { b with transfers := Function.update b.transfers id t }

def triggerTransmissionNocheck (b : TransmitBuffer) : Except TxAbort TransmitBuffer :=
  match b.freeTransfers with
  | [] => .ok b
  | id :: rest =>
    match (b.transfers id).beforeSubmitting with
    | .error abort => .error abort
    | .ok t =>
      .ok { b.setTransfer id t with
        freeTransfers := rest, inFlight := id :: b.inFlight,
        submitted := b.submitted ++ [⟨t,b.records id⟩], armed := false }

def triggerTransmission (allowEmpty : Bool) (b : TransmitBuffer) : Except TxAbort TransmitBuffer :=
  match b.freeTransfers with
  | [] => .ok b
  | id :: _ =>
    if allowEmpty = false ∧ (b.transfers id).length ≤ prefillSize then .ok b
    else b.triggerTransmissionNocheck

def checkTransfer (type : Byte) (size : Nat) (t : Transfer) : Except TxAbort (Option Transfer) :=
  if (maxTransmitLength : Int) - t.length < size + crcCheckSize then .ok none
  else if t.type = 0 then
    match t.setType type with
    | .error abort => .error abort
    | .ok t => .ok (some t)
  else if t.type ≠ type then .ok none
  else .ok (some t)

def tryFetchBuffer (type : Byte) (size : Nat) :
    List Nat → TransmitBuffer → Except TxAbort (TransmitBuffer × Option (Nat × Nat))
  | [], b => .ok (b,none)
  | id :: rest, b =>
    match checkTransfer type size (b.transfers id) with
    | .error abort => .error abort
    | .ok none =>
      match b.triggerTransmissionNocheck with
      | .error abort => .error abort
      | .ok b => tryFetchBuffer type size rest b
    | .ok (some t) =>
      if (maxTransmitLength : Int) - t.length < size then .ok (b.setTransfer id t,none)
      else .ok (b.setTransfer id { t with length := t.length + size },some (id,t.length))

def fetchBuffer (type : Byte) (record : List Byte) (b : TransmitBuffer) :
    Except TxAbort (TransmitBuffer × Bool) :=
  match tryFetchBuffer type record.length b.freeTransfers b with
  | .error abort => .error abort
  | .ok (b,none) => .ok (b,false)
  | .ok (b,some (id,offset)) =>
    match (b.transfers id).write offset record with
    | .error abort => .error abort
    | .ok t =>
      .ok ({ b.setTransfer id t with
        records := Function.update b.records id (b.records id ++ [⟨type,record⟩]),
        armed := true },true)

def fetchSdoBuffer (record : List Byte) : TransmitBuffer → Except TxAbort (TransmitBuffer × Bool) :=
  fetchBuffer sdoFrame record

def fetchPdoBuffer (record : List Byte) : TransmitBuffer → Except TxAbort (TransmitBuffer × Bool) :=
  fetchBuffer pdoFrame record

def transmitCompleteCallback (id : Nat) (b : TransmitBuffer) : Except TxAbort TransmitBuffer :=
  match { b.transfers id with length := prefillSize }.setType 0 with
  | .error abort => .error abort
  | .ok t =>
    if b.freeTransfers.length < b.maxSize then
      .ok { b.setTransfer id t with
        freeTransfers := b.freeTransfers ++ [id], inFlight := b.inFlight.erase id,
        records := Function.update b.records id [] }
    else .error .ringFull

def apply (b : TransmitBuffer) : TransmitEvent → Except TxAbort TransmitBuffer
  | .fetchSdo record => (b.fetchSdoBuffer record).map Prod.fst
  | .fetchPdo record => (b.fetchPdoBuffer record).map Prod.fst
  | .trigger allowEmpty => b.triggerTransmission allowEmpty
  | .complete id => if id ∈ b.inFlight then b.transmitCompleteCallback id else .ok b

def step (s : Except TxAbort TransmitBuffer) (e : TransmitEvent) : Except TxAbort TransmitBuffer :=
  s.bind fun b => b.apply e

section Places

variable {b : TransmitBuffer} {id : Nat} {rest : List Nat}

theorem submitted_perm (hfree : b.freeTransfers = id :: rest) :
    (rest ++ id :: b.inFlight).Perm (b.freeTransfers ++ b.inFlight) := by
  rw [hfree]
  exact List.perm_middle

theorem recycled_perm (hid : id ∈ b.inFlight) :
    (b.freeTransfers ++ [id] ++ b.inFlight.erase id).Perm (b.freeTransfers ++ b.inFlight) := by
  rw [List.append_assoc]
  exact (List.perm_cons_erase hid).symm.append_left _

theorem front_notMem (hnodup : (b.freeTransfers ++ b.inFlight).Nodup)
    (hfree : b.freeTransfers = id :: rest) : id ∉ rest ++ b.inFlight := by
  rw [hfree] at hnodup
  exact (List.nodup_cons.mp hnodup).1

theorem recycled_ne (hnodup : (b.freeTransfers ++ b.inFlight).Nodup) (hid : id ∈ b.inFlight) :
    ∀ j ∈ b.freeTransfers, j ≠ id :=
  fun j hj => (List.nodup_append.mp hnodup).2.2 j hj id hid

theorem recycled_room (hbounded : (b.freeTransfers ++ b.inFlight).length ≤ b.maxSize)
    (hid : id ∈ b.inFlight) : b.freeTransfers.length < b.maxSize := by
  have hpos : 0 < b.inFlight.length := List.length_pos_of_mem hid
  rw [List.length_append] at hbounded
  omega

end Places

end TransmitBuffer

end WujiHand

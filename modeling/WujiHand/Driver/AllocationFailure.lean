import WujiHand.Utility.RingBufferThrows

namespace WujiHand

inductive Allocation where
  | allocated
  | noTransfer
  | noBuffer
deriving DecidableEq

namespace Allocation

def throws : Allocation → Bool
  | .allocated => false
  | .noTransfer | .noBuffer => true

theorem throws_eq_false {a : Allocation} : a.throws = false ↔ a = .allocated := by
  cases a <;> decide

end Allocation

-- The transfers are numbered by the calls of the generator. What a failed construction leaves are
-- those that libusb has handed out: the ring only clears its slots and frees no transfer.
def constructTransmitBuffer (allocTransferCount : BitVec 64) (alloc : Nat → Allocation) :
    Except (List Nat) (RingBuffer Nat) :=
  let pushed := (RingBuffer.create allocTransferCount).tryEmplaceBackMulti id
    (fun i => (alloc i).throws) allocTransferCount
  match pushed.2 with
  | .ok _ => .ok pushed.1
  | .error i => .error ((List.range (i + 1)).filter fun j => alloc j ≠ .noTransfer)

def LosesNothing (allocTransferCount : BitVec 64) (alloc : Nat → Allocation) : Prop :=
  ∀ lost, constructTransmitBuffer allocTransferCount alloc = .error lost → lost = []

theorem lost_nil_iff {alloc : Nat → Allocation} {p : Nat} (hthrows : (alloc p).throws = true)
    (hbefore : ∀ j < p, (alloc j).throws = false) :
    (List.range (p + 1)).filter (fun j => alloc j ≠ .noTransfer) = [] ↔ alloc 0 = .noTransfer := by
  rw [List.filter_eq_nil_iff]
  constructor
  · intro hnone
    simpa using hnone 0 (List.mem_range.mpr (Nat.succ_pos p))
  · intro hfirst j hj
    have hp : p = 0 := by
      by_contra hne
      have hallocated := Allocation.throws_eq_false.mp (hbefore 0 (Nat.pos_of_ne_zero hne))
      rw [hfirst] at hallocated
      cases hallocated
    subst hp
    obtain rfl : j = 0 := Nat.lt_one_iff.mp (List.mem_range.mp hj)
    simpa using hfirst

theorem losesNothing_iff (allocTransferCount : BitVec 64) (alloc : Nat → Allocation) :
    LosesNothing allocTransferCount alloc ↔ alloc 0 = .noTransfer ∨
      ∀ i < min allocTransferCount.toNat
        (RingBuffer.create allocTransferCount : RingBuffer Nat).capacity, alloc i = .allocated := by
  have hempty : (RingBuffer.create allocTransferCount : RingBuffer Nat).Represents [] :=
    RingBuffer.create_represents allocTransferCount
  unfold LosesNothing constructTransmitBuffer
  dsimp only
  constructor
  · intro hnothing
    by_contra hnot
    obtain ⟨hfirst,hsome⟩ := not_or.mp hnot
    obtain ⟨i,hsome⟩ := not_forall.mp hsome
    obtain ⟨hi,hne⟩ := Classical.not_imp.mp hsome
    have hthrows : (alloc i).throws = true :=
      Bool.not_eq_false _ ▸ fun h => hne (Allocation.throws_eq_false.mp h)
    have hthrown : ∃ p, ((RingBuffer.create allocTransferCount).tryEmplaceBackMulti id
        (fun i => (alloc i).throws) allocTransferCount).2 = .error p :=
      RingBuffer.tryEmplaceBackMulti_thrown id hempty hi hthrows
    obtain ⟨p,hp⟩ := hthrown
    obtain ⟨hthrown,hbefore⟩ := RingBuffer.tryEmplaceBackMulti_error hp
    rw [hp] at hnothing
    exact hfirst ((lost_nil_iff hthrown hbefore).mp (hnothing _ rfl))
  · intro hcond lost hlost
    split at hlost
    case h_1 => cases hlost
    case h_2 p hp =>
      cases hlost
      obtain ⟨hthrown,hbefore⟩ := RingBuffer.tryEmplaceBackMulti_error hp
      rcases hcond with hfirst | hall
      · exact (lost_nil_iff hthrown hbefore).mpr hfirst
      · rw [RingBuffer.tryEmplaceBackMulti_complete id hempty
          fun i hi => Allocation.throws_eq_false.mpr (hall i hi)] at hp
        cases hp

theorem exceptions_iff (A : Type) :
    (∀ (size : BitVec 64) (calls : List (ThrowingCall A)),
      Runs.Throughout ThrowingCall.apply RingBuffer.WindowLive (.create size) calls ↔
        Runs.Along ThrowingCall.apply ThrowingCall.FirstOrNone (.create size) calls) ∧
    ∀ (allocTransferCount : BitVec 64) (alloc : Nat → Allocation),
      LosesNothing allocTransferCount alloc ↔ alloc 0 = .noTransfer ∨
        ∀ i < min allocTransferCount.toNat
          (RingBuffer.create allocTransferCount : RingBuffer Nat).capacity, alloc i = .allocated :=
  ⟨ThrowingCall.windowLive_iff,losesNothing_iff⟩

theorem second_call_throws :
    let second := fun i : Nat => i == 1
    let pushed : RingBuffer Nat :=
      ThrowingCall.apply (.create 4) (.pushBackMulti id (fun _ => false) 3)
    (¬(ThrowingCall.apply (.create 4 : RingBuffer Nat) (.pushBackMulti id second 2)).WindowLive ∧
      ¬(ThrowingCall.apply pushed (.popFrontMulti second 3)).WindowLive) ∧
    ¬LosesNothing 16 (fun i => if i = 3 then .noTransfer else .allocated) := by
  refine ⟨by decide,fun hnothing => ?_⟩
  have hlost := hnothing [0,1,2] rfl
  cases hlost

end WujiHand

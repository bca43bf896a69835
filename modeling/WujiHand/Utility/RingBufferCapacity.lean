import Mathlib.Order.Bounds.Basic
import WujiHand.Utility.RingBufferQueue

namespace WujiHand

namespace RingBuffer

variable {A : Type}

theorem isLeast_two_pow_size {m : Nat} (h : 0 < m) :
    IsLeast {p | p.isPowerOfTwo ∧ m ≤ p} (2 ^ (m - 1).size) := by
  refine ⟨⟨⟨_,rfl⟩,?_⟩,?_⟩
  · have hlt : m - 1 < 2 ^ (m - 1).size := Nat.lt_size_self _
    omega
  · rintro p ⟨⟨k,rfl⟩,hm⟩
    have hsize : (m - 1).size ≤ k := Nat.size_le.mpr (by omega)
    exact Nat.pow_le_pow_right (by decide) hsize

theorem create_isLeast {size : BitVec 64} (h : size.toNat ≤ 2 ^ 63) :
    IsLeast {p | p.isPowerOfTwo ∧ max size.toNat 2 ≤ p}
      (create size : RingBuffer A).maxSize.toNat := by
  rw [create_maxSize h]
  exact isLeast_two_pow_size (Nat.lt_of_lt_of_le Nat.two_pos (Nat.le_max_right ..))

theorem create_capacity_pos {size : BitVec 64} (h : size.toNat ≤ 2 ^ 63) :
    0 < (create size : RingBuffer A).capacity := by
  obtain ⟨_,hmax⟩ := (create_isLeast (A := A) h).1
  exact Nat.lt_of_lt_of_le Nat.two_pos ((Nat.le_max_right ..).trans hmax)

theorem Sized.mask_bit {r : RingBuffer A} (h : r.Sized) (hpos : 0 < r.capacity) (i : Nat) :
    r.mask.getLsbD i = true ↔ 2 ^ i < r.maxSize.toNat := by
  rcases h.capacity_cases with hzero | ⟨hmask,k,_,hpow⟩
  · omega
  · have hm : r.mask.toNat = 2 ^ k - 1 := by omega
    have hmax : r.maxSize.toNat = 2 ^ k := hpow
    rw [BitVec.getLsbD, hm, Nat.testBit_two_pow_sub_one, decide_eq_true_eq, hmax,
      Nat.pow_lt_pow_iff_right (by decide)]

theorem Sized.offset_wrapped {r : RingBuffer A} (h : r.Sized) (hpos : 0 < r.capacity) (n : Nat) :
    (BitVec.ofNat 64 n &&& r.mask).toNat = n % r.maxSize.toNat := by
  rw [h.offset hpos, BitVec.toNat_ofNat]
  exact Nat.mod_mod_of_dvd n (h.capacity_dvd hpos)

theorem emplaceBackMulti_fits {r : RingBuffer A} {xs : List A} (h : r.Represents xs)
    (generate : Nat → A) {count : BitVec 64} (hroom : xs.length + count.toNat ≤ r.capacity) :
    (r.emplaceBackMulti generate count).2 = count ∧
      (r.emplaceBackMulti generate count).1.contents =
        xs ++ (List.range count.toNat).map generate := by
  obtain ⟨m,hm,hpushed,hcount⟩ := emplaceBackMulti_represents generate count h
  obtain rfl : m = count.toNat := by omega
  exact ⟨BitVec.eq_of_toNat_eq hcount,(popAll_represents hpushed).2⟩

end RingBuffer

namespace TrackedRing

variable {A : Type}

theorem step_mask (s : TrackedRing A) (call : QueueCall A) :
    (s.step call).ring.mask = s.ring.mask := by
  cases call with
  | pushBackMulti generate count => exact RingBuffer.emplaceBackMulti_mask generate count s.ring
  | popFrontMulti count => exact RingBuffer.popFrontMulti_mask count s.ring

theorem run_mask (s : TrackedRing A) (calls : List (QueueCall A)) :
    (Runs.run step s calls).ring.mask = s.ring.mask := by
  induction calls generalizing s with
  | nil => rfl
  | cons call calls ih => exact (ih (s.step call)).trans (step_mask s call)

theorem run_sound {s : TrackedRing A} (h : s.Sound) (calls : List (QueueCall A)) :
    (Runs.run step s calls).Sound :=
  Runs.run_invariant (P := Sound) (fun _ call h => step_sound h call) h

theorem create_rounds_capacity {size : BitVec 64} (h : size.toNat ≤ 2 ^ 63)
    (calls : List (QueueCall A)) :
    let r : RingBuffer A := .create size
    let s := Runs.run step (create size) calls
    IsLeast {p | p.isPowerOfTwo ∧ max size.toNat 2 ≤ p} r.maxSize.toNat ∧
      (∀ i, r.mask.getLsbD i = true ↔ 2 ^ i < r.maxSize.toNat) ∧
      (∀ x, (x &&& r.mask).toNat = x.toNat % r.maxSize.toNat) ∧
      (∀ n, (BitVec.ofNat 64 n &&& r.mask).toNat = n % r.maxSize.toNat) ∧
      s.ring.mask = r.mask ∧
      ∀ generate count, s.queue.length + count.toNat ≤ size.toNat →
        (s.ring.emplaceBackMulti generate count).2 = count ∧
          (s.ring.emplaceBackMulti generate count).1.contents =
            s.queue ++ (List.range count.toNat).map generate := by
  intro r s
  have hsized : r.Sized := RingBuffer.create_sized size
  have hpos : 0 < r.capacity := RingBuffer.create_capacity_pos h
  have hmask : s.ring.mask = r.mask := run_mask (create size) calls
  have hcapacity : s.ring.capacity = r.capacity :=
    congrArg (fun mask : BitVec 64 => (mask + 1).toNat) hmask
  refine ⟨RingBuffer.create_isLeast h,hsized.mask_bit hpos,hsized.offset hpos,
    hsized.offset_wrapped hpos,hmask,fun generate count hroom => ?_⟩
  have hle : size.toNat ≤ r.capacity := RingBuffer.le_capacity_create h
  have hrepresents := (run_sound (create_sound size) calls).represents
  exact RingBuffer.emplaceBackMulti_fits hrepresents generate (hcapacity ▸ hroom.trans hle)

theorem create_rounds_capacity_five :
    let r : RingBuffer Nat := .create 5
    IsLeast {p | p.isPowerOfTwo ∧ 5 ≤ p} r.maxSize.toNat ∧ r.maxSize.toNat = 8 ∧
      (r.emplaceBackMulti (fun id => id) 5).1.contents = [0,1,2,3,4] :=
  have hsize : (5 : BitVec 64).toNat ≤ 2 ^ 63 := by decide
  ⟨(create_rounds_capacity (A := Nat) hsize []).1,by decide,
    ((create_rounds_capacity hsize []).2.2.2.2.2 (fun id => id) 5 (by decide)).2⟩

end TrackedRing

end WujiHand

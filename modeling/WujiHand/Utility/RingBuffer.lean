import Mathlib.Data.Nat.Size
import WujiHand.Library.Circular

namespace WujiHand

-- A slot holds an element from its construction to its destruction.
structure RingBuffer (A : Type) where
  mask : BitVec 64
  storage : Nat → Option A
  inIndex : BitVec 64 := 0
  outIndex : BitVec 64 := 0

def atMost (count limit : BitVec 64) : BitVec 64 := if count > limit then limit else count

theorem atMost_toNat (count limit : BitVec 64) :
    (atMost count limit).toNat = min count.toNat limit.toNat := by
  unfold atMost
  split
  · rename_i h
    exact (Nat.min_eq_right (Nat.le_of_lt h)).symm
  · rename_i h
    exact (Nat.min_eq_left (Nat.le_of_not_lt h)).symm

namespace RingBuffer

variable {A : Type}

-- The size is a word of 64 bits, or a number of transfers that no word bounds.
section Size

variable {N : Type} [OrOp N] [HShiftRight N Nat N]

def smear (n : N) : N :=
  let n := n ||| n >>> 1
  let n := n ||| n >>> 2
  let n := n ||| n >>> 4
  let n := n ||| n >>> 8
  let n := n ||| n >>> 16
  n ||| n >>> 32

variable [Add N] [Sub N] [OfNat N 1]

def roundUpToNextPowerOf2 (n : N) : N := smear (n - 1) + 1

variable [OfNat N 2] [LE N] [DecidableLE N]

def ringMaxSize (size : N) : N := if size ≤ 2 then 2 else roundUpToNextPowerOf2 size

end Size

def create (size : BitVec 64) : RingBuffer A where
  mask := ringMaxSize size - 1
  storage := fun _ => none

def maxSize (r : RingBuffer A) : BitVec 64 := r.mask + 1

def capacity (r : RingBuffer A) : Nat := r.maxSize.toNat

def slots (r : RingBuffer A) (index count : BitVec 64) : List Nat :=
  let offset := index &&& r.mask
  let slice := atMost count (r.maxSize - offset)
  (List.range slice.toNat).map (fun i => (offset + BitVec.ofNat 64 i).toNat) ++
    List.range (count - slice).toNat

def construct (generate : Nat → A) : Nat → List Nat → (Nat → Option A) → Nat → Option A
  | _, [], storage => storage
  | i, slot :: slots, storage =>
    construct generate (i + 1) slots (Function.update storage slot (some (generate i)))

def process : List Nat → (Nat → Option A) → List A × (Nat → Option A)
  | [], storage => ([],storage)
  | slot :: slots, storage =>
    let rest := process slots (Function.update storage slot none)
    ((storage slot).toList ++ rest.1,rest.2)

def emplaceBackMulti (generate : Nat → A) (count : BitVec 64) (r : RingBuffer A) :
    RingBuffer A × BitVec 64 :=
  let count := atMost count (r.maxSize - (r.inIndex - r.outIndex))
  if count = 0 then (r,0)
  else
    ({ r with
        storage := construct generate 0 (r.slots r.inIndex count) r.storage,
        inIndex := r.inIndex + count },count)

def pushBack (value : A) (r : RingBuffer A) : RingBuffer A × Bool :=
  let pushed := r.emplaceBackMulti (fun _ => value) 1
  (pushed.1,pushed.2 != 0)

def popFrontMulti (count : BitVec 64) (r : RingBuffer A) : RingBuffer A × List A × BitVec 64 :=
  let count := atMost count (r.inIndex - r.outIndex)
  if count = 0 then (r,[],0)
  else
    let processed := process (r.slots r.outIndex count) r.storage
    ({ r with storage := processed.2, outIndex := r.outIndex + count },processed.1,count)

def front (r : RingBuffer A) : Option A :=
  if r.outIndex = r.inIndex then none else r.storage (r.outIndex &&& r.mask).toNat

structure Sized (r : RingBuffer A) : Prop where
  mask : ∃ k ≤ 64, r.mask.toNat + 1 = 2 ^ k

theorem Sized.capacity_cases {r : RingBuffer A} (h : r.Sized) :
    r.capacity = 0 ∨ (r.mask.toNat + 1 = r.capacity ∧ ∃ k < 64, r.capacity = 2 ^ k) := by
  obtain ⟨k,hk,hmask⟩ := h.mask
  rw [capacity, maxSize, BitVec.toNat_add]
  rcases Nat.lt_or_eq_of_le hk with hlt | rfl
  · have hpow : 2 ^ k < 2 ^ 64 := Nat.pow_lt_pow_right (by decide) hlt
    have hone : (1 : BitVec 64).toNat = 1 := rfl
    rw [hone, hmask, Nat.mod_eq_of_lt hpow]
    exact .inr ⟨rfl,k,hlt,rfl⟩
  · left
    have hone : (1 : BitVec 64).toNat = 1 := rfl
    rw [hone, hmask, Nat.mod_self]

theorem Sized.capacity_dvd {r : RingBuffer A} (h : r.Sized) (hpos : 0 < r.capacity) :
    r.capacity ∣ 2 ^ 64 := by
  rcases h.capacity_cases with hzero | ⟨_,k,hk,hpow⟩
  · omega
  · rw [hpow]
    exact Nat.pow_dvd_pow 2 hk.le

theorem Sized.offset {r : RingBuffer A} (h : r.Sized) (hpos : 0 < r.capacity)
    (index : BitVec 64) : (index &&& r.mask).toNat = index.toNat % r.capacity := by
  rcases h.capacity_cases with hzero | ⟨hmask,k,_,hpow⟩
  · omega
  · have hm : r.mask.toNat = 2 ^ k - 1 := by omega
    rw [BitVec.toNat_and, hm, Nat.and_two_pow_sub_one_eq_mod, hpow]

theorem slots_eq {r : RingBuffer A} (h : r.Sized) {count : BitVec 64}
    (hcount : count.toNat ≤ r.capacity) (index : BitVec 64) :
    r.slots index count = (List.range count.toNat).map (Circular.slot r.capacity index.toNat) := by
  rcases Nat.eq_zero_or_pos r.capacity with hzero | hpos
  · obtain rfl : count = 0#64 := BitVec.eq_of_toNat_eq (by simpa using hcount.trans_eq hzero)
    have hslice (limit : BitVec 64) : atMost 0#64 limit = 0#64 := by
      refine BitVec.eq_of_toNat_eq ?_
      rw [atMost_toNat]
      exact Nat.zero_min _
    simp [slots, hslice]
  have hoffset := h.offset hpos index
  have hlt : index.toNat % r.capacity < r.capacity := Nat.mod_lt _ hpos
  have hmax : r.maxSize.toNat = r.capacity := rfl
  have hrest : (r.maxSize - (index &&& r.mask)).toNat =
      r.capacity - index.toNat % r.capacity := by
    rw [BitVec.toNat_sub_of_le (by rw [BitVec.le_def]; omega), hoffset, hmax]
  have hslice : (atMost count (r.maxSize - (index &&& r.mask))).toNat =
      min count.toNat (r.capacity - index.toNat % r.capacity) := by rw [atMost_toNat, hrest]
  have hcap : r.capacity < 2 ^ 64 := r.maxSize.isLt
  rw [← Circular.slots_split hcount, slots,
    BitVec.toNat_sub_of_le (by rw [BitVec.le_def, hslice]; omega), hslice]
  congr 1
  refine List.map_congr_left fun i hi => ?_
  have hi' := List.mem_range.mp hi
  rw [BitVec.toNat_add, hoffset, BitVec.toNat_ofNat, Nat.add_mod_mod]
  exact Nat.mod_eq_of_lt (by omega)

theorem slots_length {r : RingBuffer A} (h : r.Sized) {count : BitVec 64}
    (hcount : count.toNat ≤ r.capacity) (index : BitVec 64) :
    (r.slots index count).length = count.toNat := by
  rw [slots_eq h hcount, List.length_map, List.length_range]

theorem index_add {r : RingBuffer A} (h : r.Sized) {count : BitVec 64}
    (hcount : count.toNat ≤ r.capacity) (index : BitVec 64) :
    (index.toNat + count.toNat) % r.capacity = (index + count).toNat % r.capacity := by
  rcases Nat.eq_zero_or_pos r.capacity with hzero | hpos
  · obtain rfl : count = 0#64 := BitVec.eq_of_toNat_eq (by simpa using hcount.trans_eq hzero)
    rw [BitVec.add_zero]
    rfl
  · rw [BitVec.toNat_add, Nat.mod_mod_of_dvd _ (h.capacity_dvd hpos)]

section Smear

theorem smear_step {x y : BitVec 64} {d : Nat}
    (h : ∀ i, y.getLsbD i = true ↔ ∃ t < d, x.getLsbD (i + t) = true) (i : Nat) :
    (y ||| y >>> d).getLsbD i = true ↔ ∃ t < d + d, x.getLsbD (i + t) = true := by
  simp only [BitVec.getLsbD_or, BitVec.getLsbD_ushiftRight, Bool.or_eq_true, h]
  constructor
  · rintro (⟨t,ht,hx⟩ | ⟨t,ht,hx⟩)
    · exact ⟨t,by omega,hx⟩
    · exact ⟨d + t,by omega,by rwa [Nat.add_left_comm, ← Nat.add_assoc]⟩
  · rintro ⟨t,ht,hx⟩
    by_cases hlt : t < d
    · exact .inl ⟨t,hlt,hx⟩
    · refine .inr ⟨t - d,by omega,?_⟩
      have hsum : d + i + (t - d) = i + t := by omega
      rwa [hsum]

theorem smear_bit (n : BitVec 64) (i : Nat) :
    (smear n).getLsbD i = true ↔ ∃ t < 64, n.getLsbD (i + t) = true := by
  have h : ∀ i, n.getLsbD i = true ↔ ∃ t < 1, n.getLsbD (i + t) = true := by
    intro i
    refine ⟨fun hn => ⟨0,Nat.one_pos,hn⟩,?_⟩
    rintro ⟨t,ht,hn⟩
    obtain rfl := Nat.lt_one_iff.mp ht
    exact hn
  exact smear_step (smear_step (smear_step (smear_step (smear_step (smear_step h))))) i

theorem smear_toNat (n : BitVec 64) : (smear n).toNat + 1 = 2 ^ n.toNat.size := by
  have hbits : (smear n).toNat = 2 ^ n.toNat.size - 1 := by
    refine Nat.eq_of_testBit_eq fun i => ?_
    rw [Nat.testBit_two_pow_sub_one, Bool.eq_iff_iff, decide_eq_true_eq, Nat.lt_size]
    refine (smear_bit n i).trans ⟨?_,fun hle => ?_⟩
    · rintro ⟨t,_,hn⟩
      have hge := Nat.ge_two_pow_of_testBit hn
      exact (Nat.pow_le_pow_right (by decide) (Nat.le_add_right i t)).trans hge
    · obtain ⟨j,hj,hn⟩ := Nat.exists_ge_and_testBit_of_ge_two_pow hle
      have hlt : j < 64 := by
        by_contra hge
        have hpow : n.toNat < 2 ^ j :=
          n.isLt.trans_le (Nat.pow_le_pow_right (by decide) (Nat.le_of_not_lt hge))
        rw [Nat.testBit_lt_two_pow hpow] at hn
        cases hn
      refine ⟨j - i,by omega,?_⟩
      rw [Nat.add_sub_cancel' hj]
      exact hn
  have hpos := Nat.two_pow_pos n.toNat.size
  omega

end Smear

theorem le_ringMaxSize (size : Nat) : size ≤ ringMaxSize size := by
  unfold ringMaxSize roundUpToNextPowerOf2
  split
  · assumption
  · have hle : size - 1 ≤ smear (size - 1) :=
      Nat.left_le_or.trans (Nat.left_le_or.trans (Nat.left_le_or.trans
        (Nat.left_le_or.trans (Nat.left_le_or.trans Nat.left_le_or))))
    omega

theorem pred_toNat {size : BitVec 64} (h : 0 < size.toNat) :
    (size - 1).toNat = size.toNat - 1 := by
  have hone : (1 : BitVec 64).toNat = 1 := rfl
  rw [BitVec.toNat_sub_of_le (by rw [BitVec.le_def, hone]; exact h), hone]

theorem create_mask (size : BitVec 64) :
    (create size : RingBuffer A).mask.toNat + 1 = 2 ^ (max size.toNat 2 - 1).size := by
  unfold create ringMaxSize
  dsimp only
  split
  case isTrue hle =>
    have hle' : size.toNat ≤ 2 := hle
    rw [Nat.max_eq_right hle']
    rfl
  case isFalse hgt =>
    have hgt' : 2 < size.toNat := Nat.lt_of_not_le hgt
    rw [roundUpToNextPowerOf2, BitVec.add_sub_cancel, smear_toNat, pred_toNat (by omega),
      Nat.max_eq_left hgt'.le]

theorem create_sized (size : BitVec 64) : (create size : RingBuffer A).Sized :=
  ⟨_,Nat.size_le.mpr (by omega),create_mask size⟩

theorem create_maxSize {size : BitVec 64} (h : size.toNat ≤ 2 ^ 63) :
    (create size : RingBuffer A).maxSize.toNat = 2 ^ (max size.toNat 2 - 1).size := by
  have hbound : (max size.toNat 2 - 1).size ≤ 63 := Nat.size_le.mpr (by omega)
  have hpow : 2 ^ (max size.toNat 2 - 1).size < 2 ^ 64 :=
    Nat.pow_lt_pow_right (by decide) (Nat.lt_succ_of_le hbound)
  have hone : (1 : BitVec 64).toNat = 1 := rfl
  rw [maxSize, BitVec.toNat_add, hone, create_mask, Nat.mod_eq_of_lt hpow]

theorem le_capacity_create {size : BitVec 64} (h : size.toNat ≤ 2 ^ 63) :
    size.toNat ≤ (create size : RingBuffer A).capacity := by
  have hlt : max size.toNat 2 - 1 < 2 ^ (max size.toNat 2 - 1).size := Nat.lt_size_self _
  rw [capacity, create_maxSize h]
  omega

structure Represents (r : RingBuffer A) (xs : List A) : Prop where
  sized : r.Sized
  holds : Circular.Holds r.capacity r.storage r.outIndex.toNat xs
  level : (r.inIndex - r.outIndex).toNat = xs.length

theorem create_represents (size : BitVec 64) : (create size : RingBuffer A).Represents [] where
  sized := create_sized size
  holds := ⟨Nat.zero_le _,fun _ _ => rfl⟩
  level := by simp [create]

theorem construct_holds {capacity start : Nat} {storage : Nat → Option A} {xs : List A}
    (generate : Nat → A) (h : Circular.Holds capacity storage start xs) {m : Nat} (i : Nat)
    (hroom : xs.length + m ≤ capacity) :
    Circular.Holds capacity
      (construct generate i ((List.range' xs.length m).map (Circular.slot capacity start)) storage)
      start (xs ++ (List.range' i m).map generate) := by
  induction m generalizing i storage xs with
  | zero => simpa [construct] using h
  | succ m ih =>
    have hpush := h.push (by omega) (generate i)
    have hrest := ih hpush (i + 1) (by rw [List.length_append, List.length_singleton]; omega)
    rw [List.length_append, List.length_singleton, List.append_assoc] at hrest
    rw [List.range'_succ, List.map_cons, construct, List.range'_succ, List.map_cons]
    exact hrest

theorem process_holds {capacity start : Nat} {storage : Nat → Option A} {xs ys : List A}
    (h : Circular.Holds capacity storage start (xs ++ ys)) :
    (process ((List.range xs.length).map (Circular.slot capacity start)) storage).1 = xs ∧
      Circular.Holds capacity
        (process ((List.range xs.length).map (Circular.slot capacity start)) storage).2
        (start + xs.length) ys := by
  induction xs generalizing start storage with
  | nil => exact ⟨rfl,h⟩
  | cons x xs ih =>
    obtain ⟨hxs,hys⟩ := ih h.pop
    have hslots : (List.range (x :: xs).length).map (Circular.slot capacity start) =
        Circular.slot capacity start 0 ::
          (List.range xs.length).map (Circular.slot capacity (start + 1)) := by
      rw [List.length_cons, List.range_succ_eq_map, List.map_cons, List.map_map]
      refine congrArg (_ :: ·) (List.map_congr_left fun i _ => ?_)
      rw [Circular.slot_add, Function.comp, Nat.add_comm 1 i]
    rw [hslots, process, h.first]
    refine ⟨congrArg (x :: ·) hxs,?_⟩
    rw [List.length_cons, Nat.add_comm xs.length 1, ← Nat.add_assoc]
    exact hys

variable {r : RingBuffer A} {xs : List A}

theorem Represents.bounded (h : r.Represents xs) :
    (r.inIndex - r.outIndex).toNat ≤ r.capacity := h.level.trans_le h.holds.fits

theorem slot_in (h : r.Sized) (hbounded : (r.inIndex - r.outIndex).toNat ≤ r.capacity) (i : Nat) :
    Circular.slot r.capacity r.inIndex.toNat i =
      Circular.slot r.capacity r.outIndex.toNat ((r.inIndex - r.outIndex).toNat + i) := by
  have hin : r.outIndex + (r.inIndex - r.outIndex) = r.inIndex := by
    rw [BitVec.add_comm, BitVec.sub_add_cancel]
  have hadd := index_add h hbounded r.outIndex
  rw [hin] at hadd
  rw [← Circular.slot_add, Circular.slot_congr hadd]

theorem writeable_toNat (hbounded : (r.inIndex - r.outIndex).toNat ≤ r.capacity) :
    (r.maxSize - (r.inIndex - r.outIndex)).toNat =
      r.capacity - (r.inIndex - r.outIndex).toNat := by
  rw [BitVec.toNat_sub_of_le (BitVec.le_def.mpr hbounded)]
  rfl

theorem Represents.writeable_count (h : r.Represents xs) (count : BitVec 64) :
    (atMost count (r.maxSize - (r.inIndex - r.outIndex))).toNat =
      min count.toNat (r.capacity - xs.length) := by
  rw [atMost_toNat, writeable_toNat h.bounded, h.level]

theorem Represents.readable_count (h : r.Represents xs) (count : BitVec 64) :
    (atMost count (r.inIndex - r.outIndex)).toNat = min count.toNat xs.length := by
  rw [atMost_toNat, h.level]

theorem emplaceBackMulti_represents (generate : Nat → A) (count : BitVec 64)
    (h : r.Represents xs) :
    ∃ m, m = min count.toNat (r.capacity - xs.length) ∧
      (r.emplaceBackMulti generate count).1.Represents (xs ++ (List.range m).map generate) ∧
      (r.emplaceBackMulti generate count).2.toNat = m := by
  have hcount := h.writeable_count count
  refine ⟨_,rfl,?_⟩
  unfold emplaceBackMulti
  dsimp only
  split
  · rename_i hzero
    rw [hzero] at hcount
    rw [← hcount]
    exact ⟨by simpa using h,rfl⟩
  · generalize atMost count (r.maxSize - (r.inIndex - r.outIndex)) = count' at hcount
    have hfits := h.holds.fits
    have hlevel := h.level
    have hcap : r.capacity < 2 ^ 64 := r.maxSize.isLt
    have hroom : xs.length + count'.toNat ≤ r.capacity := by omega
    rw [← hcount]
    refine ⟨⟨⟨h.sized.mask⟩,?_,?_⟩,rfl⟩
    · have hslots : r.slots r.inIndex count' =
          (List.range' xs.length count'.toNat).map
            (Circular.slot r.capacity r.outIndex.toNat) := by
        rw [slots_eq h.sized (by omega), List.range'_eq_map_range, List.map_map]
        refine List.map_congr_left fun i _ => ?_
        rw [slot_in h.sized h.bounded, h.level]
        rfl
      have hholds := construct_holds generate h.holds 0 hroom
      rw [← hslots, ← List.range_eq_range'] at hholds
      exact hholds
    · rw [List.length_append, List.length_map, List.length_range, ← h.level]
      dsimp only
      bv_omega

theorem popFrontMulti_represents (count : BitVec 64) (h : r.Represents xs) :
    (r.popFrontMulti count).1.Represents (xs.drop count.toNat) ∧
      (r.popFrontMulti count).2.1 = xs.take count.toNat := by
  have hcount := h.readable_count count
  have hdrop : xs.drop (min count.toNat xs.length) = xs.drop count.toNat := by
    rcases Nat.le_total count.toNat xs.length with hle | hle
    · rw [Nat.min_eq_left hle]
    · rw [Nat.min_eq_right hle, List.drop_length, List.drop_eq_nil_of_le hle]
  have htake : xs.take (min count.toNat xs.length) = xs.take count.toNat := List.take_eq_take_min.symm
  unfold popFrontMulti
  dsimp only
  split
  · rename_i hzero
    rw [hzero] at hcount
    rw [← hdrop, ← htake, ← hcount]
    exact ⟨h,rfl⟩
  · generalize atMost count (r.inIndex - r.outIndex) = count' at hcount
    have hfits := h.holds.fits
    have hlevel := h.level
    have hlen : (xs.take count'.toNat).length = count'.toNat := by
      rw [List.length_take]
      omega
    have hholds := h.holds
    rw [← List.take_append_drop count'.toNat xs] at hholds
    obtain ⟨htaken,hleft⟩ := process_holds hholds
    rw [hlen] at htaken hleft
    rw [slots_eq h.sized (by omega)]
    rw [← hdrop, ← htake, ← hcount]
    refine ⟨⟨⟨h.sized.mask⟩,hleft.congr (index_add h.sized (by omega) _),?_⟩,htaken⟩
    rw [List.length_drop, ← h.level]
    dsimp only
    bv_omega

theorem front_represents (h : r.Represents xs) : r.front = xs.head? := by
  unfold front
  have hlevel := h.level
  split
  · rename_i heq
    rw [heq, BitVec.sub_self] at hlevel
    rw [List.length_eq_zero_iff.mp hlevel.symm]
    rfl
  · rename_i hne
    cases xs with
    | nil =>
      have hzero : (r.inIndex - r.outIndex).toNat = 0 := hlevel
      bv_omega
    | cons x xs =>
      have hfits : xs.length + 1 ≤ r.capacity := h.holds.fits
      rw [h.sized.offset (by omega)]
      exact h.holds.first

theorem popFrontMulti_count (count : BitVec 64) (h : r.Represents xs) :
    (r.popFrontMulti count).2.2.toNat = min count.toNat xs.length := by
  have hcount := h.readable_count count
  unfold popFrontMulti
  dsimp only
  split
  case isTrue hzero =>
    rw [hzero] at hcount
    exact hcount
  case isFalse => exact hcount

def contents (r : RingBuffer A) : List A := (r.popFrontMulti (-1)).2.1

theorem Represents.length_le (h : r.Represents xs) : xs.length ≤ (-1 : BitVec 64).toNat := by
  have hcap : r.capacity < 2 ^ 64 := r.maxSize.isLt
  have hfits := h.holds.fits
  have hmax : (-1 : BitVec 64).toNat = 2 ^ 64 - 1 := rfl
  omega

theorem popAll_represents (h : r.Represents xs) :
    (r.popFrontMulti (-1)).1.Represents [] ∧ r.contents = xs := by
  obtain ⟨hleft,htaken⟩ := popFrontMulti_represents (-1) h
  rw [List.drop_eq_nil_of_le h.length_le] at hleft
  exact ⟨hleft,htaken.trans (List.take_of_length_le h.length_le)⟩

theorem popAll_count (h : r.Represents xs) :
    (r.popFrontMulti (-1)).2.2.toNat = xs.length :=
  (popFrontMulti_count (-1) h).trans (Nat.min_eq_right h.length_le)

theorem pushBack_represents (value : A) (h : r.Represents xs) (hroom : xs.length < r.capacity) :
    (r.pushBack value).1.Represents (xs ++ [value]) ∧ (r.pushBack value).2 = true := by
  obtain ⟨m,hm,hpushed,hcount⟩ := emplaceBackMulti_represents (fun _ => value) 1 h
  have hone : (1 : BitVec 64).toNat = 1 := rfl
  have hm : m = 1 := by omega
  rw [hm] at hpushed hcount
  refine ⟨hpushed,?_⟩
  simp only [pushBack, bne_iff_ne, ne_eq]
  intro hzero
  rw [hzero] at hcount
  cases hcount

theorem emplaceBackMulti_mask (generate : Nat → A) (count : BitVec 64) (r : RingBuffer A) :
    (r.emplaceBackMulti generate count).1.mask = r.mask := by
  unfold emplaceBackMulti
  dsimp only
  split <;> rfl

theorem popFrontMulti_mask (count : BitVec 64) (r : RingBuffer A) :
    (r.popFrontMulti count).1.mask = r.mask := by
  unfold popFrontMulti
  dsimp only
  split <;> rfl

theorem popFrontMulti_capacity (count : BitVec 64) (r : RingBuffer A) :
    (r.popFrontMulti count).1.capacity = r.capacity := by
  rw [capacity, maxSize, popFrontMulti_mask, capacity, maxSize]

theorem emplaceBackMulti_capacity (generate : Nat → A) (count : BitVec 64) (r : RingBuffer A) :
    (r.emplaceBackMulti generate count).1.capacity = r.capacity := by
  rw [capacity, maxSize, emplaceBackMulti_mask, capacity, maxSize]

end RingBuffer

end WujiHand

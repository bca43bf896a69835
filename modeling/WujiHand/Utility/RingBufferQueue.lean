import WujiHand.Library.BoundedQueue
import WujiHand.Library.Runs
import WujiHand.Utility.RingBufferThreads

namespace WujiHand

namespace RingBuffer

variable {A : Type}

def readable (r : RingBuffer A) : BitVec 64 := r.inIndex - r.outIndex

def writeable (r : RingBuffer A) : BitVec 64 := r.maxSize - (r.inIndex - r.outIndex)

def popFront (r : RingBuffer A) : RingBuffer A × Option A :=
  let popped := r.popFrontMulti 1
  (popped.1,popped.2.1.head?)

def frontSlot (r : RingBuffer A) : Option Nat :=
  if r.outIndex = r.inIndex then none else some (r.outIndex &&& r.mask).toNat

def backSlot (r : RingBuffer A) : Option Nat :=
  if r.inIndex = r.outIndex then none else some (r.inIndex &&& r.mask).toNat

theorem front_eq_frontSlot (r : RingBuffer A) : r.front = r.frontSlot.bind r.storage := by
  unfold front frontSlot
  split <;> rfl

def WindowLive (r : RingBuffer A) : Prop :=
  ∀ i < r.capacity, (r.storage (Circular.slot r.capacity r.outIndex.toNat i)).isSome ↔
    i < r.readable.toNat

instance (r : RingBuffer A) : Decidable r.WindowLive :=
  inferInstanceAs (Decidable (∀ i < r.capacity,
    (r.storage (Circular.slot r.capacity r.outIndex.toNat i)).isSome ↔ i < r.readable.toNat))

variable {r : RingBuffer A} {xs : List A}

theorem Represents.windowLive (h : r.Represents xs) : r.WindowLive := by
  intro i hi
  rw [h.holds.slots i hi, readable, h.level]
  simp

def window (r : RingBuffer A) : List A :=
  (List.range r.readable.toNat).filterMap fun i =>
    r.storage (Circular.slot r.capacity r.outIndex.toNat i)

theorem represents_window (hsized : r.Sized) (hbounded : r.readable.toNat ≤ r.capacity)
    (hlive : r.WindowLive) : r.Represents r.window := by
  have hsome : ∀ i < r.readable.toNat,
      (r.storage (Circular.slot r.capacity r.outIndex.toNat i)).isSome :=
    fun i hi => (hlive i (hi.trans_le hbounded)).mpr hi
  have hmap : r.window.map some = (List.range r.readable.toNat).map fun i =>
      r.storage (Circular.slot r.capacity r.outIndex.toNat i) := by
    rw [window, List.map_filterMap_some_eq_filter_map_isSome, List.filter_eq_self]
    simpa using hsome
  have hlength : r.window.length = r.readable.toNat := by
    simpa using congrArg List.length hmap
  refine ⟨hsized,⟨hlength.trans_le hbounded,fun i hi => ?_⟩,hlength.symm⟩
  by_cases hlt : i < r.readable.toNat
  · have hget := congrArg (·[i]?) hmap
    simp only [List.getElem?_map, List.getElem?_range hlt, Option.map_some] at hget
    rw [List.getElem?_eq_getElem (hlength.symm ▸ hlt)] at hget ⊢
    exact (Option.some.inj hget).symm
  · rw [List.getElem?_eq_none (hlength.trans_le (Nat.le_of_not_lt hlt))]
    exact Option.not_isSome_iff_eq_none.mp fun h => hlt ((hlive i hi).mp h)

theorem readable_toNat (h : r.Represents xs) : r.readable.toNat = xs.length := h.level

theorem writeable_represents (h : r.Represents xs) :
    r.writeable.toNat = r.capacity - xs.length := by
  rw [writeable, writeable_toNat h.bounded, h.level]

theorem popFront_count (h : r.Represents xs) :
    ((r.popFrontMulti 1).2.2 != 0) = r.popFront.2.isSome := by
  have hcount := popFrontMulti_count 1 h
  have hone : (1 : BitVec 64).toNat = 1 := rfl
  obtain ⟨_,htaken⟩ := popFrontMulti_represents 1 h
  rw [popFront, htaken, hone]
  rw [hone] at hcount
  cases xs with
  | nil =>
    have hzero : (r.popFrontMulti 1).2.2 = 0 := BitVec.eq_of_toNat_eq hcount
    rw [hzero]
    rfl
  | cons x xs =>
    have hne : (r.popFrontMulti 1).2.2 ≠ 0 := by
      intro hzero
      rw [hzero, List.length_cons] at hcount
      exact absurd hcount (by simp)
    simpa using hne

def Refines (capacity : Nat) (r : RingBuffer A) (xs : List A) : Prop :=
  r.Represents xs ∧ r.capacity = capacity

theorem emplaceBackMulti_refines {capacity : Nat} (generate : Nat → A) (count : BitVec 64)
    (h : r.Refines capacity xs) :
    (r.emplaceBackMulti generate count).1.Refines capacity
        (BoundedQueue.pushMulti capacity generate count.toNat xs).1 ∧
      (r.emplaceBackMulti generate count).2.toNat =
        (BoundedQueue.pushMulti capacity generate count.toNat xs).2 := by
  obtain ⟨hr,hcapacity⟩ := h
  obtain ⟨m,hm,hpushed,hcount⟩ := emplaceBackMulti_represents generate count hr
  rw [hcapacity] at hm
  subst hm
  exact ⟨⟨hpushed,(emplaceBackMulti_capacity generate count r).trans hcapacity⟩,hcount⟩

theorem popFrontMulti_refines {capacity : Nat} (count : BitVec 64) (h : r.Refines capacity xs) :
    (r.popFrontMulti count).1.Refines capacity (BoundedQueue.popMulti count.toNat xs).1 ∧
      (r.popFrontMulti count).2.1 = (BoundedQueue.popMulti count.toNat xs).2 := by
  obtain ⟨hleft,htaken⟩ := popFrontMulti_represents count h.1
  exact ⟨⟨hleft,(popFrontMulti_capacity count r).trans h.2⟩,htaken⟩

theorem pushBack_refines {capacity : Nat} (x : A) (h : r.Refines capacity xs) :
    (r.pushBack x).1.Refines capacity (BoundedQueue.push capacity x xs).1 ∧
      (r.pushBack x).2 = (BoundedQueue.push capacity x xs).2 := by
  obtain ⟨hpushed,hcount⟩ := emplaceBackMulti_refines (fun _ => x) 1 h
  have hone : (1 : BitVec 64).toNat = 1 := rfl
  rw [hone] at hpushed hcount
  by_cases hroom : xs.length < capacity
  · have hmulti : BoundedQueue.pushMulti capacity (fun _ => x) 1 xs = (xs ++ [x],1) := by
      have haccepted : min 1 (capacity - xs.length) = 1 := by omega
      simp only [BoundedQueue.pushMulti, haccepted]
      rfl
    rw [hmulti] at hpushed hcount
    rw [BoundedQueue.push, if_pos hroom]
    refine ⟨hpushed,?_⟩
    rw [pushBack, BitVec.eq_of_toNat_eq (y := 1) hcount]
    rfl
  · have hmulti : BoundedQueue.pushMulti capacity (fun _ => x) 1 xs = (xs,0) := by
      have haccepted : min 1 (capacity - xs.length) = 0 := by omega
      simp only [BoundedQueue.pushMulti, haccepted]
      simp
    rw [hmulti] at hpushed hcount
    rw [BoundedQueue.push, if_neg hroom]
    refine ⟨hpushed,?_⟩
    rw [pushBack, BitVec.eq_of_toNat_eq (y := 0) hcount]
    rfl

theorem popFront_refines {capacity : Nat} (h : r.Refines capacity xs) :
    r.popFront.1.Refines capacity (BoundedQueue.pop xs).1 ∧
      r.popFront.2 = (BoundedQueue.pop xs).2 := by
  obtain ⟨hleft,htaken⟩ := popFrontMulti_refines 1 h
  have hone : (1 : BitVec 64).toNat = 1 := rfl
  rw [hone] at hleft htaken
  cases xs with
  | nil => exact ⟨hleft,congrArg List.head? htaken⟩
  | cons x xs => exact ⟨hleft,congrArg List.head? htaken⟩

end RingBuffer

namespace LoadedRing

variable {A : Type}

def ofWindow (r : RingBuffer A) (hsized : r.Sized) (hbounded : r.readable.toNat ≤ r.capacity)
    (hlive : r.WindowLive) : LoadedRing A :=
  ⟨r,r.window,RingBuffer.represents_window hsized hbounded hlive⟩

theorem refines_queue (r : LoadedRing A) (generate : Nat → A) (count : BitVec 64) :
    let size := r.contents.length
    let capacity := r.ring.capacity
    let pushed := r.ring.emplaceBackMulti generate count
    let popped := r.ring.popFrontMulti count
    let pushes := BoundedQueue.pushEach RingBuffer.pushBack generate 0 count.toNat r.ring
    let pops := BoundedQueue.popEach RingBuffer.popFront count.toNat r.ring
    (r.ring.readable.toNat = size ∧ r.ring.writeable.toNat = capacity - size) ∧
      (pushed.1.Represents
          (r.contents ++ (List.range (min count.toNat (capacity - size))).map generate) ∧
        pushed.2.toNat = min count.toNat (capacity - size)) ∧
      (popped.1.Represents (r.contents.drop (min count.toNat size)) ∧
        popped.2.1 = r.contents.take (min count.toNat size) ∧
        popped.2.2.toNat = min count.toNat size) ∧
      (pushes.2 = pushed.2.toNat ∧ pushes.1.contents = pushed.1.contents) ∧
      (pops.2 = popped.2.1 ∧ pops.2.length = popped.2.2.toNat ∧
        pops.1.contents = popped.1.contents) := by
  have hr := r.represents
  have hrefines : r.ring.Refines r.ring.capacity r.contents := ⟨hr,rfl⟩
  have hmin : r.contents.take (min count.toNat r.contents.length) = r.contents.take count.toNat :=
    List.take_eq_take_min.symm
  have hdrop : r.contents.drop (min count.toNat r.contents.length) =
      r.contents.drop count.toNat := List.drop_eq_drop_min.symm
  obtain ⟨hpushed,hpushedCount⟩ := RingBuffer.emplaceBackMulti_refines generate count hrefines
  obtain ⟨hpopped,htaken⟩ := RingBuffer.popFrontMulti_refines count hrefines
  have hpoppedCount := RingBuffer.popFrontMulti_count count hr
  obtain ⟨hpushes,hpushesCount⟩ := BoundedQueue.pushEach_refines
    (fun x _ _ h => RingBuffer.pushBack_refines x h) generate 0 count.toNat hrefines
  obtain ⟨hpops,hpopsTaken⟩ := BoundedQueue.popEach_refines
    (fun _ _ h => RingBuffer.popFront_refines h) count.toNat hrefines
  rw [← BoundedQueue.pushMulti_eq_pushEach] at hpushes hpushesCount
  rw [← BoundedQueue.popMulti_eq_popEach] at hpops hpopsTaken
  dsimp only
  refine ⟨⟨RingBuffer.readable_toNat hr,RingBuffer.writeable_represents hr⟩,
    ⟨hpushed.1,hpushedCount⟩,⟨hdrop ▸ hpopped.1,htaken.trans hmin.symm,hpoppedCount⟩,
    ⟨hpushesCount.trans hpushedCount.symm,?_⟩,⟨hpopsTaken.trans htaken.symm,?_,?_⟩⟩
  · exact (RingBuffer.popAll_represents hpushes.1).2.trans
      (RingBuffer.popAll_represents hpushed.1).2.symm
  · rw [hpopsTaken, hpoppedCount]
    exact List.length_take
  · exact (RingBuffer.popAll_represents hpops.1).2.trans
      (RingBuffer.popAll_represents hpopped.1).2.symm

end LoadedRing

inductive QueueCall (A : Type) where
  | pushBackMulti (generate : Nat → A) (count : BitVec 64)
  | popFrontMulti (count : BitVec 64)

-- The ring beside the elements pushed and not yet popped, the oldest first.
structure TrackedRing (A : Type) where
  ring : RingBuffer A
  queue : List A

namespace TrackedRing

variable {A : Type}

def create (size : BitVec 64) : TrackedRing A := ⟨.create size,[]⟩

def step (s : TrackedRing A) : QueueCall A → TrackedRing A
  | .pushBackMulti generate count =>
    ⟨(s.ring.emplaceBackMulti generate count).1,
      (BoundedQueue.pushMulti s.ring.capacity generate count.toNat s.queue).1⟩
  | .popFrontMulti count =>
    ⟨(s.ring.popFrontMulti count).1,(BoundedQueue.popMulti count.toNat s.queue).1⟩

def Names (s : TrackedRing A) (pointer : Option Nat) (i : Nat) (x : Option A) : Prop :=
  (pointer = none ↔ s.queue = []) ∧ ∀ slot, pointer = some slot →
    slot = Circular.slot s.ring.capacity s.ring.outIndex.toNat i ∧
      s.ring.storage slot = x ∧ x.isSome

def FrontNamesOldest (s : TrackedRing A) : Prop := s.Names s.ring.frontSlot 0 s.queue.head?

def BackNamesNewest (s : TrackedRing A) : Prop :=
  s.Names s.ring.backSlot (s.queue.length - 1) s.queue.getLast?

structure Sound (s : TrackedRing A) : Prop where
  represents : s.ring.Represents s.queue
  capacity : s.ring.capacity ≠ 1

theorem create_capacity_ne_one (size : BitVec 64) :
    (RingBuffer.create size : RingBuffer A).capacity ≠ 1 := by
  have hmask := RingBuffer.create_mask (A := A) size
  have hsize : 0 < (max size.toNat 2 - 1).size := Nat.size_pos.mpr (by omega)
  have hpow : 2 ^ 1 ≤ 2 ^ (max size.toNat 2 - 1).size := Nat.pow_le_pow_right (by decide) hsize
  rcases (RingBuffer.create_sized (A := A) size).capacity_cases with hzero | ⟨hcapacity,_⟩
  · omega
  · omega

theorem create_sound (size : BitVec 64) : (create size : TrackedRing A).Sound :=
  ⟨RingBuffer.create_represents size,create_capacity_ne_one size⟩

theorem step_sound {s : TrackedRing A} (h : s.Sound) (call : QueueCall A) :
    (s.step call).Sound := by
  obtain ⟨hr,hcapacity⟩ := h
  cases call with
  | pushBackMulti generate count =>
    have hpushed := (RingBuffer.emplaceBackMulti_refines generate count ⟨hr,rfl⟩).1
    exact ⟨hpushed.1,fun hone => hcapacity (hpushed.2.symm.trans hone)⟩
  | popFrontMulti count =>
    have hpopped := (RingBuffer.popFrontMulti_refines count ⟨hr,rfl⟩).1
    exact ⟨hpopped.1,fun hone => hcapacity (hpopped.2.symm.trans hone)⟩

theorem Sound.empty_iff {s : TrackedRing A} (h : s.Sound) :
    s.ring.inIndex = s.ring.outIndex ↔ s.queue = [] := by
  have hlevel := h.represents.level
  constructor
  · intro heq
    rw [heq, BitVec.sub_self] at hlevel
    exact List.length_eq_zero_iff.mp hlevel.symm
  · intro hnil
    rw [hnil, List.length_nil] at hlevel
    bv_omega

theorem Sound.capacity_pos {s : TrackedRing A} (h : s.Sound) (hne : s.queue ≠ []) :
    0 < s.ring.capacity :=
  (List.length_pos_iff.mpr hne).trans_le h.represents.holds.fits

theorem Sound.frontNamesOldest {s : TrackedRing A} (h : s.Sound) : s.FrontNamesOldest := by
  have hempty := h.empty_iff
  unfold FrontNamesOldest RingBuffer.frontSlot
  split
  case isTrue heq => exact ⟨iff_of_true rfl (hempty.mp heq.symm),nofun⟩
  case isFalse hdiffer =>
    have hne : s.queue ≠ [] := fun hnil => hdiffer (hempty.mpr hnil).symm
    refine ⟨iff_of_false nofun hne,?_⟩
    rintro slot ⟨⟩
    rw [h.represents.sized.offset (h.capacity_pos hne)]
    obtain ⟨x,xs,hxs⟩ := List.exists_cons_of_ne_nil hne
    have hholds := h.represents.holds
    rw [hxs] at hholds ⊢
    exact ⟨rfl,hholds.first,rfl⟩

theorem Sound.backSlot_ne {s : TrackedRing A} (h : s.Sound) (hne : s.queue ≠ []) :
    (s.ring.inIndex &&& s.ring.mask).toNat ≠
      Circular.slot s.ring.capacity s.ring.outIndex.toNat (s.queue.length - 1) := by
  have hpos := h.capacity_pos hne
  have hlen := List.length_pos_iff.mpr hne
  have hfits := h.represents.holds.fits
  have hcapacity := h.capacity
  have hin := RingBuffer.slot_in h.represents.sized h.represents.bounded 0
  rw [h.represents.level, Nat.add_zero, Circular.slot, Nat.add_zero] at hin
  rw [h.represents.sized.offset hpos, hin]
  intro hslot
  rcases Nat.lt_or_eq_of_le hfits with hlt | hfull
  · have := Circular.slot_inj hlt (by omega) hslot
    omega
  · have hwrap : Circular.slot s.ring.capacity s.ring.outIndex.toNat s.queue.length =
        Circular.slot s.ring.capacity s.ring.outIndex.toNat 0 := by
      rw [hfull, Circular.slot, Nat.add_mod_right, Circular.slot, Nat.add_zero]
    rw [hwrap] at hslot
    have := Circular.slot_inj hpos (by omega) hslot
    omega

theorem Sound.backNamesNewest_iff {s : TrackedRing A} (h : s.Sound) :
    s.BackNamesNewest ↔ s.queue = [] := by
  have hempty := h.empty_iff
  constructor
  · intro hback
    by_contra hne
    have hdiffer : ¬s.ring.inIndex = s.ring.outIndex := fun heq => hne (hempty.mp heq)
    have hslot : s.ring.backSlot = some (s.ring.inIndex &&& s.ring.mask).toNat := if_neg hdiffer
    exact h.backSlot_ne hne (hback.2 _ hslot).1
  · intro hnil
    have hslot : s.ring.backSlot = none := if_pos (hempty.mpr hnil)
    rw [BackNamesNewest, hslot]
    exact ⟨iff_of_true rfl hnil,nofun⟩

theorem ends_named (size : BitVec 64) (calls : List (QueueCall A)) :
    Runs.Throughout step (fun s => s.FrontNamesOldest ∧ (s.BackNamesNewest ↔ s.queue = []))
      (create size) calls :=
  Runs.throughout_imp (P := Sound) (fun _ h => ⟨h.frontNamesOldest,h.backNamesNewest_iff⟩)
    (Runs.throughout_always (fun _ call h => step_sound h call) (create_sound size))

theorem back_points_to_dead :
    let s := Runs.run step (create 4 : TrackedRing Nat) [.pushBackMulti (fun _ => 7) 1]
    (s.queue = [7] ∧ s.ring.backSlot = some 1 ∧ s.ring.storage 1 = none) ∧ ¬s.BackNamesNewest := by
  have hfacts : let s := Runs.run step (create 4 : TrackedRing Nat) [.pushBackMulti (fun _ => 7) 1]
      s.queue = [7] ∧ s.ring.backSlot = some 1 ∧ s.ring.storage 1 = none := by decide
  refine ⟨hfacts,fun hback => ?_⟩
  obtain ⟨_,hnewest,hlive⟩ := hback.2 1 hfacts.2.1
  rw [hfacts.2.2] at hnewest
  rw [← hnewest] at hlive
  cases hlive

end TrackedRing

end WujiHand

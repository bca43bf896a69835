import WujiHand.Library.Runs
import WujiHand.Utility.RingBuffer

namespace WujiHand

-- Where a thread stands in a call: what it has loaded, and the slots its batch has yet to go through.
inductive ProducerPc where
  | idle
  | loadIn (count : BitVec 64)
  | loadOut (count inIndex : BitVec 64)
  | construct (count inIndex : BitVec 64) (pending : List Nat)
deriving DecidableEq, Repr

-- Between calls the consumer may use the element that `front` returned.
inductive ConsumerPc where
  | idle (front : Option Nat)
  | frontOut
  | frontIn (outIndex : BitVec 64)
  | popIn (count : BitVec 64)
  | popOut (count inIndex : BitVec 64)
  | process (count outIndex : BitVec 64) (pending : List Nat)
deriving DecidableEq, Repr

inductive ThreadEvent (A : Type) where
  | emplaceBackMulti (count : BitVec 64)
  | producer (value : A)
  | front
  | popFrontMulti (count : BitVec 64)
  | consumer

structure RingThreads (A : Type) where
  ring : RingBuffer A
  producerPc : ProducerPc := .idle
  consumerPc : ConsumerPc := .idle none
  produced : List A
  consumed : List A := []

namespace RingThreads

variable {A : Type}

def producerStep (value : A) (s : RingThreads A) : RingThreads A :=
  match s.producerPc with
  | .idle => s
  | .loadIn count => { s with producerPc := .loadOut count s.ring.inIndex }
  | .loadOut count inIndex =>
    let count := atMost count (s.ring.maxSize - (inIndex - s.ring.outIndex))
    if count = 0 then { s with producerPc := .idle }
    else { s with producerPc := .construct count inIndex (s.ring.slots inIndex count) }
  | .construct count inIndex [] =>
    { s with ring := { s.ring with inIndex := inIndex + count }, producerPc := .idle }
  | .construct count inIndex (slot :: pending) =>
    { s with
      ring := { s.ring with storage := Function.update s.ring.storage slot (some value) },
      produced := s.produced ++ [value], producerPc := .construct count inIndex pending }

def consumerStep (s : RingThreads A) : RingThreads A :=
  match s.consumerPc with
  | .idle _ => s
  | .frontOut => { s with consumerPc := .frontIn s.ring.outIndex }
  | .frontIn outIndex =>
    if outIndex = s.ring.inIndex then { s with consumerPc := .idle none }
    else { s with consumerPc := .idle (some (outIndex &&& s.ring.mask).toNat) }
  | .popIn count => { s with consumerPc := .popOut count s.ring.inIndex }
  | .popOut count inIndex =>
    let count := atMost count (inIndex - s.ring.outIndex)
    if count = 0 then { s with consumerPc := .idle none }
    else
      { s with
        consumerPc := .process count s.ring.outIndex (s.ring.slots s.ring.outIndex count) }
  | .process count outIndex [] =>
    { s with ring := { s.ring with outIndex := outIndex + count }, consumerPc := .idle none }
  | .process count outIndex (slot :: pending) =>
    { s with
      ring := { s.ring with storage := Function.update s.ring.storage slot none },
      consumed := s.consumed ++ (s.ring.storage slot).toList,
      consumerPc := .process count outIndex pending }

def step (s : RingThreads A) : ThreadEvent A → RingThreads A
  | .emplaceBackMulti count =>
    match s.producerPc with
    | .idle => { s with producerPc := .loadIn count }
    | _ => s
  | .producer value => s.producerStep value
  | .front =>
    match s.consumerPc with
    | .idle _ => { s with consumerPc := .frontOut }
    | _ => s
  | .popFrontMulti count =>
    match s.consumerPc with
    | .idle _ => { s with consumerPc := .popIn count }
    | _ => s
  | .consumer => s.consumerStep

def constructs (s : RingThreads A) : Option Nat :=
  match s.producerPc with
  | .construct _ _ (slot :: _) => some slot
  | _ => none

def accesses (s : RingThreads A) : Option Nat :=
  match s.consumerPc with
  | .idle front => front
  | .process _ _ (slot :: _) => some slot
  | _ => none

structure SpscSafe (s : RingThreads A) : Prop where
  bounded : (s.ring.inIndex - s.ring.outIndex).toNat ≤ s.ring.capacity
  constructs : ∀ slot ∈ s.constructs, slot < s.ring.capacity ∧ s.ring.storage slot = none
  accesses : ∀ slot ∈ s.accesses, slot < s.ring.capacity ∧ ∃ x, s.ring.storage slot = some x
  ordered : s.consumed <+: s.produced

end RingThreads

structure Batch (capacity : Nat) (index count : BitVec 64) (pending : List Nat) : Prop where
  fits : pending.length ≤ count.toNat
  slots : pending = (List.range' (count.toNat - pending.length) pending.length).map
    (Circular.slot capacity index.toNat)

namespace Batch

variable {capacity : Nat} {index count : BitVec 64} {slot : Nat} {pending : List Nat}

theorem start {A : Type} {r : RingBuffer A} (h : r.Sized) (hcount : count.toNat ≤ r.capacity)
    (index : BitVec 64) : Batch r.capacity index count (r.slots index count) := by
  have hlen := RingBuffer.slots_length h hcount index
  refine ⟨hlen.le,?_⟩
  rw [hlen, Nat.sub_self, RingBuffer.slots_eq h hcount, List.range_eq_range']

theorem cons (h : Batch capacity index count (slot :: pending)) :
    slot = Circular.slot capacity index.toNat (count.toNat - (pending.length + 1)) ∧
      Batch capacity index count pending := by
  have hfits : pending.length + 1 ≤ count.toNat := h.fits
  have hslots := h.slots
  rw [List.length_cons, List.range'_succ, List.map_cons, List.cons.injEq] at hslots
  have hnext : count.toNat - (pending.length + 1) + 1 = count.toNat - pending.length := by omega
  rw [hnext] at hslots
  exact ⟨hslots.1,by omega,hslots.2⟩

end Batch

namespace ProducerPc

def constructed : ProducerPc → Nat
  | construct count _ pending => count.toNat - pending.length
  | _ => 0

def Sound {A : Type} (r : RingBuffer A) : ProducerPc → Prop
  | idle | loadIn _ => True
  | loadOut _ inIndex => inIndex = r.inIndex
  | construct count inIndex pending =>
    inIndex = r.inIndex ∧ (r.inIndex - r.outIndex).toNat + count.toNat ≤ r.capacity ∧
      Batch r.capacity inIndex count pending

theorem Sound.congr {A : Type} {r r' : RingBuffer A} {pc : ProducerPc} (h : pc.Sound r)
    (hmask : r'.mask = r.mask) (hin : r'.inIndex = r.inIndex)
    (hlevel : (r'.inIndex - r'.outIndex).toNat ≤ (r.inIndex - r.outIndex).toNat) :
    pc.Sound r' := by
  have hcapacity : r'.capacity = r.capacity := by
    rw [RingBuffer.capacity, RingBuffer.maxSize, hmask]
    rfl
  cases pc with
  | idle => trivial
  | loadIn => trivial
  | loadOut => exact Eq.trans h hin.symm
  | construct =>
    obtain ⟨hindex,hroom,hbatch⟩ := h
    exact ⟨hindex.trans hin.symm,by omega,hcapacity ▸ hbatch⟩

theorem constructed_start {A : Type} {r : RingBuffer A} (h : r.Sized) {count : BitVec 64}
    (hcount : count.toNat ≤ r.capacity) (index : BitVec 64) :
    (construct count index (r.slots index count)).constructed = 0 := by
  rw [constructed, RingBuffer.slots_length h hcount, Nat.sub_self]

end ProducerPc

namespace ConsumerPc

def processed : ConsumerPc → Nat
  | process count _ pending => count.toNat - pending.length
  | _ => 0

def Sound {A : Type} (r : RingBuffer A) : ConsumerPc → Prop
  | idle none | frontOut | popIn _ => True
  | idle (some slot) =>
    0 < (r.inIndex - r.outIndex).toNat ∧ slot = Circular.slot r.capacity r.outIndex.toNat 0
  | frontIn outIndex => outIndex = r.outIndex
  | popOut _ inIndex => (inIndex - r.outIndex).toNat ≤ (r.inIndex - r.outIndex).toNat
  | process count outIndex pending =>
    outIndex = r.outIndex ∧ count.toNat ≤ (r.inIndex - r.outIndex).toNat ∧
      Batch r.capacity outIndex count pending

theorem Sound.congr {A : Type} {r r' : RingBuffer A} {pc : ConsumerPc} (h : pc.Sound r)
    (hmask : r'.mask = r.mask) (hout : r'.outIndex = r.outIndex)
    (hlevel : (r.inIndex - r.outIndex).toNat ≤ (r'.inIndex - r'.outIndex).toNat) :
    pc.Sound r' := by
  have hcapacity : r'.capacity = r.capacity := by
    rw [RingBuffer.capacity, RingBuffer.maxSize, hmask]
    rfl
  cases pc with
  | idle front =>
    cases front with
    | none => trivial
    | some slot =>
      obtain ⟨hpos,hslot⟩ := h
      exact ⟨hpos.trans_le hlevel,by rw [hcapacity, hout]; exact hslot⟩
  | frontOut => trivial
  | frontIn => exact Eq.trans h hout.symm
  | popIn => trivial
  | popOut count inIndex =>
    have h' : (inIndex - r.outIndex).toNat ≤ (r.inIndex - r.outIndex).toNat := h
    rw [Sound, hout]
    rw [hout] at hlevel
    exact h'.trans hlevel
  | process =>
    obtain ⟨hindex,hcount,hbatch⟩ := h
    exact ⟨hindex.trans hout.symm,hcount.trans hlevel,hcapacity ▸ hbatch⟩

theorem processed_start {A : Type} {r : RingBuffer A} (h : r.Sized) {count : BitVec 64}
    (hcount : count.toNat ≤ r.capacity) (index : BitVec 64) :
    (process count index (r.slots index count)).processed = 0 := by
  rw [processed, RingBuffer.slots_length h hcount, Nat.sub_self]

end ConsumerPc

namespace RingThreads

variable {A : Type} {s : RingThreads A} {live : List A}

structure Sound (s : RingThreads A) (live : List A) : Prop where
  sized : s.ring.Sized
  split : s.produced = s.consumed ++ live
  bounded : (s.ring.inIndex - s.ring.outIndex).toNat ≤ s.ring.capacity
  holds : Circular.Holds s.ring.capacity s.ring.storage
    (s.ring.outIndex.toNat + s.consumerPc.processed) live
  level : live.length + s.consumerPc.processed =
    (s.ring.inIndex - s.ring.outIndex).toNat + s.producerPc.constructed
  producer : s.producerPc.Sound s.ring
  consumer : s.consumerPc.Sound s.ring

theorem Sound.next_vacant (h : s.Sound live) {count inIndex : BitVec 64} {slot : Nat}
    {pending : List Nat} (hpc : s.producerPc = .construct count inIndex (slot :: pending)) :
    live.length < s.ring.capacity ∧
      slot = Circular.slot s.ring.capacity
        (s.ring.outIndex.toNat + s.consumerPc.processed) live.length := by
  have hproducer := h.producer
  have hlevel := h.level
  rw [hpc] at hproducer hlevel
  obtain ⟨rfl,hroom,hbatch⟩ := hproducer
  have hfits : pending.length + 1 ≤ count.toNat := hbatch.fits
  simp only [ProducerPc.constructed, List.length_cons] at hlevel
  refine ⟨by omega,?_⟩
  rw [hbatch.cons.1, RingBuffer.slot_in h.sized h.bounded, Circular.slot_add, ← hlevel,
    Nat.add_comm live.length]

theorem Sound.next_live (h : s.Sound live) {count outIndex : BitVec 64} {slot : Nat}
    {pending : List Nat} (hpc : s.consumerPc = .process count outIndex (slot :: pending)) :
    slot = Circular.slot s.ring.capacity (s.ring.outIndex.toNat + s.consumerPc.processed) 0 ∧
      0 < live.length := by
  have hconsumer := h.consumer
  have hlevel := h.level
  rw [hpc] at hconsumer hlevel
  obtain ⟨rfl,hcount,hbatch⟩ := hconsumer
  have hfits : pending.length + 1 ≤ count.toNat := hbatch.fits
  simp only [ConsumerPc.processed, List.length_cons] at hlevel
  refine ⟨?_,by omega⟩
  rw [hbatch.cons.1, hpc, Circular.slot_add]
  rfl

theorem Sound.safe (h : s.Sound live) : s.SpscSafe where
  bounded := h.bounded
  constructs := by
    intro slot hslot
    unfold constructs at hslot
    split at hslot
    · rename_i count inIndex slot' pending hpc
      obtain rfl := Option.some.inj hslot
      obtain ⟨hroom,rfl⟩ := h.next_vacant hpc
      exact ⟨Circular.slot_lt (by omega) _,h.holds.vacant hroom⟩
    · cases hslot
  accesses := by
    have hfirst (hpos : 0 < live.length) : ∀ slot,
        slot = Circular.slot s.ring.capacity
          (s.ring.outIndex.toNat + s.consumerPc.processed) 0 →
        slot < s.ring.capacity ∧ ∃ x, s.ring.storage slot = some x := by
      rintro slot rfl
      have hfits := h.holds.fits
      refine ⟨Circular.slot_lt (by omega) _,live[0],?_⟩
      rw [h.holds.slots 0 (by omega), List.getElem?_eq_getElem hpos]
    intro slot hslot
    unfold accesses at hslot
    split at hslot
    · rename_i front hpc
      have hconsumer := h.consumer
      have hlevel := h.level
      rw [hslot] at hpc
      rw [hpc] at hconsumer hlevel
      obtain ⟨hpos,hat⟩ := hconsumer
      simp only [ConsumerPc.processed] at hlevel
      refine hfirst (by omega) slot ?_
      rw [hpc]
      exact hat
    · rename_i count outIndex slot' pending hpc
      obtain rfl := Option.some.inj hslot
      obtain ⟨hat,hpos⟩ := h.next_live hpc
      exact hfirst hpos _ hat
    · cases hslot
  ordered := ⟨live,h.split.symm⟩

theorem Sound.producer_moved (h : s.Sound live) {pc : ProducerPc} (hpc : pc.Sound s.ring)
    (hconstructed : pc.constructed = s.producerPc.constructed) :
    ({ s with producerPc := pc } : RingThreads A).Sound live := by
  refine ⟨h.sized,h.split,h.bounded,h.holds,?_,hpc,h.consumer⟩
  dsimp only
  rw [hconstructed]
  exact h.level

theorem Sound.consumer_moved (h : s.Sound live) {pc : ConsumerPc} (hpc : pc.Sound s.ring)
    (hprocessed : pc.processed = s.consumerPc.processed) :
    ({ s with consumerPc := pc } : RingThreads A).Sound live := by
  refine ⟨h.sized,h.split,h.bounded,?_,?_,h.producer,hpc⟩
  · dsimp only
    rw [hprocessed]
    exact h.holds
  · dsimp only
    rw [hprocessed]
    exact h.level

theorem Sound.published (h : s.Sound live) {count inIndex : BitVec 64}
    (hpc : s.producerPc = .construct count inIndex []) :
    ({ s with ring := { s.ring with inIndex := inIndex + count }, producerPc := .idle } :
      RingThreads A).Sound live := by
  have hcap : s.ring.capacity < 2 ^ 64 := s.ring.maxSize.isLt
  have hlevel := h.level
  have hproducer := h.producer
  rw [hpc] at hlevel hproducer
  obtain ⟨rfl,hroom,_⟩ := hproducer
  simp only [ProducerPc.constructed, List.length_nil, Nat.sub_zero] at hlevel
  have hadd : (s.ring.inIndex + count - s.ring.outIndex).toNat =
      (s.ring.inIndex - s.ring.outIndex).toNat + count.toNat := by bv_omega
  refine ⟨⟨h.sized.mask⟩,h.split,?_,h.holds,?_,trivial,h.consumer.congr rfl rfl ?_⟩
  · exact hadd.trans_le hroom
  · dsimp only
    rw [hadd, hlevel]
    rfl
  · dsimp only
    omega

theorem Sound.constructed (h : s.Sound live) {count inIndex : BitVec 64} {slot : Nat}
    {pending : List Nat} (hpc : s.producerPc = .construct count inIndex (slot :: pending))
    (value : A) :
    ({ s with
        ring := { s.ring with storage := Function.update s.ring.storage slot (some value) },
        produced := s.produced ++ [value], producerPc := .construct count inIndex pending } :
      RingThreads A).Sound (live ++ [value]) := by
  have hlevel := h.level
  have hproducer := h.producer
  obtain ⟨hvacant,rfl⟩ := h.next_vacant hpc
  rw [hpc] at hlevel hproducer
  obtain ⟨rfl,hroom,hbatch⟩ := hproducer
  have hfits : pending.length + 1 ≤ count.toNat := hbatch.fits
  simp only [ProducerPc.constructed, List.length_cons] at hlevel
  refine ⟨⟨h.sized.mask⟩,?_,h.bounded,h.holds.push hvacant value,?_,⟨rfl,hroom,hbatch.cons.2⟩,
    h.consumer.congr rfl rfl (Nat.le_refl _)⟩
  · rw [h.split, List.append_assoc]
  · simp only [ProducerPc.constructed, List.length_append, List.length_singleton]
    omega

theorem Sound.released (h : s.Sound live) {count outIndex : BitVec 64}
    (hpc : s.consumerPc = .process count outIndex []) :
    ({ s with ring := { s.ring with outIndex := outIndex + count }, consumerPc := .idle none } :
      RingThreads A).Sound live := by
  have hcap : s.ring.capacity < 2 ^ 64 := s.ring.maxSize.isLt
  have hlevel := h.level
  have hholds := h.holds
  have hconsumer := h.consumer
  rw [hpc] at hlevel hholds hconsumer
  obtain ⟨rfl,hcount,_⟩ := hconsumer
  simp only [ConsumerPc.processed, List.length_nil, Nat.sub_zero] at hlevel hholds
  have hbounded := h.bounded
  have hsub : (s.ring.inIndex - (s.ring.outIndex + count)).toNat =
      (s.ring.inIndex - s.ring.outIndex).toNat - count.toNat := by bv_omega
  refine ⟨⟨h.sized.mask⟩,h.split,?_,hholds.congr (RingBuffer.index_add h.sized (by omega) _),?_,
    h.producer.congr rfl rfl ?_,trivial⟩
  · exact hsub.trans_le ((Nat.sub_le _ _).trans h.bounded)
  · simp only [ConsumerPc.processed, hsub]
    omega
  · dsimp only
    omega

theorem Sound.processed (h : s.Sound live) {count outIndex : BitVec 64} {slot : Nat}
    {pending : List Nat} (hpc : s.consumerPc = .process count outIndex (slot :: pending)) :
    ({ s with
        ring := { s.ring with storage := Function.update s.ring.storage slot none },
        consumed := s.consumed ++ (s.ring.storage slot).toList,
        consumerPc := .process count outIndex pending } : RingThreads A).Sound live.tail := by
  have hlevel := h.level
  have hholds := h.holds
  have hconsumer := h.consumer
  obtain ⟨rfl,hpos⟩ := h.next_live hpc
  rw [hpc] at hlevel hconsumer
  obtain ⟨rfl,hcount,hbatch⟩ := hconsumer
  have hfits : pending.length + 1 ≤ count.toNat := hbatch.fits
  simp only [ConsumerPc.processed, List.length_cons] at hlevel
  cases live with
  | nil => cases hpos
  | cons x live =>
    have hnext : s.ring.outIndex.toNat + s.consumerPc.processed + 1 =
        s.ring.outIndex.toNat + (count.toNat - pending.length) := by
      rw [hpc, ConsumerPc.processed, List.length_cons]
      omega
    have hpop := hholds.pop
    rw [hnext] at hpop
    refine ⟨⟨h.sized.mask⟩,?_,h.bounded,hpop,?_,h.producer.congr rfl rfl (Nat.le_refl _),rfl,hcount,
      hbatch.cons.2⟩
    · rw [hholds.first, h.split, List.append_assoc]
      rfl
    · simp only [ConsumerPc.processed, List.tail_cons]
      rw [List.length_cons] at hlevel
      omega

theorem producerStep_sound (value : A) (h : s.Sound live) :
    ∃ live', (s.producerStep value).Sound live' := by
  unfold producerStep
  split
  · exact ⟨live,h⟩
  · rename_i count hpc
    exact ⟨live,h.producer_moved rfl (by rw [hpc]; rfl)⟩
  · rename_i count inIndex hpc
    have hproducer := h.producer
    rw [hpc] at hproducer
    obtain rfl : inIndex = s.ring.inIndex := hproducer
    have hroom := RingBuffer.writeable_toNat h.bounded
    have hbounded := h.bounded
    dsimp only
    generalize hcount : atMost count (s.ring.maxSize - (s.ring.inIndex - s.ring.outIndex)) = count'
    have hle : count'.toNat ≤ s.ring.capacity - (s.ring.inIndex - s.ring.outIndex).toNat := by
      rw [← hcount, atMost_toNat, hroom]
      exact Nat.min_le_right _ _
    have hfits : count'.toNat ≤ s.ring.capacity := by omega
    split
    · exact ⟨live,h.producer_moved trivial (by rw [hpc]; rfl)⟩
    · refine ⟨live,h.producer_moved ⟨rfl,by omega,Batch.start h.sized hfits _⟩ ?_⟩
      rw [ProducerPc.constructed_start h.sized hfits, hpc]
      rfl
  · rename_i hpc
    exact ⟨live,h.published hpc⟩
  · rename_i hpc
    exact ⟨live ++ [value],h.constructed hpc value⟩

theorem consumerStep_sound (h : s.Sound live) : ∃ live', s.consumerStep.Sound live' := by
  have hbounded := h.bounded
  unfold consumerStep
  split
  · exact ⟨live,h⟩
  · rename_i hpc
    exact ⟨live,h.consumer_moved rfl (by rw [hpc]; rfl)⟩
  · rename_i outIndex hpc
    have hconsumer := h.consumer
    rw [hpc] at hconsumer
    obtain rfl : outIndex = s.ring.outIndex := hconsumer
    split
    · exact ⟨live,h.consumer_moved trivial (by rw [hpc]; rfl)⟩
    · rename_i hne
      have hpos : 0 < (s.ring.inIndex - s.ring.outIndex).toNat := by bv_omega
      have hslot := h.sized.offset (show 0 < s.ring.capacity by omega) s.ring.outIndex
      exact ⟨live,h.consumer_moved ⟨hpos,hslot⟩ (by rw [hpc]; rfl)⟩
  · rename_i count hpc
    exact ⟨live,h.consumer_moved (Nat.le_refl _) (by rw [hpc]; rfl)⟩
  · rename_i count inIndex hpc
    have hconsumer := h.consumer
    rw [hpc] at hconsumer
    have hstale : (inIndex - s.ring.outIndex).toNat ≤
        (s.ring.inIndex - s.ring.outIndex).toNat := hconsumer
    dsimp only
    generalize hcount : atMost count (inIndex - s.ring.outIndex) = count'
    have hle : count'.toNat ≤ (inIndex - s.ring.outIndex).toNat := by
      rw [← hcount, atMost_toNat]
      exact Nat.min_le_right _ _
    have hfits : count'.toNat ≤ s.ring.capacity := by omega
    split
    · exact ⟨live,h.consumer_moved trivial (by rw [hpc]; rfl)⟩
    · refine ⟨live,h.consumer_moved ⟨rfl,hle.trans hstale,Batch.start h.sized hfits _⟩ ?_⟩
      rw [ConsumerPc.processed_start h.sized hfits, hpc]
      rfl
  · rename_i hpc
    exact ⟨live,h.released hpc⟩
  · rename_i hpc
    exact ⟨live.tail,h.processed hpc⟩

theorem step_sound (e : ThreadEvent A) (h : s.Sound live) : ∃ live', (s.step e).Sound live' := by
  cases e with
  | emplaceBackMulti count =>
    unfold step
    dsimp only
    split
    · rename_i hpc
      exact ⟨live,h.producer_moved trivial (by rw [hpc]; rfl)⟩
    · exact ⟨live,h⟩
  | producer value => exact producerStep_sound value h
  | front =>
    unfold step
    dsimp only
    split
    · rename_i hpc
      exact ⟨live,h.consumer_moved trivial (by rw [hpc]; rfl)⟩
    · exact ⟨live,h⟩
  | popFrontMulti count =>
    unfold step
    dsimp only
    split
    · rename_i hpc
      exact ⟨live,h.consumer_moved trivial (by rw [hpc]; rfl)⟩
    · exact ⟨live,h⟩
  | consumer => exact consumerStep_sound h

theorem construct_run (generate : Nat → A) (i : Nat) {s : RingThreads A}
    {count inIndex : BitVec 64} {pending : List Nat}
    (hpc : s.producerPc = .construct count inIndex pending) :
    Runs.run step s ((List.range' i pending.length).map fun i => .producer (generate i)) =
      { s with
        ring := { s.ring with
          storage := RingBuffer.construct generate i pending s.ring.storage },
        produced := s.produced ++ (List.range' i pending.length).map generate,
        producerPc := .construct count inIndex [] } := by
  induction pending generalizing i s with
  | nil =>
    simp only [List.length_nil, List.range'_zero, List.map_nil, Runs.run_nil, List.append_nil,
      RingBuffer.construct, ← hpc]
  | cons slot pending ih =>
    rw [List.length_cons, List.range'_succ, List.map_cons, Runs.run_cons, step, producerStep, hpc]
    rw [ih (i + 1) rfl]
    simp only [RingBuffer.construct, List.map_cons, List.append_assoc, List.singleton_append]

theorem process_run {s : RingThreads A} {count outIndex : BitVec 64} {pending : List Nat}
    (hpc : s.consumerPc = .process count outIndex pending) :
    Runs.run step s (List.replicate pending.length .consumer) =
      { s with
        ring := { s.ring with storage := (RingBuffer.process pending s.ring.storage).2 },
        consumed := s.consumed ++ (RingBuffer.process pending s.ring.storage).1,
        consumerPc := .process count outIndex [] } := by
  induction pending generalizing s with
  | nil =>
    simp only [List.length_nil, List.replicate_zero, Runs.run_nil, List.append_nil,
      RingBuffer.process, ← hpc]
  | cons slot pending ih =>
    rw [List.length_cons, List.replicate_succ, Runs.run_cons, step, consumerStep, hpc]
    rw [ih rfl]
    simp only [RingBuffer.process, List.append_assoc]

def producerCall (generate : Nat → A) (count : BitVec 64) (m : Nat) : List (ThreadEvent A) :=
  [.emplaceBackMulti count,.producer (generate 0),.producer (generate 0)] ++
    ((List.range' 0 m).map (fun i => .producer (generate i)) ++ [.producer (generate 0)])

def consumerCall (count : BitVec 64) (m : Nat) : List (ThreadEvent A) :=
  [.popFrontMulti count,.consumer,.consumer] ++ (List.replicate m .consumer ++ [.consumer])

theorem emplaceBackMulti_alone {xs : List A} (generate : Nat → A) (count : BitVec 64)
    (h : s.ring.Represents xs) (hpc : s.producerPc = .idle) :
    Runs.run step s (producerCall generate count
        (s.ring.emplaceBackMulti generate count).2.toNat) =
      { s with
        ring := (s.ring.emplaceBackMulti generate count).1,
        produced := s.produced ++
          (List.range' 0 (s.ring.emplaceBackMulti generate count).2.toNat).map generate } := by
  have hroom := RingBuffer.writeable_toNat h.bounded
  have hle : (atMost count (s.ring.maxSize - (s.ring.inIndex - s.ring.outIndex))).toNat ≤
      s.ring.capacity := by
    rw [atMost_toNat, hroom]
    omega
  have hlen := RingBuffer.slots_length h.sized hle s.ring.inIndex
  rw [producerCall, Runs.run_append, Runs.run_append]
  simp only [Runs.run_cons, Runs.run_nil, step, hpc, producerStep, RingBuffer.emplaceBackMulti]
  by_cases hzero : atMost count (s.ring.maxSize - (s.ring.inIndex - s.ring.outIndex)) = 0
  · have hnone : (0 : BitVec 64).toNat = 0 := rfl
    simp only [if_pos hzero, hnone, List.range'_zero, List.map_nil, Runs.run_nil,
      List.append_nil]
  · simp only [if_neg hzero]
    rw [← hlen, construct_run generate 0 rfl]

theorem popFrontMulti_alone {xs : List A} (count : BitVec 64) (h : s.ring.Represents xs)
    {front : Option Nat} (hpc : s.consumerPc = .idle front) :
    Runs.run step s (consumerCall count (s.ring.popFrontMulti count).2.1.length) =
      { s with
        ring := (s.ring.popFrontMulti count).1,
        consumed := s.consumed ++ (s.ring.popFrontMulti count).2.1, consumerPc := .idle none } := by
  have hlen : (s.ring.popFrontMulti count).2.1.length =
      (atMost count (s.ring.inIndex - s.ring.outIndex)).toNat := by
    rw [(RingBuffer.popFrontMulti_represents count h).2, List.length_take, atMost_toNat, h.level]
  have hle : (atMost count (s.ring.inIndex - s.ring.outIndex)).toNat ≤ s.ring.capacity := by
    have hbounded := h.bounded
    rw [atMost_toNat]
    omega
  have hslots := RingBuffer.slots_length h.sized hle s.ring.outIndex
  rw [hlen, consumerCall, Runs.run_append, Runs.run_append]
  simp only [Runs.run_cons, Runs.run_nil, step, hpc, consumerStep, RingBuffer.popFrontMulti]
  by_cases hzero : atMost count (s.ring.inIndex - s.ring.outIndex) = 0
  · have hnone : (0 : BitVec 64).toNat = 0 := rfl
    simp only [hzero, if_true, hnone, List.replicate_zero, Runs.run_nil, List.append_nil]
  · simp only [if_neg hzero]
    rw [← hslots, process_run rfl]

theorem front_alone {front : Option Nat} (hpc : s.consumerPc = .idle front) :
    ∃ front', (Runs.run step s [.front,.consumer,.consumer]).consumerPc = .idle front' ∧
      front'.bind s.ring.storage = s.ring.front := by
  simp only [Runs.run_cons, Runs.run_nil, step, hpc, consumerStep, RingBuffer.front]
  split
  · exact ⟨none,rfl,rfl⟩
  · exact ⟨_,rfl,rfl⟩

end RingThreads

structure LoadedRing (A : Type) where
  ring : RingBuffer A
  contents : List A
  represents : ring.Represents contents

namespace LoadedRing

variable {A : Type}

def emptyAt (size index : BitVec 64) : LoadedRing A where
  ring := { RingBuffer.create size with inIndex := index, outIndex := index }
  contents := []
  represents :=
    ⟨⟨(RingBuffer.create_sized (A := A) size).mask⟩,⟨Nat.zero_le _,fun _ _ => rfl⟩,by simp⟩

def start (r : LoadedRing A) : RingThreads A where
  ring := r.ring
  produced := r.contents

theorem start_sound (r : LoadedRing A) : r.start.Sound r.contents where
  sized := r.represents.sized
  split := rfl
  bounded := r.represents.bounded
  holds := r.represents.holds
  level := r.represents.level.symm
  producer := trivial
  consumer := trivial

end LoadedRing

namespace RingThreads

theorem interleavings_safe {A : Type} (r : LoadedRing A) (es : List (ThreadEvent A)) :
    Runs.Throughout step SpscSafe r.start es := by
  refine Runs.throughout_imp (P := fun s => ∃ live, s.Sound live) (fun _ ⟨_,h⟩ => h.safe) ?_
  refine Runs.throughout_always ?_ ⟨_,r.start_sound⟩
  rintro s e ⟨live,h⟩
  exact step_sound e h

-- Two elements over the end of the index range.
example :
    let s := Runs.run step (LoadedRing.emptyAt 2 (-1)).start
      ([.emplaceBackMulti 2,.producer 0,.producer 0,.producer 7,.popFrontMulti 2,.producer 8,
        .producer 0] ++ List.replicate 5 .consumer)
    (s.consumed,s.ring.outIndex) = ([7,8],1) := by decide

end RingThreads

end WujiHand

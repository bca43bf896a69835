import WujiHand.Utility.RingBufferQueue

namespace WujiHand

namespace RingBuffer

variable {A S : Type}

def visitSlots (visit : Nat → Nat → S → S) (throws : Nat → Bool) :
    Nat → List Nat → S → S × Option Nat
  | _, [], s => (s,none)
  | i, slot :: slots, s =>
    if throws i then (s,some i) else visitSlots visit throws (i + 1) slots (visit i slot s)

def constructSlot (generate : Nat → A) (i slot : Nat) (storage : Nat → Option A) :
    Nat → Option A := Function.update storage slot (some (generate i))

-- The element is destroyed once the callback has returned.
def processSlot (_ slot : Nat) (s : List A × (Nat → Option A)) : List A × (Nat → Option A) :=
  (s.1 ++ (s.2 slot).toList,Function.update s.2 slot none)

def tryEmplaceBackMulti (generate : Nat → A) (throws : Nat → Bool) (count : BitVec 64)
    (r : RingBuffer A) : RingBuffer A × Except Nat (BitVec 64) :=
  let count := atMost count (r.maxSize - (r.inIndex - r.outIndex))
  if count = 0 then (r,.ok 0)
  else
    let constructed :=
      visitSlots (constructSlot generate) throws 0 (r.slots r.inIndex count) r.storage
    match constructed.2 with
    | some i => ({ r with storage := constructed.1 },.error i)
    | none => ({ r with storage := constructed.1, inIndex := r.inIndex + count },.ok count)

def tryPopFrontMulti (throws : Nat → Bool) (count : BitVec 64) (r : RingBuffer A) :
    RingBuffer A × List A × Except Nat (BitVec 64) :=
  let count := atMost count (r.inIndex - r.outIndex)
  if count = 0 then (r,[],.ok 0)
  else
    let processed := visitSlots processSlot throws 0 (r.slots r.outIndex count) ([],r.storage)
    match processed.2 with
    | some i => ({ r with storage := processed.1.2 },processed.1.1,.error i)
    | none =>
      ({ r with storage := processed.1.2, outIndex := r.outIndex + count },processed.1.1,.ok count)

section Loop

variable {visit : Nat → Nat → S → S} {throws : Nat → Bool}

theorem visitSlots_keeps {P : S → Prop} (hvisit : ∀ i slot s, P s → P (visit i slot s)) {i : Nat}
    {slots : List Nat} {s : S} (h : P s) : P (visitSlots visit throws i slots s).1 := by
  induction slots generalizing i s with
  | nil => exact h
  | cons slot slots ih =>
    rw [visitSlots]
    split
    case isTrue => exact h
    case isFalse => exact ih (hvisit i slot s h)

theorem visitSlots_complete {i : Nat} {slots : List Nat} (s : S)
    (h : ∀ j < slots.length, throws (i + j) = false) :
    visitSlots visit throws i slots s = visitSlots visit (fun _ => false) i slots s := by
  induction slots generalizing i s with
  | nil => rfl
  | cons slot slots ih =>
    have hfirst : throws i = false := h 0 (Nat.succ_pos _)
    have hrest : ∀ j < slots.length, throws (i + 1 + j) = false := fun j hj => by
      rw [Nat.add_assoc, Nat.add_comm 1 j]
      exact h (j + 1) (Nat.succ_lt_succ hj)
    rw [visitSlots, hfirst, visitSlots]
    exact ih _ hrest

theorem visitSlots_thrown {i j : Nat} {slots : List Nat} (s : S) (hj : j < slots.length)
    (h : throws (i + j) = true) : ∃ p, (visitSlots visit throws i slots s).2 = some p := by
  induction slots generalizing i j s with
  | nil => cases hj
  | cons slot slots ih =>
    rw [visitSlots]
    split
    case isTrue => exact ⟨i,rfl⟩
    case isFalse hfirst =>
      cases j with
      | zero => exact absurd h hfirst
      | succ j =>
        refine ih _ (Nat.lt_of_succ_lt_succ hj) ?_
        rwa [Nat.add_assoc, Nat.add_comm 1 j]

theorem visitSlots_error {i p : Nat} {slots : List Nat} {s : S}
    (h : (visitSlots visit throws i slots s).2 = some p) :
    throws p = true ∧ ∀ j, i ≤ j → j < p → throws j = false := by
  induction slots generalizing i s with
  | nil => cases h
  | cons slot slots ih =>
    rw [visitSlots] at h
    split at h
    case isTrue hthrows =>
      cases h
      exact ⟨hthrows,fun j hle hlt => absurd hlt (Nat.not_lt.mpr hle)⟩
    case isFalse hfirst =>
      obtain ⟨hp,hbefore⟩ := ih h
      refine ⟨hp,fun j hle hlt => ?_⟩
      rcases Nat.eq_or_lt_of_le hle with rfl | hgt
      · exact Bool.eq_false_iff.mpr hfirst
      · exact hbefore j hgt hlt

theorem construct_eq_visitSlots (generate : Nat → A) (i : Nat) (slots : List Nat)
    (storage : Nat → Option A) :
    visitSlots (constructSlot generate) (fun _ => false) i slots storage =
      (construct generate i slots storage,none) := by
  induction slots generalizing i storage with
  | nil => rfl
  | cons slot slots ih => exact ih (i + 1) (constructSlot generate i slot storage)

theorem process_eq_visitSlots (i : Nat) (slots : List Nat) (handed : List A)
    (storage : Nat → Option A) :
    visitSlots processSlot (fun _ => false) i slots (handed,storage) =
      ((handed ++ (process slots storage).1,(process slots storage).2),none) := by
  induction slots generalizing i handed storage with
  | nil => rw [visitSlots, process, List.append_nil]
  | cons slot slots ih =>
    have hrest := ih (i + 1) (handed ++ (storage slot).toList) (Function.update storage slot none)
    rw [List.append_assoc] at hrest
    exact hrest

theorem constructSlot_keeps (generate : Nat → A) (i other : Nat) {slot : Nat}
    (storage : Nat → Option A) (h : (storage slot).isSome) :
    (constructSlot generate i other storage slot).isSome := by
  rw [constructSlot]
  by_cases heq : slot = other
  · rw [heq, Function.update_self]
    rfl
  · rwa [Function.update_of_ne heq]

theorem processSlot_keeps (i other : Nat) {slot : Nat} (s : List A × (Nat → Option A))
    (h : s.2 slot = none) : (processSlot i other s).2 slot = none := by
  dsimp only [processSlot]
  by_cases heq : slot = other
  · rw [heq, Function.update_self]
  · rwa [Function.update_of_ne heq]

theorem visitSlots_constructed (generate : Nat → A) (hfirst : throws 0 = false) (slot : Nat)
    (rest : List Nat) (storage : Nat → Option A) :
    ((visitSlots (constructSlot generate) throws 0 (slot :: rest) storage).1 slot).isSome := by
  rw [visitSlots, hfirst]
  refine visitSlots_keeps (P := fun storage : Nat → Option A => (storage slot).isSome = true)
    (fun i other storage h => constructSlot_keeps generate i other storage h) ?_
  rw [constructSlot, Function.update_self]
  rfl

theorem visitSlots_processed (hfirst : throws 0 = false) (slot : Nat) (rest : List Nat)
    (s : List A × (Nat → Option A)) :
    (visitSlots processSlot throws 0 (slot :: rest) s).1.2 slot = none := by
  rw [visitSlots, hfirst]
  refine visitSlots_keeps (P := fun s : List A × (Nat → Option A) => s.2 slot = none)
    (fun i other s h => processSlot_keeps i other s h) ?_
  dsimp only [processSlot]
  rw [Function.update_self]

end Loop

variable {r : RingBuffer A} {xs : List A} {throws : Nat → Bool} {count : BitVec 64}

theorem visitSlots_stops (visit : Nat → Nat → S → S) (h : r.Sized) (hcount : count.toNat ≤ r.capacity)
    {i : Nat} (hi : i < count.toNat) (hthrows : throws i = true) (index : BitVec 64) (s : S) :
    count ≠ 0 ∧ ∃ p, (visitSlots visit throws 0 (r.slots index count) s).2 = some p := by
  constructor
  · rintro rfl
    exact absurd hi (Nat.not_lt_zero _)
  · have hlength : (r.slots index count).length = count.toNat := slots_length h hcount index
    exact visitSlots_thrown s (hi.trans_eq hlength.symm) (by rwa [Nat.zero_add])

theorem tryEmplaceBackMulti_complete (generate : Nat → A)
    (h : r.Represents xs)
    (hnone : ∀ i < min count.toNat (r.capacity - xs.length), throws i = false) :
    r.tryEmplaceBackMulti generate throws count =
      ((r.emplaceBackMulti generate count).1,.ok (r.emplaceBackMulti generate count).2) := by
  have hcount := h.writeable_count count
  unfold tryEmplaceBackMulti emplaceBackMulti
  dsimp only
  generalize atMost count (r.maxSize - (r.inIndex - r.outIndex)) = count' at hcount
  split
  case isTrue => rfl
  case isFalse =>
    have hlength : (r.slots r.inIndex count').length = count'.toNat :=
      slots_length h.sized (by omega) r.inIndex
    rw [visitSlots_complete _ (by simpa [hlength, hcount] using hnone), construct_eq_visitSlots]

theorem tryPopFrontMulti_complete (h : r.Represents xs)
    (hnone : ∀ i < min count.toNat xs.length, throws i = false) :
    r.tryPopFrontMulti throws count =
      ((r.popFrontMulti count).1,(r.popFrontMulti count).2.1,.ok (r.popFrontMulti count).2.2) := by
  have hcount := h.readable_count count
  have hfits := h.holds.fits
  unfold tryPopFrontMulti popFrontMulti
  dsimp only
  generalize atMost count (r.inIndex - r.outIndex) = count' at hcount
  split
  case isTrue => rfl
  case isFalse =>
    have hlength : (r.slots r.outIndex count').length = count'.toNat :=
      slots_length h.sized (by omega) r.outIndex
    rw [visitSlots_complete _ (by simpa [hlength, hcount] using hnone), process_eq_visitSlots]
    rfl

theorem tryEmplaceBackMulti_error {generate : Nat → A} {p : Nat}
    (h : (r.tryEmplaceBackMulti generate throws count).2 = .error p) :
    throws p = true ∧ ∀ j < p, throws j = false := by
  unfold tryEmplaceBackMulti at h
  dsimp only at h
  split at h
  case isTrue => cases h
  case isFalse =>
    split at h
    case h_1 i hi =>
      cases h
      obtain ⟨hthrows,hbefore⟩ := visitSlots_error hi
      exact ⟨hthrows,fun j hj => hbefore j (Nat.zero_le j) hj⟩
    case h_2 => cases h

theorem tryEmplaceBackMulti_thrown (generate : Nat → A) (h : r.Represents xs) {i : Nat}
    (hi : i < min count.toNat (r.capacity - xs.length)) (hthrows : throws i = true) :
    ∃ p, (r.tryEmplaceBackMulti generate throws count).2 = .error p := by
  have hcount := h.writeable_count count
  unfold tryEmplaceBackMulti
  dsimp only
  generalize atMost count (r.maxSize - (r.inIndex - r.outIndex)) = count' at hcount
  obtain ⟨hpos,p,hp⟩ := visitSlots_stops (constructSlot generate) h.sized (by omega)
    (hi.trans_eq hcount.symm) hthrows r.inIndex r.storage
  rw [if_neg hpos, hp]
  exact ⟨p,rfl⟩

theorem slots_first (h : r.Sized) {count : BitVec 64} (hcount : count.toNat ≤ r.capacity)
    (hpos : count ≠ 0) (index : BitVec 64) :
    ∃ rest, r.slots index count = Circular.slot r.capacity index.toNat 0 :: rest := by
  have hne : count.toNat ≠ 0 := fun hzero => hpos (BitVec.eq_of_toNat_eq hzero)
  obtain ⟨m,hm⟩ := Nat.exists_eq_succ_of_ne_zero hne
  rw [slots_eq h hcount, hm, List.range_succ_eq_map, List.map_cons]
  exact ⟨_,rfl⟩

theorem tryEmplaceBackMulti_first (generate : Nat → A) (h : r.Represents xs)
    (hthrows : throws 0 = true) : (r.tryEmplaceBackMulti generate throws count).1 = r := by
  have hcount : (atMost count (r.maxSize - (r.inIndex - r.outIndex))).toNat ≤ r.capacity := by
    rw [h.writeable_count]
    omega
  unfold tryEmplaceBackMulti
  dsimp only
  split
  case isTrue => rfl
  case isFalse hpos =>
    obtain ⟨rest,hrest⟩ := slots_first h.sized hcount hpos r.inIndex
    rw [hrest, visitSlots, hthrows]
    rfl

theorem tryPopFrontMulti_first (h : r.Represents xs) (hthrows : throws 0 = true) :
    (r.tryPopFrontMulti throws count).1 = r := by
  have hfits := h.holds.fits
  have hcount : (atMost count (r.inIndex - r.outIndex)).toNat ≤ r.capacity := by
    rw [h.readable_count]
    omega
  unfold tryPopFrontMulti
  dsimp only
  split
  case isTrue => rfl
  case isFalse hpos =>
    obtain ⟨rest,hrest⟩ := slots_first h.sized hcount hpos r.outIndex
    rw [hrest, visitSlots, hthrows]
    rfl

theorem tryEmplaceBackMulti_broken (generate : Nat → A) (h : r.Represents xs)
    (hfirst : throws 0 = false) {i : Nat} (hi : i < min count.toNat (r.capacity - xs.length))
    (hthrows : throws i = true) : ¬(r.tryEmplaceBackMulti generate throws count).1.WindowLive := by
  have hcount := h.writeable_count count
  unfold tryEmplaceBackMulti
  dsimp only
  generalize atMost count (r.maxSize - (r.inIndex - r.outIndex)) = count' at hcount
  obtain ⟨hpos,p,hp⟩ := visitSlots_stops (constructSlot generate) h.sized (by omega)
    (hi.trans_eq hcount.symm) hthrows r.inIndex r.storage
  rw [if_neg hpos, hp]
  intro hlive
  have hlast := slot_in h.sized h.bounded 0
  rw [h.level, Nat.add_zero] at hlast
  obtain ⟨rest,hrest⟩ := slots_first h.sized (show count'.toNat ≤ r.capacity by omega) hpos r.inIndex
  have hsome := visitSlots_constructed generate hfirst
    (Circular.slot r.capacity r.inIndex.toNat 0) rest r.storage
  rw [← hrest, hlast] at hsome
  have hinside : xs.length < (r.inIndex - r.outIndex).toNat :=
    (hlive xs.length (show xs.length < r.capacity by omega)).mp hsome
  rw [h.level] at hinside
  exact Nat.lt_irrefl _ hinside

theorem tryPopFrontMulti_broken (h : r.Represents xs) (hfirst : throws 0 = false) {i : Nat}
    (hi : i < min count.toNat xs.length) (hthrows : throws i = true) :
    ¬(r.tryPopFrontMulti throws count).1.WindowLive := by
  have hcount := h.readable_count count
  have hfits := h.holds.fits
  unfold tryPopFrontMulti
  dsimp only
  generalize atMost count (r.inIndex - r.outIndex) = count' at hcount
  obtain ⟨hpos,p,hp⟩ := visitSlots_stops processSlot h.sized (by omega)
    (hi.trans_eq hcount.symm) hthrows r.outIndex ([],r.storage)
  rw [if_neg hpos, hp]
  intro hlive
  have hinside : 0 < (r.inIndex - r.outIndex).toNat := by
    rw [h.level]
    omega
  have hsome : ((visitSlots processSlot throws 0 (r.slots r.outIndex count')
      ([],r.storage)).1.2 (Circular.slot r.capacity r.outIndex.toNat 0)).isSome :=
    (hlive 0 (show 0 < r.capacity by omega)).mpr hinside
  obtain ⟨rest,hrest⟩ :=
    slots_first h.sized (show count'.toNat ≤ r.capacity by omega) hpos r.outIndex
  rw [hrest, visitSlots_processed hfirst] at hsome
  cases hsome

end RingBuffer

inductive ThrowingCall (A : Type) where
  | pushBackMulti (generate : Nat → A) (throws : Nat → Bool) (count : BitVec 64)
  | popFrontMulti (throws : Nat → Bool) (count : BitVec 64)

namespace ThrowingCall

variable {A : Type}

def apply (r : RingBuffer A) : ThrowingCall A → RingBuffer A
  | pushBackMulti generate throws count => (r.tryEmplaceBackMulti generate throws count).1
  | popFrontMulti throws count => (r.tryPopFrontMulti throws count).1

def throws : ThrowingCall A → Nat → Bool
  | pushBackMulti _ throws _ => throws
  | popFrontMulti throws _ => throws

def batch (r : RingBuffer A) : ThrowingCall A → Nat
  | pushBackMulti _ _ count => min count.toNat (r.capacity - r.readable.toNat)
  | popFrontMulti _ count => min count.toNat r.readable.toNat

def FirstOrNone (r : RingBuffer A) (call : ThrowingCall A) : Prop :=
  call.throws 0 = true ∨ ∀ i < call.batch r, call.throws i = false

instance (r : RingBuffer A) (call : ThrowingCall A) : Decidable (FirstOrNone r call) :=
  inferInstanceAs (Decidable (call.throws 0 = true ∨ ∀ i < call.batch r, call.throws i = false))

theorem apply_represents {r : RingBuffer A} {xs : List A} (h : r.Represents xs)
    {call : ThrowingCall A} (hcall : FirstOrNone r call) :
    ∃ ys, (apply r call).Represents ys := by
  cases call with
  | pushBackMulti generate throws count =>
    rcases hcall with hfirst | hnone
    · change throws 0 = true at hfirst
      refine ⟨xs,?_⟩
      rw [apply, RingBuffer.tryEmplaceBackMulti_first generate h hfirst]
      exact h
    · simp only [batch, RingBuffer.readable_toNat h] at hnone
      change ∀ i < min count.toNat (r.capacity - xs.length), throws i = false at hnone
      obtain ⟨m,_,hpushed,_⟩ := RingBuffer.emplaceBackMulti_represents generate count h
      refine ⟨xs ++ (List.range m).map generate,?_⟩
      rw [apply, RingBuffer.tryEmplaceBackMulti_complete generate h hnone]
      exact hpushed
  | popFrontMulti throws count =>
    rcases hcall with hfirst | hnone
    · change throws 0 = true at hfirst
      refine ⟨xs,?_⟩
      rw [apply, RingBuffer.tryPopFrontMulti_first h hfirst]
      exact h
    · simp only [batch, RingBuffer.readable_toNat h] at hnone
      change ∀ i < min count.toNat xs.length, throws i = false at hnone
      refine ⟨xs.drop count.toNat,?_⟩
      rw [apply, RingBuffer.tryPopFrontMulti_complete h hnone]
      exact (RingBuffer.popFrontMulti_represents count h).1

theorem apply_broken {r : RingBuffer A} {xs : List A} (h : r.Represents xs)
    {call : ThrowingCall A} (hcall : ¬FirstOrNone r call) : ¬(apply r call).WindowLive := by
  simp only [FirstOrNone, not_or, Bool.not_eq_true, not_forall, Bool.not_eq_false] at hcall
  obtain ⟨hfirst,i,hi,hthrows⟩ := hcall
  cases call with
  | pushBackMulti generate throws count =>
    rw [batch, RingBuffer.readable_toNat h] at hi
    exact RingBuffer.tryEmplaceBackMulti_broken generate h hfirst hi hthrows
  | popFrontMulti throws count =>
    rw [batch, RingBuffer.readable_toNat h] at hi
    exact RingBuffer.tryPopFrontMulti_broken h hfirst hi hthrows

theorem windowLive_iff (size : BitVec 64) (calls : List (ThrowingCall A)) :
    Runs.Throughout apply RingBuffer.WindowLive (.create size) calls ↔
      Runs.Along apply FirstOrNone (.create size) calls := by
  refine Runs.throughout_iff_along_of (Q := fun r => ∃ xs, r.Represents xs)
    (E := fun _ _ => True) ?_ ?_ ?_ ⟨[],RingBuffer.create_represents size⟩ ?_
  · rintro r call ⟨xs,h⟩ _ hcall
    exact apply_represents h hcall
  · rintro r ⟨xs,h⟩
    exact h.windowLive
  · rintro r call ⟨xs,h⟩ _ hcall
    exact apply_broken h hcall
  · exact Runs.along_true _ _

end ThrowingCall

end WujiHand

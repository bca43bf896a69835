import WujiHand.Library.Wakeups
import WujiHand.Utility.RingBufferThreads

namespace WujiHand

open Wakeups

inductive WaitDataPc where
  | away
  | loadOut
  | loadIn (outIndex : BitVec 64)
  | comparing (inIndex : BitVec 64)
  | asleep (inIndex : BitVec 64)
  | returned
deriving DecidableEq, Repr

namespace WaitDataPc

def wake : WaitDataPc → WaitDataPc
  | asleep inIndex => comparing inIndex
  | pc => pc

def waiter : WaitDataPc → Waiter (BitVec 64)
  | comparing inIndex => .comparing inIndex
  | asleep inIndex => .asleep inIndex
  | _ => .away

def inside : WaitDataPc → Bool
  | loadOut | loadIn _ | comparing _ | asleep _ => true
  | away | returned => false

def remaining : WaitDataPc → Nat
  | loadOut => 2
  | loadIn _ | comparing _ | asleep _ => 1
  | away | returned => 0

theorem wake_waiter (pc : WaitDataPc) : pc.wake.waiter = pc.waiter.wake := by
  cases pc <;> rfl

end WaitDataPc

inductive RingWaitEvent (A : Type) where
  | thread (e : ThreadEvent A)
  | waitData
  | wake

namespace RingWaitEvent

variable {A : Type}

def isConsumer : RingWaitEvent A → Bool
  | thread .consumer => true
  | _ => false

def isCall : RingWaitEvent A → Bool
  | thread .front | thread (.popFrontMulti _) | waitData => true
  | _ => false

end RingWaitEvent

-- The producer is in `notify_one` while `notifying`; `returned` lasts until the next call.
structure RingWaits (A : Type) where
  threads : RingThreads A
  notifying : Bool := false
  waitPc : WaitDataPc := .away

namespace RingWaits

variable {A : Type}

def storesIn (s : RingWaits A) : Bool :=
  match s.threads.producerPc with
  | .construct _ _ [] => true
  | _ => false

def producerStep (value : A) (s : RingWaits A) : RingWaits A :=
  if s.notifying then { s with notifying := false, waitPc := s.waitPc.wake }
  else { s with threads := s.threads.producerStep value, notifying := s.storesIn }

def consumerStep (s : RingWaits A) : RingWaits A :=
  match s.waitPc with
  | .away | .returned => { s with threads := s.threads.consumerStep }
  | .loadOut => { s with waitPc := .loadIn s.threads.ring.outIndex }
  | .loadIn outIndex =>
    if s.threads.ring.inIndex ≠ outIndex then { s with waitPc := .returned }
    else { s with waitPc := .comparing s.threads.ring.inIndex }
  | .comparing inIndex =>
    if s.threads.ring.inIndex = inIndex then { s with waitPc := .asleep inIndex }
    else { s with waitPc := .returned }
  | .asleep _ => s

def consumerCall (e : ThreadEvent A) (s : RingWaits A) : RingWaits A :=
  if s.waitPc.inside then s
  else { s with threads := s.threads.step e, waitPc := .away }

def waitData (s : RingWaits A) : RingWaits A :=
  match s.threads.consumerPc with
  | .idle _ => if s.waitPc.inside then s else { s with waitPc := .loadOut }
  | _ => s

def step (s : RingWaits A) : RingWaitEvent A → RingWaits A
  | .thread (.producer value) => s.producerStep value
  | .thread (.emplaceBackMulti count) =>
    if s.notifying then s else { s with threads := s.threads.step (.emplaceBackMulti count) }
  | .thread .consumer => s.consumerStep
  | .thread .front => s.consumerCall .front
  | .thread (.popFrontMulti count) => s.consumerCall (.popFrontMulti count)
  | .waitData => s.waitData
  | .wake => { s with waitPc := s.waitPc.wake }

def Readable (s : RingWaits A) : Prop := s.threads.ring.inIndex ≠ s.threads.ring.outIndex

def cell (s : RingWaits A) : Cell (BitVec 64) where
  value := s.threads.ring.inIndex
  waiter := s.waitPc.waiter
  announced := s.notifying.toNat

def Stored (old value : BitVec 64) : Prop := value ≠ old

instance (s : RingWaits A) : Decidable s.Readable :=
  inferInstanceAs (Decidable (s.threads.ring.inIndex ≠ s.threads.ring.outIndex))

end RingWaits

namespace RingThreads

variable {A : Type} {s : RingThreads A} {live : List A}

theorem producerStep_consumer (value : A) (s : RingThreads A) :
    (s.producerStep value).consumerPc = s.consumerPc ∧
      (s.producerStep value).ring.outIndex = s.ring.outIndex := by
  unfold producerStep
  split
  case h_3 =>
    dsimp only
    split <;> exact ⟨rfl,rfl⟩
  all_goals exact ⟨rfl,rfl⟩

theorem consumerStep_inIndex (s : RingThreads A) :
    s.consumerStep.ring.inIndex = s.ring.inIndex := by
  unfold consumerStep
  split
  case h_3 => split <;> rfl
  case h_5 =>
    dsimp only
    split <;> rfl
  all_goals rfl

theorem step_ring_of_call {e : ThreadEvent A}
    (he : e ≠ .consumer) (hvalue : ∀ value, e ≠ .producer value) : (s.step e).ring = s.ring := by
  cases e with
  | producer value => exact absurd rfl (hvalue value)
  | consumer => exact absurd rfl he
  | _ =>
    simp only [step]
    split <;> rfl

theorem Sound.readable_producerStep (h : s.Sound live) (value : A)
    (hreadable : s.ring.inIndex ≠ s.ring.outIndex) :
    (s.producerStep value).ring.inIndex ≠ (s.producerStep value).ring.outIndex := by
  have hproducer := h.producer
  have hcap : s.ring.capacity < 2 ^ 64 := s.ring.maxSize.isLt
  unfold producerStep
  split
  case h_3 =>
    dsimp only
    split <;> exact hreadable
  case h_4 count inIndex hpc =>
    rw [hpc] at hproducer
    obtain ⟨rfl,hroom,_⟩ := hproducer
    dsimp only
    intro hsame
    bv_omega
  all_goals exact hreadable

end RingThreads

namespace RingWaits

variable {A : Type} {s : RingWaits A}

theorem producerStep_inIndex (value : A) (h : s.storesIn = false) :
    (s.threads.producerStep value).ring.inIndex = s.threads.ring.inIndex := by
  unfold RingThreads.producerStep
  split
  case h_3 =>
    dsimp only
    split <;> rfl
  case h_4 hpc => simp [storesIn, hpc] at h
  all_goals rfl

theorem producerStep_move (value : A) (s : RingWaits A) :
    Move Stored s.cell (s.producerStep value).cell := by
  cases hnotifying : s.notifying with
  | true =>
    have hnext : (s.producerStep value).cell =
        { s.cell with waiter := s.cell.waiter.wake, announced := s.cell.announced - 1 } := by
      simp [producerStep, cell, hnotifying, WaitDataPc.wake_waiter]
    exact hnext ▸ .notified _
  | false =>
    have hnext : (s.producerStep value).cell =
        { s.cell with
          value := (s.threads.producerStep value).ring.inIndex,
          announced := s.cell.announced + s.storesIn.toNat } := by
      simp [producerStep, cell, hnotifying]
    cases hstores : s.storesIn with
    | true => exact hnext ▸ .stored _ _ fun _ _ _ => by simp [hstores]
    | false =>
      refine .of_eq (hnext.trans ?_)
      rw [producerStep_inIndex value hstores, hstores]
      rfl

theorem consumerStep_move (s : RingWaits A) : Move Stored s.cell s.consumerStep.cell := by
  cases hpc : s.waitPc with
  | away =>
    refine .of_eq ?_
    simp [consumerStep, cell, hpc, RingThreads.consumerStep_inIndex]
  | returned =>
    refine .of_eq ?_
    simp [consumerStep, cell, hpc, RingThreads.consumerStep_inIndex]
  | loadOut =>
    refine .of_eq ?_
    simp [consumerStep, cell, hpc, WaitDataPc.waiter]
  | loadIn outIndex =>
    by_cases hin : s.threads.ring.inIndex = outIndex
    · have hnext : s.consumerStep.cell = { s.cell with waiter := .comparing s.cell.value } := by
        simp [consumerStep, cell, hpc, hin, WaitDataPc.waiter]
      exact hnext ▸ .waited _ _ fun hne => hne rfl
    · refine .of_eq ?_
      simp [consumerStep, cell, hpc, hin, WaitDataPc.waiter]
  | comparing inIndex =>
    by_cases hin : s.threads.ring.inIndex = inIndex
    · have hnext : s.consumerStep.cell = { s.cell with waiter := .asleep s.cell.value } := by
        simp [consumerStep, cell, hpc, hin, WaitDataPc.waiter]
      exact hnext ▸ .slept (by simp [cell, hpc, hin, WaitDataPc.waiter])
    · have hnext : s.consumerStep.cell = { s.cell with waiter := .away } := by
        simp [consumerStep, cell, hpc, hin, WaitDataPc.waiter]
      exact hnext ▸ .left _
  | asleep inIndex =>
    refine .of_eq ?_
    simp [consumerStep, hpc]

theorem consumerCall_move {e : ThreadEvent A} (he : e ≠ .consumer)
    (hvalue : ∀ value, e ≠ .producer value) (s : RingWaits A) :
    Move Stored s.cell (s.consumerCall e).cell := by
  refine .of_eq ?_
  cases hpc : s.waitPc <;>
    simp [consumerCall, cell, hpc, WaitDataPc.inside, WaitDataPc.waiter,
      RingThreads.step_ring_of_call he hvalue]

theorem step_move (s : RingWaits A) (e : RingWaitEvent A) : Move Stored s.cell (s.step e).cell := by
  match e with
  | .thread (.producer value) => exact producerStep_move value s
  | .thread (.emplaceBackMulti count) =>
    refine .of_eq ?_
    simp only [step]
    split
    · rfl
    · simp [cell, RingThreads.step_ring_of_call]
  | .thread .consumer => exact consumerStep_move s
  | .thread .front => exact consumerCall_move (by simp) (by simp) s
  | .thread (.popFrontMulti count) => exact consumerCall_move (by simp) (by simp) s
  | .waitData =>
    refine .of_eq ?_
    simp only [step, waitData]
    split
    · cases hpc : s.waitPc <;> simp [cell, hpc, WaitDataPc.inside, WaitDataPc.waiter]
    · rfl
  | .wake =>
    have hnext : (s.step .wake).cell = { s.cell with waiter := s.cell.waiter.wake } :=
      congrArg (fun w => { s.cell with waiter := w }) (WaitDataPc.wake_waiter s.waitPc)
    exact hnext ▸ .woken _

def Loaded (s : RingWaits A) : Prop :=
  match s.waitPc with
  | .away => True
  | .loadOut => ∃ front, s.threads.consumerPc = .idle front
  | .loadIn outIndex =>
    (∃ front, s.threads.consumerPc = .idle front) ∧ outIndex = s.threads.ring.outIndex
  | .comparing inIndex | .asleep inIndex =>
    (∃ front, s.threads.consumerPc = .idle front) ∧ inIndex = s.threads.ring.outIndex
  | .returned => (∃ front, s.threads.consumerPc = .idle front) ∧ s.Readable

structure Held (s : RingWaits A) : Prop where
  threads : ∃ live, s.threads.Sound live
  kept : Kept Stored s.cell
  loaded : s.Loaded

theorem Held.start (r : LoadedRing A) : Held ⟨r.start,false,.away⟩ :=
  ⟨⟨_,r.start_sound⟩,kept_away _ _,trivial⟩

theorem Loaded.wake (h : s.Loaded) : ({ s with waitPc := s.waitPc.wake } : RingWaits A).Loaded := by
  cases hpc : s.waitPc with
  | away => simp [Loaded, WaitDataPc.wake]
  | returned => simpa [Loaded, Readable, hpc, WaitDataPc.wake] using h
  | _ => simpa [Loaded, hpc, WaitDataPc.wake] using h

theorem Held.producerStep (h : s.Held) (value : A) : (s.producerStep value).Loaded := by
  unfold RingWaits.producerStep
  split
  · exact Loaded.wake h.loaded
  · obtain ⟨live,hsound⟩ := h.threads
    obtain ⟨hconsumer,hout⟩ := RingThreads.producerStep_consumer value s.threads
    have hloaded := h.loaded
    cases hpc : s.waitPc with
    | away => simp [Loaded]
    | returned =>
      simp only [Loaded, hpc, hconsumer] at hloaded ⊢
      exact ⟨hloaded.1,hsound.readable_producerStep value hloaded.2⟩
    | _ => simpa [Loaded, hpc, hconsumer, hout] using hloaded

theorem Held.consumerStep (h : s.Held) : s.consumerStep.Loaded := by
  have hloaded := h.loaded
  unfold RingWaits.consumerStep
  split
  case h_1 hpc => simp [Loaded, hpc]
  case h_2 hpc =>
    simp only [Loaded, hpc] at hloaded
    obtain ⟨⟨front,hidle⟩,hreadable⟩ := hloaded
    have hstays : s.threads.consumerStep = s.threads := by
      simp only [RingThreads.consumerStep, hidle]
    simp only [Loaded, hpc, hstays]
    exact ⟨⟨front,hidle⟩,hreadable⟩
  case h_3 hpc =>
    simp only [Loaded, hpc] at hloaded
    exact ⟨hloaded,rfl⟩
  case h_4 outIndex hpc =>
    simp only [Loaded, hpc] at hloaded
    obtain ⟨hidle,rfl⟩ := hloaded
    split
    case isTrue hne => exact ⟨hidle,hne⟩
    case isFalse heq => exact ⟨hidle,not_not.mp heq⟩
  case h_5 inIndex hpc =>
    simp only [Loaded, hpc] at hloaded
    obtain ⟨hidle,rfl⟩ := hloaded
    split
    case isTrue => exact ⟨hidle,rfl⟩
    case isFalse hne => exact ⟨hidle,hne⟩
  case h_6 inIndex hpc => exact h.loaded

theorem step_threads (s : RingWaits A) (e : RingWaitEvent A) :
    (s.step e).threads = s.threads ∨ ∃ e', (s.step e).threads = s.threads.step e' := by
  match e with
  | .thread (.producer value) =>
    simp only [step, producerStep]
    split
    · exact .inl rfl
    · exact .inr ⟨.producer value,rfl⟩
  | .thread (.emplaceBackMulti count) =>
    simp only [step]
    split
    · exact .inl rfl
    · exact .inr ⟨.emplaceBackMulti count,rfl⟩
  | .thread .consumer =>
    cases hpc : s.waitPc with
    | away => exact .inr ⟨.consumer,by simp only [step, consumerStep, hpc, RingThreads.step]⟩
    | returned => exact .inr ⟨.consumer,by simp only [step, consumerStep, hpc, RingThreads.step]⟩
    | loadOut | asleep => exact .inl (by simp only [step, consumerStep, hpc])
    | loadIn | comparing =>
      simp only [step, consumerStep, hpc]
      split <;> exact .inl rfl
  | .thread .front =>
    simp only [step, consumerCall]
    split
    · exact .inl rfl
    · exact .inr ⟨.front,rfl⟩
  | .thread (.popFrontMulti count) =>
    simp only [step, consumerCall]
    split
    · exact .inl rfl
    · exact .inr ⟨.popFrontMulti count,rfl⟩
  | .waitData =>
    simp only [step, waitData]
    split
    · split <;> exact .inl rfl
    · exact .inl rfl
  | .wake => exact .inl rfl

theorem Held.loaded_step (h : s.Held) (e : RingWaitEvent A) : (s.step e).Loaded := by
  have hcall (e : ThreadEvent A) : (s.consumerCall e).Loaded := by
    unfold consumerCall
    split
    · exact h.loaded
    · trivial
  match e with
  | .thread (.producer value) => exact h.producerStep value
  | .thread (.emplaceBackMulti count) =>
    simp only [RingWaits.step]
    split
    · exact h.loaded
    · have hsame : (s.threads.step (.emplaceBackMulti count)).consumerPc = s.threads.consumerPc := by
        simp only [RingThreads.step]
        split <;> rfl
      have hring : (s.threads.step (.emplaceBackMulti count)).ring = s.threads.ring :=
        RingThreads.step_ring_of_call (by simp) (by simp)
      have hloaded := h.loaded
      cases hpc : s.waitPc with
      | away => simp [Loaded]
      | _ => simpa [Loaded, Readable, hpc, hsame, hring] using hloaded
  | .thread .consumer => exact h.consumerStep
  | .thread .front => exact hcall .front
  | .thread (.popFrontMulti count) => exact hcall (.popFrontMulti count)
  | .waitData =>
    simp only [RingWaits.step, waitData]
    split
    case h_1 front hpc =>
      split
      · exact h.loaded
      · exact ⟨front,hpc⟩
    case h_2 => exact h.loaded
  | .wake => exact Loaded.wake h.loaded

theorem Held.step (h : s.Held) (e : RingWaitEvent A) : (s.step e).Held := by
  refine ⟨?_,h.kept.move (step_move s e),h.loaded_step e⟩
  obtain ⟨live,hsound⟩ := h.threads
  obtain hsame | ⟨e',hnext⟩ := step_threads s e
  · exact ⟨live,hsame ▸ hsound⟩
  · rw [hnext]
    exact RingThreads.step_sound e' hsound

structure Awaits (s : RingWaits A) : Prop where
  safe : s.threads.SpscSafe
  asleep : ∀ inIndex, s.waitPc = .asleep inIndex → s.notifying = true ∨ ¬s.Readable
  returned : s.waitPc = .returned → s.Readable

theorem Held.unread (h : s.Held) (hquiet : s.notifying = false) {inIndex : BitVec 64}
    (hasleep : s.waitPc = .asleep inIndex) : ¬s.Readable := by
  have hloaded := h.loaded
  simp only [Loaded, hasleep] at hloaded
  have hstored : ¬Stored inIndex s.threads.ring.inIndex :=
    h.kept.not_released (by simp [cell, hquiet]) (by simp [cell, hasleep, WaitDataPc.waiter])
  exact fun hreadable => hstored (hloaded.2 ▸ hreadable)

theorem Held.awaits (h : s.Held) : s.Awaits where
  safe := h.threads.elim fun _ hsound => hsound.safe
  asleep := by
    intro inIndex hasleep
    cases hquiet : s.notifying with
    | true => exact .inl rfl
    | false => exact .inr (h.unread hquiet hasleep)
  returned := by
    intro hpc
    have hloaded := h.loaded
    simp only [Loaded, hpc] at hloaded
    exact hloaded.2

structure Returning (s : RingWaits A) : Prop where
  held : s.Held
  readable : s.Readable
  pc : s.waitPc ≠ .away ∧ ∀ inIndex, s.waitPc ≠ .asleep inIndex

theorem Returning.consumerStep (h : s.Returning) :
    s.consumerStep.Returning ∧ s.consumerStep.waitPc.remaining = s.waitPc.remaining - 1 := by
  have hloaded := h.held.loaded
  have hheld : s.consumerStep.Held := h.held.step (.thread .consumer)
  have hreadable := h.readable
  cases hpc : s.waitPc with
  | away => exact absurd hpc h.pc.1
  | asleep inIndex => exact absurd hpc (h.pc.2 inIndex)
  | loadOut =>
    have hnext : s.consumerStep = { s with waitPc := .loadIn s.threads.ring.outIndex } := by
      simp only [RingWaits.consumerStep, hpc]
    rw [hnext] at hheld ⊢
    exact ⟨⟨hheld,h.readable,by simp⟩,rfl⟩
  | loadIn outIndex =>
    simp only [Loaded, hpc] at hloaded
    obtain ⟨-,rfl⟩ := hloaded
    have hnext : s.consumerStep = { s with waitPc := .returned } := by
      simp only [RingWaits.consumerStep, hpc, if_pos (show s.threads.ring.inIndex ≠ _ from h.readable)]
    rw [hnext] at hheld ⊢
    exact ⟨⟨hheld,h.readable,by simp⟩,rfl⟩
  | comparing inIndex =>
    simp only [Loaded, hpc] at hloaded
    obtain ⟨-,rfl⟩ := hloaded
    have hnext : s.consumerStep = { s with waitPc := .returned } := by
      simp only [RingWaits.consumerStep, hpc, if_neg (show ¬s.threads.ring.inIndex = _ from h.readable)]
    rw [hnext] at hheld ⊢
    exact ⟨⟨hheld,h.readable,by simp⟩,rfl⟩
  | returned =>
    simp only [Loaded, hpc] at hloaded
    obtain ⟨⟨front,hidle⟩,-⟩ := hloaded
    have hnext : s.consumerStep = s := by
      simp only [RingWaits.consumerStep, hpc, RingThreads.consumerStep, hidle]
      rw [← hpc]
    rw [hnext, hpc]
    exact ⟨h,rfl⟩

theorem Held.others (h : s.Held) (hreadable : s.Readable) {e : RingWaitEvent A}
    (hcall : e.isCall = false) (hconsumer : e.isConsumer = false) :
    (s.step e).Readable ∧ ((s.step e).waitPc = s.waitPc ∨ (s.step e).waitPc = s.waitPc.wake) := by
  obtain ⟨live,hsound⟩ := h.threads
  match e with
  | .thread (.producer value) =>
    simp only [RingWaits.step, RingWaits.producerStep]
    split
    · exact ⟨hreadable,.inr rfl⟩
    · exact ⟨hsound.readable_producerStep value hreadable,.inl rfl⟩
  | .thread (.emplaceBackMulti count) =>
    have hring : (s.threads.step (.emplaceBackMulti count)).ring = s.threads.ring :=
      RingThreads.step_ring_of_call (by simp) (by simp)
    simp only [RingWaits.step]
    split
    · exact ⟨hreadable,.inl rfl⟩
    · exact ⟨by simpa only [Readable, hring] using hreadable,.inl rfl⟩
  | .thread .consumer => cases hconsumer
  | .thread .front => cases hcall
  | .thread (.popFrontMulti count) => cases hcall
  | .waitData => cases hcall
  | .wake => exact ⟨hreadable,.inr rfl⟩

theorem Returning.step (h : s.Returning) {e : RingWaitEvent A} (hcall : e.isCall = false) :
    (s.step e).Returning ∧
      (s.step e).waitPc.remaining = s.waitPc.remaining - e.isConsumer.toNat := by
  cases hconsumer : e.isConsumer with
  | true =>
    have hnext : s.step e = s.consumerStep := by
      match e with
      | .thread .consumer => rfl
    rw [hnext]
    exact h.consumerStep
  | false =>
    have hwake : s.waitPc.wake = s.waitPc := by
      cases hpc : s.waitPc with
      | asleep inIndex => exact absurd hpc (h.pc.2 inIndex)
      | _ => rfl
    obtain ⟨hreadable,hpc⟩ := h.held.others h.readable hcall hconsumer
    have hsame : (s.step e).waitPc = s.waitPc := hpc.elim id fun hwoken => hwoken.trans hwake
    exact ⟨⟨h.held.step e,hreadable,by rw [hsame]; exact h.pc⟩,by rw [hsame]; rfl⟩

theorem Returning.run (h : s.Returning) {later : List (RingWaitEvent A)}
    (hcalls : ∀ e ∈ later, e.isCall = false) :
    (Runs.run RingWaits.step s later).Returning ∧
      (Runs.run RingWaits.step s later).waitPc.remaining =
        s.waitPc.remaining - later.countP RingWaitEvent.isConsumer := by
  induction later generalizing s with
  | nil => exact ⟨h,rfl⟩
  | cons e later ih =>
    obtain ⟨hcall,hrest⟩ := List.forall_mem_cons.mp hcalls
    obtain ⟨hnext,hstep⟩ := h.step hcall
    obtain ⟨hlast,hrun⟩ := ih hnext hrest
    refine ⟨hlast,?_⟩
    rw [Runs.run_cons, hrun, hstep, List.countP_cons]
    cases e.isConsumer <;> simp [Nat.sub_sub, Nat.add_comm]

theorem wait_data_wakes (r : LoadedRing A) (events later : List (RingWaitEvent A)) :
    Runs.Throughout step Awaits ⟨r.start,false,.away⟩ (events ++ later) ∧
      let s : RingWaits A := Runs.run step ⟨r.start,false,.away⟩ events
      s.waitPc.inside = true → s.Readable → s.notifying = false →
        (∀ e ∈ later, e.isCall = false) → 2 ≤ later.countP RingWaitEvent.isConsumer →
          (Runs.run step s later).waitPc = .returned := by
  have hheld : Held (⟨r.start,false,.away⟩ : RingWaits A) := .start r
  constructor
  · exact Runs.throughout_imp (fun _ h => h.awaits)
      (Runs.throughout_always (fun _ e h => h.step e) hheld)
  · intro s hinside hreadable hquiet hcalls hturns
    have hs : s.Held := Runs.run_invariant (fun _ e h => h.step e) hheld
    have hreturning : s.Returning := by
      refine ⟨hs,hreadable,?_,fun inIndex hasleep => hs.unread hquiet hasleep hreadable⟩
      intro haway
      rw [haway] at hinside
      cases hinside
    obtain ⟨hlast,hzero⟩ := hreturning.run hcalls
    have hle : s.waitPc.remaining ≤ 2 := by cases s.waitPc <;> simp [WaitDataPc.remaining]
    have hdone : (Runs.run RingWaits.step s later).waitPc.remaining = 0 := by omega
    cases hpc : (Runs.run RingWaits.step s later).waitPc with
    | returned => rfl
    | away => exact absurd hpc hlast.pc.1
    | _ => simp [hpc, WaitDataPc.remaining] at hdone

-- The element is stored between the two loads of wait_data; the notification comes to nobody.
theorem wait_data_wakes_between :
    let s : RingWaits Nat := Runs.run step ⟨(LoadedRing.emptyAt 2 (-1)).start,false,.away⟩
      [.waitData,.thread .consumer,.thread (.emplaceBackMulti 1),.thread (.producer 0),
        .thread (.producer 0),.thread (.producer 7),.thread (.producer 0),.thread (.producer 0)]
    (Runs.run step s [.thread .consumer,.wake,.thread .consumer]).waitPc = .returned :=
  (wait_data_wakes (LoadedRing.emptyAt 2 (-1)) _ _).2 (by decide) (by decide) (by decide)
    (by decide) (by decide)

end RingWaits

end WujiHand

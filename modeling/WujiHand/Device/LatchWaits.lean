import WujiHand.Device.LatchRounds
import WujiHand.Library.Wakeups

namespace WujiHand

open Wakeups

-- The rounds of a latch whose owner sleeps inside atomic::wait until somebody notifies it.
structure LatchWaits where
  rounds : LatchRounds := {}
  asleep : Bool := false

inductive WaitEvent where
  | round (e : RoundEvent)
  | wake

def WaitEvent.isOwner : WaitEvent → Bool
  | .round .owner => true
  | _ => false

def WaitEvent.isCall : WaitEvent → Bool
  | .round .countUp | .round .wait => true
  | _ => false

theorem WaitEvent.eq_owner {e : WaitEvent} (h : e.isOwner = true) : e = .round .owner := by
  cases e with
  | round e => cases e <;> first | rfl | cases h
  | wake => cases h

namespace OperationPc

def notifying : OperationPc → Bool
  | .countDown .notify => true
  | _ => false

end OperationPc

namespace TryWaitPc

def remaining : TryWaitPc → Nat
  | .counting | .countedUp => 0
  | .returning _ => 1
  | .exchange => 2
  | .load => 3
  | .blocked _ => 4

end TryWaitPc

namespace LatchWaits

def ownerStep (s : LatchWaits) : LatchWaits :=
  match s.rounds.owner with
  | .blocked current =>
    if s.asleep then s
    else if s.rounds.words.waitingCount = current then { s with asleep := true }
    else { s with rounds := s.rounds.ownerStep }
  | _ => { rounds := s.rounds.ownerStep, asleep := false }

def countDownStep (i : Nat) (s : LatchWaits) : LatchWaits where
  rounds := s.rounds.countDownStep i
  asleep := if s.rounds.operations[i]? = some (.countDown .notify) then false else s.asleep

-- `wake` is a return of the sleep without a notification.
def step (s : LatchWaits) : WaitEvent → LatchWaits
  | .round .owner => s.ownerStep
  | .round (.countDown i) => s.countDownStep i
  | .round e => { s with rounds := s.rounds.step e }
  | .wake => { s with asleep := false }

def waiter (s : LatchWaits) : Waiter (BitVec 32) :=
  match s.rounds.owner with
  | .blocked current => if s.asleep then .asleep current else .comparing current
  | _ => .away

def cell (s : LatchWaits) : Cell (BitVec 32) where
  value := s.rounds.words.waitingCount
  waiter := s.waiter
  announced := s.rounds.operations.countP OperationPc.notifying

def Emptied (_ value : BitVec 32) : Prop := value = 0

theorem waiter_wake (s : LatchWaits) : ({ s with asleep := false } : LatchWaits).waiter =
    s.waiter.wake := by
  cases howner : s.rounds.owner with
  | blocked current => cases hasleep : s.asleep <;> simp [waiter, howner, hasleep, Waiter.wake]
  | _ => simp [waiter, howner, Waiter.wake]

theorem notifying_set {s : LatchWaits} {i : Nat} {x : OperationPc}
    (hx : s.rounds.operations[i]? = some x) (y : OperationPc) :
    (s.rounds.operations.set i y).countP OperationPc.notifying + x.notifying.toNat =
      s.rounds.operations.countP OperationPc.notifying + y.notifying.toNat :=
  Tally.countP_set hx OperationPc.notifying y

theorem ownerStep_move (s : LatchWaits) : Move Emptied s.cell s.ownerStep.cell := by
  cases howner : s.rounds.owner with
  | counting =>
    refine .of_eq ?_
    simp [cell, waiter, ownerStep, LatchRounds.ownerStep, howner]
  | countedUp =>
    refine .of_eq ?_
    simp [cell, waiter, ownerStep, LatchRounds.ownerStep, howner, OperationPc.notifying]
  | load =>
    by_cases hzero : s.rounds.words.waitingCount = 0
    · refine .of_eq ?_
      simp only [cell, waiter, ownerStep, LatchRounds.ownerStep, howner, if_pos hzero]
    · have hnext : s.ownerStep.cell = { s.cell with waiter := .comparing s.cell.value } := by
        simp only [cell, waiter, ownerStep, LatchRounds.ownerStep, howner, if_neg hzero]
        rfl
      exact hnext ▸ .waited s.cell _ hzero
  | blocked current =>
    cases hasleep : s.asleep with
    | true =>
      refine .of_eq ?_
      simp only [ownerStep, howner, hasleep, if_true]
    | false =>
      by_cases hvalue : s.rounds.words.waitingCount = current
      · have hnext : s.ownerStep.cell = { s.cell with waiter := .asleep s.cell.value } := by
          simp [cell, waiter, ownerStep, howner, hasleep, hvalue]
        exact hnext ▸ .slept (by simp [cell, waiter, howner, hasleep, hvalue])
      · have hnext : s.ownerStep.cell = { s.cell with waiter := .away } := by
          simp [cell, waiter, ownerStep, LatchRounds.ownerStep, howner, hasleep, hvalue]
        exact hnext ▸ .left _
  | exchange =>
    refine .of_eq ?_
    simp [cell, waiter, ownerStep, LatchRounds.ownerStep, howner]
  | returning errorCount =>
    refine .of_eq ?_
    simp [cell, waiter, ownerStep, LatchRounds.ownerStep, howner]

theorem countDownStep_move (i : Nat) (s : LatchWaits) :
    Move Emptied s.cell (s.countDownStep i).cell := by
  cases hx : s.rounds.operations[i]? with
  | none =>
    refine .of_eq ?_
    simp [countDownStep, LatchRounds.countDownStep, hx]
  | some x =>
    cases x with
    | running =>
      refine .of_eq ?_
      simp [countDownStep, LatchRounds.countDownStep, hx]
    | finished =>
      refine .of_eq ?_
      simp [countDownStep, LatchRounds.countDownStep, hx]
    | countDown pc =>
      cases pc with
      | addError =>
        refine .of_eq ?_
        simpa [cell, waiter, countDownStep, LatchRounds.countDownStep, hx,
          OperationPc.notifying] using notifying_set hx (.countDown .subtract)
      | subtract =>
        by_cases hzero : s.rounds.words.waitingCount - 1 = 0
        · have hcount := notifying_set hx (.countDown .notify)
          have hnext : (s.countDownStep i).cell =
              { s.cell with
                value := s.cell.value - 1, announced := s.cell.announced + 1 } := by
            simp only [cell, waiter, countDownStep, LatchRounds.countDownStep, hx, if_pos hzero]
            simpa [OperationPc.notifying] using hcount
          exact hnext ▸ .stored _ 1 fun _ _ _ => Nat.one_pos
        · have hcount := notifying_set hx .finished
          have hnext : (s.countDownStep i).cell =
              { s.cell with
                value := s.cell.value - 1, announced := s.cell.announced + 0 } := by
            simp only [cell, waiter, countDownStep, LatchRounds.countDownStep, hx, if_neg hzero]
            simpa [OperationPc.notifying] using hcount
          exact hnext ▸ .stored _ 0 fun _ _ hemptied => absurd hemptied hzero
      | notify =>
        have hcount : (s.rounds.operations.set i .finished).countP OperationPc.notifying =
            s.rounds.operations.countP OperationPc.notifying - 1 :=
          Nat.eq_sub_of_add_eq (notifying_set hx .finished)
        have hwaiter : (s.countDownStep i).waiter = s.waiter.wake := by
          rw [← waiter_wake]
          simp [waiter, countDownStep, LatchRounds.countDownStep, hx]
        have hnext : (s.countDownStep i).cell =
            { s.cell with
              waiter := s.cell.waiter.wake, announced := s.cell.announced - 1 } := by
          simp only [cell, hwaiter, ← hcount]
          simp [countDownStep, LatchRounds.countDownStep, hx]
        exact hnext ▸ .notified _

theorem finish_cell (i : Nat) (success : Bool) (s : LatchWaits) :
    (s.step (.round (.finish i success))).cell = s.cell := by
  cases hx : s.rounds.operations[i]? with
  | none => simp [step, LatchRounds.step, LatchRounds.finishStep, hx]
  | some x =>
    cases x with
    | running =>
      cases success with
      | true =>
        simpa [step, cell, waiter, LatchRounds.step, LatchRounds.finishStep, hx,
          OperationPc.notifying] using notifying_set hx (.countDown .subtract)
      | false =>
        simpa [step, cell, waiter, LatchRounds.step, LatchRounds.finishStep, hx,
          OperationPc.notifying] using notifying_set hx (.countDown .addError)
    | countDown => simp [step, LatchRounds.step, LatchRounds.finishStep, hx]
    | finished => simp [step, LatchRounds.step, LatchRounds.finishStep, hx]

theorem step_move (s : LatchWaits) (e : WaitEvent) : Move Emptied s.cell (s.step e).cell := by
  match e with
  | .round .owner => exact ownerStep_move s
  | .round (.countDown i) => exact countDownStep_move i s
  | .round .countUp =>
    cases howner : s.rounds.owner with
    | counting =>
      have hnext : (s.step (.round .countUp)).cell =
          { s.cell with
            value := s.cell.value + 1, announced := s.cell.announced + 0 } := by
        simp [step, cell, waiter, LatchRounds.step, howner]
      refine hnext ▸ .stored _ 0 fun old hasleep _ => ?_
      simp [cell, waiter, howner] at hasleep
    | _ =>
      refine .of_eq ?_
      simp [step, LatchRounds.step, howner]
  | .round .wait =>
    refine .of_eq ?_
    cases howner : s.rounds.owner <;> simp [step, cell, waiter, LatchRounds.step, howner]
  | .round (.finish i success) => exact .of_eq (finish_cell i success s)
  | .wake =>
    have hnext : (s.step .wake).cell = { s.cell with waiter := s.cell.waiter.wake } :=
      congrArg (fun w => { s.cell with waiter := w }) (waiter_wake s)
    exact hnext ▸ .woken _

theorem step_rounds (s : LatchWaits) (e : WaitEvent) :
    (s.step e).rounds = s.rounds ∨ ∃ e', (s.step e).rounds = s.rounds.step e' := by
  match e with
  | .round .owner =>
    cases howner : s.rounds.owner with
    | blocked current =>
      simp only [step, ownerStep, howner]
      split
      · exact .inl rfl
      · split
        · exact .inl rfl
        · exact .inr ⟨.owner,rfl⟩
    | _ => exact .inr ⟨.owner,by simp only [step, ownerStep, howner, LatchRounds.step]⟩
  | .round (.countDown i) => exact .inr ⟨.countDown i,rfl⟩
  | .round .countUp => exact .inr ⟨.countUp,rfl⟩
  | .round .wait => exact .inr ⟨.wait,rfl⟩
  | .round (.finish i success) => exact .inr ⟨.finish i success,rfl⟩
  | .wake => exact .inl rfl

structure Held (s : LatchWaits) : Prop where
  counts : s.rounds.Counts
  reports : s.rounds.ReportsExact
  kept : Kept Emptied s.cell

theorem held_start : Held {} :=
  ⟨LatchRounds.counts_start,fun _ h => absurd h List.not_mem_nil,kept_away 0 0⟩

theorem Held.step {s : LatchWaits} (h : s.Held) (hfits : s.rounds.Fits) (e : WaitEvent) :
    (s.step e).Held := by
  have hkept := h.kept.move (step_move s e)
  obtain hsame | ⟨e',hnext⟩ := step_rounds s e
  · exact ⟨hsame ▸ h.counts,hsame ▸ h.reports,hkept⟩
  · refine ⟨?_,?_,hkept⟩
    · rw [hnext]
      exact LatchRounds.step_counts h.counts hfits e'
    · rw [hnext]
      exact LatchRounds.step_reportsExact h.counts hfits h.reports e'

def NoLostWakeup (s : LatchWaits) : Prop :=
  ∀ current, s.waiter = .asleep current →
    (∃ operation ∈ s.rounds.operations, operation.notifying = true) ∨
      ∃ operation ∈ s.rounds.operations, operation.undecremented = true

theorem blocked_of_asleep {s : LatchWaits} {current : BitVec 32}
    (hasleep : s.waiter = .asleep current) : s.rounds.owner = .blocked current := by
  cases howner : s.rounds.owner with
  | blocked old =>
    simp only [waiter, howner] at hasleep
    split at hasleep
    · cases hasleep
      rfl
    · cases hasleep
  | _ => simp [waiter, howner] at hasleep

theorem Held.noLostWakeup {s : LatchWaits} (h : s.Held) : s.NoLostWakeup := by
  intro current hasleep
  by_cases hnotifying : ∃ operation ∈ s.rounds.operations, operation.notifying = true
  · exact .inl hnotifying
  · refine .inr ?_
    have hnone : s.cell.announced = 0 := by simpa [cell, List.countP_eq_zero] using hnotifying
    have hcount : s.rounds.words.waitingCount ≠ 0 := h.kept.not_released hnone hasleep
    rw [h.counts.waiting] at hcount
    by_contra hdone
    have hzero : s.rounds.operations.countP OperationPc.undecremented = 0 := by
      simpa [List.countP_eq_zero] using hdone
    simp [LatchRounds.outstanding, hzero, blocked_of_asleep hasleep, TryWaitPc.raised] at hcount

def Settled (s : LatchWaits) : Prop := ∀ operation ∈ s.rounds.operations, operation = .finished

instance (s : LatchWaits) : Decidable s.Settled :=
  inferInstanceAs (Decidable (∀ operation ∈ s.rounds.operations, operation = .finished))

theorem Settled.getElem {s : LatchWaits} (h : s.Settled) (i : Nat) :
    s.rounds.operations[i]? = none ∨ s.rounds.operations[i]? = some .finished := by
  cases hx : s.rounds.operations[i]? with
  | none => exact .inl rfl
  | some x => exact .inr (congrArg some (h x (List.mem_of_getElem? hx)))

theorem Settled.step_rounds {s : LatchWaits} (h : s.Settled) {e : WaitEvent}
    (hcall : e.isCall = false) (howner : e.isOwner = false) : (s.step e).rounds = s.rounds := by
  match e with
  | .round .owner => cases howner
  | .round (.countDown i) =>
    rcases h.getElem i with hx | hx <;>
      simp [step, countDownStep, LatchRounds.countDownStep, hx]
  | .round .countUp => cases hcall
  | .round .wait => cases hcall
  | .round (.finish i success) =>
    rcases h.getElem i with hx | hx <;>
      simp [step, LatchRounds.step, LatchRounds.finishStep, hx]
  | .wake => rfl

theorem Settled.zero {s : LatchWaits} (h : s.Settled) (hheld : s.Held)
    (hwait : 0 < s.rounds.owner.remaining) : s.rounds.words.waitingCount = 0 := by
  have hraised : s.rounds.owner.raised = 0 := by
    cases howner : s.rounds.owner with
    | countedUp => simp [howner, TryWaitPc.remaining] at hwait
    | _ => rfl
  have hzero : s.rounds.operations.countP OperationPc.undecremented = 0 := by
    refine List.countP_eq_zero.mpr fun operation hmem => ?_
    rw [h operation hmem]
    exact Bool.false_ne_true
  rw [hheld.counts.waiting, LatchRounds.outstanding, hzero, hraised]
  rfl

theorem Settled.awake {s : LatchWaits} (h : s.Settled) (hheld : s.Held) (current : BitVec 32) :
    s.waiter ≠ .asleep current := by
  intro hasleep
  rcases hheld.noLostWakeup current hasleep with ⟨operation,hmem,hnot⟩ | ⟨operation,hmem,hnot⟩ <;>
    · rw [h operation hmem] at hnot
      cases hnot

theorem Settled.ownerStep {s : LatchWaits} (h : s.Settled) (hheld : s.Held)
    (hwait : 0 < s.rounds.owner.remaining) :
    s.ownerStep.Settled ∧ s.ownerStep.rounds.owner.remaining + 1 = s.rounds.owner.remaining ∧
      (s.ownerStep.rounds.reports = s.rounds.reports ∧
          0 < s.ownerStep.rounds.owner.remaining ∨
        ∃ r, s.ownerStep.rounds.owner = .counting ∧
          s.ownerStep.rounds.reports = r :: s.rounds.reports) := by
  have hzero := h.zero hheld hwait
  cases howner : s.rounds.owner with
  | counting => simp [howner, TryWaitPc.remaining] at hwait
  | countedUp => simp [howner, TryWaitPc.remaining] at hwait
  | load =>
    have hnext : s.ownerStep = { rounds := { s.rounds with owner := .exchange } } := by
      simp only [LatchWaits.ownerStep, LatchRounds.ownerStep, howner, if_pos hzero]
    rw [hnext]
    exact ⟨h,rfl,.inl ⟨rfl,Nat.two_pos⟩⟩
  | blocked current =>
    have hawake : s.asleep = false := by
      by_contra hasleep
      refine h.awake hheld current ?_
      simp [waiter, howner, hasleep]
    have hcomparing : s.waiter = .comparing current := by simp [waiter, howner, hawake]
    have hcurrent : ¬s.rounds.words.waitingCount = current := by
      intro heq
      refine hheld.kept.sincere current ?_ (heq ▸ hzero)
      rw [cell, hcomparing]
      rfl
    have hnext : s.ownerStep = { s with rounds := { s.rounds with owner := .load } } := by
      simp [LatchWaits.ownerStep, LatchRounds.ownerStep, howner, hawake, hcurrent]
    rw [hnext]
    exact ⟨h,rfl,.inl ⟨rfl,Nat.zero_lt_succ 2⟩⟩
  | exchange =>
    have hnext : s.ownerStep =
        { rounds := { s.rounds with
            words := { s.rounds.words with errorCount := 0 },
            owner := .returning s.rounds.words.errorCount } } := by
      simp only [LatchWaits.ownerStep, LatchRounds.ownerStep, howner]
    rw [hnext]
    exact ⟨h,rfl,.inl ⟨rfl,Nat.one_pos⟩⟩
  | returning errorCount =>
    have hnext : s.ownerStep =
        { rounds := { s.rounds with
            owner := .counting, failures := 0,
            reports := ⟨s.rounds.failures,errorCount.toInt,waitOutcome errorCount.toInt⟩ ::
              s.rounds.reports } } := by
      simp only [LatchWaits.ownerStep, LatchRounds.ownerStep, howner]
    rw [hnext]
    exact ⟨h,rfl,.inr ⟨_,rfl,rfl⟩⟩

def Sound (s : LatchWaits) : Prop := s.rounds.Sound ∧ s.NoLostWakeup

theorem Held.sound {s : LatchWaits} (h : s.Held) : s.Sound :=
  ⟨⟨h.counts.waitsForAll,h.reports⟩,h.noLostWakeup⟩

theorem run_held {events : List WaitEvent} {s : LatchWaits} (h : s.Held)
    (hfits : Runs.Along step (fun s _ => s.rounds.Fits) s events) :
    Runs.Throughout step Held s events :=
  Runs.throughout_invariant (fun _ e hs hfits => hs.step hfits e) h hfits

theorem Settled.run_counting {s : LatchWaits} (h : s.Settled) (howner : s.rounds.owner = .counting)
    {later : List WaitEvent} (hcalls : ∀ e ∈ later, e.isCall = false) :
    (Runs.run step s later).rounds = s.rounds := by
  induction later generalizing s with
  | nil => rfl
  | cons e later ih =>
    obtain ⟨hcall,hrest⟩ := List.forall_mem_cons.mp hcalls
    have hsame : (s.step e).rounds = s.rounds := by
      cases howned : e.isOwner with
      | false => exact h.step_rounds hcall howned
      | true =>
        obtain rfl := WaitEvent.eq_owner howned
        simp only [step, LatchWaits.ownerStep, LatchRounds.ownerStep, howner]
    have hsettled : (s.step e).Settled := by
      rw [Settled, hsame]
      exact h
    exact (ih hsettled (hsame ▸ howner) hrest).trans hsame

theorem Settled.run {s : LatchWaits} (h : s.Settled) (hheld : s.Held)
    (hwait : 0 < s.rounds.owner.remaining) {later : List WaitEvent}
    (hfits : Runs.Along step (fun s _ => s.rounds.Fits) s later)
    (hcalls : ∀ e ∈ later, e.isCall = false)
    (hturns : s.rounds.owner.remaining ≤ later.countP WaitEvent.isOwner) :
    ∃ r, (Runs.run step s later).rounds.reports = r :: s.rounds.reports := by
  induction later generalizing s with
  | nil => exact absurd hwait (Nat.not_lt.mpr hturns)
  | cons e later ih =>
    obtain ⟨hcall,hrest⟩ := List.forall_mem_cons.mp hcalls
    have hheld' := hheld.step hfits.1 e
    cases howned : e.isOwner with
    | false =>
      have hsame := h.step_rounds hcall howned
      have hsettled : (s.step e).Settled := by
        rw [Settled, hsame]
        exact h
      have hlater := ih hsettled hheld' (hsame ▸ hwait) hfits.2 hrest
        (by rw [hsame]; simpa [howned] using hturns)
      rwa [hsame] at hlater
    | true =>
      have hnext : s.step e = s.ownerStep := by rw [WaitEvent.eq_owner howned, step]
      obtain ⟨hsettled,hless,hreport⟩ := h.ownerStep hheld hwait
      rw [Runs.run_cons, hnext]
      rw [hnext] at hheld'
      have hturns' : s.ownerStep.rounds.owner.remaining ≤ later.countP WaitEvent.isOwner := by
        have hcons : s.rounds.owner.remaining ≤ later.countP WaitEvent.isOwner + 1 := by
          simpa [howned] using hturns
        omega
      rcases hreport with ⟨hsame,hstill⟩ | ⟨r,hreturned,hfiled⟩
      · have hlater := ih hsettled hheld' hstill (hnext ▸ hfits.2) hrest hturns'
        rwa [hsame] at hlater
      · exact ⟨r,by rw [hsettled.run_counting hreturned hrest, hfiled]⟩

theorem waits_return (events later : List WaitEvent)
    (hfits : Runs.Along step (fun s _ => s.rounds.Fits) {} (events ++ later)) :
    Runs.Throughout step Sound {} (events ++ later) ∧
      let s := Runs.run step {} events
      s.Settled → 0 < s.rounds.owner.remaining → (∀ e ∈ later, e.isCall = false) →
        s.rounds.owner.remaining ≤ later.countP WaitEvent.isOwner →
          ∃ r, (Runs.run step s later).rounds.reports = r :: s.rounds.reports ∧ r.Exact := by
  have hheld := run_held held_start hfits
  refine ⟨Runs.throughout_imp (fun _ h => h.sound) hheld,fun hsettled hwait hcalls hturns => ?_⟩
  have hfits' := Runs.along_append.mp hfits
  have hmiddle := Runs.throughout_last (run_held held_start hfits'.1)
  obtain ⟨r,hr⟩ := hsettled.run hmiddle hwait hfits'.2 hcalls hturns
  have hlast := Runs.throughout_last (run_held hmiddle hfits'.2)
  exact ⟨r,hr,hlast.reports r (hr ▸ List.mem_cons_self)⟩

-- The owner falls asleep on two operations; the second one's notify_one is what wakes it.
theorem waits_return_pair :
    let s : LatchWaits := Runs.run step {}
      ([.countUp,.owner,.countUp,.owner,.wait,.owner,.owner,.finish 1 false,.countDown 1,
        .countDown 1,.finish 0 true,.countDown 0,.countDown 0].map .round)
    ∃ r, (Runs.run step s [.round .owner,.wake,.round .owner,.round .owner,
        .round .owner]).rounds.reports = r :: s.rounds.reports ∧ r.Exact :=
  (waits_return _ _ (by decide)).2 (by decide) (by decide) (by decide) (by decide)

end LatchWaits

end WujiHand

import WujiHand.Handler.RealtimeRecords

namespace WujiHand

namespace RealtimeLoopPc

def unsent : RealtimeLoopPc → Nat
  | .reading _ | .triggeringRead _ | .loading .. | .stepping .. | .writing _
  | .triggeringWrite _ => 1
  | _ => 0

def turns : RealtimeLoopPc → Nat
  | .detached | .finished | .terminated _ => 0
  | .controlling => 1
  | .handshaking _ | .pacing => 2
  | .starting | .awaiting _ | .triggeringWrite _ => 3
  | .triggeringRead _ | .writing _ => 4
  | .reading _ | .stepping .. => 5
  | .loading _ pending _ => 6 + pending.length

theorem unsent_le (pc : RealtimeLoopPc) : pc.unsent ≤ 1 := by
  cases pc <;> simp [unsent]

end RealtimeLoopPc

def RealtimeLoopEvent.isAttach : RealtimeLoopEvent → Bool
  | .attach _ => true
  | _ => false

def RealtimeLoopEvent.isTurn : RealtimeLoopEvent → Bool
  | .realtime _ => true
  | _ => false

namespace RealtimeLoop

open RealtimeLoopPc

variable {codec : PositionCodec} {s s' : RealtimeLoop}

-- The thread is given a turn only when the time it sleeps to has come.
def Due (s : RealtimeLoop) (e : RealtimeLoopEvent) : Prop :=
  e.isTurn = true → s.pc.asleep = true → s.nextIterationTime ≤ s.clock

instance (s : RealtimeLoop) (e : RealtimeLoopEvent) : Decidable (s.Due e) :=
  inferInstanceAs (Decidable (_ → _ → _))

theorem fetchPdoBuffer_cases (request : PdoRequest) (resume : RealtimeLoopPc) (s : RealtimeLoop) :
    (s.fetchPdoBuffer request resume).stopRequested = s.stopRequested ∧
      ((s.fetchPdoBuffer request resume).pc = resume ∨
        ∃ abort, (s.fetchPdoBuffer request resume).pc = .terminated abort) := by
  unfold fetchPdoBuffer
  split
  · exact ⟨rfl,.inr ⟨_,rfl⟩⟩
  · exact ⟨rfl,.inr ⟨_,rfl⟩⟩
  · exact ⟨rfl,.inl rfl⟩

theorem triggerTransmission_cases (request : PdoRequest) (resume : RealtimeLoopPc)
    (s : RealtimeLoop) :
    (s.triggerTransmission request resume).stopRequested = s.stopRequested ∧
      ((s.triggerTransmission request resume).pc = resume ∨
        ∃ abort, (s.triggerTransmission request resume).pc = .terminated abort) := by
  unfold triggerTransmission
  split
  · exact ⟨rfl,.inr ⟨_,rfl⟩⟩
  · exact ⟨rfl,.inl rfl⟩

theorem turns_of_cases {pc resume : RealtimeLoopPc} (h : pc = resume ∨ ∃ abort, pc = .terminated abort) :
    pc.turns ≤ resume.turns := by
  rcases h with rfl | ⟨abort,rfl⟩
  · exact Nat.le_refl _
  · exact Nat.zero_le _

theorem realtimeStep_stopped (codec : PositionCodec) (targets : JointTable Buffer8)
    (s : RealtimeLoop) : (s.realtimeStep codec targets).stopRequested = s.stopRequested := by
  unfold realtimeStep
  split
  case h_4 => exact (fetchPdoBuffer_cases ..).1
  case h_5 => exact (triggerTransmission_cases ..).1
  case h_11 => exact (fetchPdoBuffer_cases ..).1
  case h_12 => exact (triggerTransmission_cases ..).1
  all_goals first | rfl | (split <;> first | rfl | (split <;> rfl))

theorem realtimeStep_turns (hstop : s.stopRequested = true)
    (hdue : s.pc.asleep = true → s.nextIterationTime ≤ s.clock) (targets : JointTable Buffer8) :
    (s.realtimeStep codec targets).pc.turns ≤ s.pc.turns - 1 := by
  unfold realtimeStep
  split
  case h_1 hpc => simp [hpc, turns]
  case h_2 hpc =>
    dsimp only
    split <;> simp [hpc, turns]
  case h_3 oldVersion hpc => simp [hpc, hstop, turns]
  case h_4 oldVersion hpc =>
    rw [hpc]
    exact turns_of_cases (fetchPdoBuffer_cases ..).2
  case h_5 oldVersion hpc =>
    rw [hpc]
    exact turns_of_cases (triggerTransmission_cases ..).2
  case h_6 oldVersion hpc =>
    have hawake : ¬s.clock < s.nextIterationTime := Nat.not_lt.mpr (hdue (by rw [hpc]; rfl))
    rw [if_neg hawake]
    dsimp only
    split <;> simp [hpc, turns]
  case h_7 hpc => simp [hpc, hstop, turns]
  case h_8 since positions hpc => simp [hpc, turns]
  case h_9 since t pending positions hpc => simp [hpc, turns]
  case h_10 since actual hpc => simp [hpc, turns]
  case h_11 targets hpc =>
    rw [hpc]
    exact turns_of_cases (fetchPdoBuffer_cases ..).2
  case h_12 w hpc =>
    rw [hpc]
    exact turns_of_cases (triggerTransmission_cases ..).2
  case h_13 hpc =>
    have hawake : ¬s.clock < s.nextIterationTime := Nat.not_lt.mpr (hdue (by rw [hpc]; rfl))
    simp [hawake, hpc, turns]
  case h_14 hpc => simp [hpc, turns]
  case h_15 abort hpc => simp [hpc, turns]

theorem complete_pc (id : Nat) (s : RealtimeLoop) :
    (s.complete id).stopRequested = s.stopRequested ∧
      ((s.complete id).pc = s.pc ∨ ∃ abort, (s.complete id).pc = .terminated abort) := by
  unfold complete
  split
  · split
    · exact ⟨rfl,.inr ⟨_,rfl⟩⟩
    · exact ⟨rfl,.inl rfl⟩
  · exact ⟨rfl,.inl rfl⟩

theorem receiverStep_pc (s : RealtimeLoop) :
    s.receiverStep.stopRequested = s.stopRequested ∧ s.receiverStep.pc = s.pc := by
  unfold receiverStep
  split <;> exact ⟨rfl,rfl⟩

theorem step_stopped (hstop : s.stopRequested = true) {e : RealtimeLoopEvent}
    (he : e.isAttach = false) : (s.step codec e).stopRequested = true := by
  unfold step
  split
  · exact hstop
  · cases e with
    | attach => cases he
    | requestStop => rfl
    | join =>
      simp only [apply, join]
      split <;> exact hstop
    | realtime targets => exact (realtimeStep_stopped codec targets s).trans hstop
    | receive => exact hstop
    | receiver => exact (receiverStep_pc s).1.trans hstop
    | complete id => exact (complete_pc id s).1.trans hstop
    | elapse => exact hstop

theorem step_turns (hstop : s.stopRequested = true) {e : RealtimeLoopEvent}
    (he : e.isAttach = false) (hdue : s.Due e) :
    (s.step codec e).pc.turns ≤ s.pc.turns - e.isTurn.toNat := by
  unfold step
  split
  case h_1 abort hpc =>
    rw [hpc]
    exact Nat.zero_le _
  case h_2 =>
    cases e with
    | attach => cases he
    | requestStop => exact Nat.le_refl _
    | join =>
      simp only [apply, join]
      split
      · exact Nat.zero_le _
      · exact Nat.le_refl _
    | realtime targets => exact realtimeStep_turns hstop (hdue rfl) targets
    | receive => exact Nat.le_refl _
    | receiver => exact ((receiverStep_pc s).2 ▸ Nat.le_refl _)
    | complete id => exact turns_of_cases (complete_pc id s).2
    | elapse => exact Nat.le_refl _

theorem run_turns (hstop : s.stopRequested = true) {events : List RealtimeLoopEvent}
    (hattach : ∀ e ∈ events, e.isAttach = false) (hdue : Runs.Along (step codec) Due s events) :
    (Runs.run (step codec) s events).pc.turns ≤
      s.pc.turns - events.countP RealtimeLoopEvent.isTurn := by
  induction events generalizing s with
  | nil => exact Nat.le_refl _
  | cons e events ih =>
    obtain ⟨he,hrest⟩ := List.forall_mem_cons.mp hattach
    have hfirst : (s.step codec e).pc.turns ≤ s.pc.turns - e.isTurn.toNat :=
      step_turns hstop he hdue.1
    have hlater := ih (step_stopped hstop he) hrest hdue.2
    rw [Runs.run_cons, List.countP_cons]
    cases hturn : e.isTurn with
    | true =>
      rw [hturn, Bool.toNat_true] at hfirst
      rw [if_pos rfl]
      omega
    | false =>
      rw [hturn, Bool.toNat_false] at hfirst
      rw [if_neg (by decide)]
      omega

theorem Steps.unsent (hstep : Steps codec s s') (hstop : s.stopRequested = true)
    (hstop' : s'.stopRequested = true) :
    (s'.earlier ++ s'.requests).length + s'.pc.unsent ≤
      (s.earlier ++ s.requests).length + s.pc.unsent := by
  cases hstep with
  | attached hpc upstreamEnabled =>
    simp only [attach, hpc] at hstop'
    cases hstop'
  | iterated hgo => cases hstop.symm.trans hgo
  | iteratedBlind hgo => cases hstop.symm.trans hgo
  | rest => exact Nat.le_refl _
  | stopped => exact Nat.le_refl _
  | received => exact Nat.le_refl _
  | stored => exact Nat.le_refl _
  | published => exact Nat.le_refl _
  | completed => exact Nat.le_refl _
  | elapsed => exact Nat.le_refl _
  | started hpc =>
    dsimp only
    split <;> simp [RealtimeLoopPc.unsent]
  | handshake oldVersion hpc => simp [hstop, RealtimeLoopPc.unsent]
  | awoken oldVersion hpc =>
    dsimp only
    split <;> simp [RealtimeLoopPc.unsent]
  | paced hpc => simp [RealtimeLoopPc.unsent]
  | starved => simp [RealtimeLoopPc.unsent]
  | _ =>
    rename_i hpc
    simp [hpc, RealtimeLoopPc.unsent, Nat.add_assoc]

theorem run_unsent (h : Legal codec s) (hstop : s.stopRequested = true)
    {events : List RealtimeLoopEvent} (hattach : ∀ e ∈ events, e.isAttach = false) :
    let s' := Runs.run (step codec) s events
    (s'.earlier ++ s'.requests).length ≤ (s.earlier ++ s.requests).length + s.pc.unsent := by
  induction events generalizing s with
  | nil => exact Nat.le_add_right ..
  | cons e events ih =>
    obtain ⟨he,hrest⟩ := List.forall_mem_cons.mp hattach
    have hstop' : (s.step codec e).stopRequested = true := step_stopped hstop he
    have hsteps : Steps codec s (s.step codec e) := (step_steps h.buffered e).2
    exact (ih (h.step e) hstop' hrest).trans (hsteps.unsent hstop hstop')

theorem Steps.turns_le (hstep : Steps codec s s') (h : s.pc.turns ≤ joints.length + 6) :
    s'.pc.turns ≤ joints.length + 6 := by
  cases hstep with
  | rest => exact h
  | attached hpc upstreamEnabled => simp [attach, hpc, RealtimeLoopPc.turns]
  | stopped => exact h
  | received => exact h
  | stored => exact h
  | published => exact h
  | completed => exact h
  | elapsed => exact h
  | started hpc =>
    dsimp only
    split <;> simp [RealtimeLoopPc.turns]
  | handshake oldVersion hpc =>
    dsimp only
    split <;> simp [RealtimeLoopPc.turns]
  | awoken oldVersion hpc =>
    dsimp only
    split <;> simp [RealtimeLoopPc.turns]
  | iterated => simp [RealtimeLoopPc.turns, Nat.add_comm]
  | loaded since t pending positions hpc =>
    simp only [hpc, RealtimeLoopPc.turns, List.length_cons] at h ⊢
    omega
  | _ => simp [RealtimeLoopPc.turns]

theorem run_turns_le (h : Legal codec s) (hle : s.pc.turns ≤ joints.length + 6)
    (events : List RealtimeLoopEvent) :
    (Runs.run (step codec) s events).pc.turns ≤ joints.length + 6 := by
  have hboth : Legal codec (Runs.run (step codec) s events) ∧
      (Runs.run (step codec) s events).pc.turns ≤ joints.length + 6 :=
    Runs.run_invariant (P := fun s => Legal codec s ∧ s.pc.turns ≤ joints.length + 6)
      (fun _ e h => ⟨h.1.step e,(step_steps h.1.buffered e).2.turns_le h.2⟩) ⟨h,hle⟩
  exact hboth.2

theorem stop_ends_thread (codec : PositionCodec) (pdoMemory : JointTable (BitVec 32))
    (allocTransferCount : Nat) (memory : Nat → Memory) (events later : List RealtimeLoopEvent) :
    let s := Runs.run (step codec) (create pdoMemory (.create allocTransferCount memory)) events
    let s' := Runs.run (step codec) s later
    s.stopRequested = true → (∀ e ∈ later, e.isAttach = false) →
      s'.buffer.submitted.length ≤ s.buffer.submitted.length + 1 ∧
        (Runs.Along (step codec) Due s later →
          joints.length + 6 ≤ later.countP RealtimeLoopEvent.isTurn →
            s'.pc = .finished ∨ s'.pc = .detached ∨ ∃ abort, s'.pc = .terminated abort) := by
  intro s s' hstop hattach
  have hcreate : Legal codec (create pdoMemory (.create allocTransferCount memory)) :=
    create_legal pdoMemory allocTransferCount memory
  have hlegal : Legal codec s := hcreate.run events
  refine ⟨?_,fun hdue hcount => ?_⟩
  · have hsent (s : RealtimeLoop) (h : Legal codec s) :
        s.buffer.submitted.length = (s.earlier ++ s.requests).length := by
      simpa using congrArg List.length h.buffered.submitted
    rw [hsent s' (hlegal.run later), hsent s hlegal]
    exact (run_unsent hlegal hstop hattach).trans (Nat.add_le_add_left (unsent_le s.pc) _)
  · have hle : s.pc.turns ≤ joints.length + 6 := run_turns_le hcreate (Nat.zero_le _) events
    have hzero : s'.pc.turns ≤ s.pc.turns - later.countP RealtimeLoopEvent.isTurn :=
      run_turns hstop hattach hdue
    have hnone : s'.pc.turns = 0 := by omega
    cases hpc : s'.pc with
    | finished => exact .inl rfl
    | detached => exact .inr (.inl rfl)
    | terminated abort => exact .inr (.inr ⟨abort,rfl⟩)
    | _ =>
      rw [hpc] at hnone
      simp [turns] at hnone

def turn : RealtimeLoopEvent := .realtime fun _ _ => 0

-- The stop comes while the controller is stepped: the record of that turn is still sent.
def stopWhileStepping : List RealtimeLoopEvent := [.attach false,turn,turn,.requestStop]

theorem stopWhileStepping_ends :
    let s := Runs.run (step .raw)
      (create (fun _ _ => 0) (.create 2 fun _ => TransmitBuffer.unclearedMemory)) stopWhileStepping
    let s' := Runs.run (step .raw) s (.elapse updatePeriod :: List.replicate 26 turn)
    s'.buffer.submitted.length ≤ s.buffer.submitted.length + 1 ∧
      (s'.pc = .finished ∨ s'.pc = .detached ∨ ∃ abort, s'.pc = .terminated abort) := by
  have h := stop_ends_thread .raw (fun _ _ => 0) 2 (fun _ => TransmitBuffer.unclearedMemory)
    stopWhileStepping (.elapse updatePeriod :: List.replicate 26 turn) rfl (by decide)
  exact ⟨h.1,h.2 (by decide +kernel) (by decide)⟩

end RealtimeLoop

end WujiHand

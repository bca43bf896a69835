import Mathlib.Data.List.Indexes
import WujiHand.Driver.RecordLog
import WujiHand.Handler.RealtimeSteps

namespace WujiHand.RealtimeLoop

variable {codec : PositionCodec} {s s' : RealtimeLoop}

def answer (codec : PositionCodec) (upstreamEnabled : Bool) (reads m : Nat) (c : StepCall) :
    PdoRequest :=
  .write (pdoWriteAsyncUnchecked codec upstreamEnabled c.targets (BitVec.ofNat 32 (2000 * (reads + m))))

def Pending (codec : PositionCodec) (upstreamEnabled : Bool) (reads m : Nat)
    (pending : List StepCall) : RealtimeLoopPc → Prop
  | .writing targets => ∃ c, pending = [c] ∧ c.targets = targets
  | .triggeringWrite w => ∃ c, pending = [c] ∧ answer codec upstreamEnabled reads m c = .write w
  | .terminated _ => pending.length ≤ 1
  | _ => pending = []

structure Recorded (codec : PositionCodec) (s : RealtimeLoop) (reads : Nat)
    (answered pending : List StepCall) : Prop where
  calls : s.calls = answered ++ pending
  requests : s.requests = List.replicate reads .read ++
    answered.mapIdx (answer codec s.upstreamEnabled reads)
  pending : Pending codec s.upstreamEnabled reads answered.length pending s.pc
  blind : s.upstreamEnabled = false → reads = 0
  handshake : s.pc.handshake = true → s.upstreamEnabled = true ∧ answered = []
  starting : s.pc = .starting → reads = 0 ∧ answered = []

structure Timed (s : RealtimeLoop) : Prop where
  starting : s.pc = .starting → s.requests = []
  begun : s.begin ≤ s.clock
  next : s.pc ≠ .starting → s.nextIterationTime = s.begin + s.requests.length * updatePeriod
  awake : s.pc ≠ .starting → s.pc.asleep = false → s.nextIterationTime ≤ s.clock
  asleep : s.pc ≠ .starting → s.nextIterationTime ≤ s.clock + updatePeriod

theorem Timed.turn (h : s.Timed) (hpc : s.pc ≠ .starting) (hdue : s.nextIterationTime ≤ s.clock)
    (pc : RealtimeLoopPc) (hstart : pc ≠ .starting) (b : TransmitBuffer) (calls : List StepCall) :
    ({ s with pc := pc, buffer := b, calls := calls } : RealtimeLoop).Timed :=
  ⟨fun hpc' => absurd hpc' hstart,h.begun,fun _ => h.next hpc,fun _ _ => hdue,fun _ => Nat.le_add_right_of_le hdue⟩

theorem Timed.requested (h : s.Timed) (hpc : s.pc ≠ .starting)
    (hdue : s.nextIterationTime ≤ s.clock) (pc : RealtimeLoopPc) (b : TransmitBuffer)
    (request : PdoRequest) (hasleep : pc.asleep = true) :
    ({ s with
        buffer := b, pc := pc, requests := s.requests ++ [request],
        nextIterationTime := s.nextIterationTime + updatePeriod } : RealtimeLoop).Timed := by
  refine ⟨fun hpc' => ?_,h.begun,fun _ => ?_,fun _ hawake => ?_,fun _ => Nat.add_le_add_right hdue _⟩
  · rw [show pc = .starting from hpc'] at hasleep
    cases hasleep
  · dsimp only
    rw [h.next hpc, List.length_append, List.length_singleton, Nat.succ_mul, Nat.add_assoc]
  · rw [hasleep] at hawake
    cases hawake

theorem Timed.steps (h : s.Timed) (hstep : Steps codec s s') : s'.Timed := by
  obtain ⟨hstarting,hbegun,hnext,hawake,hasleep⟩ := id h
  have hdue (hpc : s.pc ≠ .starting) (hup : s.pc.asleep = false) := hawake hpc hup
  cases hstep with
  | rest => exact h
  | attached hpc upstreamEnabled =>
    simp only [attach, hpc]
    exact ⟨fun _ => rfl,hbegun,fun h => absurd rfl h,fun h => absurd rfl h,fun h => absurd rfl h⟩
  | stopped => exact ⟨hstarting,hbegun,hnext,hawake,hasleep⟩
  | received positions => exact ⟨hstarting,hbegun,hnext,hawake,hasleep⟩
  | stored => exact ⟨hstarting,hbegun,hnext,hawake,hasleep⟩
  | published => exact ⟨hstarting,hbegun,hnext,hawake,hasleep⟩
  | completed => exact ⟨hstarting,hbegun,hnext,hawake,hasleep⟩
  | elapsed duration =>
    refine ⟨hstarting,Nat.le_add_right_of_le hbegun,hnext,
      fun hpc hup => Nat.le_add_right_of_le (hawake hpc hup),fun hpc => ?_⟩
    have hle := hasleep hpc
    dsimp only
    omega
  | started hpc =>
    have hnone := hstarting hpc
    refine ⟨fun _ => hnone,Nat.le_refl _,fun _ => ?_,fun _ _ => Nat.le_refl _,
      fun _ => Nat.le_add_right ..⟩
    dsimp only
    rw [hnone]
    rfl
  | triggeredRead oldVersion b hpc =>
    exact h.requested (by simp [hpc]) (hdue (by simp [hpc]) (by rw [hpc]; rfl)) _ b .read rfl
  | triggeredWrite w b hpc =>
    exact h.requested (by simp [hpc]) (hdue (by simp [hpc]) (by rw [hpc]; rfl)) _ b (.write w) rfl
  | awoken oldVersion hpc hclock =>
    refine h.turn (by simp [hpc]) hclock _ ?_ s.buffer s.calls
    split <;> simp
  | paced hpc hclock => exact h.turn (by simp [hpc]) hclock _ (by simp) s.buffer s.calls
  | handshake oldVersion hpc =>
    refine h.turn (by simp [hpc]) (hdue (by simp [hpc]) (by rw [hpc]; rfl)) _ ?_ s.buffer s.calls
    split <;> simp
  | starved hfree hpc =>
    obtain ⟨hpc,hup⟩ := RealtimeLoopPc.fetching_awake hpc
    exact h.turn hpc (hdue hpc hup) _ (by simp) s.buffer s.calls
  | _ =>
    rename_i hpc
    exact h.turn (by simp [hpc]) (hdue (by simp [hpc]) (by rw [hpc]; rfl)) _ (by simp) ..

theorem Timed.timestamp_eq (h : s.Timed) (hpc : s.pc ≠ .starting) :
    s.timestamp = BitVec.ofNat 32 (2000 * s.requests.length) := by
  have hnext : s.nextIterationTime - s.begin = 2000 * s.requests.length * 1000 := by
    rw [h.next hpc, Nat.add_sub_cancel_left, updatePeriod]
    omega
  rw [timestamp, hnext, Nat.mul_div_cancel _ (by decide)]

theorem Pending.length_le {upstreamEnabled : Bool} {reads m : Nat} {pending : List StepCall}
    {pc : RealtimeLoopPc} (h : Pending codec upstreamEnabled reads m pending pc) :
    pending.length ≤ 1 := by
  cases pc with
  | writing targets =>
    obtain ⟨c,rfl,_⟩ := h
    exact Nat.le_refl 1
  | triggeringWrite w =>
    obtain ⟨c,rfl,_⟩ := h
    exact Nat.le_refl 1
  | terminated abort => exact h
  | _ =>
    obtain rfl : pending = [] := h
    exact Nat.zero_le 1

section Records

variable {reads : Nat} {answered pending : List StepCall}

theorem Recorded.turn (h : Recorded codec s reads answered pending) (hcalls : s'.calls = s.calls)
    (hrequests : s'.requests = s.requests) (hupstream : s'.upstreamEnabled = s.upstreamEnabled)
    (hpending : Pending codec s.upstreamEnabled reads answered.length pending s'.pc)
    (hhandshake : s'.pc.handshake = true → s.pc.handshake = true) (hstart : s'.pc ≠ .starting) :
    Recorded codec s' reads answered pending where
  calls := hcalls.trans h.calls
  requests := by rw [hrequests, hupstream, h.requests]
  pending := hupstream.symm ▸ hpending
  blind := fun hblind => h.blind (hupstream ▸ hblind)
  handshake := fun hpc => hupstream.symm ▸ h.handshake (hhandshake hpc)
  starting := fun hpc => absurd hpc hstart

theorem Recorded.kept (h : Recorded codec s reads answered pending) (hcalls : s'.calls = s.calls)
    (hrequests : s'.requests = s.requests) (hupstream : s'.upstreamEnabled = s.upstreamEnabled)
    (hpc : s'.pc = s.pc) : Recorded codec s' reads answered pending where
  calls := hcalls.trans h.calls
  requests := by rw [hrequests, hupstream, h.requests]
  pending := by
    rw [hpc, hupstream]
    exact h.pending
  blind := fun hblind => h.blind (hupstream ▸ hblind)
  handshake := by
    rw [hpc, hupstream]
    exact h.handshake
  starting := by
    rw [hpc]
    exact h.starting

theorem Recorded.forked (h : Recorded codec s reads answered pending)
    (hhandshake : s.pc.handshake = true) {p : Prop} [Decidable p] {pc pc' : RealtimeLoopPc}
    (hpc : Pending codec s.upstreamEnabled reads answered.length pending pc)
    (hpc' : Pending codec s.upstreamEnabled reads answered.length pending pc')
    (hstart : pc ≠ .starting) (hstart' : pc' ≠ .starting) :
    Recorded codec { s with pc := if p then pc else pc' } reads answered pending := by
  refine h.turn rfl rfl rfl ?_ (fun _ => hhandshake) ?_
  · dsimp only
    split
    · exact hpc
    · exact hpc'
  · dsimp only
    split
    · exact hstart
    · exact hstart'

theorem Recorded.started (h : Recorded codec s reads answered pending) (hpc : s.pc = .starting) :
    Recorded codec
      { s with
        begin := s.clock, nextIterationTime := s.clock, base := s.results.published,
        pc := if s.upstreamEnabled then .handshaking s.version else .controlling } 0 [] pending := by
  obtain ⟨rfl,rfl⟩ := h.starting hpc
  have hpending := h.pending
  rw [hpc] at hpending
  refine ⟨h.calls,h.requests,?_,fun _ => rfl,fun hpc' => ?_,fun _ => ⟨rfl,rfl⟩⟩
  · dsimp only
    split <;> exact hpending
  · dsimp only at hpc'
    split at hpc'
    case isTrue hupstream => exact ⟨hupstream,rfl⟩
    case isFalse => cases hpc'

theorem Recorded.triggeredRead (h : Recorded codec s reads answered pending)
    {oldVersion : BitVec 64} (hpc : s.pc = .triggeringRead oldVersion) (b : TransmitBuffer)
    (nextIterationTime : Nat) :
    Recorded codec
      { s with
        buffer := b, pc := .awaiting oldVersion, requests := s.requests ++ [.read],
        nextIterationTime := nextIterationTime } (reads + 1) answered pending := by
  obtain ⟨hupstream,rfl⟩ := h.handshake (by rw [hpc]; rfl)
  have hpending := h.pending
  rw [hpc] at hpending
  refine ⟨h.calls,?_,hpending,fun hblind => ?_,fun _ => ⟨hupstream,rfl⟩,by simp⟩
  · dsimp only
    rw [h.requests, List.replicate_succ']
    simp
  · rw [show s.upstreamEnabled = false from hblind] at hupstream
    cases hupstream

theorem Recorded.stepped (h : Recorded codec s reads answered []) (since : Nat)
    (actual : Option ActualPositions) (targets : JointTable Buffer8) :
    Recorded codec
      { s with pc := .writing targets, calls := s.calls ++ [⟨since,actual,targets⟩] } reads answered
      [⟨since,actual,targets⟩] := by
  refine ⟨?_,h.requests,⟨_,rfl,rfl⟩,h.blind,Bool.noConfusion,by simp⟩
  dsimp only
  rw [h.calls, List.append_nil]

theorem Recorded.fetchedWrite (h : Recorded codec s reads answered pending) (htimed : s.Timed)
    {targets : JointTable Buffer8} (hpc : s.pc = .writing targets) (b : TransmitBuffer) :
    Recorded codec
      { s with
        buffer := b,
        pc := .triggeringWrite
          (pdoWriteAsyncUnchecked codec s.upstreamEnabled targets s.timestamp) }
      reads answered pending := by
  have hpending := h.pending
  rw [hpc] at hpending
  obtain ⟨c,rfl,rfl⟩ := hpending
  refine h.turn rfl rfl rfl ⟨c,rfl,?_⟩ Bool.noConfusion (by simp)
  rw [htimed.timestamp_eq (by simp [hpc]), h.requests, List.length_append, List.length_replicate,
    List.length_mapIdx]
  rfl

theorem Recorded.triggeredWrite (h : Recorded codec s reads answered pending) {w : Pdo.Write}
    (hpc : s.pc = .triggeringWrite w) (b : TransmitBuffer) (nextIterationTime : Nat) :
    ∃ c, Recorded codec
      { s with
        buffer := b, pc := .pacing, requests := s.requests ++ [.write w],
        nextIterationTime := nextIterationTime } reads (answered ++ [c]) [] := by
  have hpending := h.pending
  rw [hpc] at hpending
  obtain ⟨c,rfl,hanswer⟩ := hpending
  refine ⟨c,?_,?_,rfl,h.blind,Bool.noConfusion,by simp⟩
  · exact h.calls.trans (List.append_nil _).symm
  · dsimp only
    rw [h.requests, List.mapIdx_concat, hanswer, List.append_assoc]

theorem Recorded.steps (h : Recorded codec s reads answered pending) (htimed : s.Timed)
    (hstep : Steps codec s s') :
    ∃ reads' answered' pending', Recorded codec s' reads' answered' pending' := by
  have hpending := h.pending
  cases hstep with
  | rest => exact ⟨_,_,_,h⟩
  | attached hpc upstreamEnabled =>
    simp only [attach, hpc]
    exact ⟨0,[],[],rfl,rfl,rfl,fun _ => rfl,Bool.noConfusion,fun _ => ⟨rfl,rfl⟩⟩
  | stopped => exact ⟨_,_,_,h.kept rfl rfl rfl rfl⟩
  | received positions => exact ⟨_,_,_,h.kept rfl rfl rfl rfl⟩
  | stored => exact ⟨_,_,_,h.kept rfl rfl rfl rfl⟩
  | published => exact ⟨_,_,_,h.kept rfl rfl rfl rfl⟩
  | completed => exact ⟨_,_,_,h.kept rfl rfl rfl rfl⟩
  | elapsed duration => exact ⟨_,_,_,h.kept rfl rfl rfl rfl⟩
  | started hpc => exact ⟨_,_,_,h.started hpc⟩
  | triggeredRead oldVersion b hpc => exact ⟨_,_,_,h.triggeredRead hpc b _⟩
  | fetchedWrite targets b hpc => exact ⟨_,_,_,h.fetchedWrite htimed hpc b⟩
  | triggeredWrite w b hpc =>
    obtain ⟨c,hrecorded⟩ := h.triggeredWrite hpc b (s.nextIterationTime + updatePeriod)
    exact ⟨_,_,_,hrecorded⟩
  | stepped since actual targets hpc =>
    rw [hpc] at hpending
    obtain rfl : pending = [] := hpending
    exact ⟨_,_,_,h.stepped since actual targets⟩
  | awoken oldVersion hpc hclock =>
    rw [hpc] at hpending
    exact ⟨_,_,_,h.forked (by rw [hpc]; rfl) hpending hpending (by simp) (by simp)⟩
  | handshake oldVersion hpc =>
    rw [hpc] at hpending
    exact ⟨_,_,_,h.forked (by rw [hpc]; rfl) hpending hpending (by simp) (by simp)⟩
  | paced hpc hclock =>
    rw [hpc] at hpending
    exact ⟨_,_,_,h.turn rfl rfl rfl hpending Bool.noConfusion (by simp)⟩
  | starved hfree hpc =>
    exact ⟨_,_,_,h.turn rfl rfl rfl hpending.length_le Bool.noConfusion (by simp)⟩
  | _ =>
    rename_i hpc
    rw [hpc] at hpending
    exact ⟨_,_,_,h.turn rfl rfl rfl hpending (by simp [hpc, RealtimeLoopPc.handshake]) (by simp)⟩

end Records

structure Legal (codec : PositionCodec) (s : RealtimeLoop) : Prop where
  buffered : s.Buffered
  timed : s.Timed
  recorded : ∃ reads answered pending, Recorded codec s reads answered pending

theorem create_legal (pdoMemory : JointTable (BitVec 32)) (allocTransferCount : Nat)
    (memory : Nat → Memory) :
    Legal codec (create pdoMemory (.create allocTransferCount memory)) where
  buffered := create_buffered pdoMemory allocTransferCount memory
  timed := ⟨fun _ => rfl,Nat.le_refl _,fun _ => by simp [create],fun _ _ => Nat.le_refl _,
    fun _ => Nat.zero_le _⟩
  recorded := ⟨0,[],[],rfl,rfl,rfl,fun _ => rfl,Bool.noConfusion,fun _ => ⟨rfl,rfl⟩⟩

theorem Legal.step (h : Legal codec s) (e : RealtimeLoopEvent) : Legal codec (s.step codec e) := by
  obtain ⟨hbuffered,hsteps⟩ : (s.step codec e).Buffered ∧ Steps codec s (s.step codec e) :=
    step_steps h.buffered e
  obtain ⟨reads,answered,pending,hrecorded⟩ := h.recorded
  exact ⟨hbuffered,h.timed.steps hsteps,hrecorded.steps h.timed hsteps⟩

theorem Legal.run (h : Legal codec s) (events : List RealtimeLoopEvent) :
    Legal codec (Runs.run (RealtimeLoop.step codec) s events) :=
  Runs.run_invariant (fun _ e h => h.step e) h

theorem Legal.paced (h : Legal codec s) :
    s.begin + s.requests.length * updatePeriod ≤ s.clock + updatePeriod := by
  by_cases hpc : s.pc = .starting
  · rw [h.timed.starting hpc, List.length_nil, Nat.zero_mul]
    exact Nat.le_add_right_of_le h.timed.begun
  · rw [← h.timed.next hpc]
    exact h.timed.asleep hpc

section Places

def transfers (s : RealtimeLoop) : List Nat := s.buffer.freeTransfers ++ s.buffer.inFlight

theorem fetchPdoBuffer_transfers (hnodup : s.buffer.freeTransfers.Nodup) (request : PdoRequest)
    (resume : RealtimeLoopPc) : (s.fetchPdoBuffer request resume).transfers.Perm s.transfers := by
  unfold fetchPdoBuffer
  split
  · exact .refl _
  · rename_i b hok
    exact TransmitBuffer.fetchBuffer_perm hnodup hok
  · rename_i b hok
    exact TransmitBuffer.fetchBuffer_perm hnodup hok

theorem triggerTransmission_transfers (hnodup : s.buffer.freeTransfers.Nodup)
    (request : PdoRequest) (resume : RealtimeLoopPc) :
    (s.triggerTransmission request resume).transfers.Perm s.transfers := by
  unfold triggerTransmission
  split
  · exact .refl _
  · rename_i b hok
    exact TransmitBuffer.triggerTransmission_perm hnodup hok

theorem complete_transfers (id : Nat) : (s.complete id).transfers.Perm s.transfers := by
  unfold complete
  split
  · rename_i hid
    split
    · exact .refl _
    · rename_i b hok
      exact TransmitBuffer.transmitCompleteCallback_perm hid hok
  · exact .refl _

theorem realtimeStep_transfers (hnodup : s.buffer.freeTransfers.Nodup)
    (targets : JointTable Buffer8) : (s.realtimeStep codec targets).transfers.Perm s.transfers := by
  unfold realtimeStep
  split
  case h_4 => exact fetchPdoBuffer_transfers hnodup ..
  case h_5 => exact triggerTransmission_transfers hnodup ..
  case h_11 => exact fetchPdoBuffer_transfers hnodup ..
  case h_12 => exact triggerTransmission_transfers hnodup ..
  case h_6 => split <;> exact .refl _
  case h_7 =>
    split
    · exact .refl _
    · split <;> exact .refl _
  case h_13 => split <;> exact .refl _
  all_goals exact .refl _

theorem apply_transfers (hnodup : s.buffer.freeTransfers.Nodup) (e : RealtimeLoopEvent) :
    (s.apply codec e).transfers.Perm s.transfers := by
  cases e with
  | attach upstreamEnabled =>
    simp only [apply, attach]
    split <;> exact .refl _
  | join =>
    simp only [apply, join]
    split <;> exact .refl _
  | receiver =>
    simp only [apply, receiverStep]
    split <;> exact .refl _
  | realtime targets => exact realtimeStep_transfers hnodup targets
  | complete id => exact complete_transfers id
  | _ => exact .refl _

theorem step_transfers (h : Legal codec s) (e : RealtimeLoopEvent) :
    (s.step codec e).transfers.Perm s.transfers := by
  have hnodup : s.buffer.freeTransfers.Nodup :=
    (List.nodup_append.mp h.buffered.carries.sound.nodup).1
  unfold step
  split
  · exact .refl _
  · exact apply_transfers hnodup e

theorem run_transfers (h : Legal codec s) (events : List RealtimeLoopEvent) :
    (Runs.run (step codec) s events).transfers.Perm s.transfers := by
  induction events generalizing s with
  | nil => exact .refl _
  | cons e events ih => exact (ih (h.step e)).trans (step_transfers h e)

end Places

end WujiHand.RealtimeLoop

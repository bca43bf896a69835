import WujiHand.Driver.LoneRecords
import WujiHand.Handler.RealtimeLoop

namespace WujiHand

namespace RealtimeLoopPc

def handshake : RealtimeLoopPc → Bool
  | .handshaking _ | .reading _ | .triggeringRead _ | .awaiting _ => true
  | _ => false

def fetching : RealtimeLoopPc → Bool
  | .reading _ | .writing _ => true
  | _ => false

def asleep : RealtimeLoopPc → Bool
  | .awaiting _ | .pacing => true
  | _ => false

theorem fetching_awake {pc : RealtimeLoopPc} (h : pc.fetching = true) :
    pc ≠ .starting ∧ pc.asleep = false := by
  cases pc <;> simp_all [fetching, asleep]

end RealtimeLoopPc

namespace RealtimeLoop

open Publication

variable {codec : PositionCodec} {s s' : RealtimeLoop}

def Carries : RealtimeLoopPc → TransmitBuffer → Prop
  | .triggeringRead _, b => b.Loaded PdoRequest.read.record
  | .triggeringWrite w, b => b.Loaded (PdoRequest.write w).record
  | .terminated abort, b =>
    b.Rested ∧ b.freeTransfers = [] ∧ abort = .exception noBufferAvailable
  | _, b => b.Rested

structure Buffered (s : RealtimeLoop) : Prop where
  carries : Carries s.pc s.buffer
  submitted : s.buffer.submitted.map Submission.records =
    (s.earlier ++ s.requests).map fun r => [r.record]

theorem Carries.sound {pc : RealtimeLoopPc} {b : TransmitBuffer} (h : Carries pc b) : b.Sound := by
  cases pc with
  | triggeringRead oldVersion => exact TransmitBuffer.Loaded.sound h
  | triggeringWrite w => exact TransmitBuffer.Loaded.sound h
  | terminated abort => exact h.1.sound
  | _ => exact TransmitBuffer.Rested.sound h

theorem create_buffered (pdoMemory : JointTable (BitVec 32)) (allocTransferCount : Nat)
    (memory : Nat → Memory) :
    (create pdoMemory (.create allocTransferCount memory)).Buffered :=
  ⟨TransmitBuffer.create_rested allocTransferCount memory,rfl⟩

theorem Carries.complete {pc : RealtimeLoopPc} {b : TransmitBuffer} (h : Carries pc b)
    (hpc : ∀ abort, pc ≠ .terminated abort) {id : Nat} (hid : id ∈ b.inFlight) :
    ∃ b', b.transmitCompleteCallback id = .ok b' ∧ Carries pc b' ∧ b'.submitted = b.submitted := by
  have hrested (h : b.Rested) : ∃ b', b.transmitCompleteCallback id = .ok b' ∧ b'.Rested ∧
      b'.submitted = b.submitted := by
    obtain ⟨b',hok,hrested⟩ := TransmitBuffer.complete_rested h hid
    exact ⟨b',hok,hrested,(TransmitBuffer.complete_submitted hok).1⟩
  cases pc with
  | triggeringRead oldVersion => exact TransmitBuffer.Loaded.complete h hid
  | triggeringWrite w => exact TransmitBuffer.Loaded.complete h hid
  | terminated abort => exact absurd rfl (hpc abort)
  | _ => exact hrested h

-- What one step can do: the event threads change the results, the buffer or the clock, the
-- realtime thread does one turn of its function.
inductive Steps (codec : PositionCodec) (s : RealtimeLoop) : RealtimeLoop → Prop
  | rest : Steps codec s s
  | attached (hpc : s.pc = .detached) (upstreamEnabled : Bool) :
      Steps codec s (s.attach upstreamEnabled)
  | stopped : Steps codec s { s with stopRequested := true }
  | joined (hpc : s.pc = .finished) : Steps codec s { s with pc := .detached }
  | received (positions : JointTable (BitVec 32)) :
      Steps codec s { s with results := s.results.start joints fun t => positions t.1 t.2 }
  | stored (hwriting : ∀ table, s.results.writing ≠ some ([],table)) :
      Steps codec s { s with results := s.results.advance }
  | published (table : JointId → BitVec 32) (hwriting : s.results.writing = some ([],table)) :
      Steps codec s { s with results := s.results.advance, version := s.version + 1 }
  | completed (b : TransmitBuffer) : Steps codec s { s with buffer := b }
  | elapsed (duration : Nat) : Steps codec s { s with clock := s.clock + duration }
  | started (hpc : s.pc = .starting) :
      Steps codec s
        { s with
          begin := s.clock, nextIterationTime := s.clock, base := s.results.published,
          pc := if s.upstreamEnabled then .handshaking s.version else .controlling }
  | handshake (oldVersion : BitVec 64) (hpc : s.pc = .handshaking oldVersion) :
      Steps codec s
        { s with pc := if s.stopRequested then .controlling else .reading oldVersion }
  | fetchedRead (oldVersion : BitVec 64) (b : TransmitBuffer) (hpc : s.pc = .reading oldVersion) :
      Steps codec s { s with buffer := b, pc := .triggeringRead oldVersion }
  | triggeredRead (oldVersion : BitVec 64) (b : TransmitBuffer)
      (hpc : s.pc = .triggeringRead oldVersion) :
      Steps codec s
        { s with
          buffer := b, pc := .awaiting oldVersion, requests := s.requests ++ [.read],
          nextIterationTime := s.nextIterationTime + updatePeriod }
  | awoken (oldVersion : BitVec 64) (hpc : s.pc = .awaiting oldVersion)
      (hclock : s.nextIterationTime ≤ s.clock) :
      Steps codec s
        { s with
          pc := if s.version ≠ oldVersion then .controlling else .handshaking oldVersion }
  | left (hstop : s.stopRequested = true) (hpc : s.pc = .controlling) :
      Steps codec s { s with pc := .finished }
  | iterated (hstop : s.stopRequested = false) (hupstream : s.upstreamEnabled = true)
      (hpc : s.pc = .controlling) :
      Steps codec s { s with pc := .loading s.results.published joints fun _ _ => none }
  | iteratedBlind (hstop : s.stopRequested = false) (hupstream : s.upstreamEnabled = false)
      (hpc : s.pc = .controlling) :
      Steps codec s { s with pc := .stepping s.results.published none }
  | loaded (since : Nat) (t : JointId) (pending : List JointId) (positions : ActualPositions)
      (hpc : s.pc = .loading since (t :: pending) positions) :
      Steps codec s
        { s with
          pc := .loading since pending
            (JointTable.update positions t (some (loadPosition codec t (s.results.cells t)))) }
  | loadedAll (since : Nat) (positions : ActualPositions) (hpc : s.pc = .loading since [] positions) :
      Steps codec s { s with pc := .stepping since (some positions) }
  | stepped (since : Nat) (actual : Option ActualPositions) (targets : JointTable Buffer8)
      (hpc : s.pc = .stepping since actual) :
      Steps codec s
        { s with pc := .writing targets, calls := s.calls ++ [⟨since,actual,targets⟩] }
  | fetchedWrite (targets : JointTable Buffer8) (b : TransmitBuffer) (hpc : s.pc = .writing targets) :
      Steps codec s
        { s with
          buffer := b,
          pc := .triggeringWrite
            (pdoWriteAsyncUnchecked codec s.upstreamEnabled targets s.timestamp) }
  | triggeredWrite (w : Pdo.Write) (b : TransmitBuffer) (hpc : s.pc = .triggeringWrite w) :
      Steps codec s
        { s with
          buffer := b, pc := .pacing, requests := s.requests ++ [.write w],
          nextIterationTime := s.nextIterationTime + updatePeriod }
  | paced (hpc : s.pc = .pacing) (hclock : s.nextIterationTime ≤ s.clock) :
      Steps codec s { s with pc := .controlling }
  | starved (hfree : s.buffer.freeTransfers = []) (hpc : s.pc.fetching = true) :
      Steps codec s { s with pc := .terminated (.exception noBufferAvailable) }

theorem Buffered.fetch (h : s.Buffered) (hrested : s.buffer.Rested) (request : PdoRequest)
    (resume : RealtimeLoopPc) (hresume : ∀ b, b.Loaded request.record → Carries resume b)
    (hpc : s.pc.fetching = true)
    (hsteps : ∀ b, Steps codec s { s with buffer := b, pc := resume }) :
    (s.fetchPdoBuffer request resume).Buffered ∧ Steps codec s (s.fetchPdoBuffer request resume) := by
  obtain ⟨hpos,hsize⟩ := request.encode_length
  unfold fetchPdoBuffer
  by_cases hfree : s.buffer.freeTransfers = []
  · have hempty : s.buffer.fetchPdoBuffer request.encode = .ok (s.buffer,false) :=
      TransmitBuffer.fetchBuffer_empty hfree
    rw [hempty]
    exact ⟨⟨⟨hrested,hfree,rfl⟩,h.submitted⟩,.starved hfree hpc⟩
  · obtain ⟨b,hok,hloaded,hsubmitted⟩ := hrested.fetchBuffer (.inr rfl) hpos hsize hfree
    have hfetch : s.buffer.fetchPdoBuffer request.encode = .ok (b,true) := hok
    rw [hfetch]
    exact ⟨⟨hresume b hloaded,(congrArg _ hsubmitted).trans h.submitted⟩,hsteps b⟩

theorem Buffered.trigger (h : s.Buffered) {request : PdoRequest}
    (hloaded : s.buffer.Loaded request.record) (resume : RealtimeLoopPc)
    (hresume : ∀ b, b.Rested → Carries resume b)
    (hsteps : ∀ b, Steps codec s
      { s with
        buffer := b, pc := resume, requests := s.requests ++ [request],
        nextIterationTime := s.nextIterationTime + updatePeriod }) :
    (s.triggerTransmission request resume).Buffered ∧
      Steps codec s (s.triggerTransmission request resume) := by
  obtain ⟨b,hok,hrested,hsubmitted⟩ := hloaded.triggerTransmission
  unfold triggerTransmission
  rw [hok]
  refine ⟨⟨hresume b hrested,?_⟩,hsteps b⟩
  dsimp only
  rw [hsubmitted, h.submitted, ← List.append_assoc]
  simp only [List.map_append, List.map_cons, List.map_nil]

theorem realtimeStep_steps (h : s.Buffered) (targets : JointTable Buffer8) :
    (s.realtimeStep codec targets).Buffered ∧ Steps codec s (s.realtimeStep codec targets) := by
  obtain ⟨hcarries,hsubmitted⟩ := id h
  unfold realtimeStep
  split
  case h_1 => exact ⟨h,.rest⟩
  case h_2 hpc =>
    rw [hpc] at hcarries
    refine ⟨⟨?_,hsubmitted⟩,.started hpc⟩
    dsimp only
    split <;> exact hcarries
  case h_3 oldVersion hpc =>
    rw [hpc] at hcarries
    refine ⟨⟨?_,hsubmitted⟩,.handshake oldVersion hpc⟩
    dsimp only
    split <;> exact hcarries
  case h_4 oldVersion hpc =>
    rw [hpc] at hcarries
    exact h.fetch hcarries .read (.triggeringRead oldVersion) (fun _ hb => hb)
      (by rw [hpc]; rfl) fun b => .fetchedRead oldVersion b hpc
  case h_5 oldVersion hpc =>
    rw [hpc] at hcarries
    exact h.trigger hcarries (.awaiting oldVersion) (fun _ hb => hb)
      fun b => .triggeredRead oldVersion b hpc
  case h_6 oldVersion hpc =>
    rw [hpc] at hcarries
    split
    case isTrue => exact ⟨h,.rest⟩
    case isFalse hclock =>
      refine ⟨⟨?_,hsubmitted⟩,.awoken oldVersion hpc (Nat.le_of_not_lt hclock)⟩
      dsimp only
      split <;> exact hcarries
  case h_7 hpc =>
    rw [hpc] at hcarries
    split
    case isTrue hstop => exact ⟨⟨hcarries,hsubmitted⟩,.left hstop hpc⟩
    case isFalse hstop =>
      have hgo : s.stopRequested = false := Bool.eq_false_iff.mpr hstop
      split
      case isTrue hupstream => exact ⟨⟨hcarries,hsubmitted⟩,.iterated hgo hupstream hpc⟩
      case isFalse hupstream =>
        exact ⟨⟨hcarries,hsubmitted⟩,.iteratedBlind hgo (Bool.eq_false_iff.mpr hupstream) hpc⟩
  case h_8 since positions hpc =>
    rw [hpc] at hcarries
    exact ⟨⟨hcarries,hsubmitted⟩,.loadedAll since positions hpc⟩
  case h_9 since t pending positions hpc =>
    rw [hpc] at hcarries
    exact ⟨⟨hcarries,hsubmitted⟩,.loaded since t pending positions hpc⟩
  case h_10 since actual hpc =>
    rw [hpc] at hcarries
    exact ⟨⟨hcarries,hsubmitted⟩,.stepped since actual targets hpc⟩
  case h_11 targets hpc =>
    rw [hpc] at hcarries
    exact h.fetch hcarries (.write _) (.triggeringWrite _) (fun _ hb => hb)
      (by rw [hpc]; rfl) fun b => .fetchedWrite targets b hpc
  case h_12 w hpc =>
    rw [hpc] at hcarries
    exact h.trigger hcarries .pacing (fun _ hb => hb) fun b => .triggeredWrite w b hpc
  case h_13 hpc =>
    rw [hpc] at hcarries
    split
    case isTrue => exact ⟨h,.rest⟩
    case isFalse hclock =>
      exact ⟨⟨hcarries,hsubmitted⟩,.paced hpc (Nat.le_of_not_lt hclock)⟩
  case h_14 => exact ⟨h,.rest⟩
  case h_15 => exact ⟨h,.rest⟩

theorem apply_steps (h : s.Buffered) (hpc : ∀ abort, s.pc ≠ .terminated abort)
    (e : RealtimeLoopEvent) : (s.apply codec e).Buffered ∧ Steps codec s (s.apply codec e) := by
  cases e with
  | attach upstreamEnabled =>
    by_cases hdetached : s.pc = .detached
    · have hcarries := h.carries
      rw [hdetached] at hcarries
      refine ⟨?_,.attached hdetached upstreamEnabled⟩
      simp only [apply, attach, hdetached]
      exact ⟨hcarries,by rw [List.append_nil]; exact h.submitted⟩
    · have hsame : s.apply codec (.attach upstreamEnabled) = s := by
        rw [apply, attach]
        split
        · contradiction
        · rfl
      rw [hsame]
      exact ⟨h,.rest⟩
  | requestStop => exact ⟨⟨h.carries,h.submitted⟩,.stopped⟩
  | join =>
    simp only [apply, join]
    split
    case h_1 hfinished =>
      have hcarries := h.carries
      rw [hfinished] at hcarries
      exact ⟨⟨hcarries,h.submitted⟩,.joined hfinished⟩
    case h_2 => exact ⟨h,.rest⟩
  | realtime targets => exact realtimeStep_steps h targets
  | receive positions => exact ⟨⟨h.carries,h.submitted⟩,.received positions⟩
  | receiver =>
    simp only [apply, receiverStep]
    split
    case h_1 table hwriting => exact ⟨⟨h.carries,h.submitted⟩,.published table hwriting⟩
    case h_2 hwriting => exact ⟨⟨h.carries,h.submitted⟩,.stored hwriting⟩
  | complete id =>
    simp only [apply, complete]
    by_cases hid : id ∈ s.buffer.inFlight
    · obtain ⟨b,hok,hcarries,hsubmitted⟩ := h.carries.complete hpc hid
      rw [if_pos hid, hok]
      exact ⟨⟨hcarries,(congrArg _ hsubmitted).trans h.submitted⟩,.completed b⟩
    · rw [if_neg hid]
      exact ⟨h,.rest⟩
  | elapse duration => exact ⟨⟨h.carries,h.submitted⟩,.elapsed duration⟩

theorem step_steps (h : s.Buffered) (e : RealtimeLoopEvent) :
    (s.step codec e).Buffered ∧ Steps codec s (s.step codec e) := by
  unfold step
  split
  case h_1 => exact ⟨h,.rest⟩
  case h_2 hpc => exact apply_steps h hpc e

end RealtimeLoop

end WujiHand

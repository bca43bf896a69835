import WujiHand.Driver.Conservation
import WujiHand.Driver.RecordLog

namespace WujiHand

namespace RingBuffer

theorem toNat_smear (n : BitVec 64) : (smear n).toNat = smear n.toNat := by
  simp only [smear, BitVec.toNat_or, BitVec.toNat_ushiftRight]

theorem create_capacity {A : Type} {size : BitVec 64} (h : size.toNat ≤ 2 ^ 63) :
    (create size : RingBuffer A).capacity = ringMaxSize size.toNat := by
  rw [capacity, create_maxSize h, ringMaxSize]
  split
  case isTrue hle =>
    rw [Nat.max_eq_right hle]
    rfl
  case isFalse hgt =>
    have hpred : (size - 1).toNat = size.toNat - 1 := pred_toNat (by omega)
    rw [Nat.max_eq_left (Nat.le_of_not_le hgt), ← hpred, ← smear_toNat, toNat_smear, hpred]
    rfl

end RingBuffer

open TransferPool

-- The buffer whose fetches are single steps, seen as a pool between two calls.
structure Pools (s : TransferPool) (b : TransmitBuffer) : Prop where
  ring : s.freeTransfers.Represents b.freeTransfers
  capacity : s.freeTransfers.capacity = b.maxSize
  inFlight : s.inFlight = b.inFlight
  running : s.stage = .running

namespace Pools

variable {s : TransferPool} {b b' : TransmitBuffer}

theorem create {allocTransferCount : BitVec 64} (h : allocTransferCount.toNat ≤ 2 ^ 63)
    (memory : Nat → Memory) :
    Pools (.create allocTransferCount) (.create allocTransferCount.toNat memory) where
  ring := (create_sound h).ring
  capacity := (RingBuffer.emplaceBackMulti_capacity ..).trans (RingBuffer.create_capacity h)
  inFlight := rfl
  running := rfl

theorem front (h : Pools s b) : s.freeTransfers.front = b.freeTransfers.head? :=
  RingBuffer.front_represents h.ring

theorem step_running (hrun : s.stage = .running) (e : PoolEvent) : s.step e = s.apply e := by
  unfold TransferPool.step
  rw [hrun]

theorem submitter_running (hrun : s.stage = .running) (go : Bool) :
    s.step (.submitter go) = s.submitterStep go := by
  rw [step_running hrun, TransferPool.apply, if_pos hrun]

theorem nocheck {caller : NocheckCaller} (h : Pools s b) (hpc : s.submitter = .popping caller)
    (hok : b.triggerTransmissionNocheck = .ok b') (hne : b.freeTransfers ≠ []) :
    Pools (Runs.run step s [.submitter true,.submitter true]) b' ∧
      (Runs.run step s [.submitter true,.submitter true]).submitter = caller.resume := by
  obtain ⟨id,rest,hfree⟩ := List.exists_cons_of_ne_nil hne
  obtain ⟨hleft,htaken⟩ := RingBuffer.popFrontMulti_represents 1 h.ring
  have hcapacity := RingBuffer.popFrontMulti_capacity 1 s.freeTransfers
  have hone : (1 : BitVec 64).toNat = 1 := rfl
  rw [hone, hfree] at hleft htaken
  unfold TransmitBuffer.triggerTransmissionNocheck at hok
  rw [hfree] at hok
  dsimp only at hok
  split at hok
  · cases hok
  · cases hok
    have hpop : s.submitterStep true =
        { s with
          freeTransfers := (s.freeTransfers.popFrontMulti 1).1,
          submitter := .submitting caller id } := by
      unfold submitterStep
      rw [hpc]
      dsimp only
      split
      · rename_i hpopped
        rw [hpopped] at htaken
        cases htaken
      · rename_i hpopped
        rw [hpopped] at htaken ⊢
        obtain ⟨rfl,_⟩ := List.cons.inj htaken
        rfl
    have hrun : (s.submitterStep true).stage = .running := by
      rw [hpop]
      exact h.running
    have hsubmit := submitter_running hrun true
    rw [hpop] at hsubmit
    rw [Runs.run_cons, submitter_running h.running, hpop, Runs.run_cons, Runs.run_nil, hsubmit]
    exact ⟨⟨hleft,hcapacity.trans h.capacity,congrArg (id :: ·) h.inFlight,h.running⟩,rfl⟩

theorem setTransfer (h : Pools s b) (id : Nat) (t : Transfer) : Pools s (b.setTransfer id t) :=
  ⟨h.ring,h.capacity,h.inFlight,h.running⟩

theorem refused (h : Pools s b) (hpc : s.submitter = .fetching) (hne : b.freeTransfers ≠ []) :
    Pools (s.step (.submitter false)) b ∧
      (s.step (.submitter false)).submitter = .popping .fetch := by
  obtain ⟨id,rest,hfree⟩ := List.exists_cons_of_ne_nil hne
  have hfront := h.front
  rw [hfree, List.head?_cons] at hfront
  rw [submitter_running h.running, submitterStep, hpc]
  dsimp only
  rw [hfront]
  exact ⟨⟨h.ring,h.capacity,h.inFlight,h.running⟩,rfl⟩

theorem answered (h : Pools s b) (hpc : s.submitter = .fetching) :
    Pools (s.step (.submitter true)) b ∧ (s.step (.submitter true)).submitter = .idle := by
  rw [submitter_running h.running, submitterStep, hpc]
  dsimp only
  split
  · exact ⟨⟨h.ring,h.capacity,h.inFlight,h.running⟩,rfl⟩
  · exact ⟨⟨h.ring,h.capacity,h.inFlight,h.running⟩,rfl⟩

theorem tryFetchBuffer {type : Byte} {size : Nat} {free : List Nat} {r : Option (Nat × Nat)}
    (h : Pools s b) (hpc : s.submitter = .fetching) (hfree : b.freeTransfers = free)
    (hok : TransmitBuffer.tryFetchBuffer type size free b = .ok (b',r)) :
    ∃ es, Pools (Runs.run step s es) b' ∧ (Runs.run step s es).submitter = .idle := by
  induction free generalizing s b with
  | nil =>
    cases hok
    exact ⟨[.submitter true],h.answered hpc⟩
  | cons id rest ih =>
    have hne : b.freeTransfers ≠ [] := by
      rw [hfree]
      exact List.cons_ne_nil id rest
    rw [TransmitBuffer.tryFetchBuffer] at hok
    split at hok
    · cases hok
    · split at hok
      · cases hok
      · rename_i b₁ hnocheck
        obtain ⟨hrefused,hpopping⟩ := h.refused hpc hne
        obtain ⟨hsubmitted,hfetching⟩ := hrefused.nocheck hpopping hnocheck hne
        have htail := (TransmitBuffer.nocheck_advances hnocheck).2
        rw [hfree, List.tail_cons] at htail
        obtain ⟨es,hdone⟩ := ih hsubmitted hfetching htail hok
        refine ⟨[.submitter false,.submitter true,.submitter true] ++ es,?_⟩
        rw [Runs.run_append]
        exact hdone
    · split at hok
      · cases hok
        obtain ⟨hanswered,hidle⟩ := h.answered hpc
        exact ⟨[.submitter true],hanswered.setTransfer _ _,hidle⟩
      · cases hok
        obtain ⟨hanswered,hidle⟩ := h.answered hpc
        exact ⟨[.submitter true],hanswered.setTransfer _ _,hidle⟩

theorem called (h : Pools s b) (hidle : s.submitter = .idle) (pc : SubmitterPc) :
    s.call pc = { s with submitter := pc } := by
  unfold call
  rw [h.running, hidle]

theorem fetchBuffer {type : Byte} {record : List Byte} {accepted : Bool} (h : Pools s b)
    (hidle : s.submitter = .idle) (hok : b.fetchBuffer type record = .ok (b',accepted)) :
    ∃ es, Pools (Runs.run step s es) b' ∧ (Runs.run step s es).submitter = .idle := by
  have hstart : s.step .fetch = { s with submitter := .fetching } := by
    rw [step_running h.running, TransferPool.apply, h.called hidle]
  have hfetching : Pools (s.step .fetch) b ∧ (s.step .fetch).submitter = .fetching := by
    rw [hstart]
    exact ⟨⟨h.ring,h.capacity,h.inFlight,h.running⟩,rfl⟩
  unfold TransmitBuffer.fetchBuffer at hok
  split at hok
  · cases hok
  · rename_i b₁ htry
    cases hok
    obtain ⟨es,hdone⟩ := hfetching.1.tryFetchBuffer hfetching.2 rfl htry
    exact ⟨.fetch :: es,hdone⟩
  · rename_i b₁ id offset htry
    obtain ⟨es,hdone,hidle'⟩ := hfetching.1.tryFetchBuffer hfetching.2 rfl htry
    split at hok
    · cases hok
    · cases hok
      exact ⟨.fetch :: es,⟨hdone.ring,hdone.capacity,hdone.inFlight,hdone.running⟩,hidle'⟩

theorem triggerTransmission {allowEmpty : Bool} (h : Pools s b) (hidle : s.submitter = .idle)
    (hok : b.triggerTransmission allowEmpty = .ok b') :
    ∃ es, Pools (Runs.run step s es) b' ∧ (Runs.run step s es).submitter = .idle := by
  have hstart : s.step .trigger = { s with submitter := .triggering } := by
    rw [step_running h.running, TransferPool.apply, h.called hidle]
  have htriggering : Pools (s.step .trigger) b ∧ (s.step .trigger).submitter = .triggering := by
    rw [hstart]
    exact ⟨⟨h.ring,h.capacity,h.inFlight,h.running⟩,rfl⟩
  have hfront := htriggering.1.front
  have hanswer (go : Bool) {id : Nat} {rest : List Nat} (hfree : b.freeTransfers = id :: rest) :
      Pools ((s.step .trigger).step (.submitter go)) b ∧
        ((s.step .trigger).step (.submitter go)).submitter =
          if go then .popping .trigger else .idle := by
    rw [hfree, List.head?_cons] at hfront
    rw [submitter_running htriggering.1.running, submitterStep, htriggering.2]
    dsimp only
    rw [hfront]
    exact ⟨⟨htriggering.1.ring,htriggering.1.capacity,htriggering.1.inFlight,
      htriggering.1.running⟩,rfl⟩
  unfold TransmitBuffer.triggerTransmission at hok
  split at hok
  · cases hok
    exact ⟨[],h,hidle⟩
  · rename_i id rest hfree
    split at hok
    · cases hok
      exact ⟨[.trigger,.submitter false],hanswer false hfree⟩
    · obtain ⟨hgo,hpopping⟩ := hanswer true hfree
      have hne : b.freeTransfers ≠ [] := by
        rw [hfree]
        exact List.cons_ne_nil id rest
      obtain ⟨hsubmitted,hresumed⟩ := hgo.nocheck hpopping hok hne
      exact ⟨[.trigger,.submitter true,.submitter true,.submitter true],hsubmitted,hresumed⟩

theorem complete {id : Nat} (h : Pools s b) (hid : id ∈ b.inFlight)
    (hok : b.transmitCompleteCallback id = .ok b') :
    Pools (s.step (.complete id)) b' ∧ (s.step (.complete id)).submitter = s.submitter := by
  rw [step_running h.running, TransferPool.apply, usbTransmitCompleteCallback,
    if_pos (h.inFlight ▸ hid)]
  unfold TransmitBuffer.transmitCompleteCallback at hok
  split at hok
  · cases hok
  · split at hok
    · rename_i hroom
      cases hok
      rw [← h.capacity] at hroom
      obtain ⟨hring,hpushed⟩ := RingBuffer.pushBack_represents id h.ring hroom
      have hcapacity : (s.freeTransfers.pushBack id).1.capacity = s.freeTransfers.capacity :=
        RingBuffer.emplaceBackMulti_capacity ..
      split
      · rename_i ring hpush
        rw [hpush] at hring hcapacity
        exact ⟨⟨hring,hcapacity.trans h.capacity,congrArg (List.erase · id) h.inFlight,
          h.running⟩,rfl⟩
      · rename_i ring hpush
        rw [hpush] at hpushed
        cases hpushed
    · cases hok

theorem apply {e : TransmitEvent} (h : Pools s b) (hidle : s.submitter = .idle)
    (hok : b.apply e = .ok b') :
    ∃ es, Pools (Runs.run step s es) b' ∧ (Runs.run step s es).submitter = .idle := by
  cases e with
  | fetchSdo record =>
    rw [TransmitBuffer.apply] at hok
    cases hfetch : b.fetchSdoBuffer record with
    | error abort =>
      rw [hfetch] at hok
      cases hok
    | ok r =>
      rw [hfetch] at hok
      cases hok
      exact h.fetchBuffer hidle hfetch
  | fetchPdo record =>
    rw [TransmitBuffer.apply] at hok
    cases hfetch : b.fetchPdoBuffer record with
    | error abort =>
      rw [hfetch] at hok
      cases hok
    | ok r =>
      rw [hfetch] at hok
      cases hok
      exact h.fetchBuffer hidle hfetch
  | trigger allowEmpty => exact h.triggerTransmission hidle hok
  | complete id =>
    unfold TransmitBuffer.apply at hok
    dsimp only at hok
    split at hok
    · rename_i hid
      obtain ⟨hdone,hsame⟩ := h.complete hid hok
      exact ⟨[.complete id],hdone,hsame.trans hidle⟩
    · cases hok
      exact ⟨[],h,hidle⟩

theorem run_aborted (abort : TxAbort) (es : List TransmitEvent) :
    Runs.run TransmitBuffer.step (.error abort) es = .error abort := by
  induction es with
  | nil => rfl
  | cons e es ih => exact ih

theorem run {es : List TransmitEvent} (h : Pools s b) (hidle : s.submitter = .idle)
    (hok : Runs.run TransmitBuffer.step (.ok b) es = .ok b') :
    ∃ es', Pools (Runs.run step s es') b' ∧ (Runs.run step s es').submitter = .idle := by
  induction es generalizing s b with
  | nil =>
    cases hok
    exact ⟨[],h,hidle⟩
  | cons e es ih =>
    rw [Runs.run_cons, TransmitBuffer.step, Except.bind] at hok
    cases happly : b.apply e with
    | error abort =>
      rw [happly, run_aborted] at hok
      cases hok
    | ok b₁ =>
      rw [happly] at hok
      obtain ⟨es₁,h₁,hidle₁⟩ := h.apply hidle happly
      obtain ⟨es₂,h₂,hidle₂⟩ := ih h₁ hidle₁ hok
      refine ⟨es₁ ++ es₂,?_⟩
      rw [Runs.run_append]
      exact ⟨h₂,hidle₂⟩

theorem buffer_conserved {allocTransferCount : BitVec 64}
    (h : allocTransferCount.toNat ≤ 2 ^ 63) (memory : Nat → Memory) (es : List TransmitEvent)
    (hok : Runs.run TransmitBuffer.step
      (.ok (.create allocTransferCount.toNat memory)) es = .ok b) :
    (b.freeTransfers ++ b.inFlight).Perm (List.range allocTransferCount.toNat) := by
  obtain ⟨es',hpools,hidle⟩ := run (create h memory) rfl hok
  obtain ⟨free,hsound⟩ := run_sound h es'
  have hcount := run_allocTransferCount (.create allocTransferCount) es'
  generalize Runs.run step (.create allocTransferCount) es' = s at hpools hidle hsound hcount
  have hcounted := hsound.counted
  rw [Counted, hpools.running] at hcounted
  have hfreed : s.freed = [] := hcounted
  have hfree : free = b.freeTransfers :=
    (RingBuffer.popAll_represents hsound.ring).2.symm.trans
      (RingBuffer.popAll_represents hpools.ring).2
  have hplaces := hsound.places
  rw [hidle, hfreed, hfree, hpools.inFlight, hcount, List.append_nil] at hplaces
  exact hplaces

end Pools

end WujiHand

import WujiHand.Library.Runs
import WujiHand.Utility.RingBuffer

namespace WujiHand

inductive NocheckCaller where
  | fetch
  | trigger
deriving DecidableEq, Repr

inductive SubmitterPc where
  | idle
  | fetching
  | triggering
  | popping (caller : NocheckCaller)
  | submitting (caller : NocheckCaller) (id : Nat)
deriving DecidableEq, Repr

def NocheckCaller.resume : NocheckCaller → SubmitterPc
  | fetch => .fetching
  | trigger => .idle

def SubmitterPc.held : SubmitterPc → List Nat
  | submitting _ id => [id]
  | _ => []

theorem NocheckCaller.resume_held (caller : NocheckCaller) : caller.resume.held = [] := by
  cases caller <;> rfl

inductive Termination where
  | submitFailed
  | ringFull
deriving DecidableEq, Repr

-- From the second on, the destructor is running with its count of transfers not yet released.
inductive PoolStage where
  | running
  | releasing (unreleased : BitVec 64)
  | handlingEvents (unreleased : BitVec 64)
  | exited (unreleased : BitVec 64)
  | terminated (reason : Termination)
deriving DecidableEq, Repr

structure TransferPool where
  allocTransferCount : BitVec 64
  freeTransfers : RingBuffer Nat
  submitter : SubmitterPc := .idle
  inFlight : List Nat := []
  freed : List Nat := []
  stage : PoolStage := .running

-- `go` is what the transfer in front, or libusb, answers the submitter.
inductive PoolEvent where
  | fetch
  | trigger
  | submitter (go : Bool)
  | complete (id : Nat)
  | destroy
  | release
  | eventsHandled (ret : Int) (late : Bool)
deriving DecidableEq, Repr

namespace TransferPool

def create (allocTransferCount : BitVec 64) : TransferPool where
  allocTransferCount := allocTransferCount
  freeTransfers :=
    ((RingBuffer.create allocTransferCount).emplaceBackMulti (fun id => id) allocTransferCount).1

def call (pc : SubmitterPc) (s : TransferPool) : TransferPool :=
  match s.stage, s.submitter with
  | .running, .idle => { s with submitter := pc }
  | _, _ => s

def submitterStep (go : Bool) (s : TransferPool) : TransferPool :=
  match s.submitter with
  | .idle => s
  | .fetching =>
    match s.freeTransfers.front with
    | none => { s with submitter := .idle }
    | some _ => { s with submitter := if go then .idle else .popping .fetch }
  | .triggering =>
    match s.freeTransfers.front with
    | none => { s with submitter := .idle }
    | some _ => { s with submitter := if go then .popping .trigger else .idle }
  | .popping caller =>
    match s.freeTransfers.popFrontMulti 1 with
    | (ring,[],_) => { s with freeTransfers := ring, submitter := caller.resume }
    | (ring,id :: _,_) => { s with freeTransfers := ring, submitter := .submitting caller id }
  | .submitting caller id =>
    if go then { s with inFlight := id :: s.inFlight, submitter := caller.resume }
    else { s with stage := .terminated .submitFailed }

def usbTransmitCompleteCallback (id : Nat) (s : TransferPool) : TransferPool :=
  if id ∈ s.inFlight then
    match s.freeTransfers.pushBack id with
    | (ring,true) => { s with freeTransfers := ring, inFlight := s.inFlight.erase id }
    | (_,false) => { s with stage := .terminated .ringFull }
  else s

-- The submitting threads have been joined before the buffer is destroyed.
def destroy (s : TransferPool) : TransferPool :=
  match s.stage, s.submitter with
  | .running, .idle => { s with stage := .releasing s.allocTransferCount }
  | _, _ => s

def release (s : TransferPool) : TransferPool :=
  match s.stage with
  | .releasing unreleased =>
    let popped := s.freeTransfers.popFrontMulti (-1)
    let unreleased := unreleased - popped.2.2
    { s with
      freeTransfers := popped.1, freed := s.freed ++ popped.2.1,
      stage := if unreleased = 0 then .exited unreleased else .handlingEvents unreleased }
  | _ => s

def eventsHandled (ret : Int) (late : Bool) (s : TransferPool) : TransferPool :=
  match s.stage with
  | .handlingEvents unreleased =>
    { s with stage := if ret ≠ 0 ∨ late = true then .exited unreleased else .releasing unreleased }
  | _ => s

def apply (s : TransferPool) : PoolEvent → TransferPool
  | .fetch => s.call .fetching
  | .trigger => s.call .triggering
  | .submitter go => if s.stage = .running then s.submitterStep go else s
  | .complete id => s.usbTransmitCompleteCallback id
  | .destroy => s.destroy
  | .release => s.release
  | .eventsHandled ret late => s.eventsHandled ret late

def step (s : TransferPool) (e : PoolEvent) : TransferPool :=
  match s.stage with
  | .exited _ | .terminated _ => s
  | _ => s.apply e

def places (s : TransferPool) : List Nat :=
  s.freeTransfers.contents ++ (s.submitter.held ++ (s.inFlight ++ s.freed))

structure Conserved (s : TransferPool) : Prop where
  places : s.places.Perm (List.range s.allocTransferCount.toNat)
  room : ∀ id ∈ s.inFlight, (s.freeTransfers.pushBack id).2 = true
  recycled : s.stage ≠ .terminated .ringFull
  releasable : ∀ unreleased, s.stage = .releasing unreleased →
    (s.freeTransfers.popFrontMulti (-1)).2.1.length ≤ unreleased.toNat
  counted : ∀ unreleased, s.stage = .releasing unreleased ∨ s.stage = .handlingEvents unreleased ∨
    s.stage = .exited unreleased →
      unreleased.toNat + s.freed.length = s.allocTransferCount.toNat
  freedOnce : s.freed.Nodup
  allFreed : s.stage = .exited 0 → s.freed.Perm (List.range s.allocTransferCount.toNat)
  gaveUp : ∀ e unreleased, (∀ u, s.stage ≠ .exited u) → (s.step e).stage = .exited unreleased →
    unreleased ≠ 0 → ∃ ret late, e = .eventsHandled ret late ∧ (ret ≠ 0 ∨ late = true)

def Counted (s : TransferPool) : Prop :=
  match s.stage with
  | .running => s.freed = []
  | .releasing unreleased | .handlingEvents unreleased | .exited unreleased =>
    unreleased.toNat + s.freed.length = s.allocTransferCount.toNat
  | .terminated _ => True

structure Sound (s : TransferPool) (free : List Nat) : Prop where
  ring : s.freeTransfers.Represents free
  places : (free ++ (s.submitter.held ++ (s.inFlight ++ s.freed))).Perm
    (List.range s.allocTransferCount.toNat)
  fits : s.allocTransferCount.toNat ≤ s.freeTransfers.capacity
  recycled : s.stage ≠ .terminated .ringFull
  counted : s.Counted

variable {s : TransferPool} {free : List Nat}

theorem Sound.length (h : s.Sound free) :
    free.length + s.submitter.held.length + s.inFlight.length + s.freed.length =
      s.allocTransferCount.toNat := by
  have hlen := h.places.length_eq
  simp only [List.length_append, List.length_range] at hlen
  omega

theorem Sound.room (h : s.Sound free) {id : Nat} (hid : id ∈ s.inFlight) :
    free.length < s.freeTransfers.capacity := by
  have hlen := h.length
  have hfits := h.fits
  have hpos : 0 < s.inFlight.length := List.length_pos_of_mem hid
  omega

theorem create_sound {allocTransferCount : BitVec 64} (h : allocTransferCount.toNat ≤ 2 ^ 63) :
    (create allocTransferCount).Sound (List.range allocTransferCount.toNat) := by
  have hcap := RingBuffer.le_capacity_create (A := Nat) h
  obtain ⟨m,hm,hring,_⟩ := RingBuffer.emplaceBackMulti_represents (fun id => id)
    allocTransferCount (RingBuffer.create_represents (A := Nat) allocTransferCount)
  have hm : m = allocTransferCount.toNat := by
    rw [hm, List.length_nil]
    omega
  rw [hm, List.nil_append, List.map_id'] at hring
  refine ⟨hring,?_,?_,nofun,rfl⟩
  · exact (List.append_nil _).symm ▸ List.Perm.refl _
  · exact hcap.trans_eq (RingBuffer.emplaceBackMulti_capacity ..).symm

theorem Sound.submitter_moved (h : s.Sound free) {pc : SubmitterPc}
    (hheld : pc.held = s.submitter.held) : ({ s with submitter := pc } : TransferPool).Sound free := by
  refine ⟨h.ring,?_,h.fits,h.recycled,h.counted⟩
  dsimp only
  rw [hheld]
  exact h.places

theorem call_sound {pc : SubmitterPc} (hpc : pc.held = []) (h : s.Sound free) :
    (s.call pc).Sound free := by
  unfold call
  split
  · rename_i hstage hidle
    exact h.submitter_moved (by rw [hpc, hidle]; rfl)
  · exact h

theorem submitterStep_sound (go : Bool) (h : s.Sound free) :
    ∃ free', (s.submitterStep go).Sound free' := by
  have hplaces := h.places
  unfold submitterStep
  split
  · exact ⟨free,h⟩
  · rename_i hpc
    split
    · exact ⟨free,h.submitter_moved (by rw [hpc]; rfl)⟩
    · exact ⟨free,h.submitter_moved (by rw [hpc]; cases go <;> rfl)⟩
  · rename_i hpc
    split
    · exact ⟨free,h.submitter_moved (by rw [hpc]; rfl)⟩
    · exact ⟨free,h.submitter_moved (by rw [hpc]; cases go <;> rfl)⟩
  · rename_i caller hpc
    rw [hpc] at hplaces
    obtain ⟨hleft,htaken⟩ := RingBuffer.popFrontMulti_represents 1 h.ring
    have hcapacity := RingBuffer.popFrontMulti_capacity 1 s.freeTransfers
    have hone : (1 : BitVec 64).toNat = 1 := rfl
    rw [hone] at hleft htaken
    split
    · rename_i ring hpop
      rw [hpop] at hleft htaken hcapacity
      refine ⟨free.drop 1,hleft,?_,h.fits.trans_eq hcapacity.symm,h.recycled,h.counted⟩
      have hnil : free = [] := (List.take_eq_nil_iff.mp htaken.symm).resolve_left (by decide)
      rw [hnil] at hplaces ⊢
      rw [NocheckCaller.resume_held]
      exact hplaces
    · rename_i ring id popped hpop
      rw [hpop] at hleft htaken hcapacity
      refine ⟨free.drop 1,hleft,?_,h.fits.trans_eq hcapacity.symm,h.recycled,h.counted⟩
      cases free with
      | nil => cases htaken
      | cons id' rest =>
        obtain ⟨rfl,rfl⟩ := List.cons.inj htaken
        exact List.perm_middle.trans hplaces
  · rename_i caller id hpc
    rw [hpc] at hplaces
    split
    · refine ⟨free,h.ring,?_,h.fits,h.recycled,h.counted⟩
      rw [NocheckCaller.resume_held]
      exact hplaces
    · refine ⟨free,h.ring,?_,h.fits,nofun,trivial⟩
      rw [hpc]
      exact hplaces

theorem complete_sound (id : Nat) (h : s.Sound free) :
    ∃ free', (s.usbTransmitCompleteCallback id).Sound free' := by
  unfold usbTransmitCompleteCallback
  split
  · rename_i hid
    obtain ⟨hring,hpushed⟩ := RingBuffer.pushBack_represents id h.ring (h.room hid)
    have hcapacity := RingBuffer.emplaceBackMulti_capacity (fun _ => id) 1 s.freeTransfers
    split
    · rename_i ring hpush
      rw [hpush] at hring
      have hring' : (s.freeTransfers.pushBack id).1.capacity = s.freeTransfers.capacity := hcapacity
      rw [hpush] at hring'
      refine ⟨free ++ [id],hring,?_,h.fits.trans_eq hring'.symm,h.recycled,h.counted⟩
      refine List.Perm.trans ?_ h.places
      rw [List.append_assoc]
      have hback : (id :: s.inFlight.erase id).Perm s.inFlight := (List.perm_cons_erase hid).symm
      have hmove : (id :: (s.submitter.held ++ (s.inFlight.erase id ++ s.freed))).Perm
          (s.submitter.held ++ id :: (s.inFlight.erase id ++ s.freed)) := List.perm_middle.symm
      exact (hmove.trans ((hback.append_right s.freed).append_left s.submitter.held)).append_left free
    · rename_i ring hpush
      rw [hpush] at hpushed
      cases hpushed
  · exact ⟨free,h⟩

theorem destroy_sound (h : s.Sound free) : s.destroy.Sound free := by
  unfold destroy
  split
  · rename_i hstage hidle
    have hcounted := h.counted
    rw [Counted, hstage] at hcounted
    have hnone : s.freed = [] := hcounted
    refine ⟨h.ring,h.places,h.fits,nofun,?_⟩
    simp only [Counted, hnone, List.length_nil, Nat.add_zero]
  · exact h

theorem release_sound (h : s.Sound free) : ∃ free', s.release.Sound free' := by
  unfold release
  split
  · rename_i unreleased hstage
    obtain ⟨hring,hall⟩ := RingBuffer.popAll_represents h.ring
    have hcapacity := RingBuffer.popFrontMulti_capacity (-1) s.freeTransfers
    have hpopped : (s.freeTransfers.popFrontMulti (-1)).2.1 = free := hall
    have hcounted := h.counted
    rw [Counted, hstage] at hcounted
    have hcounted : unreleased.toNat + s.freed.length = s.allocTransferCount.toNat := hcounted
    have hlen := h.length
    have hbound := s.allocTransferCount.isLt
    dsimp only
    rw [hpopped]
    have hsub : (unreleased - (s.freeTransfers.popFrontMulti (-1)).2.2).toNat +
        (s.freed ++ free).length = s.allocTransferCount.toNat := by
      have hcount := RingBuffer.popAll_count h.ring
      rw [BitVec.toNat_sub_of_le (by rw [BitVec.le_def]; omega), hcount, List.length_append]
      omega
    refine ⟨[],hring,?_,h.fits.trans_eq hcapacity.symm,?_,?_⟩
    · refine List.Perm.trans ?_ h.places
      rw [List.nil_append, ← List.append_assoc s.inFlight, ← List.append_assoc s.submitter.held]
      exact List.perm_append_comm
    · dsimp only
      split <;> exact nofun
    · simp only [Counted]
      split <;> rename_i hif <;> split at hif <;> cases hif
      · exact hsub
      · exact hsub
  · exact ⟨free,h⟩

theorem eventsHandled_sound (ret : Int) (late : Bool) (h : s.Sound free) :
    (s.eventsHandled ret late).Sound free := by
  unfold eventsHandled
  split
  · rename_i unreleased hstage
    have hcounted := h.counted
    rw [Counted, hstage] at hcounted
    split
    · exact ⟨h.ring,h.places,h.fits,nofun,hcounted⟩
    · exact ⟨h.ring,h.places,h.fits,nofun,hcounted⟩
  · exact h

theorem step_sound (e : PoolEvent) (h : s.Sound free) : ∃ free', (s.step e).Sound free' := by
  unfold step
  split
  · exact ⟨free,h⟩
  · exact ⟨free,h⟩
  · cases e with
    | fetch => exact ⟨free,call_sound rfl h⟩
    | trigger => exact ⟨free,call_sound rfl h⟩
    | submitter go =>
      unfold apply
      dsimp only
      split
      · exact submitterStep_sound go h
      · exact ⟨free,h⟩
    | complete id => exact complete_sound id h
    | destroy => exact ⟨free,destroy_sound h⟩
    | release => exact release_sound h
    | eventsHandled ret late => exact ⟨free,eventsHandled_sound ret late h⟩

theorem submitterStep_stage (go : Bool) (s : TransferPool) :
    (s.submitterStep go).stage = s.stage ∨
      (s.submitterStep go).stage = .terminated .submitFailed := by
  unfold submitterStep
  split
  · exact .inl rfl
  · split <;> exact .inl rfl
  · split <;> exact .inl rfl
  · split <;> exact .inl rfl
  · split
    · exact .inl rfl
    · exact .inr rfl

theorem complete_stage (id : Nat) (s : TransferPool) :
    (s.usbTransmitCompleteCallback id).stage = s.stage ∨
      (s.usbTransmitCompleteCallback id).stage = .terminated .ringFull := by
  unfold usbTransmitCompleteCallback
  split
  · split
    · exact .inl rfl
    · exact .inr rfl
  · exact .inl rfl

theorem call_fields (pc : SubmitterPc) (s : TransferPool) :
    (s.call pc).stage = s.stage ∧ (s.call pc).allocTransferCount = s.allocTransferCount := by
  unfold call
  split
  · exact ⟨rfl,rfl⟩
  · exact ⟨rfl,rfl⟩

theorem destroy_stage (s : TransferPool) :
    s.destroy.stage = s.stage ∨ s.destroy.stage = .releasing s.allocTransferCount := by
  unfold destroy
  split
  · exact .inr rfl
  · exact .inl rfl

theorem release_exits {unreleased : BitVec 64} (hs : ∀ u, s.stage ≠ .exited u)
    (h : s.release.stage = .exited unreleased) : unreleased = 0 := by
  unfold release at h
  split at h
  case h_1 =>
    dsimp only at h
    split at h
    case isTrue hzero =>
      cases h
      exact hzero
    case isFalse => cases h
  case h_2 => exact absurd h (hs _)

theorem eventsHandled_exits {unreleased : BitVec 64} {ret : Int} {late : Bool}
    (hs : ∀ u, s.stage ≠ .exited u) (h : (s.eventsHandled ret late).stage = .exited unreleased) :
    ret ≠ 0 ∨ late = true := by
  unfold eventsHandled at h
  split at h
  case h_1 =>
    dsimp only at h
    split at h
    case isTrue hgave => exact hgave
    case isFalse => cases h
  case h_2 => exact absurd h (hs _)

theorem step_exits {e : PoolEvent} {unreleased : BitVec 64} (hs : ∀ u, s.stage ≠ .exited u)
    (h : (s.step e).stage = .exited unreleased) :
    unreleased = 0 ∨ ∃ ret late, e = .eventsHandled ret late ∧ (ret ≠ 0 ∨ late = true) := by
  have hkept {s' : TransferPool} (hsame : s'.stage = s.stage)
      (hexit : s'.stage = .exited unreleased) : False := hs _ (hsame.symm.trans hexit)
  unfold step at h
  split at h
  · exact (hkept rfl h).elim
  · exact (hkept rfl h).elim
  · cases e with
    | fetch => exact (hkept (call_fields .fetching s).1 h).elim
    | trigger => exact (hkept (call_fields .triggering s).1 h).elim
    | submitter go =>
      unfold apply at h
      dsimp only at h
      split at h
      · rcases submitterStep_stage go s with hsame | hterm
        · exact (hkept hsame h).elim
        · rw [hterm] at h
          cases h
      · exact (hkept rfl h).elim
    | complete id =>
      rcases complete_stage id s with hsame | hterm
      · exact (hkept hsame h).elim
      · rw [apply, hterm] at h
        cases h
    | destroy =>
      rcases destroy_stage s with hsame | hreleasing
      · exact (hkept hsame h).elim
      · rw [apply, hreleasing] at h
        cases h
    | release => exact .inl (release_exits hs h)
    | eventsHandled ret late => exact .inr ⟨ret,late,rfl,eventsHandled_exits hs h⟩

theorem Sound.freed_perm (h : s.Sound free) (hdone : s.stage = .exited 0) :
    s.freed.Perm (List.range s.allocTransferCount.toNat) := by
  have hcounted := h.counted
  have hlen := h.length
  rw [Counted, hdone] at hcounted
  have hcounted : (0 : BitVec 64).toNat + s.freed.length = s.allocTransferCount.toNat := hcounted
  have hzero : (0 : BitVec 64).toNat = 0 := rfl
  have hfree : free = [] := List.length_eq_zero_iff.mp (by omega)
  have hheld : s.submitter.held = [] := List.length_eq_zero_iff.mp (by omega)
  have hflying : s.inFlight = [] := List.length_eq_zero_iff.mp (by omega)
  have hplaces := h.places
  rw [hfree, hheld, hflying] at hplaces
  exact hplaces

theorem Sound.conserved (h : s.Sound free) : s.Conserved := by
  have hall := (RingBuffer.popAll_represents h.ring).2
  have hnodup := h.places.nodup_iff.mpr List.nodup_range
  have hcounted : ∀ unreleased, s.stage = .releasing unreleased ∨
      s.stage = .handlingEvents unreleased ∨ s.stage = .exited unreleased →
        unreleased.toNat + s.freed.length = s.allocTransferCount.toNat := by
    have hcounted := h.counted
    unfold Counted at hcounted
    rintro unreleased (hstage | hstage | hstage) <;> rw [hstage] at hcounted <;> exact hcounted
  refine ⟨?_,?_,h.recycled,?_,hcounted,?_,h.freed_perm,?_⟩
  · rw [TransferPool.places, hall]
    exact h.places
  · exact fun id hid => (RingBuffer.pushBack_represents id h.ring (h.room hid)).2
  · intro unreleased hstage
    have hcount := hcounted unreleased (.inl hstage)
    have hlen := h.length
    have hpopped : (s.freeTransfers.popFrontMulti (-1)).2.1 = free := hall
    rw [hpopped]
    omega
  · have hrest := (List.nodup_append.mp (List.nodup_append.mp hnodup).2.1).2.1
    exact (List.nodup_append.mp hrest).2.1
  · exact fun e unreleased hs hexit hne => (step_exits hs hexit).resolve_left hne

theorem submitterStep_allocTransferCount (go : Bool) (s : TransferPool) :
    (s.submitterStep go).allocTransferCount = s.allocTransferCount := by
  unfold submitterStep
  split
  · rfl
  · split <;> rfl
  · split <;> rfl
  · split <;> rfl
  · split <;> rfl

theorem complete_allocTransferCount (id : Nat) (s : TransferPool) :
    (s.usbTransmitCompleteCallback id).allocTransferCount = s.allocTransferCount := by
  unfold usbTransmitCompleteCallback
  split
  · split <;> rfl
  · rfl

theorem step_allocTransferCount (s : TransferPool) (e : PoolEvent) :
    (s.step e).allocTransferCount = s.allocTransferCount := by
  unfold step
  split
  · rfl
  · rfl
  · cases e with
    | fetch => exact (call_fields .fetching s).2
    | trigger => exact (call_fields .triggering s).2
    | submitter go =>
      simp only [apply]
      split
      · exact submitterStep_allocTransferCount go s
      · rfl
    | complete id => exact complete_allocTransferCount id s
    | destroy =>
      simp only [apply, destroy]
      split <;> rfl
    | release =>
      simp only [apply, release]
      split <;> rfl
    | eventsHandled ret late =>
      simp only [apply, eventsHandled]
      split <;> rfl

theorem run_allocTransferCount (s : TransferPool) (es : List PoolEvent) :
    (Runs.run step s es).allocTransferCount = s.allocTransferCount :=
  Runs.run_invariant (P := fun s' : TransferPool => s'.allocTransferCount = s.allocTransferCount)
    (fun s' e h => (s'.step_allocTransferCount e).trans h) rfl

theorem run_sound {allocTransferCount : BitVec 64} (h : allocTransferCount.toNat ≤ 2 ^ 63)
    (es : List PoolEvent) : ∃ free, (Runs.run step (create allocTransferCount) es).Sound free := by
  refine Runs.run_invariant (P := fun s : TransferPool => ∃ free, s.Sound free) ?_
    ⟨_,create_sound h⟩
  rintro s e ⟨free,h⟩
  exact step_sound e h

theorem transfers_conserved (allocTransferCount : BitVec 64)
    (h : allocTransferCount.toNat ≤ 2 ^ 63) (es : List PoolEvent) :
    Runs.Throughout step Conserved (create allocTransferCount) es := by
  refine Runs.throughout_imp (P := fun s => ∃ free, s.Sound free) (fun _ ⟨_,h⟩ => h.conserved) ?_
  refine Runs.throughout_always ?_ ⟨_,create_sound h⟩
  rintro s e ⟨free,h⟩
  exact step_sound e h

-- The completion arrives in a call of libusb that returns after the second is over.
def lateCompletion : List PoolEvent :=
  [.trigger,.submitter true,.submitter true,.submitter true,.destroy,.release,.complete 0,
    .eventsHandled 0 true]

theorem lateCompletion_conserved :
    Runs.Throughout step Conserved (create 1) lateCompletion :=
  transfers_conserved 1 (by decide) lateCompletion

theorem lateCompletion_leaks :
    ¬∀ es unreleased, (Runs.run step (create 1) es).stage = .exited unreleased →
      ∀ id < 1, (Runs.run step (create 1) es).freed.count id = 1 := by
  intro h
  have hcount := h lateCompletion 1 (by decide +kernel) 0 (by decide)
  exact absurd hcount (by decide +kernel)

end TransferPool

end WujiHand

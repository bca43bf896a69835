import WujiHand.Library.Progress

namespace WujiHand

inductive Member where
  | driver
  | defaultTransmitBuffer
  | tickThreadTransmitBuffer
  | eventThread
  | storage
  | indexStorageMap
  | tickThread
  | pdoReadResult
  | realtimeController
  | realtimeControllerThread
deriving DecidableEq, Repr

namespace Member

-- In the order of their declaration, in which they are constructed.
def declared : List Member :=
  [driver,defaultTransmitBuffer,tickThreadTransmitBuffer,eventThread,storage,indexStorageMap,
    tickThread,pdoReadResult,realtimeController,realtimeControllerThread]

def place (m : Member) : Nat := declared.idxOf m

theorem place_eq (m : Member) :
    m.place = match m with
      | driver => 0
      | defaultTransmitBuffer => 1
      | tickThreadTransmitBuffer => 2
      | eventThread => 3
      | storage => 4
      | indexStorageMap => 5
      | tickThread => 6
      | pdoReadResult => 7
      | realtimeController => 8
      | realtimeControllerThread => 9 := by
  cases m <;> rfl

end Member

inductive FrameKind where
  | sdo
  | pdo
  | other
deriving DecidableEq, Repr

def FrameKind.touches : FrameKind → List Member
  | sdo => [.indexStorageMap,.storage]
  | pdo => [.pdoReadResult]
  | other => []

inductive ReceiveTransfer where
  | absent
  | submitted (cancelled : Bool)
  | completed (frame : FrameKind)
  | handled
  | idle
  | freed
deriving DecidableEq, Repr

@[grind] def ReceiveTransfer.isSubmitted : ReceiveTransfer → Bool
  | submitted _ => true
  | _ => false

inductive OwnerStage where
  | constructing
  | running
  | stopping
  | destroying
  | gone
deriving DecidableEq, Repr

inductive EventThreadPc where
  | absent
  | waiting
  | checking (frame : FrameKind)
  | parsing (frame : FrameKind)
  | resubmitting
  | exited
deriving DecidableEq, Repr

@[grind] def EventThreadPc.resubmits : EventThreadPc → Bool
  | parsing _ | resubmitting => true
  | _ => false

@[grind] def EventThreadPc.parses : EventThreadPc → Bool
  | parsing _ => true
  | _ => false

@[grind] def EventThreadPc.handles : EventThreadPc → Bool
  | checking _ | parsing _ | resubmitting => true
  | _ => false

inductive ThreadPc where
  | absent
  | running
  | exited
deriving DecidableEq, Repr

-- One handler from its constructor to the end of its destructor. `missed`: the cancellation came
-- when the transfer was about to be submitted again; the frames parsed after the stop are counted.
structure Lifetime where
  stage : OwnerStage := .constructing
  alive : Nat := 0
  handlingEvents : Bool := true
  receive : ReceiveTransfer := .absent
  receiveTransferBusy : Bool := true
  eventThread : EventThreadPc := .absent
  tickThread : ThreadPc := .absent
  tickStop : Bool := false
  realtimeThread : ThreadPc := .absent
  realtimeStop : Bool := false
  missed : Bool := false
  parsedAfterStop : Nat := 0
deriving DecidableEq, Repr

inductive LifetimeEvent where
  | owner
  | attach
  | requestStop
  | join
  | destroy
  | complete (frame : FrameKind)
  | eventThread
  | tickThread
  | realtimeThread
deriving DecidableEq, Repr

namespace Lifetime

@[grind] def Live (s : Lifetime) (m : Member) : Prop := m.place < s.alive

instance (s : Lifetime) (m : Member) : Decidable (s.Live m) :=
  inferInstanceAs (Decidable (_ < _))

def constructed (m : Member) (s : Lifetime) : Lifetime :=
  match m with
  | .driver => { s with alive := s.alive + 1, receive := .submitted false }
  | .eventThread => { s with alive := s.alive + 1, eventThread := .waiting }
  | .tickThread => { s with alive := s.alive + 1, tickThread := .running }
  | .realtimeControllerThread => { s with alive := s.alive + 1, stage := .running }
  | _ => { s with alive := s.alive + 1 }

-- A jthread is asked to stop and joined; the event thread has nothing to be asked by.
def destroyed (m : Member) (s : Lifetime) : Lifetime :=
  match m with
  | .driver => { s with alive := s.alive - 1, receive := .freed, stage := .gone }
  | .eventThread =>
    if s.eventThread = .exited then { s with alive := s.alive - 1 } else s
  | .tickThread =>
    if s.tickThread = .running then { s with tickStop := true }
    else { s with alive := s.alive - 1 }
  | .realtimeControllerThread =>
    if s.realtimeThread = .running then { s with realtimeStop := true }
    else { s with alive := s.alive - 1 }
  | _ => { s with alive := s.alive - 1 }

def cancelTransfer (s : Lifetime) : Lifetime :=
  { s with
    stage := .destroying, missed := s.eventThread.resubmits,
    receive := if s.receive.isSubmitted then .submitted true else s.receive }

def ownerStep (s : Lifetime) : Lifetime :=
  match s.stage with
  | .constructing =>
    match Member.declared[s.alive]? with
    | some m => s.constructed m
    | none => s
  | .running => s
  | .stopping => s.cancelTransfer
  | .destroying =>
    match Member.declared[s.alive - 1]? with
    | some m => s.destroyed m
    | none => s
  | .gone => s

def eventThreadStep (s : Lifetime) : Lifetime :=
  match s.eventThread with
  | .absent => s
  | .waiting =>
    if s.receiveTransferBusy then
      match s.receive with
      | .completed frame => { s with receive := .handled, eventThread := .checking frame }
      | .submitted true => { s with receive := .handled, eventThread := .checking .other }
      | _ => s
    else { s with eventThread := .exited }
  | .checking frame =>
    if s.handlingEvents then { s with eventThread := .parsing frame }
    else { s with receiveTransferBusy := false, receive := .idle, eventThread := .waiting }
  | .parsing _ =>
    { s with
      eventThread := .resubmitting,
      parsedAfterStop := s.parsedAfterStop + (!s.handlingEvents).toNat }
  | .resubmitting => { s with receive := .submitted false, eventThread := .waiting }
  | .exited => s

def step (s : Lifetime) : LifetimeEvent → Lifetime
  | .owner => s.ownerStep
  | .attach =>
    if s.stage = .running ∧ s.realtimeThread = .absent then
      { s with realtimeThread := .running, realtimeStop := false }
    else s
  | .requestStop => if s.stage = .running then { s with realtimeStop := true } else s
  | .join =>
    if s.stage = .running ∧ s.realtimeThread = .exited then { s with realtimeThread := .absent }
    else s
  | .destroy =>
    if s.stage = .running then { s with stage := .stopping, handlingEvents := false } else s
  | .complete frame =>
    if s.receive.isSubmitted then { s with receive := .completed frame } else s
  | .eventThread => s.eventThreadStep
  | .tickThread =>
    if s.tickThread = .running ∧ s.tickStop then { s with tickThread := .exited } else s
  | .realtimeThread =>
    if s.realtimeThread = .running ∧ s.realtimeStop then { s with realtimeThread := .exited } else s

def touched (s : Lifetime) : List Member :=
  (match s.eventThread with
    | .absent | .exited => []
    | _ => [.driver,.defaultTransmitBuffer,.tickThreadTransmitBuffer]) ++
  (if s.tickThread = .running then [.driver,.storage,.tickThreadTransmitBuffer] else []) ++
  if s.realtimeThread = .running then
    [.driver,.defaultTransmitBuffer,.pdoReadResult,.realtimeController]
  else []

@[grind] def Overlooked (s : Lifetime) : Prop :=
  s.receive = .submitted false ∨ s.eventThread.resubmits = true

instance (s : Lifetime) : Decidable s.Overlooked := inferInstanceAs (Decidable (_ ∨ _))

structure Orderly (s : Lifetime) : Prop where
  constructing : s.stage = .constructing → s.alive < 10
  whole : s.stage = .running ∨ s.stage = .stopping → s.alive = 10
  destroying : s.stage = .destroying → 0 < s.alive ∧ s.alive ≤ 10
  gone : s.stage = .gone → s.alive = 0
  handling : s.handlingEvents = true ↔ s.stage = .constructing ∨ s.stage = .running
  unstarted : s.eventThread = .absent ↔ s.stage = .constructing ∧ s.alive ≤ 3
  event : s.eventThread = .absent ∨ s.eventThread = .exited ∨ 3 < s.alive
  tick : s.tickThread = .running → 6 < s.alive
  realtime : s.realtimeThread = .running → s.alive = 10 ∧ s.stage ≠ .constructing
  absent : s.receive = .absent ↔ s.stage = .constructing ∧ s.alive = 0
  handled : s.receive = .handled ↔ s.eventThread.handles = true
  idle : s.receive = .idle ∨ s.receive = .freed ↔ s.receiveTransferBusy = false
  exited : s.eventThread = .exited → s.receiveTransferBusy = false
  freed : s.receive = .freed ↔ s.stage = .gone
  stopped : s.receiveTransferBusy = false → s.handlingEvents = false
  overlooked : s.stage = .destroying → s.Overlooked → s.missed = true
  parsed : s.parsedAfterStop ≤ 1
  unparsed : s.handlingEvents = true ∨ s.eventThread.parses = true → s.parsedAfterStop = 0

theorem orderly_new : Orderly {} := by
  constructor <;> simp [Overlooked,EventThreadPc.resubmits,EventThreadPc.handles,
    EventThreadPc.parses]

theorem declared_getElem? (n : Nat) (m : Member) :
    Member.declared[n]? = some m ↔ n = m.place := by
  constructor
  · intro h
    obtain ⟨hn,hm⟩ := List.getElem?_eq_some_iff.mp h
    have hd : Member.declared.Nodup := by decide
    rw [← hm, Member.place, hd.idxOf_getElem]
  · rintro rfl
    cases m <;> rfl

variable {s : Lifetime}

theorem Orderly.added (h : Orderly s) (hs : s.stage = .constructing) (hzero : s.alive ≠ 0)
    (hthree : s.alive ≠ 3) (hnine : s.alive ≠ 9) : Orderly { s with alive := s.alive + 1 } :=
  have hlast := h.constructing hs
  { h with
    constructing := fun _ => by simp only; omega
    whole := by simp [hs]
    destroying := by simp [hs]
    gone := by simp [hs]
    unstarted := by
      rw [h.unstarted]
      simp only [hs, true_and]
      omega
    event := h.event.imp_right fun he => he.imp_right Nat.lt_succ_of_lt
    tick := fun ht => Nat.lt_succ_of_lt (h.tick ht)
    realtime := fun hr => absurd hs (h.realtime hr).2
    absent := by
      rw [h.absent]
      simp only [hs, true_and]
      omega }

theorem Orderly.submitted (h : Orderly s) (hs : s.stage = .constructing) (hzero : s.alive = 0) :
    Orderly (s.constructed .driver) := by
  have hpc : s.eventThread = .absent := h.unstarted.mpr ⟨hs,by omega⟩
  have hr : s.receive = .absent := h.absent.mpr ⟨hs,hzero⟩
  exact { h with
    constructing := fun _ => by simp [Lifetime.constructed,hzero]
    whole := by simp [Lifetime.constructed,hs]
    destroying := by simp [Lifetime.constructed,hs]
    gone := by simp [Lifetime.constructed,hs]
    unstarted := by simp [Lifetime.constructed,hs,hpc,hzero]
    event := .inl hpc
    tick := fun ht => absurd (h.tick ht) (by omega)
    realtime := fun hrun => absurd hs (h.realtime hrun).2
    absent := by simp [Lifetime.constructed]
    handled := by simpa [Lifetime.constructed,hr] using h.handled
    idle := by simpa [Lifetime.constructed,hr] using h.idle
    freed := by simp [Lifetime.constructed,hs]
    overlooked := by simp [Lifetime.constructed,hs] }

theorem Orderly.started (h : Orderly s) (hs : s.stage = .constructing) (hthree : s.alive = 3) :
    Orderly (s.constructed .eventThread) := by
  have hpc : s.eventThread = .absent := h.unstarted.mpr ⟨hs,by omega⟩
  exact { h with
    constructing := fun _ => by simp [Lifetime.constructed,hthree]
    whole := by simp [Lifetime.constructed,hs]
    destroying := by simp [Lifetime.constructed,hs]
    gone := by simp [Lifetime.constructed,hs]
    unstarted := by simp [Lifetime.constructed,hthree]
    event := .inr (.inr (by simp [Lifetime.constructed,hthree]))
    tick := fun ht => absurd (h.tick ht) (by omega)
    realtime := fun hrun => absurd hs (h.realtime hrun).2
    absent := by
      have habsent := h.absent
      simpa [Lifetime.constructed,hthree] using habsent
    handled := by simpa [Lifetime.constructed,hpc,EventThreadPc.handles] using h.handled
    exited := by simp [Lifetime.constructed]
    overlooked := by simp [Lifetime.constructed,hs]
    unparsed := fun _ => h.unparsed (.inl (h.handling.mpr (.inl hs))) }

theorem Orderly.constructed (h : Orderly s) (hs : s.stage = .constructing) {m : Member}
    (hm : Member.declared[s.alive]? = some m) : Orderly (s.constructed m) := by
  have hplace : s.alive = m.place := (declared_getElem? _ _).mp hm
  rw [m.place_eq] at hplace
  cases m <;> dsimp only at hplace
  case driver => exact h.submitted hs hplace
  case eventThread => exact h.started hs hplace
  case tickThread =>
    have hadded := h.added hs (by omega) (by omega) (by omega)
    exact { hadded with tick := fun _ => by simp [Lifetime.constructed,hplace] }
  case realtimeControllerThread =>
    have hpc : s.eventThread ≠ .absent := fun hc => by
      have hlow := (h.unstarted.mp hc).2
      omega
    have hr : s.receive ≠ .absent := fun hc => by
      have hlow := (h.absent.mp hc).2
      omega
    exact { h with
      constructing := by simp [Lifetime.constructed]
      whole := fun _ => by simp [Lifetime.constructed,hplace]
      destroying := by simp [Lifetime.constructed]
      gone := by simp [Lifetime.constructed]
      handling := by simpa [Lifetime.constructed,hs] using h.handling
      unstarted := by simpa [Lifetime.constructed] using hpc
      event := .inr (.inr (by simp [Lifetime.constructed,hplace]))
      tick := fun _ => by simp [Lifetime.constructed,hplace]
      realtime := fun hrun => absurd hs (h.realtime hrun).2
      absent := by simpa [Lifetime.constructed] using hr
      freed := by simpa [Lifetime.constructed,hs] using h.freed
      overlooked := by simp [Lifetime.constructed] }
  all_goals exact h.added hs (by omega) (by omega) (by omega)

theorem Orderly.removed (h : Orderly s) (hs : s.stage = .destroying) (hone : s.alive ≠ 1)
    (hevent : s.alive = 4 → s.eventThread = .exited) (htick : s.alive = 7 → s.tickThread ≠ .running)
    (hrealtime : s.alive = 10 → s.realtimeThread ≠ .running) :
    Orderly { s with alive := s.alive - 1 } :=
  have hd := h.destroying hs
  { h with
    constructing := by simp [hs]
    whole := by simp [hs]
    destroying := fun _ => by simp only; omega
    gone := by simp [hs]
    unstarted := by simpa [hs] using h.unstarted
    event := by
      rcases h.event with he | he | he
      · exact .inl he
      · exact .inr (.inl he)
      · by_cases hfour : s.alive = 4
        · exact .inr (.inl (hevent hfour))
        · exact .inr (.inr (by simp only; omega))
    tick := fun ht => by
      have hsix := h.tick ht
      have hseven : s.alive ≠ 7 := fun hc => htick hc ht
      simp only
      omega
    realtime := fun hr => absurd hr (hrealtime (h.realtime hr).1)
    absent := by simpa [hs] using h.absent }

theorem Orderly.exited_of_alive (h : Orderly s) (hs : s.stage = .destroying) (ha : s.alive ≤ 3) :
    s.eventThread = .exited ∧ s.receive = .idle := by
  have hexited : s.eventThread = .exited := by
    rcases h.event with hc | hc | hc
    · simpa [hs] using h.unstarted.mp hc
    · exact hc
    · omega
  have hidle := h.idle.mpr (h.exited hexited)
  refine ⟨hexited,hidle.resolve_right fun hc => ?_⟩
  simpa [hs] using h.freed.mp hc

theorem Orderly.destroyed (h : Orderly s) (hs : s.stage = .destroying) {m : Member}
    (hm : Member.declared[s.alive - 1]? = some m) : Orderly (s.destroyed m) := by
  have hplace : s.alive - 1 = m.place := (declared_getElem? _ _).mp hm
  rw [m.place_eq] at hplace
  have hd := h.destroying hs
  cases m <;> dsimp only at hplace
  case driver =>
    obtain ⟨hpc,hr⟩ := h.exited_of_alive hs (by omega)
    have hbusy := h.exited hpc
    exact { h with
      constructing := by simp [Lifetime.destroyed]
      whole := by simp [Lifetime.destroyed]
      destroying := by simp [Lifetime.destroyed]
      gone := fun _ => hplace
      handling := by simpa [Lifetime.destroyed,hs] using h.handling
      unstarted := by simp [Lifetime.destroyed,hpc]
      event := .inr (.inl hpc)
      tick := fun ht => absurd (h.tick ht) (by omega)
      realtime := fun hrun => absurd (h.realtime hrun).1 (by omega)
      absent := by simp [Lifetime.destroyed]
      handled := by simp [Lifetime.destroyed,hpc,EventThreadPc.handles]
      idle := by simp [Lifetime.destroyed,hbusy]
      freed := by simp [Lifetime.destroyed]
      overlooked := by simp [Lifetime.destroyed] }
  case eventThread =>
    simp only [Lifetime.destroyed]
    split
    next he => exact h.removed hs (by omega) (fun _ => he) (by omega) (by omega)
    next => exact h
  case tickThread =>
    simp only [Lifetime.destroyed]
    split
    next => exact { h with }
    next ht => exact h.removed hs (by omega) (by omega) (fun _ => ht) (by omega)
  case realtimeControllerThread =>
    simp only [Lifetime.destroyed]
    split
    next => exact { h with }
    next hr => exact h.removed hs (by omega) (by omega) (by omega) (fun _ => hr)
  all_goals exact h.removed hs (by omega) (by omega) (by omega) (by omega)

theorem Orderly.cancelTransfer (h : Orderly s) (hs : s.stage = .stopping) :
    Orderly s.cancelTransfer := by
  have halive := h.whole (.inr hs)
  have hreceive (r : ReceiveTransfer) (hr : r.isSubmitted = false) :
      s.cancelTransfer.receive = r ↔ s.receive = r := by
    simp only [Lifetime.cancelTransfer]
    split
    next hc =>
      constructor
      · rintro rfl
        cases hr
      · rintro rfl
        simp [hr] at hc
    next => rfl
  have hcancelled : s.cancelTransfer.receive ≠ .submitted false := by
    simp only [Lifetime.cancelTransfer]
    split
    next => simp
    next hc =>
      intro hr
      simp [hr,ReceiveTransfer.isSubmitted] at hc
  exact { h with
    constructing := by simp [Lifetime.cancelTransfer]
    whole := by simp [Lifetime.cancelTransfer]
    destroying := fun _ => by simp [Lifetime.cancelTransfer,halive]
    gone := by simp [Lifetime.cancelTransfer]
    handling := by simpa [Lifetime.cancelTransfer,hs] using h.handling
    unstarted := by simpa [Lifetime.cancelTransfer,hs] using h.unstarted
    realtime := fun hrun => ⟨(h.realtime hrun).1,by simp [Lifetime.cancelTransfer]⟩
    absent := by
      rw [hreceive _ rfl, h.absent]
      simp [Lifetime.cancelTransfer,hs]
    handled := (hreceive _ rfl).trans h.handled
    idle := by
      rw [hreceive _ rfl, hreceive _ rfl]
      exact h.idle
    freed := by
      rw [hreceive _ rfl, h.freed]
      simp [Lifetime.cancelTransfer,hs]
    overlooked := fun _ ho => ho.resolve_left hcancelled }

theorem Orderly.ownerStep (h : Orderly s) : Orderly s.ownerStep := by
  unfold Lifetime.ownerStep
  split
  next hs =>
    split
    next hm => exact h.constructed hs hm
    next => exact h
  next => exact h
  next hs => exact h.cancelTransfer hs
  next hs =>
    split
    next hm => exact h.destroyed hs hm
    next => exact h
  next => exact h

theorem Orderly.eventMoves (h : Orderly s) (habsent : s.eventThread ≠ .absent)
    (hexited : s.eventThread ≠ .exited) {pc : EventThreadPc} (hpc : pc ≠ .absent)
    {receive : ReceiveTransfer} (hreceive : receive ≠ .absent ∧ receive ≠ .freed)
    {busy : Bool} {parsed : Nat} (hhandled : receive = .handled ↔ pc.handles = true)
    (hidle : receive = .idle ↔ busy = false) (hexits : pc = .exited → busy = false)
    (hstopped : busy = false → s.handlingEvents = false)
    (hoverlooked : s.stage = .destroying →
      receive = .submitted false ∨ pc.resubmits = true → s.missed = true)
    (hparsed : parsed ≤ 1) (hunparsed : s.handlingEvents = true ∨ pc.parses = true → parsed = 0) :
    Orderly { s with
      receive := receive, receiveTransferBusy := busy, eventThread := pc,
      parsedAfterStop := parsed } := by
  have hstarted : 3 < s.alive := by simpa [habsent,hexited] using h.event
  have hgone : s.stage ≠ .gone := fun hc => by
    have hzero := h.gone hc
    omega
  exact { h with
    unstarted := by
      simp only [hpc, false_iff, not_and]
      omega
    event := .inr (.inr hstarted)
    absent := by
      simp only [hreceive.1, false_iff, not_and]
      omega
    handled := hhandled
    idle := by simpa [hreceive.2] using hidle
    exited := hexits
    freed := by simpa [hreceive.2] using hgone
    stopped := hstopped
    overlooked := hoverlooked
    parsed := hparsed
    unparsed := hunparsed }

theorem Orderly.handling_busy (h : Orderly s) (hpc : s.eventThread.handles = true) :
    s.receive = .handled ∧ s.receiveTransferBusy = true := by
  have hr := h.handled.mpr hpc
  rw [← Bool.not_eq_false, ← h.idle]
  simp [hr]

theorem Orderly.takes (h : Orderly s) (hpc : s.eventThread = .waiting)
    (hbusy : s.receiveTransferBusy = true) (frame : FrameKind) :
    Orderly { s with receive := .handled, eventThread := .checking frame } :=
  h.eventMoves (by simp [hpc]) (by simp [hpc]) (by simp) (by simp) (by simp [EventThreadPc.handles])
    (by simp [hbusy]) (by simp) h.stopped (by simp [EventThreadPc.resubmits]) h.parsed
    fun hp => h.unparsed (hp.imp_right (by simp [EventThreadPc.parses]))

theorem Orderly.eventThreadStep (h : Orderly s) : Orderly s.eventThreadStep := by
  unfold Lifetime.eventThreadStep
  split
  next => exact h
  next hpc =>
    split
    next hbusy =>
      split
      next frame _ => exact h.takes hpc hbusy frame
      next => exact h.takes hpc hbusy .other
      next => exact h
    next hbusy =>
      have hfalse : s.receiveTransferBusy = false := by simpa using hbusy
      have hfreed : s.receive ≠ .freed := fun hc => by
        have hzero := h.gone (h.freed.mp hc)
        simpa [hpc,hzero] using h.event
      have hidle : s.receive = .idle := (h.idle.mpr hfalse).resolve_right hfreed
      exact h.eventMoves (by simp [hpc]) (by simp [hpc]) (by simp) (by simp [hidle])
        (by simp [hidle,EventThreadPc.handles]) (by simp [hidle,hfalse]) (fun _ => hfalse) h.stopped
        (by simp [hidle,EventThreadPc.resubmits]) h.parsed
        fun hp => h.unparsed (hp.imp_right (by simp [EventThreadPc.parses]))
  next frame hpc =>
    obtain ⟨hr,hbusy⟩ := h.handling_busy (by rw [hpc]; rfl)
    split
    next hhandling =>
      refine h.eventMoves (by simp [hpc]) (by simp [hpc]) (by simp) (by simp [hr])
        (by simp [hr,EventThreadPc.handles]) (by simp [hr,hbusy]) (by simp) h.stopped ?_ h.parsed
        fun _ => h.unparsed (.inl hhandling)
      intro hd
      simpa [hd] using h.handling.mp hhandling
    next hhandling =>
      exact h.eventMoves (by simp [hpc]) (by simp [hpc]) (by simp) (by simp)
        (by simp [EventThreadPc.handles]) (by simp) (by simp) (fun _ => by simpa using hhandling)
        (by simp [EventThreadPc.resubmits]) h.parsed (by simp [hhandling,EventThreadPc.parses])
  next frame hpc =>
    obtain ⟨hr,hbusy⟩ := h.handling_busy (by rw [hpc]; rfl)
    have hzero : s.parsedAfterStop = 0 := h.unparsed (.inr (by rw [hpc]; rfl))
    refine h.eventMoves (by simp [hpc]) (by simp [hpc]) (by simp) (by simp [hr])
      (by simp [hr,EventThreadPc.handles]) ?_ (by simp) h.stopped ?_ ?_ ?_
    · simp [hr,hbusy]
    · exact fun hd _ => h.overlooked hd (.inr (by rw [hpc]; rfl))
    · rw [hzero, Nat.zero_add]
      exact Bool.toNat_le _
    · simp [hzero,EventThreadPc.parses]
  next hpc =>
    obtain ⟨hr,hbusy⟩ := h.handling_busy (by rw [hpc]; rfl)
    refine h.eventMoves (by simp [hpc]) (by simp [hpc]) (by simp) (by simp)
      (by simp [EventThreadPc.handles]) (by simp [hbusy]) (by simp) h.stopped ?_ h.parsed
      fun hp => h.unparsed (hp.imp_right (by simp [EventThreadPc.parses]))
    exact fun hd _ => h.overlooked hd (.inr (by rw [hpc]; rfl))
  next => exact h

theorem Orderly.step (h : Orderly s) (e : LifetimeEvent) : Orderly (s.step e) := by
  cases e with
  | owner => exact h.ownerStep
  | attach =>
    simp only [Lifetime.step]
    split
    next hs => exact { h with realtime := fun _ => ⟨h.whole (.inl hs.1),by simp [hs.1]⟩ }
    next => exact h
  | requestStop =>
    simp only [Lifetime.step]
    split
    next => exact { h with }
    next => exact h
  | join =>
    simp only [Lifetime.step]
    split
    next => exact { h with realtime := by simp }
    next => exact h
  | destroy =>
    simp only [Lifetime.step]
    split
    · obtain ⟨⟩ := h
      constructor
      all_goals grind
    · exact h
  | complete frame =>
    simp only [Lifetime.step]
    split
    · obtain ⟨⟩ := h
      constructor
      all_goals grind
    · exact h
  | eventThread => exact h.eventThreadStep
  | tickThread =>
    simp only [Lifetime.step]
    split
    next => exact { h with tick := by simp }
    next => exact h
  | realtimeThread =>
    simp only [Lifetime.step]
    split
    next => exact { h with realtime := by simp }
    next => exact h

theorem run_orderly (events : List LifetimeEvent) : Orderly (Runs.run step {} events) :=
  Runs.run_invariant (fun _ e h => h.step e) orderly_new

theorem Orderly.touched_live (h : Orderly s) {m : Member} (hm : m ∈ s.touched) : s.Live m := by
  have hevent := h.event
  have htick := h.tick
  have hrealtime := h.realtime
  rw [Live, m.place_eq]
  simp only [touched, List.mem_append] at hm
  grind

theorem Orderly.parsing_live (h : Orderly s) {frame : FrameKind}
    (hf : s.eventThread = .parsing frame) (m : Member) :
    s.Live m ∨ s.stage = .constructing ∨ s.stage = .destroying ∧ s.missed = true := by
  have hrun : 3 < s.alive := by simpa [hf] using h.event
  cases hs : s.stage with
  | constructing => exact .inr (.inl rfl)
  | destroying =>
    have hmissed := h.overlooked hs (.inr (by rw [hf]; rfl))
    exact .inr (.inr ⟨rfl,hmissed⟩)
  | gone =>
    have hgone := h.gone hs
    omega
  | running | stopping =>
    have halive : s.alive = 10 := h.whole (by simp [hs])
    left
    rw [Live, halive, m.place_eq]
    cases m <;> decide

end Lifetime

end WujiHand

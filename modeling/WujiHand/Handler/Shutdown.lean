import WujiHand.Handler.Lifetime

namespace WujiHand

namespace Lifetime

variable {s : Lifetime}

def eventWork (s : Lifetime) : Nat :=
  match s.eventThread with
  | .absent | .exited => 0
  | .waiting =>
    match s.receive with
    | .submitted _ => 4
    | .completed _ => 3
    | _ => 1
  | .checking _ => 2
  | .resubmitting => 5
  | .parsing _ => 6

def threadWork : ThreadPc → Bool → Nat
  | .running, stop => if stop then 1 else 2
  | _, _ => 0

def work (s : Lifetime) : Nat :=
  s.alive + threadWork s.tickThread s.tickStop + threadWork s.realtimeThread s.realtimeStop +
    s.eventWork

theorem eventWork_le (s : Lifetime) : s.eventWork ≤ 6 := by
  unfold eventWork
  split
  case h_3 => split <;> simp
  all_goals simp

theorem threadWork_le (pc : ThreadPc) (stop : Bool) : threadWork pc stop ≤ 2 := by
  unfold threadWork
  split
  · split <;> simp
  · simp

structure Ending (s : Lifetime) : Prop where
  orderly : Orderly s
  stage : s.stage = .destroying ∨ s.stage = .gone

theorem Ending.alive_le (h : Ending s) : s.alive ≤ 10 := by
  rcases h.stage with hs | hs
  · exact (h.orderly.destroying hs).2
  · simp [h.orderly.gone hs]

theorem Ending.work_le (h : Ending s) : s.work ≤ 20 := by
  have halive := h.alive_le
  have hevent := s.eventWork_le
  have htick := threadWork_le s.tickThread s.tickStop
  have hrealtime := threadWork_le s.realtimeThread s.realtimeStop
  unfold work
  omega

theorem Ending.ownerStep (h : Ending s) :
    s.stage = .gone ∧ s.ownerStep = s ∨
      s.stage = .destroying ∧ ∃ m : Member, s.alive = m.place + 1 ∧ s.ownerStep = s.destroyed m := by
  rcases h.stage with hs | hs
  · have hd := h.orderly.destroying hs
    have hn : s.alive - 1 < Member.declared.length := by simp [Member.declared]; omega
    have hm := List.getElem?_eq_getElem hn
    have hplace := (declared_getElem? _ _).mp hm
    refine .inr ⟨hs,Member.declared[s.alive - 1],by omega,?_⟩
    simp only [Lifetime.ownerStep, hs, hm]
  · refine .inl ⟨hs,?_⟩
    simp only [Lifetime.ownerStep, hs]

theorem destroyed_stage (hs : s.stage = .destroying) (m : Member) :
    (s.destroyed m).stage = .destroying ∨ (s.destroyed m).stage = .gone := by
  cases m <;> grind [destroyed]

theorem Ending.step (h : Ending s) (e : LifetimeEvent) : Ending (s.step e) := by
  refine ⟨h.orderly.step e,?_⟩
  cases e with
  | owner =>
    rcases h.ownerStep with ⟨hs,ho⟩ | ⟨hs,m,-,ho⟩
    · right
      rw [Lifetime.step, ho, hs]
    · simp only [Lifetime.step, ho]
      exact destroyed_stage hs m
  | _ =>
    have hs := h.stage
    grind [Lifetime.step,eventThreadStep]

theorem destroyed_work (hm : s.alive ≠ 0) (m : Member) :
    s.destroyed m = s ∨ (s.destroyed m).work < s.work := by
  cases m with
  | eventThread =>
    simp only [destroyed]
    split
    · right
      simp only [work, eventWork]
      omega
    · exact .inl rfl
  | tickThread =>
    simp only [destroyed]
    split
    next hrun =>
      cases hstop : s.tickStop with
      | true => exact .inl (by rw [← hstop])
      | false =>
        right
        simp [work,eventWork,hrun,hstop,threadWork]
    next =>
      right
      simp only [work, eventWork]
      omega
  | realtimeControllerThread =>
    simp only [destroyed]
    split
    next hrun =>
      cases hstop : s.realtimeStop with
      | true => exact .inl (by rw [← hstop])
      | false =>
        right
        simp [work,eventWork,hrun,hstop,threadWork]
    next =>
      right
      simp only [work, eventWork]
      omega
  | driver =>
    have hevent : eventWork { s with receive := .freed } ≤ s.eventWork := by
      unfold eventWork
      cases s.eventThread <;> cases s.receive <;> simp
    right
    simp only [destroyed, work] at hevent ⊢
    simp only [eventWork] at hevent ⊢
    omega
  | _ =>
    right
    simp only [destroyed, work, eventWork]
    omega

theorem eventThreadStep_work (h : s.handlingEvents = false) :
    s.eventThreadStep = s ∨ s.eventThreadStep.work < s.work := by
  unfold eventThreadStep
  split
  next => exact .inl rfl
  next hpc =>
    split
    · split
      next frame hr => exact .inr (by simp [work,eventWork,hpc,hr])
      next hr => exact .inr (by simp [work,eventWork,hpc,hr])
      next => exact .inl rfl
    · right
      simp only [work, eventWork, hpc]
      split <;> simp
  next hpc =>
    rw [if_neg (by simp [h])]
    exact .inr (by simp [work,eventWork,hpc])
  next hpc => exact .inr (by simp [work,eventWork,hpc])
  next hpc => exact .inr (by simp [work,eventWork,hpc])
  next => exact .inl rfl

theorem Ending.handling (h : Ending s) : s.handlingEvents = false := by
  rw [← Bool.not_eq_true, h.orderly.handling]
  rcases h.stage with hs | hs <;> simp [hs]

theorem Ending.step_work (h : Ending s) (e : LifetimeEvent) :
    s.step e = s ∨ (s.step e).work < s.work := by
  have hs : s.stage ≠ .running := by rcases h.stage with hs | hs <;> simp [hs]
  cases e with
  | owner =>
    rcases h.ownerStep with ⟨-,ho⟩ | ⟨-,m,hm,ho⟩
    · exact .inl ho
    · rw [Lifetime.step, ho]
      exact destroyed_work (by omega) m
  | attach | requestStop | join | destroy => exact .inl (by simp [Lifetime.step,hs])
  | complete frame =>
    simp only [Lifetime.step]
    split
    next hr =>
      cases hpc : s.eventThread with
      | waiting =>
        right
        cases hc : s.receive with
        | submitted cancelled => simp [work,eventWork,hpc,hc]
        | _ => simp [hc,ReceiveTransfer.isSubmitted] at hr
      | absent =>
        have hs := (h.orderly.unstarted.mp hpc).1
        rcases h.stage with hd | hd <;> simp [hd] at hs
      | exited =>
        have hidle := h.orderly.idle.mpr (h.orderly.exited hpc)
        rcases hidle with hc | hc <;> simp [hc,ReceiveTransfer.isSubmitted] at hr
      | _ =>
        have hc := h.orderly.handled.mpr (by rw [hpc]; rfl)
        simp [hc,ReceiveTransfer.isSubmitted] at hr
    next => exact .inl rfl
  | eventThread => exact eventThreadStep_work h.handling
  | tickThread =>
    simp only [Lifetime.step]
    split
    next ht =>
      right
      simp [work,eventWork,ht,threadWork]
    next => exact .inl rfl
  | realtimeThread =>
    simp only [Lifetime.step]
    split
    next ht =>
      right
      simp [work,eventWork,ht,threadWork]
    next => exact .inl rfl

structure AllTurns (events : List LifetimeEvent) : Prop where
  owner : .owner ∈ events
  eventThread : .eventThread ∈ events
  tickThread : .tickThread ∈ events
  realtimeThread : .realtimeThread ∈ events

theorem Ending.event_still (h : Ending s) (hstill : s.step .eventThread = s) :
    s.eventThread = .exited ∨ s.eventThread = .waiting ∧ s.receive = .submitted false := by
  have hstep := congrArg eventThread hstill
  cases hpc : s.eventThread with
  | exited => exact .inl rfl
  | waiting =>
    right
    cases hbusy : s.receiveTransferBusy with
    | false => simp [Lifetime.step,eventThreadStep,hpc,hbusy] at hstep
    | true =>
      cases hr : s.receive with
      | submitted cancelled =>
        cases cancelled with
        | false => exact ⟨rfl,rfl⟩
        | true => simp [Lifetime.step,eventThreadStep,hpc,hbusy,hr] at hstep
      | completed frame => simp [Lifetime.step,eventThreadStep,hpc,hbusy,hr] at hstep
      | handled => simpa [hpc,EventThreadPc.handles] using h.orderly.handled.mp hr
      | absent =>
        have hs := (h.orderly.absent.mp hr).1
        rcases h.stage with hd | hd <;> simp [hd] at hs
      | idle => simpa [hbusy] using h.orderly.idle.mp (.inl hr)
      | freed => simpa [hbusy] using h.orderly.idle.mp (.inr hr)
  | absent =>
    have hs := (h.orderly.unstarted.mp hpc).1
    rcases h.stage with hd | hd <;> simp [hd] at hs
  | checking frame => simp [Lifetime.step,eventThreadStep,hpc,h.handling] at hstep
  | parsing frame => simp [Lifetime.step,eventThreadStep,hpc] at hstep
  | resubmitting => simp [Lifetime.step,eventThreadStep,hpc] at hstep

theorem Ending.owner_still (h : Ending s) (hs : s.stage = .destroying)
    (howner : s.step .owner = s) :
    s.eventThread ≠ .exited ∧ s.alive = 4 ∨ s.tickThread = .running ∧ s.tickStop = true ∨
      s.realtimeThread = .running ∧ s.realtimeStop = true := by
  obtain ⟨hc,-⟩ | ⟨-,m,hm,ho⟩ := h.ownerStep
  · simp [hs] at hc
  · have halive := congrArg alive howner
    have hpos : s.alive - 1 ≠ s.alive := by omega
    rw [Lifetime.step, ho] at howner halive
    cases m with
    | eventThread =>
      left
      refine ⟨fun hexited => ?_,hm⟩
      simp [Lifetime.destroyed,hexited,hpos] at halive
    | tickThread =>
      right
      left
      have hstop := (congrArg tickStop howner).symm
      by_cases hrun : s.tickThread = .running
      · exact ⟨hrun,by simpa [Lifetime.destroyed,hrun] using hstop⟩
      · simp [Lifetime.destroyed,hrun,hpos] at halive
    | realtimeControllerThread =>
      right
      right
      have hstop := (congrArg realtimeStop howner).symm
      by_cases hrun : s.realtimeThread = .running
      · exact ⟨hrun,by simpa [Lifetime.destroyed,hrun] using hstop⟩
      · simp [Lifetime.destroyed,hrun,hpos] at halive
    | _ => simp [Lifetime.destroyed,hpos] at halive

structure Hung (s : Lifetime) : Prop where
  stage : s.stage = .destroying
  alive : s.alive = 4
  eventThread : s.eventThread = .waiting
  receive : s.receive = .submitted false

theorem Ending.hung (h : Ending s) (hs : s.stage = .destroying) {events : List LifetimeEvent}
    (hturns : AllTurns events) (hstill : ∀ e ∈ events, s.step e = s) : Hung s := by
  have htick := congrArg tickThread (hstill _ hturns.tickThread)
  have hrealtime := congrArg realtimeThread (hstill _ hturns.realtimeThread)
  rcases h.owner_still hs (hstill _ hturns.owner) with ⟨hpc,halive⟩ | hc | hc
  · obtain ⟨hw,hr⟩ := (h.event_still (hstill _ hturns.eventThread)).resolve_left hpc
    exact ⟨hs,halive,hw,hr⟩
  · simp [Lifetime.step,hc] at htick
  · simp [Lifetime.step,hc] at hrealtime

theorem Hung.complete (h : Hung s) (frame : FrameKind) : s.step (.complete frame) ≠ s := by
  intro hc
  have hr := congrArg Lifetime.receive hc
  simp [Lifetime.step,h.receive,ReceiveTransfer.isSubmitted] at hr

theorem Ending.busy (h : Ending s) (hr : s.receive = .submitted false) :
    s.receiveTransferBusy = true := by
  rw [← Bool.not_eq_false, ← h.orderly.idle]
  simp [hr]

theorem Hung.step (hh : Hung s) (h : Ending s) {e : LifetimeEvent}
    (he : ∀ frame, e ≠ .complete frame) : Hung (s.step e) := by
  obtain ⟨hs,halive,hpc,hr⟩ := hh
  cases e with
  | owner =>
    rcases h.ownerStep with ⟨hc,-⟩ | ⟨-,m,hm,hstep⟩
    · simp [hs] at hc
    · have hm : m = .eventThread := by
        rw [m.place_eq] at hm
        cases m <;> simp_all
      rw [Lifetime.step, hstep, hm]
      simp only [destroyed, hpc]
      exact ⟨hs,halive,hpc,hr⟩
  | eventThread =>
    have hstill : s.step .eventThread = s := by
      simp [Lifetime.step,eventThreadStep,hpc,hr,h.busy hr]
    rw [hstill]
    exact ⟨hs,halive,hpc,hr⟩
  | complete frame => exact absurd rfl (he frame)
  | _ =>
    constructor
    all_goals grind [Lifetime.step]

theorem Ending.moves (h : Ending s) (hs : s.stage ≠ .gone) (hhung : ¬Hung s)
    {events : List LifetimeEvent} (hturns : AllTurns events) : ∃ e ∈ events, s.step e ≠ s := by
  by_contra hstill
  push Not at hstill
  exact hhung (h.hung (h.stage.resolve_right hs) hturns hstill)

theorem Ending.gone_step (h : Ending s) (hs : s.stage = .gone) (e : LifetimeEvent) :
    (s.step e).stage = .gone := by
  cases e with
  | owner =>
    rcases h.ownerStep with ⟨-,ho⟩ | ⟨hd,-⟩
    · rw [Lifetime.step, ho, hs]
    · simp [hs] at hd
  | _ => grind [Lifetime.step,eventThreadStep]

theorem destroyed_overlooked (m : Member) :
    (s.destroyed m).eventThread = s.eventThread ∧
      ((s.destroyed m).receive = s.receive ∨ m = .driver ∧ (s.destroyed m).receive = .freed) := by
  cases m <;> grind [Lifetime.destroyed]

theorem Ending.not_overlooked (h : Ending s) (ho : ¬s.Overlooked) (e : LifetimeEvent) :
    ¬(s.step e).Overlooked := by
  have hhandling := h.handling
  cases e with
  | owner =>
    rcases h.ownerStep with ⟨-,hstep⟩ | ⟨-,m,-,hstep⟩
    · rwa [Lifetime.step, hstep]
    · have hm := destroyed_overlooked (s := s) m
      rw [Lifetime.step, hstep]
      grind
  | _ => grind [Lifetime.step,eventThreadStep]

theorem Ending.overlooked_cases (h : Ending s) (ho : s.Overlooked) :
    s.eventThread = .waiting ∧ s.receiveTransferBusy = true ∧ s.receive = .submitted false ∨
      s.eventThread.resubmits = true := by
  rcases ho with hr | hpc
  · left
    have hbusy := h.busy hr
    refine ⟨?_,hbusy,hr⟩
    cases hpc : s.eventThread with
    | waiting => rfl
    | absent =>
      have hs := (h.orderly.unstarted.mp hpc).1
      rcases h.stage with hd | hd <;> simp [hd] at hs
    | exited => simp [h.orderly.exited hpc] at hbusy
    | _ => simpa [hr] using h.orderly.handled.mpr (by rw [hpc]; rfl)
  · exact .inr hpc

theorem Ending.overlooked (h : Ending s) (hs : s.stage = .destroying) (ho : s.Overlooked)
    {e : LifetimeEvent} (he : ∀ frame, e ≠ .complete frame) :
    (s.step e).stage = .destroying ∧ (s.step e).Overlooked := by
  cases e with
  | owner =>
    obtain ⟨hc,-⟩ | ⟨-,m,hm,hstep⟩ := h.ownerStep
    · simp [hs] at hc
    · have hdriver : m ≠ .driver := by
        rintro rfl
        have hlow : s.alive ≤ 3 := by simp [hm,Member.place_eq]
        obtain ⟨hpc,hr⟩ := h.orderly.exited_of_alive hs hlow
        simp [Overlooked,hpc,hr,EventThreadPc.resubmits] at ho
      have hkept := destroyed_overlooked (s := s) m
      rw [Lifetime.step, hstep]
      refine ⟨?_,by grind⟩
      cases m <;> grind [Lifetime.destroyed]
  | eventThread =>
    rcases h.overlooked_cases ho with ⟨hpc,hbusy,hr⟩ | hpc
    · simpa [Lifetime.step,eventThreadStep,hpc,hbusy,hr] using ⟨hs,ho⟩
    · cases hc : s.eventThread <;> simp [hc,EventThreadPc.resubmits] at hpc
      · simp [Lifetime.step,eventThreadStep,hc,hs,Overlooked,EventThreadPc.resubmits]
      · simp [Lifetime.step,eventThreadStep,hc,hs,Overlooked]
  | complete frame => exact absurd rfl (he frame)
  | _ => grind [Lifetime.step]

theorem shutdown_ends (events : List LifetimeEvent) (rounds : List (List LifetimeEvent))
    (hs : (Runs.run step {} events).stage = .destroying) (hturns : ∀ r ∈ rounds, AllTurns r)
    (hn : 20 < rounds.length) :
    let s := Runs.run step {} events
    let last := Runs.run step s rounds.flatten
    (¬s.Overlooked → last.stage = .gone) ∧
      ((∀ r ∈ rounds, ∃ frame, .complete frame ∈ r) → last.stage = .gone) ∧
      ((∀ r ∈ rounds, ∀ frame, .complete frame ∉ r) → s.Overlooked → last.Hung) := by
  have hend : Ending (Runs.run step {} events) := ⟨run_orderly events,.inl hs⟩
  have hwork := Nat.lt_of_le_of_lt hend.work_le hn
  refine ⟨fun ho => ?_,fun hframes => ?_,fun hsilent ho => ?_⟩
  · have hranked := Runs.ranked_of_still (P := fun s => Ending s ∧ ¬s.Overlooked)
      (C := fun _ _ => True) (fun s e h _ => ⟨h.1.step e,h.1.not_overlooked h.2 e⟩)
      fun s e h _ => h.1.step_work e
    refine hranked.rounds_end (fun s e h _ hg => h.1.gone_step hg e) (fun s r h hg hr => ?_)
      ⟨hend,ho⟩ hturns (Runs.along_true _ _) hwork
    exact h.1.moves hg (fun hc => h.2 (.inl hc.receive)) hr
  · have hranked := Runs.ranked_of_still (P := Ending) (C := fun _ _ => True)
      (fun s e h _ => h.step e) fun s e h _ => h.step_work e
    refine hranked.rounds_end (fun s e h _ hg => h.gone_step hg e) (fun s r h hg hr => ?_) hend
      (fun r hr => And.intro (hturns r hr) (hframes r hr)) (Runs.along_true _ _) hwork
    obtain ⟨hr,frame,hframe⟩ := hr
    by_cases hhung : Hung s
    · exact ⟨_,hframe,hhung.complete frame⟩
    · exact h.moves hg hhung hr
  · have hranked := Runs.ranked_of_still
      (P := fun s => Ending s ∧ s.stage = .destroying ∧ s.Overlooked)
      (C := fun _ e => ∀ frame, e ≠ .complete frame)
      (fun s e h he => ⟨h.1.step e,h.1.overlooked h.2.1 h.2.2 he⟩) fun s e h _ => h.1.step_work e
    refine hranked.rounds_end (fun s e h he hh => hh.step h.1 he) (fun s r h hh hr => ?_)
      ⟨hend,hs,ho⟩ hturns (Runs.along_of_forall fun e he _ frame hc => ?_) hwork
    · exact h.1.moves (by simp [h.2.1]) hh hr
    · obtain ⟨r,hr,he⟩ := List.mem_flatten.mp he
      exact hsilent r hr frame (hc ▸ he)

def shuttingDown : List LifetimeEvent :=
  List.replicate 10 .owner ++ [.complete .sdo,.eventThread,.eventThread,.destroy,.owner]

def turns : List LifetimeEvent := [.owner,.eventThread,.tickThread,.realtimeThread]

theorem shutdown_ends_missed :
    (Runs.run step {} shuttingDown).Overlooked ∧
      (Runs.run step (Runs.run step {} shuttingDown) (List.replicate 21 turns).flatten).Hung := by
  have h := shutdown_ends shuttingDown (List.replicate 21 turns) (by decide)
    (fun r hr => by
      rw [List.eq_of_mem_replicate hr]
      exact ⟨by decide,by decide,by decide,by decide⟩) (by decide)
  have ho : (Runs.run step {} shuttingDown).Overlooked := by decide
  refine ⟨ho,h.2.2 (fun r hr frame => ?_) ho⟩
  rw [List.eq_of_mem_replicate hr]
  simp [turns]

end Lifetime

end WujiHand

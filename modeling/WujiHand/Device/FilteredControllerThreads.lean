import Mathlib.Data.List.Forall2
import WujiHand.Device.FilteredController

namespace WujiHand

-- A caller's set goes through the joints one store at a time, and so do the loads of a step.
inductive CallerPc (K : Type) where
  | idle
  | setting (positions : JointTable K) (pending : List JointId)

inductive RealtimePc (K : Type) where
  | starting
  | ready
  | stepping (pending : List JointId) (result : JointTable (Option K))

inductive ControllerEvent (K : Type) where
  | set (caller : Nat) (positions : JointTable K)
  | caller (caller : Nat)
  | realtime

structure ControllerThreads (F U K : Type) where
  controller : FilteredController F U
  callers : Nat → CallerPc K := fun _ => .idle
  realtime : RealtimePc K := .starting
  history : JointTable (List (Smoothing.Signal K)) := fun _ _ => []

namespace ControllerThreads

variable {F U K : Type} (T : FilterT F U K) (samplingFreq : K)

def create (initial : JointTable K) (filter : F) (memory : JointTable U) :
    ControllerThreads F U K where
  controller := .create T initial filter memory

def record (s : ControllerThreads F U K) (t : JointId) (signal : Smoothing.Signal K) :
    JointTable (List (Smoothing.Signal K)) :=
  s.history.update t (s.history t.1 t.2 ++ [signal])

def beginSet (caller : Nat) (positions : JointTable K) (s : ControllerThreads F U K) :
    ControllerThreads F U K :=
  match s.callers caller with
  | .idle => { s with callers := Function.update s.callers caller (.setting positions joints) }
  | .setting _ _ => s

def callerStep (caller : Nat) (s : ControllerThreads F U K) : ControllerThreads F U K :=
  match s.callers caller with
  | .idle => s
  | .setting _ [] => { s with callers := Function.update s.callers caller .idle }
  | .setting positions (t :: pending) =>
    { s with
      controller := s.controller.inputUnit T positions t,
      callers := Function.update s.callers caller (.setting positions pending),
      history := s.record t (.input (positions t.1 t.2)) }

def realtimeStep (s : ControllerThreads F U K) : ControllerThreads F U K :=
  match s.realtime with
  | .starting => { s with controller := s.controller.setup T samplingFreq, realtime := .ready }
  | .ready => { s with realtime := .stepping joints fun _ _ => none }
  | .stepping [] _ => { s with realtime := .ready }
  | .stepping (t :: pending) result =>
    let stepped := FilteredController.stepUnit T (s.controller,result) t
    { s with
      controller := stepped.1,
      realtime := .stepping pending stepped.2,
      history := s.record t .step }

def step (s : ControllerThreads F U K) : ControllerEvent K → ControllerThreads F U K
  | .set caller positions => s.beginSet caller positions
  | .caller caller => s.callerStep T caller
  | .realtime => s.realtimeStep T samplingFreq

section Calls

variable {T samplingFreq} {s : ControllerThreads F U K} {caller : Nat} {positions : JointTable K}
  {t : JointId} {pending : List JointId} {result : JointTable (Option K)}

theorem callerStep_return (h : s.callers caller = .setting positions []) :
    s.callerStep T caller = { s with callers := Function.update s.callers caller .idle } := by
  rw [callerStep, h]

theorem callerStep_store (h : s.callers caller = .setting positions (t :: pending)) :
    s.callerStep T caller =
      { s with
        controller := s.controller.inputUnit T positions t,
        callers := Function.update s.callers caller (.setting positions pending),
        history := s.record t (.input (positions t.1 t.2)) } := by
  rw [callerStep, h]

theorem realtimeStep_load (h : s.realtime = .stepping (t :: pending) result) :
    s.realtimeStep T samplingFreq =
      { s with
        controller := (FilteredController.stepUnit T (s.controller,result) t).1,
        realtime := .stepping pending (FilteredController.stepUnit T (s.controller,result) t).2,
        history := s.record t .step } := by
  rw [realtimeStep, h]

variable (samplingFreq) in
theorem run_setting (h : s.callers caller = .setting positions pending) :
    let events := List.replicate (pending.length + 1) (.caller caller)
    (Runs.run (step T samplingFreq) s events).controller =
        pending.foldl (FilteredController.inputUnit T positions) s.controller ∧
      (Runs.run (step T samplingFreq) s events).callers =
        Function.update s.callers caller .idle ∧
      (Runs.run (step T samplingFreq) s events).realtime = s.realtime := by
  induction pending generalizing s with
  | nil =>
    have hstep : s.step T samplingFreq (.caller caller) = _ := callerStep_return h
    dsimp only
    rw [List.length_nil, List.replicate_one, Runs.run_cons, Runs.run_nil, hstep]
    exact ⟨rfl,rfl,rfl⟩
  | cons t pending ih =>
    have hstep : s.step T samplingFreq (.caller caller) = _ := callerStep_store h
    have hnext : (s.step T samplingFreq (.caller caller)).callers caller =
        .setting positions pending := by
      rw [hstep]
      exact Function.update_self ..
    obtain ⟨hcontroller,hcallers,hrealtime⟩ := ih hnext
    rw [hstep] at hcontroller hcallers hrealtime
    dsimp only
    rw [List.length_cons, List.replicate_succ, Runs.run_cons, hstep]
    exact ⟨hcontroller,hcallers.trans (Function.update_idem ..),hrealtime⟩

theorem run_stepping (h : s.realtime = .stepping pending result) :
    let events := List.replicate pending.length .realtime
    let stepped := pending.foldl (FilteredController.stepUnit T) (s.controller,result)
    (Runs.run (step T samplingFreq) s events).controller = stepped.1 ∧
      (Runs.run (step T samplingFreq) s events).realtime = .stepping [] stepped.2 ∧
      (Runs.run (step T samplingFreq) s events).callers = s.callers := by
  induction pending generalizing s result with
  | nil => exact ⟨rfl,h,rfl⟩
  | cons t pending ih =>
    have hstep : s.step T samplingFreq .realtime = _ := realtimeStep_load h
    have hnext : (s.step T samplingFreq .realtime).realtime = .stepping pending
        (FilteredController.stepUnit T (s.controller,result) t).2 := by rw [hstep]
    obtain ⟨hcontroller,hrealtime,hcallers⟩ := ih hnext
    rw [hstep] at hcontroller hrealtime hcallers
    dsimp only
    rw [List.length_cons, List.replicate_succ, Runs.run_cons, hstep]
    exact ⟨hcontroller,hrealtime,hcallers⟩

theorem run_set (h : s.callers caller = .idle) (positions : JointTable K) :
    let events := .set caller positions :: List.replicate (joints.length + 1) (.caller caller)
    (Runs.run (step T samplingFreq) s events).controller = s.controller.set T positions ∧
      (Runs.run (step T samplingFreq) s events).callers = s.callers ∧
      (Runs.run (step T samplingFreq) s events).realtime = s.realtime := by
  have hstep : s.step T samplingFreq (.set caller positions) =
      { s with callers := Function.update s.callers caller (.setting positions joints) } := by
    rw [step, beginSet, h]
  have hnext : (s.step T samplingFreq (.set caller positions)).callers caller =
      .setting positions joints := by
    rw [hstep]
    exact Function.update_self ..
  obtain ⟨hcontroller,hcallers,hrealtime⟩ := run_setting samplingFreq hnext
  rw [hstep] at hcontroller hcallers hrealtime
  dsimp only
  rw [Runs.run_cons, hstep]
  refine ⟨hcontroller,hcallers.trans ?_,hrealtime⟩
  dsimp only
  rw [Function.update_idem, ← h, Function.update_eq_self]

theorem run_step (h : s.realtime = .ready) (actual : Option (JointTable K)) :
    let events := List.replicate (joints.length + 1) .realtime
    (Runs.run (step T samplingFreq) s events).controller = (s.controller.step T actual).1 ∧
      (Runs.run (step T samplingFreq) s events).realtime =
        .stepping [] (s.controller.step T actual).2 ∧
      (Runs.run (step T samplingFreq) s events).callers = s.callers := by
  have hstep : s.step T samplingFreq .realtime =
      { s with realtime := .stepping joints fun _ _ => none } := by
    rw [step, realtimeStep, h]
  have hnext : (s.step T samplingFreq .realtime).realtime = .stepping joints fun _ _ => none := by
    rw [hstep]
  obtain ⟨hcontroller,hrealtime,hcallers⟩ := run_stepping hnext
  rw [hstep] at hcontroller hrealtime hcallers
  dsimp only
  rw [List.replicate_succ, Runs.run_cons, hstep]
  exact ⟨hcontroller,hrealtime,hcallers⟩

end Calls

end ControllerThreads

inductive CallerPc.SameAt {K : Type} (i : Fin 5) (j : Fin 4) : CallerPc K → CallerPc K → Prop
  | idle : SameAt i j .idle .idle
  | setting {positions positions' : JointTable K} (h : positions i j = positions' i j)
      (pending : List JointId) : SameAt i j (.setting positions pending) (.setting positions' pending)

inductive RealtimePc.SameAt {K : Type} (i : Fin 5) (j : Fin 4) : RealtimePc K → RealtimePc K → Prop
  | starting : SameAt i j .starting .starting
  | ready : SameAt i j .ready .ready
  | stepping {result result' : JointTable (Option K)} (h : result i j = result' i j)
      (pending : List JointId) : SameAt i j (.stepping pending result) (.stepping pending result')

inductive ControllerEvent.SameAt {K : Type} (i : Fin 5) (j : Fin 4) :
    ControllerEvent K → ControllerEvent K → Prop
  | set {positions positions' : JointTable K} (caller : Nat) (h : positions i j = positions' i j) :
      SameAt i j (.set caller positions) (.set caller positions')
  | caller (caller : Nat) : SameAt i j (.caller caller) (.caller caller)
  | realtime : SameAt i j .realtime .realtime

namespace ControllerThreads

variable {F U K : Type} {T : FilterT F U K} {samplingFreq : K}

structure AgreeAt (i : Fin 5) (j : Fin 4) (s s' : ControllerThreads F U K) : Prop where
  filter : s.controller.filter = s'.controller.filter
  unit : s.controller.units i j = s'.controller.units i j
  callers : ∀ caller, (s.callers caller).SameAt i j (s'.callers caller)
  realtime : s.realtime.SameAt i j s'.realtime
  history : s.history i j = s'.history i j

variable {i : Fin 5} {j : Fin 4} {s s' : ControllerThreads F U K}

theorem create_agrees {initial initial' : JointTable K} {memory memory' : JointTable U}
    {filter : F} (hreset : T.reset filter (initial i j) (memory i j) =
      T.reset filter (initial' i j) (memory' i j)) :
    AgreeAt i j (create T initial filter memory) (create T initial' filter memory') where
  filter := by simp only [create, FilteredController.create_eq]
  unit := by simp only [create, FilteredController.create_eq, hreset]
  callers := fun _ => .idle
  realtime := .starting
  history := rfl

namespace AgreeAt

theorem update_callers (h : AgreeAt i j s s') (caller : Nat) {pc pc' : CallerPc K}
    (hpc : pc.SameAt i j pc') (other : Nat) :
    (Function.update s.callers caller pc other).SameAt i j
      (Function.update s'.callers caller pc' other) := by
  by_cases heq : other = caller
  · subst heq
    rwa [Function.update_self, Function.update_self]
  · rw [Function.update_of_ne heq, Function.update_of_ne heq]
    exact h.callers other

theorem record (h : AgreeAt i j s s') (t : JointId) {signal signal' : Smoothing.Signal K}
    (hsignal : (i,j) = t → signal = signal') : s.record t signal i j = s'.record t signal' i j := by
  refine JointTable.update_congr h.history ?_
  rintro rfl
  rw [h.history, hsignal rfl]

theorem beginSet (h : AgreeAt i j s s') (caller : Nat) {positions positions' : JointTable K}
    (hpositions : positions i j = positions' i j) :
    AgreeAt i j (s.beginSet caller positions) (s'.beginSet caller positions') := by
  have hpc := h.callers caller
  unfold ControllerThreads.beginSet
  generalize s.callers caller = pc at hpc ⊢
  generalize s'.callers caller = pc' at hpc ⊢
  cases hpc with
  | idle => exact { h with callers := h.update_callers caller (.setting hpositions joints) }
  | setting => exact h

theorem callerStep (h : AgreeAt i j s s') (caller : Nat) :
    AgreeAt i j (s.callerStep T caller) (s'.callerStep T caller) := by
  have hpc := h.callers caller
  unfold ControllerThreads.callerStep
  generalize s.callers caller = pc at hpc ⊢
  generalize s'.callers caller = pc' at hpc ⊢
  cases hpc with
  | idle => exact h
  | setting hpositions pending =>
    cases pending with
    | nil => exact { h with callers := h.update_callers caller .idle }
    | cons t pending =>
      refine ⟨h.filter,JointTable.update_congr h.unit ?_,
        h.update_callers caller (.setting hpositions pending),h.realtime,h.record t ?_⟩
      · rintro rfl
        rw [h.filter, h.unit, hpositions]
      · rintro rfl
        rw [hpositions]

theorem realtimeStep (h : AgreeAt i j s s') :
    AgreeAt i j (s.realtimeStep T samplingFreq) (s'.realtimeStep T samplingFreq) := by
  have hpc := h.realtime
  unfold ControllerThreads.realtimeStep
  generalize s.realtime = pc at hpc ⊢
  generalize s'.realtime = pc' at hpc ⊢
  cases hpc with
  | starting =>
    exact ⟨congrArg (T.setup samplingFreq) h.filter,h.unit,h.callers,.ready,h.history⟩
  | ready => exact { h with realtime := .stepping rfl joints }
  | stepping hresult pending =>
    cases pending with
    | nil => exact { h with realtime := .ready }
    | cons t pending =>
      refine ⟨h.filter,JointTable.update_congr h.unit ?_,h.callers,
        .stepping (JointTable.update_congr hresult ?_) pending,h.record t fun _ => rfl⟩
      · rintro rfl
        rw [h.filter, h.unit]
      · rintro rfl
        rw [h.filter, h.unit]

theorem step (h : AgreeAt i j s s') {e e' : ControllerEvent K} (he : e.SameAt i j e') :
    AgreeAt i j (s.step T samplingFreq e) (s'.step T samplingFreq e') := by
  cases he with
  | set caller hpositions => exact h.beginSet caller hpositions
  | caller caller => exact h.callerStep caller
  | realtime => exact h.realtimeStep

theorem run (h : AgreeAt i j s s') {events events' : List (ControllerEvent K)}
    (he : List.Forall₂ (ControllerEvent.SameAt i j) events events') :
    AgreeAt i j (Runs.run (ControllerThreads.step T samplingFreq) s events)
      (Runs.run (ControllerThreads.step T samplingFreq) s' events') := by
  induction he generalizing s s' with
  | nil => exact h
  | cons hevent _ ih => exact ih (h.step hevent)

end AgreeAt

end ControllerThreads

end WujiHand

import Mathlib.Algebra.Order.Ring.Rat
import WujiHand.Device.FilteredControllerThreads

namespace WujiHand

open Smoothing

namespace LowPass.Unit

variable {K : Type} [Field K]

def follower (u : Unit K) : Follower K := ⟨u.inbox,u.output⟩

theorem input_follower (context : LowPass K) (value : K) (u : Unit K) (a : K) :
    (input context value u).follower = u.follower.act a (.input value) := rfl

theorem step_follower (context : LowPass K) (u : Unit K) :
    (step context u).1.follower = u.follower.act context.alpha .step := rfl

end LowPass.Unit

theorem FilteredController.inputUnit_output {K : Type} [Field K] (pi : K) (positions : JointTable K)
    (c : FilteredController (LowPass K) (LowPass.Unit K)) (t : JointId) (i : Fin 5) (j : Fin 4) :
    ((c.inputUnit (LowPass.filterT pi) positions t).units i j).output = (c.units i j).output := by
  dsimp only [inputUnit]
  by_cases heq : (i,j) = t
  · subst heq
    rw [JointTable.update_self]
    rfl
  · rw [JointTable.update_of_ne heq]

namespace ControllerThreads

section History

variable {F U K : Type} {T : FilterT F U K} {samplingFreq : K} {s : ControllerThreads F U K}

theorem record_extends (s : ControllerThreads F U K) (t : JointId) (signal : Signal K) (i : Fin 5)
    (j : Fin 4) : s.history i j <+: s.record t signal i j := by
  by_cases heq : (i,j) = t
  · subst heq
    rw [record, JointTable.update_self]
    exact List.prefix_append ..
  · have hsame : s.record t signal i j = s.history i j := JointTable.update_of_ne heq ..
    exact hsame.symm ▸ List.prefix_rfl

theorem step_extends (s : ControllerThreads F U K) (e : ControllerEvent K) (i : Fin 5)
    (j : Fin 4) : s.history i j <+: (s.step T samplingFreq e).history i j := by
  cases e with
  | set caller positions =>
    rw [step, beginSet]
    split <;> exact List.prefix_rfl
  | caller caller =>
    rw [step, callerStep]
    split
    · exact List.prefix_rfl
    · exact List.prefix_rfl
    · exact s.record_extends ..
  | realtime =>
    rw [step, realtimeStep]
    split
    · exact List.prefix_rfl
    · exact List.prefix_rfl
    · exact List.prefix_rfl
    · exact s.record_extends ..

theorem run_extends (s : ControllerThreads F U K) (events : List (ControllerEvent K)) (i : Fin 5)
    (j : Fin 4) : s.history i j <+: (Runs.run (step T samplingFreq) s events).history i j := by
  induction events generalizing s with
  | nil => exact List.prefix_rfl
  | cons e events ih => exact (s.step_extends e i j).trans (ih (s.step T samplingFreq e))

end History

variable {K : Type} [Field K] {pi cutoffFreq samplingFreq : K} {initial : JointTable K}
  {s : ControllerThreads (LowPass K) (LowPass.Unit K) K}

structure Follows (pi cutoffFreq samplingFreq : K) (initial : JointTable K)
    (s : ControllerThreads (LowPass K) (LowPass.Unit K) K) : Prop where
  cutoff : s.controller.filter.cutoffFreq = cutoffFreq
  alpha : s.realtime ≠ .starting →
    s.controller.filter.alpha = LowPass.calculateAlpha pi cutoffFreq samplingFreq
  units : ∀ i j, (s.controller.units i j).follower =
    Runs.run (Follower.act (LowPass.calculateAlpha pi cutoffFreq samplingFreq))
      (.start (initial i j)) (s.history i j)
  result : ∀ pending result, s.realtime = .stepping pending result → ∀ i j, (i,j) ∉ pending →
    result i j = some (s.controller.units i j).output

theorem create_follows (alpha : K) (initial : JointTable K)
    (memory : JointTable (LowPass.Unit K)) :
    Follows pi cutoffFreq samplingFreq initial
      (create (LowPass.filterT pi) initial ⟨cutoffFreq,alpha⟩ memory) where
  cutoff := by rw [create, FilteredController.create_eq]
  alpha := fun h => absurd rfl h
  units := fun i j => by
    rw [create, FilteredController.create_eq]
    rfl
  result := nofun

namespace Follows

theorem units_update (h : Follows pi cutoffFreq samplingFreq initial s) {t : JointId}
    {u : LowPass.Unit K} {signal : Signal K}
    (hu : u.follower = (s.controller.units t.1 t.2).follower.act
      (LowPass.calculateAlpha pi cutoffFreq samplingFreq) signal) (i : Fin 5) (j : Fin 4) :
    (s.controller.units.update t u i j).follower =
      Runs.run (Follower.act (LowPass.calculateAlpha pi cutoffFreq samplingFreq))
        (.start (initial i j)) (s.record t signal i j) := by
  by_cases heq : (i,j) = t
  · subst heq
    rw [record, JointTable.update_self, JointTable.update_self, Follower.run_concat, hu, h.units]
  · rw [record, JointTable.update_of_ne heq, JointTable.update_of_ne heq, h.units]

theorem beginSet (h : Follows pi cutoffFreq samplingFreq initial s) (caller : Nat)
    (positions : JointTable K) :
    Follows pi cutoffFreq samplingFreq initial (s.beginSet caller positions) := by
  unfold ControllerThreads.beginSet
  split
  · exact { h with }
  · exact h

theorem callerStep (h : Follows pi cutoffFreq samplingFreq initial s) (caller : Nat) :
    Follows pi cutoffFreq samplingFreq initial
      (s.callerStep (LowPass.filterT pi) caller) := by
  unfold ControllerThreads.callerStep
  split
  case h_1 => exact h
  case h_2 => exact { h with }
  case h_3 positions t pending _ =>
    refine ⟨h.cutoff,h.alpha,h.units_update (LowPass.Unit.input_follower s.controller.filter ..),?_⟩
    intro pending result hpc i j hdone
    rw [h.result pending result hpc i j hdone, FilteredController.inputUnit_output]

theorem realtimeStep (h : Follows pi cutoffFreq samplingFreq initial s) :
    Follows pi cutoffFreq samplingFreq initial
      (s.realtimeStep (LowPass.filterT pi) samplingFreq) := by
  unfold ControllerThreads.realtimeStep
  split
  case h_1 hpc =>
    refine ⟨h.cutoff,fun _ => ?_,h.units,nofun⟩
    rw [← h.cutoff]
    rfl
  case h_2 hpc =>
    refine ⟨h.cutoff,fun _ => h.alpha (hpc ▸ nofun),h.units,?_⟩
    rintro pending result ⟨⟩ i j hdone
    exact absurd (mem_joints (i,j)) hdone
  case h_3 hpc => exact ⟨h.cutoff,fun _ => h.alpha (hpc ▸ nofun),h.units,nofun⟩
  case h_4 t pending result hpc =>
    have halpha := h.alpha (hpc ▸ nofun)
    have hstep := LowPass.Unit.step_follower s.controller.filter (s.controller.units t.1 t.2)
    rw [halpha] at hstep
    refine ⟨h.cutoff,fun _ => halpha,h.units_update hstep,?_⟩
    rintro _ _ ⟨⟩ i j hdone
    dsimp only [FilteredController.stepUnit]
    by_cases heq : (i,j) = t
    · subst heq
      rw [JointTable.update_self, JointTable.update_self]
      rfl
    · rw [JointTable.update_of_ne heq, JointTable.update_of_ne heq]
      exact h.result _ _ hpc i j fun hmem => (List.mem_cons.mp hmem).elim heq hdone

theorem step (h : Follows pi cutoffFreq samplingFreq initial s) (e : ControllerEvent K) :
    Follows pi cutoffFreq samplingFreq initial
      (s.step (LowPass.filterT pi) samplingFreq e) := by
  cases e with
  | set caller positions => exact h.beginSet caller positions
  | caller caller => exact h.callerStep caller
  | realtime => exact h.realtimeStep

theorem run (h : Follows pi cutoffFreq samplingFreq initial s)
    (events : List (ControllerEvent K)) :
    Follows pi cutoffFreq samplingFreq initial
      (Runs.run (ControllerThreads.step (LowPass.filterT pi) samplingFreq) s events) :=
  Runs.run_invariant (fun _ e h => h.step e) h

theorem later {s' : ControllerThreads (LowPass K) (LowPass.Unit K) K}
    (h : Follows pi cutoffFreq samplingFreq initial s)
    (h' : Follows pi cutoffFreq samplingFreq initial s') {i : Fin 5} {j : Fin 4}
    {later : List (Signal K)} (hlater : s'.history i j = s.history i j ++ later) :
    (s'.controller.units i j).follower =
      Runs.run (Follower.act (LowPass.calculateAlpha pi cutoffFreq samplingFreq))
        (s.controller.units i j).follower later := by
  rw [h'.units, hlater, Runs.run_append, h.units]

end Follows

theorem never_overshoots [LinearOrder K] [IsStrictOrderedRing K] (hpi : 0 < pi)
    (hcutoff : 0 < cutoffFreq) (hsampling : 0 < samplingFreq) (alpha : K)
    (memory : JointTable (LowPass.Unit K)) (initial : JointTable K)
    (events : List (ControllerEvent K)) (i : Fin 5) (j : Fin 4) :
    let a := LowPass.calculateAlpha pi cutoffFreq samplingFreq
    let start := fun initial memory => create (LowPass.filterT pi) initial ⟨cutoffFreq,alpha⟩ memory
    let run := Runs.run (step (LowPass.filterT pi) samplingFreq)
    let s := run (start initial memory) events
    let u := s.controller.units i j
    let targets := inputs (s.history i j)
    (0 < a ∧ a < 1) ∧
      (targets.foldl min (initial i j) ≤ u.output ∧ u.output ≤ targets.foldl max (initial i j)) ∧
      (∀ result, s.realtime = .stepping [] result → result i j = some u.output) ∧
      (∀ initial' memory' events', initial i j = initial' i j →
        List.Forall₂ (ControllerEvent.SameAt i j) events events' →
          (run (start initial' memory') events').controller.units i j = u) ∧
      u.inbox = targets.getLastD (initial i j) ∧
      ∀ events', ∃ later, (run s events').history i j = s.history i j ++ later ∧
        ((∀ x ∈ inputs later, x = u.inbox) →
          |((run s events').controller.units i j).output - u.inbox| =
            (1 - a) ^ steps later * |u.output - u.inbox|) := by
  intro a start run s u targets
  obtain ⟨ha,ha'⟩ := LowPass.calculateAlpha_range hpi hcutoff hsampling
  have hfollows : Follows pi cutoffFreq samplingFreq initial s :=
    (create_follows alpha initial memory).run events
  have hunit : u.follower = Runs.run (Follower.act a) (.start (initial i j)) (s.history i j) :=
    hfollows.units i j
  obtain ⟨_,hhull⟩ := Follower.run_mem_hull ha ha' (initial i j) (s.history i j)
  have htarget := Follower.run_target a (initial i j) (s.history i j)
  rw [← hunit] at hhull htarget
  refine ⟨⟨ha,ha'⟩,hhull,fun result hpc => ?_,fun initial' memory' events' hinitial hevents => ?_,
    htarget,fun events' => ?_⟩
  · exact hfollows.result [] result hpc i j List.not_mem_nil
  · have hreset : LowPass.Unit.reset ⟨cutoffFreq,alpha⟩ (initial i j) (memory i j) =
        LowPass.Unit.reset ⟨cutoffFreq,alpha⟩ (initial' i j) (memory' i j) := by
      rw [LowPass.Unit.reset, LowPass.Unit.reset, hinitial]
    exact ((create_agrees hreset).run hevents).unit.symm
  · obtain ⟨later,hlater⟩ := s.run_extends events' i j
    refine ⟨later,hlater.symm,fun hconstant => ?_⟩
    have hunits := hfollows.later (hfollows.run events') hlater.symm
    have hcontracts := Follower.run_contracts ha' u.follower later hconstant
    rw [← hunits] at hcontracts
    exact hcontracts

theorem never_overshoots_at_500 :
    let s := Runs.run (step (LowPass.filterT (3 : ℚ)) 500)
      (create (LowPass.filterT 3) (fun _ _ => 0) ⟨10,0⟩ fun _ _ => ⟨0,0⟩)
      [.set 0 fun _ _ => 1,.caller 0,.realtime,.realtime,.realtime]
    inputs (s.history 0 0) = [1] ∧ (s.controller.units 0 0).output = 3 / 28 ∧
      0 ≤ (s.controller.units 0 0).output ∧ (s.controller.units 0 0).output ≤ 1 := by
  intro s
  have hbounds : ([1] : List ℚ).foldl min 0 ≤ (s.controller.units 0 0).output ∧
      (s.controller.units 0 0).output ≤ ([1] : List ℚ).foldl max 0 :=
    (never_overshoots (by decide : (0 : ℚ) < 3) (by decide : (0 : ℚ) < 10)
      (by decide : (0 : ℚ) < 500) 0 (fun _ _ => ⟨0,0⟩) (fun _ _ => 0)
      [.set 0 fun _ _ => 1,.caller 0,.realtime,.realtime,.realtime] 0 0).2.1
  exact ⟨rfl,by decide +kernel,hbounds⟩

end ControllerThreads

end WujiHand

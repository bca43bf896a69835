import Mathlib.Algebra.Order.Field.Basic
import Mathlib.Data.List.Induction
import Mathlib.Order.Interval.Set.Basic
import Mathlib.Tactic.Ring
import WujiHand.Library.Runs

namespace Smoothing

variable {K : Type}

section Shares

variable [Field K] {a x y low high p q : K}

def smooth (a x y : K) : K := a * x + (1 - a) * y

theorem smooth_sub : smooth a x y - x = (1 - a) * (y - x) := by
  unfold smooth
  ring

variable [LinearOrder K] [IsStrictOrderedRing K]

theorem le_smooth (ha : 0 < a) (ha' : a < 1) (hx : low ≤ x) (hy : low ≤ y) :
    low ≤ smooth a x y :=
  calc low = a * low + (1 - a) * low := by ring
    _ ≤ a * x + (1 - a) * y := add_le_add (mul_le_mul_of_nonneg_left hx ha.le)
        (mul_le_mul_of_nonneg_left hy (sub_nonneg.mpr ha'.le))

theorem smooth_le (ha : 0 < a) (ha' : a < 1) (hx : x ≤ high) (hy : y ≤ high) :
    smooth a x y ≤ high :=
  calc a * x + (1 - a) * y ≤ a * high + (1 - a) * high :=
        add_le_add (mul_le_mul_of_nonneg_left hx ha.le)
          (mul_le_mul_of_nonneg_left hy (sub_nonneg.mpr ha'.le))
    _ = high := by ring

theorem smooth_mem_Icc (ha : 0 < a) (ha' : a < 1) (hx : x ∈ Set.Icc low high)
    (hy : y ∈ Set.Icc low high) : smooth a x y ∈ Set.Icc low high :=
  ⟨le_smooth ha ha' hx.1 hy.1,smooth_le ha ha' hx.2 hy.2⟩

theorem abs_smooth_sub (ha' : a < 1) : |smooth a x y - x| = (1 - a) * |y - x| := by
  rw [smooth_sub, abs_mul, abs_of_pos (sub_pos.mpr ha')]

theorem share_pos (hp : 0 < p) (hq : 0 < q) : 0 < p / (p + q) := div_pos hp (add_pos hp hq)

theorem share_lt_one (hp : 0 < p) (hq : 0 < q) : p / (p + q) < 1 :=
  (div_lt_one (add_pos hp hq)).mpr (lt_add_of_pos_right p hq)

end Shares

section Hull

variable [LinearOrder K] {z : K} {xs : List K}

theorem foldl_min_le (x : K) (xs : List K) : xs.foldl min x ≤ x := by
  induction xs generalizing x with
  | nil => exact le_rfl
  | cons y xs ih => exact (ih (min x y)).trans (min_le_left x y)

theorem le_foldl_max (x : K) (xs : List K) : x ≤ xs.foldl max x := by
  induction xs generalizing x with
  | nil => exact le_rfl
  | cons y xs ih => exact (le_max_left x y).trans (ih (max x y))

def hull (x : K) (xs : List K) : Set K := Set.Icc (xs.foldl min x) (xs.foldl max x)

theorem first_mem_hull (x : K) (xs : List K) : x ∈ hull x xs :=
  ⟨foldl_min_le x xs,le_foldl_max x xs⟩

theorem hull_concat {x : K} (h : z ∈ hull x xs) (y : K) : z ∈ hull x (xs ++ [y]) := by
  simp only [hull, List.foldl_append, List.foldl_cons, List.foldl_nil]
  exact ⟨(min_le_left _ y).trans h.1,h.2.trans (le_max_left _ y)⟩

theorem last_mem_hull (x : K) (xs : List K) (y : K) : y ∈ hull x (xs ++ [y]) := by
  simp only [hull, List.foldl_append, List.foldl_cons, List.foldl_nil]
  exact ⟨min_le_right _ y,le_max_right _ y⟩

end Hull

inductive Signal (K : Type) where
  | input (value : K)
  | step

def Signal.isStep : Signal K → Bool
  | .input _ => false
  | .step => true

def inputs : List (Signal K) → List K
  | [] => []
  | .input value :: history => value :: inputs history
  | .step :: history => inputs history

def steps (history : List (Signal K)) : Nat := history.countP Signal.isStep

theorem inputs_append (history history' : List (Signal K)) :
    inputs (history ++ history') = inputs history ++ inputs history' := by
  induction history with
  | nil => rfl
  | cons signal history ih =>
    cases signal with
    | input value => exact congrArg (value :: ·) ih
    | step => exact ih

theorem steps_cons (signal : Signal K) (history : List (Signal K)) :
    steps (signal :: history) = steps history + signal.isStep.toNat := by
  rw [steps, List.countP_cons]
  cases signal <;> rfl

structure Follower (K : Type) where
  target : K
  value : K

namespace Follower

variable [Field K] {a : K}

def start (initial : K) : Follower K := ⟨initial,initial⟩

def act (a : K) (f : Follower K) : Signal K → Follower K
  | .input value => { f with target := value }
  | .step => { f with value := smooth a f.target f.value }

theorem run_concat (f : Follower K) (history : List (Signal K)) (signal : Signal K) :
    Runs.run (act a) f (history ++ [signal]) = (Runs.run (act a) f history).act a signal :=
  Runs.run_append f history [signal]

theorem run_target (a initial : K) (history : List (Signal K)) :
    (Runs.run (act a) (start initial) history).target = (inputs history).getLastD initial := by
  induction history using List.reverseRecOn with
  | nil => rfl
  | append_singleton history signal ih =>
    rw [run_concat, inputs_append]
    cases signal with
    | input value => exact (List.getLastD_concat ..).symm
    | step =>
      have hnone : inputs history ++ inputs [.step] = inputs history := List.append_nil _
      rw [hnone]
      exact ih

variable [LinearOrder K] [IsStrictOrderedRing K]

theorem act_mem_hull (ha : 0 < a) (ha' : a < 1) {f : Follower K} {initial : K}
    {history : List (Signal K)} (htarget : f.target ∈ hull initial (inputs history))
    (hvalue : f.value ∈ hull initial (inputs history)) (signal : Signal K) :
    (f.act a signal).target ∈ hull initial (inputs (history ++ [signal])) ∧
      (f.act a signal).value ∈ hull initial (inputs (history ++ [signal])) := by
  rw [inputs_append]
  cases signal with
  | input value => exact ⟨last_mem_hull initial _ value,hull_concat hvalue value⟩
  | step =>
    have hnone : inputs history ++ inputs [.step] = inputs history := List.append_nil _
    rw [hnone]
    exact ⟨htarget,smooth_mem_Icc ha ha' htarget hvalue⟩

theorem run_mem_hull (ha : 0 < a) (ha' : a < 1) (initial : K) (history : List (Signal K)) :
    (Runs.run (act a) (start initial) history).target ∈ hull initial (inputs history) ∧
      (Runs.run (act a) (start initial) history).value ∈ hull initial (inputs history) := by
  induction history using List.reverseRecOn with
  | nil => exact ⟨first_mem_hull initial [],first_mem_hull initial []⟩
  | append_singleton history signal ih =>
    rw [run_concat]
    exact act_mem_hull ha ha' ih.1 ih.2 signal

theorem run_contracts (ha' : a < 1) (f : Follower K) (history : List (Signal K))
    (h : ∀ value ∈ inputs history, value = f.target) :
    |(Runs.run (act a) f history).value - f.target| =
      (1 - a) ^ steps history * |f.value - f.target| := by
  induction history generalizing f with
  | nil => simp [steps]
  | cons signal history ih =>
    rw [steps_cons, Runs.run_cons]
    cases signal with
    | input value =>
      obtain ⟨hvalue,hrest⟩ := List.forall_mem_cons.mp h
      have hact : f.act a (.input value) = f := by rw [act, hvalue]
      rw [hact]
      exact ih f hrest
    | step =>
      have hrest := ih (f.act a .step) h
      have htarget : (f.act a .step).target = f.target := rfl
      have hvalue : (f.act a .step).value = smooth a f.target f.value := rfl
      rw [htarget, hvalue, abs_smooth_sub ha', ← mul_assoc, ← pow_succ] at hrest
      exact hrest

end Follower

end Smoothing

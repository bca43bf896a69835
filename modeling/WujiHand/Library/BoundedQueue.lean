import Mathlib.Tactic.Common

namespace BoundedQueue

variable {A S T : Type}

def push (capacity : Nat) (x : A) (xs : List A) : List A × Bool :=
  if xs.length < capacity then (xs ++ [x],true) else (xs,false)

def pop : List A → List A × Option A
  | [] => ([],none)
  | x :: xs => (xs,some x)

def pushMulti (capacity : Nat) (generate : Nat → A) (count : Nat) (xs : List A) : List A × Nat :=
  let accepted := min count (capacity - xs.length)
  (xs ++ (List.range accepted).map generate,accepted)

def popMulti (count : Nat) (xs : List A) : List A × List A := (xs.drop count,xs.take count)

def pushEach (push : A → S → S × Bool) (generate : Nat → A) : Nat → Nat → S → S × Nat
  | _, 0, s => (s,0)
  | i, count + 1, s =>
    let pushed := push (generate i) s
    let rest := pushEach push generate (i + 1) count pushed.1
    (rest.1,pushed.2.toNat + rest.2)

def popEach (pop : S → S × Option A) : Nat → S → S × List A
  | 0, s => (s,[])
  | count + 1, s =>
    let popped := pop s
    let rest := popEach pop count popped.1
    (rest.1,popped.2.toList ++ rest.2)

theorem pushEach_full {capacity : Nat} {xs : List A} (h : capacity ≤ xs.length)
    (generate : Nat → A) (i count : Nat) :
    pushEach (push capacity) generate i count xs = (xs,0) := by
  induction count generalizing i with
  | zero => rfl
  | succ count ih =>
    have hfull : push capacity (generate i) xs = (xs,false) := if_neg (Nat.not_lt.mpr h)
    rw [pushEach, hfull]
    simp [ih (i + 1)]

theorem pushEach_from (capacity : Nat) (generate : Nat → A) (i count : Nat) (xs : List A) :
    pushEach (push capacity) generate i count xs =
      (xs ++ (List.range' i (min count (capacity - xs.length))).map generate,
        min count (capacity - xs.length)) := by
  induction count generalizing i xs with
  | zero => simp [pushEach]
  | succ count ih =>
    by_cases hroom : xs.length < capacity
    · have hpush : push capacity (generate i) xs = (xs ++ [generate i],true) := if_pos hroom
      have hlength : (xs ++ [generate i]).length = xs.length + 1 := List.length_append
      have haccepted : min (count + 1) (capacity - xs.length) =
          min count (capacity - (xs.length + 1)) + 1 := by omega
      rw [pushEach, hpush]
      simp only [ih, hlength, haccepted, List.range'_succ, List.map_cons, List.append_assoc,
        List.singleton_append, Bool.toNat_true, Nat.add_comm 1]
    · have hnone : min (count + 1) (capacity - xs.length) = 0 := by omega
      rw [pushEach_full (Nat.le_of_not_lt hroom), hnone]
      simp

theorem pushMulti_eq_pushEach (capacity : Nat) (generate : Nat → A) (count : Nat) (xs : List A) :
    pushMulti capacity generate count xs = pushEach (push capacity) generate 0 count xs := by
  rw [pushEach_from, ← List.range_eq_range']
  rfl

theorem popMulti_eq_popEach (count : Nat) (xs : List A) :
    popMulti count xs = popEach pop count xs := by
  induction count generalizing xs with
  | zero => rfl
  | succ count ih =>
    cases xs with
    | nil =>
      rw [popEach, pop]
      simp [← ih, popMulti]
    | cons x xs =>
      rw [popEach, pop]
      simp [← ih, popMulti]

section Refinement

variable {R : S → T → Prop} {s : S} {t : T}

theorem pushEach_refines {push : A → S → S × Bool} {push' : A → T → T × Bool}
    (h : ∀ x s t, R s t → R (push x s).1 (push' x t).1 ∧ (push x s).2 = (push' x t).2)
    (generate : Nat → A) (i count : Nat) (hs : R s t) :
    R (pushEach push generate i count s).1 (pushEach push' generate i count t).1 ∧
      (pushEach push generate i count s).2 = (pushEach push' generate i count t).2 := by
  induction count generalizing i s t with
  | zero => exact ⟨hs,rfl⟩
  | succ count ih =>
    obtain ⟨hnext,hresult⟩ := h (generate i) s t hs
    obtain ⟨hlast,hrest⟩ := ih (i + 1) hnext
    exact ⟨hlast,by rw [pushEach, pushEach, hresult, hrest]⟩

theorem popEach_refines {pop : S → S × Option A} {pop' : T → T × Option A}
    (h : ∀ s t, R s t → R (pop s).1 (pop' t).1 ∧ (pop s).2 = (pop' t).2) (count : Nat)
    (hs : R s t) :
    R (popEach pop count s).1 (popEach pop' count t).1 ∧
      (popEach pop count s).2 = (popEach pop' count t).2 := by
  induction count generalizing s t with
  | zero => exact ⟨hs,rfl⟩
  | succ count ih =>
    obtain ⟨hnext,hresult⟩ := h s t hs
    obtain ⟨hlast,hrest⟩ := ih hnext
    exact ⟨hlast,by rw [popEach, popEach, hresult, hrest]⟩

end Refinement

end BoundedQueue

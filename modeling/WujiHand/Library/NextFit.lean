import Mathlib.Tactic.Common

namespace NextFit

structure Supply (α : Type) where
  level : α
  free : Nat

section Placing

variable {α : Type} [Add α] [LE α] [DecidableLE α] (capacity base : α)

def place (size : α) (s : Supply α) : Option (Supply α) :=
  if s.free = 0 then none
  else if s.level + size ≤ capacity then some { s with level := s.level + size }
  else if s.free = 1 then none
  else some ⟨base + size,s.free - 1⟩

def placeAll : List α → Supply α → Option (Supply α)
  | [], s => some s
  | size :: sizes, s => (place capacity base size s).bind (placeAll sizes)

def bins : α → List α → Nat
  | _, [] => 1
  | level, size :: sizes =>
    if level + size ≤ capacity then bins (level + size) sizes else bins (base + size) sizes + 1

variable {capacity base}

theorem placeAll_append (sizes sizes' : List α) (s : Supply α) :
    placeAll capacity base (sizes ++ sizes') s =
      (placeAll capacity base sizes s).bind (placeAll capacity base sizes') := by
  induction sizes generalizing s with
  | nil => rfl
  | cons size sizes ih =>
    simp only [List.cons_append, placeAll, Option.bind_assoc, funext ih]

theorem bins_pos (level : α) (sizes : List α) : 0 < bins capacity base level sizes := by
  induction sizes generalizing level with
  | nil => exact Nat.one_pos
  | cons size sizes ih =>
    unfold bins
    split
    · exact ih _
    · exact Nat.succ_pos _

theorem bins_le (level : α) (sizes : List α) :
    bins capacity base level sizes ≤ sizes.length + 1 := by
  induction sizes generalizing level with
  | nil => exact Nat.le_refl _
  | cons size sizes ih =>
    unfold bins
    rw [List.length_cons]
    split
    · exact Nat.le_succ_of_le (ih _)
    · exact Nat.succ_le_succ (ih _)

theorem placeAll_isSome {sizes : List α} {s : Supply α} (h : 0 < s.free) :
    (placeAll capacity base sizes s).isSome ↔ bins capacity base s.level sizes ≤ s.free := by
  induction sizes generalizing s with
  | nil => exact ⟨fun _ => h,fun _ => rfl⟩
  | cons size sizes ih =>
    have hpos : 0 < bins capacity base (base + size) sizes := bins_pos _ _
    simp only [placeAll, place, bins, if_neg (Nat.ne_of_gt h)]
    split_ifs with hfit hone
    · exact ih h
    · refine ⟨fun hsome => ?_,fun hle => ?_⟩
      · cases hsome
      · omega
    · rw [Option.bind_some, ih (by dsimp only; omega)]
      dsimp only
      omega

theorem place_empty {size : α} {s : Supply α} (h : s.free = 0) :
    place capacity base size s = none := if_pos h

theorem placeAll_nonempty_isSome {sizes : List α} {s : Supply α} (hne : sizes ≠ []) :
    (placeAll capacity base sizes s).isSome ↔ bins capacity base s.level sizes ≤ s.free := by
  by_cases h : 0 < s.free
  · exact placeAll_isSome h
  · have hzero : s.free = 0 := Nat.eq_zero_of_not_pos h
    have hpos : 0 < bins capacity base s.level sizes := bins_pos _ _
    obtain ⟨size,sizes',rfl⟩ := List.exists_cons_of_ne_nil hne
    have hnone : placeAll capacity base (size :: sizes') s = none := by
      rw [placeAll, place_empty hzero, Option.bind_none]
    refine ⟨fun hsome => ?_,fun hle => ?_⟩
    · rw [hnone] at hsome
      cases hsome
    · omega

end Placing

end NextFit

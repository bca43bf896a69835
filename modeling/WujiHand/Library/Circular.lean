import Mathlib.Data.Nat.ModEq
import Mathlib.Logic.Function.Basic

namespace Circular

variable {A : Type} {capacity start : Nat}

def slot (capacity start i : Nat) : Nat := (start + i) % capacity

theorem slot_lt (h : 0 < capacity) (i : Nat) : slot capacity start i < capacity := Nat.mod_lt _ h

theorem slot_inj {i j : Nat} (hi : i < capacity) (hj : j < capacity)
    (h : slot capacity start i = slot capacity start j) : i = j :=
  Nat.ModEq.eq_of_lt_of_lt (Nat.ModEq.add_left_cancel' start h) hi hj

theorem slot_add (m i : Nat) : slot capacity (start + m) i = slot capacity start (m + i) := by
  rw [slot, slot, Nat.add_assoc]

theorem slot_congr {start' : Nat} (h : start % capacity = start' % capacity) (i : Nat) :
    slot capacity start i = slot capacity start' i := Nat.ModEq.add_right i h

theorem slots_split {count : Nat} (h : count ≤ capacity) :
    (List.range (min count (capacity - start % capacity))).map (start % capacity + ·) ++
        List.range (count - min count (capacity - start % capacity)) =
      (List.range count).map (slot capacity start) := by
  rcases Nat.eq_zero_or_pos capacity with rfl | hpos
  · obtain rfl := Nat.le_zero.mp h
    rfl
  have hoffset : start % capacity < capacity := Nat.mod_lt _ hpos
  generalize hslice : min count (capacity - start % capacity) = slice
  have hcount : count = slice + (count - slice) := by omega
  have hfirst : (List.range slice).map (start % capacity + ·) =
      (List.range slice).map (slot capacity start) := by
    refine List.map_congr_left fun i hi => ?_
    have hi' := List.mem_range.mp hi
    have hlt : start % capacity + i < capacity := by omega
    rw [slot, ← Nat.mod_add_mod start capacity i, Nat.mod_eq_of_lt hlt]
  have hsecond : List.range (count - slice) =
      (List.range (count - slice)).map (fun i => slot capacity start (slice + i)) := by
    refine (List.map_id' _).symm.trans (List.map_congr_left fun i hi => ?_)
    have hi' := List.mem_range.mp hi
    have hsum : start % capacity + (slice + i) = i + capacity := by omega
    rw [slot, ← Nat.mod_add_mod start, hsum, Nat.add_mod_right, Nat.mod_eq_of_lt (by omega)]
  rw [hfirst, hsecond]
  conv_rhs => rw [hcount, List.range_add, List.map_append, List.map_map]
  rfl

structure Holds (capacity : Nat) (storage : Nat → Option A) (start : Nat) (xs : List A) : Prop where
  fits : xs.length ≤ capacity
  slots : ∀ i < capacity, storage (slot capacity start i) = xs[i]?

variable {storage : Nat → Option A} {xs ys : List A} {x : A}

theorem Holds.congr {start' : Nat} (h : Holds capacity storage start xs)
    (hs : start % capacity = start' % capacity) : Holds capacity storage start' xs :=
  ⟨h.fits,fun i hi => slot_congr hs i ▸ h.slots i hi⟩

theorem Holds.vacant (h : Holds capacity storage start xs) (hroom : xs.length < capacity) :
    storage (slot capacity start xs.length) = none := by
  rw [h.slots _ hroom, List.getElem?_eq_none (Nat.le_refl _)]

theorem Holds.first (h : Holds capacity storage start (x :: xs)) :
    storage (slot capacity start 0) = some x := by
  rw [h.slots 0 (Nat.lt_of_lt_of_le (Nat.succ_pos _) h.fits)]
  rfl

theorem Holds.push (h : Holds capacity storage start xs) (hroom : xs.length < capacity) (x : A) :
    Holds capacity (Function.update storage (slot capacity start xs.length) (some x)) start
      (xs ++ [x]) := by
  refine ⟨by simpa using Nat.succ_le_of_lt hroom,fun i hi => ?_⟩
  rcases lt_trichotomy i xs.length with hlt | rfl | hgt
  · have hne : slot capacity start i ≠ slot capacity start xs.length :=
      fun he => hlt.ne (slot_inj hi hroom he)
    rw [Function.update_of_ne hne, h.slots i hi, List.getElem?_append_left hlt]
  · rw [Function.update_self, List.getElem?_concat_length]
  · have hne : slot capacity start i ≠ slot capacity start xs.length :=
      fun he => hgt.ne' (slot_inj hi hroom he)
    rw [Function.update_of_ne hne, h.slots i hi, List.getElem?_eq_none hgt.le,
      List.getElem?_eq_none (by simpa using Nat.succ_le_of_lt hgt)]

theorem Holds.pop (h : Holds capacity storage start (x :: xs)) :
    Holds capacity (Function.update storage (slot capacity start 0) none) (start + 1) xs := by
  have hfits : xs.length + 1 ≤ capacity := h.fits
  refine ⟨by omega,fun i hi => ?_⟩
  rw [slot_add]
  by_cases hlast : 1 + i < capacity
  · have hne : slot capacity start (1 + i) ≠ slot capacity start 0 :=
      fun he => absurd (slot_inj hlast (by omega) he) (by omega)
    rw [Function.update_of_ne hne, h.slots _ hlast, Nat.add_comm 1 i, List.getElem?_cons_succ]
  · -- The slot just freed is the last one of the window that now starts behind it.
    have hfull : 1 + i = capacity := by omega
    have hwrap : slot capacity start (1 + i) = slot capacity start 0 := by
      rw [hfull, slot, Nat.add_mod_right, slot, Nat.add_zero]
    rw [hwrap, Function.update_self, List.getElem?_eq_none (by omega)]

end Circular

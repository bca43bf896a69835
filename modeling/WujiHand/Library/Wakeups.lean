import Mathlib.Tactic.Common

namespace Wakeups

variable {V : Type}

inductive Waiter (V : Type) where
  | away
  | comparing (old : V)
  | asleep (old : V)

def Waiter.wake : Waiter V → Waiter V
  | away => away
  | comparing old => comparing old
  | asleep old => comparing old

def Waiter.Holds (old : V) : Waiter V → Prop
  | away => False
  | comparing old' => old' = old
  | asleep old' => old' = old

-- An atomic value, the one thread that waits on it, and the notifications announced by a change
-- of the value and not made yet.
structure Cell (V : Type) where
  value : V
  waiter : Waiter V := .away
  announced : Nat := 0

-- `Released old value`: a thread that waits with `old` has to learn of `value`.
inductive Move (Released : V → V → Prop) : Cell V → Cell V → Prop
  | rest (c : Cell V) : Move Released c c
  | waited (c : Cell V) (old : V) (hold : ¬Released old old) :
    Move Released c { c with waiter := .comparing old }
  | slept {c : Cell V} (hwaiter : c.waiter = .comparing c.value) :
    Move Released c { c with waiter := .asleep c.value }
  | left (c : Cell V) : Move Released c { c with waiter := .away }
  | stored {c : Cell V} (value : V) (announces : Nat)
    (htell : ∀ old, c.waiter = .asleep old → Released old value → 0 < announces) :
    Move Released c { c with value := value, announced := c.announced + announces }
  | notified (c : Cell V) :
    Move Released c { c with waiter := c.waiter.wake, announced := c.announced - 1 }
  | woken (c : Cell V) : Move Released c { c with waiter := c.waiter.wake }

structure Kept (Released : V → V → Prop) (c : Cell V) : Prop where
  sincere : ∀ old, c.waiter.Holds old → ¬Released old old
  told : ∀ old, c.waiter = .asleep old → Released old c.value → 0 < c.announced

variable {Released : V → V → Prop} {c c' : Cell V}

theorem Move.of_eq (h : c' = c) : Move Released c c' := by
  rw [h]
  exact .rest c

theorem Waiter.wake_holds {w : Waiter V} {old : V} (h : w.wake.Holds old) : w.Holds old := by
  cases w with
  | away => exact h
  | comparing => exact h
  | asleep => exact h

theorem Waiter.wake_awake (w : Waiter V) (old : V) : w.wake ≠ .asleep old := by
  cases w <;> simp [wake]

theorem kept_away (value : V) (announced : Nat) :
    Kept Released ⟨value,.away,announced⟩ where
  sincere := fun _ h => h.elim
  told := fun _ h => by cases h

theorem Kept.move (h : Kept Released c) (hmove : Move Released c c') : Kept Released c' := by
  cases hmove with
  | rest => exact h
  | waited old hold => exact ⟨fun _ heq => heq ▸ hold,fun _ heq => by cases heq⟩
  | slept hwaiter =>
    have hold : ¬Released c.value c.value := h.sincere c.value (by rw [hwaiter]; rfl)
    refine ⟨fun _ heq => heq ▸ hold,fun old heq hreleased => ?_⟩
    cases heq
    exact absurd hreleased hold
  | left => exact kept_away c.value c.announced
  | stored value announces htell =>
    refine ⟨h.sincere,fun old heq hreleased => ?_⟩
    exact Nat.lt_of_lt_of_le (htell old heq hreleased) (Nat.le_add_left ..)
  | notified =>
    exact ⟨fun old heq => h.sincere old (Waiter.wake_holds heq),
      fun old heq => absurd heq (Waiter.wake_awake c.waiter old)⟩
  | woken =>
    exact ⟨fun old heq => h.sincere old (Waiter.wake_holds heq),
      fun old heq => absurd heq (Waiter.wake_awake c.waiter old)⟩

theorem Kept.not_released (h : Kept Released c) (hnone : c.announced = 0) {old : V}
    (hasleep : c.waiter = .asleep old) : ¬Released old c.value := fun hreleased =>
  Nat.lt_irrefl 0 (hnone ▸ h.told old hasleep hreleased)

end Wakeups

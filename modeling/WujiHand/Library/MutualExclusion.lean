import Mathlib.Logic.Function.Basic

namespace MutualExclusion

variable {T Pc : Type} (holds : Pc → Bool)

-- The owner a mutex records is the one thread inside the section it guards.
def Excludes (holder : Option T) (pc : T → Pc) : Prop :=
  ∀ t, holds (pc t) = true ↔ holder = some t

variable {holds} {holder : Option T} {pc : T → Pc} {t u : T} {next : Pc}

theorem excludes_start {outside : Pc} (h : holds outside = false) :
    Excludes holds none fun _ : T => outside := fun t => by simp [h]

theorem Excludes.only (h : Excludes holds holder pc) (ht : holds (pc t) = true)
    (hu : holds (pc u) = true) : t = u :=
  Option.some.inj (((h t).mp ht).symm.trans ((h u).mp hu))

theorem Excludes.free (h : Excludes holds holder pc) (hfree : holder = none) (t : T) :
    holds (pc t) = false := by
  rw [← Bool.not_eq_true, h t, hfree]
  simp

variable [DecidableEq T]

theorem Excludes.lock (h : Excludes holds holder pc) (hfree : holder = none)
    (hnext : holds next = true) : Excludes holds (some t) (Function.update pc t next) := by
  intro u
  rcases eq_or_ne u t with rfl | hu
  · simp [hnext]
  · simp [Function.update_of_ne hu,h.free hfree u,hu.symm]

theorem Excludes.unlock (h : Excludes holds holder pc) (ht : holds (pc t) = true)
    (hnext : holds next = false) : Excludes holds none (Function.update pc t next) := by
  intro u
  rcases eq_or_ne u t with rfl | hu
  · simp [hnext]
  · have hout : holds (pc u) ≠ true := fun hc => hu (h.only hc ht)
    simpa [Function.update_of_ne hu] using hout

theorem Excludes.move (h : Excludes holds holder pc) (hnext : holds next = holds (pc t)) :
    Excludes holds holder (Function.update pc t next) := by
  intro u
  rcases eq_or_ne u t with rfl | hu
  · rw [Function.update_self, hnext]
    exact h u
  · rw [Function.update_of_ne hu]
    exact h u

end MutualExclusion

import Mathlib.Tactic.Common

namespace Runs

variable {S A : Type}

def run (step : S → A → S) (s : S) (as : List A) : S := as.foldl step s

def Along (step : S → A → S) (C : S → A → Prop) : S → List A → Prop
  | _, [] => True
  | s, a :: as => C s a ∧ Along step C (step s a) as

def Throughout (step : S → A → S) (P : S → Prop) : S → List A → Prop
  | s, [] => P s
  | s, a :: as => P s ∧ Throughout step P (step s a) as

variable {step : S → A → S} {C D : S → A → Prop} {P Q : S → Prop}

@[simp] theorem run_nil (s : S) : run step s [] = s := rfl

@[simp] theorem run_cons (s : S) (a : A) (as : List A) :
    run step s (a :: as) = run step (step s a) as := rfl

theorem run_append (s : S) (as bs : List A) :
    run step s (as ++ bs) = run step (run step s as) bs := by
  simp [run, List.foldl_append]

theorem along_and {s : S} {as : List A} :
    Along step (fun s a => C s a ∧ D s a) s as ↔ Along step C s as ∧ Along step D s as := by
  induction as generalizing s with
  | nil => exact ⟨fun _ => ⟨trivial, trivial⟩, fun _ => trivial⟩
  | cons a as ih =>
    simp only [Along, ih]
    exact and_and_and_comm

theorem along_true (s : S) (as : List A) : Along step (fun _ _ => True) s as := by
  induction as generalizing s with
  | nil => trivial
  | cons a as ih => exact ⟨trivial, ih (step s a)⟩

theorem along_of_forall {s : S} {as : List A} (h : ∀ a ∈ as, ∀ s, C s a) : Along step C s as := by
  induction as generalizing s with
  | nil => trivial
  | cons a as ih =>
    obtain ⟨ha,has⟩ := List.forall_mem_cons.mp h
    exact ⟨ha s,ih has⟩

theorem along_at {s : S} {as bs : List A} {a : A} (h : Along step C s (as ++ a :: bs)) :
    C (run step s as) a := by
  induction as generalizing s with
  | nil => exact h.1
  | cons a' as ih => exact ih h.2

theorem along_append {s : S} {as bs : List A} :
    Along step C s (as ++ bs) ↔ Along step C s as ∧ Along step C (run step s as) bs := by
  induction as generalizing s with
  | nil => exact ⟨fun h => ⟨trivial, h⟩, fun h => h.2⟩
  | cons a as ih => exact (and_congr_right fun _ => ih).trans and_assoc.symm

theorem throughout_first {s : S} {as : List A} (h : Throughout step P s as) : P s := by
  cases as with
  | nil => exact h
  | cons a as => exact h.1

theorem throughout_last {s : S} {as : List A} (h : Throughout step P s as) : P (run step s as) := by
  induction as generalizing s with
  | nil => exact h
  | cons a as ih => exact ih h.2

theorem throughout_imp {s : S} {as : List A} (h : ∀ s, P s → Q s)
    (hp : Throughout step P s as) : Throughout step Q s as := by
  induction as generalizing s with
  | nil => exact h s hp
  | cons a as ih => exact ⟨h s hp.1, ih hp.2⟩

theorem throughout_invariant {s : S} {as : List A}
    (hstep : ∀ s a, P s → C s a → P (step s a)) (hs : P s) (hc : Along step C s as) :
    Throughout step P s as := by
  induction as generalizing s with
  | nil => exact hs
  | cons a as ih => exact ⟨hs, ih (hstep s a hs hc.1) hc.2⟩

theorem throughout_always {s : S} {as : List A} (hstep : ∀ s a, P s → P (step s a)) (hs : P s) :
    Throughout step P s as := by
  induction as generalizing s with
  | nil => exact hs
  | cons a as ih => exact ⟨hs, ih (hstep s a hs)⟩

theorem run_invariant {s : S} {as : List A} (hstep : ∀ s a, P s → P (step s a)) (hs : P s) :
    P (run step s as) := by
  induction as generalizing s with
  | nil => exact hs
  | cons a as ih => exact ih (hstep s a hs)

theorem along_congr {s : S} {as : List A} (hinv : ∀ s a, P s → P (step s a))
    (h : ∀ s a, P s → (C s a ↔ D s a)) (hs : P s) :
    Along step C s as ↔ Along step D s as := by
  induction as generalizing s with
  | nil => exact Iff.rfl
  | cons a as ih => exact and_congr (h s a hs) (ih (hinv s a hs))

theorem along_congr_of {s : S} {as : List A} (hinv : ∀ s a, P s → C s a → P (step s a))
    (h : ∀ s a, P s → (C s a ↔ D s a)) (hs : P s) :
    Along step C s as ↔ Along step D s as := by
  induction as generalizing s with
  | nil => exact Iff.rfl
  | cons a as ih =>
    constructor
    · rintro ⟨hc,hrest⟩
      exact ⟨(h s a hs).mp hc,(ih (hinv s a hs hc)).mp hrest⟩
    · rintro ⟨hd,hrest⟩
      have hc := (h s a hs).mpr hd
      exact ⟨hc,(ih (hinv s a hs hc)).mpr hrest⟩

theorem throughout_iff_along {s : S} {as : List A} (hinv : ∀ s a, Q s → Q (step s a))
    (h : ∀ s a, Q s → P s → (P (step s a) ↔ C s a)) (hq : Q s) (hp : P s) :
    Throughout step P s as ↔ Along step C s as := by
  induction as generalizing s with
  | nil => exact ⟨fun _ => trivial, fun _ => hp⟩
  | cons a as ih =>
    constructor
    · intro ht
      have hp' := throughout_first ht.2
      exact ⟨(h s a hq hp).mp hp', (ih (hinv s a hq) hp').mp ht.2⟩
    · intro ha
      have hp' := (h s a hq hp).mpr ha.1
      exact ⟨hp, (ih (hinv s a hq) hp').mpr ha.2⟩

theorem throughout_iff_along_of {E : S → A → Prop} {s : S} {as : List A}
    (hinv : ∀ s a, Q s → E s a → C s a → Q (step s a)) (hsafe : ∀ s, Q s → P s)
    (hfail : ∀ s a, Q s → E s a → ¬C s a → ¬P (step s a)) (hq : Q s) (he : Along step E s as) :
    Throughout step P s as ↔ Along step C s as := by
  induction as generalizing s with
  | nil => exact ⟨fun _ => trivial, fun _ => hsafe s hq⟩
  | cons a as ih =>
    constructor
    · intro ht
      have hc : C s a := by
        by_contra hc
        exact hfail s a hq he.1 hc (throughout_first ht.2)
      exact ⟨hc, (ih (hinv s a hq he.1 hc) he.2).mp ht.2⟩
    · intro ha
      exact ⟨hsafe s hq, (ih (hinv s a hq he.1 ha.1) he.2).mpr ha.2⟩

instance decidableAlong [∀ s a, Decidable (C s a)] :
    ∀ s (as : List A), Decidable (Along step C s as)
  | _, [] => inferInstanceAs (Decidable True)
  | s, a :: as =>
    have := decidableAlong (step s a) as
    inferInstanceAs (Decidable (C s a ∧ Along step C (step s a) as))

instance decidableThroughout [∀ s, Decidable (P s)] :
    ∀ s (as : List A), Decidable (Throughout step P s as)
  | s, [] => inferInstanceAs (Decidable (P s))
  | s, a :: as =>
    have := decidableThroughout (step s a) as
    inferInstanceAs (Decidable (P s ∧ Throughout step P (step s a) as))

end Runs

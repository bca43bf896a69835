import Mathlib.Data.List.FinRange
import Mathlib.Logic.Function.Basic

namespace Tally

variable {I A : Type}

theorem countP_cons_toNat (p : I → Bool) (i : I) (is : List I) :
    (i :: is).countP p = is.countP p + (p i).toNat := by
  rw [List.countP_cons]
  cases p i <;> rfl

theorem length_flatMap_le {B : Type} {f : I → List B} {p : I → Bool}
    (h : ∀ i, (f i).length ≤ (p i).toNat) (is : List I) :
    (is.flatMap f).length ≤ is.countP p := by
  induction is with
  | nil => exact Nat.le_refl _
  | cons i is ih =>
    have hi := h i
    rw [List.flatMap_cons, List.length_append, countP_cons_toNat]
    omega

theorem countP_add_length {B : Type} {f : I → List B} {p q : I → Bool}
    (h : ∀ i, (q i).toNat + (f i).length = (p i).toNat) (is : List I) :
    is.countP q + (is.flatMap f).length = is.countP p := by
  induction is with
  | nil => rfl
  | cons i is ih =>
    have hi := h i
    rw [List.flatMap_cons, List.length_append, countP_cons_toNat, countP_cons_toNat]
    omega

variable [DecidableEq I]

theorem countP_update_of_not_mem {is : List I} {i : I} (hi : i ∉ is) (p : A → Bool) (f : I → A)
    (a : A) : is.countP (fun j => p (Function.update f i a j)) = is.countP (fun j => p (f j)) := by
  refine List.countP_congr fun j hj => ?_
  rw [Function.update_of_ne (ne_of_mem_of_not_mem hj hi)]

theorem countP_update {is : List I} (his : is.Nodup) {i : I} (hi : i ∈ is) (p : A → Bool)
    (f : I → A) (a : A) :
    is.countP (fun j => p (Function.update f i a j)) + (p (f i)).toNat =
      is.countP (fun j => p (f j)) + (p a).toNat := by
  induction is with
  | nil => cases hi
  | cons j is ih =>
    obtain ⟨hj,his⟩ := List.nodup_cons.mp his
    simp only [List.countP_cons]
    by_cases heq : j = i
    · subst heq
      rw [countP_update_of_not_mem hj, Function.update_self]
      cases p (f j) <;> cases p a <;> simp
    · have hi' : i ∈ is := (List.mem_cons.mp hi).resolve_left (Ne.symm heq)
      have hrest := ih his hi'
      rw [Function.update_of_ne heq]
      omega

theorem countP_set {l : List A} {i : Nat} {x : A} (hx : l[i]? = some x) (p : A → Bool) (a : A) :
    (l.set i a).countP p + (p x).toNat = l.countP p + (p a).toNat := by
  induction l generalizing i with
  | nil => simp at hx
  | cons y l ih =>
    cases i with
    | zero =>
      obtain rfl : y = x := by simpa using hx
      simp only [List.set_cons_zero, List.countP_cons]
      cases p y <;> cases p a <;> simp
    | succ i =>
      have hrest := ih (i := i) (by simpa using hx)
      simp only [List.set_cons_succ, List.countP_cons]
      omega

section Table

variable {n : Nat}

def tally (p : A → Bool) (f : Fin n → A) : Nat := (List.finRange n).countP fun i => p (f i)

theorem tally_update (p : A → Bool) (f : Fin n → A) (i : Fin n) (a : A) :
    tally p (Function.update f i a) + (p (f i)).toNat = tally p f + (p a).toNat :=
  countP_update (List.nodup_finRange n) (List.mem_finRange i) p f a

theorem tally_congr {p : A → Bool} {f g : Fin n → A} (h : ∀ i, p (f i) = p (g i)) :
    tally p f = tally p g :=
  List.countP_congr fun i _ => by rw [h i]

theorem tally_le (p : A → Bool) (f : Fin n → A) : tally p f ≤ n :=
  List.countP_le_length.trans_eq List.length_finRange

theorem tally_eq_zero {p : A → Bool} {f : Fin n → A} : tally p f = 0 ↔ ∀ i, p (f i) = false := by
  simp [tally, List.countP_eq_zero, List.mem_finRange]

def most (f : Fin n → Nat) : Nat := (List.finRange n).foldr (fun i m => Nat.max (f i) m) 0

theorem le_most (f : Fin n → Nat) (i : Fin n) : f i ≤ most f := by
  have hle : ∀ is : List (Fin n), i ∈ is → f i ≤ is.foldr (fun i m => Nat.max (f i) m) 0 := by
    intro is hi
    induction is with
    | nil => cases hi
    | cons j is ih =>
      rcases List.mem_cons.mp hi with rfl | hi
      · exact Nat.le_max_left _ _
      · exact (ih hi).trans (Nat.le_max_right _ _)
  exact hle (List.finRange n) (List.mem_finRange i)

theorem most_le {f : Fin n → Nat} {k : Nat} (h : ∀ i, f i ≤ k) : most f ≤ k := by
  unfold most
  induction List.finRange n with
  | nil => exact Nat.zero_le k
  | cons i is ih => exact Nat.max_le.mpr ⟨h i,ih⟩

end Table

end Tally

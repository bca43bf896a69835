import Mathlib.Logic.Function.Basic
import Mathlib.Tactic.Common

namespace Registry

variable {K V : Type} [DecidableEq K]

def register (m : K → Option V) (e : K × V) : K → Option V := Function.update m e.1 (some e.2)

def registerAll (m : K → Option V) (es : List (K × V)) : K → Option V := es.foldl register m

variable {m : K → Option V} {es : List (K × V)} {k : K} {v : V}

@[simp] theorem registerAll_nil : registerAll m [] = m := rfl

@[simp] theorem registerAll_cons (e : K × V) :
    registerAll m (e :: es) = registerAll (register m e) es := rfl

theorem register_self (v : V) : register m (k,v) k = some v := Function.update_self ..

theorem register_of_ne {e : K × V} (h : e.1 ≠ k) : register m e k = m k :=
  Function.update_of_ne (Ne.symm h) ..

theorem registerAll_of_forall_ne (h : ∀ e ∈ es, e.1 ≠ k) : registerAll m es k = m k := by
  induction es generalizing m with
  | nil => rfl
  | cons e es ih =>
    have he := h e List.mem_cons_self
    have hes : ∀ e' ∈ es, e'.1 ≠ k := fun e' h' => h e' (List.mem_cons_of_mem e h')
    rw [registerAll_cons, ih hes, register_of_ne he]

theorem registerAll_eq_some (hmem : (k,v) ∈ es)
    (hp : es.Pairwise fun e e' => e = (k,v) → e'.1 ≠ k) : registerAll m es k = some v := by
  induction es generalizing m with
  | nil => cases hmem
  | cons e es ih =>
    obtain ⟨hlast,hp⟩ := List.pairwise_cons.mp hp
    rw [registerAll_cons]
    by_cases hin : (k,v) ∈ es
    · exact ih hin hp
    · rcases List.mem_cons.mp hmem with rfl | hin'
      · rw [registerAll_of_forall_ne (fun e' h' => hlast e' h' rfl), register_self]
      · exact absurd hin' hin

theorem mem_of_registerAll (h : registerAll m es k = some v) : (k,v) ∈ es ∨ m k = some v := by
  induction es generalizing m with
  | nil => exact .inr h
  | cons e es ih =>
    rcases ih h with hin | hm
    · exact .inl (List.mem_cons_of_mem e hin)
    · by_cases he : e.1 = k
      · obtain ⟨k',v'⟩ := e
        obtain rfl : k' = k := he
        rw [register_self] at hm
        obtain rfl := Option.some.inj hm
        exact .inl List.mem_cons_self
      · rw [register_of_ne he] at hm
        exact .inr hm

end Registry

import Mathlib.Tactic.Common

namespace Ledger

variable {R : Type}

-- A restored resource may be one that is not held: this is then without effect.
inductive Entry (R : Type) where
  | acquire (r : R)
  | release (r : R)
  | restore (r : R)

def releaseAll (rs : List R) : List (Entry R) := rs.map .release

variable [DecidableEq R]

def apply (held : List R) : Entry R → Option (List R)
  | .acquire r => if r ∈ held then none else some (r :: held)
  | .release r => if r ∈ held then some (held.erase r) else none
  | .restore r => some (held.erase r)

def post (held : List R) : List (Entry R) → Option (List R)
  | [] => some held
  | e :: es => (apply held e).bind fun held => post held es

variable {held held' : List R} {es fs : List (Entry R)} {r : R}

@[simp] theorem post_nil : post held [] = some held := rfl

theorem post_append : post held (es ++ fs) = (post held es).bind fun held => post held fs := by
  induction es generalizing held with
  | nil => rfl
  | cons e es ih => simp only [List.cons_append, post, ih, Option.bind_assoc]

theorem post_trans (h : post held es = some held') : post held (es ++ fs) = post held' fs := by
  rw [post_append, h, Option.bind_some]

theorem post_acquire (h : r ∉ held) : post held (.acquire r :: es) = post (r :: held) es := by
  rw [post, apply, if_neg h, Option.bind_some]

theorem post_release : post (r :: held) (.release r :: es) = post held es := by
  rw [post, apply, if_pos List.mem_cons_self, Option.bind_some, List.erase_cons_head]

theorem post_restore (h : r ∉ held) : post held (.restore r :: es) = post held es := by
  rw [post, apply, Option.bind_some, List.erase_of_not_mem h]

theorem post_guarded (h : r ∉ held) (hes : post (r :: held) es = some (r :: held)) :
    post held (.acquire r :: es ++ [.release r]) = some held := by
  rw [List.cons_append, post_acquire h, post_trans hes, post_release, post_nil]

theorem post_releaseAll {rs : List R} (hnodup : rs.Nodup) :
    post (rs.reverse ++ held) (releaseAll rs) = some held := by
  induction rs with
  | nil => rfl
  | cons r rs ih =>
    obtain ⟨hr,hrs⟩ := List.nodup_cons.mp hnodup
    have hmem : r ∈ (r :: rs).reverse ++ held := by simp
    have herase : ((r :: rs).reverse ++ held).erase r = rs.reverse ++ held := by
      rw [List.reverse_cons, List.append_assoc,
        List.erase_append_right _ (mt List.mem_reverse.mp hr), List.singleton_append,
        List.erase_cons_head]
    rw [releaseAll, List.map_cons, post, apply, if_pos hmem, Option.bind_some, herase]
    exact ih hrs

end Ledger

import Mathlib.Logic.Function.Basic
import WujiHand.Library.Runs

namespace Publication

variable {I V : Type}

-- One writer replaces the cells of a table one after the other and then counts the table.
structure Board (I V : Type) where
  cells : I → V
  writing : Option (List I × (I → V)) := none
  begun : List (I → V) := []
  published : Nat := 0

def Recent (begun : List (I → V)) (since : Nat) (i : I) (v : V) : Prop :=
  ∃ m table, begun[m]? = some table ∧ since ≤ m + 1 ∧ v = table i

theorem Recent.mono {begun begun' : List (I → V)} {since since' : Nat} {i : I} {v : V}
    (h : Recent begun since i v) (hbegun : begun <+: begun') (hsince : since' ≤ since) :
    Recent begun' since' i v := by
  obtain ⟨m,table,hm,hle,hv⟩ := h
  refine ⟨m,table,?_,Nat.le_trans hsince hle,hv⟩
  obtain ⟨later,rfl⟩ := hbegun
  exact List.getElem?_append_left (List.getElem?_eq_some_iff.mp hm).1 ▸ hm

theorem exists_last {A : Type} {as : List A} (h : 0 < as.length) : ∃ a, as.getLast? = some a := by
  rw [← Option.isSome_iff_exists, List.getLast?_isSome]
  exact List.ne_nil_of_length_pos h

namespace Board

variable [DecidableEq I] {b : Board I V}

def start (order : List I) (table : I → V) (b : Board I V) : Board I V :=
  match b.writing with
  | none => { b with writing := some (order,table), begun := b.begun ++ [table] }
  | some _ => b

def advance (b : Board I V) : Board I V :=
  match b.writing with
  | none => b
  | some (i :: pending,table) =>
    { b with
      cells := Function.update b.cells i (table i), writing := some (pending,table) }
  | some ([],_) => { b with writing := none, published := b.published + 1 }

structure Resting (b : Board I V) : Prop where
  counted : b.begun.length = b.published
  cells : ∀ table, b.begun.getLast? = some table → b.cells = table

structure Storing (pending : List I) (table : I → V) (b : Board I V) : Prop where
  counted : ∃ earlier, b.begun = earlier ++ [table] ∧ earlier.length = b.published ∧
    ∀ i last, earlier.getLast? = some last → b.cells i = last i ∨ b.cells i = table i
  stored : ∀ i, i ∉ pending → b.cells i = table i

def Sound (b : Board I V) : Prop :=
  match b.writing with
  | none => b.Resting
  | some (pending,table) => Storing pending table b

omit [DecidableEq I] in
theorem sound_blank (cells : I → V) : ({ cells := cells } : Board I V).Sound := ⟨rfl,nofun⟩

omit [DecidableEq I] in
theorem start_sound (h : b.Sound) {order : List I} (horder : ∀ i, i ∈ order) (table : I → V) :
    (b.start order table).Sound := by
  unfold start
  unfold Sound at h
  split at h
  case h_1 hwriting =>
    rw [hwriting]
    refine ⟨⟨b.begun,rfl,h.counted,fun i last hlast => .inl ?_⟩,fun i hi => absurd (horder i) hi⟩
    exact congrFun (h.cells last hlast) i
  case h_2 hwriting =>
    rw [hwriting]
    unfold Sound
    rw [hwriting]
    exact h

theorem advance_sound (h : b.Sound) : b.advance.Sound := by
  unfold Sound at h
  unfold advance
  split
  case h_1 hwriting =>
    unfold Sound
    rw [hwriting] at h ⊢
    exact h
  case h_2 i pending table hwriting =>
    rw [hwriting] at h
    obtain ⟨⟨earlier,hbegun,hlength,hmixed⟩,hstored⟩ := h
    refine ⟨⟨earlier,hbegun,hlength,fun j last hlast => ?_⟩,fun j hj => ?_⟩
    · by_cases heq : j = i
      · subst heq
        exact .inr (Function.update_self ..)
      · simp only [Function.update_of_ne heq]
        exact hmixed j last hlast
    · by_cases heq : j = i
      · subst heq
        exact Function.update_self ..
      · simp only [Function.update_of_ne heq]
        exact hstored j fun hmem => (List.mem_cons.mp hmem).elim heq hj
  case h_3 table hwriting =>
    rw [hwriting] at h
    obtain ⟨⟨earlier,hbegun,hlength,_⟩,hstored⟩ := h
    refine ⟨?_,fun last hlast => ?_⟩
    · rw [hbegun, List.length_append, hlength]
      rfl
    · rw [hbegun, List.getLast?_concat] at hlast
      cases hlast
      exact funext fun i => hstored i List.not_mem_nil

omit [DecidableEq I] in
theorem Sound.recent (h : b.Sound) (hpos : 0 < b.published) (i : I) :
    Recent b.begun b.published i (b.cells i) := by
  unfold Sound at h
  split at h
  case h_1 =>
    have hcounted := h.counted
    obtain ⟨last,hlast⟩ := exists_last (hcounted ▸ hpos)
    refine ⟨b.begun.length - 1,last,?_,by omega,congrFun (h.cells last hlast) i⟩
    rw [← List.getLast?_eq_getElem?, hlast]
  case h_2 pending table _ =>
    obtain ⟨⟨earlier,hbegun,hlength,hmixed⟩,_⟩ := h
    obtain ⟨last,hlast⟩ := exists_last (hlength ▸ hpos)
    rw [hbegun]
    rcases hmixed i last hlast with hcell | hcell
    · refine ⟨earlier.length - 1,last,?_,by omega,hcell⟩
      rw [List.getElem?_append_left (by omega), ← List.getLast?_eq_getElem?, hlast]
    · exact ⟨earlier.length,table,List.getElem?_concat_length,by omega,hcell⟩

omit [DecidableEq I] in
theorem start_published (order : List I) (table : I → V) (b : Board I V) :
    (b.start order table).published = b.published := by
  unfold start
  split <;> rfl

theorem advance_stored (h : ∀ table, b.writing ≠ some ([],table)) :
    b.advance.published = b.published := by
  unfold advance
  split
  case h_1 => rfl
  case h_2 => rfl
  case h_3 table hwriting => exact absurd hwriting (h table)

theorem advance_counted {table : I → V} (h : b.writing = some ([],table)) :
    b.advance.published = b.published + 1 := by
  unfold advance
  rw [h]

structure Grows (b b' : Board I V) : Prop where
  begun : b.begun <+: b'.begun
  published : b.published ≤ b'.published

omit [DecidableEq I] in
theorem start_grows (order : List I) (table : I → V) (b : Board I V) :
    b.Grows (b.start order table) := by
  unfold start
  split
  · exact ⟨List.prefix_append ..,Nat.le_refl _⟩
  · exact ⟨List.prefix_rfl,Nat.le_refl _⟩

theorem advance_grows (b : Board I V) : b.Grows b.advance := by
  unfold advance
  split
  · exact ⟨List.prefix_rfl,Nat.le_refl _⟩
  · exact ⟨List.prefix_rfl,Nat.le_refl _⟩
  · exact ⟨List.prefix_rfl,Nat.le_succ _⟩

end Board

end Publication

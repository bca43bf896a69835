import WujiHand.Library.Runs

namespace Runs

variable {S A : Type} {step : S → A → S} {P Done : S → Prop} {s : S}

structure Ranked (step : S → A → S) (P : S → Prop) (C Ready : S → A → Prop) (rank : S → Nat) :
    Prop where
  kept : ∀ s a, P s → C s a → P (step s a)
  lower : ∀ s a, P s → C s a → Ready s a → rank (step s a) < rank s
  rest : ∀ s a, P s → C s a → ¬Ready s a →
    rank (step s a) ≤ rank s ∧ ∀ b, Ready s b → Ready (step s a) b

namespace Ranked

variable {C Ready : S → A → Prop} {rank : S → Nat}

theorem step_le (h : Ranked step P C Ready rank) {a : A} (hs : P s) (ha : C s a) :
    rank (step s a) ≤ rank s := by
  by_cases hready : Ready s a
  · exact Nat.le_of_lt (h.lower s a hs ha hready)
  · exact (h.rest s a hs ha hready).1

theorem run_le (h : Ranked step P C Ready rank) (hs : P s) {as : List A} (has : Along step C s as) :
    P (run step s as) ∧ rank (run step s as) ≤ rank s := by
  induction as generalizing s with
  | nil => exact ⟨hs,Nat.le_refl _⟩
  | cons a as ih =>
    obtain ⟨hp,hle⟩ := ih (h.kept s a hs has.1) has.2
    exact ⟨hp,Nat.le_trans hle (h.step_le hs has.1)⟩

theorem run_lt (h : Ranked step P C Ready rank) (hs : P s) {as : List A}
    (has : Along step C s as) (hready : ∃ a ∈ as, Ready s a) : rank (run step s as) < rank s := by
  induction as generalizing s with
  | nil => simp at hready
  | cons a as ih =>
    have hp := h.kept s a hs has.1
    by_cases ha : Ready s a
    · exact Nat.lt_of_le_of_lt (h.run_le hp has.2).2 (h.lower s a hs has.1 ha)
    · obtain ⟨hle,hstay⟩ := h.rest s a hs has.1 ha
      obtain ⟨b,hb,hready⟩ := hready
      have hb : b ∈ as := (List.mem_cons.mp hb).resolve_left fun hab => ha (hab ▸ hready)
      exact Nat.lt_of_lt_of_le (ih hp has.2 ⟨b,hb,hstay b hready⟩) hle

theorem rounds_end (h : Ranked step P C Ready rank) {Round : List A → Prop}
    (hstay : ∀ s a, P s → C s a → Done s → Done (step s a))
    (hmove : ∀ s as, P s → ¬Done s → Round as → ∃ a ∈ as, Ready s a) (hs : P s)
    {rounds : List (List A)} (hr : ∀ as ∈ rounds, Round as)
    (has : Along step C s rounds.flatten) (hn : rank s < rounds.length) :
    Done (run step s rounds.flatten) := by
  have hdone : ∀ {s} {as : List A}, P s → Done s → Along step C s as → Done (run step s as) := by
    intro s as hs hd has
    exact (throughout_last (throughout_invariant (P := fun s => P s ∧ Done s)
      (fun s a hs ha => ⟨h.kept s a hs.1 ha,hstay s a hs.1 ha hs.2⟩) ⟨hs,hd⟩ has)).2
  induction rounds generalizing s with
  | nil => simp at hn
  | cons as rounds ih =>
    rw [List.flatten_cons] at has ⊢
    obtain ⟨has,hrest⟩ := along_append.mp has
    rw [run_append]
    have hp := (h.run_le hs has).1
    by_cases hd : Done s
    · exact hdone hp (hdone hs hd has) hrest
    · have hlt := h.run_lt hs has (hmove s as hs hd (hr as List.mem_cons_self))
      refine ih hp (fun bs hb => hr bs (List.mem_cons_of_mem _ hb)) hrest ?_
      rw [List.length_cons] at hn
      omega

end Ranked

theorem ranked_of_still {C : S → A → Prop} {rank : S → Nat}
    (hkept : ∀ s a, P s → C s a → P (step s a))
    (hrank : ∀ s a, P s → C s a → step s a = s ∨ rank (step s a) < rank s) :
    Ranked step P C (fun s a => step s a ≠ s) rank where
  kept := hkept
  lower s a hs ha hne := (hrank s a hs ha).resolve_left hne
  rest s a _ _ hstill := by
    rw [not_not] at hstill
    rw [hstill]
    exact ⟨Nat.le_refl _,fun _ hb => hb⟩

end Runs

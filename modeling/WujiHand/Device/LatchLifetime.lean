import WujiHand.Device.LatchAccounting

namespace WujiHand

def OwnerPc.latch? {n : Nat} : OwnerPc n → Option LatchRef
  | .idle => none
  | .iterating l _ => some l
  | .raised l _ _ => some l
  | .waiting l => some l
  | .loaded l => some l
  | .leaving l _ => some l

def OwnerPc.settled? {n : Nat} : OwnerPc n → Option LatchRef
  | .loaded l => some l
  | .leaving l _ => some l
  | _ => none

namespace LatchSession

variable {n : Nat} {codec : PositionCodec}

def Quiet (l : LatchRef) (s : LatchSession n) : Prop :=
  (∀ id, ¬Pending l (s.handler.storage id)) ∧ s.counting.map Prod.snd ≠ some l

instance (l : LatchRef) (s : LatchSession n) : Decidable (s.Quiet l) :=
  inferInstanceAs (Decidable (_ ∧ _))

def Released (s : LatchSession n) : Prop := ∀ k ∈ s.exited, s.Quiet (.blocking k)

instance (s : LatchSession n) : Decidable s.Released :=
  inferInstanceAs (Decidable (∀ k ∈ s.exited, s.Quiet (.blocking k)))

def OnStack : Option Callback → Context → Prop
  | some .countDown,.latch (.blocking _) => True
  | _,_ => False

instance : ∀ callback context, Decidable (OnStack callback context)
  | some .countDown,.latch (.blocking _) => inferInstanceAs (Decidable True)
  | some .countDown,.latch (.user _) | some .countDown,.value _ | some (.user _),_ | none,_ =>
    inferInstanceAs (Decidable False)

def RejectedQuietly (l : LatchRef) (s : LatchSession n) :
    Except String (Handler n Callback Context) → Prop
  | .error _ => s.Quiet l
  | .ok _ => True

instance (l : LatchRef) (s : LatchSession n) : ∀ r, Decidable (RejectedQuietly l s r)
  | .error _ => inferInstanceAs (Decidable (s.Quiet l))
  | .ok _ => inferInstanceAs (Decidable True)

def LeavesQuietly (codec : PositionCodec) (s : LatchSession n) : OwnerPc n → Prop
  | .raised (.blocking k) b id =>
    RejectedQuietly (.blocking k) s
      (s.handler.call codec ⟨b.caller,id,b.call.toUnitCall (.blocking k)⟩)
  | .leaving (.blocking k) _ => s.counting ≠ some (.notify,.blocking k)
  | _ => True

instance (s : LatchSession n) : ∀ pc, Decidable (LeavesQuietly codec s pc)
  | .raised (.blocking _) _ _ => inferInstanceAs (Decidable (RejectedQuietly _ _ _))
  | .leaving (.blocking _) _ => inferInstanceAs (Decidable (_ ≠ _))
  | .raised (.user _) _ _ | .leaving (.user _) _ | .idle | .iterating _ _ | .waiting _
  | .loaded _ => inferInstanceAs (Decidable True)

def ExitsQuietly (codec : PositionCodec) (s : LatchSession n) : LatchEvent n → Prop
  | .owner => LeavesQuietly codec s s.owner
  | _ => True

instance (s : LatchSession n) : ∀ e, Decidable (ExitsQuietly codec s e)
  | .owner => inferInstanceAs (Decidable (LeavesQuietly _ _ _))
  | .blocking _ | .async _ _ | .wait _ | .tick | .plain _ | .disableThreadSafeCheck | .visit _ _
  | .received _ _ => inferInstanceAs (Decidable True)

def Undisturbed (codec : PositionCodec) (s : LatchSession n) (e : LatchEvent n) : Prop :=
  s.InvokesOnce (fun u => OnStack u.callback u.callbackContext) e ∧ s.ExitsQuietly codec e

instance (s : LatchSession n) (e : LatchEvent n) : Decidable (s.Undisturbed codec e) :=
  inferInstanceAs (Decidable (_ ∧ _))

structure Lifetime (s : LatchSession n) : Prop where
  tracked : s.Tracked
  past : ∀ k ∈ s.exited, k < s.begun
  quiet : ∀ k, s.owner.latch? ≠ some (.blocking k) → s.Quiet (.blocking k)
  fresh : ∀ k, s.begun ≤ k → (s.latches (.blocking k)).waitingCount = 0
  current : ∀ k, s.owner.latch? = some (.blocking k) →
    k < s.begun ∧ k ∉ s.exited ∧ s.Balanced (.blocking k)
  settled : ∀ k, s.owner.settled? = some (.blocking k) → s.outstanding (.blocking k) = 0

theorem onStack_of_registered {k : Nat} (u : LatchUnit) (h : Registered (.blocking k) u) :
    OnStack u.callback u.callbackContext := by
  rw [h.1, h.2]
  trivial

theorem outstanding_zero {l : LatchRef} {s : LatchSession n} :
    s.outstanding l = 0 ↔
      (∀ id, ¬Pending l (s.handler.storage id)) ∧ runningOn l s.counting = 0 := by
  rw [outstanding, Nat.add_eq_zero_iff, pendingCount, Tally.tally_eq_zero]
  simp only [decide_eq_false_iff_not]

theorem runningOn_quiet {l : LatchRef} {c : Option (CountDownPc × LatchRef)}
    (h : c.map Prod.snd ≠ some l) : runningOn l c = 0 := by
  cases c with
  | none => rfl
  | some c =>
    obtain ⟨pc,l'⟩ := c
    have hne : l' ≠ l := fun he => h (congrArg some he)
    cases pc with
    | addError => exact if_neg hne
    | subtract => exact if_neg hne
    | notify => rfl

theorem Quiet.outstanding {l : LatchRef} {s : LatchSession n} (h : s.Quiet l) :
    s.outstanding l = 0 := outstanding_zero.mpr ⟨h.1,runningOn_quiet h.2⟩

theorem quiet_of_outstanding {l : LatchRef} {s : LatchSession n} (h : s.outstanding l = 0)
    (hnotify : s.counting ≠ some (.notify,l)) : s.Quiet l := by
  obtain ⟨hpending,hrunning⟩ := outstanding_zero.mp h
  refine ⟨hpending,?_⟩
  cases hc : s.counting with
  | none => exact nofun
  | some c =>
    obtain ⟨pc,l'⟩ := c
    rintro he
    obtain rfl : l' = l := Option.some.inj he
    rw [hc] at hrunning hnotify
    cases pc with
    | addError => exact absurd ((if_pos rfl).symm.trans hrunning) Nat.one_ne_zero
    | subtract => exact absurd ((if_pos rfl).symm.trans hrunning) Nat.one_ne_zero
    | notify => exact hnotify rfl

theorem Quiet.samePending {l : LatchRef} {s s' : LatchSession n} (h : s.Quiet l)
    (hs : SamePending s.handler s'.handler) (hc : s'.counting = s.counting) : s'.Quiet l :=
  ⟨fun id hp => h.1 id (((hs id).2 l).mp hp),hc ▸ h.2⟩

theorem samePending_refl (h : Handler n Callback Context) : SamePending h h :=
  fun _ => ⟨fun hb => hb,fun _ => Iff.rfl⟩

theorem startCounting_not_notify (is : List (Invocation Callback Context)) (l : LatchRef) :
    startCounting is ≠ some (.notify,l) := by
  cases is with
  | nil => exact nofun
  | cons i is =>
    intro h
    obtain ⟨l',_,he⟩ := Option.map_eq_some_iff.mp h
    have hpc := congrArg Prod.fst he
    dsimp only at hpc
    split at hpc
    · cases hpc
    · cases hpc

theorem visitUnit_not_notify {l : LatchRef} {s : LatchSession n}
    (h : s.counting ≠ some (.notify,l)) (id : Fin n) (now : Int) :
    (s.visitUnit id now).counting ≠ some (.notify,l) := by
  unfold visitUnit
  split
  · split
    · exact h
    · exact startCounting_not_notify _ l
  · exact h

theorem Quiet.not_notify {l : LatchRef} {s : LatchSession n} (h : s.Quiet l) :
    s.counting ≠ some (.notify,l) := fun hc => h.2 (by rw [hc]; rfl)

theorem quiet_visit {l : LatchRef} {s : LatchSession n} (h : s.Quiet l) (id : Fin n) (now : Int) :
    (s.visitUnit id now).Quiet l :=
  quiet_of_outstanding ((outstanding_visit l id now s).trans h.outstanding)
    (visitUnit_not_notify h.not_notify id now)

theorem outstanding_tick_le {l : LatchRef} {p : LatchUnit → Prop}
    (hl : ∀ u, Registered l u → p u) {s : LatchSession n} (h : s.Tracked)
    (honce : s.InvokesOnce p .tick) : s.tickStep.outstanding l ≤ s.outstanding l := by
  cases hcounting : s.counting with
  | some c =>
    obtain ⟨pc,l'⟩ := c
    cases pc with
    | addError =>
      simp only [outstanding, tickStep, hcounting, addError, runningOn]
      exact Nat.le_refl _
    | subtract =>
      simp only [outstanding, tickStep, hcounting, runningOn_after]
      exact Nat.le_add_right _ _
    | notify =>
      simp only [outstanding, tickStep, hcounting, runningOn]
      exact Nat.le_refl _
  | none =>
    cases hvisit : s.visit with
    | done =>
      simp only [tickStep, hcounting, hvisit]
      exact Nat.le_refl _
    | rest id now operation => exact (outstanding_rest hl h honce hcounting hvisit).le

theorem tickStep_not_notify {l : LatchRef} {s : LatchSession n} (h : s.counting.map Prod.snd ≠ some l) :
    s.tickStep.counting ≠ some (.notify,l) := by
  unfold tickStep
  split
  · exact nofun
  · rename_i l' hcounting
    rw [hcounting] at h
    dsimp only
    split
    · intro he
      exact h (congrArg (Option.map Prod.snd) he)
    · exact nofun
  · exact nofun
  · split
    · rename_i hcounting _ _
      rw [hcounting]
      exact nofun
    · exact startCounting_not_notify _ l

theorem quiet_tick {l : LatchRef} {p : LatchUnit → Prop} (hl : ∀ u, Registered l u → p u)
    {s : LatchSession n} (h : s.Quiet l) (ht : s.Tracked) (honce : s.InvokesOnce p .tick) :
    s.tickStep.Quiet l := by
  have hle := outstanding_tick_le hl ht honce
  rw [h.outstanding] at hle
  exact quiet_of_outstanding (Nat.le_zero.mp hle) (tickStep_not_notify h.2)

theorem exit_quiet {l l' : LatchRef} {s : LatchSession n} (h : s.Quiet l) : (s.exit l').Quiet l := by
  obtain ⟨hhandler,_,hcounting,_⟩ := s.exit_fields l'
  exact h.samePending (hhandler ▸ samePending_refl _) hcounting

theorem quiet_owner {l : LatchRef} {s : LatchSession n} (h : s.Quiet l)
    (howner : s.owner.latch? ≠ some l) : (s.ownerStep codec).Quiet l := by
  unfold ownerStep
  split
  · exact h
  · split
    · split
      · exact h
      · exact h
    · exact h
  · rename_i l' b id hpc
    split
    · exact exit_quiet h
    · rename_i h' hc
      refine quiet_of_outstanding ?_ h.not_notify
      have hne : l ≠ l' := fun he => howner (by rw [hpc, he]; rfl)
      have hcount := outstanding_accepted hc l
      rw [if_neg hne] at hcount
      have hzero := h.outstanding
      simp only [outstanding, hcount] at hzero ⊢
      exact hzero
  · split
    · exact h
    · exact h
  · exact h
  · exact exit_quiet h

theorem begin_fields (s : LatchSession n) (e : LatchEvent n) :
    (s.begin e).handler = s.handler ∧ (s.begin e).latches = s.latches ∧
      (s.begin e).counting = s.counting ∧ (s.begin e).visit = s.visit ∧
      (s.begin e).exited = s.exited ∧ s.begun ≤ (s.begin e).begun := by
  cases e with
  | blocking b => exact ⟨rfl,rfl,rfl,rfl,rfl,Nat.le_succ _⟩
  | _ => exact ⟨rfl,rfl,rfl,rfl,rfl,Nat.le_refl _⟩

theorem begin_quiet {l : LatchRef} {s : LatchSession n} (h : s.Quiet l) (e : LatchEvent n) :
    (s.begin e).Quiet l := by
  obtain ⟨hhandler,_,hcounting,_⟩ := s.begin_fields e
  exact h.samePending (hhandler ▸ samePending_refl _) hcounting

theorem lifetime_begin {s : LatchSession n} (h : s.Lifetime) (howner : s.owner = .idle)
    (e : LatchEvent n) : (s.begin e).Lifetime := by
  obtain ⟨hhandler,hlatches,hcounting,hvisit,hexited,hbegun⟩ := s.begin_fields e
  have hquiet : ∀ k, s.Quiet (.blocking k) := fun k => h.quiet k (by rw [howner]; exact nofun)
  have hnone : ∀ k, s.owner.latch? = some (.blocking k) → False := by
    intro k hk
    rw [howner] at hk
    cases hk
  refine ⟨h.tracked.mono hvisit (fun id hb => hhandler ▸ hb),?_,fun k _ => begin_quiet (hquiet k) e,
    ?_,?_,?_⟩
  · intro k hk
    exact (h.past k (hexited ▸ hk)).trans_le hbegun
  · intro k hk
    rw [hlatches]
    exact h.fresh k (hbegun.trans hk)
  · intro k hk
    cases e with
    | blocking b =>
      obtain rfl : s.begun = k := LatchRef.blocking.inj (Option.some.inj hk)
      refine ⟨Nat.lt_succ_self _,fun hmem => Nat.lt_irrefl _ (h.past _ hmem),?_⟩
      have hzero := (begin_quiet (hquiet s.begun) (.blocking b)).outstanding
      rw [Balanced, hzero]
      exact h.fresh s.begun (Nat.le_refl _)
    | async => cases hk
    | wait => cases hk
    | _ => exact (hnone k hk).elim
  · intro k hk
    cases e with
    | blocking b => cases hk
    | async => cases hk
    | wait => cases hk
    | _ => exact h.settled k hk

theorem Lifetime.moved {s s' : LatchSession n} (h : s.Lifetime) (ht : s'.Tracked)
    (hbegun : s'.begun = s.begun) (hexited : s'.exited = s.exited)
    (hcurrent : ∀ k, s'.owner.latch? = some (.blocking k) ↔ s.owner.latch? = some (.blocking k))
    (hquiet : ∀ k, s.owner.latch? ≠ some (.blocking k) → s.Quiet (.blocking k) →
      s'.Quiet (.blocking k) ∧
        (s'.latches (.blocking k)).waitingCount = (s.latches (.blocking k)).waitingCount)
    (hbalanced : ∀ k, s.Balanced (.blocking k) → s'.Balanced (.blocking k))
    (hsettled : ∀ k, s'.owner.settled? = some (.blocking k) → s'.outstanding (.blocking k) = 0) :
    s'.Lifetime := by
  refine ⟨ht,?_,?_,?_,?_,hsettled⟩
  · rw [hexited, hbegun]
    exact h.past
  · intro k hk
    have hk' := fun hcur => hk ((hcurrent k).mpr hcur)
    exact (hquiet k hk' (h.quiet k hk')).1
  · intro k hk
    rw [hbegun] at hk
    have hk' : s.owner.latch? ≠ some (.blocking k) := fun hcur =>
      absurd (h.current k hcur).1 (Nat.not_lt.mpr hk)
    exact (hquiet k hk' (h.quiet k hk')).2.trans (h.fresh k hk)
  · intro k hk
    obtain ⟨hlt,hmem,hb⟩ := h.current k ((hcurrent k).mp hk)
    rw [hbegun, hexited]
    exact ⟨hlt,hmem,hbalanced k hb⟩

theorem lifetime_exit {l : LatchRef} {s : LatchSession n} (h : s.Lifetime)
    (howner : s.owner.latch? = some l) (hl : ∀ k, l = .blocking k → s.Quiet (.blocking k)) :
    (s.exit l).Lifetime := by
  obtain ⟨hhandler,hlatches,_,hvisit,hidle⟩ := s.exit_fields l
  have hquiet : ∀ k, s.Quiet (.blocking k) := by
    intro k
    by_cases hk : l = .blocking k
    · exact hl k hk
    · exact h.quiet k fun he => hk (Option.some.inj (howner.symm.trans he))
  have hbegun : (s.exit l).begun = s.begun := by cases l <;> rfl
  refine ⟨h.tracked.mono hvisit (fun id hb => hhandler ▸ hb),?_,fun k _ => exit_quiet (hquiet k),
    ?_,?_,?_⟩
  · intro k hk
    rw [hbegun]
    cases l with
    | user => exact h.past k hk
    | blocking k' =>
      rcases List.mem_cons.mp hk with rfl | hk
      · exact (h.current k howner).1
      · exact h.past k hk
  · intro k hk
    rw [hlatches]
    exact h.fresh k (hbegun ▸ hk)
  · intro k hk
    rw [hidle] at hk
    cases hk
  · intro k hk
    rw [hidle] at hk
    cases hk

theorem owner_waitingCount {l : LatchRef} {s : LatchSession n} (howner : s.owner.latch? ≠ some l) :
    ((s.ownerStep codec).latches l).waitingCount = (s.latches l).waitingCount := by
  unfold ownerStep
  split
  · rfl
  · rename_i l' b hpc
    split
    · split
      · rfl
      · rfl
    · have hne : l ≠ l' := fun he => howner (by rw [hpc, he]; rfl)
      change ((s.addWaiting l' 1).latches l).waitingCount = _
      rw [addWaiting_waitingCount, if_neg hne, Int.add_zero]
  · rename_i l' b id hpc
    split
    · rw [(s.exit_fields l').2.1]
    · rfl
  · split
    · rfl
    · rfl
  · exact updateError_waitingCount ..
  · rename_i l' errors hpc
    rw [(s.exit_fields l').2.1]

theorem Lifetime.owned {s s' : LatchSession n} (h : s.Lifetime) (hstep : s.ownerStep codec = s')
    (hr : ∀ l, ¬Rejects codec l s .owner) (hbegun : s'.begun = s.begun)
    (hexited : s'.exited = s.exited)
    (hcurrent : ∀ k, s'.owner.latch? = some (.blocking k) ↔ s.owner.latch? = some (.blocking k))
    (hsettled : ∀ k, s'.owner.settled? = some (.blocking k) → s'.outstanding (.blocking k) = 0) :
    s'.Lifetime := by
  subst hstep
  exact h.moved (tracked_owner h.tracked) hbegun hexited hcurrent
    (fun _ hk hquiet => ⟨quiet_owner hquiet hk,owner_waitingCount hk⟩)
    (fun k hb => balanced_owner hb (hr (.blocking k))) hsettled

theorem Lifetime.owned_unsettled {s s' : LatchSession n} (h : s.Lifetime)
    (hstep : s.ownerStep codec = s') (hr : ∀ l, ¬Rejects codec l s .owner)
    (hbegun : s'.begun = s.begun) (hexited : s'.exited = s.exited)
    (hcurrent : ∀ k, s'.owner.latch? = some (.blocking k) ↔ s.owner.latch? = some (.blocking k))
    (hnone : s'.owner.settled? = none) : s'.Lifetime := by
  refine h.owned hstep hr hbegun hexited hcurrent fun k hk => ?_
  rw [hnone] at hk
  cases hk

theorem not_rejects {s : LatchSession n} (h : ∀ l b id, s.owner ≠ .raised l b id) (l : LatchRef) :
    ¬Rejects codec l s .owner := by
  rintro ⟨_,b,id,_,howner,_⟩
  exact h l b id howner

theorem lifetime_iterating {s : LatchSession n} {l : LatchRef} {b : BulkCall n} (h : s.Lifetime)
    (howner : s.owner = .iterating l b) : (s.ownerStep codec).Lifetime := by
  have hr : ∀ l, ¬Rejects codec l s .owner := not_rejects (by simp [howner])
  cases hids : b.ids with
  | cons id ids =>
    have hstep : s.ownerStep codec =
        { s.addWaiting l 1 with owner := .raised l { b with ids := ids } id } := by
      simp only [ownerStep, howner, hids]
    rw [hstep]
    exact h.owned_unsettled hstep hr rfl rfl (fun k => by rw [howner]; exact Iff.rfl) rfl
  | nil =>
    cases l with
    | user k =>
      have hstep : s.ownerStep codec = { s with owner := .idle } := by
        simp only [ownerStep, howner, hids]
      rw [hstep]
      exact h.owned_unsettled hstep hr rfl rfl (fun k => by simp [howner, OwnerPc.latch?]) rfl
    | blocking k =>
      have hstep : s.ownerStep codec = { s with owner := .waiting (.blocking k) } := by
        simp only [ownerStep, howner, hids]
      rw [hstep]
      exact h.owned_unsettled hstep hr rfl rfl (fun k => by rw [howner]; exact Iff.rfl) rfl

theorem lifetime_raised {s : LatchSession n} {l : LatchRef} {b : BulkCall n} {id : Fin n}
    (h : s.Lifetime) (howner : s.owner = .raised l b id)
    (hexit : LeavesQuietly codec s s.owner) : (s.ownerStep codec).Lifetime := by
  cases hc : s.handler.call codec ⟨b.caller,id,b.call.toUnitCall l⟩ with
  | error what =>
    simp only [ownerStep, howner, hc]
    refine lifetime_exit h (by rw [howner]; rfl) ?_
    rintro k rfl
    rw [howner] at hexit
    simpa only [LeavesQuietly, hc, RejectedQuietly] using hexit
  | ok h' =>
    have hstep : s.ownerStep codec = { s with handler := h', owner := .iterating l b } := by
      simp only [ownerStep, howner, hc]
    have hr : ∀ l, ¬Rejects codec l s .owner := by
      rintro l' ⟨_,b',id',what,hraised,hrejected⟩
      rw [howner] at hraised
      cases hraised
      rw [hc] at hrejected
      cases hrejected
    rw [hstep]
    exact h.owned_unsettled hstep hr rfl rfl (fun k => by rw [howner]; exact Iff.rfl) rfl

theorem lifetime_waiting {s : LatchSession n} {l : LatchRef} (h : s.Lifetime)
    (howner : s.owner = .waiting l) : (s.ownerStep codec).Lifetime := by
  have hr : ∀ l, ¬Rejects codec l s .owner := not_rejects (by simp [howner])
  by_cases hzero : (s.latches l).waitingCount = 0
  · have hstep : s.ownerStep codec = { s with owner := .loaded l } := by
      simp only [ownerStep, howner, if_pos hzero]
    rw [hstep]
    refine h.owned hstep hr rfl rfl (fun k => by rw [howner]; exact Iff.rfl) fun k hk => ?_
    obtain rfl : l = .blocking k := Option.some.inj hk
    obtain ⟨_,_,hbalanced⟩ := h.current k (by rw [howner]; rfl)
    rw [Balanced, hzero, howner] at hbalanced
    simp only [raisedFor] at hbalanced
    change s.outstanding (.blocking k) = 0
    omega
  · have hstep : s.ownerStep codec = s := by
      simp only [ownerStep, howner, if_neg hzero]
    rw [hstep]
    exact h

theorem lifetime_owner {s : LatchSession n} (h : s.Lifetime)
    (hexit : LeavesQuietly codec s s.owner) : (s.ownerStep codec).Lifetime := by
  cases howner : s.owner with
  | idle =>
    simp only [ownerStep, howner]
    exact h
  | iterating l b => exact lifetime_iterating h howner
  | raised l b id => exact lifetime_raised h howner hexit
  | waiting l => exact lifetime_waiting h howner
  | loaded l =>
    have hr : ∀ l, ¬Rejects codec l s .owner := not_rejects (by simp [howner])
    have hstep : s.ownerStep codec = { s with
        latches := Function.update s.latches l { s.latches l with errorCount := 0 },
        owner := .leaving l (s.latches l).errorCount } := by
      simp only [ownerStep, howner]
    rw [hstep]
    refine h.owned hstep hr rfl rfl (fun k => by rw [howner]; exact Iff.rfl) fun k hk => ?_
    exact h.settled k (by rw [howner]; exact hk)
  | leaving l errors =>
    simp only [ownerStep, howner]
    refine lifetime_exit h (by rw [howner]; rfl) ?_
    rintro k rfl
    rw [howner] at hexit
    exact quiet_of_outstanding (h.settled k (by rw [howner]; rfl)) hexit

theorem tick_waitingCount {l : LatchRef} {s : LatchSession n} (h : s.Quiet l) :
    (s.tickStep.latches l).waitingCount = (s.latches l).waitingCount := by
  unfold tickStep
  split
  · exact updateError_waitingCount ..
  · rename_i l' hcounting
    have hne : l ≠ l' := fun he => h.2 (by rw [hcounting, he]; rfl)
    change ((s.addWaiting l' (-1)).latches l).waitingCount = _
    rw [addWaiting_waitingCount, if_neg hne, Int.add_zero]
  · rfl
  · split
    · rfl
    · rfl

theorem tickStep_fields (s : LatchSession n) :
    s.tickStep.owner = s.owner ∧ s.tickStep.begun = s.begun ∧ s.tickStep.exited = s.exited := by
  unfold tickStep
  split
  · exact ⟨rfl,rfl,rfl⟩
  · exact ⟨rfl,rfl,rfl⟩
  · exact ⟨rfl,rfl,rfl⟩
  · split
    · exact ⟨rfl,rfl,rfl⟩
    · exact ⟨rfl,rfl,rfl⟩

theorem lifetime_samePending {s : LatchSession n} {h' : Handler n Callback Context}
    (h : s.Lifetime) (hs : SamePending s.handler h') :
    Lifetime { s with handler := h' } := by
  refine h.moved (h.tracked.mono rfl fun id => (hs id).1) rfl rfl (fun _ => Iff.rfl)
    (fun k _ hquiet => ⟨hquiet.samePending hs rfl,rfl⟩) (fun k hb => balanced_samePending hb hs) ?_
  intro k hk
  simp only [outstanding, pendingCount_congr hs (.blocking k)]
  exact h.settled k hk

theorem lifetime_visit {s : LatchSession n} (h : s.Lifetime) (id : Fin n) (now : Int) :
    (s.visitUnit id now).Lifetime := by
  obtain ⟨hlatches,howner,hbegun,hexited⟩ := s.visitUnit_fields id now
  refine h.moved (tracked_visit h.tracked id now) hbegun hexited (fun k => by rw [howner])
    (fun k _ hquiet => ⟨quiet_visit hquiet id now,by rw [hlatches]⟩) ?_ ?_
  · intro k hb
    rw [Balanced, outstanding_visit, hlatches, howner]
    exact hb
  · intro k hk
    rw [howner] at hk
    rw [outstanding_visit]
    exact h.settled k hk

theorem lifetime_tick {s : LatchSession n} (h : s.Lifetime)
    (honce : s.InvokesOnce (fun u => OnStack u.callback u.callbackContext) .tick) :
    s.tickStep.Lifetime := by
  obtain ⟨howner,hbegun,hexited⟩ := s.tickStep_fields
  refine h.moved (tracked_tick h.tracked) hbegun hexited (fun k => by rw [howner]) ?_
    (fun k hb => balanced_tick onStack_of_registered h.tracked honce hb) ?_
  · intro k _ hquiet
    exact ⟨quiet_tick onStack_of_registered hquiet h.tracked honce,tick_waitingCount hquiet⟩
  · intro k hk
    rw [howner] at hk
    have hle := outstanding_tick_le (onStack_of_registered (k := k)) h.tracked honce
    rw [h.settled k hk] at hle
    exact Nat.le_zero.mp hle

theorem lifetime_step {s : LatchSession n} {e : LatchEvent n} (h : s.Lifetime)
    (hu : s.Undisturbed codec e) : (s.step codec e).Lifetime := by
  cases e with
  | blocking b =>
    simp only [step]
    split
    · rename_i howner
      exact lifetime_begin h howner _
    · exact h
  | async k b =>
    simp only [step]
    split
    · rename_i howner
      exact lifetime_begin h howner _
    · exact h
  | wait k =>
    simp only [step]
    split
    · rename_i howner
      exact lifetime_begin h howner _
    · exact h
  | owner => exact lifetime_owner h hu.2
  | plain c => exact lifetime_samePending h (plain_samePending codec s.handler c)
  | disableThreadSafeCheck => exact lifetime_samePending h (samePending_refl _)
  | visit id now => exact lifetime_visit h id now
  | tick => exact lifetime_tick h hu.1
  | received bytes fill =>
    exact lifetime_samePending h (received_samePending codec s.handler bytes fill)

theorem Lifetime.released {s : LatchSession n} (h : s.Lifetime) : s.Released :=
  fun k hk => h.quiet k fun howner => (h.current k howner).2.1 hk

theorem lifetime_start (h : FreshHandler n Callback Context) : (start h).Lifetime where
  tracked := tracked_start h
  past := nofun
  quiet := by
    intro k _
    exact quiet_of_outstanding (outstanding_start h (.blocking k)) nofun
  fresh := fun _ _ => rfl
  current := nofun
  settled := nofun

theorem exit_exited (k : Nat) (s : LatchSession n) : k ∈ (s.exit (.blocking k)).exited :=
  List.mem_cons_self

theorem quiet_of_exit {l l' : LatchRef} {s : LatchSession n} (h : (s.exit l').Quiet l) :
    s.Quiet l := by
  obtain ⟨hhandler,_,hcounting,_⟩ := s.exit_fields l'
  exact h.samePending (hhandler ▸ samePending_refl _) hcounting.symm

theorem released_fails {s : LatchSession n} {e : LatchEvent n} (h : ¬s.ExitsQuietly codec e) :
    ¬(s.step codec e).Released := by
  intro hreleased
  cases e with
  | owner =>
    simp only [step, ownerStep] at hreleased
    simp only [ExitsQuietly] at h
    cases howner : s.owner with
    | raised l b id =>
      cases l with
      | user k => exact h (by rw [howner]; trivial)
      | blocking k =>
        simp only [howner, LeavesQuietly] at h hreleased
        cases hc : s.handler.call codec ⟨b.caller,id,b.call.toUnitCall (.blocking k)⟩ with
        | ok h' => exact h (by rw [hc]; trivial)
        | error what =>
          simp only [hc, RejectedQuietly] at h hreleased
          exact h (quiet_of_exit (hreleased k (exit_exited k s)))
    | leaving l errors =>
      cases l with
      | user k => exact h (by rw [howner]; trivial)
      | blocking k =>
        simp only [howner, LeavesQuietly] at h hreleased
        exact h (quiet_of_exit (hreleased k (exit_exited k s))).not_notify
    | _ => exact h (by rw [howner]; trivial)
  | _ => exact h trivial

theorem released_iff (codec : PositionCodec) (h : FreshHandler n Callback Context)
    (es : List (LatchEvent n)) (honce : Runs.Along (step codec)
      (InvokesOnce fun u => OnStack u.callback u.callbackContext) (start h) es) :
    Runs.Throughout (step codec) Released (start h) es ↔
      Runs.Along (step codec) (ExitsQuietly codec) (start h) es :=
  Runs.throughout_iff_along_of (fun _ _ hlife honce hexit => lifetime_step hlife ⟨honce,hexit⟩)
    (fun _ hlife => hlife.released) (fun _ _ _ _ hexit => released_fails hexit) (lifetime_start h)
    honce

theorem exited_latches_released (codec : PositionCodec) (h : FreshHandler n Callback Context)
    (es : List (LatchEvent n)) (hu : Runs.Along (step codec) (Undisturbed codec) (start h) es) :
    Runs.Throughout (step codec) Released (start h) es := by
  obtain ⟨honce,hexit⟩ := Runs.along_and.mp hu
  exact (released_iff codec h es honce).mpr hexit

section Exits

def timedOutCall : List (LatchEvent jointPair.dataCount) :=
  [.blocking ⟨0,.read 100,jointPairUnits.take 1⟩,.owner,.owner,.owner,
    .visit ⟨0,zero_lt_jointPair⟩ 0,.tick,.visit ⟨0,zero_lt_jointPair⟩ 100,.tick,.tick,.tick,.tick,
    .owner,.owner,.owner]

theorem timedOutCall_released :
    Runs.Throughout (step .raw) Released (start jointPairHandler) timedOutCall :=
  exited_latches_released .raw jointPairHandler timedOutCall (by decide)

-- The first joint has accepted when the second, busy one ends the call.
def abandonedCall : List (LatchEvent jointPair.dataCount) :=
  [.plain busyJoint,.blocking ⟨0,.read 100,jointPairUnits⟩,.owner,.owner,.owner,.owner]

theorem abandonedCall_dangles :
    ¬Runs.Throughout (step .raw) Released (start jointPairHandler) abandonedCall := by
  intro h
  exact absurd (Runs.throughout_last h) (by decide)

end Exits

end LatchSession

end WujiHand

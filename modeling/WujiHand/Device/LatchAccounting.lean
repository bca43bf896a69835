import WujiHand.Device.DataOperator
import WujiHand.Device.Latch

namespace WujiHand

open Completion

namespace LatchSession

variable {n : Nat} {codec : PositionCodec}

def Registered (l : LatchRef) (u : LatchUnit) : Prop :=
  u.callback = some .countDown ∧ u.callbackContext = .latch l

def Pending (l : LatchRef) (u : LatchUnit) : Prop := u.Busy ∧ Registered l u

instance (l : LatchRef) (u : LatchUnit) : Decidable (Registered l u) :=
  inferInstanceAs (Decidable (_ ∧ _))

instance (l : LatchRef) (u : LatchUnit) : Decidable (Pending l u) :=
  inferInstanceAs (Decidable (_ ∧ _))

def pendingCount (l : LatchRef) (h : Handler n Callback Context) : Nat :=
  Tally.tally (fun u => decide (Pending l u)) h.storage

def runningOn (l : LatchRef) : Option (CountDownPc × LatchRef) → Nat
  | some (.addError,l') | some (.subtract,l') => if l' = l then 1 else 0
  | _ => 0

def outstanding (l : LatchRef) (s : LatchSession n) : Nat :=
  pendingCount l s.handler + runningOn l s.counting

def raisedFor (l : LatchRef) : OwnerPc n → Nat
  | .raised l' _ _ => if l' = l then 1 else 0
  | _ => 0

def Balanced (l : LatchRef) (s : LatchSession n) : Prop :=
  (s.latches l).waitingCount = s.outstanding l + raisedFor l s.owner

def Tracked (s : LatchSession n) : Prop :=
  ∀ id now operation, s.visit = .rest id now operation →
    (operation.mode = .none → operation = ⟨.none,.success⟩) ∧
      (operation.mode ≠ .none → (s.handler.storage id).Busy)

def RestInvokesOnce (p : LatchUnit → Prop) (h : Handler n Callback Context) :
    Option (CountDownPc × LatchRef) → VisitPc n → Prop
  | none,.rest id now operation => p (h.storage id) →
    (StorageUnit.visitRest now operation (h.storage id)).invoked ≠ [] → (h.storage id).Busy
  | _,_ => True

instance (p : LatchUnit → Prop) [DecidablePred p] (h : Handler n Callback Context) :
    ∀ c v, Decidable (RestInvokesOnce p h c v)
  | none,.rest _ _ _ => inferInstanceAs (Decidable (_ → _ → _))
  | none,.done | some _,.done | some _,.rest _ _ _ => inferInstanceAs (Decidable True)

def InvokesOnce (p : LatchUnit → Prop) (s : LatchSession n) : LatchEvent n → Prop
  | .tick => RestInvokesOnce p s.handler s.counting s.visit
  | _ => True

instance (p : LatchUnit → Prop) [DecidablePred p] (s : LatchSession n) :
    ∀ e, Decidable (s.InvokesOnce p e)
  | .tick => inferInstanceAs (Decidable (RestInvokesOnce _ _ _ _))
  | .blocking _ | .async _ _ | .wait _ | .owner | .plain _ | .disableThreadSafeCheck | .visit _ _
  | .received _ _ => inferInstanceAs (Decidable True)

def Rejects (codec : PositionCodec) (l : LatchRef) (s : LatchSession n) (e : LatchEvent n) : Prop :=
  e = .owner ∧ ∃ b id what, s.owner = .raised l b id ∧
    s.handler.call codec ⟨b.caller,id,b.call.toUnitCall l⟩ = .error what

def SamePending (h h' : Handler n Callback Context) : Prop :=
  ∀ id, ((h.storage id).Busy → (h'.storage id).Busy) ∧
    ∀ l, Pending l (h'.storage id) ↔ Pending l (h.storage id)

theorem pendingCount_congr {h h' : Handler n Callback Context} (hs : SamePending h h')
    (l : LatchRef) : pendingCount l h' = pendingCount l h :=
  Tally.tally_congr fun id => decide_eq_decide.mpr ((hs id).2 l)

theorem pendingCount_setUnit (l : LatchRef) (h : Handler n Callback Context) (id : Fin n)
    (u : LatchUnit) :
    pendingCount l (h.setUnit id u) + (decide (Pending l (h.storage id))).toNat =
      pendingCount l h + (decide (Pending l u)).toNat :=
  Tally.tally_update _ h.storage id u

theorem samePending_setUnit {h : Handler n Callback Context} {id : Fin n} {u : LatchUnit}
    (hb : (h.storage id).Busy → u.Busy)
    (hp : ∀ l, Pending l u ↔ Pending l (h.storage id)) : SamePending h (h.setUnit id u) := by
  intro id'
  by_cases he : id' = id
  · subst he
    rw [Handler.setUnit_storage_self]
    exact ⟨hb,hp⟩
  · rw [Handler.setUnit_storage_of_ne h u he]
    exact ⟨fun hbusy => hbusy,fun _ => Iff.rfl⟩

theorem samePending_of_sameOperations {h h' : Handler n Callback Context}
    (hs : SameOperations h h') : SamePending h h' := by
  intro id
  refine ⟨(hs id).busy.mpr,fun l => ?_⟩
  rw [Pending, Pending, Registered, Registered, (hs id).busy, (hs id).2.1, (hs id).2.2]

theorem runningOn_invoke (l : LatchRef) (u : LatchUnit) (success : Bool) :
    runningOn l (startCounting (u.invoke success)) = (decide (Registered l u)).toNat := by
  obtain ⟨info,operation,version,value,timeout,callback,context⟩ := u
  cases callback with
  | none => simp [StorageUnit.invoke, startCounting, runningOn, Registered]
  | some callback =>
    cases callback with
    | user f => simp [StorageUnit.invoke, startCounting, Invocation.latch?, runningOn, Registered]
    | countDown =>
      cases context with
      | value bits =>
        simp [StorageUnit.invoke, startCounting, Invocation.latch?, runningOn, Registered]
      | latch l' =>
        by_cases he : l' = l
        · cases success <;>
            simp [StorageUnit.invoke, startCounting, Invocation.latch?, runningOn, Registered, he]
        · cases success <;>
            simp [StorageUnit.invoke, startCounting, Invocation.latch?, runningOn, Registered, he]

theorem pending_idle {l : LatchRef} {u : LatchUnit} (h : ¬u.Busy) : ¬Pending l u := fun hp => h hp.1

theorem call_rejected_busy {c : UnitCall Callback Context} {u u' : LatchUnit}
    (hc : u.call codec c = .ok u') (hb : u.Busy) :
    u'.Busy ∧ ∀ l, Pending l u' ↔ Pending l u := by
  have hs := call_busy hb hc
  refine ⟨hs.busy.mpr hb,fun l => ?_⟩
  rw [Pending, Pending, Registered, Registered, hs.busy, hs.2.1, hs.2.2]

theorem latchCall_ok {l : LatchRef} {c : LatchCall} {u u' : LatchUnit}
    (hc : u.call codec (c.toUnitCall l) = .ok u') :
    ¬u.Busy ∧ u'.Busy ∧ ∀ l', Registered l' u' ↔ l' = l := by
  have hs := StorageUnit.call_step codec (c.toUnitCall l) u
  rw [hc] at hs
  cases c with
  | read timeout =>
    cases hs with
    | accepted _ h =>
      refine ⟨h,Mode.noConfusion,fun l' => ?_⟩
      simp [Registered, StorageUnit.accept, LatchCall.toUnitCall, UnitCall.callback,
        UnitCall.context, eq_comm]
  | write data fill timeout =>
    cases hs with
    | accepted _ h =>
      refine ⟨h,Mode.noConfusion,fun l' => ?_⟩
      simp [Registered, StorageUnit.accept, LatchCall.toUnitCall, UnitCall.callback,
        UnitCall.context, eq_comm]

theorem plainCall_ok {c : UnitCall Callback Context} {u u' : LatchUnit}
    (hplain : c.callback ≠ some .countDown) (hc : u.call codec c = .ok u') :
    (u.Busy → u'.Busy) ∧ ∀ l, Pending l u' ↔ Pending l u := by
  by_cases hb : u.Busy
  · obtain ⟨hb',hp⟩ := call_rejected_busy hc hb
    exact ⟨fun _ => hb',hp⟩
  · refine ⟨fun hbusy => absurd hbusy hb,fun l => iff_of_false ?_ (pending_idle hb)⟩
    rw [StorageUnit.call_idle codec c hb] at hc
    obtain rfl := Except.ok.inj hc
    exact fun hp => hplain hp.2.1

theorem plain_samePending (codec : PositionCodec) (h : Handler n Callback Context)
    (c : PlainCall n) :
    SamePending h (h.step codec (.call c.call)) := by
  simp only [Handler.step]
  split
  · exact fun _ => ⟨fun hb => hb,fun _ => Iff.rfl⟩
  · rename_i h' hc
    obtain ⟨_,u,hu,rfl⟩ := Handler.call_ok hc
    obtain ⟨hb,hp⟩ := plainCall_ok c.plain hu
    exact samePending_setUnit hb hp

theorem received_samePending (codec : PositionCodec) (h : Handler n Callback Context)
    (bytes : List Byte) (fill : Nat → Buffer8) : SamePending h (h.step codec (.received bytes fill)) :=
  samePending_of_sameOperations (sameOperations_received bytes fill h)

theorem visitRest_cases (now : Int) {operation : Operation} {u : LatchUnit}
    (hdone : operation.mode = .none → operation = ⟨.none,.success⟩)
    (hbusy : operation.mode ≠ .none → u.Busy) :
    ((StorageUnit.visitRest now operation u).invoked = [] ∧
        (u.Busy → (StorageUnit.visitRest now operation u).unit.Busy) ∧
        ∀ l, Pending l (StorageUnit.visitRest now operation u).unit ↔ Pending l u) ∨
      ((StorageUnit.visitRest now operation u).invoked = u.invoke false ∧
        ¬(StorageUnit.visitRest now operation u).unit.Busy) := by
  have hkeep : ∀ {state : State} {timeout : Int}, operation.mode ≠ .none →
      ∀ l, Pending l { u with timeout := timeout, operation := ⟨operation.mode,state⟩ } ↔
        Pending l u := by
    intro state timeout hm l
    exact and_congr_left fun _ => iff_of_true hm (hbusy hm)
  by_cases hm : operation.mode = .none
  · rw [hdone hm, StorageUnit.visitRest_success]
    split
    · exact .inr ⟨rfl,fun hb => hb rfl⟩
    · exact .inl ⟨rfl,fun hb => hb,fun _ => Iff.rfl⟩
  · unfold StorageUnit.visitRest
    split
    · exact .inl ⟨rfl,fun _ => hm,hkeep hm⟩
    · split
      · exact .inr ⟨rfl,fun hb => hb rfl⟩
      · split
        · exact .inl ⟨rfl,fun hb => hb,fun _ => Iff.rfl⟩
        · split
          · exact .inl ⟨rfl,fun _ => hm,hkeep hm⟩
          · exact .inl ⟨rfl,fun hb => hb,fun _ => Iff.rfl⟩

theorem Tracked.mono {s s' : LatchSession n} (h : s.Tracked) (hv : s'.visit = s.visit)
    (hb : ∀ id, (s.handler.storage id).Busy → (s'.handler.storage id).Busy) : s'.Tracked := by
  intro id now operation hrest
  obtain ⟨hdone,hbusy⟩ := h id now operation (hv ▸ hrest)
  exact ⟨hdone,fun hm => hb id (hbusy hm)⟩

theorem tracked_visit {s : LatchSession n} (h : s.Tracked) (id : Fin n) (now : Int) :
    (s.visitUnit id now).Tracked := by
  unfold visitUnit
  split
  · split
    · exact h
    · rename_i hm
      by_cases hs : (s.handler.storage id).Masked ∨ (s.handler.storage id).operation.state = .success
      · rw [StorageUnit.visitSuccess_done hs]
        intro id' now' operation' hrest
        cases hrest
        exact ⟨fun _ => rfl,fun hne => absurd rfl hne⟩
      · obtain ⟨hmask,hs⟩ := not_or.mp hs
        rw [StorageUnit.visitSuccess_running hmask hs]
        intro id' now' operation' hrest
        cases hrest
        refine ⟨fun hnone => absurd hnone hm,fun _ => ?_⟩
        simpa only [Handler.setUnit_self] using hm
  · exact h

theorem tracked_tick {s : LatchSession n} (h : s.Tracked) : s.tickStep.Tracked := by
  unfold tickStep
  split
  · exact h
  · exact h
  · exact h
  · split
    · exact h
    · intro id now operation hrest
      cases hrest

theorem call_busy_mono {c : Call n Callback Context} {h h' : Handler n Callback Context}
    (hc : h.call codec c = .ok h') (id : Fin n) (hb : (h.storage id).Busy) :
    (h'.storage id).Busy := by
  obtain ⟨_,u,hu,rfl⟩ := Handler.call_ok hc
  by_cases he : id = c.id
  · subst he
    rw [Handler.setUnit_storage_self]
    exact (call_rejected_busy hu hb).1
  · rw [Handler.setUnit_storage_of_ne h u he]
    exact hb

theorem exit_fields (l : LatchRef) (s : LatchSession n) :
    (s.exit l).handler = s.handler ∧ (s.exit l).latches = s.latches ∧
      (s.exit l).counting = s.counting ∧ (s.exit l).visit = s.visit ∧ (s.exit l).owner = .idle := by
  cases l with
  | user k => exact ⟨rfl,rfl,rfl,rfl,rfl⟩
  | blocking k => exact ⟨rfl,rfl,rfl,rfl,rfl⟩

theorem tracked_owner {s : LatchSession n} (h : s.Tracked) : (s.ownerStep codec).Tracked := by
  unfold ownerStep
  split
  · exact h
  · split
    · split
      · exact h
      · exact h
    · exact h
  · rename_i l b id howner
    split
    · obtain ⟨hhandler,_,_,hvisit,_⟩ := s.exit_fields l
      exact h.mono hvisit (fun id hb => hhandler ▸ hb)
    · rename_i h' hc
      exact h.mono rfl (call_busy_mono hc)
  · split
    · exact h
    · exact h
  · exact h
  · rename_i l errors howner
    obtain ⟨hhandler,_,_,hvisit,_⟩ := s.exit_fields l
    exact h.mono hvisit (fun id hb => hhandler ▸ hb)

theorem tracked_step {s : LatchSession n} (h : s.Tracked) (e : LatchEvent n) :
    (s.step codec e).Tracked := by
  cases e with
  | blocking b =>
    simp only [step]
    split
    · exact h
    · exact h
  | async k b =>
    simp only [step]
    split
    · exact h
    · exact h
  | wait k =>
    simp only [step]
    split
    · exact h
    · exact h
  | owner => exact tracked_owner h
  | plain c => exact h.mono rfl fun id => (plain_samePending codec s.handler c id).1
  | disableThreadSafeCheck => exact h
  | visit id now => exact tracked_visit h id now
  | tick => exact tracked_tick h
  | received bytes fill => exact h.mono rfl fun id => (received_samePending codec s.handler bytes fill id).1

theorem addWaiting_waitingCount (l l' : LatchRef) (d : Int) (s : LatchSession n) :
    ((s.addWaiting l d).latches l').waitingCount =
      (s.latches l').waitingCount + if l' = l then d else 0 := by
  unfold addWaiting
  by_cases he : l' = l
  · subst he
    simp
  · simp [he]

theorem addWaiting_errorCount (l l' : LatchRef) (d : Int) (s : LatchSession n) :
    ((s.addWaiting l d).latches l').errorCount = (s.latches l').errorCount := by
  unfold addWaiting
  by_cases he : l' = l
  · subst he
    simp
  · simp [he]

theorem addError_errorCount (l l' : LatchRef) (s : LatchSession n) :
    ((s.addError l).latches l').errorCount =
      (s.latches l').errorCount + if l' = l then 1 else 0 := by
  unfold addError
  by_cases he : l' = l
  · subst he
    simp
  · simp [he]

theorem updateError_waitingCount (l l' : LatchRef) (errorCount : Int) (s : LatchSession n) :
    (Function.update s.latches l { s.latches l with errorCount := errorCount } l').waitingCount =
      (s.latches l').waitingCount := by
  by_cases he : l' = l
  · subst he
    rw [Function.update_self]
  · rw [Function.update_of_ne he]

theorem visitUnit_fields (id : Fin n) (now : Int) (s : LatchSession n) :
    (s.visitUnit id now).latches = s.latches ∧ (s.visitUnit id now).owner = s.owner ∧
      (s.visitUnit id now).begun = s.begun ∧ (s.visitUnit id now).exited = s.exited := by
  unfold visitUnit
  split
  · split
    · exact ⟨rfl,rfl,rfl,rfl⟩
    · exact ⟨rfl,rfl,rfl,rfl⟩
  · exact ⟨rfl,rfl,rfl,rfl⟩

theorem outstanding_visit (l : LatchRef) (id : Fin n) (now : Int) (s : LatchSession n) :
    (s.visitUnit id now).outstanding l = s.outstanding l := by
  unfold visitUnit
  split
  · rename_i hcounting hvisit
    split
    · rfl
    · rename_i hm
      have hbusy : (s.handler.storage id).Busy := hm
      by_cases hs : (s.handler.storage id).Masked ∨ (s.handler.storage id).operation.state = .success
      · rw [StorageUnit.visitSuccess_done hs]
        have hcount := pendingCount_setUnit l s.handler id
          { s.handler.storage id with operation := ⟨.none,.success⟩ }
        have hgone : ¬Pending l { s.handler.storage id with operation := ⟨.none,.success⟩ } :=
          pending_idle fun hb => hb rfl
        have hpending : decide (Pending l (s.handler.storage id)) =
            decide (Registered l (s.handler.storage id)) :=
          decide_eq_decide.mpr (and_iff_right hbusy)
        simp only [outstanding, runningOn_invoke, hcounting]
        rw [hpending, decide_eq_false hgone] at hcount
        simp only [Bool.toNat_false, runningOn] at hcount ⊢
        omega
      · obtain ⟨hmask,hs⟩ := not_or.mp hs
        rw [StorageUnit.visitSuccess_running hmask hs]
        simp only [outstanding, Handler.setUnit_self, hcounting, startCounting]
  · rfl

theorem outstanding_rest {l : LatchRef} {p : LatchUnit → Prop} (hl : ∀ u, Registered l u → p u)
    {s : LatchSession n} (h : s.Tracked) (honce : s.InvokesOnce p .tick)
    (hcounting : s.counting = none) {id : Fin n} {now : Int} {operation : Operation}
    (hvisit : s.visit = .rest id now operation) :
    s.tickStep.outstanding l = s.outstanding l := by
  obtain ⟨hdone,hbusy⟩ := h id now operation hvisit
  have honce' : p (s.handler.storage id) →
      (StorageUnit.visitRest now operation (s.handler.storage id)).invoked ≠ [] →
      (s.handler.storage id).Busy := by
    simpa only [InvokesOnce, hcounting, hvisit, RestInvokesOnce] using honce
  have hcount := pendingCount_setUnit l s.handler id
    (StorageUnit.visitRest now operation (s.handler.storage id)).unit
  simp only [outstanding, tickStep, hcounting, hvisit]
  rcases visitRest_cases now hdone hbusy with ⟨hinvoked,_,hpending⟩ | ⟨hinvoked,hended⟩
  · rw [decide_eq_decide.mpr (hpending l)] at hcount
    rw [hinvoked]
    simp only [startCounting, runningOn]
    omega
  · rw [hinvoked, runningOn_invoke]
    rw [hinvoked] at honce'
    rw [decide_eq_false (pending_idle hended)] at hcount
    have hregistered : decide (Pending l (s.handler.storage id)) =
        decide (Registered l (s.handler.storage id)) := by
      refine decide_eq_decide.mpr ⟨And.right,fun hr => ⟨honce' (hl _ hr) ?_,hr⟩⟩
      rw [StorageUnit.invoke, hr.1]
      exact List.cons_ne_nil _ _
    rw [hregistered] at hcount
    simp only [Bool.toNat_false, runningOn] at hcount ⊢
    omega

theorem runningOn_after (l l' : LatchRef) (p : Prop) [Decidable p] :
    runningOn l (if p then some (.notify,l') else none) = 0 := by
  split
  · rfl
  · rfl

theorem balanced_tick {l : LatchRef} {p : LatchUnit → Prop} (hl : ∀ u, Registered l u → p u)
    {s : LatchSession n} (h : s.Tracked) (honce : s.InvokesOnce p .tick) (hb : s.Balanced l) : s.tickStep.Balanced l := by
  cases hcounting : s.counting with
  | some c =>
    obtain ⟨pc,l'⟩ := c
    cases pc with
    | addError =>
      simp only [Balanced, outstanding, tickStep, hcounting, addError, runningOn,
        updateError_waitingCount] at hb ⊢
      exact hb
    | subtract =>
      simp only [Balanced, outstanding, hcounting, runningOn] at hb
      simp only [Balanced, outstanding, tickStep, hcounting, addWaiting_waitingCount,
        runningOn_after]
      change _ = ((pendingCount l s.handler + 0 : Nat) : Int) + raisedFor l s.owner
      by_cases he : l' = l
      · rw [if_pos he] at hb
        rw [if_pos he.symm]
        omega
      · rw [if_neg he] at hb
        rw [if_neg (Ne.symm he)]
        omega
    | notify =>
      simp only [Balanced, outstanding, tickStep, hcounting, runningOn] at hb ⊢
      exact hb
  | none =>
    cases hvisit : s.visit with
    | done =>
      simp only [tickStep, hcounting, hvisit]
      exact hb
    | rest id now operation =>
      have hsame := outstanding_rest hl h honce hcounting hvisit
      rw [Balanced, hsame]
      simp only [tickStep, hcounting, hvisit]
      exact hb

theorem outstanding_accepted {l : LatchRef} {s : LatchSession n} {b : BulkCall n} {id : Fin n}
    {h : Handler n Callback Context}
    (hc : s.handler.call codec ⟨b.caller,id,b.call.toUnitCall l⟩ = .ok h) (l' : LatchRef) :
    pendingCount l' h = pendingCount l' s.handler + if l' = l then 1 else 0 := by
  obtain ⟨_,u,hu,rfl⟩ := Handler.call_ok hc
  obtain ⟨hidle,hb,hregistered⟩ := latchCall_ok hu
  have hcount := pendingCount_setUnit l' s.handler id u
  have hpending : decide (Pending l' u) = decide (l' = l) :=
    decide_eq_decide.mpr ((and_iff_right hb).trans (hregistered l'))
  rw [hpending, decide_eq_false (pending_idle hidle)] at hcount
  by_cases he : l' = l
  · simp only [he, decide_true, Bool.toNat_true, Bool.toNat_false, if_true] at hcount ⊢
    omega
  · simp only [he, decide_false, Bool.toNat_false, if_false] at hcount ⊢
    omega

theorem balanced_exit {l : LatchRef} {s : LatchSession n} (l' : LatchRef) (hb : s.Balanced l)
    (hnone : raisedFor l s.owner = 0) : (s.exit l').Balanced l := by
  obtain ⟨hhandler,hlatches,hcounting,_,hidle⟩ := s.exit_fields l'
  rw [Balanced, hnone] at hb
  rw [Balanced, outstanding, hhandler, hlatches, hcounting, hidle]
  exact hb

theorem balanced_owner {l : LatchRef} {s : LatchSession n} (hb : s.Balanced l)
    (hr : ¬Rejects codec l s .owner) : (s.ownerStep codec).Balanced l := by
  cases howner : s.owner with
  | idle =>
    simp only [ownerStep, howner]
    exact hb
  | iterating l' b =>
    simp only [Balanced, howner, raisedFor] at hb
    cases hids : b.ids with
    | nil =>
      simp only [ownerStep, howner, hids]
      cases l' with
      | user k => exact hb
      | blocking k => exact hb
    | cons id ids =>
      simp only [Balanced, ownerStep, howner, hids, addWaiting_waitingCount, raisedFor]
      change _ = ((s.outstanding l : Nat) : Int) + _
      by_cases he : l' = l
      · rw [if_pos he, if_pos he.symm]
        omega
      · rw [if_neg he, if_neg (Ne.symm he)]
        omega
  | raised l' b id =>
    cases hc : s.handler.call codec ⟨b.caller,id,b.call.toUnitCall l'⟩ with
    | error what =>
      have he : l' ≠ l := by
        rintro rfl
        exact hr ⟨rfl,b,id,what,howner,hc⟩
      simp only [ownerStep, howner, hc]
      exact balanced_exit l' hb (by rw [howner, raisedFor, if_neg he])
    | ok h =>
      simp only [Balanced, howner, raisedFor] at hb
      have hcount := outstanding_accepted hc l
      simp only [outstanding] at hb
      simp only [Balanced, outstanding, ownerStep, howner, hc, raisedFor, hcount]
      by_cases he : l' = l
      · rw [if_pos he] at hb
        rw [if_pos he.symm]
        omega
      · rw [if_neg he] at hb
        rw [if_neg (Ne.symm he)]
        omega
  | waiting l' =>
    simp only [Balanced, howner, raisedFor] at hb
    simp only [ownerStep, howner]
    split
    · exact hb
    · rw [Balanced, howner]
      exact hb
  | loaded l' =>
    simp only [Balanced, howner, raisedFor] at hb
    simp only [Balanced, ownerStep, howner, updateError_waitingCount, raisedFor]
    exact hb
  | leaving l' errors =>
    simp only [ownerStep, howner]
    exact balanced_exit l' hb (congrArg (raisedFor l) howner)

theorem balanced_begin {l : LatchRef} {s : LatchSession n} (hb : s.Balanced l)
    (howner : s.owner = .idle) (e : LatchEvent n) : (s.begin e).Balanced l := by
  have hbegin : (s.begin e).outstanding l = s.outstanding l ∧
      raisedFor l (s.begin e).owner = raisedFor l s.owner ∧ (s.begin e).latches = s.latches := by
    rw [howner]
    cases e with
    | blocking b => exact ⟨rfl,rfl,rfl⟩
    | async k b => exact ⟨rfl,rfl,rfl⟩
    | wait k => exact ⟨rfl,rfl,rfl⟩
    | _ => exact ⟨rfl,howner ▸ rfl,rfl⟩
  obtain ⟨houtstanding,hraised,hlatches⟩ := hbegin
  rw [Balanced, houtstanding, hraised, hlatches]
  exact hb

theorem balanced_samePending {l : LatchRef} {s : LatchSession n} {h : Handler n Callback Context}
    (hb : s.Balanced l) (hs : SamePending s.handler h) :
    Balanced l { s with handler := h } := by
  simp only [Balanced, outstanding, pendingCount_congr hs l]
  exact hb

theorem balanced_step {l : LatchRef} {p : LatchUnit → Prop} (hl : ∀ u, Registered l u → p u)
    {s : LatchSession n} {e : LatchEvent n} (h : s.Tracked) (hb : s.Balanced l)
    (honce : s.InvokesOnce p e) (hr : ¬Rejects codec l s e) :
    (s.step codec e).Balanced l := by
  cases e with
  | blocking b =>
    simp only [step]
    split
    · rename_i howner
      exact balanced_begin hb howner _
    · exact hb
  | async k b =>
    simp only [step]
    split
    · rename_i howner
      exact balanced_begin hb howner _
    · exact hb
  | wait k =>
    simp only [step]
    split
    · rename_i howner
      exact balanced_begin hb howner _
    · exact hb
  | owner => exact balanced_owner hb hr
  | plain c => exact balanced_samePending hb (plain_samePending codec s.handler c)
  | disableThreadSafeCheck => exact hb
  | visit id now =>
    obtain ⟨hlatches,howner,_⟩ := s.visitUnit_fields id now
    have hcount : (s.visitUnit id now).Balanced l := by
      rw [Balanced, outstanding_visit, hlatches, howner]
      exact hb
    exact hcount
  | tick => exact balanced_tick hl h honce hb
  | received bytes fill =>
    exact balanced_samePending hb (received_samePending codec s.handler bytes fill)

def Accounted (s : LatchSession n) : Prop :=
  ∀ l, raisedFor l s.owner = 0 → (s.latches l).waitingCount = s.outstanding l

def AcceptsAll (codec : PositionCodec) (s : LatchSession n) (e : LatchEvent n) : Prop :=
  ∀ l, ¬Rejects codec l s e

theorem outstanding_start (h : FreshHandler n Callback Context) (l : LatchRef) :
    (start h).outstanding l = 0 := by
  have hidle : pendingCount l h.handler = 0 := by
    refine Tally.tally_eq_zero.mpr fun id => decide_eq_false (pending_idle ?_)
    rw [StorageUnit.Busy, h.idle id]
    exact fun hb => hb rfl
  simp only [outstanding, start, hidle, runningOn]

theorem balanced_start (h : FreshHandler n Callback Context) (l : LatchRef) :
    (start h).Balanced l := by
  rw [Balanced, outstanding_start]
  rfl

theorem tracked_start (h : FreshHandler n Callback Context) : (start h).Tracked := by
  intro id now operation hrest
  cases hrest

theorem accounted_fails {s : LatchSession n} {e : LatchEvent n} (hb : ∀ l, s.Balanced l)
    (hr : ¬AcceptsAll codec s e) : ¬(s.step codec e).Accounted := by
  obtain ⟨l,hr⟩ := not_forall_not.mp hr
  obtain ⟨rfl,b,id,what,howner,hc⟩ := hr
  have hcount := hb l
  obtain ⟨hhandler,hlatches,hcounting,_,hidle⟩ := s.exit_fields l
  simp only [Balanced, howner, raisedFor, if_true] at hcount
  intro haccounted
  have hstep : s.step codec .owner = s.exit l := by simp only [step, ownerStep, howner, hc]
  rw [hstep] at haccounted
  have hequal := haccounted l (by rw [hidle]; rfl)
  simp only [outstanding, hhandler, hlatches, hcounting] at hequal hcount
  omega

theorem waiting_count_iff (codec : PositionCodec) (h : FreshHandler n Callback Context)
    (es : List (LatchEvent n))
    (honce : Runs.Along (step codec) (InvokesOnce fun _ => True) (start h) es) :
    Runs.Throughout (step codec) Accounted (start h) es ↔
      Runs.Along (step codec) (AcceptsAll codec) (start h) es := by
  refine Runs.throughout_iff_along_of (Q := fun s => s.Tracked ∧ ∀ l, s.Balanced l) ?_ ?_ ?_
    ⟨tracked_start h,balanced_start h⟩ honce
  · rintro s e ⟨ht,hb⟩ honce haccepts
    exact ⟨tracked_step ht e,fun l => balanced_step (fun _ _ => trivial) ht (hb l) honce (haccepts l)⟩
  · rintro s ⟨_,hb⟩ l hraised
    simpa only [Balanced, hraised, Nat.cast_zero, Int.add_zero] using hb l
  · rintro s e ⟨_,hb⟩ _ haccepts
    exact accounted_fails hb haccepts

theorem runningOn_le (l : LatchRef) (c : Option (CountDownPc × LatchRef)) : runningOn l c ≤ 1 := by
  unfold runningOn
  split
  · split <;> decide
  · split <;> decide
  · decide

theorem raisedFor_le (l : LatchRef) (owner : OwnerPc n) : raisedFor l owner ≤ 1 := by
  unfold raisedFor
  split
  · split <;> decide
  · decide

theorem balanced_bounds {l : LatchRef} {s : LatchSession n} (hb : s.Balanced l) :
    0 ≤ (s.latches l).waitingCount ∧ (s.latches l).waitingCount ≤ n + 2 := by
  have hpending : pendingCount l s.handler ≤ n := Tally.tally_le _ _
  have hrunning := runningOn_le l s.counting
  have hraised := raisedFor_le l s.owner
  rw [Balanced, outstanding] at hb
  omega

theorem errorCount_owner (codec : PositionCodec) (s : LatchSession n) (l : LatchRef) :
    ((s.ownerStep codec).latches l).errorCount = (s.latches l).errorCount ∨
      ((s.ownerStep codec).latches l).errorCount = 0 := by
  cases howner : s.owner with
  | idle =>
    refine .inl ?_
    simp only [ownerStep, howner]
  | iterating l' b =>
    simp only [ownerStep, howner]
    cases b.ids with
    | nil =>
      cases l' with
      | user k => exact .inl rfl
      | blocking k => exact .inl rfl
    | cons id ids => exact .inl (addWaiting_errorCount l' l 1 s)
  | raised l' b id =>
    simp only [ownerStep, howner]
    split
    · exact .inl (congrArg (fun latches => (latches l).errorCount) (s.exit_fields l').2.1)
    · exact .inl rfl
  | waiting l' =>
    refine .inl ?_
    simp only [ownerStep, howner]
    split
    · rfl
    · rfl
  | loaded l' =>
    simp only [ownerStep, howner]
    by_cases he : l = l'
    · subst he
      rw [Function.update_self]
      exact .inr rfl
    · rw [Function.update_of_ne he]
      exact .inl rfl
  | leaving l' errors =>
    simp only [ownerStep, howner]
    exact .inl (congrArg (fun latches => (latches l).errorCount) (s.exit_fields l').2.1)

theorem errorCount_tick (s : LatchSession n) (l : LatchRef) :
    (s.tickStep.latches l).errorCount = (s.latches l).errorCount ∨
      (s.tickStep.latches l).errorCount = (s.latches l).errorCount + 1 := by
  unfold tickStep
  split
  · rename_i l' _
    have hcount := addError_errorCount l' l s
    by_cases he : l = l'
    · rw [if_pos he] at hcount
      exact .inr hcount
    · rw [if_neg he, Int.add_zero] at hcount
      exact .inl hcount
  · exact .inl (addWaiting_errorCount ..)
  · exact .inl rfl
  · split
    · exact .inl rfl
    · exact .inl rfl

theorem errorCount_step (codec : PositionCodec) (s : LatchSession n) (e : LatchEvent n)
    (l : LatchRef) (h : 0 ≤ (s.latches l).errorCount) :
    0 ≤ ((s.step codec e).latches l).errorCount ∧
      ((s.step codec e).latches l).errorCount ≤ (s.latches l).errorCount + 1 := by
  have hkept : ∀ s' : LatchSession n, s'.latches = s.latches →
      0 ≤ (s'.latches l).errorCount ∧
        (s'.latches l).errorCount ≤ (s.latches l).errorCount + 1 := by
    intro s' hs'
    rw [hs']
    omega
  cases e with
  | blocking b =>
    simp only [step]
    split <;> exact hkept _ rfl
  | async k b =>
    simp only [step]
    split <;> exact hkept _ rfl
  | wait k =>
    simp only [step]
    split <;> exact hkept _ rfl
  | owner =>
    have howner := errorCount_owner codec s l
    simp only [step]
    omega
  | plain c => exact hkept _ rfl
  | disableThreadSafeCheck => exact hkept _ rfl
  | visit id now => exact hkept _ (s.visitUnit_fields id now).1
  | tick =>
    have htick := errorCount_tick s l
    simp only [step]
    omega
  | received bytes fill => exact hkept _ rfl

theorem errorCount_run (codec : PositionCodec) {s : LatchSession n} {l : LatchRef}
    (h : 0 ≤ (s.latches l).errorCount) (es : List (LatchEvent n)) :
    0 ≤ ((Runs.run (step codec) s es).latches l).errorCount ∧
      ((Runs.run (step codec) s es).latches l).errorCount ≤ (s.latches l).errorCount + es.length := by
  induction es generalizing s with
  | nil => exact ⟨h,by simp⟩
  | cons e es ih =>
    obtain ⟨hnonneg,hle⟩ := errorCount_step codec s e l h
    obtain ⟨hnonneg',hle'⟩ := ih hnonneg
    rw [Runs.run_cons, List.length_cons]
    exact ⟨hnonneg',by push_cast; omega⟩

-- Both atomics are of 32 bits, which these counts never leave.
theorem counters_fit (codec : PositionCodec) (h : FreshHandler n Callback Context)
    {es : List (LatchEvent n)}
    (honce : Runs.Along (step codec) (InvokesOnce fun _ => True) (start h) es)
    (haccepts : Runs.Along (step codec) (AcceptsAll codec) (start h) es) (hn : n + 2 < 2 ^ 31)
    (hes : es.length < 2 ^ 31) (l : LatchRef) :
    let latch := (Runs.run (step codec) (start h) es).latches l
    (BitVec.ofInt 32 latch.waitingCount).toInt = latch.waitingCount ∧
      (BitVec.ofInt 32 latch.errorCount).toInt = latch.errorCount := by
  have hinvariant : Runs.Throughout (step codec) (fun s => s.Tracked ∧ ∀ l, s.Balanced l)
      (start h) es := by
    refine Runs.throughout_invariant ?_ ⟨tracked_start h,balanced_start h⟩
      (Runs.along_and.mpr ⟨honce,haccepts⟩)
    rintro s e ⟨ht,hb⟩ ⟨honce,haccepts⟩
    exact ⟨tracked_step ht e,
      fun l => balanced_step (fun _ _ => trivial) ht (hb l) honce (haccepts l)⟩
  obtain ⟨hlow,hhigh⟩ := balanced_bounds ((Runs.throughout_last hinvariant).2 l)
  obtain ⟨hnonneg,hle⟩ := errorCount_run codec (s := start h) (l := l) (le_refl 0) es
  have hstart : ((start h).latches l).errorCount = 0 := rfl
  rw [hstart] at hle
  exact ⟨BitVec.toInt_ofInt_eq_self (by decide) (by omega) (by omega),
    BitVec.toInt_ofInt_eq_self (by decide) (by omega) (by omega)⟩

theorem wait_returns {s : LatchSession n} {l : LatchRef} (h : s.Accounted)
    (howner : s.owner = .waiting l) (hfinished : s.outstanding l = 0) :
    (s.step codec .owner).owner = .loaded l := by
  have hcount := h l (by rw [howner]; rfl)
  rw [hfinished] at hcount
  simp only [step, ownerStep, howner, hcount, Nat.cast_zero, if_true]

section Rejected

def jointPair : Operator :=
  .node [] 2 (fun indexOffset j => indexOffset + BitVec.ofNat 16 (j * 0x100))
    (.leaf [readOnlyData 0x0B 9 4])

def jointPairUnits : List (Fin jointPair.dataCount) :=
  jointPair.units 0 1 0 (by decide) (by decide)

def jointPairHandler : FreshHandler jointPair.dataCount Callback Context :=
  jointPair.construct 0 0 (fun _ => .blank (.make 4 0 0 0) (.value 0)) fun _ _ => 0

theorem zero_lt_jointPair : 0 < jointPair.dataCount := by decide

theorem one_lt_jointPair : 1 < jointPair.dataCount := by decide

def busyJoint : PlainCall jointPair.dataCount :=
  ⟨⟨0,⟨1,one_lt_jointPair⟩,.readAsyncUnchecked 100⟩,by decide⟩

-- The second joint is busy, so the bulk call ends halfway; the first joint's read times out later.
def rejectedCall : List (LatchEvent jointPair.dataCount) :=
  [.plain busyJoint,.async 0 ⟨0,.read 100,jointPairUnits⟩,.owner,.owner,.owner,.owner,
    .visit ⟨0,zero_lt_jointPair⟩ 0,.tick,.visit ⟨0,zero_lt_jointPair⟩ 100,.tick,.tick,.tick]

theorem rejectedCall_accounts :
    Runs.Throughout (step .raw) Accounted (start jointPairHandler) rejectedCall ↔
      Runs.Along (step .raw) (AcceptsAll .raw) (start jointPairHandler) rejectedCall :=
  waiting_count_iff .raw jointPairHandler rejectedCall (by decide)

theorem rejectedCall_miscounts :
    ¬Runs.Throughout (step .raw) Accounted (start jointPairHandler) rejectedCall := by
  intro h
  have hlast := Runs.throughout_last h (.user 0) (by decide)
  exact absurd hlast (by decide)

end Rejected

end LatchSession

end WujiHand

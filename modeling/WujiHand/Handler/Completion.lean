import WujiHand.Handler.System

namespace WujiHand.Completion

variable {n : Nat} {Fn Ctx : Type}

structure Ticket (Fn Ctx : Type) where
  number : Nat
  callback : Option Fn
  context : Ctx

structure Ledger (n : Nat) (Fn Ctx : Type) where
  handler : Handler n Fn Ctx
  accepted : Nat
  running : Fin n → Option (Ticket Fn Ctx)
  invoked : List (Nat × Invocation Fn Ctx)

namespace Ledger

def start (s : FreshHandler n Fn Ctx) : Ledger n Fn Ctx := ⟨s.handler,0,fun _ => none,[]⟩

def issue (l : Ledger n Fn Ctx) (c : Call n Fn Ctx) : Ticket Fn Ctx :=
  ⟨l.accepted,c.op.callback,c.op.context (l.handler.storage c.id).callbackContext⟩

def enroll (l : Ledger n Fn Ctx) (c : Call n Fn Ctx) (h : Handler n Fn Ctx) : Ledger n Fn Ctx :=
  { l with
    handler := h, accepted := l.accepted + 1,
    running := Function.update l.running c.id (some (l.issue c)) }

def step (codec : PositionCodec) (l : Ledger n Fn Ctx) (e : Event n Fn Ctx) : Ledger n Fn Ctx :=
  match e with
  | .call c =>
    match l.handler.call codec c with
    | .error _ => l
    | .ok h =>
      if (l.handler.storage c.id).Busy then { l with handler := h } else l.enroll c h
  | .visit id now =>
    { l with
      handler := l.handler.afterVisit id now,
      invoked := l.invoked ++
        match l.running id with
        | none => []
        | some t => (l.handler.visit id now).invoked.map fun i => (t.number,i) }
  | e => { l with handler := l.handler.step codec e }

theorem enroll_running_self (l : Ledger n Fn Ctx) (c : Call n Fn Ctx) (h : Handler n Fn Ctx) :
    (l.enroll c h).running c.id = some (l.issue c) := Function.update_self ..

theorem enroll_running_of_ne (l : Ledger n Fn Ctx) {c : Call n Fn Ctx} (h : Handler n Fn Ctx)
    {id : Fin n} (hne : id ≠ c.id) : (l.enroll c h).running id = l.running id :=
  Function.update_of_ne hne ..

end Ledger

def Verdict (u : StorageUnit Fn Ctx) : Prop := u.Masked ∨ u.operation.state = .success

instance (u : StorageUnit Fn Ctx) : Decidable (Verdict u) :=
  inferInstanceAs (Decidable (_ ∨ _))

def Ends (u u' : StorageUnit Fn Ctx) : Prop := u.Busy ∧ ¬u'.Busy

instance (u u' : StorageUnit Fn Ctx) : Decidable (Ends u u') :=
  inferInstanceAs (Decidable (_ ∧ _))

def owed (t : Option (Ticket Fn Ctx)) (u u' : StorageUnit Fn Ctx) : List (Invocation Fn Ctx) :=
  match t with
  | none => []
  | some t =>
    match t.callback with
    | none => []
    | some callback => if Ends u u' then [⟨callback,t.context,decide (Verdict u)⟩] else []

def PaysExactly (l : Ledger n Fn Ctx) (e : Event n Fn Ctx) : Prop :=
  ∀ id now, e = .visit id now →
    (l.handler.visit id now).invoked =
      owed (l.running id) (l.handler.storage id) (l.handler.visit id now).unit

def NoticedInTime (l : Ledger n Fn Ctx) (e : Event n Fn Ctx) : Prop :=
  ∀ id now, e = .visit id now →
    (l.handler.storage id).Busy → (l.handler.storage id).callback ≠ none →
    Verdict (l.handler.storage id) → now < (l.handler.storage id).timeoutPoint

def CompletesExactlyOnce (codec : PositionCodec) (s : FreshHandler n Fn Ctx)
    (es : List (Event n Fn Ctx)) : Prop :=
  Runs.Along (Ledger.step codec) PaysExactly (Ledger.start s) es ∧
    ((Runs.run (Ledger.step codec) (Ledger.start s) es).invoked.map Prod.fst).Nodup

structure Ticketed (l : Ledger n Fn Ctx) : Prop where
  holds : ∀ id, (l.handler.storage id).Busy → ∃ t, l.running id = some t ∧
    t.callback = (l.handler.storage id).callback ∧
    t.context = (l.handler.storage id).callbackContext
  issued : ∀ id t, l.running id = some t → t.number < l.accepted
  distinct : ∀ id id' t t', l.running id = some t → l.running id' = some t' →
    t.number = t'.number → id = id'

structure Unpaid (l : Ledger n Fn Ctx) : Prop where
  nodup : (l.invoked.map Prod.fst).Nodup
  issued : ∀ k ∈ l.invoked.map Prod.fst, k < l.accepted
  owed : ∀ id t, (l.handler.storage id).Busy → l.running id = some t →
    t.number ∉ l.invoked.map Prod.fst

def SameOperation (u u' : StorageUnit Fn Ctx) : Prop :=
  u'.operation.mode = u.operation.mode ∧ u'.callback = u.callback ∧
    u'.callbackContext = u.callbackContext

def SameOperations (h h' : Handler n Fn Ctx) : Prop :=
  ∀ id, SameOperation (h.storage id) (h'.storage id)

theorem SameOperation.busy {u u' : StorageUnit Fn Ctx} (h : SameOperation u u') :
    u'.Busy ↔ u.Busy := by
  simp only [StorageUnit.Busy, h.1]

theorem sameOperation_readSuccess (size : Size) (value : BitVec size.bits) (fill : Buffer8)
    (u : StorageUnit Fn Ctx) : SameOperation u (u.readSuccess size value fill) := by
  have hs := u.readSuccess_step size value fill
  generalize u.readSuccess size value fill = u' at hs ⊢
  cases hs <;> exact ⟨rfl,rfl,rfl⟩

theorem sameOperation_writeSuccess (u : StorageUnit Fn Ctx) : SameOperation u u.writeSuccess := by
  have hs := u.writeSuccess_step
  generalize u.writeSuccess = u' at hs ⊢
  cases hs <;> exact ⟨rfl,rfl,rfl⟩

theorem sameOperations_setUnit {h₀ h : Handler n Fn Ctx} {id : Fin n} {u : StorageUnit Fn Ctx}
    (hs : SameOperations h₀ h) (hu : SameOperation (h.storage id) u) :
    SameOperations h₀ (h.setUnit id u) := by
  intro id'
  by_cases he : id' = id
  · subst he
    obtain ⟨hm,hc,hx⟩ := hs id'
    rw [Handler.setUnit_storage_self]
    exact ⟨hu.1.trans hm,hu.2.1.trans hc,hu.2.2.trans hx⟩
  · rw [Handler.setUnit_storage_of_ne h u he]
    exact hs id'

theorem sameOperations_received (bytes : List Byte) (fill : Nat → Buffer8) (h : Handler n Fn Ctx) :
    SameOperations h (h.receiveTransferCompletedCallback bytes fill).1 := by
  refine Handler.received_preserves (P := SameOperations h) ?_ (fun h' r hp => hp)
    (fun _ => ⟨rfl,rfl,rfl⟩)
  intro fill h' r h'' hp hr
  rcases Handler.applyResult_ok hr with
    rfl | ⟨size,_,_,value,id,_,_,rfl⟩ | ⟨_,_,id,_,_,rfl⟩
  · exact hp
  · exact sameOperations_setUnit hp (sameOperation_readSuccess size value fill _)
  · exact sameOperations_setUnit hp (sameOperation_writeSuccess _)

theorem call_busy {codec : PositionCodec} {c : UnitCall Fn Ctx} {u u' : StorageUnit Fn Ctx}
    (hb : u.Busy) (hc : u.call codec c = .ok u') : SameOperation u u' := by
  have hs := StorageUnit.call_step codec c u
  rw [hc] at hs
  cases hs with
  | accepted _ h => exact absurd hb h
  | ignored => exact ⟨rfl,rfl,rfl⟩
  | replaced => exact ⟨rfl,rfl,rfl⟩

theorem visit_keeps (now : Int) (u : StorageUnit Fn Ctx) :
    (u.tickVisit now).unit.callback = u.callback ∧
      (u.tickVisit now).unit.callbackContext = u.callbackContext ∧
      ((u.tickVisit now).unit.Busy → u.Busy) := by
  have hs := StorageUnit.visit_step now u
  generalize u.tickVisit now = v at hs
  cases hs with
  | idle h => exact ⟨rfl,rfl,fun hb => hb⟩
  | completed h => exact ⟨rfl,rfl,fun _ => h⟩
  | completedLate h => exact ⟨rfl,rfl,fun _ => h⟩
  | started h => exact ⟨rfl,rfl,fun _ => h⟩
  | expired h => exact ⟨rfl,rfl,fun _ => h⟩
  | polled h => exact ⟨rfl,rfl,fun _ => h⟩
  | transmitted h => exact ⟨rfl,rfl,fun _ => h⟩

theorem ticketed_start (s : FreshHandler n Fn Ctx) : Ticketed (Ledger.start s) where
  holds := by
    intro id hb
    have hi := s.idle id
    simp [Ledger.start, StorageUnit.Busy, hi] at hb
  issued := by
    intro id t ht
    cases ht
  distinct := by
    intro id id' t t' ht
    cases ht

theorem ticketed_keep {l l' : Ledger n Fn Ctx} (h : Ticketed l)
    (hacc : l'.accepted = l.accepted) (hrun : l'.running = l.running)
    (hunit : ∀ id, (l'.handler.storage id).Busy → (l.handler.storage id).Busy ∧
      (l'.handler.storage id).callback = (l.handler.storage id).callback ∧
      (l'.handler.storage id).callbackContext = (l.handler.storage id).callbackContext) :
    Ticketed l' where
  holds := by
    intro id hb
    obtain ⟨hb',hc,hx⟩ := hunit id hb
    obtain ⟨t,ht,htc,htx⟩ := h.holds id hb'
    exact ⟨t,by rw [hrun, ht],htc.trans hc.symm,htx.trans hx.symm⟩
  issued := by
    intro id t ht
    rw [hrun] at ht
    rw [hacc]
    exact h.issued id t ht
  distinct := by
    intro id id' t t' ht ht'
    rw [hrun] at ht ht'
    exact h.distinct id id' t t' ht ht'

theorem keep_of_same {h h' : Handler n Fn Ctx} (hs : SameOperations h h') (id : Fin n)
    (hb : (h'.storage id).Busy) : (h.storage id).Busy ∧
      (h'.storage id).callback = (h.storage id).callback ∧
      (h'.storage id).callbackContext = (h.storage id).callbackContext :=
  ⟨(hs id).busy.mp hb,(hs id).2.1,(hs id).2.2⟩

theorem keep_of_visit (h : Handler n Fn Ctx) (id : Fin n) (now : Int) (id' : Fin n)
    (hb : ((h.afterVisit id now).storage id').Busy) : (h.storage id').Busy ∧
      ((h.afterVisit id now).storage id').callback = (h.storage id').callback ∧
      ((h.afterVisit id now).storage id').callbackContext = (h.storage id').callbackContext := by
  by_cases he : id' = id
  · subst he
    rw [Handler.afterVisit, Handler.setUnit_storage_self] at hb ⊢
    obtain ⟨hc,hx,hbusy⟩ := visit_keeps now (h.storage id')
    exact ⟨hbusy hb,hc,hx⟩
  · rw [Handler.afterVisit, Handler.setUnit_storage_of_ne _ _ he] at hb ⊢
    exact ⟨hb,rfl,rfl⟩

theorem ticketed_issue {codec : PositionCodec} {l : Ledger n Fn Ctx} {c : Call n Fn Ctx}
    {u : StorageUnit Fn Ctx} (h : Ticketed l) (hb : ¬(l.handler.storage c.id).Busy)
    (hu : (l.handler.storage c.id).call codec c.op = .ok u) :
    Ticketed (l.enroll c (l.handler.setUnit c.id u)) where
  holds := by
    intro id hbusy
    change ((l.handler.setUnit c.id u).storage id).Busy at hbusy
    change ∃ t : Ticket Fn Ctx, _ ∧ t.callback = ((l.handler.setUnit c.id u).storage id).callback ∧
      t.context = ((l.handler.setUnit c.id u).storage id).callbackContext
    by_cases he : id = c.id
    · subst he
      rw [StorageUnit.call_idle codec c.op hb] at hu
      obtain rfl := Except.ok.inj hu
      refine ⟨l.issue c,l.enroll_running_self c _,?_⟩
      rw [Handler.setUnit_storage_self]
      exact ⟨rfl,rfl⟩
    · rw [Handler.setUnit_storage_of_ne _ _ he] at hbusy ⊢
      rw [l.enroll_running_of_ne _ he]
      exact h.holds id hbusy
  issued := by
    intro id t ht
    by_cases he : id = c.id
    · subst he
      rw [l.enroll_running_self] at ht
      obtain rfl := Option.some.inj ht
      exact Nat.lt_succ_self _
    · rw [l.enroll_running_of_ne _ he] at ht
      exact Nat.lt_succ_of_lt (h.issued id t ht)
  distinct := by
    intro id id' t t' ht ht' hn
    by_cases he : id = c.id <;> by_cases he' : id' = c.id
    · rw [he, he']
    · subst he
      rw [l.enroll_running_self] at ht
      rw [l.enroll_running_of_ne _ he'] at ht'
      obtain rfl := Option.some.inj ht
      exact absurd hn (h.issued id' t' ht').ne'
    · subst he'
      rw [l.enroll_running_self] at ht'
      rw [l.enroll_running_of_ne _ he] at ht
      obtain rfl := Option.some.inj ht'
      exact absurd hn (h.issued id t ht).ne
    · rw [l.enroll_running_of_ne _ he] at ht
      rw [l.enroll_running_of_ne _ he'] at ht'
      exact h.distinct id id' t t' ht ht' hn

theorem ticketed_step (codec : PositionCodec) (l : Ledger n Fn Ctx) (e : Event n Fn Ctx)
    (h : Ticketed l) : Ticketed (l.step codec e) := by
  cases e with
  | call c =>
    simp only [Ledger.step]
    split
    · exact h
    · rename_i h' hc
      obtain ⟨_,u,hu,rfl⟩ := Handler.call_ok hc
      split
      · rename_i hb
        exact ticketed_keep h rfl rfl
          (keep_of_same (sameOperations_setUnit (fun _ => ⟨rfl,rfl,rfl⟩) (call_busy hb hu)))
      · rename_i hb
        exact ticketed_issue h hb hu
  | visit id now => exact ticketed_keep h rfl rfl (keep_of_visit l.handler id now)
  | received bytes fill =>
    exact ticketed_keep h rfl rfl (keep_of_same (sameOperations_received bytes fill l.handler))
  | disableThreadSafeCheck => exact ticketed_keep h rfl rfl (fun id hb => ⟨hb,rfl,rfl⟩)

theorem owed_eq_invoke {l : Ledger n Fn Ctx} (h : Ticketed l) (id : Fin n)
    (u' : StorageUnit Fn Ctx) :
    owed (l.running id) (l.handler.storage id) u' =
      if Ends (l.handler.storage id) u' then
        (l.handler.storage id).invoke (decide (Verdict (l.handler.storage id)))
      else [] := by
  by_cases hb : (l.handler.storage id).Busy
  · obtain ⟨t,ht,hc,hx⟩ := h.holds id hb
    simp only [owed, ht, hc, hx, StorageUnit.invoke]
    cases (l.handler.storage id).callback <;> simp
  · have hn : ¬Ends (l.handler.storage id) u' := fun he => hb he.1
    simp only [owed, if_neg hn]
    cases l.running id with
    | none => rfl
    | some t => dsimp only; cases t.callback <;> rfl

theorem invoke_twice_ne {u : StorageUnit Fn Ctx} {success : Bool} (hc : u.callback ≠ none) :
    u.invoke true ++ u.invoke false ≠ u.invoke success := by
  intro h
  have hlen := congrArg List.length h
  obtain ⟨callback,hcb⟩ := Option.ne_none_iff_exists'.mp hc
  simp [StorageUnit.invoke, hcb] at hlen

theorem paysExactly_iff {l : Ledger n Fn Ctx} (h : Ticketed l) (e : Event n Fn Ctx) :
    NoticedInTime l e ↔ PaysExactly l e := by
  cases e with
  | call c => exact ⟨fun _ id now he => (by cases he),fun _ id now he => (by cases he)⟩
  | received bytes fill =>
    exact ⟨fun _ id now he => (by cases he),fun _ id now he => (by cases he)⟩
  | disableThreadSafeCheck =>
    exact ⟨fun _ id now he => (by cases he),fun _ id now he => (by cases he)⟩
  | visit id now =>
    suffices hvisit : ((l.handler.storage id).Busy → (l.handler.storage id).callback ≠ none →
        Verdict (l.handler.storage id) → now < (l.handler.storage id).timeoutPoint) ↔
        (l.handler.visit id now).invoked =
          owed (l.running id) (l.handler.storage id) (l.handler.visit id now).unit by
      constructor
      · intro hc id' now' he
        cases he
        exact hvisit.mp (hc id now rfl)
      · intro hd id' now' he
        cases he
        exact hvisit.mpr (hd id now rfl)
    rw [owed_eq_invoke h, Handler.visit]
    have hs := StorageUnit.visit_step now (l.handler.storage id)
    generalize (l.handler.storage id).tickVisit now = v at hs ⊢
    cases hs with
    | idle hb => simp [Ends, hb]
    | completed hb hv hn =>
      have hverdict : Verdict (l.handler.storage id) := hv
      simp [Ends, StorageUnit.Busy, hverdict, hn]
      exact fun h => absurd h hb
    | completedLate hb hv hn =>
      have hverdict : Verdict (l.handler.storage id) := hv
      have hends : Ends (l.handler.storage id)
          { l.handler.storage id with operation := ⟨.none,.success⟩ } := ⟨hb,fun h => h rfl⟩
      rw [if_pos hends]
      constructor
      · intro hc
        by_cases hcb : (l.handler.storage id).callback = none
        · simp [StorageUnit.invoke, hcb]
        · exact absurd (hc hb hcb hverdict) (not_lt.mpr hn)
      · intro heq _ hcb _
        exact absurd heq (invoke_twice_ne hcb)
    | started hb hm hw =>
      have hverdict : ¬Verdict (l.handler.storage id) := by simp [Verdict, hm, hw]
      simp [Ends, hverdict, StorageUnit.Busy]
    | expired hb hm hw hst hn =>
      have hverdict : ¬Verdict (l.handler.storage id) := by simp [Verdict, hm, hst]
      simp [Ends, StorageUnit.Busy, hverdict]
      exact fun h => absurd h hb
    | polled hb hm hst hn =>
      have hverdict : ¬Verdict (l.handler.storage id) := by
        rcases hst with hst | hst <;> simp [Verdict, hm, hst]
      simp [Ends, hverdict]
    | transmitted hb hm hst hn =>
      have hverdict : ¬Verdict (l.handler.storage id) := by simp [Verdict, hm, hst]
      simp [Ends, hverdict, StorageUnit.Busy]

theorem unpaid_start (s : FreshHandler n Fn Ctx) : Unpaid (Ledger.start s) where
  nodup := List.nodup_nil
  issued := by
    intro k hk
    cases hk
  owed := by
    intro id t _ ht
    cases ht

theorem unpaid_keep {l l' : Ledger n Fn Ctx} (h : Unpaid l) (hinv : l'.invoked = l.invoked)
    (hacc : l'.accepted = l.accepted) (hrun : l'.running = l.running)
    (hunit : ∀ id, (l'.handler.storage id).Busy → (l.handler.storage id).Busy) : Unpaid l' where
  nodup := by rw [hinv]; exact h.nodup
  issued := by rw [hinv, hacc]; exact h.issued
  owed := by
    intro id t hb ht
    rw [hrun] at ht
    rw [hinv]
    exact h.owed id t (hunit id hb) ht

theorem unpaid_enroll {l : Ledger n Fn Ctx} {c : Call n Fn Ctx} (u : StorageUnit Fn Ctx)
    (h : Unpaid l) : Unpaid (l.enroll c (l.handler.setUnit c.id u)) where
  nodup := h.nodup
  issued := fun k hk => Nat.lt_succ_of_lt (h.issued k hk)
  owed := by
    intro id t hb ht hmem
    by_cases he : id = c.id
    · subst he
      rw [l.enroll_running_self] at ht
      obtain rfl := Option.some.inj ht
      exact lt_irrefl _ (h.issued _ hmem)
    · rw [l.enroll_running_of_ne _ he] at ht
      change ((l.handler.setUnit c.id u).storage id).Busy at hb
      rw [Handler.setUnit_storage_of_ne _ _ he] at hb
      exact h.owed id t hb ht hmem

theorem unpaid_visit {codec : PositionCodec} {l : Ledger n Fn Ctx} {id : Fin n} {now : Int}
    (ht : Ticketed l) (h : Unpaid l) (hp : PaysExactly l (.visit id now)) :
    Unpaid (l.step codec (.visit id now)) := by
  have hkeep := keep_of_visit l.handler id now
  have hpay := hp id now rfl
  cases hr : l.running id with
  | none =>
    exact unpaid_keep h (by simp only [Ledger.step, hr, List.append_nil]) rfl rfl
      (fun id' hb => (hkeep id' hb).1)
  | some t =>
    by_cases he : Ends (l.handler.storage id) (l.handler.visit id now).unit ∧ t.callback ≠ none
    · obtain ⟨hends,hcb⟩ := he
      obtain ⟨callback,hcb⟩ := Option.ne_none_iff_exists'.mp hcb
      simp only [owed, hr, hcb, if_pos hends] at hpay
      have hfresh := h.owed id t hends.1 hr
      have hinv : (l.step codec (.visit id now)).invoked.map Prod.fst =
          l.invoked.map Prod.fst ++ [t.number] := by
        simp only [Ledger.step, hr, hpay, List.map_append, List.map_cons, List.map_nil]
      refine ⟨?_,?_,?_⟩
      · rw [hinv]
        exact List.nodup_append.mpr ⟨h.nodup,List.nodup_singleton _,fun a ha b hb hab =>
          hfresh (List.mem_singleton.mp hb ▸ hab ▸ ha)⟩
      · intro k hk
        rw [hinv, List.mem_append, List.mem_singleton] at hk
        rcases hk with hk | rfl
        · exact h.issued k hk
        · exact ht.issued id t hr
      · intro id' t' hb hr' hmem
        rw [hinv, List.mem_append, List.mem_singleton] at hmem
        rcases hmem with hmem | hn
        · exact h.owed id' t' (hkeep id' hb).1 hr' hmem
        · obtain rfl := ht.distinct id' id t' t hr' hr hn
          change ((l.handler.afterVisit id' now).storage id').Busy at hb
          rw [Handler.afterVisit, Handler.setUnit_storage_self] at hb
          exact hends.2 hb
    · have hnil : (l.handler.visit id now).invoked = [] := by
        rw [hpay]
        cases hcb : t.callback with
        | none => simp only [owed, hr, hcb]
        | some callback =>
          have hne : ¬Ends (l.handler.storage id) (l.handler.visit id now).unit := fun hends =>
            he ⟨hends,by rw [hcb]; exact Option.some_ne_none _⟩
          simp only [owed, hr, hcb, if_neg hne]
      exact unpaid_keep h (by simp only [Ledger.step, hr, hnil, List.map_nil, List.append_nil])
        rfl rfl (fun id' hb => (hkeep id' hb).1)

theorem unpaid_step (codec : PositionCodec) {l : Ledger n Fn Ctx} (e : Event n Fn Ctx)
    (ht : Ticketed l) (h : Unpaid l) (hp : PaysExactly l e) : Unpaid (l.step codec e) := by
  cases e with
  | call c =>
    simp only [Ledger.step]
    split
    · exact h
    · rename_i h' hc
      obtain ⟨_,u,hu,rfl⟩ := Handler.call_ok hc
      split
      · rename_i hb
        exact unpaid_keep h rfl rfl rfl fun id hb' =>
          (keep_of_same (sameOperations_setUnit (fun _ => ⟨rfl,rfl,rfl⟩) (call_busy hb hu)) id hb').1
      · exact unpaid_enroll u h
  | visit id now => exact unpaid_visit ht h hp
  | received bytes fill =>
    exact unpaid_keep h rfl rfl rfl fun id hb =>
      (keep_of_same (sameOperations_received bytes fill l.handler) id hb).1
  | disableThreadSafeCheck => exact unpaid_keep h rfl rfl rfl (fun _ hb => hb)

theorem callbacks_exactly_once_iff (codec : PositionCodec) (s : FreshHandler n Fn Ctx)
    (es : List (Event n Fn Ctx)) :
    CompletesExactlyOnce codec s es ↔
      Runs.Along (Ledger.step codec) NoticedInTime (Ledger.start s) es := by
  have hcongr : Runs.Along (Ledger.step codec) NoticedInTime (Ledger.start s) es ↔
      Runs.Along (Ledger.step codec) PaysExactly (Ledger.start s) es :=
    Runs.along_congr (ticketed_step codec) (fun l e h => paysExactly_iff h e) (ticketed_start s)
  constructor
  · rintro ⟨hpay,_⟩
    exact hcongr.mpr hpay
  · intro hin
    have hpay := hcongr.mp hin
    have hall := Runs.throughout_invariant (P := fun l => Ticketed l ∧ Unpaid l)
      (fun l e h hp => ⟨ticketed_step codec l e h.1,unpaid_step codec e h.1 h.2 hp⟩)
      ⟨ticketed_start s,unpaid_start s⟩ hpay
    exact ⟨hpay,(Runs.throughout_last hall).2.nodup⟩

section LateSuccess

open FreshHandler (only)

def oneFresh : FreshHandler 1 Nat Nat := .single (.make 4 0x64 0 0) 0

def readResponse : List Byte :=
  { description := 0, type := sdoFrame : Header }.encode ++
    (SdoResult.readSuccess .four 0x64 0 7).encode

-- The answer arrives before the deadline of 10, the visit that notices it does not.
def lateSuccess : List (Event 1 Nat Nat) :=
  [.call ⟨0,only,.readAsync 10 (some 1) 2⟩,.visit only 0,.visit only 5,
    .received readResponse (fun _ => 0),.visit only 10]

theorem lateSuccess_calls_back_twice : ¬CompletesExactlyOnce .raw oneFresh lateSuccess := by
  rintro ⟨_,hnodup⟩
  have hlog : (Runs.run (Ledger.step .raw) (Ledger.start oneFresh) lateSuccess).invoked =
      [(0,⟨1,2,true⟩),(0,⟨1,2,false⟩)] := by decide
  rw [hlog] at hnodup
  exact absurd hnodup (by decide)

end LateSuccess

end WujiHand.Completion

import WujiHand.Handler.ReceiveExact
import WujiHand.Library.Runs

namespace WujiHand

inductive Event (n : Nat) (Fn Ctx : Type) where
  | call (c : Call n Fn Ctx)
  | visit (id : Fin n) (now : Int)
  | received (bytes : List Byte) (fill : Nat → Buffer8)
  | disableThreadSafeCheck

-- The handler as construction leaves it: registered units, none of them running an operation.
structure FreshHandler (n : Nat) (Fn Ctx : Type) where
  handler : Handler n Fn Ctx
  idle : ∀ id, (handler.storage id).operation = ⟨.none,.success⟩

namespace FreshHandler

variable {Fn Ctx : Type}

def only : Fin 1 := 0

def singleHandler (info : StorageInfo) (context : Ctx) : Handler 1 Fn Ctx :=
  Handler.initStorageInfo
    { storage := fun _ => StorageUnit.blank info context, indexStorageMap := fun _ => none,
      operationThreadId := some 0, pdoReadResult := fun _ _ => 0, pdoReadResultVersion := 0 } only info

def single (info : StorageInfo) (context : Ctx) : FreshHandler 1 Fn Ctx where
  handler := singleHandler info context
  idle := by
    intro id
    obtain rfl := Fin.eq_zero id
    rfl

end FreshHandler

inductive UnitUpdate {Fn Ctx : Type} (codec : PositionCodec) (u : StorageUnit Fn Ctx) :
    StorageUnit Fn Ctx → Prop
  | kept : UnitUpdate codec u u
  | called (c : UnitCall Fn Ctx) {u' : StorageUnit Fn Ctx} (h : u.call codec c = .ok u') :
      UnitUpdate codec u u'
  | visited (now : Int) : UnitUpdate codec u (u.tickVisit now).unit
  | readSuccess (size : Size) (value : BitVec size.bits) (fill : Buffer8) :
      UnitUpdate codec u (u.readSuccess size value fill)
  | writeSuccess : UnitUpdate codec u u.writeSuccess

namespace Handler

variable {n : Nat} {Fn Ctx : Type}

def step (codec : PositionCodec) (h : Handler n Fn Ctx) : Event n Fn Ctx → Handler n Fn Ctx
  | .call c =>
    match h.call codec c with
    | .error _ => h
    | .ok h => h
  | .visit id now => h.afterVisit id now
  | .received bytes fill => (h.receiveTransferCompletedCallback bytes fill).1
  | .disableThreadSafeCheck => h.disableThreadSafeCheck

theorem call_ok {codec : PositionCodec} {h h' : Handler n Fn Ctx} {c : Call n Fn Ctx}
    (hc : h.call codec c = .ok h') :
    h.operationThreadCheck c.caller = true ∧
      ∃ u, (h.storage c.id).call codec c.op = .ok u ∧ h' = h.setUnit c.id u := by
  unfold call at hc
  split at hc
  · rename_i ht
    refine ⟨ht,?_⟩
    cases hu : (h.storage c.id).call codec c.op with
    | error e => rw [hu] at hc; cases hc
    | ok u => rw [hu] at hc; exact ⟨u,rfl,(Except.ok.inj hc).symm⟩
  · cases hc

theorem applyResult_ok {fill : Buffer8} {h h' : Handler n Fn Ctx} {r : SdoResult}
    (hr : h.applyResult fill r = .ok h') :
    h' = h ∨
      (∃ size index subIndex value id, r = .readSuccess size index subIndex value ∧
        h.findStorageByIndex index subIndex = some id ∧
        h' = h.setUnit id ((h.storage id).readSuccess size value fill)) ∨
      ∃ index subIndex id, r = .writeSuccess index subIndex ∧
        h.findStorageByIndex index subIndex = some id ∧
        h' = h.setUnit id (h.storage id).writeSuccess := by
  cases r with
  | readSuccess size index subIndex value =>
    simp only [applyResult] at hr
    split at hr
    · cases hr
    · rename_i id hid
      exact .inr (.inl ⟨size,index,subIndex,value,id,rfl,hid,(Except.ok.inj hr).symm⟩)
  | readError => exact .inl (Except.ok.inj hr).symm
  | writeSuccess index subIndex =>
    simp only [applyResult] at hr
    split at hr
    · cases hr
    · rename_i id hid
      exact .inr (.inr ⟨index,subIndex,id,rfl,hid,(Except.ok.inj hr).symm⟩)
  | writeError => exact .inl (Except.ok.inj hr).symm

theorem parseOutcome_preserves {P : Handler n Fn Ctx → Prop} {fill : Nat → Buffer8}
    (hr : ∀ fill h r h', P h → h.applyResult fill r = .ok h' → P h')
    {pointer : Nat} {rs : List SdoResult} {rest : List Byte} {h : Handler n Fn Ctx} (hp : P h) :
    P (parseOutcome fill pointer rs rest h).1 := by
  have hall : P (applyResults fill pointer rs h).1 := by
    induction rs generalizing pointer h with
    | nil => exact hp
    | cons r rs ih =>
      simp only [applyResults]
      cases ha : h.applyResult (fill pointer) r with
      | error e => exact hp
      | ok h' => exact ih (hr _ h r h' hp ha)
  unfold parseOutcome
  split <;> rename_i heq <;> rw [heq] at hall <;> exact hall

theorem received_preserves {P : Handler n Fn Ctx → Prop}
    (hr : ∀ fill h r h', P h → h.applyResult fill r = .ok h' → P h')
    (hpdo : ∀ h r, P h → P (h.withCommandResult r))
    {bytes : List Byte} {fill : Nat → Buffer8} {h : Handler n Fn Ctx} (hp : P h) :
    P (h.receiveTransferCompletedCallback bytes fill).1 := by
  by_cases hlt : bytes.length < Header.size
  · rw [receive_short fill h hlt]
    exact hp
  · have hlen : (bytes.take Header.size).length = Header.size := by
      rw [List.length_take]
      omega
    rw [← List.take_append_drop Header.size bytes]
    by_cases hs : (bytes.take Header.size).getD Header.typeOffset 0 = sdoFrame
    · obtain ⟨p,⟨hbody,hrest⟩,_⟩ := body_decomposes (bytes.drop Header.size)
      rw [hbody, receive_sdo fill h hlen hs hrest]
      exact parseOutcome_preserves hr hp
    · by_cases hpt : (bytes.take Header.size).getD Header.typeOffset 0 = pdoFrame
      · by_cases hex : ∃ (r : Pdo.CommandResult) (tail : List Byte),
            bytes.drop Header.size = r.encode ++ tail ∧ r.readExecuted = 1
        · obtain ⟨r,tail,hbody,hexec⟩ := hex
          rw [hbody, receive_pdo tail fill h hlen hpt hexec]
          exact hpdo h r hp
        · rw [receive_pdo_other fill h hlen hpt hex]
          exact hp
      · rw [receive_other _ fill h hlen hs hpt]
        exact hp

theorem unit_info (codec : PositionCodec) {u u' : StorageUnit Fn Ctx}
    (h : UnitUpdate codec u u') : u'.info = u.info := by
  cases h with
  | kept => rfl
  | called c hc =>
    have hs := StorageUnit.call_step codec c u
    rw [hc] at hs
    cases hs <;> rfl
  | visited now =>
    have hs := StorageUnit.visit_step now u
    generalize u.tickVisit now = v at hs ⊢
    cases hs <;> rfl
  | readSuccess size value fill =>
    have hs := StorageUnit.readSuccess_step size value fill u
    generalize u.readSuccess size value fill = u' at hs ⊢
    cases hs <;> rfl
  | writeSuccess =>
    have hs := StorageUnit.writeSuccess_step u
    generalize u.writeSuccess = u' at hs ⊢
    cases hs <;> rfl

def SameLayout (h h' : Handler n Fn Ctx) : Prop :=
  h'.indexStorageMap = h.indexStorageMap ∧ ∀ id, (h'.storage id).info = (h.storage id).info

theorem sameLayout_setUnit {h₀ h : Handler n Fn Ctx} {id : Fin n} {u : StorageUnit Fn Ctx}
    (hs : h₀.SameLayout h) (hu : u.info = (h.storage id).info) : h₀.SameLayout (h.setUnit id u) := by
  refine ⟨hs.1,?_⟩
  intro id'
  by_cases he : id' = id
  · subst he
    rw [setUnit_storage_self, hu]
    exact hs.2 id'
  · rw [setUnit_storage_of_ne h u he]
    exact hs.2 id'

theorem step_sameLayout (codec : PositionCodec) {h₀ h : Handler n Fn Ctx} (e : Event n Fn Ctx)
    (hs : h₀.SameLayout h) : h₀.SameLayout (h.step codec e) := by
  cases e with
  | call c =>
    simp only [step]
    split
    · exact hs
    · rename_i h' hc
      obtain ⟨_,u,hu,rfl⟩ := call_ok hc
      exact sameLayout_setUnit hs (unit_info codec (.called c.op hu))
  | visit id now => exact sameLayout_setUnit hs (unit_info codec (.visited now))
  | received bytes fill =>
    refine received_preserves ?_ (fun h r hp => hp) hs
    intro fill h r h' hp hr
    rcases applyResult_ok hr with rfl | ⟨size,_,_,value,id,_,_,rfl⟩ | ⟨_,_,id,_,_,rfl⟩
    · exact hp
    · exact sameLayout_setUnit hp (unit_info codec (.readSuccess size value fill))
    · exact sameLayout_setUnit hp (unit_info codec .writeSuccess)
  | disableThreadSafeCheck => exact hs

theorem run_sameLayout (codec : PositionCodec) (h : Handler n Fn Ctx) (es : List (Event n Fn Ctx)) :
    h.SameLayout (Runs.run (step codec) h es) :=
  Runs.run_invariant (fun _ e hs => step_sameLayout codec e hs) ⟨rfl,fun _ => rfl⟩

end Handler

end WujiHand

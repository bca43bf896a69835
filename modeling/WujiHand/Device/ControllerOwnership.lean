import WujiHand.Device.EnableRestore
import WujiHand.Library.Runs

namespace WujiHand

namespace HandState

variable {memory : JointId → Bool} {s : HandState}

theorem enablePhase_ok {r : EnableReplies} (memory : JointId → Bool) :
    (s.enablePhase r memory).2 = .ok () ↔ Succeeds true r.toggle r.batch r.revert s.flags :=
  bracketed_ok

theorem attach_ok {controller : Nat} {r : AttachReplies} :
    (s.attachRealtimeController (some controller) r memory).2 = .ok () ↔
      Succeeds false r.toggle r.batch r.revert s.flags ∧ s.realtimeController = none := by
  have hphase : (bracketed (saveAndDisableJoints r.toggle memory) r.batch
      (revertDisabledJoints r.revert) s.flags).2 = .ok () ↔
        Succeeds false r.toggle r.batch r.revert s.flags :=
    bracketed_ok
  rw [← hphase, attachRealtimeController]
  split
  · rename_i heq
    rw [heq]
    exact ⟨nofun,fun h => absurd h.1 nofun⟩
  · rename_i heq
    rw [heq, handlerAttach]
    cases s.realtimeController with
    | none => exact ⟨fun _ => ⟨rfl,rfl⟩,fun _ => rfl⟩
    | some => exact ⟨nofun,fun h => absurd h.2 nofun⟩

theorem attach_attached {controller : Nat} {r : AttachReplies}
    (h : (s.attachRealtimeController (some controller) r memory).2 = .ok ()) :
    (s.attachRealtimeController (some controller) r memory).1.realtimeController =
        some controller ∧
      (s.attachRealtimeController (some controller) r memory).1.realtimeControllerThread =
        some controller := by
  have hnone := (attach_ok.mp h).2
  revert h
  unfold attachRealtimeController
  dsimp only
  split
  · exact nofun
  · rw [handlerAttach, hnone]
    exact fun _ => ⟨rfl,rfl⟩

theorem attach_error {controller : Nat} {r : AttachReplies} {what : String}
    (h : (s.attachRealtimeController (some controller) r memory).2 = .error what) :
    (s.attachRealtimeController (some controller) r memory).1.realtimeController =
      s.realtimeController := by
  revert h
  unfold attachRealtimeController
  dsimp only
  split
  · exact fun _ => rfl
  · unfold handlerAttach
    split
    · exact fun _ => rfl
    · exact nofun

theorem detach_released {controller : Nat} {r : DetachReplies}
    (h : (s.detachRealtimeController r memory).2 = .ok controller) :
    s.realtimeController = some controller ∧
      (s.detachRealtimeController r memory).1.realtimeController = none ∧
      (s.detachRealtimeController r memory).1.realtimeControllerThread = none := by
  revert h
  unfold detachRealtimeController
  split
  · exact nofun
  · unfold handlerDetach
    dsimp only
    cases s.realtimeController with
    | none => exact nofun
    | some controller' => exact fun h => ⟨congrArg some (Except.ok.inj h),rfl,rfl⟩

end HandState

structure CallReplies where
  enable : EnableReplies
  attach : AttachReplies
  unwind : DetachReplies
  memory : Fin 3 → JointId → Bool

inductive OwnershipEvent where
  | call (r : CallReplies)
  | move (k : Nat)
  | destroy (k : Nat) (r : DetachReplies) (memory : JointId → Bool)

structure Ownership where
  hand : HandState
  operators : List (Option Nat)
  nextController : Nat

namespace Ownership

def start (flags : EnabledFlags) : Ownership := ⟨⟨flags,none,none⟩,[],0⟩

-- The operator is built before the attach, so its destructor runs when the attach throws; what the
-- destructor throws then is not caught.
def realtimeController (r : CallReplies) (s : Ownership) : Option (Ownership × Except String Unit) :=
  match s.hand.enablePhase r.enable (r.memory 0) with
  | (hand,.error what) => some ({ s with hand := hand },.error what)
  | (hand,.ok ()) =>
    let controller := s.nextController
    match hand.attachRealtimeController (some controller) r.attach (r.memory 1) with
    | (hand,.ok ()) =>
      some (⟨hand,s.operators ++ [some controller],s.nextController + 1⟩,.ok ())
    | (hand,.error what) =>
      match hand.detachRealtimeController r.unwind (r.memory 2) with
      | (_,.error _) => none
      | (hand,.ok _) => some (⟨hand,s.operators,s.nextController + 1⟩,.error what)

def moveOperator (k : Nat) (s : Ownership) : Ownership :=
  match s.operators[k]? with
  | none => s
  | some controller => { s with operators := s.operators.set k none ++ [controller] }

def destroyOperator (k : Nat) (r : DetachReplies) (memory : JointId → Bool) (s : Ownership) :
    Option Ownership :=
  match s.operators[k]? with
  | none => some s
  | some none => some { s with operators := s.operators.eraseIdx k }
  | some (some _) =>
    match s.hand.detachRealtimeController r memory with
    | (_,.error _) => none
    | (hand,.ok _) => some { s with hand := hand, operators := s.operators.eraseIdx k }

-- Nothing follows an exception that escapes a destructor.
def step (s : Option Ownership) (e : OwnershipEvent) : Option Ownership :=
  s.bind fun s =>
    match e with
    | .call r => (s.realtimeController r).map Prod.fst
    | .move k => some (s.moveOperator k)
    | .destroy k r memory => s.destroyOperator k r memory

def held (s : Ownership) : List Nat := s.operators.filterMap id

structure Owned (s : Ownership) : Prop where
  held : s.held = s.hand.realtimeController.toList
  thread : s.hand.realtimeControllerThread = s.hand.realtimeController

structure SameControllers (s s' : Ownership) : Prop where
  owner : s'.hand.realtimeController = s.hand.realtimeController
  thread : s'.hand.realtimeControllerThread = s.hand.realtimeControllerThread
  operators : s'.operators = s.operators

def FailsCleanly (s : Option Ownership) (e : OwnershipEvent) : Prop :=
  ∀ s₀ ∈ s, ∀ r, e = .call r →
    ∃ s' result, s₀.realtimeController r = some (s',result) ∧
      (result ≠ .ok () → s₀.SameControllers s')

def CallSafe (s : Option Ownership) (e : OwnershipEvent) : Prop :=
  ∀ s₀ ∈ s, ∀ r, e = .call r →
    Succeeds true r.enable.toggle r.enable.batch r.enable.revert s₀.hand.flags →
      s₀.hand.realtimeController = none ∧
        Succeeds false r.attach.toggle r.attach.batch r.attach.revert s₀.hand.flags

variable {s : Ownership}

theorem held_set_none (l : List (Option Nat)) (k : Nat) :
    (l.set k none).filterMap id = (l.eraseIdx k).filterMap id := by
  induction l generalizing k with
  | nil => rfl
  | cons q l ih =>
    cases k with
    | zero => rfl
    | succ k =>
      rw [List.set_cons_succ, List.eraseIdx_cons_succ, List.filterMap_cons, List.filterMap_cons, ih]

theorem held_eraseIdx {l : List (Option Nat)} {k : Nat} {p : Option Nat} (h : l[k]? = some p) :
    ((l.eraseIdx k).filterMap id ++ p.toList).Perm (l.filterMap id) := by
  induction l generalizing k with
  | nil => cases h
  | cons q l ih =>
    cases k with
    | zero =>
      obtain rfl := Option.some.inj h
      cases q with
      | none => simp
      | some c => simp
    | succ k =>
      rw [List.eraseIdx_cons_succ]
      cases q with
      | none => exact ih h
      | some c => exact (ih h).cons c

theorem perm_toList {l : List Nat} {controller : Option Nat} (h : l.Perm controller.toList) :
    l = controller.toList := by
  cases controller with
  | none => exact h.eq_nil
  | some c => exact List.perm_singleton.mp h

theorem start_owned (flags : EnabledFlags) : (start flags).Owned := ⟨rfl,rfl⟩

theorem moveOperator_owned (k : Nat) (h : s.Owned) : (s.moveOperator k).Owned := by
  unfold moveOperator
  split
  · exact h
  · rename_i p hp
    refine ⟨perm_toList ?_,h.thread⟩
    rw [← h.held, held, List.filterMap_append, held_set_none]
    cases p with
    | none => exact held_eraseIdx hp
    | some c => exact held_eraseIdx hp

theorem destroyOperator_owned {k : Nat} {r : DetachReplies} {memory : JointId → Bool}
    {s' : Ownership} (h : s.Owned) (hs : s.destroyOperator k r memory = some s') : s'.Owned := by
  unfold destroyOperator at hs
  split at hs
  · obtain rfl := Option.some.inj hs
    exact h
  · rename_i hp
    obtain rfl := Option.some.inj hs
    refine ⟨perm_toList ?_,h.thread⟩
    have hheld := held_eraseIdx hp
    rw [Option.toList_none, List.append_nil] at hheld
    exact hheld.trans (.of_eq h.held)
  · rename_i c hp
    split at hs
    · cases hs
    · rename_i hand c' hdetach
      obtain rfl := Option.some.inj hs
      have hok := congrArg Prod.snd hdetach
      obtain ⟨howner,hnone,hthread⟩ := HandState.detach_released hok
      rw [hdetach] at hnone hthread
      have hheld := held_eraseIdx hp
      have howned := h.held
      rw [howner] at howned
      refine ⟨?_,hthread.trans hnone.symm⟩
      change (s.operators.eraseIdx k).filterMap id = hand.realtimeController.toList
      rw [hnone]
      have hlength := hheld.length_eq
      rw [show s.operators.filterMap id = [c'] from howned, List.length_append] at hlength
      exact List.eq_nil_of_length_eq_zero (Nat.succ.inj hlength)

section Calls

variable {r : CallReplies} {what : String}

theorem call_refused (h : (s.hand.enablePhase r.enable (r.memory 0)).2 = .error what) :
    s.realtimeController r =
      some ({ s with hand := (s.hand.enablePhase r.enable (r.memory 0)).1 },.error what) := by
  unfold realtimeController
  rw [← Prod.mk.eta (p := s.hand.enablePhase r.enable (r.memory 0)), h]

variable (henable : (s.hand.enablePhase r.enable (r.memory 0)).2 = .ok ())

include henable

theorem call_returns
    (h : ((s.hand.enablePhase r.enable (r.memory 0)).1.attachRealtimeController
      (some s.nextController) r.attach (r.memory 1)).2 = .ok ()) :
    s.realtimeController r =
      some (⟨((s.hand.enablePhase r.enable (r.memory 0)).1.attachRealtimeController
          (some s.nextController) r.attach (r.memory 1)).1,
        s.operators ++ [some s.nextController],s.nextController + 1⟩,.ok ()) := by
  unfold realtimeController
  rw [← Prod.mk.eta (p := s.hand.enablePhase r.enable (r.memory 0)), henable]
  dsimp only
  rw [← Prod.mk.eta (p := HandState.attachRealtimeController ..), h]

theorem call_unwinds
    (h : ((s.hand.enablePhase r.enable (r.memory 0)).1.attachRealtimeController
      (some s.nextController) r.attach (r.memory 1)).2 = .error what) :
    s.realtimeController r = none ∨
      ∃ s' c, s.realtimeController r = some (s',.error what) ∧
        s.hand.realtimeController = some c ∧ s'.hand.realtimeController = none := by
  unfold realtimeController
  rw [← Prod.mk.eta (p := s.hand.enablePhase r.enable (r.memory 0)), henable]
  dsimp only
  have hkept := HandState.attach_error h
  rw [← Prod.mk.eta (p := HandState.attachRealtimeController ..), h]
  dsimp only
  split
  · exact .inl rfl
  · rename_i hand c hdetach
    obtain ⟨howner,hnone,_⟩ := HandState.detach_released (congrArg Prod.snd hdetach)
    rw [hdetach] at hnone
    exact .inr ⟨_,c,rfl,hkept.symm.trans howner,hnone⟩

theorem attach_after (controller : Nat) :
    ((s.hand.enablePhase r.enable (r.memory 0)).1.attachRealtimeController (some controller)
        r.attach (r.memory 1)).2 = .ok () ↔
      s.hand.realtimeController = none ∧
        Succeeds false r.attach.toggle r.attach.batch r.attach.revert s.hand.flags := by
  have hcached : (s.hand.enablePhase r.enable (r.memory 0)).1.flags.cached = s.hand.flags.cached :=
    bracketed_cached ((HandState.enablePhase_ok _).mp henable)
  rw [HandState.attach_ok, succeeds_congr hcached]
  exact and_comm

end Calls

theorem failsCleanly_iff (s : Option Ownership) (e : OwnershipEvent) :
    FailsCleanly s e ↔ CallSafe s e := by
  constructor
  · intro h s₀ hs r he hsucceeds
    have henable := (HandState.enablePhase_ok (r.memory 0)).mpr hsucceeds
    obtain ⟨s',result,hcall,hsame⟩ := h s₀ hs r he
    cases hattach : ((s₀.hand.enablePhase r.enable (r.memory 0)).1.attachRealtimeController
        (some s₀.nextController) r.attach (r.memory 1)).2 with
    | ok => exact (attach_after henable _).mp hattach
    | error what =>
      rcases call_unwinds henable hattach with hnone | ⟨s'',c,hcall',howner,hnone⟩
      · rw [hnone] at hcall
        cases hcall
      · rw [hcall'] at hcall
        obtain ⟨rfl,rfl⟩ := Prod.mk.inj (Option.some.inj hcall)
        have hkept := (hsame nofun).owner
        rw [howner, hnone] at hkept
        cases hkept
  · intro h s₀ hs r he
    cases henable : (s₀.hand.enablePhase r.enable (r.memory 0)).2 with
    | error what => exact ⟨_,_,call_refused henable,fun _ => ⟨rfl,rfl,rfl⟩⟩
    | ok =>
      have hattach := (attach_after henable s₀.nextController).mpr
        (h s₀ hs r he ((HandState.enablePhase_ok _).mp henable))
      exact ⟨_,_,call_returns henable hattach,fun hne => absurd rfl hne⟩

theorem realtimeController_owned {r : CallReplies} (h : s.Owned)
    (hsafe : CallSafe (some s) (.call r)) :
    ∀ s' ∈ (s.realtimeController r).map Prod.fst, s'.Owned := by
  intro s' hs'
  cases henable : (s.hand.enablePhase r.enable (r.memory 0)).2 with
  | error what =>
    rw [call_refused henable] at hs'
    obtain rfl := Option.some.inj hs'
    exact ⟨h.held,h.thread⟩
  | ok =>
    have hsafe := hsafe s rfl r rfl ((HandState.enablePhase_ok _).mp henable)
    have hattach := (attach_after henable s.nextController).mpr hsafe
    rw [call_returns henable hattach] at hs'
    obtain rfl := Option.some.inj hs'
    obtain ⟨howner,hthread⟩ := HandState.attach_attached hattach
    refine ⟨?_,hthread.trans howner.symm⟩
    change (s.operators ++ [some s.nextController]).filterMap id = _
    have hheld : s.operators.filterMap id = [] := by rw [← held, h.held, hsafe.1]; rfl
    rw [List.filterMap_append, hheld, howner]
    rfl

theorem step_owned {s : Option Ownership} {e : OwnershipEvent} (h : ∀ s₀ ∈ s, s₀.Owned)
    (hsafe : CallSafe s e) : ∀ s' ∈ step s e, s'.Owned := by
  cases s with
  | none => exact nofun
  | some s =>
    have howned := h s rfl
    cases e with
    | call r => exact realtimeController_owned howned hsafe
    | move k =>
      intro s' hs'
      obtain rfl := Option.some.inj hs'
      exact moveOperator_owned k howned
    | destroy k r memory => exact fun s' hs' => destroyOperator_owned howned hs'

theorem controllers_owned_iff (flags : EnabledFlags) (es : List OwnershipEvent) :
    (Runs.Throughout step (fun s => ∀ s₀ ∈ s, s₀.Owned) (some (start flags)) es ∧
      Runs.Along step FailsCleanly (some (start flags)) es) ↔
      Runs.Along step CallSafe (some (start flags)) es := by
  have hclean : Runs.Along step FailsCleanly (some (start flags)) es ↔
      Runs.Along step CallSafe (some (start flags)) es :=
    Runs.along_congr (P := fun _ => True) (fun _ _ _ => trivial)
      (fun s e _ => failsCleanly_iff s e) trivial
  rw [hclean, and_iff_right_iff_imp]
  refine Runs.throughout_invariant (fun _ _ h hsafe => step_owned h hsafe) ?_
  intro s hs
  obtain rfl := Option.some.inj hs
  exact start_owned flags

def allTaken : JointId → Reply := fun _ => .accepted true true

def attached : CallReplies where
  enable := ⟨allTaken,allTaken,allTaken⟩
  attach := ⟨allTaken,allTaken,.accepted true true,.accepted true true,.accepted true true,allTaken⟩
  unwind := ⟨allTaken,allTaken,.accepted true true,allTaken⟩
  memory := fun _ _ => false

def timedOut : CallReplies :=
  { attached with attach := { attached.attach with pdoEnabled := .accepted false false } }

def fresh : Ownership := start ⟨fun _ => false,fun _ => false⟩

-- The first failing call ends the process, and the second takes the first operator's controller.
theorem failed_calls_lose_controllers :
    ¬FailsCleanly (some fresh) (.call timedOut) ∧
      ∃ s ∈ Runs.run step (some fresh) [.call attached,.call attached],
        s.operators = [some 0] ∧ s.hand.realtimeController = none ∧ ¬s.Owned := by
  constructor
  · intro h
    obtain ⟨s',result,hcall,_⟩ := h fresh rfl timedOut rfl
    have hnone : (fresh.realtimeController timedOut).isNone = true := by decide
    rw [hcall] at hnone
    cases hnone
  · have hrun : (Runs.run step (some fresh) [.call attached,.call attached]).map
        (fun s => (s.operators,s.hand.realtimeController)) = some ([some 0],none) := by decide
    obtain ⟨s,hs,hfields⟩ := Option.map_eq_some_iff.mp hrun
    obtain ⟨hoperators,hcontroller⟩ := Prod.mk.inj hfields
    refine ⟨s,hs,hoperators,hcontroller,fun howned => ?_⟩
    have hheld := howned.held
    rw [held, hoperators, hcontroller] at hheld
    cases hheld

end Ownership

end WujiHand

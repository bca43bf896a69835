import WujiHand.Handler.Machine

namespace WujiHand.Machine

variable {Fn Ctx : Type}

def HandlerStores (s : Machine Fn Ctx) : Prop :=
  match s.handlerPc with
  | .storeValue _ _ => True
  | .storeOperation _ => True
  | _ => False

def TickStores (s : Machine Fn Ctx) : Prop :=
  match s.tickPc with
  | .storeSuccess _ _ _ => True
  | .storeStarted _ _ => True
  | .storeExpired _ _ => True
  | .storeConfirming _ => True
  | _ => False

def StoresOwn (s : Machine Fn Ctx) : MachineEvent Fn Ctx → Prop
  | .handler => s.HandlerStores → s.handlerLoaded.isSome ∧ s.running = s.handlerLoaded
  | .tick => s.TickStores → s.running = none ∨ s.running = s.tickLoaded
  | _ => True

def NotRevived (s : Machine Fn Ctx) : Prop := s.unit.Busy → s.running.isSome

def Undisturbed (s : Machine Fn Ctx) : MachineEvent Fn Ctx → Prop
  | .handler => s.HandlerStores → s.endedSinceLoad = false
  | .tick => ∀ operation completion, s.tickPc = .storeExpired operation completion →
      s.acceptedSinceLoad = false
  | _ => True

def localOperation : HandlerPc → Option Operation
  | .idle => none
  | .storeValue operation _ => some operation
  | .loadVersion operation => some operation
  | .storeVersion operation _ => some operation
  | .loadValue operation _ _ => some operation
  | .storeOperation operation => some operation

def HandlerTracked (s : Machine Fn Ctx) : Prop :=
  ∀ operation, localOperation s.handlerPc = some operation →
    operation.mode ≠ .none ∧
      ∃ i, s.handlerLoaded = some i ∧ i < s.accepted ∧
        (s.running = some i ↔ s.endedSinceLoad = false)

def VisitRuns (s : Machine Fn Ctx) : Prop :=
  ∃ i, s.tickLoaded = some i ∧ i < s.accepted ∧ s.running = some i ∧ s.acceptedSinceLoad = false

def VisitPast (s : Machine Fn Ctx) : Prop :=
  ∃ i, s.tickLoaded = some i ∧ i < s.accepted ∧
    (s.running = none ∨ s.running = some i ↔ s.acceptedSinceLoad = false)

def TickTracked (s : Machine Fn Ctx) : Prop :=
  match s.tickPc with
  | .idle => True
  | .storeSuccess _ operation _ => operation = ⟨.none,.success⟩ ∧ s.VisitRuns
  | .storeStarted _ operation => operation.mode ≠ .none ∧ s.VisitRuns
  | .deadline _ operation =>
    (operation.mode ≠ .none ∧ s.VisitRuns) ∨ (operation = ⟨.none,.success⟩ ∧ s.VisitPast)
  | .storeExpired operation _ => operation.mode = .none ∧ s.VisitPast
  | .storeConfirming operation => operation.mode ≠ .none ∧ s.VisitRuns
  | .loadValue => True

def CallTracked (s : Machine Fn Ctx) : Prop :=
  match s.callPc with
  | .storeValue _ => s.running = none
  | .storeOperation _ => s.running = none
  | _ => True

structure Tracked (s : Machine Fn Ctx) : Prop where
  busy : s.unit.Busy ↔ s.running.isSome
  issued : ∀ i, s.running = some i → i < s.accepted
  handler : s.HandlerTracked
  tick : s.TickTracked
  call : s.CallTracked

theorem VisitRuns.past {s : Machine Fn Ctx} (h : s.VisitRuns) : s.VisitPast := by
  obtain ⟨i,hl,hi,hr,ha⟩ := h
  exact ⟨i,hl,hi,by simp [hr, ha]⟩

theorem handlerBranch_local {o operation : Operation} {m : Message}
    (h : localOperation (handlerBranch o m) = some operation) :
    o.mode ≠ .none ∧ operation.mode = o.mode := by
  cases m with
  | readSuccess size value fill =>
    simp only [handlerBranch] at h
    split_ifs at h with hm hr hc
    · cases h
    · cases h
      exact ⟨hm,rfl⟩
    · cases h
      exact ⟨hm,rfl⟩
    · cases h
  | writeSuccess =>
    simp only [handlerBranch] at h
    split_ifs at h with hm hw
    · cases h
    · cases h
      exact ⟨hm,rfl⟩
    · cases h

theorem Tracked.runs {s : Machine Fn Ctx} (h : s.Tracked) (hb : s.unit.Busy) :
    ∃ i, s.running = some i ∧ i < s.accepted := by
  obtain ⟨i,hi⟩ := Option.isSome_iff_exists.mp (h.busy.mp hb)
  exact ⟨i,hi,h.issued i hi⟩

theorem Tracked.stopped {s : Machine Fn Ctx} (h : s.Tracked) (hb : ¬s.unit.Busy) :
    s.running = none := Option.not_isSome_iff_eq_none.mp fun hr => hb (h.busy.mpr hr)

theorem tracked_receive {s : Machine Fn Ctx} (h : s.Tracked) (m : Message) :
    (s.receive m).Tracked := by
  unfold receive
  split
  · refine ⟨h.busy,h.issued,?_,h.tick,h.call⟩
    intro operation hop
    obtain ⟨hm,he⟩ := handlerBranch_local hop
    obtain ⟨i,hi,hlt⟩ := h.runs hm
    exact ⟨he ▸ hm,i,hi,hlt,by simp [hi]⟩
  · exact h

theorem tracked_handlerStep {s : Machine Fn Ctx} (h : s.Tracked) (ho : s.StoresOwn .handler) :
    s.handlerStep.Tracked := by
  have hh := h.handler
  unfold handlerStep
  split
  · exact h
  · rename_i operation value hpc
    exact ⟨h.busy,h.issued,fun op hop => hh op (by rw [hpc]; exact hop),h.tick,h.call⟩
  · rename_i operation hpc
    exact ⟨h.busy,h.issued,fun op hop => hh op (by rw [hpc]; exact hop),h.tick,h.call⟩
  · rename_i operation version hpc
    refine ⟨h.busy,h.issued,?_,h.tick,h.call⟩
    intro op hop
    obtain rfl := Option.some.inj hop
    exact hh operation (by rw [hpc]; rfl)
  · rename_i operation size value hpc
    refine ⟨h.busy,h.issued,?_,h.tick,h.call⟩
    intro op hop
    obtain rfl := Option.some.inj hop
    have hloc := hh operation (by rw [hpc]; rfl)
    split
    · exact hloc
    · exact hloc
  · rename_i operation hpc
    have hloc := hh operation (by rw [hpc]; rfl)
    obtain ⟨hsome,hrun⟩ := ho (by simp [HandlerStores, hpc])
    refine ⟨⟨fun _ => hrun ▸ hsome,fun _ => hloc.1⟩,h.issued,?_,h.tick,h.call⟩
    intro op hop
    cases hop

theorem tracked_visit {s : Machine Fn Ctx} (h : s.Tracked) (now : Int) :
    (s.visit now).Tracked := by
  unfold visit
  split
  · refine ⟨h.busy,h.issued,h.handler,?_,h.call⟩
    by_cases hb : s.unit.Busy
    · obtain ⟨i,hi,hlt⟩ := h.runs hb
      have hruns : VisitRuns { s with
          tickPc := tickBranch now s.unit, tickLoaded := s.running, acceptedSinceLoad := false } :=
        ⟨i,hi,hlt,hi,rfl⟩
      by_cases hs : s.unit.Masked ∨ s.unit.operation.state = .success
      · simp only [TickTracked, tickBranch_success now hb hs]
        exact ⟨trivial,hruns⟩
      · obtain ⟨hm,hs⟩ := not_or.mp hs
        by_cases hw : s.unit.operation.state = .waiting
        · simp only [TickTracked, tickBranch_waiting now hb hm hw]
          exact ⟨hb,hruns⟩
        · simp only [TickTracked, tickBranch_running now hb hm hw hs]
          exact .inl ⟨hb,hruns⟩
    · have hm : s.unit.operation.mode = .none := not_not.mp hb
      simp only [TickTracked, tickBranch, if_pos hm]
  · exact h

theorem handlerTracked_end {s s' : Machine Fn Ctx} (h : s.HandlerTracked)
    (hpc : s'.handlerPc = s.handlerPc) (hl : s'.handlerLoaded = s.handlerLoaded)
    (ha : s'.accepted = s.accepted) (hr : s'.running = none) (he : s'.endedSinceLoad = true) :
    s'.HandlerTracked := by
  intro operation hop
  rw [hpc] at hop
  obtain ⟨hm,i,hi,hlt,_⟩ := h operation hop
  exact ⟨hm,i,hl ▸ hi,ha ▸ hlt,by simp [hr, he]⟩

theorem callTracked_end {s : Machine Fn Ctx} (hr : s.running = none) : s.CallTracked := by
  unfold CallTracked
  split
  · exact hr
  · exact hr
  · trivial

theorem tracked_tickStep {s : Machine Fn Ctx} (h : s.Tracked) : s.tickStep.Tracked := by
  have ht := h.tick
  unfold TickTracked at ht
  unfold tickStep
  split
  · exact h
  · rename_i now operation completion hpc
    simp only [hpc] at ht
    obtain ⟨rfl,i,hl,hi,hr,ha⟩ := ht
    refine ⟨?_,?_,handlerTracked_end h.handler rfl rfl rfl rfl rfl,?_,callTracked_end rfl⟩
    · simp [StorageUnit.Busy]
    · intro j hj
      cases hj
    · exact .inr ⟨rfl,i,hl,hi,by simp [ha]⟩
  · rename_i now operation hpc
    simp only [hpc] at ht
    obtain ⟨hm,i,hl,hi,hr,ha⟩ := ht
    refine ⟨?_,h.issued,h.handler,trivial,h.call⟩
    exact ⟨fun _ => hr ▸ rfl,fun _ => hm⟩
  · rename_i now operation hpc
    simp only [hpc] at ht
    have hpast : s.VisitPast := by
      rcases ht with ⟨_,hruns⟩ | ⟨_,hpast⟩
      · exact hruns.past
      · exact hpast
    split
    · exact ⟨h.busy,h.issued,h.handler,⟨rfl,hpast⟩,h.call⟩
    · split
      · exact ⟨h.busy,h.issued,h.handler,trivial,h.call⟩
      · split
        · rename_i hw
          refine ⟨h.busy,h.issued,h.handler,?_,h.call⟩
          rcases ht with hruns | ⟨rfl,_⟩
          · exact hruns
          · cases hw
        · exact ⟨h.busy,h.issued,h.handler,trivial,h.call⟩
  · rename_i operation completion hpc
    simp only [hpc] at ht
    refine ⟨?_,?_,handlerTracked_end h.handler rfl rfl rfl rfl rfl,trivial,callTracked_end rfl⟩
    · simp [StorageUnit.Busy, ht.1]
    · intro j hj
      cases hj
  · rename_i operation hpc
    simp only [hpc] at ht
    obtain ⟨hm,i,hl,hi,hr,ha⟩ := ht
    refine ⟨?_,h.issued,h.handler,trivial,h.call⟩
    exact ⟨fun _ => hr ▸ rfl,fun _ => hm⟩
  · exact ⟨h.busy,h.issued,h.handler,trivial,h.call⟩

theorem tracked_call (codec : PositionCodec) {s : Machine Fn Ctx} (h : s.Tracked)
    (c : UnitCall Fn Ctx) : (s.call codec c).Tracked := by
  unfold call
  split
  · split
    · exact ⟨h.busy,h.issued,h.handler,h.tick,trivial⟩
    · split
      · exact h
      · rename_i hb
        exact ⟨h.busy,h.issued,h.handler,h.tick,h.stopped hb⟩
    · split
      · exact h
      · rename_i hb
        exact ⟨h.busy,h.issued,h.handler,h.tick,h.stopped hb⟩
  · exact h

theorem tracked_start {s : Machine Fn Ctx} (h : s.Tracked) (c : UnitCall Fn Ctx)
    (hr : s.running = none) :
    Tracked { s with
      unit := startCall c s.unit, callPc := .idle, accepted := s.accepted + 1,
      running := some s.accepted, acceptedSinceLoad := true } := by
  have hstop : ¬s.VisitRuns := by
    rintro ⟨i,_,_,hi,_⟩
    rw [hr] at hi
    cases hi
  have hpast : s.VisitPast → VisitPast { s with
      unit := startCall c s.unit, callPc := .idle, accepted := s.accepted + 1,
      running := some s.accepted, acceptedSinceLoad := true } := by
    rintro ⟨i,hl,hi,_⟩
    exact ⟨i,hl,Nat.lt_succ_of_lt hi,by simp [hi.ne']⟩
  refine ⟨⟨fun _ => rfl,fun _ => UnitCall.mode_ne_none c⟩,?_,?_,?_,trivial⟩
  · intro j hj
    obtain rfl := Option.some.inj hj
    exact Nat.lt_succ_self _
  · intro operation hop
    obtain ⟨hm,i,hl,hi,he⟩ := h.handler operation hop
    refine ⟨hm,i,hl,Nat.lt_succ_of_lt hi,?_⟩
    rw [hr] at he
    have hended : s.endedSinceLoad ≠ false := fun hf => by cases he.mpr hf
    simp [hi.ne', hended]
  · have ht := h.tick
    simp only [TickTracked] at ht ⊢
    cases hpc : s.tickPc with
    | idle => trivial
    | storeSuccess =>
      rw [hpc] at ht
      exact absurd ht.2 hstop
    | storeStarted =>
      rw [hpc] at ht
      exact absurd ht.2 hstop
    | deadline =>
      rw [hpc] at ht
      rcases ht with hruns | hpast'
      · exact absurd hruns.2 hstop
      · exact .inr ⟨hpast'.1,hpast hpast'.2⟩
    | storeExpired =>
      rw [hpc] at ht
      exact ⟨ht.1,hpast ht.2⟩
    | storeConfirming =>
      rw [hpc] at ht
      exact absurd ht.2 hstop
    | loadValue => trivial

theorem tracked_callStep (codec : PositionCodec) {s : Machine Fn Ctx} (h : s.Tracked) :
    (s.callStep codec).Tracked := by
  have hc := h.call
  unfold CallTracked at hc
  unfold callStep
  split
  · exact h
  · refine ⟨h.busy,h.issued,h.handler,h.tick,?_⟩
    by_cases hb : s.unit.Busy
    · simp only [CallTracked, if_pos hb]
    · simp only [CallTracked, if_neg hb]
      exact h.stopped hb
  · rename_i c hpc
    simp only [hpc] at hc
    exact ⟨h.busy,h.issued,h.handler,h.tick,hc⟩
  · rename_i c hpc
    simp only [hpc] at hc
    exact tracked_start h c hc

theorem tracked_step (codec : PositionCodec) {s : Machine Fn Ctx} {e : MachineEvent Fn Ctx}
    (h : s.Tracked) (ho : s.StoresOwn e) : (s.step codec e).Tracked := by
  cases e with
  | receive m => exact tracked_receive h m
  | handler => exact tracked_handlerStep h ho
  | visit now => exact tracked_visit h now
  | tick => exact tracked_tickStep h
  | call c => exact tracked_call codec h c
  | operate => exact tracked_callStep codec h

theorem handlerStores_local {s : Machine Fn Ctx} (h : s.HandlerStores) :
    ∃ operation, localOperation s.handlerPc = some operation := by
  unfold HandlerStores at h
  split at h
  · rename_i operation value hpc
    exact ⟨operation,by rw [hpc]; rfl⟩
  · rename_i operation hpc
    exact ⟨operation,by rw [hpc]; rfl⟩
  · cases h

theorem storesOwn_iff {s : Machine Fn Ctx} (h : s.Tracked) (e : MachineEvent Fn Ctx) :
    s.StoresOwn e ↔ s.Undisturbed e := by
  cases e with
  | receive m => exact Iff.rfl
  | handler =>
    refine forall_congr' fun hs => ?_
    obtain ⟨operation,hop⟩ := handlerStores_local hs
    obtain ⟨_,i,hl,_,he⟩ := h.handler operation hop
    simp [hl, he]
  | visit now => exact Iff.rfl
  | tick =>
    have ht := h.tick
    simp only [TickTracked] at ht
    simp only [StoresOwn, Undisturbed, TickStores]
    have hown : s.VisitRuns → s.running = s.tickLoaded := by
      rintro ⟨i,hl,_,hr,_⟩
      rw [hl, hr]
    cases hpc : s.tickPc with
    | idle => simp
    | storeSuccess =>
      rw [hpc] at ht
      simp [hown ht.2]
    | storeStarted =>
      rw [hpc] at ht
      simp [hown ht.2]
    | deadline => simp
    | storeExpired =>
      rw [hpc] at ht
      obtain ⟨_,i,hl,_,hiff⟩ := ht
      simp [hl, hiff]
    | storeConfirming =>
      rw [hpc] at ht
      simp [hown ht.2]
    | loadValue => simp
  | call c => exact Iff.rfl
  | operate => exact Iff.rfl

def start (u : StorageUnit Fn Ctx) : Machine Fn Ctx :=
  { unit := { u with operation := ⟨.none,.success⟩ } }

theorem stores_own_iff (codec : PositionCodec) (u : StorageUnit Fn Ctx)
    (es : List (MachineEvent Fn Ctx)) :
    (Runs.Along (step codec) StoresOwn (start u) es ∧
        Runs.Throughout (step codec) NotRevived (start u) es) ↔
      Runs.Along (step codec) Undisturbed (start u) es := by
  have hstart : (start u).Tracked := by
    refine ⟨⟨fun hb => absurd rfl hb,fun hr => by cases hr⟩,?_,?_,trivial,trivial⟩
    · intro i hi
      cases hi
    · intro operation hop
      cases hop
  have hcongr : Runs.Along (step codec) StoresOwn (start u) es ↔
      Runs.Along (step codec) Undisturbed (start u) es :=
    Runs.along_congr_of (fun s e h ho => tracked_step codec h ho) (fun s e h => storesOwn_iff h e)
      hstart
  constructor
  · rintro ⟨hown,_⟩
    exact hcongr.mp hown
  · intro hundisturbed
    have hown := hcongr.mpr hundisturbed
    have htracked := Runs.throughout_invariant (fun s e h ho => tracked_step codec h ho) hstart hown
    exact ⟨hown,Runs.throughout_imp (fun s h => h.busy.mp) htracked⟩

section LateStore

def lateUnit : StorageUnit Nat Nat := .blank (.make 4 0x64 0 0) 0

-- The answer is loaded while the operation runs; the visit at clock 10 ends the operation before
-- the handler stores.
def lateStore : List (MachineEvent Nat Nat) :=
  [.call (.readAsync 10 (some 1) 2),.operate,.visit 0,.tick,.visit 5,.tick,
    .receive (.readSuccess .four 7 0),.visit 10,.tick,.tick,.handler,.handler,.handler,.handler]

theorem lateStore_revives :
    ¬(Runs.Along (step .raw) StoresOwn (start lateUnit) lateStore ∧
      Runs.Throughout (step .raw) NotRevived (start lateUnit) lateStore) := by
  rintro ⟨_,hrevived⟩
  have hlast := Runs.throughout_last hrevived (by decide)
  exact absurd hlast (by decide)

end LateStore

end WujiHand.Machine

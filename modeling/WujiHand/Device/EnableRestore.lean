import Mathlib.Data.Fintype.Prod
import Mathlib.Data.List.TakeWhile
import WujiHand.Device.RealtimeController

namespace WujiHand

namespace EnabledFlags

def overwrite (value : Bool) (reply : JointId → Reply) (ts : List JointId) (e : EnabledFlags) :
    EnabledFlags where
  cached := fun t => if t ∈ ts then value else e.cached t
  device := fun t => if t ∈ ts ∧ (reply t).taken = true then value else e.device t

@[ext] theorem ext {e e' : EnabledFlags} (hcached : ∀ t, e.cached t = e'.cached t)
    (hdevice : ∀ t, e.device t = e'.device t) : e = e' := by
  cases e
  cases e'
  exact congrArg₂ mk (funext hcached) (funext hdevice)

theorem overwrite_nil (value : Bool) (reply : JointId → Reply) (e : EnabledFlags) :
    e.overwrite value reply [] = e := by
  ext t
  · rfl
  · simp [overwrite]

theorem write_cached_of_not_mem {e : EnabledFlags} {flag : JointId → Bool} {t : JointId}
    {ts : List JointId} (ht : t ∉ ts) (h : ∀ t' ∈ ts, e.cached t' = flag t') (value taken : Bool) :
    ∀ t' ∈ ts, (e.write value t taken).cached t' = flag t' := by
  intro t' ht'
  exact (Function.update_of_ne (ne_of_mem_of_not_mem ht' ht) value e.cached).trans (h t' ht')

theorem write_overwrite (value : Bool) (reply : JointId → Reply) (t : JointId)
    (ts : List JointId) (e : EnabledFlags) :
    (e.write value t (reply t).taken).overwrite value reply ts = e.overwrite value reply (t :: ts) := by
  ext t'
  · by_cases ht : t' = t
    · subst ht
      simp [overwrite, write]
    · simp [overwrite, write, ht]
  · by_cases ht : t' = t
    · subst ht
      cases htaken : (reply t').taken <;> simp [overwrite, write, htaken]
    · cases htaken : (reply t).taken <;> simp [overwrite, write, ht]

end EnabledFlags

def toggled (value : Bool) (flag : JointId → Bool) (ts : List JointId) : List JointId :=
  ts.filter fun t => flag t ≠ value

def acceptedPrefix (reply : JointId → Reply) (ts : List JointId) : List JointId :=
  ts.takeWhile fun t => (reply t).isAccepted

def writeEach (value : Bool) (reply : JointId → Reply) :
    List JointId → EnabledFlags → EnabledFlags × Except String Nat
  | [], e => (e,.ok 0)
  | t :: ts, e =>
    match reply t with
    | .rejected what => (e,.error what)
    | .accepted success taken =>
      let rest := writeEach value reply ts (e.write value t taken)
      (rest.1,rest.2.map fun errors => if success then errors else errors + 1)

section Loops

variable {value : Bool} {reply : JointId → Reply} {ts : List JointId} {e : EnabledFlags}

theorem acceptedPrefix_eq_self :
    acceptedPrefix reply ts = ts ↔ ∀ t ∈ ts, (reply t).isAccepted = true := by
  induction ts with
  | nil => exact ⟨fun _ => nofun,fun _ => rfl⟩
  | cons t ts ih =>
    rw [List.forall_mem_cons, ← ih, acceptedPrefix, List.takeWhile_cons]
    split
    · rename_i ht
      exact ⟨fun h => ⟨ht,List.cons_inj_right t |>.mp h⟩,fun h => congrArg (t :: ·) h.2⟩
    · rename_i ht
      exact ⟨nofun,fun h => absurd h.1 ht⟩

theorem writeEach_flags :
    (writeEach value reply ts e).1 = e.overwrite value reply (acceptedPrefix reply ts) := by
  induction ts generalizing e with
  | nil => exact (e.overwrite_nil value reply).symm
  | cons t ts ih =>
    rw [writeEach, acceptedPrefix]
    cases hreply : reply t with
    | rejected what =>
      rw [List.takeWhile_cons_of_neg (by rw [hreply]; exact nofun)]
      exact (e.overwrite_nil value reply).symm
    | accepted success taken =>
      have htaken : (reply t).taken = taken := by rw [hreply]; rfl
      rw [List.takeWhile_cons_of_pos (by rw [hreply]; rfl), ← EnabledFlags.write_overwrite, htaken]
      exact ih

theorem writeEach_zero :
    (writeEach value reply ts e).2 = .ok 0 ↔ ∀ t ∈ ts, (reply t).succeeds = true := by
  induction ts generalizing e with
  | nil => exact ⟨fun _ => nofun,fun _ => rfl⟩
  | cons t ts ih =>
    rw [writeEach, List.forall_mem_cons]
    cases reply t with
    | rejected what => exact ⟨nofun,fun h => absurd h.1 nofun⟩
    | accepted success taken =>
      refine Iff.trans ?_ (and_congr_right fun _ => ih (e := e.write value t taken))
      dsimp only
      cases (writeEach value reply ts (e.write value t taken)).2 with
      | error what => exact ⟨nofun,fun h => absurd h.2 nofun⟩
      | ok errors => cases success <;> simp [Except.map, Reply.succeeds]

theorem revertSet_eq (lastEnabled : JointId → Bool) :
    revertSet value lastEnabled reply ts e =
      writeEach (!value) reply (toggled value lastEnabled ts) e := by
  induction ts generalizing e with
  | nil => rfl
  | cons t ts ih =>
    rw [revertSet, toggled]
    split
    · rename_i hlast
      rw [List.filter_cons_of_neg (by simpa using hlast)]
      exact ih
    · rename_i hlast
      rw [List.filter_cons_of_pos (by simpa using hlast), writeEach]
      cases reply t with
      | rejected what => rfl
      | accepted success taken =>
        dsimp only
        rw [ih, toggled]

theorem save_cons (flag lastEnabled : JointId → Bool) (t : JointId) (ts : List JointId) :
    (fun t' => if t' ∈ ts then flag t' else Function.update lastEnabled t (flag t) t') =
      fun t' => if t' ∈ t :: ts then flag t' else lastEnabled t' := by
  funext t'
  by_cases heq : t' = t
  · subst heq
    simp
  · simp [heq]

theorem saveAndSet_eq {flag : JointId → Bool} (hflag : ∀ t ∈ ts, e.cached t = flag t)
    (hts : ts.Nodup) (lastEnabled : JointId → Bool) :
    saveAndSet value reply ts lastEnabled e =
      ((writeEach value reply (toggled value flag ts) e).1,
        (writeEach value reply (toggled value flag ts) e).2.map fun errors =>
          (fun t => if t ∈ ts then flag t else lastEnabled t,errors)) := by
  induction ts generalizing e lastEnabled with
  | nil => simp [saveAndSet, toggled, writeEach, Except.map]
  | cons t ts ih =>
    obtain ⟨ht,hts⟩ := List.nodup_cons.mp hts
    obtain ⟨hhead,htail⟩ := List.forall_mem_cons.mp hflag
    rw [saveAndSet, toggled, hhead]
    split
    · rename_i hsame
      rw [List.filter_cons_of_neg (by simpa using hsame), ih htail hts, save_cons]
      rfl
    · rename_i hsame
      rw [List.filter_cons_of_pos (by simpa using hsame), writeEach]
      cases reply t with
      | rejected what => rfl
      | accepted success taken =>
        have hrest := EnabledFlags.write_cached_of_not_mem ht htail value taken
        dsimp only
        rw [ih hrest hts, save_cons, toggled]
        cases (writeEach value reply _ (e.write value t taken)).2 with
        | error what => rfl
        | ok errors => rfl

end Loops

section Phases

variable {value : Bool} {toggle revert : JointId → Reply} {batch : List Reply}
  {memory : JointId → Bool} {e : EnabledFlags}

theorem mem_toggled {flag : JointId → Bool} {t : JointId} :
    t ∈ toggled value flag joints ↔ flag t ≠ value := by
  rw [toggled, List.mem_filter, decide_eq_true_eq]
  exact and_iff_right (mem_joints t)

theorem overwrite_back_cached :
    ((e.overwrite value toggle (toggled value e.cached joints)).overwrite (!value) revert
      (toggled value e.cached joints)).cached = e.cached := by
  funext t
  simp only [EnabledFlags.overwrite, mem_toggled]
  split
  · rename_i ht
    exact (Bool.eq_not.mpr ht).symm
  · rfl

theorem saveJoints_eq (value : Bool) (toggle : JointId → Reply) (memory : JointId → Bool)
    (e : EnabledFlags) :
    saveJoints value toggle memory e =
      ((writeEach value toggle (toggled value e.cached joints) e).1,
        (writeEach value toggle (toggled value e.cached joints) e).2.bind fun errors =>
          (waitOutcome errors).map fun _ => e.cached) := by
  have hsaved : (fun t => if t ∈ joints then e.cached t else memory t) = e.cached :=
    funext fun t => if_pos (mem_joints t)
  rw [saveJoints, saveAndSet_eq (fun _ _ => rfl) joints_nodup, hsaved]
  dsimp only
  cases (writeEach value toggle (toggled value e.cached joints) e).2 with
  | error what => rfl
  | ok errors => rfl

theorem saveJoints_flags (value : Bool) (toggle : JointId → Reply) (memory : JointId → Bool)
    (e : EnabledFlags) : (saveJoints value toggle memory e).1 =
      e.overwrite value toggle (acceptedPrefix toggle (toggled value e.cached joints)) := by
  rw [saveJoints_eq]
  exact writeEach_flags

theorem saveJoints_ok (memory : JointId → Bool) {last : JointId → Bool} :
    (saveJoints value toggle memory e).2 = .ok last ↔
      last = e.cached ∧ ∀ t, e.cached t ≠ value → (toggle t).succeeds = true := by
  have hzero : (writeEach value toggle (toggled value e.cached joints) e).2 = .ok 0 ↔
      ∀ t ∈ toggled value e.cached joints, (toggle t).succeeds = true :=
    writeEach_zero
  simp only [mem_toggled] at hzero
  rw [← hzero, saveJoints_eq]
  dsimp only
  cases (writeEach value toggle (toggled value e.cached joints) e).2 with
  | error what => exact ⟨nofun,fun h => absurd h.2 nofun⟩
  | ok errors =>
    rw [Except.ok.injEq, ← Int.natCast_eq_zero, ← waitOutcome_ok]
    change (waitOutcome errors).map (fun _ => e.cached) = .ok last ↔ _
    cases waitOutcome (errors : Int) with
    | error what => exact ⟨nofun,fun h => absurd h.2 nofun⟩
    | ok => exact ⟨fun h => ⟨(Except.ok.inj h).symm,rfl⟩,fun h => congrArg Except.ok h.1.symm⟩

theorem revertJoints_flags (lastEnabled : JointId → Bool) :
    (revertJoints value revert lastEnabled e).1 =
      e.overwrite (!value) revert (acceptedPrefix revert (toggled value lastEnabled joints)) := by
  rw [revertJoints, revertSet_eq]
  exact writeEach_flags

theorem revertJoints_ok (lastEnabled : JointId → Bool) :
    (revertJoints value revert lastEnabled e).2 = .ok () ↔
      ∀ t, lastEnabled t ≠ value → (revert t).succeeds = true := by
  have hzero : (writeEach (!value) revert (toggled value lastEnabled joints) e).2 = .ok 0 ↔
      ∀ t ∈ toggled value lastEnabled joints, (revert t).succeeds = true :=
    writeEach_zero
  simp only [mem_toggled] at hzero
  rw [← hzero, revertJoints, revertSet_eq]
  dsimp only
  cases (writeEach (!value) revert (toggled value lastEnabled joints) e).2 with
  | error what => exact ⟨nofun,nofun⟩
  | ok errors => simp [Except.bind, waitOutcome_ok]

structure Reaches (value : Bool) (toggle : JointId → Reply) (batch : List Reply)
    (e : EnabledFlags) : Prop where
  toggled : ∀ t, e.cached t ≠ value → (toggle t).succeeds = true
  batch : ∀ r ∈ batch, r.succeeds = true

theorem bracketed_reaches (h : Reaches value toggle batch e) :
    bracketed (saveJoints value toggle memory) batch (revertJoints value revert) e =
      revertJoints value revert e.cached
        (e.overwrite value toggle (toggled value e.cached joints)) := by
  have hsave := (saveJoints_ok memory).mpr ⟨rfl,h.toggled⟩
  have hflags := saveJoints_flags value toggle memory e
  have hall : acceptedPrefix toggle (toggled value e.cached joints) =
      toggled value e.cached joints :=
    acceptedPrefix_eq_self.mpr fun t ht =>
      Reply.isAccepted_of_succeeds (h.toggled t (mem_toggled.mp ht))
  rw [hall] at hflags
  rw [bracketed, ← Prod.mk.eta (p := saveJoints value toggle memory e), hsave, hflags]
  dsimp only
  rw [runBatch_ok.mpr h.batch]

theorem bracketed_stops (revert : JointId → Reply) (memory : JointId → Bool)
    (h : ¬Reaches value toggle batch e) :
    ∃ what, bracketed (saveJoints value toggle memory) batch (revertJoints value revert) e =
      (e.overwrite value toggle (acceptedPrefix toggle (toggled value e.cached joints)),
        .error what) := by
  have hflags := saveJoints_flags value toggle memory e
  rw [bracketed, ← Prod.mk.eta (p := saveJoints value toggle memory e), hflags]
  cases hsave : (saveJoints value toggle memory e).2 with
  | error what => exact ⟨what,rfl⟩
  | ok last =>
    dsimp only
    cases hbatch : runBatch batch with
    | error what => exact ⟨what,rfl⟩
    | ok => exact absurd ⟨((saveJoints_ok memory).mp hsave).2,runBatch_ok.mp hbatch⟩ h

structure Succeeds (value : Bool) (toggle : JointId → Reply) (batch : List Reply)
    (revert : JointId → Reply) (e : EnabledFlags) : Prop extends Reaches value toggle batch e where
  reverted : ∀ t, e.cached t ≠ value → (revert t).succeeds = true

theorem bracketed_ok :
    (bracketed (saveJoints value toggle memory) batch (revertJoints value revert) e).2 = .ok () ↔
      Succeeds value toggle batch revert e := by
  by_cases hreaches : Reaches value toggle batch e
  · rw [bracketed_reaches hreaches, revertJoints_ok]
    exact ⟨fun h => ⟨hreaches,h⟩,fun h => h.reverted⟩
  · obtain ⟨what,hstops⟩ := bracketed_stops revert memory hreaches
    rw [hstops]
    exact ⟨nofun,fun h => absurd h.toReaches hreaches⟩

theorem bracketed_cached (h : Succeeds value toggle batch revert e) :
    (bracketed (saveJoints value toggle memory) batch (revertJoints value revert) e).1.cached =
      e.cached := by
  have hall : acceptedPrefix revert (toggled value e.cached joints) =
      toggled value e.cached joints :=
    acceptedPrefix_eq_self.mpr fun t ht =>
      Reply.isAccepted_of_succeeds (h.reverted t (mem_toggled.mp ht))
  rw [bracketed_reaches h.toReaches, revertJoints_flags, hall]
  exact overwrite_back_cached

theorem succeeds_congr {e' : EnabledFlags} (he : e'.cached = e.cached) :
    Succeeds value toggle batch revert e' ↔ Succeeds value toggle batch revert e := by
  constructor
  · rintro ⟨⟨htoggled,hbatch⟩,hreverted⟩
    rw [he] at htoggled hreverted
    exact ⟨⟨htoggled,hbatch⟩,hreverted⟩
  · rintro ⟨⟨htoggled,hbatch⟩,hreverted⟩
    rw [← he] at htoggled hreverted
    exact ⟨⟨htoggled,hbatch⟩,hreverted⟩

def Untouched (value : Bool) (toggle : JointId → Reply) (e : EnabledFlags) : Prop :=
  ∀ t ∈ (toggled value e.cached joints).head?, (toggle t).isAccepted = false

def DeviceKept (value : Bool) (toggle revert : Reply) (device : Bool) : Prop :=
  if revert.taken then device ≠ value else toggle.taken = true → device = value

structure Reverts (value : Bool) (toggle : JointId → Reply) (batch : List Reply)
    (revert : JointId → Reply) (e : EnabledFlags) : Prop extends Reaches value toggle batch e where
  accepted : ∀ t, e.cached t ≠ value → (revert t).isAccepted = true
  device : ∀ t, e.cached t ≠ value → DeviceKept value (toggle t) (revert t) (e.device t)

theorem untouched_iff_prefix_nil :
    Untouched value toggle e ↔ acceptedPrefix toggle (toggled value e.cached joints) = [] := by
  unfold Untouched acceptedPrefix
  cases toggled value e.cached joints with
  | nil => exact ⟨fun _ => rfl,fun _ => nofun⟩
  | cons t ts => cases htoggle : (toggle t).isAccepted <;> simp [htoggle]

theorem overwrite_eq_self {ts : List JointId} (h : ∀ t ∈ ts, e.cached t ≠ value) :
    e.overwrite value toggle ts = e ↔ ts = [] := by
  constructor
  · intro heq
    refine List.eq_nil_iff_forall_not_mem.mpr fun t ht => h t ht ?_
    have hcached := congrArg (fun e => e.cached t) heq
    exact hcached.symm.trans (if_pos ht)
  · rintro rfl
    exact e.overwrite_nil value toggle

theorem deviceKept_iff {toggle revert : Reply} {device : Bool} :
    DeviceKept value toggle revert device ↔
      (if revert.taken then !value else if toggle.taken then value else device) = device := by
  unfold DeviceKept
  cases revert.taken <;> cases toggle.taken <;> cases value <;> cases device <;> decide

-- A revert cut short by a refusal leaves the joints behind it at the value of the phase.
theorem reverted_iff :
    (e.overwrite value toggle (toggled value e.cached joints)).overwrite (!value) revert
        (acceptedPrefix revert (toggled value e.cached joints)) = e ↔
      ∀ t, e.cached t ≠ value →
        (revert t).isAccepted = true ∧ DeviceKept value (toggle t) (revert t) (e.device t) := by
  constructor
  · intro heq t ht
    have hcached := congrArg (fun e => e.cached t) heq
    have hdevice := congrArg (fun e => e.device t) heq
    have htoggled := mem_toggled.mpr ht
    have hwritten : t ∈ acceptedPrefix revert (toggled value e.cached joints) := by
      by_contra hwritten
      simp only [EnabledFlags.overwrite, hwritten, htoggled, if_true, if_false] at hcached
      exact ht hcached.symm
    have haccepted := List.mem_takeWhile_imp (p := fun t => (revert t).isAccepted) hwritten
    refine ⟨haccepted,deviceKept_iff.mpr ?_⟩
    simpa only [EnabledFlags.overwrite, hwritten, htoggled, true_and] using hdevice
  · intro h
    have hall : acceptedPrefix revert (toggled value e.cached joints) =
        toggled value e.cached joints :=
      acceptedPrefix_eq_self.mpr fun t ht => (h t (mem_toggled.mp ht)).1
    rw [hall]
    ext t
    · exact congrFun overwrite_back_cached t
    · simp only [EnabledFlags.overwrite, mem_toggled]
      by_cases ht : e.cached t = value
      · simp [ht]
      · simpa [ht] using deviceKept_iff.mp (h t ht).2

theorem bracketed_restores_iff :
    (bracketed (saveJoints value toggle memory) batch (revertJoints value revert) e).1 = e ↔
      Untouched value toggle e ∨ Reverts value toggle batch revert e := by
  by_cases hreaches : Reaches value toggle batch e
  · rw [bracketed_reaches hreaches, revertJoints_flags, reverted_iff]
    constructor
    · intro h
      exact .inr ⟨hreaches,fun t ht => (h t ht).1,fun t ht => (h t ht).2⟩
    · rintro (huntouched | hreverts) t ht
      · rw [untouched_iff_prefix_nil, acceptedPrefix_eq_self.mpr] at huntouched
        · have hmem := mem_toggled.mpr ht
          rw [huntouched] at hmem
          cases hmem
        · intro t ht
          exact Reply.isAccepted_of_succeeds (hreaches.toggled t (mem_toggled.mp ht))
      · exact ⟨hreverts.accepted t ht,hreverts.device t ht⟩
  · obtain ⟨what,hstops⟩ := bracketed_stops revert memory hreaches
    rw [hstops, overwrite_eq_self, untouched_iff_prefix_nil]
    · exact ⟨.inl,fun h => h.resolve_right fun hreverts => hreaches hreverts.toReaches⟩
    · intro t ht
      exact mem_toggled.mp ((List.takeWhile_subset _) ht)

end Phases

namespace HandState

variable {memory : JointId → Bool} {s : HandState}

theorem handlerAttach_flags (controller : Nat) :
    (s.handlerAttach controller).1.flags = s.flags := by
  unfold handlerAttach
  split <;> rfl

theorem handlerDetach_flags : s.handlerDetach.1.flags = s.flags := by
  unfold handlerDetach
  split <;> rfl

theorem attach_flags (controller : Nat) (r : AttachReplies) :
    (s.attachRealtimeController (some controller) r memory).1.flags =
      (bracketed (saveAndDisableJoints r.toggle memory) r.batch (revertDisabledJoints r.revert)
        s.flags).1 := by
  unfold attachRealtimeController
  dsimp only
  split
  · rename_i heq
    rw [heq]
  · rename_i heq
    rw [heq, handlerAttach_flags]

theorem detach_flags (r : DetachReplies) :
    (s.detachRealtimeController r memory).1.flags =
      (bracketed (saveAndDisableJoints r.toggle memory) r.batch (revertDisabledJoints r.revert)
        s.flags).1 := by
  unfold detachRealtimeController
  split
  · rename_i heq
    rw [heq]
  · rename_i heq
    rw [heq, handlerDetach_flags]

theorem enabled_restored_iff (s : HandState) (memory : JointId → Bool) :
    (∀ r : EnableReplies, (s.enablePhase r memory).1.flags = s.flags ↔
      Untouched true r.toggle s.flags ∨ Reverts true r.toggle r.batch r.revert s.flags) ∧
    (∀ (controller : Option Nat) (r : AttachReplies),
      (s.attachRealtimeController controller r memory).1.flags = s.flags ↔
        controller = none ∨ Untouched false r.toggle s.flags ∨
          Reverts false r.toggle r.batch r.revert s.flags) ∧
    ∀ r : DetachReplies, (s.detachRealtimeController r memory).1.flags = s.flags ↔
      Untouched false r.toggle s.flags ∨ Reverts false r.toggle r.batch r.revert s.flags := by
  refine ⟨?_,?_,?_⟩
  · intro r
    exact bracketed_restores_iff
  · intro controller r
    cases controller with
    | none => exact ⟨fun _ => .inl rfl,fun _ => rfl⟩
    | some controller =>
      rw [attach_flags]
      exact bracketed_restores_iff.trans (or_iff_right nofun).symm
  · intro r
    rw [detach_flags]
    exact bracketed_restores_iff

def allDisabled : HandState := ⟨⟨fun _ => false,fun _ => false⟩,none,none⟩

def readTimesOut : EnableReplies where
  toggle := fun _ => .accepted true true
  read := fun t => if t = (0,0) then .accepted false false else .accepted true true
  revert := fun _ => .accepted true true

theorem readTimesOut_leaves_enabled :
    (allDisabled.enablePhase readTimesOut fun _ => false).2 =
        .error "Operation timed out while waiting for completion" ∧
      ∀ t, allDisabled.flags.cached t = false ∧ allDisabled.flags.device t = false ∧
        (allDisabled.enablePhase readTimesOut fun _ => false).1.flags.cached t = true ∧
        (allDisabled.enablePhase readTimesOut fun _ => false).1.flags.device t = true := by
  refine ⟨rfl,?_⟩
  decide

end HandState

end WujiHand

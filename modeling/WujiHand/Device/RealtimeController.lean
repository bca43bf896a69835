import Mathlib.Data.List.FinRange
import Mathlib.Logic.Function.Basic
import WujiHand.Device.Latch

namespace WujiHand

abbrev JointId : Type := Fin 5 × Fin 4

def joints : List JointId :=
  (List.finRange 5).flatMap fun i => (List.finRange 4).map fun j => (i,j)

theorem mem_joints (t : JointId) : t ∈ joints := by
  simp only [joints, List.mem_flatMap, List.mem_map, List.mem_finRange, true_and]
  exact ⟨t.1,t.2,rfl⟩

theorem joints_nodup : joints.Nodup := by decide

-- What becomes of an operation: refused with an exception, or completed; `taken` tells whether
-- the device took the value, which an operation that timed out leaves open.
inductive Reply where
  | rejected (what : String)
  | accepted (success taken : Bool)
deriving DecidableEq, Repr

namespace Reply

def isAccepted : Reply → Bool
  | rejected _ => false
  | accepted _ _ => true

def succeeds : Reply → Bool
  | rejected _ => false
  | accepted success _ => success

def taken : Reply → Bool
  | rejected _ => false
  | accepted _ taken => taken

theorem isAccepted_of_succeeds {r : Reply} (h : r.succeeds = true) : r.isAccepted = true := by
  cases r with
  | rejected => cases h
  | accepted => rfl

end Reply

def issueBatch : List Reply → Except String Nat
  | [] => .ok 0
  | .rejected what :: _ => .error what
  | .accepted success _ :: replies =>
    (issueBatch replies).map fun errors => if success then errors else errors + 1

def runBatch (replies : List Reply) : Except String Unit :=
  (issueBatch replies).bind fun errors => waitOutcome errors

-- The Enabled flag of each joint, as its unit stores it and as the device has it.
structure EnabledFlags where
  cached : JointId → Bool
  device : JointId → Bool

def EnabledFlags.write (value : Bool) (t : JointId) (taken : Bool) (e : EnabledFlags) :
    EnabledFlags where
  cached := Function.update e.cached t value
  device := if taken then Function.update e.device t value else e.device

def saveAndSet (value : Bool) (reply : JointId → Reply) :
    List JointId → (JointId → Bool) → EnabledFlags →
      EnabledFlags × Except String ((JointId → Bool) × Nat)
  | [], lastEnabled, e => (e,.ok (lastEnabled,0))
  | t :: ts, lastEnabled, e =>
    if e.cached t = value then
      saveAndSet value reply ts (Function.update lastEnabled t (e.cached t)) e
    else
      match reply t with
      | .rejected what => (e,.error what)
      | .accepted success taken =>
        let rest := saveAndSet value reply ts (Function.update lastEnabled t (e.cached t))
          (e.write value t taken)
        (rest.1,rest.2.map fun r => (r.1,if success then r.2 else r.2 + 1))

def saveJoints (value : Bool) (reply : JointId → Reply) (memory : JointId → Bool)
    (e : EnabledFlags) : EnabledFlags × Except String (JointId → Bool) :=
  let saved := saveAndSet value reply joints memory e
  (saved.1,saved.2.bind fun r => (waitOutcome r.2).map fun _ => r.1)

def revertSet (value : Bool) (lastEnabled : JointId → Bool) (reply : JointId → Reply) :
    List JointId → EnabledFlags → EnabledFlags × Except String Nat
  | [], e => (e,.ok 0)
  | t :: ts, e =>
    if lastEnabled t = value then revertSet value lastEnabled reply ts e
    else
      match reply t with
      | .rejected what => (e,.error what)
      | .accepted success taken =>
        let rest := revertSet value lastEnabled reply ts (e.write (!value) t taken)
        (rest.1,rest.2.map fun errors => if success then errors else errors + 1)

def revertJoints (value : Bool) (reply : JointId → Reply) (lastEnabled : JointId → Bool)
    (e : EnabledFlags) : EnabledFlags × Except String Unit :=
  let reverted := revertSet value lastEnabled reply joints e
  (reverted.1,reverted.2.bind fun errors => waitOutcome errors)

def saveAndEnableJoints (reply : JointId → Reply) (memory : JointId → Bool) (e : EnabledFlags) :
    EnabledFlags × Except String (JointId → Bool) := saveJoints true reply memory e

def revertEnabledJoints (reply : JointId → Reply) (lastEnabled : JointId → Bool)
    (e : EnabledFlags) : EnabledFlags × Except String Unit := revertJoints true reply lastEnabled e

def saveAndDisableJoints (reply : JointId → Reply) (memory : JointId → Bool) (e : EnabledFlags) :
    EnabledFlags × Except String (JointId → Bool) := saveJoints false reply memory e

def revertDisabledJoints (reply : JointId → Reply) (lastEnabled : JointId → Bool)
    (e : EnabledFlags) : EnabledFlags × Except String Unit := revertJoints false reply lastEnabled e

-- The order the three functions share: no guard stands between the save and the revert.
def bracketed (save : EnabledFlags → EnabledFlags × Except String (JointId → Bool))
    (batch : List Reply) (revert : (JointId → Bool) → EnabledFlags → EnabledFlags × Except String Unit)
    (e : EnabledFlags) : EnabledFlags × Except String Unit :=
  match save e with
  | (e,.error what) => (e,.error what)
  | (e,.ok lastEnabled) =>
    match runBatch batch with
    | .error what => (e,.error what)
    | .ok () => revert lastEnabled e

structure EnableReplies where
  toggle : JointId → Reply
  read : JointId → Reply
  revert : JointId → Reply

structure AttachReplies where
  toggle : JointId → Reply
  controlMode : JointId → Reply
  tPdoId : Reply
  pdoInterval : Reply
  pdoEnabled : Reply
  revert : JointId → Reply

structure DetachReplies where
  toggle : JointId → Reply
  controlMode : JointId → Reply
  pdoEnabled : Reply
  revert : JointId → Reply

def EnableReplies.batch (r : EnableReplies) : List Reply := joints.map r.read

def AttachReplies.batch (r : AttachReplies) : List Reply :=
  joints.map r.controlMode ++ [r.tPdoId,r.pdoInterval,r.pdoEnabled]

def DetachReplies.batch (r : DetachReplies) : List Reply :=
  joints.map r.controlMode ++ [r.pdoEnabled]

structure HandState where
  flags : EnabledFlags
  realtimeController : Option Nat
  realtimeControllerThread : Option Nat

namespace HandState

def handlerAttach (controller : Nat) (s : HandState) : HandState × Except String Unit :=
  match s.realtimeController with
  | some _ => (s,.error "A realtime controller is already attached.")
  | none =>
    ({ s with
        realtimeController := some controller, realtimeControllerThread := some controller },.ok ())

def handlerDetach (s : HandState) : HandState × Except String Nat :=
  match s.realtimeController with
  | none => (s,.error "No realtime controller attached.")
  | some controller =>
    ({ s with realtimeController := none, realtimeControllerThread := none },.ok controller)

def attachRealtimeController (controller : Option Nat) (r : AttachReplies)
    (memory : JointId → Bool) (s : HandState) : HandState × Except String Unit :=
  match controller with
  | none => (s,.error "Controller pointer must not be null.")
  | some controller =>
    match bracketed (saveAndDisableJoints r.toggle memory) r.batch (revertDisabledJoints r.revert)
        s.flags with
    | (flags,.error what) => ({ s with flags := flags },.error what)
    | (flags,.ok ()) => { s with flags := flags }.handlerAttach controller

def detachRealtimeController (r : DetachReplies) (memory : JointId → Bool) (s : HandState) :
    HandState × Except String Nat :=
  match bracketed (saveAndDisableJoints r.toggle memory) r.batch (revertDisabledJoints r.revert)
      s.flags with
  | (flags,.error what) => ({ s with flags := flags },.error what)
  | (flags,.ok ()) => { s with flags := flags }.handlerDetach

def enablePhase (r : EnableReplies) (memory : JointId → Bool) (s : HandState) :
    HandState × Except String Unit :=
  let phase := bracketed (saveAndEnableJoints r.toggle memory) r.batch
    (revertEnabledJoints r.revert) s.flags
  ({ s with flags := phase.1 },phase.2)

end HandState

theorem issueBatch_zero {replies : List Reply} :
    issueBatch replies = .ok 0 ↔ ∀ r ∈ replies, r.succeeds = true := by
  induction replies with
  | nil => exact ⟨fun _ => nofun,fun _ => rfl⟩
  | cons r replies ih =>
    rw [List.forall_mem_cons, ← ih]
    cases r with
    | rejected what => exact ⟨nofun,fun h => absurd h.1 nofun⟩
    | accepted success taken =>
      rw [issueBatch]
      cases issueBatch replies with
      | error what => exact ⟨nofun,fun h => absurd h.2 nofun⟩
      | ok errors => cases success <;> simp [Except.map, Reply.succeeds]

theorem runBatch_ok {replies : List Reply} :
    runBatch replies = .ok () ↔ ∀ r ∈ replies, r.succeeds = true := by
  rw [← issueBatch_zero, runBatch]
  cases issueBatch replies with
  | error what => exact ⟨nofun,nofun⟩
  | ok errors => simp [Except.bind, waitOutcome_ok]

end WujiHand

import WujiHand.Device.LatchRounds
import WujiHand.Device.ServedUnits
import WujiHand.Library.Progress

namespace WujiHand

variable {n : Nat}

def Latch.countUp (l : Latch) : Latch := { l with waitingCount := l.waitingCount + 1 }

def Latch.countDown (success : Bool) (l : Latch) : Latch where
  waitingCount := l.waitingCount - 1
  errorCount := if success then l.errorCount else l.errorCount + 1

-- The operations started with one latch on the stack, and what follows once `wait` has returned.
structure LatchBatch (n : Nat) where
  calls : List (Fin n × LatchCall)
  check : Handler n Callback Context → Except String Unit := fun _ => .ok ()

inductive Failure where
  | timeoutError (what : String)
  | runtimeError (what : String)
deriving DecidableEq, Repr

inductive BatchPc (n : Nat) where
  | issuing (b : LatchBatch n) (calls : List (Fin n × LatchCall)) (later : List (LatchBatch n))
  | waiting (b : LatchBatch n) (later : List (LatchBatch n))
  | returned
  | threw (failure : Failure)

-- One thread that runs batches of operations, the tick thread and the device.
structure BatchRun (n : Nat) where
  plant : Plant n Callback Context
  latches : LatchRef → Latch := fun _ => {}
  begun : Nat := 0
  pc : BatchPc n

inductive BatchEvent where
  | owner
  | round (r : Round)
  | sense (index : BitVec 16) (subIndex : BitVec 8) (value : Buffer8)

namespace BatchRun

def latch (s : BatchRun n) : LatchRef := .blocking s.begun

def next (later : List (LatchBatch n)) (s : BatchRun n) : BatchRun n :=
  match later with
  | [] => { s with pc := .returned }
  | b :: later =>
    { s with
      latches := Function.update s.latches (.blocking (s.begun + 1)) {}, begun := s.begun + 1,
      pc := .issuing b b.calls later }

def start (plant : Plant n Callback Context) (batches : List (LatchBatch n)) : BatchRun n :=
  BatchRun.next batches { plant := plant, pc := .returned }

def ownerStep (codec : PositionCodec) (caller : Nat) (s : BatchRun n) : BatchRun n :=
  match s.pc with
  | .issuing b ((id,c) :: calls) later =>
    let latches := Function.update s.latches s.latch (s.latches s.latch).countUp
    match s.plant.handler.call codec ⟨caller,id,c.toUnitCall s.latch⟩ with
    | .error what => { s with latches := latches, pc := .threw (.runtimeError what) }
    | .ok h =>
      { s with
        plant := { s.plant with handler := h }, latches := latches, pc := .issuing b calls later }
  | .issuing b [] later => { s with pc := .waiting b later }
  | .waiting b later =>
    if (s.latches s.latch).waitingCount = 0 then
      let latches := Function.update s.latches s.latch { s.latches s.latch with errorCount := 0 }
      match waitOutcome (s.latches s.latch).errorCount with
      | .error what => { s with latches := latches, pc := .threw (.timeoutError what) }
      | .ok () =>
        match b.check s.plant.handler with
        | .error what => { s with latches := latches, pc := .threw (.runtimeError what) }
        | .ok () => { s with latches := latches }.next later
    else s
  | .returned => s
  | .threw _ => s

def countDownOn (latches : LatchRef → Latch) (i : Fin n × Invocation Callback Context) :
    LatchRef → Latch :=
  match i.2.latch? with
  | none => latches
  | some l => Function.update latches l ((latches l).countDown i.2.success)

def countDowns (invoked : List (Fin n × Invocation Callback Context)) (latches : LatchRef → Latch) :
    LatchRef → Latch :=
  invoked.foldl countDownOn latches

def roundStep (r : Round) (s : BatchRun n) : BatchRun n :=
  { s with
    plant := s.plant.round r,
    latches := countDowns ((s.plant.round r).invoked.drop s.plant.invoked.length) s.latches }

def step (codec : PositionCodec) (caller : Nat) (s : BatchRun n) : BatchEvent → BatchRun n
  | .owner => s.ownerStep codec caller
  | .round r => s.roundStep r
  | .sense index subIndex value => { s with plant := s.plant.step codec (.sense index subIndex value) }

theorem countDowns_all {l : LatchRef} {invoked : List (Fin n × Invocation Callback Context)}
    (h : ∀ i ∈ invoked, i.2 = ⟨.countDown,.latch l,true⟩) (latches : LatchRef → Latch) :
    countDowns invoked latches l =
      { latches l with waitingCount := (latches l).waitingCount - invoked.length } := by
  induction invoked generalizing latches with
  | nil => simp [countDowns]
  | cons i invoked ih =>
    obtain ⟨hi,hrest⟩ := List.forall_mem_cons.mp h
    have hfirst : countDownOn latches i =
        Function.update latches l ((latches l).countDown true) := by
      simp only [countDownOn, hi, Invocation.latch?]
    have hlast := ih hrest (countDownOn latches i)
    rw [countDowns] at hlast ⊢
    rw [List.foldl_cons, hlast, hfirst, Function.update_self, List.length_cons, Latch.countDown]
    refine congrArg (Latch.mk · _) ?_
    dsimp only
    omega

end BatchRun

namespace StorageUnit

variable {Fn Ctx : Type}

theorem tickVisit_idle {u : StorageUnit Fn Ctx} (h : ¬u.Busy) (now : Int) :
    u.tickVisit now = ⟨u,[],none⟩ :=
  if_pos (not_not.mp h)

theorem Coherent.written_of_read {u : StorageUnit Fn Ctx} (h : u.Coherent)
    (hread : u.operation.mode = .read) (now : Int) (value : Buffer8) :
    (u.tickVisit now).written value = value := by
  have hstep := u.visit_step now
  generalize u.tickVisit now = v at hstep
  cases hstep with
  | idle => rfl
  | completed => rfl
  | completedLate => rfl
  | started => rfl
  | expired => rfl
  | polled => rfl
  | transmitted hbusy _ hwriting =>
    have hwrite := h.write_of_writing hbusy (.inl hwriting)
    rw [hread] at hwrite
    cases hwrite

end StorageUnit

namespace Handler

variable {Fn Ctx : Type}

theorem receives_inert {h : Handler n Fn Ctx} {id : Fin n} (hidle : ¬(h.storage id).Busy)
    (frames : List ReceivedFrame) :
    (frames.foldl Plant.receive h).storage id = h.storage id := by
  induction frames generalizing h with
  | nil => rfl
  | cons frame frames ih =>
    have hfirst : (Plant.receive h frame).storage id = h.storage id :=
      received_inert .raw (.inl (not_not.mp hidle)) frame.bytes frame.fill
    exact (ih (hfirst.symm ▸ hidle)).trans hfirst

theorem receives_thread (h : Handler n Fn Ctx) (frames : List ReceivedFrame) :
    (frames.foldl Plant.receive h).operationThreadId = h.operationThreadId := by
  induction frames generalizing h with
  | nil => rfl
  | cons frame frames ih =>
    refine (ih (Plant.receive h frame)).trans ?_
    refine received_preserves (P := fun h' => h'.operationThreadId = h.operationThreadId) ?_
      (fun _ _ hsame => hsame) rfl
    intro fill h₁ r h₂ hsame hr
    rcases applyResult_ok hr with rfl | ⟨_,_,_,_,_,_,_,rfl⟩ | ⟨_,_,_,_,_,rfl⟩ <;> exact hsame

end Handler

namespace Plant

variable {Fn Ctx : Type} {s : Plant n Fn Ctx} {r : Round}

structure UnitSet (s : Plant n Fn Ctx) (id : Fin n) (u : StorageUnit Fn Ctx) (s' : Plant n Fn Ctx) :
    Prop where
  self : s'.unit id = u
  other : ∀ {id'}, id' ≠ id → s'.unit id' = s.unit id'
  info : ∀ id', (s'.unit id').info = (s.unit id').info
  object : ∀ id', s'.object id' = s.object id'
  served : ∀ {id'}, s.Served id' → s'.Served id'

theorem setUnit_set (s : Plant n Fn Ctx) {id : Fin n} {u : StorageUnit Fn Ctx}
    (hinfo : u.info = (s.unit id).info) :
    s.UnitSet id u { s with handler := s.handler.setUnit id u } := by
  have hlayout : s.handler.SameLayout (s.handler.setUnit id u) :=
    Handler.sameLayout_setUnit ⟨rfl,fun _ => rfl⟩ hinfo
  refine ⟨Handler.setUnit_storage_self ..,fun hne => Handler.setUnit_storage_of_ne _ _ hne,
    hlayout.2,fun id' => ?_,fun h => h.of_layout hlayout rfl⟩
  simp only [object, unit, hlayout.2 id']

structure RoundRest (s : Plant n Fn Ctx) (r : Round) (s' : Plant n Fn Ctx) : Prop where
  idle : ∀ id, ¬(s.unit id).Busy → s'.unit id = s.unit id
  invoked : s'.invoked = s.invoked ++
    (List.finRange n).flatMap fun id => ((s.unit id).tickVisit r.now).invoked.map (id,·)
  thread : s'.handler.operationThreadId = s.handler.operationThreadId

theorem round_rest (henough : s.Enough (.round r)) : s.RoundRest r (s.round r) := by
  obtain ⟨p,abort,hpass,habort,-⟩ := s.handler.tickPass_place r.now r.buffer.rested
  obtain rfl := habort.mpr henough
  obtain ⟨-,hthread,hstorage⟩ := Handler.tickPass_handler hpass
  have hinvoked := (Handler.tickPass_ok (congrArg Prod.snd hpass)).1
  rw [hpass] at hinvoked
  rw [round_eq hpass]
  refine ⟨fun id hidle => ?_,?_,?_⟩
  · have hvisited : p.handler.storage id = s.unit id := by
      rw [hstorage id]
      exact congrArg Visit.unit (StorageUnit.tickVisit_idle hidle r.now)
    exact (Handler.receives_inert (hvisited.symm ▸ hidle) _).trans hvisited
  · exact congrArg (s.invoked ++ ·) hinvoked
  · exact (Handler.receives_thread ..).trans hthread

theorem requestSizes_idle {h : Handler n Fn Ctx} {id : Fin n} (hidle : ¬(h.storage id).Busy)
    (now : Int) : h.requestSizes now id = [] := by
  have hvisit : h.visit id now = ⟨h.storage id,[],none⟩ := StorageUnit.tickVisit_idle hidle now
  rw [Handler.requestSizes, hvisit]
  rfl

theorem framesNeeded_le (h : Handler n Fn Ctx) (now : Int) {ids : List (Fin n)}
    (hids : ∀ id, (h.storage id).Busy → id ∈ ids) : h.framesNeeded now ≤ ids.length + 2 := by
  have hrequests (id : Fin n) :
      (h.requestSizes now id).length ≤ (decide (h.storage id).Busy).toNat := by
    by_cases hbusy : (h.storage id).Busy
    · rw [decide_eq_true hbusy]
      cases hrequest : (h.visit id now).request <;> simp [Handler.requestSizes, hrequest]
    · rw [requestSizes_idle hbusy]
      exact Nat.zero_le _
  have hsizes := Tally.length_flatMap_le hrequests (List.finRange n)
  have hbusy : ((List.finRange n).filter fun id => (h.storage id).Busy).length ≤ ids.length := by
    refine (List.subperm_of_subset ((List.nodup_finRange n).filter _) ?_).length_le
    intro id hid
    exact hids id (by simpa using (List.mem_filter.mp hid).2)
  rw [← List.countP_eq_length_filter] at hbusy
  refine (NextFit.bins_le ..).trans ?_
  rw [List.length_append, List.length_singleton]
  omega

end Plant

end WujiHand

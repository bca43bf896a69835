import WujiHand.Handler.PromptDevice

namespace WujiHand

variable {n : Nat} {Fn Ctx : Type}

namespace StorageUnit

def roundsLeft (u : StorageUnit Fn Ctx) : Nat :=
  match u.operation.mode,u.operation.state with
  | .none,_ => 0
  | _,.success => 1
  | .read,.waiting => 3
  | .read,_ => 2
  | .write,.waiting => 4
  | .write,.writing => 3
  | .write,_ => 2

structure OnCourse (u : StorageUnit Fn Ctx) (value : Buffer8) : Prop where
  coherent : u.Coherent
  unmasked : ¬u.Masked
  written : u.operation.mode = .write →
    u.operation.state = .writingConfirming ∨ u.operation.state = .success →
      Buffer8.as u.info.size.bits value = Buffer8.as u.info.size.bits u.value

structure Advances (u : StorageUnit Fn Ctx) (value : Buffer8) (invoked : List (Invocation Fn Ctx))
    (u' : StorageUnit Fn Ctx) (value' : Buffer8) : Prop where
  onCourse : u'.OnCourse value'
  nearer : u'.roundsLeft + 1 = u.roundsLeft
  invoked : invoked = if u.roundsLeft = 1 then u.invoke true else []
  invoke : u'.invoke true = u.invoke true
  mode : u.roundsLeft ≠ 1 → u'.operation.mode = u.operation.mode
  kept : u.operation.mode = .write ∨ u.roundsLeft ≠ 2 → u'.value = u.value
  fetched : u.operation.mode = .read → u.roundsLeft = 2 →
    Buffer8.as u.info.size.bits u'.value = Buffer8.as u.info.size.bits value
  confirmed : u.operation.mode = .write → u.roundsLeft = 1 → value' = value

theorem as_setWidth (size : Size) (value : BitVec size.bits) :
    Buffer8.as size.bits (value.setWidth 64) = value := by
  have hle : size.bits ≤ 64 := size.bits_le
  ext i hi
  have hi' : i < 64 := by omega
  simp [Buffer8.as, hi, hi']

theorem Coherent.cases {u : StorageUnit Fn Ctx} (h : u.Coherent) (hbusy : u.Busy) :
    u.operation = ⟨.read,.waiting⟩ ∨ u.operation = ⟨.read,.reading⟩ ∨
      u.operation = ⟨.read,.success⟩ ∨ u.operation = ⟨.write,.waiting⟩ ∨
      u.operation = ⟨.write,.writing⟩ ∨ u.operation = ⟨.write,.writingConfirming⟩ ∨
      u.operation = ⟨.write,.success⟩ := by
  unfold Coherent at h
  cases hmode : u.operation.mode with
  | none => exact absurd hmode hbusy
  | read =>
    rw [hmode] at h
    rcases h with hs | hs | hs <;> simp [Operation.eq_mk hmode hs]
  | write =>
    rw [hmode] at h
    rcases h with hs | hs | hs | hs <;> simp [Operation.eq_mk hmode hs]

variable {u : StorageUnit Fn Ctx} {value : Buffer8}

theorem roundsLeft_pos (h : u.Coherent) : 0 < u.roundsLeft ↔ u.Busy := by
  constructor
  · intro hpos hidle
    simp [roundsLeft, hidle] at hpos
  · intro hbusy
    rcases h.cases hbusy with hop | hop | hop | hop | hop | hop | hop <;> simp [roundsLeft, hop]

theorem roundsLeft_one (h : u.Coherent) (hone : u.roundsLeft = 1) :
    u.operation.state = .success := by
  have hbusy : u.Busy := (roundsLeft_pos h).mp (hone ▸ Nat.one_pos)
  rcases h.cases hbusy with hop | hop | hop | hop | hop | hop | hop <;>
    simp [roundsLeft, hop] at hone ⊢

theorem advances_success (h : u.OnCourse value) (hbusy : u.Busy)
    (hsuccess : u.operation.state = .success) :
    u.Advances value (u.invoke true) { u with operation := ⟨.none,.success⟩ } value := by
  have hleft : u.roundsLeft = 1 := by
    unfold roundsLeft
    cases hmode : u.operation.mode with
    | none => exact absurd hmode hbusy
    | read => simp [hsuccess]
    | write => simp [hsuccess]
  refine ⟨⟨trivial,h.unmasked,fun hwrite => by cases hwrite⟩,?_,?_,rfl,?_,fun _ => rfl,?_,
    fun _ _ => rfl⟩
  · rw [hleft]
    rfl
  · rw [if_pos hleft]
  · exact fun hne => absurd hleft hne
  · intro _ htwo
    rw [hleft] at htwo
    cases htwo

theorem advances_waiting (h : u.OnCourse value) (hbusy : u.Busy) (now : Int)
    (hwaiting : u.operation.state = .waiting) :
    u.Advances value []
      { u with
        timeout := deadline now u.timeout,
        operation := ⟨u.operation.mode,if u.operation.mode = .read then .reading else .writing⟩ }
      value := by
  rcases Coherent.cases h.coherent hbusy with hop | hop | hop | hop | hop | hop | hop <;>
    simp only [hop, reduceCtorEq] at hwaiting
  · refine ⟨⟨?_,h.unmasked,?_⟩,?_,?_,rfl,fun _ => rfl,fun _ => rfl,?_,fun _ _ => rfl⟩ <;>
      simp [Coherent, roundsLeft, hop]
  · refine ⟨⟨?_,h.unmasked,?_⟩,?_,?_,rfl,fun _ => rfl,fun _ => rfl,?_,fun _ _ => rfl⟩ <;>
      simp [Coherent, roundsLeft, hop]

theorem advances_reading (h : u.OnCourse value) (hop : u.operation = ⟨.read,.reading⟩)
    (fill : Buffer8) :
    u.Advances value [] (u.readSuccess u.info.size (Buffer8.as u.info.size.bits value) fill)
      value := by
  have hnext : u.readSuccess u.info.size (Buffer8.as u.info.size.bits value) fill =
      { u with
        value := Buffer8.of fill (Buffer8.as u.info.size.bits value),
        version := nextVersion u.version, operation := ⟨.read,.success⟩ } := by
    simp [readSuccess, hop]
  rw [hnext]
  refine ⟨⟨?_,h.unmasked,?_⟩,?_,?_,rfl,?_,?_,?_,fun _ _ => rfl⟩
  · simp [Coherent]
  · simp
  · simp [roundsLeft, hop]
  · simp [roundsLeft, hop]
  · simp [hop]
  · simp [roundsLeft, hop]
  · exact fun _ _ => Buffer8.as_of u.info.size.bits_le ..

theorem advances_confirming (h : u.OnCourse value)
    (hop : u.operation = ⟨.write,.writingConfirming⟩) (fill : Buffer8) :
    u.Advances value [] (u.readSuccess u.info.size (Buffer8.as u.info.size.bits value) fill)
      value := by
  have hequal := h.written (by rw [hop]) (by rw [hop]; exact .inl rfl)
  have hnext : u.readSuccess u.info.size (Buffer8.as u.info.size.bits value) fill =
      { u with operation := ⟨.write,.success⟩ } := by
    simp [readSuccess, hop, hequal]
  rw [hnext]
  refine ⟨⟨?_,h.unmasked,fun _ _ => hequal⟩,?_,?_,rfl,?_,fun _ => rfl,?_,fun _ _ => rfl⟩ <;>
    simp [Coherent, roundsLeft, hop]

theorem advances_writing (h : u.OnCourse value) (hop : u.operation = ⟨.write,.writing⟩) :
    u.Advances value []
      (writeSuccess { u with operation := ⟨u.operation.mode,.writingConfirming⟩ })
      ((Buffer8.as u.info.size.bits u.value).setWidth 64) := by
  have hnext : writeSuccess { u with operation := ⟨u.operation.mode,.writingConfirming⟩ } =
      { u with operation := ⟨.write,.writingConfirming⟩ } := by
    simp [writeSuccess, hop]
  rw [hnext]
  refine ⟨⟨?_,h.unmasked,fun _ _ => as_setWidth ..⟩,?_,?_,rfl,?_,fun _ => rfl,?_,?_⟩ <;>
    simp [Coherent, roundsLeft, hop]

theorem OnCourse.advances {now : Int} (h : u.OnCourse value) (hbusy : u.Busy)
    (hintime : u.operation.state ≠ .waiting → now < u.timeoutPoint) (fill : Buffer8) :
    u.Advances value (u.tickVisit now).invoked
      ((u.tickVisit now).answered u.info.size value fill) ((u.tickVisit now).written value) := by
  have hstep := u.visit_step now
  generalize u.tickVisit now = v at hstep
  cases hstep with
  | idle hidle => exact absurd hbusy hidle
  | completed _ hs hn => exact advances_success h hbusy (hs.resolve_left h.unmasked)
  | completedLate _ hs hn =>
    have hsuccess := hs.resolve_left h.unmasked
    exact absurd (hintime (by simp [hsuccess])) (not_lt.mpr hn)
  | started _ _ hwaiting => exact advances_waiting h hbusy now hwaiting
  | expired _ _ hwaiting _ hn => exact absurd (hintime hwaiting) (not_lt.mpr hn)
  | polled _ _ hs hn =>
    rcases Coherent.cases h.coherent hbusy with hop | hop | hop | hop | hop | hop | hop
    case inr.inl => exact advances_reading h hop fill
    case inr.inr.inr.inr.inr.inl => exact advances_confirming h hop fill
    all_goals simp [hop] at hs
  | transmitted _ _ hs hn =>
    rcases Coherent.cases h.coherent hbusy with hop | hop | hop | hop | hop | hop | hop
    case inr.inr.inr.inr.inl => exact advances_writing h hop
    all_goals simp [hop] at hs

end StorageUnit

-- Nobody else uses the unit, and the device leaves an object that is being written alone.
def PlantEvent.Spares (id : Fin n) (info : StorageInfo) (mode : Mode) : PlantEvent n Fn Ctx → Prop
  | .call c => c.id ≠ id
  | .round _ => True
  | .sense index subIndex _ => mode = .write → ¬(info.index = index ∧ info.subIndex = subIndex)

namespace Plant

variable {codec : PositionCodec} {s : Plant n Fn Ctx} {id : Fin n} {mode : Mode}

def InTime (id : Fin n) (s : Plant n Fn Ctx) : PlantEvent n Fn Ctx → Prop
  | .round r => (s.unit id).Busy → (s.unit id).operation.state ≠ .waiting →
      r.now < (s.unit id).timeoutPoint
  | _ => True

theorem Served.of_layout {s' : Plant n Fn Ctx} (h : s.Served id)
    (hlayout : s.handler.SameLayout s'.handler) (hsize : s'.dictionary.size = s.dictionary.size) :
    s'.Served id := by
  have hinfo (i : Fin n) : (s'.unit i).info = (s.unit i).info := hlayout.2 i
  refine ⟨fun i => ?_,fun i => ?_,?_⟩
  · rw [Handler.findStorageByIndex, hlayout.1, hinfo i]
    exact h.reached i
  · rw [Handler.findStorageByIndex, hlayout.1, hinfo i]
    exact h.known i
  · rw [hinfo id, hsize]
    exact h.size

structure Spared (id : Fin n) (mode : Mode) (s s' : Plant n Fn Ctx) : Prop where
  unit : s'.unit id = s.unit id
  callbacks : callbacks id s'.invoked = callbacks id s.invoked
  object : mode = .write → s'.object id = s.object id
  served : s'.Served id

theorem Served.spared (h : s.Served id) {e : PlantEvent n Fn Ctx}
    (hspares : e.Spares id (s.unit id).info mode) (hround : e.isRound = false) :
    Spared id mode s (s.step codec e) := by
  cases e with
  | round r => cases hround
  | call c =>
    simp only [step]
    split
    · exact ⟨rfl,rfl,fun _ => rfl,h⟩
    · rename_i h' hcall
      obtain ⟨-,u,hu,rfl⟩ := Handler.call_ok hcall
      have hunit : (s.handler.setUnit c.id u).storage id = s.unit id :=
        Handler.setUnit_storage_of_ne _ _ (Ne.symm hspares)
      have hlayout : s.handler.SameLayout (s.handler.setUnit c.id u) :=
        Handler.sameLayout_setUnit ⟨rfl,fun _ => rfl⟩ (Handler.unit_info codec (.called c.op hu))
      refine ⟨hunit,rfl,fun _ => ?_,h.of_layout hlayout rfl⟩
      simp only [object, unit, hlayout.2 id]
  | sense index subIndex value =>
    refine ⟨rfl,rfl,fun hwrite => ?_,h.of_layout ⟨rfl,fun _ => rfl⟩ rfl⟩
    exact ObjectDictionary.store_of_ne value s.dictionary (hspares hwrite)

theorem Spared.trans {s' s'' : Plant n Fn Ctx} (h : Spared id mode s s')
    (h' : Spared id mode s' s'') : Spared id mode s s'' where
  unit := h'.unit.trans h.unit
  callbacks := h'.callbacks.trans h.callbacks
  object := fun hwrite => (h'.object hwrite).trans (h.object hwrite)
  served := h'.served

theorem Served.run_idle (h : s.Served id) (hidle : ¬(s.unit id).Busy)
    {later : List (PlantEvent n Fn Ctx)}
    (hspares : ∀ e ∈ later, e.Spares id (s.unit id).info mode)
    (henough : Runs.Along (step codec) Enough s later) :
    Spared id mode s (Runs.run (step codec) s later) := by
  induction later generalizing s with
  | nil => exact ⟨rfl,rfl,fun _ => rfl,h⟩
  | cons e later ih =>
    obtain ⟨he,hrest⟩ := List.forall_mem_cons.mp hspares
    have hfirst : Spared id mode s (s.step codec e) := by
      cases hround : e.isRound with
      | false => exact h.spared he hround
      | true =>
        cases e with
        | call c => cases hround
        | sense => cases hround
        | round r =>
          obtain ⟨⟨fill,hunit⟩,hobject,hcallbacks,hserved,-⟩ := h.round henough.1
          have hvisit : (s.unit id).tickVisit r.now = ⟨s.unit id,[],none⟩ :=
            if_pos (not_not.mp hidle)
          rw [hvisit] at hunit hobject hcallbacks
          exact ⟨hunit,hcallbacks.trans (List.append_nil _),fun _ => hobject,hserved⟩
    rw [← hfirst.unit] at hidle hrest
    exact hfirst.trans (ih hfirst.served hidle hrest henough.2)

structure Finished (id : Fin n) (mode : Mode) (s s' : Plant n Fn Ctx) : Prop where
  idle : ¬(s'.unit id).Busy
  callbacks : callbacks id s'.invoked = callbacks id s.invoked ++ (s.unit id).invoke true
  stored : mode = .write → (s'.unit id).value = (s.unit id).value ∧
    Buffer8.as (s.unit id).info.size.bits (s'.object id) =
      Buffer8.as (s.unit id).info.size.bits (s.unit id).value

def Fetched (codec : PositionCodec) (id : Fin n) (s : Plant n Fn Ctx)
    (later : List (PlantEvent n Fn Ctx)) (value : Buffer8) : Prop :=
  ((s.unit id).roundsLeft = 1 ∧ value = (s.unit id).value) ∨
    ∃ before r after, later = before ++ .round r :: after ∧
      Buffer8.as (s.unit id).info.size.bits value =
        Buffer8.as (s.unit id).info.size.bits ((Runs.run (step codec) s before).object id)

structure Progress (codec : PositionCodec) (id : Fin n) (mode : Mode) (s : Plant n Fn Ctx)
    (later : List (PlantEvent n Fn Ctx)) (s' : Plant n Fn Ctx) : Prop where
  finished : Finished id mode s s'
  fetched : mode = .read → Fetched codec id s later (s'.unit id).value

theorem Progress.of_spared {s₁ s' : Plant n Fn Ctx} {e : PlantEvent n Fn Ctx}
    {later : List (PlantEvent n Fn Ctx)} (hs₁ : s.step codec e = s₁)
    (h : Spared id mode s s₁) (hlater : Progress codec id mode s₁ later s') :
    Progress codec id mode s (e :: later) s' := by
  obtain ⟨⟨hidle,hcallbacks,hstored⟩,hfetched⟩ := hlater
  rw [h.unit] at hcallbacks hstored
  refine ⟨⟨hidle,by rw [hcallbacks, h.callbacks],hstored⟩,fun hread => ?_⟩
  rcases hfetched hread with ⟨hone,hvalue⟩ | ⟨before,r,after,rfl,hvalue⟩
  · rw [h.unit] at hone hvalue
    exact .inl ⟨hone,hvalue⟩
  · rw [h.unit] at hvalue
    refine .inr ⟨e :: before,r,after,rfl,?_⟩
    rw [Runs.run_cons, hs₁]
    exact hvalue

theorem Progress.of_round {s' : Plant n Fn Ctx} {r : Round}
    {later : List (PlantEvent n Fn Ctx)} (h : s.RoundOf id r (s.round r))
    (hmode : (s.unit id).operation.mode = mode)
    (hadvances : (s.unit id).Advances (s.object id) ((s.unit id).tickVisit r.now).invoked
      ((s.round r).unit id) ((s.round r).object id))
    (hmore : (s.unit id).roundsLeft ≠ 1)
    (hlater : Progress codec id mode (s.round r) later s') :
    Progress codec id mode s (.round r :: later) s' := by
  obtain ⟨⟨hidle,hcallbacks,hstored⟩,hfetched⟩ := hlater
  have hinvoked := hadvances.invoked
  rw [if_neg hmore] at hinvoked
  refine ⟨⟨hidle,?_,fun hwrite => ?_⟩,fun hread => ?_⟩
  · rw [hcallbacks, h.callbacks, hinvoked, List.append_nil, hadvances.invoke]
  · have hkept := hadvances.kept (.inl (hmode.trans hwrite))
    obtain ⟨hvalue,hobject⟩ := hstored hwrite
    rw [h.info, hkept] at hobject
    exact ⟨hvalue.trans hkept,hobject⟩
  · rcases hfetched hread with ⟨hone,hvalue⟩ | ⟨before,r',after,rfl,hvalue⟩
    · have htwo : (s.unit id).roundsLeft = 2 := by
        rw [← hadvances.nearer, hone]
      refine .inr ⟨[],r,later,rfl,?_⟩
      rw [hvalue]
      exact hadvances.fetched (hmode.trans hread) htwo
    · rw [h.info] at hvalue
      exact .inr ⟨.round r :: before,r',after,rfl,hvalue⟩

theorem Progress.of_last {s' : Plant n Fn Ctx} {r : Round} {later : List (PlantEvent n Fn Ctx)}
    (h : s.RoundOf id r (s.round r)) (hcourse : (s.unit id).OnCourse (s.object id))
    (hmode : (s.unit id).operation.mode = mode)
    (hadvances : (s.unit id).Advances (s.object id) ((s.unit id).tickVisit r.now).invoked
      ((s.round r).unit id) ((s.round r).object id))
    (hone : (s.unit id).roundsLeft = 1) (hidle : ¬((s.round r).unit id).Busy)
    (hlater : Spared id mode (s.round r) s') :
    Progress codec id mode s (.round r :: later) s' := by
  have hvalue : ((s.round r).unit id).value = (s.unit id).value :=
    hadvances.kept (.inr (by rw [hone]; decide))
  have hinvoked := hadvances.invoked
  rw [if_pos hone] at hinvoked
  refine ⟨⟨hlater.unit ▸ hidle,?_,fun hwrite => ⟨?_,?_⟩⟩,fun _ => .inl ⟨hone,?_⟩⟩
  · rw [hlater.callbacks, h.callbacks, hinvoked]
  · rw [hlater.unit, hvalue]
  · have hsuccess := StorageUnit.roundsLeft_one hcourse.coherent hone
    rw [hlater.object hwrite, hadvances.confirmed (hmode.trans hwrite) hone]
    exact hcourse.written (hmode.trans hwrite) (.inr hsuccess)
  · rw [hlater.unit, hvalue]

theorem Served.progress (h : s.Served id) (hcourse : (s.unit id).OnCourse (s.object id))
    (hbusy : (s.unit id).Busy) (hmode : (s.unit id).operation.mode = mode)
    {later : List (PlantEvent n Fn Ctx)}
    (hspares : ∀ e ∈ later, e.Spares id (s.unit id).info mode)
    (henough : Runs.Along (step codec) Enough s later)
    (hintime : Runs.Along (step codec) (InTime id) s later)
    (hrounds : (s.unit id).roundsLeft ≤ later.countP PlantEvent.isRound) :
    Progress codec id mode s later (Runs.run (step codec) s later) := by
  induction later generalizing s with
  | nil =>
    have hpos := (StorageUnit.roundsLeft_pos hcourse.coherent).mpr hbusy
    exact absurd hrounds (Nat.not_le.mpr hpos)
  | cons e later ih =>
    obtain ⟨he,hrest⟩ := List.forall_mem_cons.mp hspares
    cases hround : e.isRound with
    | false =>
      have hspared : Spared id mode s (s.step codec e) := h.spared he hround
      have hcourse' : ((s.step codec e).unit id).OnCourse ((s.step codec e).object id) := by
        rw [hspared.unit]
        refine ⟨hcourse.coherent,hcourse.unmasked,fun hwrite => ?_⟩
        rw [hspared.object (hmode.symm.trans hwrite)]
        exact hcourse.written hwrite
      have hfewer : ((s.step codec e).unit id).roundsLeft ≤ later.countP PlantEvent.isRound := by
        rw [hspared.unit]
        simpa [hround] using hrounds
      exact Progress.of_spared rfl hspared
        (ih hspared.served hcourse' (hspared.unit ▸ hbusy) (hspared.unit ▸ hmode)
          (hspared.unit ▸ hrest) henough.2 hintime.2 hfewer)
    | true =>
      cases e with
      | call c => cases hround
      | sense => cases hround
      | round r =>
        have hof := h.round henough.1
        have hadvances : (s.unit id).Advances (s.object id) ((s.unit id).tickVisit r.now).invoked
            ((s.round r).unit id) ((s.round r).object id) := by
          obtain ⟨fill,hunit⟩ := hof.unit
          rw [hunit, hof.object]
          exact hcourse.advances hbusy (hintime.1 hbusy) fill
        have hrest' : ∀ e ∈ later, e.Spares id ((s.round r).unit id).info mode := hof.info ▸ hrest
        by_cases hone : (s.unit id).roundsLeft = 1
        · have hzero : ¬0 < ((s.round r).unit id).roundsLeft := by
            have hnearer := hadvances.nearer
            omega
          have hidle : ¬((s.round r).unit id).Busy :=
            fun hbusy' => hzero ((StorageUnit.roundsLeft_pos hadvances.onCourse.coherent).mpr hbusy')
          exact .of_last hof hcourse hmode hadvances hone hidle
            (hof.served.run_idle hidle hrest' henough.2)
        · have hbusy' : ((s.round r).unit id).Busy := by
            rw [StorageUnit.Busy, hadvances.mode hone]
            exact hbusy
          have hfewer : ((s.round r).unit id).roundsLeft ≤ later.countP PlantEvent.isRound := by
            have hnearer := hadvances.nearer
            have hcount : (s.unit id).roundsLeft ≤ later.countP PlantEvent.isRound + 1 := by
              simpa [hround] using hrounds
            omega
          exact .of_round hof hmode hadvances hone
            (ih hof.served hadvances.onCourse hbusy' ((hadvances.mode hone).trans hmode) hrest'
              henough.2 hintime.2 hfewer)

theorem accepted_call {c : Call n Fn Ctx} (hidle : ¬(s.unit c.id).Busy)
    (hthread : s.handler.operationThreadCheck c.caller = true) :
    s.step codec (.call c) =
      { s with handler := s.handler.setUnit c.id ((s.unit c.id).accept codec c.op) } := by
  have hcall : s.handler.call codec c =
      .ok (s.handler.setUnit c.id ((s.unit c.id).accept codec c.op)) := by
    rw [Handler.call, if_pos hthread, show s.handler.storage c.id = s.unit c.id from rfl,
      StorageUnit.call_idle codec c.op hidle]
    rfl
  simp only [step, hcall]

def roundsNeeded (op : UnitCall Fn Ctx) : Nat := if op.mode = .read then 3 else 4

theorem accept_roundsLeft (codec : PositionCodec) (op : UnitCall Fn Ctx)
    (u : StorageUnit Fn Ctx) :
    (u.accept codec op).Coherent ∧ (u.accept codec op).roundsLeft = roundsNeeded op := by
  cases op <;> exact ⟨.inl rfl,rfl⟩

theorem encoded_write (codec : PositionCodec) {op : UnitCall Fn Ctx} {info : StorageInfo}
    {value : Buffer8} (hvalue : value ∈ op.encoded codec info) : op.mode = .write := by
  cases op with
  | readAsyncUnchecked => cases hvalue
  | readAsync => cases hvalue
  | writeAsyncUnchecked => rfl
  | writeAsync => rfl

theorem prompt_device_completes (codec : PositionCodec) (s : Plant n Fn Ctx)
    (c : Call n Fn Ctx) (later : List (PlantEvent n Fn Ctx)) (h : s.Served c.id)
    (hidle : ¬(s.unit c.id).Busy) (hunmasked : ¬(s.unit c.id).Masked)
    (hthread : s.handler.operationThreadCheck c.caller = true)
    (hspares : ∀ e ∈ later, e.Spares c.id (s.unit c.id).info c.op.mode)
    (henough : Runs.Along (step codec) Enough (s.step codec (.call c)) later)
    (hintime : Runs.Along (step codec) (InTime c.id) (s.step codec (.call c)) later)
    (hrounds : roundsNeeded c.op ≤ later.countP PlantEvent.isRound) :
    let s₁ := s.step codec (.call c)
    let s' := Runs.run (step codec) s₁ later
    let size := (s.unit c.id).info.size.bits
    ¬(s'.unit c.id).Busy ∧
      callbacks c.id s'.invoked = callbacks c.id s.invoked ++ c.op.callback.toList.map
        (⟨·,c.op.context (s.unit c.id).callbackContext,true⟩) ∧
      (∀ value ∈ c.op.encoded codec (s.unit c.id).info,
        (s'.unit c.id).value = value ∧ Buffer8.as size (s'.object c.id) = Buffer8.as size value) ∧
      (c.op.mode = .read → ∃ before r after, later = before ++ .round r :: after ∧
        Buffer8.as size (s'.unit c.id).value =
          Buffer8.as size ((Runs.run (step codec) s₁ before).object c.id)) := by
  intro s₁ s' size
  have hs₁ : s₁ = { s with
      handler := s.handler.setUnit c.id ((s.unit c.id).accept codec c.op) } :=
    accepted_call hidle hthread
  have hunit : s₁.unit c.id = (s.unit c.id).accept codec c.op := by
    rw [hs₁]
    exact Handler.setUnit_storage_self ..
  have hlayout : s.handler.SameLayout s₁.handler := by
    rw [hs₁]
    exact Handler.sameLayout_setUnit ⟨rfl,fun _ => rfl⟩ rfl
  have hserved : s₁.Served c.id := h.of_layout hlayout (by rw [hs₁])
  obtain ⟨hcoherent,hleft⟩ := accept_roundsLeft codec c.op (s.unit c.id)
  have hinfo : (s₁.unit c.id).info = (s.unit c.id).info := hlayout.2 c.id
  have hcourse : (s₁.unit c.id).OnCourse (s₁.object c.id) := by
    rw [hunit]
    refine ⟨hcoherent,hunmasked,fun _ hstate => ?_⟩
    rcases hstate with hstate | hstate <;> cases hstate
  have hbusy : (s₁.unit c.id).Busy := by
    rw [hunit]
    exact c.op.mode_ne_none
  have hmode : (s₁.unit c.id).operation.mode = c.op.mode := by rw [hunit]; rfl
  have hfirst : (s₁.unit c.id).roundsLeft = roundsNeeded c.op := by rw [hunit, hleft]
  obtain ⟨⟨hended,hcallbacks,hstored⟩,hfetched⟩ := hserved.progress hcourse hbusy hmode
    (hinfo ▸ hspares) henough hintime (hfirst.trans_le hrounds)
  rw [hunit] at hcallbacks hstored
  refine ⟨hended,?_,fun value hvalue => ?_,fun hread => ?_⟩
  · rw [hcallbacks, hs₁]
    cases hcallback : c.op.callback with
    | none => simp [StorageUnit.invoke, StorageUnit.accept, hcallback]
    | some f => simp [StorageUnit.invoke, StorageUnit.accept, hcallback]
  · have hwrite : c.op.mode = .write := encoded_write codec hvalue
    have haccepted : ((s.unit c.id).accept codec c.op).value = value := by
      simp [StorageUnit.accept, Option.mem_def.mp hvalue]
    rw [haccepted] at hstored
    exact hstored hwrite
  · rcases hfetched hread with ⟨hone,-⟩ | ⟨before,r,after,hlater,hvalue⟩
    · rw [hfirst, roundsNeeded, if_pos hread] at hone
      cases hone
    · rw [hinfo] at hvalue
      exact ⟨before,r,after,hlater,hvalue⟩

instance (s : Plant n Fn Ctx) (e : PlantEvent n Fn Ctx) : Decidable (s.Enough e) :=
  match e with
  | .call _ => inferInstanceAs (Decidable True)
  | .round _ => inferInstanceAs (Decidable (_ ≤ _))
  | .sense _ _ _ => inferInstanceAs (Decidable True)

instance (id : Fin n) (s : Plant n Fn Ctx) (e : PlantEvent n Fn Ctx) :
    Decidable (s.InTime id e) :=
  match e with
  | .call _ => inferInstanceAs (Decidable True)
  | .round _ => inferInstanceAs (Decidable (_ → _ → _))
  | .sense _ _ _ => inferInstanceAs (Decidable True)

section OneObject

def oneObject : Plant 1 Nat Nat where
  handler := FreshHandler.singleHandler (.make 4 0x64 0 0) 0
  dictionary := ⟨fun _ _ => .four,fun _ _ => 0⟩

def inOneFrame (rs : List SdoResult) : List ReceivedFrame :=
  [⟨Header.encode { description := 0, type := sdoFrame } ++ (rs.flatMap SdoResult.encode ++ []),
    fun _ => 0⟩]

def roundAt (now : Int) : Round where
  now := now
  buffer := Handler.oneTransfer
  frames := inOneFrame
  carried := fun rs => ⟨[rs],List.append_nil rs,.cons ⟨_,_,rfl,rfl,.inl rfl,rfl⟩ .nil⟩

theorem oneObject_write :
    let s' := Runs.run (step .raw) (oneObject.step .raw (.call ⟨0,0,.writeAsync 7 0 20 (some 3) 2⟩))
      [.round (roundAt 0),.round (roundAt 5),.round (roundAt 10),.round (roundAt 15)]
    callbacks 0 s'.invoked = [⟨3,2,true⟩] ∧ Buffer8.as 32 (s'.object 0) = 7 := by
  have hserved : oneObject.Served 0 := ⟨by decide,by decide,rfl⟩
  obtain ⟨-,hcallbacks,hstored,-⟩ := prompt_device_completes .raw oneObject
    ⟨0,0,.writeAsync 7 0 20 (some 3) 2⟩
    [.round (roundAt 0),.round (roundAt 5),.round (roundAt 10),.round (roundAt 15)]
    hserved (by decide) (by decide) rfl (by simp [PlantEvent.Spares]) (by decide +kernel)
    (by decide +kernel) (by decide)
  exact ⟨hcallbacks,(hstored 7 rfl).2⟩

end OneObject

end Plant

end WujiHand

import WujiHand.Device.Batches

namespace WujiHand

variable {n : Nat} {codec : PositionCodec}

-- The ticks lie in a stretch of time that no operation started in it outlasts.
structure Window where
  start : Int
  span : Int
  bounded : start + span ≤ timePointMax

def LatchCall.timeout : LatchCall → Int
  | read timeout => timeout
  | write _ _ timeout => timeout

def LatchCall.Content (codec : PositionCodec) (initial : Buffer8) (u : LatchUnit)
    (value : Buffer8) : LatchCall → Prop
  | read _ => value = initial
  | write data fill _ => u.value = encodeData codec u.info data fill

namespace StorageUnit

def Punctual (w : Window) (u : LatchUnit) : Prop :=
  u.Busy → (u.operation.state = .waiting → w.span ≤ u.timeout) ∧
    (u.operation.state ≠ .waiting → w.start + w.span ≤ u.timeoutPoint)

theorem le_deadline {w : Window} {now timeout : Int} (hnow : w.start ≤ now)
    (htimeout : w.span ≤ timeout) : w.start + w.span ≤ deadline now timeout := by
  have hbounded := w.bounded
  unfold deadline
  split <;> omega

section Punctual

variable {w : Window} {u : LatchUnit}

theorem Punctual.running (h : u.Punctual w) (hbusy : u.Busy) (hstate : u.operation.state ≠ .waiting)
    (state : State) (hstate' : state ≠ .waiting) :
    Punctual w { u with operation := ⟨u.operation.mode,state⟩ } :=
  fun _ => ⟨fun hwaiting => absurd hwaiting hstate',fun _ => (h hbusy).2 hstate⟩

theorem Punctual.visited (h : u.Punctual w) {now : Int} (hnow : w.start ≤ now) :
    (u.tickVisit now).unit.Punctual w := by
  have hstep := u.visit_step now
  generalize u.tickVisit now = v at hstep
  cases hstep with
  | idle => exact h
  | completed => exact fun hbusy => absurd rfl hbusy
  | completedLate => exact fun hbusy => absurd rfl hbusy
  | expired => exact fun hbusy => absurd rfl hbusy
  | started hbusy _ hwaiting =>
    refine fun _ => ⟨fun hstate => ?_,fun _ => le_deadline hnow ((h hbusy).1 hwaiting)⟩
    dsimp only at hstate
    split at hstate <;> cases hstate
  | polled => exact h
  | transmitted hbusy _ hwriting =>
    exact h.running hbusy (by rw [hwriting]; decide) .writingConfirming (by decide)

theorem Punctual.readSuccess (h : u.Punctual w) (size : Size) (value : BitVec size.bits)
    (fill : Buffer8) : (u.readSuccess size value fill).Punctual w := by
  have hstep := u.readSuccess_step size value fill
  generalize u.readSuccess size value fill = u' at hstep
  cases hstep with
  | ignored => exact h
  | refreshed hbusy hreading =>
    exact h.running hbusy (by rw [hreading]; decide) .success (by decide)
  | confirmed hbusy hconfirming =>
    exact h.running hbusy (by rw [hconfirming]; decide) .success (by decide)
  | mismatched hbusy hconfirming =>
    exact h.running hbusy (by rw [hconfirming]; decide) .writing (by decide)

theorem Punctual.writeSuccess (h : u.Punctual w) : u.writeSuccess.Punctual w := by
  have hstep := u.writeSuccess_step
  generalize u.writeSuccess = u' at hstep
  cases hstep with
  | ignored => exact h
  | acknowledged hbusy hwriting =>
    exact h.running hbusy (by rw [hwriting]; decide) .success (by decide)

theorem Punctual.answered (h : u.Punctual w) {now : Int} (hnow : w.start ≤ now) (size : Size)
    (value fill : Buffer8) : ((u.tickVisit now).answered size value fill).Punctual w := by
  have hvisited := h.visited hnow
  unfold Visit.answered
  split
  · exact hvisited
  · exact hvisited.readSuccess size _ fill
  · exact hvisited.writeSuccess

end Punctual

theorem roundsLeft_idle {u : LatchUnit} (h : ¬u.Busy) : u.roundsLeft = 0 := by
  simp [roundsLeft, not_not.mp h]

theorem roundsLeft_le (u : LatchUnit) : u.roundsLeft ≤ 4 := by
  unfold roundsLeft
  split <;> decide

structure Started (codec : PositionCodec) (l : LatchRef) (w : Window) (c : LatchCall)
    (initial : Buffer8) (u : LatchUnit) (value : Buffer8) : Prop where
  onCourse : u.OnCourse value
  punctual : u.Punctual w
  waits : u.Busy → u.invoke true = [⟨.countDown,.latch l,true⟩]
  mode : u.Busy → u.operation.mode = (c.toUnitCall l).mode
  agrees : ¬u.Busy ∨ u.operation.state = .success →
    Buffer8.as u.info.size.bits value = Buffer8.as u.info.size.bits u.value
  content : c.Content codec initial u value

namespace Started

variable {l : LatchRef} {w : Window} {c : LatchCall} {initial value : Buffer8} {u : LatchUnit}

theorem relatch (h : u.Started codec l w c initial value) (hidle : ¬u.Busy) (l' : LatchRef) :
    u.Started codec l' w c initial value :=
  { h with waits := fun hbusy => absurd hbusy hidle, mode := fun hbusy => absurd hbusy hidle }

theorem accepted (hunmasked : ¬u.Masked) (htimeout : w.span ≤ c.timeout)
    (hvalue : value = initial) :
    (u.accept codec (c.toUnitCall l)).Started codec l w c initial value where
  onCourse := by
    refine ⟨(Plant.accept_roundsLeft codec _ u).1,hunmasked,fun _ hstate => ?_⟩
    rcases hstate with hstate | hstate <;> cases hstate
  punctual := by
    cases c <;> exact fun _ => ⟨fun _ => htimeout,fun hstate => absurd rfl hstate⟩
  waits := by cases c <;> exact fun _ => rfl
  mode := fun _ => rfl
  agrees := by
    rintro (hbusy | hstate)
    · exact absurd (c.toUnitCall l).mode_ne_none hbusy
    · cases hstate
  content := by
    cases c with
    | read timeout => exact hvalue
    | write data fill timeout => rfl

theorem success_of_last (h : u.Started codec l w c initial value) (hone : u.roundsLeft = 1) :
    Buffer8.as u.info.size.bits value = Buffer8.as u.info.size.bits u.value :=
  h.agrees (.inr (roundsLeft_one h.onCourse.coherent hone))

variable {u' : LatchUnit} {value' : Buffer8} {invoked : List (Invocation Callback Context)}

theorem busy_next (h : u.Started codec l w c initial value) (hbusy : u.Busy)
    (hadvances : u.Advances value invoked u' value') : u'.Busy ↔ u.roundsLeft ≠ 1 := by
  have hpos := (roundsLeft_pos h.onCourse.coherent).mpr hbusy
  have hnearer := hadvances.nearer
  rw [← roundsLeft_pos hadvances.onCourse.coherent]
  omega

theorem agrees_next (h : u.Started codec l w c initial value) (hbusy : u.Busy)
    (hadvances : u.Advances value invoked u' value') (hinfo : u'.info = u.info)
    (hread : u.operation.mode = .read → value' = value)
    (hnext : ¬u'.Busy ∨ u'.operation.state = .success) :
    Buffer8.as u.info.size.bits value' = Buffer8.as u.info.size.bits u'.value := by
  have hmode := h.mode hbusy
  by_cases hone : u.roundsLeft = 1
  · have hvalue : value' = value := by
      cases c with
      | read timeout => exact hread hmode
      | write data fill timeout => exact hadvances.confirmed hmode hone
    rw [hvalue, hadvances.kept (.inr (by omega))]
    exact h.success_of_last hone
  · have hbusy' := (h.busy_next hbusy hadvances).mpr hone
    have hsuccess : u'.operation.state = .success := hnext.resolve_left (not_not.mpr hbusy')
    have hmode' := (hadvances.mode hone).trans hmode
    cases c with
    | read timeout =>
      have htwo : u.roundsLeft = 2 := by
        have hleft : u'.roundsLeft = 1 := by simp [roundsLeft, hmode', hsuccess, LatchCall.toUnitCall,
          UnitCall.mode]
        rw [← hadvances.nearer, hleft]
      rw [hread hmode]
      exact (hadvances.fetched hmode htwo).symm
    | write data fill timeout =>
      rw [← hinfo]
      exact hadvances.onCourse.written hmode' (.inr hsuccess)

theorem advance (h : u.Started codec l w c initial value) (hbusy : u.Busy)
    (hadvances : u.Advances value invoked u' value') (hinfo : u'.info = u.info)
    (hread : u.operation.mode = .read → value' = value) (hpunctual : u'.Punctual w) :
    u'.Started codec l w c initial value' where
  onCourse := hadvances.onCourse
  punctual := hpunctual
  waits := fun _ => hadvances.invoke.trans (h.waits hbusy)
  mode := fun hbusy' =>
    (hadvances.mode ((h.busy_next hbusy hadvances).mp hbusy')).trans (h.mode hbusy)
  agrees := fun hnext => by
    rw [hinfo]
    exact h.agrees_next hbusy hadvances hinfo hread hnext
  content := by
    have hmode := h.mode hbusy
    have hcontent := h.content
    cases c with
    | read timeout => exact (hread hmode).trans hcontent
    | write data fill timeout =>
      rw [LatchCall.Content, hinfo, hadvances.kept (.inl hmode)]
      exact hcontent

end Started

end StorageUnit

def LatchBatch.ids (batches : List (LatchBatch n)) : List (Fin n) :=
  (batches.flatMap LatchBatch.calls).map Prod.fst

def LatchBatch.reached (outcome : LatchBatch n → Except String Unit) :
    List (LatchBatch n) → List (LatchBatch n)
  | [] => []
  | b :: later =>
    match outcome b with
    | .error _ => [b]
    | .ok () => b :: reached outcome later

def LatchBatch.verdict (outcome : LatchBatch n → Except String Unit) :
    List (LatchBatch n) → BatchPc n
  | [] => .returned
  | b :: later =>
    match outcome b with
    | .error what => .threw (.runtimeError what)
    | .ok () => verdict outcome later

def BatchPc.Over : BatchPc n → Prop
  | .issuing _ _ _ => False
  | .waiting _ _ => False
  | .returned => True
  | .threw _ => True

open LatchBatch

section Position

variable {outcome : LatchBatch n → Except String Unit} {batches : List (LatchBatch n)}

inductive Position (outcome : LatchBatch n → Except String Unit) (batches : List (LatchBatch n)) :
    List (Fin n × LatchCall) → BatchPc n → Prop
  | issuing {passed later : List (LatchBatch n)} {b : LatchBatch n}
      {started calls : List (Fin n × LatchCall)} (hbatches : batches = passed ++ b :: later)
      (hpassed : ∀ b' ∈ passed, outcome b' = .ok ()) (hcalls : b.calls = started ++ calls) :
      Position outcome batches (passed.flatMap LatchBatch.calls ++ started) (.issuing b calls later)
  | waiting {passed later : List (LatchBatch n)} {b : LatchBatch n}
      (hbatches : batches = passed ++ b :: later) (hpassed : ∀ b' ∈ passed, outcome b' = .ok ()) :
      Position outcome batches (passed.flatMap LatchBatch.calls ++ b.calls) (.waiting b later)
  | returned (hpassed : ∀ b ∈ batches, outcome b = .ok ()) :
      Position outcome batches (batches.flatMap LatchBatch.calls) .returned
  | threw {passed later : List (LatchBatch n)} {b : LatchBatch n} {what : String}
      (hbatches : batches = passed ++ b :: later) (hpassed : ∀ b' ∈ passed, outcome b' = .ok ())
      (hfailed : outcome b = .error what) :
      Position outcome batches (passed.flatMap LatchBatch.calls ++ b.calls)
        (.threw (.runtimeError what))

theorem verdict_append {passed : List (LatchBatch n)} (hpassed : ∀ b ∈ passed, outcome b = .ok ())
    (later : List (LatchBatch n)) :
    verdict outcome (passed ++ later) = verdict outcome later ∧
      reached outcome (passed ++ later) = passed ++ reached outcome later := by
  induction passed with
  | nil => exact ⟨rfl,rfl⟩
  | cons b passed ih =>
    obtain ⟨hb,hrest⟩ := List.forall_mem_cons.mp hpassed
    obtain ⟨hverdict,hreached⟩ := ih hrest
    simp only [List.cons_append, verdict, reached, hb, hverdict, hreached, and_self]

theorem Position.final {issued : List (Fin n × LatchCall)} {pc : BatchPc n}
    (h : Position outcome batches issued pc) (hover : pc.Over) :
    pc = verdict outcome batches ∧
      issued = (reached outcome batches).flatMap LatchBatch.calls := by
  cases h with
  | issuing => exact hover.elim
  | waiting => exact hover.elim
  | returned hpassed =>
    have hall := verdict_append hpassed []
    rw [List.append_nil] at hall
    rw [hall.1, hall.2, reached, List.append_nil]
    exact ⟨rfl,rfl⟩
  | @threw passed later b what hbatches hpassed hfailed =>
    subst hbatches
    obtain ⟨hverdict,hreached⟩ := verdict_append hpassed (b :: later)
    rw [hverdict, hreached, verdict, reached, hfailed]
    exact ⟨rfl,by simp⟩

theorem Position.subset {issued : List (Fin n × LatchCall)} {pc : BatchPc n}
    (h : Position outcome batches issued pc) : issued ⊆ batches.flatMap LatchBatch.calls := by
  cases h with
  | issuing hbatches _ hcalls => simp [hbatches, hcalls]
  | waiting hbatches => simp [hbatches]
  | returned => exact fun _ hc => hc
  | threw hbatches => simp [hbatches]

theorem Position.issue {issued : List (Fin n × LatchCall)} {b : LatchBatch n}
    {c : Fin n × LatchCall} {calls : List (Fin n × LatchCall)} {later : List (LatchBatch n)}
    (h : Position outcome batches issued (.issuing b (c :: calls) later)) :
    Position outcome batches (issued ++ [c]) (.issuing b calls later) ∧
      ∃ rest, batches.flatMap LatchBatch.calls = issued ++ c :: rest := by
  cases h with
  | issuing hbatches hpassed hcalls =>
    rw [List.append_assoc]
    refine ⟨.issuing hbatches hpassed ?_,calls ++ later.flatMap LatchBatch.calls,?_⟩
    · rw [hcalls, List.append_assoc]
      rfl
    · simp [hbatches, hcalls]

theorem Position.close {issued : List (Fin n × LatchCall)} {b : LatchBatch n}
    {later : List (LatchBatch n)} (h : Position outcome batches issued (.issuing b [] later)) :
    Position outcome batches issued (.waiting b later) := by
  cases h with
  | issuing hbatches hpassed hcalls =>
    rw [List.append_nil] at hcalls
    rw [← hcalls]
    exact .waiting hbatches hpassed

theorem Position.fail {issued : List (Fin n × LatchCall)} {b : LatchBatch n}
    {later : List (LatchBatch n)} {what : String}
    (h : Position outcome batches issued (.waiting b later)) (hfailed : outcome b = .error what) :
    Position outcome batches issued (.threw (.runtimeError what)) := by
  cases h with
  | waiting hbatches hpassed => exact .threw hbatches hpassed hfailed

theorem Position.pass {issued : List (Fin n × LatchCall)} {b : LatchBatch n}
    {later : List (LatchBatch n)} (h : Position outcome batches issued (.waiting b later))
    (hpass : outcome b = .ok ()) (s : BatchRun n) :
    Position outcome batches issued (s.next later).pc := by
  cases h with
  | @waiting passed _ _ hbatches hpassed =>
    have hall : ∀ b' ∈ passed ++ [b], outcome b' = .ok () := by
      simpa [or_imp, forall_and, hpass] using hpassed
    have hcalls : passed.flatMap LatchBatch.calls ++ b.calls =
        (passed ++ [b]).flatMap LatchBatch.calls := by simp
    rw [hcalls]
    cases later with
    | nil =>
      rw [← hbatches] at hall ⊢
      exact .returned hall
    | cons b' later =>
      rw [← List.append_nil ((passed ++ [b]).flatMap LatchBatch.calls)]
      exact .issuing (by rw [hbatches, List.append_cons]) hall rfl

theorem Position.batch {issued : List (Fin n × LatchCall)} {b : LatchBatch n}
    {later : List (LatchBatch n)} (h : Position outcome batches issued (.waiting b later)) :
    b ∈ batches ∧ b.calls ⊆ issued := by
  cases h with
  | waiting hbatches => exact ⟨by simp [hbatches],List.subset_append_right _ _⟩

end Position

-- Nobody else uses the units, and the device answers every tick within the window.
def BatchEvent.Prompt (w : Window) (s₀ : Plant n Callback Context) (ids : List (Fin n)) :
    BatchEvent → Prop
  | .owner => True
  | .round r =>
    (w.start ≤ r.now ∧ r.now < w.start + w.span) ∧
      ids.length + 2 ≤ r.buffer.buffer.freeTransfers.length
  | .sense index subIndex _ =>
    ∀ id ∈ ids, ¬((s₀.unit id).info.index = index ∧ (s₀.unit id).info.subIndex = subIndex)

namespace BatchRun

structure Startable (caller : Nat) (w : Window) (batches : List (LatchBatch n))
    (s₀ : Plant n Callback Context) : Prop where
  distinct : (ids batches).Nodup
  served : ∀ id ∈ ids batches, s₀.Served id
  unmasked : ∀ id ∈ ids batches, ¬(s₀.unit id).Masked
  lasting : ∀ c ∈ batches.flatMap LatchBatch.calls, w.span ≤ c.2.timeout
  idle : ∀ id, ¬(s₀.unit id).Busy
  thread : s₀.handler.operationThreadCheck caller = true

structure Settled (codec : PositionCodec) (s₀ : Plant n Callback Context)
    (c : Fin n × LatchCall) (u : LatchUnit) : Prop where
  info : u.info = (s₀.unit c.1).info
  value : ∃ value, Buffer8.as u.info.size.bits value = Buffer8.as u.info.size.bits u.value ∧
    c.2.Content codec (s₀.object c.1) u value

def busy (s : BatchRun n) : Nat := Tally.tally (fun u : LatchUnit => decide u.Busy) s.plant.unit

structure Inv (codec : PositionCodec) (caller : Nat) (w : Window) (s₀ : Plant n Callback Context)
    (outcome : LatchBatch n → Except String Unit) (batches : List (LatchBatch n)) (s : BatchRun n)
    (issued : List (Fin n × LatchCall)) : Prop where
  position : Position outcome batches issued s.pc
  served : ∀ id ∈ ids batches, s.plant.Served id
  info : ∀ id, (s.plant.unit id).info = (s₀.unit id).info
  fresh : ∀ id ∉ issued.map Prod.fst, s.plant.unit id = s₀.unit id
  spared : ∀ id ∈ ids batches, id ∉ issued.map Prod.fst → s.plant.object id = s₀.object id
  started : ∀ c ∈ issued, (s.plant.unit c.1).Started codec s.latch w c.2 (s₀.object c.1)
    (s.plant.object c.1)
  counted : s.latches s.latch = ⟨s.busy,0⟩
  quiet : s.pc.Over → s.busy = 0
  thread : s.plant.handler.operationThreadCheck caller = true

variable {caller : Nat} {w : Window} {s₀ : Plant n Callback Context}
  {outcome : LatchBatch n → Except String Unit} {batches : List (LatchBatch n)} {s : BatchRun n}
  {issued : List (Fin n × LatchCall)}

theorem busy_zero : s.busy = 0 ↔ ∀ id, ¬(s.plant.unit id).Busy := by
  simp [busy, Tally.tally_eq_zero]

theorem mem_ids {id : Fin n} (hsubset : issued ⊆ batches.flatMap LatchBatch.calls)
    (hid : id ∈ issued.map Prod.fst) : id ∈ ids batches := by
  obtain ⟨c,hc,rfl⟩ := List.mem_map.mp hid
  exact List.mem_map_of_mem (hsubset hc)

namespace Inv

theorem busy_issued (h : Inv codec caller w s₀ outcome batches s issued)
    (hstart : Startable caller w batches s₀) {id : Fin n} (hbusy : (s.plant.unit id).Busy) :
    id ∈ issued.map Prod.fst := by
  by_contra hid
  rw [h.fresh id hid] at hbusy
  exact hstart.idle id hbusy

theorem enough (h : Inv codec caller w s₀ outcome batches s issued)
    (hstart : Startable caller w batches s₀) {r : Round}
    (hframes : (ids batches).length + 2 ≤ r.buffer.buffer.freeTransfers.length) :
    s.plant.Enough (.round r) :=
  (Plant.framesNeeded_le s.plant.handler r.now fun _ hbusy =>
    mem_ids h.position.subset (h.busy_issued hstart hbusy)).trans hframes

theorem unissued (hstart : Startable caller w batches s₀) {c : Fin n × LatchCall}
    {rest : List (Fin n × LatchCall)}
    (hcalls : batches.flatMap LatchBatch.calls = issued ++ c :: rest) :
    c.1 ∉ issued.map Prod.fst := by
  have hdistinct := hstart.distinct
  rw [ids, hcalls, List.map_append, List.map_cons] at hdistinct
  exact fun hid => (List.nodup_append.mp hdistinct).2.2 c.1 hid c.1 List.mem_cons_self rfl

theorem issue (h : Inv codec caller w s₀ outcome batches s issued)
    (hstart : Startable caller w batches s₀) {b : LatchBatch n} {c : Fin n × LatchCall}
    {calls : List (Fin n × LatchCall)} {later : List (LatchBatch n)}
    (hpc : s.pc = .issuing b (c :: calls) later) :
    Inv codec caller w s₀ outcome batches (s.ownerStep codec caller) (issued ++ [c]) ∧
      (s.ownerStep codec caller).pc = .issuing b calls later := by
  obtain ⟨id,op⟩ := c
  have hposition := h.position
  rw [hpc] at hposition
  obtain ⟨hposition,rest,hcalls⟩ := hposition.issue
  have hid : id ∉ issued.map Prod.fst := unissued hstart hcalls
  have hmem : (id,op) ∈ batches.flatMap LatchBatch.calls := by
    rw [hcalls]
    exact List.mem_append_right _ List.mem_cons_self
  have hunit := h.fresh id hid
  have hidle : ¬(s.plant.unit id).Busy := hunit.symm ▸ hstart.idle id
  have hcall := Handler.call_accepted codec (c := ⟨caller,id,op.toUnitCall s.latch⟩) h.thread hidle
  have hstep : s.ownerStep codec caller =
      { s with
        plant := { s.plant with
          handler := s.plant.handler.setUnit id
            ((s.plant.unit id).accept codec (op.toUnitCall s.latch)) },
        latches := Function.update s.latches s.latch (s.latches s.latch).countUp,
        pc := .issuing b calls later } := by
    rw [ownerStep, hpc]
    dsimp only
    rw [hcall]
    rfl
  rw [hstep]
  have hset := s.plant.setUnit_set (u := (s.plant.unit id).accept codec (op.toUnitCall s.latch)) rfl
  have hne {id' : Fin n} (hid' : id' ∈ issued.map Prod.fst) : id' ≠ id := fun heq => hid (heq ▸ hid')
  have hfirsts : (issued ++ [(id,op)]).map Prod.fst = issued.map Prod.fst ++ [id] := by simp
  refine ⟨⟨hposition,fun id' hid' => hset.served (h.served id' hid'),?_,?_,?_,?_,?_,nofun,h.thread⟩,
    rfl⟩
  · exact fun id' => (hset.info id').trans (h.info id')
  · intro id' hid'
    rw [hfirsts, List.mem_append, List.mem_singleton, not_or] at hid'
    exact (hset.other hid'.2).trans (h.fresh id' hid'.1)
  · intro id' hmem hid'
    rw [hfirsts, List.mem_append, List.mem_singleton, not_or] at hid'
    exact (hset.object id').trans (h.spared id' hmem hid'.1)
  · intro c' hc'
    rcases List.mem_append.mp hc' with hc' | hc'
    · have hother := hne (List.mem_map_of_mem hc')
      rw [hset.object, hset.other hother]
      exact h.started c' hc'
    · obtain rfl := List.mem_singleton.mp hc'
      rw [hset.object, hset.self]
      refine StorageUnit.Started.accepted ?_ (hstart.lasting (id,op) hmem) ?_
      · exact hunit.symm ▸ hstart.unmasked id (List.mem_map_of_mem hmem)
      · exact h.spared id (List.mem_map_of_mem hmem) hid
  · have htally := Tally.tally_update (fun u : LatchUnit => decide u.Busy) s.plant.unit id
      ((s.plant.unit id).accept codec (op.toUnitCall s.latch))
    have hbusy : ((s.plant.unit id).accept codec (op.toUnitCall s.latch)).Busy :=
      (op.toUnitCall s.latch).mode_ne_none
    rw [decide_eq_false hidle, decide_eq_true hbusy] at htally
    refine (Function.update_self ..).trans ?_
    rw [h.counted]
    exact congrArg (Latch.mk · 0) (congrArg Nat.cast htally).symm

theorem settle (h : Inv codec caller w s₀ outcome batches s issued) (hzero : s.busy = 0)
    {s' : BatchRun n} (hplant : s'.plant = s.plant) (hlatch : s'.latches s'.latch = {})
    (hposition : Position outcome batches issued s'.pc) :
    Inv codec caller w s₀ outcome batches s' issued := by
  have hbusy : s'.busy = 0 := by
    rw [busy, hplant]
    exact hzero
  refine ⟨hposition,?_,?_,?_,?_,?_,?_,fun _ => hbusy,?_⟩ <;> try rw [hplant]
  · exact h.served
  · exact h.info
  · exact h.fresh
  · exact h.spared
  · exact fun c hc => (h.started c hc).relatch (busy_zero.mp hzero c.1) s'.latch
  · rw [hlatch, hbusy]
    rfl
  · exact h.thread

theorem close (h : Inv codec caller w s₀ outcome batches s issued) {b : LatchBatch n}
    {later : List (LatchBatch n)} (hpc : s.pc = .issuing b [] later) :
    Inv codec caller w s₀ outcome batches (s.ownerStep codec caller) issued ∧
      (s.ownerStep codec caller).pc = .waiting b later := by
  have hposition := h.position
  rw [hpc] at hposition
  have hstep : s.ownerStep codec caller = { s with pc := .waiting b later } := by
    rw [ownerStep, hpc]
  rw [hstep]
  exact ⟨{ h with position := hposition.close, quiet := nofun },rfl⟩

def Checks (codec : PositionCodec) (s₀ : Plant n Callback Context)
    (outcome : LatchBatch n → Except String Unit) (batches : List (LatchBatch n)) : Prop :=
  ∀ b ∈ batches, ∀ h : Handler n Callback Context,
    (∀ c ∈ b.calls, Settled codec s₀ c (h.storage c.1)) → b.check h = outcome b

theorem settled (h : Inv codec caller w s₀ outcome batches s issued) (hzero : s.busy = 0)
    {c : Fin n × LatchCall} (hc : c ∈ issued) : Settled codec s₀ c (s.plant.unit c.1) where
  info := h.info c.1
  value := ⟨s.plant.object c.1,(h.started c hc).agrees (.inl (busy_zero.mp hzero c.1)),
    (h.started c hc).content⟩

theorem leave (h : Inv codec caller w s₀ outcome batches s issued)
    (hchecks : Checks codec s₀ outcome batches) {b : LatchBatch n} {later : List (LatchBatch n)}
    (hpc : s.pc = .waiting b later) (hzero : s.busy = 0) :
    Inv codec caller w s₀ outcome batches (s.ownerStep codec caller) issued ∧
      ((s.ownerStep codec caller).pc.Over ∨
        ∃ b' later', later = b' :: later' ∧
          (s.ownerStep codec caller).pc = .issuing b' b'.calls later') := by
  have hposition := h.position
  rw [hpc] at hposition
  obtain ⟨hmem,hsubset⟩ := hposition.batch
  have hcheck : b.check s.plant.handler = outcome b :=
    hchecks b hmem s.plant.handler fun c hc => h.settled hzero (hsubset hc)
  have hlatch : s.latches s.latch = {} := by
    rw [h.counted, hzero]
    rfl
  have hreset : Function.update s.latches s.latch { s.latches s.latch with errorCount := 0 } =
      s.latches := by
    rw [hlatch]
    exact Function.update_eq_self_iff.mpr hlatch.symm
  have hstep : s.ownerStep codec caller =
      match outcome b with
      | .error what => { s with pc := .threw (.runtimeError what) }
      | .ok () => s.next later := by
    rw [ownerStep, hpc]
    dsimp only
    rw [hreset, hlatch, if_pos rfl, hcheck]
    rfl
  rw [hstep]
  cases houtcome : outcome b with
  | error what =>
    exact ⟨h.settle hzero rfl hlatch (hposition.fail houtcome),.inl trivial⟩
  | ok =>
    have hpass := hposition.pass houtcome s
    cases later with
    | nil => exact ⟨h.settle hzero rfl hlatch hpass,.inl trivial⟩
    | cons b' later =>
      exact ⟨h.settle hzero rfl (Function.update_self ..) hpass,.inr ⟨b',later,rfl,rfl⟩⟩

theorem sense (h : Inv codec caller w s₀ outcome batches s issued) {index : BitVec 16}
    {subIndex : BitVec 8} (value : Buffer8)
    (hspares : ∀ id ∈ ids batches,
      ¬((s₀.unit id).info.index = index ∧ (s₀.unit id).info.subIndex = subIndex)) :
    Inv codec caller w s₀ outcome batches
      (s.step codec caller (.sense index subIndex value)) issued := by
  have hobject : ∀ id ∈ ids batches,
      (s.plant.step codec (.sense index subIndex value)).object id = s.plant.object id := by
    intro id hid
    have hspared := hspares id hid
    rw [← h.info id] at hspared
    exact ObjectDictionary.store_of_ne value s.plant.dictionary hspared
  refine ⟨h.position,fun id hid => (h.served id hid).of_layout ⟨rfl,fun _ => rfl⟩ rfl,h.info,h.fresh,?_,?_,h.counted,
    h.quiet,h.thread⟩
  · exact fun id hid hfresh => (hobject id hid).trans (h.spared id hid hfresh)
  · intro c hc
    have hid : c.1 ∈ ids batches := List.mem_map_of_mem (h.position.subset hc)
    exact (hobject c.1 hid).symm ▸ h.started c hc

structure UnitRound (codec : PositionCodec) (w : Window) (initial : Buffer8) (s : BatchRun n)
    (r : Round) (id : Fin n) (c : LatchCall) : Prop where
  started : ((s.plant.round r).unit id).Started codec s.latch w c initial
    ((s.plant.round r).object id)
  invoked : ∀ i ∈ ((s.plant.unit id).tickVisit r.now).invoked, i = ⟨.countDown,.latch s.latch,true⟩
  busy : (decide ((s.plant.round r).unit id).Busy).toNat +
      ((s.plant.unit id).tickVisit r.now).invoked.length = (decide (s.plant.unit id).Busy).toNat
  nearer : ((s.plant.round r).unit id).roundsLeft ≤ (s.plant.unit id).roundsLeft - 1

theorem idle_object (h : Inv codec caller w s₀ outcome batches s issued) {id : Fin n}
    (hid : id ∈ ids batches) (hidle : ¬(s.plant.unit id).Busy) {r : Round}
    (henough : s.plant.Enough (.round r)) : (s.plant.round r).object id = s.plant.object id := by
  have hround := ((h.served id hid).round henough).object
  rw [StorageUnit.tickVisit_idle hidle] at hround
  exact hround

theorem round_unit (h : Inv codec caller w s₀ outcome batches s issued) {r : Round}
    (henough : s.plant.Enough (.round r)) (hstart : w.start ≤ r.now)
    (hend : r.now < w.start + w.span) {c : Fin n × LatchCall} (hc : c ∈ issued) :
    UnitRound codec w (s₀.object c.1) s r c.1 c.2 := by
  obtain ⟨id,op⟩ := c
  have hstarted := h.started (id,op) hc
  have hid : id ∈ ids batches := List.mem_map_of_mem (h.position.subset hc)
  by_cases hbusy : (s.plant.unit id).Busy
  · have hround := (h.served id hid).round henough
    obtain ⟨fill,hunit⟩ := hround.unit
    have hlate : (s.plant.unit id).operation.state ≠ .waiting →
        r.now < (s.plant.unit id).timeoutPoint := fun hstate =>
      hend.trans_le ((hstarted.punctual hbusy).2 hstate)
    have hadvances := hstarted.onCourse.advances hbusy hlate fill
    rw [← hunit, ← hround.object] at hadvances
    have hinvoked := hadvances.invoked
    have hnearer := hadvances.nearer
    have hbusy' := hstarted.busy_next hbusy hadvances
    refine ⟨hstarted.advance hbusy hadvances hround.info (fun hread => ?_) ?_,?_,?_,?_⟩
    · rw [hround.object]
      exact hstarted.onCourse.coherent.written_of_read hread r.now (s.plant.object id)
    · rw [hunit]
      exact hstarted.punctual.answered hstart (s.plant.unit id).info.size (s.plant.object id) fill
    · intro i hi
      rw [hinvoked, hstarted.waits hbusy] at hi
      split at hi
      · exact List.mem_singleton.mp hi
      · cases hi
    · rw [hinvoked, hstarted.waits hbusy, decide_eq_true hbusy]
      by_cases hone : (s.plant.unit id).roundsLeft = 1
      · rw [if_pos hone, decide_eq_false fun hb => hbusy'.mp hb hone]
        rfl
      · rw [if_neg hone, decide_eq_true (hbusy'.mpr hone)]
        rfl
    · exact Nat.le_sub_of_add_le hnearer.le
  · have hunit := (Plant.round_rest henough).idle id hbusy
    have hvisit := StorageUnit.tickVisit_idle hbusy r.now
    refine ⟨?_,?_,?_,?_⟩
    · rw [hunit, h.idle_object hid hbusy henough]
      exact hstarted
    · rw [hvisit]
      exact nofun
    · rw [hvisit, hunit]
      rfl
    · rw [hunit, StorageUnit.roundsLeft_idle hbusy]

theorem round (h : Inv codec caller w s₀ outcome batches s issued)
    (hstart : Startable caller w batches s₀) {r : Round}
    (hprompt : BatchEvent.Prompt w s₀ (ids batches) (.round r)) :
    Inv codec caller w s₀ outcome batches (s.roundStep r) issued := by
  obtain ⟨⟨hfrom,hto⟩,hframes⟩ := hprompt
  have henough := h.enough hstart hframes
  have hrest := Plant.round_rest henough
  have hidle {id : Fin n} (hid : id ∉ issued.map Prod.fst) : ¬(s.plant.unit id).Busy :=
    fun hbusy => hid (h.busy_issued hstart hbusy)
  have hunit : ∀ c ∈ issued, UnitRound codec w (s₀.object c.1) s r c.1 c.2 :=
    fun c hc => h.round_unit henough hfrom hto hc
  let made (id : Fin n) := ((s.plant.unit id).tickVisit r.now).invoked
  have hmade (id : Fin n) : (∀ i ∈ made id, i = ⟨.countDown,.latch s.latch,true⟩) ∧
      (decide ((s.plant.round r).unit id).Busy).toNat + (made id).length =
        (decide (s.plant.unit id).Busy).toNat := by
    by_cases hid : id ∈ issued.map Prod.fst
    · obtain ⟨c,hc,rfl⟩ := List.mem_map.mp hid
      exact ⟨(hunit c hc).invoked,(hunit c hc).busy⟩
    · have hvisit := StorageUnit.tickVisit_idle (hidle hid) r.now
      simp only [made, hvisit, hrest.idle id (hidle hid)]
      exact ⟨nofun,rfl⟩
  have hbusy : (s.roundStep r).busy + ((List.finRange n).flatMap fun id =>
      (made id).map (id,·)).length = s.busy :=
    Tally.countP_add_length (fun id => by rw [List.length_map]; exact (hmade id).2) (List.finRange n)
  refine ⟨h.position,?_,?_,?_,?_,fun c hc => (hunit c hc).started,?_,?_,?_⟩
  · exact fun id hid => ((h.served id hid).round henough).served
  · intro id
    by_cases hid : id ∈ ids batches
    · exact ((h.served id hid).round henough).info.trans (h.info id)
    · have hfresh : id ∉ issued.map Prod.fst := fun hmem => hid (mem_ids h.position.subset hmem)
      exact (congrArg StorageUnit.info (hrest.idle id (hidle hfresh))).trans (h.info id)
  · exact fun id hid => (hrest.idle id (hidle hid)).trans (h.fresh id hid)
  · exact fun id hmem hid => (h.idle_object hmem (hidle hid) henough).trans (h.spared id hmem hid)
  · have hall : ∀ i ∈ (List.finRange n).flatMap fun id => (made id).map (id,·),
        i.2 = ⟨.countDown,.latch s.latch,true⟩ := by
      intro i hi
      obtain ⟨id,-,hi⟩ := List.mem_flatMap.mp hi
      obtain ⟨x,hx,rfl⟩ := List.mem_map.mp hi
      exact (hmade id).1 x hx
    have hcounted := countDowns_all hall s.latches
    rw [h.counted] at hcounted
    refine Eq.trans ?_ (hcounted.trans (congrArg (Latch.mk · 0) ?_))
    · rw [roundStep, hrest.invoked, List.drop_left]
      rfl
    · dsimp only
      omega
  · intro hover
    have hzero := h.quiet hover
    omega
  · have hthread := h.thread
    rw [Handler.operationThreadCheck] at hthread ⊢
    exact hrest.thread.symm ▸ hthread

theorem round_left (h : Inv codec caller w s₀ outcome batches s issued)
    (hstart : Startable caller w batches s₀) {r : Round}
    (hprompt : BatchEvent.Prompt w s₀ (ids batches) (.round r)) (id : Fin n) :
    ((s.plant.round r).unit id).roundsLeft ≤ (s.plant.unit id).roundsLeft - 1 := by
  obtain ⟨⟨hfrom,hto⟩,hframes⟩ := hprompt
  have henough := h.enough hstart hframes
  by_cases hid : id ∈ issued.map Prod.fst
  · obtain ⟨c,hc,rfl⟩ := List.mem_map.mp hid
    exact (h.round_unit henough hfrom hto hc).nearer
  · have hidle : ¬(s.plant.unit id).Busy := fun hbusy => hid (h.busy_issued hstart hbusy)
    rw [(Plant.round_rest henough).idle id hidle, StorageUnit.roundsLeft_idle hidle]

end Inv

def cost (batches : List (LatchBatch n)) : Nat := (batches.map fun b => b.calls.length + 6).sum

def mostLeft (s : BatchRun n) : Nat := Tally.most fun id => (s.plant.unit id).roundsLeft

def rankAt (mostLeft : Nat) : BatchPc n → Nat
  | .issuing _ calls later => calls.length + 6 + cost later
  | .waiting _ later => mostLeft + 1 + cost later
  | .returned => 0
  | .threw _ => 0

def rank (s : BatchRun n) : Nat := rankAt s.mostLeft s.pc

def OwnerReady (busy : Nat) : BatchPc n → Prop
  | .issuing _ _ _ => True
  | .waiting _ _ => busy = 0
  | .returned => False
  | .threw _ => False

def RoundReady (busy : Nat) : BatchPc n → Prop
  | .waiting _ _ => busy ≠ 0
  | _ => False

def Ready (s : BatchRun n) : BatchEvent → Prop
  | .owner => OwnerReady s.busy s.pc
  | .round _ => RoundReady s.busy s.pc
  | .sense _ _ _ => False

def Turn (es : List BatchEvent) : Prop := .owner ∈ es ∧ ∃ r, .round r ∈ es

theorem mostLeft_le (s : BatchRun n) : s.mostLeft ≤ 4 :=
  Tally.most_le fun id => (s.plant.unit id).roundsLeft_le

theorem rankAt_over {pc : BatchPc n} (hover : pc.Over) (mostLeft : Nat) : rankAt mostLeft pc = 0 := by
  cases pc with
  | issuing => exact hover.elim
  | waiting => exact hover.elim
  | returned => rfl
  | threw => rfl

theorem rankAt_mono {mostLeft mostLeft' : Nat} (hle : mostLeft' ≤ mostLeft) (pc : BatchPc n) :
    rankAt mostLeft' pc ≤ rankAt mostLeft pc := by
  cases pc with
  | issuing => exact Nat.le_refl _
  | waiting b later => exact Nat.add_le_add_right (Nat.add_le_add_right hle 1) _
  | returned => exact Nat.le_refl _
  | threw => exact Nat.le_refl _

namespace Inv

theorem round_mostLeft_le (h : Inv codec caller w s₀ outcome batches s issued)
    (hstart : Startable caller w batches s₀) {r : Round}
    (hprompt : BatchEvent.Prompt w s₀ (ids batches) (.round r)) :
    (s.roundStep r).mostLeft ≤ s.mostLeft :=
  Tally.most_le fun id => ((h.round_left hstart hprompt id).trans (Nat.sub_le _ _)).trans
    (Tally.le_most (fun id => (s.plant.unit id).roundsLeft) id)

theorem round_mostLeft_lt (h : Inv codec caller w s₀ outcome batches s issued)
    (hstart : Startable caller w batches s₀) {r : Round}
    (hprompt : BatchEvent.Prompt w s₀ (ids batches) (.round r)) (hbusy : s.busy ≠ 0) :
    (s.roundStep r).mostLeft < s.mostLeft := by
  have hle (id : Fin n) : (s.plant.unit id).roundsLeft ≤ s.mostLeft :=
    Tally.le_most (fun id => (s.plant.unit id).roundsLeft) id
  obtain ⟨id,hid⟩ : ∃ id, (s.plant.unit id).Busy := by
    by_contra hnone
    exact hbusy (busy_zero.mpr fun id hb => hnone ⟨id,hb⟩)
  obtain ⟨c,hc,rfl⟩ := List.mem_map.mp (h.busy_issued hstart hid)
  have hpos : 0 < s.mostLeft :=
    ((StorageUnit.roundsLeft_pos (h.started c hc).onCourse.coherent).mpr hid).trans_le (hle c.1)
  have hleft : (s.roundStep r).mostLeft ≤ s.mostLeft - 1 :=
    Tally.most_le fun id' => (h.round_left hstart hprompt id').trans (Nat.sub_le_sub_right (hle id') 1)
  omega

theorem owner_still (h : Inv codec caller w s₀ outcome batches s issued)
    (hready : ¬OwnerReady s.busy s.pc) : s.ownerStep codec caller = s := by
  unfold ownerStep
  cases hpc : s.pc with
  | issuing b calls later =>
    rw [hpc] at hready
    exact absurd trivial hready
  | waiting b later =>
    rw [hpc] at hready
    have hcount : ¬(s.latches s.latch).waitingCount = 0 := by
      rw [h.counted]
      exact Nat.cast_ne_zero.mpr hready
    exact if_neg hcount
  | returned => rfl
  | threw failure => rfl

theorem owner_rank (h : Inv codec caller w s₀ outcome batches s issued)
    (hstart : Startable caller w batches s₀) (hchecks : Checks codec s₀ outcome batches)
    (hready : OwnerReady s.busy s.pc) :
    (∃ issued', Inv codec caller w s₀ outcome batches (s.ownerStep codec caller) issued') ∧
      (s.ownerStep codec caller).rank < s.rank := by
  cases hpc : s.pc with
  | issuing b calls later =>
    cases calls with
    | nil =>
      obtain ⟨hinv,hpc'⟩ := h.close hpc
      refine ⟨⟨issued,hinv⟩,?_⟩
      have hmost := (s.ownerStep codec caller).mostLeft_le
      simp only [rank, hpc, hpc', rankAt, List.length_nil]
      omega
    | cons c calls =>
      obtain ⟨hinv,hpc'⟩ := h.issue hstart hpc
      refine ⟨⟨issued ++ [c],hinv⟩,?_⟩
      simp only [rank, hpc, hpc', rankAt, List.length_cons]
      omega
  | waiting b later =>
    rw [hpc] at hready
    obtain ⟨hinv,hpc'⟩ := h.leave hchecks hpc hready
    refine ⟨⟨issued,hinv⟩,?_⟩
    rcases hpc' with hover | ⟨b',later',rfl,hpc'⟩
    · rw [rank, rankAt_over hover, rank, hpc]
      exact Nat.lt_of_lt_of_le (Nat.succ_pos _) (Nat.le_add_right _ _)
    · simp only [rank, hpc, hpc', rankAt, cost, List.map_cons, List.sum_cons]
      omega
  | returned =>
    rw [hpc] at hready
    exact hready.elim
  | threw failure =>
    rw [hpc] at hready
    exact hready.elim

theorem round_lower (h : Inv codec caller w s₀ outcome batches s issued)
    (hstart : Startable caller w batches s₀) {r : Round}
    (hprompt : BatchEvent.Prompt w s₀ (ids batches) (.round r))
    (hready : RoundReady s.busy s.pc) : (s.roundStep r).rank < s.rank := by
  cases hpc : s.pc with
  | waiting b later =>
    rw [hpc] at hready
    have hlt := h.round_mostLeft_lt hstart hprompt hready
    simp only [rank, roundStep, hpc, rankAt] at hlt ⊢
    omega
  | issuing => rw [hpc] at hready; exact hready.elim
  | returned => rw [hpc] at hready; exact hready.elim
  | threw => rw [hpc] at hready; exact hready.elim

theorem round_rest (h : Inv codec caller w s₀ outcome batches s issued)
    (hstart : Startable caller w batches s₀) {r : Round}
    (hprompt : BatchEvent.Prompt w s₀ (ids batches) (.round r))
    (hready : ¬RoundReady s.busy s.pc) :
    (s.roundStep r).rank ≤ s.rank ∧ ∀ e, s.Ready e → (s.roundStep r).Ready e := by
  refine ⟨rankAt_mono (h.round_mostLeft_le hstart hprompt) s.pc,fun e he => ?_⟩
  cases e with
  | round r' => exact absurd he hready
  | sense => exact he
  | owner =>
    rw [Ready] at he ⊢
    change OwnerReady (s.roundStep r).busy s.pc
    cases hpc : s.pc with
    | waiting b later =>
      rw [hpc] at he
      refine busy_zero.mpr fun id => ?_
      have hidle := busy_zero.mp he id
      exact ((Plant.round_rest (h.enough hstart hprompt.2)).idle id hidle).symm ▸ hidle
    | issuing => trivial
    | returned => rw [hpc] at he; exact he
    | threw => rw [hpc] at he; exact he

end Inv

def Sound (codec : PositionCodec) (caller : Nat) (w : Window) (s₀ : Plant n Callback Context)
    (outcome : LatchBatch n → Except String Unit) (batches : List (LatchBatch n)) (s : BatchRun n) :
    Prop :=
  ∃ issued, Inv codec caller w s₀ outcome batches s issued

theorem ranked (hstart : Startable caller w batches s₀)
    (hchecks : Inv.Checks codec s₀ outcome batches) :
    Runs.Ranked (step codec caller) (Sound codec caller w s₀ outcome batches)
      (fun _ e => e.Prompt w s₀ (ids batches)) Ready rank where
  kept := by
    rintro s e ⟨issued,h⟩ he
    cases e with
    | owner =>
      by_cases hready : OwnerReady s.busy s.pc
      · exact (h.owner_rank hstart hchecks hready).1
      · have hstill := h.owner_still hready
        exact ⟨issued,by rwa [step, hstill]⟩
    | round r => exact ⟨issued,h.round hstart he⟩
    | sense index subIndex value => exact ⟨issued,h.sense value he⟩
  lower := by
    rintro s e ⟨issued,h⟩ he hready
    cases e with
    | owner => exact (h.owner_rank hstart hchecks hready).2
    | round r => exact h.round_lower hstart he hready
    | sense => exact hready.elim
  rest := by
    rintro s e ⟨issued,h⟩ he hready
    cases e with
    | owner =>
      have hstill := h.owner_still hready
      rw [step, hstill]
      exact ⟨Nat.le_refl _,fun _ hb => hb⟩
    | round r => exact h.round_rest hstart he hready
    | sense index subIndex value =>
      exact ⟨Nat.le_refl _,fun b hb => by cases b <;> exact hb⟩

theorem start_inv (hstart : Startable caller w batches s₀) :
    Inv codec caller w s₀ outcome batches (start s₀ batches) [] := by
  have hpc : Position outcome batches [] (start s₀ batches).pc := by
    cases batches with
    | nil => exact .returned nofun
    | cons b later => exact @Position.issuing _ outcome (b :: later) [] later b [] b.calls rfl nofun rfl
  have hplant : (start s₀ batches).plant = s₀ := by cases batches <;> rfl
  have hlatch : (start s₀ batches).latches (start s₀ batches).latch = {} := by
    cases batches with
    | nil => rfl
    | cons b later => simp [start, BatchRun.next, latch]
  have hbusy : (start s₀ batches).busy = 0 := by
    rw [busy_zero, hplant]
    exact hstart.idle
  refine ⟨hpc,?_,?_,?_,?_,nofun,?_,fun _ => hbusy,?_⟩
  · exact hplant.symm ▸ hstart.served
  · exact fun id => by rw [hplant]
  · exact fun id _ => by rw [hplant]
  · exact fun id _ _ => by rw [hplant]
  · rw [hlatch, hbusy]
    rfl
  · exact hplant.symm ▸ hstart.thread

structure Completed (codec : PositionCodec) (s₀ s : Plant n Callback Context)
    (c : Fin n × LatchCall) : Prop where
  info : (s.unit c.1).info = (s₀.unit c.1).info
  agrees : Buffer8.as (s₀.unit c.1).info.size.bits (s.object c.1) =
    Buffer8.as (s₀.unit c.1).info.size.bits (s.unit c.1).value
  content : c.2.Content codec (s₀.object c.1) (s.unit c.1) (s.object c.1)

structure Ended (codec : PositionCodec) (s₀ : Plant n Callback Context)
    (outcome : LatchBatch n → Except String Unit) (batches : List (LatchBatch n))
    (s : BatchRun n) : Prop where
  pc : s.pc = verdict outcome batches
  idle : ∀ id, ¬(s.plant.unit id).Busy
  completed : ∀ c ∈ (reached outcome batches).flatMap LatchBatch.calls, Completed codec s₀ s.plant c
  untouched : ∀ id ∉ ids (reached outcome batches), s.plant.unit id = s₀.unit id ∧
    (id ∈ ids batches → s.plant.object id = s₀.object id)

theorem Inv.ended (h : Inv codec caller w s₀ outcome batches s issued) (hover : s.pc.Over) :
    Ended codec s₀ outcome batches s := by
  have hidle := busy_zero.mp (h.quiet hover)
  obtain ⟨hpc,rfl⟩ := h.position.final hover
  refine ⟨hpc,hidle,fun c hc => ⟨h.info c.1,?_,(h.started c hc).content⟩,fun id hid => ?_⟩
  · rw [← h.info c.1]
    exact (h.started c hc).agrees (.inl (hidle c.1))
  · exact ⟨h.fresh id hid,fun hmem => h.spared id hmem hid⟩

theorem over_step (e : BatchEvent) (hover : s.pc.Over) : (s.step codec caller e).pc.Over := by
  cases e with
  | owner =>
    have hstill : s.ownerStep codec caller = s := by
      unfold ownerStep
      cases hpc : s.pc with
      | issuing => rw [hpc] at hover; exact hover.elim
      | waiting => rw [hpc] at hover; exact hover.elim
      | returned => rfl
      | threw => rfl
    rw [step, hstill]
    exact hover
  | round => exact hover
  | sense => exact hover

theorem turn_ready (hover : ¬s.pc.Over) {es : List BatchEvent} (hturn : Turn es) : ∃ e ∈ es, s.Ready e := by
  obtain ⟨howner,r,hround⟩ := hturn
  cases hpc : s.pc with
  | issuing => exact ⟨.owner,howner,by rw [Ready, hpc]; trivial⟩
  | waiting =>
    by_cases hzero : s.busy = 0
    · exact ⟨.owner,howner,by rw [Ready, hpc]; exact hzero⟩
    · exact ⟨.round r,hround,by rw [Ready, hpc]; exact hzero⟩
  | returned => rw [hpc] at hover; exact absurd trivial hover
  | threw => rw [hpc] at hover; exact absurd trivial hover

theorem rank_start (s₀ : Plant n Callback Context) (batches : List (LatchBatch n)) :
    (start s₀ batches).rank ≤ cost batches := by
  cases batches <;> exact Nat.le_refl _

theorem batches_end (hstart : Startable caller w batches s₀)
    (hchecks : Inv.Checks codec s₀ outcome batches) {turns : List (List BatchEvent)}
    (hturns : ∀ es ∈ turns, Turn es ∧ ∀ e ∈ es, e.Prompt w s₀ (ids batches))
    (hcost : cost batches < turns.length) :
    Ended codec s₀ outcome batches (Runs.run (step codec caller) (start s₀ batches) turns.flatten) := by
  have hranked := ranked hstart hchecks
  have hinv : Sound codec caller w s₀ outcome batches (start s₀ batches) := ⟨[],start_inv hstart⟩
  have hprompt : Runs.Along (step codec caller) (fun _ e => e.Prompt w s₀ (ids batches))
      (start s₀ batches) turns.flatten := by
    refine Runs.along_of_forall fun e he _ => ?_
    obtain ⟨es,hes,he⟩ := List.mem_flatten.mp he
    exact (hturns es hes).2 e he
  obtain ⟨issued,h⟩ := (hranked.run_le hinv hprompt).1
  have hover : (Runs.run (step codec caller) (start s₀ batches) turns.flatten).pc.Over :=
    hranked.rounds_end (fun _ e _ _ hover => over_step e hover)
      (fun _ _ _ hover hturn => turn_ready hover hturn) hinv (fun es hes => (hturns es hes).1)
      hprompt ((rank_start s₀ batches).trans_lt hcost)
  exact h.ended hover

end BatchRun

end WujiHand

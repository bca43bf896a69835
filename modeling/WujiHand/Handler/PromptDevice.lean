import WujiHand.Handler.LifeCycle
import WujiHand.Handler.TickRequests
import WujiHand.Protocol.ObjectDictionary

namespace WujiHand

open Completion

variable {n : Nat} {Fn Ctx : Type}

def ResultFrame (rs : List SdoResult) (bytes : List Byte) : Prop :=
  ∃ header rest, header.length = Header.size ∧ header.getD Header.typeOffset 0 = sdoFrame ∧
    Accepted rest ∧ bytes = header ++ (rs.flatMap SdoResult.encode ++ rest)

structure ReceivedFrame where
  bytes : List Byte
  fill : Nat → Buffer8

-- One tick with what the device makes of it: the transmit buffer, all of it free again, and the
-- frames in which the device brings its answers back.
structure Round where
  now : Int
  buffer : RestedBuffer
  frames : List SdoResult → List ReceivedFrame
  carried : ∀ rs, ∃ parts : List (List SdoResult), parts.flatten = rs ∧
    List.Forall₂ (fun part frame => ResultFrame part frame.bytes) parts (frames rs)

structure Plant (n : Nat) (Fn Ctx : Type) where
  handler : Handler n Fn Ctx
  dictionary : ObjectDictionary
  invoked : List (Fin n × Invocation Fn Ctx) := []

inductive PlantEvent (n : Nat) (Fn Ctx : Type) where
  | call (c : Call n Fn Ctx)
  | round (r : Round)
  | sense (index : BitVec 16) (subIndex : BitVec 8) (value : Buffer8)

def PlantEvent.isRound : PlantEvent n Fn Ctx → Bool
  | .round _ => true
  | _ => false

namespace Plant

def receive (h : Handler n Fn Ctx) (frame : ReceivedFrame) : Handler n Fn Ctx :=
  (h.receiveTransferCompletedCallback frame.bytes frame.fill).1

def round (r : Round) (s : Plant n Fn Ctx) : Plant n Fn Ctx :=
  let pass := (s.handler.tickPass r.now r.buffer.buffer).1
  let frames := pass.buffer.submitted.drop r.buffer.buffer.submitted.length
  let requests := (frames.filter fun f => f.transfer.type = sdoFrame).flatMap Submission.requests
  let served := s.dictionary.serve requests
  { handler := (r.frames served.2).foldl receive pass.handler,
    dictionary := served.1, invoked := s.invoked ++ pass.invoked }

def step (codec : PositionCodec) (s : Plant n Fn Ctx) : PlantEvent n Fn Ctx → Plant n Fn Ctx
  | .call c =>
    match s.handler.call codec c with
    | .error _ => s
    | .ok h => { s with handler := h }
  | .round r => s.round r
  | .sense index subIndex value =>
    { s with dictionary := s.dictionary.store index subIndex value }

end Plant

namespace TickPass

theorem visitUnits_handler {now : Int} {ids : List (Fin n)} {p p' : TickPass n Fn Ctx}
    (hids : ids.Nodup) (h : visitUnits now ids p = (p',none)) :
    p'.handler.indexStorageMap = p.handler.indexStorageMap ∧
      p'.handler.operationThreadId = p.handler.operationThreadId ∧
      ∀ id, p'.handler.storage id =
        if id ∈ ids then (p.handler.visit id now).unit else p.handler.storage id := by
  induction ids generalizing p with
  | nil =>
    cases h
    exact ⟨rfl,rfl,fun id => (if_neg List.not_mem_nil).symm⟩
  | cons id ids ih =>
    obtain ⟨hid,hids⟩ := List.nodup_cons.mp hids
    rw [visitUnits] at h
    split at h
    · cases h
    · rename_i q hvisit
      have hhandler := (visitUnit_ok hvisit).1
      obtain ⟨hmap,hthread,hstorage⟩ := ih hids h
      refine ⟨hmap.trans (by rw [hhandler]; rfl),hthread.trans (by rw [hhandler]; rfl),?_⟩
      intro id'
      rw [hstorage id', hhandler]
      by_cases heq : id' = id
      · subst heq
        rw [if_neg hid, if_pos List.mem_cons_self]
        exact Handler.setUnit_storage_self ..
      · rw [p.handler.afterVisit_visit_of_ne now heq, p.handler.afterVisit_storage_of_ne now heq]
        simp [heq]

end TickPass

namespace Handler

theorem tickPass_handler {now : Int} {h : Handler n Fn Ctx} {b : TransmitBuffer}
    {p : TickPass n Fn Ctx} (hpass : h.tickPass now b = (p,none)) :
    p.handler.indexStorageMap = h.indexStorageMap ∧
      p.handler.operationThreadId = h.operationThreadId ∧
      ∀ id, p.handler.storage id = ((h.storage id).tickVisit now).unit := by
  unfold tickPass at hpass
  split at hpass
  · cases hpass
  · rename_i p₁ hvisits
    obtain ⟨hmap,hthread,hstorage⟩ := TickPass.visitUnits_handler (List.nodup_finRange n) hvisits
    have hfetch := p₁.fetchSdoBuffer_frame []
    split at hpass
    · cases hpass
    · rename_i p₂ hp₂
      rw [hp₂] at hfetch
      have htrigger := p₂.triggerTransmission_frame
      rw [hpass] at htrigger
      rw [htrigger.1.trans hfetch.1]
      refine ⟨hmap,hthread,fun id => ?_⟩
      rw [hstorage id, if_pos (List.mem_finRange id)]
      rfl

theorem tickPass_requests {now : Int} {h : Handler n Fn Ctx} {b : TransmitBuffer}
    {p : TickPass n Fn Ctx} (hb : b.Rested) (hpass : h.tickPass now b = (p,none)) :
    ((p.buffer.submitted.drop b.submitted.length).filter
      fun f => f.transfer.type = sdoFrame).flatMap Submission.requests = h.dueRequests now := by
  obtain ⟨p',abort,hpass',-,hrested⟩ := h.tickPass_place now hb
  obtain ⟨rfl,rfl⟩ := Prod.mk.inj (hpass.symm.trans hpass')
  have hrest := hrested rfl
  obtain ⟨hfresh,hlog₀⟩ := hb.fresh_log
  obtain ⟨hlog,frames,hframes⟩ := tickPass_log hpass hfresh
  rw [hrest.fresh_log.2, hlog₀, ← hframes, List.flatMap_append, List.append_assoc,
    List.append_cancel_left_eq] at hlog
  have hsound : ∀ s ∈ frames, s.WireImage ∧ ∀ r ∈ s.records, Submission.Buffered r := by
    intro s hs
    refine ⟨hrest.sound.submitted s (hframes ▸ List.mem_append_right _ hs),fun r hr => ?_⟩
    have hmem : r ∈ frames.flatMap Submission.records := List.mem_flatMap.mpr ⟨s,hs,hr⟩
    rw [hlog] at hmem
    rcases List.mem_append.mp hmem with hmem | hmem
    · obtain ⟨q,-,rfl⟩ := List.mem_map.mp hmem
      exact .inl ⟨q,rfl⟩
    · exact .inr (List.mem_singleton.mp hmem)
  have hone (q : SdoRequest) : (Record.ofRequest q).requests = [q] := Record.requests_ofRequest q
  rw [← hframes, List.drop_left, Submission.flatMap_sdo_requests hsound, hlog,
    List.flatMap_append, List.flatMap_map]
  simp only [hone, List.flatMap_singleton']
  exact List.append_nil _

inductive Applied : Handler n Fn Ctx → List SdoResult → Handler n Fn Ctx → Prop
  | nil (h : Handler n Fn Ctx) : Applied h [] h
  | cons {h h' h'' : Handler n Fn Ctx} {r : SdoResult} {rs : List SdoResult} (fill : Buffer8)
    (hr : h.applyResult fill r = .ok h') (hrs : Applied h' rs h'') : Applied h (r :: rs) h''

theorem Applied.append {h h' h'' : Handler n Fn Ctx} {rs rs' : List SdoResult}
    (hrs : Applied h rs h') (hrs' : Applied h' rs' h'') : Applied h (rs ++ rs') h'' := by
  induction hrs with
  | nil => exact hrs'
  | cons fill hr _ ih => exact .cons fill hr (ih hrs')

theorem Applied.split {h h'' : Handler n Fn Ctx} {rs rs' : List SdoResult}
    (hrs : Applied h (rs ++ rs') h'') : ∃ h', Applied h rs h' ∧ Applied h' rs' h'' := by
  induction rs generalizing h with
  | nil => exact ⟨h,.nil h,hrs⟩
  | cons r rs ih =>
    cases hrs with
    | cons fill hr hrest =>
      obtain ⟨h',hbefore,hafter⟩ := ih hrest
      exact ⟨h',.cons fill hr hbefore,hafter⟩

theorem applied_of_known {h : Handler n Fn Ctx} {rs : List SdoResult} (fill : Nat → Buffer8)
    (pointer : Nat) (hknown : ∀ r ∈ rs, h.Known r) :
    Applied h rs (applyResults fill pointer rs h).1 := by
  induction rs generalizing pointer h with
  | nil => exact .nil h
  | cons r rs ih =>
    obtain ⟨hr,hrs⟩ := List.forall_mem_cons.mp hknown
    obtain ⟨h',happly⟩ := applyResult_known (fill pointer) hr
    have hknown' : ∀ r ∈ rs, h'.Known r := fun r hmem => by
      rw [Known, findStorageByIndex, applyResult_map happly]
      exact hrs r hmem
    simp only [applyResults, happly]
    exact .cons (fill pointer) happly (ih _ hknown')

theorem parseOutcome_handler (fill : Nat → Buffer8) (pointer : Nat) (rs : List SdoResult)
    (rest : List Byte) (h : Handler n Fn Ctx) :
    (parseOutcome fill pointer rs rest h).1 = (applyResults fill pointer rs h).1 := by
  unfold parseOutcome
  split <;> rename_i heq <;> rw [heq]

theorem Applied.layout {h h' : Handler n Fn Ctx} {rs : List SdoResult} (hrs : Applied h rs h') :
    SameLayout h h' := by
  induction hrs with
  | nil => exact ⟨rfl,fun _ => rfl⟩
  | @cons h h' h'' r rs fill hr _ ih =>
    have hfirst : SameLayout h h' := by
      have hself : SameLayout h h := ⟨rfl,fun _ => rfl⟩
      rcases applyResult_ok hr with
        rfl | ⟨size,index,subIndex,value,id,rfl,hf,rfl⟩ | ⟨index,subIndex,id,rfl,hf,rfl⟩
      · exact hself
      · exact sameLayout_setUnit hself (unit_info .raw (.readSuccess size value fill))
      · exact sameLayout_setUnit hself (unit_info .raw .writeSuccess)
    exact ⟨ih.1.trans hfirst.1,fun id => (ih.2 id).trans (hfirst.2 id)⟩

end Handler

namespace Plant

theorem receive_applied {h : Handler n Fn Ctx} {frame : ReceivedFrame} {rs : List SdoResult}
    (hframe : ResultFrame rs frame.bytes) (hknown : ∀ r ∈ rs, h.Known r) :
    Handler.Applied h rs (receive h frame) := by
  obtain ⟨header,rest,hlength,htype,haccepted,hbytes⟩ := hframe
  rw [receive, hbytes, Handler.receive_sdo frame.fill h hlength htype (.inl haccepted),
    Handler.parseOutcome_handler]
  exact Handler.applied_of_known frame.fill Header.size hknown

theorem receive_all {h : Handler n Fn Ctx} {parts : List (List SdoResult)}
    {frames : List ReceivedFrame}
    (hframes : List.Forall₂ (fun part frame => ResultFrame part frame.bytes) parts frames)
    (hknown : ∀ r ∈ parts.flatten, h.Known r) :
    Handler.Applied h parts.flatten (frames.foldl receive h) := by
  induction hframes generalizing h with
  | nil => exact .nil h
  | @cons part frame parts frames hframe _ ih =>
    rw [List.flatten_cons] at hknown ⊢
    have hfirst := receive_applied hframe fun r hr => hknown r (List.mem_append_left _ hr)
    refine hfirst.append (ih fun r hr => ?_)
    rw [Handler.Known, Handler.findStorageByIndex, hfirst.layout.1]
    exact hknown r (List.mem_append_right _ hr)

end Plant

theorem StorageUnit.due_address {now : Int} {u : StorageUnit Fn Ctx} {q : SdoRequest}
    (hdue : u.due now = some q) : q.index = u.info.index ∧ q.subIndex = u.info.subIndex := by
  unfold due at hdue
  split at hdue
  · split at hdue
    case h_1 => cases hdue; exact ⟨rfl,rfl⟩
    case h_2 => cases hdue; exact ⟨rfl,rfl⟩
    case h_3 => cases hdue; exact ⟨rfl,rfl⟩
    case h_4 => cases hdue
    case h_5 => cases hdue
  · cases hdue

namespace Handler

theorem Applied.untouched {h h' : Handler n Fn Ctx} {rs : List SdoResult} {id : Fin n}
    (hrs : Applied h rs h')
    (helsewhere : ∀ r ∈ rs, h.findStorageByIndex r.index r.subIndex ≠ some id) :
    h'.storage id = h.storage id := by
  induction hrs with
  | nil => rfl
  | @cons h h' h'' r rs fill hr _ ih =>
    obtain ⟨hne,hrest⟩ := List.forall_mem_cons.mp helsewhere
    have hfirst : h'.storage id = h.storage id := by
      rcases applyResult_ok hr with
        rfl | ⟨size,index,subIndex,value,id',rfl,hf,rfl⟩ | ⟨index,subIndex,id',rfl,hf,rfl⟩
      · rfl
      · exact setUnit_storage_of_ne h _ fun heq => hne (heq ▸ hf)
      · exact setUnit_storage_of_ne h _ fun heq => hne (heq ▸ hf)
    refine (ih fun r hmem => ?_).trans hfirst
    rw [findStorageByIndex, applyResult_map hr]
    exact hrest r hmem

end Handler

namespace Plant

def unit (s : Plant n Fn Ctx) (id : Fin n) : StorageUnit Fn Ctx := s.handler.storage id

def object (s : Plant n Fn Ctx) (id : Fin n) : Buffer8 :=
  s.dictionary.value (s.unit id).info.index (s.unit id).info.subIndex

def callbacks (id : Fin n) (invoked : List (Fin n × Invocation Fn Ctx)) :
    List (Invocation Fn Ctx) :=
  invoked.filterMap fun i => if i.1 = id then some i.2 else none

structure Served (s : Plant n Fn Ctx) (id : Fin n) : Prop where
  reached : ∀ id', s.handler.findStorageByIndex (s.unit id').info.index (s.unit id').info.subIndex =
    some id ↔ id' = id
  known : ∀ id',
    (s.handler.findStorageByIndex (s.unit id').info.index (s.unit id').info.subIndex).isSome
  size : s.dictionary.size (s.unit id).info.index (s.unit id).info.subIndex = (s.unit id).info.size

def Enough (s : Plant n Fn Ctx) : PlantEvent n Fn Ctx → Prop
  | .round r => s.handler.framesNeeded r.now ≤ r.buffer.buffer.freeTransfers.length
  | _ => True

theorem callbacks_visits {ids : List (Fin n)} (hids : ids.Nodup)
    (invoked : Fin n → List (Invocation Fn Ctx)) (id : Fin n) :
    callbacks id (ids.flatMap fun i => (invoked i).map (i,·)) =
      if id ∈ ids then invoked id else [] := by
  induction ids with
  | nil => rfl
  | cons i ids ih =>
    obtain ⟨hi,hids⟩ := List.nodup_cons.mp hids
    have hrest := ih hids
    rw [callbacks, List.flatMap_cons, List.filterMap_append, List.filterMap_map]
    rw [callbacks] at hrest
    rw [hrest]
    by_cases heq : i = id
    · subst heq
      simp [hi]
    · simp [heq, Ne.symm heq]

end Plant

def Visit.answered (v : Visit Fn Ctx) (size : Size) (value fill : Buffer8) : StorageUnit Fn Ctx :=
  match v.request with
  | none => v.unit
  | some (.read _ _) => v.unit.readSuccess size (Buffer8.as size.bits value) fill
  | some (.write _ _ _ _) => v.unit.writeSuccess

def Visit.written (v : Visit Fn Ctx) (value : Buffer8) : Buffer8 :=
  match v.request with
  | some (.write _ _ _ value) => value.setWidth 64
  | _ => value

namespace Plant

variable {s : Plant n Fn Ctx} {id : Fin n} {r : Round}

theorem Served.due_elsewhere (h : s.Served id) {ids : List (Fin n)} (hid : id ∉ ids) (now : Int)
    {q : SdoRequest} (hq : q ∈ ids.filterMap fun i => (s.unit i).due now) :
    s.handler.findStorageByIndex q.index q.subIndex ≠ some id ∧
      ¬((s.unit id).info.index = q.index ∧ (s.unit id).info.subIndex = q.subIndex) := by
  obtain ⟨i,hi,hdue⟩ := List.mem_filterMap.mp hq
  obtain ⟨hindex,hsub⟩ := StorageUnit.due_address hdue
  have hne : i ≠ id := ne_of_mem_of_not_mem hi hid
  rw [hindex, hsub]
  refine ⟨fun hfound => hne ((h.reached i).mp hfound),?_⟩
  rintro ⟨hindex',hsub'⟩
  refine hne ((h.reached i).mp ?_)
  rw [← hindex', ← hsub']
  exact (h.reached id).mpr rfl

theorem Served.reached_self (h : s.Served id) :
    s.handler.findStorageByIndex (s.unit id).info.index (s.unit id).info.subIndex = some id :=
  (h.reached id).mpr rfl

theorem Served.answers_elsewhere (h : s.Served id) {g : Handler n Fn Ctx}
    (hmap : g.indexStorageMap = s.handler.indexStorageMap) {ids : List (Fin n)} (hid : id ∉ ids)
    (now : Int) (d : ObjectDictionary) :
    ∀ r ∈ (d.serve (ids.filterMap fun i => (s.unit i).due now)).2,
      g.findStorageByIndex r.index r.subIndex ≠ some id := by
  intro r hr
  obtain ⟨q,hq,hindex,hsub⟩ := d.serve_address hr
  rw [hindex, hsub, Handler.findStorageByIndex, hmap]
  exact (h.due_elsewhere hid now hq).1

theorem Served.applied (h : s.Served id) {now : Int} {g g' : Handler n Fn Ctx}
    (hmap : g.indexStorageMap = s.handler.indexStorageMap)
    (hvisited : g.storage id = ((s.unit id).tickVisit now).unit)
    (happlied : Handler.Applied g (s.dictionary.serve (s.handler.dueRequests now)).2 g') :
    ∃ fill, g'.storage id =
        ((s.unit id).tickVisit now).answered (s.unit id).info.size (s.object id) fill ∧
      (s.dictionary.serve (s.handler.dueRequests now)).1.value (s.unit id).info.index
          (s.unit id).info.subIndex = ((s.unit id).tickVisit now).written (s.object id) := by
  obtain ⟨before,after,hids⟩ := List.append_of_mem (List.mem_finRange id)
  have hnodup := List.nodup_finRange n
  rw [hids] at hnodup
  obtain ⟨-,hafter,hdisjoint⟩ := List.nodup_append.mp hnodup
  have hid : id ∉ before := fun hmem => hdisjoint id hmem id List.mem_cons_self rfl
  have hid' : id ∉ after := (List.nodup_cons.mp hafter).1
  have hdue : s.handler.dueRequests now = before.filterMap (fun i => (s.unit i).due now) ++
      (((s.unit id).due now).toList ++ after.filterMap fun i => (s.unit i).due now) := by
    rw [Handler.dueRequests, hids, List.filterMap_append, List.filterMap_cons]
    cases hown : (s.handler.storage id).due now with
    | none => simp only [unit, hown, Option.toList_none, List.nil_append]
    | some q => simp only [unit, hown, Option.toList_some, List.singleton_append]
  have hrequest := (s.unit id).visit_request now
  rw [hdue, ObjectDictionary.serve_append] at happlied ⊢
  have hbefore := h.answers_elsewhere hmap hid now s.dictionary
  have hstill : (s.dictionary.serve (before.filterMap fun i => (s.unit i).due now)).1.value
      (s.unit id).info.index (s.unit id).info.subIndex = s.object id :=
    s.dictionary.serve_of_ne fun q hq => (h.due_elsewhere hid now hq).2
  have hwidth : (s.dictionary.serve (before.filterMap fun i => (s.unit i).due now)).1.size
      (s.unit id).info.index (s.unit id).info.subIndex = (s.unit id).info.size := by
    rw [s.dictionary.serve_size]
    exact h.size
  generalize s.dictionary.serve (before.filterMap fun i => (s.unit i).due now) = served at *
  obtain ⟨g₁,happlied₁,happlied₂⟩ := happlied.split
  have hfirst := (happlied₁.untouched hbefore).trans hvisited
  have hmap₁ := happlied₁.layout.1.trans hmap
  cases hown : (s.unit id).due now with
  | none =>
    simp only [hown, Option.toList_none, List.nil_append] at happlied₂ hrequest ⊢
    refine ⟨0,?_,?_⟩
    · rw [happlied₂.untouched (h.answers_elsewhere hmap₁ hid' now served.1), hfirst,
        Visit.answered, hrequest]
    · rw [Visit.written, hrequest, ← hstill]
      exact served.1.serve_of_ne fun q hq => (h.due_elsewhere hid' now hq).2
  | some q =>
    simp only [hown, Option.toList_some, List.singleton_append, ObjectDictionary.serve]
      at happlied₂ hrequest ⊢
    have haddress := StorageUnit.due_address hown
    cases happlied₂ with
    | @cons _ g₂ _ _ _ fill hr hrest =>
      have hlast := hrest.untouched
        (h.answers_elsewhere ((Handler.applyResult_map hr).trans hmap₁) hid' now _)
      have hfound : g₁.findStorageByIndex (s.unit id).info.index (s.unit id).info.subIndex =
          some id := by
        rw [Handler.findStorageByIndex, hmap₁]
        exact h.reached_self
      have hkept := (served.1.execute q).serve_of_ne fun q hq => (h.due_elsewhere hid' now hq).2
      cases q with
      | read index subIndex =>
        obtain ⟨rfl,rfl⟩ := haddress
        simp only [Handler.applyResult, ObjectDictionary.answer, hfound, Except.ok.injEq] at hr
        refine ⟨fill,?_,?_⟩
        · rw [hlast, ← hr, Handler.setUnit_storage_self, hfirst, Visit.answered, hrequest, hstill]
          dsimp only
          rw [hwidth]
        · rw [hkept, Visit.written, hrequest]
          exact hstill
      | write size index subIndex value =>
        obtain ⟨rfl,rfl⟩ := haddress
        simp only [Handler.applyResult, ObjectDictionary.answer, hfound, Except.ok.injEq] at hr
        refine ⟨fill,?_,?_⟩
        · rw [hlast, ← hr, Handler.setUnit_storage_self, hfirst, Visit.answered, hrequest]
        · rw [hkept, Visit.written, hrequest]
          exact ObjectDictionary.store_self ..

theorem round_eq {p : TickPass n Fn Ctx}
    (hpass : s.handler.tickPass r.now r.buffer.buffer = (p,none)) :
    s.round r =
      { handler :=
          (r.frames (s.dictionary.serve (s.handler.dueRequests r.now)).2).foldl receive p.handler,
        dictionary := (s.dictionary.serve (s.handler.dueRequests r.now)).1,
        invoked := s.invoked ++ p.invoked } := by
  rw [round, hpass]
  simp only [Handler.tickPass_requests r.buffer.rested hpass]

structure RoundOf (s : Plant n Fn Ctx) (id : Fin n) (r : Round) (s' : Plant n Fn Ctx) : Prop where
  unit : ∃ fill, s'.unit id =
    ((s.unit id).tickVisit r.now).answered (s.unit id).info.size (s.object id) fill
  object : s'.object id = ((s.unit id).tickVisit r.now).written (s.object id)
  callbacks : callbacks id s'.invoked =
    callbacks id s.invoked ++ ((s.unit id).tickVisit r.now).invoked
  served : s'.Served id
  info : (s'.unit id).info = (s.unit id).info

theorem Served.round (h : s.Served id) (henough : s.Enough (.round r)) :
    s.RoundOf id r (s.round r) := by
  obtain ⟨p,abort,hpass,habort,-⟩ := s.handler.tickPass_place r.now r.buffer.rested
  obtain rfl := habort.mpr henough
  obtain ⟨hmap,-,hstorage⟩ := Handler.tickPass_handler hpass
  have hinvoked := (Handler.tickPass_ok (congrArg Prod.snd hpass)).1
  rw [hpass] at hinvoked
  have hresults := r.carried (s.dictionary.serve (s.handler.dueRequests r.now)).2
  obtain ⟨parts,hparts,hframes⟩ := hresults
  have hknown : ∀ q ∈ parts.flatten, p.handler.Known q := by
    intro q hq
    rw [hparts] at hq
    obtain ⟨request,hrequest,hindex,hsub⟩ := s.dictionary.serve_address hq
    obtain ⟨i,-,hdue⟩ := List.mem_filterMap.mp hrequest
    obtain ⟨hindex',hsub'⟩ := StorageUnit.due_address hdue
    rw [Handler.Known, Handler.findStorageByIndex, hmap, hindex, hsub, hindex', hsub']
    exact h.known i
  have happlied := receive_all hframes hknown
  rw [hparts] at happlied
  obtain ⟨fill,hunit,hobject⟩ := h.applied hmap (hstorage id) happlied
  have hinfo (i : Fin n) : ((s.round r).unit i).info = (s.unit i).info := by
    rw [round_eq hpass]
    refine (happlied.layout.2 i).trans ?_
    rw [hstorage i]
    exact Handler.unit_info .raw (.visited r.now)
  have htable : (s.round r).handler.indexStorageMap = s.handler.indexStorageMap := by
    rw [round_eq hpass]
    exact happlied.layout.1.trans hmap
  refine ⟨⟨fill,?_⟩,?_,?_,⟨fun i => ?_,fun i => ?_,?_⟩,hinfo id⟩
  · rw [round_eq hpass]
    exact hunit
  · rw [object, hinfo id, round_eq hpass]
    exact hobject
  · rw [round_eq hpass]
    dsimp only
    rw [callbacks, List.filterMap_append, hinvoked]
    refine congrArg (_ ++ ·) ((callbacks_visits (List.nodup_finRange n) _ id).trans ?_)
    rw [if_pos (List.mem_finRange id)]
    rfl
  · rw [Handler.findStorageByIndex, htable, hinfo i]
    exact h.reached i
  · rw [Handler.findStorageByIndex, htable, hinfo i]
    exact h.known i
  · rw [hinfo id, round_eq hpass, s.dictionary.serve_size]
    exact h.size

end Plant

end WujiHand

import WujiHand.Driver.Filling
import WujiHand.Handler.System
import WujiHand.Handler.TickLoop

namespace WujiHand

open NextFit TransmitBuffer

variable {n : Nat} {Fn Ctx : Type}

def StorageUnit.Expired (now : Int) (u : StorageUnit Fn Ctx) : Prop :=
  u.Busy ∧ ¬u.Masked ∧ u.operation.state ≠ .waiting ∧ u.operation.state ≠ .success ∧
    now ≥ u.timeoutPoint

theorem StorageUnit.Expired.visit {now : Int} {u : StorageUnit Fn Ctx} (h : u.Expired now) :
    (u.tickVisit now).invoked = u.invoke false := by
  obtain ⟨hb,hm,hw,hs,hn⟩ := h
  have hstep := visit_step now u
  generalize u.tickVisit now = v at hstep
  cases hstep with
  | idle hidle => exact absurd hb hidle
  | completed _ hdone => exact absurd hdone (not_or.mpr ⟨hm,hs⟩)
  | completedLate _ hdone => exact absurd hdone (not_or.mpr ⟨hm,hs⟩)
  | started _ _ hwaiting => exact absurd hwaiting hw
  | expired => rfl
  | polled _ _ _ hn' => exact absurd hn (not_le.mpr hn')
  | transmitted _ _ _ hn' => exact absurd hn (not_le.mpr hn')

namespace Handler

theorem afterVisit_storage_of_ne (h : Handler n Fn Ctx) {id id' : Fin n} (now : Int)
    (hne : id' ≠ id) : (h.afterVisit id now).storage id' = h.storage id' :=
  setUnit_storage_of_ne h _ hne

theorem afterVisit_visit_of_ne (h : Handler n Fn Ctx) {id id' : Fin n} (now : Int)
    (hne : id' ≠ id) : (h.afterVisit id now).visit id' now = h.visit id' now := by
  rw [visit, afterVisit_storage_of_ne h now hne, visit]

def requestSizes (now : Int) (h : Handler n Fn Ctx) (id : Fin n) : List Nat :=
  ((h.visit id now).request.map SdoRequest.length).toList

def framesNeeded (now : Int) (h : Handler n Fn Ctx) : Nat :=
  bins frameCapacity prefillSize prefillSize ((List.finRange n).flatMap (h.requestSizes now) ++ [0])

end Handler

namespace TickPass

theorem fetchSdoBuffer_frame (record : List Byte) (p : TickPass n Fn Ctx) :
    (p.fetchSdoBuffer record).1.handler = p.handler ∧
      (p.fetchSdoBuffer record).1.invoked = p.invoked ∧
      (p.fetchSdoBuffer record).1.buffered = p.buffered := by
  unfold fetchSdoBuffer
  split
  · exact ⟨rfl,rfl,rfl⟩
  · exact ⟨rfl,rfl,rfl⟩
  · exact ⟨rfl,rfl,rfl⟩

theorem triggerTransmission_frame (p : TickPass n Fn Ctx) :
    p.triggerTransmission.1.handler = p.handler ∧ p.triggerTransmission.1.invoked = p.invoked ∧
      p.triggerTransmission.1.buffered = p.buffered := by
  unfold triggerTransmission
  split
  · exact ⟨rfl,rfl,rfl⟩
  · exact ⟨rfl,rfl,rfl⟩

theorem visitUnit_ok {now : Int} {id : Fin n} {p p' : TickPass n Fn Ctx}
    (h : visitUnit now id p = (p',none)) :
    p'.handler = p.handler.afterVisit id now ∧
      p'.invoked = p.invoked ++ (p.handler.visit id now).invoked.map (id,·) ∧
      p'.buffered = p.buffered ++ if (p.handler.visit id now).request.isSome then [id] else [] := by
  unfold visitUnit at h
  cases hrequest : (p.handler.visit id now).request with
  | none =>
    rw [hrequest] at h
    obtain rfl := congrArg Prod.fst h
    exact ⟨rfl,rfl,(List.append_nil _).symm⟩
  | some request =>
    rw [hrequest] at h
    dsimp only at h
    have hframe := fetchSdoBuffer_frame request.encode (p.visited now id)
    split at h
    · cases congrArg Prod.snd h
    · rename_i q hfetch
      rw [hfetch] at hframe
      obtain ⟨hhandler,hinvoked,hbuffered⟩ := hframe
      obtain rfl := congrArg Prod.fst h
      exact ⟨hhandler,hinvoked,congrArg (· ++ [id]) hbuffered⟩

theorem visitUnits_ok {now : Int} {ids : List (Fin n)} {p p' : TickPass n Fn Ctx}
    (hids : ids.Nodup) (h : visitUnits now ids p = (p',none)) :
    p'.invoked = p.invoked ++
        ids.flatMap (fun id => (p.handler.visit id now).invoked.map (id,·)) ∧
      p'.buffered = p.buffered ++ ids.filter (fun id => (p.handler.visit id now).request.isSome) := by
  induction ids generalizing p with
  | nil =>
    obtain rfl := congrArg Prod.fst h
    exact ⟨(List.append_nil _).symm,(List.append_nil _).symm⟩
  | cons id ids ih =>
    obtain ⟨hid,hids⟩ := List.nodup_cons.mp hids
    rw [visitUnits] at h
    split at h
    · cases congrArg Prod.snd h
    · rename_i q hvisit
      obtain ⟨hhandler,hinvoked,hbuffered⟩ := visitUnit_ok hvisit
      obtain ⟨hinvoked',hbuffered'⟩ := ih hids h
      have hsame : ∀ id' ∈ ids, q.handler.visit id' now = p.handler.visit id' now := by
        intro id' hid'
        rw [hhandler]
        exact p.handler.afterVisit_visit_of_ne now (ne_of_mem_of_not_mem hid' hid)
      have hvisits : ids.flatMap (fun id => (q.handler.visit id now).invoked.map (id,·)) =
          ids.flatMap (fun id => (p.handler.visit id now).invoked.map (id,·)) :=
        List.flatMap_congr fun id' hid' => by rw [hsame id' hid']
      have hrequests : ids.filter (fun id => (q.handler.visit id now).request.isSome) =
          ids.filter (fun id => (p.handler.visit id now).request.isSome) :=
        List.filter_congr fun id' hid' => by rw [hsame id' hid']
      refine ⟨?_,?_⟩
      · rw [hinvoked', hinvoked, hvisits, List.flatMap_cons, List.append_assoc]
      · rw [hbuffered', hbuffered, hrequests, List.filter_cons, List.append_assoc]
        split <;> rfl

theorem fetchSdoBuffer_place {p : TickPass n Fn Ctx} {s : Supply Nat} {record : List Byte}
    (h : p.buffer.Filling s) (hsize : record.length ≤ Pdo.writeSize) :
    ∃ p' abort, p.fetchSdoBuffer record = (p',abort) ∧
      (abort = none ↔ (place frameCapacity prefillSize record.length s).isSome) ∧
      ∀ s', place frameCapacity prefillSize record.length s = some s' →
        p'.buffer.armed = true ∧ p'.buffer.Filling s' := by
  obtain ⟨b',hfetch,hfilling⟩ := TransmitBuffer.fetchSdoBuffer_place h hsize
  cases hplace : place frameCapacity prefillSize record.length s with
  | none =>
    rw [hplace] at hfetch
    refine ⟨{ p with buffer := b' },some (.exception noBufferAvailable),?_,by simp,?_⟩
    · simp only [fetchSdoBuffer, hfetch, Option.isSome_none]
    · intro s' hs'
      cases hs'
  | some s' =>
    rw [hplace] at hfetch
    refine ⟨{ p with buffer := b' },none,?_,by simp,fun s'' hs'' => hfilling s'' (hplace.trans hs'')⟩
    simp only [fetchSdoBuffer, hfetch, Option.isSome_some]

theorem visitUnit_place (now : Int) (id : Fin n) {p : TickPass n Fn Ctx} {s : Supply Nat}
    (h : p.buffer.Filling s) :
    ∃ p' abort, visitUnit now id p = (p',abort) ∧
      (abort = none ↔
        (placeAll frameCapacity prefillSize (p.handler.requestSizes now id) s).isSome) ∧
      ∀ s', placeAll frameCapacity prefillSize (p.handler.requestSizes now id) s = some s' →
        p'.buffer.Filling s' := by
  unfold visitUnit Handler.requestSizes
  cases hrequest : (p.handler.visit id now).request with
  | none =>
    refine ⟨p.visited now id,none,rfl,by simp [placeAll],?_⟩
    intro s' hs'
    cases hs'
    exact h
  | some request =>
    have hsize : request.encode.length ≤ Pdo.writeSize :=
      sdoRequest_permits (b := p.buffer) request
    have hvisited : (p.visited now id).buffer.Filling s := h
    obtain ⟨q,abort,hfetch,habort,hfilling⟩ := fetchSdoBuffer_place hvisited hsize
    rw [request.encode_length] at habort hfilling
    simp only [hfetch, Option.map_some, Option.toList_some, placeAll, Option.bind_fun_some]
    cases abort with
    | none => exact ⟨_,none,rfl,habort,fun s' hs' => (hfilling s' hs').2⟩
    | some abort => exact ⟨q,some abort,rfl,habort,fun s' hs' => (hfilling s' hs').2⟩

theorem visitUnits_place (now : Int) {ids : List (Fin n)} (hids : ids.Nodup)
    {p : TickPass n Fn Ctx} {s : Supply Nat} (h : p.buffer.Filling s) :
    ∃ p' abort, visitUnits now ids p = (p',abort) ∧
      (abort = none ↔ (placeAll frameCapacity prefillSize
        (ids.flatMap (p.handler.requestSizes now)) s).isSome) ∧
      ∀ s', placeAll frameCapacity prefillSize (ids.flatMap (p.handler.requestSizes now)) s =
        some s' → p'.buffer.Filling s' := by
  induction ids generalizing p s with
  | nil =>
    refine ⟨p,none,rfl,by simp [placeAll],?_⟩
    intro s' hs'
    cases hs'
    exact h
  | cons id ids ih =>
    obtain ⟨hid,hids⟩ := List.nodup_cons.mp hids
    obtain ⟨q,abort,hvisit,habort,hfilling⟩ := visitUnit_place now id h
    rw [visitUnits, hvisit, List.flatMap_cons, placeAll_append]
    cases hplace : placeAll frameCapacity prefillSize (p.handler.requestSizes now id) s with
    | none =>
      rw [hplace] at habort
      cases abort with
      | none => cases habort.mp rfl
      | some abort =>
        refine ⟨q,some abort,rfl,by simp,?_⟩
        intro s' hs'
        cases hs'
    | some s' =>
      rw [hplace] at habort
      obtain rfl := habort.mpr rfl
      have hsizes : ids.flatMap (q.handler.requestSizes now) =
          ids.flatMap (p.handler.requestSizes now) := by
        refine List.flatMap_congr fun id' hid' => ?_
        rw [(visitUnit_ok hvisit).1, Handler.requestSizes, Handler.requestSizes,
          p.handler.afterVisit_visit_of_ne now (ne_of_mem_of_not_mem hid' hid)]
      have hrest := ih hids (hfilling s' hplace)
      rw [hsizes] at hrest
      exact hrest

end TickPass

namespace Handler

theorem tickPass_place (now : Int) (h : Handler n Fn Ctx) {b : TransmitBuffer} (hb : b.Rested) :
    ∃ p abort, h.tickPass now b = (p,abort) ∧
      (abort = none ↔ h.framesNeeded now ≤ b.freeTransfers.length) ∧
      (abort = none → p.buffer.Rested) := by
  have hbins : (placeAll frameCapacity prefillSize
      ((List.finRange n).flatMap (h.requestSizes now) ++ [0])
      ⟨prefillSize,b.freeTransfers.length⟩).isSome ↔
        h.framesNeeded now ≤ b.freeTransfers.length :=
    placeAll_nonempty_isSome (List.append_ne_nil_of_right_ne_nil _ (List.cons_ne_nil _ _))
  have hstart : ({ handler := h, buffer := b } : TickPass n Fn Ctx).buffer.Filling
      ⟨prefillSize,b.freeTransfers.length⟩ := hb.filling
  obtain ⟨p,abort,hvisits,habort,hfilling⟩ :=
    TickPass.visitUnits_place now (List.nodup_finRange n) hstart
  rw [placeAll_append] at hbins
  rw [tickPass, hvisits]
  cases hplace : placeAll frameCapacity prefillSize ((List.finRange n).flatMap (h.requestSizes now))
      ⟨prefillSize,b.freeTransfers.length⟩ with
  | none =>
    rw [hplace] at habort hbins
    cases abort with
    | none => cases habort.mp rfl
    | some abort => exact ⟨p,some abort,rfl,by simpa using hbins,nofun⟩
  | some s =>
    rw [hplace] at habort hbins
    obtain rfl := habort.mpr rfl
    have hempty : ([] : List Byte).length ≤ Pdo.writeSize := empty_permits (b := p.buffer)
    obtain ⟨q,abort,hfetch,habort',hfilling'⟩ :=
      TickPass.fetchSdoBuffer_place (hfilling s hplace) hempty
    simp only [Option.bind_some, placeAll, Option.bind_fun_some] at hbins
    have habort'' := habort'.trans hbins
    simp only [hfetch]
    cases abort with
    | some abort => exact ⟨q,some abort,rfl,habort'',nofun⟩
    | none =>
      obtain ⟨s',hs'⟩ := Option.isSome_iff_exists.mp (habort'.mp rfl)
      obtain ⟨harmed,hfilled⟩ := hfilling' s' hs'
      obtain ⟨b',htrigger,hrested⟩ := triggerTransmission_rested hfilled harmed
      refine ⟨{ q with buffer := b' },none,?_,habort'',fun _ => hrested⟩
      simp only [TickPass.triggerTransmission, htrigger]

theorem tickPass_ok {now : Int} {h : Handler n Fn Ctx} {b : TransmitBuffer}
    (hok : (h.tickPass now b).2 = none) :
    (h.tickPass now b).1.invoked =
        (List.finRange n).flatMap (fun id => (h.visit id now).invoked.map (id,·)) ∧
      (h.tickPass now b).1.buffered =
        (List.finRange n).filter (fun id => (h.visit id now).request.isSome) := by
  unfold tickPass at hok ⊢
  split at hok
  · cases hok
  · rename_i p hvisits
    have hunits := TickPass.visitUnits_ok (List.nodup_finRange n) hvisits
    have hfetch := p.fetchSdoBuffer_frame []
    split at hok
    · cases hok
    · rename_i q hq
      rw [hq] at hfetch
      have htrigger := q.triggerTransmission_frame
      exact ⟨(htrigger.2.1.trans hfetch.2.1).trans hunits.1,
        (htrigger.2.2.trans hfetch.2.2).trans hunits.2⟩

structure Survives (now : Int) (h : Handler n Fn Ctx) (b : TransmitBuffer) : Prop where
  completes : (h.tickPass now b).2 = none
  expired : ∀ id, (h.storage id).Expired now → ∀ callback, (h.storage id).callback = some callback →
    (id,⟨callback,(h.storage id).callbackContext,false⟩) ∈ (h.tickPass now b).1.invoked
  unbuffered : ∀ id, (h.visit id now).request.isSome → id ∉ (h.tickPass now b).1.buffered →
    ((h.tickPass now b).1.handler.storage id).operation = (h.storage id).operation

theorem survives_of_completes {now : Int} {h : Handler n Fn Ctx} {b : TransmitBuffer}
    (hok : (h.tickPass now b).2 = none) : h.Survives now b := by
  obtain ⟨hinvoked,hbuffered⟩ := tickPass_ok hok
  refine ⟨hok,?_,?_⟩
  · intro id hexpired callback hcallback
    have hvisit : (h.visit id now).invoked =
        [⟨callback,(h.storage id).callbackContext,false⟩] := by
      rw [visit, hexpired.visit, StorageUnit.invoke, hcallback]
    rw [hinvoked]
    refine List.mem_flatMap.mpr ⟨id,List.mem_finRange id,?_⟩
    rw [hvisit]
    exact List.mem_singleton_self _
  · intro id hrequest hid
    rw [hbuffered] at hid
    exact absurd (List.mem_filter.mpr ⟨List.mem_finRange id,hrequest⟩) hid

theorem survives_iff (now : Int) (h : Handler n Fn Ctx) {b : TransmitBuffer} (hb : b.Rested) :
    h.Survives now b ↔ h.framesNeeded now ≤ b.freeTransfers.length := by
  obtain ⟨p,abort,hpass,habort,_⟩ := h.tickPass_place now hb
  have hcompletes : (h.tickPass now b).2 = abort := by rw [hpass]
  constructor
  · intro hsurvives
    exact habort.mp (hcompletes.symm.trans hsurvives.completes)
  · intro hframes
    exact survives_of_completes (hcompletes.trans (habort.mpr hframes))

theorem tickPass_rested {now : Int} (h : Handler n Fn Ctx) {b : TransmitBuffer} (hb : b.Rested)
    (hok : (h.tickPass now b).2 = none) : (h.tickPass now b).1.buffer.Rested := by
  obtain ⟨p,abort,hpass,_,hrested⟩ := h.tickPass_place now hb
  rw [hpass] at hok ⊢
  exact hrested hok

end Handler

inductive LoopEvent (n : Nat) (Fn Ctx : Type) where
  | call (c : Call n Fn Ctx)
  | received (bytes : List Byte) (fill : Nat → Buffer8)
  | disableThreadSafeCheck
  | transmitted (id : Nat)
  | pass (now : Int)

-- The handler and the tick thread's transfers; nothing is left once an exception has terminated
-- the process.
structure TickThread (n : Nat) (Fn Ctx : Type) where
  handler : Handler n Fn Ctx
  transmit : RestedBuffer

namespace TickThread

def afterPass (now : Int) (s : TickThread n Fn Ctx) : Option (TickThread n Fn Ctx) :=
  if hok : (s.handler.tickPass now s.transmit.buffer).2 = none then
    some ⟨(s.handler.tickPass now s.transmit.buffer).1.handler,
      ⟨(s.handler.tickPass now s.transmit.buffer).1.buffer,
        s.handler.tickPass_rested s.transmit.rested hok⟩⟩
  else none

def afterTransmitted (id : Nat) (s : TickThread n Fn Ctx) : Option (TickThread n Fn Ctx) :=
  if hid : id ∈ s.transmit.buffer.inFlight then
    match hok : s.transmit.buffer.transmitCompleteCallback id with
    | .error _ => none
    | .ok b => some { s with transmit := ⟨b,completed_rested s.transmit.rested hid hok⟩ }
  else some s

def apply (codec : PositionCodec) (s : TickThread n Fn Ctx) :
    LoopEvent n Fn Ctx → Option (TickThread n Fn Ctx)
  | .call c => some { s with handler := s.handler.step codec (.call c) }
  | .received bytes fill => some { s with handler := s.handler.step codec (.received bytes fill) }
  | .disableThreadSafeCheck => some { s with handler := s.handler.disableThreadSafeCheck }
  | .transmitted id => s.afterTransmitted id
  | .pass now => s.afterPass now

def step (codec : PositionCodec) (s : Option (TickThread n Fn Ctx)) (e : LoopEvent n Fn Ctx) :
    Option (TickThread n Fn Ctx) :=
  s.bind fun s => s.apply codec e

def start (h : Handler n Fn Ctx) (allocTransferCount : Nat) (memory : Nat → Memory) :
    TickThread n Fn Ctx :=
  ⟨h,⟨TransmitBuffer.create allocTransferCount memory,create_rested allocTransferCount memory⟩⟩

def PassSurvives : Option (TickThread n Fn Ctx) → LoopEvent n Fn Ctx → Prop
  | some s, .pass now => s.handler.Survives now s.transmit.buffer
  | _, _ => True

def EnoughTransfers : Option (TickThread n Fn Ctx) → LoopEvent n Fn Ctx → Prop
  | some s, .pass now => s.handler.framesNeeded now ≤ s.transmit.buffer.freeTransfers.length
  | _, _ => True

instance : ∀ (s : Option (TickThread n Fn Ctx)) (e : LoopEvent n Fn Ctx),
    Decidable (EnoughTransfers s e)
  | some _, .pass _ => inferInstanceAs (Decidable (_ ≤ _))
  | some _, .call _ | some _, .received _ _ | some _, .disableThreadSafeCheck
  | some _, .transmitted _ | none, _ => inferInstanceAs (Decidable True)

theorem passSurvives_iff (s : Option (TickThread n Fn Ctx)) (e : LoopEvent n Fn Ctx) :
    PassSurvives s e ↔ EnoughTransfers s e := by
  cases s with
  | none => exact Iff.rfl
  | some s =>
    cases e with
    | pass now => exact s.handler.survives_iff now s.transmit.rested
    | call => exact Iff.rfl
    | received => exact Iff.rfl
    | disableThreadSafeCheck => exact Iff.rfl
    | transmitted => exact Iff.rfl

theorem dies_of_exhausted {codec : PositionCodec} {s : Option (TickThread n Fn Ctx)}
    {es : List (LoopEvent n Fn Ctx)} {e : LoopEvent n Fn Ctx}
    (h : ¬EnoughTransfers (Runs.run (step codec) s es) e) :
    ¬Runs.Along (step codec) PassSurvives s (es ++ [e]) := fun hall =>
  h ((passSurvives_iff _ _).mp (Runs.along_at hall))

theorem passes_survive_iff (codec : PositionCodec) (h : FreshHandler n Fn Ctx)
    (allocTransferCount : Nat) (memory : Nat → Memory) (es : List (LoopEvent n Fn Ctx)) :
    Runs.Along (step codec) PassSurvives (some (start h.handler allocTransferCount memory)) es ↔
      Runs.Along (step codec) EnoughTransfers (some (start h.handler allocTransferCount memory)) es :=
  Runs.along_congr (P := fun _ => True) (fun _ _ _ => trivial) (fun s e _ => passSurvives_iff s e)
    trivial

section Stalled

open FreshHandler (only)

def stalledStart : TickThread 1 Nat Nat :=
  start (FreshHandler.singleHandler (.make 4 0x64 0 0) 0) 1 fun _ => unclearedMemory

-- The device never completes the only transfer, which the first pass submitted.
def stalling : List (LoopEvent 1 Nat Nat) := [.call ⟨0,only,.writeAsync 7 0 10 (some 1) 2⟩,.pass 0]

theorem stalled_tick_dies :
    ¬Runs.Along (step .raw) PassSurvives (some stalledStart) (stalling ++ [.pass 5]) :=
  dies_of_exhausted (by decide +kernel)

end Stalled

end TickThread

end WujiHand

import WujiHand.Driver.RecordLog
import WujiHand.Handler.BackPressure
import WujiHand.Handler.RequestGrammar

namespace WujiHand

open TransmitBuffer

variable {n : Nat} {Fn Ctx : Type}

def StorageUnit.due (now : Int) (u : StorageUnit Fn Ctx) : Option SdoRequest :=
  if u.Busy ∧ ¬u.Masked ∧ now < u.timeoutPoint then
    match u.operation.state with
    | .reading | .writingConfirming => some (.read u.info.index u.info.subIndex)
    | .writing =>
      some (.write u.info.size u.info.index u.info.subIndex (Buffer8.as u.info.size.bits u.value))
    | .waiting | .success => none
  else none

theorem StorageUnit.visit_request (now : Int) (u : StorageUnit Fn Ctx) :
    (u.tickVisit now).request = u.due now := by
  have hs := u.visit_step now
  unfold due
  generalize u.tickVisit now = v at hs
  cases hs with
  | idle h => rw [if_neg (fun hd => h hd.1)]
  | completed _ hdone =>
    split
    · rename_i hd
      rw [hdone.resolve_left hd.2.1]
    · rfl
  | completedLate _ _ hlate => rw [if_neg (fun hd => absurd hd.2.2 (not_lt.mpr hlate))]
  | started _ _ hwait =>
    rw [hwait]
    exact (ite_self none).symm
  | expired _ _ _ _ hlate => rw [if_neg (fun hd => absurd hd.2.2 (not_lt.mpr hlate))]
  | polled hb hm hread hn =>
    rw [if_pos ⟨hb,hm,hn⟩]
    rcases hread with hread | hread
    · rw [hread]
      rfl
    · rw [hread]
      rfl
  | transmitted hb hm hwrite hn =>
    rw [if_pos ⟨hb,hm,hn⟩, hwrite]
    rfl

namespace Record

def ofRequest (q : SdoRequest) : Record := ⟨sdoFrame,q.encode⟩

def requests (r : Record) : List SdoRequest := (SdoRequest.code.decode r.bytes).1

theorem requests_ofRequest (q : SdoRequest) : (ofRequest q).requests = [q] := by
  have hd : SdoRequest.code.decode ([q].flatMap SdoRequest.encode ++ []) = ([q],[]) :=
    SdoRequest.decode_ended (.inl rfl)
  rw [List.flatMap_singleton, List.append_nil] at hd
  rw [requests, ofRequest, hd]

end Record

namespace TickPass

theorem fetchSdoBuffer_log {record : List Byte} {p p' : TickPass n Fn Ctx}
    (h : p.fetchSdoBuffer record = (p',none)) (hfresh : p.buffer.Fresh) :
    p'.buffer.log = p.buffer.log ++ [⟨sdoFrame,record⟩] ∧ p'.buffer.Fresh ∧
      p.buffer.submitted <+: p'.buffer.submitted := by
  unfold fetchSdoBuffer at h
  split at h
  · cases h
  · cases h
  · rename_i b hfetch
    cases h
    exact (fetchBuffer_appends hfetch).log hfresh

theorem visitUnit_log {now : Int} {id : Fin n} {p p' : TickPass n Fn Ctx}
    (h : visitUnit now id p = (p',none)) (hfresh : p.buffer.Fresh) :
    p'.buffer.log = p.buffer.log ++
        ((p.handler.visit id now).request.map Record.ofRequest).toList ∧ p'.buffer.Fresh ∧
      p.buffer.submitted <+: p'.buffer.submitted := by
  unfold visitUnit at h
  cases hrequest : (p.handler.visit id now).request with
  | none =>
    rw [hrequest] at h
    cases h
    exact ⟨(List.append_nil _).symm,hfresh,List.prefix_rfl⟩
  | some request =>
    simp only [hrequest] at h
    split at h
    · cases h
    · rename_i q hfetch
      cases h
      have hvisited : (p.visited now id).buffer.Fresh := hfresh
      have hlog := fetchSdoBuffer_log hfetch hvisited
      exact hlog

theorem visitUnits_log {now : Int} {ids : List (Fin n)} {p p' : TickPass n Fn Ctx}
    (hids : ids.Nodup) (h : visitUnits now ids p = (p',none)) (hfresh : p.buffer.Fresh) :
    p'.buffer.log = p.buffer.log ++
        (ids.filterMap fun id => (p.handler.visit id now).request).map Record.ofRequest ∧
      p'.buffer.Fresh ∧ p.buffer.submitted <+: p'.buffer.submitted := by
  induction ids generalizing p with
  | nil =>
    cases h
    exact ⟨(List.append_nil _).symm,hfresh,List.prefix_rfl⟩
  | cons id ids ih =>
    obtain ⟨hid,hids⟩ := List.nodup_cons.mp hids
    rw [visitUnits] at h
    split at h
    · cases h
    · rename_i q hvisit
      obtain ⟨hlog,hfresh',hextends⟩ := visitUnit_log hvisit hfresh
      obtain ⟨hlog',hfresh'',hextends'⟩ := ih hids h hfresh'
      have hsame : ids.filterMap (fun id => (q.handler.visit id now).request) =
          ids.filterMap (fun id => (p.handler.visit id now).request) := by
        refine List.filterMap_congr fun id' hid' => ?_
        rw [(visitUnit_ok hvisit).1,
          p.handler.afterVisit_visit_of_ne now (ne_of_mem_of_not_mem hid' hid)]
      refine ⟨?_,hfresh'',hextends.trans hextends'⟩
      rw [hlog', hlog, hsame, List.append_assoc, List.filterMap_cons]
      cases (p.handler.visit id now).request <;> rfl

theorem triggerTransmission_log {p p' : TickPass n Fn Ctx}
    (h : p.triggerTransmission = (p',none)) :
    p'.buffer.log = p.buffer.log ∧ p.buffer.submitted <+: p'.buffer.submitted := by
  unfold triggerTransmission at h
  split at h
  · cases h
  · rename_i b htrigger
    cases h
    have hadvances := triggerTransmission_advances htrigger
    exact ⟨hadvances.log,hadvances.submitted⟩

end TickPass

namespace Handler

def dueRequests (now : Int) (h : Handler n Fn Ctx) : List SdoRequest :=
  (List.finRange n).filterMap fun id => (h.storage id).due now

theorem tickPass_log {now : Int} {h : Handler n Fn Ctx} {b : TransmitBuffer}
    {p : TickPass n Fn Ctx} (hpass : h.tickPass now b = (p,none)) (hfresh : b.Fresh) :
    p.buffer.log = b.log ++ (h.dueRequests now).map Record.ofRequest ++ [⟨sdoFrame,[]⟩] ∧
      b.submitted <+: p.buffer.submitted := by
  have hdue : (List.finRange n).filterMap (fun id => (h.visit id now).request) =
      h.dueRequests now :=
    List.filterMap_congr fun id _ => (h.storage id).visit_request now
  unfold tickPass at hpass
  split at hpass
  · cases hpass
  · rename_i p₁ hvisits
    obtain ⟨hlog,hfresh₁,hextends⟩ :=
      TickPass.visitUnits_log (List.nodup_finRange n) hvisits hfresh
    split at hpass
    · cases hpass
    · rename_i p₂ hfetch
      obtain ⟨hlog',_,hextends'⟩ := TickPass.fetchSdoBuffer_log hfetch hfresh₁
      obtain ⟨hlog'',hextends''⟩ := TickPass.triggerTransmission_log hpass
      refine ⟨?_,(hextends.trans hextends').trans hextends''⟩
      rw [hlog'', hlog', hlog, hdue]

end Handler

namespace Submission

def body (s : Submission) : List Byte :=
  (s.transfer.buffer.take s.transfer.length).drop Header.size

def requests (s : Submission) : List SdoRequest := (SdoRequest.code.decode s.body).1

structure CarriesRequests (s : Submission) : Prop where
  whole : ∃ rest, s.body = s.requests.flatMap SdoRequest.encode ++ rest ∧ SdoRequest.Ended rest
  unambiguous : ∃! p : List SdoRequest × List Byte,
    s.body = p.1.flatMap SdoRequest.encode ++ p.2 ∧ SdoRequest.Ended p.2

theorem WireImage.body {s : Submission} (h : s.WireImage) :
    ∃ zeros, s.body = s.payload ++ List.replicate zeros 0 := by
  obtain ⟨description,type,_,_,_,himage⟩ := h.image
  refine ⟨s.transfer.length - (Header.size + s.payload.length),?_⟩
  rw [Submission.body, himage, List.append_assoc]
  exact List.drop_left' (Header.encode_length _)

theorem WireImage.type {s : Submission} (h : s.WireImage) {r : Record} (hr : r ∈ s.records) :
    s.transfer.type = r.type := by
  obtain ⟨description,type,_,_,htypes,himage⟩ := h.image
  have hlt : Header.typeOffset < s.transfer.length := by
    have hreserve := h.reserve
    simp only [Header.size, Header.typeOffset] at hreserve ⊢
    omega
  rw [Transfer.type, List.getD_eq_getElem?_getD, ← List.getElem?_take_of_lt hlt, himage,
    ← List.getD_eq_getElem?_getD, List.append_assoc, Transfer.encode_type]
  exact (htypes r hr).symm

def Buffered (r : Record) : Prop := (∃ q, r = Record.ofRequest q) ∨ r = ⟨sdoFrame,[]⟩

theorem payload_requests {s : Submission} (h : ∀ r ∈ s.records, Buffered r) :
    s.payload = (s.records.flatMap Record.requests).flatMap SdoRequest.encode := by
  rw [payload, List.flatMap_assoc]
  refine List.flatMap_congr fun r hr => ?_
  rcases h r hr with ⟨q,rfl⟩ | rfl
  · rw [Record.requests_ofRequest, List.flatMap_singleton]
    rfl
  · rfl

theorem carriesRequests {s : Submission} (h : s.WireImage) (hr : ∀ r ∈ s.records, Buffered r) :
    s.CarriesRequests ∧ s.requests = s.records.flatMap Record.requests := by
  obtain ⟨zeros,hbody⟩ := h.body
  have hended : SdoRequest.Ended (List.replicate zeros 0) := by
    cases zeros with
    | zero => exact .inl rfl
    | succ zeros => exact .inr rfl
  rw [payload_requests hr] at hbody
  have hrequests : s.requests = s.records.flatMap Record.requests := by
    rw [requests, hbody, SdoRequest.decode_ended hended]
  refine ⟨⟨⟨List.replicate zeros 0,hrequests ▸ hbody,hended⟩,
    ⟨(s.records.flatMap Record.requests,List.replicate zeros 0),⟨hbody,hended⟩,?_⟩⟩,hrequests⟩
  rintro ⟨qs,rest⟩ ⟨hqs,hrest⟩
  obtain ⟨rfl,rfl⟩ := SdoRequest.ended_unique (hbody.symm.trans hqs) hended hrest
  rfl

theorem requests_nil_of_type {s : Submission} (h : s.WireImage)
    (hr : ∀ r ∈ s.records, Buffered r) (htype : s.transfer.type ≠ sdoFrame) : s.requests = [] := by
  have hnil : s.records = [] := by
    refine List.eq_nil_iff_forall_not_mem.mpr fun r hmem => htype ?_
    rw [h.type hmem]
    rcases hr r hmem with ⟨q,rfl⟩ | rfl
    · rfl
    · rfl
  rw [(carriesRequests h hr).2, hnil, List.flatMap_nil]

theorem flatMap_sdo_requests {frames : List Submission}
    (h : ∀ s ∈ frames, s.WireImage ∧ ∀ r ∈ s.records, Buffered r) :
    (frames.filter fun s => s.transfer.type = sdoFrame).flatMap requests =
      (frames.flatMap records).flatMap Record.requests := by
  induction frames with
  | nil => rfl
  | cons s frames ih =>
    obtain ⟨himage,hr⟩ := h s List.mem_cons_self
    have hrest := ih fun s' hs' => h s' (List.mem_cons_of_mem _ hs')
    rw [List.flatMap_cons, List.flatMap_append, ← hrest, ← (carriesRequests himage hr).2]
    by_cases htype : s.transfer.type = sdoFrame
    · rw [List.filter_cons_of_pos (by simpa using htype), List.flatMap_cons]
    · rw [List.filter_cons_of_neg (by simpa using htype), requests_nil_of_type himage hr htype,
        List.nil_append]

end Submission

namespace Handler

structure TransmitsDue (now : Int) (h : Handler n Fn Ctx) (b : TransmitBuffer) : Prop where
  completes : (h.tickPass now b).2 = none
  frames : ∃ frames, (h.tickPass now b).1.buffer.submitted = b.submitted ++ frames ∧
    (∀ s ∈ frames, s.CarriesRequests) ∧
    (frames.filter fun s => s.transfer.type = sdoFrame).flatMap Submission.requests =
      h.dueRequests now
  left : ∀ id ∈ (h.tickPass now b).1.buffer.freeTransfers,
    (h.tickPass now b).1.buffer.records id = [] ∧
      ((h.tickPass now b).1.buffer.transfers id).length = prefillSize

theorem tick_transmits_due (now : Int) (h : Handler n Fn Ctx) (b : RestedBuffer)
    (henough : h.framesNeeded now ≤ b.buffer.freeTransfers.length) :
    h.TransmitsDue now b.buffer := by
  obtain ⟨p,abort,hpass,habort,hrested⟩ := h.tickPass_place now b.rested
  obtain rfl := habort.mpr henough
  have hrest := hrested rfl
  obtain ⟨hfresh,hlog₀⟩ := b.rested.fresh_log
  obtain ⟨hlog,frames,hframes⟩ := tickPass_log hpass hfresh
  rw [hrest.fresh_log.2, hlog₀, ← hframes, List.flatMap_append, List.append_assoc,
    List.append_cancel_left_eq] at hlog
  have hbuffered : ∀ r ∈ frames.flatMap Submission.records, Submission.Buffered r := by
    intro r hr
    rw [hlog] at hr
    rcases List.mem_append.mp hr with hr | hr
    · obtain ⟨q,_,rfl⟩ := List.mem_map.mp hr
      exact .inl ⟨q,rfl⟩
    · exact .inr (List.mem_singleton.mp hr)
  have hsound : ∀ s ∈ frames, s.WireImage ∧ ∀ r ∈ s.records, Submission.Buffered r := by
    intro s hs
    refine ⟨hrest.sound.submitted s ?_,fun r hr => hbuffered r (List.mem_flatMap.mpr ⟨s,hs,hr⟩)⟩
    rw [← hframes]
    exact List.mem_append_right _ hs
  have hdue : ((h.dueRequests now).map Record.ofRequest ++ [(⟨sdoFrame,[]⟩ : Record)]).flatMap
      Record.requests = h.dueRequests now := by
    rw [List.flatMap_append, List.flatMap_map]
    simp only [Record.requests_ofRequest, List.flatMap_singleton']
    exact List.append_nil _
  refine ⟨by rw [hpass],⟨frames,?_,?_,?_⟩,?_⟩
  · rw [hpass, hframes]
  · exact fun s hs => (Submission.carriesRequests (hsound s hs).1 (hsound s hs).2).1
  · rw [Submission.flatMap_sdo_requests hsound, hlog, hdue]
  · rw [hpass]
    intro id hid
    exact (hrest.sound.free id hid).empty (hrest.fresh id hid)

section OneWrite

open FreshHandler (only)

def oneTransfer : RestedBuffer := ⟨_,create_rested 1 fun _ => unclearedMemory⟩

def writingHandler : Handler 1 Nat Nat :=
  Runs.run (step .raw) (FreshHandler.singleHandler (.make 4 0x64 0 0) 0)
    [.call ⟨0,only,.writeAsync 7 0 10 none 2⟩,.visit only 0]

theorem writingHandler_transmits : writingHandler.TransmitsDue 5 oneTransfer.buffer :=
  tick_transmits_due 5 writingHandler oneTransfer (by decide)

example : writingHandler.dueRequests 5 = [.write .four 0x64 0 7] := by decide

end OneWrite

end Handler

end WujiHand

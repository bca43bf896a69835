import WujiHand.Driver.Transmit

namespace WujiHand

namespace Transfer

def Sized (t : Transfer) : Prop := t.buffer.length = maxTransmitLength

theorem write_sized {t : Transfer} {offset : Nat} {bytes : List Byte} (h : t.Sized)
    (hfit : offset + bytes.length ≤ maxTransmitLength) :
    ∃ t', t.write offset bytes = .ok t' ∧ t'.Sized ∧ t'.length = t.length ∧
      t'.buffer = t.buffer.take offset ++ bytes ++ t.buffer.drop (offset + bytes.length) := by
  have hroom : offset + bytes.length ≤ t.buffer.length := by
    rw [h]
    exact hfit
  refine ⟨{ t with buffer := t.buffer.take offset ++ bytes ++ t.buffer.drop (offset + bytes.length) },
    ?_,?_,rfl,rfl⟩
  · rw [write, Bytes.poke?_eq_some hroom]
  · rw [Sized, ← h]
    simp only [List.length_append, List.length_take, List.length_drop]
    omega

theorem setType_sized {t : Transfer} (type : Byte) (h : t.Sized) :
    ∃ t', t.setType type = .ok t' ∧ t'.Sized ∧ t'.length = t.length ∧ t'.type = type := by
  have hfit : Header.typeOffset + [type].length ≤ maxTransmitLength :=
    show Header.typeOffset + 1 ≤ maxTransmitLength by decide
  obtain ⟨t',hok,hsized,hlength,hbuffer⟩ := write_sized h hfit
  refine ⟨t',hok,hsized,hlength,?_⟩
  have htake : (t.buffer.take Header.typeOffset).length = Header.typeOffset := by
    rw [List.length_take, h]
    rfl
  rw [Transfer.type, hbuffer, List.append_assoc, List.getD_eq_getElem?_getD,
    List.getElem?_append_right htake.le, htake, Nat.sub_self]
  rfl

theorem beforeSubmitting_sized {t : Transfer} (h : t.Sized)
    (hroom : t.length + crcCheckSize ≤ maxTransmitLength) :
    ∃ t', t.beforeSubmitting = .ok t' ∧ t'.Sized := by
  obtain ⟨hle,hmax⟩ := paddedLength_bounds hroom
  have hzeros : t.length +
      (List.replicate (paddedLength t.length - t.length) (0 : Byte)).length ≤
        maxTransmitLength := by
    rw [List.length_replicate]
    omega
  obtain ⟨padded,hpadded,hsized,_⟩ := write_sized h hzeros
  have hdescription : Header.descriptionOffset +
      (Bytes.beBytes 2 (description t.length).toNat).length ≤ maxTransmitLength := by
    rw [Bytes.beBytes_length]
    decide
  have hsized' : { padded with length := paddedLength t.length : Transfer }.Sized := hsized
  obtain ⟨t',hok,hsized'',_⟩ := write_sized hsized' hdescription
  refine ⟨t',?_,hsized''⟩
  rw [beforeSubmitting, if_neg (by omega), hpadded]
  exact hok

end Transfer

namespace TransmitBuffer

inductive Turn where
  | again
  | returned (region : Option (Nat × Nat))

-- One turn of the loop of try_fetch_buffer, which itself has no bound.
def fetchTurn (type : Byte) (size : Nat) (b : TransmitBuffer) :
    Except TxAbort (TransmitBuffer × Turn) :=
  match b.freeTransfers with
  | [] => .ok (b,.returned none)
  | id :: _ =>
    match checkTransfer type size (b.transfers id) with
    | .error abort => .error abort
    | .ok none =>
      match b.triggerTransmissionNocheck with
      | .error abort => .error abort
      | .ok b => .ok (b,.again)
    | .ok (some t) =>
      if (maxTransmitLength : Int) - t.length < size then .ok (b.setTransfer id t,.returned none)
      else .ok (b.setTransfer id { t with length := t.length + size },.returned (some (id,t.length)))

variable {b b' : TransmitBuffer} {type : Byte} {size : Nat}

def Unused (b : TransmitBuffer) (id : Nat) : Prop :=
  (b.transfers id).length = prefillSize ∧ (b.transfers id).type = 0

structure Pooled (b : TransmitBuffer) : Prop where
  nodup : (b.freeTransfers ++ b.inFlight).Nodup
  bounded : (b.freeTransfers ++ b.inFlight).length ≤ b.maxSize
  sized : ∀ id ∈ b.freeTransfers ++ b.inFlight, (b.transfers id).Sized
  room : ∀ id ∈ b.freeTransfers, prefillSize ≤ (b.transfers id).length ∧
    (b.transfers id).length + crcCheckSize ≤ maxTransmitLength
  unused : ∀ id ∈ b.freeTransfers.tail, b.Unused id

theorem create_pooled (allocTransferCount : Nat) (memory : Nat → Memory) :
    (create allocTransferCount memory).Pooled where
  nodup := by simp [create, List.nodup_range]
  bounded := by simpa [create] using RingBuffer.le_ringMaxSize allocTransferCount
  sized := by
    intro id _
    have hlen := (memory id).property
    simp only [Transfer.Sized, create, prefill, List.length_append, Header.encode_length,
      List.length_drop, hlen]
    decide
  room := by
    intro id _
    exact ⟨le_rfl,show prefillSize + crcCheckSize ≤ maxTransmitLength by decide⟩
  unused := fun _ _ => ⟨rfl,rfl⟩

theorem Pooled.sized_update {id : Nat} {t : Transfer} {ids : List Nat} (h : b.Pooled)
    (hsized : t.Sized) (hids : ids ⊆ b.freeTransfers ++ b.inFlight) :
    ∀ j ∈ ids, (Function.update b.transfers id t j).Sized := by
  intro j hj
  by_cases heq : j = id
  · rw [heq, Function.update_self]
    exact hsized
  · rw [Function.update_of_ne heq]
    exact h.sized j (hids hj)

theorem nocheck_pooled {id : Nat} {rest : List Nat} (h : b.Pooled)
    (hfree : b.freeTransfers = id :: rest) :
    ∃ b', b.triggerTransmissionNocheck = .ok b' ∧ b'.Pooled ∧ b'.freeTransfers = rest ∧
      b'.submitted.length = b.submitted.length + 1 ∧
      ∀ j ∈ rest, b'.transfers j = b.transfers j := by
  have hid : id ∈ b.freeTransfers := hfree ▸ List.mem_cons_self
  obtain ⟨t,hok,hsized⟩ :=
    Transfer.beforeSubmitting_sized (h.sized id (List.mem_append_left _ hid)) (h.room id hid).2
  have hperm := submitted_perm hfree
  have hsame : ∀ j ∈ rest, Function.update b.transfers id t j = b.transfers j := by
    intro j hj
    exact Function.update_of_ne
      (ne_of_mem_of_not_mem (List.mem_append_left _ hj) (front_notMem h.nodup hfree)) ..
  simp only [triggerTransmissionNocheck, hfree, hok]
  refine ⟨_,rfl,⟨hperm.nodup_iff.mpr h.nodup,hperm.length_eq.trans_le h.bounded,?_,?_,?_⟩,rfl,
    by simp,hsame⟩
  · exact h.sized_update hsized hperm.subset
  · intro j hj
    simp only [setTransfer, hsame j hj]
    exact h.room j (hfree ▸ List.mem_cons_of_mem id hj)
  · intro j hj
    have hj' := List.mem_of_mem_tail hj
    simp only [Unused, setTransfer, hsame j hj']
    exact h.unused j (by rw [hfree]; exact hj')

theorem Pooled.fill {id : Nat} {rest : List Nat} {t : Transfer} (h : b.Pooled)
    (hfree : b.freeTransfers = id :: rest) (hsize : b'.maxSize = b.maxSize)
    (hfree' : b'.freeTransfers = b.freeTransfers) (hflight : b'.inFlight = b.inFlight)
    (htransfers : b'.transfers = Function.update b.transfers id t) (hsized : t.Sized)
    (hlength : (b.transfers id).length ≤ t.length)
    (hroom : t.length + crcCheckSize ≤ maxTransmitLength) : b'.Pooled := by
  have hid : id ∈ b.freeTransfers := hfree ▸ List.mem_cons_self
  refine ⟨?_,?_,?_,?_,?_⟩
  · rw [hfree', hflight]
    exact h.nodup
  · rw [hfree', hflight, hsize]
    exact h.bounded
  · rw [hfree', hflight, htransfers]
    exact h.sized_update hsized (List.Subset.refl _)
  · intro j hj
    rw [hfree'] at hj
    rw [htransfers]
    by_cases heq : j = id
    · rw [heq, Function.update_self]
      exact ⟨(h.room id hid).1.trans hlength,hroom⟩
    · rw [Function.update_of_ne heq]
      exact h.room j hj
  · intro j hj
    rw [hfree', hfree, List.tail_cons] at hj
    have hne : j ≠ id :=
      ne_of_mem_of_not_mem (List.mem_append_left _ hj) (front_notMem h.nodup hfree)
    rw [Unused, htransfers, Function.update_of_ne hne]
    exact h.unused j (by rw [hfree]; exact hj)

theorem complete_pooled {id : Nat} (h : b.Pooled) (hid : id ∈ b.inFlight) :
    ∃ b', b.transmitCompleteCallback id = .ok b' ∧ b'.Pooled ∧
      b'.freeTransfers = b.freeTransfers ++ [id] ∧ b'.Unused id ∧ b'.submitted = b.submitted ∧
      ∀ j ∈ b.freeTransfers, j ≠ id ∧ b'.transfers j = b.transfers j := by
  obtain ⟨t,hset,hsized,hlength,htype⟩ :=
    Transfer.setType_sized (t := { b.transfers id with length := prefillSize }) 0
      (h.sized id (List.mem_append_right _ hid))
  have hperm := recycled_perm hid
  have hroom := recycled_room h.bounded hid
  have hother : ∀ j ∈ b.freeTransfers, j ≠ id ∧ Function.update b.transfers id t j =
      b.transfers j := by
    intro j hj
    have hne := recycled_ne h.nodup hid j hj
    exact ⟨hne,Function.update_of_ne hne ..⟩
  have hunused : t.length = prefillSize ∧ t.type = 0 := ⟨hlength,htype⟩
  simp only [transmitCompleteCallback, hset, if_pos hroom]
  refine ⟨_,rfl,⟨hperm.nodup_iff.mpr h.nodup,hperm.length_eq.trans_le h.bounded,?_,?_,?_⟩,rfl,?_,
    rfl,hother⟩
  · exact h.sized_update hsized hperm.subset
  · intro j hj
    rcases List.mem_append.mp hj with hj | hj
    · simp only [setTransfer, (hother j hj).2]
      exact h.room j hj
    · obtain rfl := List.mem_singleton.mp hj
      simp only [setTransfer, Function.update_self, hlength]
      decide
  · intro j hj
    by_cases heq : j = id
    · subst heq
      simpa only [Unused, setTransfer, Function.update_self] using hunused
    · have hj' : j ∈ b.freeTransfers.tail := by
        rcases hfree : b.freeTransfers with _ | ⟨first,rest⟩
        · simp [hfree] at hj
        · simp only [hfree, List.cons_append, List.tail_cons, List.mem_append,
            List.mem_singleton] at hj
          exact hj.resolve_right heq
      simpa only [Unused, setTransfer, Function.update_of_ne heq] using h.unused j hj'
  · simpa only [Unused, setTransfer, Function.update_self] using hunused

theorem checkTransfer_some {t t' : Transfer} (hsized : t.Sized)
    (hok : checkTransfer type size t = .ok (some t')) :
    t'.Sized ∧ t'.length = t.length ∧ t.length + size + crcCheckSize ≤ maxTransmitLength := by
  unfold checkTransfer at hok
  split at hok
  case isTrue => cases hok
  case isFalse hfit =>
    have hroom : t.length + size + crcCheckSize ≤ maxTransmitLength := by omega
    split at hok
    case isTrue =>
      obtain ⟨typed,hset,htyped,hlength,_⟩ := Transfer.setType_sized type hsized
      rw [hset] at hok
      cases hok
      exact ⟨htyped,hlength,hroom⟩
    case isFalse =>
      split at hok
      case isTrue => cases hok
      case isFalse =>
        cases hok
        exact ⟨hsized,rfl,hroom⟩

theorem checkTransfer_sized (type : Byte) (size : Nat) {t : Transfer} (hsized : t.Sized) :
    ∃ accepted, checkTransfer type size t = .ok accepted := by
  obtain ⟨typed,hset,_⟩ := Transfer.setType_sized type hsized
  unfold checkTransfer
  rw [hset]
  split
  · exact ⟨none,rfl⟩
  · split
    · exact ⟨some typed,rfl⟩
    · split
      · exact ⟨none,rfl⟩
      · exact ⟨some t,rfl⟩

def maxRegionSize : Nat := maxTransmitLength - prefillSize - crcCheckSize

example : maxRegionSize = 502 := rfl

theorem checkTransfer_unused (type : Byte) {id : Nat} (hsized : (b.transfers id).Sized) (h : b.Unused id)
    (hsize : size ≤ maxRegionSize) :
    ∃ t, checkTransfer type size (b.transfers id) = .ok (some t) := by
  obtain ⟨hlength,htype⟩ := h
  obtain ⟨typed,hset,_⟩ := Transfer.setType_sized type hsized
  have hfit : ¬(maxTransmitLength : Int) - (b.transfers id).length < size + crcCheckSize := by
    simp only [maxRegionSize, maxTransmitLength, prefillSize, Header.size, crcCheckSize] at hsize
    simp only [hlength, maxTransmitLength, prefillSize, Header.size, crcCheckSize]
    omega
  exact ⟨typed,by rw [checkTransfer, if_neg hfit, if_pos htype, hset]⟩

theorem fetchTurn_empty (type : Byte) (size : Nat) (hfree : b.freeTransfers = []) :
    fetchTurn type size b = .ok (b,.returned none) := by
  rw [fetchTurn, hfree]

theorem fetchTurn_front (type : Byte) (size : Nat) {id : Nat} {rest : List Nat} (h : b.Pooled)
    (hfree : b.freeTransfers = id :: rest) :
    (∃ b', fetchTurn type size b = .ok (b',.again) ∧ b.triggerTransmissionNocheck = .ok b' ∧
      checkTransfer type size (b.transfers id) = .ok none) ∨
    ∃ t : Transfer, fetchTurn type size b = .ok (b.setTransfer id { t with length := t.length + size },
        .returned (some (id,t.length))) ∧
      checkTransfer type size (b.transfers id) = .ok (some t) ∧ t.Sized ∧
      t.length = (b.transfers id).length ∧ t.length + size + crcCheckSize ≤ maxTransmitLength := by
  have hid : id ∈ b.freeTransfers := hfree ▸ List.mem_cons_self
  have hsized := h.sized id (List.mem_append_left _ hid)
  obtain ⟨accepted,hcheck⟩ := checkTransfer_sized type size hsized
  cases accepted with
  | none =>
    obtain ⟨b',hok,_⟩ := nocheck_pooled h hfree
    refine .inl ⟨b',?_,hok,hcheck⟩
    simp only [fetchTurn, hfree, hcheck, hok]
  | some t =>
    obtain ⟨htsized,hlength,hroom⟩ := checkTransfer_some hsized hcheck
    have hfit : ¬(maxTransmitLength : Int) - t.length < size := by omega
    refine .inr ⟨t,?_,hcheck,htsized,hlength,hlength ▸ hroom⟩
    simp only [fetchTurn, hfree, hcheck, if_neg hfit]

theorem tryFetchBuffer_turn (type : Byte) (size : Nat) (h : b.Pooled) :
    tryFetchBuffer type size b.freeTransfers b =
      match fetchTurn type size b with
      | .error abort => .error abort
      | .ok (b,.again) => tryFetchBuffer type size b.freeTransfers b
      | .ok (b,.returned region) => .ok (b,region) := by
  cases hfree : b.freeTransfers with
  | nil =>
    rw [fetchTurn_empty type size hfree]
    rfl
  | cons id rest =>
    obtain ⟨b',hturn,hok,hcheck⟩ | ⟨t,hturn,hcheck,_,_,hroom⟩ := fetchTurn_front type size h hfree
    · obtain ⟨b'',hok',_,hrest,_⟩ := nocheck_pooled h hfree
      obtain rfl := Except.ok.inj (hok.symm.trans hok')
      simp only [tryFetchBuffer, hcheck, hok, hturn, hrest]
    · have hfit : ¬(maxTransmitLength : Int) - t.length < size := by omega
      simp only [tryFetchBuffer, hcheck, if_neg hfit, hturn]

end TransmitBuffer

structure Region where
  transfer : Nat
  offset : Nat
  size : Nat
deriving DecidableEq, Repr

def Region.Disjoint (r q : Region) : Prop :=
  r.offset + r.size ≤ q.offset ∨ q.offset + q.size ≤ r.offset

-- A call of try_fetch_buffer in progress. The transfers submitted before it, its finished turns
-- and whether its submission emptied the ring are kept beside its arguments.
structure FetchCall where
  type : Byte
  record : List Byte
  submitted : Nat
  turns : Nat := 0
  emptied : Bool := false

structure FetchState where
  buffer : TransmitBuffer
  call : Option FetchCall := none
  regions : List Region := []
  returned : List (Option Region) := []

-- One thread fetches and triggers. Completions come from another, also between two turns of a
-- fetch: within a turn they touch only a transfer in flight and the back of the ring.
inductive FetchEvent where
  | fetchSdo (record : List Byte)
  | fetchPdo (record : List Byte)
  | turn
  | trigger (allowEmpty : Bool)
  | complete (id : Nat)

namespace FetchState

open TransmitBuffer

def fetch (type : Byte) (record : List Byte) (s : FetchState) : FetchState :=
  match s.call with
  | some _ => s
  | none => { s with call := some ⟨type,record,s.buffer.submitted.length,0,false⟩ }

def accept (s : FetchState) (call : FetchCall) (b : TransmitBuffer) (t : Transfer) (r : Region) :
    FetchState where
  buffer := { b.setTransfer r.transfer t with
    records := Function.update b.records r.transfer
      (b.records r.transfer ++ [⟨call.type,call.record⟩]),
    armed := true }
  regions := s.regions ++ [r]
  returned := s.returned ++ [some r]

def turn (s : FetchState) : Except TxAbort FetchState :=
  match s.call with
  | none => .ok s
  | some call =>
    match fetchTurn call.type call.record.length s.buffer with
    | .error abort => .error abort
    | .ok (b,.again) =>
      .ok { s with
        buffer := b
        call := some { call with
          turns := call.turns + 1, emptied := b.freeTransfers.isEmpty } }
    | .ok (b,.returned none) =>
      .ok { s with buffer := b, call := none, returned := s.returned ++ [none] }
    | .ok (b,.returned (some (id,offset))) =>
      match (b.transfers id).write offset call.record with
      | .error abort => .error abort
      | .ok t => .ok (s.accept call b t ⟨id,offset,call.record.length⟩)

def trigger (allowEmpty : Bool) (s : FetchState) : Except TxAbort FetchState :=
  match s.call with
  | some _ => .ok s
  | none => (s.buffer.triggerTransmission allowEmpty).map fun b => { s with buffer := b }

def complete (id : Nat) (s : FetchState) : Except TxAbort FetchState :=
  if id ∈ s.buffer.inFlight then
    (s.buffer.transmitCompleteCallback id).map fun b =>
      { s with buffer := b, regions := s.regions.filter fun r => r.transfer ≠ id }
  else .ok s

def apply (s : FetchState) : FetchEvent → Except TxAbort FetchState
  | .fetchSdo record => .ok (s.fetch sdoFrame record)
  | .fetchPdo record => .ok (s.fetch pdoFrame record)
  | .turn => s.turn
  | .trigger allowEmpty => s.trigger allowEmpty
  | .complete id => s.complete id

def step (s : Except TxAbort FetchState) (e : FetchEvent) : Except TxAbort FetchState :=
  s.bind fun s => s.apply e

def create (allocTransferCount : Nat) (memory : Nat → Memory) : FetchState where
  buffer := .create allocTransferCount memory

structure Progress (s : FetchState) : Prop where
  pooled : s.buffer.Pooled
  below : ∀ r ∈ s.regions, r.transfer ∈ s.buffer.freeTransfers →
    r.offset + r.size ≤ (s.buffer.transfers r.transfer).length
  size : ∀ call ∈ s.call, call.record.length ≤ maxRegionSize
  turns : ∀ call ∈ s.call, call.turns ≤ 1 ∧
    s.buffer.submitted.length = call.submitted + call.turns
  unused : ∀ call ∈ s.call, call.turns = 1 →
    (∀ id ∈ s.buffer.freeTransfers, s.buffer.Unused id) ∧
    (s.buffer.freeTransfers = [] → call.emptied = true)

inductive Proceeds (s : FetchState) (call : FetchCall) (s' : FetchState) : Prop where
  | again (hfirst : call.turns = 0)
      (hsubmitted : s'.buffer.submitted.length = s.buffer.submitted.length + 1)
      (hcall : s'.call =
        some { call with turns := 1, emptied := s'.buffer.freeTransfers.isEmpty })
      (hreturned : s'.returned = s.returned)
  | null (hfree : s.buffer.freeTransfers = []) (hemptied : call.turns = 0 ∨ call.emptied = true)
      (hbuffer : s'.buffer = s.buffer) (hcall : s'.call = none)
      (hreturned : s'.returned = s.returned ++ [none])
  | region (r : Region) (hfront : s'.buffer.freeTransfers.head? = some r.transfer)
      (hsize : r.size = call.record.length) (hprefill : prefillSize ≤ r.offset)
      (hroom : r.offset + r.size + crcCheckSize ≤ (s'.buffer.transfers r.transfer).buffer.length)
      (hdisjoint : ∀ q ∈ s.regions, q.transfer = r.transfer → q.Disjoint r)
      (hregions : s'.regions = s.regions ++ [r])
      (hsubmitted : s'.buffer.submitted = s.buffer.submitted) (hcall : s'.call = none)
      (hreturned : s'.returned = s.returned ++ [some r])

variable {s : FetchState}

theorem Proceeds.ends {s' : FetchState} {call : FetchCall} (h : s.Proceeds call s') :
    s'.call = none ∨ call.turns = 0 ∧ s'.call =
      some { call with turns := 1, emptied := s'.buffer.freeTransfers.isEmpty } := by
  cases h with
  | again hfirst _ hcall _ => exact .inr ⟨hfirst,hcall⟩
  | null _ _ _ hcall _ => exact .inl hcall
  | region _ _ _ _ _ _ _ _ hcall _ => exact .inl hcall

theorem accept_progress (call : FetchCall) {id : Nat} {rest : List Nat} (t : Transfer)
    {t' : Transfer} (h : s.Progress) (hfree : s.buffer.freeTransfers = id :: rest)
    (hsized : t'.Sized)
    (hlength : t'.length = (s.buffer.transfers id).length + call.record.length)
    (hroom : (s.buffer.transfers id).length + call.record.length + crcCheckSize ≤
      maxTransmitLength) :
    let region := ⟨id,(s.buffer.transfers id).length,call.record.length⟩
    (s.accept call (s.buffer.setTransfer id t) t' region).Progress ∧
      s.Proceeds call (s.accept call (s.buffer.setTransfer id t) t' region) := by
  intro region
  have hid : id ∈ s.buffer.freeTransfers := hfree ▸ List.mem_cons_self
  have htransfers : (s.accept call (s.buffer.setTransfer id t) t' region).buffer.transfers =
      Function.update s.buffer.transfers id t' := Function.update_idem ..
  have hbelow : ∀ q ∈ s.regions, q.transfer = id →
      q.offset + q.size ≤ (s.buffer.transfers id).length := by
    rintro q hq rfl
    exact h.below q hq hid
  refine ⟨⟨?_,?_,?_,?_,?_⟩,.region region ?_ rfl ?_ ?_ ?_ rfl rfl rfl rfl⟩
  · exact h.pooled.fill hfree rfl rfl rfl htransfers hsized (by omega) (by omega)
  · intro r hr hmem
    rw [htransfers]
    rcases List.mem_append.mp hr with hr | hr
    · by_cases heq : r.transfer = id
      · have hold := hbelow r hr heq
        rw [heq, Function.update_self]
        omega
      · rw [Function.update_of_ne heq]
        exact h.below r hr hmem
    · obtain rfl := List.mem_singleton.mp hr
      rw [Function.update_self, hlength]
  · exact fun _ h => nomatch h
  · exact fun _ h => nomatch h
  · exact fun _ h => nomatch h
  · exact congrArg List.head? hfree
  · exact (h.pooled.room id hid).1
  · rw [htransfers, Function.update_self, hsized]
    exact hroom
  · exact fun q hq heq => .inl (hbelow q hq heq)

theorem again_progress {call : FetchCall} {id : Nat} {rest : List Nat} {b : TransmitBuffer}
    (h : s.Progress) (hcall : s.call = some call) (hfree : s.buffer.freeTransfers = id :: rest)
    (hok : s.buffer.triggerTransmissionNocheck = .ok b)
    (hcheck : checkTransfer call.type call.record.length (s.buffer.transfers id) = .ok none) :
    let s' := { s with
      buffer := b
      call := some { call with turns := call.turns + 1, emptied := b.freeTransfers.isEmpty } }
    s'.Progress ∧ s.Proceeds call s' := by
  have hid : id ∈ s.buffer.freeTransfers := hfree ▸ List.mem_cons_self
  have hsize := h.size call hcall
  obtain ⟨hturns,hsubmitted⟩ := h.turns call hcall
  obtain ⟨b',hok',hpooled,hrest,hcount,hsame⟩ := nocheck_pooled h.pooled hfree
  obtain rfl := Except.ok.inj (hok.symm.trans hok')
  -- A second refusal is impossible: the front transfer is unused by then.
  have hfirst : call.turns = 0 := by
    rcases Nat.le_one_iff_eq_zero_or_eq_one.mp hturns with hzero | hone
    · exact hzero
    · obtain ⟨t,hsome⟩ := checkTransfer_unused call.type
        (h.pooled.sized id (List.mem_append_left _ hid))
        ((h.unused call hcall hone).1 id hid) hsize
      rw [hcheck] at hsome
      cases hsome
  have hunused : ∀ j ∈ b.freeTransfers, b.Unused j := by
    intro j hj
    rw [hrest] at hj
    rw [Unused, hsame j hj]
    exact h.pooled.unused j (by rw [hfree]; exact hj)
  rw [hfirst, Nat.add_zero] at hsubmitted
  rw [hfirst]
  refine ⟨⟨hpooled,?_,?_,?_,?_⟩,.again hfirst hcount rfl rfl⟩
  · intro r hr hmem
    dsimp only at hmem ⊢
    rw [hrest] at hmem
    rw [hsame _ hmem]
    exact h.below r hr (hfree ▸ List.mem_cons_of_mem id hmem)
  · rintro call' ⟨⟩
    exact hsize
  · rintro call' ⟨⟩
    exact ⟨le_rfl,hcount.trans (congrArg (· + 1) hsubmitted)⟩
  · rintro call' ⟨⟩ _
    exact ⟨hunused,fun hempty => List.isEmpty_iff.mpr hempty⟩

theorem turn_progress {call : FetchCall} (h : s.Progress) (hcall : s.call = some call) :
    ∃ s', s.turn = .ok s' ∧ s'.Progress ∧ s.Proceeds call s' := by
  cases hfree : s.buffer.freeTransfers with
  | nil =>
    have hturn := fetchTurn_empty call.type call.record.length hfree
    have hemptied : call.turns = 0 ∨ call.emptied = true := by
      rcases Nat.le_one_iff_eq_zero_or_eq_one.mp (h.turns call hcall).1 with hzero | hone
      · exact .inl hzero
      · exact .inr ((h.unused call hcall hone).2 hfree)
    refine ⟨{ s with call := none, returned := s.returned ++ [none] },?_,
      ⟨h.pooled,h.below,nofun,nofun,nofun⟩,.null hfree hemptied rfl rfl rfl⟩
    simp only [turn, hcall, hturn]
  | cons id rest =>
    obtain ⟨b,hturn,hok,hcheck⟩ | ⟨t,hturn,_,hsized,hlength,hroom⟩ :=
      fetchTurn_front call.type call.record.length h.pooled hfree
    · refine ⟨_,?_,again_progress h hcall hfree hok hcheck⟩
      simp only [turn, hcall, hturn]
    · have hfit : t.length + call.record.length ≤ maxTransmitLength := by omega
      obtain ⟨t',hwrite,htsized,htlength,_⟩ := Transfer.write_sized
        (t := { t with length := t.length + call.record.length }) hsized hfit
      refine ⟨_,?_,accept_progress call { t with length := t.length + call.record.length } h hfree
        htsized (htlength.trans (congrArg (· + call.record.length) hlength)) (hlength ▸ hroom)⟩
      simp only [turn, hcall, hturn, setTransfer, Function.update_self, hwrite]
      rw [hlength]

theorem turn_fetchBuffer {s' : FetchState} {call : FetchCall} (h : s.Progress)
    (hcall : s.call = some call) (hok : s.turn = .ok s') :
    (∀ call' ∈ s'.call, s.buffer.fetchBuffer call.type call.record =
        s'.buffer.fetchBuffer call.type call.record) ∧
      (s'.call = none → ∃ accepted,
        s.buffer.fetchBuffer call.type call.record = .ok (s'.buffer,accepted)) := by
  simp only [turn, hcall] at hok
  simp only [fetchBuffer, tryFetchBuffer_turn _ _ h.pooled]
  split at hok
  case h_1 => cases hok
  case h_2 b hturn =>
    cases hok
    rw [hturn]
    exact ⟨fun _ _ => rfl,by simp⟩
  case h_3 b hturn =>
    cases hok
    rw [hturn]
    exact ⟨by simp,fun _ => ⟨false,rfl⟩⟩
  case h_4 b id offset hturn =>
    split at hok
    case h_1 => cases hok
    case h_2 t hwrite =>
      cases hok
      rw [hturn]
      dsimp only
      rw [hwrite]
      refine ⟨fun call' hmem => ?_,fun _ => ⟨true,rfl⟩⟩
      cases hmem

theorem fetch_progress (type : Byte) {record : List Byte} (h : s.Progress)
    (hsize : record.length ≤ maxRegionSize) : (s.fetch type record).Progress := by
  unfold fetch
  split
  case h_1 => exact h
  case h_2 =>
    refine ⟨h.pooled,h.below,?_,?_,?_⟩
    · rintro call ⟨⟩
      exact hsize
    · rintro call ⟨⟩
      exact ⟨Nat.zero_le 1,rfl⟩
    · rintro call ⟨⟩ hturns
      cases hturns

theorem uninterrupted_fetch (type : Byte) {record : List Byte} (h : s.Progress)
    (hidle : s.call = none) (hsize : record.length ≤ maxRegionSize) :
    ∃ s' accepted, Runs.run step (.ok (s.fetch type record)) [.turn,.turn] = .ok s' ∧
      s'.call = none ∧ s.buffer.fetchBuffer type record = .ok (s'.buffer,accepted) := by
  have hcall : (s.fetch type record).call =
      some ⟨type,record,s.buffer.submitted.length,0,false⟩ := by rw [fetch, hidle]
  have hbuffer : (s.fetch type record).buffer = s.buffer := by rw [fetch, hidle]
  obtain ⟨s₁,hok₁,hprogress₁,hproceeds₁⟩ := turn_progress (fetch_progress type h hsize) hcall
  obtain ⟨hagain,hends⟩ := turn_fetchBuffer (fetch_progress type h hsize) hcall hok₁
  rw [hbuffer] at hagain hends
  have hstep₁ : step (.ok (s.fetch type record)) .turn = .ok s₁ := hok₁
  rw [Runs.run_cons, hstep₁]
  rcases hproceeds₁.ends with hnone | ⟨_,hcall₁⟩
  · obtain ⟨accepted,hfetch⟩ := hends hnone
    have hstep₂ : step (.ok s₁) .turn = .ok s₁ := by
      change s₁.turn = .ok s₁
      rw [turn, hnone]
    exact ⟨s₁,accepted,hstep₂,hnone,hfetch⟩
  · obtain ⟨s₂,hok₂,_,hproceeds₂⟩ := turn_progress hprogress₁ hcall₁
    have hnone : s₂.call = none := by
      rcases hproceeds₂.ends with hnone | ⟨hfirst,_⟩
      · exact hnone
      · cases hfirst
    obtain ⟨accepted,hfetch⟩ := (turn_fetchBuffer hprogress₁ hcall₁ hok₂).2 hnone
    exact ⟨s₂,accepted,hok₂,hnone,(hagain _ hcall₁).trans hfetch⟩

theorem nocheck_progress {id : Nat} {rest : List Nat} (h : s.Progress) (hcall : s.call = none)
    (hfree : s.buffer.freeTransfers = id :: rest) :
    ∃ b, s.buffer.triggerTransmissionNocheck = .ok b ∧ { s with buffer := b }.Progress := by
  obtain ⟨b,hok,hpooled,hrest,_,hsame⟩ := nocheck_pooled h.pooled hfree
  refine ⟨b,hok,hpooled,?_,?_,?_,?_⟩
  · intro r hr hmem
    dsimp only at hmem ⊢
    rw [hrest] at hmem
    rw [hsame _ hmem]
    exact h.below r hr (hfree ▸ List.mem_cons_of_mem id hmem)
  all_goals
    intro call hmem
    rw [hcall] at hmem
    cases hmem

theorem trigger_progress (allowEmpty : Bool) (h : s.Progress) :
    ∃ s', s.trigger allowEmpty = .ok s' ∧ s'.Progress := by
  unfold trigger
  split
  case h_1 => exact ⟨s,rfl,h⟩
  case h_2 hcall =>
    unfold triggerTransmission
    cases hfree : s.buffer.freeTransfers with
    | nil => exact ⟨s,rfl,h⟩
    | cons id rest =>
      dsimp only
      split
      case isTrue => exact ⟨s,rfl,h⟩
      case isFalse =>
        obtain ⟨b,hok,hprogress⟩ := nocheck_progress h hcall hfree
        rw [hok]
        exact ⟨_,rfl,hprogress⟩

theorem complete_progress (id : Nat) (h : s.Progress) :
    ∃ s', s.complete id = .ok s' ∧ s'.Progress := by
  unfold complete
  split
  case isFalse => exact ⟨s,rfl,h⟩
  case isTrue hid =>
    obtain ⟨b,hok,hpooled,hfree,hunused,hsubmitted,hother⟩ := complete_pooled h.pooled hid
    rw [hok]
    refine ⟨_,rfl,hpooled,?_,h.size,?_,?_⟩
    · intro r hr hmem
      obtain ⟨hr,hne⟩ := List.mem_filter.mp hr
      dsimp only at hmem ⊢
      rw [hfree] at hmem
      have hmem' : r.transfer ∈ s.buffer.freeTransfers :=
        (List.mem_append.mp hmem).resolve_right
          fun heq => of_decide_eq_true hne (List.mem_singleton.mp heq)
      rw [(hother _ hmem').2]
      exact h.below r hr hmem'
    · dsimp only
      rw [hsubmitted]
      exact h.turns
    · intro call hcall hone
      dsimp only
      rw [hfree]
      refine ⟨fun j hj => ?_,fun hempty => absurd hempty (by simp)⟩
      rcases List.mem_append.mp hj with hj | hj
      · rw [Unused, (hother j hj).2]
        exact (h.unused call hcall hone).1 j hj
      · exact List.mem_singleton.mp hj ▸ hunused

end FetchState

namespace FetchEvent

def Fits : FetchEvent → Prop
  | fetchSdo record | fetchPdo record => record.length ≤ TransmitBuffer.maxRegionSize
  | turn | trigger _ | complete _ => True

instance : ∀ e : FetchEvent, Decidable e.Fits
  | fetchSdo _ | fetchPdo _ => inferInstanceAs (Decidable (_ ≤ _))
  | turn | trigger _ | complete _ => inferInstanceAs (Decidable True)

end FetchEvent

namespace FetchState

variable {s : FetchState}

theorem create_progress (allocTransferCount : Nat) (memory : Nat → Memory) :
    (create allocTransferCount memory).Progress :=
  ⟨TransmitBuffer.create_pooled allocTransferCount memory,nofun,nofun,nofun,nofun⟩

theorem apply_progress {e : FetchEvent} (h : s.Progress) (hfits : e.Fits) :
    ∃ s', s.apply e = .ok s' ∧ s'.Progress := by
  cases e with
  | fetchSdo record => exact ⟨_,rfl,fetch_progress _ h hfits⟩
  | fetchPdo record => exact ⟨_,rfl,fetch_progress _ h hfits⟩
  | turn =>
    cases hcall : s.call with
    | none => exact ⟨s,by rw [apply, turn, hcall],h⟩
    | some call =>
      obtain ⟨s',hok,hprogress,_⟩ := turn_progress h hcall
      exact ⟨s',hok,hprogress⟩
  | trigger allowEmpty => exact trigger_progress allowEmpty h
  | complete id => exact complete_progress id h

theorem run_progress {es : List FetchEvent} (h : s.Progress) (hfits : ∀ e ∈ es, e.Fits) :
    ∃ s', Runs.run step (.ok s) es = .ok s' ∧ s'.Progress := by
  induction es generalizing s with
  | nil => exact ⟨s,rfl,h⟩
  | cons e es ih =>
    obtain ⟨hfit,hfits⟩ := List.forall_mem_cons.mp hfits
    obtain ⟨s',hok,hprogress⟩ := apply_progress h hfit
    have hstep : step (.ok s) e = .ok s' := hok
    obtain ⟨s'',hrun,hprogress'⟩ := ih hprogress hfits
    exact ⟨s'',by rw [Runs.run_cons, hstep, hrun],hprogress'⟩

def interruptedFetch : List FetchEvent :=
  [.fetchSdo [0x30,0x52,0xA4,0x02], .turn, .fetchPdo [0x01], .trigger true, .turn, .complete 0]

end FetchState

end WujiHand

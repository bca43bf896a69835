import WujiHand.Driver.Filling

namespace WujiHand.TransmitBuffer

variable {b b' : TransmitBuffer}

def log (b : TransmitBuffer) : List Record :=
  b.submitted.flatMap Submission.records ++ b.freeTransfers.flatMap b.records

structure Fresh (b : TransmitBuffer) : Prop where
  nodup : b.freeTransfers.Nodup
  empty : ∀ id ∈ b.freeTransfers.tail, b.records id = []

structure Pops (b b' : TransmitBuffer) (ids : List Nat) : Prop where
  free : b.freeTransfers = ids ++ b'.freeTransfers
  flying : b'.inFlight = ids.reverse ++ b.inFlight
  submitted : b'.submitted = b.submitted ++ ids.map fun id => ⟨b'.transfers id,b.records id⟩
  kept : ∀ id ∉ b.freeTransfers, b'.transfers id = b.transfers id

theorem Pops.front {id : Nat} (hid : b.freeTransfers.head? = some id)
    (hfree : b'.freeTransfers = b.freeTransfers) (hflying : b'.inFlight = b.inFlight)
    (hsubmitted : b'.submitted = b.submitted)
    (hother : ∀ j, j ≠ id → b'.transfers j = b.transfers j) : b.Pops b' [] := by
  refine ⟨hfree.symm,hflying,by rw [hsubmitted, List.map_nil, List.append_nil],?_⟩
  intro j hj
  exact hother j (fun heq => hj (heq ▸ List.mem_of_mem_head? hid))

theorem Pops.trans {b'' : TransmitBuffer} {ids ids' : List Nat} (h : b.Pops b' ids)
    (h' : b'.Pops b'' ids') (hrecords : b'.records = b.records)
    (hnodup : b.freeTransfers.Nodup) : b.Pops b'' (ids ++ ids') := by
  have hleft : ∀ id ∈ ids, id ∉ b'.freeTransfers := by
    rw [h.free] at hnodup
    exact fun id hid hmem => (List.nodup_append.mp hnodup).2.2 id hid id hmem rfl
  refine ⟨by rw [h.free, h'.free, List.append_assoc],?_,?_,?_⟩
  · rw [h'.flying, h.flying, List.reverse_append, List.append_assoc]
  · have hsame : ids.map (fun id => (⟨b'.transfers id,b.records id⟩ : Submission)) =
        ids.map fun id => ⟨b''.transfers id,b.records id⟩ := by
      refine List.map_congr_left fun id hid => ?_
      rw [h'.kept id (hleft id hid)]
    rw [h'.submitted, h.submitted, hrecords, hsame, List.map_append, List.append_assoc]
  · intro id hid
    have hid' : id ∉ b'.freeTransfers := by
      rw [h.free] at hid
      exact fun hmem => hid (List.mem_append_right _ hmem)
    exact (h'.kept id hid').trans (h.kept id hid)

theorem Pops.perm {ids : List Nat} (h : b.Pops b' ids) :
    (b'.freeTransfers ++ b'.inFlight).Perm (b.freeTransfers ++ b.inFlight) := by
  rw [h.flying, h.free, List.append_assoc]
  have hfront : (b'.freeTransfers ++ (ids.reverse ++ b.inFlight)).Perm
      (ids.reverse ++ (b'.freeTransfers ++ b.inFlight)) := List.perm_append_comm_assoc ..
  exact hfront.trans (ids.reverse_perm.append_right _)

structure Advances (b b' : TransmitBuffer) : Prop where
  log : b'.log = b.log
  records : b'.records = b.records
  free : b'.freeTransfers <:+ b.freeTransfers
  submitted : b.submitted <+: b'.submitted
  pops : b.freeTransfers.Nodup → ∃ ids, b.Pops b' ids

theorem Advances.refl (b : TransmitBuffer) : b.Advances b where
  log := rfl
  records := rfl
  free := List.suffix_rfl
  submitted := List.prefix_rfl
  pops := fun _ => ⟨[],rfl,rfl,(List.append_nil _).symm,fun _ _ => rfl⟩

theorem Advances.trans {b'' : TransmitBuffer} (h : b.Advances b') (h' : b'.Advances b'') :
    b.Advances b'' where
  log := h'.log.trans h.log
  records := h'.records.trans h.records
  free := h'.free.trans h.free
  submitted := h.submitted.trans h'.submitted
  pops := by
    intro hnodup
    obtain ⟨ids,hpops⟩ := h.pops hnodup
    obtain ⟨ids',hpops'⟩ := h'.pops (hnodup.sublist h.free.sublist)
    exact ⟨ids ++ ids',hpops.trans hpops' h.records hnodup⟩

theorem nocheck_advances (hok : b.triggerTransmissionNocheck = .ok b') :
    b.Advances b' ∧ b'.freeTransfers = b.freeTransfers.tail := by
  unfold triggerTransmissionNocheck at hok
  cases hfree : b.freeTransfers with
  | nil =>
    rw [hfree] at hok
    cases hok
    exact ⟨.refl b,hfree⟩
  | cons id rest =>
    simp only [hfree] at hok
    cases ht : (b.transfers id).beforeSubmitting with
    | error abort =>
      rw [ht] at hok
      cases hok
    | ok t =>
      rw [ht] at hok
      cases hok
      refine ⟨⟨?_,rfl,?_,List.prefix_append _ _,fun _ => ⟨[id],hfree,rfl,?_,?_⟩⟩,rfl⟩
      · simp only [log, hfree, setTransfer, List.flatMap_append, List.flatMap_cons,
          List.flatMap_nil, List.append_nil, List.append_assoc]
      · rw [hfree]
        exact List.suffix_cons id rest
      · simp only [setTransfer, Function.update_self, List.map_cons, List.map_nil]
      · intro j hj
        rw [hfree] at hj
        exact Function.update_of_ne (List.ne_of_not_mem_cons hj) ..

theorem setTransfer_advances {id : Nat} (hid : b.freeTransfers.head? = some id) (t : Transfer) :
    b.Advances (b.setTransfer id t) where
  log := rfl
  records := rfl
  free := List.suffix_rfl
  submitted := List.prefix_rfl
  pops := fun _ => ⟨[],.front hid rfl rfl rfl fun _ hj => Function.update_of_ne hj ..⟩

theorem tryFetchBuffer_advances {type : Byte} {size : Nat} {free : List Nat}
    {r : Option (Nat × Nat)} (hfree : b.freeTransfers = free)
    (hok : tryFetchBuffer type size free b = .ok (b',r)) :
    b.Advances b' ∧ ∀ p ∈ r, b'.freeTransfers.head? = some p.1 := by
  induction free generalizing b with
  | nil =>
    cases hok
    exact ⟨.refl _,nofun⟩
  | cons id rest ih =>
    rw [tryFetchBuffer] at hok
    cases hcheck : checkTransfer type size (b.transfers id) with
    | error abort =>
      rw [hcheck] at hok
      cases hok
    | ok accepted =>
      rw [hcheck] at hok
      cases accepted with
      | none =>
        cases hnocheck : b.triggerTransmissionNocheck with
        | error abort =>
          simp only [hnocheck] at hok
          cases hok
        | ok b₁ =>
          simp only [hnocheck] at hok
          obtain ⟨hadvances,htail⟩ := nocheck_advances hnocheck
          rw [hfree, List.tail_cons] at htail
          obtain ⟨hadvances',hhead⟩ := ih htail hok
          exact ⟨hadvances.trans hadvances',hhead⟩
      | some t =>
        have hid : b.freeTransfers.head? = some id := by rw [hfree, List.head?_cons]
        dsimp only at hok
        split at hok
        · cases hok
          exact ⟨setTransfer_advances hid t,nofun⟩
        · cases hok
          refine ⟨setTransfer_advances hid _,?_⟩
          intro p hp
          cases hp
          simp only [setTransfer, hfree, List.head?_cons]

def landing (type : Byte) (size : Nat) (b : TransmitBuffer) : Option Nat :=
  match tryFetchBuffer type size b.freeTransfers b with
  | .ok (_,some (id,_)) => some id
  | _ => none

structure Extends (type : Byte) (record : List Byte) (id : Nat) (b b' : TransmitBuffer) : Prop where
  front : b.freeTransfers.head? = some id
  free : b'.freeTransfers = b.freeTransfers
  submitted : b'.submitted = b.submitted
  records : b'.records = Function.update b.records id (b.records id ++ [⟨type,record⟩])
  pops : b.Pops b' []

structure Appends (type : Byte) (record : List Byte) (b b' : TransmitBuffer) : Prop where
  extended : ∃ b₁ id, b.Advances b₁ ∧ Extends type record id b₁ b' ∧
    b.landing type record.length = some id
  armed : b'.armed = true

theorem Appends.pops {type : Byte} {record : List Byte} (h : Appends type record b b')
    (hnodup : b.freeTransfers.Nodup) : ∃ ids, b.Pops b' ids := by
  obtain ⟨b₁,id,hadvances,hextends,_⟩ := h.extended
  obtain ⟨ids,hpops⟩ := hadvances.pops hnodup
  exact ⟨ids ++ [],hpops.trans hextends.pops hadvances.records hnodup⟩

theorem fetchBuffer_appends {type : Byte} {record : List Byte}
    (hok : b.fetchBuffer type record = .ok (b',true)) : Appends type record b b' := by
  unfold fetchBuffer at hok
  split at hok
  · cases hok
  · cases hok
  · rename_i b₁ id offset htry
    obtain ⟨hadvances,hhead⟩ := tryFetchBuffer_advances rfl htry
    cases hwrite : (b₁.transfers id).write offset record with
    | error abort =>
      rw [hwrite] at hok
      cases hok
    | ok t =>
      rw [hwrite] at hok
      cases hok
      have hfront := hhead (id,offset) rfl
      refine ⟨⟨b₁,id,hadvances,⟨hfront,rfl,rfl,rfl,?_⟩,?_⟩,rfl⟩
      · exact .front hfront rfl rfl rfl fun _ hj => Function.update_of_ne hj ..
      · rw [landing, htry]

theorem fetchBuffer_refuses {type : Byte} {record : List Byte}
    (hok : b.fetchBuffer type record = .ok (b',false)) : b.Advances b' := by
  unfold fetchBuffer at hok
  split at hok
  · cases hok
  · rename_i b₁ htry
    cases hok
    exact (tryFetchBuffer_advances rfl htry).1
  · split at hok
    · cases hok
    · cases hok

theorem Fresh.advances (h : b.Fresh) (ha : b.Advances b') : b'.Fresh := by
  refine ⟨h.nodup.sublist ha.free.sublist,fun id hid => ?_⟩
  rw [ha.records]
  obtain ⟨pre,hpre⟩ := ha.free
  refine h.empty id ?_
  rw [← hpre]
  cases pre with
  | nil => exact hid
  | cons first pre => exact List.mem_append_right _ (List.mem_of_mem_tail hid)

theorem Appends.log {type : Byte} {record : List Byte} (h : Appends type record b b')
    (hfresh : b.Fresh) : b'.log = b.log ++ [⟨type,record⟩] ∧ b'.Fresh ∧
      b.submitted <+: b'.submitted := by
  obtain ⟨b₁,id,hadvances,⟨hhead,hfree,hsubmitted,hrecords,_⟩,_⟩ := h.extended
  obtain ⟨rest,hrest⟩ := List.head?_eq_some_iff.mp hhead
  have hfresh₁ := hfresh.advances hadvances
  have hnotin : id ∉ rest := by
    have hnodup := hfresh₁.nodup
    rw [hrest] at hnodup
    exact (List.nodup_cons.mp hnodup).1
  have hempty : ∀ j ∈ rest, b₁.records j = [] := by
    intro j hj
    exact hfresh₁.empty j (by rw [hrest]; exact hj)
  have hother : ∀ j ∈ rest, b'.records j = [] := by
    intro j hj
    rw [hrecords, Function.update_of_ne (ne_of_mem_of_not_mem hj hnotin)]
    exact hempty j hj
  refine ⟨?_,⟨?_,?_⟩,?_⟩
  · rw [← hadvances.log, TransmitBuffer.log, TransmitBuffer.log, hfree, hsubmitted, hrest,
      List.flatMap_cons, List.flatMap_cons, List.flatMap_eq_nil_iff.mpr hother,
      List.flatMap_eq_nil_iff.mpr hempty, hrecords, Function.update_self, List.append_nil,
      List.append_nil, List.append_assoc]
  · rw [hfree]
    exact hfresh₁.nodup
  · intro j hj
    rw [hfree, hrest] at hj
    exact hother j hj
  · rw [hsubmitted]
    exact hadvances.submitted

theorem mem_log {r : Record} : r ∈ b.log ↔
    (∃ s ∈ b.submitted, r ∈ s.records) ∨ ∃ id ∈ b.freeTransfers, r ∈ b.records id := by
  simp only [log, List.mem_append, List.mem_flatMap]

theorem Appends.mem_log {type : Byte} {record : List Byte} (h : Appends type record b b')
    {r : Record} (hr : r ∈ b'.log) : r ∈ b.log ∨ r = ⟨type,record⟩ := by
  obtain ⟨b₁,id,hadvances,⟨_,hfree,hsubmitted,hrecords,_⟩,_⟩ := h.extended
  rw [← hadvances.log, TransmitBuffer.mem_log]
  rw [TransmitBuffer.mem_log, hfree, hsubmitted, hrecords] at hr
  rcases hr with hr | ⟨j,hj,hr⟩
  · exact .inl (.inl hr)
  · by_cases heq : j = id
    · subst heq
      rw [Function.update_self] at hr
      rcases List.mem_append.mp hr with hr | hr
      · exact .inl (.inr ⟨j,hj,hr⟩)
      · exact .inr (List.mem_singleton.mp hr)
    · rw [Function.update_of_ne heq] at hr
      exact .inl (.inr ⟨j,hj,hr⟩)

theorem complete_mem_log {id : Nat} (hok : b.transmitCompleteCallback id = .ok b') {r : Record}
    (hr : r ∈ b'.log) : r ∈ b.log := by
  unfold transmitCompleteCallback at hok
  split at hok
  · cases hok
  · split at hok
    · cases hok
      rw [mem_log] at hr ⊢
      refine hr.imp_right ?_
      rintro ⟨j,hj,hr⟩
      have hne : j ≠ id := by
        rintro rfl
        simp at hr
      simp only [Function.update_of_ne hne] at hr
      exact ⟨j,(List.mem_append.mp hj).resolve_right (fun hj => hne (List.mem_singleton.mp hj)),hr⟩
    · cases hok

theorem Rested.records_empty (h : b.Rested) {id : Nat} (hid : id ∈ b.freeTransfers) :
    b.records id = [] := ((h.sound.free id hid).empty (h.fresh id hid)).1

theorem Rested.fresh_log (h : b.Rested) :
    b.Fresh ∧ b.log = b.submitted.flatMap Submission.records := by
  refine ⟨⟨(List.nodup_append.mp h.sound.nodup).1,?_⟩,?_⟩
  · exact fun id hid => h.records_empty (List.mem_of_mem_tail hid)
  · rw [log, List.flatMap_eq_nil_iff.mpr (fun id hid => h.records_empty hid), List.append_nil]

theorem triggerTransmission_advances {allowEmpty : Bool}
    (hok : b.triggerTransmission allowEmpty = .ok b') : b.Advances b' := by
  unfold triggerTransmission at hok
  split at hok
  · cases hok
    exact .refl b
  · split at hok
    · cases hok
      exact .refl b
    · exact (nocheck_advances hok).1

section Places

theorem fetchBuffer_perm {type : Byte} {record : List Byte} {found : Bool}
    (hnodup : b.freeTransfers.Nodup) (hok : b.fetchBuffer type record = .ok (b',found)) :
    (b'.freeTransfers ++ b'.inFlight).Perm (b.freeTransfers ++ b.inFlight) := by
  cases found with
  | true =>
    obtain ⟨ids,hpops⟩ := (fetchBuffer_appends hok).pops hnodup
    exact hpops.perm
  | false =>
    obtain ⟨ids,hpops⟩ := (fetchBuffer_refuses hok).pops hnodup
    exact hpops.perm

theorem triggerTransmission_perm {allowEmpty : Bool} (hnodup : b.freeTransfers.Nodup)
    (hok : b.triggerTransmission allowEmpty = .ok b') :
    (b'.freeTransfers ++ b'.inFlight).Perm (b.freeTransfers ++ b.inFlight) := by
  obtain ⟨ids,hpops⟩ := (triggerTransmission_advances hok).pops hnodup
  exact hpops.perm

theorem transmitCompleteCallback_perm {id : Nat} (hid : id ∈ b.inFlight)
    (hok : b.transmitCompleteCallback id = .ok b') :
    (b'.freeTransfers ++ b'.inFlight).Perm (b.freeTransfers ++ b.inFlight) := by
  unfold transmitCompleteCallback at hok
  split at hok
  · cases hok
  · split at hok
    · cases hok
      exact recycled_perm hid
    · cases hok

end Places

end WujiHand.TransmitBuffer

import WujiHand.Driver.Transmit

namespace WujiHand

open Transfer

namespace Submission

def payload (s : Submission) : List Byte := s.records.flatMap Record.bytes

structure WireImage (s : Submission) : Prop where
  multiple : 16 ∣ s.transfer.length
  fits : s.transfer.length ≤ maxTransmitLength
  reserve : Header.size + s.payload.length + crcCheckSize ≤ s.transfer.length
  image : ∃ (description : BitVec 16) (type : Byte),
    16 * ((description >>> 10).toNat + 1) = s.transfer.length ∧
    (type = sdoFrame ∨ type = pdoFrame) ∧ (∀ r ∈ s.records, r.type = type) ∧
    s.transfer.buffer.take s.transfer.length =
      { description := description, type := type : Header }.encode ++ s.payload ++
        List.replicate (s.transfer.length - (Header.size + s.payload.length)) 0

end Submission

namespace TransmitBuffer

variable {b : TransmitBuffer}

def payload (b : TransmitBuffer) (id : Nat) : List Byte := (b.records id).flatMap Record.bytes

def Typed (type : Byte) (records : List Record) : Prop :=
  (type = sdoFrame ∨ type = pdoFrame) ∧ ∀ r ∈ records, r.type = type

def Free (b : TransmitBuffer) (id : Nat) : Prop :=
  ∃ description type, (b.transfers id).Holds { description := description, type := type }
      (b.payload id) ∧
    (b.transfers id).length + crcCheckSize ≤ maxTransmitLength ∧
    ((type = 0 ∧ b.records id = []) ∨ Typed type (b.records id))

def Flying (b : TransmitBuffer) (id : Nat) : Prop :=
  ∃ description type tail, (b.transfers id).buffer.length = maxTransmitLength ∧
    (b.transfers id).buffer =
      { description := description, type := type : Header }.encode ++ tail

structure Sound (b : TransmitBuffer) : Prop where
  nodup : (b.freeTransfers ++ b.inFlight).Nodup
  bounded : (b.freeTransfers ++ b.inFlight).length ≤ b.maxSize
  free : ∀ id ∈ b.freeTransfers, b.Free id
  flying : ∀ id ∈ b.inFlight, b.Flying id
  armed : b.armed = true → ∃ id ∈ b.freeTransfers.head?, (b.transfers id).type ≠ 0
  submitted : ∀ s ∈ b.submitted, s.WireImage

theorem holds_type {t : Transfer} {header : Header} {payload : List Byte}
    (h : t.Holds header payload) : t.type = header.type := by
  obtain ⟨rest,hbuf,_⟩ := h
  rw [Transfer.type, hbuf, encode_type]

theorem Free.congr {b' : TransmitBuffer} {id : Nat} (h : b.Free id)
    (ht : b'.transfers id = b.transfers id) (hr : b'.records id = b.records id) : b'.Free id := by
  simpa only [Free, payload, ht, hr] using h

theorem Flying.congr {b' : TransmitBuffer} {id : Nat} (h : b.Flying id)
    (ht : b'.transfers id = b.transfers id) : b'.Flying id := by
  simpa only [Flying, ht] using h

theorem free_of_prefilled {id : Nat} {description : BitVec 16} {tail : List Byte}
    (ht : b.transfers id = ⟨{ description := description : Header }.encode ++ tail,prefillSize⟩)
    (hsize : (b.transfers id).buffer.length = maxTransmitLength) (hr : b.records id = []) :
    b.Free id := by
  have hroom : prefillSize + crcCheckSize ≤ maxTransmitLength := by decide
  have hpayload : b.payload id = [] := by rw [payload, hr, List.flatMap_nil]
  refine ⟨description,0,⟨tail,?_,hsize,?_⟩,?_,.inl ⟨rfl,hr⟩⟩
  · rw [ht, hpayload, List.nil_append]
  · rw [ht, hpayload]
    rfl
  · rw [ht]
    exact hroom

theorem sound_create (allocTransferCount : Nat) (memory : Nat → Memory) :
    (create allocTransferCount memory).Sound where
  nodup := by simp [create, List.nodup_range]
  bounded := by simpa [create] using RingBuffer.le_ringMaxSize allocTransferCount
  free := by
    intro id _
    refine free_of_prefilled rfl ?_ rfl
    have hlen := (memory id).property
    simp only [create, prefill, List.length_append, Header.encode_length, List.length_drop, hlen]
    decide
  flying := by
    intro id hid
    cases hid
  armed := by
    intro h
    cases h
  submitted := by
    intro s hs
    cases hs

theorem wireImage_of_free {id : Nat} (h : b.Free id) (htype : (b.transfers id).type ≠ 0) :
    ∃ t, (b.transfers id).beforeSubmitting = .ok t ∧
      (⟨t,b.records id⟩ : Submission).WireImage ∧
      t.buffer.length = maxTransmitLength ∧
      ∃ description type tail, t.buffer =
        { description := description, type := type : Header }.encode ++ tail := by
  obtain ⟨_,type,hholds,hroom,htyped⟩ := h
  have htyped' : Typed type (b.records id) := by
    rcases htyped with ⟨rfl,_⟩ | htyped
    · exact absurd (holds_type hholds) htype
    · exact htyped
  obtain ⟨t,rest,hok,hlen,hsize,hbuf⟩ := beforeSubmitting_image hholds hroom
  obtain ⟨_,_,_,hpayload⟩ := hholds
  obtain ⟨hle,hmax⟩ := paddedLength_bounds hroom
  refine ⟨t,hok,⟨?_,?_,?_,?_⟩,hsize,description (b.transfers id).length,type,_,hbuf⟩
  · dsimp only
    rw [hlen, paddedLength_eq hroom]
    exact Nat.dvd_mul_right ..
  · dsimp only
    omega
  · change Header.size + (b.payload id).length + crcCheckSize ≤ t.length
    omega
  · refine ⟨description (b.transfers id).length,type,(frameLength_eq hroom).trans hlen.symm,
      htyped'.1,htyped'.2,?_⟩
    change t.buffer.take t.length = _ ++ b.payload id ++
      List.replicate (t.length - (Header.size + (b.payload id).length)) 0
    rw [hbuf, ← hpayload, hlen, ← List.append_assoc, ← List.append_assoc]
    apply List.take_left'
    simp only [List.length_append, Header.encode_length, List.length_replicate]
    omega

theorem nocheck_sound {id : Nat} {rest : List Nat} (h : b.Sound)
    (hfree : b.freeTransfers = id :: rest) (htype : (b.transfers id).type ≠ 0) :
    ∃ b', b.triggerTransmissionNocheck = .ok b' ∧ b'.Sound ∧ b'.freeTransfers = rest ∧
      ∀ j ∈ rest, b'.transfers j = b.transfers j := by
  have hmem : id ∈ b.freeTransfers := by
    rw [hfree]
    exact List.mem_cons_self
  obtain ⟨t,hok,himage,hsize,hflying⟩ := wireImage_of_free (h.free id hmem) htype
  have hperm := submitted_perm hfree
  have hnodup := hperm.nodup_iff.mpr h.nodup
  have hother : ∀ j ∈ rest ++ b.inFlight, Function.update b.transfers id t j = b.transfers j := by
    intro j hj
    exact Function.update_of_ne (ne_of_mem_of_not_mem hj (front_notMem h.nodup hfree)) ..
  refine ⟨_,by simp only [triggerTransmissionNocheck, hfree, hok]; rfl,⟨hnodup,?_,?_,?_,?_,?_⟩,rfl,
    fun j hj => hother j (List.mem_append_left _ hj)⟩
  · exact hperm.length_eq.trans_le h.bounded
  · intro j hj
    have hj' : j ∈ b.freeTransfers := by
      rw [hfree]
      exact List.mem_cons_of_mem _ hj
    exact (h.free j hj').congr (hother j (List.mem_append_left _ hj)) rfl
  · intro j hj
    rcases List.mem_cons.mp hj with rfl | hj
    · obtain ⟨description,type,tail,hbuf⟩ := hflying
      refine ⟨description,type,tail,?_⟩
      simp only [setTransfer, Function.update_self]
      exact ⟨hsize,hbuf⟩
    · exact (h.flying j hj).congr (hother j (List.mem_append_right _ hj))
  · intro harmed
    cases harmed
  · intro s hs
    rcases List.mem_append.mp hs with hs | hs
    · exact h.submitted s hs
    · rw [List.mem_singleton.mp hs]
      exact himage

theorem Free.empty {id : Nat} (h : b.Free id) (htype : (b.transfers id).type = 0) :
    b.records id = [] ∧ (b.transfers id).length = prefillSize := by
  obtain ⟨description,type,hholds,_,htyped⟩ := h
  obtain rfl : type = 0 := (holds_type hholds).symm.trans htype
  have hnil : b.records id = [] := by
    rcases htyped with ⟨_,hnil⟩ | ⟨h | h,_⟩
    · exact hnil
    · cases h
    · cases h
  obtain ⟨_,_,_,hlen⟩ := hholds
  rw [payload, hnil] at hlen
  exact ⟨hnil,hlen⟩

structure Accepts (b : TransmitBuffer) (type : Byte) (size : Nat) (id : Nat) (t : Transfer) :
    Prop where
  check : checkTransfer type size (b.transfers id) = .ok (some t)
  holds : ∃ description, t.Holds { description := description, type := type } (b.payload id)
  room : t.length + size + crcCheckSize ≤ maxTransmitLength
  length : t.length = (b.transfers id).length
  records : ∀ r ∈ b.records id, r.type = type

theorem checkTransfer_full {type : Byte} {size : Nat} {t : Transfer}
    (h : maxTransmitLength < t.length + size + crcCheckSize) :
    checkTransfer type size t = .ok none := by
  have hfull : (maxTransmitLength : Int) - t.length < size + crcCheckSize := by omega
  rw [checkTransfer, if_pos hfull]

theorem checkTransfer_mismatch {type : Byte} {size : Nat} {t : Transfer} (hzero : t.type ≠ 0)
    (h : t.type ≠ type) : checkTransfer type size t = .ok none := by
  rw [checkTransfer, if_neg hzero, if_pos h, ite_self]

theorem checkTransfer_accepts {type : Byte} {size id : Nat} (h : b.Free id)
    (htype : (b.transfers id).type = 0 ∨ (b.transfers id).type = type)
    (hroom : (b.transfers id).length + size + crcCheckSize ≤ maxTransmitLength) :
    ∃ t, b.Accepts type size id t := by
  have hfit : ¬(maxTransmitLength : Int) - (b.transfers id).length < size + crcCheckSize := by
    omega
  by_cases hzero : (b.transfers id).type = 0
  · obtain ⟨hnil,hlen⟩ := h.empty hzero
    obtain ⟨description,_,hholds,_⟩ := h
    obtain ⟨t,hset,hholds'⟩ := setType_holds type hholds
    have hlen' : t.length = (b.transfers id).length := by
      obtain ⟨_,_,_,hlen⟩ := hholds
      obtain ⟨_,_,_,hlen'⟩ := hholds'
      exact hlen'.trans hlen.symm
    refine ⟨t,?_,⟨description,hholds'⟩,hlen' ▸ hroom,hlen',fun r hr => ?_⟩
    · rw [checkTransfer, if_neg hfit, if_pos hzero, hset]
    · rw [hnil] at hr
      cases hr
  · have hsame := htype.resolve_left hzero
    obtain ⟨description,_,hholds,_,htyped⟩ := h
    obtain rfl := (holds_type hholds).symm.trans hsame
    refine ⟨b.transfers id,?_,⟨description,hholds⟩,hroom,rfl,?_⟩
    · rw [checkTransfer, if_neg hfit, if_neg hzero, if_neg (not_not_intro hsame)]
    · rcases htyped with ⟨h,_⟩ | ⟨_,h⟩
      · exact absurd (hsame.trans h) hzero
      · exact h

theorem checkTransfer_cases {type : Byte} {size id : Nat} (h : b.Free id)
    (hsize : size ≤ Pdo.writeSize) :
    checkTransfer type size (b.transfers id) = .ok none ∧ (b.transfers id).type ≠ 0 ∨
      ∃ t, b.Accepts type size id t := by
  by_cases hroom : (b.transfers id).length + size + crcCheckSize ≤ maxTransmitLength
  · by_cases htype : (b.transfers id).type = 0 ∨ (b.transfers id).type = type
    · exact .inr (checkTransfer_accepts h htype hroom)
    · obtain ⟨hzero,hother⟩ := not_or.mp htype
      exact .inl ⟨checkTransfer_mismatch hzero hother,hzero⟩
  · -- A transfer without a type is empty, and every record fits into an empty transfer.
    refine .inl ⟨checkTransfer_full (by omega),fun hzero => ?_⟩
    obtain ⟨_,hlen⟩ := h.empty hzero
    simp only [hlen, prefillSize, Header.size, maxTransmitLength, crcCheckSize,
      Pdo.writeSize] at hroom hsize
    omega

theorem Sound.update_front {b' : TransmitBuffer} {id : Nat} {rest : List Nat} (h : b.Sound)
    (hfree : b.freeTransfers = id :: rest) (hsize : b'.maxSize = b.maxSize)
    (hfree' : b'.freeTransfers = b.freeTransfers) (hflight : b'.inFlight = b.inFlight)
    (hsubmitted : b'.submitted = b.submitted)
    (hother : ∀ j, j ≠ id → b'.transfers j = b.transfers j ∧ b'.records j = b.records j)
    (hnew : b'.Free id) (htype : (b'.transfers id).type ≠ 0) : b'.Sound := by
  have hne := front_notMem h.nodup hfree
  refine ⟨by rw [hfree', hflight]; exact h.nodup,by rw [hfree', hflight, hsize]; exact h.bounded,
    ?_,?_,?_,by rw [hsubmitted]; exact h.submitted⟩
  · intro j hj
    rw [hfree'] at hj
    by_cases hid : j = id
    · exact hid ▸ hnew
    · exact (h.free j hj).congr (hother j hid).1 (hother j hid).2
  · intro j hj
    rw [hflight] at hj
    have hid : j ≠ id := ne_of_mem_of_not_mem (List.mem_append_right _ hj) hne
    exact (h.flying j hj).congr (hother j hid).1
  · intro _
    refine ⟨id,?_,htype⟩
    rw [hfree', hfree]
    rfl

theorem fetchBuffer_empty {type : Byte} {record : List Byte} (hfree : b.freeTransfers = []) :
    b.fetchBuffer type record = .ok (b,false) := by
  rw [fetchBuffer, hfree]
  rfl

theorem fetchBuffer_refused {b' : TransmitBuffer} {type : Byte} {record : List Byte} {id : Nat}
    (hfree : b.freeTransfers = id :: b'.freeTransfers)
    (hcheck : checkTransfer type record.length (b.transfers id) = .ok none)
    (hok : b.triggerTransmissionNocheck = .ok b') :
    b.fetchBuffer type record = b'.fetchBuffer type record := by
  simp only [fetchBuffer, hfree, tryFetchBuffer, hcheck, hok]

theorem fetchBuffer_accepted {type : Byte} {record : List Byte} {id : Nat} {rest : List Nat}
    {t : Transfer} (h : b.Sound) (hfree : b.freeTransfers = id :: rest)
    (htype : type = sdoFrame ∨ type = pdoFrame) (haccepts : b.Accepts type record.length id t) :
    ∃ b', b.fetchBuffer type record = .ok (b',true) ∧ b'.Sound ∧ b'.armed = true ∧
      b'.freeTransfers = b.freeTransfers ∧ (b'.transfers id).type = type ∧
      (b'.transfers id).length = (b.transfers id).length + record.length ∧
      ∀ j, j ≠ id → b'.transfers j = b.transfers j := by
  obtain ⟨hcheck,⟨description,hholds⟩,hroom,hlen,hrecords⟩ := haccepts
  obtain ⟨t',hwrite,hholds',hlen'⟩ := fill_holds record hholds (by omega)
  have hfit : ¬(maxTransmitLength : Int) - t.length < record.length := by omega
  have htype' : t'.type = type := holds_type hholds'
  simp only [fetchBuffer, hfree, tryFetchBuffer, hcheck, if_neg hfit, setTransfer,
    Function.update_self, hwrite]
  refine ⟨_,rfl,h.update_front hfree rfl hfree.symm rfl rfl ?_ ?_ ?_,rfl,rfl,?_,?_,?_⟩
  · intro j hj
    simp only [Function.update_of_ne hj, and_self]
  · refine ⟨description,type,?_,?_,.inr ⟨htype,?_⟩⟩
    · simpa only [payload, Function.update_self, List.flatMap_append, List.flatMap_cons,
        List.flatMap_nil, List.append_nil] using hholds'
    · simp only [Function.update_self, hlen']
      omega
    · intro r hr
      simp only [Function.update_self, List.mem_append, List.mem_singleton] at hr
      rcases hr with hr | rfl
      · exact hrecords r hr
      · rfl
  · simp only [Function.update_self, htype']
    rcases htype with rfl | rfl
    · decide
    · decide
  · simp only [Function.update_self, htype']
  · simp only [Function.update_self, hlen', hlen]
  · intro j hj
    simp only [Function.update_of_ne hj]

theorem fetchBuffer_sound {type : Byte} {record : List Byte} (h : b.Sound)
    (htype : type = sdoFrame ∨ type = pdoFrame) (hsize : record.length ≤ Pdo.writeSize) :
    ∃ b' accepted, b.fetchBuffer type record = .ok (b',accepted) ∧ b'.Sound := by
  -- The induction is on the ring of free transfers, which every refusal shortens.
  generalize hfree : b.freeTransfers = free
  induction free generalizing b with
  | nil => exact ⟨b,false,fetchBuffer_empty hfree,h⟩
  | cons id rest ih =>
    have hid : b.Free id := h.free id (hfree ▸ List.mem_cons_self)
    rcases checkTransfer_cases hid hsize with ⟨hcheck,hzero⟩ | ⟨t,haccepts⟩
    · obtain ⟨b',hok,hsound,hrest,_⟩ := nocheck_sound h hfree hzero
      rw [fetchBuffer_refused (hrest ▸ hfree) hcheck hok]
      exact ih hsound hrest
    · obtain ⟨b',hfetch,hsound,_⟩ := fetchBuffer_accepted h hfree htype haccepts
      exact ⟨b',true,hfetch,hsound⟩

theorem transmitCompleteCallback_sound {id : Nat} (h : b.Sound) (hid : id ∈ b.inFlight) :
    ∃ b', b.transmitCompleteCallback id = .ok b' ∧ b'.Sound ∧
      b'.freeTransfers = b.freeTransfers ++ [id] ∧ (b'.transfers id).type = 0 ∧
      ∀ j, j ≠ id → b'.transfers j = b.transfers j := by
  obtain ⟨description,type,tail,hsize,hbuf⟩ := h.flying id hid
  have hset : { b.transfers id with length := prefillSize }.setType 0 =
      .ok ⟨{ description := description : Header }.encode ++ tail,prefillSize⟩ := by
    rw [setType, write, hbuf, poke_type]
  have hperm := recycled_perm hid
  have hnodup := hperm.nodup_iff.mpr h.nodup
  have hroom := recycled_room h.bounded hid
  have hlanded := recycled_ne h.nodup hid
  have hflown : ∀ j ∈ b.inFlight.erase id, j ∈ b.inFlight ∧ j ≠ id := by
    intro j hj
    have hj' := (List.nodup_append.mp h.nodup).2.1.mem_erase_iff.mp hj
    exact ⟨hj'.2,hj'.1⟩
  simp only [transmitCompleteCallback, hset, if_pos hroom]
  refine ⟨_,rfl,⟨hnodup,?_,?_,?_,?_,h.submitted⟩,rfl,?_,fun j hj => Function.update_of_ne hj ..⟩
  · exact hperm.length_eq.trans_le h.bounded
  · intro j hj
    by_cases heq : j = id
    · subst heq
      refine free_of_prefilled (Function.update_self ..) ?_ (Function.update_self ..)
      rw [hbuf, List.length_append, Header.encode_length] at hsize
      simpa only [setTransfer, Function.update_self, List.length_append, Header.encode_length]
        using hsize
    · have hj' : j ∈ b.freeTransfers := by
        rcases List.mem_append.mp hj with hj | hj
        · exact hj
        · exact absurd (List.mem_singleton.mp hj) heq
      exact (h.free j hj').congr (Function.update_of_ne heq ..) (Function.update_of_ne heq ..)
  · intro j hj
    obtain ⟨hj',hne⟩ := hflown j hj
    exact (h.flying j hj').congr (Function.update_of_ne hne ..)
  · intro harmed
    obtain ⟨j,hj,htype⟩ := h.armed harmed
    have hne := hlanded j (List.mem_of_mem_head? hj)
    refine ⟨j,?_,?_⟩
    · dsimp only
      rw [List.head?_append, Option.mem_def.mp hj]
      rfl
    · simpa only [setTransfer, Function.update_of_ne hne] using htype
  · simp only [setTransfer, Function.update_self]
    exact encode_type _ tail

theorem triggerTransmission_sound {allowEmpty : Bool} (h : b.Sound) (harmed : b.armed = true) :
    ∃ b', b.triggerTransmission allowEmpty = .ok b' ∧ b'.Sound := by
  obtain ⟨id,hid,htype⟩ := h.armed harmed
  obtain ⟨rest,hfree⟩ := List.head?_eq_some_iff.mp (Option.mem_def.mp hid)
  obtain ⟨b',hok,hsound,_⟩ := nocheck_sound h hfree htype
  by_cases hempty : allowEmpty = false ∧ (b.transfers id).length ≤ prefillSize
  · exact ⟨b,by simp only [triggerTransmission, hfree, if_pos hempty],h⟩
  · exact ⟨b',by simp only [triggerTransmission, hfree, if_neg hempty, hok],hsound⟩

def Permits (b : TransmitBuffer) : TransmitEvent → Prop
  | .fetchSdo record | .fetchPdo record => record.length ≤ Pdo.writeSize
  | .trigger _ => b.armed = true
  | .complete _ => True

theorem sdoRequest_permits (r : SdoRequest) : b.Permits (.fetchSdo r.encode) := by
  have hle := r.length_le
  rw [← r.encode_length] at hle
  exact hle.trans (by decide)

theorem empty_permits : b.Permits (.fetchSdo []) := Nat.zero_le _

theorem pdoRead_permits : b.Permits (.fetchPdo Pdo.readRecord) := Pdo.readRecord_length

theorem pdoWrite_permits (w : Pdo.Write) : b.Permits (.fetchPdo w.encode) :=
  w.encode_length.le

def Permitted : Except TxAbort TransmitBuffer → TransmitEvent → Prop
  | .ok b, e => b.Permits e
  | .error _, _ => True

instance (b : TransmitBuffer) : ∀ e, Decidable (b.Permits e)
  | .fetchSdo _ | .fetchPdo _ => inferInstanceAs (Decidable (_ ≤ _))
  | .trigger _ => inferInstanceAs (Decidable (_ = _))
  | .complete _ => inferInstanceAs (Decidable True)

instance : ∀ s e, Decidable (Permitted s e)
  | .ok b, e => inferInstanceAs (Decidable (b.Permits e))
  | .error _, _ => inferInstanceAs (Decidable True)

def unclearedMemory : Memory := ⟨List.replicate maxTransmitLength 0xff,List.length_replicate⟩

end TransmitBuffer

end WujiHand

import WujiHand.Driver.WireImage
import WujiHand.Library.NextFit

namespace WujiHand.TransmitBuffer

open Transfer NextFit

variable {b : TransmitBuffer}

def frameCapacity : Nat := maxTransmitLength - crcCheckSize

structure Filling (b : TransmitBuffer) (s : Supply Nat) : Prop where
  sound : b.Sound
  count : b.freeTransfers.length = s.free
  front : ∀ id ∈ b.freeTransfers.head?, (b.transfers id).length = s.level ∧
    ((b.transfers id).type = 0 ∨ (b.transfers id).type = sdoFrame)
  fresh : ∀ id ∈ b.freeTransfers.tail, (b.transfers id).type = 0

structure Rested (b : TransmitBuffer) : Prop where
  sound : b.Sound
  fresh : ∀ id ∈ b.freeTransfers, (b.transfers id).type = 0

theorem Rested.filling (h : b.Rested) : b.Filling ⟨prefillSize,b.freeTransfers.length⟩ where
  sound := h.sound
  count := rfl
  front := by
    intro id hid
    have hmem := List.mem_of_mem_head? hid
    have htype := h.fresh id hmem
    exact ⟨((h.sound.free id hmem).empty htype).2,.inl htype⟩
  fresh := fun id hid => h.fresh id (List.mem_of_mem_tail hid)

theorem create_rested (allocTransferCount : Nat) (memory : Nat → Memory) :
    (create allocTransferCount memory).Rested :=
  ⟨sound_create allocTransferCount memory,fun _ _ => rfl⟩

theorem complete_rested {id : Nat} (h : b.Rested) (hid : id ∈ b.inFlight) :
    ∃ b', b.transmitCompleteCallback id = .ok b' ∧ b'.Rested := by
  obtain ⟨b',hok,hsound,hfree,htype,hother⟩ := transmitCompleteCallback_sound h.sound hid
  refine ⟨b',hok,hsound,fun j hj => ?_⟩
  by_cases heq : j = id
  · exact heq ▸ htype
  · rw [hfree] at hj
    rw [hother j heq]
    exact h.fresh j ((List.mem_append.mp hj).resolve_right (fun hj => heq (List.mem_singleton.mp hj)))

theorem completed_rested {b' : TransmitBuffer} {id : Nat} (h : b.Rested) (hid : id ∈ b.inFlight)
    (hok : b.transmitCompleteCallback id = .ok b') : b'.Rested := by
  obtain ⟨b'',hok',hrested⟩ := complete_rested h hid
  rw [hok] at hok'
  exact Except.ok.inj hok' ▸ hrested

theorem Filling.accepted {s : Supply Nat} {id : Nat} {rest : List Nat} (h : b.Filling s)
    (hfree : b.freeTransfers = id :: rest) (record : List Byte)
    (hfit : s.level + record.length ≤ frameCapacity) :
    ∃ b', b.fetchSdoBuffer record = .ok (b',true) ∧ b'.armed = true ∧
      b'.Filling ⟨s.level + record.length,s.free⟩ := by
  have hmem : id ∈ b.freeTransfers := hfree ▸ List.mem_cons_self
  have hnodup := front_notMem h.sound.nodup hfree
  obtain ⟨hlevel,htype⟩ := h.front id (by rw [hfree]; rfl)
  have hroom : (b.transfers id).length + record.length + crcCheckSize ≤ maxTransmitLength := by
    simp only [frameCapacity, maxTransmitLength, crcCheckSize] at hfit ⊢
    omega
  obtain ⟨t,haccepts⟩ := checkTransfer_accepts (h.sound.free id hmem) htype hroom
  obtain ⟨b',hfetch,hsound,harmed,hfree',htype',hlen',hother⟩ :=
    fetchBuffer_accepted h.sound hfree (.inl rfl) haccepts
  refine ⟨b',hfetch,harmed,hsound,?_,?_,?_⟩
  · rw [hfree']
    exact h.count
  · intro j hj
    rw [hfree', hfree] at hj
    obtain rfl : id = j := Option.some.inj hj
    exact ⟨hlen'.trans (congrArg (· + record.length) hlevel),.inr htype'⟩
  · intro j hj
    rw [hfree', hfree] at hj
    rw [hother j (ne_of_mem_of_not_mem (List.mem_append_left _ hj) hnodup)]
    exact h.fresh j (by rw [hfree]; exact hj)

theorem Filling.submitted {s : Supply Nat} {id : Nat} {rest : List Nat} (h : b.Filling s)
    (hfree : b.freeTransfers = id :: rest) (htype : (b.transfers id).type ≠ 0) :
    ∃ b', b.triggerTransmissionNocheck = .ok b' ∧ b'.freeTransfers = rest ∧ b'.Rested := by
  obtain ⟨b',hok,hsound,hrest,hsame⟩ := nocheck_sound h.sound hfree htype
  refine ⟨b',hok,hrest,hsound,?_⟩
  intro j hj
  rw [hrest] at hj
  rw [hsame j hj]
  exact h.fresh j (by rw [hfree]; exact hj)

theorem Filling.refused {s : Supply Nat} {id : Nat} {rest : List Nat} {record : List Byte}
    (h : b.Filling s) (hfree : b.freeTransfers = id :: rest)
    (hsize : record.length ≤ Pdo.writeSize) (hfull : ¬s.level + record.length ≤ frameCapacity) :
    ∃ b' : TransmitBuffer, b.fetchSdoBuffer record = b'.fetchSdoBuffer record ∧
      b'.freeTransfers = rest ∧ b'.Rested := by
  have hmem : id ∈ b.freeTransfers := hfree ▸ List.mem_cons_self
  obtain ⟨hlevel,_⟩ := h.front id (by rw [hfree]; rfl)
  simp only [frameCapacity, maxTransmitLength, crcCheckSize] at hfull
  have hcheck : checkTransfer sdoFrame record.length (b.transfers id) = .ok none := by
    apply checkTransfer_full
    simp only [maxTransmitLength, crcCheckSize]
    omega
  have htype : (b.transfers id).type ≠ 0 := by
    intro hzero
    have hlen := ((h.sound.free id hmem).empty hzero).2
    simp only [prefillSize, Header.size, Pdo.writeSize] at hlen hsize
    omega
  obtain ⟨b',hok,hrest,hrested⟩ := h.submitted hfree htype
  exact ⟨b',fetchBuffer_refused (hrest ▸ hfree) hcheck hok,hrest,hrested⟩

theorem fetchSdoBuffer_place {s : Supply Nat} {record : List Byte} (h : b.Filling s)
    (hsize : record.length ≤ Pdo.writeSize) :
    ∃ b', b.fetchSdoBuffer record =
        .ok (b',(place frameCapacity prefillSize record.length s).isSome) ∧
      ∀ s', place frameCapacity prefillSize record.length s = some s' →
        b'.armed = true ∧ b'.Filling s' := by
  have hfresh : prefillSize + record.length ≤ frameCapacity := by
    simp only [prefillSize, Header.size, frameCapacity, maxTransmitLength, crcCheckSize,
      Pdo.writeSize] at hsize ⊢
    omega
  have hcount := h.count
  cases hfree : b.freeTransfers with
  | nil =>
    have hzero : s.free = 0 := by rw [← hcount, hfree]; rfl
    rw [place_empty hzero]
    refine ⟨b,fetchBuffer_empty hfree,?_⟩
    intro s' hs'
    cases hs'
  | cons id rest =>
    have hpos : s.free = rest.length + 1 := by rw [← hcount, hfree]; rfl
    rw [place, if_neg (by omega)]
    by_cases hfit : s.level + record.length ≤ frameCapacity
    · obtain ⟨b',hfetch,harmed,hfilling⟩ := h.accepted hfree record hfit
      rw [if_pos hfit]
      refine ⟨b',hfetch,?_⟩
      intro s' hs'
      cases hs'
      exact ⟨harmed,hfilling⟩
    · obtain ⟨b',hfetch,hrest,hrested⟩ := h.refused hfree hsize hfit
      rw [if_neg hfit, hfetch]
      cases rest with
      | nil =>
        rw [if_pos (show s.free = 1 from hpos)]
        refine ⟨b',fetchBuffer_empty hrest,?_⟩
        intro s' hs'
        cases hs'
      | cons next rest =>
        have hmore : s.free ≠ 1 := by
          rw [hpos]
          exact Nat.succ_ne_succ_iff.mpr (Nat.succ_ne_zero _)
        obtain ⟨b'',hfetch',harmed,hfilling⟩ := hrested.filling.accepted hrest record hfresh
        rw [if_neg hmore]
        refine ⟨b'',hfetch',?_⟩
        intro s' hs'
        cases hs'
        have hfree' : s.free - 1 = b'.freeTransfers.length := by
          rw [hpos, hrest]
          rfl
        exact ⟨harmed,hfree' ▸ hfilling⟩

theorem triggerTransmission_rested {s : Supply Nat} (h : b.Filling s) (harmed : b.armed = true) :
    ∃ b', b.triggerTransmission true = .ok b' ∧ b'.Rested := by
  obtain ⟨id,hid,htype⟩ := h.sound.armed harmed
  obtain ⟨rest,hfree⟩ := List.head?_eq_some_iff.mp (Option.mem_def.mp hid)
  obtain ⟨b',hok,_,hrested⟩ := h.submitted hfree htype
  refine ⟨b',?_,hrested⟩
  simp only [triggerTransmission, hfree, reduceCtorEq, false_and, if_false, hok]

end WujiHand.TransmitBuffer

namespace WujiHand

structure RestedBuffer where
  buffer : TransmitBuffer
  rested : buffer.Rested

end WujiHand

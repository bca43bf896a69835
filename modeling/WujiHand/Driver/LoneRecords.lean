import WujiHand.Driver.Filling

namespace WujiHand.TransmitBuffer

variable {b b' : TransmitBuffer}

structure Loaded (record : Record) (b : TransmitBuffer) : Prop where
  sound : b.Sound
  front : ∃ id rest, b.freeTransfers = id :: rest ∧ (b.transfers id).type ≠ 0 ∧
    prefillSize < (b.transfers id).length ∧ b.records id = [record] ∧
    ∀ j ∈ rest, (b.transfers j).type = 0

theorem fetchBuffer_front {type : Byte} {record : List Byte} {id : Nat} {rest : List Nat}
    {t : Transfer} (hfree : b.freeTransfers = id :: rest)
    (haccepts : b.Accepts type record.length id t) (hok : b.fetchBuffer type record = .ok (b',true)) :
    b'.submitted = b.submitted ∧ b'.records id = b.records id ++ [⟨type,record⟩] := by
  have hfit : ¬(maxTransmitLength : Int) - t.length < record.length := by
    have hroom := haccepts.room
    omega
  simp only [fetchBuffer, hfree, tryFetchBuffer, haccepts.check, if_neg hfit] at hok
  split at hok
  · cases hok
  · cases hok
    exact ⟨rfl,Function.update_self ..⟩

theorem Rested.fetchBuffer {type : Byte} {record : List Byte} (h : b.Rested)
    (htype : type = sdoFrame ∨ type = pdoFrame) (hpos : 0 < record.length)
    (hsize : record.length ≤ Pdo.writeSize) (hfree : b.freeTransfers ≠ []) :
    ∃ b', b.fetchBuffer type record = .ok (b',true) ∧ b'.Loaded ⟨type,record⟩ ∧
      b'.submitted = b.submitted := by
  obtain ⟨id,rest,hfree⟩ := List.exists_cons_of_ne_nil hfree
  have hmem : id ∈ b.freeTransfers := hfree ▸ List.mem_cons_self
  have hempty := (h.sound.free id hmem).empty (h.fresh id hmem)
  have hroom : (b.transfers id).length + record.length + crcCheckSize ≤ maxTransmitLength := by
    rw [hempty.2]
    simp only [prefillSize, Header.size, maxTransmitLength, crcCheckSize, Pdo.writeSize] at hsize ⊢
    omega
  obtain ⟨t,haccepts⟩ :=
    checkTransfer_accepts (h.sound.free id hmem) (.inl (h.fresh id hmem)) hroom
  obtain ⟨b',hfetch,hsound,_,hfree',htype',hlength,hother⟩ :=
    fetchBuffer_accepted h.sound hfree htype haccepts
  obtain ⟨hsubmitted,hrecords⟩ := fetchBuffer_front hfree haccepts hfetch
  refine ⟨b',hfetch,⟨hsound,id,rest,hfree'.trans hfree,?_,?_,?_,fun j hj => ?_⟩,hsubmitted⟩
  · rw [htype']
    rcases htype with rfl | rfl <;> decide
  · omega
  · rw [hrecords, hempty.1]
    rfl
  · have hne := ne_of_mem_of_not_mem (List.mem_append_left _ hj) (front_notMem h.sound.nodup hfree)
    rw [hother j hne]
    exact h.fresh j (hfree ▸ List.mem_cons_of_mem id hj)

theorem nocheck_submitted {id : Nat} {rest : List Nat} (hfree : b.freeTransfers = id :: rest)
    (hok : b.triggerTransmissionNocheck = .ok b') :
    b'.submitted.map Submission.records = b.submitted.map Submission.records ++ [b.records id] := by
  simp only [triggerTransmissionNocheck, hfree] at hok
  split at hok
  · cases hok
  · cases hok
    simp

theorem Loaded.triggerTransmission {record : Record} (h : b.Loaded record) :
    ∃ b', b.triggerTransmission false = .ok b' ∧ b'.Rested ∧
      b'.submitted.map Submission.records = b.submitted.map Submission.records ++ [[record]] := by
  obtain ⟨id,rest,hfree,htype,hlength,hrecord,hfresh⟩ := h.front
  obtain ⟨b',hok,hsound,hrest,hsame⟩ := nocheck_sound h.sound hfree htype
  have hnot : ¬(True ∧ (b.transfers id).length ≤ prefillSize) := by simpa using hlength
  refine ⟨b',?_,⟨hsound,fun j hj => ?_⟩,?_⟩
  · simp only [TransmitBuffer.triggerTransmission, hfree, if_neg hnot, hok]
  · rw [hrest] at hj
    rw [hsame j hj]
    exact hfresh j hj
  · rw [nocheck_submitted hfree hok, hrecord]

theorem complete_submitted {id : Nat} (hok : b.transmitCompleteCallback id = .ok b') :
    b'.submitted = b.submitted ∧ ∀ j, j ≠ id → b'.records j = b.records j := by
  unfold transmitCompleteCallback at hok
  split at hok
  · cases hok
  · split at hok
    · cases hok
      exact ⟨rfl,fun j hj => Function.update_of_ne hj ..⟩
    · cases hok

theorem Loaded.complete {record : Record} {id : Nat} (h : b.Loaded record)
    (hid : id ∈ b.inFlight) :
    ∃ b', b.transmitCompleteCallback id = .ok b' ∧ b'.Loaded record ∧
      b'.submitted = b.submitted := by
  obtain ⟨front,rest,hfree,htype,hlength,hrecord,hfresh⟩ := h.front
  obtain ⟨b',hok,hsound,hfree',htype',hother⟩ := transmitCompleteCallback_sound h.sound hid
  obtain ⟨hsubmitted,hrecords⟩ := complete_submitted hok
  have hlanded := recycled_ne h.sound.nodup hid
  have hfront : front ≠ id := hlanded front (hfree ▸ List.mem_cons_self)
  refine ⟨b',hok,⟨hsound,front,rest ++ [id],?_,?_,?_,?_,fun j hj => ?_⟩,hsubmitted⟩
  · rw [hfree', hfree, List.cons_append]
  · rwa [hother front hfront]
  · rwa [hother front hfront]
  · rwa [hrecords front hfront]
  · rcases List.mem_append.mp hj with hj | hj
    · rw [hother j (hlanded j (hfree ▸ List.mem_cons_of_mem front hj))]
      exact hfresh j hj
    · rwa [List.mem_singleton.mp hj]

end WujiHand.TransmitBuffer

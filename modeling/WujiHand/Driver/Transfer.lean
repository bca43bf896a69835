import WujiHand.Protocol.Records

namespace WujiHand

open Bytes

inductive TxAbort where
  | outOfBounds
  | ringFull
deriving DecidableEq, Repr

def maxTransmitLength : Nat := 512
def prefillSize : Nat := Header.size

structure Transfer where
  buffer : List Byte
  length : Nat
deriving DecidableEq, Repr

namespace Transfer

def type (t : Transfer) : Byte := t.buffer.getD Header.typeOffset 0

def write (t : Transfer) (offset : Nat) (bytes : List Byte) : Except TxAbort Transfer :=
  match poke? t.buffer offset bytes with
  | none => .error .outOfBounds
  | some buffer => .ok { t with buffer := buffer }

def setType (t : Transfer) (type : Byte) : Except TxAbort Transfer :=
  t.write Header.typeOffset [type]

def compressedFrameLength (length : Nat) : BitVec 16 :=
  BitVec.ofNat 16 ((length + crcCheckSize - 1) / 16 + 1)

def paddedLength (length : Nat) : Nat := 16 * (compressedFrameLength length).toNat

-- The bit field of the frame length holds the six bits above the ten of the receive window.
def description (length : Nat) : BitVec 16 :=
  ((compressedFrameLength length - 1).setWidth 8).setWidth 6 ++ (0xA0 : BitVec 10)

def beforeSubmitting (t : Transfer) : Except TxAbort Transfer :=
  if paddedLength t.length < t.length then .error .outOfBounds
  else do
    let padded ← t.write t.length (List.replicate (paddedLength t.length - t.length) 0)
    { padded with length := paddedLength t.length }.write Header.descriptionOffset
      (beBytes 2 (description t.length).toNat)

def Holds (t : Transfer) (header : Header) (payload : List Byte) : Prop :=
  ∃ rest, t.buffer = header.encode ++ (payload ++ rest) ∧
    t.buffer.length = maxTransmitLength ∧ t.length = Header.size + payload.length

theorem encode_type (h : Header) (tail : List Byte) :
    (h.encode ++ tail).getD Header.typeOffset 0 = h.type := rfl

theorem poke_type (h : Header) (tail : List Byte) (type : Byte) :
    poke? (h.encode ++ tail) Header.typeOffset [type] =
      some ({ h with type := type }.encode ++ tail) := by
  refine (poke?_eq_some ?_).trans rfl
  simp only [List.length_append, Header.encode_length, Header.size, Header.typeOffset,
    List.length_singleton]
  omega

theorem poke_description (h : Header) (tail : List Byte) (description : BitVec 16) :
    poke? (h.encode ++ tail) Header.descriptionOffset (beBytes 2 description.toNat) =
      some ({ h with description := description }.encode ++ tail) := by
  refine (poke?_eq_some ?_).trans rfl
  simp only [List.length_append, Header.encode_length, Header.size, Header.descriptionOffset,
    beBytes_length]
  omega

theorem paddedLength_eq {length : Nat} (h : length + crcCheckSize ≤ maxTransmitLength) :
    paddedLength length = 16 * ((length + 1) / 16 + 1) := by
  simp only [crcCheckSize, maxTransmitLength] at h
  have hlt : (length + 2 - 1) / 16 + 1 < 2 ^ 16 := by omega
  rw [paddedLength, compressedFrameLength, crcCheckSize, BitVec.toNat_ofNat, Nat.mod_eq_of_lt hlt]
  rfl

theorem paddedLength_bounds {length : Nat} (h : length + crcCheckSize ≤ maxTransmitLength) :
    length + crcCheckSize ≤ paddedLength length ∧ paddedLength length ≤ maxTransmitLength := by
  rw [paddedLength_eq h]
  simp only [crcCheckSize, maxTransmitLength] at h ⊢
  omega

theorem frameLength_eq {length : Nat} (h : length + crcCheckSize ≤ maxTransmitLength) :
    16 * ((description length >>> 10).toNat + 1) = paddedLength length := by
  have hfield : ∀ m < 32, ((((BitVec.ofNat 16 (m + 1) - 1).setWidth 8).setWidth 6 ++
      (0xA0 : BitVec 10)) >>> 10).toNat = m := by decide
  have hm : (length + 1) / 16 < 32 := by
    simp only [crcCheckSize, maxTransmitLength] at h
    omega
  rw [paddedLength_eq h, description, compressedFrameLength]
  exact congrArg (fun m => 16 * (m + 1)) (hfield _ hm)

theorem setType_holds {t : Transfer} {header : Header} {payload : List Byte} (type : Byte)
    (h : t.Holds header payload) :
    ∃ t', t.setType type = .ok t' ∧ t'.Holds { header with type := type } payload := by
  obtain ⟨rest,hbuf,hsize,hlen⟩ := h
  refine ⟨{ t with buffer := { header with type := type }.encode ++ (payload ++ rest) },?_,rest,
    rfl,?_,hlen⟩
  · rw [setType, write, hbuf, poke_type]
  · rw [hbuf] at hsize
    exact hsize

theorem poke_payload {t : Transfer} {header : Header} {payload rest : List Byte}
    (hbuf : t.buffer = header.encode ++ (payload ++ rest))
    (hlen : t.length = Header.size + payload.length) {bytes : List Byte}
    (hroom : bytes.length ≤ rest.length) :
    poke? t.buffer t.length bytes =
      some (header.encode ++ (payload ++ bytes ++ rest.drop bytes.length)) := by
  have hpre : (header.encode ++ payload).length = t.length := by
    rw [List.length_append, Header.encode_length, hlen]
  rw [hbuf, ← List.append_assoc, ← hpre, poke?_append hroom]
  simp only [List.append_assoc]

theorem rest_length {t : Transfer} {header : Header} {payload rest : List Byte}
    (hbuf : t.buffer = header.encode ++ (payload ++ rest))
    (hsize : t.buffer.length = maxTransmitLength)
    (hlen : t.length = Header.size + payload.length) :
    t.length + rest.length = maxTransmitLength := by
  rw [hbuf] at hsize
  simp only [List.length_append, Header.encode_length] at hsize
  omega

theorem fill_holds {t : Transfer} {header : Header} {payload : List Byte} (record : List Byte)
    (h : t.Holds header payload) (hfit : t.length + record.length ≤ maxTransmitLength) :
    ∃ t', { t with length := t.length + record.length }.write t.length record = .ok t' ∧
      t'.Holds header (payload ++ record) ∧ t'.length = t.length + record.length := by
  obtain ⟨rest,hbuf,hsize,hlen⟩ := h
  have hrest := rest_length hbuf hsize hlen
  have hpoke := poke_payload hbuf hlen (show record.length ≤ rest.length by omega)
  refine ⟨⟨header.encode ++ (payload ++ record ++ rest.drop record.length),
    t.length + record.length⟩,?_,⟨rest.drop record.length,rfl,?_,?_⟩,rfl⟩
  · rw [write, hpoke]
  · simp only [List.length_append, Header.encode_length, List.length_drop]
    omega
  · rw [List.length_append]
    dsimp only
    omega

theorem beforeSubmitting_image {t : Transfer} {header : Header} {payload : List Byte}
    (h : t.Holds header payload) (hfit : t.length + crcCheckSize ≤ maxTransmitLength) :
    ∃ t' rest, t.beforeSubmitting = .ok t' ∧ t'.length = paddedLength t.length ∧
      t'.buffer.length = maxTransmitLength ∧
      t'.buffer = { header with description := description t.length }.encode ++
        (payload ++ List.replicate (paddedLength t.length - t.length) 0 ++ rest) := by
  obtain ⟨rest,hbuf,hsize,hlen⟩ := h
  obtain ⟨hle,hmax⟩ := paddedLength_bounds hfit
  have hrest := rest_length hbuf hsize hlen
  have hpad : (List.replicate (paddedLength t.length - t.length) (0 : Byte)).length ≤
      rest.length := by
    rw [List.length_replicate]
    omega
  have hpoke := poke_payload hbuf hlen hpad
  have hnot : ¬paddedLength t.length < t.length := by omega
  refine ⟨⟨_,paddedLength t.length⟩,rest.drop (paddedLength t.length - t.length),?_,rfl,?_,rfl⟩
  · simp only [beforeSubmitting, if_neg hnot, write, hpoke, bind, Except.bind, poke_description,
      List.length_replicate]
  · simp only [List.length_append, Header.encode_length, List.length_drop, List.length_replicate]
    omega

end Transfer

end WujiHand

import WujiHand.Handler.Receive
import WujiHand.Library.Grammar

namespace WujiHand

open Bytes

inductive ResultKind where
  | readSuccess (size : Size)
  | readError
  | writeSuccess
  | writeError
deriving DecidableEq, Repr

namespace ResultKind

def control : ResultKind → Byte
  | readSuccess size => size.readControl
  | readError => 0x33
  | writeSuccess => 0x21
  | writeError => 0x23

def length : ResultKind → Nat
  | readSuccess size => 4 + size.bytes
  | readError => 8
  | writeSuccess => 4
  | writeError => 8

def description : ResultKind → String
  | readSuccess _ => "SDO read success frame"
  | readError => "SDO read failure frame"
  | writeSuccess => "SDO write success frame"
  | writeError => "SDO write failure frame"

def decode (data : List Byte) : ResultKind → SdoResult
  | readSuccess size =>
      .readSuccess size (recordIndex data) (recordSubIndex data) (recordValue size data)
  | readError =>
      .readError (recordIndex data) (recordSubIndex data) (BitVec.ofNat 32 (ofLeBytes (data.drop 4)))
  | writeSuccess => .writeSuccess (recordIndex data) (recordSubIndex data)
  | writeError =>
      .writeError (recordIndex data) (recordSubIndex data) (BitVec.ofNat 32 (ofLeBytes (data.drop 4)))

def ofControl (control : Byte) : Option ResultKind :=
  if control = 0x35 then some (.readSuccess .one)
  else if control = 0x37 then some (.readSuccess .two)
  else if control = 0x39 then some (.readSuccess .four)
  else if control = 0x3D then some (.readSuccess .eight)
  else if control = 0x33 then some .readError
  else if control = 0x21 then some .writeSuccess
  else if control = 0x23 then some .writeError
  else none

theorem ofControl_control (k : ResultKind) : ofControl k.control = some k := by
  cases k with
  | readSuccess size => cases size <;> rfl
  | readError => rfl
  | writeSuccess => rfl
  | writeError => rfl

theorem ofControl_sound {control : Byte} {k : ResultKind} (h : ofControl control = some k) :
    control = k.control := by
  unfold ofControl at h
  split_ifs at h with h1 h2 h3 h4 h5 h6 h7 <;> cases h <;> assumption

theorem length_pos (k : ResultKind) : 4 ≤ k.length := by
  cases k <;> simp [length]

end ResultKind

namespace SdoResult

def kind : SdoResult → ResultKind
  | readSuccess size _ _ _ => .readSuccess size
  | readError _ _ _ => .readError
  | writeSuccess _ _ => .writeSuccess
  | writeError _ _ _ => .writeError

theorem encode_length (r : SdoResult) : r.encode.length = r.kind.length := by
  cases r <;> simp [encode, kind, ResultKind.length]

theorem encode_head (r : SdoResult) : ∃ tail, r.encode = r.kind.control :: tail := by
  cases r <;> exact ⟨_,rfl⟩

theorem recordIndex_header (control : Byte) (index : BitVec 16) (subIndex : Byte)
    (payload : List Byte) : recordIndex (sdoHeader control index subIndex ++ payload) = index :=
  ofNat_ofBeBytes_beBytes (n := 2) (by decide) index

theorem recordSubIndex_header (control : Byte) (index : BitVec 16) (subIndex : Byte)
    (payload : List Byte) :
    recordSubIndex (sdoHeader control index subIndex ++ payload) = subIndex := rfl

theorem drop_header (control : Byte) (index : BitVec 16) (subIndex : Byte) (payload : List Byte) :
    (sdoHeader control index subIndex ++ payload).drop 4 = payload := rfl

theorem decode_encode (r : SdoResult) : r.kind.decode r.encode = r := by
  cases r with
  | readSuccess size index subIndex value =>
    have hv : BitVec.ofNat size.bits (ofLeBytes (leBytes size.bytes value.toNat)) = value :=
      ofNat_ofLeBytes_leBytes (le_refl size.bits) value
    simp only [kind, encode, ResultKind.decode, recordValue, recordIndex_header,
      recordSubIndex_header, drop_header, hv]
  | readError index subIndex errCode =>
    simp only [kind, encode, ResultKind.decode, recordIndex_header, recordSubIndex_header,
      drop_header]
    rw [ofNat_ofLeBytes_leBytes (n := 4) (by decide) errCode]
  | writeSuccess index subIndex =>
    have hi := recordIndex_header 0x21 index subIndex []
    rw [List.append_nil] at hi
    simp only [kind, encode, ResultKind.decode, hi]
    rfl
  | writeError index subIndex errCode =>
    simp only [kind, encode, ResultKind.decode, recordIndex_header, recordSubIndex_header,
      drop_header]
    rw [ofNat_ofLeBytes_leBytes (n := 4) (by decide) errCode]

theorem header_recordIndex (control b₁ b₂ s : Byte) (payload : List Byte) :
    sdoHeader control (recordIndex (control :: b₁ :: b₂ :: s :: payload)) s = [control,b₁,b₂,s] := by
  have h : beBytes 2 (BitVec.ofNat 16 (ofBeBytes [b₁,b₂])).toNat = [b₁,b₂] :=
    beBytes_ofNat_ofBeBytes rfl rfl
  simp only [sdoHeader, recordIndex, List.drop_succ_cons, List.drop_zero, List.take_succ_cons,
    List.take_zero, h]
  rfl

theorem encode_decode {data : List Byte} {k : ResultKind} (hlen : data.length = k.length)
    (hhead : data.head? = some k.control) :
    (k.decode data).encode = data ∧ (k.decode data).kind = k := by
  have h4 := k.length_pos
  rcases data with _ | ⟨c,_ | ⟨b₁,_ | ⟨b₂,_ | ⟨s,payload⟩⟩⟩⟩
  · simp at hhead
  · simp only [List.length_cons, List.length_nil] at hlen; omega
  · simp only [List.length_cons, List.length_nil] at hlen; omega
  · simp only [List.length_cons, List.length_nil] at hlen; omega
  · have hc : c = k.control := Option.some.inj hhead
    subst hc
    have hheader := header_recordIndex k.control b₁ b₂ s payload
    simp only [List.length_cons] at hlen
    cases k with
    | readSuccess size =>
      have hp : leBytes size.bytes (BitVec.ofNat size.bits (ofLeBytes payload)).toNat = payload :=
        leBytes_ofNat_ofLeBytes (by simp only [ResultKind.length] at hlen; omega) rfl
      refine ⟨?_,rfl⟩
      simp only [ResultKind.decode, encode, recordValue, List.drop_succ_cons, List.drop_zero, hp]
      exact congrArg (· ++ payload) hheader
    | readError =>
      have hp : leBytes 4 (BitVec.ofNat 32 (ofLeBytes payload)).toNat = payload :=
        leBytes_ofNat_ofLeBytes (by simp only [ResultKind.length] at hlen; omega) rfl
      refine ⟨?_,rfl⟩
      simp only [ResultKind.decode, encode, List.drop_succ_cons, List.drop_zero, hp]
      exact congrArg (· ++ payload) hheader
    | writeSuccess =>
      have hp : payload = [] :=
        List.length_eq_zero_iff.mp (by simp only [ResultKind.length] at hlen; omega)
      subst hp
      exact ⟨hheader,rfl⟩
    | writeError =>
      have hp : leBytes 4 (BitVec.ofNat 32 (ofLeBytes payload)).toNat = payload :=
        leBytes_ofNat_ofLeBytes (by simp only [ResultKind.length] at hlen; omega) rfl
      refine ⟨?_,rfl⟩
      simp only [ResultKind.decode, encode, List.drop_succ_cons, List.drop_zero, hp]
      exact congrArg (· ++ payload) hheader

def tagged : Grammar.Tagged ResultKind SdoResult Byte where
  control := ResultKind.control
  ofControl := ResultKind.ofControl
  length := ResultKind.length
  decode := fun k data => k.decode data
  encode := encode
  kind := kind
  ofControl_control := ResultKind.ofControl_control
  ofControl_sound := fun _ _ => ResultKind.ofControl_sound
  length_pos := fun k => Nat.lt_of_lt_of_le (by decide) k.length_pos
  encode_length := encode_length
  encode_head := encode_head
  decode_encode := decode_encode
  encode_decode := fun _ _ hlen hhead => (encode_decode hlen hhead).1

abbrev code : Grammar.Code SdoResult Byte := tagged.code

end SdoResult

end WujiHand

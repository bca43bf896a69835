import WujiHand.Handler.ReceiveGrammar

namespace WujiHand

open Bytes

inductive RequestKind where
  | read
  | write (size : Size)
deriving DecidableEq, Repr

namespace RequestKind

def control : RequestKind → Byte
  | read => 0x30
  | write size => size.writeControl

def length : RequestKind → Nat
  | read => 4
  | write size => 4 + size.bytes

def decode (data : List Byte) : RequestKind → SdoRequest
  | read => .read (recordIndex data) (recordSubIndex data)
  | write size => .write size (recordIndex data) (recordSubIndex data) (recordValue size data)

def ofControl (control : Byte) : Option RequestKind :=
  if control = 0x30 then some .read
  else if control = 0x20 then some (.write .one)
  else if control = 0x22 then some (.write .two)
  else if control = 0x24 then some (.write .four)
  else if control = 0x28 then some (.write .eight)
  else none

theorem ofControl_control (k : RequestKind) : ofControl k.control = some k := by
  cases k with
  | read => rfl
  | write size => cases size <;> rfl

theorem ofControl_sound {control : Byte} {k : RequestKind} (h : ofControl control = some k) :
    control = k.control := by
  unfold ofControl at h
  split_ifs at h with h1 h2 h3 h4 h5 <;> cases h <;> assumption

theorem length_pos (k : RequestKind) : 4 ≤ k.length := by
  cases k <;> simp [length]

end RequestKind

namespace SdoRequest

def kind : SdoRequest → RequestKind
  | read _ _ => .read
  | write size _ _ _ => .write size

theorem decode_encode (q : SdoRequest) : q.kind.decode q.encode = q := by
  cases q with
  | read index subIndex =>
    have hi := SdoResult.recordIndex_header 0x30 index subIndex []
    rw [List.append_nil] at hi
    simp only [kind, encode, RequestKind.decode, hi]
    rfl
  | write size index subIndex value =>
    have hv : BitVec.ofNat size.bits (ofLeBytes (leBytes size.bytes value.toNat)) = value :=
      ofNat_ofLeBytes_leBytes (le_refl size.bits) value
    simp only [kind, encode, RequestKind.decode, recordValue, SdoResult.recordIndex_header,
      SdoResult.recordSubIndex_header, SdoResult.drop_header, hv]

theorem encode_decode {data : List Byte} {k : RequestKind} (hlen : data.length = k.length)
    (hhead : data.head? = some k.control) : (k.decode data).encode = data := by
  have h4 := k.length_pos
  rcases data with _ | ⟨c,_ | ⟨b₁,_ | ⟨b₂,_ | ⟨s,payload⟩⟩⟩⟩
  · simp at hhead
  · simp only [List.length_cons, List.length_nil] at hlen; omega
  · simp only [List.length_cons, List.length_nil] at hlen; omega
  · simp only [List.length_cons, List.length_nil] at hlen; omega
  · have hc : c = k.control := Option.some.inj hhead
    subst hc
    have hheader := SdoResult.header_recordIndex k.control b₁ b₂ s payload
    simp only [List.length_cons] at hlen
    cases k with
    | read =>
      have hp : payload = [] :=
        List.length_eq_zero_iff.mp (by simp only [RequestKind.length] at hlen; omega)
      subst hp
      exact hheader
    | write size =>
      have hp : leBytes size.bytes (BitVec.ofNat size.bits (ofLeBytes payload)).toNat = payload :=
        leBytes_ofNat_ofLeBytes (by simp only [RequestKind.length] at hlen; omega) rfl
      simp only [RequestKind.decode, encode, recordValue, List.drop_succ_cons, List.drop_zero, hp]
      exact congrArg (· ++ payload) hheader

def tagged : Grammar.Tagged RequestKind SdoRequest Byte where
  control := RequestKind.control
  ofControl := RequestKind.ofControl
  length := RequestKind.length
  decode := fun k data => k.decode data
  encode := encode
  kind := kind
  ofControl_control := RequestKind.ofControl_control
  ofControl_sound := fun _ _ => RequestKind.ofControl_sound
  length_pos := fun k => Nat.lt_of_lt_of_le (by decide) k.length_pos
  encode_length := fun q => by cases q <;> simp [encode, kind, RequestKind.length]
  encode_head := fun q => by cases q <;> exact ⟨_,rfl⟩
  decode_encode := decode_encode
  encode_decode := fun _ _ => encode_decode

abbrev code : Grammar.Code SdoRequest Byte := tagged.code

-- The zero byte of the padding is no specifier, so it ends the records as the end of a frame does.
def Ended (rest : List Byte) : Prop := rest = [] ∨ rest.head? = some 0

theorem stops_of_ended {rest : List Byte} (h : Ended rest) : code.Stops rest := by
  rcases rest with _ | ⟨control,rest⟩
  · rfl
  · rcases h with h | h
    · cases h
    · obtain rfl : control = 0 := Option.some.inj h
      rfl

theorem decode_ended {qs : List SdoRequest} {rest : List Byte} (h : Ended rest) :
    code.decode (qs.flatMap encode ++ rest) = (qs,rest) :=
  code.decode_encodeAll (stops_of_ended h)

theorem ended_unique {qs qs' : List SdoRequest} {rest rest' : List Byte}
    (h : qs.flatMap encode ++ rest = qs'.flatMap encode ++ rest') (hr : Ended rest)
    (hr' : Ended rest') : qs = qs' ∧ rest = rest' :=
  code.decomposition_unique h (stops_of_ended hr) (stops_of_ended hr')

end SdoRequest

end WujiHand

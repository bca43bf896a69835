import WujiHand.Handler.ReceiveGrammar

namespace WujiHand

open Bytes

def Accepted (rest : List Byte) : Prop := rest = [] ∨ rest.head? = some 0

def Rejected (rest : List Byte) : Prop :=
  ∃ control tail, rest = control :: tail ∧ control ≠ 0 ∧
    ∀ k, ResultKind.ofControl control = some k → rest.length < k.length

def restError (rest : List Byte) : Option RxError :=
  match rest with
  | [] => none
  | control :: _ =>
    if control = 0 then none
    else
      match ResultKind.ofControl control with
      | none => some (.invalidSpecifier control (-rest.length))
      | some k => some (.truncated k.description k.length rest.length)

theorem stops_iff (rest : List Byte) : SdoResult.code.Stops rest ↔ Accepted rest ∨ Rejected rest := by
  cases rest with
  | nil => exact ⟨fun _ => .inl (.inl rfl),fun _ => rfl⟩
  | cons control tail =>
    refine Grammar.Tagged.stops_cons_iff.trans ⟨fun h => ?_,?_⟩
    · by_cases hz : control = 0
      · exact .inl (.inr (by rw [hz]; rfl))
      · exact .inr ⟨control,tail,rfl,hz,h⟩
    · rintro ((h | h) | ⟨c,t,hs,_,hk⟩)
      · cases h
      · obtain rfl := Option.some.inj h
        intro k hk
        cases hk
      · obtain ⟨rfl,rfl⟩ := List.cons.inj hs
        exact hk

theorem restError_eq_none {rest : List Byte} : restError rest = none ↔ Accepted rest := by
  cases rest with
  | nil => exact ⟨fun _ => .inl rfl,fun _ => rfl⟩
  | cons control tail =>
    simp only [restError, Accepted, List.head?_cons, Option.some.injEq, reduceCtorEq, false_or]
    by_cases hz : control = 0
    · simp [hz]
    · simp only [hz, iff_false, if_false]
      cases ResultKind.ofControl control <;> exact Option.some_ne_none _

theorem readFrameStruct_ok {bytes : List Byte} {pointer size : Nat} (description : String)
    (hle : pointer + size ≤ bytes.length) :
    readFrameStruct bytes pointer size description =
      .ok ((bytes.drop pointer).take size,pointer + size) := by
  have hrem : ¬((bytes.length : Int) - pointer < size) := by omega
  simp only [readFrameStruct, if_neg hrem, slice?_eq_some hle]

theorem readFrameStruct_short {bytes : List Byte} {pointer size : Nat} (description : String)
    (hlt : bytes.length < pointer + size) :
    readFrameStruct bytes pointer size description =
      .error (.runtime (.truncated description size (bytes.length - pointer))) := by
  have hrem : (bytes.length : Int) - pointer < size := by omega
  simp only [readFrameStruct, if_pos hrem]

namespace Handler

variable {n : Nat} {Fn Ctx : Type}

def applyResult (fill : Buffer8) (h : Handler n Fn Ctx) :
    SdoResult → Except RxError (Handler n Fn Ctx)
  | .readSuccess size index subIndex value =>
    match h.findStorageByIndex index subIndex with
    | none => .error (.objectNotFound index subIndex)
    | some id => .ok (h.setUnit id ((h.storage id).readSuccess size value fill))
  | .writeSuccess index subIndex =>
    match h.findStorageByIndex index subIndex with
    | none => .error (.objectNotFound index subIndex)
    | some id => .ok (h.setUnit id (h.storage id).writeSuccess)
  | .readError _ _ _ => .ok h
  | .writeError _ _ _ => .ok h

def applyResults (fill : Nat → Buffer8) :
    Nat → List SdoResult → Handler n Fn Ctx → Handler n Fn Ctx × Option RxError
  | _, [], h => (h,none)
  | pointer, r :: rs, h =>
    match h.applyResult (fill pointer) r with
    | .error e => (h,some e)
    | .ok h => applyResults fill (pointer + r.encode.length) rs h

def parseOutcome (fill : Nat → Buffer8) (pointer : Nat) (rs : List SdoResult) (rest : List Byte)
    (h : Handler n Fn Ctx) : Handler n Fn Ctx × Option RxFault :=
  match applyResults fill pointer rs h with
  | (h,some e) => (h,some (.runtime e))
  | (h,none) => (h,(restError rest).map .runtime)

def readKind (k : ResultKind) (bytes : List Byte) (fill : Nat → Buffer8) (pointer : Nat)
    (h : Handler n Fn Ctx) : Except RxFault (Option (Handler n Fn Ctx × Nat)) :=
  match k with
  | .readSuccess size => (h.readSdoOperationReadSuccess size bytes fill pointer).map some
  | .readError => (readSdoOperationReadFailed bytes pointer).map fun next => some (h,next)
  | .writeSuccess => (h.readSdoOperationWriteSuccess bytes pointer).map some
  | .writeError => (readSdoOperationWriteFailed bytes pointer).map fun next => some (h,next)

theorem readSdoRecord_kind {k : ResultKind} {bytes : List Byte} (fill : Nat → Buffer8)
    {pointer : Nat} (h : Handler n Fn Ctx) (hc : bytes[pointer]? = some k.control) :
    h.readSdoRecord bytes fill pointer = h.readKind k bytes fill pointer := by
  simp only [readSdoRecord, hc]
  cases k with
  | readSuccess size => cases size <;> rfl
  | readError => rfl
  | writeSuccess => rfl
  | writeError => rfl

theorem readSdoRecord_unknown {control : Byte} {bytes : List Byte} (fill : Nat → Buffer8)
    {pointer : Nat} (h : Handler n Fn Ctx) (hc : bytes[pointer]? = some control)
    (hk : ResultKind.ofControl control = none) (hz : control ≠ 0) :
    h.readSdoRecord bytes fill pointer =
      .error (.runtime (.invalidSpecifier control (pointer - bytes.length))) := by
  simp only [readSdoRecord, hc]
  unfold ResultKind.ofControl at hk
  split_ifs at hk ⊢
  rfl

theorem readKind_eq (k : ResultKind) (bytes : List Byte) (fill : Nat → Buffer8) (pointer : Nat)
    (h : Handler n Fn Ctx) :
    h.readKind k bytes fill pointer =
      (readFrameStruct bytes pointer k.length k.description).bind fun frame =>
        match h.applyResult (fill pointer) (k.decode frame.1) with
        | .error e => .error (.runtime e)
        | .ok h => .ok (some (h,frame.2)) := by
  cases k with
  | readSuccess size =>
    simp only [readKind, readSdoOperationReadSuccess, ResultKind.length, ResultKind.description]
    cases readFrameStruct bytes pointer (4 + size.bytes) "SDO read success frame" with
    | error fault => rfl
    | ok frame =>
      simp only [bind, Except.bind, ResultKind.decode, applyResult]
      cases h.findStorageByIndex (recordIndex frame.1) (recordSubIndex frame.1) <;> rfl
  | readError =>
    simp only [readKind, readSdoOperationReadFailed, ResultKind.length, ResultKind.description]
    cases readFrameStruct bytes pointer 8 "SDO read failure frame" <;> rfl
  | writeSuccess =>
    simp only [readKind, readSdoOperationWriteSuccess, ResultKind.length, ResultKind.description]
    cases readFrameStruct bytes pointer 4 "SDO write success frame" with
    | error fault => rfl
    | ok frame =>
      simp only [bind, Except.bind, ResultKind.decode, applyResult]
      cases h.findStorageByIndex (recordIndex frame.1) (recordSubIndex frame.1) <;> rfl
  | writeError =>
    simp only [readKind, readSdoOperationWriteFailed, ResultKind.length, ResultKind.description]
    cases readFrameStruct bytes pointer 8 "SDO write failure frame" <;> rfl

theorem readKind_ok {k : ResultKind} {bytes data : List Byte} (fill : Nat → Buffer8)
    {pointer next : Nat} (h : Handler n Fn Ctx)
    (hr : readFrameStruct bytes pointer k.length k.description = .ok (data,next)) :
    h.readKind k bytes fill pointer =
      match h.applyResult (fill pointer) (k.decode data) with
      | .error e => .error (.runtime e)
      | .ok h => .ok (some (h,next)) := by
  rw [readKind_eq, hr]
  rfl

theorem readKind_error {k : ResultKind} {bytes : List Byte} {fault : RxFault}
    (fill : Nat → Buffer8) {pointer : Nat} (h : Handler n Fn Ctx)
    (hr : readFrameStruct bytes pointer k.length k.description = .error fault) :
    h.readKind k bytes fill pointer = .error fault := by
  rw [readKind_eq, hr]
  rfl

theorem drop_eq_cons {bytes tail : List Byte} {pointer : Nat} {b : Byte}
    (hd : bytes.drop pointer = b :: tail) :
    bytes[pointer]? = some b ∧ bytes.length = pointer + (tail.length + 1) := by
  constructor
  · rw [← List.head?_drop, hd]
    rfl
  · have hlen := congrArg List.length hd
    rw [List.length_drop, List.length_cons] at hlen
    omega

theorem readSdoRecord_encode {bytes rest : List Byte} {r : SdoResult} (fill : Nat → Buffer8)
    {pointer : Nat} (h : Handler n Fn Ctx) (hd : bytes.drop pointer = r.encode ++ rest) :
    h.readSdoRecord bytes fill pointer =
      match h.applyResult (fill pointer) r with
      | .error e => .error (.runtime e)
      | .ok h => .ok (some (h,pointer + r.encode.length)) := by
  obtain ⟨tail,htail⟩ := r.encode_head
  have hcons : bytes.drop pointer = r.kind.control :: (tail ++ rest) := by rw [hd, htail]; rfl
  obtain ⟨hc,hlen⟩ := drop_eq_cons hcons
  have hle : pointer + r.kind.length ≤ bytes.length := by
    have hr := r.encode_length
    rw [htail, List.length_cons] at hr
    rw [List.length_append] at hlen
    omega
  have hread := readFrameStruct_ok r.kind.description hle
  rw [hd, ← r.encode_length, List.take_left] at hread
  rw [readSdoRecord_kind fill h hc, readKind_ok fill h (by rw [← r.encode_length]; exact hread),
    r.decode_encode]

theorem readSdoFrame_rest {bytes rest : List Byte} (fill : Nat → Buffer8) {fuel pointer : Nat}
    (h : Handler n Fn Ctx) (hd : bytes.drop pointer = rest) (hstop : SdoResult.code.Stops rest)
    (hfuel : rest.length ≤ fuel) :
    readSdoFrame bytes fill fuel pointer h = (h,(restError rest).map .runtime) := by
  cases rest with
  | nil =>
    have hle : ¬pointer < bytes.length := by
      have hlen := congrArg List.length hd
      rw [List.length_drop, List.length_nil] at hlen
      omega
    cases fuel <;> simp only [readSdoFrame, if_neg hle] <;> rfl
  | cons control tail =>
    obtain ⟨hc,hlen⟩ := drop_eq_cons hd
    have hlt : pointer < bytes.length := by omega
    obtain ⟨fuel,rfl⟩ : ∃ m, fuel = m + 1 := ⟨fuel - 1,by
      rw [List.length_cons] at hfuel
      omega⟩
    simp only [readSdoFrame, if_pos hlt]
    by_cases hz : control = 0
    · subst hz
      simp only [readSdoRecord, hc]
      rfl
    · cases hk : ResultKind.ofControl control with
      | none =>
        rw [readSdoRecord_unknown fill h hc hk hz]
        have hoff : (pointer : Int) - bytes.length = -((control :: tail).length : Int) := by
          rw [List.length_cons]
          omega
        simp only [restError, if_neg hz, hk, hoff, Option.map_some]
      | some k =>
        have hshort : (control :: tail).length < k.length := by
          rcases (stops_iff _).mp hstop with (hnil | hzero) | ⟨c,t,hs,_,hshort⟩
          · cases hnil
          · exact absurd (Option.some.inj hzero) hz
          · obtain ⟨rfl,rfl⟩ := List.cons.inj hs
            exact hshort k hk
        have hctl := ResultKind.ofControl_sound hk
        rw [readSdoRecord_kind fill h (k := k) (by rw [hc, hctl]),
          readKind_error fill h (readFrameStruct_short k.description (by
            rw [List.length_cons] at hshort
            omega))]
        have hrem : (bytes.length : Int) - pointer = (control :: tail).length := by
          rw [List.length_cons]
          omega
        simp only [restError, if_neg hz, hk, hrem, Option.map_some]

theorem readSdoFrame_encodeAll {bytes rest : List Byte} (fill : Nat → Buffer8)
    (rs : List SdoResult) {fuel pointer : Nat} (h : Handler n Fn Ctx)
    (hd : bytes.drop pointer = SdoResult.code.encodeAll rs ++ rest)
    (hstop : SdoResult.code.Stops rest) (hfuel : bytes.length - pointer ≤ fuel) :
    readSdoFrame bytes fill fuel pointer h = parseOutcome fill pointer rs rest h := by
  induction rs generalizing fuel pointer h with
  | nil =>
    have hlen := congrArg List.length hd
    rw [List.length_drop] at hlen
    exact readSdoFrame_rest fill h hd hstop (by
      simp only [Grammar.Code.encodeAll_nil, List.nil_append] at hlen
      omega)
  | cons r rs ih =>
    rw [Grammar.Code.encodeAll_cons, List.append_assoc] at hd
    change bytes.drop pointer = r.encode ++ _ at hd
    have hpos := SdoResult.code.encode_pos r
    change 0 < r.encode.length at hpos
    have hlen := congrArg List.length hd
    rw [List.length_drop, List.length_append] at hlen
    have hlt : pointer < bytes.length := by omega
    obtain ⟨fuel,rfl⟩ : ∃ m, fuel = m + 1 := ⟨fuel - 1,by omega⟩
    have hd' : bytes.drop (pointer + r.encode.length) = SdoResult.code.encodeAll rs ++ rest := by
      rw [← List.drop_drop, hd, List.drop_left]
    simp only [readSdoFrame, if_pos hlt, readSdoRecord_encode fill h hd, parseOutcome, applyResults]
    cases h.applyResult (fill pointer) r with
    | error e => rfl
    | ok h' => exact ih h' hd' (by omega)

end Handler

end WujiHand

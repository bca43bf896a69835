import Mathlib.Tactic.IntervalCases
import WujiHand.Handler.ReceiveParser

namespace WujiHand

open Bytes

theorem JointTable.toList_get {α : Type} (t : JointTable α) (i : Fin 5) (j : Fin 4) :
    t.toList[4 * i.val + j.val]? = some (t i j) := by
  obtain ⟨i,hi⟩ := i
  obtain ⟨j,hj⟩ := j
  interval_cases i <;> interval_cases j <;> rfl

theorem JointTable.toList_ofNat {α : Type} (f : Nat → α) :
    JointTable.toList (fun i j => f (4 * i.val + j.val)) = (List.range 20).map f := rfl

namespace Pdo

def CommandResult.ofBytes (data : List Byte) : CommandResult where
  writeExecuted := data.getD 0 0
  readExecuted := data.getD 1 0
  positions := commandResultPositions data

theorem CommandResult.encode_length (r : CommandResult) : r.encode.length = commandResultSize := rfl

theorem CommandResult.positions_encode (r : CommandResult) (tail : List Byte) :
    commandResultPositions (r.encode ++ tail) = r.positions := by
  funext i j
  have hget := r.positions.toList_get i j
  obtain ⟨hlt,hval⟩ := List.getElem?_eq_some_iff.mp hget
  have hchunk := flatMap_chunk r.positions.toList (fun p => leBytes 4 p.toNat) 4 (by simp)
    (4 * i.val + j.val) hlt
  have hpayload : (r.positions.toList.flatMap (fun p => leBytes 4 p.toNat)).length = 80 := rfl
  have hdrop : ((r.encode ++ tail).drop (2 + 4 * (4 * i.val + j.val))).take 4 =
      leBytes 4 (r.positions i j).toNat := by
    have hi := i.isLt
    have hj := j.isLt
    rw [← hval, ← hchunk, ← List.drop_drop]
    change ((r.positions.toList.flatMap _ ++ tail).drop _).take 4 = _
    rw [List.drop_append_of_le_length (by omega), List.take_append_of_le_length (by
      rw [List.length_drop]
      omega)]
  simp only [commandResultPositions, hdrop]
  exact ofNat_ofLeBytes_leBytes (by decide) _

theorem CommandResult.encode_ofBytes {data : List Byte} (hlen : data.length = commandResultSize) :
    (CommandResult.ofBytes data).encode = data := by
  rcases data with _ | ⟨b₀,_ | ⟨b₁,payload⟩⟩
  · cases hlen
  · cases hlen
  · have hp : payload.length = 80 := by
      simp only [List.length_cons, commandResultSize] at hlen
      omega
    have hlist : (CommandResult.ofBytes (b₀ :: b₁ :: payload)).positions.toList =
        (List.range 20).map fun k => BitVec.ofNat 32 (ofLeBytes ((payload.drop (4 * k)).take 4)) := by
      rw [← JointTable.toList_ofNat]
      congr 1
      funext i j
      simp only [CommandResult.ofBytes, commandResultPositions, Nat.add_comm 2, List.drop_succ_cons]
    have hchunk : ∀ k ∈ List.range 20,
        leBytes 4 (BitVec.ofNat 32 (ofLeBytes ((payload.drop (4 * k)).take 4))).toNat =
          (payload.drop (4 * k)).take 4 := by
      intro k hk
      have hk' := List.mem_range.mp hk
      refine leBytes_ofNat_ofLeBytes ?_ rfl
      rw [List.length_take, List.length_drop]
      omega
    have hflat : (List.range 20).flatMap (fun k => (payload.drop (4 * k)).take 4) = payload := by
      rw [flatMap_chunks payload 4 20 (by omega), List.take_of_length_le (by omega)]
    simp only [CommandResult.encode, hlist, List.flatMap_map]
    rw [List.flatMap_congr hchunk, hflat]
    rfl

end Pdo

namespace Handler

variable {n : Nat} {Fn Ctx : Type}

def Known (h : Handler n Fn Ctx) (r : SdoResult) : Prop :=
  (h.findStorageByIndex r.index r.subIndex).isSome

def withCommandResult (h : Handler n Fn Ctx) (r : Pdo.CommandResult) : Handler n Fn Ctx :=
  { h with
    pdoReadResult := r.positions, pdoReadResultVersion := h.pdoReadResultVersion + 1 }

structure ParsesGrammar (bytes : List Byte) (fill : Nat → Buffer8) (h : Handler n Fn Ctx) :
    Prop where
  inBounds : ∀ fault, (h.receiveTransferCompletedCallback bytes fill).2 = some fault →
    ∃ error, fault = .runtime error
  shortHeader : bytes.length < Header.size →
    (h.receiveTransferCompletedCallback bytes fill).1 = h ∧
      (h.receiveTransferCompletedCallback bytes fill).2.isSome
  decomposes : ∀ body : List Byte, ∃! p : List SdoResult × List Byte,
    body = p.1.flatMap SdoResult.encode ++ p.2 ∧ (Accepted p.2 ∨ Rejected p.2)
  sdo : ∀ header rs rest, header.length = Header.size →
    header.getD Header.typeOffset 0 = sdoFrame → (Accepted rest ∨ Rejected rest) →
    bytes = header ++ (rs.flatMap SdoResult.encode ++ rest) →
    h.receiveTransferCompletedCallback bytes fill = parseOutcome fill Header.size rs rest h
  padded : ∀ header rs zeros, header.length = Header.size →
    header.getD Header.typeOffset 0 = sdoFrame → (∀ r ∈ rs, h.Known r) →
    bytes = header ++ (rs.flatMap SdoResult.encode ++ List.replicate zeros 0) →
    (applyResults fill Header.size rs h).2 = none ∧
      h.receiveTransferCompletedCallback bytes fill =
        ((applyResults fill Header.size rs h).1,none)
  pdo : ∀ header (r : Pdo.CommandResult) tail, header.length = Header.size →
    header.getD Header.typeOffset 0 = pdoFrame → r.readExecuted = 1 →
    bytes = header ++ (r.encode ++ tail) →
    h.receiveTransferCompletedCallback bytes fill = (h.withCommandResult r,none)
  pdoOther : ∀ header body, header.length = Header.size →
    header.getD Header.typeOffset 0 = pdoFrame → bytes = header ++ body →
    (¬∃ (r : Pdo.CommandResult) (tail : List Byte), body = r.encode ++ tail ∧ r.readExecuted = 1) →
    (h.receiveTransferCompletedCallback bytes fill).1 = h
  otherType : ∀ header body, header.length = Header.size →
    header.getD Header.typeOffset 0 ≠ sdoFrame → header.getD Header.typeOffset 0 ≠ pdoFrame →
    bytes = header ++ body → h.receiveTransferCompletedCallback bytes fill = (h,none)

theorem receive_short {bytes : List Byte} (fill : Nat → Buffer8) (h : Handler n Fn Ctx)
    (hlt : bytes.length < Header.size) :
    h.receiveTransferCompletedCallback bytes fill =
      (h,some (.runtime (.truncated "Frame header" Header.size bytes.length))) := by
  have hread := readFrameStruct_short "Frame header" (show bytes.length < 0 + Header.size by omega)
  simp only [receiveTransferCompletedCallback, hread]
  simp

theorem receive_header {header body : List Byte} (fill : Nat → Buffer8) (h : Handler n Fn Ctx)
    (hlen : header.length = Header.size) :
    h.receiveTransferCompletedCallback (header ++ body) fill =
      if header.getD Header.typeOffset 0 = sdoFrame then
        readSdoFrame (header ++ body) fill (header ++ body).length Header.size h
      else if header.getD Header.typeOffset 0 = pdoFrame then
        h.readPdoFrame (header ++ body) Header.size
      else (h,none) := by
  have hread := readFrameStruct_ok "Frame header" (show 0 + Header.size ≤ (header ++ body).length by
    rw [List.length_append]
    omega)
  have htake : ((header ++ body).drop 0).take Header.size = header := by
    rw [List.drop_zero, ← hlen, List.take_left]
  rw [htake, Nat.zero_add] at hread
  simp only [receiveTransferCompletedCallback, hread]

theorem receive_sdo {header rest : List Byte} {rs : List SdoResult} (fill : Nat → Buffer8)
    (h : Handler n Fn Ctx) (hlen : header.length = Header.size)
    (htype : header.getD Header.typeOffset 0 = sdoFrame) (hrest : Accepted rest ∨ Rejected rest) :
    h.receiveTransferCompletedCallback (header ++ (rs.flatMap SdoResult.encode ++ rest)) fill =
      parseOutcome fill Header.size rs rest h := by
  rw [receive_header fill h hlen, if_pos htype]
  refine readSdoFrame_encodeAll fill rs h ?_ ((stops_iff rest).mpr hrest) (by omega)
  rw [← hlen, List.drop_left]
  rfl

theorem readPdoFrame_complete {header body : List Byte} (h : Handler n Fn Ctx)
    (hlen : header.length = Header.size) (hbody : Pdo.commandResultSize ≤ body.length) :
    h.readPdoFrame (header ++ body) Header.size =
      let data := body.take Pdo.commandResultSize
      if data.getD 1 0 ≠ 1 then (h,some (.runtime (.readExecuted (data.getD 1 0))))
      else (h.withCommandResult (.ofBytes data),none) := by
  have hread := readFrameStruct_ok "PDO CommandResult frame"
    (show Header.size + Pdo.commandResultSize ≤ (header ++ body).length by
      rw [List.length_append]
      omega)
  rw [← hlen, List.drop_left] at hread
  rw [← hlen]
  simp only [readPdoFrame, hread]
  rfl

theorem readPdoFrame_short {header body : List Byte} (h : Handler n Fn Ctx)
    (hlen : header.length = Header.size) (hbody : body.length < Pdo.commandResultSize) :
    ∃ error, h.readPdoFrame (header ++ body) Header.size = (h,some (.runtime error)) := by
  have hread := readFrameStruct_short "PDO CommandResult frame"
    (show (header ++ body).length < Header.size + Pdo.commandResultSize by
      rw [List.length_append]
      omega)
  simp only [readPdoFrame, hread]
  exact ⟨_,rfl⟩

theorem applyResult_map {fill : Buffer8} {h h' : Handler n Fn Ctx} {r : SdoResult}
    (hr : h.applyResult fill r = .ok h') : h'.indexStorageMap = h.indexStorageMap := by
  cases r with
  | readSuccess size index subIndex value =>
    simp only [applyResult] at hr
    split at hr
    · cases hr
    · cases hr
      rfl
  | readError => cases hr; rfl
  | writeSuccess index subIndex =>
    simp only [applyResult] at hr
    split at hr
    · cases hr
    · cases hr
      rfl
  | writeError => cases hr; rfl

theorem applyResult_known {h : Handler n Fn Ctx} {r : SdoResult} (fill : Buffer8)
    (hk : h.Known r) : ∃ h', h.applyResult fill r = .ok h' := by
  obtain ⟨id,hid⟩ := Option.isSome_iff_exists.mp hk
  cases r with
  | readSuccess size index subIndex value =>
    simp only [SdoResult.index, SdoResult.subIndex] at hid
    simp only [applyResult, hid]
    exact ⟨_,rfl⟩
  | readError => exact ⟨h,rfl⟩
  | writeSuccess index subIndex =>
    simp only [SdoResult.index, SdoResult.subIndex] at hid
    simp only [applyResult, hid]
    exact ⟨_,rfl⟩
  | writeError => exact ⟨h,rfl⟩

theorem applyResults_known {h : Handler n Fn Ctx} {rs : List SdoResult} (fill : Nat → Buffer8)
    (pointer : Nat) (hk : ∀ r ∈ rs, h.Known r) : (applyResults fill pointer rs h).2 = none := by
  induction rs generalizing pointer h with
  | nil => rfl
  | cons r rs ih =>
    obtain ⟨h',hr⟩ := applyResult_known (fill pointer) (hk r (by simp))
    simp only [applyResults, hr]
    apply ih
    intro r' hr'
    have hmem := hk r' (by simp [hr'])
    rw [Known, findStorageByIndex, applyResult_map hr]
    exact hmem

theorem parseOutcome_runtime {fill : Nat → Buffer8} {pointer : Nat} {rs : List SdoResult}
    {rest : List Byte} {h : Handler n Fn Ctx} {fault : RxFault}
    (hf : (parseOutcome fill pointer rs rest h).2 = some fault) :
    ∃ error, fault = .runtime error := by
  unfold parseOutcome at hf
  split at hf
  · exact ⟨_,(Option.some.inj hf).symm⟩
  · obtain ⟨error,_,rfl⟩ := Option.map_eq_some_iff.mp hf
    exact ⟨error,rfl⟩

theorem accepted_zeros (zeros : Nat) : Accepted (List.replicate zeros 0) := by
  cases zeros with
  | zero => exact .inl rfl
  | succ k => exact .inr rfl

theorem body_decomposes (body : List Byte) : ∃! p : List SdoResult × List Byte,
    body = p.1.flatMap SdoResult.encode ++ p.2 ∧ (Accepted p.2 ∨ Rejected p.2) := by
  have h := SdoResult.code.existsUnique_decomposition body
  simp only [stops_iff] at h
  exact h

theorem receive_fault {bytes : List Byte} {fill : Nat → Buffer8} {h : Handler n Fn Ctx}
    {fault : RxFault} (hf : (h.receiveTransferCompletedCallback bytes fill).2 = some fault) :
    ∃ error, fault = .runtime error := by
  by_cases hlt : bytes.length < Header.size
  · rw [receive_short fill h hlt] at hf
    exact ⟨_,(Option.some.inj hf).symm⟩
  · have hlen : (bytes.take Header.size).length = Header.size := by
      rw [List.length_take]
      omega
    rw [← List.take_append_drop Header.size bytes] at hf
    by_cases hs : (bytes.take Header.size).getD Header.typeOffset 0 = sdoFrame
    · obtain ⟨p,⟨hbody,hrest⟩,_⟩ := body_decomposes (bytes.drop Header.size)
      rw [hbody, receive_sdo fill h hlen hs hrest] at hf
      exact parseOutcome_runtime hf
    · rw [receive_header fill h hlen, if_neg hs] at hf
      split at hf
      · by_cases hbody : Pdo.commandResultSize ≤ (bytes.drop Header.size).length
        · rw [readPdoFrame_complete h hlen hbody] at hf
          dsimp only at hf
          split at hf
          · exact ⟨_,(Option.some.inj hf).symm⟩
          · cases hf
        · obtain ⟨error,he⟩ := readPdoFrame_short h hlen (not_le.mp hbody)
          rw [he] at hf
          exact ⟨error,(Option.some.inj hf).symm⟩
      · cases hf

theorem receive_padded {header : List Byte} {rs : List SdoResult} (zeros : Nat)
    (fill : Nat → Buffer8) {h : Handler n Fn Ctx} (hlen : header.length = Header.size)
    (htype : header.getD Header.typeOffset 0 = sdoFrame) (hk : ∀ r ∈ rs, h.Known r) :
    h.receiveTransferCompletedCallback
        (header ++ (rs.flatMap SdoResult.encode ++ List.replicate zeros 0)) fill =
      ((applyResults fill Header.size rs h).1,none) := by
  have hnone := applyResults_known fill Header.size hk
  rw [receive_sdo fill h hlen htype (.inl (accepted_zeros zeros)), parseOutcome]
  cases hp : applyResults fill Header.size rs h with
  | mk h' e =>
    rw [hp] at hnone
    obtain rfl : e = none := hnone
    simp only [restError_eq_none.mpr (accepted_zeros zeros), Option.map_none]

theorem receive_pdo {header : List Byte} {r : Pdo.CommandResult} (tail : List Byte)
    (fill : Nat → Buffer8) (h : Handler n Fn Ctx) (hlen : header.length = Header.size)
    (htype : header.getD Header.typeOffset 0 = pdoFrame) (hexec : r.readExecuted = 1) :
    h.receiveTransferCompletedCallback (header ++ (r.encode ++ tail)) fill =
      (h.withCommandResult r,none) := by
  have hpdo : header.getD Header.typeOffset 0 ≠ sdoFrame := by rw [htype]; decide
  have htake : (r.encode ++ tail).take Pdo.commandResultSize = r.encode := by
    rw [← r.encode_length, List.take_left]
  have hdata : Pdo.CommandResult.ofBytes r.encode = r := by
    have hp := r.positions_encode []
    rw [List.append_nil] at hp
    simp only [Pdo.CommandResult.ofBytes, hp]
    rfl
  have hflag : r.encode.getD 1 0 = r.readExecuted := rfl
  rw [receive_header fill h hlen, if_neg hpdo, if_pos htype,
    readPdoFrame_complete h hlen (by rw [List.length_append, r.encode_length]; omega), htake]
  simp only [hflag, hexec, ne_eq, not_true, if_false, hdata]

theorem receive_pdo_other {header body : List Byte} (fill : Nat → Buffer8) (h : Handler n Fn Ctx)
    (hlen : header.length = Header.size) (htype : header.getD Header.typeOffset 0 = pdoFrame)
    (hnone : ¬∃ (r : Pdo.CommandResult) (tail : List Byte),
      body = r.encode ++ tail ∧ r.readExecuted = 1) :
    (h.receiveTransferCompletedCallback (header ++ body) fill).1 = h := by
  have hpdo : header.getD Header.typeOffset 0 ≠ sdoFrame := by rw [htype]; decide
  rw [receive_header fill h hlen, if_neg hpdo, if_pos htype]
  by_cases hbody : Pdo.commandResultSize ≤ body.length
  · rw [readPdoFrame_complete h hlen hbody]
    dsimp only
    split
    · rfl
    · rename_i hflag
      have hdata : (body.take Pdo.commandResultSize).length = Pdo.commandResultSize := by
        rw [List.length_take]
        omega
      refine absurd ⟨.ofBytes (body.take Pdo.commandResultSize),
        body.drop Pdo.commandResultSize,?_,not_not.mp hflag⟩ hnone
      rw [Pdo.CommandResult.encode_ofBytes hdata, List.take_append_drop]
  · obtain ⟨error,he⟩ := readPdoFrame_short h hlen (not_le.mp hbody)
    rw [he]

theorem receive_other {header : List Byte} (body : List Byte) (fill : Nat → Buffer8)
    (h : Handler n Fn Ctx) (hlen : header.length = Header.size)
    (hsdo : header.getD Header.typeOffset 0 ≠ sdoFrame)
    (hpdo : header.getD Header.typeOffset 0 ≠ pdoFrame) :
    h.receiveTransferCompletedCallback (header ++ body) fill = (h,none) := by
  rw [receive_header fill h hlen, if_neg hsdo, if_neg hpdo]

theorem receive_parses_grammar (bytes : List Byte) (fill : Nat → Buffer8) (h : Handler n Fn Ctx) :
    h.ParsesGrammar bytes fill where
  inBounds := fun _ => receive_fault
  shortHeader := fun hlt => by
    rw [receive_short fill h hlt]
    exact ⟨rfl,rfl⟩
  decomposes := body_decomposes
  sdo := by
    rintro header rs rest hlen htype hrest rfl
    exact receive_sdo fill h hlen htype hrest
  padded := by
    rintro header rs zeros hlen htype hk rfl
    exact ⟨applyResults_known fill Header.size hk,receive_padded zeros fill hlen htype hk⟩
  pdo := by
    rintro header r tail hlen htype hexec rfl
    exact receive_pdo tail fill h hlen htype hexec
  pdoOther := by
    rintro header body hlen htype rfl hnone
    exact receive_pdo_other fill h hlen htype hnone
  otherType := by
    rintro header body hlen hsdo hpdo rfl
    exact receive_other body fill h hlen hsdo hpdo

end Handler

end WujiHand

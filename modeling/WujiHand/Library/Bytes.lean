import Mathlib.Tactic.Common
import Mathlib.Tactic.Ring

namespace Bytes

def leBytes : Nat → Nat → List (BitVec 8)
  | 0, _ => []
  | n + 1, v => BitVec.ofNat 8 v :: leBytes n (v / 256)

def ofLeBytes : List (BitVec 8) → Nat
  | [] => 0
  | b :: bs => b.toNat + 256 * ofLeBytes bs

def beBytes (n v : Nat) : List (BitVec 8) := (leBytes n v).reverse

def ofBeBytes (bs : List (BitVec 8)) : Nat := ofLeBytes bs.reverse

@[simp] theorem leBytes_length (n v : Nat) : (leBytes n v).length = n := by
  induction n generalizing v with
  | zero => rfl
  | succ n ih => simp [leBytes, ih]

@[simp] theorem beBytes_length (n v : Nat) : (beBytes n v).length = n := by simp [beBytes]

theorem ofLeBytes_leBytes (n v : Nat) : ofLeBytes (leBytes n v) = v % 256 ^ n := by
  induction n generalizing v with
  | zero => simp [leBytes, ofLeBytes, Nat.mod_one]
  | succ n ih =>
    simp only [leBytes, ofLeBytes, ih, BitVec.toNat_ofNat]
    have h : v % 256 ^ (n + 1) = v % 256 + 256 * (v / 256 % 256 ^ n) := by
      rw [Nat.pow_succ', Nat.mod_mul]
    rw [h]

theorem leBytes_ofLeBytes (bs : List (BitVec 8)) : leBytes bs.length (ofLeBytes bs) = bs := by
  induction bs with
  | nil => rfl
  | cons b bs ih =>
    have hb : b.toNat < 256 := b.isLt
    have hdiv : (b.toNat + 256 * ofLeBytes bs) / 256 = ofLeBytes bs := by omega
    have hmod : BitVec.ofNat 8 (b.toNat + 256 * ofLeBytes bs) = b := by
      apply BitVec.eq_of_toNat_eq
      rw [BitVec.toNat_ofNat]
      omega
    simp only [List.length_cons, leBytes, ofLeBytes, hdiv, hmod, ih]

theorem ofLeBytes_lt (bs : List (BitVec 8)) : ofLeBytes bs < 256 ^ bs.length := by
  induction bs with
  | nil => simp [ofLeBytes]
  | cons b bs ih =>
    have hb : b.toNat < 256 := b.isLt
    have hpow : 256 ^ (b :: bs).length = 256 * 256 ^ bs.length := by
      rw [List.length_cons, Nat.pow_succ']
    simp only [ofLeBytes]
    omega

section Words

variable {w : Nat}

theorem ofNat_ofLeBytes_leBytes {n : Nat} (hw : w ≤ 8 * n) (v : BitVec w) :
    BitVec.ofNat w (ofLeBytes (leBytes n v.toNat)) = v := by
  have hv : v.toNat < 256 ^ n := by
    have h := v.isLt
    have hp : 2 ^ w ≤ 256 ^ n := by
      rw [show (256 : Nat) = 2 ^ 8 from rfl, ← Nat.pow_mul]
      exact Nat.pow_le_pow_right (by decide) hw
    omega
  rw [ofLeBytes_leBytes, Nat.mod_eq_of_lt hv, BitVec.ofNat_toNat, BitVec.setWidth_eq]

theorem leBytes_ofNat_ofLeBytes {n : Nat} {bs : List (BitVec 8)} (hlen : bs.length = n)
    (hw : w = 8 * n) : leBytes n (BitVec.ofNat w (ofLeBytes bs)).toNat = bs := by
  have hlt : ofLeBytes bs < 2 ^ w := by
    have h := ofLeBytes_lt bs
    rw [hlen, show (256 : Nat) = 2 ^ 8 from rfl, ← Nat.pow_mul] at h
    rwa [hw]
  rw [BitVec.toNat_ofNat, Nat.mod_eq_of_lt hlt, ← hlen, leBytes_ofLeBytes]

theorem ofNat_ofBeBytes_beBytes {n : Nat} (hw : w ≤ 8 * n) (v : BitVec w) :
    BitVec.ofNat w (ofBeBytes (beBytes n v.toNat)) = v := by
  rw [ofBeBytes, beBytes, List.reverse_reverse]
  exact ofNat_ofLeBytes_leBytes hw v

theorem beBytes_ofNat_ofBeBytes {n : Nat} {bs : List (BitVec 8)} (hlen : bs.length = n)
    (hw : w = 8 * n) : beBytes n (BitVec.ofNat w (ofBeBytes bs)).toNat = bs := by
  rw [beBytes, ofBeBytes, leBytes_ofNat_ofLeBytes (by simpa using hlen) hw, List.reverse_reverse]

end Words

section Slices

variable {α : Type}

def slice? (bs : List α) (offset size : Nat) : Option (List α) :=
  if offset + size ≤ bs.length then some ((bs.drop offset).take size) else none

def poke? (bs : List α) (offset : Nat) (xs : List α) : Option (List α) :=
  if offset + xs.length ≤ bs.length then
    some (bs.take offset ++ xs ++ bs.drop (offset + xs.length))
  else none

theorem slice?_eq_some {bs : List α} {offset size : Nat} (h : offset + size ≤ bs.length) :
    slice? bs offset size = some ((bs.drop offset).take size) := if_pos h

theorem poke?_eq_some {bs xs : List α} {offset : Nat} (h : offset + xs.length ≤ bs.length) :
    poke? bs offset xs = some (bs.take offset ++ xs ++ bs.drop (offset + xs.length)) := if_pos h

theorem poke?_append {pre post xs : List α} (h : xs.length ≤ post.length) :
    poke? (pre ++ post) pre.length xs = some (pre ++ (xs ++ post.drop xs.length)) := by
  rw [poke?_eq_some (by rw [List.length_append]; omega), List.take_left,
    ← List.drop_drop, List.drop_left, List.append_assoc]

theorem flatMap_chunks (xs : List α) (k m : Nat) (h : k * m ≤ xs.length) :
    (List.range m).flatMap (fun i => (xs.drop (k * i)).take k) = xs.take (k * m) := by
  induction m with
  | zero => simp
  | succ m ih =>
    have hm : k * m ≤ xs.length := (Nat.mul_le_mul_left k (Nat.le_succ m)).trans h
    rw [List.range_succ, List.flatMap_append, ih hm, Nat.mul_succ, List.take_add]
    simp

theorem flatMap_chunk {β : Type} (xs : List β) (f : β → List α) (k : Nat)
    (hf : ∀ x, (f x).length = k) (i : Nat) (hi : i < xs.length) :
    ((xs.flatMap f).drop (k * i)).take k = f xs[i] := by
  induction xs generalizing i with
  | nil => simp at hi
  | cons x xs ih =>
    cases i with
    | zero =>
      have htake : (f x ++ xs.flatMap f).take k = f x := by rw [← hf x, List.take_left]
      simpa using htake
    | succ i =>
      have hdrop : (f x ++ xs.flatMap f).drop (k * (i + 1)) = (xs.flatMap f).drop (k * i) := by
        rw [Nat.mul_succ, Nat.add_comm, ← List.drop_drop]
        conv_lhs => rw [← hf x, List.drop_left]
        rw [hf x]
      rw [List.flatMap_cons, hdrop]
      exact ih i (by simpa using hi)

end Slices

end Bytes

import Mathlib.Tactic.Common

namespace Grammar

-- A stream of self-delimiting records: `next` peels one record off the front, or stops.
structure Code (R B : Type) where
  encode : R → List B
  next : List B → Option (R × List B)
  next_encode : ∀ r rest, next (encode r ++ rest) = some (r,rest)
  next_sound : ∀ s r rest, next s = some (r,rest) → s = encode r ++ rest
  encode_pos : ∀ r, 0 < (encode r).length

namespace Code

variable {R B : Type} (c : Code R B)

def encodeAll (rs : List R) : List B := rs.flatMap c.encode

def Stops (s : List B) : Prop := c.next s = none

@[simp] theorem encodeAll_nil : c.encodeAll [] = [] := rfl

@[simp] theorem encodeAll_cons (r : R) (rs : List R) :
    c.encodeAll (r :: rs) = c.encode r ++ c.encodeAll rs := rfl

theorem exists_decomposition (s : List B) :
    ∃ rs rest, s = c.encodeAll rs ++ rest ∧ c.Stops rest := by
  induction hn : s.length using Nat.strongRecOn generalizing s with
  | ind n ih =>
    cases hs : c.next s with
    | none => exact ⟨[],s,rfl,hs⟩
    | some p =>
      obtain ⟨r,rest⟩ := p
      have hsplit := c.next_sound s r rest hs
      have hlt : rest.length < n := by
        have hpos := c.encode_pos r
        rw [← hn, hsplit, List.length_append]
        omega
      obtain ⟨rs,tail,hrest,hstop⟩ := ih rest.length hlt rest rfl
      exact ⟨r :: rs,tail,by rw [hsplit, hrest, encodeAll_cons, List.append_assoc],hstop⟩

theorem decomposition_unique {rs ts : List R} {rest tail : List B}
    (h : c.encodeAll rs ++ rest = c.encodeAll ts ++ tail) (hrest : c.Stops rest)
    (htail : c.Stops tail) : rs = ts ∧ rest = tail := by
  induction rs generalizing ts with
  | nil =>
    cases ts with
    | nil => exact ⟨rfl,h⟩
    | cons t ts =>
      simp only [encodeAll_nil, List.nil_append, encodeAll_cons, List.append_assoc] at h
      rw [Stops, h, c.next_encode] at hrest
      cases hrest
  | cons r rs ih =>
    cases ts with
    | nil =>
      simp only [encodeAll_nil, List.nil_append, encodeAll_cons, List.append_assoc] at h
      rw [Stops, ← h, c.next_encode] at htail
      cases htail
    | cons t ts =>
      simp only [encodeAll_cons, List.append_assoc] at h
      have hnext := congrArg c.next h
      rw [c.next_encode, c.next_encode] at hnext
      obtain ⟨rfl,hs⟩ := Prod.mk.inj (Option.some.inj hnext)
      obtain ⟨rfl,rfl⟩ := ih hs
      exact ⟨rfl,rfl⟩

theorem existsUnique_decomposition (s : List B) :
    ∃! p : List R × List B, s = c.encodeAll p.1 ++ p.2 ∧ c.Stops p.2 := by
  obtain ⟨rs,rest,hs,hstop⟩ := c.exists_decomposition s
  refine ⟨(rs,rest),⟨hs,hstop⟩,?_⟩
  rintro ⟨ts,tail⟩ ⟨ht,htail⟩
  obtain ⟨rfl,rfl⟩ := c.decomposition_unique (hs.symm.trans ht) hstop htail
  rfl

def peel : Nat → List B → List R × List B
  | 0, s => ([],s)
  | fuel + 1, s =>
    match c.next s with
    | none => ([],s)
    | some (r,s) => (r :: (peel fuel s).1,(peel fuel s).2)

def decode (s : List B) : List R × List B := c.peel s.length s

theorem length_encodeAll (rs : List R) : rs.length ≤ (c.encodeAll rs).length := by
  induction rs with
  | nil => exact Nat.le_refl 0
  | cons r rs ih =>
    have hpos := c.encode_pos r
    rw [encodeAll_cons, List.length_append, List.length_cons]
    omega

theorem peel_encodeAll {rs : List R} {rest : List B} {fuel : Nat} (hstop : c.Stops rest)
    (hfuel : rs.length ≤ fuel) : c.peel fuel (c.encodeAll rs ++ rest) = (rs,rest) := by
  induction rs generalizing fuel with
  | nil =>
    cases fuel with
    | zero => rfl
    | succ fuel => rw [encodeAll_nil, List.nil_append, peel, hstop]
  | cons r rs ih =>
    cases fuel with
    | zero => cases hfuel
    | succ fuel =>
      rw [encodeAll_cons, List.append_assoc, peel, c.next_encode]
      simp only [ih (Nat.le_of_succ_le_succ hfuel)]

theorem decode_encodeAll {rs : List R} {rest : List B} (hstop : c.Stops rest) :
    c.decode (c.encodeAll rs ++ rest) = (rs,rest) := by
  have hlen := c.length_encodeAll rs
  exact c.peel_encodeAll hstop (by rw [List.length_append]; omega)

end Code

structure Tagged (K R B : Type) where
  control : K → B
  ofControl : B → Option K
  length : K → Nat
  decode : K → List B → R
  encode : R → List B
  kind : R → K
  ofControl_control : ∀ k, ofControl (control k) = some k
  ofControl_sound : ∀ b k, ofControl b = some k → b = control k
  length_pos : ∀ k, 0 < length k
  encode_length : ∀ r, (encode r).length = length (kind r)
  encode_head : ∀ r, ∃ tail, encode r = control (kind r) :: tail
  decode_encode : ∀ r, decode (kind r) (encode r) = r
  encode_decode : ∀ data k, data.length = length k → data.head? = some (control k) →
    encode (decode k data) = data

namespace Tagged

variable {K R B : Type} (t : Tagged K R B)

def next (s : List B) : Option (R × List B) :=
  match s with
  | [] => none
  | control :: _ =>
    match t.ofControl control with
    | none => none
    | some k =>
      if s.length < t.length k then none
      else some (t.decode k (s.take (t.length k)),s.drop (t.length k))

theorem next_encode (r : R) (rest : List B) : t.next (t.encode r ++ rest) = some (r,rest) := by
  obtain ⟨tail,htail⟩ := t.encode_head r
  have hlen := t.encode_length r
  have hs : t.encode r ++ rest = t.control (t.kind r) :: (tail ++ rest) := by rw [htail]; rfl
  have hlt : ¬(t.encode r ++ rest).length < t.length (t.kind r) := by
    rw [List.length_append, hlen]
    omega
  have htake : (t.encode r ++ rest).take (t.length (t.kind r)) = t.encode r := by
    rw [← hlen, List.take_left]
  have hdrop : (t.encode r ++ rest).drop (t.length (t.kind r)) = rest := by
    rw [← hlen, List.drop_left]
  have hnext : t.next (t.encode r ++ rest) =
      some (t.decode (t.kind r) ((t.encode r ++ rest).take (t.length (t.kind r))),
        (t.encode r ++ rest).drop (t.length (t.kind r))) := by
    unfold next
    rw [hs] at hlt ⊢
    simp only [t.ofControl_control, if_neg hlt]
  rw [hnext, htake, hdrop, t.decode_encode]

theorem next_sound (s : List B) (r : R) (rest : List B) (h : t.next s = some (r,rest)) :
    s = t.encode r ++ rest := by
  cases s with
  | nil => cases h
  | cons control tail =>
    simp only [next] at h
    cases hk : t.ofControl control with
    | none => simp [hk] at h
    | some k =>
      simp only [hk] at h
      split at h
      · cases h
      · rename_i hlt
        obtain ⟨hr,hrest⟩ := Prod.mk.inj (Option.some.inj h)
        have hpos := t.length_pos k
        have hlen : ((control :: tail).take (t.length k)).length = t.length k := by
          rw [List.length_take]
          omega
        have hhead : ((control :: tail).take (t.length k)).head? = some (t.control k) := by
          rw [List.head?_take, if_neg (by omega), ← t.ofControl_sound control k hk]
          rfl
        rw [← hr, t.encode_decode _ k hlen hhead, ← hrest, List.take_append_drop]

def code : Code R B where
  encode := t.encode
  next := t.next
  next_encode := t.next_encode
  next_sound := t.next_sound
  encode_pos := fun r => by
    rw [t.encode_length]
    exact t.length_pos (t.kind r)

variable {t} in
theorem stops_cons_iff {b : B} {tail : List B} :
    t.code.Stops (b :: tail) ↔
      ∀ k, t.ofControl b = some k → (b :: tail).length < t.length k := by
  change t.next (b :: tail) = none ↔ _
  simp only [next]
  cases t.ofControl b with
  | none => simp
  | some k => simp

end Tagged

end Grammar

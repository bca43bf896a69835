import WujiHand.Handler.LifeCycle

namespace WujiHand

variable {n : Nat} {Fn Ctx : Type}

namespace StorageUnit

def Completes (u u' : StorageUnit Fn Ctx) : Prop :=
  u.Busy ∧ u.operation.state ≠ .success ∧ u'.operation.state = .success

structure WidthKept (size : Size) (value : BitVec size.bits) (u u' : StorageUnit Fn Ctx) :
    Prop where
  width : size = u.info.size
  read : u.operation.mode = .read → u.info.size.bits ≤ size.bits ∧
    Buffer8.as u.info.size.bits u'.value = value.setWidth u.info.size.bits
  write : u.operation.mode = .write → u.info.size.bits ≤ size.bits ∧
    value.setWidth u.info.size.bits = Buffer8.as u.info.size.bits u.value

def Matches (size : Size) (value : BitVec size.bits) (u : StorageUnit Fn Ctx) : Prop :=
  u.operation = ⟨.read,.reading⟩ ∨
    (u.operation = ⟨.write,.writingConfirming⟩ ∧ value = Buffer8.as size.bits u.value)

theorem completes_iff {size : Size} {value : BitVec size.bits} (fill : Buffer8)
    {u : StorageUnit Fn Ctx} (hc : u.Coherent) :
    u.Completes (u.readSuccess size value fill) ↔ u.Matches size value := by
  constructor
  · rintro ⟨hb,hne,hs⟩
    have hstep := u.readSuccess_step size value fill
    generalize u.readSuccess size value fill = u' at hstep hs
    cases hstep with
    | ignored => exact absurd hs hne
    | refreshed _ hst => exact .inl (Operation.eq_mk (hc.read_of_reading hb hst) hst)
    | confirmed _ hst hv => exact .inr ⟨Operation.eq_mk (hc.write_of_writing hb (.inr hst)) hst,hv⟩
    | mismatched => cases hs
  · rintro (ho | ⟨ho,hv⟩)
    · rw [readSuccess_refreshed value fill ho]
      simp [Completes, Busy, ho]
    · rw [readSuccess_confirmed fill ho hv]
      simp [Completes, Busy, ho]

theorem widthKept_of_eq {size : Size} {value : BitVec size.bits} (fill : Buffer8)
    {u : StorageUnit Fn Ctx} (hm : u.Matches size value) (hw : size = u.info.size) :
    WidthKept size value u (u.readSuccess size value fill) := by
  subst hw
  refine ⟨rfl,fun hmode => ⟨Nat.le_refl _,?_⟩,fun hmode => ⟨Nat.le_refl _,?_⟩⟩
  · rcases hm with ho | ⟨ho,_⟩
    · rw [readSuccess_refreshed value fill ho, Buffer8.as_of u.info.size.bits_le,
        BitVec.setWidth_eq]
    · rw [ho] at hmode
      cases hmode
  · rcases hm with ho | ⟨_,hv⟩
    · rw [ho] at hmode
      cases hmode
    · rw [BitVec.setWidth_eq]
      exact hv

end StorageUnit

namespace Handler

def MatchesWidth (codec : PositionCodec) (h : Handler n Fn Ctx) (o : Occurrence n Fn Ctx) : Prop :=
  ∀ size index subIndex value fill id, o = .record (.readSuccess size index subIndex value) fill →
    h.findStorageByIndex index subIndex = some id →
    (h.storage id).Completes ((h.occur codec o).storage id) →
    StorageUnit.WidthKept size value (h.storage id) ((h.occur codec o).storage id)

def AnswersWidth (h : Handler n Fn Ctx) (o : Occurrence n Fn Ctx) : Prop :=
  ∀ size index subIndex value fill id, o = .record (.readSuccess size index subIndex value) fill →
    h.findStorageByIndex index subIndex = some id → (h.storage id).Matches size value →
    size = (h.storage id).info.size

theorem record_readSuccess (codec : PositionCodec) {h : Handler n Fn Ctx} {size : Size}
    {index : BitVec 16} {subIndex : BitVec 8} {id : Fin n} (value : BitVec size.bits)
    (fill : Buffer8) (hf : h.findStorageByIndex index subIndex = some id) :
    (h.occur codec (.record (.readSuccess size index subIndex value) fill)).storage id =
      (h.storage id).readSuccess size value fill := by
  simp only [occur, record, applyResult, hf, setUnit_storage_self]

theorem matchesWidth_iff (codec : PositionCodec) {h : Handler n Fn Ctx}
    (hc : ∀ id, (h.storage id).Coherent) (o : Occurrence n Fn Ctx) :
    h.MatchesWidth codec o ↔ h.AnswersWidth o := by
  constructor
  · rintro hmatch size index subIndex value fill id rfl hf hm
    have hkept := hmatch size index subIndex value fill id rfl hf
    rw [record_readSuccess codec value fill hf] at hkept
    exact (hkept ((StorageUnit.completes_iff fill (hc id)).mpr hm)).width
  · rintro hanswer size index subIndex value fill id rfl hf hcomplete
    rw [record_readSuccess codec value fill hf] at hcomplete ⊢
    have hm := (StorageUnit.completes_iff fill (hc id)).mp hcomplete
    exact StorageUnit.widthKept_of_eq fill hm (hanswer size index subIndex value fill id rfl hf hm)

theorem widths_match_iff (codec : PositionCodec) (s : FreshHandler n Fn Ctx)
    (os : List (Occurrence n Fn Ctx)) :
    Runs.Along (occur codec) (MatchesWidth codec) s.handler os ↔
      Runs.Along (occur codec) AnswersWidth s.handler os := by
  refine Runs.along_congr (P := fun h : Handler n Fn Ctx => ∀ id, (h.storage id).Coherent)
    (fun h o hc => h.occur_coherent codec o hc) (fun h o hc => matchesWidth_iff codec hc o) ?_
  intro id
  simp only [StorageUnit.Coherent, s.idle id]

section NarrowAnswer

open FreshHandler (only)

-- A four-byte object answered in one byte: three bytes of the value are whatever was on the stack.
def narrowAnswer : List (Occurrence 1 Nat Nat) :=
  [.call ⟨0,only,.readAsync 10 (some 1) 2⟩,.visit only 0,.visit only 5]

theorem narrowAnswer_completes :
    ¬Runs.Along (occur .raw) (MatchesWidth .raw)
      (FreshHandler.singleHandler (.make 4 0x64 0 0) 0)
      (narrowAnswer ++ [.record (.readSuccess .one 0x64 0 7) 0xDEADBEEF]) := by
  intro h
  have hkept := Runs.along_at h .one 0x64 0 7 0xDEADBEEF 0 rfl rfl
    ⟨by decide,by decide,by decide⟩
  exact absurd hkept.width (by decide)

end NarrowAnswer

end Handler

end WujiHand

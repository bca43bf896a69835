import Mathlib.Logic.Function.Basic
import WujiHand.Protocol.Records

namespace WujiHand

-- The device as the handler means to use it: objects that keep what was last written to them.
structure ObjectDictionary where
  size : BitVec 16 → BitVec 8 → Size
  value : BitVec 16 → BitVec 8 → Buffer8

namespace ObjectDictionary

def store (index : BitVec 16) (subIndex : BitVec 8) (value : Buffer8) (d : ObjectDictionary) :
    ObjectDictionary :=
  { d with
    value := Function.update d.value index (Function.update (d.value index) subIndex value) }

def answer (d : ObjectDictionary) : SdoRequest → SdoResult
  | .read index subIndex =>
    .readSuccess (d.size index subIndex) index subIndex (Buffer8.as _ (d.value index subIndex))
  | .write _ index subIndex _ => .writeSuccess index subIndex

def execute (d : ObjectDictionary) : SdoRequest → ObjectDictionary
  | .read _ _ => d
  | .write _ index subIndex value => d.store index subIndex (value.setWidth 64)

def serve (d : ObjectDictionary) : List SdoRequest → ObjectDictionary × List SdoResult
  | [] => (d,[])
  | q :: qs => (((d.execute q).serve qs).1,d.answer q :: ((d.execute q).serve qs).2)

variable {index : BitVec 16} {subIndex : BitVec 8}

@[simp] theorem store_size (value : Buffer8) (d : ObjectDictionary) :
    (d.store index subIndex value).size = d.size := rfl

@[simp] theorem store_self (value : Buffer8) (d : ObjectDictionary) :
    (d.store index subIndex value).value index subIndex = value := by
  simp [store]

theorem store_of_ne {index' : BitVec 16} {subIndex' : BitVec 8} (value : Buffer8)
    (d : ObjectDictionary) (hne : ¬(index' = index ∧ subIndex' = subIndex)) :
    (d.store index subIndex value).value index' subIndex' = d.value index' subIndex' := by
  by_cases hindex : index' = index
  · subst hindex
    have hsub : subIndex' ≠ subIndex := fun hsub => hne ⟨rfl,hsub⟩
    simp [store, hsub]
  · simp [store, hindex]

@[simp] theorem execute_size (d : ObjectDictionary) (q : SdoRequest) :
    (d.execute q).size = d.size := by
  cases q <;> rfl

theorem execute_of_ne (d : ObjectDictionary) {q : SdoRequest}
    (hne : ¬(index = q.index ∧ subIndex = q.subIndex)) :
    (d.execute q).value index subIndex = d.value index subIndex := by
  cases q with
  | read => rfl
  | write size index' subIndex' value => exact store_of_ne _ d hne

theorem answer_address (d : ObjectDictionary) (q : SdoRequest) :
    (d.answer q).index = q.index ∧ (d.answer q).subIndex = q.subIndex := by
  cases q <;> exact ⟨rfl,rfl⟩

theorem serve_size (d : ObjectDictionary) (qs : List SdoRequest) :
    (d.serve qs).1.size = d.size := by
  induction qs generalizing d with
  | nil => rfl
  | cons q qs ih => exact (ih (d.execute q)).trans (execute_size d q)

theorem serve_append (d : ObjectDictionary) (qs qs' : List SdoRequest) :
    d.serve (qs ++ qs') =
      (((d.serve qs).1.serve qs').1,(d.serve qs).2 ++ ((d.serve qs).1.serve qs').2) := by
  induction qs generalizing d with
  | nil => rfl
  | cons q qs ih => simp only [List.cons_append, serve, ih]

theorem serve_of_ne (d : ObjectDictionary) {qs : List SdoRequest}
    (hne : ∀ q ∈ qs, ¬(index = q.index ∧ subIndex = q.subIndex)) :
    (d.serve qs).1.value index subIndex = d.value index subIndex := by
  induction qs generalizing d with
  | nil => rfl
  | cons q qs ih =>
    obtain ⟨hq,hqs⟩ := List.forall_mem_cons.mp hne
    exact (ih (d.execute q) hqs).trans (execute_of_ne d hq)

theorem serve_address (d : ObjectDictionary) {qs : List SdoRequest} {r : SdoResult}
    (hr : r ∈ (d.serve qs).2) : ∃ q ∈ qs, r.index = q.index ∧ r.subIndex = q.subIndex := by
  induction qs generalizing d with
  | nil => exact absurd hr List.not_mem_nil
  | cons q qs ih =>
    rcases List.mem_cons.mp hr with rfl | hr
    · exact ⟨q,List.mem_cons_self,answer_address d q⟩
    · obtain ⟨q',hq',haddress⟩ := ih (d.execute q) hr
      exact ⟨q',List.mem_cons_of_mem q hq',haddress⟩

end ObjectDictionary

end WujiHand

import WujiHand.Device.RealtimeController
import WujiHand.Library.Smoothing
import WujiHand.Protocol.Records

namespace WujiHand

namespace JointTable

variable {A : Type}

def update (table : JointTable A) (t : JointId) (a : A) : JointTable A := fun i j =>
  if (i,j) = t then a else table i j

theorem update_self (table : JointTable A) (i : Fin 5) (j : Fin 4) (a : A) :
    table.update (i,j) a i j = a := if_pos rfl

theorem update_of_ne {i : Fin 5} {j : Fin 4} {t : JointId} (h : (i,j) ≠ t)
    (table : JointTable A) (a : A) : table.update t a i j = table i j := if_neg h

theorem update_congr {table table' : JointTable A} {i : Fin 5} {j : Fin 4} {t : JointId} {a a' : A}
    (h : table i j = table' i j) (ha : (i,j) = t → a = a') :
    table.update t a i j = table'.update t a' i j := by
  by_cases heq : (i,j) = t
  · rw [update, update, if_pos heq, if_pos heq, ha heq]
  · rw [update_of_ne heq, update_of_ne heq, h]

theorem map_update {B : Type} (f : A → B) (table : JointTable A) (t : JointId) (a : A) :
    (fun i j => f (table.update t a i j)) = update (fun i j => f (table i j)) t (f a) := by
  funext i j
  exact apply_ite f ((i,j) = t) a (table i j)

theorem foldl_update (f : JointId → A → A) {ts : List JointId} (hts : ts.Nodup)
    (table : JointTable A) (i : Fin 5) (j : Fin 4) :
    ts.foldl (fun table t => table.update t (f t (table t.1 t.2))) table i j =
      if (i,j) ∈ ts then f (i,j) (table i j) else table i j := by
  induction ts generalizing table with
  | nil => rfl
  | cons t ts ih =>
    obtain ⟨ht,hts⟩ := List.nodup_cons.mp hts
    rw [List.foldl_cons, ih hts]
    by_cases heq : (i,j) = t
    · subst heq
      rw [if_neg ht, if_pos List.mem_cons_self, update_self]
    · rw [update_of_ne heq]
      simp only [List.mem_cons, heq, false_or]

theorem foldl_joints (f : JointId → A → A) (table : JointTable A) :
    joints.foldl (fun table t => table.update t (f t (table t.1 t.2))) table =
      fun i j => f (i,j) (table i j) := by
  funext i j
  rw [foldl_update f joints_nodup, if_pos (mem_joints (i,j))]

end JointTable

-- The template parameter of the controller, and the unit it keeps for each joint.
structure FilterT (F U K : Type) where
  setup : K → F → F
  reset : F → K → U → U
  input : F → K → U → U
  step : F → U → U × K

structure LowPass (K : Type) where
  cutoffFreq : K
  alpha : K

structure LowPass.Unit (K : Type) where
  inbox : K
  output : K

namespace LowPass

variable {K : Type} [Field K]

namespace Unit

def reset (_context : LowPass K) (initial : K) (_u : Unit K) : Unit K := ⟨initial,initial⟩

def input (_context : LowPass K) (value : K) (u : Unit K) : Unit K := { u with inbox := value }

def step (context : LowPass K) (u : Unit K) : Unit K × K :=
  let x := u.inbox
  let output := context.alpha * x + (1 - context.alpha) * u.output
  ({ u with output := output },output)

end Unit

def calculateAlpha (pi cutoffFreq samplingFreq : K) : K :=
  let dt := 1 / samplingFreq
  let rc := 1 / (2 • pi * cutoffFreq)
  dt / (dt + rc)

def setup (pi samplingFreq : K) (filter : LowPass K) : LowPass K :=
  { filter with alpha := calculateAlpha pi filter.cutoffFreq samplingFreq }

def filterT (pi : K) : FilterT (LowPass K) (Unit K) K where
  setup := setup pi
  reset := Unit.reset
  input := Unit.input
  step := Unit.step

theorem calculateAlpha_range [LinearOrder K] [IsStrictOrderedRing K] {pi cutoffFreq samplingFreq : K}
    (hpi : 0 < pi) (hcutoff : 0 < cutoffFreq) (hsampling : 0 < samplingFreq) :
    0 < calculateAlpha pi cutoffFreq samplingFreq ∧
      calculateAlpha pi cutoffFreq samplingFreq < 1 := by
  have hdt : 0 < 1 / samplingFreq := one_div_pos.mpr hsampling
  have hrc : 0 < 1 / (2 • pi * cutoffFreq) :=
    one_div_pos.mpr (mul_pos (nsmul_pos hpi two_ne_zero) hcutoff)
  exact ⟨Smoothing.share_pos hdt hrc,Smoothing.share_lt_one hdt hrc⟩

end LowPass

structure FilteredController (F U : Type) where
  filter : F
  units : JointTable U

namespace FilteredController

variable {F U K : Type} (T : FilterT F U K)

def resetUnit (initial : JointTable K) (c : FilteredController F U) (t : JointId) :
    FilteredController F U :=
  { c with units := c.units.update t (T.reset c.filter (initial t.1 t.2) (c.units t.1 t.2)) }

def inputUnit (positions : JointTable K) (c : FilteredController F U) (t : JointId) :
    FilteredController F U :=
  { c with units := c.units.update t (T.input c.filter (positions t.1 t.2) (c.units t.1 t.2)) }

-- The result of a step is a local that holds nothing until it is assigned.
def stepUnit (c : FilteredController F U × JointTable (Option K)) (t : JointId) :
    FilteredController F U × JointTable (Option K) :=
  let stepped := T.step c.1.filter (c.1.units t.1 t.2)
  ({ c.1 with units := c.1.units.update t stepped.1 },c.2.update t (some stepped.2))

def create (initial : JointTable K) (filter : F) (memory : JointTable U) :
    FilteredController F U := joints.foldl (resetUnit T initial) ⟨filter,memory⟩

def setup (frequency : K) (c : FilteredController F U) : FilteredController F U :=
  { c with filter := T.setup frequency c.filter }

def step (_actual : Option (JointTable K)) (c : FilteredController F U) :
    FilteredController F U × JointTable (Option K) :=
  joints.foldl (stepUnit T) (c,fun _ _ => none)

def set (positions : JointTable K) (c : FilteredController F U) : FilteredController F U :=
  joints.foldl (inputUnit T positions) c

theorem create_eq (initial : JointTable K) (filter : F) (memory : JointTable U) :
    create T initial filter memory =
      ⟨filter,fun i j => T.reset filter (initial i j) (memory i j)⟩ := by
  have hloop := JointTable.foldl_joints (fun t => T.reset filter (initial t.1 t.2)) memory
  rw [← hloop]
  exact List.foldl_hom (FilteredController.mk filter) fun _ _ => rfl

theorem set_eq (positions : JointTable K) (c : FilteredController F U) :
    c.set T positions =
      { c with units := fun i j => T.input c.filter (positions i j) (c.units i j) } := by
  have hloop := JointTable.foldl_joints (fun t => T.input c.filter (positions t.1 t.2)) c.units
  rw [← hloop]
  exact List.foldl_hom (FilteredController.mk c.filter) fun _ _ => rfl

theorem step_eq (actual : Option (JointTable K)) (c : FilteredController F U) :
    c.step T actual =
      ({ c with units := fun i j => (T.step c.filter (c.units i j)).1 },
        fun i j => some (T.step c.filter (c.units i j)).2) := by
  let visit : JointId → U × Option K → U × Option K := fun _ cell =>
    ((T.step c.filter cell.1).1,some (T.step c.filter cell.1).2)
  let pair : JointTable (U × Option K) → FilteredController F U × JointTable (Option K) :=
    fun table => (⟨c.filter,fun i j => (table i j).1⟩,fun i j => (table i j).2)
  have hvisit (table : JointTable (U × Option K)) (t : JointId) :
      stepUnit T (pair table) t = pair (table.update t (visit t (table t.1 t.2))) := by
    simp only [pair, stepUnit, visit]
    rw [JointTable.map_update Prod.fst, JointTable.map_update Prod.snd]
  have hfold : joints.foldl (stepUnit T) (pair fun i j => (c.units i j,none)) =
      pair (joints.foldl (fun table t => table.update t (visit t (table t.1 t.2)))
        fun i j => (c.units i j,none)) := List.foldl_hom pair hvisit
  rw [JointTable.foldl_joints visit] at hfold
  exact hfold

end FilteredController

end WujiHand

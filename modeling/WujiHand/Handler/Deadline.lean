import WujiHand.Handler.LifeCycle

namespace WujiHand

open Completion

variable {n : Nat} {Fn Ctx : Type}

def timePointMin : Int := -2 ^ 63

-- The clock and the durations count in 64-bit signed integers.
def checkedRep (x : Int) : Option Int :=
  if timePointMin ≤ x ∧ x ≤ timePointMax then some x else none

def saturatedDeadline (now timeout : Int) : Int :=
  if timeout < 0 then timePointMax else min (now + timeout) timePointMax

namespace StorageUnit

-- The right operand of `||` is evaluated for a timeout that is not negative only.
def checkedDeadline (now timeout : Int) : Option Int :=
  if timeout < 0 then some timePointMax
  else do
    let latest ← checkedRep (timePointMax - timeout)
    if now > latest then some timePointMax else checkedRep (now + timeout)

theorem deadline_saturated (now timeout : Int) :
    deadline now timeout = saturatedDeadline now timeout := by
  unfold deadline saturatedDeadline
  split_ifs with h hneg hneg
  · rfl
  · omega
  · omega
  · omega

theorem checkedRep_of_bounds {x : Int} (hmin : timePointMin ≤ x) (hmax : x ≤ timePointMax) :
    checkedRep x = some x := if_pos ⟨hmin,hmax⟩

theorem checkedDeadline_eq (now timeout : BitVec 64) :
    checkedDeadline now.toInt timeout.toInt = some (deadline now.toInt timeout.toInt) := by
  have hnow : -2 ^ 63 ≤ now.toInt := BitVec.le_toInt now
  have htimeout : timeout.toInt < 2 ^ 63 := BitVec.toInt_lt
  unfold checkedDeadline deadline
  by_cases hneg : timeout.toInt < 0
  · rw [if_pos hneg, if_pos (.inl hneg)]
  · have hlatest : checkedRep (timePointMax - timeout.toInt) =
        some (timePointMax - timeout.toInt) :=
      checkedRep_of_bounds (by simp only [timePointMin, timePointMax]; omega) (by omega)
    rw [if_neg hneg, hlatest, Option.bind_eq_bind, Option.bind_some]
    by_cases hlate : now.toInt > timePointMax - timeout.toInt
    · rw [if_pos hlate, if_pos (.inr hlate)]
    · rw [if_neg hlate, if_neg (not_or.mpr ⟨hneg,hlate⟩)]
      exact checkedRep_of_bounds (by simp only [timePointMin]; omega) (by omega)

structure Counting (d : Int) (u₀ u : StorageUnit Fn Ctx) : Prop where
  same : SameOperation u₀ u
  info : u.info = u₀.info
  busy : u.Busy
  started : u.operation.state ≠ .waiting
  unfinished : u.operation.state ≠ .success
  point : u.timeoutPoint = d

theorem Counting.visit_cases {d : Int} {u₀ u : StorageUnit Fn Ctx} (h : Counting d u₀ u)
    (hm : ¬u₀.Masked) (now : Int) :
    (d ≤ now ∧ (u.tickVisit now).unit.operation.mode = .none ∧
        (u.tickVisit now).invoked = u₀.invoke false) ∨
      (now < d ∧ Counting d u₀ (u.tickVisit now).unit ∧ (u.tickVisit now).invoked = []) := by
  have hs := u.visit_step now
  have hmask : ¬u.Masked := by rwa [Masked, h.info]
  generalize u.tickVisit now = v at hs
  cases hs with
  | idle hidle => exact absurd h.busy hidle
  | completed _ hsuccess => exact (hsuccess.elim hmask h.unfinished).elim
  | completedLate _ hsuccess => exact (hsuccess.elim hmask h.unfinished).elim
  | started _ _ hwait => exact absurd hwait h.started
  | expired _ _ _ _ hdue =>
    refine .inl ⟨h.point ▸ hdue,rfl,?_⟩
    simp only [invoke, h.same.2.1, h.same.2.2]
  | polled _ _ _ hearly => exact .inr ⟨h.point ▸ hearly,h,rfl⟩
  | transmitted _ _ _ hearly =>
    exact .inr ⟨h.point ▸ hearly,⟨h.same,h.info,h.busy,by simp,by simp,h.point⟩,rfl⟩

theorem Counting.visit_early {d now : Int} {u₀ u : StorageUnit Fn Ctx} (h : Counting d u₀ u)
    (hm : ¬u₀.Masked) (hlt : now < d) :
    Counting d u₀ (u.tickVisit now).unit ∧ (u.tickVisit now).invoked = [] := by
  rcases h.visit_cases hm now with ⟨hdue,_⟩ | ⟨_,hvisit⟩
  · omega
  · exact hvisit

theorem Counting.visit_due {d now : Int} {u₀ u : StorageUnit Fn Ctx} (h : Counting d u₀ u)
    (hm : ¬u₀.Masked) (hle : d ≤ now) :
    (u.tickVisit now).unit.operation.mode = .none ∧ (u.tickVisit now).invoked = u₀.invoke false := by
  rcases h.visit_cases hm now with ⟨_,hvisit⟩ | ⟨hearly,_⟩
  · exact hvisit
  · omega

end StorageUnit

namespace Handler

variable {codec : PositionCodec} {h : Handler n Fn Ctx} {id : Fin n}

theorem counting_step (o : Occurrence n Fn Ctx) {d : Int} {u₀ : StorageUnit Fn Ctx}
    (hc : StorageUnit.Counting d u₀ (h.storage id)) (hm : ¬u₀.Masked)
    (ho : ∀ now, o = .visit id now → now < d)
    (hs : ((h.occur codec o).storage id).operation.state ≠ .success) :
    StorageUnit.Counting d u₀ ((h.occur codec o).storage id) := by
  have hstep := h.unit_occurrence codec o id
  generalize (h.occur codec o).storage id = u at hstep hs
  cases hstep with
  | untouched => exact hc
  | called caller op hu =>
    have hcall := StorageUnit.call_step codec op (h.storage id)
    rw [hu] at hcall
    cases hcall with
    | accepted _ hidle => exact absurd hc.busy hidle
    | ignored => exact hc
    | replaced => exact ⟨hc.same,hc.info,hc.busy,hc.started,hc.unfinished,hc.point⟩
  | visited now => exact (hc.visit_early hm (ho now rfl)).1
  | @readSuccess size _ _ value fill =>
    have hread := (h.storage id).readSuccess_step size value fill
    generalize (h.storage id).readSuccess size value fill = u at hread hs
    cases hread with
    | ignored => exact hc
    | refreshed => exact absurd rfl hs
    | confirmed => exact absurd rfl hs
    | mismatched => exact ⟨hc.same,hc.info,hc.busy,nofun,nofun,hc.point⟩
  | writeSuccess =>
    have hwrite := (h.storage id).writeSuccess_step
    generalize (h.storage id).writeSuccess = u at hwrite hs
    cases hwrite with
    | ignored => exact hc
    | acknowledged => exact absurd rfl hs

theorem counting_run {os : List (Occurrence n Fn Ctx)} {d : Int} {u₀ : StorageUnit Fn Ctx}
    (hc : StorageUnit.Counting d u₀ (h.storage id)) (hm : ¬u₀.Masked)
    (ho : ∀ now, .visit id now ∈ os → now < d)
    (hs : Runs.Throughout (occur codec) (fun h => (h.storage id).operation.state ≠ .success) h os) :
    StorageUnit.Counting d u₀ ((Runs.run (occur codec) h os).storage id) := by
  induction os generalizing h with
  | nil => exact hc
  | cons o os ih =>
    have hstate := Runs.throughout_first hs.2
    refine ih (counting_step o hc hm ?_ hstate) (fun now hmem => ho now (.tail _ hmem)) hs.2
    rintro now rfl
    exact ho now (.head _)

structure Waiting (u₀ u : StorageUnit Fn Ctx) : Prop where
  same : SameOperation u₀ u
  info : u.info = u₀.info
  operation : u.operation.state = .waiting
  timeout : u.timeout = u₀.timeout

theorem waiting_step (o : Occurrence n Fn Ctx) {u₀ : StorageUnit Fn Ctx} (hb : u₀.Busy)
    (hw : Waiting u₀ (h.storage id)) (ho : ∀ now, o ≠ .visit id now) :
    Waiting u₀ ((h.occur codec o).storage id) := by
  have hbusy : (h.storage id).Busy := hw.same.busy.mpr hb
  have hstep := h.unit_occurrence codec o id
  have hinert (r : SdoResult) (fill : Buffer8) := record_inert codec r fill (.inr (.inl hw.operation))
  cases o with
  | record r fill =>
    rw [hinert r fill]
    exact hw
  | call c =>
    generalize (h.occur codec (.call c)).storage id = u at hstep
    cases hstep with
    | untouched => exact hw
    | called caller op hu =>
      have hcall := StorageUnit.call_step codec op (h.storage id)
      rw [hu] at hcall
      cases hcall with
      | accepted _ hidle => exact absurd hbusy hidle
      | ignored => exact hw
      | replaced => exact ⟨hw.same,hw.info,hw.operation,hw.timeout⟩
  | visit id' now =>
    generalize (h.occur codec (.visit id' now)).storage id = u at hstep
    cases hstep with
    | untouched => exact hw
    | visited => exact absurd rfl (ho now)
  | commandResult r =>
    generalize (h.occur codec (.commandResult r)).storage id = u at hstep
    cases hstep with
    | untouched => exact hw
  | disableThreadSafeCheck => exact hw

theorem waiting_run (codec : PositionCodec) {os : List (Occurrence n Fn Ctx)}
    {u₀ : StorageUnit Fn Ctx} (hb : u₀.Busy) (hw : Waiting u₀ (h.storage id))
    (ho : ∀ now, .visit id now ∉ os) :
    Waiting u₀ ((Runs.run (occur codec) h os).storage id) := by
  induction os generalizing h with
  | nil => exact hw
  | cons o os ih =>
    refine ih (waiting_step o hb hw ?_) (fun now hmem => ho now (.tail _ hmem))
    rintro now rfl
    exact ho now (.head _)

theorem counting_started (now : Int) {u₀ u : StorageUnit Fn Ctx} (hb : u₀.Busy) (hm : ¬u₀.Masked)
    (hw : Waiting u₀ u) :
    StorageUnit.Counting (StorageUnit.deadline now u₀.timeout) u₀ (u.tickVisit now).unit := by
  have hs := u.visit_step now
  have hbusy : u.Busy := hw.same.busy.mpr hb
  have hmask : ¬u.Masked := by rwa [StorageUnit.Masked, hw.info]
  have hstate {s : State} (hne : s ≠ .waiting) : u.operation.state ≠ s :=
    fun h => hne (h.symm.trans hw.operation)
  generalize u.tickVisit now = v at hs
  cases hs with
  | idle hidle => exact absurd hbusy hidle
  | completed _ hsuccess => exact (hsuccess.elim hmask (hstate (by decide))).elim
  | completedLate _ hsuccess => exact (hsuccess.elim hmask (hstate (by decide))).elim
  | started =>
    rw [← hw.timeout]
    refine ⟨hw.same,hw.info,hbusy,?_,?_,rfl⟩
    · dsimp only
      split <;> exact nofun
    · dsimp only
      split <;> exact nofun
  | expired _ _ hnot => exact absurd hw.operation hnot
  | polled _ _ hread => exact (hread.elim (hstate (by decide)) (hstate (by decide))).elim
  | transmitted _ _ hwrite => exact absurd hwrite (hstate (by decide))

structure Outstanding (codec : PositionCodec) (h : Handler n Fn Ctx) (c : Call n Fn Ctx)
    (before : List (Occurrence n Fn Ctx)) (now₀ timeout : BitVec 64)
    (after : List (Occurrence n Fn Ctx)) : Prop where
  unmasked : ¬(h.storage c.id).Masked
  permitted : h.operationThreadCheck c.caller = true
  idle : ¬(h.storage c.id).Busy
  lasts : c.op.timeout = timeout.toInt
  unvisited : ∀ now, .visit c.id now ∉ before
  early : ∀ now, .visit c.id now ∈ after → now < saturatedDeadline now₀.toInt timeout.toInt
  unanswered : Runs.Throughout (occur codec)
    (fun h => (h.storage c.id).operation.state ≠ .success)
    (Runs.run (occur codec) h (.call c :: before ++ [.visit c.id now₀.toInt])) after

def outstandingRun (codec : PositionCodec) (h : Handler n Fn Ctx) (c : Call n Fn Ctx)
    (before : List (Occurrence n Fn Ctx)) (now₀ : BitVec 64) (after : List (Occurrence n Fn Ctx)) :
    Handler n Fn Ctx :=
  Runs.run (occur codec) h (.call c :: before ++ .visit c.id now₀.toInt :: after)

theorem outstanding_counting {c : Call n Fn Ctx} {before after : List (Occurrence n Fn Ctx)}
    {now₀ timeout : BitVec 64} (ho : h.Outstanding codec c before now₀ timeout after) :
    StorageUnit.Counting (saturatedDeadline now₀.toInt timeout.toInt)
      ((h.storage c.id).accept codec c.op)
      ((outstandingRun codec h c before now₀ after).storage c.id) := by
  have hmode := c.op.mode_ne_none
  have hb : ((h.storage c.id).accept codec c.op).Busy := hmode
  have hm : ¬((h.storage c.id).accept codec c.op).Masked := ho.unmasked
  have hcall : h.occur codec (.call c) =
      h.setUnit c.id ((h.storage c.id).accept codec c.op) := by
    simp only [occur, step, call_accepted codec ho.permitted ho.idle]
  have haccepted : Waiting ((h.storage c.id).accept codec c.op)
      ((h.occur codec (.call c)).storage c.id) := by
    rw [hcall, setUnit_storage_self]
    exact ⟨⟨rfl,rfl,rfl⟩,rfl,rfl,rfl⟩
  have hwaiting := waiting_run codec hb haccepted ho.unvisited
  have hstarted := counting_started now₀.toInt hb hm hwaiting
  have hdeadline : StorageUnit.deadline now₀.toInt ((h.storage c.id).accept codec c.op).timeout =
      saturatedDeadline now₀.toInt timeout.toInt := by
    rw [StorageUnit.deadline_saturated]
    exact congrArg _ ho.lasts
  rw [hdeadline] at hstarted
  have hunanswered := ho.unanswered
  rw [List.cons_append, Runs.run_cons, Runs.run_append, Runs.run_cons, Runs.run_nil] at hunanswered
  rw [outstandingRun, List.cons_append, Runs.run_cons, Runs.run_append, Runs.run_cons]
  refine counting_run ?_ hm ho.early hunanswered
  simp only [occur, step, afterVisit, setUnit_storage_self]
  exact hstarted

theorem deadline_exact {c : Call n Fn Ctx} {before after : List (Occurrence n Fn Ctx)}
    {now₀ timeout : BitVec 64} (ho : h.Outstanding codec c before now₀ timeout after) :
    StorageUnit.checkedDeadline now₀.toInt timeout.toInt =
        some (saturatedDeadline now₀.toInt timeout.toInt) ∧
      ∀ now,
        (saturatedDeadline now₀.toInt timeout.toInt ≤ now →
          ((outstandingRun codec h c before now₀ after).visit c.id now).unit.operation.mode = .none ∧
            ((outstandingRun codec h c before now₀ after).visit c.id now).invoked =
              ((h.storage c.id).accept codec c.op).invoke false) ∧
        (now < saturatedDeadline now₀.toInt timeout.toInt →
          ((outstandingRun codec h c before now₀ after).visit c.id now).unit.Busy ∧
            ((outstandingRun codec h c before now₀ after).visit c.id now).invoked = []) := by
  have hm : ¬((h.storage c.id).accept codec c.op).Masked := ho.unmasked
  have hc := outstanding_counting ho
  refine ⟨?_,fun now => ⟨hc.visit_due hm,?_⟩⟩
  · rw [StorageUnit.checkedDeadline_eq, StorageUnit.deadline_saturated]
  · intro hlt
    obtain ⟨hcounting,hinvoked⟩ := hc.visit_early hm hlt
    exact ⟨hcounting.busy,hinvoked⟩

section Retry

open FreshHandler (only)

def retryHandler : Handler 1 Nat Nat := FreshHandler.singleHandler (.make 1 0x40 1 0) 0

-- A read-back that differs sends the write back to WRITING; the deadline stays 10.
def retry : List (Occurrence 1 Nat Nat) :=
  [.visit only 5,.record (.readSuccess .one 0x40 1 9) 0,.visit only 7,
    .record (.readSuccess .one 0x40 1 9) 0]

theorem retry_outstanding :
    retryHandler.Outstanding .raw ⟨0,0,.writeAsync 1 0 10 (some 1) 2⟩ [] 0 10 retry where
  unmasked := by decide
  permitted := rfl
  idle := by decide
  lasts := rfl
  unvisited := nofun
  early := by
    intro now hmem
    simp only [retry, List.mem_cons, Occurrence.visit.injEq, reduceCtorEq, false_or,
      List.not_mem_nil, or_false] at hmem
    rcases hmem with ⟨_,rfl⟩ | ⟨_,rfl⟩
    · decide
    · decide
  unanswered := by decide

theorem retry_expires_at_ten :
    ((outstandingRun .raw retryHandler ⟨0,0,.writeAsync 1 0 10 (some 1) 2⟩ [] 0 retry).visit 0
      10).invoked = [⟨1,2,false⟩] :=
  (((deadline_exact retry_outstanding).2 10).1 (by decide)).2

end Retry

end Handler

end WujiHand

import WujiHand.Handler.LifeCycle

namespace WujiHand.Handler

variable {n : Nat} {Fn Ctx : Type} {codec : PositionCodec}

def Stores (codec : PositionCodec) (id : Fin n) (h : Handler n Fn Ctx) :
    Occurrence n Fn Ctx → Prop
  | .call c => c.id = id ∧ c.op.mode = .write ∧ ∃ h', h.call codec c = .ok h'
  | .record (.readSuccess _ index subIndex _) _ =>
    h.findStorageByIndex index subIndex = some id ∧ (h.storage id).Busy ∧
      (h.storage id).operation.state = .reading
  | _ => False

def answer (index : BitVec 16) (subIndex : BitVec 8) (size : Size) (raw : BitVec size.bits)
    (fill : Buffer8) : Occurrence n Fn Ctx :=
  .record (.readSuccess size index subIndex raw) fill

def LastRead (codec : PositionCodec) (h : Handler n Fn Ctx) (index : BitVec 16)
    (subIndex : BitVec 8) (size : Size) (raw : BitVec size.bits)
    (os : List (Occurrence n Fn Ctx)) : Prop :=
  ∃ id before fill after, os = before ++ answer index subIndex size raw fill :: after ∧
    Stores codec id (Runs.run (occur codec) h before) (answer index subIndex size raw fill) ∧
    Runs.Along (occur codec) (fun h' o => ¬Stores codec id h' o)
      (Runs.run (occur codec) h (before ++ [answer index subIndex size raw fill])) after

theorem occur_sameLayout {h₀ h : Handler n Fn Ctx} (o : Occurrence n Fn Ctx)
    (hs : h₀.SameLayout h) : h₀.SameLayout (h.occur codec o) := by
  cases o with
  | call c => exact step_sameLayout codec (.call c) hs
  | visit id now => exact step_sameLayout codec (.visit id now) hs
  | record r fill =>
    have hstep := h.record_step fill r
    simp only [occur]
    generalize h.record fill r = h' at hstep ⊢
    cases hstep with
    | untouched => exact hs
    | readSuccess value hf => exact sameLayout_setUnit hs (unit_info codec (.readSuccess _ value fill))
    | writeSuccess hf => exact sameLayout_setUnit hs (unit_info codec .writeSuccess)
  | commandResult r =>
    simp only [occur]
    split
    · exact hs
    · exact hs
  | disableThreadSafeCheck => exact hs

theorem occurs_sameLayout (codec : PositionCodec) (h : Handler n Fn Ctx) (os : List (Occurrence n Fn Ctx)) :
    h.SameLayout (Runs.run (occur codec) h os) :=
  Runs.run_invariant (fun _ o hs => occur_sameLayout o hs) ⟨rfl,fun _ => rfl⟩

theorem occurs_find (codec : PositionCodec) (h : Handler n Fn Ctx)
    (os : List (Occurrence n Fn Ctx)) (index : BitVec 16) (subIndex : BitVec 8) :
    (Runs.run (occur codec) h os).findStorageByIndex index subIndex =
      h.findStorageByIndex index subIndex := by
  rw [findStorageByIndex, (occurs_sameLayout codec h os).1, findStorageByIndex]

theorem call_value {h h' : Handler n Fn Ctx} {c : Call n Fn Ctx} (hc : h.call codec c = .ok h')
    {id : Fin n} (hmode : c.id = id → c.op.mode ≠ .write) :
    (h'.storage id).value = (h.storage id).value := by
  obtain ⟨_,u,hu,rfl⟩ := call_ok hc
  obtain ⟨caller,id',op⟩ := c
  by_cases heq : id = id'
  · subst heq
    have hs := StorageUnit.call_step codec op (h.storage id)
    rw [hu] at hs
    rw [setUnit_storage_self]
    have hread := hmode rfl
    cases hs with
    | accepted op hidle =>
      cases op with
      | readAsyncUnchecked timeout => rfl
      | readAsync timeout callback context => rfl
      | writeAsyncUnchecked data fill timeout => exact absurd rfl hread
      | writeAsync data fill timeout callback context => exact absurd rfl hread
    | ignored => rfl
    | replaced => exact absurd rfl hread
  · rw [setUnit_storage_of_ne h u heq]

theorem occur_value {h : Handler n Fn Ctx} {o : Occurrence n Fn Ctx} {id : Fin n}
    (hstores : ¬Stores codec id h o) :
    ((h.occur codec o).storage id).value = (h.storage id).value := by
  cases o with
  | call c =>
    simp only [occur, step]
    cases hc : h.call codec c with
    | error e => rfl
    | ok h' => exact call_value hc fun hid hmode => hstores ⟨hid,hmode,h',hc⟩
  | visit id' now =>
    by_cases heq : id = id'
    · subst heq
      simp only [occur, step, afterVisit, setUnit_storage_self]
      exact StorageUnit.visit_value now _
    · simp only [occur, step, afterVisit, setUnit_storage_of_ne h _ heq]
  | record r fill =>
    have hs := h.record_step fill r
    simp only [occur]
    generalize h.record fill r = h' at hs ⊢
    cases hs with
    | untouched => rfl
    | @readSuccess size index subIndex value id' hf =>
      by_cases heq : id = id'
      · subst heq
        rw [setUnit_storage_self]
        have hu := (h.storage id).readSuccess_step size value fill
        generalize (h.storage id).readSuccess size value fill = u at hu ⊢
        cases hu with
        | ignored => rfl
        | refreshed hb hr => exact absurd ⟨hf,hb,hr⟩ hstores
        | confirmed => rfl
        | mismatched => rfl
      · rw [setUnit_storage_of_ne h _ heq]
    | @writeSuccess index subIndex id' hf =>
      by_cases heq : id = id'
      · subst heq
        rw [setUnit_storage_self, StorageUnit.writeSuccess_value]
      · rw [setUnit_storage_of_ne h _ heq]
  | commandResult r =>
    simp only [occur]
    split
    · rfl
    · rfl
  | disableThreadSafeCheck => rfl

theorem occurs_value {h : Handler n Fn Ctx} {os : List (Occurrence n Fn Ctx)} {id : Fin n}
    (hstores : Runs.Along (occur codec) (fun h' o => ¬Stores codec id h' o) h os) :
    ((Runs.run (occur codec) h os).storage id).value = (h.storage id).value := by
  induction os generalizing h with
  | nil => rfl
  | cons o os ih => exact (ih hstores.2).trans (occur_value hstores.1)

section Answers

variable {h : Handler n Fn Ctx} {index : BitVec 16} {subIndex : BitVec 8} {size : Size}
  {raw : BitVec size.bits} {id : Fin n}

theorem occur_answer (fill : Buffer8) (hfind : h.findStorageByIndex index subIndex = some id) :
    h.occur codec (answer index subIndex size raw fill) =
      h.setUnit id ((h.storage id).readSuccess size raw fill) := by
  simp only [answer, occur, record, applyResult, hfind]

theorem answer_value {fill : Buffer8}
    (hstores : Stores codec id h (answer index subIndex size raw fill)) :
    ((h.occur codec (answer index subIndex size raw fill)).storage id).value =
      Buffer8.of fill raw := by
  obtain ⟨hfind,hbusy,hreading⟩ := hstores
  rw [occur_answer fill hfind, setUnit_storage_self, StorageUnit.readSuccess, if_neg hbusy,
    if_pos hreading]

theorem LastRead.value {os : List (Occurrence n Fn Ctx)}
    (hread : LastRead codec h index subIndex size raw os)
    (hid : h.findStorageByIndex index subIndex = some id) :
    ∃ fill, ((Runs.run (occur codec) h os).storage id).value = Buffer8.of fill raw := by
  obtain ⟨id',before,fill,after,rfl,hstores,hafter⟩ := hread
  have hfound := hstores.1
  rw [occurs_find, hid] at hfound
  obtain rfl := Option.some.inj hfound
  refine ⟨fill,?_⟩
  rw [Runs.run_append, Runs.run_cons, Runs.run_nil] at hafter
  rw [Runs.run_append, Runs.run_cons, occurs_value hafter]
  exact answer_value hstores

end Answers

section Sequential

structure Reading (n : Nat) where
  id : Fin n
  index : BitVec 16
  subIndex : BitVec 8
  size : Size
  raw : BitVec size.bits

variable {h : Handler n Fn Ctx} {caller : Nat}

def Reading.starts (caller : Nat) (r : Reading n) : List (Occurrence n Fn Ctx) :=
  [.call ⟨caller,r.id,.readAsyncUnchecked 1⟩,.visit r.id 0]

def Reading.answer (r : Reading n) : Occurrence n Fn Ctx :=
  Handler.answer r.index r.subIndex r.size r.raw 0

def Reading.occurrences (caller : Nat) (r : Reading n) : List (Occurrence n Fn Ctx) :=
  r.starts caller ++ r.answer :: [.visit r.id 0]

structure Reading.Ready (h : Handler n Fn Ctx) (r : Reading n) : Prop where
  idle : ¬(h.storage r.id).Busy
  unmasked : ¬(h.storage r.id).Masked
  finds : h.findStorageByIndex r.index r.subIndex = some r.id

theorem starts_reading (codec : PositionCodec) {r : Reading n}
    (hcaller : h.operationThreadCheck caller = true) (hready : r.Ready h) :
    ∃ u : StorageUnit Fn Ctx, Runs.run (occur codec) h (r.starts caller) = h.setUnit r.id u ∧
      u.operation = ⟨.read,.reading⟩ ∧ u.timeout = 1 ∧ ¬u.Masked := by
  have hm : (h.storage r.id).info.has StorageInfo.masked = false :=
    Bool.eq_false_iff.mpr hready.unmasked
  refine ⟨(((h.storage r.id).readAsyncUnchecked 1).tickVisit 0).unit,?_,?_⟩
  · simp only [Reading.starts, Runs.run_cons, Runs.run_nil, occur, step, call, if_pos hcaller,
      StorageUnit.call, Except.map, afterVisit, visit, setUnit_storage_self, setUnit_setUnit]
  · simp [StorageUnit.readAsyncUnchecked, hready.idle, StorageUnit.tickVisit,
      StorageUnit.visitSuccess, StorageUnit.visitRest, StorageUnit.Masked, StorageInfo.Masked, hm,
      StorageUnit.deadline, timePointMax]

theorem reading_completes (codec : PositionCodec) {r : Reading n}
    (hcaller : h.operationThreadCheck caller = true) (hready : r.Ready h) :
    ∃ u : StorageUnit Fn Ctx,
      Runs.run (occur codec) h (r.occurrences caller) = h.setUnit r.id u ∧ ¬u.Busy := by
  obtain ⟨u,hrun,hoperation,htimeout,hm⟩ := starts_reading codec hcaller hready
  refine ⟨((u.readSuccess r.size r.raw 0).tickVisit 0).unit,?_,?_⟩
  · have hfinds : (h.setUnit r.id u).findStorageByIndex r.index r.subIndex = some r.id :=
      hready.finds
    have hvisit (h' : Handler n Fn Ctx) : h'.occur codec (.visit r.id 0) = h'.afterVisit r.id 0 :=
      rfl
    rw [Reading.occurrences, Runs.run_append, hrun, Runs.run_cons, Runs.run_cons, Runs.run_nil,
      Reading.answer, occur_answer 0 hfinds, hvisit, afterVisit, visit, setUnit_storage_self,
      setUnit_storage_self, setUnit_setUnit, setUnit_setUnit]
  · rw [StorageUnit.readSuccess_refreshed r.raw 0 hoperation]
    exact not_not.mpr (StorageUnit.visit_ends 0 (fun hmode => Mode.noConfusion hmode) rfl)

theorem reading_spares {r : Reading n} {id : Fin n}
    (hfinds : h.findStorageByIndex r.index r.subIndex = some r.id) (hne : r.id ≠ id) :
    Runs.Along (occur codec) (fun h' o => ¬Stores codec id h' o) h (r.occurrences caller) := by
  refine ⟨fun hs => hne hs.1,fun hs => hs,?_,fun hs => hs,trivial⟩
  rintro ⟨hid,_⟩
  have hsame := occurs_find codec h (r.starts caller) r.index r.subIndex
  exact hne (Option.some.inj (hfinds.symm.trans (hsame.symm.trans hid)))

theorem readings_spare {rs : List (Reading n)} {id : Fin n}
    (hfinds : ∀ r ∈ rs, h.findStorageByIndex r.index r.subIndex = some r.id)
    (hne : ∀ r ∈ rs, r.id ≠ id) :
    Runs.Along (occur codec) (fun h' o => ¬Stores codec id h' o) h
      (rs.flatMap (Reading.occurrences caller)) := by
  induction rs generalizing h with
  | nil => trivial
  | cons r rs ih =>
    obtain ⟨hfind,hfinds⟩ := List.forall_mem_cons.mp hfinds
    obtain ⟨hfirst,hne⟩ := List.forall_mem_cons.mp hne
    rw [List.flatMap_cons]
    refine Runs.along_append.mpr ⟨reading_spares hfind hfirst,ih (fun r' hr' => ?_) hne⟩
    rw [occurs_find]
    exact hfinds r' hr'

theorem reading_lastRead {r : Reading n} (hcaller : h.operationThreadCheck caller = true)
    (hready : r.Ready h) {os : List (Occurrence n Fn Ctx)}
    (hos : Runs.Along (occur codec) (fun h' o => ¬Stores codec r.id h' o)
      (Runs.run (occur codec) h (r.occurrences caller)) os) :
    LastRead codec h r.index r.subIndex r.size r.raw (r.occurrences caller ++ os) := by
  obtain ⟨u,hrun,hoperation,_⟩ := starts_reading codec hcaller hready
  refine ⟨r.id,r.starts caller,0,.visit r.id 0 :: os,?_,⟨?_,?_,?_⟩,fun hs => hs,?_⟩
  · rw [Reading.occurrences, List.append_assoc]
    rfl
  · rw [occurs_find]
    exact hready.finds
  · rw [hrun, setUnit_storage_self, StorageUnit.Busy, hoperation]
    exact nofun
  · rw [hrun, setUnit_storage_self, hoperation]
  · rw [Reading.occurrences, Runs.run_append, Runs.run_cons] at hos
    rw [Runs.run_append]
    exact hos

theorem LastRead.prepend {index : BitVec 16} {subIndex : BitVec 8} {size : Size}
    {raw : BitVec size.bits} {os os' : List (Occurrence n Fn Ctx)}
    (hread : LastRead codec (Runs.run (occur codec) h os) index subIndex size raw os') :
    LastRead codec h index subIndex size raw (os ++ os') := by
  obtain ⟨id,before,fill,after,rfl,hstores,hafter⟩ := hread
  refine ⟨id,os ++ before,fill,after,(List.append_assoc ..).symm,?_,?_⟩
  · rw [Runs.run_append]
    exact hstores
  · rw [List.append_assoc, Runs.run_append]
    exact hafter

theorem readings_last (codec : PositionCodec) {rs : List (Reading n)}
    (hcaller : h.operationThreadCheck caller = true) (hids : (rs.map Reading.id).Nodup)
    (hready : ∀ r ∈ rs, r.Ready h) :
    (∀ r ∈ rs, LastRead codec h r.index r.subIndex r.size r.raw
        (rs.flatMap (Reading.occurrences caller)) ∧
      ¬((Runs.run (occur codec) h (rs.flatMap (Reading.occurrences caller))).storage r.id).Busy) ∧
      ∀ id ∉ rs.map Reading.id,
        (Runs.run (occur codec) h (rs.flatMap (Reading.occurrences caller))).storage id =
          h.storage id := by
  induction rs generalizing h with
  | nil => exact ⟨nofun,fun _ _ => rfl⟩
  | cons first rs ih =>
    obtain ⟨hfirst,hids⟩ := List.nodup_cons.mp hids
    obtain ⟨hready₁,hready⟩ := List.forall_mem_cons.mp hready
    obtain ⟨u,hrun,hidle⟩ := reading_completes codec hcaller hready₁
    have hne : ∀ r ∈ rs, r.id ≠ first.id := by
      intro r hr heq
      exact hfirst (heq ▸ List.mem_map_of_mem hr)
    have hready' : ∀ r ∈ rs, r.Ready (h.setUnit first.id u) := by
      intro r hr
      have hsame := h.setUnit_storage_of_ne u (hne r hr)
      obtain ⟨hr₁,hr₂,hr₃⟩ := hready r hr
      exact ⟨hsame ▸ hr₁,hsame ▸ hr₂,hr₃⟩
    have hspared : Runs.Along (occur codec) (fun h' o => ¬Stores codec first.id h' o)
        (h.setUnit first.id u) (rs.flatMap (Reading.occurrences caller)) :=
      readings_spare (fun r hr => (hready' r hr).finds) hne
    obtain ⟨hlast,hother⟩ := ih (h := h.setUnit first.id u) hcaller hids hready'
    rw [List.flatMap_cons, Runs.run_append, hrun]
    refine ⟨List.forall_mem_cons.mpr ⟨⟨?_,?_⟩,fun r hr => ⟨?_,(hlast r hr).2⟩⟩,fun id hid => ?_⟩
    · exact reading_lastRead hcaller hready₁ (hrun.symm ▸ hspared)
    · rw [hother first.id hfirst, setUnit_storage_self]
      exact hidle
    · exact LastRead.prepend (hrun.symm ▸ (hlast r hr).1)
    · obtain ⟨hid₁,hid⟩ := not_or.mp (mt List.mem_cons.mpr hid)
      rw [hother id hid, setUnit_storage_of_ne h u hid₁]

end Sequential

end WujiHand.Handler

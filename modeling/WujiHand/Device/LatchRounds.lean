import WujiHand.Device.Latch

namespace WujiHand

structure LatchWords where
  waitingCount : BitVec 32 := 0
  errorCount : BitVec 32 := 0
deriving DecidableEq, Repr

inductive OperationPc where
  | running
  | countDown (pc : CountDownPc)
  | finished
deriving DecidableEq

def OperationPc.undecremented : OperationPc → Bool
  | .running | .countDown .addError | .countDown .subtract => true
  | .countDown .notify | .finished => false

def OperationPc.unrecorded : OperationPc → Bool
  | .countDown .addError => true
  | _ => false

inductive TryWaitPc where
  | counting
  | countedUp
  | load
  | blocked (current : BitVec 32)
  | exchange
  | returning (errorCount : BitVec 32)
deriving DecidableEq

def TryWaitPc.raised : TryWaitPc → Nat
  | .countedUp => 1
  | _ => 0

def TryWaitPc.taken : TryWaitPc → BitVec 32
  | .returning errorCount => errorCount
  | _ => 0

def TryWaitPc.passed : TryWaitPc → Prop
  | .exchange | .returning _ => True
  | _ => False

structure WaitReport where
  failures : Nat
  errorCount : Int
  outcome : Except String Unit

def WaitReport.Exact (r : WaitReport) : Prop :=
  r.errorCount = r.failures ∧ r.outcome = waitOutcome r.failures

-- Every operation ever started, and the calls of count_down(false) since the last wait returned.
structure LatchRounds where
  words : LatchWords := {}
  owner : TryWaitPc := .counting
  operations : List OperationPc := []
  failures : Nat := 0
  reports : List WaitReport := []

inductive RoundEvent where
  | countUp
  | wait
  | owner
  | finish (i : Nat) (success : Bool)
  | countDown (i : Nat)

namespace LatchRounds

def outstanding (s : LatchRounds) : Nat :=
  s.operations.countP OperationPc.undecremented + s.owner.raised

def unrecorded (s : LatchRounds) : Nat := s.operations.countP OperationPc.unrecorded

def ownerStep (s : LatchRounds) : LatchRounds :=
  match s.owner with
  | .counting => s
  | .countedUp => { s with operations := s.operations ++ [.running], owner := .counting }
  | .load =>
    let current := s.words.waitingCount
    if current = 0 then { s with owner := .exchange } else { s with owner := .blocked current }
  -- atomic::wait may return at any moment at which the value is another one.
  | .blocked current => if s.words.waitingCount = current then s else { s with owner := .load }
  | .exchange =>
    { s with
      words := { s.words with errorCount := 0 }, owner := .returning s.words.errorCount }
  | .returning errorCount =>
    { s with
      owner := .counting, failures := 0,
      reports := ⟨s.failures,errorCount.toInt,waitOutcome errorCount.toInt⟩ :: s.reports }

def finishStep (i : Nat) (success : Bool) (s : LatchRounds) : LatchRounds :=
  match s.operations[i]? with
  | some .running =>
    if success then { s with operations := s.operations.set i (.countDown .subtract) }
    else
      { s with
        operations := s.operations.set i (.countDown .addError), failures := s.failures + 1 }
  | _ => s

def countDownStep (i : Nat) (s : LatchRounds) : LatchRounds :=
  match s.operations[i]? with
  | some (.countDown .addError) =>
    { s with
      words := { s.words with errorCount := s.words.errorCount + 1 },
      operations := s.operations.set i (.countDown .subtract) }
  | some (.countDown .subtract) =>
    let old := s.words.waitingCount
    { s with
      words := { s.words with waitingCount := old - 1 },
      operations := s.operations.set i (if old - 1 = 0 then .countDown .notify else .finished) }
  | some (.countDown .notify) => { s with operations := s.operations.set i .finished }
  | _ => s

def step (s : LatchRounds) : RoundEvent → LatchRounds
  | .countUp =>
    match s.owner with
    | .counting =>
      { s with
        words := { s.words with waitingCount := s.words.waitingCount + 1 }, owner := .countedUp }
    | _ => s
  | .wait =>
    match s.owner with
    | .counting => { s with owner := .load }
    | _ => s
  | .owner => s.ownerStep
  | .finish i success => s.finishStep i success
  | .countDown i => s.countDownStep i

def Fits (s : LatchRounds) : Prop := s.outstanding < 2 ^ 31 ∧ s.failures < 2 ^ 31

instance (s : LatchRounds) : Decidable s.Fits :=
  inferInstanceAs (Decidable (s.outstanding < 2 ^ 31 ∧ s.failures < 2 ^ 31))

def WaitsForAll (s : LatchRounds) : Prop :=
  s.owner.passed → ∀ operation ∈ s.operations, operation.undecremented = false

structure Counts (s : LatchRounds) : Prop where
  waiting : s.words.waitingCount = BitVec.ofNat 32 s.outstanding
  errors : s.words.errorCount + BitVec.ofNat 32 s.unrecorded + s.owner.taken =
    BitVec.ofNat 32 s.failures
  passed : s.owner.passed → s.outstanding = 0
  emptied : ∀ e, s.owner = .returning e → s.words.errorCount = 0

theorem counts_start : Counts {} :=
  ⟨rfl,rfl,False.elim,nofun⟩

theorem unrecorded_le_outstanding (s : LatchRounds) : s.unrecorded ≤ s.outstanding := by
  have hle : s.unrecorded ≤ s.operations.countP OperationPc.undecremented := by
    refine List.countP_mono_left fun operation _ h => ?_
    cases operation with
    | running => rfl
    | countDown pc => cases pc <;> first | rfl | simp [OperationPc.unrecorded] at h
    | finished => simp [OperationPc.unrecorded] at h
  exact hle.trans (Nat.le_add_right _ _)

theorem Counts.settled {s : LatchRounds} (h : Counts s) (hpassed : s.owner.passed) :
    s.outstanding = 0 ∧ s.unrecorded = 0 :=
  ⟨h.passed hpassed,Nat.le_zero.mp ((unrecorded_le_outstanding s).trans_eq (h.passed hpassed))⟩

theorem Counts.drained {s : LatchRounds} (h : Counts s) (hfits : s.Fits)
    (hzero : s.words.waitingCount = 0) : s.outstanding = 0 := by
  have hmod := congrArg BitVec.toNat (h.waiting.symm.trans hzero)
  have hlt : s.outstanding < 2 ^ 32 := hfits.1.trans (by norm_num)
  rwa [BitVec.toNat_ofNat, Nat.mod_eq_of_lt hlt] at hmod

theorem Counts.waitsForAll {s : LatchRounds} (h : Counts s) : s.WaitsForAll := by
  intro hpassed operation hmem
  have hzero : s.operations.countP OperationPc.undecremented = 0 :=
    (Nat.add_eq_zero_iff.mp (h.passed hpassed)).1
  simpa using List.countP_eq_zero.mp hzero operation hmem

theorem undecremented_of_outstanding {s : LatchRounds} {i : Nat} {x : OperationPc}
    (hx : s.operations[i]? = some x) (hzero : s.outstanding = 0) : x.undecremented = false := by
  have hnone : s.operations.countP OperationPc.undecremented = 0 :=
    (Nat.add_eq_zero_iff.mp hzero).1
  simpa using List.countP_eq_zero.mp hnone x (List.mem_of_getElem? hx)

section Operation

variable {s s' : LatchRounds} {i : Nat} {x y : OperationPc}

theorem outstanding_set (hx : s.operations[i]? = some x)
    (hoperations : s'.operations = s.operations.set i y) (howner : s'.owner = s.owner) :
    s'.outstanding + x.undecremented.toNat = s.outstanding + y.undecremented.toNat := by
  have hcount := Tally.countP_set hx OperationPc.undecremented y
  simp only [outstanding, hoperations, howner]
  omega

theorem unrecorded_set (hx : s.operations[i]? = some x)
    (hoperations : s'.operations = s.operations.set i y) :
    s'.unrecorded + x.unrecorded.toNat = s.unrecorded + y.unrecorded.toNat := by
  simpa only [unrecorded, hoperations] using Tally.countP_set hx OperationPc.unrecorded y

theorem Counts.operation (h : Counts s) (hx : s.operations[i]? = some x)
    (hoperations : s'.operations = s.operations.set i y) (howner : s'.owner = s.owner)
    (hwaiting : s'.words.waitingCount + BitVec.ofNat 32 x.undecremented.toNat =
      s.words.waitingCount + BitVec.ofNat 32 y.undecremented.toNat)
    (herrors : s'.words.errorCount + BitVec.ofNat 32 (y.unrecorded.toNat + s.failures) =
      s.words.errorCount + BitVec.ofNat 32 (x.unrecorded.toNat + s'.failures))
    (hback : y.undecremented = true → x.undecremented = true)
    (hkeep : x.undecremented = false → s'.words = s.words) : Counts s' := by
  have houtstanding := outstanding_set hx hoperations howner
  have hunrecorded := unrecorded_set hx hoperations
  have hw := congrArg (BitVec.ofNat 32) houtstanding
  have hu := congrArg (BitVec.ofNat 32) hunrecorded
  simp only [BitVec.ofNat_add] at hw hu herrors
  refine ⟨?_,?_,?_,?_⟩
  · rw [h.waiting] at hwaiting
    exact (BitVec.add_left_inj _).mp (hwaiting.trans hw.symm)
  · have herr := h.errors
    rw [howner]
    generalize s.owner.taken = t at herr ⊢
    grind
  · intro hpassed
    rw [howner] at hpassed
    have hzero := h.passed hpassed
    have hxfalse := undecremented_of_outstanding hx hzero
    have hyfalse : y.undecremented = false := by
      by_contra hy
      rw [hback (by simpa using hy)] at hxfalse
      exact absurd hxfalse (by decide)
    rw [hxfalse, hyfalse, hzero] at houtstanding
    exact houtstanding
  · intro e he
    rw [howner] at he
    have hzero := h.passed (by rw [he]; trivial)
    rw [hkeep (undecremented_of_outstanding hx hzero)]
    exact h.emptied e he

end Operation

theorem ownerStep_counts {s : LatchRounds} (h : Counts s) (hfits : s.Fits) :
    Counts s.ownerStep := by
  obtain ⟨hwaiting,herrors,hpassed,hemptied⟩ := id h
  unfold ownerStep
  cases howner : s.owner with
  | counting => exact ⟨hwaiting,herrors,hpassed,hemptied⟩
  | countedUp =>
    simp only [howner, outstanding, TryWaitPc.raised, TryWaitPc.taken] at hwaiting herrors
    refine ⟨?_,?_,False.elim,nofun⟩
    · simpa [outstanding, List.countP_append, OperationPc.undecremented, TryWaitPc.raised]
        using hwaiting
    · simpa [unrecorded, List.countP_append, OperationPc.unrecorded, TryWaitPc.taken]
        using herrors
  | load =>
    have hcount : s.outstanding = s.operations.countP OperationPc.undecremented := by
      simp only [outstanding, howner, TryWaitPc.raised, Nat.add_zero]
    have hdone (owner : TryWaitPc) (hraised : owner.raised = 0) :
        ({ s with owner := owner } : LatchRounds).outstanding = s.outstanding := by
      rw [hcount, outstanding, hraised, Nat.add_zero]
    simp only [howner, TryWaitPc.taken] at herrors
    dsimp only
    split
    case isTrue hzero =>
      have hnone := h.drained hfits hzero
      refine ⟨?_,herrors,fun _ => (hdone .exchange rfl).trans hnone,nofun⟩
      rw [hdone .exchange rfl]
      exact hwaiting
    case isFalse =>
      refine ⟨?_,herrors,False.elim,nofun⟩
      rw [hdone (.blocked _) rfl]
      exact hwaiting
  | blocked current =>
    simp only [howner, outstanding, TryWaitPc.raised, TryWaitPc.taken] at hwaiting herrors
    dsimp only
    split
    · exact ⟨by rw [outstanding, howner]; exact hwaiting,by rw [howner]; exact herrors,
        by rw [howner]; exact False.elim,by rw [howner]; exact nofun⟩
    · exact ⟨hwaiting,herrors,False.elim,nofun⟩
  | exchange =>
    obtain ⟨hnone,hrecorded⟩ := h.settled (by rw [howner]; trivial)
    simp only [howner, outstanding, TryWaitPc.raised, TryWaitPc.taken, hrecorded] at hwaiting herrors
    refine ⟨hwaiting,?_,fun _ => ?_,fun _ _ => rfl⟩
    · simpa [unrecorded, TryWaitPc.taken, show s.operations.countP OperationPc.unrecorded = 0
        from hrecorded] using herrors
    · simpa only [outstanding, howner, TryWaitPc.raised] using hnone
  | returning errorCount =>
    obtain ⟨hnone,hrecorded⟩ := h.settled (by rw [howner]; trivial)
    have hempty := hemptied errorCount howner
    simp only [howner, outstanding, TryWaitPc.raised] at hwaiting
    refine ⟨hwaiting,?_,False.elim,nofun⟩
    simp [unrecorded, TryWaitPc.taken, hempty, show s.operations.countP OperationPc.unrecorded = 0
      from hrecorded]

theorem finishStep_counts {s : LatchRounds} (h : Counts s) (i : Nat) (success : Bool) :
    Counts (s.finishStep i success) := by
  unfold finishStep
  split
  case h_1 hx =>
    split
    · exact h.operation hx rfl rfl rfl rfl (fun _ => rfl) nofun
    · refine h.operation hx rfl rfl rfl ?_ (fun _ => rfl) nofun
      simp [OperationPc.unrecorded, Nat.add_comm]
  case h_2 => exact h

theorem countDownStep_counts {s : LatchRounds} (h : Counts s) (i : Nat) :
    Counts (s.countDownStep i) := by
  unfold countDownStep
  split
  case h_1 hx =>
    refine h.operation hx rfl rfl rfl ?_ (fun _ => rfl) nofun
    simp [OperationPc.unrecorded, BitVec.ofNat_add, BitVec.add_assoc]
  case h_2 hx =>
    have hwaiting : s.words.waitingCount - 1 + 1 = s.words.waitingCount + 0 :=
      (BitVec.sub_add_cancel ..).trans (BitVec.add_zero _).symm
    dsimp only
    split
    · exact h.operation hx rfl rfl hwaiting rfl nofun nofun
    · exact h.operation hx rfl rfl hwaiting rfl nofun nofun
  case h_3 hx => exact h.operation hx rfl rfl rfl rfl nofun fun _ => rfl
  case h_4 => exact h

theorem step_counts {s : LatchRounds} (h : Counts s) (hfits : s.Fits) (e : RoundEvent) :
    Counts (step s e) := by
  obtain ⟨hwaiting,herrors,hpassed,hemptied⟩ := h
  cases e with
  | countUp =>
    unfold step
    cases howner : s.owner
    case counting =>
      simp only [howner, outstanding, TryWaitPc.raised, TryWaitPc.taken, Nat.add_zero]
        at hwaiting herrors
      refine ⟨?_,herrors,False.elim,nofun⟩
      simp only [outstanding, TryWaitPc.raised, BitVec.ofNat_add, ← hwaiting]
      rfl
    all_goals exact ⟨hwaiting,herrors,hpassed,hemptied⟩
  | wait =>
    unfold step
    cases howner : s.owner
    case counting =>
      simp only [howner, outstanding, TryWaitPc.raised, TryWaitPc.taken] at hwaiting herrors
      exact ⟨hwaiting,herrors,False.elim,nofun⟩
    all_goals exact ⟨hwaiting,herrors,hpassed,hemptied⟩
  | owner => exact ownerStep_counts ⟨hwaiting,herrors,hpassed,hemptied⟩ hfits
  | finish i success => exact finishStep_counts ⟨hwaiting,herrors,hpassed,hemptied⟩ i success
  | countDown i => exact countDownStep_counts ⟨hwaiting,herrors,hpassed,hemptied⟩ i

theorem returning_exact {s : LatchRounds} (h : Counts s) (hfits : s.Fits) {e : BitVec 32}
    (howner : s.owner = .returning e) : e.toInt = s.failures := by
  obtain ⟨hnone,hrecorded⟩ := h.settled (by rw [howner]; trivial)
  have htaken : e = BitVec.ofNat 32 s.failures := by
    have herrors := h.errors
    rw [h.emptied e howner, hrecorded, howner] at herrors
    simpa [TryWaitPc.taken] using herrors
  have hlt := hfits.2
  rw [htaken, BitVec.toInt_eq_toNat_of_lt, BitVec.toNat_ofNat, Nat.mod_eq_of_lt]
  · omega
  · rw [BitVec.toNat_ofNat]
    omega

def ReportsExact (s : LatchRounds) : Prop := ∀ r ∈ s.reports, r.Exact

theorem step_reports (s : LatchRounds) (e : RoundEvent) :
    (step s e).reports = s.reports ∨ ∃ errorCount, s.owner = .returning errorCount ∧
      (step s e).reports =
        ⟨s.failures,errorCount.toInt,waitOutcome errorCount.toInt⟩ :: s.reports := by
  cases e with
  | countUp => cases howner : s.owner <;> exact .inl (by simp only [step, howner])
  | wait => cases howner : s.owner <;> exact .inl (by simp only [step, howner])
  | owner =>
    cases howner : s.owner with
    | counting | countedUp | exchange => exact .inl (by simp only [step, ownerStep, howner])
    | load | blocked current =>
      refine .inl ?_
      simp only [step, ownerStep, howner]
      split <;> rfl
    | returning errorCount => exact .inr ⟨errorCount,rfl,by simp only [step, ownerStep, howner]⟩
  | finish i success =>
    refine .inl ?_
    simp only [step, finishStep]
    split
    · split <;> rfl
    · rfl
  | countDown i =>
    refine .inl ?_
    simp only [step, countDownStep]
    split <;> rfl

theorem step_reportsExact {s : LatchRounds} (h : Counts s) (hfits : s.Fits)
    (hreports : s.ReportsExact) (e : RoundEvent) : (step s e).ReportsExact := by
  obtain hsame | ⟨errorCount,howner,hnew⟩ := step_reports s e
  · rwa [ReportsExact, hsame]
  · have hexact := returning_exact h hfits howner
    rw [ReportsExact, hnew]
    exact List.forall_mem_cons.mpr ⟨⟨hexact,congrArg waitOutcome hexact⟩,hreports⟩

def Sound (s : LatchRounds) : Prop := s.WaitsForAll ∧ s.ReportsExact

theorem latch_exact {events : List RoundEvent} (h : Runs.Along step (fun s _ => s.Fits) {} events) :
    Runs.Throughout step Sound {} events := by
  have hrun : Runs.Throughout step (fun s => Counts s ∧ s.ReportsExact) {} events :=
    Runs.throughout_invariant
      (fun s e hs hfits => ⟨step_counts hs.1 hfits e,step_reportsExact hs.1 hfits hs.2 e⟩)
      ⟨counts_start,nofun⟩ h
  exact Runs.throughout_imp (fun s hs => ⟨hs.1.waitsForAll,hs.2⟩) hrun

theorem latch_exact_twoRounds :
    Runs.Throughout step Sound {} [.countUp,.owner,.countUp,.owner,.finish 0 false,.finish 1 false,
      .wait,.owner,.countDown 1,.countDown 0,.countDown 1,.owner,.countDown 0,.owner,.owner,.owner,
      .owner,.countUp,.owner,.finish 2 true,.wait,.countDown 2,.owner,.owner,.owner] :=
  latch_exact (by decide)

def failing (k : Nat) : List RoundEvent :=
  [.countUp,.owner,.finish k false,.countDown k,.countDown k,.countDown k]

def starting (_ : Nat) : List RoundEvent := [.countUp,.owner]

theorem run_failing (k : Nat) :
    Runs.run step {} ((List.range k).flatMap failing) =
      { words := ⟨0,BitVec.ofNat 32 k⟩, operations := List.replicate k .finished, failures := k } := by
  induction k with
  | zero => rfl
  | succ k ih =>
    rw [List.range_succ, List.flatMap_append, Runs.run_append, ih]
    simp [failing, step, ownerStep, finishStep, countDownStep, List.replicate_succ',
      BitVec.ofNat_add]

theorem run_starting (k : Nat) :
    Runs.run step {} ((List.range k).flatMap starting) =
      { words := ⟨BitVec.ofNat 32 k,0⟩, operations := List.replicate k .running } := by
  induction k with
  | zero => rfl
  | succ k ih =>
    rw [List.range_succ, List.flatMap_append, Runs.run_append, ih]
    simp [starting, step, ownerStep, List.replicate_succ', BitVec.ofNat_add]

theorem run_wait {s : LatchRounds} (howner : s.owner = .counting)
    (hzero : s.words.waitingCount = 0) :
    Runs.run step s [.wait,.owner] = { s with owner := .exchange } := by
  simp [step, ownerStep, howner, hzero]

-- One failure after the other, and operations that nobody ends.
theorem latch_wraps :
    (∃ r ∈ (Runs.run step {} ((List.range (2 ^ 31)).flatMap failing ++
        [.wait,.owner,.owner,.owner])).reports, r.failures = 2 ^ 31 ∧ r.errorCount = -2 ^ 31) ∧
      ¬(Runs.run step {} ((List.range (2 ^ 32)).flatMap starting ++ [.wait,.owner])).WaitsForAll := by
  constructor
  · rw [Runs.run_append, run_failing]
    exact ⟨⟨2 ^ 31,(BitVec.ofNat 32 (2 ^ 31)).toInt,_⟩,List.mem_cons_self,rfl,by decide⟩
  · rw [Runs.run_append, run_starting, run_wait rfl (by decide)]
    intro hall
    have hrunning := hall trivial .running (List.mem_replicate.mpr ⟨by norm_num,rfl⟩)
    exact absurd hrunning (by decide)

end LatchRounds

end WujiHand

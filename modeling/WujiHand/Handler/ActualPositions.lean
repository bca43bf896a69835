import WujiHand.Handler.RealtimeRecords

namespace WujiHand.RealtimeLoop

open Publication

variable {codec : PositionCodec} {s s' : RealtimeLoop} {begun begun' : List (JointId → BitVec 32)}

def Read (codec : PositionCodec) (begun : List (JointId → BitVec 32)) (since : Nat)
    (actual : ActualPositions) (t : JointId) : Prop :=
  ∃ raw, actual t.1 t.2 = some (loadPosition codec t raw) ∧ Recent begun since t raw

def Seen (codec : PositionCodec) (upstreamEnabled : Bool) (base : Nat)
    (begun : List (JointId → BitVec 32)) (since : Nat) (actual : Option ActualPositions) : Prop :=
  if upstreamEnabled then
    base < since ∧ ∃ positions, actual = some positions ∧ ∀ t, Read codec begun since positions t
  else actual = none

def Observes (codec : PositionCodec) (s : RealtimeLoop) : RealtimeLoopPc → Prop
  | .starting => s.calls = []
  | .handshaking oldVersion | .reading oldVersion | .triggeringRead oldVersion
  | .awaiting oldVersion => oldVersion = BitVec.ofNat 64 s.base
  | .controlling =>
    s.upstreamEnabled = true → s.base < s.results.published ∨ s.stopRequested = true
  | .loading since pending positions =>
    s.upstreamEnabled = true ∧ s.base < since ∧ since ≤ s.results.published ∧
      ∀ t, t ∉ pending → Read codec s.results.begun since positions t
  | .stepping since actual =>
    since ≤ s.results.published ∧
      Seen codec s.upstreamEnabled s.base s.results.begun since actual
  | .writing _ | .triggeringWrite _ | .pacing =>
    s.upstreamEnabled = true → s.base < s.results.published
  | _ => True

structure Observed (codec : PositionCodec) (s : RealtimeLoop) : Prop where
  results : s.results.Sound
  version : s.version = BitVec.ofNat 64 s.results.published
  base : s.base ≤ s.results.published
  pc : Observes codec s s.pc
  calls : ∀ c ∈ s.calls, c.since ≤ s.results.published ∧
    Seen codec s.upstreamEnabled s.base s.results.begun c.since c.actual

theorem Read.mono {since : Nat} {actual : ActualPositions} {t : JointId}
    (h : Read codec begun since actual t) (hbegun : begun <+: begun') :
    Read codec begun' since actual t := by
  obtain ⟨raw,hvalue,hrecent⟩ := h
  exact ⟨raw,hvalue,hrecent.mono hbegun (Nat.le_refl since)⟩

theorem Seen.mono {upstreamEnabled : Bool} {base since : Nat} {actual : Option ActualPositions}
    (h : Seen codec upstreamEnabled base begun since actual) (hbegun : begun <+: begun') :
    Seen codec upstreamEnabled base begun' since actual := by
  unfold Seen at h ⊢
  split
  case isTrue hupstream =>
    rw [if_pos hupstream] at h
    obtain ⟨hbase,positions,hactual,hread⟩ := h
    exact ⟨hbase,positions,hactual,fun t => (hread t).mono hbegun⟩
  case isFalse hupstream => rwa [if_neg hupstream] at h

theorem Observed.grows (h : Observed codec s) {results : Board JointId (BitVec 32)}
    {version : BitVec 64} (hgrows : s.results.Grows results) (hsound : results.Sound)
    (hversion : version = BitVec.ofNat 64 results.published) :
    Observed codec { s with results := results, version := version } := by
  obtain ⟨hbegun,hpublished⟩ := hgrows
  refine ⟨hsound,hversion,h.base.trans hpublished,?_,fun c hc => ?_⟩
  · have hpc := h.pc
    dsimp only
    cases hcase : s.pc with
    | starting | handshaking | reading | triggeringRead | awaiting =>
      rw [hcase] at hpc
      exact hpc
    | controlling =>
      rw [hcase] at hpc
      exact fun hupstream => (hpc hupstream).imp_left fun hlt => hlt.trans_le hpublished
    | loading since pending positions =>
      rw [hcase] at hpc
      obtain ⟨hupstream,hlt,hle,hread⟩ := hpc
      exact ⟨hupstream,hlt,hle.trans hpublished,fun t ht => (hread t ht).mono hbegun⟩
    | stepping since actual =>
      rw [hcase] at hpc
      exact ⟨hpc.1.trans hpublished,hpc.2.mono hbegun⟩
    | writing | triggeringWrite | pacing =>
      rw [hcase] at hpc
      exact fun hupstream => (hpc hupstream).trans_le hpublished
    | _ => trivial
  · obtain ⟨hle,hseen⟩ := h.calls c hc
    exact ⟨hle.trans hpublished,hseen.mono hbegun⟩

theorem Observed.moved (h : Observed codec s) (pc : RealtimeLoopPc) (hpc : Observes codec s pc)
    (b : TransmitBuffer) (requests : List PdoRequest) (nextIterationTime : Nat) :
    Observed codec
      { s with
        pc := pc, buffer := b, requests := requests, nextIterationTime := nextIterationTime } :=
  ⟨h.results,h.version,h.base,hpc,h.calls⟩

theorem Observed.loaded (h : Observed codec s) {since : Nat} {t : JointId} {pending : List JointId}
    {positions : ActualPositions} (hcase : s.pc = .loading since (t :: pending) positions) :
    Observes codec s (.loading since pending
      (JointTable.update positions t (some (loadPosition codec t (s.results.cells t))))) := by
  have hpc := h.pc
  rw [hcase] at hpc
  obtain ⟨hupstream,hlt,hle,hread⟩ := hpc
  refine ⟨hupstream,hlt,hle,fun t' ht' => ?_⟩
  by_cases heq : t' = t
  · subst heq
    have hrecent := h.results.recent (Nat.zero_lt_of_lt (hlt.trans_le hle)) t'
    exact ⟨_,JointTable.update_self ..,hrecent.mono List.prefix_rfl hle⟩
  · obtain ⟨raw,hvalue,hrecent⟩ := hread t' fun hmem => (List.mem_cons.mp hmem).elim heq ht'
    exact ⟨raw,(JointTable.update_of_ne heq ..).trans hvalue,hrecent⟩

theorem Observed.attached (h : Observed codec s) (hpc : s.pc = .detached) (upstreamEnabled : Bool) :
    Observed codec (s.attach upstreamEnabled) := by
  simp only [attach, hpc]
  exact ⟨h.results,h.version,h.base,rfl,fun c hc => absurd hc List.not_mem_nil⟩

theorem Observed.stopped (h : Observed codec s) : Observed codec { s with stopRequested := true } := by
  refine ⟨h.results,h.version,h.base,?_,h.calls⟩
  have hpc := h.pc
  dsimp only
  cases hcase : s.pc with
  | controlling => exact fun _ => .inr rfl
  | _ =>
    rw [hcase] at hpc
    exact hpc

theorem Observed.stored (h : Observed codec s) (hwriting : ∀ table, s.results.writing ≠ some ([],table)) :
    Observed codec { s with results := s.results.advance } := by
  refine h.grows (Board.advance_grows _) (Board.advance_sound h.results) ?_
  rw [Board.advance_stored hwriting, h.version]

theorem Observed.published (h : Observed codec s) {table : JointId → BitVec 32}
    (hwriting : s.results.writing = some ([],table)) :
    Observed codec { s with results := s.results.advance, version := s.version + 1 } := by
  refine h.grows (Board.advance_grows _) (Board.advance_sound h.results) ?_
  rw [Board.advance_counted hwriting, h.version, BitVec.ofNat_add]
  rfl

theorem Observed.started (h : Observed codec s) (hcase : s.pc = .starting) :
    Observed codec
      { s with
        begin := s.clock, nextIterationTime := s.clock, base := s.results.published,
        pc := if s.upstreamEnabled then .handshaking s.version else .controlling } := by
  have hpc := h.pc
  rw [hcase] at hpc
  have hnone : s.calls = [] := hpc
  refine ⟨h.results,h.version,Nat.le_refl _,?_,fun c hc => ?_⟩
  · dsimp only
    split
    case isTrue => exact h.version
    case isFalse hblind => exact fun hupstream => absurd hupstream hblind
  · rw [hnone] at hc
    cases hc

theorem Observed.awoken (h : Observed codec s) {oldVersion : BitVec 64}
    (hcase : s.pc = .awaiting oldVersion) :
    Observes codec s
      (if s.version ≠ oldVersion then .controlling else .handshaking oldVersion) := by
  have hpc := h.pc
  rw [hcase] at hpc
  split
  case isTrue hnew =>
    refine fun _ => .inl (h.base.lt_of_ne fun heq => hnew ?_)
    rw [h.version, ← heq]
    exact hpc.symm
  case isFalse => exact hpc

theorem Observed.loadedAll (h : Observed codec s) {since : Nat} {positions : ActualPositions}
    (hcase : s.pc = .loading since [] positions) :
    Observes codec s (.stepping since (some positions)) := by
  have hpc := h.pc
  rw [hcase] at hpc
  obtain ⟨hupstream,hlt,hle,hread⟩ := hpc
  refine ⟨hle,?_⟩
  rw [Seen, if_pos hupstream]
  exact ⟨hlt,positions,rfl,fun t => hread t List.not_mem_nil⟩

theorem Observed.stepped (h : Observed codec s) {since : Nat} {actual : Option ActualPositions}
    (hcase : s.pc = .stepping since actual) (targets : JointTable Buffer8) :
    Observed codec
      { s with pc := .writing targets, calls := s.calls ++ [⟨since,actual,targets⟩] } := by
  have hpc := h.pc
  rw [hcase] at hpc
  obtain ⟨hle,hseen⟩ := hpc
  refine ⟨h.results,h.version,h.base,fun hupstream => ?_,fun c hc => ?_⟩
  · have hlt := hseen
    rw [Seen, if_pos hupstream] at hlt
    exact hlt.1.trans_le hle
  · rcases List.mem_append.mp hc with hc | hc
    · exact h.calls c hc
    · rw [List.mem_singleton.mp hc]
      exact ⟨hle,hseen⟩

theorem Observed.steps (h : Observed codec s) (hstep : Steps codec s s') : Observed codec s' := by
  have hpc := h.pc
  cases hstep with
  | rest => exact h
  | attached hdetached upstreamEnabled => exact h.attached hdetached upstreamEnabled
  | stopped => exact h.stopped
  | joined hfinished => exact ⟨h.results,h.version,h.base,trivial,h.calls⟩
  | received positions =>
    refine h.grows (Board.start_grows ..) (Board.start_sound h.results mem_joints _) ?_
    rw [Board.start_published, h.version]
  | stored hwriting => exact h.stored hwriting
  | published table hwriting => exact h.published hwriting
  | completed => exact ⟨h.results,h.version,h.base,hpc,h.calls⟩
  | elapsed duration => exact ⟨h.results,h.version,h.base,hpc,h.calls⟩
  | started hcase => exact h.started hcase
  | handshake oldVersion hcase =>
    rw [hcase] at hpc
    refine h.moved _ ?_ s.buffer s.requests s.nextIterationTime
    split
    case isTrue hstop => exact fun _ => .inr hstop
    case isFalse => exact hpc
  | fetchedRead oldVersion b hcase =>
    rw [hcase] at hpc
    exact h.moved (.triggeringRead oldVersion) hpc ..
  | triggeredRead oldVersion b hcase =>
    rw [hcase] at hpc
    exact h.moved (.awaiting oldVersion) hpc ..
  | awoken oldVersion hcase hclock => exact h.moved _ (h.awoken hcase) ..
  | left hstop hcase => exact h.moved .finished trivial ..
  | iterated hstop hupstream hcase =>
    rw [hcase] at hpc
    have hlt := (hpc hupstream).resolve_right (by simp [hstop])
    exact h.moved (.loading ..)
      ⟨hupstream,hlt,Nat.le_refl _,fun t ht => absurd (mem_joints t) ht⟩ ..
  | iteratedBlind hstop hupstream hcase =>
    refine h.moved (.stepping ..) ⟨Nat.le_refl _,?_⟩ s.buffer s.requests s.nextIterationTime
    rw [Seen, hupstream]
    rfl
  | loaded since t pending positions hcase => exact h.moved (.loading ..) (h.loaded hcase) ..
  | loadedAll since positions hcase => exact h.moved (.stepping ..) (h.loadedAll hcase) ..
  | stepped since actual targets hcase => exact h.stepped hcase targets
  | fetchedWrite targets b hcase =>
    rw [hcase] at hpc
    exact h.moved (.triggeringWrite _) hpc ..
  | triggeredWrite w b hcase =>
    rw [hcase] at hpc
    exact h.moved .pacing hpc ..
  | paced hcase hclock =>
    rw [hcase] at hpc
    exact h.moved .controlling (fun hupstream => .inl (hpc hupstream)) ..
  | starved hfree hcase => exact h.moved (.terminated _) trivial ..

theorem create_observed (pdoMemory : JointTable (BitVec 32)) (buffer : TransmitBuffer) :
    Observed codec (create pdoMemory buffer) :=
  ⟨Board.sound_blank _,rfl,Nat.le_refl _,trivial,fun _ hc => absurd hc List.not_mem_nil⟩

theorem run_observed (h : Legal codec s) (hobserved : Observed codec s)
    (events : List RealtimeLoopEvent) : Observed codec (Runs.run (step codec) s events) := by
  have hboth : Legal codec (Runs.run (step codec) s events) ∧
      Observed codec (Runs.run (step codec) s events) :=
    Runs.run_invariant (P := fun s => Legal codec s ∧ Observed codec s)
      (fun _ e h => ⟨h.1.step e,h.2.steps (step_steps h.1.buffered e).2⟩) ⟨h,hobserved⟩
  exact hboth.2

theorem Recorded.written {reads : Nat} {answered pending : List StepCall}
    (h : Recorded codec s reads answered pending) {w : Pdo.Write} (hw : .write w ∈ s.requests) :
    ∃ c, c ∈ s.calls := by
  rw [h.requests] at hw
  rcases List.mem_append.mp hw with hw | hw
  · cases List.eq_of_mem_replicate hw
  · obtain ⟨m,hm,_⟩ := List.mem_mapIdx.mp hw
    exact ⟨answered[m],h.calls ▸ List.mem_append_left _ (List.getElem_mem hm)⟩

theorem actual_positions_recent (codec : PositionCodec) (pdoMemory : JointTable (BitVec 32))
    (allocTransferCount : Nat) (memory : Nat → Memory) (events : List RealtimeLoopEvent) :
    let s := Runs.run (step codec) (create pdoMemory (.create allocTransferCount memory)) events
    (∀ c ∈ s.calls, c.since ≤ s.results.published ∧
        Seen codec s.upstreamEnabled s.base s.results.begun c.since c.actual) ∧
      (s.upstreamEnabled = true → ∀ w, .write w ∈ s.requests → s.base < s.results.published) := by
  intro s
  have hcreate : Legal codec (create pdoMemory (.create allocTransferCount memory)) :=
    create_legal pdoMemory allocTransferCount memory
  have h : Observed codec s := run_observed hcreate (create_observed ..) events
  refine ⟨h.calls,fun hupstream w hw => ?_⟩
  obtain ⟨reads,answered,pending,hrecorded⟩ := (hcreate.run events).recorded
  obtain ⟨c,hc⟩ := hrecorded.written hw
  obtain ⟨hle,hseen⟩ := h.calls c hc
  rw [Seen, if_pos hupstream] at hseen
  exact hseen.1.trans_le hle

section Frames

variable {n : Nat} {Fn Ctx : Type} {h h' : Handler n Fn Ctx}

def receiving (positions : JointTable (BitVec 32)) : List RealtimeLoopEvent :=
  .receive positions :: List.replicate (joints.length + 1) .receiver

theorem step_running (hpc : ∀ abort, s.pc ≠ .terminated abort) (e : RealtimeLoopEvent) :
    s.step codec e = s.apply codec e := by
  unfold step
  split
  case h_1 abort heq => exact absurd heq (hpc abort)
  case h_2 => rfl

variable (codec) in
theorem run_storing {pending : List JointId} {table : JointId → BitVec 32}
    (hwriting : s.results.writing = some (pending,table))
    (hpc : ∀ abort, s.pc ≠ .terminated abort) :
    let s' := Runs.run (step codec) s (List.replicate (pending.length + 1) .receiver)
    (∀ t, s'.results.cells t = if t ∈ pending then table t else s.results.cells t) ∧
      s'.version = s.version + 1 := by
  induction pending generalizing s with
  | nil =>
    have hstep : s.step codec .receiver =
        { s with
          results := { s.results with writing := none, published := s.results.published + 1 },
          version := s.version + 1 } := by
      simp only [step_running hpc, apply, receiverStep, Board.advance, hwriting]
    intro s'
    have hs' : s' = s.step codec .receiver := rfl
    rw [hs', hstep]
    exact ⟨fun t => (if_neg List.not_mem_nil).symm,rfl⟩
  | cons t pending ih =>
    have hstep : s.step codec .receiver =
        { s with
          results :=
            { s.results with
              cells := Function.update s.results.cells t (table t),
              writing := some (pending,table) } } := by
      simp only [step_running hpc, apply, receiverStep, Board.advance, hwriting]
    have hwriting' : (s.step codec .receiver).results.writing = some (pending,table) := by rw [hstep]
    obtain ⟨hcells,hversion⟩ := ih hwriting' (by rwa [hstep])
    dsimp only
    rw [List.length_cons, List.replicate_succ, Runs.run_cons]
    refine ⟨fun t' => (hcells t').trans ?_,by rw [hversion, hstep]⟩
    rw [hstep]
    by_cases heq : t' = t
    · subst heq
      simp
    · simp [heq]

theorem readPdoFrame_receiving {bytes : List Byte} {pointer : Nat}
    (hread : h.readPdoFrame bytes pointer = (h',none)) (hidle : s.results.writing = none)
    (hpc : ∀ abort, s.pc ≠ .terminated abort)
    (hversion : s.version = h.pdoReadResultVersion) :
    ∃ positions, let s' := Runs.run (step codec) s (receiving positions)
      s'.results.cells = (fun t => h'.pdoReadResult t.1 t.2) ∧
        s'.version = h'.pdoReadResultVersion := by
  unfold Handler.readPdoFrame at hread
  split at hread
  · cases hread
  · rename_i data next _
    dsimp only at hread
    split at hread
    · cases hread
    · cases hread
      refine ⟨commandResultPositions data,?_⟩
      have hstart : s.step codec (.receive (commandResultPositions data)) = _ :=
        step_running hpc _
      simp only [apply, Board.start, hidle] at hstart
      have hwriting : (s.step codec (.receive (commandResultPositions data))).results.writing =
          some (joints,fun t => commandResultPositions data t.1 t.2) := by rw [hstart]
      obtain ⟨hstored,hcounted⟩ := run_storing codec hwriting (by rwa [hstart])
      refine ⟨funext fun t => (hstored t).trans (if_pos (mem_joints t)),?_⟩
      exact hcounted.trans (by rw [hstart, hversion])

end Frames

end WujiHand.RealtimeLoop

import WujiHand.Utility.Logging

namespace WujiHand

open MutualExclusion

namespace Logger

variable {c : LogConfig} {l : Logger}

structure Agrees (c : LogConfig) (l : Logger) : Prop where
  console : l.logger ≠ none → l.consoleSink = some c.logToConsole
  file : ∀ f ∈ l.fileSink, f = (c.logPath,c.logToFile)
  level : ∀ level ∈ l.logger, level = c.logLevel
  found : l.announced = some .found → l.fileSink ≠ none ∧ l.logger ≠ none

structure Opened (c : LogConfig) (pathError : Bool) (l : Logger) : Prop where
  console : l.consoleSink = some c.logToConsole
  file : ∀ f ∈ l.fileSink, f = (c.logPath,c.logToFile)
  opened : pathError = false → c.logToFile = true → l.fileSink ≠ none
  announced : l.announced = none

def Building (c : LogConfig) (l : Logger) : LoggerStage → Prop
  | .threadPool | .consoleSink => l = {}
  | .readingConsole => l = { consoleSink := some true }
  | .readingPath => l = { consoleSink := some c.logToConsole }
  | .readingFile path => l = { consoleSink := some c.logToConsole } ∧ path = c.logPath
  | .openingFile path =>
    l = { consoleSink := some c.logToConsole } ∧ path = c.logPath ∧ c.logToFile = true
  | .creatingLogger pathError => Opened c pathError l ∧ l.logger = none
  | .readingLevel pathError => Opened c pathError l ∧ l.logger = some .info
  | .announcing pathError => Opened c pathError l ∧ l.logger = some c.logLevel

theorem building_start : Building c {} .threadPool := rfl

theorem agrees_console (sink : Option Bool) : Agrees c { consoleSink := sink } := by
  constructor <;> simp

theorem Opened.agrees {pathError : Bool} (h : Opened c pathError l)
    (hlogger : ∀ level ∈ l.logger, level = c.logLevel) : Agrees c l where
  console _ := h.console
  file := h.file
  level := hlogger
  found := by simp [h.announced]

theorem Opened.announce {pathError : Bool} (h : Opened c pathError l)
    (hlogger : l.logger = some c.logLevel) (outcome : BuildOutcome) :
    Agrees c (l.build c outcome (.announcing pathError)).1 := by
  have hagrees := h.agrees (by simp [hlogger])
  cases outcome with
  | threw assigned caught => exact hagrees
  | done =>
    cases pathError with
    | true => exact { hagrees with found := by simp [build] }
    | false =>
      cases hc : c.logToFile with
      | true =>
        have hfound := h.opened rfl hc
        simp only [build, hc]
        exact { hagrees with found := fun _ => ⟨hfound,by simp [hlogger]⟩ }
      | false => simpa [build,hc] using hagrees

theorem opened_console {pathError : Bool} (h : pathError = false → c.logToFile = false) :
    Opened c pathError { consoleSink := some c.logToConsole } := by
  constructor <;> simp_all

theorem opened_file (hfile : c.logToFile = true) (pathError : Bool) :
    Opened c pathError
      { consoleSink := some c.logToConsole, fileSink := some (c.logPath,true) } := by
  constructor <;> simp_all

theorem openingFile_build (hfile : c.logToFile = true) (outcome : BuildOutcome) :
    let l : Logger := { consoleSink := some c.logToConsole }
    match (l.build c outcome (.openingFile c.logPath)).2 with
    | some next => Building c (l.build c outcome (.openingFile c.logPath)).1 next
    | none => Agrees c (l.build c outcome (.openingFile c.logPath)).1 := by
  rcases outcome with _ | ⟨_ | _,_ | _⟩
  · exact ⟨opened_file hfile false,rfl⟩
  · exact agrees_console _
  · exact ⟨opened_console (by simp),rfl⟩
  · exact (opened_file hfile true).agrees (by simp)
  · exact ⟨opened_file hfile true,rfl⟩

theorem Building.build {stage : LoggerStage} (h : Building c l stage) (outcome : BuildOutcome) :
    match (l.build c outcome stage).2 with
    | some next => Building c (l.build c outcome stage).1 next
    | none => Agrees c (l.build c outcome stage).1 := by
  cases stage with
  | threadPool =>
    cases outcome with
    | done => exact h
    | threw =>
      cases h
      exact agrees_console none
  | consoleSink =>
    cases h
    rcases outcome with _ | ⟨_ | _,_⟩
    · exact rfl
    · exact agrees_console none
    · exact agrees_console (some true)
  | readingConsole =>
    cases h
    cases hc : c.logToConsole <;> cases outcome <;>
      simp [Logger.build,hc,BuildOutcome.next,Building,agrees_console]
  | readingPath =>
    cases h
    cases outcome with
    | done => exact ⟨rfl,rfl⟩
    | threw => exact agrees_console _
  | readingFile path =>
    obtain ⟨rfl,rfl⟩ := h
    cases hfile : c.logToFile with
    | false => simp [Logger.build,hfile,Building,opened_console]
    | true =>
      cases hempty : c.logPath.isEmpty with
      | false => simp [Logger.build,hfile,hempty,Building]
      | true =>
        cases outcome <;>
          simp [Logger.build,hfile,hempty,BuildOutcome.next,Building,opened_console,agrees_console]
  | openingFile path =>
    obtain ⟨rfl,rfl,hfile⟩ := h
    exact openingFile_build hfile outcome
  | creatingLogger pathError =>
    obtain ⟨hopened,hlogger⟩ := h
    cases outcome with
    | done => exact ⟨{ hopened with },rfl⟩
    | threw => exact hopened.agrees (by simp [hlogger])
  | readingLevel pathError => exact ⟨{ h.1 with },rfl⟩
  | announcing pathError => exact h.1.announce h.2 outcome

theorem Agrees.set (h : Agrees c l) {setting : LogSetting} (hpath : setting.isPath = false) :
    Agrees (c.set setting) (l.set setting) := by
  obtain ⟨hconsole,hfile,hlevel,hfound⟩ := h
  cases setting with
  | logToConsole value =>
    refine ⟨fun hl => ?_,hfile,hlevel,hfound⟩
    simp [Logger.set,LogConfig.set,hconsole hl]
  | logToFile value =>
    refine ⟨hconsole,?_,hlevel,?_⟩
    · cases hf : l.fileSink with
      | none => simp [Logger.set,hf]
      | some f => simp [Logger.set,LogConfig.set,hf,hfile f hf]
    · intro ha
      simpa [Logger.set] using hfound ha
  | logLevel value =>
    refine ⟨fun hl => ?_,hfile,?_,?_⟩
    · exact hconsole (by simpa [Logger.set] using hl)
    · simp [Logger.set,LogConfig.set]
    · intro ha
      simpa [Logger.set] using hfound ha
  | logPath value => simp [LogSetting.isPath] at hpath

end Logger

namespace LoggingPc

theorem not_holds {pc : LoggingPc} (h : pc.between = true) : pc.holds = false := by
  cases pc <;> simp_all [between,holds]

def turnsLeft : LoggingPc → Nat
  | rechecking => 12
  | constructing .threadPool => 11
  | constructing .consoleSink => 10
  | constructing .readingConsole => 9
  | constructing .readingPath => 8
  | constructing (.readingFile _) => 7
  | constructing (.openingFile _) => 6
  | constructing (.creatingLogger _) => 5
  | constructing (.readingLevel _) | settingChecking _ => 4
  | constructing (.announcing _) | applying _ => 3
  | publishing | storing _ => 2
  | unlocking | settingUnlocking _ => 1
  | _ => 0

theorem turnsLeft_le (pc : LoggingPc) : pc.turnsLeft ≤ 12 := by
  unfold turnsLeft
  split <;> simp

end LoggingPc

theorem Logger.build_turnsLeft (c : LogConfig) (l : Logger) (outcome : BuildOutcome)
    (stage : LoggerStage) :
    (((l.build c outcome stage).2.elim .publishing .constructing : LoggingPc)).turnsLeft <
      (LoggingPc.constructing stage).turnsLeft := by
  cases stage with
  | readingFile path =>
    simp only [Logger.build]
    split
    · split
      · cases outcome <;> simp [BuildOutcome.next,LoggingPc.turnsLeft]
      · simp [LoggingPc.turnsLeft]
    · simp [LoggingPc.turnsLeft]
  | openingFile path => rcases outcome with _ | ⟨_,_ | _⟩ <;> simp [Logger.build,LoggingPc.turnsLeft]
  | _ => cases outcome <;> simp [Logger.build,BuildOutcome.next,LoggingPc.turnsLeft]

namespace Logging

variable {Tid : Type} {s : Logging Tid}

def Settled (s : Logging Tid) : Prop :=
  if s.constructed then s.constructions = 1 ∧ s.storage.Agrees s.config else s.constructions = 0

def Guarded (s : Logging Tid) : LoggingPc → Prop
  | .constructing stage =>
    s.constructed = false ∧ s.constructions = 1 ∧ s.storage.Building s.config stage
  | .publishing => s.constructed = false ∧ s.constructions = 1 ∧ s.storage.Agrees s.config
  | .unlocking => s.constructed = true ∧ s.Settled
  | .applying setting => s.constructed = true ∧ setting.isPath = false ∧ s.Settled
  | .storing setting =>
    if s.constructed then s.constructions = 1 ∧ s.storage.Agrees (s.config.set setting)
    else s.constructions = 0
  | _ => s.Settled

def inside (s : Logging Tid) : LoggingPc := s.holder.elim .idle s.pc

theorem guarded_threads (holder : Option Tid) (pc : Tid → LoggingPc) (inside : LoggingPc) :
    Guarded { s with holder := holder, pc := pc } inside ↔ s.Guarded inside := by
  cases inside <;> rfl

structure Held (s : Logging Tid) : Prop where
  excludes : Excludes LoggingPc.holds s.holder s.pc
  guarded : s.Guarded s.inside
  returned : ∀ t, s.pc t = .returned → s.constructed = true

theorem held_start (env : LogEnvironment) : Held (start env : Logging Tid) where
  excludes := excludes_start rfl
  guarded := rfl
  returned := by simp [start]

theorem Held.guarded_at (h : Held s) {t : Tid} (ht : (s.pc t).holds = true) :
    s.Guarded (s.pc t) := by
  have hg := h.guarded
  rwa [inside, (h.excludes t).mp ht] at hg

theorem Held.settled (h : Held s) (hfree : s.holder = none) : s.Settled := by
  have hg := h.guarded
  rwa [inside, hfree] at hg

structure Consistent (s : Logging Tid) : Prop where
  exclusive : ∀ t u, (s.pc t).holds = true → (s.pc u).holds = true → t = u
  once : s.constructions ≤ 1
  returned : ∀ t, s.pc t = .returned → s.constructed = true
  untouched : s.constructed = true → ∀ t stage, s.pc t ≠ .constructing stage
  agrees : s.holder = none → s.constructed = true → s.storage.Agrees s.config

theorem Held.constructions_le (h : Held s) : s.constructions ≤ 1 := by
  have hg := h.guarded
  unfold Guarded Settled at hg
  grind

theorem Held.consistent (h : Held s) : Consistent s where
  exclusive _ _ := h.excludes.only
  once := h.constructions_le
  returned := h.returned
  untouched hc t stage hpc := by
    have hg := h.guarded_at (t := t) (by rw [hpc]; rfl)
    rw [hpc] at hg
    simp [hg.1] at hc
  agrees hfree hc := by
    have hs := h.settled hfree
    simp only [Settled, hc, if_true] at hs
    exact hs.2

variable [DecidableEq Tid] {t : Tid} {next : LoggingPc}

theorem update_returned {constructed : Bool} {pc : Tid → LoggingPc}
    (h : ∀ u, pc u = .returned → constructed = true)
    (hnext : next = .returned → constructed = true) (u : Tid)
    (hu : Function.update pc t next u = .returned) : constructed = true := by
  rcases eq_or_ne u t with rfl | hne
  · exact hnext (by simpa using hu)
  · exact h u (by simpa [Function.update_of_ne hne] using hu)

theorem Held.outside (h : Held s) (ht : (s.pc t).holds = false) (hnext : next.holds = false)
    (hreturned : next = .returned → s.constructed = true) : Held (s.goTo t next) where
  excludes := h.excludes.move (hnext.trans ht.symm)
  guarded := by
    have hin : (s.goTo t next).inside = s.inside := by
      cases hholder : s.holder with
      | none => simp [inside,goTo,hholder]
      | some u =>
        have hu : u ≠ t := by
          rintro rfl
          simp [(h.excludes u).mpr hholder] at ht
        simp [inside,goTo,hholder,Function.update_of_ne hu]
    rw [hin]
    exact h.guarded
  returned := update_returned h.returned hreturned

theorem Held.lock (h : Held s) (hnext : next.holds = true)
    (hsettled : s.Settled → s.Guarded next) : Held (s.lock t next) := by
  unfold Logging.lock
  split
  next hfree =>
    refine ⟨h.excludes.lock hfree hnext,?_,update_returned h.returned ?_⟩
    · simpa [inside,goTo,guarded_threads] using hsettled (h.settled hfree)
    · rintro rfl
      simp [LoggingPc.holds] at hnext
  next => exact h

theorem Held.within (h : Held s) (ht : (s.pc t).holds = true) {s' : Logging Tid}
    (hpc : s'.pc = Function.update s.pc t next) (hholder : s'.holder = s.holder)
    (hnext : next.holds = true) (hconstructed : s.constructed = true → s'.constructed = true)
    (hguarded : s'.Guarded next) : Held s' where
  excludes := by
    rw [hpc, hholder]
    exact h.excludes.move (hnext.trans ht.symm)
  guarded := by
    simpa [inside,hholder,(h.excludes t).mp ht,hpc] using hguarded
  returned := by
    rw [hpc]
    refine update_returned (fun u hu => hconstructed (h.returned u hu)) ?_
    rintro rfl
    simp [LoggingPc.holds] at hnext

theorem Held.unlock (h : Held s) (ht : (s.pc t).holds = true) (hnext : next.holds = false)
    (hsettled : s.Settled) (hreturned : next = .returned → s.constructed = true) :
    Held (s.unlock t next) where
  excludes := h.excludes.unlock ht hnext
  guarded := hsettled
  returned := update_returned h.returned hreturned

theorem Held.construct (h : Held s) {stage : LoggerStage} (hpc : s.pc t = .constructing stage)
    (outcome : BuildOutcome) : Held (s.turn t outcome) := by
  have hg := h.guarded_at (t := t) (by rw [hpc]; rfl)
  rw [hpc] at hg
  obtain ⟨hfresh,hcount,hbuilding⟩ := hg
  have hbuild := hbuilding.build outcome
  simp only [Logging.turn, hpc]
  revert hbuild
  rcases s.storage.build s.config outcome stage with ⟨l,_ | next⟩ <;> intro hbuild
  · exact h.within (by rw [hpc]; rfl) rfl rfl rfl id ⟨hfresh,hcount,hbuild⟩
  · exact h.within (by rw [hpc]; rfl) rfl rfl rfl id ⟨hfresh,hcount,hbuild⟩

theorem Held.apply (h : Held s) {setting : LogSetting} (hpc : s.pc t = .applying setting)
    (outcome : BuildOutcome) : Held (s.turn t outcome) := by
  have hg := h.guarded_at (t := t) (by rw [hpc]; rfl)
  rw [hpc] at hg
  obtain ⟨hconstructed,hpath,hsettled⟩ := hg
  simp only [Settled, hconstructed, if_true] at hsettled
  simp only [Logging.turn, hpc]
  refine h.within (by rw [hpc]; rfl) rfl rfl rfl id ?_
  simp only [Guarded, goTo, hconstructed, if_true]
  exact ⟨hsettled.1,hsettled.2.set hpath⟩

theorem Held.turn (h : Held s) (t : Tid) (outcome : BuildOutcome) : Held (s.turn t outcome) := by
  cases hpc : s.pc t with
  | idle | returned | set => simpa [Logging.turn,hpc] using h
  | checking =>
    simp only [Logging.turn, hpc]
    refine h.outside (by rw [hpc]; rfl) ?_ ?_
    · cases s.constructed <;> rfl
    · cases s.constructed <;> simp
  | locking =>
    simp only [Logging.turn, hpc]
    exact h.lock rfl id
  | rechecking =>
    have hg := h.guarded_at (t := t) (by rw [hpc]; rfl)
    rw [hpc] at hg
    simp only [Logging.turn, hpc]
    split
    next hc => exact h.within (by rw [hpc]; rfl) rfl rfl rfl id ⟨hc,hg⟩
    next hc =>
      have hzero : s.constructions = 0 := by simpa [Guarded,Settled,hc] using hg
      refine h.within (by rw [hpc]; rfl) rfl rfl rfl id ?_
      exact ⟨by simpa [goTo] using hc,by simp [hzero],Logger.building_start⟩
  | constructing stage => exact h.construct hpc outcome
  | publishing =>
    have hg := h.guarded_at (t := t) (by rw [hpc]; rfl)
    rw [hpc] at hg
    simp only [Logging.turn, hpc]
    exact h.within (by rw [hpc]; rfl) rfl rfl rfl (fun _ => rfl) ⟨rfl,hg.2⟩
  | unlocking =>
    have hg := h.guarded_at (t := t) (by rw [hpc]; rfl)
    rw [hpc] at hg
    simp only [Logging.turn, hpc]
    exact h.unlock (by rw [hpc]; rfl) rfl hg.2 fun _ => hg.1
  | settingLocking setting =>
    simp only [Logging.turn, hpc]
    exact h.lock rfl id
  | settingChecking setting =>
    have hg := h.guarded_at (t := t) (by rw [hpc]; rfl)
    rw [hpc] at hg
    have hnext : s.Guarded (if s.constructed then
        if setting.isPath then .settingUnlocking true else .applying setting
      else .storing setting) := by
      cases hc : s.constructed with
      | false => simpa [Guarded,Settled,hc] using hg
      | true =>
        cases hp : setting.isPath with
        | true => exact hg
        | false => exact ⟨hc,hp,hg⟩
    simp only [Logging.turn, hpc]
    refine h.within (by rw [hpc]; rfl) rfl rfl ?_ id ((guarded_threads _ _ _).mpr hnext)
    cases s.constructed <;> cases setting.isPath <;> rfl
  | applying setting => exact h.apply hpc outcome
  | storing setting =>
    have hg := h.guarded_at (t := t) (by rw [hpc]; rfl)
    rw [hpc] at hg
    simp only [Logging.turn, hpc]
    exact h.within (by rw [hpc]; rfl) rfl rfl rfl id hg
  | settingUnlocking thrown =>
    have hg := h.guarded_at (t := t) (by rw [hpc]; rfl)
    rw [hpc] at hg
    simp only [Logging.turn, hpc]
    exact h.unlock (by rw [hpc]; rfl) rfl hg (by simp)

theorem Held.step (h : Held s) (e : LoggingEvent Tid) : Held (s.step e) := by
  cases e with
  | getInstance t =>
    simp only [Logging.step]
    split
    next hb => exact h.outside (LoggingPc.not_holds hb) rfl (by simp)
    next => exact h
  | set t setting =>
    simp only [Logging.step]
    split
    next hb => exact h.outside (LoggingPc.not_holds hb) rfl (by simp)
    next => exact h
  | turn t outcome => exact h.turn t outcome

theorem goTo_pc (s : Logging Tid) (t : Tid) (pc : LoggingPc) : (s.goTo t pc).pc t = pc := by
  simp [goTo]

theorem turn_turnsLeft (ht : (s.pc t).holds = true) (outcome : BuildOutcome) :
    ((s.turn t outcome).pc t).turnsLeft < (s.pc t).turnsLeft := by
  cases hpc : s.pc t with
  | idle | checking | locking | returned | settingLocking | set => simp [hpc,LoggingPc.holds] at ht
  | rechecking =>
    simp only [Logging.turn, hpc]
    split <;> simp [goTo,LoggingPc.turnsLeft]
  | constructing stage =>
    simp only [Logging.turn, hpc, goTo_pc]
    exact Logger.build_turnsLeft s.config s.storage outcome stage
  | settingChecking setting =>
    simp only [Logging.turn, hpc, goTo_pc]
    cases s.constructed <;> cases setting.isPath <;> simp [LoggingPc.turnsLeft]
  | _ => simp [Logging.turn,hpc,goTo_pc,Logging.unlock,LoggingPc.turnsLeft]

theorem turn_left (ht : (s.pc t).holds = true) (outcome : BuildOutcome) :
    ((s.turn t outcome).pc t).holds = true ∨ (s.turn t outcome).pc t = .returned ∨
      ∃ thrown, (s.turn t outcome).pc t = .set thrown := by
  cases hpc : s.pc t with
  | idle | checking | locking | returned | settingLocking | set => simp [hpc,LoggingPc.holds] at ht
  | unlocking => exact .inr (.inl (by simp [Logging.turn,hpc,Logging.unlock,goTo_pc]))
  | settingUnlocking thrown =>
    exact .inr (.inr ⟨thrown,by simp [Logging.turn,hpc,Logging.unlock,goTo_pc]⟩)
  | rechecking =>
    left
    simp only [Logging.turn, hpc]
    split <;> simp [goTo,LoggingPc.holds]
  | constructing stage =>
    left
    simp only [Logging.turn, hpc, goTo_pc]
    cases (s.storage.build s.config outcome stage).2 <;> rfl
  | settingChecking setting =>
    left
    simp only [Logging.turn, hpc, goTo_pc]
    cases s.constructed <;> cases setting.isPath <;> rfl
  | _ => exact .inl (by simp [Logging.turn,hpc,goTo_pc,LoggingPc.holds])

theorem turn_pc_of_ne {u : Tid} (hu : u ≠ t) (outcome : BuildOutcome) :
    (s.turn u outcome).pc t = s.pc t := by
  have hgoTo : ∀ pc, (s.goTo u pc).pc t = s.pc t := fun pc => Function.update_of_ne hu.symm _ _
  cases hpc : s.pc u with
  | idle | returned | set => simp [Logging.turn,hpc]
  | locking | settingLocking =>
    simp only [Logging.turn, hpc, Logging.lock]
    split
    · exact hgoTo _
    · rfl
  | rechecking =>
    simp only [Logging.turn, hpc]
    split
    · exact hgoTo _
    · exact hgoTo _
  | _ => simp [Logging.turn,hpc,Logging.unlock,hgoTo]

theorem step_pc (ht : (s.pc t).holds = true) {e : LoggingEvent Tid} (he : e.isTurn t = false) :
    (s.step e).pc t = s.pc t := by
  have hcall : ∀ {u : Tid} (pc : LoggingPc), (s.pc u).between = true →
      (s.goTo u pc).pc t = s.pc t := by
    intro u pc hb
    refine Function.update_of_ne ?_ _ _
    rintro rfl
    simp [LoggingPc.not_holds hb] at ht
  cases e with
  | getInstance u =>
    simp only [Logging.step]
    split
    next hb => exact hcall _ hb
    next => rfl
  | set u setting =>
    simp only [Logging.step]
    split
    next hb => exact hcall _ hb
    next => rfl
  | turn u outcome => exact turn_pc_of_ne (by simpa [LoggingEvent.isTurn] using he) outcome

theorem turnsLeft_pos {pc : LoggingPc} (h : pc.holds = true) : 0 < pc.turnsLeft := by
  cases pc with
  | constructing stage => cases stage <;> simp [LoggingPc.turnsLeft]
  | _ => simp_all [LoggingPc.holds,LoggingPc.turnsLeft]

theorem section_ends {later : List (LoggingEvent Tid)} (ht : (s.pc t).holds = true)
    (hturns : (s.pc t).turnsLeft ≤ later.countP (LoggingEvent.isTurn t)) :
    ∃ before after, later = before ++ after ∧
      ((Runs.run step s before).pc t = .returned ∨
        ∃ thrown, (Runs.run step s before).pc t = .set thrown) := by
  induction later generalizing s with
  | nil =>
    have hpos := turnsLeft_pos ht
    simp only [List.countP_nil] at hturns
    omega
  | cons e later ih =>
    have hlater : (s.step e).pc t = .returned ∨ (∃ thrown, (s.step e).pc t = .set thrown) ∨
        ((s.step e).pc t).holds = true ∧
          ((s.step e).pc t).turnsLeft ≤ later.countP (LoggingEvent.isTurn t) := by
      rw [List.countP_cons] at hturns
      cases he : e.isTurn t with
      | false =>
        rw [step_pc ht he]
        exact .inr (.inr ⟨ht,by simpa [he] using hturns⟩)
      | true =>
        cases e with
        | turn u outcome =>
          obtain rfl : u = t := by simpa [LoggingEvent.isTurn] using he
          have hlt := turn_turnsLeft ht outcome
          rcases turn_left ht outcome with hin | hout | hout
          · refine .inr (.inr ⟨hin,?_⟩)
            simp only [he, if_true] at hturns
            simp only [Logging.step]
            omega
          · exact .inl hout
          · exact .inr (.inl hout)
        | _ => simp [LoggingEvent.isTurn] at he
    rcases hlater with hout | hout | ⟨hin,hturns⟩
    · exact ⟨[e],later,rfl,.inl hout⟩
    · exact ⟨[e],later,rfl,.inr hout⟩
    · obtain ⟨before,after,hsplit,hend⟩ := ih hin hturns
      exact ⟨e :: before,after,by rw [hsplit, List.cons_append],hend⟩

theorem logging_agrees (env : LogEnvironment) (events later : List (LoggingEvent Tid)) :
    Runs.Throughout step Consistent (start env) (events ++ later) ∧
      let s := Runs.run step (start env) events
      ∀ t, s.holder = some t → 12 ≤ later.countP (LoggingEvent.isTurn t) →
        ∃ before after, later = before ++ after ∧
          ((Runs.run step s before).pc t = .returned ∨
            ∃ thrown, (Runs.run step s before).pc t = .set thrown) := by
  constructor
  · exact Runs.throughout_imp (fun _ h => h.consistent)
      (Runs.throughout_always (fun _ e h => h.step e) (held_start env))
  · intro s t hholder hturns
    have hs : Held s := Runs.run_invariant (fun _ e h => h.step e) (held_start env)
    exact section_ends ((hs.excludes t).mpr hholder)
      (Nat.le_trans (LoggingPc.turnsLeft_le _) hturns)

-- A thread that asked for the logger waits while the level is set.
theorem logging_agrees_setting :
    let s : Logging Bool := Runs.run step (start ⟨none,none,none,none,none⟩)
      [.set true (.logLevel .debug),.getInstance false,.turn true .done,.turn false .done,
        .turn false .done]
    ∃ before after, List.replicate 12 (.turn true .done) = before ++ after ∧
      ((Runs.run step s before).pc true = .returned ∨
        ∃ thrown, (Runs.run step s before).pc true = .set thrown) :=
  (logging_agrees ⟨none,none,none,none,none⟩ _ _).2 true rfl (by decide)

end Logging

end WujiHand

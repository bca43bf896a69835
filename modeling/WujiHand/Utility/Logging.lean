import WujiHand.Library.MutualExclusion
import WujiHand.Library.Runs

namespace WujiHand

inductive Level where
  | trace
  | debug
  | info
  | warn
  | err
  | critical
  | off
deriving DecidableEq, Repr

structure LogEnvironment where
  logToConsole : Option String
  logToFile : Option String
  logLevel : Option String
  logPath : Option String
  defaultLogPath : Option String
deriving DecidableEq, Repr

structure LogConfig where
  logToConsole : Bool
  logToFile : Bool
  logLevel : Level
  logPath : String
deriving DecidableEq, Repr

def toLowerString (value : String) : String := value.map Char.toLower

def parseBool (value : Option String) : Option Bool :=
  match toLowerString (value.getD "") with
  | "1" | "true" | "on" | "yes" => some true
  | "0" | "false" | "off" | "no" => some false
  | _ => none

def parseLevel (value : Option String) : Option Level :=
  match toLowerString (value.getD "") with
  | "trace" => some .trace
  | "debug" => some .debug
  | "info" | "information" => some .info
  | "warn" | "warning" => some .warn
  | "err" | "error" => some .err
  | "critical" | "crit" => some .critical
  | "off" => some .off
  | _ => none

def LogConfig.new (env : LogEnvironment) : LogConfig where
  logToConsole := (parseBool env.logToConsole).getD true
  logToFile :=
    (parseBool env.logToFile).getD true && (env.logPath.isSome || env.defaultLogPath.isSome)
  logLevel := (parseLevel env.logLevel).getD .info
  logPath := (env.logPath.or env.defaultLogPath).getD ""

inductive Announcement where
  | found
  | failed
deriving DecidableEq, Repr

-- A sink is at level trace or off. The file sink keeps the path it was opened under.
structure Logger where
  consoleSink : Option Bool := none
  fileSink : Option (String × Bool) := none
  logger : Option Level := none
  announced : Option Announcement := none
deriving DecidableEq, Repr

inductive LogSetting where
  | logToConsole (value : Bool)
  | logToFile (value : Bool)
  | logLevel (value : Level)
  | logPath (value : String)
deriving DecidableEq, Repr

def LogConfig.set (c : LogConfig) : LogSetting → LogConfig
  | .logToConsole value => { c with logToConsole := value }
  | .logToFile value => { c with logToFile := value }
  | .logLevel value => { c with logLevel := value }
  | .logPath value => { c with logPath := value }

def Logger.set (l : Logger) : LogSetting → Logger
  | .logToConsole value => { l with consoleSink := l.consoleSink.map fun _ => value }
  | .logToFile value => { l with fileSink := l.fileSink.map fun f => (f.1,value) }
  | .logLevel value => { l with logger := l.logger.map fun _ => value }
  | .logPath _ => l

def LogSetting.isPath : LogSetting → Bool
  | logPath _ => true
  | _ => false

inductive LoggerStage where
  | threadPool
  | consoleSink
  | readingConsole
  | readingPath
  | readingFile (path : String)
  | openingFile (path : String)
  | creatingLogger (pathError : Bool)
  | readingLevel (pathError : Bool)
  | announcing (pathError : Bool)
deriving DecidableEq, Repr

-- What is thrown in a step may come after the member of that step has been assigned; it is caught
-- where the file is opened unless the handler itself throws, and else ends the constructor.
inductive BuildOutcome where
  | done
  | threw (assigned caught : Bool)
deriving DecidableEq, Repr

def BuildOutcome.next (stage : LoggerStage) : BuildOutcome → Option LoggerStage
  | done => some stage
  | threw .. => none

def BuildOutcome.assigns : BuildOutcome → Bool
  | done => true
  | threw assigned _ => assigned

def Logger.build (c : LogConfig) (l : Logger) (outcome : BuildOutcome) :
    LoggerStage → Logger × Option LoggerStage
  | .threadPool => (l,outcome.next .consoleSink)
  | .consoleSink =>
    (if outcome.assigns then { l with consoleSink := some true } else l,
      outcome.next .readingConsole)
  | .readingConsole =>
    (if c.logToConsole then l else { l with consoleSink := some false },outcome.next .readingPath)
  | .readingPath => (l,outcome.next (.readingFile c.logPath))
  | .readingFile path =>
    (l,if c.logToFile then
        if path.isEmpty then outcome.next (.creatingLogger true) else some (.openingFile path)
      else some (.creatingLogger false))
  | .openingFile path =>
    (if outcome.assigns then { l with fileSink := some (path,true) } else l,
      match outcome with
      | .done => some (.creatingLogger false)
      | .threw _ caught => if caught then some (.creatingLogger true) else none)
  | .creatingLogger pathError =>
    match outcome with
    | .done => ({ l with logger := some .info },some (.readingLevel pathError))
    | .threw .. => (l,none)
  | .readingLevel pathError => ({ l with logger := some c.logLevel },some (.announcing pathError))
  | .announcing pathError =>
    (match outcome with
      | .threw .. => l
      | .done =>
        if pathError then { l with announced := some .failed }
        else if c.logToFile then { l with announced := some .found } else l,none)

inductive LoggingPc where
  | idle
  | checking
  | locking
  | rechecking
  | constructing (stage : LoggerStage)
  | publishing
  | unlocking
  | returned
  | settingLocking (setting : LogSetting)
  | settingChecking (setting : LogSetting)
  | applying (setting : LogSetting)
  | storing (setting : LogSetting)
  | settingUnlocking (thrown : Bool)
  | set (thrown : Bool)
deriving DecidableEq, Repr

def LoggingPc.holds : LoggingPc → Bool
  | idle | checking | locking | returned | settingLocking _ | set _ => false
  | _ => true

def LoggingPc.between : LoggingPc → Bool
  | idle | returned | set _ => true
  | _ => false

structure Logging (Tid : Type) where
  config : LogConfig
  holder : Option Tid
  constructed : Bool
  storage : Logger
  constructions : Nat
  pc : Tid → LoggingPc

inductive LoggingEvent (Tid : Type) where
  | getInstance (t : Tid)
  | set (t : Tid) (setting : LogSetting)
  | turn (t : Tid) (outcome : BuildOutcome)
deriving DecidableEq, Repr

def LoggingEvent.isTurn {Tid : Type} [DecidableEq Tid] (t : Tid) : LoggingEvent Tid → Bool
  | turn u _ => u = t
  | _ => false

namespace Logging

variable {Tid : Type} [DecidableEq Tid]

def start (env : LogEnvironment) : Logging Tid :=
  ⟨.new env,none,false,{},0,fun _ => .idle⟩

def goTo (s : Logging Tid) (t : Tid) (pc : LoggingPc) : Logging Tid :=
  { s with pc := Function.update s.pc t pc }

def lock (s : Logging Tid) (t : Tid) (pc : LoggingPc) : Logging Tid :=
  if s.holder = none then { s.goTo t pc with holder := some t } else s

def unlock (s : Logging Tid) (t : Tid) (pc : LoggingPc) : Logging Tid :=
  { s.goTo t pc with holder := none }

def turn (s : Logging Tid) (t : Tid) (outcome : BuildOutcome) : Logging Tid :=
  match s.pc t with
  | .idle | .returned | .set _ => s
  | .checking => s.goTo t (if s.constructed then .returned else .locking)
  | .locking => s.lock t .rechecking
  | .rechecking =>
    if s.constructed then s.goTo t .unlocking
    else { s.goTo t (.constructing .threadPool) with
      storage := {}, constructions := s.constructions + 1 }
  | .constructing stage =>
    let (l,next) := s.storage.build s.config outcome stage
    { s.goTo t (next.elim .publishing .constructing) with storage := l }
  | .publishing => { s.goTo t .unlocking with constructed := true }
  | .unlocking => s.unlock t .returned
  | .settingLocking setting => s.lock t (.settingChecking setting)
  | .settingChecking setting =>
    s.goTo t (if s.constructed then
        if setting.isPath then .settingUnlocking true else .applying setting
      else .storing setting)
  | .applying setting => { s.goTo t (.storing setting) with storage := s.storage.set setting }
  | .storing setting => { s.goTo t (.settingUnlocking false) with config := s.config.set setting }
  | .settingUnlocking thrown => s.unlock t (.set thrown)

def step (s : Logging Tid) : LoggingEvent Tid → Logging Tid
  | .getInstance t => if (s.pc t).between then s.goTo t .checking else s
  | .set t setting => if (s.pc t).between then s.goTo t (.settingLocking setting) else s
  | .turn t outcome => s.turn t outcome

end Logging

end WujiHand

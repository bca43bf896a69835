import WujiHand.Device.FilteredController
import WujiHand.Device.PositionPaths
import WujiHand.Driver.Filling
import WujiHand.Handler.Receive
import WujiHand.Handler.TickLoop
import WujiHand.Library.Publication

namespace WujiHand

open Publication

inductive PdoRequest where
  | read
  | write (w : Pdo.Write)

namespace PdoRequest

def encode : PdoRequest → List Byte
  | read => Pdo.readRecord
  | write w => w.encode

def record (r : PdoRequest) : Record := ⟨pdoFrame,r.encode⟩

theorem encode_length (r : PdoRequest) :
    0 < r.encode.length ∧ r.encode.length ≤ Pdo.writeSize := by
  cases r with
  | read => decide
  | write w => exact ⟨w.encode_length ▸ by decide,w.encode_length.le⟩

end PdoRequest

-- The struct of a step call holds nothing for a joint until its value is assigned.
abbrev ActualPositions : Type := JointTable (Option Buffer8)

structure StepCall where
  since : Nat
  actual : Option ActualPositions
  targets : JointTable Buffer8

inductive RealtimeLoopPc where
  | detached
  | starting
  | handshaking (oldVersion : BitVec 64)
  | reading (oldVersion : BitVec 64)
  | triggeringRead (oldVersion : BitVec 64)
  | awaiting (oldVersion : BitVec 64)
  | controlling
  | loading (since : Nat) (pending : List JointId) (positions : ActualPositions)
  | stepping (since : Nat) (actual : Option ActualPositions)
  | writing (targets : JointTable Buffer8)
  | triggeringWrite (w : Pdo.Write)
  | pacing
  | finished
  | terminated (abort : TickAbort)

-- The realtime thread, the event thread that stores the results, and the buffer of PDO records.
-- Times are nanoseconds of the steady clock. The requests of this attachment and of those before,
-- the step calls of this one and the results counted when it began are kept beside.
structure RealtimeLoop where
  results : Board JointId (BitVec 32)
  version : BitVec 64 := 0
  stopRequested : Bool := false
  upstreamEnabled : Bool := false
  pc : RealtimeLoopPc := .detached
  clock : Nat := 0
  begin : Nat := 0
  nextIterationTime : Nat := 0
  buffer : TransmitBuffer
  earlier : List PdoRequest := []
  requests : List PdoRequest := []
  calls : List StepCall := []
  base : Nat := 0

inductive RealtimeLoopEvent where
  | attach (upstreamEnabled : Bool)
  | requestStop
  | join
  | realtime (targets : JointTable Buffer8)
  | receive (positions : JointTable (BitVec 32))
  | receiver
  | complete (id : Nat)
  | elapse (duration : Nat)

namespace RealtimeLoop

def updatePeriod : Nat := 2000000

def loadPosition (codec : PositionCodec) (t : JointId) (raw : BitVec 32) : Buffer8 :=
  realtimePositions codec (fun _ _ => raw) t.1 t.2

def timestamp (s : RealtimeLoop) : BitVec 32 :=
  BitVec.ofNat 32 ((s.nextIterationTime - s.begin) / 1000)

def create (pdoMemory : JointTable (BitVec 32)) (buffer : TransmitBuffer) : RealtimeLoop where
  results := { cells := fun t => pdoMemory t.1 t.2 }
  buffer := buffer

def attach (upstreamEnabled : Bool) (s : RealtimeLoop) : RealtimeLoop :=
  match s.pc with
  | .detached =>
    { s with
      pc := .starting, stopRequested := false, upstreamEnabled := upstreamEnabled,
      earlier := s.earlier ++ s.requests, requests := [], calls := [] }
  | _ => s

def join (s : RealtimeLoop) : RealtimeLoop :=
  match s.pc with
  | .finished => { s with pc := .detached }
  | _ => s

-- An exception that leaves the thread's function ends the process.
def fetchPdoBuffer (request : PdoRequest) (resume : RealtimeLoopPc) (s : RealtimeLoop) :
    RealtimeLoop :=
  match s.buffer.fetchPdoBuffer request.encode with
  | .error abort => { s with pc := .terminated (.driver abort) }
  | .ok (b,false) => { s with buffer := b, pc := .terminated (.exception noBufferAvailable) }
  | .ok (b,true) => { s with buffer := b, pc := resume }

def triggerTransmission (request : PdoRequest) (resume : RealtimeLoopPc) (s : RealtimeLoop) :
    RealtimeLoop :=
  match s.buffer.triggerTransmission false with
  | .error abort => { s with pc := .terminated (.driver abort) }
  | .ok b =>
    { s with
      buffer := b, pc := resume, requests := s.requests ++ [request],
      nextIterationTime := s.nextIterationTime + updatePeriod }

def realtimeStep (codec : PositionCodec) (targets : JointTable Buffer8) (s : RealtimeLoop) :
    RealtimeLoop :=
  match s.pc with
  | .detached => s
  | .starting =>
    { s with
      begin := s.clock, nextIterationTime := s.clock, base := s.results.published,
      pc := if s.upstreamEnabled then .handshaking s.version else .controlling }
  | .handshaking oldVersion =>
    { s with pc := if s.stopRequested then .controlling else .reading oldVersion }
  | .reading oldVersion => s.fetchPdoBuffer .read (.triggeringRead oldVersion)
  | .triggeringRead oldVersion => s.triggerTransmission .read (.awaiting oldVersion)
  | .awaiting oldVersion =>
    if s.clock < s.nextIterationTime then s
    else { s with pc := if s.version ≠ oldVersion then .controlling else .handshaking oldVersion }
  | .controlling =>
    if s.stopRequested then { s with pc := .finished }
    else if s.upstreamEnabled then
      { s with pc := .loading s.results.published joints fun _ _ => none }
    else { s with pc := .stepping s.results.published none }
  | .loading since [] positions => { s with pc := .stepping since (some positions) }
  | .loading since (t :: pending) positions =>
    let value := loadPosition codec t (s.results.cells t)
    { s with pc := .loading since pending (JointTable.update positions t (some value)) }
  | .stepping since actual =>
    { s with pc := .writing targets, calls := s.calls ++ [⟨since,actual,targets⟩] }
  | .writing targets =>
    let w := pdoWriteAsyncUnchecked codec s.upstreamEnabled targets s.timestamp
    s.fetchPdoBuffer (.write w) (.triggeringWrite w)
  | .triggeringWrite w => s.triggerTransmission (.write w) .pacing
  | .pacing => if s.clock < s.nextIterationTime then s else { s with pc := .controlling }
  | .finished => s
  | .terminated _ => s

def receiverStep (s : RealtimeLoop) : RealtimeLoop :=
  match s.results.writing with
  | some ([],_) => { s with results := s.results.advance, version := s.version + 1 }
  | _ => { s with results := s.results.advance }

def complete (id : Nat) (s : RealtimeLoop) : RealtimeLoop :=
  if id ∈ s.buffer.inFlight then
    match s.buffer.transmitCompleteCallback id with
    | .error abort => { s with pc := .terminated (.driver abort) }
    | .ok b => { s with buffer := b }
  else s

def apply (codec : PositionCodec) (s : RealtimeLoop) : RealtimeLoopEvent → RealtimeLoop
  | .attach upstreamEnabled => s.attach upstreamEnabled
  | .requestStop => { s with stopRequested := true }
  | .join => s.join
  | .realtime targets => s.realtimeStep codec targets
  | .receive positions =>
    { s with results := s.results.start joints fun t => positions t.1 t.2 }
  | .receiver => s.receiverStep
  | .complete id => s.complete id
  | .elapse duration => { s with clock := s.clock + duration }

-- Nothing happens any more in a process that has ended.
def step (codec : PositionCodec) (s : RealtimeLoop) (e : RealtimeLoopEvent) : RealtimeLoop :=
  match s.pc with
  | .terminated _ => s
  | _ => s.apply codec e

end RealtimeLoop

end WujiHand

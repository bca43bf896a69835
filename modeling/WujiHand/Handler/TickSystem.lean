import WujiHand.Handler.LifeCycle
import WujiHand.Handler.TickRequests

namespace WujiHand

open TransmitBuffer

variable {n : Nat} {Fn Ctx : Type}

-- Every visit is a step of its own, so that calls, frames and completions run between the visits
-- of one pass.
inductive SystemEvent (n : Nat) (Fn Ctx : Type) where
  | call (c : Call n Fn Ctx)
  | visit (id : Fin n) (now : Int)
  | flush
  | received (bytes : List Byte) (fill : Nat → Buffer8)
  | transmitted (id : Nat)
  | disableThreadSafeCheck

abbrev TickSystem (n : Nat) (Fn Ctx : Type) : Type := TickPass n Fn Ctx × Option TickAbort

namespace StorageUnit

def Parked (u : StorageUnit Fn Ctx) : Prop := u.Masked → u.Busy → u.operation.state = .waiting

theorem Parked.inert {u : StorageUnit Fn Ctx} (h : u.Parked) (hm : u.Masked) :
    u.operation.mode = .none ∨ u.operation.state = .waiting ∨ u.operation.state = .success := by
  by_cases hb : u.Busy
  · exact .inr (.inl (h hm hb))
  · exact .inl (not_not.mp hb)

theorem parked_call {codec : PositionCodec} {op : UnitCall Fn Ctx} {u u' : StorageUnit Fn Ctx}
    (h : u.Parked) (hc : u.call codec op = .ok u') : u'.Parked := by
  have hs := call_step codec op u
  rw [hc] at hs
  cases hs with
  | accepted => exact fun _ _ => rfl
  | ignored => exact h
  | replaced => exact h

theorem parked_visit (now : Int) {u : StorageUnit Fn Ctx} (h : u.Parked) :
    (u.tickVisit now).unit.Parked := by
  have hs := visit_step now u
  generalize u.tickVisit now = v at hs
  cases hs with
  | idle => exact h
  | completed => exact fun _ hb => absurd rfl hb
  | completedLate => exact fun _ hb => absurd rfl hb
  | started _ hm => exact fun hm' => absurd hm' hm
  | expired => exact fun _ hb => absurd rfl hb
  | polled => exact h
  | transmitted _ hm => exact fun hm' => absurd hm' hm

theorem parked_readSuccess (size : Size) (value : BitVec size.bits) (fill : Buffer8)
    {u : StorageUnit Fn Ctx} (h : u.Parked) : (u.readSuccess size value fill).Parked := by
  have hs := u.readSuccess_step size value fill
  generalize u.readSuccess size value fill = u' at hs
  cases hs with
  | ignored => exact h
  | refreshed hb hst => exact fun hm => absurd (h hm hb) (by simp [hst])
  | confirmed hb hst => exact fun hm => absurd (h hm hb) (by simp [hst])
  | mismatched hb hst => exact fun hm => absurd (h hm hb) (by simp [hst])

theorem parked_writeSuccess {u : StorageUnit Fn Ctx} (h : u.Parked) : u.writeSuccess.Parked := by
  have hs := u.writeSuccess_step
  generalize u.writeSuccess = u' at hs
  cases hs with
  | ignored => exact h
  | acknowledged hb hst => exact fun hm => absurd (h hm hb) (by simp [hst])

theorem request_unmasked {u : StorageUnit Fn Ctx} {now : Int} {q : SdoRequest}
    (h : (u.tickVisit now).request = some q) : ¬u.Masked ∧ q.index = u.info.index := by
  rw [visit_request, due] at h
  split at h
  · rename_i hd
    refine ⟨hd.2.1,?_⟩
    split at h <;> cases h <;> rfl
  · cases h

end StorageUnit

namespace Handler

theorem occur_parked (codec : PositionCodec) (h : Handler n Fn Ctx) (o : Occurrence n Fn Ctx)
    (hp : ∀ id, (h.storage id).Parked) (id : Fin n) : ((h.occur codec o).storage id).Parked := by
  have hs := h.unit_occurrence codec o id
  generalize (h.occur codec o).storage id = u at hs
  cases hs with
  | untouched => exact hp id
  | called caller op hu => exact StorageUnit.parked_call (hp id) hu
  | visited now => exact StorageUnit.parked_visit now (hp id)
  | readSuccess value fill => exact StorageUnit.parked_readSuccess _ value fill (hp id)
  | writeSuccess => exact StorageUnit.parked_writeSuccess (hp id)

theorem step_parked (codec : PositionCodec) (h : Handler n Fn Ctx) (e : Event n Fn Ctx)
    (hp : ∀ id, (h.storage id).Parked) : ∀ id, ((h.step codec e).storage id).Parked := by
  cases e with
  | call c => exact h.occur_parked codec (.call c) hp
  | visit id now => exact h.occur_parked codec (.visit id now) hp
  | received bytes fill =>
    obtain ⟨os,hos⟩ := received_occurs codec bytes fill h
    rw [step, hos]
    exact Runs.run_invariant (P := fun h' : Handler n Fn Ctx => ∀ id, (h'.storage id).Parked)
      (fun h' o hp => h'.occur_parked codec o hp) hp
  | disableThreadSafeCheck => exact hp

end Handler

namespace TickPass

def flush (p : TickPass n Fn Ctx) : TickSystem n Fn Ctx :=
  match p.fetchSdoBuffer [] with
  | (p,some abort) => (p,some abort)
  | (p,none) => p.triggerTransmission

def transmitted (id : Nat) (p : TickPass n Fn Ctx) : TickSystem n Fn Ctx :=
  if id ∈ p.buffer.inFlight then
    match p.buffer.transmitCompleteCallback id with
    | .error abort => (p,some (.driver abort))
    | .ok b => ({ p with buffer := b },none)
  else (p,none)

def handled (codec : PositionCodec) (p : TickPass n Fn Ctx) (e : Event n Fn Ctx) :
    TickPass n Fn Ctx :=
  { p with handler := p.handler.step codec e }

def apply (codec : PositionCodec) (p : TickPass n Fn Ctx) : SystemEvent n Fn Ctx → TickSystem n Fn Ctx
  | .call c => (p.handled codec (.call c),none)
  | .visit id now => p.visitUnit now id
  | .flush => p.flush
  | .received bytes fill => (p.handled codec (.received bytes fill),none)
  | .transmitted id => p.transmitted id
  | .disableThreadSafeCheck => (p.handled codec .disableThreadSafeCheck,none)

end TickPass

namespace TickSystem

open TickPass

-- An exception on the tick thread terminates the process.
def step (codec : PositionCodec) : TickSystem n Fn Ctx → SystemEvent n Fn Ctx → TickSystem n Fn Ctx
  | (p,some abort), _ => (p,some abort)
  | (p,none), e => p.apply codec e

def start (h : Handler n Fn Ctx) (allocTransferCount : Nat) (memory : Nat → Memory) :
    TickSystem n Fn Ctx :=
  ({ handler := h, buffer := .create allocTransferCount memory },none)

theorem run_aborted (codec : PositionCodec) (p : TickPass n Fn Ctx) (abort : TickAbort)
    (es : List (SystemEvent n Fn Ctx)) :
    Runs.run (step codec) (p,some abort) es = (p,some abort) := by
  induction es with
  | nil => rfl
  | cons e es ih => exact ih

theorem visitUnits_run (codec : PositionCodec) (now : Int) (ids : List (Fin n))
    (p : TickPass n Fn Ctx) :
    visitUnits now ids p =
      Runs.run (step codec) (p,none) (ids.map fun id => .visit id now) := by
  induction ids generalizing p with
  | nil => rfl
  | cons id ids ih =>
    rw [visitUnits, List.map_cons, Runs.run_cons, step, TickPass.apply]
    split
    · rename_i hvisit
      rw [hvisit, run_aborted]
    · rename_i hvisit
      rw [hvisit, ih]

theorem tickPass_run (codec : PositionCodec) (now : Int) (h : Handler n Fn Ctx)
    (b : TransmitBuffer) :
    h.tickPass now b = Runs.run (step codec) ({ handler := h, buffer := b },none)
      ((List.finRange n).map (fun id => .visit id now) ++ [.flush]) := by
  rw [Runs.run_append, ← visitUnits_run, Handler.tickPass]
  split
  · rename_i hvisits
    rw [hvisits, run_aborted]
  · rename_i hvisits
    rw [hvisits]
    rfl

end TickSystem

namespace TickPass

def Spares (h₀ : Handler n Fn Ctx) (r : Record) : Prop :=
  r = ⟨sdoFrame,[]⟩ ∨
    ∃ q id, r = Record.ofRequest q ∧ q.index = (h₀.storage id).info.index ∧ ¬(h₀.storage id).Masked

structure Sparing (h₀ : Handler n Fn Ctx) (p : TickPass n Fn Ctx) : Prop where
  sound : p.buffer.Sound
  layout : h₀.SameLayout p.handler
  parked : ∀ id, (p.handler.storage id).Parked
  logged : ∀ r ∈ p.buffer.log, Spares h₀ r

variable {h₀ : Handler n Fn Ctx} {p : TickPass n Fn Ctx}

theorem Sparing.masked (h : p.Sparing h₀) (id : Fin n) :
    (p.handler.storage id).Masked ↔ (h₀.storage id).Masked := by
  rw [StorageUnit.Masked, h.layout.2 id]

theorem handled_sparing (codec : PositionCodec) (e : Event n Fn Ctx) (h : p.Sparing h₀) :
    (p.handled codec e).Sparing h₀ where
  sound := h.sound
  layout := Handler.step_sameLayout codec e h.layout
  parked := p.handler.step_parked codec e h.parked
  logged := h.logged

theorem fetchSdoBuffer_sparing {record : List Byte} (h : p.Sparing h₀)
    (hsize : record.length ≤ Pdo.writeSize) (hspares : Spares h₀ ⟨sdoFrame,record⟩) :
    (p.fetchSdoBuffer record).1.Sparing h₀ ∧
      ((p.fetchSdoBuffer record).2 = none → (p.fetchSdoBuffer record).1.buffer.armed = true) := by
  obtain ⟨b,accepted,hfetch,hsound⟩ := fetchBuffer_sound h.sound (.inl rfl) hsize
  have hfetch' : p.buffer.fetchSdoBuffer record = .ok (b,accepted) := hfetch
  rw [fetchSdoBuffer, hfetch']
  cases accepted with
  | false =>
    refine ⟨⟨hsound,h.layout,h.parked,?_⟩,by simp⟩
    rw [(fetchBuffer_refuses hfetch).log]
    exact h.logged
  | true =>
    have happends := fetchBuffer_appends hfetch
    refine ⟨⟨hsound,h.layout,h.parked,?_⟩,fun _ => happends.armed⟩
    intro r hr
    rcases happends.mem_log hr with hr | rfl
    · exact h.logged r hr
    · exact hspares

theorem visitUnit_sparing (now : Int) (id : Fin n) (h : p.Sparing h₀) :
    (visitUnit now id p).1.Sparing h₀ := by
  have hvisited : (p.visited now id).Sparing h₀ :=
    ⟨h.sound,Handler.step_sameLayout .raw (.visit id now) h.layout,
      p.handler.step_parked .raw (.visit id now) h.parked,h.logged⟩
  unfold visitUnit
  cases hrequest : (p.handler.visit id now).request with
  | none => exact hvisited
  | some q =>
    obtain ⟨hm,hindex⟩ := StorageUnit.request_unmasked hrequest
    have hspares : Spares h₀ ⟨sdoFrame,q.encode⟩ :=
      .inr ⟨q,id,rfl,hindex.trans (congrArg StorageInfo.index (h.layout.2 id)),
        fun hm₀ => hm ((h.masked id).mpr hm₀)⟩
    obtain ⟨hfetched,_⟩ :=
      fetchSdoBuffer_sparing hvisited (sdoRequest_permits (b := p.buffer) q) hspares
    dsimp only
    split
    · rename_i p' abort hfetch
      rw [hfetch] at hfetched
      exact hfetched
    · rename_i p' hfetch
      rw [hfetch] at hfetched
      exact ⟨hfetched.sound,hfetched.layout,hfetched.parked,hfetched.logged⟩

theorem flush_sparing (h : p.Sparing h₀) : p.flush.1.Sparing h₀ := by
  obtain ⟨hfetched,harmed⟩ := fetchSdoBuffer_sparing h (Nat.zero_le _) (.inl rfl)
  unfold flush
  split
  · rename_i p' abort hfetch
    rw [hfetch] at hfetched
    exact hfetched
  · rename_i p' hfetch
    rw [hfetch] at hfetched harmed
    obtain ⟨b,htrigger,hsound⟩ := triggerTransmission_sound hfetched.sound (harmed rfl)
    rw [triggerTransmission, htrigger]
    refine ⟨hsound,hfetched.layout,hfetched.parked,?_⟩
    rw [(triggerTransmission_advances htrigger).log]
    exact hfetched.logged

theorem transmitted_sparing (id : Nat) (h : p.Sparing h₀) : (p.transmitted id).1.Sparing h₀ := by
  unfold transmitted
  split
  · rename_i hid
    obtain ⟨b,hok,hsound,_⟩ := transmitCompleteCallback_sound h.sound hid
    rw [hok]
    exact ⟨hsound,h.layout,h.parked,fun r hr => h.logged r (complete_mem_log hok hr)⟩
  · exact h

theorem apply_sparing (codec : PositionCodec) (e : SystemEvent n Fn Ctx) (h : p.Sparing h₀) :
    (p.apply codec e).1.Sparing h₀ := by
  cases e with
  | call c => exact handled_sparing codec (.call c) h
  | visit id now => exact visitUnit_sparing now id h
  | flush => exact flush_sparing h
  | received bytes fill => exact handled_sparing codec (.received bytes fill) h
  | transmitted id => exact transmitted_sparing id h
  | disableThreadSafeCheck => exact handled_sparing codec .disableThreadSafeCheck h

theorem Sparing.requests (h : p.Sparing h₀) {s : Submission} (hs : s ∈ p.buffer.submitted) :
    s.CarriesRequests ∧ ∀ q ∈ s.requests, ∃ id, q.index = (h₀.storage id).info.index ∧
      ¬(h₀.storage id).Masked := by
  have hspares : ∀ r ∈ s.records, Spares h₀ r := fun r hr =>
    h.logged r (mem_log.mpr (.inl ⟨s,hs,hr⟩))
  have hbuffered : ∀ r ∈ s.records, Submission.Buffered r := by
    intro r hr
    rcases hspares r hr with hempty | ⟨q,_,hq,_⟩
    · exact .inr hempty
    · exact .inl ⟨q,hq⟩
  obtain ⟨hcarries,hrequests⟩ := Submission.carriesRequests (h.sound.submitted s hs) hbuffered
  refine ⟨hcarries,fun q hq => ?_⟩
  rw [hrequests] at hq
  obtain ⟨r,hr,hq⟩ := List.mem_flatMap.mp hq
  rcases hspares r hr with rfl | ⟨q',id,rfl,hindex,hm⟩
  · cases hq
  · rw [Record.requests_ofRequest] at hq
    obtain rfl := List.mem_singleton.mp hq
    exact ⟨id,hindex,hm⟩

end TickPass

namespace TickSystem

open TickPass

theorem start_sparing (s : FreshHandler n Fn Ctx) (allocTransferCount : Nat)
    (memory : Nat → Memory) : (start s.handler allocTransferCount memory).1.Sparing s.handler where
  sound := sound_create allocTransferCount memory
  layout := ⟨rfl,fun _ => rfl⟩
  parked := fun id _ hb => absurd (congrArg Operation.mode (s.idle id)) hb
  logged := by
    intro r hr
    rcases mem_log.mp hr with ⟨s,hs,_⟩ | ⟨id,_,hr⟩
    · cases hs
    · cases hr

theorem run_sparing (codec : PositionCodec) {h₀ : Handler n Fn Ctx} {s : TickSystem n Fn Ctx}
    (hs : s.1.Sparing h₀) (es : List (SystemEvent n Fn Ctx)) :
    (Runs.run (step codec) s es).1.Sparing h₀ := by
  refine Runs.run_invariant (P := fun s : TickSystem n Fn Ctx => s.1.Sparing h₀) ?_ hs
  rintro ⟨p,abort⟩ e hp
  cases abort with
  | none => exact apply_sparing codec e hp
  | some abort => exact hp

end TickSystem

end WujiHand

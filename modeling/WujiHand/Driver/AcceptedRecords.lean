import WujiHand.Driver.RecordLog

namespace WujiHand

def TransmitEvent.request : TransmitEvent → Option Record
  | .fetchSdo record => some ⟨sdoFrame,record⟩
  | .fetchPdo record => some ⟨pdoFrame,record⟩
  | .trigger _ | .complete _ => none

namespace TransmitBuffer

variable {b b' : TransmitBuffer}

def reports (b : TransmitBuffer) (r : Record) : Bool :=
  match b.fetchBuffer r.type r.bytes with
  | .ok (_,found) => found
  | .error _ => false

def accepted (b : TransmitBuffer) (e : TransmitEvent) : List Record :=
  e.request.toList.filter b.reports

def fetchedNext (b : TransmitBuffer) (fetched : Nat → List Record) (e : TransmitEvent) (id : Nat) :
    List Record :=
  match e with
  | .complete done => if done = id ∧ done ∈ b.inFlight then [] else fetched id
  | e => fetched id ++ (b.accepted e).filter fun r => b.landing r.type r.bytes.length = some id

def acceptedRecords : Except TxAbort TransmitBuffer → List TransmitEvent → List Record
  | .error _, _ | .ok _, [] => []
  | .ok b, e :: es => b.accepted e ++ acceptedRecords (step (.ok b) e) es

-- The records accepted for each transfer since it was last completed.
def fetchedSince (fetched : Nat → List Record) :
    Except TxAbort TransmitBuffer → List TransmitEvent → Nat → List Record
  | .error _, _ | .ok _, [] => fetched
  | .ok b, e :: es => fetchedSince (b.fetchedNext fetched e) (step (.ok b) e) es

structure Submits (fetched : Nat → List Record) (b b' : TransmitBuffer) (ids : List Nat) :
    Prop where
  free : ∃ rest, b.freeTransfers = ids ++ rest ∧ rest <+: b'.freeTransfers
  flying : ∀ id ∈ ids, id ∈ b'.inFlight
  submitted : b'.submitted = b.submitted ++ ids.map fun id => ⟨b'.transfers id,fetched id⟩

structure Tracks (b : TransmitBuffer) (fetched : Nat → List Record) (log : List Record) :
    Prop where
  sound : b.Sound
  fresh : b.Fresh
  records : b.records = fetched
  log : b.log = log

theorem Pops.submits {ids : List Nat} (h : b.Pops b' ids) : Submits b.records b b' ids where
  free := ⟨b'.freeTransfers,h.free,List.prefix_rfl⟩
  flying := by
    intro id hid
    rw [h.flying]
    exact List.mem_append_left _ (List.mem_reverse.mpr hid)
  submitted := h.submitted

theorem create_tracks (allocTransferCount : Nat) (memory : Nat → Memory) :
    (create allocTransferCount memory).Tracks (fun _ => []) [] where
  sound := sound_create allocTransferCount memory
  fresh := (create_rested allocTransferCount memory).fresh_log.1
  records := rfl
  log := (create_rested allocTransferCount memory).fresh_log.2

theorem reports_eq {type : Byte} {record : List Byte} {found : Bool}
    (hok : b.fetchBuffer type record = .ok (b',found)) : b.reports ⟨type,record⟩ = found := by
  rw [reports, hok]

theorem Appends.records {type : Byte} {record : List Byte} (h : Appends type record b b') :
    b'.records = fun id => b.records id ++
      [(⟨type,record⟩ : Record)].filter fun r => b.landing r.type r.bytes.length = some id := by
  obtain ⟨b₁,id,hadvances,hextends,hlanding⟩ := h.extended
  have hrecords := hextends.records
  rw [hadvances.records] at hrecords
  funext j
  rw [hrecords, List.filter_singleton]
  by_cases heq : j = id
  · rw [heq, Function.update_self, decide_eq_true hlanding]
    rfl
  · have hother : ¬b.landing type record.length = some j := by
      rw [hlanding]
      exact fun h => heq (Option.some.inj h).symm
    rw [Function.update_of_ne heq, decide_eq_false hother]
    exact (List.append_nil _).symm

theorem fetchBuffer_tracks {fetched : Nat → List Record} {log : List Record} {type : Byte}
    {record : List Byte} (h : b.Tracks fetched log) (htype : type = sdoFrame ∨ type = pdoFrame)
    (hsize : record.length ≤ Pdo.writeSize) :
    ∃ b' ids, (b.fetchBuffer type record).map Prod.fst = .ok b' ∧
      b'.Tracks (fun id => fetched id ++ ([(⟨type,record⟩ : Record)].filter b.reports).filter
        fun r => b.landing r.type r.bytes.length = some id)
        (log ++ [(⟨type,record⟩ : Record)].filter b.reports) ∧ b.Pops b' ids := by
  obtain ⟨b',found,hfetch,hsound⟩ := fetchBuffer_sound h.sound htype hsize
  have hreports := reports_eq hfetch
  rw [List.filter_singleton, hreports]
  cases found with
  | true =>
    have happends := fetchBuffer_appends hfetch
    obtain ⟨hlog,hfresh,_⟩ := happends.log h.fresh
    obtain ⟨ids,hpops⟩ := happends.pops h.fresh.nodup
    refine ⟨b',ids,by rw [hfetch]; rfl,⟨hsound,hfresh,?_,?_⟩,hpops⟩
    · rw [happends.records, h.records]
      rfl
    · rw [hlog, h.log]
      rfl
  | false =>
    have hadvances := fetchBuffer_refuses hfetch
    obtain ⟨ids,hpops⟩ := hadvances.pops h.fresh.nodup
    refine ⟨b',ids,by rw [hfetch]; rfl,⟨hsound,h.fresh.advances hadvances,?_,?_⟩,hpops⟩
    · rw [hadvances.records, h.records]
      funext id
      exact (List.append_nil _).symm
    · rw [hadvances.log, h.log]
      exact (List.append_nil _).symm

theorem triggerTransmission_tracks {fetched : Nat → List Record} {log : List Record}
    {allowEmpty : Bool} (h : b.Tracks fetched log) (harmed : b.armed = true) :
    ∃ b' ids, b.triggerTransmission allowEmpty = .ok b' ∧ b'.Tracks fetched log ∧
      b.Pops b' ids := by
  obtain ⟨b',hok,hsound⟩ : ∃ b', b.triggerTransmission allowEmpty = .ok b' ∧ b'.Sound :=
    triggerTransmission_sound h.sound harmed
  have hadvances := triggerTransmission_advances hok
  obtain ⟨ids,hpops⟩ := hadvances.pops h.fresh.nodup
  exact ⟨b',ids,hok,⟨hsound,h.fresh.advances hadvances,hadvances.records.trans h.records,
    hadvances.log.trans h.log⟩,hpops⟩

theorem transmitCompleteCallback_fresh {id : Nat} (hsound : b.Sound) (h : b.Fresh)
    (hid : id ∈ b.inFlight) (hok : b.transmitCompleteCallback id = .ok b') :
    b'.Fresh ∧ b'.log = b.log ∧ b'.submitted = b.submitted ∧
      b'.records = Function.update b.records id [] := by
  have hlanded := recycled_ne hsound.nodup hid
  unfold transmitCompleteCallback at hok
  split at hok
  · cases hok
  split at hok
  · cases hok
    have hsame : ∀ j ∈ b.freeTransfers, Function.update b.records id [] j = b.records j :=
      fun j hj => Function.update_of_ne (hlanded j hj) ..
    refine ⟨⟨?_,?_⟩,?_,rfl,rfl⟩
    · refine List.nodup_append.mpr ⟨h.nodup,List.nodup_singleton id,?_⟩
      intro j hj k hk
      rw [List.mem_singleton.mp hk]
      exact hlanded j hj
    · intro j hj
      dsimp only at hj ⊢
      cases hfree : b.freeTransfers with
      | nil =>
        rw [hfree] at hj
        cases hj
      | cons first rest =>
        rw [hfree] at hj
        rcases List.mem_append.mp hj with hj | hj
        · rw [hsame j (hfree ▸ List.mem_cons_of_mem _ hj)]
          exact h.empty j (hfree ▸ hj)
        · rw [List.mem_singleton.mp hj, Function.update_self]
    · simp only [log, setTransfer, List.flatMap_append, List.flatMap_cons, List.flatMap_nil,
        List.append_nil, Function.update_self]
      rw [List.flatMap_congr hsame]
  · cases hok

theorem apply_tracks {fetched : Nat → List Record} {log : List Record} {e : TransmitEvent}
    (h : b.Tracks fetched log) (hpermits : b.Permits e) :
    ∃ b' ids, b.apply e = .ok b' ∧ b'.Tracks (b.fetchedNext fetched e) (log ++ b.accepted e) ∧
      Submits fetched b b' ids := by
  cases e with
  | fetchSdo record =>
    obtain ⟨b',ids,hok,htracks,hpops⟩ := fetchBuffer_tracks h (.inl rfl) hpermits
    exact ⟨b',ids,hok,htracks,h.records ▸ hpops.submits⟩
  | fetchPdo record =>
    obtain ⟨b',ids,hok,htracks,hpops⟩ := fetchBuffer_tracks h (.inr rfl) hpermits
    exact ⟨b',ids,hok,htracks,h.records ▸ hpops.submits⟩
  | trigger allowEmpty =>
    obtain ⟨b',ids,hok,htracks,hpops⟩ := triggerTransmission_tracks h hpermits
    refine ⟨b',ids,hok,?_,h.records ▸ hpops.submits⟩
    have hnone : b.fetchedNext fetched (.trigger allowEmpty) = fetched := by
      funext id
      exact List.append_nil _
    rw [hnone]
    exact (List.append_nil log).symm ▸ htracks
  | complete id =>
    have hnone : log ++ b.accepted (.complete id) = log := List.append_nil log
    rw [hnone]
    by_cases hid : id ∈ b.inFlight
    · obtain ⟨b',hok,hsound,hfree,_⟩ := transmitCompleteCallback_sound h.sound hid
      obtain ⟨hfresh,hlog,hsubmitted,hrecords⟩ :=
        transmitCompleteCallback_fresh h.sound h.fresh hid hok
      refine ⟨b',[],by simp only [apply, if_pos hid, hok],
        ⟨hsound,hfresh,?_,hlog.trans h.log⟩,⟨b.freeTransfers,rfl,?_⟩,nofun,?_⟩
      · rw [hrecords, h.records]
        funext j
        by_cases heq : id = j
        · subst heq
          rw [Function.update_self, fetchedNext, if_pos ⟨rfl,hid⟩]
        · rw [Function.update_of_ne (Ne.symm heq), fetchedNext, if_neg (fun hd => heq hd.1)]
      · rw [hfree]
        exact List.prefix_append ..
      · rw [hsubmitted, List.map_nil, List.append_nil]
    · have hsame : b.fetchedNext fetched (.complete id) = fetched := by
        funext j
        rw [fetchedNext, if_neg (fun hd => hid hd.2)]
      rw [hsame]
      exact ⟨b,[],by simp only [apply, if_neg hid],h,⟨b.freeTransfers,rfl,List.prefix_rfl⟩,nofun,
        by rw [List.map_nil, List.append_nil]⟩

theorem run_tracks {fetched : Nat → List Record} {log : List Record} {es : List TransmitEvent}
    (h : b.Tracks fetched log) (hpermitted : Runs.Along step Permitted (.ok b) es) :
    ∃ b', Runs.run step (.ok b) es = .ok b' ∧
      b'.Tracks (fetchedSince fetched (.ok b) es) (log ++ acceptedRecords (.ok b) es) := by
  induction es generalizing b fetched log with
  | nil => exact ⟨b,rfl,(List.append_nil log).symm ▸ h⟩
  | cons e es ih =>
    obtain ⟨b',_,hok,htracks,_⟩ := apply_tracks h hpermitted.1
    have hstep : step (.ok b) e = .ok b' := hok
    obtain ⟨b'',hrun,htracks'⟩ := ih htracks (hstep ▸ hpermitted.2)
    refine ⟨b'',by rw [Runs.run_cons, hstep, hrun],?_⟩
    rw [acceptedRecords, fetchedSince, hstep, ← List.append_assoc]
    exact htracks'

theorem submissions_are_wire_images (allocTransferCount : Nat) (memory : Nat → Memory)
    (es : List TransmitEvent)
    (h : Runs.Along step Permitted (.ok (create allocTransferCount memory)) es) :
    ∃ b, Runs.run step (.ok (create allocTransferCount memory)) es = .ok b ∧
      (∀ s ∈ b.submitted, s.WireImage) ∧
      b.submitted.flatMap Submission.records ++ b.freeTransfers.flatMap
          (fetchedSince (fun _ => []) (.ok (create allocTransferCount memory)) es) =
        acceptedRecords (.ok (create allocTransferCount memory)) es ∧
      ∀ before e after, es = before ++ e :: after → ∃ b₀ b₁ ids,
        Runs.run step (.ok (create allocTransferCount memory)) before = .ok b₀ ∧
        b₀.apply e = .ok b₁ ∧
        Submits (fetchedSince (fun _ => []) (.ok (create allocTransferCount memory)) before)
          b₀ b₁ ids := by
  have hstart := create_tracks allocTransferCount memory
  obtain ⟨b,hrun,htracks⟩ := run_tracks hstart h
  refine ⟨b,hrun,htracks.sound.submitted,?_,?_⟩
  · rw [← htracks.records]
    exact htracks.log
  · rintro before e after rfl
    obtain ⟨hbefore,hrest⟩ := Runs.along_append.mp h
    obtain ⟨b₀,hrun₀,htracks₀⟩ := run_tracks hstart hbefore
    rw [hrun₀] at hrest
    obtain ⟨b₁,ids,hok,_,hsubmits⟩ := apply_tracks htracks₀ hrest.1
    exact ⟨b₀,b₁,ids,hrun₀,hok,hsubmits⟩

def reusedTransfer : List TransmitEvent :=
  [.fetchSdo [0x30,0x52,0xA4,0x02], .fetchPdo Pdo.readRecord, .trigger false, .complete 0,
    .fetchSdo [], .trigger true]

theorem reusedTransfer_wireImages :
    ∃ b, Runs.run step (.ok (create 2 fun _ => unclearedMemory)) reusedTransfer = .ok b ∧
      (∀ s ∈ b.submitted, s.WireImage) ∧
      b.submitted.flatMap Submission.records ++ b.freeTransfers.flatMap
          (fetchedSince (fun _ => []) (.ok (create 2 fun _ => unclearedMemory)) reusedTransfer) =
        [⟨sdoFrame,[0x30,0x52,0xA4,0x02]⟩,⟨pdoFrame,Pdo.readRecord⟩,⟨sdoFrame,[]⟩] ∧
      fetchedSince (fun _ => []) (.ok (create 2 fun _ => unclearedMemory)) reusedTransfer 0 =
        [⟨sdoFrame,[]⟩] := by
  obtain ⟨b,hrun,himages,hrecords,_⟩ :=
    submissions_are_wire_images 2 (fun _ => unclearedMemory) reusedTransfer (by decide +kernel)
  exact ⟨b,hrun,himages,hrecords.trans (by decide +kernel),by decide +kernel⟩

end TransmitBuffer

end WujiHand

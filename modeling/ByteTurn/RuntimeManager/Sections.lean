import ByteTurn.RuntimeManager.Placement

/-!
# ByteTurn.RuntimeManager.Sections

Every section of every thread keeps `EntriesPlaced`.

One lemma for each way a section changes the state: an entry that only changes
inside (`EntriesPlaced.inert`), `stop_entry`, an operation, a startup worker, the
supervisor.  `entriesPlaced_of_reachable` collects them.
-/

namespace ByteTurn

open Incarnation

/-- The entries of a manager are where they should be, and each has moved along
its machine since they were `past`. -/
structure EntriesPlaced (past : List Entry) (s : RuntimeState) : Prop where
  live : AllLive past s.entries
  queued : Queued s.entries s.pending
  held : WorkerHeld s.entries s.workers
  scanned : Scanned s.entries s.registry s.supervisor
  leased : Leased s.entries s.operations

variable {config : RuntimeConfig} {s t : RuntimeState} {ref j w : Nat} {e : Entry}
  {reason : SessionOutcome} {type : RuntimeNotificationType} {past : List Entry}

/-! ## what a notification leaves alone -/

/-- The parts of the state that say where the entries are have not changed. -/
structure SamePlaces (s t : RuntimeState) : Prop where
  entries : t.entries = s.entries
  pending : t.pending = s.pending
  workers : t.workers = s.workers
  registry : t.registry = s.registry
  supervisor : t.supervisor = s.supervisor
  operations : t.operations = s.operations

theorem SamePlaces.refl (s : RuntimeState) : SamePlaces s s := by
  constructor <;> rfl

/-- A notification moves nobody. -/
theorem publish_places : SamePlaces s (s.publish config e type) := by
  unfold RuntimeState.publish
  constructor <;> grind [RuntimeState.dropNotification, RuntimeState.enqueueNotification]

/-- Entries are placed by the places alone. -/
theorem EntriesPlaced.same (h : EntriesPlaced past s) (hc : SamePlaces s t) : EntriesPlaced past t := by
  obtain ⟨h1, h2, h3, h4, h5⟩ := h
  constructor <;> simpa only [hc.entries, hc.pending, hc.workers, hc.registry, hc.supervisor,
    hc.operations]

/-! ## changes inside an entry -/

/-- A change that no place depends on. -/
structure Inert (e e' : Entry) : Prop where
  handle : e'.handle = e.handle
  retired : e'.retired = e.retired
  startupDone : e'.startupDone = e.startupDone
  reserved : e'.phase = .reserved ↔ e.phase = .reserved
  retiring : e'.phase = .retiring ↔ e.phase = .retiring
  session : e'.session.isSome = e.session.isSome
  stopRequested : e.stopRequested = true → e'.stopRequested = true

theorem Inert.refl (e : Entry) : Inert e e := by
  constructor <;> first | rfl | exact id

/-- What a session does by itself leaves a start in order. -/
theorem StartupOk.inert {place : StartupPlace} {e' : Entry} (h : StartupOk place e)
    (hi : Inert e e') : StartupOk place e' := by
  obtain ⟨hdone, htaken, hsession⟩ := h
  refine ⟨hi.startupDone.trans hdone, mt hi.reserved.mp htaken, ?_⟩
  have hsome := hi.session
  have hstop := hi.stopRequested
  cases place <;> simp only at hsession ⊢ <;> grind

/-- It leaves a visit in order too. -/
theorem StageOk.inert {stage : VisitStage} {e' : Entry} (h : StageOk stage e) (hi : Inert e e') :
    StageOk stage e' :=
  ⟨hi.startupDone.trans h.done, fun hl => mt hi.retiring.mp (h.early hl),
    fun hd => hi.stopRequested (h.decided hd),
    fun hl => ⟨hi.retiring.mpr (h.late hl).1, hi.retired.trans (h.late hl).2⟩⟩

/-- A section that changes an entry inside, and perhaps the operations. -/
theorem EntriesPlaced.inert {f : Entry → Entry} {operations : List Operation} (h : EntriesPlaced past s)
    (hf : ∀ e, s.entries[ref]? = some e → Lives past[ref]? e → Lives past[ref]? (f e) ∧ Inert e (f e))
    (hleased : Leased (s.entries.modify ref f) operations) :
    EntriesPlaced past { s.modifyEntry ref f with operations := operations } := by
  have hinert : ∀ e, s.entries[ref]? = some e → Inert e (f e) := fun e he =>
    (hf e he (h.live.each ref e he)).2
  exact {
    live := h.live.modify fun e he hl => (hf e he hl).1
    queued := h.queued.modify fun e he => (hinert e he).reserved
    held := h.held.modify fun e place he hok => hok.inert (hinert e he)
    scanned := h.scanned.modify
      (fun e he => ⟨(hinert e he).handle, (hinert e he).retired, (hinert e he).retiring⟩)
      (fun e stage he hok => hok.inert (hinert e he))
    leased := hleased }

/-! ## `stop_entry` -/

/-- A stop changes no handle. -/
theorem stop_handle (e : Entry) (reason : SessionOutcome) : (e.stop reason).handle = e.handle := by
  unfold Entry.stop; split <;> rfl

/-- It promises no retirement. -/
theorem stop_retired (e : Entry) (reason : SessionOutcome) :
    (e.stop reason).retired = e.retired := by
  unfold Entry.stop; split <;> rfl

/-- It ends no operation. -/
theorem stop_operations (e : Entry) (reason : SessionOutcome) :
    (e.stop reason).operations = e.operations := by
  unfold Entry.stop; split <;> rfl

/-- A stop is inert unless it cancels a reservation. -/
theorem stop_inert (hs : Sound e) (hc : e.cancelsReservation = false) :
    Inert e (e.stop reason) := by
  unfold Entry.stop
  split
  · next hacc =>
    simp only [Entry.acceptsStop, Bool.and_eq_true, decide_eq_true_eq] at hacc
    have hphase : e.phase ≠ .reserved := by
      intro hp
      have hstop := hs.not_stopped (by simp [hp]) (by simp [hp])
      simp [Entry.cancelsReservation, hp, hstop] at hc
    constructor <;> simp [hc, hphase, hacc.1]
  · exact .refl e

/-- A stop that cancels a reservation is accepted. -/
theorem cancelsReservation_accepts (hc : e.cancelsReservation = true) :
    e.acceptsStop reason = true := by
  simp only [Entry.cancelsReservation, Bool.and_eq_true, Bool.not_eq_true', decide_eq_true_eq] at hc
  simp [Entry.acceptsStop, hc.1, hc.2]

/-- What `stop_entry` does to the places. -/
def RuntimeState.stopPlaces (s : RuntimeState) (ref : Nat) (reason : SessionOutcome) :
    RuntimeState :=
  { s.modifyEntry ref (·.stop reason) with
    pending := if (s.entries[ref]?).any Entry.cancelsReservation then s.pending.erase ref
      else s.pending }

/-- A stop moves nobody but the entry it cancels. -/
theorem stopEntry_places : SamePlaces (s.stopPlaces ref reason) (s.stopEntry config ref reason) := by
  have hsame (hstop : ∀ e, s.entries[ref]? = some e → e.stop reason = e)
      (hany : (s.entries[ref]?).any Entry.cancelsReservation = false) :
      s.stopPlaces ref reason = s := by
    rw [RuntimeState.stopPlaces, hany, RuntimeState.modifyEntry, modify_same hstop]
    rfl
  unfold RuntimeState.stopEntry
  split
  · next hnone =>
    rw [hsame (by simp [hnone]) (by simp [hnone])]
    exact .refl s
  · next e he =>
    split
    · next hacc =>
      have hplaces : s.stopPlaces ref reason = RuntimeState.modifyEntry
          (if e.cancelsReservation then { s with pending := s.pending.erase ref } else s) ref
          (·.stop reason) := by
        simp only [RuntimeState.stopPlaces, he, Option.any_some]
        split <;> rfl
      rw [hplaces]
      by_cases hstopped : e.stopRequested = true
      · simp only [hstopped, if_true]
        exact .refl _
      · simp only [hstopped]
        exact publish_places
    · next hacc =>
      have hstop : e.stop reason = e := if_neg hacc
      have hcancels : e.cancelsReservation = false := by
        by_contra hc
        exact hacc (cancelsReservation_accepts (by simpa using hc))
      rw [hsame (by simp [he, hstop]) (by simp [he, hcancels])]
      exact .refl s

/-- An incarnation lives through a stop. -/
theorem Incarnation.Lives.stop {was : Option Entry} (h : Lives was e) (hr : reason.isCause = true) :
    Lives was (e.stop reason) :=
  h.step (a := .stop reason) (if_pos hr)

/-- Cancelling a reservation: the entry leaves the queue, and nobody holds it. -/
theorem EntriesPlaced.cancel (h : EntriesPlaced past s) (he : s.entries[ref]? = some e)
    (hc : e.cancelsReservation = true) (hr : reason.isCause = true) :
    EntriesPlaced past { s.modifyEntry ref (·.stop reason) with pending := s.pending.erase ref } := by
  have hphase : e.phase = .reserved := by
    simp only [Entry.cancelsReservation, Bool.and_eq_true, decide_eq_true_eq] at hc
    exact hc.2
  have hnotDone := ((h.live.each ref e he).sound.reserved hphase).1
  have hstop : (e.stop reason).phase = .stopRequested := by
    rw [Entry.stop, if_pos (cancelsReservation_accepts hc)]
  have heq : ∀ d, s.entries[ref]? = some d → d = e := fun d hd =>
    Option.some.inj (hd.symm.trans he)
  exact {
    live := h.live.modify fun d hd hl => Incarnation.Lives.stop hl hr
    queued := h.queued.remove fun d hd => by rw [heq d hd, hstop]; simp
    held := h.held.modify fun d place hd hok => absurd (heq d hd ▸ hphase) hok.taken
    scanned := h.scanned.modify
      (fun d hd => ⟨stop_handle d reason, stop_retired d reason, by rw [heq d hd, hstop, hphase]; simp⟩)
      (fun d stage hd hok => absurd hok.done (by rw [heq d hd, hnotDone]; simp))
    leased := h.leased.modify fun d hd => stop_operations d reason }

/-- A stop keeps every entry in its place. -/
theorem EntriesPlaced.stopEntry (h : EntriesPlaced past s) (hr : reason.isCause = true) :
    EntriesPlaced past (s.stopEntry config ref reason) := by
  refine EntriesPlaced.same ?_ stopEntry_places
  rw [RuntimeState.stopPlaces]
  split
  · next hany =>
    obtain ⟨e, he, hc⟩ := (Option.any_eq_true _ _).mp hany
    exact h.cancel he hc hr
  · next hany =>
    refine h.inert (fun e he hl => ⟨Incarnation.Lives.stop hl hr, stop_inert hl.sound ?_⟩)
      (h.leased.modify fun e _ => stop_operations e reason)
    rw [he, Option.any_some] at hany
    simpa using hany

/-! ## the public operations -/

theorem replicate_ref {n : Nat} {place : StartupPlace}
    (hw : (List.replicate n StartupPlace.waiting)[w]? = some place) : place.ref = none := by
  obtain rfl := List.eq_of_mem_replicate (List.mem_of_getElem? hw)
  rfl

/-- Workers that wait hold nothing. -/
theorem WorkerHeld.init (n : Nat) : WorkerHeld [] (List.replicate n .waiting) where
  holds := fun w place ref hw href => by
    rw [replicate_ref hw] at href
    contradiction
  single := fun w w' place place' ref hw hw' href href' => by
    rw [replicate_ref hw] at href
    contradiction

/-- A sweep that has not begun has seen nothing. -/
theorem Scanned.init : Scanned [] ∅ .collecting where
  registered := fun ref e he => by simp at he
  keyed := fun id ref hr => by simp at hr
  late := fun ref e he => by simp at he
  visiting := fun ref stage rest hs => by simp at hs
  rest := fun ref hr => by simp [SupervisorPlace.rest] at hr
  nodup := List.nodup_nil

/-- A new runtime has nothing to place. -/
theorem EntriesPlaced.init (config : RuntimeConfig) : EntriesPlaced [] (runtimeManager config).init where
  live := ⟨Nat.le_refl _, fun ref e he => by simp [runtimeManager] at he⟩
  queued := ⟨List.nodup_nil, fun ref => by simp [runtimeManager]⟩
  held := WorkerHeld.init config.startupWorkers
  scanned := Scanned.init
  leased := ⟨fun ref e he => by simp [runtimeManager] at he, fun op hop => by
    simp [runtimeManager] at hop⟩

/-- A rejection that is counted moves nobody. -/
theorem recordRejection_places (status : AdmissionStatus) :
    SamePlaces s (s.recordRejection status) := by
  constructor <;> rfl

/-- An admission passes every check. -/
theorem admissionStatus_accepted {id : Bytes} (h : s.admissionStatus config id = .accepted) :
    s.counters.lifecycle = .running ∧ s.registry.lookup id = none ∧
      s.registry.size < config.maxSessions ∧ s.pending.length < config.maxPendingStarts ∧
      s.generation ≠ maxUInt64 := by
  unfold RuntimeState.admissionStatus at h
  split at h <;> try contradiction
  split at h <;> try contradiction
  split at h <;> try contradiction
  split at h <;> try contradiction
  split at h <;> try contradiction
  next h1 h2 h3 h4 h5 =>
  exact ⟨by simpa using h1, by simpa using h2, by omega, by omega, h5⟩

/-- A new entry is placed in the queue. -/
theorem EntriesPlaced.reserve {entry : Entry} {handle : SessionHandle} {factory : Option Nat}
    (h : EntriesPlaced past s) (hentry : entry = { handle := handle, factory := factory })
    (hfree : s.registry.lookup handle.id = none) : EntriesPlaced past (s.reserve config entry) := by
  subst hentry
  refine EntriesPlaced.same ?_ publish_places
  exact {
    live := h.live.append (Lives.init handle factory)
    queued := h.queued.append rfl
    held := h.held.append _
    scanned := h.scanned.append hfree (by simp) rfl
    leased := h.leased.append rfl }

/-- `add` keeps every entry in its place. -/
theorem EntriesPlaced.add (h : EntriesPlaced past s) (id : Bytes) (factory : Option Nat) (allocationFails : Bool) :
    EntriesPlaced past (s.add config id factory allocationFails).1 := by
  have hrejected (status : AdmissionStatus) : EntriesPlaced past (s.recordRejection status) :=
    h.same (recordRejection_places status)
  unfold RuntimeState.add
  split
  · exact hrejected .invalidRequest
  · split
    · next hstatus =>
      have hplaces : SamePlaces s { s with generation := s.generation + 1 } := by
        constructor <;> rfl
      have hfree := (admissionStatus_accepted hstatus).2.1
      split
      · exact h.same hplaces
      · exact (h.same hplaces).reserve rfl hfree
    · exact hrejected _

/-- So do `remove` and `fail`. -/
theorem EntriesPlaced.remove (h : EntriesPlaced past s) (handle : SessionHandle) (hr : reason.isCause = true) :
    EntriesPlaced past (s.remove config handle reason).1 := by
  unfold RuntimeState.remove
  split
  · exact h
  · split
    · exact h
    · split
      · exact h
      · exact h.stopEntry hr

/-- What is found has the id and the generation of the handle. -/
theorem matching_some {handle : SessionHandle}
    (hm : s.matching config handle = some (ref, e)) :
    s.registry.lookup handle.id = some ref ∧ s.entries[ref]? = some e ∧
      handle.runtimeId = config.runtimeId ∧ e.handle.generation = handle.generation := by
  unfold RuntimeState.matching at hm
  split at hm <;> try contradiction
  next hid =>
  split at hm <;> try contradiction
  next r d hbind =>
  split at hm <;> try contradiction
  next hgen =>
  cases hm
  obtain ⟨k, hlookup, hmap⟩ := Option.bind_eq_some_iff.mp hbind
  obtain ⟨d, hd, heq⟩ := Option.map_eq_some_iff.mp hmap
  cases heq
  exact ⟨hlookup, hd, by simpa using hid, by simpa using hgen⟩

/-- Counting an operation in or out is inert. -/
theorem inert_operations (e : Entry) (n : Nat) : Inert e { e with operations := n } := by
  constructor <;> first | rfl | exact id

/-- The admission of an operation keeps every entry in its place. -/
theorem EntriesPlaced.admitOperation (h : EntriesPlaced past s) (handle : SessionHandle) (call : SessionCall) :
    EntriesPlaced past (s.admitOperation config handle call).1 := by
  unfold RuntimeState.admitOperation
  split
  · exact h
  · next ref e hmatching =>
    split
    · next hadmitted =>
      obtain ⟨-, he, -⟩ := matching_some hmatching
      refine h.inert (fun d hd hl => ⟨hl.step (a := .lease) (if_pos ?_), inert_operations d _⟩)
        (h.leased.lease he rfl)
      obtain rfl := Option.some.inj (hd.symm.trans he)
      exact hadmitted.2.1
    · exact h

/-- So does a shutdown. -/
theorem EntriesPlaced.requestShutdown (h : EntriesPlaced past s) (order : List Nat) :
    EntriesPlaced past (s.requestShutdown config order) := by
  unfold RuntimeState.requestShutdown
  split
  · exact h
  · have hplaces : SamePlaces s { s with counters := { s.counters with lifecycle := .draining } } := by
      constructor <;> rfl
    revert hplaces
    generalize { s with counters := { s.counters with lifecycle := .draining } } = t
    intro hplaces
    have ht := h.same hplaces
    clear hplaces h
    induction order generalizing t with
    | nil => exact ht
    | cons ref order ih => exact ih _ (ht.stopEntry rfl)

/-! ## sessions and operations -/

/-- A session that goes on leaves its entry as it is. -/
theorem inert_session {next : ManagedSession} (hs : e.session.isSome = true) :
    Inert e { e with session := some next } := by
  constructor <;> first | rfl | exact id | exact Iff.rfl | exact hs.symm

theorem sessionOf_some {session : ManagedSession} (hs : s.sessionOf ref = some session) :
    ∃ e, s.entries[ref]? = some e ∧ e.session = some session :=
  Option.bind_eq_some_iff.mp hs

/-- What a step of an entry's session does. -/
theorem stepSession_some {action : SessionAction} (hs : s.stepSession ref action = some t) :
    ∃ session next, s.sessionOf ref = some session ∧ session.step action = some next ∧
      t = s.modifyEntry ref fun entry => { entry with session := some next } := by
  obtain ⟨next, hbind, rfl⟩ := Option.map_eq_some_iff.mp hs
  obtain ⟨session, hsession, hnext⟩ := Option.bind_eq_some_iff.mp hbind
  exact ⟨session, next, hsession, hnext, rfl⟩

/-- What a session does by itself keeps every entry in its place. -/
theorem EntriesPlaced.stepSession {action : SessionAction} (h : EntriesPlaced past s)
    (hs : s.stepSession ref action = some t) : EntriesPlaced past t := by
  obtain ⟨session, next, hsession, hnext, rfl⟩ := stepSession_some hs
  obtain ⟨e, he, hsome⟩ := sessionOf_some hsession
  have hsame : ∀ d, s.entries[ref]? = some d → d.session = some session := by
    intro d hd
    obtain rfl := Option.some.inj (hd.symm.trans he)
    exact hsome
  refine h.inert (fun d hd hl => ⟨hl.step (a := .session action) ?_, inert_session ?_⟩)
    (h.leased.modify fun _ _ => rfl)
  · simp only [Incarnation.step, hsame d hd, Option.bind_some, hnext, Option.map_some]
  · rw [hsame d hd]; rfl

/-- So does an operation that moves on. -/
theorem EntriesPlaced.setStage (h : EntriesPlaced past s) (i : Nat) (stage : OperationStage) :
    EntriesPlaced past (s.setStage i stage) :=
  { h with leased := h.leased.setStage stage }

/-- So does every step of an operation. -/
theorem EntriesPlaced.operation {action : OperationAction} (h : EntriesPlaced past s)
    (hs : operationStep config s j action = some t) : EntriesPlaced past t := by
  cases action with
  | enter =>
      simp only [operationStep] at hs
      split at hs <;> try contradiction
      split at hs <;> try contradiction
      split at hs
      · obtain ⟨session, -, hs⟩ := Option.bind_eq_some_iff.mp hs
        obtain ⟨r, hr, rfl⟩ := Option.map_eq_some_iff.mp hs
        exact (h.stepSession hr).setStage j _
      · obtain rfl := Option.some.inj hs
        exact h.setStage j _
  | leave i threw =>
      simp only [operationStep] at hs
      split at hs <;> try contradiction
      split at hs <;> try contradiction
      split at hs <;> try contradiction
      obtain ⟨r, hr, rfl⟩ := Option.map_eq_some_iff.mp hs
      exact (h.stepSession hr).setStage j _
  | report =>
      simp only [operationStep] at hs
      split at hs <;> try contradiction
      split at hs <;> try contradiction
      obtain rfl := Option.some.inj hs
      exact (h.remove _ rfl).setStage j _
  | finish =>
      simp only [operationStep] at hs
      split at hs <;> try contradiction
      next op hop =>
      split at hs <;> try contradiction
      obtain rfl := Option.some.inj hs
      refine h.inert (fun e he hl => ⟨?_, inert_operations e _⟩) (h.leased.finish hop)
      refine hl.step (a := .leave) (if_neg ?_)
      rw [h.leased.count op.ref e he]
      have hpos : 0 < s.operations.countP (·.ref = op.ref) :=
        List.countP_pos_iff.mpr ⟨op, List.mem_of_getElem? hop, by simp⟩
      omega

/-! ## startup workers -/

/-- A worker that holds an entry moves on with it, or lets it go. -/
theorem WorkerHeld.moveOn {old new : StartupPlace} (h : WorkerHeld s.entries s.workers)
    (hw : s.workers[w]? = some old) (hold : old.ref = some ref) (he : s.entries[ref]? = some e)
    (hnew : new.ref = none ∨ new.ref = some ref ∧ StartupOk new e) :
    WorkerHeld s.entries (s.workers.set w new) := by
  have hmove : WorkerHeld (s.entries.modify ref id) (s.workers.set w new) := h.move hw
    (fun w' place' hne hw' href => hne (h.single w' w place' old ref hw' hw href hold))
    (fun j hj => by
      cases hnew with
      | inl hnone => rw [hnone] at hj; contradiction
      | inr hsame =>
          rw [hsame.1] at hj
          exact ⟨(Option.some.inj hj).symm, e, he, hsame.2⟩)
  rwa [modify_id] at hmove

/-- A worker moves on with its entry, or lets it go. -/
theorem EntriesPlaced.setWorker {old new : StartupPlace} (h : EntriesPlaced past s) (hw : s.workers[w]? = some old)
    (hold : old.ref = some ref) (he : s.entries[ref]? = some e)
    (hnew : new.ref = none ∨ new.ref = some ref ∧ StartupOk new e) :
    EntriesPlaced past (s.setWorker w new) :=
  { h with held := h.held.moveOn hw hold he hnew }

/-- What a session does by itself moves no worker. -/
theorem stepSession_workers {action : SessionAction} (hs : s.stepSession ref action = some t) :
    t.workers = s.workers := by
  obtain ⟨-, -, -, -, rfl⟩ := stepSession_some hs
  rfl

theorem stepSession_entry {action : SessionAction} (hs : s.stepSession ref action = some t) :
    ∃ e, t.entries[ref]? = some e ∧ e.session.isSome = true := by
  obtain ⟨session, next, hsession, -, rfl⟩ := stepSession_some hs
  obtain ⟨d, hd, -⟩ := sessionOf_some hsession
  exact ⟨_, modify_eq hd, rfl⟩

/-- The worker is inside the start of its session. -/
theorem EntriesPlaced.startSession {action : SessionAction} {old : StartupPlace} (h : EntriesPlaced past s)
    (hw : s.workers[w]? = some old) (hold : old.ref = some ref)
    (hs : s.stepSession ref action = some t) (result : Option StartResult) :
    EntriesPlaced past (t.setWorker w (RuntimeState.afterStart ref result)) := by
  have ht := h.stepSession hs
  have hw' : t.workers[w]? = some old := by rwa [stepSession_workers hs]
  obtain ⟨e, he, hsome⟩ := stepSession_entry hs
  obtain ⟨d, hd, hok⟩ := ht.held.holds w old ref hw' hold
  obtain rfl := Option.some.inj (hd.symm.trans he)
  refine ht.setWorker hw' hold he (.inr ?_)
  cases result with
  | none => exact ⟨rfl, hok.notDone, hok.taken, hsome⟩
  | some result =>
      cases result with
      | returned => exact ⟨rfl, hok.notDone, hok.taken, .inr (.inr hsome)⟩
      | threw error => exact ⟨rfl, hok.notDone, hok.taken, trivial⟩

/-- The first section of an iteration takes a queued entry, which nobody holds. -/
theorem EntriesPlaced.takePending (h : EntriesPlaced past s) (hw : s.workers[w]? = some .waiting)
    (hs : s.takePending w = some t) : EntriesPlaced past t := by
  unfold RuntimeState.takePending at hs
  split at hs
  · split at hs <;> try contradiction
    obtain rfl := Option.some.inj hs
    refine { h with held := ?_ }
    have hmove : WorkerHeld (s.entries.modify s.entries.length id) (s.workers.set w .exited) :=
      h.held.move hw
        (fun w' place' _ hw' href => by
          obtain ⟨d, hd, -⟩ := h.held.holds w' place' _ hw' href
          have hlt := (List.getElem?_eq_some_iff.mp hd).1
          omega)
        (fun j hj => by simp [StartupPlace.ref] at hj)
    rw [modify_id] at hmove
    exact hmove
  · next ref rest hpending =>
    obtain ⟨e, he, rfl⟩ := Option.map_eq_some_iff.mp hs
    obtain ⟨d, hd, hphase⟩ := (h.queued.mem_iff ref).mp (by simp [hpending])
    obtain rfl := Option.some.inj (hd.symm.trans he)
    have hsound := (h.live.each ref d he).sound
    have hstop := hsound.not_stopped (by simp [hphase]) (by simp [hphase])
    obtain ⟨hnotDone, hsession, -⟩ := hsound.reserved hphase
    have htake : d.take.phase = .starting := by simp [Entry.take, hstop]
    have hsame : ∀ c, s.entries[ref]? = some c → c = d := fun c hc =>
      Option.some.inj (hc.symm.trans he)
    have hqueued : Queued (s.entries.modify ref Entry.take) (s.pending.erase ref) :=
      h.queued.remove fun c hc => by rw [hsame c hc, htake]; simp
    rw [hpending, List.erase_cons_head] at hqueued
    simp only [hstop]
    exact {
      live := h.live.modify fun c hc hl => hl.step (a := .take) (if_pos (hsame c hc ▸ hphase))
      queued := hqueued
      held := h.held.move hw
        (fun w' place' _ hw' href => by
          obtain ⟨c, hc, hok⟩ := h.held.holds w' place' ref hw' href
          exact hok.taken (hsame c hc ▸ hphase))
        (fun j hj => ⟨(Option.some.inj hj).symm, d, he, hnotDone, by rw [htake]; simp,
          by simp [Entry.take, hsession]⟩)
      scanned := h.scanned.modify
        (fun c hc => ⟨rfl, rfl, by rw [hsame c hc, htake, hphase]; simp⟩)
        (fun c stage hc hok => absurd hok.done (by rw [hsame c hc, hnotDone]; simp))
      leased := h.leased.modify fun c hc => rfl }

/-- The second section stores the session. -/
theorem EntriesPlaced.store {session : ManagedSession} {dependencies : Bool} (h : EntriesPlaced past s)
    (hw : s.workers[w]? = some (.storing ref session dependencies)) (he : s.entries[ref]? = some e) :
    EntriesPlaced past ((s.modifyEntry ref (·.store session dependencies)).setWorker w
      (if e.stopRequested then .concluding ref false else .calling ref)) := by
  obtain ⟨d, hd, hok⟩ := h.held.holds w _ ref hw rfl
  obtain rfl := Option.some.inj (hd.symm.trans he)
  obtain ⟨hnotDone, htaken, hsession, hstate⟩ := hok
  have hsame : ∀ c, s.entries[ref]? = some c → c = d := fun c hc =>
    Option.some.inj (hc.symm.trans he)
  have hnone : d.session.isNone = true := by simpa using hsession
  have hfresh : session = { config := session.config } := by rw [← hstate]
  have hnew : StartupOk (if d.stopRequested then .concluding ref false else .calling ref)
      (d.store session dependencies) := by
    split
    · next hstop => exact ⟨hnotDone, htaken, .inr (.inl hstop)⟩
    · exact ⟨hnotDone, htaken, rfl⟩
  exact {
    live := h.live.modify fun c hc hl => by
      rw [hfresh]
      exact hl.step (a := .store session.config dependencies)
        (if_pos (hsame c hc ▸ ⟨hnotDone, htaken, hnone⟩))
    queued := h.queued.modify fun c hc => Iff.rfl
    held := h.held.move hw
      (fun w' place' hne hw' href => hne (h.held.single w' w place' _ ref hw' hw href rfl))
      (fun j hj => ⟨by split at hj <;> exact (Option.some.inj hj).symm, d, he, hnew⟩)
    scanned := h.scanned.modify (fun c hc => ⟨rfl, rfl, Iff.rfl⟩)
      (fun c stage hc hok => absurd hok.done (by rw [hsame c hc, hnotDone]; simp))
    leased := h.leased.modify fun c hc => rfl }

/-- After the `stop_entry` of a failed startup the entry is told to stop. -/
theorem stop_stopped (hphase : e.phase ≠ .retiring) :
    (e.stop reason).stopRequested = true := by
  unfold Entry.stop
  split
  · rfl
  · next hacc =>
    have hrefused : e.acceptsStop reason = false := by simpa using hacc
    simp only [Entry.acceptsStop, hphase, ne_eq, not_false_eq_true, decide_true, Bool.true_and,
      Bool.or_eq_false_iff, Bool.not_eq_false'] at hrefused
    exact hrefused.1

/-- A stop moves no worker. -/
theorem stopEntry_workers : (s.stopEntry config ref reason).workers = s.workers :=
  stopEntry_places.workers

/-- A stop stops its entry. -/
theorem stopEntry_entry (he : s.entries[ref]? = some e) :
    (s.stopEntry config ref reason).entries[ref]? = some (e.stop reason) := by
  rw [stopEntry_places.entries]
  exact modify_eq he

/-- A start that is over leaves the entry neither reserved nor retiring. -/
theorem conclude_phase (hs : Sound e) (htaken : e.phase ≠ .reserved) (hnotDone : e.startupDone = false) :
    e.conclude.phase ≠ .reserved ∧ e.conclude.phase ≠ .retiring := by
  have hretiring := (hs.starting hnotDone).2.2.2.2.2
  unfold Entry.conclude
  split
  · exact ⟨htaken, hretiring⟩
  · simp

/-- It changes neither handle nor retirement nor operations. -/
theorem conclude_same (e : Entry) : e.conclude.handle = e.handle ∧ e.conclude.retired = e.retired ∧
    e.conclude.operations = e.operations := by
  unfold Entry.conclude
  split <;> simp

/-- The last section, once a failed startup has been told to stop. -/
theorem EntriesPlaced.conclude {failed : Bool} (h : EntriesPlaced past s)
    (hw : s.workers[w]? = some (.concluding ref failed)) (he : s.entries[ref]? = some e)
    (hready : e.stopRequested = true ∨ e.session.isSome = true) :
    EntriesPlaced past ((s.modifyEntry ref Entry.conclude).setWorker w .waiting) := by
  obtain ⟨d, hd, hok⟩ := h.held.holds w _ ref hw rfl
  obtain rfl := Option.some.inj (hd.symm.trans he)
  have hsound := (h.live.each ref d he).sound
  have hphase := conclude_phase hsound hok.taken hok.notDone
  have hretiring := (hsound.starting hok.notDone).2.2.2.2.2
  have hsame : ∀ c, s.entries[ref]? = some c → c = d := fun c hc =>
    Option.some.inj (hc.symm.trans he)
  exact {
    live := h.live.modify fun c hc hl => hl.step (a := .conclude)
      (if_pos (hsame c hc ▸ ⟨hok.notDone, hok.taken, hready⟩))
    queued := h.queued.modify fun c hc => by
      rw [hsame c hc]
      exact iff_of_false hphase.1 hok.taken
    held := h.held.move hw
      (fun w' place' hne hw' href => hne (h.held.single w' w place' _ ref hw' hw href rfl))
      (fun j hj => by simp [StartupPlace.ref] at hj)
    scanned := h.scanned.modify
      (fun c hc => ⟨(conclude_same c).1, (conclude_same c).2.1, by
        rw [hsame c hc]
        exact iff_of_false hphase.2 hretiring⟩)
      (fun c stage hc hstage => absurd hstage.done (by rw [hsame c hc, hok.notDone]; simp))
    leased := h.leased.modify fun c hc => (conclude_same c).2.2 }

/-- The end of a start keeps every entry in its place. -/
theorem EntriesPlaced.concludeStartup {failed : Bool} (h : EntriesPlaced past s)
    (hw : s.workers[w]? = some (.concluding ref failed))
    (hs : s.concludeStartup config w ref failed = some t) : EntriesPlaced past t := by
  obtain ⟨e, he, hok⟩ := h.held.holds w _ ref hw rfl
  have hsound := (h.live.each ref e he).sound
  have hretiring := (hsound.starting hok.notDone).2.2.2.2.2
  -- the state in which the entry is concluded
  have hmid : ∃ r : RuntimeState, EntriesPlaced past r ∧ r.workers[w]? = some (.concluding ref failed) ∧
      (∀ d, r.entries[ref]? = some d → d.stopRequested = true ∨ d.session.isSome = true) ∧
      r = if failed then s.stopEntry config ref .startupFailed else s := by
    cases failed with
    | true =>
        refine ⟨_, h.stopEntry rfl, by rwa [stopEntry_workers], fun d hd => .inl ?_, rfl⟩
        rw [stopEntry_entry he] at hd
        rw [← Option.some.inj hd]
        exact stop_stopped hretiring
    | false =>
        refine ⟨s, h, hw, fun d hd => ?_, rfl⟩
        obtain rfl := Option.some.inj (hd.symm.trans he)
        exact hok.session.resolve_left (by simp)
  obtain ⟨r, hr, hrw, hready, heq⟩ := hmid
  rw [RuntimeState.concludeStartup, ← heq] at hs
  obtain ⟨d, hd, rfl⟩ := Option.map_eq_some_iff.mp hs
  have hconcluded := hr.conclude hrw hd (hready d hd)
  dsimp only
  split
  · exact hconcluded
  · exact hconcluded.same publish_places

/-- So does every step of a start. -/
theorem EntriesPlaced.startup {action : StartupAction} (h : EntriesPlaced past s)
    (hs : startupStep config s w action = some t) : EntriesPlaced past t := by
  cases action with
  | take =>
      simp only [startupStep] at hs
      split at hs <;> try contradiction
      next hw => exact h.takePending hw hs
  | made sessionConfig dependencies =>
      simp only [startupStep] at hs
      split at hs <;> try contradiction
      next ref hw =>
      split at hs <;> try contradiction
      next e he =>
      split at hs <;> try contradiction
      obtain rfl := Option.some.inj hs
      obtain ⟨d, hd, hok⟩ := h.held.holds w _ ref hw rfl
      exact h.setWorker hw rfl hd (.inr ⟨rfl, hok.notDone, hok.taken, hok.session, rfl⟩)
  | threw =>
      simp only [startupStep] at hs
      split at hs <;> try contradiction
      next ref hw =>
      obtain rfl := Option.some.inj hs
      obtain ⟨d, hd, hok⟩ := h.held.holds w _ ref hw rfl
      exact h.setWorker hw rfl hd (.inr ⟨rfl, hok.notDone, hok.taken, trivial⟩)
  | store =>
      simp only [startupStep] at hs
      split at hs <;> try contradiction
      next ref session dependencies hw =>
      obtain ⟨e, he, rfl⟩ := Option.map_eq_some_iff.mp hs
      exact h.store hw he
  | callStart =>
      simp only [startupStep] at hs
      split at hs <;> try contradiction
      next ref hw =>
      obtain ⟨session, -, hs⟩ := Option.bind_eq_some_iff.mp hs
      obtain ⟨r, hr, rfl⟩ := Option.map_eq_some_iff.mp hs
      exact h.startSession hw rfl hr _
  | startReturned =>
      simp only [startupStep] at hs
      split at hs <;> try contradiction
      next ref hw =>
      obtain ⟨session, -, hs⟩ := Option.bind_eq_some_iff.mp hs
      split at hs <;> try contradiction
      obtain ⟨r, hr, rfl⟩ := Option.map_eq_some_iff.mp hs
      exact h.startSession hw rfl hr _
  | handle =>
      simp only [startupStep] at hs
      split at hs <;> try contradiction
      next ref hw =>
      obtain ⟨e, he, rfl⟩ := Option.map_eq_some_iff.mp hs
      obtain ⟨d, hd, hok⟩ := h.held.holds w _ ref hw rfl
      obtain rfl := Option.some.inj (hd.symm.trans he)
      refine h.setWorker hw rfl he (.inr ⟨rfl, hok.notDone, hok.taken, ?_⟩)
      cases hfailed : d.startupFailed with
      | true => exact .inl rfl
      | false =>
          simp only [Entry.startupFailed, Bool.or_eq_false_iff, Bool.not_eq_false'] at hfailed
          exact .inr (.inl hfailed.1)
  | conclude =>
      simp only [startupStep] at hs
      split at hs <;> try contradiction
      next ref failed hw => exact h.concludeStartup hw hs

/-! ## the supervisor -/

/-- So does a supervisor that moves on. -/
theorem EntriesPlaced.setSupervisor {next : SupervisorPlace} (h : EntriesPlaced past s)
    (hs : Scanned s.entries s.registry next) : EntriesPlaced past { s with supervisor := next } :=
  { h with scanned := hs }

/-- So does the sweep that collects the entries. -/
theorem EntriesPlaced.collect {order : List Nat} (h : EntriesPlaced past s) (hsup : s.supervisor = .collecting)
    (hs : s.collect config order = some t) : EntriesPlaced past t := by
  have hscanned := h.scanned
  rw [hsup] at hscanned
  unfold RuntimeState.collect at hs
  split at hs
  · obtain rfl := Option.some.inj hs
    exact { h with
      scanned := hscanned.advance (by simp) (by simp [SupervisorPlace.rest])
        (by simp [SupervisorPlace.scan]) (by simp) }
  · split at hs <;> try contradiction
    next hperm =>
    obtain rfl := Option.some.inj hs
    refine h.setSupervisor { hscanned with
      late := fun j e he hp hr => ?_
      visiting := by simp
      rest := fun j hj => ?_
      nodup := hperm.nodup_iff.mpr hscanned.registered_nodup }
    · obtain ⟨stage, rest, habsurd, -⟩ := hscanned.late j e he hp hr
      contradiction
    · obtain ⟨e, he, hr⟩ := hscanned.registered_mem rfl (hperm.mem_iff.mp hj)
      refine ⟨e, he, fun hp => ?_⟩
      obtain ⟨stage, rest, habsurd, -⟩ := hscanned.late j e he hp hr
      contradiction

/-- An entry whose startup is over and that has no session has been told to stop. -/
theorem Incarnation.Sound.stopped_of_no_session (h : Sound e) (hdone : e.startupDone = true)
    (hnone : e.session.isSome = false) : e.stopRequested = true := by
  by_contra hstop
  have hstop : e.stopRequested = false := by simpa using hstop
  obtain ⟨-, -, hp₁, hp₂⟩ := h.unstopped hstop
  have hrunning := h.running
  have hreserved := h.reserved
  have hstarting := h.startupDone hdone
  cases hphase : e.phase with
  | reserved => simp [(hreserved hphase).1] at hdone
  | starting => exact hstarting hphase
  | running => simp [hrunning hphase] at hnone
  | stopRequested => exact hp₁ hphase
  | retiring => exact hp₂ hphase

/-- A visit that begins keeps every entry in its place. -/
theorem EntriesPlaced.visit {rest : List Nat} (h : EntriesPlaced past s) (hsup : s.supervisor = .scanning (ref :: rest))
    (hs : s.visit ref rest = some t) : EntriesPlaced past t := by
  obtain ⟨e, he, rfl⟩ := Option.map_eq_some_iff.mp hs
  have hscanned := h.scanned
  rw [hsup] at hscanned
  obtain ⟨d, hd, hphase⟩ := hscanned.rest ref (by simp [SupervisorPlace.rest])
  obtain rfl := Option.some.inj (hd.symm.trans he)
  split
  · next hdone =>
    refine h.setSupervisor (hscanned.advance (by simp) (by simp [SupervisorPlace.rest])
      (by simp [SupervisorPlace.scan]) fun j stage rest' hnext => ?_)
    cases hnext
    refine ⟨d, he, hdone, fun _ => hphase, fun hdecided => ?_, fun hlate => ?_⟩
    · split at hdecided
      · contradiction
      · next hnone => exact (h.live.each ref d he).sound.stopped_of_no_session hdone (by simpa using hnone)
    · split at hlate <;> contradiction
  · exact h.setSupervisor (hscanned.advance (by simp) (by simp [SupervisorPlace.rest])
      (by simp [SupervisorPlace.scan]) (by simp))

/-- The supervisor leaves an entry it has not begun to take apart. -/
theorem EntriesPlaced.skip {stage : VisitStage} {rest : List Nat} (h : EntriesPlaced past s)
    (hsup : s.supervisor = .visiting ref stage rest) (hearly : stage.late = false) :
    EntriesPlaced past { s with supervisor := .scanning rest } := by
  have hscanned := h.scanned
  rw [hsup] at hscanned
  refine h.setSupervisor (hscanned.advance (fun j stage' rest' hold => ?_)
    (by simp [SupervisorPlace.rest]) (by simp [SupervisorPlace.scan]) (by simp))
  cases hold
  exact hearly

/-- The supervisor goes on with an entry it has not begun to take apart. -/
theorem EntriesPlaced.proceed {stage next : VisitStage} {rest : List Nat} (h : EntriesPlaced past s)
    (hsup : s.supervisor = .visiting ref stage rest) (hearly : stage.late = false)
    (hnext : next.late = false)
    (hdecided : ∀ e, s.entries[ref]? = some e → StageOk stage e → next.decided = true →
      e.stopRequested = true) :
    EntriesPlaced past { s with supervisor := .visiting ref next rest } := by
  have hscanned := h.scanned
  rw [hsup] at hscanned
  refine h.setSupervisor (hscanned.advance (fun j stage' rest' hold => ?_)
    (by simp [SupervisorPlace.rest]) (by simp [SupervisorPlace.scan])
    fun j stage' rest' hvisit => ?_)
  · cases hold
    exact hearly
  · cases hvisit
    obtain ⟨e, he, hok⟩ := hscanned.visiting ref stage rest rfl
    exact ⟨e, he, hok.done, fun _ => hok.early hearly, hdecided e he hok, by simp [hnext]⟩

/-- After the report the entry has been told to stop. -/
theorem EntriesPlaced.report {lifecycle : SessionLifecycle} {rest : List Nat} (h : EntriesPlaced past s)
    (hsup : s.supervisor = .visiting ref (.reporting lifecycle) rest)
    (hs : s.report config ref lifecycle = some t) :
    EntriesPlaced past { t with supervisor := .visiting ref .flushing rest } := by
  obtain ⟨e, he, rfl⟩ := Option.map_eq_some_iff.mp hs
  obtain ⟨d, hd, hok⟩ := h.scanned.visiting ref _ rest hsup
  obtain rfl := Option.some.inj (hd.symm.trans he)
  have hstops (reason : SessionOutcome) (hr : reason.isCause = true) :
      EntriesPlaced past { s.stopEntry config ref reason with supervisor := .visiting ref .flushing rest } := by
    refine (h.stopEntry hr).proceed (stopEntry_places.supervisor.trans hsup) rfl rfl
      fun c hc _ _ => ?_
    rw [stopEntry_entry he] at hc
    rw [← Option.some.inj hc]
    exact stop_stopped (hok.early rfl)
  split
  · exact hstops _ rfl
  · split
    · next hstop =>
      refine h.proceed hsup rfl rfl fun c hc _ _ => ?_
      rwa [← Option.some.inj (he.symm.trans hc)]
    · exact hstops _ rfl

/-- The check for operations keeps every entry in its place. -/
theorem EntriesPlaced.check {rest : List Nat} (h : EntriesPlaced past s)
    (hsup : s.supervisor = .visiting ref .checking rest) (hs : s.check ref rest = some t) :
    EntriesPlaced past t := by
  obtain ⟨e, he, rfl⟩ := Option.map_eq_some_iff.mp hs
  obtain ⟨d, hd, hok⟩ := h.scanned.visiting ref _ rest hsup
  obtain rfl := Option.some.inj (hd.symm.trans he)
  split
  · exact h.skip hsup rfl
  · next hidle =>
    have hidle : d.operations = 0 := by simpa using hidle
    have hsound := (h.live.each ref d he).sound
    have hearly := hok.early rfl
    have hphase : d.phase = .stopRequested :=
      (hsound.stopped (hok.decided rfl)).2.resolve_right hearly
    have hretired := hsound.not_retired hearly
    have hsame : ∀ c, s.entries[ref]? = some c → c = d := fun c hc =>
      Option.some.inj (hc.symm.trans he)
    have hscanned := h.scanned
    rw [hsup] at hscanned
    exact {
      live := h.live.modify fun c hc hl => hl.step (a := .release)
        (if_pos (hsame c hc ▸ ⟨hok.done, hphase, hidle⟩))
      queued := h.queued.modify fun c hc => by
        rw [hsame c hc, hphase]
        simp [Entry.release]
      held := h.held.modify fun c place hc hheld =>
        absurd hok.done (by rw [← hsame c hc, hheld.notDone]; simp)
      scanned := hscanned.release rfl he hok.done hretired rfl rfl
      leased := h.leased.modify fun c hc => rfl }

/-- A retirement takes the entry off the registry. -/
theorem EntriesPlaced.finalize {rest : List Nat} (h : EntriesPlaced past s)
    (hsup : s.supervisor = .visiting ref .finalizing rest)
    (hs : s.finalize config ref rest = some t) : EntriesPlaced past t := by
  obtain ⟨e, he, rfl⟩ := Option.map_eq_some_iff.mp hs
  obtain ⟨d, hd, hok⟩ := h.scanned.visiting ref _ rest hsup
  obtain rfl := Option.some.inj (hd.symm.trans he)
  obtain ⟨hphase, hretired⟩ := hok.late rfl
  have hsame : ∀ c, s.entries[ref]? = some c → c = d := fun c hc =>
    Option.some.inj (hc.symm.trans he)
  have hscanned := h.scanned
  rw [hsup] at hscanned
  refine EntriesPlaced.same ?_ publish_places
  exact {
    live := h.live.modify fun c hc hl => hl.step (a := .finish)
      (if_pos (hsame c hc ▸ ⟨hphase, hretired⟩))
    queued := h.queued.modify fun c hc => Iff.rfl
    held := h.held.modify fun c place hc hheld =>
      absurd hok.done (by rw [← hsame c hc, hheld.notDone]; simp)
    scanned := hscanned.retire rfl he
    leased := h.leased.modify fun c hc => rfl }

/-- The session of a late visit is taken apart in its place. -/
theorem EntriesPlaced.dismantle {stage next : VisitStage} {rest : List Nat} (h : EntriesPlaced past s)
    (hsup : s.supervisor = .visiting ref stage rest) (hlate : stage.late = true)
    (hnext : next.late = true) (hdecided : next.decided = false) :
    EntriesPlaced past { s with supervisor := .visiting ref next rest } := by
  have hscanned := h.scanned
  rw [hsup] at hscanned
  exact h.setSupervisor (hscanned.dismantle hlate hnext hdecided)

/-- Every step of the supervisor keeps every entry in its place. -/
theorem EntriesPlaced.supervise {action : SupervisorAction} (h : EntriesPlaced past s)
    (hs : supervisorStep config s action = some t) : EntriesPlaced past t := by
  cases action with
  | collect order =>
      simp only [supervisorStep] at hs
      split at hs <;> try contradiction
      next hsup => exact h.collect hsup hs
  | visit =>
      simp only [supervisorStep] at hs
      split at hs <;> try contradiction
      · next hsup =>
        obtain rfl := Option.some.inj hs
        have hscanned := h.scanned
        rw [hsup] at hscanned
        exact h.setSupervisor (hscanned.advance (by simp) (by simp [SupervisorPlace.rest])
          (by simp [SupervisorPlace.scan]) (by simp))
      · next ref rest hsup => exact h.visit hsup hs
  | observe =>
      simp only [supervisorStep] at hs
      split at hs <;> try contradiction
      next ref rest hsup =>
      obtain ⟨session, -, rfl⟩ := Option.map_eq_some_iff.mp hs
      split
      · exact h.proceed hsup rfl rfl fun _ _ _ hdecided => by contradiction
      · exact h.skip hsup rfl
  | report =>
      simp only [supervisorStep] at hs
      split at hs <;> try contradiction
      next ref lifecycle rest hsup =>
      obtain ⟨r, hr, rfl⟩ := Option.map_eq_some_iff.mp hs
      exact h.report hsup hr
  | flush =>
      simp only [supervisorStep] at hs
      split at hs <;> try contradiction
      next ref rest hsup =>
      obtain ⟨session, -, rfl⟩ := Option.map_eq_some_iff.mp hs
      split
      · exact h.proceed hsup rfl rfl fun e _ hok _ => hok.decided rfl
      · exact h.skip hsup rfl
  | check =>
      simp only [supervisorStep] at hs
      split at hs <;> try contradiction
      next ref rest hsup => exact h.check hsup hs
  | destroy =>
      simp only [supervisorStep] at hs
      split at hs <;> try contradiction
      next ref owned dependencies rest hsup =>
      obtain rfl := Option.some.inj hs
      exact h.dismantle hsup rfl rfl rfl
  | releaseDependencies =>
      simp only [supervisorStep] at hs
      split at hs <;> try contradiction
      next ref dependencies rest hsup =>
      obtain rfl := Option.some.inj hs
      exact h.dismantle hsup rfl rfl rfl
  | finalize =>
      simp only [supervisorStep] at hs
      split at hs <;> try contradiction
      next ref rest hsup => exact h.finalize hsup hs
  | wake =>
      simp only [supervisorStep] at hs
      split at hs <;> try contradiction
      next hsup =>
      obtain rfl := Option.some.inj hs
      have hscanned := h.scanned
      rw [hsup] at hscanned
      exact h.setSupervisor (hscanned.advance (by simp) (by simp [SupervisorPlace.rest])
        (by simp [SupervisorPlace.scan]) (by simp))

/-- The notifier moves nobody. -/
theorem notifier_places {action : NotifierAction} (hs : notifierStep s action = some t) :
    SamePlaces s t := by
  cases action with
  | take =>
      simp only [notifierStep] at hs
      split at hs <;> try contradiction
      split at hs
      · obtain rfl := Option.some.inj hs
        constructor <;> rfl
      · split at hs <;> try contradiction
        obtain rfl := Option.some.inj hs
        constructor <;> rfl
  | notified threw =>
      simp only [notifierStep] at hs
      split at hs <;> try contradiction
      obtain rfl := Option.some.inj hs
      constructor <;> rfl

/-- **Step lemma**: every section of every thread keeps the entries in their places. -/
theorem EntriesPlaced.step {a : RuntimeAction} (h : EntriesPlaced past s) (hs : runtimeStep config s a = some t) :
    EntriesPlaced past t := by
  cases a with
  | add id factory allocationFails =>
      obtain rfl := Option.some.inj hs
      exact h.add id factory allocationFails
  | remove handle | fail handle =>
      obtain rfl := Option.some.inj hs
      exact h.remove handle rfl
  | operate handle call =>
      simp only [runtimeStep] at hs
      split at hs <;> try contradiction
      obtain rfl := Option.some.inj hs
      exact h.admitOperation handle call
  | operation j action => exact h.operation hs
  | requestShutdown order =>
      simp only [runtimeStep] at hs
      split at hs <;> try contradiction
      obtain rfl := Option.some.inj hs
      exact h.requestShutdown order
  | startup w action => exact h.startup hs
  | supervisor action => exact h.supervise hs
  | notifier action => exact h.same (notifier_places hs)
  | session ref action =>
      simp only [runtimeStep] at hs
      split at hs <;> try contradiction
      exact h.stepSession hs
  | ownedSession action =>
      simp only [runtimeStep] at hs
      split at hs <;> try contradiction
      next ref session dependencies rest hsup =>
      split at hs <;> try contradiction
      obtain ⟨next, -, rfl⟩ := Option.map_eq_some_iff.mp hs
      exact h.dismantle hsup rfl rfl rfl

theorem EntriesPlaced.now (h : EntriesPlaced past s) : EntriesPlaced s.entries s := { h with live := h.live.now }

/-- Every entry is in its place in every reachable state. -/
theorem entriesPlaced_of_reachable (h : (runtimeManager config).Reachable s) : EntriesPlaced s.entries s :=
  (Machine.Reachable.rec_inv (P := EntriesPlaced []) (EntriesPlaced.init config)
    (fun _ _ _ _ hp hs => hp.step hs) h).now

/-- Along a run every entry moves along its machine. -/
theorem entriesPlaced_leads (hr : (runtimeManager config).Reachable s)
    (h : (runtimeManager config).Leads s t) : EntriesPlaced s.entries t :=
  Machine.Leads.rec_stable (P := EntriesPlaced s.entries) (fun _ _ _ _ hp hs => hp.step hs) hr
    (entriesPlaced_of_reachable hr) h

end ByteTurn

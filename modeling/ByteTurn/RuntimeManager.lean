import ByteTurn.ConversationSession
import ByteTurn.Lib.Table

/-!
# ByteTurn.RuntimeManager

The binary-owned registry of sessions (`runtime_manager.cpp`): admissions
reserve a slot and queue a startup, startup workers call the factories and
start the sessions, callers forward operations to running sessions, and one
supervisor stops and retires them.

Each critical section under `mutex` is one step.  Factories, engines and
observers are called outside it, may return or throw, and may last while any
other thread runs.  A `shared_ptr<Entry>` is a reference (an index) into the
list of all admissions ever accepted.  Every session that has been built runs
its own steps (`ByteTurn.ConversationSession`), and may also stop by itself.

A promise is the list of the values it was set to.  The fields under *history*
are read by no step.
-/

namespace ByteTurn

/-! ## public types -/

/-- `SessionHandle` -/
structure SessionHandle where
  runtimeId : Nat := 0
  id : Bytes := []
  generation : Nat := 0
  deriving DecidableEq, Repr

/-- `RuntimeLifecycle` -/
inductive RuntimeLifecycle where
  | running | draining | stopped
  deriving DecidableEq, Repr

/-- `SessionPhase` -/
inductive SessionPhase where
  | reserved | starting | running | stopRequested | retiring
  deriving DecidableEq, Repr

/-- `AdmissionStatus` -/
inductive AdmissionStatus where
  | accepted | invalidRequest | duplicateId | capacityReached | startupQueueFull | draining
  | identityExhausted
  deriving DecidableEq, Repr

/-- `RemoveStatus` -/
inductive RemoveStatus where
  | requested | alreadyRequested | notFound | staleHandle
  deriving DecidableEq, Repr

/-- `SessionOutcome` -/
inductive SessionOutcome where
  | none | started | removed | runtimeShutdown | startupFailed | engineFailure | reportedFailure
  | lifecycleFailure | unexpectedStop
  deriving DecidableEq, Repr

/-- `failed` -/
def SessionOutcome.failed : SessionOutcome → Bool
  | .startupFailed | .engineFailure | .reportedFailure | .lifecycleFailure | .unexpectedStop => true
  | _ => false

/-- `SessionAdmission`, without the futures; they belong to the entry. -/
structure SessionAdmission where
  status : AdmissionStatus := .invalidRequest
  handle : SessionHandle := {}
  deriving DecidableEq, Repr

/-- `SessionInfo` -/
structure SessionInfo where
  handle : SessionHandle
  phase : SessionPhase
  outcome : SessionOutcome
  admittedOperations : Nat
  deriving DecidableEq, Repr

/-- `RuntimeNotificationType` -/
inductive RuntimeNotificationType where
  | reserved | started | stopRequested | retired
  deriving DecidableEq, Repr

/-- `RuntimeNotification` -/
structure RuntimeNotification where
  sequence : Nat
  type : RuntimeNotificationType
  handle : SessionHandle
  outcome : SessionOutcome
  deriving DecidableEq, Repr

/-- `RuntimeConfig`, with the conditions the constructor checks, and what else
is fixed for the lifetime of a manager: its identity, whether an observer was
given, and which notifications fail to be allocated (by sequence number). -/
structure RuntimeConfig where
  maxSessions : Nat := 64
  maxPendingStarts : Nat := 16
  startupWorkers : Nat := 2
  maxPendingNotifications : Nat := 256
  maxSessionIdBytes : Nat := 256
  runtimeId : Nat := 1
  notify : Bool := true
  allocationFails : Nat → Bool := fun _ => false
  maxSessions_pos : 0 < maxSessions := by decide
  maxPendingStarts_pos : 0 < maxPendingStarts := by decide
  startupWorkers_pos : 0 < startupWorkers := by decide
  maxPendingNotifications_pos : 0 < maxPendingNotifications := by decide
  maxSessionIdBytes_pos : 0 < maxSessionIdBytes := by decide

/-- `std::numeric_limits<std::uint64_t>::max()` -/
def maxUInt64 : Nat := 2 ^ 64 - 1

/-! ## entries -/

/-- A `ConversationSession` that an entry owns. -/
structure ManagedSession where
  config : SessionConfig
  state : SessionState := {}

/-- A step of the session itself. -/
def ManagedSession.step (session : ManagedSession) (action : SessionAction) :
    Option ManagedSession :=
  (sessionStep session.config session.state action).map fun state =>
    { session with state := state }

/-- `session->request_stop()` -/
def ManagedSession.requestStop (session : ManagedSession) : ManagedSession :=
  { session with state := session.state.requestStop }

/-- `Entry`; the factory is a token, and `none` is an empty pointer or function. -/
structure Entry where
  handle : SessionHandle
  factory : Option Nat
  dependencies : Bool := false
  session : Option ManagedSession := none
  phase : SessionPhase := .reserved
  outcome : SessionOutcome := .none
  operations : Nat := 0
  stopRequested : Bool := false
  startupDone : Bool := false
  cancelledBeforeStart : Bool := false
  started : List SessionOutcome := []
  retired : List SessionOutcome := []
  -- history
  reachedRunning : Bool := false

namespace Entry

/-- `stop_entry` goes on with this reason: it is the first one, or a failure
that overrides a normal removal. -/
def acceptsStop (e : Entry) (reason : SessionOutcome) : Bool :=
  e.phase ≠ .retiring && (!e.stopRequested || (reason.failed && !e.outcome.failed))

/-- The entry is still queued when `stop_entry` gets to it. -/
def cancelsReservation (e : Entry) : Bool := !e.stopRequested && e.phase = .reserved

/-- What `stop_entry` does to the entry. -/
def stop (e : Entry) (reason : SessionOutcome) : Entry :=
  if e.acceptsStop reason then
    { e with
      outcome := reason
      cancelledBeforeStart := e.cancelledBeforeStart || e.cancelsReservation
      startupDone := e.startupDone || e.cancelsReservation
      stopRequested := true
      phase := .stopRequested
      session := e.session.map ManagedSession.requestStop }
  else e

/-- A startup worker takes the entry off the queue. -/
def take (e : Entry) : Entry :=
  { e with
    phase := if e.stopRequested then e.phase else .starting
    factory := none }

/-- A startup worker stores what the factory made. -/
def store (e : Entry) (session : ManagedSession) (dependencies : Bool) : Entry :=
  { e with
    dependencies := dependencies
    session := some (if e.stopRequested then session.requestStop else session) }

/-- `startup_failed` of the `catch` block. -/
def startupFailed (e : Entry) : Bool :=
  !e.stopRequested || match e.session with
    | none => true
    | some session => session.state.failure.isSome

/-- The last section of a startup, after the `stop_entry` of a failed one. -/
def conclude (e : Entry) : Entry :=
  if e.stopRequested then
    { e with startupDone := true, started := e.started ++ [e.outcome] }
  else
    { e with
      startupDone := true
      phase := .running
      started := e.started ++ [.started]
      reachedRunning := true }

/-- The supervisor moves the session, the dependencies and the factory out. -/
def release (e : Entry) : Entry :=
  { e with phase := .retiring, session := none, dependencies := false, factory := none }

/-- The supervisor completes the tickets of an erased entry. -/
def finish (e : Entry) : Entry :=
  { e with
    started := if e.cancelledBeforeStart then e.started ++ [e.outcome] else e.started
    retired := e.retired ++ [e.outcome] }

end Entry

/-! ## threads -/

/-- Where a startup worker is in `startup_loop`. -/
inductive StartupPlace where
  | waiting
  /-- Inside `factory(entry->handle)` or the constructor of the session. -/
  | inFactory (ref : Nat)
  /-- Before the section that stores what was made. -/
  | storing (ref : Nat) (session : ManagedSession) (dependencies : Bool)
  /-- Before `instance->start()`. -/
  | calling (ref : Nat)
  /-- In the wait of `instance->start()`. -/
  | starting (ref : Nat)
  /-- In the `catch` block, before its section. -/
  | caught (ref : Nat)
  /-- Before the last section; the factory's captures are released here. -/
  | concluding (ref : Nat) (failed : Bool)
  | exited

/-- The entry a startup worker holds. -/
def StartupPlace.ref : StartupPlace → Option Nat
  | .inFactory ref | .storing ref _ _ | .calling ref | .starting ref | .caught ref
  | .concluding ref _ => some ref
  | .waiting | .exited => none

/-- Where the supervisor is with the entry it examines. -/
inductive VisitStage where
  /-- Before `session->lifecycle()`. -/
  | observing
  /-- Before the section that reports a terminal lifecycle. -/
  | reporting (lifecycle : SessionLifecycle)
  /-- Before the flush of the timeline. -/
  | flushing
  /-- Before the section that checks the operations. -/
  | checking
  /-- Before `owned.reset()`. -/
  | destroying (owned : Option ManagedSession) (dependencies : Bool)
  /-- Before `dependencies.reset()`. -/
  | releasing (dependencies : Bool)
  /-- Before the section that erases the entry. -/
  | finalizing

/-- Where the supervisor is in `supervise`; `rest` is what it has still to scan. -/
inductive SupervisorPlace where
  | collecting
  | scanning (rest : List Nat)
  | visiting (ref : Nat) (stage : VisitStage) (rest : List Nat)
  | waiting
  | exited

/-- Where the dispatcher is in `dispatch`. -/
inductive NotifierPlace where
  | waiting
  | notifying (notification : RuntimeNotification)
  | exited
  deriving DecidableEq, Repr

/-- Where a forwarded operation is. -/
inductive OperationStage where
  /-- Admitted, before it calls the session. -/
  | admitted
  /-- Inside the session, with a lease of its own there. -/
  | inSession
  /-- In the `catch` block. -/
  | failing
  /-- Before `~Operation`. -/
  | leaving
  deriving DecidableEq, Repr

/-- An admitted `Operation` and the call it forwards. -/
structure Operation where
  ref : Nat
  handle : SessionHandle
  call : SessionCall
  stage : OperationStage := .admitted
  deriving DecidableEq, Repr

/-! ## the state -/

/-- The counters of `RuntimeStats` that the manager keeps. -/
structure RuntimeCounters where
  lifecycle : RuntimeLifecycle := .running
  admitted : Nat := 0
  rejected : Nat := 0
  rejectedInvalid : Nat := 0
  rejectedDuplicate : Nat := 0
  rejectedCapacity : Nat := 0
  rejectedQueue : Nat := 0
  rejectedDraining : Nat := 0
  rejectedIdentity : Nat := 0
  retired : Nat := 0
  failures : Nat := 0
  notificationHighWatermark : Nat := 0
  droppedNotifications : Nat := 0
  observerFailures : Nat := 0
  firstDroppedSequence : Nat := 0
  lastDroppedSequence : Nat := 0
  deriving DecidableEq, Repr

/-- `RuntimeManager::Impl` -/
structure RuntimeState where
  /-- Every admission ever accepted; a reference is an index. -/
  entries : List Entry := []
  registry : Table Bytes Nat := ∅
  pending : List Nat := []
  notifications : List RuntimeNotification := []
  counters : RuntimeCounters := {}
  generation : Nat := 1
  sequence : Nat := 1
  enqueued : Nat := 0
  delivered : Nat := 0
  workersDone : Nat := 0
  supervisorDone : Bool := false
  workers : List StartupPlace := []
  supervisor : SupervisorPlace := .collecting
  notifier : NotifierPlace := .waiting
  /-- The operations admitted and not yet over. -/
  operations : List Operation := []
  -- history
  /-- The entries whose factory has been called. -/
  invoked : List Nat := []

namespace RuntimeState

/-- The entries in the registry. -/
def registered (s : RuntimeState) : List Nat := s.registry.entries.map (·.2)

/-- A section writes to an entry. -/
def modifyEntry (s : RuntimeState) (ref : Nat) (f : Entry → Entry) : RuntimeState :=
  { s with entries := s.entries.modify ref f }

/-- Count a notification that was not queued. -/
def dropNotification (s : RuntimeState) (number : Nat) : RuntimeState :=
  { s with counters := { s.counters with
      droppedNotifications := s.counters.droppedNotifications + 1
      firstDroppedSequence :=
        if s.counters.firstDroppedSequence = 0 then number else s.counters.firstDroppedSequence
      lastDroppedSequence := number } }

/-- Queue a notification. -/
def enqueueNotification (s : RuntimeState) (notification : RuntimeNotification) : RuntimeState :=
  let notifications := s.notifications ++ [notification]
  { s with
    notifications := notifications
    enqueued := s.enqueued + 1
    counters := { s.counters with
      notificationHighWatermark := max s.counters.notificationHighWatermark notifications.length } }

/-- `publish` -/
def publish (s : RuntimeState) (config : RuntimeConfig) (entry : Entry)
    (type : RuntimeNotificationType) : RuntimeState :=
  if config.notify then
    let number := s.sequence
    if s.sequence = maxUInt64 then s.dropNotification number
    else
      let s := { s with sequence := s.sequence + 1 }
      if s.notifications.length < config.maxPendingNotifications ∧ ¬ config.allocationFails number then
        s.enqueueNotification
          ⟨number, type, entry.handle, if type = .started then .started else entry.outcome⟩
      else s.dropNotification number
  else s

/-- `stop_entry` -/
def stopEntry (s : RuntimeState) (config : RuntimeConfig) (ref : Nat) (reason : SessionOutcome) :
    RuntimeState :=
  match s.entries[ref]? with
  | none => s
  | some entry =>
      if entry.acceptsStop reason then
        let s := if entry.cancelsReservation then { s with pending := s.pending.erase ref } else s
        let s := s.modifyEntry ref (·.stop reason)
        if entry.stopRequested then s else s.publish config (entry.stop reason) .stopRequested
      else s

/-! ## the public operations -/

/-- `record_rejection` -/
def recordRejection (s : RuntimeState) (status : AdmissionStatus) : RuntimeState :=
  let counters := { s.counters with rejected := s.counters.rejected + 1 }
  { s with counters := match status with
      | .invalidRequest => { counters with rejectedInvalid := counters.rejectedInvalid + 1 }
      | .duplicateId => { counters with rejectedDuplicate := counters.rejectedDuplicate + 1 }
      | .capacityReached => { counters with rejectedCapacity := counters.rejectedCapacity + 1 }
      | .startupQueueFull => { counters with rejectedQueue := counters.rejectedQueue + 1 }
      | .draining => { counters with rejectedDraining := counters.rejectedDraining + 1 }
      | .identityExhausted => { counters with rejectedIdentity := counters.rejectedIdentity + 1 }
      | .accepted => counters }

/-- The checks of `add` under the lock, in their order. -/
def admissionStatus (s : RuntimeState) (config : RuntimeConfig) (id : Bytes) : AdmissionStatus :=
  if s.counters.lifecycle ≠ .running then .draining
  else if (s.registry.lookup id).isSome then .duplicateId
  else if s.registry.size ≥ config.maxSessions then .capacityReached
  else if s.pending.length ≥ config.maxPendingStarts then .startupQueueFull
  else if s.generation = maxUInt64 then .identityExhausted
  else .accepted

/-- The slot, the queue position and the notification of an accepted `add`. -/
def reserve (s : RuntimeState) (config : RuntimeConfig) (entry : Entry) : RuntimeState :=
  let s : RuntimeState := { s with
    entries := s.entries ++ [entry]
    registry := s.registry.insert entry.handle.id s.entries.length
    pending := s.pending ++ [s.entries.length]
    counters := { s.counters with admitted := s.counters.admitted + 1 } }
  s.publish config entry .reserved

/-- `add`; `none` is the exception of a failed allocation, which comes after
the generation was taken. -/
def add (s : RuntimeState) (config : RuntimeConfig) (id : Bytes) (factory : Option Nat)
    (allocationFails : Bool) : RuntimeState × Option SessionAdmission :=
  if id = [] ∨ id.length > config.maxSessionIdBytes ∨ factory = none then
    (s.recordRejection .invalidRequest, some {})
  else match s.admissionStatus config id with
    | .accepted =>
        let entry : Entry := { handle := ⟨config.runtimeId, id, s.generation⟩, factory := factory }
        let s := { s with generation := s.generation + 1 }
        if allocationFails then (s, none)
        else (s.reserve config entry, some ⟨.accepted, entry.handle⟩)
    | status => (s.recordRejection status, some { status := status })

/-- `remove` -/
def remove (s : RuntimeState) (config : RuntimeConfig) (handle : SessionHandle)
    (reason : SessionOutcome) : RuntimeState × RemoveStatus :=
  if handle.runtimeId ≠ config.runtimeId then (s, .staleHandle)
  else match (s.registry.lookup handle.id).bind fun ref =>
      s.entries[ref]?.map fun entry => (ref, entry) with
    | none => (s, .notFound)
    | some (ref, entry) =>
        if handle.generation ≠ entry.handle.generation then (s, .staleHandle)
        else (s.stopEntry config ref reason,
          if entry.stopRequested then .alreadyRequested else .requested)

/-- `matching` -/
def matching (s : RuntimeState) (config : RuntimeConfig) (handle : SessionHandle) :
    Option (Nat × Entry) :=
  if handle.runtimeId ≠ config.runtimeId then none
  else match (s.registry.lookup handle.id).bind fun ref =>
      s.entries[ref]?.map fun entry => (ref, entry) with
    | none => none
    | some (ref, entry) =>
        if entry.handle.generation ≠ handle.generation then none else some (ref, entry)

/-- `find` -/
def find (s : RuntimeState) (config : RuntimeConfig) (handle : SessionHandle) :
    Option SessionInfo :=
  (s.matching config handle).map fun (_, entry) =>
    ⟨entry.handle, entry.phase, entry.outcome, entry.operations⟩

/-- The constructor of `Operation`: `false` when nothing is admitted. -/
def admitOperation (s : RuntimeState) (config : RuntimeConfig) (handle : SessionHandle)
    (call : SessionCall) : RuntimeState × Bool :=
  match s.matching config handle with
  | none => (s, false)
  | some (ref, entry) =>
      if s.counters.lifecycle = .running ∧ entry.phase = .running ∧ entry.stopRequested = false then
        ({ s.modifyEntry ref (fun entry => { entry with operations := entry.operations + 1 }) with
            operations := s.operations ++ [{ ref := ref, handle := handle, call := call }] }, true)
      else (s, false)

/-- `request_shutdown`; `order` is the iteration order of the registry. -/
def requestShutdown (s : RuntimeState) (config : RuntimeConfig) (order : List Nat) : RuntimeState :=
  if s.counters.lifecycle ≠ .running then s
  else order.foldl (fun s ref => s.stopEntry config ref .runtimeShutdown)
    { s with counters := { s.counters with lifecycle := .draining } }

end RuntimeState

/-! ## forwarded operations -/

/-- A step of a forwarded operation. -/
inductive OperationAction where
  | enter
  /-- The session's call `i` is over; `threw` when its exception gets out. -/
  | leave (i : Nat) (threw : Bool)
  | report
  | finish
  deriving DecidableEq, Repr

/-- The check `handle_event` makes before it calls the session. -/
def Operation.forwards (op : Operation) : Bool :=
  match op.call with
  | .handleEvent event =>
      !(event.sessionId ≠ [] ∧ event.sessionId ≠ op.handle.id) &&
      !(event.generation ≠ 0 ∧ event.generation ≠ op.handle.generation)
  | _ => true

/-- `observe` has no `catch` block: an exception of its own would not be reported. -/
def Operation.contains (op : Operation) : Bool :=
  match op.call with
  | .observe _ => false
  | _ => true

namespace RuntimeState

/-- The session `i` calls into, if the entry still owns it. -/
def sessionOf (s : RuntimeState) (ref : Nat) : Option ManagedSession :=
  s.entries[ref]?.bind (·.session)

/-- The session of an entry takes a step. -/
def stepSession (s : RuntimeState) (ref : Nat) (action : SessionAction) : Option RuntimeState :=
  ((s.sessionOf ref).bind (·.step action)).map fun session =>
    s.modifyEntry ref fun entry => { entry with session := some session }

/-- The operation `j` moves on. -/
def setStage (s : RuntimeState) (j : Nat) (stage : OperationStage) : RuntimeState :=
  { s with operations := s.operations.modify j fun op => { op with stage := stage } }

end RuntimeState

/-- `push_audio`, `cancel_response`, `handle_event` and `observe`, after the
constructor of `Operation`. -/
def operationStep (config : RuntimeConfig) (s : RuntimeState) (j : Nat) :
    OperationAction → Option RuntimeState
  | .enter => match s.operations[j]? with
    | some op => match op.stage with
      | .admitted =>
          if op.forwards then (s.sessionOf op.ref).bind fun session =>
            (s.stepSession op.ref (.acquire op.call)).map fun s =>
              s.setStage j (if session.state.lifecycle = .running then .inSession else .leaving)
          else some (s.setStage j .leaving)
      | _ => none
    | none => none
  | .leave i threw => match s.operations[j]? with
    | some op => match op.stage with
      | .inSession =>
          if ((s.sessionOf op.ref).bind (·.state.calls[i]?)).map (·.call) = some op.call ∧
              (threw → op.contains) then
            (s.stepSession op.ref (.release i)).map fun s =>
              s.setStage j (if threw then .failing else .leaving)
          else none
      | _ => none
    | none => none
  | .report => match s.operations[j]? with
    | some op => match op.stage with
      | .failing => some ((s.remove config op.handle .engineFailure).1.setStage j .leaving)
      | _ => none
    | none => none
  | .finish => match s.operations[j]? with
    | some op => match op.stage with
      | .leaving =>
          some { s.modifyEntry op.ref (fun entry => { entry with operations := entry.operations - 1 })
            with operations := s.operations.eraseIdx j }
      | _ => none
    | none => none

/-! ## startup workers -/

/-- A step of `startup_loop`. -/
inductive StartupAction where
  | take
  /-- The factory returned and the session was constructed with this configuration. -/
  | made (config : SessionConfig) (dependencies : Bool)
  /-- The factory threw, or the constructor of the session refused its resources. -/
  | threw
  | store
  | callStart
  | startReturned
  | handle
  | conclude

namespace RuntimeState

/-- The worker `w` moves on. -/
def setWorker (s : RuntimeState) (w : Nat) (place : StartupPlace) : RuntimeState :=
  { s with workers := s.workers.set w place }

/-- Where a startup worker goes with the end of `instance->start()`. -/
def afterStart (ref : Nat) : Option StartResult → StartupPlace
  | none => .starting ref
  | some .returned => .concluding ref false
  | some (.threw _) => .caught ref

/-- The first section of an iteration. -/
def takePending (s : RuntimeState) (w : Nat) : Option RuntimeState :=
  match s.pending with
  | [] =>
      if s.counters.lifecycle = .running then none
      else some ({ s with workersDone := s.workersDone + 1 }.setWorker w .exited)
  | ref :: rest =>
      s.entries[ref]?.map fun entry =>
        let s := { s with pending := rest }.modifyEntry ref Entry.take
        if entry.stopRequested then s.setWorker w (.concluding ref false)
        else { s with invoked := s.invoked ++ [ref] }.setWorker w (.inFactory ref)

/-- The last section of an iteration. -/
def concludeStartup (s : RuntimeState) (config : RuntimeConfig) (w ref : Nat) (failed : Bool) :
    Option RuntimeState :=
  let s := if failed then s.stopEntry config ref .startupFailed else s
  s.entries[ref]?.map fun entry =>
    let s := (s.modifyEntry ref Entry.conclude).setWorker w .waiting
    if entry.stopRequested then s else s.publish config entry.conclude .started

end RuntimeState

/-- `startup_loop` -/
def startupStep (config : RuntimeConfig) (s : RuntimeState) (w : Nat) :
    StartupAction → Option RuntimeState
  | .take => match s.workers[w]? with
    | some .waiting => s.takePending w
    | _ => none
  | .made sessionConfig dependencies => match s.workers[w]? with
    | some (.inFactory ref) => match s.entries[ref]? with
      | some entry =>
          if sessionConfig.timeline.sessionId = entry.handle.id ∧
              sessionConfig.timeline.generation = entry.handle.generation then
            some (s.setWorker w (.storing ref { config := sessionConfig } dependencies))
          else none
      | none => none
    | _ => none
  | .threw => match s.workers[w]? with
    | some (.inFactory ref) => some (s.setWorker w (.caught ref))
    | _ => none
  | .store => match s.workers[w]? with
    | some (.storing ref session dependencies) => s.entries[ref]?.map fun entry =>
        (s.modifyEntry ref (·.store session dependencies)).setWorker w
          (if entry.stopRequested then .concluding ref false else .calling ref)
    | _ => none
  | .callStart => match s.workers[w]? with
    | some (.calling ref) => (s.sessionOf ref).bind fun session =>
        (s.stepSession ref (.start false)).map fun s =>
          s.setWorker w (RuntimeState.afterStart ref (session.state.start false).2)
    | _ => none
  | .startReturned => match s.workers[w]? with
    | some (.starting ref) => (s.sessionOf ref).bind fun session =>
        match session.state.startWake with
        | none => none
        | some result => (s.stepSession ref .startWake).map fun s =>
            s.setWorker w (RuntimeState.afterStart ref (some result))
    | _ => none
  | .handle => match s.workers[w]? with
    | some (.caught ref) => s.entries[ref]?.map fun entry =>
        s.setWorker w (.concluding ref entry.startupFailed)
    | _ => none
  | .conclude => match s.workers[w]? with
    | some (.concluding ref failed) => s.concludeStartup config w ref failed
    | _ => none

/-! ## the supervisor -/

/-- A step of `supervise`. -/
inductive SupervisorAction where
  /-- The section that fills `scan_entries`, in the iteration order of the registry. -/
  | collect (order : List Nat)
  | visit
  | observe
  | report
  | flush
  | check
  | destroy
  | releaseDependencies
  | finalize
  | wake
  deriving DecidableEq, Repr

namespace RuntimeState

/-- The section that fills `scan_entries`, or ends the supervisor. -/
def collect (s : RuntimeState) (config : RuntimeConfig) (order : List Nat) : Option RuntimeState :=
  if s.registry.size = 0 ∧ s.counters.lifecycle ≠ .running ∧ s.workersDone = config.startupWorkers then
    some { s with supervisor := .exited, supervisorDone := true }
  else if order.Perm s.registered then some { s with supervisor := .scanning order }
  else none

/-- The section that looks at the next entry. -/
def visit (s : RuntimeState) (ref : Nat) (rest : List Nat) : Option RuntimeState :=
  s.entries[ref]?.map fun entry =>
    if entry.startupDone then
      { s with supervisor := .visiting ref (if entry.session.isSome then .observing else .checking) rest }
    else { s with supervisor := .scanning rest }

/-- The section that reports a terminal lifecycle. -/
def report (s : RuntimeState) (config : RuntimeConfig) (ref : Nat) (lifecycle : SessionLifecycle) :
    Option RuntimeState :=
  s.entries[ref]?.map fun entry =>
    if lifecycle = .failed then s.stopEntry config ref .lifecycleFailure
    else if entry.stopRequested then s
    else s.stopEntry config ref .unexpectedStop

/-- The section that checks the operations and moves the session out. -/
def check (s : RuntimeState) (ref : Nat) (rest : List Nat) : Option RuntimeState :=
  s.entries[ref]?.map fun entry =>
    if entry.operations ≠ 0 then { s with supervisor := .scanning rest }
    else { s.modifyEntry ref Entry.release with
      supervisor := .visiting ref (.destroying entry.session entry.dependencies) rest }

/-- The section that erases the entry and completes its tickets. -/
def finalize (s : RuntimeState) (config : RuntimeConfig) (ref : Nat) (rest : List Nat) :
    Option RuntimeState :=
  s.entries[ref]?.map fun entry =>
    let s : RuntimeState := { s.modifyEntry ref Entry.finish with
      supervisor := .scanning rest
      registry := s.registry.erase entry.handle.id
      counters := { s.counters with
        retired := s.counters.retired + 1
        failures := s.counters.failures + (if entry.outcome.failed then 1 else 0) } }
    s.publish config entry.finish .retired

end RuntimeState

/-- `supervise`; its waits also end by a timeout. -/
def supervisorStep (config : RuntimeConfig) (s : RuntimeState) :
    SupervisorAction → Option RuntimeState
  | .collect order => match s.supervisor with
    | .collecting => s.collect config order
    | _ => none
  | .visit => match s.supervisor with
    | .scanning [] => some { s with supervisor := .waiting }
    | .scanning (ref :: rest) => s.visit ref rest
    | _ => none
  | .observe => match s.supervisor with
    | .visiting ref .observing rest => (s.sessionOf ref).map fun session =>
        if session.state.lifecycle.terminal then
          { s with supervisor := .visiting ref (.reporting session.state.lifecycle) rest }
        else { s with supervisor := .scanning rest }
    | _ => none
  | .report => match s.supervisor with
    | .visiting ref (.reporting lifecycle) rest => (s.report config ref lifecycle).map fun s =>
        { s with supervisor := .visiting ref .flushing rest }
    | _ => none
  | .flush => match s.supervisor with
    | .visiting ref .flushing rest => (s.sessionOf ref).map fun session =>
        let timeline := session.state.timeline
        if timeline.flushResult false timeline.flushTarget then
          { s with supervisor := .visiting ref .checking rest }
        else { s with supervisor := .scanning rest }
    | _ => none
  | .check => match s.supervisor with
    | .visiting ref .checking rest => s.check ref rest
    | _ => none
  | .destroy => match s.supervisor with
    | .visiting ref (.destroying _ dependencies) rest =>
        some { s with supervisor := .visiting ref (.releasing dependencies) rest }
    | _ => none
  | .releaseDependencies => match s.supervisor with
    | .visiting ref (.releasing _) rest =>
        some { s with supervisor := .visiting ref .finalizing rest }
    | _ => none
  | .finalize => match s.supervisor with
    | .visiting ref .finalizing rest => s.finalize config ref rest
    | _ => none
  | .wake => match s.supervisor with
    | .waiting => some { s with supervisor := .collecting }
    | _ => none

/-! ## the dispatcher -/

/-- A step of `dispatch`. -/
inductive NotifierAction where
  | take
  | notified (threw : Bool)
  deriving DecidableEq, Repr

/-- `dispatch` -/
def notifierStep (s : RuntimeState) : NotifierAction → Option RuntimeState
  | .take => match s.notifier with
    | .waiting => match s.notifications with
      | notification :: rest =>
          some { s with notifications := rest, notifier := .notifying notification }
      | [] =>
          if s.supervisorDone then some { s with
            notifier := .exited
            counters := { s.counters with lifecycle := .stopped } }
          else none
    | _ => none
  | .notified threw => match s.notifier with
    | .notifying _ => some { s with
        notifier := .waiting
        delivered := s.delivered + 1
        counters := { s.counters with
          observerFailures := s.counters.observerFailures + (if threw then 1 else 0) } }
    | _ => none

/-! ## the machine -/

/-- The steps of a session that nobody calls for: of its own threads, of its
engine, and of whoever may stop it. -/
def SessionAction.autonomous : SessionAction → Bool
  | .worker _ | .timeline _ | .enter _ _ _ | .leave _ | .requestStop => true
  | .start _ | .startWake | .acquire _ | .release _ => false

/-- One step of a manager: of a caller, of one of its threads, or of a session. -/
inductive RuntimeAction where
  | add (id : Bytes) (factory : Option Nat) (allocationFails : Bool)
  | remove (handle : SessionHandle)
  | fail (handle : SessionHandle)
  | operate (handle : SessionHandle) (call : SessionCall)
  | operation (j : Nat) (action : OperationAction)
  | requestShutdown (order : List Nat)
  | startup (w : Nat) (action : StartupAction)
  | supervisor (action : SupervisorAction)
  | notifier (action : NotifierAction)
  | session (ref : Nat) (action : SessionAction)
  /-- A step of the session that the supervisor is about to destroy. -/
  | ownedSession (action : SessionAction)

/-- The public operations, the threads and the sessions. -/
def runtimeStep (config : RuntimeConfig) (s : RuntimeState) : RuntimeAction → Option RuntimeState
  | .add id factory allocationFails => some (s.add config id factory allocationFails).1
  | .remove handle => some (s.remove config handle .removed).1
  | .fail handle => some (s.remove config handle .reportedFailure).1
  | .operate handle call =>
      -- no public operation forwards `state()`
      if call = .state then none else some (s.admitOperation config handle call).1
  | .operation j action => operationStep config s j action
  | .requestShutdown order =>
      if order.Perm s.registered then some (s.requestShutdown config order) else none
  | .startup w action => startupStep config s w action
  | .supervisor action => supervisorStep config s action
  | .notifier action => notifierStep s action
  | .session ref action => if action.autonomous then s.stepSession ref action else none
  | .ownedSession action => match s.supervisor with
    | .visiting ref (.destroying (some session) dependencies) rest =>
        if action.autonomous then (session.step action).map fun session =>
          { s with supervisor := .visiting ref (.destroying (some session) dependencies) rest }
        else none
    | _ => none

/-- A manager built with `config`. -/
def runtimeManager (config : RuntimeConfig) : Machine RuntimeState RuntimeAction where
  init := { workers := List.replicate config.startupWorkers .waiting }
  step := runtimeStep config

end ByteTurn

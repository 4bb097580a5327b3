import ByteTurn.EventTimeline

/-!
# ByteTurn.ConversationSession

One non-restartable interaction lifetime (`conversation_session.cpp`): a
lifecycle worker that starts and stops a caller-supplied engine, and admitted
calls that hold a lease while they run on it.

Each critical section under `mutex_` is one step.  The engine is arbitrary:
`capabilities`, `start`, `stop` and every admitted call may return or throw,
and may last while any other thread runs, so each of them is bracketed by two
steps.  The engine context's sink may append to the timeline at any time.

The fields under *history* are read by no step: they count the engine calls
and record what was thrown.
-/

namespace ByteTurn

/-! ## configuration and phases -/

/-- What the constructor accepts: a non-empty id, stored in the timeline's
scope by `scoped_config`.  A null engine is refused there too. -/
structure SessionConfig where
  timeline : TimelineConfig
  sessionId_ne : timeline.sessionId ≠ []

/-- `SessionLifecycle` -/
inductive SessionLifecycle where
  | created | starting | running | stopping | stopped | failed
  deriving DecidableEq, Repr

/-- `terminal` -/
def SessionLifecycle.terminal : SessionLifecycle → Bool
  | .stopped | .failed => true
  | _ => false

/-- The position along `Created -> Starting -> Running -> Stopping -> terminal`. -/
def SessionLifecycle.rank : SessionLifecycle → Nat
  | .created => 0
  | .starting => 1
  | .running => 2
  | .stopping => 3
  | .stopped | .failed => 4

/-- `ConversationCapabilities` -/
structure ConversationCapabilities where
  nativeFullDuplex : Bool := false
  simultaneousListenSpeak : Bool := false
  nativeInterruption : Bool := false
  nativeEndOfUtterance : Bool := false
  nativeBackchannel : Bool := false
  transcriptAvailable : Bool := true
  responseCancellation : Bool := false
  deriving DecidableEq, Repr

/-- The calls that hold a lease (`Operation`) while they run. -/
inductive SessionCall where
  | pushAudio
  | cancelResponse
  | observe (event : Event)
  | handleEvent (event : Event)
  | state
  deriving DecidableEq, Repr

/-- Where an admitted call is. -/
inductive CallStage where
  | admitted
  | inEngine
  | leaving
  deriving DecidableEq, Repr

/-- An admitted call in progress. -/
structure ActiveCall where
  call : SessionCall
  stage : CallStage := .admitted
  deriving DecidableEq, Repr

/-- Where the lifecycle worker is in `lifecycle_loop`. -/
inductive LifecyclePlace where
  /-- In the first wait. -/
  | waiting
  /-- Inside `engine_->capabilities()`. -/
  | probing
  /-- Inside `engine_->start(context)`. -/
  | starting
  /-- Before `publish_lifecycle(SessionStarted)`. -/
  | announcing
  /-- Before the section that may publish `Running`. -/
  | opening
  /-- In the `catch` block, before its section. -/
  | caught
  /-- In the wait for `stop_requested_`. -/
  | serving
  /-- In the wait for `active_operations_ == 0`. -/
  | draining
  /-- Inside `engine_->stop()`. -/
  | stopping
  /-- Before the last `publish_lifecycle`. -/
  | reporting
  /-- Before `timeline_.close()`. -/
  | closing
  /-- Before the section that publishes the terminal state. -/
  | finishing
  | exited
  deriving DecidableEq, Repr

/-- The lifecycle worker: its place, its locals, and the history of its calls
into the engine. -/
structure LifecycleLoop where
  place : LifecyclePlace := .waiting
  attemptedStart : Bool := false
  caps : ConversationCapabilities := {}
  failure : Option Exception := none
  -- history
  capabilitiesCalls : Nat := 0
  startCalls : Nat := 0
  startReturned : Bool := false
  stopCalls : Nat := 0
  thrown : List Exception := []
  deriving DecidableEq, Repr

/-- `ConversationSession` -/
structure SessionState where
  lifecycle : SessionLifecycle := .created
  startRequested : Bool := false
  stopRequested : Bool := false
  activeOperations : Nat := 0
  failure : Option Exception := none
  capabilities : ConversationCapabilities := {}
  timeline : TimelineState := {}
  worker : LifecycleLoop := {}
  /-- The calls holding a lease. -/
  calls : List ActiveCall := []
  /-- `start()` calls blocked in their wait. -/
  starters : Nat := 0
  -- history
  reachedRunning : Bool := false
  startsReturned : Nat := 0
  deriving DecidableEq, Repr

/-! ## the public operations -/

/-- How a `start()` call ends. -/
inductive StartResult where
  | returned
  | threw (error : Exception)
  deriving DecidableEq, Repr

namespace SessionState

/-- The first section of `start()`: it ends the call, or makes it wait.
`callback` is `callback_thread()` of the calling thread. -/
def start (s : SessionState) (callback : Bool) : SessionState × Option StartResult :=
  if s.lifecycle = .running then (s, some .returned)
  else if callback then (s, some (.threw (lit "start cannot wait inside a session callback")))
  else match s.lifecycle with
    | .created =>
        ({ s with lifecycle := .starting, startRequested := true, starters := s.starters + 1 }, none)
    | .starting => ({ s with starters := s.starters + 1 }, none)
    | _ => (s, some (.threw (lit "conversation session cannot restart")))

/-- The end of `start()`, once its wait is over. -/
def startWake (s : SessionState) : Option StartResult :=
  if s.lifecycle = .running ∨ s.lifecycle.terminal then
    match s.failure with
    | some error => some (.threw error)
    | none =>
        if s.lifecycle = .running then some .returned
        else some (.threw (lit "conversation startup was stopped"))
  else none

/-- Count a `start()` call that returned normally. -/
def countReturn (s : SessionState) (result : Option StartResult) : SessionState :=
  { s with startsReturned :=
      if result = some .returned then s.startsReturned + 1 else s.startsReturned }

/-- `acquire_operation` -/
def acquireOperation (s : SessionState) : SessionState × Bool :=
  if s.lifecycle = .running then ({ s with activeOperations := s.activeOperations + 1 }, true)
  else (s, false)

/-- `release_operation` -/
def releaseOperation (s : SessionState) : SessionState :=
  { s with activeOperations := s.activeOperations - 1 }

/-- `request_stop` -/
def requestStop (s : SessionState) : SessionState :=
  if s.lifecycle.terminal then s
  else { s with stopRequested := true, lifecycle := .stopping }

/-- `publish_lifecycle`: whatever the append does is ignored. -/
def publishLifecycle (s : SessionState) (config : SessionConfig) (type : EventType)
    (phase : String) (now : Int) (allocationFails : Bool) : SessionState :=
  { s with timeline := (admitEvent config.timeline s.timeline
      { type := type, sessionId := config.timeline.sessionId, name := lit phase }
      now allocationFails).1 }

end SessionState

/-- The body of an admitted call up to its engine call, if it has one.
`observe` never reaches the engine and `handle_event` only with an event the
timeline admitted. -/
def SessionState.enterCall (s : SessionState) (config : SessionConfig) (i : Nat)
    (call : SessionCall) (now : Int) (allocationFails : Bool) : SessionState :=
  match call with
  | .pushAudio | .cancelResponse | .state =>
      { s with calls := s.calls.set i ⟨call, .inEngine⟩ }
  | .observe event =>
      { s with
        timeline := (admitEvent config.timeline s.timeline event now allocationFails).1
        calls := s.calls.set i ⟨call, .leaving⟩ }
  | .handleEvent event =>
      let result := admitEvent config.timeline s.timeline event now allocationFails
      { s with
        timeline := result.1
        calls := s.calls.set i
          ⟨call, if result.2.1.status = .accepted then .inEngine else .leaving⟩ }

/-! ## the lifecycle worker -/

/-- A step of `lifecycle_loop`; `probed`, `started`, `stopped` and `threw` are
the ends of its calls into the engine. -/
inductive LifecycleAction where
  | wake
  | probed (caps : ConversationCapabilities)
  | started
  | threw (error : Exception)
  | announce (now : Int) (allocationFails : Bool)
  | publishRunning
  | handleFailure
  | stopSeen
  | drained
  | stopped
  | report (now : Int) (allocationFails : Bool)
  | close
  | finish
  deriving DecidableEq, Repr

/-- `lifecycle_loop`, one critical section or engine call boundary at a time. -/
def lifecycleStep (config : SessionConfig) (s : SessionState) :
    LifecycleAction → Option SessionState
  | .wake => match s.worker.place with
    | .waiting =>
        if s.startRequested ∧ ¬ s.stopRequested then
          some { s with worker := { s.worker with
            place := .probing
            attemptedStart := true
            capabilitiesCalls := s.worker.capabilitiesCalls + 1 } }
        else if s.stopRequested then some { s with worker := { s.worker with place := .serving } }
        else none
    | _ => none
  | .probed caps => match s.worker.place with
    | .probing => some { s with worker := { s.worker with
        place := .starting
        caps := caps
        startCalls := s.worker.startCalls + 1 } }
    | _ => none
  | .started => match s.worker.place with
    | .starting => some { s with worker := { s.worker with
        place := .announcing
        startReturned := true } }
    | _ => none
  | .threw error => match s.worker.place with
    | .probing | .starting => some { s with worker := { s.worker with
        place := .caught
        failure := some error
        thrown := s.worker.thrown ++ [error] } }
    | .stopping => some { s with worker := { s.worker with
        place := .reporting
        failure := if s.worker.failure = none then some error else s.worker.failure
        thrown := s.worker.thrown ++ [error] } }
    | _ => none
  | .announce now allocationFails => match s.worker.place with
    | .announcing =>
        some { s.publishLifecycle config .sessionStarted "started" now allocationFails with
          worker := { s.worker with place := .opening } }
    | _ => none
  | .publishRunning => match s.worker.place with
    | .opening =>
        let s := { s with capabilities := s.worker.caps, worker := { s.worker with place := .serving } }
        if s.stopRequested then some s
        else some { s with lifecycle := .running, reachedRunning := true }
    | _ => none
  | .handleFailure => match s.worker.place with
    | .caught => some { s with
        stopRequested := true
        lifecycle := .stopping
        worker := { s.worker with place := .serving } }
    | _ => none
  | .stopSeen => match s.worker.place with
    | .serving =>
        if s.stopRequested then some { s with worker := { s.worker with place := .draining } }
        else none
    | _ => none
  | .drained => match s.worker.place with
    | .draining =>
        if s.activeOperations ≠ 0 then none
        else if s.worker.attemptedStart then
          some { s with worker := { s.worker with
            place := .stopping
            stopCalls := s.worker.stopCalls + 1 } }
        else some { s with worker := { s.worker with place := .reporting } }
    | _ => none
  | .stopped => match s.worker.place with
    | .stopping => some { s with worker := { s.worker with place := .reporting } }
    | _ => none
  | .report now allocationFails => match s.worker.place with
    | .reporting =>
        let s := match s.worker.failure with
          | some _ => s.publishLifecycle config .sessionFailed "lifecycle_failure" now allocationFails
          | none => s.publishLifecycle config .sessionStopped "stopped" now allocationFails
        some { s with worker := { s.worker with place := .closing } }
    | _ => none
  | .close => match s.worker.place with
    | .closing => some { s with
        timeline := s.timeline.close
        worker := { s.worker with place := .finishing } }
    | _ => none
  | .finish => match s.worker.place with
    | .finishing => some { s with
        failure := s.worker.failure
        lifecycle := if s.worker.failure.isSome then .failed else .stopped
        worker := { s.worker with place := .exited } }
    | _ => none

/-! ## the machine -/

/-- One step of a session: of a caller, of an admitted call, of the lifecycle
worker, or of the timeline (an emission through the engine context's sink or a
step of its dispatcher). -/
inductive SessionAction where
  | start (callback : Bool)
  | startWake
  | requestStop
  | acquire (call : SessionCall)
  | enter (i : Nat) (now : Int) (allocationFails : Bool)
  | leave (i : Nat)
  | release (i : Nat)
  | worker (action : LifecycleAction)
  | timeline (action : TimelineAction)
  deriving DecidableEq, Repr

/-- The public operations and the session's two threads. -/
def sessionStep (config : SessionConfig) (s : SessionState) : SessionAction → Option SessionState
  | .start callback => some ((s.start callback).1.countReturn (s.start callback).2)
  | .startWake =>
      if s.starters = 0 then none
      else match s.startWake with
        | none => none
        | some result => some ({ s with starters := s.starters - 1 }.countReturn (some result))
  | .requestStop => some s.requestStop
  | .acquire call => match s.acquireOperation with
    | (s, true) => some { s with calls := s.calls ++ [⟨call, .admitted⟩] }
    | (s, false) => some s
  | .enter i now allocationFails => match s.calls[i]? with
    | some ⟨call, .admitted⟩ => some (s.enterCall config i call now allocationFails)
    | _ => none
  | .leave i => match s.calls[i]? with
    | some ⟨call, .inEngine⟩ => some { s with calls := s.calls.set i ⟨call, .leaving⟩ }
    | _ => none
  | .release i => match s.calls[i]? with
    | some ⟨_, .leaving⟩ => some { s.releaseOperation with calls := s.calls.eraseIdx i }
    | _ => none
  | .worker action => lifecycleStep config s action
  | .timeline action =>
      (timelineStep config.timeline s.timeline action).map fun timeline =>
        { s with timeline := timeline }

/-- A session built with `config`. -/
def conversationSession (config : SessionConfig) : Machine SessionState SessionAction where
  init := {}
  step := sessionStep config

end ByteTurn

import ByteTurn.Event
import ByteTurn.RuntimeManager

/-!
# ByteTurn.VoiceChatConnection

The application's binding of one authenticated connection to the runtime
(`voice_chat_adapter.cpp`).  It runs one session after the other: each accepted
`start` is an *incarnation* with a handle, two tickets and a route.

A method of the binding holds `mutex_` from its first line to its last, so it
is one step.  The runtime and the callbacks of its sessions do not take that
lock: whatever they do while a method runs is a list of `WorldMove`s for each
place where the method looks at them (`others`).

The runtime is free to answer as it likes.  It gives a generation to one
admission only, a ticket keeps its value, and a factory is called with the
handle of its admission.
-/

namespace ByteTurn

/-! ## requests and replies -/

/-- `AuthenticatedClient` -/
structure AuthenticatedClient where
  userId : Bytes
  connectionId : Bytes
  deriving DecidableEq, Repr

/-- `ChatCode` -/
inductive ChatCode where
  | ok | forbidden | staleSession | disconnected | notRunning
  | stopping | awaitingPlayer | admissionRejected | inputRejected | invalidAudio
  deriving DecidableEq, Repr

/-- `ChatPhase` -/
inductive ChatPhase where
  | idle | starting | running | stopping | retired
  deriving DecidableEq, Repr

/-- `ChatStatus` -/
structure ChatStatus where
  code : ChatCode := .ok
  phase : ChatPhase := .idle
  handle : SessionHandle := {}
  startup : SessionOutcome := .none
  retirement : SessionOutcome := .none
  flushRequested : Bool := false
  playerStopped : Bool := false
  droppedOutput : Nat := 0
  deriving DecidableEq, Repr

/-- `StartReply` -/
structure StartReply where
  status : ChatStatus
  admission : SessionAdmission
  deriving DecidableEq, Repr

/-- The fields of a `ChatOutput` that its kind uses. -/
inductive ChatPayload where
  | audio (frame : AudioFrame)
  | transcript (text : Bytes) (final : Bool)
  | observation (event : Event)
  deriving DecidableEq, Repr

/-- `ChatOutput` -/
structure ChatOutput where
  handle : SessionHandle
  payload : ChatPayload
  deriving DecidableEq, Repr

/-- The size the sinks give to `append`. -/
def ChatPayload.bytes : ChatPayload → Nat
  | .audio frame => frame.samples.length * 2
  | .transcript text _ => text.length
  | .observation event => event.stringBytes

/-- `ChatConfig`; the timeout is in milliseconds. -/
structure ChatConfig where
  maxOutputMessages : Nat := 256
  maxPayloadBytes : Nat := 64 * 1024
  livenessTimeout : Int := 30000

/-- What is fixed for the lifetime of a binding, with the conditions the
constructor checks.  `sessionId` is from `next_id`. -/
structure ChatBinding where
  client : AuthenticatedClient
  config : ChatConfig := {}
  sessionId : Bytes := lit "voice-1"
  runtimeId : Nat := 1
  userId_size : client.userId ≠ [] ∧ client.userId.length ≤ 256
  connectionId_size : client.connectionId ≠ [] ∧ client.connectionId.length ≤ 256
  maxOutputMessages_pos : 0 < config.maxOutputMessages
  maxPayloadBytes_pos : 0 < config.maxPayloadBytes
  livenessTimeout_pos : 0 < config.livenessTimeout

/-! ## routes -/

/-- `VoiceChatConnection::Route` -/
structure Route where
  isOpen : Bool := true
  overflow : Bool := false
  dropped : Nat := 0
  queue : List ChatOutput := []
  -- history: everything `append` was called for
  offered : List ChatOutput := []

/-- What `append` does when it cannot keep an output. -/
def Route.overflowed (r : Route) : Route :=
  { r with dropped := r.dropped + 1, overflow := true, isOpen := false, queue := [] }

/-- What `close_route` does to a route. -/
def Route.close (r : Route) : Route := { r with isOpen := false, queue := [] }

/-- What `take_output` does to a route. -/
def Route.drain (r : Route) : Route := { r with queue := [] }

/-- `Route::append`; `stored` is false when filling or storing the output throws. -/
def Route.append (r : Route) (config : ChatConfig) (output : ChatOutput) (stored : Bool) : Route :=
  let r := { r with offered := r.offered ++ [output] }
  if !r.isOpen then r
  else if config.maxPayloadBytes < output.payload.bytes ∨
      config.maxOutputMessages ≤ r.queue.length then r.overflowed
  else if stored then { r with queue := r.queue ++ [output] }
  else r.overflowed

/-- An admission the runtime has accepted: its handle, which the sinks copy into
every output, its route, its tickets, and what `find` answers for it. -/
structure Incarnation where
  handle : SessionHandle
  route : Route := {}
  started : Option SessionOutcome := none
  retired : Option SessionOutcome := none
  info : Option SessionPhase := some .reserved

/-! ## the binding and the world around it -/

/-- What a history remembers. -/
inductive ChatNote where
  /-- `add` accepted. -/
  | admitted (handle : SessionHandle)
  /-- `phase_` was assigned, other than by an accepted start. -/
  | entered (phase : ChatPhase)
  /-- The retired ticket became ready. -/
  | retired (handle : SessionHandle)
  /-- `acknowledge_player_stop` returned `Ok`. -/
  | acknowledged (handle : SessionHandle)
  /-- `add` did not accept. -/
  | refused (answer : AdmissionStatus)
  | removed (handle : SessionHandle)
  | failed (handle : SessionHandle)
  /-- `find` was called. -/
  | found (handle : SessionHandle)
  /-- `RuntimeManager::push_audio` was called. -/
  | fed (handle : SessionHandle)
  /-- A `take_output` returned what it found in the queue. -/
  | took (handle : SessionHandle) (outputs : List ChatOutput)
  /-- A status was given that tells about the session. -/
  | shown (handle : SessionHandle)
  deriving DecidableEq, Repr

/-- What the runtime and the callbacks of its sessions may do at any time. -/
inductive WorldMove where
  /-- A sink is called. -/
  | append (incarnation : Nat) (payload : ChatPayload) (stored : Bool)
  | started (incarnation : Nat) (outcome : SessionOutcome)
  | retired (incarnation : Nat) (outcome : SessionOutcome)
  /-- `find` has another answer from now on. -/
  | find (incarnation : Nat) (info : Option SessionPhase)

/-- `VoiceChatConnection`, and all incarnations there ever were.  `admission_`
and `route_` are assigned together and point to one incarnation; only the
routes of that one and of one that is being started are alive. -/
structure ConnectionState where
  connected : Bool := true
  lastSeen : Int := 0
  admission : Option Nat := none
  phase : ChatPhase := .idle
  flushRequested : Bool := false
  playerStopped : Bool := false
  incarnations : List Incarnation := []
  /-- What others do while a method runs, place by place. -/
  moves : List (List WorldMove) := []
  -- history
  notes : List ChatNote := []

namespace ConnectionState

variable (b : ChatBinding) (s : ConnectionState)

def note (n : ChatNote) : ConnectionState := { s with notes := s.notes ++ [n] }

def setPhase (phase : ChatPhase) : ConnectionState :=
  { s.note (.entered phase) with phase := phase }

def modify (n : Nat) (f : Incarnation → Incarnation) : ConnectionState :=
  { s with incarnations := s.incarnations.modify n f }

/-- The incarnation of `admission_` and `route_`. -/
def current : Option Incarnation := s.admission.bind fun n => s.incarnations[n]?

/-- A move of the world. -/
def move : WorldMove → ConnectionState
  | .append n payload stored => s.modify n fun i =>
      { i with route := i.route.append b.config ⟨i.handle, payload⟩ stored }
  | .started n outcome => s.modify n fun i => { i with started := i.started.or (some outcome) }
  | .retired n outcome => match s.incarnations[n]? with
      | some i =>
          if i.retired.isSome then s
          else (s.modify n fun i => { i with retired := some outcome }).note (.retired i.handle)
      | none => s
  | .find n info => s.modify n fun i => { i with info := info }

/-- Others act. -/
def others : ConnectionState :=
  match s.moves with
  | [] => s
  | moves :: rest => moves.foldl (move b) { s with moves := rest }

/-! ## the private methods -/

/-- `authorized` -/
def authorized (client : AuthenticatedClient) : Bool :=
  client.userId = b.client.userId && client.connectionId = b.client.connectionId

/-- `validate` -/
def validate (client : AuthenticatedClient) (handle : SessionHandle) : ChatCode :=
  if !authorized b client then .forbidden
  else if !s.connected then .disconnected
  else match s.current with
    | none => .staleSession
    | some i => if handle = i.handle then .ok else .staleSession

/-- `close_route` -/
def closeRoute : ConnectionState :=
  match s.admission with
  | none => s
  | some n =>
      let s := s.others b
      { s.modify n fun i => { i with route := i.route.close } with flushRequested := true }

/-- `runtime_.remove`, `runtime_.fail` and `runtime_.find`, by their notes. -/
def request (n : SessionHandle → ChatNote) : ConnectionState :=
  let s := s.others b
  match s.current with
  | none => s
  | some i => s.note (n i.handle)

/-- `stop_locked` -/
def stopLocked : ConnectionState :=
  if s.admission.isNone then s
  else
    let s := s.closeRoute b
    if s.phase ≠ .retired then (s.setPhase .stopping).request b .removed else s

/-- `refresh`, before it looks at the tickets. -/
def refreshOverflow : ConnectionState :=
  let s := s.others b
  match s.current with
  | none => s
  | some i =>
      if i.route.overflow ∧ s.phase ≠ .stopping ∧ s.phase ≠ .retired then
        ((s.closeRoute b).setPhase .stopping).request b .failed
      else s

/-- `refresh`, when the session has not retired. -/
def refreshPhase : ConnectionState :=
  let s := s.request b .found
  let info := s.current.bind (·.info)
  let s := s.others b
  let started := s.current.bind (·.started)
  if info = none ∨ info = some .stopRequested ∨ info = some .retiring ∨
      (started.isSome ∧ started ≠ some .started) then
    (s.closeRoute b).setPhase .stopping
  else
    let s := s.others b
    if s.phase = .starting ∧ (s.current.bind (·.started)).isSome then s.setPhase .running else s

/-- `refresh` -/
def refresh : ConnectionState :=
  if s.admission.isNone then s
  else
    let s := s.refreshOverflow b
    let s := s.others b
    if (s.current.bind (·.retired)).isSome then (s.closeRoute b).setPhase .retired
    else s.refreshPhase b

/-- `snapshot` -/
def snapshot (code : ChatCode) : ChatStatus × ConnectionState :=
  if code = .forbidden ∨ code = .staleSession ∨ code = .disconnected then ({ code := code }, s)
  else
    let s := s.others b
    let startup := (s.current.bind (·.started)).getD .none
    let s := s.others b
    let retirement := (s.current.bind (·.retired)).getD .none
    let s := s.others b
    let handle := (s.current.map (·.handle)).getD {}
    ({ code := code
       phase := s.phase
       handle := handle
       startup := startup
       retirement := retirement
       flushRequested := s.flushRequested
       playerStopped := s.playerStopped
       droppedOutput := (s.current.map (·.route.dropped)).getD 0 }, s.note (.shown handle))

/-! ## the public methods -/

/-- `admission_` -/
def sessionAdmission : SessionAdmission :=
  match s.current with
  | none => {}
  | some i => ⟨.accepted, i.handle⟩

/-- The handle of an accepted admission. -/
def newHandle (generation : Nat) : SessionHandle := ⟨b.runtimeId, b.sessionId, generation⟩

/-- An accepted `add`, and the assignments after it.  The factory may be called
before `add` has returned. -/
def admitted (generation : Nat) : ConnectionState :=
  let n := s.incarnations.length
  let started : Incarnation := { handle := newHandle b generation }
  let s := { s with incarnations := s.incarnations ++ [started] }
  let s := (s.note (.admitted (newHandle b generation))).others b
  { s with admission := some n, phase := .starting, flushRequested := false, playerStopped := false }

/-- A reply with `admission_`. -/
def reply (code : ChatCode) : StartReply × ConnectionState :=
  let (status, s) := s.snapshot b code
  (⟨status, s.sessionAdmission⟩, s)

/-- `start`; `add` answers `answer`, and if it accepts, with `generation`. -/
def start (client : AuthenticatedClient) (answer : AdmissionStatus) (generation : Nat) :
    StartReply × ConnectionState :=
  if !authorized b client then (⟨{ code := .forbidden }, {}⟩, s)
  else if !s.connected then (⟨{ code := .disconnected }, {}⟩, s)
  else
    let s := s.refresh b
    if s.phase = .starting ∨ s.phase = .running then s.reply b .ok
    else if s.phase = .stopping then s.reply b .stopping
    else if s.phase = .retired ∧ !s.playerStopped then s.reply b .awaitingPlayer
    else
      let s := s.others b
      if answer ≠ .accepted then
        let (status, s) := (s.note (.refused answer)).snapshot b .admissionRejected
        (⟨status, ⟨answer, {}⟩⟩, s)
      else (s.admitted b generation).reply b .ok

/-- `stop` -/
def stop (client : AuthenticatedClient) (handle : SessionHandle) : ChatCode × ConnectionState :=
  let code := s.validate b client handle
  if code ≠ .ok then (code, s) else (.ok, (s.stopLocked b).refresh b)

/-- `push_audio`; the runtime answers `accepted`. -/
def pushAudio (client : AuthenticatedClient) (handle : SessionHandle) (frame : AudioFrame)
    (accepted : Bool) : ChatCode × ConnectionState :=
  let code := s.validate b client handle
  if code ≠ .ok then (code, s)
  else
    let s := s.refresh b
    if s.phase ≠ .running then (.notRunning, s)
    else if b.config.maxPayloadBytes / 2 < frame.samples.length ∨ frame.sampleRateHz ≤ 0 ∨
        frame.channels ≤ 0 ∨ frame.samples.length % frame.channels.toNat ≠ 0 then
      (.invalidAudio, s)
    else
      let s := ((s.others b).note (.fed handle)).refresh b
      (if accepted then .ok else if s.phase = .running then .inputRejected else .notRunning, s)

/-- `status` -/
def status (client : AuthenticatedClient) (handle : SessionHandle) :
    ChatStatus × ConnectionState :=
  let code := s.validate b client handle
  let s := if code = .ok then s.refresh b else s
  s.snapshot b code

/-- `take_output` -/
def takeOutput (client : AuthenticatedClient) (handle : SessionHandle) :
    List ChatOutput × ConnectionState :=
  if s.validate b client handle ≠ .ok then ([], s)
  else
    let s := s.refresh b
    if s.phase ≠ .running then ([], s)
    else
      let s := s.others b
      match s.admission, s.current with
      | some n, some i =>
          (i.route.queue,
            (s.modify n fun i => { i with route := i.route.drain }).note
              (.took handle i.route.queue))
      | _, _ => ([], s)

/-- `acknowledge_player_stop` -/
def acknowledgePlayerStop (client : AuthenticatedClient) (handle : SessionHandle) :
    ChatCode × ConnectionState :=
  let code := s.validate b client handle
  if code ≠ .ok then (code, s)
  else
    let s := s.refresh b
    if !s.flushRequested then (.notRunning, s)
    else
      let s := s.note (.acknowledged handle)
      (.ok, { s with playerStopped := true })

/-- The client has been silent for too long.  The times are nanoseconds of the steady
clock, from 0 to 2^63 - 1, and the timeout in nanoseconds is below 2^63 too; there
neither the difference nor the product overflows. -/
def expired (now : Int) : Prop := b.config.livenessTimeout * 1000000 ≤ now - s.lastSeen

instance (now : Int) : Decidable (expired b s now) := inferInstanceAs (Decidable (_ ≤ _))

/-- The liveness check of `heartbeat` and `tick`. -/
def expire (now : Int) : ConnectionState :=
  if expired b s now then { s with connected := false }.stopLocked b else s

/-- `heartbeat` -/
def heartbeat (client : AuthenticatedClient) (now : Int) : ChatCode × ConnectionState :=
  if !authorized b client then (.forbidden, s)
  else
    let s := s.expire b now
    if !s.connected then (.disconnected, s)
    else (.ok, if s.lastSeen < now then { s with lastSeen := now } else s)

/-- `tick` -/
def tick (now : Int) : ConnectionState := (s.expire b now).refresh b

/-- `disconnect` -/
def disconnect : ConnectionState := { s with connected := false }.stopLocked b

end ConnectionState

/-! ## runs -/

/-- A method call, with the answers of the runtime. -/
inductive ChatCall where
  | start (client : AuthenticatedClient) (answer : AdmissionStatus) (generation : Nat)
  | stop (client : AuthenticatedClient) (handle : SessionHandle)
  | pushAudio (client : AuthenticatedClient) (handle : SessionHandle) (frame : AudioFrame)
      (accepted : Bool)
  | status (client : AuthenticatedClient) (handle : SessionHandle)
  | takeOutput (client : AuthenticatedClient) (handle : SessionHandle)
  | acknowledgePlayerStop (client : AuthenticatedClient) (handle : SessionHandle)
  | heartbeat (client : AuthenticatedClient) (now : Int)
  | tick (now : Int)
  | disconnect

inductive ChatAction where
  /-- A method runs, and `moves` are what others do meanwhile. -/
  | call (call : ChatCall) (moves : List (List WorldMove))
  | world (move : WorldMove)

namespace ConnectionState

/-- The state a method leaves. -/
def call (b : ChatBinding) (s : ConnectionState) : ChatCall → ConnectionState
  | .start client answer generation => (s.start b client answer generation).2
  | .stop client handle => (s.stop b client handle).2
  | .pushAudio client handle frame accepted => (s.pushAudio b client handle frame accepted).2
  | .status client handle => (s.status b client handle).2
  | .takeOutput client handle => (s.takeOutput b client handle).2
  | .acknowledgePlayerStop client handle => (s.acknowledgePlayerStop b client handle).2
  | .heartbeat client now => (s.heartbeat b client now).2
  | .tick now => s.tick b now
  | .disconnect => s.disconnect b

/-- The runtime does not give a generation twice. -/
def fresh (b : ChatBinding) (s : ConnectionState) : ChatCall → Bool
  | .start _ .accepted generation => s.incarnations.all fun i => i.handle ≠ newHandle b generation
  | _ => true

end ConnectionState

/-- A binding made at the time `now`. -/
def voiceChat (b : ChatBinding) (now : Int) : Machine ConnectionState ChatAction where
  init := { lastSeen := now }
  step s
    | .call call moves =>
        if s.fresh b call then some (({ s with moves := moves } : ConnectionState).call b call) else none
    | .world move => some (s.move b move)

end ByteTurn

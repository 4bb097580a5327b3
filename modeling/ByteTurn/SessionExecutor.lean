import ByteTurn.Types
import ByteTurn.Lib.Machine
import ByteTurn.Lib.Table

/-!
# ByteTurn.SessionExecutor

Turns of many sessions on a few workers (`executor.cpp`, `turn_context.cpp`):
each session owns a queue, and its id sits in a shared ready list while it has
work and no worker.

Each critical section under `mutex_` is one step, and so are the parts of
`worker_loop` around a task: it may return or throw, and lasts while any other
thread runs.  A shared `Work` object is an entry of `works`, named by its index
(its ticket); tickets are handed out in the order the mutex admits the turns.

`sessions_.at` on a missing key throws out of a worker thread; that is recorded
in `missed`.  The fields under *history* are read by no step.
-/

namespace ByteTurn

/-! ## turns -/

/-- `TurnState` -/
inductive TurnState where
  | queued | running | modelStreaming | toolExecuting | synthesizing
  | completed | cancelled | timedOut | failed
  deriving DecidableEq, Repr

/-- `TurnOptions`; `timeout` is in milliseconds. -/
structure TurnOptions where
  turnId : Bytes := []
  traceId : Bytes := []
  timeout : Int := 15000
  deriving DecidableEq, Repr

/-- `Work` and its `TurnContext`: `deadline` is in nanoseconds of the steady
clock and `promise` lists what it has been set to, a value or an exception. -/
structure Work where
  sessionId : Bytes
  turnId : Bytes
  traceId : Bytes
  deadline : Int
  cancelled : Bool := false
  state : TurnState := .queued
  promise : List (Except Exception Bytes) := []
  deriving Repr

namespace Work

/-- `context->expired()` -/
def expired (w : Work) (now : Int) : Bool := w.deadline ≤ now

/-- `cancelled->store(true)` -/
def cancel (w : Work) : Work := { w with cancelled := true }

/-- What `cancel_session` and `shutdown` do to a queued turn. -/
def drop (error : Exception) (w : Work) : Work :=
  { w with cancelled := true, promise := w.promise ++ [.error error] }

/-- The part of `worker_loop` before the task. -/
def begin (now : Int) (w : Work) : Work :=
  { w with cancelled := w.cancelled || w.expired now, state := .running }

/-- The part of `worker_loop` after a task that returned `reply`. -/
def complete (reply : Bytes) (w : Work) : Work :=
  { w with state := .completed, promise := w.promise ++ [.ok reply] }

/-- The `catch` block of `worker_loop`. -/
def fail (error : Exception) (now : Int) (w : Work) : Work :=
  { w with
    state := if w.expired now then .timedOut else if w.cancelled then .cancelled else .failed
    promise := w.promise ++ [.error error] }

end Work

/-! ## the executor -/

/-- What the constructor accepts, with `worker_count` as it leaves it: zero
becomes the hardware's concurrency. -/
structure SessionExecutorConfig where
  workerCount : Nat
  maxPendingPerSession : Nat := 4
  maxPendingTotal : Nat := 1024
  workerCount_pos : 0 < workerCount := by decide
  perSession_pos : 0 < maxPendingPerSession := by decide
  total_pos : 0 < maxPendingTotal := by decide

/-- `SessionExecutor::Session` -/
structure ExecutorSession where
  queue : List Nat := []
  running : Option Nat := none
  scheduled : Bool := false
  deriving DecidableEq, Repr

/-- Where a worker is in `worker_loop`. -/
inductive WorkerPlace where
  | waiting
  /-- It took a turn, and has not called its task yet. -/
  | taken (sessionId : Bytes) (ticket : Nat)
  /-- Inside the task. -/
  | executing (sessionId : Bytes) (ticket : Nat)
  /-- Before the last section of the iteration. -/
  | retiring (sessionId : Bytes) (ticket : Nat)
  | exited
  deriving DecidableEq, Repr

/-- `SessionExecutor` -/
structure ExecutorState where
  sessions : Table Bytes ExecutorSession := ∅
  readySessions : List Bytes := []
  nextTurnId : Nat := 1
  pendingTotal : Nat := 0
  stopping : Bool := false
  workers : List WorkerPlace
  works : List Work := []
  /-- The `shutdown` call that joined the workers has returned. -/
  joined : Bool := false
  missed : Bool := false
  -- history
  started : List (Bytes × Nat) := []

/-- The exceptions of `submit_turn`. -/
inductive SubmitError where
  | invalidArgument (what : Bytes)
  | stopped (what : Bytes)
  | overloaded (what : Bytes)
  deriving DecidableEq, Repr

/-- `TurnHandle`: the future is that of the ticket's promise. -/
structure TurnHandle where
  turnId : Bytes
  ticket : Nat
  deriving DecidableEq, Repr

namespace ExecutorState

/-- The turn id of a submission and the next counter. -/
def nameTurn (s : ExecutorState) (options : TurnOptions) : Bytes × Nat :=
  if options.turnId = [] then (lit (toString s.nextTurnId), (s.nextTurnId + 1) % 2 ^ 64)
  else (options.turnId, s.nextTurnId)

/-- The two limits, in the order they are checked. -/
def overload (config : SessionExecutorConfig) (s : ExecutorState) (sessionId : Bytes) :
    Option Bytes :=
  let full := match s.sessions.lookup sessionId with
    | some session => decide (config.maxPendingPerSession ≤ session.queue.length)
    | none => false
  if full then some (lit "session pending-turn limit reached")
  else if config.maxPendingTotal ≤ s.pendingTotal then
    some (lit "executor pending-turn limit reached")
  else none

/-- `sessions_[session_id]`: a session not in the map is an empty one. -/
def session (s : ExecutorState) (sessionId : Bytes) : ExecutorSession :=
  (s.sessions.lookup sessionId).getD {}

/-- The end of `submit_turn`, which queues the turn. -/
def enqueue (s : ExecutorState) (sessionId turnId : Bytes) (options : TurnOptions) (now : Int) :
    ExecutorState :=
  let session := s.session sessionId
  let idle := !session.scheduled && session.running.isNone
  { s with
    works := s.works ++ [{
      sessionId := sessionId
      turnId := turnId
      traceId := if options.traceId = [] then sessionId ++ lit ":" ++ turnId else options.traceId
      deadline := now + options.timeout * 1000000 }]
    sessions := s.sessions.insert sessionId { session with
      queue := session.queue ++ [s.works.length]
      scheduled := session.scheduled || idle }
    pendingTotal := s.pendingTotal + 1
    readySessions := if idle then s.readySessions ++ [sessionId] else s.readySessions }

/-- `submit_turn` -/
def submitTurn (config : SessionExecutorConfig) (s : ExecutorState) (sessionId : Bytes)
    (options : TurnOptions) (now : Int) : ExecutorState × Except SubmitError TurnHandle :=
  if sessionId = [] then (s, .error (.invalidArgument (lit "session id is required")))
  else if options.timeout ≤ 0 then
    (s, .error (.invalidArgument (lit "turn timeout must be positive")))
  else if s.stopping then (s, .error (.stopped (lit "session executor is stopped")))
  else
    let (turnId, nextTurnId) := s.nameTurn options
    let s := { s with nextTurnId := nextTurnId }
    match s.overload config sessionId with
    | some what => (s, .error (.overloaded what))
    | none => (s.enqueue sessionId turnId options now, .ok ⟨turnId, s.works.length⟩)

end ExecutorState

/-- The flags and promises that `cancel_session` and `shutdown` set for one
session, `error` being what its queued turns fail with. -/
def ExecutorSession.cancelWorks (session : ExecutorSession) (error : Exception)
    (works : List Work) : List Work :=
  let works := match session.running with
    | some ticket => works.modify ticket Work.cancel
    | none => works
  session.queue.foldl (fun works ticket => works.modify ticket (Work.drop error)) works

namespace ExecutorState

/-- `cancel_session` -/
def cancelSession (s : ExecutorState) (sessionId : Bytes) : ExecutorState :=
  match s.sessions.lookup sessionId with
  | none => s
  | some session => { s with
      works := session.cancelWorks (lit "turn cancelled") s.works
      pendingTotal := s.pendingTotal - session.queue.length
      sessions := s.sessions.insert sessionId { session with queue := [] } }

/-- The section of `shutdown`; the call then joins the workers. -/
def shutdown (s : ExecutorState) : ExecutorState :=
  if s.stopping then s
  else { s with
    stopping := true
    works := s.sessions.entries.foldl
      (fun works e => e.2.cancelWorks (lit "executor stopped") works) s.works
    pendingTotal := s.sessions.entries.foldl
      (fun pendingTotal e => pendingTotal - e.2.queue.length) s.pendingTotal
    sessions := s.sessions.mapValues fun session => { session with queue := [] } }

/-- The first section of a worker's iteration, for the worker `k`. -/
def takeTurn (s : ExecutorState) (k : Nat) : Option ExecutorState :=
  match s.readySessions with
  | [] => if s.stopping then some { s with workers := s.workers.set k .exited } else none
  | sessionId :: ready => match s.sessions.lookup sessionId with
    | none => some { s with
        readySessions := ready
        workers := s.workers.set k .exited
        missed := true }
    | some session => match session.queue with
      | [] => some { s with
          readySessions := ready
          sessions := s.sessions.insert sessionId { session with scheduled := false } }
      | ticket :: rest => some { s with
          readySessions := ready
          pendingTotal := s.pendingTotal - 1
          sessions := s.sessions.insert sessionId {
            queue := rest
            running := some ticket
            scheduled := false }
          workers := s.workers.set k (.taken sessionId ticket)
          started := s.started ++ [(sessionId, ticket)] }

/-- The last section of a worker's iteration. -/
def retireTurn (s : ExecutorState) (k : Nat) (sessionId : Bytes) : ExecutorState :=
  match s.sessions.lookup sessionId with
  | none => { s with workers := s.workers.set k .exited, missed := true }
  | some session =>
      let s := { s with workers := s.workers.set k .waiting }
      if session.queue ≠ [] ∧ ¬ s.stopping then { s with
        readySessions := s.readySessions ++ [sessionId]
        sessions := s.sessions.insert sessionId
          { session with running := none, scheduled := true } }
      else if session.queue = [] then { s with sessions := s.sessions.erase sessionId }
      else { s with sessions := s.sessions.insert sessionId { session with running := none } }

end ExecutorState

/-- A step of a worker; `returned` and `threw` are the ends of a task. -/
inductive WorkerAction where
  | take
  | begin (now : Int)
  | returned (reply : Bytes)
  | threw (error : Exception) (now : Int)
  | retire
  deriving DecidableEq, Repr

/-- `worker_loop`, for the worker `k`. -/
def workerStep (s : ExecutorState) (k : Nat) : WorkerAction → Option ExecutorState
  | .take => match s.workers[k]? with
    | some .waiting => s.takeTurn k
    | _ => none
  | .begin now => match s.workers[k]? with
    | some (.taken sessionId ticket) => some { s with
        works := s.works.modify ticket (Work.begin now)
        workers := s.workers.set k (.executing sessionId ticket) }
    | _ => none
  | .returned reply => match s.workers[k]? with
    | some (.executing sessionId ticket) => some { s with
        works := s.works.modify ticket (Work.complete reply)
        workers := s.workers.set k (.retiring sessionId ticket) }
    | _ => none
  | .threw error now => match s.workers[k]? with
    | some (.executing sessionId ticket) => some { s with
        works := s.works.modify ticket (Work.fail error now)
        workers := s.workers.set k (.retiring sessionId ticket) }
    | _ => none
  | .retire => match s.workers[k]? with
    | some (.retiring sessionId _) => some (s.retireTurn k sessionId)
    | _ => none

/-- One step of an executor. -/
inductive ExecutorAction where
  | submit (sessionId : Bytes) (options : TurnOptions) (now : Int)
  | cancel (sessionId : Bytes)
  | shutdown
  /-- The joins of the `shutdown` call that set `stopping_`. -/
  | join
  | worker (k : Nat) (action : WorkerAction)
  deriving DecidableEq, Repr

/-- The public operations and the workers. -/
def executorStep (config : SessionExecutorConfig) (s : ExecutorState) :
    ExecutorAction → Option ExecutorState
  | .submit sessionId options now => some (s.submitTurn config sessionId options now).1
  | .cancel sessionId => some (s.cancelSession sessionId)
  | .shutdown => some s.shutdown
  | .join =>
      if s.stopping ∧ ∀ place ∈ s.workers, place = .exited then some { s with joined := true }
      else none
  | .worker k action => workerStep s k action

/-- An executor built with `config`. -/
def sessionExecutor (config : SessionExecutorConfig) : Machine ExecutorState ExecutorAction where
  init := { workers := List.replicate config.workerCount .waiting }
  step := executorStep config

end ByteTurn

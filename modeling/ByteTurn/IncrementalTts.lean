import ByteTurn.Types
import ByteTurn.Lib.Machine

/-!
# ByteTurn.IncrementalTts

The incremental speech pipeline (`incremental_tts.cpp`): producers push text
into a bounded queue, one worker takes it and calls the speech provider.

Each critical section under `mutex_` is one step, and so is each return of a
provider call, which may return or throw whatever the other threads do
meanwhile.  The external `cancelled` predicate is a flag that may turn true at
any step and stays true.  A blocked `push` may re-evaluate its wait predicate
at any step; notifications are not modelled, so nothing here depends on who
wakes it.

The fields under *history* are read by no step.
-/

namespace ByteTurn

/-- What the constructor accepts: a positive queue capacity. -/
structure IncrementalTtsConfig where
  maxQueuedChunks : Nat := 4
  positive : 0 < maxQueuedChunks := by decide

/-- A `push` call in progress. -/
structure PushCall where
  text : Bytes
  /-- In the condition wait, after a first evaluation of its predicate. -/
  blocked : Bool := false
  deriving DecidableEq, Repr

/-- Where the worker is in `worker_loop`. -/
inductive TtsPlace where
  /-- Inside `tts_.begin_utterance()`. -/
  | beginning
  /-- Before or in the wait at the head of the loop. -/
  | waiting
  /-- Inside `tts_.synthesize_chunk(chunk, ...)`. -/
  | synthesizing
  /-- Before the poll that ends an iteration. -/
  | polling
  /-- Out of the loop, before the test that guards `end_utterance`. -/
  | leaving
  /-- Inside `tts_.end_utterance()`. -/
  | ending
  /-- In the `catch` block, before its section. -/
  | caught (error : Exception)
  | exited
  deriving DecidableEq, Repr

/-- `IncrementalTtsPipeline` -/
structure IncrementalTtsState where
  queue : List Bytes := []
  error : Option Exception := none
  finishing : Bool := false
  cancelledLocally : Bool := false
  joined : Bool := false
  /-- What `cancelled_()` answers. -/
  cancelled : Bool := false
  worker : TtsPlace := .beginning
  pushes : List PushCall := []
  /-- `finish()` calls in their `join()`. -/
  finishers : Nat := 0
  -- history
  accepted : List Bytes := []
  synthesized : List Bytes := []
  endReturned : Bool := false
  finished : List (Option Exception) := []
  deriving DecidableEq, Repr

namespace IncrementalTtsState

/-- The predicate of the wait in `push`. -/
def pushWake (config : IncrementalTtsConfig) (s : IncrementalTtsState) : Bool :=
  s.finishing || s.cancelledLocally || s.error.isSome || s.queue.length < config.maxQueuedChunks

/-- The section of `push`: the call waits (`none`), or ends with a result. -/
def push (config : IncrementalTtsConfig) (s : IncrementalTtsState) (text : Bytes) :
    IncrementalTtsState × Option Bool :=
  if s.pushWake config then
    if s.finishing || s.cancelledLocally || s.error.isSome || s.cancelled then (s, some false)
    else ({ s with queue := s.queue ++ [text], accepted := s.accepted ++ [text] }, some true)
  else (s, none)

/-- The section of `finish`; the call then waits in `join`. -/
def finish (s : IncrementalTtsState) : IncrementalTtsState :=
  { s with finishing := true, finishers := s.finishers + 1 }

/-- The section of `cancel`. -/
def cancel (s : IncrementalTtsState) : IncrementalTtsState :=
  if s.cancelledLocally || s.joined then s
  else { s with cancelledLocally := true, queue := [] }

/-- The section at the head of the worker's loop: it stays in the wait
(`none`), leaves the loop, goes round again, or takes a chunk. -/
def takeChunk (s : IncrementalTtsState) : Option IncrementalTtsState :=
  if s.cancelledLocally || !s.queue.isEmpty || s.finishing then
    if s.cancelledLocally || s.cancelled then some { s with worker := .leaving }
    else match s.queue with
      | [] => if s.finishing then some { s with worker := .leaving } else some s
      | chunk :: rest => some { s with
          queue := rest
          synthesized := s.synthesized ++ [chunk]
          worker := .synthesizing }
  else none

end IncrementalTtsState

/-- A step of `worker_loop`; `returned` and `threw` end a provider call. -/
inductive TtsWorkerAction where
  | takeChunk
  | returned
  | threw (error : Exception)
  | poll
  | leave
  | handle
  deriving DecidableEq, Repr

/-- `worker_loop` -/
def ttsWorkerStep (s : IncrementalTtsState) : TtsWorkerAction → Option IncrementalTtsState
  | .takeChunk => match s.worker with
    | .waiting => s.takeChunk
    | _ => none
  | .returned => match s.worker with
    | .beginning => some { s with worker := .waiting }
    | .synthesizing => some { s with worker := .polling }
    | .ending => some { s with worker := .exited, endReturned := true }
    | _ => none
  | .threw error => match s.worker with
    | .beginning | .synthesizing | .ending => some { s with worker := .caught error }
    | _ => none
  | .poll => match s.worker with
    | .polling => some { s with worker := if s.cancelled then .leaving else .waiting }
    | _ => none
  | .leave => match s.worker with
    | .leaving => some { s with
        worker := if !s.cancelledLocally && !s.cancelled then .ending else .exited }
    | _ => none
  | .handle => match s.worker with
    | .caught error => some { s with
        error := some error
        cancelledLocally := true
        queue := []
        worker := .exited }
    | _ => none

/-- One step of a pipeline: of its callers, of the world that may cancel it, or
of its worker. -/
inductive IncrementalTtsAction where
  | cancelExternally
  | push (text : Bytes)
  | pushSection (i : Nat)
  | finish
  | finishReturn
  | cancel
  /-- The join of the destructor. -/
  | join
  | worker (action : TtsWorkerAction)
  deriving DecidableEq, Repr

/-- The public operations and the worker. -/
def incrementalTtsStep (config : IncrementalTtsConfig) (s : IncrementalTtsState) :
    IncrementalTtsAction → Option IncrementalTtsState
  | .cancelExternally => some { s with cancelled := true }
  | .push text => some { s with pushes := s.pushes ++ [⟨text, false⟩] }
  | .pushSection i => match s.pushes[i]? with
    | some call => match s.push config call.text with
      | (s, none) => some { s with pushes := s.pushes.set i ⟨call.text, true⟩ }
      | (s, some _) => some { s with pushes := s.pushes.eraseIdx i }
    | none => none
  | .finish => some s.finish
  | .finishReturn =>
      if s.finishers ≠ 0 ∧ (s.joined ∨ s.worker = .exited) then some { s with
        joined := true
        finishers := s.finishers - 1
        finished := s.finished ++ [s.error] }
      else none
  | .cancel => some s.cancel
  | .join => if s.worker = .exited then some { s with joined := true } else none
  | .worker action => ttsWorkerStep s action

/-- A pipeline built with `config`. -/
def incrementalTts (config : IncrementalTtsConfig) :
    Machine IncrementalTtsState IncrementalTtsAction where
  init := {}
  step := incrementalTtsStep config

end ByteTurn

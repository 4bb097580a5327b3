import ByteTurn.Conversation.Rest
import ByteTurn.Conversation.Speech
import ByteTurn.IncrementalTts.Ordering

/-!
# ByteTurn.Conversation.Responses

The responses of a conversation (`on_transcript` in `conversation.cpp`,
`submit_streaming` in `session.cpp`, `worker_loop` in `executor.cpp`).

`responses` runs everything that meets in a turn: the callers of the
conversation, the lane of the executor that runs the tasks one after the other,
the agent inside a task, the callbacks of `on_transcript` around it, and the
speech pipeline of each turn with its worker.  The agent is taken at its
interface: it reports deltas, and returns or throws when it likes.

The task reads the cancellation flag, the deadline, `alive_` and `generation_`
one at a time; reads in a row that only ask whether all is well still are one
step, since none of them is ever taken back.  `generation_` is taken not to
wrap: it is bumped only while it has room.

The fields under *history* are read by no step.
-/

namespace ByteTurn

/-- Where the lane is in the task of a response. -/
inductive ResponsePlace where
  /-- In the queue, or dropped from it. -/
  | queued
  /-- Taken from the queue, before the executor looks at the deadline. -/
  | taken
  /-- At the first stop check of the task. -/
  | entering
  /-- Inside `run_streaming`, outside the delta sink. -/
  | agent
  /-- In the loop over the sentences the segmenter returned. -/
  | speaking (sentences : List Bytes)
  /-- In `speak`, before its section under `turn_mutex_`. -/
  | opening (sentence : Bytes) (rest : List Bytes)
  /-- Inside `turn->speech->push`. -/
  | pushing (sentence : Bytes) (rest : List Bytes)
  /-- At the stop check after `run_streaming`. -/
  | returned
  /-- In the completion, before `turn->speech->finish`. -/
  | finishing
  /-- In the join of that call. -/
  | joining
  /-- At the check after it. -/
  | checking
  /-- Before the events of a completed response. -/
  | publishing
  /-- Before the last section of the completion. -/
  | settling
  /-- In the failure callback, before `turn->speech->cancel`. -/
  | failing
  /-- Before `turn->speech->finish` there. -/
  | quieting
  /-- In the join of that call. -/
  | rejoining
  /-- Before `context.expired()`. -/
  | reporting
  /-- Before the other tests that classify the failure. -/
  | classifying
  /-- Before the last section of the failure callback. -/
  | resigning
  /-- The task has ended. -/
  | ended
  deriving DecidableEq, Repr

/-- A response: the `Work` of the executor and the `SpeechTurn` its callbacks share. -/
structure Response where
  place : ResponsePlace := .queued
  /-- `work->cancelled` -/
  cancelled : Bool := false
  /-- The deadline has passed. -/
  expired : Bool := false
  segmenter : SentenceSegmenter := .fresh
  /-- The agent has returned, and the segmenter is flushed. -/
  flushed : Bool := false
  /-- `turn->speech`, from `speech_started` on. -/
  speech : Option (IncrementalTtsState × TtsHistory) := none
  firstAudio : Bool := true
  /-- A frame has passed the checks of the audio sink and not left it. -/
  sinking : Bool := false
  -- history
  deltas : List Bytes := []
  sentences : List Bytes := []
  published : List EventType := []
  /-- For each frame that reached the sink, whether the response was stale by then. -/
  heard : List Bool := []

/-- What a callback reads of the conversation. -/
structure ResponseView where
  alive : Bool
  /-- `my_generation == generation_` -/
  current : Bool
  deriving DecidableEq, Repr

/-- `!life || my_generation != generation_` -/
def ResponseView.gone (v : ResponseView) : Bool := !(v.alive && v.current)

namespace Response

/-- `stop_requested` -/
def stopRequested (r : Response) : Bool := r.cancelled || r.expired

/-- Events are published. -/
def publish (r : Response) (events : List EventType) : Response :=
  { r with published := r.published ++ events }

/-- `speak` or the delta sink returns to its caller. -/
def resume (r : Response) : Response :=
  { r with place := if r.flushed then .finishing else .agent }

/-- A call of the pipeline, whose `cancelled_()` answers for the view. -/
def speechStep (config : IncrementalTtsConfig) (v : ResponseView) (r : Response)
    (a : IncrementalTtsAction) : Option Response :=
  r.speech.bind fun (pipeline, history) =>
    ((ByteTurn.speech config).step ({ pipeline with cancelled := pipeline.cancelled || v.gone }, history)
      (.pipeline a)).map fun speech => { r with speech := some speech }

/-- The section of `turn->speech->push`, disabled while it waits: afterwards the
loop goes on, or is left. -/
def pushSentence (config : IncrementalTtsConfig) (v : ResponseView) (r : Response)
    (sentence : Bytes) (rest : List Bytes) : Option Response :=
  r.speech.bind fun (pipeline, history) =>
    match { pipeline with cancelled := pipeline.cancelled || v.gone }.push config sentence with
    | (_, none) => none
    | (pipeline, some true) =>
        some { r with speech := some (pipeline, history), place := .speaking rest }
    | (pipeline, some false) => some { r with speech := some (pipeline, history) }.resume

/-- `finish` has returned: where the task goes then. -/
def joined (r : Response) (place failed : ResponsePlace) : Response :=
  { r with place := if r.speech.any (·.1.error.isSome) then failed else place }

/-- The next step of the task, outside the agent. -/
def advance (config : IncrementalTtsConfig) (v : ResponseView) (r : Response) : Option Response :=
  match r.place with
  | .queued | .agent | .ended => none
  | .taken => some { r with cancelled := r.cancelled || r.expired, place := .entering }
  | .entering =>
      if r.stopRequested then some { r with place := .failing }
      else some (publish { r with place := .agent } [.turnStarted])
  | .speaking [] => some r.resume
  | .speaking (sentence :: rest) =>
      if v.gone then some r.resume
      else if r.speech.isNone then some { r with place := .opening sentence rest }
      else some (publish { r with place := .pushing sentence rest } [.ttsChunkStarted])
  | .opening sentence rest =>
      if v.current then
        some (publish { r with speech := some ({}, {}), place := .pushing sentence rest }
          [.speechStarted, .ttsChunkStarted])
      else some r.resume
  | .pushing sentence rest => r.pushSentence config v sentence rest
  | .returned =>
      if r.stopRequested then some { r with place := .failing }
      else match r.segmenter.flush with
        | (.ok sentences, segmenter) => some { r with
            segmenter := segmenter
            flushed := true
            sentences := r.sentences ++ sentences
            place := .speaking sentences }
        | (.error _, segmenter) => some { r with segmenter := segmenter, place := .failing }
  | .finishing =>
      if r.speech.isNone then some { r with place := .checking }
      else (r.speechStep config v .finish).map fun r => { r with place := .joining }
  | .joining => (r.speechStep config v .finishReturn).map (·.joined .checking .failing)
  | .checking =>
      if r.stopRequested || v.gone then some { r with place := .failing }
      else some { r with place := .publishing }
  | .publishing =>
      some (publish { r with place := .settling }
        ((if r.speech.isSome then [.speechCompleted] else []) ++ [.conversationTurnCompleted]))
  | .failing =>
      if r.speech.isNone then some { r with place := .reporting }
      else (r.speechStep config v .cancel).map fun r => { r with place := .quieting }
  | .quieting => (r.speechStep config v .finish).map fun r => { r with place := .rejoining }
  | .rejoining =>
      (r.speechStep config v .finishReturn).map (·.joined .reporting .reporting)
  | .reporting =>
      if r.expired then some (publish { r with place := .resigning } [.conversationTurnFailed])
      else some { r with place := .classifying }
  | .classifying => some (publish { r with place := .resigning }
      [if r.cancelled || !v.current then .conversationTurnCancelled else .conversationTurnFailed])
  | .settling | .resigning => some { r with place := .ended }

/-- A delta of the model reaches the agent's sink: it refuses it when a stop is
requested, ignores an empty one, and otherwise passes it on. -/
def delta (r : Response) (text : Bytes) : Option Response :=
  if r.place = .agent then
    let r := { r with deltas := r.deltas ++ [text] }
    if r.stopRequested || text.isEmpty then some r
    else match r.segmenter.push text with
      | (.ok sentences, segmenter) => some { r with
          segmenter := segmenter
          sentences := r.sentences ++ sentences
          place := .speaking sentences }
      | (.error _, segmenter) => some { r with segmenter := segmenter }
  else none

/-- `run_streaming` returns a reply: the model's, or that of the step limit. -/
def agentReturn (r : Response) (completed : Bool) : Option Response :=
  if r.place = .agent then
    some (publish { r with place := .returned }
      [if completed then .turnCompleted else .turnFailed])
  else none

/-- `run_streaming` throws. -/
def agentThrow (r : Response) : Option Response :=
  if r.place = .agent then
    some (publish { r with place := .failing }
      [if r.stopRequested then .turnCancelled else .turnFailed])
  else none

/-- A step of the pipeline's worker; it does not leave `synthesize_chunk` while
the provider is inside the audio sink. -/
def workerStep (config : IncrementalTtsConfig) (v : ResponseView) (r : Response)
    (a : TtsWorkerAction) : Option Response :=
  if r.sinking then none else r.speechStep config v (.worker a)

/-- A frame passes the checks of the pipeline and of the conversation. -/
def frame (v : ResponseView) (r : Response) : Option Response :=
  if !r.sinking && !v.gone &&
      r.speech.any (fun p => p.1.worker = .synthesizing && !p.1.cancelledLocally) then
    some (publish { r with sinking := true, firstAudio := false }
      (if r.firstAudio then [.firstAudio] else []))
  else none

/-- `audio_sink_` takes the frame, and returns or throws. -/
def frameEnd (v : ResponseView) (r : Response) (threw : Bool) : Option Response :=
  if r.sinking then
    some (publish { r with sinking := false, heard := r.heard ++ [v.gone] }
      (if threw then [] else [.audioOutput]))
  else none

end Response

/-- A moment of an utterance, as the provider sees it: a call, or the end of the
worker that made the calls. -/
inductive UtteranceMoment where
  | call (call : TtsCall)
  | exit
  deriving DecidableEq, Repr

namespace Response

/-- The calls to the provider so far. -/
def calls (r : Response) : List TtsCall := r.speech.elim [] (·.2.calls)

/-- There was a worker, and it has ended. -/
def exited (r : Response) : Bool := r.speech.any (·.1.worker = .exited)

/-- The moments that a step from `r` to `t` adds. -/
def moments (r t : Response) : List UtteranceMoment :=
  (t.calls.drop r.calls.length).map .call ++ if t.exited && !r.exited then [.exit] else []

end Response

/-- A conversation with its responses; a ticket of the lane is the index of a turn. -/
structure Responses where
  conversation : Conversation := {}
  alive : Bool := true
  /-- The destructor has bumped `generation_`. -/
  bumped : Bool := false
  responses : Nat → Response := fun _ => {}
  -- history
  moments : List (Nat × UtteranceMoment) := []

/-- One step of a conversation with its responses. -/
inductive ResponsesAction where
  /-- A step of the callers, of the queue or of the executor. -/
  | conversation (action : ConversationAction)
  /-- The destructor stores `alive_`. -/
  | destroy
  /-- It bumps `generation_`. -/
  | bump
  | expire (ticket : Nat)
  | advance
  | delta (text : Bytes)
  | agentReturn (completed : Bool)
  | agentThrow
  | worker (ticket : Nat) (action : TtsWorkerAction)
  | frame (ticket : Nat)
  | frameEnd (ticket : Nat) (threw : Bool)
  /-- The last section of the executor. -/
  | endTask
  deriving DecidableEq, Repr

namespace Responses

/-- What the callbacks of a turn read. -/
def view (s : Responses) (turn : SpeechTurn) : ResponseView where
  alive := s.alive
  current := turn.generation = s.conversation.generation

/-- `generation_` has room for one more. -/
def hasRoom (s : Responses) : Bool := s.conversation.generation + 1 < 2 ^ 64

/-- The steps of the conversation that are not steps of a task; after the
destructor has begun nobody submits or interrupts. -/
def allows (s : Responses) : ConversationAction → Bool
  | .speak | .complete | .fail => false
  | .finalTranscript _ => s.alive
  | .interrupt => s.alive && s.hasRoom
  | .cancelSession => s.alive || s.bumped
  | _ => true

/-- The flags of the running and the queued turns are set. -/
def cancelUnfinished (s : Responses) : Nat → Response := fun ticket =>
  if ticket ∈ s.conversation.lane.unfinished then
    { s.responses ticket with cancelled := true }
  else s.responses ticket

/-- What a step of the conversation does to the responses. -/
def responsesAfter (s : Responses) (c : Conversation) : ConversationAction → Nat → Response
  | .start => match c.lane.running with
    | some ticket => Function.update s.responses ticket
        { s.responses ticket with place := .taken }
    | none => s.responses
  | .cancelSession | .cancelFromOutside | .shutdown => s.cancelUnfinished
  | _ => s.responses

/-- A response moves on. -/
def put (s : Responses) (ticket : Nat) (r : Response) : Responses :=
  { s with
    responses := Function.update s.responses ticket r
    moments := s.moments ++ ((s.responses ticket).moments r).map (ticket, ·) }

/-- What a step of the task does to the conversation. -/
def conversationAfter (s : Responses) (turn : SpeechTurn) : ResponsePlace → Conversation
  | .opening _ _ => s.conversation.speak turn
  | .settling => s.conversation.settle turn
  | .resigning => if s.alive then s.conversation.settle turn else s.conversation
  | _ => s.conversation

/-- A step of the task the lane is running. -/
def taskStep (s : Responses) (f : ResponseView → Response → Option Response) :
    Option Responses :=
  s.conversation.lane.running.bind fun ticket =>
    s.conversation.turns[ticket]?.bind fun turn =>
      (f (s.view turn) (s.responses ticket)).map fun r =>
        { s with conversation := s.conversationAfter turn (s.responses ticket).place }.put ticket r

/-- A step of the pipeline of a turn. -/
def speechStep (s : Responses) (ticket : Nat) (f : ResponseView → Response → Option Response) :
    Option Responses :=
  s.conversation.turns[ticket]?.bind fun turn =>
    (f (s.view turn) (s.responses ticket)).map (s.put ticket)

/-- The task has ended, and the lane is free. -/
def endTask (s : Responses) : Option Responses :=
  s.conversation.lane.running.bind fun ticket =>
    if (s.responses ticket).place = .ended then
      (s.conversation.lane.step .finish).map fun lane =>
        { s with conversation := { s.conversation with lane := lane } }
    else none

end Responses

open Responses in
/-- The callers, the executor, the tasks and the pipelines. -/
def responsesStep (config : IncrementalTtsConfig) (s : Responses) :
    ResponsesAction → Option Responses
  | .conversation a =>
      if s.allows a then
        (conversationStep s.conversation a).map fun c =>
          { s with conversation := c, responses := s.responsesAfter c a }
      else none
  | .destroy =>
      if s.alive && s.conversation.submission = none then some { s with
        alive := false
        conversation := { s.conversation with submission := some .interrupting } }
      else none
  | .bump =>
      if !s.alive && !s.bumped && s.hasRoom then some { s with
        bumped := true
        conversation := { s.conversation with
          generation := (s.conversation.generation + 1) % 2 ^ 64 } }
      else none
  | .expire ticket => some { s with
      responses := Function.update s.responses ticket
        { s.responses ticket with expired := true } }
  | .advance => s.taskStep fun v r => r.advance config v
  | .delta text => s.taskStep fun _ r => r.delta text
  | .agentReturn completed => s.taskStep fun _ r => r.agentReturn completed
  | .agentThrow => s.taskStep fun _ r => r.agentThrow
  | .worker ticket a => s.speechStep ticket fun v r => r.workerStep config v a
  | .frame ticket => s.speechStep ticket fun v r => r.frame v
  | .frameEnd ticket threw => s.speechStep ticket fun v r => r.frameEnd v threw
  | .endTask => s.endTask

/-- A conversation with its responses, whose pipelines are built with `config`. -/
def responses (config : IncrementalTtsConfig) : Machine Responses ResponsesAction where
  init := {}
  step := responsesStep config

end ByteTurn

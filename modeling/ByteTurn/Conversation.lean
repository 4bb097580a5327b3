import ByteTurn.Types
import ByteTurn.Lib.Lane

/-!
# ByteTurn.Conversation

The turn state of a conversation (`conversation.cpp`): final transcripts are
submitted to the session's lane of the executor, the lane's turns speak and
end, and `interrupt` cancels what is pending.

Each section under `turn_mutex_` is one step, and so is the store to `state_`
that the overload handler makes outside it.  A submission may be accepted,
rejected as overloaded or rejected as stopped whatever this conversation has
pending, because the executor is shared; a running turn may speak or not, and
complete or fail, as it likes.  The conversation is alive throughout.

A turn id is the number whose decimal string it is; `none` is the empty string.
-/

namespace ByteTurn

/-- `ConversationState` -/
inductive ConversationState where
  | listening | thinking | speaking
  deriving DecidableEq, Repr

/-- What the callbacks of a turn capture: `active_turn_id` and `my_generation`. -/
structure SpeechTurn where
  turnId : Nat
  generation : Nat
  deriving DecidableEq, Repr

/-- The holder of `submission_mutex_`. -/
inductive SubmissionHolder where
  /-- `on_transcript`, inside `submit_streaming`. -/
  | submitting (turn : SpeechTurn)
  /-- `interrupt`, after its section under `turn_mutex_`. -/
  | interrupting
  deriving DecidableEq, Repr

/-- An `on_transcript` call in its `catch (const ExecutorOverloaded&)` block. -/
structure OverloadHandler where
  turnId : Nat
  /-- `state_ = ConversationState::Listening` is done. -/
  stored : Bool
  deriving DecidableEq, Repr

/-- `Conversation` -/
structure Conversation where
  state : ConversationState := .listening
  generation : Nat := 0
  nextTurnId : Nat := 1
  turnId : Option Nat := none
  submission : Option SubmissionHolder := none
  handlers : List OverloadHandler := []
  /-- The turn ids drawn so far; a recognizer may report any of them, at any
  time and more than once. -/
  drawn : List Nat := []
  /-- The session's lane of the executor; a ticket is an index into `turns`. -/
  lane : Lane := {}
  turns : List SpeechTurn := []
  /-- `turn->speech_started` of the running turn. -/
  speechStarted : Bool := false
  /-- `stopping_` of the executor. -/
  stopped : Bool := false
  deriving DecidableEq, Repr

namespace Conversation

/-- The turn whose callbacks the lane is running. -/
def runningTurn (c : Conversation) : Option SpeechTurn :=
  c.lane.running.bind (c.turns[·]?)

/-- `next_turn_id_.fetch_add(1)`, for an end of utterance or for a final
transcript that comes without an id. -/
def drawTurnId (c : Conversation) : Conversation :=
  { c with drawn := c.drawn ++ [c.nextTurnId], nextTurnId := (c.nextTurnId + 1) % 2 ^ 64 }

/-- A final transcript up to `submit_streaming`. -/
def onTranscript (c : Conversation) (inputTurnId : Nat) : Conversation :=
  { c with
    state := .thinking
    turnId := some inputTurnId
    submission := some (.submitting ⟨inputTurnId, c.generation⟩) }

/-- `submit_streaming` returns a handle. -/
def accept (c : Conversation) (turn : SpeechTurn) : Option Conversation :=
  (c.lane.step (.accept c.turns.length)).map fun lane =>
    { c with lane := lane, turns := c.turns ++ [turn], submission := none }

/-- The first section of `interrupt`. -/
def interrupt (c : Conversation) : Conversation :=
  { c with
    generation := (c.generation + 1) % 2 ^ 64
    state := .listening
    turnId := none
    submission := some .interrupting }

/-- `session_.cancel()`, as far as the queue is concerned. -/
def cancelQueued (c : Conversation) : Option Conversation :=
  (c.lane.step .drop).map fun lane => { c with lane := lane }

/-- The first sentence reaches `speak`; a stale turn is refused. -/
def speak (c : Conversation) (turn : SpeechTurn) : Conversation :=
  if turn.generation ≠ c.generation ∨ c.speechStarted then c
  else { c with state := .speaking, speechStarted := true }

/-- The section that ends both the completion and the failure callback.  The
executor's own section after it changes nothing here. -/
def settle (c : Conversation) (turn : SpeechTurn) : Conversation :=
  if turn.generation = c.generation ∧ c.turnId = some turn.turnId then
    { c with state := .listening, turnId := none }
  else c

/-- A running turn completes or fails. -/
def endTurn (c : Conversation) (turn : SpeechTurn) : Option Conversation :=
  (c.lane.step .finish).map fun lane => { c.settle turn with lane := lane }

end Conversation

/-- One step of a conversation and of what it shares the executor with. -/
inductive ConversationAction where
  | drawTurnId
  | finalTranscript (inputTurnId : Nat)
  | accept
  | rejectOverloaded
  | rejectStopped
  /-- The overload handler's store to `state_`. -/
  | storeListening (turnId : Nat)
  /-- The overload handler's section under `turn_mutex_`. -/
  | clearTurnId (turnId : Nat)
  | interrupt
  /-- The second section of `interrupt`. -/
  | cancelSession
  /-- The executor takes the next turn of the lane. -/
  | start
  | speak
  | complete
  | fail
  /-- `cancel_session` called by someone else. -/
  | cancelFromOutside
  | shutdown
  deriving DecidableEq, Repr

open Conversation in
/-- The callers, the lane and the executor. -/
def conversationStep (c : Conversation) : ConversationAction → Option Conversation
  | .drawTurnId => some c.drawTurnId
  | .finalTranscript inputTurnId =>
      if inputTurnId ∈ c.drawn ∧ c.submission = none then some (c.onTranscript inputTurnId)
      else none
  | .accept => match c.submission with
    | some (.submitting turn) => if c.stopped then none else c.accept turn
    | _ => none
  | .rejectOverloaded => match c.submission with
    | some (.submitting turn) =>
        if c.stopped then none
        else some { c with
          submission := none
          handlers := c.handlers ++ [⟨turn.turnId, false⟩] }
    | _ => none
  | .rejectStopped => match c.submission with
    | some (.submitting _) => if c.stopped then some { c with submission := none } else none
    | _ => none
  | .storeListening turnId =>
      if ⟨turnId, false⟩ ∈ c.handlers then some { c with
        state := .listening
        handlers := c.handlers.erase ⟨turnId, false⟩ ++ [⟨turnId, true⟩] }
      else none
  | .clearTurnId turnId =>
      if ⟨turnId, true⟩ ∈ c.handlers then some { c with
        turnId := if c.turnId = some turnId then none else c.turnId
        handlers := c.handlers.erase ⟨turnId, true⟩ }
      else none
  | .interrupt => if c.submission = none then some c.interrupt else none
  | .cancelSession =>
      if c.submission = some .interrupting then { c with submission := none }.cancelQueued
      else none
  | .start => (c.lane.step .start).map fun lane =>
      { c with lane := lane, speechStarted := false }
  | .speak => c.runningTurn.map c.speak
  | .complete | .fail => c.runningTurn.bind c.endTurn
  | .cancelFromOutside => c.cancelQueued
  | .shutdown => if c.stopped then none else { c with stopped := true }.cancelQueued

/-- A conversation. -/
def conversation : Machine Conversation ConversationAction where
  init := {}
  step := conversationStep

end ByteTurn

import ByteTurn.Types

/-!
# ByteTurn.Event

The event record published by every component, and its kinds.

Times are counts of the steady clock since its epoch; a count of zero means
"not supplied".
-/

namespace ByteTurn

/-- `EventType` -/
inductive EventType where
  | realtimeSessionStarted | inputSpeechStarted | inputSpeechEnded
  | asrEndOfUtterance | transcriptPartial | transcriptFinal
  | turnStarted | modelStarted | firstToken | modelTextDelta | modelCompleted
  | toolStarted | toolCompleted
  | speechStarted | ttsChunkStarted | firstAudio | audioOutput
  | playbackStarted | playbackProgress | bargeInDetected | outputCancelled
  | speechCompleted | conversationTurnCompleted | turnCompleted | turnCancelled
  | realtimeSessionClosed | error
  | sessionStarted | sessionStopped | sessionFailed
  | responseCancelRequested | turnFailed
  | conversationTurnCancelled | conversationTurnFailed
  deriving DecidableEq, Repr

/-- `Event`.  `sequence`, `receivedAt` and `generation` are zero until an
admitting timeline assigns them. -/
structure Event where
  type : EventType
  sessionId : Bytes := []
  turnId : Bytes := []
  sequence : Nat := 0
  timestamp : Int := 0
  name : Bytes := []
  data : Bytes := []
  traceId : Bytes := []
  receivedAt : Int := 0
  generation : Nat := 0
  deriving DecidableEq, Repr

/-- The bytes held by the five string fields. -/
def Event.stringBytes (e : Event) : Nat :=
  e.sessionId.length + e.turnId.length + e.name.length + e.data.length + e.traceId.length

end ByteTurn

import ByteTurn.Event
import ByteTurn.Lib.Machine
import ByteTurn.Lib.Table

/-!
# ByteTurn.RuntimeObserver

The latency reducer (`observability.cpp`): events open and close spans, and a
span that is closed by its endpoint gives one sample of a latency metric.

Every `observe` is one section under `mutex_`.  A time is a count of nanoseconds
of the steady clock, and zero is its epoch.  The clock counts up from there: two
times from 0 to 2^63 - 1 have a difference that 64 bits hold, and in this range
an integer without bounds does what the code does.  A histogram is the list of
the values it was given, in nanoseconds: `elapsed_ms` divides them by a million,
and its buckets and sum are functions of that list.
-/

namespace ByteTurn

/-- `event_type_name` -/
def eventTypeName : EventType → Bytes
  | .realtimeSessionStarted => lit "realtime_session_started"
  | .inputSpeechStarted => lit "input_speech_started"
  | .inputSpeechEnded => lit "input_speech_ended"
  | .asrEndOfUtterance => lit "asr_end_of_utterance"
  | .transcriptPartial => lit "transcript_partial"
  | .transcriptFinal => lit "transcript_final"
  | .turnStarted => lit "turn_started"
  | .modelStarted => lit "model_started"
  | .firstToken => lit "first_token"
  | .modelTextDelta => lit "model_text_delta"
  | .modelCompleted => lit "model_completed"
  | .toolStarted => lit "tool_started"
  | .toolCompleted => lit "tool_completed"
  | .speechStarted => lit "speech_started"
  | .ttsChunkStarted => lit "tts_chunk_started"
  | .firstAudio => lit "first_audio"
  | .audioOutput => lit "audio_output"
  | .playbackStarted => lit "playback_started"
  | .playbackProgress => lit "playback_progress"
  | .bargeInDetected => lit "barge_in_detected"
  | .outputCancelled => lit "output_cancelled"
  | .speechCompleted => lit "speech_completed"
  | .conversationTurnCompleted => lit "conversation_turn_completed"
  | .turnCompleted => lit "turn_completed"
  | .turnCancelled => lit "turn_cancelled"
  | .realtimeSessionClosed => lit "realtime_session_closed"
  | .error => lit "error"
  | .sessionStarted => lit "session_started"
  | .sessionStopped => lit "session_stopped"
  | .sessionFailed => lit "session_failed"
  | .responseCancelRequested => lit "response_cancel_requested"
  | .turnFailed => lit "turn_failed"
  | .conversationTurnCancelled => lit "conversation_turn_cancelled"
  | .conversationTurnFailed => lit "conversation_turn_failed"

/-! ## spans and metrics -/

/-- The literals passed as `phase`. -/
inductive SpanPhase where
  | turn | model | firstToken | tool
  | asrFinal | s2sFirstAudio | conversationTurn
  | duplexFirstAudio | duplexFirstAudible
  | ttsFirstAudio | ttsTotal
  | bargeInStop
  deriving DecidableEq, Repr

/-- `RuntimeObserver::Key` -/
structure SpanKey where
  sessionId : Bytes
  generation : Nat
  turnId : Bytes
  phase : SpanPhase
  operation : Bytes
  deriving DecidableEq, Repr

/-- A value given to `MetricsRegistry::observe`. -/
structure LatencySample where
  metric : Bytes
  elapsed : Int
  -- history
  key : SpanKey
  deriving DecidableEq, Repr

/-- `RuntimeObserver` and the registry it writes to. -/
structure ObserverState where
  starts : Table SpanKey Int := ∅
  counters : Table Bytes Nat := ∅
  samples : List LatencySample := []

/-- `RuntimeObserver::key` -/
def spanKey (e : Event) (phase : SpanPhase) (operation : Bool) : SpanKey :=
  ⟨e.sessionId, e.generation, e.turnId, phase, if operation then e.name else []⟩

/-- The phases of an agent's own spans. -/
def SpanPhase.agent : SpanPhase → Bool
  | .turn | .model | .firstToken | .tool => true
  | _ => false

/-- What `discard` erases. -/
def SpanKey.discarded (e : Event) (entireSession agentOnly : Bool) (k : SpanKey) : Bool :=
  k.sessionId = e.sessionId && k.generation = e.generation &&
    (entireSession || k.turnId = e.turnId) && (!agentOnly || k.phase.agent)

namespace ObserverState

/-- `MetricsRegistry::increment` -/
def increment (s : ObserverState) (name : Bytes) (value : Nat) : ObserverState :=
  { s with counters := s.counters.insert name ((s.counters.lookup name).getD 0 + value) }

/-- `begin` -/
def begin (s : ObserverState) (limit : Nat) (e : Event) (phase : SpanPhase) (operation : Bool) :
    ObserverState :=
  let k := spanKey e phase operation
  if (s.starts.lookup k).isSome then
    -- ambiguous duplicate starts must not silently replace the original time
    { s with starts := s.starts.insert k 0 }.increment
      (lit "byteturn_observer_duplicate_starts_total") 1
  else if limit ≤ s.starts.size then
    s.increment (lit "byteturn_observer_span_limit_rejections_total") 1
  else { s with starts := s.starts.insert k e.timestamp }

/-- `finish` -/
def finish (s : ObserverState) (e : Event) (phase : SpanPhase) (metric : Bytes)
    (operation required : Bool) : ObserverState × Bool :=
  let k := spanKey e phase operation
  match s.starts.lookup k with
  | none =>
      (if required then s.increment (lit "byteturn_observer_unmatched_endpoints_total") 1 else s,
        false)
  | some start =>
      let s := { s with starts := s.starts.erase k }
      (if start = 0 ∨ e.timestamp = 0 ∨ e.timestamp < start then
        s.increment (lit "byteturn_observer_invalid_intervals_total") 1
      else { s with samples := s.samples ++ [⟨metric, e.timestamp - start, k⟩] }, true)

/-- `discard` -/
def discard (s : ObserverState) (e : Event) (entireSession agentOnly : Bool) : ObserverState :=
  let kept := s.starts.filterKeys fun k => !k.discarded e entireSession agentOnly
  let count := s.starts.size - kept.size
  let s := { s with starts := kept }
  if count ≠ 0 then s.increment (lit "byteturn_observer_discarded_spans_total") count else s

/-- `finish`, and if there was nothing to finish, once more without the turn. -/
def finishEither (s : ObserverState) (e : Event) (phase : SpanPhase) (metric : Bytes) :
    ObserverState :=
  let (s, found) := s.finish e phase metric false false
  if found || e.turnId = [] then s
  else (s.finish { e with turnId := [] } phase metric false false).1

/-- `RuntimeObserver::observe` -/
def observe (s : ObserverState) (limit : Nat) (e : Event) : ObserverState :=
  let s := s.increment (lit "byteturn_events_" ++ eventTypeName e.type ++ lit "_total") 1
  match e.type with
  | .turnStarted => s.begin limit e .turn false
  | .modelStarted => (s.begin limit e .model true).begin limit e .firstToken true
  | .toolStarted => s.begin limit e .tool true
  | .asrEndOfUtterance =>
      ((s.begin limit e .asrFinal false).begin limit e .s2sFirstAudio false).begin
        limit e .conversationTurn false
  | .inputSpeechEnded =>
      -- one uncorrelated input is in flight; several speech ends invalidate the interval
      ((s.begin limit e .duplexFirstAudio false).begin limit e .duplexFirstAudible false).begin
        limit e .conversationTurn false
  | .transcriptFinal => (s.finish e .asrFinal (lit "byteturn_asr_final_latency_ms") false false).1
  | .firstToken => (s.finish e .firstToken (lit "byteturn_time_to_first_token_ms") true true).1
  | .modelCompleted =>
      let s := (s.finish e .model (lit "byteturn_model_duration_ms") true true).1
      { s with starts := s.starts.erase (spanKey e .firstToken true) }
  | .toolCompleted => (s.finish e .tool (lit "byteturn_tool_duration_ms") true true).1
  | .turnCompleted =>
      (s.finish e .turn (lit "byteturn_turn_duration_ms") false true).1.discard e false true
  | .turnCancelled =>
      (s.increment (lit "byteturn_turns_cancelled_total") 1).discard e false true
  | .turnFailed => (s.increment (lit "byteturn_turns_failed_total") 1).discard e false true
  | .ttsChunkStarted =>
      -- subsequent chunks belong to the same utterance
      if (s.starts.lookup (spanKey e .ttsTotal false)).isSome then s
      else (s.begin limit e .ttsFirstAudio false).begin limit e .ttsTotal false
  | .firstAudio =>
      let s := (s.finish e .ttsFirstAudio (lit "byteturn_tts_first_audio_latency_ms") false true).1
      (s.finish e .s2sFirstAudio (lit "byteturn_s2s_first_audio_latency_ms") false false).1
  | .audioOutput =>
      s.finishEither e .duplexFirstAudio (lit "byteturn_s2s_first_audio_latency_ms")
  | .playbackStarted =>
      s.finishEither e .duplexFirstAudible (lit "byteturn_s2s_first_audible_latency_ms")
  | .bargeInDetected => s.begin limit e .bargeInStop false
  | .outputCancelled =>
      (s.finish e .bargeInStop (lit "byteturn_barge_in_stop_latency_ms") false false).1.discard
        e false false
  | .speechCompleted =>
      (s.finish e .ttsTotal (lit "byteturn_tts_total_duration_ms") false false).1
  | .conversationTurnCompleted =>
      (s.finishEither e .conversationTurn
        (lit "byteturn_conversation_turn_duration_ms")).discard e false false
  | .conversationTurnCancelled | .conversationTurnFailed => s.discard e false false
  | .sessionStopped | .sessionFailed | .realtimeSessionClosed => s.discard e true false
  | .error => s.increment (lit "byteturn_errors_total") 1
  | _ => s

/-- `pending_spans` -/
def pendingSpans (s : ObserverState) : Nat := s.starts.size

end ObserverState

/-- An observer with `max_pending_spans = limit`, which the constructor requires
to be positive. -/
def runtimeObserver (limit : Nat) : Machine ObserverState Event where
  init := {}
  step s e := some (s.observe limit e)

end ByteTurn

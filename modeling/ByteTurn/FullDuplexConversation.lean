import ByteTurn.Event
import ByteTurn.Lib.Machine

/-!
# ByteTurn.FullDuplexConversation

A native audio-in, audio-out session (`full_duplex_conversation.h`,
`full_duplex_conversation.cpp`), as far as its responses are concerned.

Each call of the application and each event of the provider is a thread, and a
thread is the list of what it has still to do: a section under `state_mutex_`,
a load of `stopping_` or one call to the outside is one step, and the steps of
different threads interleave freely.  The sink accepts or refuses as it likes.
Sample counters do not wrap.  The input queue and its worker are left out; the
worker's `input_speech_ended` is a call like the application's.
-/

namespace ByteTurn

/-! ## events and calls -/

/-- `RealtimeEventType` -/
inductive RealtimeEventType where
  | connected | inputSpeechStarted | inputSpeechEnded | transcriptPartial | transcriptFinal
  | responseStarted | audioDelta | responseCompleted | error | closed
  deriving DecidableEq, Repr

/-- `RealtimeEvent` -/
structure RealtimeEvent where
  type : RealtimeEventType
  responseId : Bytes := []
  text : Bytes := []
  audio : AudioFrame := {}
  errorCode : Bytes := []
  deriving DecidableEq, Repr

/-- `DuplexAudio` -/
structure DuplexAudio where
  responseId : Bytes
  startSample : Nat
  frame : AudioFrame
  deriving DecidableEq, Repr

/-- The arguments of `cancel_response`. -/
structure CancelResponse where
  responseId : Bytes
  playedSamples : Nat
  sampleRateHz : Int
  deriving DecidableEq, Repr

/-- What the application and the provider call. -/
inductive DuplexCall where
  | inputSpeechStarted
  | inputSpeechEnded
  | playbackStarted (responseId : Bytes)
  | acknowledgePlayback (responseId : Bytes) (playedSamples : Nat)
  | onProviderEvent (event : RealtimeEvent)
  | close
  deriving DecidableEq, Repr

/-- A step of a thread. -/
inductive DuplexTask where
  /-- A call up to its first section, or its only one. -/
  | call (c : DuplexCall)
  /-- The section of `input_speech_started`. -/
  | startInput
  /-- The section of `input_speech_ended`, or that of the provider's event. -/
  | endInput
  | startResponse (responseId : Bytes)
  | admitAudio (responseId : Bytes) (audio : AudioFrame)
  | completeResponse (responseId : Bytes)
  /-- The section of `begin_barge_in`. -/
  | bargeIn
  /-- `audio_sink_` -/
  | audioSink (output : DuplexAudio)
  /-- `cancel_response` -/
  | cancelResponse (request : CancelResponse)
  | commitInput
  | transcriptSink (text : Bytes) (final : Bool)
  | publish (event : Event)
  deriving DecidableEq, Repr

/-! ## the sections -/

/-- The fields of the current response. -/
structure Playback where
  responseId : Bytes := []
  deliveredSamples : Nat := 0
  playedSamples : Nat := 0
  responseActive : Bool := false
  responseGenerationDone : Bool := false
  playbackStarted : Bool := false
  deriving DecidableEq, Repr

namespace Playback

/-- The section of `playback_started`; it changes something or nothing. -/
def started (p : Playback) (responseId : Bytes) : Option Playback :=
  if p.responseActive ∧ responseId = p.responseId ∧ ¬ p.playbackStarted then
    some { p with playbackStarted := true }
  else none

/-- The section of `acknowledge_playback`; it changes something or nothing. -/
def acknowledge (p : Playback) (responseId : Bytes) (playedSamples : Nat) : Option Playback :=
  if p.responseActive ∧ responseId = p.responseId then
    let accepted := min playedSamples p.deliveredSamples
    if accepted > p.playedSamples then
      some { p with
        playedSamples := accepted
        responseActive := ¬ (p.responseGenerationDone ∧ accepted = p.deliveredSamples) }
    else none
  else none

/-- The section of `ResponseStarted`. -/
def start (responseId : Bytes) : Playback where
  responseId := responseId
  responseActive := true

/-- The check of the section of `AudioDelta`. -/
def Admits (p : Playback) (responseId : Bytes) : Prop :=
  p.responseActive ∧ ¬ p.responseGenerationDone ∧ responseId = p.responseId

instance (p : Playback) (responseId : Bytes) : Decidable (p.Admits responseId) :=
  inferInstanceAs (Decidable (_ ∧ _ ∧ _))

/-- The output of an admitted delta. -/
def output (p : Playback) (responseId : Bytes) (audio : AudioFrame) : DuplexAudio where
  responseId := responseId
  startSample := p.deliveredSamples
  frame := audio

/-- What an admitted delta adds. -/
def deliver (p : Playback) (audio : AudioFrame) : Playback :=
  { p with deliveredSamples := p.deliveredSamples + audio.samples.length }

/-- The section of `ResponseCompleted`; `none` where the response is not current. -/
def complete (p : Playback) (responseId : Bytes) : Option Playback :=
  if p.Admits responseId then
    some { p with
      responseGenerationDone := true
      responseActive := p.playedSamples < p.deliveredSamples }
  else none

end Playback

/-! ## the conversation -/

/-- `FullDuplexConversation`, its threads and what it has done to the outside. -/
structure FullDuplexConversation where
  sessionId : Bytes
  outputSampleRateHz : Int := 24000
  playback : Playback := {}
  inputSpeechActive : Bool := false
  stopping : Bool := false
  threads : List (List DuplexTask) := []
  /-- The outputs passed to `audio_sink_`. -/
  audio : List DuplexAudio := []
  /-- The calls of `cancel_response`. -/
  cancels : List CancelResponse := []
  commits : Nat := 0
  transcripts : List (Bytes × Bool) := []
  events : List Event := []
  deriving DecidableEq, Repr

namespace FullDuplexConversation

/-- An event of `publish`. -/
def event (d : FullDuplexConversation) (type : EventType) (responseId name data : Bytes) : Event where
  type := type
  sessionId := d.sessionId
  turnId := responseId
  name := name
  data := data

/-- `std::to_string` of a sample count. -/
def samplesText (n : Nat) : Bytes := lit (toString n)

/-- `on_provider_event`, after its load of `stopping_`. -/
def onProviderEvent (d : FullDuplexConversation) (e : RealtimeEvent) : List DuplexTask :=
  match e.type with
  | .connected => [.publish (d.event .realtimeSessionStarted [] [] [])]
  | .inputSpeechStarted => [.call .inputSpeechStarted]
  | .inputSpeechEnded => [.endInput]
  | .transcriptPartial => [.transcriptSink e.text false,
      .publish (d.event .transcriptPartial e.responseId [] e.text)]
  | .transcriptFinal => [.transcriptSink e.text true,
      .publish (d.event .transcriptFinal e.responseId [] e.text)]
  | .responseStarted => [.startResponse e.responseId,
      .publish (d.event .speechStarted e.responseId [] [])]
  | .audioDelta => [.admitAudio e.responseId e.audio]
  | .responseCompleted => [.completeResponse e.responseId]
  | .error => [.publish (d.event .error e.responseId e.errorCode e.text)]
  | .closed => [.publish (d.event .realtimeSessionClosed [] [] [])]

/-- A call up to its first section, or its only one; then what it still has to do. -/
def runCall (d : FullDuplexConversation) : DuplexCall → FullDuplexConversation × List DuplexTask
  | .inputSpeechStarted => (d, if d.stopping then [] else [.startInput])
  | .inputSpeechEnded => (d, if d.stopping then [] else [.endInput, .commitInput])
  | .playbackStarted responseId => match d.playback.started responseId with
    | some p => ({ d with playback := p }, [.publish (d.event .playbackStarted responseId [] [])])
    | none => (d, [])
  | .acknowledgePlayback responseId playedSamples =>
      match d.playback.acknowledge responseId playedSamples with
      | some p => ({ d with playback := p },
          [.publish (d.event .playbackProgress responseId [] (samplesText p.playedSamples))])
      | none => (d, [])
  | .onProviderEvent e => (d, if d.stopping then [] else d.onProviderEvent e)
  | .close =>
      if d.stopping then (d, [])
      else ({ d with stopping := true }, [.publish (d.event .realtimeSessionClosed [] [] [])])

/-- One task, with the sink's answer; then what the thread does before its other
tasks. -/
def runTask (d : FullDuplexConversation) (accepted : Bool) :
    DuplexTask → FullDuplexConversation × List DuplexTask
  | .call c => d.runCall c
  | .startInput =>
      if d.inputSpeechActive then (d, [])
      else ({ d with inputSpeechActive := true },
        [.publish (d.event .inputSpeechStarted [] [] []), .bargeIn])
  | .endInput =>
      if d.inputSpeechActive then ({ d with inputSpeechActive := false },
        [.publish (d.event .inputSpeechEnded [] [] [])])
      else (d, [])
  | .startResponse responseId => ({ d with playback := .start responseId }, [])
  | .admitAudio responseId audio =>
      if d.playback.Admits responseId then
        ({ d with playback := d.playback.deliver audio },
          [.audioSink (d.playback.output responseId audio)])
      else (d, [])
  | .completeResponse responseId => match d.playback.complete responseId with
    | some p => ({ d with playback := p },
        [.publish (d.event .speechCompleted responseId [] []),
          .publish (d.event .conversationTurnCompleted responseId [] [])])
    | none => (d, [])
  | .bargeIn =>
      if d.playback.responseActive then
        ({ d with playback.responseActive := false },
          [.publish (d.event .bargeInDetected d.playback.responseId [] []),
            .cancelResponse ⟨d.playback.responseId, d.playback.playedSamples, d.outputSampleRateHz⟩,
            .publish (d.event .outputCancelled d.playback.responseId []
              (samplesText d.playback.playedSamples))])
      else (d, [])
  | .audioSink output =>
      ({ d with audio := d.audio ++ [output] },
        if accepted then [.publish (d.event .audioOutput output.responseId []
          (samplesText output.frame.samples.length))]
        else [.bargeIn])
  | .cancelResponse request => ({ d with cancels := d.cancels ++ [request] }, [])
  | .commitInput => ({ d with commits := d.commits + 1 }, [])
  | .transcriptSink text final => ({ d with transcripts := d.transcripts ++ [(text, final)] }, [])
  | .publish e => ({ d with events := d.events ++ [e] }, [])

end FullDuplexConversation

/-- A call comes in, or a thread takes its next step. -/
inductive DuplexAction where
  | call (c : DuplexCall)
  | run (thread : Nat) (accepted : Bool)
  deriving DecidableEq, Repr

namespace FullDuplexConversation

/-- The next task of a thread. -/
def nextTask (d : FullDuplexConversation) (thread : Nat) : Option DuplexTask :=
  d.threads[thread]?.bind List.head?

/-- The callers and the threads. -/
def duplexStep (d : FullDuplexConversation) : DuplexAction → Option FullDuplexConversation
  | .call c => some { d with threads := d.threads ++ [[.call c]] }
  | .run thread accepted => match d.threads[thread]? with
    | some (task :: rest) =>
        let (d', tasks) := d.runTask accepted task
        some { d' with threads := d.threads.set thread (tasks ++ rest) }
    | _ => none

end FullDuplexConversation

/-- A conversation. -/
def fullDuplex (sessionId : Bytes) (outputSampleRateHz : Int) :
    Machine FullDuplexConversation DuplexAction where
  init := { sessionId := sessionId, outputSampleRateHz := outputSampleRateHz }
  step := FullDuplexConversation.duplexStep

end ByteTurn

import ByteTurn.Event
import ByteTurn.Lib.Machine
import Mathlib.Data.List.DropRight

/-!
# ByteTurn.EventTimeline

The process-local event journal (`event_timeline.cpp`): a bounded deque of the
newest accepted events, a bounded queue of notifications, and one dispatcher
thread that hands queued notifications to the subscribers of a bus.

Each critical section under `State::mutex` is one step.  The dispatcher's call
to `bus->deliver` happens outside the mutex and is bracketed by two steps, so
appends, closes and snapshots may fall anywhere inside a delivery.

The state carries three history variables that no step reads: `journal` (every
accepted event), `notified` (the accepted events whose notification was
enqueued) and `handed` (the events passed to `bus->deliver`).
-/

namespace ByteTurn

/-! ## configuration, statuses and counters -/

/-- `TimelineConfig`, with the conditions the constructor checks; anything
else is an `invalid_argument`.  The clock is supplied at each admission. -/
structure TimelineConfig where
  maxEvents : Nat := 1024
  maxPendingNotifications : Nat := 1024
  maxEventBytes : Nat := 64 * 1024
  sessionId : Bytes := []
  generation : Nat := 1
  maxEvents_pos : 0 < maxEvents := by decide
  maxPendingNotifications_pos : 0 < maxPendingNotifications := by decide
  maxEventBytes_pos : 0 < maxEventBytes := by decide
  generation_pos : 0 < generation := by decide

/-- The default of `max_event_bytes` passes its check. -/
theorem maxEventBytes_default_pos : 0 < 64 * 1024 := by decide

/-- `TimelineStatus` -/
inductive TimelineStatus where
  | accepted | closed | wrongSession | staleGeneration | eventTooLarge
  deriving DecidableEq, Repr

/-- `TimelineAppendResult`; the default is what a sink returns after the
timeline is gone. -/
structure TimelineAppendResult where
  status : TimelineStatus := .closed
  sequence : Nat := 0
  notificationEnqueued : Bool := false
  deriving DecidableEq, Repr

/-- The counters of `TimelineStats` that the state keeps. -/
structure TimelineCounters where
  accepted : Nat := 0
  evicted : Nat := 0
  rejected : Nat := 0
  droppedNotifications : Nat := 0
  observerFailures : Nat := 0
  notificationAllocationFailures : Nat := 0
  firstDroppedSequence : Nat := 0
  lastDroppedSequence : Nat := 0
  notificationHighWatermark : Nat := 0
  deriving DecidableEq, Repr

/-- Where the dispatcher thread is. -/
inductive Dispatcher where
  /-- In `cv.wait`, or on its way to it. -/
  | waiting
  /-- Took `e` off the queue; `bus->deliver` not yet entered. -/
  | holding (e : Event)
  /-- Inside `bus->deliver(e)`. -/
  | delivering (e : Event)
  /-- Delivery over with this many handler failures, not yet recorded. -/
  | recording (failures : Nat)
  | exited
  deriving DecidableEq, Repr

/-- `EventTimeline::State` -/
structure TimelineState where
  events : List Event := []
  pending : List Event := []
  counters : TimelineCounters := {}
  enqueued : Nat := 0
  completed : Nat := 0
  closed : Bool := false
  dispatcher : Dispatcher := .waiting
  journal : List Event := []
  notified : List Event := []
  handed : List Event := []
  deriving DecidableEq, Repr

/-! ## admission -/

/-- The scan of `fits`: `total` bytes are already accounted for. -/
def fitsFrom (limit : Nat) : Nat → List Bytes → Bool
  | _, [] => true
  | total, field :: fields =>
      if field.length > limit - total then false
      else fitsFrom limit (total + field.length) fields

/-- `fits` -/
def fits (event : Event) (limit : Nat) : Bool :=
  fitsFrom limit 0 [event.sessionId, event.turnId, event.name, event.data, event.traceId]

/-- The scan never lets the running total pass the limit, so `limit - total`
does not wrap and the test is exact. -/
theorem fitsFrom_iff (limit total : Nat) (fields : List Bytes) (h : total ≤ limit) :
    fitsFrom limit total fields = true ↔ total + (fields.map List.length).sum ≤ limit := by
  induction fields generalizing total with
  | nil => simpa [fitsFrom] using h
  | cons field fields ih =>
      simp only [fitsFrom, List.map_cons, List.sum_cons]
      by_cases hlt : field.length > limit - total
      · rw [if_pos hlt]
        constructor
        · intro hf; contradiction
        · intro hle; omega
      · rw [if_neg hlt, ih (total + field.length) (by omega)]
        omega

theorem fits_iff (event : Event) (limit : Nat) :
    fits event limit = true ↔ event.stringBytes ≤ limit := by
  rw [fits, fitsFrom_iff limit 0 _ (Nat.zero_le _)]
  simp only [List.map_cons, List.map_nil, List.sum_cons, List.sum_nil, Event.stringBytes]
  omega

/-- The metadata half of `admitEvent`: session and generation checks, and the
blanks that admission fills in. -/
def normalize (config : TimelineConfig) (event : Event) : Except TimelineStatus Event :=
  if config.sessionId ≠ [] ∧ event.sessionId ≠ [] ∧ event.sessionId ≠ config.sessionId then
    .error .wrongSession
  else
    let event := if config.sessionId ≠ [] then { event with sessionId := config.sessionId } else event
    if event.generation ≠ 0 ∧ event.generation ≠ config.generation then
      .error .staleGeneration
    else
      let event := { event with generation := config.generation }
      if event.traceId = [] ∧ event.sessionId ≠ [] ∧ event.turnId ≠ [] then
        .ok { event with traceId := event.sessionId ++ lit ":" ++ event.turnId }
      else .ok event

/-- The time and sequence an accepted event receives. -/
def stamp (event : Event) (now : Int) (sequence : Nat) : Event :=
  { event with
    receivedAt := now
    timestamp := if event.timestamp = 0 then now else event.timestamp
    sequence := sequence }

namespace TimelineState

/-- The `reject` lambda of `admitEvent`. -/
def reject (s : TimelineState) : TimelineState :=
  { s with counters := { s.counters with rejected := s.counters.rejected + 1 } }

/-- Push an accepted event and evict the oldest one past the bound. -/
def record (s : TimelineState) (config : TimelineConfig) (admitted : Event) : TimelineState :=
  let events := s.events ++ [admitted]
  let full := config.maxEvents < events.length
  { s with
    journal := s.journal ++ [admitted]
    events := if full then events.tail else events
    counters := { s.counters with
      accepted := s.counters.accepted + 1
      evicted := if full then s.counters.evicted + 1 else s.counters.evicted } }

/-- Queue the notification of an accepted event. -/
def enqueue (s : TimelineState) (admitted : Event) : TimelineState :=
  let pending := s.pending ++ [admitted]
  { s with
    pending := pending
    enqueued := s.enqueued + 1
    notified := s.notified ++ [admitted]
    counters := { s.counters with
      notificationHighWatermark := max s.counters.notificationHighWatermark pending.length } }

/-- Count a notification that was not queued. -/
def drop (s : TimelineState) (admitted : Event) (allocationFailed : Bool) : TimelineState :=
  { s with counters := { s.counters with
      notificationAllocationFailures :=
        s.counters.notificationAllocationFailures + (if allocationFailed then 1 else 0)
      droppedNotifications := s.counters.droppedNotifications + 1
      firstDroppedSequence :=
        if s.counters.firstDroppedSequence = 0 then admitted.sequence
        else s.counters.firstDroppedSequence
      lastDroppedSequence := admitted.sequence } }

end TimelineState

/-- `EventTimeline::admit`: the new state, the result, and the value written to
`*normalized` if any.  `now` is the reading of `config.clock` and
`allocationFails` says whether `pending.push_back` would throw `bad_alloc`. -/
def admitEvent (config : TimelineConfig) (s : TimelineState) (event : Event) (now : Int)
    (allocationFails : Bool) : TimelineState × TimelineAppendResult × Option Event :=
  if s.closed then (s.reject, { status := .closed }, none)
  else match normalize config event with
    | .error status => (s.reject, { status := status }, none)
    | .ok event =>
      if fits event config.maxEventBytes then
        let admitted := stamp event now (s.counters.accepted + 1)
        let s := s.record config admitted
        if s.pending.length < config.maxPendingNotifications then
          if allocationFails then
            (s.drop admitted true, ⟨.accepted, admitted.sequence, false⟩, some admitted)
          else (s.enqueue admitted, ⟨.accepted, admitted.sequence, true⟩, some admitted)
        else (s.drop admitted false, ⟨.accepted, admitted.sequence, false⟩, some admitted)
      else (s.reject, { status := .eventTooLarge }, none)

/-! ## snapshots, flush and close -/

/-- `snapshot()` -/
def TimelineState.snapshot (s : TimelineState) : List Event := s.events

/-- `stats().retained` -/
def TimelineState.retained (s : TimelineState) : Nat := s.events.length

/-- `flush` fixes its target when it is called. -/
def TimelineState.flushTarget (s : TimelineState) : Nat := s.enqueued

/-- What `flush` returns when its wait ends, by notice or by timeout, in state
`s`.  A call from the dispatcher or a bus callback is `reentrant` and returns
at once. -/
def TimelineState.flushResult (s : TimelineState) (reentrant : Bool) (target : Nat) : Bool :=
  if reentrant then false else target ≤ s.completed

/-- `close()` -/
def TimelineState.close (s : TimelineState) : TimelineState := { s with closed := true }

/-! ## the machine -/

/-- One step of the timeline: an `append` (direct or through a sink), a
`close`, or a step of the dispatcher. -/
inductive TimelineAction where
  | append (event : Event) (now : Int) (allocationFails : Bool)
  | close
  | take
  | deliver
  | delivered (failures : Nat)
  | complete
  deriving DecidableEq, Repr

/-- `dispatch_loop` and the public operations, one critical section at a time. -/
def timelineStep (config : TimelineConfig) (s : TimelineState) :
    TimelineAction → Option TimelineState
  | .append event now allocationFails => some (admitEvent config s event now allocationFails).1
  | .close => some s.close
  | .take => match s.dispatcher with
    | .waiting => match s.pending with
      -- the wait is over only when closed or non-empty, and an empty queue ends the loop
      | [] => if s.closed then some { s with dispatcher := .exited } else none
      | e :: pending => some { s with pending := pending, dispatcher := .holding e }
    | _ => none
  | .deliver => match s.dispatcher with
    | .holding e => some { s with handed := s.handed ++ [e], dispatcher := .delivering e }
    | _ => none
  | .delivered failures => match s.dispatcher with
    | .delivering _ => some { s with dispatcher := .recording failures }
    | _ => none
  | .complete => match s.dispatcher with
    | .recording failures => some { s with
        completed := s.completed + 1
        dispatcher := .waiting
        counters := { s.counters with
          observerFailures := s.counters.observerFailures + failures } }
    | _ => none

/-- The timeline built with `config`. -/
def timeline (config : TimelineConfig) : Machine TimelineState TimelineAction where
  init := {}
  step := timelineStep config

end ByteTurn

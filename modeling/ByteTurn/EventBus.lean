import ByteTurn.Event
import ByteTurn.Lib.Machine

/-!
# ByteTurn.EventBus

Subscription and delivery (`EventBus` of `event.h`, `event.cpp`), on any number
of threads.

A thread is the stack of what it is in the middle of, the innermost first: a
delivery and the handlers it has still to call, a handler it has called, a
removal.  A thread that runs a handler may do whatever a thread may do.  Each
section under `mutex_` or under a handler's own mutex is one step; a handler
returns or throws as it likes, and `deliver` goes on in both cases.
-/

namespace ByteTurn

/-- `HandlerEntry`, less its handler. -/
structure HandlerEntry where
  activeCalls : Nat := 0
  enabled : Bool := true
  deriving DecidableEq, Repr

/-- What a thread is in the middle of. -/
inductive BusFrame where
  /-- `deliver`, before it takes its snapshot. -/
  | collecting (event : Event)
  /-- The loop of `deliver`, with the handlers it has still to call. -/
  | delivering (event : Event) (remaining : List Nat)
  /-- A handler: an `ActiveHandler` of the thread. -/
  | handling (event : Event) (id : Nat)
  /-- `unsubscribe`, after it has erased the subscription. -/
  | removing (id : Nat)
  /-- `unsubscribe`, in its wait. -/
  | waiting (id : Nat) (localCalls : Nat)
  deriving DecidableEq, Repr

/-- What a thread has done with a subscription. -/
inductive BusNote where
  /-- A call of the handler has begun. -/
  | began (thread : Nat) (id : Nat)
  | ended (thread : Nat) (id : Nat)
  /-- `unsubscribe` has returned. -/
  | unsubscribed (thread : Nat) (id : Nat)
  deriving DecidableEq, Repr

/-- `EventBus` and the threads that use it.  The entries stay where they are
after they have been erased from `handlers_`. -/
structure EventBus where
  threads : List (List BusFrame)
  /-- The keys of `handlers_`. -/
  handlers : List Nat := []
  entries : Nat → HandlerEntry := fun _ => {}
  nextSubscription : Nat := 1
  nextSequence : Nat := 1
  /-- What has happened, in its order. -/
  log : List BusNote := []

/-- A step of a thread. -/
inductive BusAction where
  | subscribe (thread : Nat)
  /-- `publish` up to `deliver`, with the clock's time. -/
  | publish (thread : Nat) (event : Event) (now : Int)
  /-- `deliver` as the timeline calls it. -/
  | deliver (thread : Nat) (event : Event)
  /-- The snapshot of `deliver`, in the order of the map. -/
  | collect (thread : Nat) (order : List Nat)
  /-- The next handler of a delivery is called, or passed over. -/
  | call (thread : Nat)
  | endCall (thread : Nat)
  | endDelivery (thread : Nat)
  /-- The first section of `unsubscribe`. -/
  | unsubscribe (thread : Nat) (id : Nat)
  /-- The second section, up to its wait. -/
  | disable (thread : Nat)
  /-- The wait is over. -/
  | wake (thread : Nat)
  deriving DecidableEq, Repr

namespace EventBus

/-- What `publish` makes of an event. -/
def stamp (s : EventBus) (event : Event) (now : Int) : Event :=
  let receivedAt := if event.receivedAt = 0 then now else event.receivedAt
  { event with
    sequence := s.nextSequence
    receivedAt := receivedAt
    timestamp := if event.timestamp = 0 then receivedAt else event.timestamp
    traceId :=
      if event.traceId = [] ∧ event.sessionId ≠ [] ∧ event.turnId ≠ [] then
        event.sessionId ++ lit ":" ++ event.turnId
      else event.traceId }

/-- A thread is outside the bus, or in a handler. -/
def Free : List BusFrame → Prop
  | [] | .handling _ _ :: _ => True
  | _ => False

instance : (frames : List BusFrame) → Decidable (Free frames)
  | [] | .handling _ _ :: _ => .isTrue trivial
  | .collecting _ :: _ | .delivering _ _ :: _ | .removing _ :: _ | .waiting _ _ :: _ => .isFalse id

/-- A call of the handler of a subscription. -/
def isCallOf (id : Nat) : BusFrame → Bool
  | .handling _ i => i == id
  | _ => false

/-- `calls_on_this_thread` -/
def callsOn (id : Nat) (frames : List BusFrame) : Nat := frames.countP (isCallOf id)

/-- A thread goes on with other frames. -/
def setFrames (s : EventBus) (thread : Nat) (frames : List BusFrame) : EventBus :=
  { s with threads := s.threads.set thread frames }

/-- An entry changes. -/
def setEntry (s : EventBus) (id : Nat) (entry : HandlerEntry) : EventBus :=
  { s with entries := Function.update s.entries id entry }

/-- Something has happened. -/
def note (s : EventBus) (n : BusNote) : EventBus := { s with log := s.log ++ [n] }

/-- `subscribe` -/
def subscribe (s : EventBus) : EventBus :=
  { s with
    handlers := s.handlers ++ [s.nextSubscription]
    nextSubscription := s.nextSubscription + 1 }

/-- The next handler of a delivery: it is called unless it is disabled. -/
def callNext (s : EventBus) (thread : Nat) (event : Event) (id : Nat) (remaining : List Nat)
    (below : List BusFrame) : EventBus :=
  let entry := s.entries id
  if entry.enabled then
    ((s.setEntry id { entry with activeCalls := entry.activeCalls + 1 }).setFrames thread
      (.handling event id :: .delivering event remaining :: below)).note (.began thread id)
  else s.setFrames thread (.delivering event remaining :: below)

/-- A handler has returned or thrown. -/
def finishCall (s : EventBus) (thread : Nat) (id : Nat) (below : List BusFrame) : EventBus :=
  let entry := s.entries id
  ((s.setEntry id { entry with activeCalls := entry.activeCalls - 1 }).setFrames thread below).note
    (.ended thread id)

/-- The first section of `unsubscribe`.  It returns where the subscription is
not in the map; that is noted if there has been such a subscription. -/
def lookupAndErase (s : EventBus) (thread : Nat) (id : Nat) (frames : List BusFrame) : EventBus :=
  if id ∈ s.handlers then
    { s with handlers := s.handlers.erase id }.setFrames thread (.removing id :: frames)
  else if 0 < id ∧ id < s.nextSubscription then s.note (.unsubscribed thread id)
  else s

/-- The second section of `unsubscribe`, up to its wait. -/
def disableEntry (s : EventBus) (thread : Nat) (id : Nat) (below : List BusFrame) : EventBus :=
  (s.setEntry id { s.entries id with enabled := false }).setFrames thread
    (.waiting id (callsOn id below) :: below)

/-- One step of a thread, from its frames. -/
def stepThread (s : EventBus) (thread : Nat) (frames : List BusFrame) : BusAction → Option EventBus
  | .subscribe _ => if Free frames then some s.subscribe else none
  | .publish _ event now =>
      if Free frames then
        some ({ s with nextSequence := s.nextSequence + 1 }.setFrames thread
          (.collecting (s.stamp event now) :: frames))
      else none
  | .deliver _ event =>
      if Free frames then some (s.setFrames thread (.collecting event :: frames)) else none
  | .collect _ order => match frames with
    | .collecting event :: below =>
        if order.Perm s.handlers then some (s.setFrames thread (.delivering event order :: below))
        else none
    | _ => none
  | .call _ => match frames with
    | .delivering event (id :: remaining) :: below =>
        some (s.callNext thread event id remaining below)
    | _ => none
  | .endCall _ => match frames with
    | .handling _ id :: below => some (s.finishCall thread id below)
    | _ => none
  | .endDelivery _ => match frames with
    | .delivering _ [] :: below => some (s.setFrames thread below)
    | _ => none
  | .unsubscribe _ id =>
      if Free frames then some (s.lookupAndErase thread id frames) else none
  | .disable _ => match frames with
    | .removing id :: below => some (s.disableEntry thread id below)
    | _ => none
  | .wake _ => match frames with
    | .waiting id localCalls :: below =>
        if (s.entries id).activeCalls ≤ localCalls then
          some ((s.setFrames thread below).note (.unsubscribed thread id))
        else none
    | _ => none

end EventBus

/-- The thread of a step. -/
def BusAction.thread : BusAction → Nat
  | .subscribe t | .publish t _ _ | .deliver t _ | .collect t _ | .call t | .endCall t
  | .endDelivery t | .unsubscribe t _ | .disable t | .wake t => t

/-- A bus and a number of threads. -/
def eventBus (threads : Nat) : Machine EventBus BusAction where
  init := { threads := List.replicate threads [] }
  step s a := s.threads[a.thread]?.bind fun frames => s.stepThread a.thread frames a

end ByteTurn

import ByteTurn.FullDuplexConversation.Accounting

/-!
# ByteTurn.FullDuplexConversation.Closing

The end of a native session.

The conversation is put together with its input queue: `push_audio`, the worker
that empties the queue on a thread of its own, and the wait of `close` for that
worker.  `RealtimeSessionClosed` is final in every run in which the provider
reports no `Closed` of its own, no call still has something to publish when
`close` publishes it, and later no report of the player is a new one and the
sink takes no audio (`Orderly`).
-/

namespace ByteTurn

/-! ## the session -/

/-- `FullDuplexConversation` with its input; the first thread is the worker's. -/
structure DuplexSession where
  duplex : FullDuplexConversation
  maxInputFrames : Nat := 100
  serverVad : Bool := true
  inputQueue : List AudioFrame := []
  /-- The frames of the `push_audio` calls that are past their first check. -/
  pushing : List AudioFrame := []
  /-- The thread whose `close` has set `stopping_`. -/
  closer : Option Nat := none
  /-- `input_loop` has returned. -/
  workerDone : Bool := false
  deriving DecidableEq, Repr

/-- A step of the conversation, or one of its input. -/
inductive DuplexSessionAction where
  | duplex (a : DuplexAction)
  /-- `push_audio` up to its load of `stopping_`. -/
  | pushAudio (frame : AudioFrame)
  /-- The section of `push_audio` under `input_mutex_`. -/
  | enqueue (frame : AudioFrame)
  /-- A round of `input_loop`, with the answer of the provider's `push_audio`. -/
  | work (accepted : Bool)
  deriving DecidableEq, Repr

namespace DuplexSession

/-- `audio_overload` -/
def overload (s : DuplexSession) : Event :=
  s.duplex.event .error [] (lit "audio_overload") (lit "full-duplex input queue is full")

/-- `provider_backpressure` -/
def backpressure (s : DuplexSession) : Event :=
  s.duplex.event .error [] (lit "provider_backpressure")
    (lit "realtime provider rejected input audio")

/-- The section of `push_audio`. -/
def pushSection (s : DuplexSession) (frame : AudioFrame) : DuplexSession :=
  if s.duplex.stopping then s
  else if s.maxInputFrames ≤ s.inputQueue.length then
    { s with duplex.threads := s.duplex.threads ++ [[.publish s.overload]] }
  else { s with inputQueue := s.inputQueue ++ [frame] }

/-- What the worker does with a frame after the provider's answer. -/
def afterPush (s : DuplexSession) (accepted : Bool) (frame : AudioFrame) : List DuplexTask :=
  (if accepted then [] else [.publish s.backpressure]) ++
    if frame.endOfUtterance ∧ ¬ s.serverVad then [.call .inputSpeechEnded] else []

/-- A round of `input_loop`, or its end; `none` while it waits. -/
def workerRound (s : DuplexSession) (accepted : Bool) : Option DuplexSession :=
  if s.duplex.stopping then some { s with inputQueue := [], workerDone := true }
  else match s.inputQueue with
    | [] => none
    | frame :: rest => some { s with
        inputQueue := rest
        duplex.threads := s.duplex.threads.set 0 (s.afterPush accepted frame) }

/-- The thread of the `close` that is to set `stopping_` with this step. -/
def nextCloser (s : DuplexSession) : DuplexAction → Option Nat
  | .run thread _ =>
      if s.duplex.nextTask thread = some (.call .close) ∧ ¬ s.duplex.stopping then some thread
      else s.closer
  | .call _ => s.closer

/-- `close` waits for the worker. -/
def Joining (s : DuplexSession) : DuplexAction → Prop
  | .run thread _ => s.closer = some thread ∧ ¬ s.workerDone
  | .call _ => False

instance (s : DuplexSession) : (a : DuplexAction) → Decidable (s.Joining a)
  | .run _ _ => inferInstanceAs (Decidable (_ ∧ _))
  | .call _ => .isFalse id

/-- One step of a session. -/
def step (s : DuplexSession) : DuplexSessionAction → Option DuplexSession
  | .duplex a =>
      if s.Joining a then none
      else (s.duplex.duplexStep a).map fun d => { s with duplex := d, closer := s.nextCloser a }
  | .pushAudio frame =>
      some (if s.duplex.stopping then s else { s with pushing := s.pushing ++ [frame] })
  | .enqueue frame =>
      if frame ∈ s.pushing then some ({ s with pushing := s.pushing.erase frame }.pushSection frame)
      else none
  | .work accepted =>
      if s.workerDone ∨ s.duplex.threads[0]? ≠ some [] then none else s.workerRound accepted

end DuplexSession

/-- A session, from its constructor on. -/
def duplexSession (sessionId : Bytes) (outputSampleRateHz : Int) (maxInputFrames : Nat)
    (serverVad : Bool) : Machine DuplexSession DuplexSessionAction where
  init := {
    duplex := { sessionId := sessionId, outputSampleRateHz := outputSampleRateHz, threads := [[]] }
    maxInputFrames := maxInputFrames
    serverVad := serverVad }
  step := DuplexSession.step

namespace DuplexSession

/-! ## when nothing is published any more -/

/-- `RealtimeSessionClosed` has been published. -/
def Closed (s : DuplexSession) : Prop :=
  ∃ e ∈ s.duplex.events, e.type = .realtimeSessionClosed

instance (s : DuplexSession) : Decidable s.Closed := by
  unfold Closed
  infer_instance

/-- A task that publishes nothing, and leads to nothing, as long as nothing else
changes: a call that has not begun is one, and audio of a response that is over,
for a sink that does not take it. -/
def Quiet (d : FullDuplexConversation) : DuplexTask → Prop
  | .startInput => d.inputSpeechActive
  | .endInput => ¬ d.inputSpeechActive
  | .admitAudio responseId _ | .completeResponse responseId => ¬ d.playback.Admits responseId
  | .bargeIn | .audioSink _ => ¬ d.playback.responseActive
  | .call _ | .commitInput | .cancelResponse _ | .transcriptSink _ _ => True
  | .startResponse _ | .publish _ => False

instance (d : FullDuplexConversation) : (task : DuplexTask) → Decidable (Quiet d task)
  | .startInput => inferInstanceAs (Decidable (_ = true))
  | .endInput | .bargeIn | .audioSink _ => inferInstanceAs (Decidable (¬ _ = true))
  | .admitAudio _ _ | .completeResponse _ => inferInstanceAs (Decidable (¬ _))
  | .call _ | .commitInput | .cancelResponse _ | .transcriptSink _ _ => .isTrue trivial
  | .startResponse _ | .publish _ => .isFalse id

/-- The provider's report that it has closed. -/
def ReportsClosed : DuplexCall → Prop
  | .onProviderEvent e => e.type = .closed
  | _ => False

instance : (c : DuplexCall) → Decidable (ReportsClosed c)
  | .onProviderEvent e => inferInstanceAs (Decidable (e.type = .closed))
  | .inputSpeechStarted | .inputSpeechEnded | .playbackStarted _ | .acknowledgePlayback _ _
  | .close => .isFalse id

/-- A report of the player that is not about the response at hand, or says
nothing new of it. -/
def Stale (p : Playback) : DuplexCall → Prop
  | .playbackStarted responseId => p.started responseId = none
  | .acknowledgePlayback responseId playedSamples => p.acknowledge responseId playedSamples = none
  | .inputSpeechStarted | .inputSpeechEnded | .onProviderEvent _ | .close => True

instance (p : Playback) : (c : DuplexCall) → Decidable (Stale p c)
  | .playbackStarted _ | .acknowledgePlayback _ _ => inferInstanceAs (Decidable (_ = none))
  | .inputSpeechStarted | .inputSpeechEnded | .onProviderEvent _ | .close => .isTrue trivial

/-- The provider reports no `Closed` before the session stops; when `close`
publishes `RealtimeSessionClosed`, no other thread has anything to publish; and
later the player reports nothing new, and the sink takes no audio. -/
def OrderlyTask (s : DuplexSession) (thread : Nat) (accepted : Bool) : DuplexTask → Prop
  | .call c => (ReportsClosed c → s.duplex.stopping) ∧ (s.Closed → Stale s.duplex.playback c)
  | .publish e => e.type = .realtimeSessionClosed →
      ∀ tasks ∈ s.duplex.threads.eraseIdx thread, ∀ task ∈ tasks, Quiet s.duplex task
  | .audioSink _ => s.Closed → accepted = false
  | _ => True

instance (s : DuplexSession) (thread : Nat) (accepted : Bool) :
    (task : DuplexTask) → Decidable (s.OrderlyTask thread accepted task)
  | .call _ => inferInstanceAs (Decidable (_ ∧ _))
  | .publish _ | .audioSink _ => inferInstanceAs (Decidable (_ → _))
  | .startInput | .endInput | .startResponse _ | .admitAudio _ _ | .completeResponse _ | .bargeIn
  | .cancelResponse _ | .commitInput | .transcriptSink _ _ => .isTrue trivial

/-- A step of a run that closes in order. -/
def Orderly (s : DuplexSession) : DuplexSessionAction → Prop
  | .duplex (.run thread accepted) =>
      ∀ task ∈ s.duplex.nextTask thread, s.OrderlyTask thread accepted task
  | _ => True

instance (s : DuplexSession) : (a : DuplexSessionAction) → Decidable (s.Orderly a)
  | .duplex (.run _ _) => inferInstanceAs (Decidable (∀ _ ∈ _, _))
  | .duplex (.call _) | .pushAudio _ | .enqueue _ | .work _ => .isTrue trivial

/-- `RealtimeSessionClosed` is published at most once, and nothing after it. -/
def ClosedFinally (events : List Event) : Prop :=
  ∀ before e after, events = before ++ e :: after → e.type = .realtimeSessionClosed → after = []

/-! ## what a task does -/

section Task

open FullDuplexConversation

variable {d : FullDuplexConversation} {accepted : Bool}

/-- The event a task publishes. -/
def published : DuplexTask → List Event
  | .publish e => [e]
  | _ => []

theorem runTask_events (task : DuplexTask) :
    (d.runTask accepted task).1.events = d.events ++ published task := by
  cases task with
  | call c =>
      rw [runTask]
      unfold runCall
      split
      · exact (List.append_nil _).symm
      · exact (List.append_nil _).symm
      · split <;> exact (List.append_nil _).symm
      · split <;> exact (List.append_nil _).symm
      · exact (List.append_nil _).symm
      · split <;> exact (List.append_nil _).symm
  | startInput | endInput | admitAudio | completeResponse | bargeIn =>
      rw [runTask]
      split <;> exact (List.append_nil _).symm
  | publish e => rfl
  | startResponse | audioSink | cancelResponse | commitInput | transcriptSink =>
      exact (List.append_nil _).symm

/-- Only `close` stops the session, and it does so once. -/
theorem runTask_stopping (task : DuplexTask) :
    (d.runTask accepted task).1.stopping =
      (d.stopping || decide (task = .call .close)) := by
  cases task with
  | call c =>
      rw [runTask]
      cases c with
      | close =>
          by_cases hstopping : d.stopping <;> simp [runCall, hstopping]
      | playbackStarted responseId =>
          simp only [runCall]
          split <;> simp
      | acknowledgePlayback responseId playedSamples =>
          simp only [runCall]
          split <;> simp
      | inputSpeechStarted | inputSpeechEnded | onProviderEvent e => simp [runCall]
  | startInput | endInput | admitAudio | completeResponse | bargeIn =>
      rw [runTask]
      split <;> simp
  | startResponse | audioSink | cancelResponse | commitInput | transcriptSink | publish =>
      simp [runTask]

/-- `RealtimeSessionClosed` comes from `close`, or from the provider's report. -/
theorem closed_of_runTask {task : DuplexTask} {e : Event}
    (he : .publish e ∈ (d.runTask accepted task).2) (htype : e.type = .realtimeSessionClosed) :
    d.stopping = false ∧ (task = .call .close ∧ (d.runTask accepted task).2 = [.publish e] ∨
      ∃ c, task = .call c ∧ ReportsClosed c) := by
  have hother : ∀ {type : EventType} {responseId name data : Bytes},
      type ≠ .realtimeSessionClosed → e ≠ d.event type responseId name data := by
    rintro type responseId name data hne rfl
    exact hne htype
  cases task with
  | call c =>
      rw [runTask] at he ⊢
      cases c with
      | close =>
          by_cases hstopping : d.stopping
          · simp [runCall, hstopping] at he
          · simp only [runCall, if_neg hstopping, List.mem_singleton, DuplexTask.publish.injEq]
              at he ⊢
            rw [he]
            exact ⟨eq_false_of_ne_true hstopping, .inl ⟨trivial, rfl⟩⟩
      | onProviderEvent event =>
          by_cases hstopping : d.stopping
          · simp [runCall, hstopping] at he
          · refine ⟨eq_false_of_ne_true hstopping, .inr ⟨_, rfl, ?_⟩⟩
            simp only [runCall, if_neg hstopping, onProviderEvent] at he
            split at he
            case h_10 htype' => exact htype'
            all_goals simp [hother] at he
      | playbackStarted responseId =>
          simp only [runCall] at he
          split at he <;> simp [hother] at he
      | acknowledgePlayback responseId playedSamples =>
          simp only [runCall] at he
          split at he <;> simp [hother] at he
      | inputSpeechStarted | inputSpeechEnded =>
          simp only [runCall] at he
          split at he <;> simp at he
  | startInput | endInput | admitAudio | completeResponse | bargeIn =>
      rw [runTask] at he
      split at he <;> simp [hother] at he
  | audioSink output =>
      rw [runTask] at he
      cases accepted <;> simp [hother] at he
  | startResponse | cancelResponse | commitInput | transcriptSink | publish =>
      simp [runTask] at he

/-- Nobody but the application calls `close`. -/
theorem close_notMem_runTask (task : DuplexTask) :
    .call .close ∉ (d.runTask accepted task).2 := by
  intro hmem
  cases task with
  | call c =>
      rw [runTask] at hmem
      cases c with
      | onProviderEvent event =>
          simp only [runCall, onProviderEvent] at hmem
          split at hmem
          · cases hmem
          · split at hmem <;> simp at hmem
      | playbackStarted | acknowledgePlayback | inputSpeechStarted | inputSpeechEnded | close =>
          simp only [runCall] at hmem
          split at hmem <;> simp at hmem
  | startInput | endInput | admitAudio | completeResponse | bargeIn =>
      rw [runTask] at hmem
      split at hmem <;> simp at hmem
  | audioSink output =>
      rw [runTask] at hmem
      cases accepted <;> simp at hmem
  | startResponse | cancelResponse | commitInput | transcriptSink | publish =>
      simp [runTask] at hmem

/-- What quiet tasks depend on. -/
def SameInput (d d' : FullDuplexConversation) : Prop :=
  d'.playback = d.playback ∧ d'.inputSpeechActive = d.inputSpeechActive

theorem Quiet.congr {d' : FullDuplexConversation} (h : SameInput d d') {task : DuplexTask}
    (hq : Quiet d task) : Quiet d' task := by
  obtain ⟨hplayback, hactive⟩ := h
  cases task <;> simp only [Quiet, hplayback, hactive] at hq ⊢ <;> exact hq

/-- A call finds nothing to publish in a session that has stopped, unless the
player reports something new. -/
theorem runCall_stale {c : DuplexCall} (hstopping : d.stopping = true)
    (hstale : Stale d.playback c) : d.runCall c = (d, []) := by
  cases c with
  | playbackStarted responseId =>
      have hnone : d.playback.started responseId = none := hstale
      simp only [runCall, hnone]
  | acknowledgePlayback responseId playedSamples =>
      have hnone : d.playback.acknowledge responseId playedSamples = none := hstale
      simp only [runCall, hnone]
  | inputSpeechStarted | inputSpeechEnded | onProviderEvent _ | close =>
      simp [runCall, hstopping]

/-- A quiet task leads to quiet tasks, where no call finds anything to publish and
the sink takes no audio. -/
theorem runTask_quiet {task : DuplexTask} (hq : Quiet d task)
    (hcall : ∀ c, task = .call c → d.runCall c = (d, []))
    (hsink : ∀ output, task = .audioSink output → accepted = false) :
    (∀ next ∈ (d.runTask accepted task).2, Quiet d next) ∧
      SameInput d (d.runTask accepted task).1 := by
  cases task with
  | call c =>
      rw [runTask, hcall c rfl]
      exact ⟨List.forall_mem_nil _, rfl, rfl⟩
  | audioSink output =>
      rw [runTask, hsink output rfl]
      exact ⟨List.forall_mem_singleton.mpr hq, rfl, rfl⟩
  | startInput =>
      have hactive : d.inputSpeechActive = true := hq
      rw [runTask, if_pos hactive]
      exact ⟨List.forall_mem_nil _, rfl, rfl⟩
  | endInput =>
      have hactive : ¬ d.inputSpeechActive = true := hq
      rw [runTask, if_neg hactive]
      exact ⟨List.forall_mem_nil _, rfl, rfl⟩
  | admitAudio responseId audio =>
      have hadmits : ¬ d.playback.Admits responseId := hq
      rw [runTask, if_neg hadmits]
      exact ⟨List.forall_mem_nil _, rfl, rfl⟩
  | completeResponse responseId =>
      have hnone : d.playback.complete responseId = none := if_neg hq
      rw [runTask, hnone]
      exact ⟨List.forall_mem_nil _, rfl, rfl⟩
  | bargeIn =>
      have hactive : ¬ d.playback.responseActive = true := hq
      rw [runTask, if_neg hactive]
      exact ⟨List.forall_mem_nil _, rfl, rfl⟩
  | cancelResponse | commitInput | transcriptSink => exact ⟨List.forall_mem_nil _, rfl, rfl⟩
  | startResponse | publish => exact hq.elim

end Task

/-! ## the invariant -/

/-- What holds in a run that closes in order. -/
structure Closing (s : DuplexSession) : Prop where
  /-- `RealtimeSessionClosed` is about to be published by the closer only. -/
  pending : ∀ (thread : Nat) tasks, s.duplex.threads[thread]? = some tasks → ∀ e,
    .publish e ∈ tasks → e.type = .realtimeSessionClosed →
      s.closer = some thread ∧ tasks = [.publish e] ∧ ¬ s.Closed
  closeAlone : ∀ tasks ∈ s.duplex.threads, .call .close ∈ tasks → tasks = [.call .close]
  stopping : ∀ thread ∈ s.closer, s.duplex.stopping = true
  /-- After it nothing is left to publish. -/
  quiet : s.Closed → s.duplex.stopping = true ∧ s.workerDone = true ∧
    ∀ tasks ∈ s.duplex.threads, ∀ task ∈ tasks, Quiet s.duplex task
  last : ClosedFinally s.duplex.events

variable {s t : DuplexSession}

theorem closedFinally_append {events : List Event} {e : Event}
    (h : ∀ e' ∈ events, e'.type ≠ .realtimeSessionClosed) : ClosedFinally (events ++ [e]) := by
  intro before e' after heq htype
  by_contra hne
  -- an event with something after it was there before
  obtain ⟨rest, last, rfl⟩ : ∃ rest last, after = rest ++ [last] :=
    ⟨after.dropLast, after.getLast hne, (List.dropLast_append_getLast hne).symm⟩
  have hevents : events = before ++ e' :: rest := by
    rw [← List.cons_append, ← List.append_assoc] at heq
    exact (List.append_inj' heq rfl).1
  exact h e' (by rw [hevents]; simp) htype

theorem Closing.init (sessionId : Bytes) (rate : Int) (maxInputFrames : Nat) (serverVad : Bool) :
    Closing (duplexSession sessionId rate maxInputFrames serverVad).init where
  pending := by
    intro thread tasks hthread e he
    cases thread with
    | zero =>
        obtain rfl : [] = tasks := Option.some.inj hthread
        cases he
    | succ thread => cases hthread
  closeAlone := by simp [duplexSession]
  stopping := nofun
  quiet := by rintro ⟨e, he, -⟩; cases he
  last := by
    intro before e after heq
    simp [duplexSession] at heq

/-- A thread more, with nothing that closes the session. -/
theorem Closing.addThread (h : Closing s) (tasks : List DuplexTask)
    (hpublish : ∀ e, .publish e ∈ tasks → e.type ≠ .realtimeSessionClosed)
    (hclose : .call .close ∈ tasks → tasks = [.call .close])
    (hquiet : s.Closed → ∀ task ∈ tasks, Quiet s.duplex task) :
    Closing { s with duplex.threads := s.duplex.threads ++ [tasks] } where
  pending := by
    intro thread tasks' hthread e he htype
    by_cases hlt : thread < s.duplex.threads.length
    · rw [List.getElem?_append_left hlt] at hthread
      exact h.pending thread tasks' hthread e he htype
    · rw [List.getElem?_append_right (Nat.le_of_not_lt hlt)] at hthread
      obtain rfl := List.mem_singleton.mp (List.mem_of_getElem? hthread)
      exact absurd htype (hpublish e he)
  closeAlone := by
    intro tasks' hmem hclose'
    obtain hold | hnew := List.mem_append.mp hmem
    · exact h.closeAlone tasks' hold hclose'
    · obtain rfl := List.mem_singleton.mp hnew
      exact hclose hclose'
  stopping := h.stopping
  quiet := by
    intro hclosed
    obtain ⟨hstopping, hdone, hall⟩ := h.quiet hclosed
    refine ⟨hstopping, hdone, ?_⟩
    intro tasks' hmem
    obtain hold | hnew := List.mem_append.mp hmem
    · exact hall tasks' hold
    · obtain rfl := List.mem_singleton.mp hnew
      exact hquiet hclosed
  last := h.last

/-- A thread goes on, with nothing that closes the session. -/
theorem Closing.setThread (h : Closing s) {thread : Nat} {tasks : List DuplexTask}
    {d : FullDuplexConversation} (hthreads : d.threads = s.duplex.threads.set thread tasks)
    (hpublish : ∀ e, .publish e ∈ tasks → e.type ≠ .realtimeSessionClosed)
    (hclose : .call .close ∉ tasks) (hstopping : s.duplex.stopping = true → d.stopping = true)
    (hevents : d.events = s.duplex.events ∨
      ¬ s.Closed ∧ ∃ e, d.events = s.duplex.events ++ [e] ∧ e.type ≠ .realtimeSessionClosed)
    (hquiet : s.Closed → SameInput s.duplex d ∧ ∀ task ∈ tasks, Quiet d task) :
    Closing { s with duplex := d } := by
  have hsame : Closed { s with duplex := d } ↔ s.Closed := by
    obtain hsame | ⟨hopen, e, hmore, htype⟩ := hevents
    · simp only [Closed, hsame]
    · refine iff_of_false ?_ hopen
      rintro ⟨e', he', htype'⟩
      rw [show ({ s with duplex := d } : DuplexSession).duplex.events = d.events from rfl, hmore]
        at he'
      obtain hold | hnew := List.mem_append.mp he'
      · exact hopen ⟨e', hold, htype'⟩
      · rw [List.mem_singleton.mp hnew] at htype'
        exact htype htype'
  refine ⟨?_, ?_, fun k hk => hstopping (h.stopping k hk), ?_, ?_⟩
  · intro k tasks' hk e he htype
    have hk : d.threads[k]? = some tasks' := hk
    rw [hthreads] at hk
    by_cases hkt : thread = k
    · subst hkt
      rw [List.getElem?_set_self'] at hk
      obtain ⟨_, -, rfl⟩ := Option.map_eq_some_iff.mp hk
      exact absurd htype (hpublish e he)
    · rw [List.getElem?_set_ne hkt] at hk
      rw [hsame]
      exact h.pending k tasks' hk e he htype
  · intro tasks' hmem hclose'
    have hmem : tasks' ∈ d.threads := hmem
    rw [hthreads] at hmem
    obtain hold | rfl := List.mem_or_eq_of_mem_set hmem
    · exact h.closeAlone tasks' hold hclose'
    · exact absurd hclose' hclose
  · intro hclosed
    obtain ⟨hstop, hdone, hall⟩ := h.quiet (hsame.mp hclosed)
    obtain ⟨hinput, hnew⟩ := hquiet (hsame.mp hclosed)
    refine ⟨hstopping hstop, hdone, fun tasks' hmem => ?_⟩
    have hmem : tasks' ∈ d.threads := hmem
    rw [hthreads] at hmem
    obtain hold | rfl := List.mem_or_eq_of_mem_set hmem
    · exact fun task htask => (hall tasks' hold task htask).congr hinput
    · exact hnew
  · show ClosedFinally d.events
    obtain hsame | ⟨hopen, e, hmore, htype⟩ := hevents
    · rw [hsame]
      exact h.last
    · rw [hmore]
      exact closedFinally_append fun e' he' htype' => hopen ⟨e', he', htype'⟩

/-- `close` sets `stopping_`. -/
theorem Closing.stop (h : Closing s) (hopen : s.duplex.stopping = false) (thread : Nat)
    (e : Event) :
    Closing { s with
      duplex := { s.duplex with stopping := true, threads := s.duplex.threads.set thread [.publish e] }
      closer := some thread } := by
  have hnotClosed : ¬ s.Closed := fun hclosed => by simp [(h.quiet hclosed).1] at hopen
  refine ⟨?_, ?_, fun _ _ => rfl, fun hclosed => absurd hclosed hnotClosed, h.last⟩
  · intro k tasks hk e' he' htype
    have hk : (s.duplex.threads.set thread [.publish e])[k]? = some tasks := hk
    by_cases hkt : thread = k
    · subst hkt
      rw [List.getElem?_set_self'] at hk
      obtain ⟨_, -, rfl⟩ := Option.map_eq_some_iff.mp hk
      obtain rfl : e' = e := by simpa using he'
      exact ⟨rfl, rfl, hnotClosed⟩
    · rw [List.getElem?_set_ne hkt] at hk
      have hstopping := h.stopping k (h.pending k tasks hk e' he' htype).1
      rw [hopen] at hstopping
      cases hstopping
  · intro tasks hmem hclose
    obtain hold | rfl := List.mem_or_eq_of_mem_set hmem
    · exact h.closeAlone tasks hold hclose
    · simp at hclose

/-- `close` publishes `RealtimeSessionClosed`. -/
theorem Closing.close (h : Closing s) {thread : Nat} {e : Event}
    (hthread : s.duplex.threads[thread]? = some [.publish e])
    (htype : e.type = .realtimeSessionClosed) (hdone : s.workerDone = true)
    (hothers : ∀ tasks ∈ s.duplex.threads.eraseIdx thread, ∀ task ∈ tasks, Quiet s.duplex task) :
    Closing { s with duplex := { s.duplex with
      events := s.duplex.events ++ [e]
      threads := s.duplex.threads.set thread [] } } := by
  obtain ⟨hcloser, -, hopen⟩ := h.pending thread _ hthread e (by simp) htype
  have hquiet : ∀ tasks ∈ s.duplex.threads.set thread [], ∀ task ∈ tasks, Quiet s.duplex task := by
    intro tasks hmem
    obtain ⟨k, hk⟩ := List.mem_iff_getElem?.mp hmem
    by_cases hkt : thread = k
    · subst hkt
      rw [List.getElem?_set_self'] at hk
      obtain ⟨_, -, rfl⟩ := Option.map_eq_some_iff.mp hk
      nofun
    · rw [List.getElem?_set_ne hkt] at hk
      exact hothers tasks (List.mem_eraseIdx_iff_getElem?.mpr ⟨k, Ne.symm hkt, hk⟩)
  refine ⟨?_, ?_, h.stopping, fun _ => ⟨h.stopping thread hcloser, hdone, ?_⟩, ?_⟩
  · intro k tasks hk e' he' htype'
    have hk := List.mem_of_getElem? hk
    exact (hquiet tasks hk _ he').elim
  · intro tasks hmem hclose
    obtain hold | rfl := List.mem_or_eq_of_mem_set hmem
    · exact h.closeAlone tasks hold hclose
    · cases hclose
  · exact fun tasks hmem task htask => (hquiet tasks hmem task htask).congr ⟨rfl, rfl⟩
  · exact closedFinally_append fun e' he' htype' => hopen ⟨e', he', htype'⟩

theorem Closing.run (h : Closing s) {thread : Nat} {accepted : Bool} {task : DuplexTask}
    {rest : List DuplexTask} (hthread : s.duplex.threads[thread]? = some (task :: rest))
    (hg : s.OrderlyTask thread accepted task) (hjoined : ¬ s.Joining (.run thread accepted))
    (hnext : s.duplex.nextTask thread = some task) :
    Closing { s with
      duplex := { (s.duplex.runTask accepted task).1 with
        threads := s.duplex.threads.set thread ((s.duplex.runTask accepted task).2 ++ rest) }
      closer := s.nextCloser (.run thread accepted) } := by
  have hmem : task :: rest ∈ s.duplex.threads := List.mem_of_getElem? hthread
  by_cases hclosing : task = .call .close ∧ s.duplex.stopping = false
  · -- `close` sets `stopping_`
    obtain ⟨rfl, hopen⟩ := hclosing
    obtain rfl : rest = [] := (List.cons.inj (h.closeAlone _ hmem (by simp))).2
    have hcloser : s.nextCloser (.run thread accepted) = some thread := by
      simp [nextCloser, hnext, hopen]
    have hrun : s.duplex.runTask accepted (.call .close) =
        ({ s.duplex with stopping := true },
          [.publish (s.duplex.event .realtimeSessionClosed [] [] [])]) := by
      simp [FullDuplexConversation.runTask, FullDuplexConversation.runCall, hopen]
    rw [hcloser, hrun]
    exact h.stop hopen thread _
  have hcloser : s.nextCloser (.run thread accepted) = s.closer := by
    have hstill : ¬(task = .call .close ∧ ¬s.duplex.stopping = true) :=
      fun hboth => hclosing ⟨hboth.1, eq_false_of_ne_true hboth.2⟩
    simp only [nextCloser, hnext, Option.some.injEq]
    exact if_neg hstill
  rw [hcloser]
  by_cases hfinal : ∃ e, task = .publish e ∧ e.type = .realtimeSessionClosed
  · -- `close` publishes
    obtain ⟨e, rfl, htype⟩ := hfinal
    obtain ⟨hmine, halone, -⟩ := h.pending thread _ hthread e (by simp) htype
    obtain rfl : rest = [] := (List.cons.inj halone).2
    have hdone : s.workerDone = true := by
      by_contra hnot
      exact hjoined ⟨hmine, hnot⟩
    exact h.close hthread htype hdone (hg htype)
  refine h.setThread rfl ?_ ?_ ?_ ?_ ?_
  · intro e he htype
    obtain hnew | hold := List.mem_append.mp he
    · obtain ⟨hopen, ⟨rfl, -⟩ | ⟨c, rfl, hreports⟩⟩ := closed_of_runTask hnew htype
      · exact hclosing ⟨rfl, hopen⟩
      · have hstopping := hg.1 hreports
        rw [hopen] at hstopping
        cases hstopping
    · have halone := (h.pending thread _ hthread e (List.mem_cons_of_mem _ hold) htype).2.1
      rw [(List.cons.inj halone).2] at hold
      cases hold
  · intro hclose
    obtain hnew | hold := List.mem_append.mp hclose
    · exact close_notMem_runTask task hnew
    · have halone := h.closeAlone _ hmem (List.mem_cons_of_mem _ hold)
      rw [(List.cons.inj halone).2] at hold
      cases hold
  · intro hstopping
    show (s.duplex.runTask accepted task).1.stopping = true
    rw [runTask_stopping, hstopping, Bool.true_or]
  · show (s.duplex.runTask accepted task).1.events = s.duplex.events ∨ _
    rw [runTask_events]
    cases task with
    | publish e =>
        by_cases hclosed : s.Closed
        · have hquiet : Quiet s.duplex (.publish e) :=
            (h.quiet hclosed).2.2 _ hmem _ List.mem_cons_self
          exact hquiet.elim
        · exact .inr ⟨hclosed, e, rfl, fun htype => hfinal ⟨e, rfl, htype⟩⟩
    | call | startInput | endInput | startResponse | admitAudio | completeResponse | bargeIn
    | audioSink | cancelResponse | commitInput | transcriptSink =>
        exact .inl (List.append_nil _)
  · intro hclosed
    obtain ⟨hstopping, -, hquiet⟩ := h.quiet hclosed
    have hall := hquiet _ hmem
    have hcall : ∀ c, task = .call c → s.duplex.runCall c = (s.duplex, []) := by
      rintro c rfl
      exact runCall_stale hstopping (hg.2 hclosed)
    have hsink : ∀ output, task = .audioSink output → accepted = false := by
      rintro output rfl
      exact hg hclosed
    obtain ⟨hnext, hinput⟩ := runTask_quiet (hall task List.mem_cons_self) hcall hsink
    refine ⟨hinput, fun task' htask' => Quiet.congr hinput ?_⟩
    obtain hnew | hold := List.mem_append.mp htask'
    · exact hnext task' hnew
    · exact hall task' (List.mem_cons_of_mem _ hold)

/-- Every step of a run that closes in order keeps the invariant. -/
theorem Closing.step (h : Closing s) {a : DuplexSessionAction} (hg : s.Orderly a)
    (hs : DuplexSession.step s a = some t) : Closing t := by
  cases a with
  | duplex a =>
      simp only [DuplexSession.step] at hs
      split at hs
      · cases hs
      · next hjoined =>
        obtain ⟨d, hd, rfl⟩ := Option.map_eq_some_iff.mp hs
        obtain ⟨c, rfl, rfl⟩ | ⟨thread, accepted, task, rest, rfl, hthread, hnext, rfl⟩ :=
          NotesAgree.duplexStep_cases hd
        · refine h.addThread _ ?_ ?_ ?_
          · intro e he
            simp at he
          · intro hclose
            rw [List.mem_singleton.mp hclose]
          · intro _ task htask
            rw [List.mem_singleton.mp htask]
            trivial
        · exact h.run hthread (hg task hnext) hjoined hnext
  | pushAudio frame =>
      rw [← Option.some.inj hs]
      split
      · exact h
      · exact ⟨h.pending, h.closeAlone, h.stopping, h.quiet, h.last⟩
  | enqueue frame =>
      simp only [DuplexSession.step] at hs
      split at hs
      · rw [← Option.some.inj hs, pushSection]
        split
        · exact ⟨h.pending, h.closeAlone, h.stopping, h.quiet, h.last⟩
        · next hrunning =>
          split
          · have hadded := h.addThread [.publish s.overload]
              (by simp [overload, FullDuplexConversation.event]) (by simp)
              fun hclosed => absurd (h.quiet hclosed).1 hrunning
            exact ⟨hadded.pending, hadded.closeAlone, hadded.stopping, hadded.quiet, hadded.last⟩
          · exact ⟨h.pending, h.closeAlone, h.stopping, h.quiet, h.last⟩
      · cases hs
  | work accepted =>
      simp only [DuplexSession.step, workerRound] at hs
      split at hs
      · cases hs
      · next hwaiting =>
        split at hs
        · rw [← Option.some.inj hs]
          refine ⟨h.pending, h.closeAlone, h.stopping, fun hclosed => ?_, h.last⟩
          exact ⟨(h.quiet hclosed).1, rfl, (h.quiet hclosed).2.2⟩
        · next hrunning =>
          split at hs
          · cases hs
          · next frame rest _ =>
            rw [← Option.some.inj hs]
            have hset := h.setThread
              (d := { s.duplex with
                threads := s.duplex.threads.set 0 (s.afterPush accepted frame) }) rfl
              (by
                intro e he
                simp only [afterPush, List.mem_append] at he
                split at he <;> split at he <;> simp_all [backpressure, FullDuplexConversation.event])
              (by
                intro hclose
                simp only [afterPush, List.mem_append] at hclose
                split at hclose <;> split at hclose <;> simp at hclose)
              id (.inl rfl) fun hclosed => absurd (h.quiet hclosed).1 hrunning
            exact ⟨hset.pending, hset.closeAlone, hset.stopping, hset.quiet, hset.last⟩

end DuplexSession

/-- A session in the runs that close in order. -/
def orderlySession (sessionId : Bytes) (outputSampleRateHz : Int) (maxInputFrames : Nat)
    (serverVad : Bool) : Machine DuplexSession DuplexSessionAction :=
  (duplexSession sessionId outputSampleRateHz maxInputFrames serverVad).guarded DuplexSession.Orderly

/-- **When closing is final**: in every state of a run that closes in order,
`RealtimeSessionClosed` has been published at most once, and nothing after it. -/
theorem session_closed_finally (sessionId : Bytes) (rate : Int) (maxInputFrames : Nat)
    (serverVad : Bool) (s : DuplexSession)
    (hs : (orderlySession sessionId rate maxInputFrames serverVad).Reachable s) :
    DuplexSession.ClosedFinally s.duplex.events := by
  have hinv : s.Closing := by
    refine Machine.Reachable.rec_inv
      (m := orderlySession sessionId rate maxInputFrames serverVad) (P := DuplexSession.Closing)
      (DuplexSession.Closing.init sessionId rate maxInputFrames serverVad) ?_ hs
    intro s a t _ h hstep
    have hguarded := Machine.guarded_step.mp hstep
    exact h.step hguarded.1 hguarded.2
  exact hinv.last

/-- A response that is heard out, and `close` after it. -/
def heardThenClosed : List DuplexSessionAction :=
  [.duplex (.call (.onProviderEvent { type := .responseStarted, responseId := lit "r" })),
    .duplex (.run 1 true), .duplex (.run 1 true), .duplex (.run 1 true),
    .duplex (.call .close), .duplex (.run 2 true), .work true, .duplex (.run 2 true)]

theorem session_closed_finally_heard :
    ∃ s, (orderlySession (lit "s") 24000 100 true).run
        (orderlySession (lit "s") 24000 100 true).init heardThenClosed = some s ∧
      s.Closed ∧ DuplexSession.ClosedFinally s.duplex.events :=
  ⟨_, rfl, by decide, session_closed_finally (lit "s") 24000 100 true _ ⟨heardThenClosed, rfl⟩⟩

/-- The provider closes, and then the owner does. -/
def closedTwice : List DuplexSessionAction :=
  [.duplex (.call (.onProviderEvent { type := .closed })), .duplex (.run 1 true),
    .duplex (.run 1 true), .duplex (.call .close), .duplex (.run 2 true), .work true,
    .duplex (.run 2 true)]

/-- The player reports the start of the response after the session is closed. -/
def playedAfterClose : List DuplexSessionAction :=
  heardThenClosed ++ [.duplex (.call (.playbackStarted (lit "r"))), .duplex (.run 3 true),
    .duplex (.run 3 true)]

theorem not_closedFinally {events : List Event} (before : List Event) {after : List Event} {e : Event}
    (heq : events = before ++ e :: after) (htype : e.type = .realtimeSessionClosed)
    (hne : after ≠ []) : ¬ DuplexSession.ClosedFinally events :=
  fun h => hne (h before e after heq htype)

/-- `RealtimeSessionClosed` is published twice, or is followed by another event. -/
theorem session_closed_not_finally :
    (∃ s, (duplexSession (lit "s") 24000 100 true).run
        (duplexSession (lit "s") 24000 100 true).init closedTwice = some s ∧
      s.duplex.events.map (·.type) = [.realtimeSessionClosed, .realtimeSessionClosed] ∧
      ¬ DuplexSession.ClosedFinally s.duplex.events) ∧
    ∃ s, (duplexSession (lit "s") 24000 100 true).run
        (duplexSession (lit "s") 24000 100 true).init playedAfterClose = some s ∧
      s.duplex.events.map (·.type) = [.speechStarted, .realtimeSessionClosed, .playbackStarted] ∧
      ¬ DuplexSession.ClosedFinally s.duplex.events := by
  refine ⟨⟨_, rfl, rfl, ?_⟩, _, rfl, rfl, ?_⟩
  · exact not_closedFinally [] rfl rfl (by simp)
  · exact not_closedFinally [_] rfl rfl (by simp)

end ByteTurn

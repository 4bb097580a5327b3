import ByteTurn.Agent.Streaming

/-!
# ByteTurn.Agent.Trace

The events of one call of `run_streaming`, and its cancellation.

The events of a call between its first and its last are those of a `StepsTrace`,
a grammar with one rule for each way a step can end; each piece of the program
meets its part of it.  That starts and completions match, that the tools run in
the order the model listed them, and where the terminal events stand is then read
off the grammar.  That nothing is begun after a poll has answered true is a
relation that each piece keeps.
-/

namespace ByteTurn

open Programs (Within Meets)

/-! ## what a trace is checked for -/

/-- The event ends a turn of the agent. -/
def EventType.endsTurn : EventType → Bool
  | .turnCompleted | .turnCancelled | .turnFailed => true
  | _ => false

/-- The starts that are open, the last one first, after an event.  A completion
closes the last start, which must be of its kind and have its name. -/
def bracket (opened : List (EventType × Bytes)) (event : Event) :
    Option (List (EventType × Bytes)) :=
  match event.type with
  | .modelStarted | .toolStarted => some ((event.type, event.name) :: opened)
  | .modelCompleted =>
      if opened.head? = some (.modelStarted, event.name) then some opened.tail else none
  | .toolCompleted =>
      if opened.head? = some (.toolStarted, event.name) then some opened.tail else none
  | _ => some opened

/-- The starts that a trace leaves open; none when a completion does not match. -/
def openStarts (trace : List Event) : Option (List (EventType × Bytes)) := trace.foldlM bracket []

/-- An event of a kind joins those of the last model call. -/
def addItem (type : EventType) (calls : List (List (Bytes × Bytes))) (event : Event) :
    List (List (Bytes × Bytes)) :=
  if event.type = .modelStarted then calls ++ [[]]
  else if event.type = type then
    calls.dropLast ++ [calls.getLastD [] ++ [(event.name, event.data)]]
  else calls

/-- The names and data of the events of a kind, by model call. -/
def itemsByCall (type : EventType) (trace : List Event) : List (List (Bytes × Bytes)) :=
  trace.foldl (addItem type) []

/-- What the `ToolStarted` events of the tool calls hold. -/
def toolItems (toolCalls : List ToolCall) : List (Bytes × Bytes) :=
  toolCalls.map fun toolCall => (toolCall.name, toolCall.arguments)

/-- The program returned the reply in this state. -/
def Returned (reply : Bytes) (r : EStateM.Result Thrown AgentState Bytes) : Prop :=
  Programs.outcome r = .ok reply

/-! ## the grammar -/

namespace Agent

variable {agent : Agent} {call : AgentCall}

section Grammar

variable (call : AgentCall)

/-- What a thrown exception is reported with, if it is. -/
def ErrorTrace (source : Bytes) (events : List Event) : Prop :=
  events = [] ∨ ∃ what, events = [turnEvent call .error source what]

/-- What a model call streams. -/
def StreamTrace (events : List Event) : Prop :=
  ∀ event ∈ events, event.type = .firstToken ∨ event.type = .modelTextDelta

/-- The events of a model call and the turns it returned, and the turn it went on with. -/
inductive ModelTrace (step : Nat) : Option LlmTurn → List Event → List LlmTurn → Prop
  | completed {events : List Event} {turn : LlmTurn} : StreamTrace events →
      ModelTrace step (some turn)
        (turnEvent call .modelStarted (decimal step) [] :: events ++
          [turnEvent call .modelCompleted (decimal step) turn.text]) [turn]
  | dropped {events : List Event} {turn : LlmTurn} : StreamTrace events →
      ModelTrace step none (turnEvent call .modelStarted (decimal step) [] :: events) [turn]
  | failed {events errors : List Event} : StreamTrace events →
      ErrorTrace call (lit "llm") errors →
      ModelTrace step none
        (turnEvent call .modelStarted (decimal step) [] :: events ++ errors) []

/-- The events of the tool calls of a model turn, and whether all of them completed. -/
inductive ToolTrace : List ToolCall → Bool → List Event → Prop
  | done : ToolTrace [] true []
  | completed {toolCall : ToolCall} {rest : List ToolCall} {all : Bool} {events : List Event}
      (result : Bytes) : ToolTrace rest all events →
      ToolTrace (toolCall :: rest) all
        (turnEvent call .toolStarted toolCall.name toolCall.arguments ::
          turnEvent call .toolCompleted toolCall.name result :: events)
  | failed {toolCall : ToolCall} {rest : List ToolCall} {errors : List Event} :
      ErrorTrace call (lit "tool") errors →
      ToolTrace (toolCall :: rest) false
        (turnEvent call .toolStarted toolCall.name toolCall.arguments :: errors)

/-- How the loop over the steps ends. -/
inductive TurnEnd where
  | completed (turn : LlmTurn)
  | stepLimit
  | thrown

/-- The events of the loop over the steps up to its terminal event, and the turns
the model returned. -/
inductive StepsTrace : Nat → TurnEnd → List Event → List LlmTurn → Prop
  | stepLimit {step : Nat} (text : Bytes) :
      StepsTrace step .stepLimit [turnEvent call .error (lit "step_limit") text] []
  | cancelled {step : Nat} : StepsTrace step .thrown [] []
  | failed {step : Nat} {events : List Event} {turns : List LlmTurn} :
      ModelTrace call step none events turns → StepsTrace step .thrown events turns
  | completed {step : Nat} {turn : LlmTurn} {events : List Event} {turns : List LlmTurn} :
      ModelTrace call step (some turn) events turns → turn.toolCalls = [] →
      StepsTrace step (.completed turn) events turns
  | toolFailed {step : Nat} {turn : LlmTurn} {events tools : List Event} {turns : List LlmTurn} :
      ModelTrace call step (some turn) events turns → ToolTrace call turn.toolCalls false tools →
      StepsTrace step .thrown (events ++ tools) turns
  | next {step : Nat} {turn : LlmTurn} {last : TurnEnd} {events tools rest : List Event}
      {turns later : List LlmTurn} :
      ModelTrace call step (some turn) events turns → turn.toolCalls ≠ [] →
      ToolTrace call turn.toolCalls true tools → StepsTrace (step + 1) last rest later →
      StepsTrace step last (events ++ tools ++ rest) (turns ++ later)

end Grammar

/-! ## the program meets it -/

/-- The events and the returned turns have been added. -/
def Added (events : List Event) (turns : List LlmTurn) (s t : AgentState) : Prop :=
  t.trace = s.trace ++ events ∧ t.returned = s.returned ++ turns

/-- A step that touches neither trace nor turns adds nothing. -/
theorem Added.of_same {s t : AgentState} (htrace : t.trace = s.trace)
    (hreturned : t.returned = s.returned) : Added [] [] s t :=
  ⟨by rw [htrace, List.append_nil], by rw [hreturned, List.append_nil]⟩

/-- What two steps add, one after the other. -/
theorem Added.trans {events events' : List Event} {turns turns' : List LlmTurn}
    {s t u : AgentState} (hst : Added events turns s t) (htu : Added events' turns' t u) :
    Added (events ++ events') (turns ++ turns') s u := by
  refine ⟨?_, ?_⟩
  · rw [htu.1, hst.1, List.append_assoc]
  · rw [htu.2, hst.2, List.append_assoc]

/-- Nothing has been added. -/
def Silent (s t : AgentState) : Prop := Added [] [] s t

/-- A poll is silent. -/
theorem Silent.polled (s : AgentState) : Silent s (polled call s) := by
  unfold Agent.polled
  split
  · exact .of_same rfl rfl
  · exact .of_same rfl rfl

/-- A call of a handler adds nothing. -/
theorem Silent.handlerSide : HandlerSide call Silent where
  refl _ := .of_same rfl rfl
  trans _ _ _ := Added.trans
  polled := .polled
  handlerBegun s _ := Added.trans (Silent.polled s) (.of_same rfl rfl)

/-- An event is added, and nothing else. -/
theorem emit_adds (type : EventType) (name data : Bytes) :
    Meets (fun s r t => r = .ok () ∧ Added [turnEvent call type name data] [] s t)
      (emit call type name data) :=
  fun _ => ⟨rfl, rfl, (List.append_nil _).symm⟩

/-- A message adds no event. -/
theorem push_adds (message : Message) :
    Meets (fun s r t => r = .ok () ∧ Silent s t) (push message) :=
  fun _ => ⟨rfl, .of_same rfl rfl⟩

/-- Nor does a check. -/
theorem checkCancelled_adds : Meets (fun s _ t => Silent s t) (checkCancelled call) :=
  Silent.handlerSide.checkCancelled

/-- An error is reported once or not at all, and thrown again. -/
theorem reportAndRethrow_adds {α : Type} (source : Bytes) (error : Thrown) :
    Meets (fun s r t => (∃ e, r = .error e) ∧ ∃ errors, ErrorTrace call source errors ∧
      Added errors [] s t) (reportAndRethrow (α := α) call source error) := by
  intro s
  unfold reportAndRethrow
  split
  · exact ⟨⟨error, rfl⟩, _, .inr ⟨error.what, rfl⟩, rfl, (List.append_nil _).symm⟩
  · exact ⟨⟨error, rfl⟩, [], .inl rfl, .of_same rfl rfl⟩

/-- A tool call starts, and completes unless it throws. -/
def ToolCallAdds (call : AgentCall) (toolCall : ToolCall) (s : AgentState)
    (r : Except Thrown Bytes) (t : AgentState) : Prop :=
  match r with
  | .ok result => Added [turnEvent call .toolStarted toolCall.name toolCall.arguments,
      turnEvent call .toolCompleted toolCall.name result] [] s t
  | .error _ => ∃ errors, ErrorTrace call (lit "tool") errors ∧
      Added (turnEvent call .toolStarted toolCall.name toolCall.arguments :: errors) [] s t

/-- A tool call adds its start and, if it returns, its completion. -/
theorem callTool_adds (toolCall : ToolCall) :
    Meets (ToolCallAdds call toolCall) (callTool agent call toolCall) := by
  have hinvoke : Meets (fun s r t => match r with
      | .ok _ => Silent s t
      | .error _ => ∃ errors, ErrorTrace call (lit "tool") errors ∧ Added errors [] s t)
      (tryCatch (invoke agent call toolCall.name toolCall.arguments)
        (reportAndRethrow call (lit "tool"))) := by
    refine .tryCatch (Silent.handlerSide.invoke _ _).meets (reportAndRethrow_adds _)
      (fun _ _ _ h => h) ?_
    rintro s e t r u hsilent ⟨⟨e', rfl⟩, errors, herrors, hadded⟩
    exact ⟨errors, herrors, Added.trans hsilent hadded⟩
  have hend : ∀ result, Meets (fun s r t => r = .ok result ∧
      Added [turnEvent call .toolCompleted toolCall.name result] [] s t)
      (emit call .toolCompleted toolCall.name result >>= fun _ => pure result) :=
    fun _ _ => ⟨rfl, rfl, (List.append_nil _).symm⟩
  refine .bind (emit_adds _ _ _) (fun _ => .bind hinvoke hend ?_ ?_) ?_ ?_
    (Q := fun _ s r t => match r with
      | .ok result => Added [turnEvent call .toolCompleted toolCall.name result] [] s t
      | .error _ => ∃ errors, ErrorTrace call (lit "tool") errors ∧ Added errors [] s t)
  · exact fun _ _ _ h => h
  · rintro s result t r u hsilent ⟨rfl, hadded⟩
    exact Added.trans hsilent hadded
  · rintro s e t ⟨h, -⟩
    cases h
  · rintro s ⟨⟩ t r u ⟨-, hstarted⟩ hrest
    cases r with
    | ok result => exact hstarted.trans hrest
    | error e =>
        obtain ⟨errors, herrors, hadded⟩ := hrest
        exact ⟨errors, herrors, hstarted.trans hadded⟩

/-- The tool calls of a turn, all of them unless one throws. -/
def ToolsAdd (call : AgentCall) (toolCalls : List ToolCall) (s : AgentState)
    (r : Except Thrown Unit) (t : AgentState) : Prop :=
  ∃ events, ToolTrace call toolCalls r.isOk events ∧ Added events [] s t

/-- The tool calls of a turn add theirs in order, up to one that throws. -/
theorem runTools_adds (toolCalls : List ToolCall) :
    Meets (ToolsAdd call toolCalls) (runTools agent call toolCalls) := by
  induction toolCalls with
  | nil => exact fun s => ⟨[], .done, .of_same rfl rfl⟩
  | cons toolCall rest ih =>
      refine .bind (callTool_adds toolCall) (fun result => .bind (push_adds _) (fun _ => ih) ?_ ?_)
        ?_ ?_ (Q := fun _ => ToolsAdd call rest)
      · rintro s e t ⟨h, -⟩
        cases h
      · rintro s ⟨⟩ t r u ⟨-, hsilent⟩ ⟨events, htrace, hadded⟩
        exact ⟨events, htrace, Added.trans hsilent hadded⟩
      · rintro s e t ⟨errors, herrors, hadded⟩
        exact ⟨_, .failed herrors, hadded⟩
      · rintro s result t r u hcall ⟨events, htrace, hadded⟩
        exact ⟨_, .completed result htrace, Added.trans hcall hadded⟩

/-- Only stream events have been added. -/
def Streamed (s t : AgentState) : Prop := ∃ events, StreamTrace events ∧ Added events [] s t

/-- A silent step streams nothing. -/
theorem Streamed.of_silent {s t : AgentState} (h : Silent s t) : Streamed s t := ⟨[], nofun, h⟩

/-- Two streams, one after the other. -/
theorem Streamed.trans (s t u : AgentState) (hst : Streamed s t) (htu : Streamed t u) :
    Streamed s u := by
  obtain ⟨events, hevents, hadded⟩ := hst
  obtain ⟨events', hevents', hadded'⟩ := htu
  refine ⟨events ++ events', fun event hevent => ?_, hadded.trans hadded'⟩
  exact (List.mem_append.mp hevent).elim (hevents event) (hevents' event)

/-- The first token and the deltas are streamed. -/
theorem Streamed.emitted {type : EventType} (name data : Bytes) (s : AgentState)
    (htype : type = .firstToken ∨ type = .modelTextDelta) :
    Streamed s (emitted call type name data s) := by
  refine ⟨[turnEvent call type name data], fun event hevent => ?_, rfl, (List.append_nil _).symm⟩
  rw [List.mem_singleton.mp hevent]
  exact htype

/-- A poll between deltas streams nothing itself. -/
theorem poll_streams {α : Type} {f : Bool → AgentM α} (hf : ∀ stop, Within Streamed (f stop)) :
    Within Streamed (poll call >>= f) := by
  intro s
  rw [poll_bind_run]
  exact Streamed.trans _ _ _ (.of_silent (Silent.polled s)) (hf _ _)

/-- A delta streams its event or nothing. -/
theorem textDelta_streams (step : Nat) (received : Bool) (delta : Bytes) :
    Within Streamed (textDelta call step received delta) := by
  have hnothing : ∀ s, Streamed s s := fun s => .of_silent (.of_same rfl rfl)
  refine poll_streams fun stop => ?_
  split
  · exact .pure hnothing _
  · split
    · exact .pure hnothing _
    · have hpassed : Within Streamed (do
          emit call .modelTextDelta (decimal step) delta
          let accepted ← callSink call delta
          pure (accepted, true)) := fun s => Streamed.emitted _ delta s (.inr rfl)
      cases received with
      | true => exact hpassed
      | false =>
          exact .bind Streamed.trans (fun s => Streamed.emitted _ [] s (.inl rfl)) fun _ => hpassed

/-- By induction on the call. -/
theorem stream_streams (step : Nat) (script : LlmScript) (received : Bool) :
    Within Streamed (stream call step script received) := by
  have hnothing : ∀ s, Streamed s s := fun s => .of_silent (.of_same rfl rfl)
  induction script generalizing received with
  | ret turn => exact .pure hnothing _
  | throw error => exact .throw hnothing _
  | delta text next ih =>
      exact .bind Streamed.trans (textDelta_streams _ _ _) fun answer => ih answer.1 answer.2
  | poll next ih => exact poll_streams fun stop => ih stop received

/-- A model call, and the turn it goes on with if it does not throw. -/
def ModelAdds (call : AgentCall) (step : Nat) (s : AgentState) (r : Except Thrown LlmTurn)
    (t : AgentState) : Prop :=
  ∃ events turns, ModelTrace call step r.toOption events turns ∧ Added events turns s t

/-- A model call adds its start, its stream and, if it returns, its completion. -/
theorem callModel_adds (step : Nat) :
    Meets (ModelAdds call step) (callModel agent call step) := by
  -- the call itself: what it streams, and the report of what it throws
  have hcall : ∀ script, Meets (fun s r t => match r with
      | .ok _ => Streamed s t
      | .error _ => ∃ events errors, StreamTrace events ∧ ErrorTrace call (lit "llm") errors ∧
          Added (events ++ errors) [] s t)
      (tryCatch (stream call step script false) (reportAndRethrow call (lit "llm"))) := by
    intro script
    refine .tryCatch (stream_streams step script false).meets (reportAndRethrow_adds _)
      (fun _ _ _ h => h) ?_
    rintro s e t r u ⟨events, hevents, hadded⟩ ⟨⟨e', rfl⟩, errors, herrors, hreported⟩
    exact ⟨events, errors, hevents, herrors, hadded.trans hreported⟩
  -- what follows the turn it returned
  have hend : ∀ turn : LlmTurn, Meets (fun s r t => match r with
      | .ok turn' => turn' = turn ∧
          Added [turnEvent call .modelCompleted (decimal step) turn.text] [] s t
      | .error _ => Silent s t)
      (do
        if !turn.complete then throw { what := lit "incomplete LLM stream" }
        emit call .modelCompleted (decimal step) turn.text
        pure turn) := by
    intro turn s
    cases turn.complete with
    | true => exact ⟨rfl, rfl, (List.append_nil _).symm⟩
    | false => exact .of_same rfl rfl
  have hcheck : ∀ turn : LlmTurn, Meets (fun s r t => match r with
      | .ok turn' => turn' = turn ∧
          Added [turnEvent call .modelCompleted (decimal step) turn.text] [turn] s t
      | .error _ => Added [] [turn] s t)
      (do
        modify fun s => { s with returned := s.returned ++ [turn] }
        checkCancelled call
        if !turn.complete then throw { what := lit "incomplete LLM stream" }
        emit call .modelCompleted (decimal step) turn.text
        pure turn) := by
    intro turn s
    refine Meets.bind (@checkCancelled_adds call) (fun _ => hend turn)
      (N := fun s' r t => Added [] [turn] s s' → match r with
        | .ok turn' => turn' = turn ∧
            Added [turnEvent call .modelCompleted (decimal step) turn.text] [turn] s t
        | .error _ => Added [] [turn] s t) ?_ ?_ { s with returned := s.returned ++ [turn] }
      ⟨(List.append_nil _).symm, rfl⟩
    · intro s' e t hsilent hreturned
      exact hreturned.trans hsilent
    · intro s' _ t r u hsilent hlater hreturned
      cases r with
      | ok turn' => exact ⟨hlater.1, hreturned.trans (Added.trans hsilent hlater.2)⟩
      | error e => exact hreturned.trans (Added.trans hsilent hlater)
  have hbegun : ∀ s, Added [turnEvent call .modelStarted (decimal step) []] [] s
      (modelBegun call step s) := fun s => ⟨rfl, (List.append_nil _).symm⟩
  intro s
  refine Meets.bind (hcall (agent.llm s.llmCalls s.history)) hcheck
    (N := fun s' r t => Added [turnEvent call .modelStarted (decimal step) []] [] s s' →
      ModelAdds call step s r t) ?_ ?_ (modelBegun call step s) (hbegun s)
  · rintro s' e t ⟨events, errors, hevents, herrors, hadded⟩ hstarted
    exact ⟨_, [], .failed hevents herrors, hstarted.trans hadded⟩
  · rintro s' turn t r u ⟨events, hevents, hadded⟩ hlater hstarted
    cases r with
    | ok turn' =>
        obtain ⟨rfl, hlater⟩ := hlater
        exact ⟨_, _, .completed hevents, hstarted.trans (hadded.trans hlater)⟩
    | error e =>
        refine ⟨_, [turn], .dropped hevents, ?_⟩
        have hall := hstarted.trans (hadded.trans hlater)
        rw [List.append_nil] at hall
        exact hall

/-- The loop over the steps and its terminal event, which a loop that throws
leaves to the call. -/
def StepsAdd (call : AgentCall) (step : Nat) (s : AgentState) (r : Except Thrown Bytes)
    (t : AgentState) : Prop :=
  ∃ last events turns, StepsTrace call step last events turns ∧
    match last, r with
    | .completed turn, .ok reply => reply = turn.text ∧
        Added (events ++ [turnEvent call .turnCompleted [] turn.text]) turns s t
    | .stepLimit, .ok _ =>
        Added (events ++ [turnEvent call .turnFailed (lit "step_limit") []]) turns s t
    | .thrown, .error _ => Added events turns s t
    | _, _ => False

/-- A silent step before the loop adds nothing to it. -/
theorem StepsAdd.silent {step : Nat} {r : Except Thrown Bytes} {s t u : AgentState}
    (hst : Silent s t) (h : StepsAdd call step t r u) : StepsAdd call step s r u := by
  obtain ⟨last, events, turns, htrace, hend⟩ := h
  refine ⟨last, events, turns, htrace, ?_⟩
  cases last with
  | completed turn =>
      cases r with
      | ok reply => exact ⟨hend.1, Added.trans hst hend.2⟩
      | error e => exact hend
  | stepLimit =>
      cases r with
      | ok reply => exact Added.trans hst hend
      | error e => exact hend
  | thrown =>
      cases r with
      | ok reply => exact hend
      | error e => exact Added.trans hst hend

/-- A step whose tools all completed, before a loop. -/
theorem StepsAdd.next {step : Nat} {turn : LlmTurn} {events tools : List Event}
    {turns : List LlmTurn} {r : Except Thrown Bytes} {s t u : AgentState}
    (hmodel : ModelTrace call step (some turn) events turns) (hne : turn.toolCalls ≠ [])
    (htools : ToolTrace call turn.toolCalls true tools) (hst : Added (events ++ tools) turns s t)
    (h : StepsAdd call (step + 1) t r u) : StepsAdd call step s r u := by
  obtain ⟨last, rest, later, htrace, hend⟩ := h
  refine ⟨last, events ++ tools ++ rest, turns ++ later, .next hmodel hne htools htrace, ?_⟩
  cases last with
  | completed turn =>
      cases r with
      | ok reply =>
          refine ⟨hend.1, ?_⟩
          rw [List.append_assoc]
          exact hst.trans hend.2
      | error e => exact hend
  | stepLimit =>
      cases r with
      | ok reply =>
          show Added _ _ s u
          rw [List.append_assoc]
          exact hst.trans hend
      | error e => exact hend
  | thrown =>
      cases r with
      | ok reply => exact hend
      | error e => exact hst.trans hend

/-- After a model call that added `events` and `turns`, the loop is met. -/
def StepsFrom (call : AgentCall) (step : Nat) (turn : LlmTurn) (s : AgentState)
    (r : Except Thrown Bytes) (t : AgentState) : Prop :=
  ∀ s₀ events turns, ModelTrace call step (some turn) events turns → Added events turns s₀ s →
    StepsAdd call step s₀ r t

/-- What a step does with the turn the model returned. -/
theorem finishStep_adds {step left : Nat} (turn : LlmTurn)
    (ih : Meets (StepsAdd call (step + 1)) (runSteps agent call left)) :
    Meets (StepsFrom call step turn)
      (do
        push (assistantMessage turn.text turn.toolCalls)
        if turn.toolCalls = [] then
          emit call .turnCompleted [] turn.text
          pure turn.text
        else
          runTools agent call turn.toolCalls
          runSteps agent call left) := by
  have hbranch : Meets (StepsFrom call step turn)
      (if turn.toolCalls = [] then do
        emit call .turnCompleted [] turn.text
        pure turn.text
      else do
        runTools agent call turn.toolCalls
        runSteps agent call left) := by
    split
    · next hnone =>
      -- no tool was called: the text ends the turn
      intro s s₀ events turns hmodel hadded
      have hend := hadded.trans (@emit_adds call .turnCompleted [] turn.text s).2
      rw [List.append_nil] at hend
      exact ⟨.completed turn, events, turns, .completed hmodel hnone, rfl, hend⟩
    · next hne =>
      refine .bind (runTools_adds _) (fun _ => ih) ?_ ?_
      · rintro s e t ⟨tools, htrace, hadded⟩ s₀ events turns hmodel hbefore
        have hall := hbefore.trans hadded
        rw [List.append_nil] at hall
        exact ⟨.thrown, _, _, .toolFailed hmodel htrace, hall⟩
      · rintro s ⟨⟩ t r u ⟨tools, htrace, hadded⟩ hrest s₀ events turns hmodel hbefore
        have hall := hbefore.trans hadded
        rw [List.append_nil] at hall
        exact .next hmodel hne htrace hall hrest
  refine .bind (push_adds _) (fun _ => hbranch) ?_ ?_
  · rintro s e t ⟨h, -⟩
    cases h
  · rintro s ⟨⟩ t r u ⟨-, hsilent⟩ hrest s₀ events turns hmodel hbefore
    refine hrest s₀ events turns hmodel ?_
    have hall := hbefore.trans hsilent
    rw [List.append_nil, List.append_nil] at hall
    exact hall

/-- A check before the loop, and whatever is silent. -/
theorem StepsAdd.after_check {step : Nat} {x : AgentM Bytes} (hx : Meets (StepsAdd call step) x) :
    Meets (StepsAdd call step) (checkCancelled call >>= fun _ => x) := by
  refine .bind checkCancelled_adds (fun _ => hx) ?_ ?_
  · exact fun s e t hsilent => ⟨.thrown, [], [], .cancelled, hsilent⟩
  · exact fun s _ t r u hsilent hrest => hrest.silent hsilent

/-- By induction on the steps left. -/
theorem runSteps_adds {left : Nat} (hleft : left ≤ agent.maxSteps) :
    Meets (StepsAdd call (agent.maxSteps - left)) (runSteps agent call left) := by
  induction left with
  | zero =>
      intro s
      refine ⟨.stepLimit, _, [], .stepLimit stepLimitText, ?_⟩
      exact ⟨List.append_assoc _ _ _, (List.append_nil _).symm⟩
  | succ left ih =>
      have hstep : agent.maxSteps - left = agent.maxSteps - (left + 1) + 1 := by omega
      have hlater := ih (by omega)
      rw [hstep] at hlater
      refine StepsAdd.after_check (.bind (callModel_adds _)
        (fun turn => finishStep_adds turn hlater) ?_ ?_)
      · rintro s e t ⟨events, turns, htrace, hadded⟩
        exact ⟨.thrown, events, turns, .failed htrace, hadded⟩
      · rintro s turn t r u ⟨events, turns, htrace, hadded⟩ hrest
        exact hrest s events turns htrace hadded

/-- The `try` block adds the steps of the loop. -/
theorem runTurn_adds : Meets (StepsAdd call 0) (runTurn agent call) := by
  have hsteps : Meets (StepsAdd call (agent.maxSteps - agent.maxSteps))
      (runSteps agent call agent.maxSteps) := runSteps_adds (Nat.le_refl _)
  rw [Nat.sub_self] at hsteps
  refine StepsAdd.after_check (.bind (push_adds _) (fun _ => hsteps) ?_ ?_)
  · rintro s e t ⟨h, -⟩
    cases h
  · exact fun s _ t r u hpushed hrest => hrest.silent hpushed.2

/-- The terminal event of a call, by how its loop ended and what it returned. -/
def Terminal (call : AgentCall) (last : TurnEnd) (r : Except Thrown Bytes) (terminal : Event) :
    Prop :=
  match last, r with
  | .completed turn, .ok reply =>
      reply = turn.text ∧ terminal = turnEvent call .turnCompleted [] turn.text
  | .stepLimit, .ok _ => terminal = turnEvent call .turnFailed (lit "step_limit") []
  | .thrown, .error _ => terminal = turnEvent call .turnCancelled [] [] ∨
      terminal = turnEvent call .turnFailed [] []
  | _, _ => False

/-- A call: its first event, those of the loop, and the terminal one. -/
def CallAdds (call : AgentCall) (s : AgentState) (r : Except Thrown Bytes) (t : AgentState) :
    Prop :=
  ∃ last events turns terminal, StepsTrace call 0 last events turns ∧
    Added (turnEvent call .turnStarted [] [] :: events ++ [terminal]) turns s t ∧
    Terminal call last r terminal

/-- The `catch` block adds one terminal event. -/
theorem rollBack_adds (historyCheckpoint : Nat) (error : Thrown) :
    Meets (fun s r t => r = .error error ∧ ∃ terminal, Added [terminal] [] s t ∧
      (terminal = turnEvent call .turnCancelled [] [] ∨ terminal = turnEvent call .turnFailed [] []))
      (rollBack call historyCheckpoint error) := by
  intro s
  have hrun : (rollBack call historyCheckpoint error).run s =
      (poll call >>= fun stop => do
        emit call (if stop then .turnCancelled else .turnFailed) [] []
        throw error : AgentM Bytes).run { s with history := s.history.take historyCheckpoint } := rfl
  rw [hrun, poll_bind_run]
  have hpolled : Silent s (polled call { s with history := s.history.take historyCheckpoint }) :=
    Added.trans (.of_same rfl rfl) (Silent.polled _)
  refine ⟨rfl, turnEvent call (if call.answer s.polls then .turnCancelled else .turnFailed) [] [],
    Added.trans hpolled ⟨rfl, (List.append_nil _).symm⟩, ?_⟩
  cases call.answer s.polls with
  | true => exact .inl rfl
  | false => exact .inr rfl

/-- A call adds its start, what is inside it, and one terminal event. -/
theorem runStreaming_adds : Meets (CallAdds call) (runStreaming agent call) := by
  intro s
  refine Meets.tryCatch (@runTurn_adds agent call) (@rollBack_adds call s.history.length)
    (N := fun s' r t => Added [turnEvent call .turnStarted [] []] [] s s' → CallAdds call s r t)
    ?_ ?_ (emitted call .turnStarted [] [] s) ⟨rfl, (List.append_nil _).symm⟩
  · rintro s' reply t ⟨last, events, turns, htrace, hend⟩ hstarted
    cases last with
    | completed turn =>
        exact ⟨.completed turn, events, turns, _, htrace, hstarted.trans hend.2, hend.1, rfl⟩
    | stepLimit => exact ⟨.stepLimit, events, turns, _, htrace, hstarted.trans hend, rfl⟩
    | thrown => cases hend
  · rintro s' e t r u ⟨last, events, turns, htrace, hend⟩ ⟨rfl, terminal, hrolled, hterminal⟩ hstarted
    cases last with
    | completed turn => cases hend
    | stepLimit => cases hend
    | thrown =>
        have hall := (hstarted.trans hend).trans hrolled
        rw [List.append_nil] at hall
        exact ⟨.thrown, events, turns, terminal, htrace, hall, hterminal⟩

/-! ## what the grammar says -/

/-- The event neither begins nor ends the turn. -/
def Inner (event : Event) : Prop := event.type.endsTurn = false ∧ event.type ≠ .turnStarted

/-- What is streamed neither starts nor ends a turn. -/
theorem StreamTrace.inner {events : List Event} (h : StreamTrace events) :
    ∀ event ∈ events, Inner event := by
  intro event hevent
  rcases h event hevent with htype | htype <;> simp [Inner, htype, EventType.endsTurn]

/-- Nor does the report of an error. -/
theorem ErrorTrace.inner {source : Bytes} {events : List Event} (h : ErrorTrace call source events) :
    ∀ event ∈ events, Inner event := by
  obtain rfl | ⟨what, rfl⟩ := h
  · exact nofun
  · intro event hevent
    rw [List.mem_singleton.mp hevent]
    exact ⟨rfl, nofun⟩

/-- Nor does a model call. -/
theorem ModelTrace.inner {step : Nat} {turn : Option LlmTurn} {events : List Event}
    {turns : List LlmTurn} (h : ModelTrace call step turn events turns) :
    ∀ event ∈ events, Inner event := by
  cases h with
  | completed hstream =>
      simp only [List.cons_append, List.forall_mem_cons, List.forall_mem_append]
      exact ⟨⟨rfl, nofun⟩, hstream.inner, ⟨rfl, nofun⟩, nofun⟩
  | dropped hstream =>
      simp only [List.forall_mem_cons]
      exact ⟨⟨rfl, nofun⟩, hstream.inner⟩
  | failed hstream herrors =>
      simp only [List.cons_append, List.forall_mem_cons, List.forall_mem_append]
      exact ⟨⟨rfl, nofun⟩, hstream.inner, herrors.inner⟩

/-- Nor do the tool calls. -/
theorem ToolTrace.inner {toolCalls : List ToolCall} {all : Bool} {events : List Event}
    (h : ToolTrace call toolCalls all events) : ∀ event ∈ events, Inner event := by
  induction h with
  | done => exact nofun
  | completed result _ ih =>
      simp only [List.forall_mem_cons]
      exact ⟨⟨rfl, nofun⟩, ⟨rfl, nofun⟩, ih⟩
  | failed herrors =>
      simp only [List.forall_mem_cons]
      exact ⟨⟨rfl, nofun⟩, herrors.inner⟩

/-- Nor do the steps of the loop. -/
theorem StepsTrace.inner {step : Nat} {last : TurnEnd} {events : List Event}
    {turns : List LlmTurn} (h : StepsTrace call step last events turns) :
    ∀ event ∈ events, Inner event := by
  induction h with
  | stepLimit text =>
      simp only [List.forall_mem_cons]
      exact ⟨⟨rfl, nofun⟩, nofun⟩
  | cancelled => exact nofun
  | failed hmodel => exact hmodel.inner
  | completed hmodel _ => exact hmodel.inner
  | toolFailed hmodel htools =>
      simp only [List.forall_mem_append]
      exact ⟨hmodel.inner, htools.inner⟩
  | next hmodel _ htools _ ih =>
      simp only [List.forall_mem_append]
      exact ⟨⟨hmodel.inner, htools.inner⟩, ih⟩

/-- The last turn of a loop that did not throw: only a completed one has no tool calls. -/
theorem StepsTrace.last_turn {step : Nat} {last : TurnEnd} {events : List Event}
    {turns : List LlmTurn} (h : StepsTrace call step last events turns) :
    match last with
    | .completed turn => turns.getLast? = some turn ∧ turn.toolCalls = []
    | .stepLimit => ∀ turn ∈ turns, turn.toolCalls ≠ []
    | .thrown => True := by
  induction h with
  | stepLimit text => exact nofun
  | cancelled => trivial
  | failed _ => trivial
  | completed hmodel hnone =>
      cases hmodel
      exact ⟨rfl, hnone⟩
  | toolFailed _ _ => trivial
  | @next step turn last events tools rest turns later hmodel hne htools _ ih =>
      cases hmodel
      cases last with
      | completed turn =>
          refine ⟨?_, ih.2⟩
          rw [List.getLast?_append, ih.1]
          rfl
      | stepLimit =>
          simp only [List.singleton_append, List.forall_mem_cons]
          exact ⟨hne, ih⟩
      | thrown => trivial

/-- The terminal event is `TurnCompleted` when the text of the last turn is returned. -/
theorem Terminal.completed_iff {last : TurnEnd} {events : List Event} {turns : List LlmTurn}
    {r : Except Thrown Bytes} {terminal : Event} (h : Terminal call last r terminal)
    {step : Nat} (htrace : StepsTrace call step last events turns) :
    terminal.type = .turnCompleted ↔
      ∃ turn, turns.getLast? = some turn ∧ turn.toolCalls = [] ∧ r = .ok turn.text := by
  have hlast := htrace.last_turn
  cases last with
  | completed turn =>
      cases r with
      | ok reply =>
          obtain ⟨rfl, rfl⟩ := h
          exact ⟨fun _ => ⟨turn, hlast.1, hlast.2, rfl⟩, fun _ => rfl⟩
      | error e => cases h
  | stepLimit =>
      cases r with
      | ok reply =>
          obtain rfl := h
          refine ⟨nofun, ?_⟩
          rintro ⟨turn, hturn, hnone, -⟩
          exact absurd hnone (hlast turn (List.mem_of_getLast? hturn))
      | error e => cases h
  | thrown =>
      cases r with
      | ok reply => cases h
      | error e =>
          refine ⟨fun hcompleted => ?_, nofun⟩
          obtain rfl | rfl := h <;> cases hcompleted

/-- The terminal event ends the turn, and is `TurnCompleted` only if the loop did not throw. -/
theorem Terminal.ends {last : TurnEnd} {r : Except Thrown Bytes} {terminal : Event}
    (h : Terminal call last r terminal) :
    terminal.type.endsTurn = true ∧ (terminal.type = .turnCompleted → last ≠ .thrown) := by
  cases last with
  | completed turn =>
      cases r with
      | ok reply =>
          obtain ⟨rfl, rfl⟩ := h
          exact ⟨rfl, fun _ => nofun⟩
      | error e => cases h
  | stepLimit =>
      cases r with
      | ok reply =>
          obtain rfl := h
          exact ⟨rfl, fun _ => nofun⟩
      | error e => cases h
  | thrown =>
      cases r with
      | ok reply => cases h
      | error e =>
          obtain rfl | rfl := h
          · exact ⟨rfl, nofun⟩
          · exact ⟨rfl, nofun⟩

/-! ### starts and completions -/

/-- What is streamed opens and closes nothing. -/
theorem StreamTrace.bracket {events : List Event} (h : StreamTrace events)
    (opened : List (EventType × Bytes)) : events.foldlM bracket opened = some opened := by
  induction events with
  | nil => rfl
  | cons event rest ih =>
      have hevent : ByteTurn.bracket opened event = some opened := by
        rcases h event List.mem_cons_self with htype | htype <;> simp [ByteTurn.bracket, htype]
      rw [List.foldlM_cons, hevent]
      exact ih fun e he => h e (List.mem_cons_of_mem _ he)

/-- Nor does the report of an error. -/
theorem ErrorTrace.bracket {source : Bytes} {events : List Event}
    (h : ErrorTrace call source events) (opened : List (EventType × Bytes)) :
    events.foldlM bracket opened = some opened := by
  obtain rfl | ⟨what, rfl⟩ := h <;> rfl

/-- A model call closes its start if it returns. -/
theorem ModelTrace.bracket {step : Nat} {turn : Option LlmTurn} {events : List Event}
    {turns : List LlmTurn} (h : ModelTrace call step turn events turns)
    (opened : List (EventType × Bytes)) :
    events.foldlM bracket opened = some (if turn.isSome then opened
      else (.modelStarted, decimal step) :: opened) := by
  cases h with
  | completed hstream =>
      rw [List.cons_append, List.foldlM_cons]
      show List.foldlM ByteTurn.bracket ((.modelStarted, decimal step) :: opened) _ = _
      rw [List.foldlM_append, hstream.bracket]
      simp [ByteTurn.bracket, turnEvent]
  | dropped hstream =>
      rw [List.foldlM_cons]
      exact hstream.bracket _
  | failed hstream herrors =>
      rw [List.cons_append, List.foldlM_cons]
      show List.foldlM ByteTurn.bracket ((.modelStarted, decimal step) :: opened) _ = _
      rw [List.foldlM_append, hstream.bracket]
      exact herrors.bracket _

/-- So does each tool call; all are closed if all return. -/
theorem ToolTrace.bracket {toolCalls : List ToolCall} {all : Bool} {events : List Event}
    (h : ToolTrace call toolCalls all events) (opened : List (EventType × Bytes)) :
    ∃ opened', events.foldlM bracket opened = some opened' ∧ (all = true → opened' = opened) := by
  induction h with
  | done => exact ⟨opened, rfl, fun _ => rfl⟩
  | @completed toolCall rest all events result _ ih =>
      rw [List.foldlM_cons]
      show ∃ opened', (List.foldlM ByteTurn.bracket ((.toolStarted, toolCall.name) :: opened)
        (_ :: events)) = some opened' ∧ _
      rw [List.foldlM_cons]
      simpa [ByteTurn.bracket, turnEvent] using ih
  | failed herrors =>
      rw [List.foldlM_cons]
      exact ⟨_, herrors.bracket _, nofun⟩

/-- Every completion of a loop closes the last open start, and a loop that did
not throw leaves none open. -/
theorem StepsTrace.bracket {step : Nat} {last : TurnEnd} {events : List Event}
    {turns : List LlmTurn} (h : StepsTrace call step last events turns)
    (opened : List (EventType × Bytes)) :
    ∃ opened', events.foldlM bracket opened = some opened' ∧
      (last ≠ .thrown → opened' = opened) := by
  induction h with
  | stepLimit text => exact ⟨opened, rfl, fun _ => rfl⟩
  | cancelled => exact ⟨opened, rfl, fun _ => rfl⟩
  | failed hmodel => exact ⟨_, hmodel.bracket opened, fun h => absurd rfl h⟩
  | completed hmodel _ => exact ⟨_, hmodel.bracket opened, fun _ => rfl⟩
  | toolFailed hmodel htools =>
      obtain ⟨opened', htool, -⟩ := htools.bracket opened
      rw [List.foldlM_append, hmodel.bracket opened]
      exact ⟨opened', htool, fun h => absurd rfl h⟩
  | next hmodel _ htools _ ih =>
      obtain ⟨opened', htool, hall⟩ := htools.bracket opened
      rw [hall rfl] at htool
      rw [List.append_assoc, List.foldlM_append, hmodel.bracket opened]
      show ∃ opened', List.foldlM ByteTurn.bracket opened _ = some opened' ∧ _
      rw [List.foldlM_append, htool]
      exact ih

/-! ### the order of the tools -/

/-- What is streamed starts no tool. -/
theorem StreamTrace.items {events : List Event} (h : StreamTrace events)
    (calls : List (List (Bytes × Bytes))) : events.foldl (addItem .toolStarted) calls = calls := by
  induction events with
  | nil => rfl
  | cons event rest ih =>
      have hevent : addItem .toolStarted calls event = calls := by
        rcases h event List.mem_cons_self with htype | htype <;> simp [addItem, htype]
      rw [List.foldl_cons, hevent]
      exact ih fun e he => h e (List.mem_cons_of_mem _ he)

/-- Nor does the report of an error. -/
theorem ErrorTrace.items {source : Bytes} {events : List Event}
    (h : ErrorTrace call source events) (calls : List (List (Bytes × Bytes))) :
    events.foldl (addItem .toolStarted) calls = calls := by
  obtain rfl | ⟨what, rfl⟩ := h <;> rfl

/-- A model call begins a list of tools, with none in it yet. -/
theorem ModelTrace.items {step : Nat} {turn : Option LlmTurn} {events : List Event}
    {turns : List LlmTurn} (h : ModelTrace call step turn events turns)
    (calls : List (List (Bytes × Bytes))) :
    events.foldl (addItem .toolStarted) calls = calls ++ [[]] := by
  cases h with
  | completed hstream =>
      rw [List.cons_append, List.foldl_cons, List.foldl_append, hstream.items]
      rfl
  | dropped hstream =>
      rw [List.foldl_cons, hstream.items]
      rfl
  | failed hstream herrors =>
      rw [List.cons_append, List.foldl_cons, List.foldl_append, hstream.items, herrors.items]
      rfl

/-- A tool's start joins the list of the last model call. -/
theorem addItem_toolStarted (calls : List (List (Bytes × Bytes))) (items : List (Bytes × Bytes))
    (toolCall : ToolCall) :
    addItem .toolStarted (calls ++ [items])
        (turnEvent call .toolStarted toolCall.name toolCall.arguments) =
      calls ++ [items ++ [(toolCall.name, toolCall.arguments)]] := by
  simp [addItem, turnEvent]

/-- The tools started are the first of those listed. -/
theorem ToolTrace.items {toolCalls : List ToolCall} {all : Bool} {events : List Event}
    (h : ToolTrace call toolCalls all events) (calls : List (List (Bytes × Bytes)))
    (before : List (Bytes × Bytes)) :
    ∃ items, events.foldl (addItem .toolStarted) (calls ++ [before]) = calls ++ [before ++ items] ∧
      items <+: toolItems toolCalls := by
  induction h generalizing before with
  | done => exact ⟨[], by simp, List.prefix_refl _⟩
  | @completed toolCall rest all events result _ ih =>
      obtain ⟨items, hitems, hprefix⟩ := ih (before ++ [(toolCall.name, toolCall.arguments)])
      refine ⟨(toolCall.name, toolCall.arguments) :: items, ?_, ?_⟩
      · rw [List.append_assoc] at hitems
        rw [List.foldl_cons, addItem_toolStarted, List.foldl_cons]
        exact hitems
      · exact (List.prefix_cons_inj _).mpr hprefix
  | @failed toolCall rest errors herrors =>
      refine ⟨[(toolCall.name, toolCall.arguments)], ?_, ?_⟩
      · rw [List.foldl_cons, addItem_toolStarted]
        exact herrors.items _
      · exact (List.prefix_cons_inj _).mpr (List.nil_prefix)

/-- The tools started after each model call are those its turn lists, in order,
as far as the turn got. -/
theorem StepsTrace.items {step : Nat} {last : TurnEnd} {events : List Event}
    {turns : List LlmTurn} (h : StepsTrace call step last events turns)
    (calls : List (List (Bytes × Bytes))) :
    ∃ added, events.foldl (addItem .toolStarted) calls = calls ++ added ∧
      ∀ (k : Nat) (items : List (Bytes × Bytes)), added[k]? = some items →
        items <+: toolItems ((turns[k]?).elim [] LlmTurn.toolCalls) := by
  induction h generalizing calls with
  | stepLimit text => exact ⟨[], (List.append_nil _).symm, nofun⟩
  | cancelled => exact ⟨[], (List.append_nil _).symm, nofun⟩
  | failed hmodel =>
      refine ⟨[[]], hmodel.items calls, fun k items hitems => ?_⟩
      rw [List.mem_singleton.mp (List.mem_of_getElem? hitems)]
      exact List.nil_prefix
  | completed hmodel _ =>
      refine ⟨[[]], hmodel.items calls, fun k items hitems => ?_⟩
      rw [List.mem_singleton.mp (List.mem_of_getElem? hitems)]
      exact List.nil_prefix
  | toolFailed hmodel htools =>
      obtain ⟨items, hitems, hprefix⟩ := htools.items calls []
      refine ⟨[items], ?_, fun k items' hk => ?_⟩
      · rw [List.foldl_append, hmodel.items]
        exact hitems
      · cases hmodel
        cases k with
        | zero =>
            obtain rfl := Option.some.inj hk
            exact hprefix
        | succ k => cases hk
  | next hmodel _ htools _ ih =>
      obtain ⟨items, hitems, hprefix⟩ := htools.items calls []
      obtain ⟨added, hadded, hlater⟩ := ih (calls ++ [items])
      refine ⟨items :: added, ?_, fun k items' hk => ?_⟩
      · rw [List.foldl_append, List.foldl_append, hmodel.items, hitems, List.nil_append, hadded,
          List.append_assoc]
        rfl
      · cases hmodel
        cases k with
        | zero =>
            obtain rfl := Option.some.inj hk
            exact hprefix
        | succ k => exact hlater k items' hk

/-! ## cancellation -/

/-- What has been begun has been begun before any poll answered true. -/
def BegunBefore (call : AgentCall) (s t : AgentState) : Prop :=
  ∃ begun, t.begun = s.begun ++ begun ∧
    ∀ polls ∈ begun, ∀ n < polls, call.answer n = false

/-- A step that begins nothing begins nothing late. -/
theorem BegunBefore.of_same {s t : AgentState} (h : t.begun = s.begun) : BegunBefore call s t :=
  ⟨[], by rw [h, List.append_nil], nofun⟩

/-- Nor do two of them. -/
theorem BegunBefore.trans (s t u : AgentState) (hst : BegunBefore call s t)
    (htu : BegunBefore call t u) : BegunBefore call s u := by
  obtain ⟨begun, hbegun, hpolls⟩ := hst
  obtain ⟨begun', hbegun', hpolls'⟩ := htu
  refine ⟨begun ++ begun', ?_, ?_⟩
  · rw [hbegun', hbegun, List.append_assoc]
  · rw [List.forall_mem_append]
    exact ⟨hpolls, hpolls'⟩

/-- A poll begins nothing. -/
theorem polled_begun (s : AgentState) : (polled call s).begun = s.begun := by
  unfold Agent.polled
  split <;> rfl

theorem polled_polls_le (s : AgentState) : (polled call s).polls ≤ s.polls + 1 := by
  unfold Agent.polled
  split
  · exact Nat.le_succ _
  · exact Nat.le_refl _

/-- What is begun behind a poll that answered false. -/
theorem BegunBefore.behind_poll (hsticky : call.Sticky) {s t : AgentState}
    (hs : call.answer s.polls = false)
    (ht : t.begun = s.begun ++ [(polled call s).polls]) : BegunBefore call s t := by
  refine ⟨_, ht, fun polls hpolls n hn => ?_⟩
  rw [List.mem_singleton.mp hpolls] at hn
  have hle : n ≤ s.polls := Nat.le_of_lt_succ (Nat.lt_of_lt_of_le hn (polled_polls_le s))
  cases hanswer : call.answer n with
  | false => rfl
  | true =>
      rw [hsticky n s.polls hle hanswer] at hs
      exact hs

/-- All pieces of a call begin what they begin before a poll answers true. -/
theorem BegunBefore.pieces (hsticky : call.Sticky) : Pieces call (BegunBefore call) where
  refl _ := .of_same rfl
  trans := .trans
  polled s := .of_same (polled_begun s)
  emitted _ _ _ _ _ := .of_same rfl
  handlerBegun s hs := .behind_poll hsticky hs (by simp only [handlerBegun, polled_begun])
  modelBegun s step hs :=
    .behind_poll hsticky hs (by simp only [modelBegun, emitted, polled_begun])
  deltaPassed _ _ _ := .of_same rfl
  returned _ _ := .of_same rfl
  history _ _ := .of_same rfl

end Agent

/-- **The trace of a call is well bracketed, and cancellation is respected**: a
call adds `TurnStarted`, inner events and one terminal event.  The terminal event
is `TurnCompleted` exactly when the call returns the text of a model turn without
tool calls, the last one.  Each completion closes the last open start, which is of its
kind and name; none stays open in a completed turn.  The tools started after a
model call are those its turn lists, in order; and every call of the model or of
a handler is begun before any poll has answered true. -/
theorem agent_trace_bracketed (agent : Agent) (call : AgentCall) (s : AgentState)
    (hsticky : call.Sticky) :
    let r := (Agent.runStreaming agent call).run s
    ∃ events terminal turns begun,
      (Programs.finalState r).trace =
        s.trace ++ (Agent.turnEvent call .turnStarted [] [] :: events ++ [terminal]) ∧
      (Programs.finalState r).returned = s.returned ++ turns ∧
      (Programs.finalState r).begun = s.begun ++ begun ∧
      terminal.type.endsTurn = true ∧
      (∀ event ∈ events, event.type.endsTurn = false ∧ event.type ≠ .turnStarted) ∧
      (terminal.type = .turnCompleted ↔ ∃ turn, turns.getLast? = some turn ∧
        turn.toolCalls = [] ∧ Returned turn.text r) ∧
      (∃ opened, openStarts events = some opened ∧
        (terminal.type = .turnCompleted → opened = [])) ∧
      (∀ (k : Nat) (items : List (Bytes × Bytes)), (itemsByCall .toolStarted events)[k]? = some items →
        items <+: toolItems ((turns[k]?).elim [] LlmTurn.toolCalls)) ∧
      ∀ polls ∈ begun, ∀ n < polls, call.answer n = false := by
  intro r
  obtain ⟨last, events, turns, terminal, htrace, hadded, hend⟩ :=
    @Agent.runStreaming_adds agent call s
  have hwithin : Within (Agent.BegunBefore call) (Agent.runStreaming agent call) :=
    (Agent.BegunBefore.pieces hsticky).runStreaming
  obtain ⟨begun, hbegun, hpolls⟩ := hwithin s
  obtain ⟨opened, hopened, hclosed⟩ := htrace.bracket []
  obtain ⟨added, hitems, hlisted⟩ := htrace.items []
  obtain ⟨hends, hnot⟩ := hend.ends
  rw [List.nil_append] at hitems
  refine ⟨events, terminal, turns, begun, hadded.1, hadded.2, hbegun, hends, htrace.inner,
    hend.completed_iff htrace, ⟨opened, hopened, fun h => hclosed (hnot h)⟩, ?_, hpolls⟩
  rw [itemsByCall, hitems]
  exact hlisted

/-- A model that asks a clock, which is polled while it works, and tells the time. -/
def clockAgent : Agent where
  llm calls _ :=
    if calls = 0 then .ret {
      text := []
      toolCalls := [{ id := lit "1", name := lit "clock", arguments := [] }] }
    else .delta (lit "It is noon.") fun _ => .ret { text := lit "It is noon." }
  tools := (∅ : ToolRegistry).insert (lit "clock") fun _ _ => .poll fun _ => .ret (lit "12:00")

/-- A call that is cancelled while the model tells the time. -/
def clockCall : AgentCall where
  userText := lit "What time is it?"
  cancelled := some fun poll => 7 ≤ poll

theorem clockCall_sticky : clockCall.Sticky := by
  intro m n hmn hm
  exact decide_eq_true (Nat.le_trans (of_decide_eq_true hm) hmn)

theorem agent_trace_bracketed_cancelled : ∃ events terminal begun,
    (Programs.finalState ((Agent.runStreaming clockAgent clockCall).run {})).trace =
      Agent.turnEvent clockCall .turnStarted [] [] :: events ++ [terminal] ∧
    (events ++ [terminal]).map (·.type) = [.modelStarted, .modelCompleted, .toolStarted,
      .toolCompleted, .modelStarted, .turnCancelled] ∧
    (∃ opened, openStarts events = some opened) ∧
    begun = [2, 4, 7] ∧ ∀ polls ∈ begun, ∀ n < polls, clockCall.answer n = false := by
  obtain ⟨events, terminal, turns, begun, htrace, -, hbegun, -, -, -, ⟨opened, hopened, -⟩, -,
      hpolls⟩ :=
    agent_trace_bracketed clockAgent clockCall {} clockCall_sticky
  have htypes : (Programs.finalState
      ((Agent.runStreaming clockAgent clockCall).run {})).trace.map (·.type) =
        [.turnStarted, .modelStarted, .modelCompleted, .toolStarted, .toolCompleted, .modelStarted,
          .turnCancelled] := by decide +kernel
  have hcalls : (Programs.finalState
      ((Agent.runStreaming clockAgent clockCall).run {})).begun = [2, 4, 7] := by decide +kernel
  rw [htrace] at htypes
  exact ⟨events, terminal, begun, htrace, (List.cons.inj htypes).2, ⟨opened, hopened⟩,
    hbegun.symm.trans hcalls, hpolls⟩

end ByteTurn

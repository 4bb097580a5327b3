import ByteTurn.Event
import ByteTurn.Lib.Table
import ByteTurn.Lib.Machine

/-!
# ByteTurn.Agent

The model and tool loop of one turn (`agent.cpp`, `tool.h`, `providers.h`).

A program of the source is a Lean program that may throw and keeps its state
when it does (`EStateM`).  What the source calls from outside is arbitrary: a
model call is an `LlmScript` chosen from the number of calls before it and the
history it is given, which may pass deltas, poll for cancellation, return any
turn or throw; a tool is a `ToolScript`; the delta sink accepts, refuses or
throws; the cancellation predicate answers each poll as it likes.
-/

namespace ByteTurn

/-! ## what the agent is given -/

/-- A thrown exception: a `std::exception` with its `what()`, or something else. -/
structure Thrown where
  what : Bytes
  standard : Bool := true
  deriving DecidableEq, Repr

/-- What `LlmProvider::stream` does in one call: it may catch what the delta
sink throws. -/
inductive LlmScript where
  | ret (turn : LlmTurn)
  | throw (error : Thrown)
  | delta (text : Bytes) (next : Except Thrown Bool → LlmScript)
  | poll (next : Bool → LlmScript)

/-- What a tool handler does in one call. -/
inductive ToolScript where
  | ret (result : Bytes)
  | throw (error : Thrown)
  | poll (next : Bool → ToolScript)

/-- `CancellableToolHandler`; the number is that of the handler calls before. -/
abbrev ToolHandler := Nat → Bytes → ToolScript

/-- `ToolRegistry` -/
abbrev ToolRegistry := Table Bytes ToolHandler

/-- `Agent`, as constructed: the model is given the number of its calls before. -/
structure Agent where
  llm : Nat → List Message → LlmScript
  tools : ToolRegistry
  maxSteps : Nat := 8

/-- The arguments of `run_streaming`.  The sink is given the number of deltas
before, the predicate the number of polls; `none` is the empty predicate. -/
structure AgentCall where
  userText : Bytes
  sessionId : Bytes := []
  turnId : Bytes := []
  traceId : Bytes := []
  onTextDelta : Nat → Bytes → Except Thrown Bool := fun _ _ => .ok true
  cancelled : Option (Nat → Bool) := none

/-- The agent's history and what it has done to the outside. -/
structure AgentState where
  history : List Message := []
  polls : Nat := 0
  llmCalls : Nat := 0
  toolCalls : Nat := 0
  /-- The texts passed to `on_text_delta`. -/
  deltas : List Bytes := []
  /-- The events given to `emit`. -/
  trace : List Event := []
  /-- The number of polls before each call of the model or of a tool handler. -/
  begun : List Nat := []
  /-- The turns that calls of the model have returned. -/
  returned : List LlmTurn := []
  deriving Repr

/-- A program of the agent. -/
abbrev AgentM := EStateM Thrown AgentState

namespace Agent

/-! ## the pieces of `run_streaming` -/

/-- `cancelled && cancelled()` -/
def poll (call : AgentCall) : AgentM Bool := do
  match call.cancelled with
  | none => pure false
  | some cancelled =>
      let s ← get
      set { s with polls := s.polls + 1 }
      pure (cancelled s.polls)

/-- `if (cancelled && cancelled()) throw std::runtime_error("turn cancelled")` -/
def checkCancelled (call : AgentCall) : AgentM Unit := do
  let stop ← poll call
  if stop then throw { what := lit "turn cancelled" }

/-- The lambda `emit`. -/
def emit (call : AgentCall) (type : EventType) (name data : Bytes) : AgentM Unit :=
  modify fun s => { s with trace := s.trace ++ [{
    type := type
    sessionId := call.sessionId
    turnId := call.turnId
    name := name
    data := data
    traceId := call.traceId }] }

/-- `history_.push_back` -/
def push (message : Message) : AgentM Unit :=
  modify fun s => { s with history := s.history ++ [message] }

/-- `std::to_string` -/
def decimal (n : Nat) : Bytes := lit (toString n)

/-- The call of the delta sink, which may throw. -/
def callSink (call : AgentCall) (delta : Bytes) : AgentM (Except Thrown Bool) := do
  let s ← get
  set { s with deltas := s.deltas ++ [delta] }
  pure (call.onTextDelta s.deltas.length delta)

/-- The delta lambda of `run_streaming`, with `received_first_token` before and
after it. -/
def textDelta (call : AgentCall) (step : Nat) (received : Bool) (delta : Bytes) :
    AgentM (Except Thrown Bool × Bool) := do
  let stop ← poll call
  if stop then pure (.ok false, received)
  else if delta = [] then pure (.ok true, received)
  else
    if !received then emit call .firstToken (decimal step) []
    emit call .modelTextDelta (decimal step) delta
    let accepted ← callSink call delta
    pure (accepted, true)

/-- `llm_.stream`, with the agent's lambdas. -/
def stream (call : AgentCall) (step : Nat) : LlmScript → Bool → AgentM LlmTurn
  | .ret turn, _ => pure turn
  | .throw error, _ => throw error
  | .delta text next, received => do
      let answer ← textDelta call step received text
      stream call step (next answer.1) answer.2
  | .poll next, received => do
      let stop ← poll call
      stream call step (next stop) received

/-- A tool handler's call. -/
def runTool (call : AgentCall) : ToolScript → AgentM Bytes
  | .ret result => pure result
  | .throw error => throw error
  | .poll next => do
      let stop ← poll call
      runTool call (next stop)

/-- The `try` block of `ToolRegistry::invoke`. -/
def invokeHandler (call : AgentCall) (handler : ToolHandler) (arguments : Bytes) :
    AgentM Bytes := do
  let s ← get
  set { s with toolCalls := s.toolCalls + 1, begun := s.begun ++ [s.polls] }
  let result ← runTool call (handler s.toolCalls arguments)
  let stop ← poll call
  if stop then throw { what := lit "tool cancelled during execution" }
  pure result

/-- The `catch` block of `ToolRegistry::invoke`; only a `std::exception` gets there. -/
def handleToolFailure (call : AgentCall) (error : Thrown) : AgentM Bytes := do
  if error.standard then
    let stop ← poll call
    if stop then throw error
    pure (lit "error: tool failed: " ++ error.what)
  else throw error

/-- `ToolRegistry::invoke` -/
def invoke (agent : Agent) (call : AgentCall) (name arguments : Bytes) : AgentM Bytes := do
  match agent.tools.lookup name with
  | none => pure (lit "error: unknown tool: " ++ name)
  | some handler =>
      let stop ← poll call
      if stop then throw { what := lit "tool cancelled before execution" }
      tryCatch (invokeHandler call handler arguments) (handleToolFailure call)

/-- `catch (const std::exception& e) { emit(Error, source, e.what()); throw; }` -/
def reportAndRethrow {α : Type} (call : AgentCall) (source : Bytes) (error : Thrown) : AgentM α := do
  if error.standard then emit call .error source error.what
  throw error

/-- A `Tool` message of the history. -/
def toolMessage (toolCall : ToolCall) (result : Bytes) : Message :=
  { role := .tool, content := result, name := toolCall.name, toolCalls := [], toolCallId := toolCall.id }

/-- An `Assistant` message of the history. -/
def assistantMessage (text : Bytes) (toolCalls : List ToolCall) : Message :=
  { role := .assistant, content := text, name := [], toolCalls := toolCalls, toolCallId := [] }

/-- A `User` message of the history. -/
def userMessage (text : Bytes) : Message :=
  { role := .user, content := text, name := [], toolCalls := [], toolCallId := [] }

/-- One tool call. -/
def callTool (agent : Agent) (call : AgentCall) (toolCall : ToolCall) : AgentM Bytes := do
  emit call .toolStarted toolCall.name toolCall.arguments
  let result ← tryCatch (invoke agent call toolCall.name toolCall.arguments)
    (reportAndRethrow call (lit "tool"))
  emit call .toolCompleted toolCall.name result
  pure result

/-- The loop over the tool calls of a model turn. -/
def runTools (agent : Agent) (call : AgentCall) : List ToolCall → AgentM Unit
  | [] => pure ()
  | toolCall :: rest => do
      let result ← callTool agent call toolCall
      push (toolMessage toolCall result)
      runTools agent call rest

/-- One call of the model. -/
def callModel (agent : Agent) (call : AgentCall) (step : Nat) : AgentM LlmTurn := do
  emit call .modelStarted (decimal step) []
  let s ← get
  set { s with llmCalls := s.llmCalls + 1, begun := s.begun ++ [s.polls] }
  let turn ← tryCatch (stream call step (agent.llm s.llmCalls s.history) false)
    (reportAndRethrow call (lit "llm"))
  modify fun s => { s with returned := s.returned ++ [turn] }
  checkCancelled call
  if !turn.complete then throw { what := lit "incomplete LLM stream" }
  emit call .modelCompleted (decimal step) turn.text
  pure turn

/-- The end of the loop over the steps. -/
def stepLimit (call : AgentCall) : AgentM Bytes := do
  let error := lit "I stopped because the tool-step limit was reached."
  push (assistantMessage error [])
  emit call .error (lit "step_limit") error
  emit call .turnFailed (lit "step_limit") []
  pure error

/-- The loop over the steps, with the number of steps left. -/
def runSteps (agent : Agent) (call : AgentCall) : Nat → AgentM Bytes
  | 0 => stepLimit call
  | left + 1 => do
      checkCancelled call
      let turn ← callModel agent call (agent.maxSteps - (left + 1))
      push (assistantMessage turn.text turn.toolCalls)
      if turn.toolCalls = [] then
        emit call .turnCompleted [] turn.text
        pure turn.text
      else
        runTools agent call turn.toolCalls
        runSteps agent call left

/-- The `catch (...)` block of `run_streaming`. -/
def rollBack (call : AgentCall) (historyCheckpoint : Nat) (error : Thrown) : AgentM Bytes := do
  modify fun s => { s with history := s.history.take historyCheckpoint }
  let stop ← poll call
  emit call (if stop then .turnCancelled else .turnFailed) [] []
  throw error

/-- The `try` block of `run_streaming`. -/
def runTurn (agent : Agent) (call : AgentCall) : AgentM Bytes := do
  checkCancelled call
  push (userMessage call.userText)
  runSteps agent call agent.maxSteps

/-- `Agent::run_streaming` -/
def runStreaming (agent : Agent) (call : AgentCall) : AgentM Bytes := do
  let s ← get
  let historyCheckpoint := s.history.length
  emit call .turnStarted [] []
  tryCatch (runTurn agent call) (rollBack call historyCheckpoint)

/-! ## an agent over its calls -/

/-- The history the constructor starts with. -/
def systemMessage : Message where
  role := .system
  content := lit "You are ByteTurn, a concise voice agent. Use tools when useful."
  name := []
  toolCalls := []
  toolCallId := []

/-- The state after a call, whether it returns or throws. -/
def finalState : EStateM.Result Thrown AgentState Bytes → AgentState
  | .ok _ s => s
  | .error _ s => s

/-- An agent and its calls, one after the other. -/
def machine (agent : Agent) : Machine AgentState AgentCall where
  init := { history := [systemMessage] }
  step s call := some (finalState ((runStreaming agent call).run s))

end Agent

end ByteTurn

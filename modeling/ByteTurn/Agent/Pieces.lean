import ByteTurn.Agent
import ByteTurn.Lib.Programs

/-!
# ByteTurn.Agent.Pieces

`run_streaming` against a relation of states.

A preorder that each thing the agent does to its state keeps is kept by the whole
of `run_streaming` (`Pieces.runStreaming`), and one that each thing of the tool
side keeps by every tool call (`ToolSide.callTool`).  The model and the handlers
are only called behind a poll that answered false, and the two structures ask for
no more.
-/

namespace ByteTurn

open Programs (Within)

namespace AgentCall

/-- The answer to a poll. -/
def answer (call : AgentCall) (poll : Nat) : Bool :=
  match call.cancelled with
  | none => false
  | some cancelled => cancelled poll

/-- A cancellation is not taken back, as one of `TurnContext` is not. -/
def Sticky (call : AgentCall) : Prop :=
  ∀ m n, m ≤ n → call.answer m = true → call.answer n = true

end AgentCall

namespace Agent

variable {agent : Agent} {call : AgentCall} {R : AgentState → AgentState → Prop}

/-! ## what the agent does to its state -/

/-- The state after a poll. -/
def polled (call : AgentCall) (s : AgentState) : AgentState :=
  match call.cancelled with
  | none => s
  | some _ => { s with polls := s.polls + 1 }

/-- An event of the turn. -/
def turnEvent (call : AgentCall) (type : EventType) (name data : Bytes) : Event where
  type := type
  sessionId := call.sessionId
  turnId := call.turnId
  name := name
  data := data
  traceId := call.traceId

/-- The state after an event. -/
def emitted (call : AgentCall) (type : EventType) (name data : Bytes) (s : AgentState) :
    AgentState :=
  { s with trace := s.trace ++ [turnEvent call type name data] }

/-- The state in which a handler is called. -/
def handlerBegun (s : AgentState) : AgentState :=
  { s with toolCalls := s.toolCalls + 1, begun := s.begun ++ [s.polls] }

/-- The state in which the model is called. -/
def modelBegun (call : AgentCall) (step : Nat) (s : AgentState) : AgentState :=
  let s := emitted call .modelStarted (decimal step) [] s
  { s with llmCalls := s.llmCalls + 1, begun := s.begun ++ [s.polls] }

/-- The state after a delta that has been passed on. -/
def deltaPassed (call : AgentCall) (step : Nat) (delta : Bytes) (s : AgentState) : AgentState :=
  { emitted call .modelTextDelta (decimal step) delta s with deltas := s.deltas ++ [delta] }

/-- What a call of a handler does to the state is within the relation. -/
structure HandlerSide (call : AgentCall) (R : AgentState → AgentState → Prop) : Prop where
  refl : ∀ s, R s s
  trans : ∀ s t u, R s t → R t u → R s u
  polled : ∀ s, R s (polled call s)
  handlerBegun : ∀ s, call.answer s.polls = false → R s (handlerBegun (Agent.polled call s))

/-- What the tool side of a turn does to the state is within the relation. -/
structure ToolSide (call : AgentCall) (R : AgentState → AgentState → Prop) : Prop
    extends HandlerSide call R where
  emitted : ∀ s type name data, type ≠ .modelTextDelta → R s (emitted call type name data s)

/-- What a turn does to the state is within the relation. -/
structure Pieces (call : AgentCall) (R : AgentState → AgentState → Prop) : Prop
    extends ToolSide call R where
  modelBegun : ∀ s step, call.answer s.polls = false →
    R s (modelBegun call step (Agent.polled call s))
  deltaPassed : ∀ s step delta, R s (deltaPassed call step delta s)
  returned : ∀ s turn, R s { s with returned := s.returned ++ [turn] }
  history : ∀ s history, R s { s with history := history }

/-! ## polls -/

/-- A poll answers by the number of polls before it. -/
theorem poll_run (s : AgentState) :
    (poll call).run s = .ok (call.answer s.polls) (polled call s) := by
  unfold poll AgentCall.answer polled
  cases call.cancelled <;> rfl

/-- What comes after a poll has its answer. -/
theorem poll_bind_run {α : Type} (f : Bool → AgentM α) (s : AgentState) :
    (poll call >>= f).run s = (f (call.answer s.polls)).run (polled call s) := by
  rw [EStateM.run_bind, poll_run]

/-- A check throws where the poll answers true. -/
theorem checkCancelled_run (s : AgentState) :
    (checkCancelled call).run s =
      if call.answer s.polls then .error { what := lit "turn cancelled" } (polled call s)
      else .ok () (polled call s) := by
  unfold checkCancelled
  rw [poll_bind_run]
  split <;> rfl

/-! ## the tool side -/

namespace HandlerSide

/-- A poll and what follows it stay within the relation. -/
theorem poll_bind (h : HandlerSide call R) {α : Type} {f : Bool → AgentM α}
    (hf : ∀ stop, Within R (f stop)) : Within R (poll call >>= f) := by
  intro s
  rw [poll_bind_run]
  exact h.trans _ _ _ (h.polled s) (hf _ _)

/-- So does a check. -/
theorem checkCancelled (h : HandlerSide call R) : Within R (checkCancelled call) := by
  refine h.poll_bind fun stop => ?_
  cases stop with
  | true => exact .throw h.refl _
  | false => exact .pure h.refl _

/-- A tool's handler stays within the relation, whatever its script. -/
theorem runTool (h : HandlerSide call R) (script : ToolScript) : Within R (runTool call script) := by
  induction script with
  | ret result => exact .pure h.refl _
  | throw error => exact .throw h.refl _
  | poll next ih => exact h.poll_bind ih

/-- A handler called behind a poll that answered false. -/
theorem invokeHandler (h : HandlerSide call R) (handler : ToolHandler) (arguments : Bytes)
    {s : AgentState} (hs : call.answer s.polls = false) :
    R s (Programs.finalState ((invokeHandler call handler arguments).run (Agent.polled call s))) := by
  have hrest : Within R (Agent.runTool call (handler (Agent.polled call s).toolCalls arguments) >>=
      fun result => poll call >>= fun stop =>
        if stop then throw { what := lit "tool cancelled during execution" } else pure result) := by
    refine .bind h.trans (h.runTool _) fun result => h.poll_bind fun stop => ?_
    cases stop with
    | true => exact .throw h.refl _
    | false => exact .pure h.refl _
  exact h.trans _ _ _ (h.handlerBegun s hs) (hrest _)

/-- The handling of what a tool throws stays within the relation. -/
theorem handleToolFailure (h : HandlerSide call R) (error : Thrown) :
    Within R (handleToolFailure call error) := by
  unfold Agent.handleToolFailure
  split
  · refine h.poll_bind fun stop => ?_
    cases stop with
    | true => exact .throw h.refl _
    | false => exact .pure h.refl _
  · exact .throw h.refl _

/-- So does a call of the registry. -/
theorem invoke (h : HandlerSide call R) (name arguments : Bytes) :
    Within R (invoke agent call name arguments) := by
  unfold Agent.invoke
  split
  · exact .pure h.refl _
  · next handler _ =>
    intro s
    rw [poll_bind_run]
    cases hstop : call.answer s.polls with
    | true => exact h.polled s
    | false =>
        have hhandler := h.invokeHandler handler arguments hstop
        show R s (Programs.finalState ((tryCatch (Agent.invokeHandler call handler arguments)
          (Agent.handleToolFailure call)).run (Agent.polled call s)))
        rw [Programs.run_tryCatch]
        cases hrun : (Agent.invokeHandler call handler arguments).run (Agent.polled call s) with
        | ok result t =>
            rw [hrun] at hhandler
            exact hhandler
        | error e t =>
            rw [hrun] at hhandler
            exact h.trans _ _ _ hhandler (h.handleToolFailure e t)

end HandlerSide

namespace ToolSide

/-- Events stay within the relation of the tool side, if they are no deltas. -/
theorem emit (h : ToolSide call R) {type : EventType} (name data : Bytes)
    (htype : type ≠ .modelTextDelta) : Within R (emit call type name data) :=
  fun s => h.emitted s type name data htype

/-- So does the report of an error. -/
theorem reportAndRethrow (h : ToolSide call R) {α : Type} (source : Bytes) (error : Thrown) :
    Within R (reportAndRethrow (α := α) call source error) := by
  unfold Agent.reportAndRethrow
  split
  · exact .bind h.trans (h.emit _ _ nofun) fun _ => .throw h.refl _
  · exact .throw h.refl _

/-- So does a call of a tool with its events. -/
theorem callTool (h : ToolSide call R) (toolCall : ToolCall) :
    Within R (callTool agent call toolCall) :=
  .bind h.trans (h.emit _ _ nofun) fun _ =>
    .bind h.trans (.tryCatch h.trans (h.invoke _ _) (h.reportAndRethrow _)) fun _ =>
    .bind h.trans (h.emit _ _ nofun) fun _ => .pure h.refl _

end ToolSide

/-! ## the whole call -/

namespace Pieces

/-- A message stays within the relation of the whole. -/
theorem push (h : Pieces call R) (message : Message) : Within R (push message) :=
  fun s => h.history s (s.history ++ [message])

/-- So do all calls of a model turn. -/
theorem runTools (h : Pieces call R) (toolCalls : List ToolCall) :
    Within R (runTools agent call toolCalls) := by
  induction toolCalls with
  | nil => exact .pure h.refl _
  | cons toolCall rest ih =>
      exact .bind h.trans (h.callTool toolCall) fun _ => .bind h.trans (h.push _) fun _ => ih

/-- So does a delta, refused or passed on. -/
theorem textDelta (h : Pieces call R) (step : Nat) (received : Bool) (delta : Bytes) :
    Within R (textDelta call step received delta) := by
  refine h.poll_bind fun stop => ?_
  split
  · exact .pure h.refl _
  · split
    · exact .pure h.refl _
    · have hpassed : Within R (do
          Agent.emit call .modelTextDelta (decimal step) delta
          let accepted ← callSink call delta
          pure (accepted, true)) := fun s => h.deltaPassed s step delta
      cases received with
      | true => exact hpassed
      | false => exact .bind h.trans (h.emit _ _ nofun) fun _ => hpassed

/-- A model's stream stays within the relation, whatever its script. -/
theorem stream (h : Pieces call R) (step : Nat) (script : LlmScript) (received : Bool) :
    Within R (stream call step script received) := by
  induction script generalizing received with
  | ret turn => exact .pure h.refl _
  | throw error => exact .throw h.refl _
  | delta text next ih => exact .bind h.trans (h.textDelta _ _ _) fun answer => ih answer.1 answer.2
  | poll next ih => exact h.poll_bind fun stop => ih stop received

/-- The model called behind a poll that answered false. -/
theorem callModel (h : Pieces call R) (step : Nat) {s : AgentState}
    (hs : call.answer s.polls = false) :
    R s (Programs.finalState ((callModel agent call step).run (Agent.polled call s))) := by
  refine h.trans _ _ _ (h.modelBegun s step hs) (Within.bind h.trans
    (.tryCatch h.trans (h.stream _ _ _) (h.reportAndRethrow _)) (fun turn => ?_) _)
  refine .bind h.trans (fun t => h.returned t turn) fun _ => .bind h.trans h.checkCancelled fun _ => ?_
  split
  · exact .throw h.refl _
  · exact .bind h.trans (h.emit _ _ nofun) fun _ => .pure h.refl _

/-- The end of the loop over the steps stays within the relation. -/
theorem stepLimit (h : Pieces call R) : Within R (stepLimit call) :=
  .bind h.trans (h.push _) fun _ => .bind h.trans (h.emit _ _ nofun) fun _ =>
    .bind h.trans (h.emit _ _ nofun) fun _ => .pure h.refl _

/-- By induction on the steps left. -/
theorem runSteps (h : Pieces call R) (left : Nat) : Within R (runSteps agent call left) := by
  induction left with
  | zero => exact h.stepLimit
  | succ left ih =>
      have hafter : ∀ turn : LlmTurn, Within R (do
          Agent.push (assistantMessage turn.text turn.toolCalls)
          if turn.toolCalls = [] then
            Agent.emit call .turnCompleted [] turn.text
            pure turn.text
          else
            Agent.runTools agent call turn.toolCalls
            Agent.runSteps agent call left) := by
        intro turn
        refine .bind h.trans (h.push _) fun _ => ?_
        split
        · exact .bind h.trans (h.emit _ _ nofun) fun _ => .pure h.refl _
        · exact .bind h.trans (h.runTools _) fun _ => ih
      intro s
      rw [Agent.runSteps, EStateM.run_bind, checkCancelled_run]
      cases hstop : call.answer s.polls with
      | true => exact h.polled s
      | false =>
          have hmodel : R s (Programs.finalState ((Agent.callModel agent call
              (agent.maxSteps - (left + 1))).run (Agent.polled call s))) := h.callModel _ hstop
          rw [if_neg Bool.false_ne_true]
          dsimp only
          rw [EStateM.run_bind]
          cases hrun : (Agent.callModel agent call (agent.maxSteps - (left + 1))).run
              (Agent.polled call s) with
          | ok turn t =>
              rw [hrun] at hmodel
              exact h.trans _ _ _ hmodel (hafter turn t)
          | error e t =>
              rw [hrun] at hmodel
              exact hmodel

/-- The `try` block stays within the relation. -/
theorem runTurn (h : Pieces call R) : Within R (runTurn agent call) :=
  .bind h.trans h.checkCancelled fun _ => .bind h.trans (h.push _) fun _ => h.runSteps _

/-- So does its `catch` block. -/
theorem rollBack (h : Pieces call R) (historyCheckpoint : Nat) (error : Thrown) :
    Within R (rollBack call historyCheckpoint error) := by
  refine .bind h.trans (fun s => h.history s (s.history.take historyCheckpoint)) fun _ =>
    h.poll_bind fun stop => .bind h.trans (h.emit _ _ ?_) fun _ => .throw h.refl _
  split <;> nofun

/-- What every piece keeps, the call keeps. -/
theorem runStreaming (h : Pieces call R) : Within R (runStreaming agent call) := by
  intro s
  exact h.trans _ (emitted call .turnStarted [] [] s) _ (h.emitted s _ _ _ nofun)
    (Within.tryCatch h.trans h.runTurn (h.rollBack s.history.length) _)

end Pieces

end Agent

end ByteTurn

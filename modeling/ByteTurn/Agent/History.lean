import ByteTurn.Agent

/-!
# ByteTurn.Agent.History

What `run_streaming` leaves in the history, over every sequence of calls.

Each piece of the program has one specification (a triple over `EStateM`): the
pieces that call the outside keep the history and the number of model calls
(`SameHistory`), a tool loop appends one `Tool` message for each of its calls,
and the step loop appends groups and a reply, or throws with the history only
grown.  `run_streaming` then commits a `CommittedTurn` or rolls back.
-/

open Std.Do

set_option mvcgen.warning false

namespace ByteTurn

namespace Agent

variable {agent : Agent} {call : AgentCall}

/-! ## the grammar of the history -/

/-- An `Assistant` message with tool calls and their `Tool` messages. -/
structure ToolGroup where
  text : Bytes
  toolCalls : List ToolCall
  results : List Bytes
  toolCalls_ne : toolCalls ≠ []
  answered : results.length = toolCalls.length

/-- The messages of a group, in the order of the history. -/
def ToolGroup.messages (g : ToolGroup) : List Message :=
  assistantMessage g.text g.toolCalls :: List.zipWith toolMessage g.toolCalls g.results

/-- A turn that returned. -/
structure CommittedTurn where
  userText : Bytes
  groups : List ToolGroup
  reply : Bytes

/-- The messages of a turn, in the order of the history. -/
def CommittedTurn.messages (turn : CommittedTurn) : List Message :=
  userMessage turn.userText :: (turn.groups.flatMap ToolGroup.messages ++
    [assistantMessage turn.reply []])

/-! ## pieces that keep the history -/

/-- Nothing of what a history check looks at has changed. -/
def SameHistory (s t : AgentState) : Prop := t.history = s.history ∧ t.llmCalls = s.llmCalls

/-- An exception leaves the state as it is when it is thrown. -/
@[simp, grind =] theorem restore_eq (s t : AgentState) :
    EStateM.Backtrackable.restore s (EStateM.Backtrackable.save t) = s := rfl

/-- The program keeps the history, however it ends. -/
abbrev keeping {α : Type} (s₀ : AgentState) : PostCond α (.except Thrown (.arg AgentState .pure)) :=
  post⟨fun _ s => ⌜SameHistory s₀ s⌝, fun _ s => ⌜SameHistory s₀ s⌝⟩

variable {s₀ : AgentState}

@[spec] theorem poll_keeps : ⦃fun s => ⌜SameHistory s₀ s⌝⦄ poll call ⦃keeping s₀⦄ := by
  mvcgen [poll]

@[spec] theorem checkCancelled_keeps :
    ⦃fun s => ⌜SameHistory s₀ s⌝⦄ checkCancelled call ⦃keeping s₀⦄ := by
  mvcgen [checkCancelled] <;> grind [SameHistory]

@[spec] theorem emit_spec (type : EventType) (name data : Bytes) :
    ⦃fun s => ⌜SameHistory s₀ s⌝⦄ emit call type name data
    ⦃post⟨fun _ s => ⌜SameHistory s₀ s⌝, fun _ _ => ⌜False⌝⟩⦄ := by
  mvcgen [emit]

@[spec] theorem callSink_keeps (delta : Bytes) :
    ⦃fun s => ⌜SameHistory s₀ s⌝⦄ callSink call delta ⦃keeping s₀⦄ := by
  mvcgen [callSink]

@[spec] theorem textDelta_keeps (step : Nat) (received : Bool) (delta : Bytes) :
    ⦃fun s => ⌜SameHistory s₀ s⌝⦄ textDelta call step received delta ⦃keeping s₀⦄ := by
  mvcgen [textDelta] <;> grind [SameHistory]

@[spec] theorem stream_keeps (step : Nat) (script : LlmScript) (received : Bool) :
    ⦃fun s => ⌜SameHistory s₀ s⌝⦄ stream call step script received ⦃keeping s₀⦄ := by
  induction script generalizing received with
  | ret turn => mvcgen [stream]
  | throw error => mvcgen [stream]
  | delta text next ih => mvcgen [stream, ih] <;> grind [SameHistory]
  | poll next ih => mvcgen [stream, ih] <;> grind [SameHistory]

@[spec] theorem runTool_keeps (script : ToolScript) :
    ⦃fun s => ⌜SameHistory s₀ s⌝⦄ runTool call script ⦃keeping s₀⦄ := by
  induction script with
  | ret result => mvcgen [runTool]
  | throw error => mvcgen [runTool]
  | poll next ih => mvcgen [runTool, ih] <;> grind [SameHistory]

@[spec] theorem invokeHandler_keeps (handler : ToolHandler) (arguments : Bytes) :
    ⦃fun s => ⌜SameHistory s₀ s⌝⦄ invokeHandler call handler arguments ⦃keeping s₀⦄ := by
  mvcgen [invokeHandler] <;> grind [SameHistory]

@[spec] theorem handleToolFailure_keeps (error : Thrown) :
    ⦃fun s => ⌜SameHistory s₀ s⌝⦄ handleToolFailure call error ⦃keeping s₀⦄ := by
  mvcgen [handleToolFailure] <;> grind [SameHistory]

@[spec] theorem invoke_keeps (name arguments : Bytes) :
    ⦃fun s => ⌜SameHistory s₀ s⌝⦄ invoke agent call name arguments ⦃keeping s₀⦄ := by
  mvcgen [invoke] <;> grind [SameHistory]

@[spec] theorem reportAndRethrow_spec {α : Type} (source : Bytes) (error : Thrown) :
    ⦃fun s => ⌜SameHistory s₀ s⌝⦄ reportAndRethrow (α := α) call source error
    ⦃post⟨fun _ _ => ⌜False⌝, fun _ s => ⌜SameHistory s₀ s⌝⟩⦄ := by
  mvcgen [reportAndRethrow]
  grind [SameHistory]

@[spec] theorem callTool_keeps (toolCall : ToolCall) :
    ⦃fun s => ⌜SameHistory s₀ s⌝⦄ callTool agent call toolCall ⦃keeping s₀⦄ := by
  mvcgen [callTool] <;> grind [SameHistory]

/-! ## pieces that extend it -/

/-- What a program that throws leaves: the history `h` has only grown, with at
most `n` model calls made. -/
def Grown (h : List Message) (n : Nat) (s : AgentState) : Prop :=
  h <+: s.history ∧ s.llmCalls ≤ n

/-- Every call of a model turn has been answered after the history `h`. -/
def Answered (h : List Message) (n : Nat) (toolCalls : List ToolCall) (s : AgentState) : Prop :=
  s.llmCalls = n ∧ ∃ results : List Bytes, results.length = toolCalls.length ∧
    s.history = h ++ List.zipWith toolMessage toolCalls results

/-- A turn without tool calls is answered. -/
theorem Answered.nil {h : List Message} {n : Nat} {s : AgentState}
    (hs : s.history = h ∧ s.llmCalls = n) : Answered h n [] s :=
  ⟨hs.2, [], rfl, by simp [hs.1]⟩

/-- A turn is answered when its first call is, and then the others are. -/
theorem Answered.cons {h : List Message} {n : Nat} {toolCall : ToolCall} {result : Bytes}
    {rest : List ToolCall} {s : AgentState}
    (hs : Answered (h ++ [toolMessage toolCall result]) n rest s) :
    Answered h n (toolCall :: rest) s := by
  obtain ⟨hcalls, results, hlength, hhistory⟩ := hs
  refine ⟨hcalls, result :: results, by simp [hlength], ?_⟩
  rw [hhistory, List.zipWith_cons_cons, List.append_assoc, List.singleton_append]

/-- What has grown from a longer history has grown from a shorter one. -/
theorem Grown.of_append {h : List Message} {n : Nat} {message : Message} {s : AgentState}
    (hs : Grown (h ++ [message]) n s) : Grown h n s :=
  ⟨(List.prefix_append h [message]).trans hs.1, hs.2⟩

/-- More calls of the model may be allowed. -/
theorem Grown.mono {h : List Message} {m n : Nat} {s : AgentState} (hs : Grown h m s)
    (hmn : m ≤ n) : Grown h n s :=
  ⟨hs.1, Nat.le_trans hs.2 hmn⟩

@[spec] theorem push_spec (message : Message) (h : List Message) (n : Nat) :
    ⦃fun s => ⌜s.history = h ∧ s.llmCalls = n⌝⦄ push message
    ⦃post⟨fun _ s => ⌜s.history = h ++ [message] ∧ s.llmCalls = n⌝, fun _ _ => ⌜False⌝⟩⦄ := by
  mvcgen [push]
  grind

/-- The tool calls of a turn are answered in order, or the history has grown by some. -/
theorem runTools_spec (toolCalls : List ToolCall) (h : List Message) (n : Nat) :
    ⦃fun s => ⌜s.history = h ∧ s.llmCalls = n⌝⦄ runTools agent call toolCalls
    ⦃post⟨fun _ s => ⌜Answered h n toolCalls s⌝, fun _ s => ⌜Grown h n s⌝⟩⦄ := by
  induction toolCalls generalizing h with
  | nil =>
      mvcgen [runTools]
      next hs => exact .nil hs
  | cons toolCall rest ih =>
      mvcgen [runTools, ih] <;> grind [SameHistory, Grown, → Answered.cons, → Grown.of_append]

/-- One model call has been made, and the history is as before. -/
def Called (h : List Message) (n : Nat) (s : AgentState) : Prop :=
  s.history = h ∧ s.llmCalls = n + 1

/-- A call of the model leaves the history and counts one call. -/
theorem callModel_spec (step : Nat) (h : List Message) (n : Nat) :
    ⦃fun s => ⌜s.history = h ∧ s.llmCalls = n⌝⦄ callModel agent call step
    ⦃post⟨fun _ s => ⌜Called h n s⌝, fun _ s => ⌜Called h n s⌝⟩⦄ := by
  mvcgen [callModel] <;> grind [SameHistory, Called]

/-- The history `h` has been followed by tool groups and a reply, with at most
`n` model calls made. -/
def Replied (h : List Message) (n : Nat) (reply : Bytes) (s : AgentState) : Prop :=
  s.llmCalls ≤ n ∧ ∃ groups : List ToolGroup,
    s.history = h ++ groups.flatMap ToolGroup.messages ++ [assistantMessage reply []]

/-- A reply without tools ends the history. -/
theorem Replied.direct {h : List Message} {n : Nat} {reply : Bytes} {s : AgentState}
    (hhistory : s.history = h ++ [assistantMessage reply []]) (hcalls : s.llmCalls ≤ n) :
    Replied h n reply s :=
  ⟨hcalls, [], by rw [hhistory, List.flatMap_nil, List.append_nil]⟩

/-- A reply after an answered group is a reply after what came before the group. -/
theorem Replied.after_group {h : List Message} {k m n : Nat} {text reply : Bytes}
    {toolCalls : List ToolCall} {r s t : AgentState}
    (hr : r.history = h ++ [assistantMessage text toolCalls]) (hne : toolCalls ≠ [])
    (hs : Answered r.history m toolCalls s) (ht : Replied s.history k reply t) (hk : k ≤ n) :
    Replied h n reply t := by
  obtain ⟨-, results, hlength, hhistory⟩ := hs
  obtain ⟨hcalls, groups, hreply⟩ := ht
  refine ⟨Nat.le_trans hcalls hk, ⟨text, toolCalls, results, hne, hlength⟩ :: groups, ?_⟩
  rw [hreply, hhistory, hr, List.flatMap_cons, ToolGroup.messages]
  simp only [List.append_assoc, List.cons_append, List.nil_append]

/-- A group of messages stands before what grows after it. -/
theorem Grown.after_group {h : List Message} {k m n : Nat} {message : Message}
    {toolCalls : List ToolCall} {r s t : AgentState} (hr : r.history = h ++ [message])
    (hs : Answered r.history m toolCalls s) (ht : Grown s.history k t) (hk : k ≤ n) :
    Grown h n t := by
  obtain ⟨-, results, -, hhistory⟩ := hs
  refine ⟨List.IsPrefix.trans ?_ ht.1, Nat.le_trans ht.2 hk⟩
  rw [hhistory, hr, List.append_assoc]
  exact List.prefix_append h _

/-- The end of the loop commits the text of the limit. -/
theorem stepLimit_spec (h : List Message) (n : Nat) :
    ⦃fun s => ⌜s.history = h ∧ s.llmCalls = n⌝⦄ stepLimit call
    ⦃post⟨fun reply s => ⌜Replied h n reply s⌝, fun _ _ => ⌜False⌝⟩⦄ := by
  mvcgen [stepLimit]
  exact .direct (by grind [SameHistory]) (by grind [SameHistory])

/-- By induction on the steps left: a step answers a group and goes on, or ends
the turn. -/
theorem runSteps_spec (left : Nat) (h : List Message) (n : Nat) :
    ⦃fun s => ⌜s.history = h ∧ s.llmCalls = n⌝⦄ runSteps agent call left
    ⦃post⟨fun reply s => ⌜Replied h (n + left) reply s⌝, fun _ s => ⌜Grown h (n + left) s⌝⟩⦄ := by
  induction left generalizing h n with
  | zero =>
      mvcgen [runSteps, stepLimit_spec]
      grind
  | succ left ih =>
      mvcgen [runSteps, callModel_spec, runTools_spec, ih]
      · -- the model called no tool: its text ends the turn
        next hcalls _ _ _ _ =>
        exact .direct (by grind [SameHistory, Called]) (by grind [SameHistory, Called])
      · -- the tools were called, and the steps after them ended the turn
        next turn _ hcalled _ hne s hpush _ _ hanswered _ _ =>
        intro hreplied
        have hhistory : s.history = h ++ [assistantMessage turn.text turn.toolCalls] := by
          grind [SameHistory, Called]
        exact .after_group hhistory hne hanswered hreplied (by grind [SameHistory, Called, Answered])
      · -- the tools were called, and a later step threw
        next turn _ hcalled _ hne s hpush _ _ hanswered _ _ =>
        intro hgrown
        have hhistory : s.history = h ++ [assistantMessage turn.text turn.toolCalls] := by
          grind [SameHistory, Called]
        exact .after_group hhistory hanswered hgrown (by grind [SameHistory, Called, Answered])
      · -- a tool threw
        next turn _ hcalled _ hne s hpush _ _ =>
        intro hgrown
        have hhistory : s.history = h ++ [assistantMessage turn.text turn.toolCalls] := by
          grind [SameHistory, Called]
        exact (Grown.of_append (hhistory ▸ hgrown)).mono (by grind [SameHistory, Called])
      · -- the model call threw
        intro hcalled
        grind [SameHistory, Called, Grown]
      · -- the turn was cancelled between two steps
        intro hsame
        grind [SameHistory, Grown]

/-- The `try` block appends the user's message, and then what the steps append. -/
theorem runTurn_spec (h : List Message) (n : Nat) :
    ⦃fun s => ⌜s.history = h ∧ s.llmCalls = n⌝⦄ runTurn agent call
    ⦃post⟨fun reply s => ⌜Replied (h ++ [userMessage call.userText]) (n + agent.maxSteps) reply s⌝,
      fun _ s => ⌜Grown h (n + agent.maxSteps) s⌝⟩⦄ := by
  mvcgen [runTurn, runSteps_spec]
  · -- the steps ended the turn
    next hpush _ _ =>
    intro hreplied
    grind [SameHistory]
  · -- a step threw
    next s hpush _ _ =>
    intro hgrown
    have hhistory : s.history = h ++ [userMessage call.userText] := by grind [SameHistory]
    exact (Grown.of_append (hhistory ▸ hgrown)).mono (by grind [SameHistory])
  · -- the turn was cancelled before its first step
    intro hsame
    grind [SameHistory, Grown]

/-- `history_.resize` undoes what has been appended. -/
theorem rollBack_spec (h : List Message) (n historyCheckpoint : Nat) (error : Thrown) :
    ⦃fun s => ⌜historyCheckpoint = h.length ∧ Grown h n s⌝⦄ rollBack call historyCheckpoint error
    ⦃post⟨fun _ _ => ⌜False⌝, fun _ s => ⌜s.history = h ∧ s.llmCalls ≤ n⌝⟩⦄ := by
  mvcgen [rollBack]
  · next s hgrown _ _ _ _ _ _ _ =>
    have htake : h = s.history.take h.length := List.prefix_iff_eq_take.mp hgrown.2.1
    grind [SameHistory, Grown]
  · next s hgrown _ _ _ =>
    intro hsame
    have htake : h = s.history.take h.length := List.prefix_iff_eq_take.mp hgrown.2.1
    grind [SameHistory, Grown]

/-- A call commits a turn or leaves the history as it was. -/
theorem runStreaming_spec (h : List Message) (n : Nat) :
    ⦃fun s => ⌜s.history = h ∧ s.llmCalls = n⌝⦄ runStreaming agent call
    ⦃post⟨fun reply s => ⌜Replied (h ++ [userMessage call.userText]) (n + agent.maxSteps) reply s⌝,
      fun _ s => ⌜s.history = h ∧ s.llmCalls ≤ n + agent.maxSteps⌝⟩⦄ := by
  have hrollBack := @rollBack_spec call h (n + agent.maxSteps)
  mvcgen [runStreaming, runTurn_spec, hrollBack] <;> grind [SameHistory]

/-! ## sequences of calls -/

/-- Every message of `history` is the system message or belongs to a committed turn. -/
def WellFormed (history : List Message) : Prop :=
  ∃ turns : List CommittedTurn, history = systemMessage :: turns.flatMap CommittedTurn.messages

/-- What one call does to the history: it commits a turn with the text it was
given and the reply it returns, or it throws and leaves no message. -/
def CommitsOrRollsBack (agent : Agent) (call : AgentCall) (s : AgentState) : Prop :=
  match (runStreaming agent call).run s with
  | .ok reply t => t.llmCalls ≤ s.llmCalls + agent.maxSteps ∧ ∃ turn : CommittedTurn,
      turn.userText = call.userText ∧ turn.reply = reply ∧ t.history = s.history ++ turn.messages
  | .error _ t => t.llmCalls ≤ s.llmCalls + agent.maxSteps ∧ t.history = s.history

/-- A reply after the user's message is a committed turn. -/
theorem Replied.committed {h : List Message} {n : Nat} {userText reply : Bytes} {s : AgentState}
    (hs : Replied (h ++ [userMessage userText]) n reply s) :
    ∃ turn : CommittedTurn, turn.userText = userText ∧ turn.reply = reply ∧
      s.history = h ++ turn.messages := by
  obtain ⟨-, groups, hhistory⟩ := hs
  refine ⟨⟨userText, groups, reply⟩, rfl, rfl, ?_⟩
  rw [hhistory, CommittedTurn.messages]
  simp only [List.append_assoc, List.cons_append, List.nil_append]

/-- Every call commits a turn or rolls back. -/
theorem runStreaming_commits (agent : Agent) (call : AgentCall) (s : AgentState) :
    CommitsOrRollsBack agent call s := by
  have hspec := @runStreaming_spec agent call s.history s.llmCalls s ⟨rfl, rfl⟩
  unfold CommitsOrRollsBack
  simp only [wp, PredTrans.apply] at hspec
  split at hspec
  · next reply t hrun =>
    rw [hrun]
    exact ⟨hspec.1, hspec.committed⟩
  · next error t hrun =>
    rw [hrun]
    exact ⟨hspec.2, hspec.1⟩

/-- A call keeps the history well formed, however it ends. -/
theorem WellFormed.finalState {s : AgentState} (hs : WellFormed s.history) :
    WellFormed (finalState ((runStreaming agent call).run s)).history := by
  have hcall := runStreaming_commits agent call s
  obtain ⟨turns, hturns⟩ := hs
  unfold CommitsOrRollsBack at hcall
  split at hcall
  · next reply t hrun =>
    obtain ⟨-, turn, -, -, hhistory⟩ := hcall
    refine ⟨turns ++ [turn], ?_⟩
    rw [hrun, Agent.finalState, hhistory, hturns, List.flatMap_append, List.flatMap_singleton,
      List.cons_append]
  · next error t hrun =>
    refine ⟨turns, ?_⟩
    rw [hrun, Agent.finalState, hcall.2, hturns]

/-- Every history of a run is well formed. -/
theorem wellFormed_of_reachable {s : AgentState} (hs : agent.machine.Reachable s) :
    WellFormed s.history := by
  refine Machine.Reachable.rec_inv (P := fun s => WellFormed s.history) ⟨[], rfl⟩ ?_ hs
  intro s call t _ hs hstep
  obtain rfl : _ = t := Option.some.inj hstep
  exact hs.finalState

/-- Every sequence of calls can be made. -/
theorem machine_run_total (agent : Agent) (calls : List AgentCall) (s : AgentState) :
    ∃ t, agent.machine.run s calls = some t := by
  induction calls generalizing s with
  | nil => exact ⟨s, rfl⟩
  | cons call calls ih => exact ih _

end Agent

/-- **An agent's history over any calls**: after any sequence of `run_streaming`
calls the history is the system message followed by committed turns; and the
next call, whatever the model, the tools, the delta sink and the cancellation
predicate do in it, extends the history by one committed turn with the given
text and the returned reply, or throws and leaves the history as it was.  In
both cases it calls the model at most `max_steps` times. -/
theorem agent_history (agent : Agent) (calls : List AgentCall) :
    ∃ s, agent.machine.run agent.machine.init calls = some s ∧ Agent.WellFormed s.history ∧
      ∀ call, Agent.CommitsOrRollsBack agent call s := by
  obtain ⟨s, hs⟩ := Agent.machine_run_total agent calls agent.machine.init
  exact ⟨s, hs, Agent.wellFormed_of_reachable ⟨calls, hs⟩, fun call =>
    Agent.runStreaming_commits agent call s⟩

end ByteTurn

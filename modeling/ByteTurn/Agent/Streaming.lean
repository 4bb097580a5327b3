import ByteTurn.Agent.History
import ByteTurn.Agent.Pieces

/-!
# ByteTurn.Agent.Streaming

What `run_streaming` streams against what it commits.

The tool side of a turn stays within `SameOutput`: it adds no delta and no
message but the tool's own.  A model call that got past the check after it has
passed on every delta of the provider, because a delta is dropped only under a
cancellation that the check would have seen.  The loop over the steps then
streams the texts it commits, up to the text of the step limit.
-/

namespace ByteTurn

open Programs (Within)

/-! ## providers and predicates -/

/-- Along every course of the call, `text` followed by the deltas passed is the
text of the turn returned. -/
def LlmScript.Streams : Bytes → LlmScript → Prop
  | text, .ret turn => turn.text = text
  | _, .throw _ => True
  | text, .delta piece next => ∀ answer, Streams (text ++ piece) (next answer)
  | text, .poll next => ∀ answer, Streams text (next answer)

/-- The deltas of every model call concatenate to the text it returns. -/
def Agent.Streams (agent : Agent) : Prop :=
  ∀ calls history, LlmScript.Streams [] (agent.llm calls history)

/-- The contents of the `Assistant` messages, one after the other. -/
def assistantText (messages : List Message) : Bytes :=
  (messages.filter (·.role = .assistant)).flatMap (·.content)

/-- The reply of a turn that ran out of steps. -/
def stepLimitText : Bytes := lit "I stopped because the tool-step limit was reached."

@[simp] theorem assistantText_nil : assistantText [] = [] := rfl

@[simp] theorem assistantText_append (l m : List Message) :
    assistantText (l ++ m) = assistantText l ++ assistantText m := by
  simp only [assistantText, List.filter_append, List.flatMap_append]

namespace Agent

variable {agent : Agent} {call : AgentCall} {s t : AgentState}

@[simp] theorem assistantText_user (text : Bytes) : assistantText [userMessage text] = [] := rfl

@[simp] theorem assistantText_assistant (text : Bytes) (toolCalls : List ToolCall) :
    assistantText [assistantMessage text toolCalls] = text := by
  simp [assistantText, assistantMessage]

theorem assistantText_tools (toolCalls : List ToolCall) (results : List Bytes) :
    assistantText (List.zipWith toolMessage toolCalls results) = [] := by
  induction toolCalls generalizing results with
  | nil => rfl
  | cons toolCall rest ih =>
      cases results with
      | nil => rfl
      | cons result results =>
          have hone : assistantText [toolMessage toolCall result] = [] := rfl
          rw [List.zipWith_cons_cons, ← List.singleton_append, assistantText_append, hone, ih]
          rfl

theorem assistantText_group (g : ToolGroup) : assistantText g.messages = g.text := by
  rw [ToolGroup.messages, ← List.singleton_append, assistantText_append, assistantText_assistant,
    assistantText_tools, List.append_nil]

theorem assistantText_groups (groups : List ToolGroup) :
    assistantText (groups.flatMap ToolGroup.messages) = groups.flatMap (·.text) := by
  induction groups with
  | nil => rfl
  | cons g groups ih =>
      rw [List.flatMap_cons, List.flatMap_cons, assistantText_append, assistantText_group, ih]

theorem assistantText_turn (turn : CommittedTurn) :
    assistantText turn.messages = turn.groups.flatMap (·.text) ++ turn.reply := by
  rw [CommittedTurn.messages, ← List.singleton_append, assistantText_append, assistantText_append,
    assistantText_user, assistantText_groups, assistantText_assistant, List.nil_append]

/-! ## the tool side -/

/-- Neither a message nor a delta has been added. -/
def SameOutput (s t : AgentState) : Prop := t.history = s.history ∧ t.deltas = s.deltas

theorem SameOutput.refl (s : AgentState) : SameOutput s s := ⟨rfl, rfl⟩

theorem SameOutput.trans (s t u : AgentState) (hst : SameOutput s t) (htu : SameOutput t u) :
    SameOutput s u :=
  ⟨htu.1.trans hst.1, htu.2.trans hst.2⟩

theorem polled_same (s : AgentState) : SameOutput s (polled call s) := by
  unfold polled
  cases call.cancelled <;> exact ⟨rfl, rfl⟩

theorem polls_le_polled (s : AgentState) : s.polls ≤ (polled call s).polls := by
  unfold polled
  cases call.cancelled
  · exact Nat.le_refl _
  · exact Nat.le_succ _

/-- The tool side keeps what is committed and what is streamed. -/
theorem SameOutput.toolSide : ToolSide call SameOutput where
  refl := .refl
  trans := .trans
  polled := polled_same
  emitted _ _ _ _ _ := ⟨rfl, rfl⟩
  handlerBegun s _ := polled_same s

/-- The tool calls of a turn that went on: one message each, and no delta. -/
theorem runTools_ok {toolCalls : List ToolCall}
    (hrun : (runTools agent call toolCalls).run s = .ok () t) :
    t.deltas = s.deltas ∧ ∃ results : List Bytes, results.length = toolCalls.length ∧
      t.history = s.history ++ List.zipWith toolMessage toolCalls results := by
  induction toolCalls generalizing s with
  | nil =>
      cases hrun
      exact ⟨rfl, [], rfl, by simp⟩
  | cons toolCall rest ih =>
      obtain ⟨result, u, hcall, hrun⟩ := Programs.ok_of_bind hrun
      obtain ⟨_, v, hpush, hrun⟩ := Programs.ok_of_bind hrun
      have hsame : SameOutput s u := by
        have hwithin : Within SameOutput (callTool agent call toolCall) := SameOutput.toolSide.callTool toolCall
        have hends := hwithin s
        rwa [hcall] at hends
      obtain ⟨hhistory, hdeltas⟩ := hsame
      cases hpush
      obtain ⟨hrest, results, hlength, hgrown⟩ := ih hrun
      refine ⟨hrest.trans hdeltas, result :: results, by simp [hlength], ?_⟩
      rw [hgrown, List.zipWith_cons_cons, List.append_cons]
      simp only [hhistory]

/-! ## the model side -/

/-- A step of the model call: the history is as before, and `text` has been
streamed, unless the turn has been cancelled meanwhile. -/
def Heard (call : AgentCall) (text : Bytes) (s t : AgentState) : Prop :=
  t.history = s.history ∧ s.polls ≤ t.polls ∧
    (call.answer t.polls = true ∨ ∃ ds, t.deltas = s.deltas ++ ds ∧ ds.flatten = text)

theorem Heard.nothing (s : AgentState) : Heard call [] s s :=
  ⟨rfl, Nat.le_refl _, .inr ⟨[], by simp, rfl⟩⟩

theorem Heard.append {a b : Bytes} {u : AgentState} (hsticky : call.Sticky)
    (hst : Heard call a s t) (htu : Heard call b t u) : Heard call (a ++ b) s u := by
  obtain ⟨hhistory, hpolls, hdeltas⟩ := hst
  obtain ⟨hhistory', hpolls', hdeltas'⟩ := htu
  refine ⟨hhistory'.trans hhistory, Nat.le_trans hpolls hpolls', ?_⟩
  obtain hstop | ⟨ds, hds, hflat⟩ := hdeltas
  · exact .inl (hsticky _ _ hpolls' hstop)
  · obtain hstop | ⟨ds', hds', hflat'⟩ := hdeltas'
    · exact .inl hstop
    · refine .inr ⟨ds ++ ds', ?_, ?_⟩
      · rw [hds', hds, List.append_assoc]
      · rw [List.flatten_append, hflat, hflat']

theorem Heard.of_poll (s : AgentState) : Heard call [] s (polled call s) :=
  ⟨(polled_same s).1, polls_le_polled s, .inr ⟨[], by simp [(polled_same s).2], rfl⟩⟩

/-- A delta is passed on, or dropped under a cancellation. -/
theorem textDelta_heard (hsticky : call.Sticky) {step : Nat} {received : Bool} {delta : Bytes}
    {answer : Except Thrown Bool × Bool}
    (hrun : (textDelta call step received delta).run s = .ok answer t) :
    Heard call delta s t := by
  obtain ⟨stop, u, hpoll, hrun⟩ := Programs.ok_of_bind hrun
  have hpolled : Heard call [] s (polled call s) := .of_poll s
  rw [poll_run] at hpoll
  obtain ⟨rfl, rfl⟩ : call.answer s.polls = stop ∧ polled call s = u := by
    injection hpoll with hstop hu
    exact ⟨hstop, hu⟩
  split at hrun
  · next hstop =>
    -- the delta is dropped
    cases hrun
    exact ⟨hpolled.1, hpolled.2.1, .inl (hsticky _ _ (polls_le_polled s) hstop)⟩
  · split at hrun
    · next hempty =>
      cases hrun
      exact hempty ▸ hpolled
    · -- the delta is passed on
      have hpassed : t.history = (polled call s).history ∧
          t.deltas = (polled call s).deltas ++ [delta] ∧ t.polls = (polled call s).polls := by
        cases received <;> cases hrun <;> exact ⟨rfl, rfl, rfl⟩
      obtain ⟨hhistory, hdeltas, hpolls⟩ := hpassed
      refine ⟨hhistory.trans hpolled.1, ?_, .inr ⟨[delta], ?_, by simp⟩⟩
      · exact Nat.le_trans hpolled.2.1 (Nat.le_of_eq hpolls.symm)
      · rw [hdeltas, (polled_same s).2]

/-- By induction on the call: what a provider has passed on is the text it
returns. -/
theorem stream_heard (hsticky : call.Sticky) {step : Nat} {turn : LlmTurn} {script : LlmScript}
    {before : Bytes} {received : Bool} (hscript : script.Streams before)
    (hrun : (stream call step script received).run s = .ok turn t) :
    ∃ text, turn.text = before ++ text ∧ Heard call text s t := by
  induction script generalizing s before received with
  | ret returned =>
      cases hrun
      exact ⟨[], hscript.trans (List.append_nil _).symm, .nothing _⟩
  | throw error => cases hrun
  | delta piece next ih =>
      obtain ⟨answer, u, hdelta, hrun⟩ := Programs.ok_of_bind hrun
      obtain ⟨text, htext, hheard⟩ := ih answer.1 (hscript answer.1) hrun
      exact ⟨piece ++ text, by rw [htext, List.append_assoc],
        (textDelta_heard hsticky hdelta).append hsticky hheard⟩
  | poll next ih =>
      obtain ⟨stop, u, hpoll, hrun⟩ := Programs.ok_of_bind hrun
      obtain ⟨text, htext, hheard⟩ := ih stop (hscript stop) hrun
      rw [poll_run] at hpoll
      cases hpoll
      exact ⟨text, htext, (Heard.of_poll s).append hsticky hheard⟩

/-- A check that let the turn go on saw no cancellation. -/
theorem checkCancelled_ok (hrun : (checkCancelled call).run s = .ok () t) :
    call.answer s.polls = false ∧ SameOutput s t := by
  have hwithin : Within SameOutput (checkCancelled call) := SameOutput.toolSide.checkCancelled
  have hends := hwithin s
  rw [hrun] at hends
  refine ⟨?_, hends⟩
  obtain ⟨stop, u, hpoll, hrun⟩ := Programs.ok_of_bind hrun
  rw [poll_run] at hpoll
  injection hpoll with hstop
  cases stop with
  | true => cases hrun
  | false => exact hstop

/-- A model call that returned: its text has been streamed. -/
theorem callModel_ok (hsticky : call.Sticky) (hllm : agent.Streams) {step : Nat} {turn : LlmTurn}
    (hrun : (callModel agent call step).run s = .ok turn t) :
    t.history = s.history ∧ ∃ ds, t.deltas = s.deltas ++ ds ∧ ds.flatten = turn.text := by
  obtain ⟨_, u, hstarted, hread⟩ := Programs.ok_of_bind hrun
  obtain ⟨_, u', hget, hwrite⟩ := Programs.ok_of_bind hread
  obtain ⟨_, v, hset, hcall⟩ := Programs.ok_of_bind hwrite
  obtain ⟨returned, w, hstream, hafter⟩ := Programs.ok_of_bind hcall
  obtain ⟨_, w', hreturned, hlater⟩ := Programs.ok_of_bind hafter
  obtain ⟨_, x, hcheck, hend⟩ := Programs.ok_of_bind hlater
  cases hreturned
  cases hstarted
  cases hget
  cases hset
  have hthrows : ∀ error r, ∀ b x, (reportAndRethrow (α := LlmTurn) call (lit "llm") error).run r ≠
      .ok b x := by
    intro error r b x hreport
    unfold reportAndRethrow at hreport
    split at hreport <;> cases hreport
  obtain ⟨text, htext, hhistory, hpolls, hheard⟩ :=
    stream_heard hsticky (hllm _ _) (Programs.ok_of_tryCatch hthrows hstream)
  obtain ⟨hstop, hsame⟩ := checkCancelled_ok hcheck
  -- the check after the call saw no cancellation, so no delta was dropped
  obtain ⟨ds, hds, hflat⟩ : ∃ ds, w.deltas = s.deltas ++ ds ∧ ds.flatten = text :=
    hheard.resolve_left (by simp [hstop])
  split at hend
  · cases hend
  · cases hend
    refine ⟨hsame.1.trans hhistory, ds, hsame.2.trans hds, ?_⟩
    rw [hflat, htext, List.nil_append]

/-! ## the loop over the steps -/

/-- What a loop with `left` steps does: groups and a reply are committed, and
the texts of both streamed; a loop that runs out of steps commits and returns
the text of the step limit in place of a streamed reply. -/
def Delivered (left : Nat) (reply : Bytes) (s t : AgentState) : Prop :=
  ∃ (groups : List ToolGroup) (ds : List Bytes),
    t.history = s.history ++ groups.flatMap ToolGroup.messages ++ [assistantMessage reply []] ∧
    t.deltas = s.deltas ++ ds ∧ groups.length ≤ left ∧
    if groups.length < left then ds.flatten = groups.flatMap (·.text) ++ reply
    else reply = stepLimitText ∧ ds.flatten = groups.flatMap (·.text)

/-- A group before a loop is a group of the loop with one step more. -/
theorem Delivered.after_group {left : Nat} {reply : Bytes} {u : AgentState} {g : ToolGroup}
    {ds : List Bytes} (hhistory : s.history ++ g.messages = u.history)
    (hdeltas : u.deltas = s.deltas ++ ds) (hflat : ds.flatten = g.text)
    (ht : Delivered left reply u t) : Delivered (left + 1) reply s t := by
  obtain ⟨groups, ds', hhistory', hdeltas', hlength, hspoken⟩ := ht
  refine ⟨g :: groups, ds ++ ds', ?_, ?_, by simp [hlength], ?_⟩
  · rw [hhistory', ← hhistory, List.flatMap_cons]
    simp only [List.append_assoc]
  · rw [hdeltas', hdeltas, List.append_assoc]
  · simp only [List.length_cons, Nat.add_lt_add_iff_right, List.flatten_append, List.flatMap_cons,
      hflat, List.append_assoc]
    split
    · next hlt =>
      rw [if_pos hlt] at hspoken
      rw [hspoken]
    · next hlt =>
      rw [if_neg hlt] at hspoken
      exact ⟨hspoken.1, by rw [hspoken.2]⟩

/-- By induction on the steps left. -/
theorem runSteps_delivers (hsticky : call.Sticky) (hllm : agent.Streams) {left : Nat}
    {reply : Bytes} (hrun : (runSteps agent call left).run s = .ok reply t) :
    Delivered left reply s t := by
  induction left generalizing s with
  | zero =>
      cases hrun
      exact ⟨[], [], by simp, by simp, Nat.le_refl _, by simp [stepLimitText]⟩
  | succ left ih =>
      obtain ⟨_, u, hcheck, hstep⟩ := Programs.ok_of_bind hrun
      obtain ⟨turn, v, hmodel, hadd⟩ := Programs.ok_of_bind hstep
      obtain ⟨_, w, hpush, hafter⟩ := Programs.ok_of_bind hadd
      obtain ⟨-, hsame⟩ := checkCancelled_ok hcheck
      obtain ⟨hhistory, ds, hdeltas, hflat⟩ := callModel_ok hsticky hllm hmodel
      rw [hsame.1] at hhistory
      rw [hsame.2] at hdeltas
      cases hpush
      split at hafter
      · next hnone =>
        -- no tool was called: the text ends the turn
        cases hafter
        refine ⟨[], ds, ?_, hdeltas, by simp, by simp [hflat]⟩
        simp [hhistory, hnone]
      · next hsome =>
        obtain ⟨_, x, htools, hsteps⟩ := Programs.ok_of_bind hafter
        obtain ⟨hquiet, results, hlength, hgrown⟩ := runTools_ok htools
        refine .after_group (g := ⟨turn.text, turn.toolCalls, results, hsome, hlength⟩) ?_
          (hquiet.trans hdeltas) hflat (ih hsteps)
        rw [hgrown, ToolGroup.messages, List.append_cons]
        simp only [hhistory]

/-- A call of `run_streaming` that returned. -/
theorem runStreaming_delivers (hsticky : call.Sticky) (hllm : agent.Streams) {reply : Bytes}
    (hrun : (runStreaming agent call).run s = .ok reply t) :
    ∃ (turn : CommittedTurn) (ds : List Bytes), turn.userText = call.userText ∧
      turn.reply = reply ∧ t.history = s.history ++ turn.messages ∧ t.deltas = s.deltas ++ ds ∧
      turn.groups.length ≤ agent.maxSteps ∧
      if turn.groups.length < agent.maxSteps
        then ds.flatten = turn.groups.flatMap (·.text) ++ reply
        else reply = stepLimitText ∧ ds.flatten = turn.groups.flatMap (·.text) := by
  obtain ⟨_, u, hget, hemit⟩ := Programs.ok_of_bind hrun
  obtain ⟨_, v, hstarted, htry⟩ := Programs.ok_of_bind hemit
  cases hget
  cases hstarted
  have hthrows : ∀ error r, ∀ b x,
      (rollBack call s.history.length error).run r ≠ .ok b x := by
    intro error r b x hroll
    obtain ⟨_, _, _, hroll⟩ := Programs.ok_of_bind hroll
    obtain ⟨_, _, _, hroll⟩ := Programs.ok_of_bind hroll
    obtain ⟨_, _, _, hroll⟩ := Programs.ok_of_bind hroll
    cases hroll
  have hturn := Programs.ok_of_tryCatch hthrows htry
  obtain ⟨_, w, hcheck, hadd⟩ := Programs.ok_of_bind hturn
  obtain ⟨_, x, hpush, hsteps⟩ := Programs.ok_of_bind hadd
  obtain ⟨-, hsame⟩ := checkCancelled_ok hcheck
  cases hpush
  obtain ⟨groups, ds, hhistory, hdeltas, hlength, hspoken⟩ :=
    runSteps_delivers hsticky hllm hsteps
  refine ⟨⟨call.userText, groups, reply⟩, ds, rfl, rfl, ?_, ?_, hlength, hspoken⟩
  · rw [hhistory, CommittedTurn.messages]
    simp only [hsame.1, List.append_assoc, List.cons_append, List.nil_append]
  · rw [hdeltas]
    simp only [hsame.2]

end Agent

/-- **What is streamed is what is committed**: when a call of `run_streaming`
returns, it has committed a turn, and the deltas it passed on concatenate to the
contents of the turn's `Assistant` messages, the reply last; if the turn ran out
of steps, the fixed text of the step limit, which is then the reply, comes after
what was streamed. -/
theorem streamed_is_committed (agent : Agent) (call : AgentCall) (s t : AgentState) (reply : Bytes)
    (hllm : agent.Streams) (hsticky : call.Sticky)
    (hrun : (Agent.runStreaming agent call).run s = .ok reply t) :
    ∃ (turn : Agent.CommittedTurn) (ds : List Bytes), turn.userText = call.userText ∧
      turn.reply = reply ∧ t.history = s.history ++ turn.messages ∧ t.deltas = s.deltas ++ ds ∧
      turn.groups.length ≤ agent.maxSteps ∧
      if turn.groups.length < agent.maxSteps
        then ds.flatten = assistantText turn.messages ∧ reply <:+ ds.flatten
        else reply = stepLimitText ∧ ds.flatten ++ stepLimitText = assistantText turn.messages := by
  obtain ⟨turn, ds, huser, hreply, hhistory, hdeltas, hlength, hspoken⟩ :=
    Agent.runStreaming_delivers hsticky hllm hrun
  refine ⟨turn, ds, huser, hreply, hhistory, hdeltas, hlength, ?_⟩
  rw [Agent.assistantText_turn, hreply]
  split
  · next hlt =>
    rw [if_pos hlt] at hspoken
    exact ⟨hspoken, hspoken ▸ List.suffix_append _ _⟩
  · next hlt =>
    rw [if_neg hlt] at hspoken
    exact ⟨hspoken.1, by rw [hspoken.2, hspoken.1]⟩

/-- A model that says `Hello.` and is done. -/
def greetingAgent : Agent where
  llm := fun _ _ => .delta (lit "Hello.") fun _ => .ret { text := lit "Hello." }
  tools := ∅

theorem greetingAgent_streams : greetingAgent.Streams := fun _ _ _ => rfl

theorem streamed_is_committed_greeting :
    ∃ t : AgentState, t.deltas = [lit "Hello."] ∧ ∃ (turn : Agent.CommittedTurn) (ds : List Bytes),
      turn.reply = lit "Hello." ∧ t.deltas = ds ∧
      if turn.groups.length < greetingAgent.maxSteps
        then ds.flatten = assistantText turn.messages ∧ lit "Hello." <:+ ds.flatten
        else lit "Hello." = stepLimitText ∧
          ds.flatten ++ stepLimitText = assistantText turn.messages := by
  refine ⟨Agent.finalState ((Agent.runStreaming greetingAgent { userText := [] }).run {}), rfl, ?_⟩
  obtain ⟨turn, ds, -, hreply, -, hdeltas, -, hspoken⟩ :=
    streamed_is_committed greetingAgent { userText := [] } {} _ (lit "Hello.")
      greetingAgent_streams (fun _ _ _ h => h) rfl
  exact ⟨turn, ds, hreply, hdeltas, hspoken⟩

/-- What the deltas of a returned call concatenate to. -/
def Agent.StreamedIsCommitted (agent : Agent) (call : AgentCall) : Prop :=
  ∀ (s t : AgentState) (reply : Bytes) (added : List Message) (ds : List Bytes),
    (runStreaming agent call).run s = .ok reply t → t.history = s.history ++ added →
    t.deltas = s.deltas ++ ds → ds.flatten = assistantText added

/-- A model that calls a tool in the only step it has. -/
def oneStepAgent : Agent where
  llm := fun _ _ => .ret {
    text := []
    toolCalls := [{ id := lit "1", name := lit "clock", arguments := [] }] }
  tools := ∅
  maxSteps := 1

/-- A predicate that answers only the poll before the delta with true. -/
def fickleCall : AgentCall where
  userText := []
  cancelled := some fun poll => poll == 2

/-- The text of the step limit is committed and returned, and not streamed; and
a delta dropped under a cancellation that is taken back is committed all the
same. -/
theorem committed_beyond_streamed :
    (oneStepAgent.Streams ∧ ¬ oneStepAgent.StreamedIsCommitted { userText := [] }) ∧
    greetingAgent.Streams ∧ ¬ greetingAgent.StreamedIsCommitted fickleCall := by
  refine ⟨⟨fun _ _ => rfl, fun h => ?_⟩, greetingAgent_streams, fun h => ?_⟩
  · have hsame := h {} _ stepLimitText (Agent.finalState
      ((Agent.runStreaming oneStepAgent { userText := [] }).run {})).history [] rfl rfl rfl
    exact absurd hsame (by decide)
  · have hsame := h {} _ (lit "Hello.") (Agent.finalState
      ((Agent.runStreaming greetingAgent fickleCall).run {})).history [] rfl rfl rfl
    exact absurd hsame (by decide)

end ByteTurn

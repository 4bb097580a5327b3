import ByteTurn.Agent.History

/-!
# ByteTurn.AsyncSession

The turns of an agent on its lane of the executor (`session.cpp`), submitted
without completion or failure callbacks.

A turn that the lane takes is run to its end before the next one is taken; a
turn that is cancelled while it is queued is never run.  Cancellation and the
deadline take effect at some poll of the turn's context and stay in effect.
-/

namespace ByteTurn

/-! ## turns -/

/-- `TurnContext`: the numbers of the polls from which on the token is cancelled
and the deadline has passed. -/
structure TurnContext where
  sessionId : Bytes := []
  turnId : Bytes := []
  traceId : Bytes := []
  cancelledAt : Option Nat := none
  expiredAt : Option Nat := none
  deriving DecidableEq, Repr

namespace TurnContext

/-- `cancelled` -/
def cancelled (context : TurnContext) (poll : Nat) : Bool := context.cancelledAt.any (· ≤ poll)

/-- `expired` -/
def expired (context : TurnContext) (poll : Nat) : Bool := context.expiredAt.any (· ≤ poll)

/-- `stop_requested` -/
def stopRequested (context : TurnContext) (poll : Nat) : Bool :=
  context.cancelled poll || context.expired poll

end TurnContext

/-- What `submit` is given. -/
structure SubmittedTurn where
  userText : Bytes
  context : TurnContext := {}
  deriving DecidableEq, Repr

/-- The call of the agent. -/
def SubmittedTurn.call (turn : SubmittedTurn) : AgentCall where
  userText := turn.userText
  sessionId := turn.context.sessionId
  turnId := turn.context.turnId
  traceId := turn.context.traceId
  cancelled := some turn.context.stopRequested

namespace AsyncSession

open Agent

/-- `if (context.stop_requested()) throw std::runtime_error(…)` -/
def checkStop (turn : SubmittedTurn) : AgentM Unit := do
  let stop ← poll turn.call
  if stop then
    let s ← get
    throw { what := if turn.context.expired s.polls then lit "turn deadline exceeded"
      else lit "turn cancelled" }

/-- The task of `submit_streaming`, up to the second check. -/
def runAgent (agent : Agent) (turn : SubmittedTurn) : AgentM Bytes := do
  checkStop turn
  runStreaming agent turn.call

/-- The task of `submit_streaming`.  Without callbacks its `catch` block throws
the exception again. -/
def task (agent : Agent) (turn : SubmittedTurn) : AgentM Bytes := do
  let reply ← runAgent agent turn
  checkStop turn
  pure reply

end AsyncSession

/-! ## the lane -/

/-- A turn whose future has a value or an exception, and the agent before and
after it. -/
structure ResolvedTurn where
  turn : SubmittedTurn
  /-- The lane took it. -/
  executed : Bool
  before : AgentState
  after : AgentState
  future : Except Thrown Bytes

/-- `AsyncSession`, its agent and its lane. -/
structure AsyncSession where
  agent : AgentState := { history := [Agent.systemMessage] }
  queue : List SubmittedTurn := []
  -- history
  resolved : List ResolvedTurn := []

inductive AsyncSessionAction where
  | submit (turn : SubmittedTurn)
  /-- The lane takes the first turn of the queue. -/
  | run
  /-- `cancel_session` or `shutdown`. -/
  | drop (reason : Thrown)

namespace AsyncSession

/-- The value or exception of the promise, and the agent the task leaves. -/
def outcome : EStateM.Result Thrown AgentState Bytes → Except Thrown Bytes × AgentState
  | .ok reply s => (.ok reply, s)
  | .error error s => (.error error, s)

/-- A turn is executed. -/
def execute (agent : Agent) (s : AsyncSession) (turn : SubmittedTurn) : ResolvedTurn :=
  let (future, after) := outcome ((task agent turn).run s.agent)
  ⟨turn, true, s.agent, after, future⟩

/-- The turns of one session. -/
def machine (agent : Agent) : Machine AsyncSession AsyncSessionAction where
  init := {}
  step s
    | .submit turn => some { s with queue := s.queue ++ [turn] }
    | .run => match s.queue with
      | [] => none
      | turn :: queue =>
          let r := s.execute agent turn
          some { agent := r.after, queue := queue, resolved := s.resolved ++ [r] }
    | .drop reason => some { s with
        queue := []
        resolved := s.resolved ++ s.queue.map fun turn =>
          ⟨turn, false, s.agent, s.agent, .error reason⟩ }

end AsyncSession

/-! ## all or nothing -/

/-- An exception leaves the history, a value extends it by the turn's messages,
the last of which is the reply. -/
def ResolvedTurn.AllOrNothing (r : ResolvedTurn) : Prop :=
  match r.future with
  | .error _ => r.after.history = r.before.history
  | .ok reply => ∃ turn : Agent.CommittedTurn, turn.userText = r.turn.userText ∧
      turn.reply = reply ∧ r.after.history = r.before.history ++ turn.messages

/-- The agent has returned a reply, and the stop takes effect before the check
that follows. -/
def ResolvedTurn.StoppedLate (agent : Agent) (r : ResolvedTurn) : Prop :=
  r.executed = true ∧ ∃ reply s, (AsyncSession.runAgent agent r.turn).run r.before = .ok reply s ∧
    r.turn.context.stopRequested s.polls = true

namespace AsyncSession

open Agent

variable {agent : Agent} {turn : SubmittedTurn} {s t : AgentState}

theorem checkStop_run (turn : SubmittedTurn) (s : AgentState) :
    (checkStop turn).run s = if turn.context.stopRequested s.polls then
      .error { what := if turn.context.expired (s.polls + 1) then lit "turn deadline exceeded"
        else lit "turn cancelled" } { s with polls := s.polls + 1 }
    else .ok () { s with polls := s.polls + 1 } := by
  show EStateM.run (checkStop turn) s = _
  unfold checkStop poll
  cases hstop : turn.context.stopRequested s.polls <;>
    simp [SubmittedTurn.call, hstop, EStateM.run, bind, EStateM.bind, get, getThe, MonadStateOf.get,
      EStateM.get, set, EStateM.set, pure, EStateM.pure, throw, throwThe, MonadExceptOf.throw,
      EStateM.throw]

theorem runAgent_run (agent : Agent) (turn : SubmittedTurn) (s : AgentState) :
    (runAgent agent turn).run s = match (checkStop turn).run s with
      | .ok _ t => (runStreaming agent turn.call).run t
      | .error error t => .error error t := by
  unfold runAgent
  rw [EStateM.run_bind]
  cases (checkStop turn).run s <;> rfl

theorem task_run (agent : Agent) (turn : SubmittedTurn) (s : AgentState) :
    (task agent turn).run s = match (runAgent agent turn).run s with
      | .ok reply t => match (checkStop turn).run t with
        | .ok _ t => .ok reply t
        | .error error t => .error error t
      | .error error t => .error error t := by
  unfold task
  rw [EStateM.run_bind]
  cases (runAgent agent turn).run s with
  | error error t => rfl
  | ok reply t =>
      dsimp only
      rw [EStateM.run_bind]
      cases (checkStop turn).run t <;> rfl

/-- What has run before the second check commits the turn or leaves no trace of it. -/
theorem runAgent_commits (agent : Agent) (turn : SubmittedTurn) (s : AgentState) :
    match (runAgent agent turn).run s with
    | .ok reply t => ∃ committed : CommittedTurn, committed.userText = turn.userText ∧
        committed.reply = reply ∧ t.history = s.history ++ committed.messages
    | .error _ t => t.history = s.history := by
  rw [runAgent_run, checkStop_run]
  by_cases hstop : turn.context.stopRequested s.polls = true
  · rw [if_pos hstop]
  · rw [if_neg hstop]
    dsimp only
    have hcommits := runStreaming_commits agent turn.call { s with polls := s.polls + 1 }
    unfold CommitsOrRollsBack at hcommits
    split at hcommits
    · next reply t hrun =>
      rw [hrun]
      exact hcommits.2
    · next error t hrun =>
      rw [hrun]
      exact hcommits.2

/-- A committed turn has messages. -/
theorem messages_ne_nil (committed : CommittedTurn) : committed.messages ≠ [] := by
  unfold CommittedTurn.messages
  exact List.cons_ne_nil _ _

theorem execute_iff (s : AsyncSession) (turn : SubmittedTurn) :
    (s.execute agent turn).AllOrNothing ↔ ¬ (s.execute agent turn).StoppedLate agent := by
  have hcommits := runAgent_commits agent turn s.agent
  have htask := task_run agent turn s.agent
  unfold execute ResolvedTurn.AllOrNothing ResolvedTurn.StoppedLate
  dsimp only
  cases hrun : (runAgent agent turn).run s.agent with
  | error error t =>
      rw [hrun] at hcommits htask
      rw [htask]
      refine iff_of_true hcommits ?_
      rintro ⟨-, reply, t', hok, -⟩
      contradiction
  | ok reply t =>
      rw [hrun] at hcommits htask
      dsimp only at hcommits htask
      rw [checkStop_run] at htask
      by_cases hstop : turn.context.stopRequested t.polls = true
      · -- committed, and then refused
        rw [if_pos hstop] at htask
        rw [htask]
        refine iff_of_false (fun hsame => ?_) (not_not.mpr ⟨rfl, reply, t, rfl, hstop⟩)
        obtain ⟨committed, -, -, hhistory⟩ := hcommits
        have hsame : t.history = s.agent.history := hsame
        rw [hhistory] at hsame
        exact messages_ne_nil committed (List.append_right_eq_self.mp hsame)
      · rw [if_neg hstop] at htask
        rw [htask]
        refine iff_of_true hcommits ?_
        rintro ⟨-, reply', t', hok, hlate⟩
        obtain ⟨-, rfl⟩ := EStateM.Result.ok.inj hok
        exact hstop hlate

end AsyncSession

/-- **Turns**: the turns of a session are all or nothing, except those that are
stopped between the return of the agent and the check after it. -/
theorem asyncSession_turns (agent : Agent) (s : AsyncSession)
    (h : (AsyncSession.machine agent).Reachable s) :
    ∀ r ∈ s.resolved, r.AllOrNothing ↔ ¬ r.StoppedLate agent := by
  refine Machine.Reachable.rec_inv (P := fun s => ∀ r ∈ s.resolved,
    r.AllOrNothing ↔ ¬ r.StoppedLate agent) nofun ?_ h
  intro s a t _ hs hstep r hr
  cases a with
  | submit turn =>
      obtain rfl := Option.some.inj hstep
      exact hs r hr
  | run =>
      unfold AsyncSession.machine at hstep
      dsimp only at hstep
      cases hqueue : s.queue with
      | nil =>
          rw [hqueue] at hstep
          contradiction
      | cons turn queue =>
          rw [hqueue] at hstep
          obtain rfl := Option.some.inj hstep
          cases List.mem_append.mp hr with
          | inl hold => exact hs r hold
          | inr hnew =>
              rw [List.mem_singleton.mp hnew]
              exact AsyncSession.execute_iff s turn
  | drop reason =>
      obtain rfl := Option.some.inj hstep
      cases List.mem_append.mp hr with
      | inl hold => exact hs r hold
      | inr hnew =>
          obtain ⟨turn, -, rfl⟩ := List.mem_map.mp hnew
          exact iff_of_true rfl fun hlate => Bool.false_ne_true hlate.1

/-- A model that answers at once. -/
def promptAgent : Agent where
  llm _ _ := .ret { text := lit "done" }
  tools := ∅

/-- A turn that succeeds, and one that is dropped. -/
def promptRun : List AsyncSessionAction := [
  .submit { userText := lit "one" }, .run, .submit { userText := lit "two" },
  .drop { what := lit "turn cancelled" }]

theorem promptRun_turns : ∃ s : AsyncSession, s.resolved.map (·.future.isOk) = [true, false] ∧
    ∀ r ∈ s.resolved, r.AllOrNothing ↔ ¬ r.StoppedLate promptAgent := by
  have hrun : ((AsyncSession.machine promptAgent).run (AsyncSession.machine promptAgent).init
      promptRun).map (fun s => s.resolved.map (·.future.isOk)) = some [true, false] := by
    decide +kernel
  obtain ⟨s, hrun, hs⟩ := Option.map_eq_some_iff.mp hrun
  exact ⟨s, hs, asyncSession_turns promptAgent s (Machine.Reachable.of_run hrun)⟩

/-- A turn that is cancelled when the agent has polled for the last time. -/
def lateRun : List AsyncSessionAction := [
  .submit { userText := lit "one", context := { cancelledAt := some 4 } }, .run]

theorem lateRun_commits : ¬ ∀ agent s, (AsyncSession.machine agent).Reachable s →
    ∀ r ∈ s.resolved, r.AllOrNothing := by
  intro hall
  have hrun : ((AsyncSession.machine promptAgent).run (AsyncSession.machine promptAgent).init
      lateRun).map (fun s => s.resolved.map fun r => (r.future.isOk, r.before.history.length,
        r.after.history.length)) = some [(false, 1, 3)] := by decide +kernel
  obtain ⟨s, hrun, hs⟩ := Option.map_eq_some_iff.mp hrun
  have hturns := hall promptAgent s (Machine.Reachable.of_run hrun)
  obtain ⟨r, hr, hshape⟩ : ∃ r ∈ s.resolved, (r.future.isOk, r.before.history.length,
      r.after.history.length) = (false, 1, 3) := by
    have hmem : (false, 1, 3) ∈ s.resolved.map fun r => (r.future.isOk, r.before.history.length,
        r.after.history.length) := by
      rw [hs]
      exact List.mem_singleton_self _
    exact List.mem_map.mp hmem
  obtain ⟨hfuture, hlengths⟩ := Prod.mk.inj hshape
  obtain ⟨hbefore, hafter⟩ := Prod.mk.inj hlengths
  have hturn := hturns r hr
  unfold ResolvedTurn.AllOrNothing at hturn
  cases hresult : r.future with
  | ok reply =>
      rw [hresult] at hfuture
      contradiction
  | error error =>
      rw [hresult] at hturn
      dsimp only at hturn
      rw [hturn, hbefore] at hafter
      contradiction

end ByteTurn

import ByteTurn.Conversation

/-!
# ByteTurn.Conversation.Rejection

What a rejected submission leaves behind.

A final transcript stores `Thinking` and its id before it knows whether the
executor takes the turn.  The overload handler then stores `Listening` and an
empty id, whatever was there before, and a stopped executor leaves what has been
stored.  So the conversation is as if the transcript had never come exactly when
it was in the state in which the rejection leaves it.
-/

namespace ByteTurn

namespace Conversation

/-- What `state()`, `turn_id_` and `generation_` say. -/
def view (c : Conversation) : ConversationState × Option Nat × Nat :=
  (c.state, c.turnId, c.generation)

/-- From `d` on, the three say at every moment what they say from `c` on, in
particular at the first sentence and at the end of each turn accepted before. -/
def Undisturbed (c d : Conversation) : Prop :=
  ∀ actions, (conversation.run d actions).map view = (conversation.run c actions).map view

/-- A final transcript that is rejected, with nothing else happening meanwhile. -/
def rejection (stopped : Bool) (i : Nat) : List ConversationAction :=
  if stopped then [.finalTranscript i, .rejectStopped]
  else [.finalTranscript i, .rejectOverloaded, .storeListening i, .clearTurnId i]

/-- The conversation already was as a rejection leaves it. -/
def AsRejected (c : Conversation) (i : Nat) : Prop :=
  if c.stopped then c.state = .thinking ∧ c.turnId = some i
  else c.state = .listening ∧ c.turnId = none

instance (c : Conversation) (i : Nat) : Decidable (c.AsRejected i) := by
  unfold AsRejected
  infer_instance

/-! ## the order of the overload handlers -/

/-- The same but for the order of the overload handlers. -/
def Alike (c d : Conversation) : Prop :=
  ∃ handlers, c.handlers.Perm handlers ∧ d = { c with handlers := handlers }

variable {c d : Conversation}

theorem Alike.view (h : c.Alike d) : d.view = c.view := by
  obtain ⟨handlers, -, rfl⟩ := h
  rfl

/-- A lane's step, with the same done to everything else. -/
theorem alike_lane {handlers : List OverloadHandler} (hperm : c.handlers.Perm handlers)
    (lane : Option Lane) {f : Conversation → Lane → Conversation}
    (hf : ∀ l, (f c l).handlers = c.handlers)
    (hframe : ∀ l, f { c with handlers := handlers } l = { f c l with handlers := handlers }) :
    Option.Rel Alike (lane.map (f c)) (lane.map (f { c with handlers := handlers })) := by
  cases lane with
  | none => exact .none
  | some l => exact .some ⟨handlers, hf l ▸ hperm, hframe l⟩

/-- Two conversations that are alike can do the same, and stay alike. -/
theorem Alike.step (h : c.Alike d) (a : ConversationAction) :
    Option.Rel Alike (conversationStep c a) (conversationStep d a) := by
  obtain ⟨handlers, hperm, rfl⟩ := h
  have hsame : ∀ e : Conversation, e.handlers = c.handlers →
      Option.Rel Alike (some e) (some { e with handlers := handlers }) :=
    fun e he => .some ⟨handlers, he ▸ hperm, rfl⟩
  cases a with
  | drawTurnId => exact hsame c.drawTurnId rfl
  | finalTranscript i =>
      simp only [conversationStep]
      split
      · exact hsame _ rfl
      · exact .none
  | accept =>
      simp only [conversationStep]
      split
      · split
        · exact .none
        · next turn _ _ =>
          exact alike_lane hperm _ (f := fun c lane =>
            { c with lane := lane, turns := c.turns ++ [turn], submission := none })
            (fun _ => rfl) fun _ => rfl
      · exact .none
  | rejectOverloaded =>
      simp only [conversationStep]
      split
      · split
        · exact .none
        · exact .some ⟨_, hperm.append_right _, rfl⟩
      · exact .none
  | rejectStopped =>
      simp only [conversationStep]
      split
      · split
        · exact hsame _ rfl
        · exact .none
      · exact .none
  | storeListening i =>
      simp only [conversationStep, hperm.mem_iff]
      split
      · exact .some ⟨_, (hperm.erase _).append_right _, rfl⟩
      · exact .none
  | clearTurnId i =>
      simp only [conversationStep, hperm.mem_iff]
      split
      · exact .some ⟨_, hperm.erase _, rfl⟩
      · exact .none
  | interrupt =>
      simp only [conversationStep]
      split
      · exact hsame c.interrupt rfl
      · exact .none
  | cancelSession =>
      simp only [conversationStep]
      split
      · exact alike_lane hperm _ (f := fun c lane => { c with lane := lane, submission := none })
          (fun _ => rfl) fun _ => rfl
      · exact .none
  | start =>
      exact alike_lane hperm _ (f := fun c lane => { c with lane := lane, speechStarted := false })
        (fun _ => rfl) fun _ => rfl
  | speak =>
      show Option.Rel Alike (c.runningTurn.map c.speak)
        (c.runningTurn.map { c with handlers := handlers }.speak)
      cases c.runningTurn with
      | none => exact .none
      | some turn =>
          by_cases hstale : turn.generation ≠ c.generation ∨ c.speechStarted
          · simp only [Option.map_some, Conversation.speak, if_pos hstale]
            exact hsame c rfl
          · simp only [Option.map_some, Conversation.speak, if_neg hstale]
            exact hsame { c with state := .speaking, speechStarted := true } rfl
  | complete | fail =>
      show Option.Rel Alike (c.runningTurn.bind c.endTurn)
        (c.runningTurn.bind { c with handlers := handlers }.endTurn)
      cases c.runningTurn with
      | none => exact .none
      | some turn =>
          refine alike_lane hperm (c.lane.step .finish)
            (f := fun c lane => { c.settle turn with lane := lane }) ?_ ?_
          · intro l
            simp only [settle]
            split <;> rfl
          · intro l
            simp only [settle]
            split <;> rfl
  | cancelFromOutside =>
      exact alike_lane hperm (c.lane.step .drop) (f := fun c lane => { c with lane := lane })
        (fun _ => rfl) fun _ => rfl
  | shutdown =>
      simp only [conversationStep]
      split
      · exact .none
      · exact alike_lane hperm _ (f := fun c lane => { c with lane := lane, stopped := true })
          (fun _ => rfl) fun _ => rfl

/-- By induction on the run: two conversations that are alike say the same. -/
theorem Alike.undisturbed (h : c.Alike d) : c.Undisturbed d := by
  intro actions
  induction actions generalizing c d with
  | nil => exact congrArg some h.view
  | cons a actions ih =>
      have hstep := h.step a
      rw [Machine.run_cons, Machine.run_cons]
      show ((conversationStep d a).bind _).map _ = ((conversationStep c a).bind _).map _
      cases hc : conversationStep c a with
      | none =>
          rw [hc] at hstep
          cases hd : conversationStep d a with
          | none => rfl
          | some d' =>
              rw [hd] at hstep
              cases hstep
      | some c' =>
          rw [hc] at hstep
          cases hd : conversationStep d a with
          | none =>
              rw [hd] at hstep
              cases hstep
          | some d' =>
              rw [hd] at hstep
              cases hstep with
              | some halike => exact ih halike

/-! ## a rejection -/

/-- A handler that comes and goes is gone. -/
theorem erase_handler (handlers : List OverloadHandler) (first last : OverloadHandler) :
    handlers.Perm ((((handlers ++ [first]).erase first) ++ [last]).erase last) := by
  have happend : ∀ (l : List OverloadHandler) x, l.Perm ((l ++ [x]).erase x) := by
    intro l x
    have herase := (List.perm_append_comm : (l ++ [x]).Perm ([x] ++ l)).erase x
    rw [List.singleton_append, List.erase_cons_head] at herase
    exact herase.symm
  exact (happend handlers first).trans (happend _ last)

/-- The conversation after a rejection. -/
def rejected (c : Conversation) (i : Nat) : Conversation :=
  if c.stopped then { c with state := .thinking, turnId := some i }
  else { c with
    state := .listening
    turnId := none
    handlers := ((c.handlers ++ [OverloadHandler.mk i false]).erase (.mk i false) ++
      [OverloadHandler.mk i true]).erase (.mk i true) }

theorem finalTranscript_step {i : Nat}
    (h : conversation.step c (.finalTranscript i) = some d) :
    c.submission = none ∧ d = c.onTranscript i := by
  have hstep : conversationStep c (.finalTranscript i) = some d := h
  rw [conversationStep] at hstep
  split at hstep
  · next hopen => exact ⟨hopen.2, (Option.some.inj hstep).symm⟩
  · cases hstep

theorem run_rejection {i : Nat} (hrun : conversation.run c (rejection c.stopped i) = some d) :
    d = c.rejected i := by
  unfold rejection at hrun
  unfold rejected
  split
  · next hstopped =>
    rw [if_pos hstopped] at hrun
    obtain ⟨e, hfinal, hrest⟩ := Option.bind_eq_some_iff.mp hrun
    obtain ⟨e', hreject, hend⟩ := Option.bind_eq_some_iff.mp hrest
    obtain ⟨hsubmission, rfl⟩ := finalTranscript_step hfinal
    have hstep : conversationStep (c.onTranscript i) .rejectStopped =
        some { c.onTranscript i with submission := none } := if_pos hstopped
    obtain rfl := Option.some.inj (hreject.symm.trans hstep)
    obtain rfl := Option.some.inj hend
    rw [← hsubmission]
    rfl
  · next hstopped =>
    rw [if_neg hstopped] at hrun
    obtain ⟨e, hfinal, hrest⟩ := Option.bind_eq_some_iff.mp hrun
    obtain ⟨e₁, hreject, hrest₁⟩ := Option.bind_eq_some_iff.mp hrest
    obtain ⟨e₂, hstore, hrest₂⟩ := Option.bind_eq_some_iff.mp hrest₁
    obtain ⟨e₃, hclear, hend⟩ := Option.bind_eq_some_iff.mp hrest₂
    obtain ⟨hsubmission, rfl⟩ := finalTranscript_step hfinal
    have hreject' : conversationStep (c.onTranscript i) .rejectOverloaded =
        some { c.onTranscript i with
          submission := none
          handlers := c.handlers ++ [OverloadHandler.mk i false] } := if_neg hstopped
    obtain rfl := Option.some.inj (hreject.symm.trans hreject')
    have hstored : conversationStep { c.onTranscript i with
          submission := none
          handlers := c.handlers ++ [OverloadHandler.mk i false] } (.storeListening i) =
        some { c.onTranscript i with
          state := .listening
          submission := none
          handlers := (c.handlers ++ [OverloadHandler.mk i false]).erase (.mk i false) ++ [OverloadHandler.mk i true] } :=
      if_pos (by simp)
    obtain rfl := Option.some.inj (hstore.symm.trans hstored)
    have hcleared : conversationStep { c.onTranscript i with
          state := .listening
          submission := none
          handlers := (c.handlers ++ [OverloadHandler.mk i false]).erase (.mk i false) ++ [OverloadHandler.mk i true] } (.clearTurnId i) =
        some { c.onTranscript i with
          state := .listening
          submission := none
          turnId := if some i = some i then none else some i
          handlers := ((c.handlers ++ [OverloadHandler.mk i false]).erase (.mk i false) ++
            [OverloadHandler.mk i true]).erase (.mk i true) } :=
      if_pos (by simp)
    obtain rfl := Option.some.inj (hclear.symm.trans hcleared)
    obtain rfl := Option.some.inj hend
    rw [if_pos rfl, ← hsubmission]
    rfl

/-- A rejection is not felt exactly when the conversation was as it leaves it. -/
theorem undisturbed_rejected_iff {i : Nat} : c.Undisturbed (c.rejected i) ↔ c.AsRejected i := by
  unfold AsRejected
  constructor
  · intro h
    have hview : (c.rejected i).view = c.view := Option.some.inj (h [])
    unfold rejected view at hview
    split at hview <;> split <;> simp_all
  · intro h
    refine Alike.undisturbed ⟨(c.rejected i).handlers, ?_, ?_⟩
    · unfold rejected
      split
      · exact .refl _
      · exact erase_handler _ _ _
    · unfold rejected
      split
      · next hstopped =>
        rw [if_pos hstopped] at h
        rw [← h.1, ← h.2]
      · next hstopped =>
        rw [if_neg hstopped] at h
        rw [← h.1, ← h.2]

end Conversation

/-- **When a rejected submission disturbs nothing**: in whatever state the
conversation is, `state()`, `turn_id_` and `generation_` are after a rejection,
and along every continuation, what they would have been without the transcript
exactly when the conversation already was as the rejection leaves it. -/
theorem rejected_submission_iff (c d : Conversation) (i : Nat)
    (hrun : conversation.run c (Conversation.rejection c.stopped i) = some d) :
    c.Undisturbed d ↔ c.AsRejected i := by
  rw [Conversation.run_rejection hrun]
  exact Conversation.undisturbed_rejected_iff

/-- A turn that speaks is interrupted, and does not know it yet when the next
utterance comes. -/
def interruptedRun : List ConversationAction :=
  [.drawTurnId, .finalTranscript 1, .accept, .start, .speak, .interrupt, .cancelSession,
    .drawTurnId]

theorem rejected_submission_iff_interrupted :
    ∃ c d, conversation.run conversation.init interruptedRun = some c ∧
      conversation.run c (Conversation.rejection false 2) = some d ∧
      c.runningTurn = some ⟨1, 0⟩ ∧ c.Undisturbed d :=
  ⟨_, _, rfl, rfl, rfl, (rejected_submission_iff _ _ 2 rfl).mpr (by decide)⟩

/-- A turn that has begun to speak, and a second utterance. -/
def spokenRun : List ConversationAction :=
  [.drawTurnId, .finalTranscript 1, .accept, .start, .speak, .drawTurnId]

/-- A full queue silences `state()` and the id of the turn that speaks; a stopped
executor leaves a conversation at rest thinking. -/
theorem rejected_submission_disturbs :
    (∃ c d, conversation.run conversation.init spokenRun = some c ∧
      conversation.run c (Conversation.rejection false 2) = some d ∧
      c.view = (.speaking, some 1, 0) ∧ d.view = (.listening, none, 0) ∧ ¬c.Undisturbed d) ∧
    ∃ c d, conversation.run conversation.init [.drawTurnId, .shutdown] = some c ∧
      conversation.run c (Conversation.rejection true 1) = some d ∧
      c.view = (.listening, none, 0) ∧ d.view = (.thinking, some 1, 0) ∧ ¬c.Undisturbed d := by
  refine ⟨⟨_, _, rfl, rfl, rfl, rfl, fun h => ?_⟩, _, _, rfl, rfl, rfl, rfl, fun h => ?_⟩ <;>
    exact absurd (h []) (by decide)

end ByteTurn

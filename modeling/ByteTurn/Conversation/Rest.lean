import ByteTurn.Conversation

/-!
# ByteTurn.Conversation.Rest

When a conversation returns to rest.

Only the turn named by `turn_id_` resets `state_` and `turn_id_` when it ends,
and only an overload handler resets them on behalf of a submission.  So the
invariant is that somebody still answers for what the two fields say
(`AnsweredBy`).  Four steps of the program can break it, and `LeavesAnswered`
says when they do not.
-/

namespace ByteTurn

namespace Conversation

/-! ## who answers for the state -/

/-- The turn being submitted. -/
def submitting (c : Conversation) : List SpeechTurn :=
  match c.submission with
  | some (.submitting turn) => [turn]
  | _ => []

/-- The turns of some tickets. -/
def turnsOf (c : Conversation) (tickets : List Nat) : List SpeechTurn :=
  tickets.filterMap (c.turns[·]?)

/-- The turns that have been submitted and have not ended. -/
def pending (c : Conversation) : List SpeechTurn :=
  c.submitting ++ c.turnsOf c.lane.unfinished

/-- One of the turns would reset `turnId` when it ends. -/
def Resets (c : Conversation) (turns : List SpeechTurn) (turnId : Nat) : Prop :=
  ∃ turn ∈ turns, turn.generation = c.generation ∧ turn.turnId = turnId

/-- An overload handler has still to store `Listening`. -/
def StorePending (c : Conversation) : Prop := ∃ handler ∈ c.handlers, handler.stored = false

/-- Among the turns and the overload handlers somebody will clear `turn_id_`
and return `state_` to `Listening`, unless that is done. -/
def AnsweredBy (c : Conversation) (turns : List SpeechTurn) : Prop :=
  (∀ i ∈ c.turnId, c.Resets turns i ∨ ∃ handler ∈ c.handlers, handler.turnId = i) ∧
  (c.state = .listening ∨ (∃ i ∈ c.turnId, c.Resets turns i) ∨ c.StorePending)

instance (c : Conversation) (turns : List SpeechTurn) (i : Nat) : Decidable (c.Resets turns i) :=
  inferInstanceAs (Decidable (∃ turn ∈ turns, turn.generation = c.generation ∧ turn.turnId = i))

instance (c : Conversation) : Decidable c.StorePending :=
  inferInstanceAs (Decidable (∃ handler ∈ c.handlers, handler.stored = false))

instance (c : Conversation) (turns : List SpeechTurn) : Decidable (c.AnsweredBy turns) :=
  inferInstanceAs (Decidable (_ ∧ _))

/-- The running turn is about to set `Speaking`. -/
def StartsSpeaking (c : Conversation) : Prop :=
  ∃ turn ∈ c.runningTurn, turn.generation = c.generation ∧ c.speechStarted = false

instance (c : Conversation) : Decidable c.StartsSpeaking :=
  inferInstanceAs (Decidable (∃ turn ∈ c.runningTurn, _))

/-- The four branches that can leave the state unanswered, and when they do not. -/
def LeavesAnswered (c : Conversation) : ConversationAction → Prop
  | .speak => c.StartsSpeaking → (∃ i ∈ c.turnId, c.Resets c.pending i) ∨ c.StorePending
  | .rejectStopped => c.AnsweredBy (c.turnsOf c.lane.unfinished)
  | .cancelFromOutside | .shutdown => c.AnsweredBy (c.submitting ++ c.turnsOf c.lane.running.toList)
  | .clearTurnId turnId => c.turnId = some turnId → c.state = .listening ∨ c.StorePending
  | _ => True

instance (c : Conversation) : (a : ConversationAction) → Decidable (c.LeavesAnswered a)
  | .speak => inferInstanceAs (Decidable (_ → _))
  | .rejectStopped | .cancelFromOutside | .shutdown => inferInstanceAs (Decidable (AnsweredBy _ _))
  | .clearTurnId _ => inferInstanceAs (Decidable (_ → _))
  | .drawTurnId | .finalTranscript _ | .accept | .rejectOverloaded | .storeListening _
  | .interrupt | .cancelSession | .start | .complete | .fail => inferInstanceAs (Decidable True)

/-- No turn is being submitted, queued or running. -/
def AtRest (c : Conversation) : Prop :=
  c.submitting = [] ∧ c.handlers = [] ∧ c.lane.unfinished = []

/-- `state()` is `Listening` and `turn_id_` is empty. -/
def Rested (c : Conversation) : Prop := c.state = .listening ∧ c.turnId = none

instance (c : Conversation) : Decidable c.AtRest := inferInstanceAs (Decidable (_ ∧ _))

instance (c : Conversation) : Decidable c.Rested := inferInstanceAs (Decidable (_ ∧ _))

variable {c d : Conversation} {turns : List SpeechTurn}

theorem AnsweredBy.of_rested (hs : c.state = .listening) (ht : c.turnId = none) :
    c.AnsweredBy turns :=
  ⟨by simp [ht], .inl hs⟩

/-- With nobody left, to be answered is to be at rest. -/
theorem answeredBy_nil (hh : c.handlers = []) : c.AnsweredBy [] ↔ c.Rested := by
  simp only [AnsweredBy, Resets, StorePending, hh, Rested]
  cases c.turnId <;> simp

/-! ## what a step can do -/

/-- The steps of a conversation, one constructor for each of their branches. -/
inductive Moves (c : Conversation) : ConversationAction → Conversation → Prop where
  | drawTurnId : Moves c .drawTurnId c.drawTurnId
  | finalTranscript {i : Nat} (hi : i ∈ c.drawn) (hfree : c.submission = none) :
      Moves c (.finalTranscript i) (c.onTranscript i)
  | accept {turn : SpeechTurn} {lane : Lane} (hsub : c.submission = some (.submitting turn))
      (hrunning : c.stopped = false) (hl : c.lane.step (.accept c.turns.length) = some lane) :
      Moves c .accept { c with lane := lane, turns := c.turns ++ [turn], submission := none }
  | rejectOverloaded {turn : SpeechTurn} (hsub : c.submission = some (.submitting turn))
      (hrunning : c.stopped = false) :
      Moves c .rejectOverloaded { c with
        submission := none
        handlers := c.handlers ++ [⟨turn.turnId, false⟩] }
  | rejectStopped {turn : SpeechTurn} (hsub : c.submission = some (.submitting turn))
      (hstopped : c.stopped = true) : Moves c .rejectStopped { c with submission := none }
  | storeListening {i : Nat} (hi : ⟨i, false⟩ ∈ c.handlers) :
      Moves c (.storeListening i) { c with
        state := .listening
        handlers := c.handlers.erase ⟨i, false⟩ ++ [⟨i, true⟩] }
  | clearTurnId {i : Nat} (hi : ⟨i, true⟩ ∈ c.handlers) :
      Moves c (.clearTurnId i) { c with
        turnId := if c.turnId = some i then none else c.turnId
        handlers := c.handlers.erase ⟨i, true⟩ }
  | interrupt (hfree : c.submission = none) : Moves c .interrupt c.interrupt
  | cancelSession {lane : Lane} (hsub : c.submission = some .interrupting)
      (hl : c.lane.step .drop = some lane) :
      Moves c .cancelSession { c with submission := none, lane := lane }
  | start {lane : Lane} (hl : c.lane.step .start = some lane) :
      Moves c .start { c with lane := lane, speechStarted := false }
  | speak {turn : SpeechTurn} (hturn : c.runningTurn = some turn) : Moves c .speak (c.speak turn)
  | endTurn {a : ConversationAction} {turn : SpeechTurn} {lane : Lane}
      (ha : a = .complete ∨ a = .fail) (hturn : c.runningTurn = some turn)
      (hl : c.lane.step .finish = some lane) : Moves c a { c.settle turn with lane := lane }
  | drop {a : ConversationAction} {lane : Lane} {stopped : Bool}
      (ha : a = .cancelFromOutside ∨ a = .shutdown) (hl : c.lane.step .drop = some lane) :
      Moves c a { c with lane := lane, stopped := stopped }

theorem moves_of_step {a : ConversationAction} (hs : conversationStep c a = some d) :
    Moves c a d := by
  cases a with
  | drawTurnId =>
      obtain rfl := Option.some.inj hs
      exact .drawTurnId
  | finalTranscript i =>
      simp only [conversationStep] at hs
      split at hs <;> try contradiction
      next h =>
      obtain rfl := Option.some.inj hs
      exact .finalTranscript h.1 h.2
  | accept =>
      simp only [conversationStep] at hs
      split at hs <;> try contradiction
      next turn hsub =>
      split at hs <;> try contradiction
      next hrunning =>
      obtain ⟨lane, hl, rfl⟩ := Option.map_eq_some_iff.mp hs
      exact .accept hsub (by simpa using hrunning) hl
  | rejectOverloaded =>
      simp only [conversationStep] at hs
      split at hs <;> try contradiction
      next turn hsub =>
      split at hs <;> try contradiction
      next hrunning =>
      obtain rfl := Option.some.inj hs
      exact .rejectOverloaded hsub (by simpa using hrunning)
  | rejectStopped =>
      simp only [conversationStep] at hs
      split at hs <;> try contradiction
      next turn hsub =>
      split at hs <;> try contradiction
      next hstopped =>
      obtain rfl := Option.some.inj hs
      exact .rejectStopped hsub hstopped
  | storeListening i =>
      simp only [conversationStep] at hs
      split at hs <;> try contradiction
      next hi =>
      obtain rfl := Option.some.inj hs
      exact .storeListening hi
  | clearTurnId i =>
      simp only [conversationStep] at hs
      split at hs <;> try contradiction
      next hi =>
      obtain rfl := Option.some.inj hs
      exact .clearTurnId hi
  | interrupt =>
      simp only [conversationStep] at hs
      split at hs <;> try contradiction
      next hfree =>
      obtain rfl := Option.some.inj hs
      exact .interrupt hfree
  | cancelSession =>
      simp only [conversationStep] at hs
      split at hs <;> try contradiction
      next hsub =>
      obtain ⟨lane, hl, rfl⟩ := Option.map_eq_some_iff.mp hs
      exact .cancelSession hsub hl
  | start =>
      obtain ⟨lane, hl, rfl⟩ := Option.map_eq_some_iff.mp hs
      exact .start hl
  | speak =>
      obtain ⟨turn, hturn, rfl⟩ := Option.map_eq_some_iff.mp hs
      exact .speak hturn
  | complete =>
      obtain ⟨turn, hturn, hs⟩ := Option.bind_eq_some_iff.mp hs
      obtain ⟨lane, hl, rfl⟩ := Option.map_eq_some_iff.mp hs
      exact .endTurn (.inl rfl) hturn hl
  | fail =>
      obtain ⟨turn, hturn, hs⟩ := Option.bind_eq_some_iff.mp hs
      obtain ⟨lane, hl, rfl⟩ := Option.map_eq_some_iff.mp hs
      exact .endTurn (.inr rfl) hturn hl
  | cancelFromOutside =>
      simp only [conversationStep, cancelQueued] at hs
      obtain ⟨lane, hl, rfl⟩ := Option.map_eq_some_iff.mp hs
      exact .drop (.inl rfl) hl
  | shutdown =>
      simp only [conversationStep] at hs
      split at hs <;> try contradiction
      obtain ⟨lane, hl, rfl⟩ := Option.map_eq_some_iff.mp hs
      exact .drop (.inr rfl) hl

/-! ## tickets -/

/-- The tickets in the lane are indices of turns, and `turn_id_` is empty while
`interrupt` holds `submission_mutex_`. -/
structure Ticketed (c : Conversation) : Prop where
  lane : Lane.machine.Reachable c.lane
  below : ∀ ticket ∈ c.lane.accepted, ticket < c.turns.length
  cleared : c.submission = some .interrupting → c.turnId = none

theorem Ticketed.init : Ticketed {} := ⟨.init _, by simp, by simp⟩

/-- A step of the lane that accepts nothing. -/
theorem Ticketed.lane_step {label : Lane.Label} (h : c.Ticketed)
    (hl : c.lane.step label = some d.lane) (haccepted : d.lane.accepted = c.lane.accepted)
    (hturns : d.turns = c.turns) (hcleared : d.submission = some .interrupting → d.turnId = none) :
    d.Ticketed := by
  refine ⟨Lane.reachable_step h.lane hl, fun ticket ht => ?_, hcleared⟩
  rw [hturns]
  exact h.below ticket (haccepted ▸ ht)

theorem Ticketed.step {a : ConversationAction} (h : c.Ticketed)
    (hs : conversationStep c a = some d) : d.Ticketed := by
  cases moves_of_step hs with
  | drawTurnId => exact ⟨h.lane, h.below, h.cleared⟩
  | finalTranscript | rejectOverloaded | rejectStopped => exact ⟨h.lane, h.below, nofun⟩
  | accept hsub hrunning hl =>
      refine ⟨Lane.reachable_step h.lane hl, fun ticket ht => ?_, nofun⟩
      rw [(Lane.unfinished_accept hl).2, List.mem_append, List.mem_singleton] at ht
      have hbelow := h.below ticket
      simp only [List.length_append, List.length_singleton]
      grind
  | storeListening => exact ⟨h.lane, h.below, h.cleared⟩
  | clearTurnId => exact ⟨h.lane, h.below, fun hi => by simp [h.cleared hi]⟩
  | interrupt => exact ⟨h.lane, h.below, fun _ => rfl⟩
  | cancelSession hsub hl => exact h.lane_step hl (Lane.unfinished_drop hl).2.2 rfl nofun
  | start hl => exact h.lane_step hl (Lane.unfinished_start hl).2 rfl h.cleared
  | @speak turn hturn =>
      unfold speak
      split
      · exact h
      · exact ⟨h.lane, h.below, h.cleared⟩
  | @endTurn _ turn lane ha hturn hl =>
      obtain ⟨ticket, hrunning, -⟩ := Option.bind_eq_some_iff.mp hturn
      have haccepted := (Lane.unfinished_finish hl hrunning).2.2
      unfold settle
      split
      · exact h.lane_step hl haccepted rfl fun _ => rfl
      · exact h.lane_step hl haccepted rfl h.cleared
  | drop ha hl => exact h.lane_step hl (Lane.unfinished_drop hl).2.2 rfl h.cleared

theorem ticketed_of_reachable (h : conversation.Reachable c) : c.Ticketed :=
  Machine.Reachable.rec_inv Ticketed.init (fun _ _ _ _ hp hs => hp.step hs) h

/-! ## what a step does to the pending turns -/

theorem Resets.mono {turns' : List SpeechTurn} {i : Nat} (h : c.Resets turns i)
    (hsub : turns ⊆ turns') : c.Resets turns' i := by
  obtain ⟨turn, hmem, hturn⟩ := h
  exact ⟨turn, hsub hmem, hturn⟩

theorem AnsweredBy.mono {turns' : List SpeechTurn} (h : c.AnsweredBy turns)
    (hsub : turns ⊆ turns') : c.AnsweredBy turns' :=
  ⟨fun i hi => (h.1 i hi).imp_left fun hr => hr.mono hsub,
    h.2.imp_right fun hstate => hstate.imp_left fun ⟨i, hi, hr⟩ => ⟨i, hi, hr.mono hsub⟩⟩

theorem turnsOf_snoc {tickets : List Nat} {turn : SpeechTurn}
    (hbelow : ∀ ticket ∈ tickets, ticket < c.turns.length) (hd : d.turns = c.turns ++ [turn]) :
    d.turnsOf (tickets ++ [c.turns.length]) = c.turnsOf tickets ++ [turn] := by
  rw [turnsOf, List.filterMap_append, hd]
  congr 1
  · exact List.filterMap_congr fun ticket ht => List.getElem?_append_left (hbelow ticket ht)
  · simp

theorem Ticketed.unfinished_below (h : c.Ticketed) :
    ∀ ticket ∈ c.lane.unfinished, ticket < c.turns.length := fun ticket ht =>
  h.below ticket ((Lane.serial_of_reachable h.lane).accepted_of_unfinished ht)

theorem pending_endTurn {turn : SpeechTurn} {lane : Lane} (hturn : c.runningTurn = some turn)
    (hl : c.lane.step .finish = some lane) :
    c.turnsOf c.lane.unfinished = turn :: c.turnsOf lane.unfinished := by
  obtain ⟨ticket, hrunning, hget⟩ := Option.bind_eq_some_iff.mp hturn
  rw [(Lane.unfinished_finish hl hrunning).1, turnsOf, List.filterMap_cons, hget]
  rfl

@[simp] theorem settle_submission {turn : SpeechTurn} :
    (c.settle turn).submission = c.submission := by
  unfold settle; split <;> rfl

@[simp] theorem settle_turns {turn : SpeechTurn} : (c.settle turn).turns = c.turns := by
  unfold settle; split <;> rfl

theorem pending_settle {turn : SpeechTurn} {lane : Lane} :
    pending { c.settle turn with lane := lane } = c.submitting ++ c.turnsOf lane.unfinished := by
  rw [pending, submitting, settle_submission, turnsOf, settle_turns]
  rfl

/-- An end of turn resets what the turn answers for, so nothing is left unanswered. -/
theorem AnsweredBy.settle {turn : SpeechTurn} (h : c.AnsweredBy (turn :: turns)) :
    (c.settle turn).AnsweredBy turns := by
  unfold Conversation.settle
  split
  · exact .of_rested rfl rfl
  · next hother =>
    have hresets : ∀ i ∈ c.turnId, c.Resets (turn :: turns) i → c.Resets turns i := by
      rintro i hi ⟨owner, howner, hgen, rfl⟩
      cases List.mem_cons.mp howner with
      | inl heq =>
          subst heq
          exact absurd ⟨hgen, hi⟩ hother
      | inr hmem => exact ⟨owner, hmem, hgen, rfl⟩
    exact ⟨fun i hi => (h.1 i hi).imp_left (hresets i hi),
      h.2.imp_right fun hstate => hstate.imp_left fun ⟨i, hi, hr⟩ => ⟨i, hi, hresets i hi hr⟩⟩

/-- A store by an overload handler. -/
theorem AnsweredBy.storeListening {i : Nat} (h : c.AnsweredBy turns) :
    AnsweredBy { c with
      state := .listening
      handlers := c.handlers.erase ⟨i, false⟩ ++ [⟨i, true⟩] } turns := by
  refine ⟨fun j hj => (h.1 j hj).imp_right fun ⟨handler, hmem, hid⟩ => ?_, .inl rfl⟩
  by_cases heq : handler = ⟨i, false⟩
  · subst heq
    exact ⟨⟨i, true⟩, by simp, hid⟩
  · exact ⟨handler, List.mem_append_left _ ((List.mem_erase_of_ne heq).mpr hmem), hid⟩

/-- The clearing of `turn_id_` by an overload handler. -/
theorem answeredBy_clearTurnId {i : Nat} (h : c.AnsweredBy turns) :
    AnsweredBy { c with
      turnId := if c.turnId = some i then none else c.turnId
      handlers := c.handlers.erase ⟨i, true⟩ } turns ↔
    (c.turnId = some i → c.state = .listening ∨ c.StorePending) := by
  have hstore : StorePending { c with
      turnId := if c.turnId = some i then none else c.turnId
      handlers := c.handlers.erase ⟨i, true⟩ } ↔ c.StorePending := by
    refine ⟨fun ⟨handler, hmem, hs⟩ => ⟨handler, List.mem_of_mem_erase hmem, hs⟩,
      fun ⟨handler, hmem, hs⟩ => ⟨handler, (List.mem_erase_of_ne ?_).mpr hmem, hs⟩⟩
    rintro rfl
    contradiction
  simp only [AnsweredBy, hstore]
  split
  · next hi => simp [hi]
  · next hi =>
    refine ⟨fun _ heq => absurd heq hi, fun _ => ⟨fun j hj => ?_, h.2⟩⟩
    refine (h.1 j hj).imp_right fun ⟨handler, hmem, hid⟩ => ⟨handler, ?_, hid⟩
    refine (List.mem_erase_of_ne ?_).mpr hmem
    rintro rfl
    obtain rfl : i = j := hid
    exact hi hj

/-- **Step lemma**: from an answered state, a step leads to an answered state
exactly if it is not one of the four branches, or meets their condition. -/
theorem answered_step_iff {a : ConversationAction} (h : c.AnsweredBy c.pending)
    (ht : c.Ticketed) (hs : conversationStep c a = some d) :
    d.AnsweredBy d.pending ↔ c.LeavesAnswered a := by
  cases moves_of_step hs with
  | drawTurnId => exact iff_of_true h trivial
  | @finalTranscript i hi hfree =>
      refine iff_of_true ⟨fun j hj => .inl ?_, .inr (.inl ⟨i, rfl, ?_⟩)⟩ trivial
      · exact ⟨⟨i, c.generation⟩, by simp [pending, submitting, onTranscript], rfl,
          Option.some.inj hj⟩
      · exact ⟨⟨i, c.generation⟩, by simp [pending, submitting, onTranscript], rfl, rfl⟩
  | @accept turn lane hsub hrunning hl =>
      refine iff_of_true (h.mono fun owner howner => ?_) trivial
      rw [pending, (Lane.unfinished_accept hl).1, turnsOf_snoc ht.unfinished_below rfl]
      simp only [pending, submitting, hsub, List.mem_append] at howner ⊢
      tauto
  | @rejectOverloaded turn hsub hrunning =>
      refine iff_of_true ⟨fun i hi => ?_, .inr (.inr ⟨⟨turn.turnId, false⟩, by simp, rfl⟩)⟩ trivial
      cases h.1 i hi with
      | inl hresets =>
          -- the rejected submission hands `turn_id_` over to its handler
          obtain ⟨owner, howner, hgen, rfl⟩ := hresets
          rw [pending, submitting, hsub, List.singleton_append, List.mem_cons] at howner
          cases howner with
          | inl heq => exact .inr ⟨⟨turn.turnId, false⟩, by simp, by rw [heq]⟩
          | inr hmem => exact .inl ⟨owner, List.mem_append_right _ hmem, hgen, rfl⟩
      | inr hhandler =>
          obtain ⟨handler, hmem, hid⟩ := hhandler
          exact .inr ⟨handler, List.mem_append_left _ hmem, hid⟩
  | @rejectStopped turn hsub hstopped => exact Iff.rfl
  | storeListening hi => exact iff_of_true h.storeListening trivial
  | clearTurnId hi => exact answeredBy_clearTurnId h
  | interrupt hfree => exact iff_of_true (.of_rested rfl rfl) trivial
  | @cancelSession lane hsub hl =>
      -- no turn answers for an empty `turn_id_`
      have hcleared := ht.cleared hsub
      refine iff_of_true ⟨fun i hi => ?_, h.2.imp_right fun hstate => .inr ?_⟩ trivial
      · rw [hcleared] at hi
        contradiction
      · refine hstate.resolve_left fun ⟨i, hi, _⟩ => ?_
        rw [hcleared] at hi
        contradiction
  | @start lane hl =>
      refine iff_of_true (h.mono fun owner howner => ?_) trivial
      rw [pending, (Lane.unfinished_start hl).1]
      exact howner
  | @speak turn hturn =>
      unfold Conversation.speak
      split
      · next hquiet =>
        refine iff_of_true h fun ⟨other, hother, hgen, hstarted⟩ => ?_
        obtain rfl := Option.some.inj (hturn.symm.trans hother)
        simp [hgen, hstarted] at hquiet
      · next hstarts =>
        simp only [not_or, not_not, Bool.not_eq_true] at hstarts
        have hspeaks : c.StartsSpeaking := ⟨turn, hturn, hstarts⟩
        refine ⟨fun hd _ => hd.2.resolve_left (by simp), fun hguard => ⟨h.1, .inr (hguard hspeaks)⟩⟩
  | @endTurn a turn lane ha hturn hl =>
      have hpending := pending_endTurn hturn hl
      have hsettled : (c.settle turn).AnsweredBy (c.submitting ++ c.turnsOf lane.unfinished) := by
        refine AnsweredBy.settle (h.mono fun owner howner => ?_)
        rw [pending, hpending] at howner
        simp only [List.mem_append, List.mem_cons] at howner ⊢
        tauto
      refine iff_of_true ?_ (by obtain rfl | rfl := ha <;> trivial)
      rw [pending_settle]
      exact hsettled
  | @drop a lane stopped ha hl =>
      have hpending : pending { c with lane := lane, stopped := stopped } =
          c.submitting ++ c.turnsOf c.lane.running.toList := by
        rw [pending, (Lane.unfinished_drop hl).1]
        rfl
      rw [hpending]
      obtain rfl | rfl := ha <;> exact Iff.rfl

theorem answered_of_guarded (h : (conversation.guarded LeavesAnswered).Reachable c) :
    c.AnsweredBy c.pending := by
  refine Machine.Reachable.rec_inv (m := conversation.guarded LeavesAnswered)
    (P := fun c => c.AnsweredBy c.pending) (.of_rested rfl rfl) ?_ h
  intro c a d hr hp hstep
  obtain ⟨hg, hs⟩ := Machine.guarded_step.mp hstep
  exact (answered_step_iff hp (ticketed_of_reachable hr.of_guarded) hs).mpr hg

theorem AtRest.pending (h : c.AtRest) : c.pending = [] := by
  obtain ⟨hsub, -, hlane⟩ := h
  rw [Conversation.pending, hsub, hlane]
  rfl

/-! ## what happens to an unanswered state -/

/-- A step that starts no submission and ends none as overloaded. -/
def Winds (a : ConversationAction) : Prop :=
  a ≠ .interrupt ∧ a ≠ .rejectOverloaded ∧ ∀ i, a ≠ .finalTranscript i

/-- Winding down answers for nothing that was not answered for. -/
theorem answered_of_winds {a : ConversationAction} (ha : Winds a) (ht : c.Ticketed)
    (hs : conversationStep c a = some d) (h : d.AnsweredBy d.pending) :
    c.AnsweredBy c.pending := by
  cases moves_of_step hs with
  | finalTranscript => exact absurd rfl (ha.2.2 _)
  | rejectOverloaded => exact absurd rfl ha.2.1
  | interrupt => exact absurd rfl ha.1
  | drawTurnId => exact h
  | @accept turn lane hsub hrunning hl =>
      refine AnsweredBy.mono (c := c) h fun owner howner => ?_
      rw [pending, (Lane.unfinished_accept hl).1, turnsOf_snoc ht.unfinished_below rfl] at howner
      simp only [pending, submitting, hsub, List.mem_append] at howner ⊢
      tauto
  | rejectStopped => exact AnsweredBy.mono (c := c) h (List.subset_append_right _ _)
  | @storeListening i hi =>
      refine ⟨fun j hj => (h.1 j hj).imp_right fun ⟨handler, hmem, hid⟩ => ?_,
        .inr (.inr ⟨_, hi, rfl⟩)⟩
      cases List.mem_append.mp hmem with
      | inl hmem => exact ⟨handler, List.mem_of_mem_erase hmem, hid⟩
      | inr hmem =>
          rw [List.mem_singleton.mp hmem] at hid
          exact ⟨_, hi, hid⟩
  | @clearTurnId i hi =>
      have hstore (hd : StorePending { c with handlers := c.handlers.erase ⟨i, true⟩ }) :
          c.StorePending := by
        obtain ⟨handler, hmem, hstored⟩ := hd
        exact ⟨handler, List.mem_of_mem_erase hmem, hstored⟩
      refine ⟨fun j hj => ?_, ?_⟩
      · by_cases heq : c.turnId = some i
        · obtain rfl := Option.some.inj (heq.symm.trans hj)
          exact .inr ⟨_, hi, rfl⟩
        · refine (h.1 j (by simpa [heq] using hj)).imp_right fun ⟨handler, hmem, hid⟩ => ?_
          exact ⟨handler, List.mem_of_mem_erase hmem, hid⟩
      · refine h.2.imp_right fun hstate => hstate.imp (fun ⟨j, hj, hr⟩ => ⟨j, ?_, hr⟩) hstore
        simp only at hj
        split at hj <;> [contradiction; exact hj]
  | @cancelSession lane hsub hl =>
      have hcleared := ht.cleared hsub
      refine ⟨fun i hi => ?_, h.2.imp_right fun hstate => .inr (hstate.resolve_left ?_)⟩
      · rw [hcleared] at hi
        contradiction
      · rintro ⟨i, hi, -⟩
        rw [show c.turnId = none from hcleared] at hi
        contradiction
  | @start lane hl =>
      refine AnsweredBy.mono (c := c) h fun owner howner => ?_
      rw [pending, (Lane.unfinished_start hl).1] at howner
      exact howner
  | @speak turn hturn =>
      unfold Conversation.speak at h
      split at h
      · exact h
      · exact ⟨h.1, .inr (h.2.resolve_left (by simp))⟩
  | @endTurn a turn lane _ hturn hl =>
      have hpending := pending_endTurn hturn hl
      have hmem : turn ∈ c.pending := by simp [pending, hpending]
      by_cases hown : turn.generation = c.generation ∧ c.turnId = some turn.turnId
      · -- the turn itself answered
        have hresets : ∃ i ∈ c.turnId, c.Resets c.pending i := ⟨_, hown.2, turn, hmem, hown.1, rfl⟩
        refine ⟨fun i hi => .inl ?_, .inr (.inl hresets)⟩
        obtain rfl := Option.some.inj (hown.2.symm.trans hi)
        exact ⟨turn, hmem, hown.1, rfl⟩
      · rw [pending_settle, settle, if_neg hown] at h
        refine AnsweredBy.mono (c := c) h fun owner howner => ?_
        rw [pending, hpending]
        simp only [List.mem_append, List.mem_cons] at howner ⊢
        tauto
  | @drop a lane stopped _ hl =>
      refine AnsweredBy.mono (c := c) h fun owner howner => ?_
      rw [pending, (Lane.unfinished_drop hl).1] at howner
      simp only [pending, submitting, turnsOf, Lane.unfinished, List.filterMap_append,
        List.mem_append] at howner ⊢
      tauto

/-- What a conversation has still to do. -/
def size (c : Conversation) : Nat :=
  (match c.submission with
    | some (.submitting _) => 3
    | some .interrupting => 1
    | none => 0) +
  (c.handlers.map fun handler => if handler.stored then 1 else 2).sum +
  (2 * c.lane.waiting.length + c.lane.running.toList.length)

theorem exists_winds_of_submission (ht : c.Ticketed) (hsub : c.submission ≠ none) :
    ∃ a d, Winds a ∧ conversationStep c a = some d ∧ d.size < c.size := by
  cases hholder : c.submission with
  | none => exact absurd hholder hsub
  | some holder =>
      cases holder with
      | interrupting =>
          refine ⟨.cancelSession, { c with
            submission := none
            lane := { c.lane with waiting := [], dropped := c.lane.dropped ++ c.lane.waiting } },
            by simp [Winds], ?_, ?_⟩
          · simp [conversationStep, hholder, cancelQueued, Lane.step]
          · simp only [size, hholder, List.length_nil]
            omega
      | submitting turn =>
          cases hstopped : c.stopped with
          | true =>
              refine ⟨.rejectStopped, { c with submission := none }, by simp [Winds], ?_, ?_⟩
              · simp [conversationStep, hholder, hstopped]
              · simp [size, hholder]
          | false =>
              refine ⟨.accept, { c with
                submission := none
                turns := c.turns ++ [turn]
                lane := { c.lane with
                  accepted := c.lane.accepted ++ [c.turns.length]
                  waiting := c.lane.waiting ++ [c.turns.length] } }, by simp [Winds], ?_, ?_⟩
              · simp only [conversationStep, hholder, hstopped, accept, Lane.step, if_pos ht.below]
                rfl
              · simp only [size, hholder, List.length_append, List.length_singleton]
                omega

theorem exists_winds_of_handler {handler : OverloadHandler} {rest : List OverloadHandler}
    (hhandlers : c.handlers = handler :: rest) :
    ∃ a d, Winds a ∧ conversationStep c a = some d ∧ d.size < c.size := by
  obtain ⟨i, stored⟩ := handler
  cases stored with
  | true =>
      refine ⟨.clearTurnId i, { c with
        turnId := if c.turnId = some i then none else c.turnId
        handlers := rest }, by simp [Winds], ?_, ?_⟩
      · simp [conversationStep, hhandlers]
      · simp [size, hhandlers]
  | false =>
      refine ⟨.storeListening i, { c with
        state := .listening
        handlers := rest ++ [⟨i, true⟩] }, by simp [Winds], ?_, ?_⟩
      · simp [conversationStep, hhandlers]
      · simp [size, hhandlers]
        omega

theorem exists_winds_of_lane (ht : c.Ticketed) (hlane : c.lane.unfinished ≠ []) :
    ∃ a d, Winds a ∧ conversationStep c a = some d ∧ d.size < c.size := by
  cases hrunning : c.lane.running with
  | some ticket =>
      have hbelow : ticket < c.turns.length :=
        ht.unfinished_below ticket (by simp [Lane.unfinished, hrunning])
      have hturn : c.runningTurn = some (c.turns[ticket]) := by
        rw [runningTurn, hrunning, Option.bind_some, List.getElem?_eq_getElem hbelow]
      refine ⟨.fail, { c.settle (c.turns[ticket]) with
        lane := { c.lane with running := none, finished := c.lane.finished ++ [ticket] } },
        by simp [Winds], ?_, ?_⟩
      · simp [conversationStep, hturn, endTurn, Lane.step, hrunning]
      · have hhandlers : (c.settle (c.turns[ticket])).handlers = c.handlers := by
          unfold settle; split <;> rfl
        simp [size, hrunning, hhandlers]
  | none =>
      cases hwaiting : c.lane.waiting with
      | nil => simp [Lane.unfinished, hrunning, hwaiting] at hlane
      | cons ticket rest =>
          refine ⟨.start, { c with
            speechStarted := false
            lane := { c.lane with
              running := some ticket
              waiting := rest
              started := c.lane.started ++ [ticket] } }, by simp [Winds], ?_, ?_⟩
          · simp [conversationStep, Lane.step, hrunning, hwaiting]
          · simp [size, hrunning, hwaiting]
            omega

/-- While something is left to do, a step that winds down does some of it. -/
theorem exists_winds (ht : c.Ticketed) (hsize : c.size ≠ 0) :
    ∃ a d, Winds a ∧ conversationStep c a = some d ∧ d.size < c.size := by
  by_cases hsub : c.submission = none
  · by_cases hlane : c.lane.unfinished = []
    · cases hhandlers : c.handlers with
      | nil =>
          obtain ⟨hrunning, hwaiting⟩ := List.append_eq_nil_iff.mp hlane
          simp [size, hsub, hhandlers, hrunning, hwaiting] at hsize
      | cons handler rest => exact exists_winds_of_handler hhandlers
    · exact exists_winds_of_lane ht hlane
  · exact exists_winds_of_submission ht hsub

theorem atRest_of_size (hsize : c.size = 0) : c.AtRest := by
  have hsub : c.submission = none := by
    unfold size at hsize
    split at hsize <;> grind
  have hhandlers : c.handlers = [] := by
    cases hh : c.handlers with
    | nil => rfl
    | cons handler rest =>
        simp only [size, hh, List.map_cons, List.sum_cons] at hsize
        split at hsize <;> grind
  refine ⟨by simp [submitting, hsub], hhandlers, ?_⟩
  simp only [size] at hsize
  have hrunning : c.lane.running.toList = [] := List.eq_nil_of_length_eq_zero (by omega)
  have hwaiting : c.lane.waiting = [] := List.eq_nil_of_length_eq_zero (by omega)
  rw [Lane.unfinished, hrunning, hwaiting, List.nil_append]

/-- What nobody answers for stays when everything has wound down. -/
theorem rests_wrongly (hr : conversation.Reachable c) (hc : ¬ c.AnsweredBy c.pending) :
    ∃ d, conversation.Leads c d ∧ d.AtRest ∧ ¬ d.Rested := by
  have hwind : ∀ c, conversation.Reachable c ∧ ¬ c.AnsweredBy c.pending → c.size ≠ 0 →
      ∃ a d, conversation.step c a = some d ∧
        (conversation.Reachable d ∧ ¬ d.AnsweredBy d.pending) ∧ d.size < c.size := by
    rintro c ⟨hr, hc⟩ hsize
    have ht := ticketed_of_reachable hr
    obtain ⟨a, d, ha, hs, hlt⟩ := exists_winds ht hsize
    exact ⟨a, d, hs, ⟨hr.step (a := a) hs, fun hd => hc (answered_of_winds ha ht hs hd)⟩, hlt⟩
  obtain ⟨d, hl, ⟨-, hd⟩, hsize⟩ := Machine.Leads.exists_drained hwind ⟨hr, hc⟩
  have hrest := atRest_of_size hsize
  refine ⟨d, hl, hrest, fun hrested => hd ?_⟩
  rw [hrest.pending]
  exact (answeredBy_nil hrest.2.1).mpr hrested

end Conversation

open Conversation

/-- **A conversation at rest**: while its steps meet `LeavesAnswered`, a
conversation with no turn submitted, queued or running is `Listening` with an
empty `turn_id_`; the first step that does not meet it can be followed by a
conversation at rest that is not. -/
theorem conversation_rests_iff_answered (c : Conversation)
    (h : (conversation.guarded LeavesAnswered).Reachable c) :
    (c.AtRest → c.Rested) ∧
      ∀ a d, conversation.step c a = some d → ¬ c.LeavesAnswered a →
        ∃ r, conversation.Leads d r ∧ r.AtRest ∧ ¬ r.Rested := by
  have hc := answered_of_guarded h
  have hr := h.of_guarded
  refine ⟨fun hrest => ?_, fun a d hs hg => ?_⟩
  · rw [hrest.pending] at hc
    exact (answeredBy_nil hrest.2.1).mp hc
  · have hd := mt (answered_step_iff hc (ticketed_of_reachable hr) hs).mp hg
    exact rests_wrongly (hr.step hs) hd

/-- A turn is accepted, a second one is rejected as overloaded, and then the
first one speaks and completes. -/
def overloadedRun : List ConversationAction :=
  [.drawTurnId, .drawTurnId, .finalTranscript 1, .accept, .finalTranscript 2, .rejectOverloaded,
   .storeListening 2, .clearTurnId 2, .start, .speak, .complete]

theorem overloadedRun_stays_speaking :
    ∃ c, conversation.run conversation.init overloadedRun = some c ∧ c.AtRest ∧ ¬ c.Rested :=
  ⟨_, rfl, by decide, by decide⟩

/-- Without the second submission the same turn leaves the conversation at rest. -/
theorem overloadedRun_first_turn_rests :
    ∃ c, (conversation.guarded LeavesAnswered).run conversation.init
        [.drawTurnId, .finalTranscript 1, .accept, .start, .speak, .complete] = some c ∧
      c.AtRest ∧ c.Rested :=
  ⟨_, rfl, by decide, (conversation_rests_iff_answered _
    ⟨[.drawTurnId, .finalTranscript 1, .accept, .start, .speak, .complete], rfl⟩).1 (by decide)⟩

end ByteTurn

import ByteTurn.Conversation.Responses

/-!
# ByteTurn.Conversation.Tasks

What a step can do to a response, and where the responses are in the lane.

`Response.Task` lists the steps of a task and `Response.Provider` those of the
pipeline's worker, one constructor for each branch; `Responses.Moves` says which
of them a step of `responses` is.  `Placed` ties the place of every response to
the lane.
-/

namespace ByteTurn

namespace Response

variable {config : IncrementalTtsConfig} {v : ResponseView} {r t : Response}

/-! ## the steps of a task -/

/-- A call of the pipeline. -/
def Calls (config : IncrementalTtsConfig) (v : ResponseView) (r : Response)
    (a : IncrementalTtsAction) (t : Response) : Prop :=
  ∃ p h q, r.speech = some (p, h) ∧
    (ByteTurn.speech config).step ({ p with cancelled := p.cancelled || v.gone }, h) (.pipeline a) =
      some q ∧ t = { r with speech := some q }

theorem calls_iff {a : IncrementalTtsAction} :
    r.speechStep config v a = some t ↔ r.Calls config v a t := by
  unfold speechStep Calls
  constructor
  · intro h
    obtain ⟨⟨p, history⟩, hspeech, h⟩ := Option.bind_eq_some_iff.mp h
    obtain ⟨q, hq, rfl⟩ := Option.map_eq_some_iff.mp h
    exact ⟨p, history, q, hspeech, hq, rfl⟩
  · rintro ⟨p, history, q, hspeech, hq, rfl⟩
    rw [hspeech, Option.bind_some]
    exact Option.map_eq_some_iff.mpr ⟨q, hq, rfl⟩

/-- The steps of a task, one constructor for each branch. -/
inductive Task (config : IncrementalTtsConfig) (v : ResponseView) (r : Response) :
    Response → Prop where
  | took (hp : r.place = .taken) :
      Task config v r { r with cancelled := r.cancelled || r.expired, place := .entering }
  | refused (hp : r.place = .entering ∨ r.place = .returned) (hstop : r.stopRequested = true) :
      Task config v r { r with place := .failing }
  | entered (hp : r.place = .entering) (hgo : r.stopRequested = false) :
      Task config v r (publish { r with place := .agent } [.turnStarted])
  | deltaIgnored {text : Bytes} (hp : r.place = .agent)
      (hignored : r.stopRequested = true ∨ text = []) :
      Task config v r { r with deltas := r.deltas ++ [text] }
  | deltaTaken {text : Bytes} {sentences : List Bytes} {segmenter : SentenceSegmenter}
      (hp : r.place = .agent) (hpush : r.segmenter.push text = (.ok sentences, segmenter)) :
      Task config v r { r with
        deltas := r.deltas ++ [text]
        segmenter := segmenter
        sentences := r.sentences ++ sentences
        place := .speaking sentences }
  | deltaThrew {text : Bytes} {e : Exception} {segmenter : SentenceSegmenter}
      (hp : r.place = .agent) (hpush : r.segmenter.push text = (.error e, segmenter)) :
      Task config v r { r with deltas := r.deltas ++ [text], segmenter := segmenter }
  | agentReturned (completed : Bool) (hp : r.place = .agent) :
      Task config v r (publish { r with place := .returned }
        [if completed then .turnCompleted else .turnFailed])
  | agentThrew (hp : r.place = .agent) :
      Task config v r (publish { r with place := .failing }
        [if r.stopRequested then .turnCancelled else .turnFailed])
  | spoken (hp : r.place = .speaking []) : Task config v r r.resume
  | stale {sentence : Bytes} {rest : List Bytes} (hp : r.place = .speaking (sentence :: rest))
      (hgone : v.gone = true) : Task config v r r.resume
  | opens {sentence : Bytes} {rest : List Bytes} (hp : r.place = .speaking (sentence :: rest))
      (hhere : v.gone = false) (hnone : r.speech = none) :
      Task config v r { r with place := .opening sentence rest }
  | chunk {sentence : Bytes} {rest : List Bytes} (hp : r.place = .speaking (sentence :: rest))
      (hhere : v.gone = false) (hsome : r.speech ≠ none) :
      Task config v r (publish { r with place := .pushing sentence rest } [.ttsChunkStarted])
  | closed {sentence : Bytes} {rest : List Bytes} (hp : r.place = .opening sentence rest)
      (hold : v.current = false) : Task config v r r.resume
  | opened {sentence : Bytes} {rest : List Bytes} (hp : r.place = .opening sentence rest)
      (hcurrent : v.current = true) :
      Task config v r (publish
        { r with speech := some ({}, {}), place := .pushing sentence rest }
        [.speechStarted, .ttsChunkStarted])
  | accepted {sentence : Bytes} {rest : List Bytes} {p q : IncrementalTtsState} {h : TtsHistory}
      (hp : r.place = .pushing sentence rest) (hspeech : r.speech = some (p, h))
      (hpush : { p with cancelled := p.cancelled || v.gone }.push config sentence = (q, some true)) :
      Task config v r { r with speech := some (q, h), place := .speaking rest }
  | declined {sentence : Bytes} {rest : List Bytes} {p q : IncrementalTtsState} {h : TtsHistory}
      (hp : r.place = .pushing sentence rest) (hspeech : r.speech = some (p, h))
      (hpush : { p with cancelled := p.cancelled || v.gone }.push config sentence =
        (q, some false)) :
      Task config v r (resume { r with speech := some (q, h) })
  | flushed {sentences : List Bytes} {segmenter : SentenceSegmenter} (hp : r.place = .returned)
      (hgo : r.stopRequested = false) (hflush : r.segmenter.flush = (.ok sentences, segmenter)) :
      Task config v r { r with
        segmenter := segmenter
        flushed := true
        sentences := r.sentences ++ sentences
        place := .speaking sentences }
  | unflushed {e : Exception} {segmenter : SentenceSegmenter} (hp : r.place = .returned)
      (hgo : r.stopRequested = false) (hflush : r.segmenter.flush = (.error e, segmenter)) :
      Task config v r { r with segmenter := segmenter, place := .failing }
  | silent (hp : r.place = .finishing) (hnone : r.speech = none) :
      Task config v r { r with place := .checking }
  | finishes {q : Response} (hp : r.place = .finishing) (hq : r.Calls config v .finish q) :
      Task config v r { q with place := .joining }
  | joins {q : Response} (hp : r.place = .joining) (hq : r.Calls config v .finishReturn q) :
      Task config v r (q.joined .checking .failing)
  | stopped (hp : r.place = .checking) (hstop : r.stopRequested = true ∨ v.gone = true) :
      Task config v r { r with place := .failing }
  | passed (hp : r.place = .checking) (hgo : r.stopRequested = false) (hhere : v.gone = false) :
      Task config v r { r with place := .publishing }
  | completed (hp : r.place = .publishing) :
      Task config v r (publish { r with place := .settling }
        ((if r.speech.isSome then [.speechCompleted] else []) ++ [.conversationTurnCompleted]))
  | mute (hp : r.place = .failing) (hnone : r.speech = none) :
      Task config v r { r with place := .reporting }
  | cancels {q : Response} (hp : r.place = .failing) (hq : r.Calls config v .cancel q) :
      Task config v r { q with place := .quieting }
  | quiets {q : Response} (hp : r.place = .quieting) (hq : r.Calls config v .finish q) :
      Task config v r { q with place := .rejoining }
  | rejoins {q : Response} (hp : r.place = .rejoining) (hq : r.Calls config v .finishReturn q) :
      Task config v r (q.joined .reporting .reporting)
  | late (hp : r.place = .reporting) (hexpired : r.expired = true) :
      Task config v r (publish { r with place := .resigning } [.conversationTurnFailed])
  | inTime (hp : r.place = .reporting) (hexpired : r.expired = false) :
      Task config v r { r with place := .classifying }
  | classified (hp : r.place = .classifying) :
      Task config v r (publish { r with place := .resigning }
        [if r.cancelled || !v.current then .conversationTurnCancelled
          else .conversationTurnFailed])
  | leaves (hp : r.place = .settling ∨ r.place = .resigning) :
      Task config v r { r with place := .ended }

theorem task_of_push {sentence : Bytes} {rest : List Bytes}
    (hp : r.place = .pushing sentence rest)
    (h : r.pushSentence config v sentence rest = some t) : r.Task config v t := by
  obtain ⟨⟨p, history⟩, hspeech, h⟩ := Option.bind_eq_some_iff.mp h
  dsimp only at h
  split at h
  · contradiction
  · next q hpush =>
      obtain rfl := Option.some.inj h
      exact .accepted hp hspeech hpush
  · next q hpush =>
      obtain rfl := Option.some.inj h
      exact .declined hp hspeech hpush

/-- A step of the task at the sentences the segmenter returned. -/
theorem task_of_speaking {sentences : List Bytes} (hp : r.place = .speaking sentences)
    (h : r.advance config v = some t) : r.Task config v t := by
  unfold advance at h
  rw [hp] at h
  cases sentences with
  | nil =>
      obtain rfl := Option.some.inj h
      exact .spoken hp
  | cons sentence rest =>
      dsimp only at h
      split at h
      · next hgone =>
          obtain rfl := Option.some.inj h
          exact .stale hp hgone
      · next hhere =>
          have hhere := Bool.eq_false_of_not_eq_true hhere
          split at h
          · next hnone =>
              obtain rfl := Option.some.inj h
              exact .opens hp hhere (Option.isNone_iff_eq_none.mp hnone)
          · next hsome =>
              obtain rfl := Option.some.inj h
              exact .chunk hp hhere fun hnone => hsome (by rw [hnone]; rfl)

/-- A step of the task on its way through the completion. -/
theorem task_of_completion
    (hp : r.place = .returned ∨ r.place = .finishing ∨ r.place = .joining ∨
      r.place = .checking ∨ r.place = .publishing)
    (h : r.advance config v = some t) : r.Task config v t := by
  unfold advance at h
  rcases hp with hp | hp | hp | hp | hp <;> rw [hp] at h <;> dsimp only at h
  · split at h
    · next hstop =>
        obtain rfl := Option.some.inj h
        exact .refused (.inr hp) hstop
    · next hgo =>
        have hgo := Bool.eq_false_of_not_eq_true hgo
        split at h
        · next hflush =>
            obtain rfl := Option.some.inj h
            exact .flushed hp hgo hflush
        · next hflush =>
            obtain rfl := Option.some.inj h
            exact .unflushed hp hgo hflush
  · split at h
    · next hnone =>
        obtain rfl := Option.some.inj h
        exact .silent hp (Option.isNone_iff_eq_none.mp hnone)
    · obtain ⟨q, hq, rfl⟩ := Option.map_eq_some_iff.mp h
      exact .finishes hp (calls_iff.mp hq)
  · obtain ⟨q, hq, rfl⟩ := Option.map_eq_some_iff.mp h
    exact .joins hp (calls_iff.mp hq)
  · split at h
    · next hstop =>
        obtain rfl := Option.some.inj h
        exact .stopped hp (Bool.or_eq_true _ _ ▸ hstop)
    · next hgo =>
        obtain rfl := Option.some.inj h
        rw [Bool.or_eq_true, not_or, Bool.not_eq_true, Bool.not_eq_true] at hgo
        exact .passed hp hgo.1 hgo.2
  · obtain rfl := Option.some.inj h
    exact .completed hp

/-- A step of the task on its way through the failure callback. -/
theorem task_of_failure
    (hp : r.place = .failing ∨ r.place = .quieting ∨ r.place = .rejoining ∨
      r.place = .reporting ∨ r.place = .classifying)
    (h : r.advance config v = some t) : r.Task config v t := by
  unfold advance at h
  rcases hp with hp | hp | hp | hp | hp <;> rw [hp] at h <;> dsimp only at h
  · split at h
    · next hnone =>
        obtain rfl := Option.some.inj h
        exact .mute hp (Option.isNone_iff_eq_none.mp hnone)
    · obtain ⟨q, hq, rfl⟩ := Option.map_eq_some_iff.mp h
      exact .cancels hp (calls_iff.mp hq)
  · obtain ⟨q, hq, rfl⟩ := Option.map_eq_some_iff.mp h
    exact .quiets hp (calls_iff.mp hq)
  · obtain ⟨q, hq, rfl⟩ := Option.map_eq_some_iff.mp h
    exact .rejoins hp (calls_iff.mp hq)
  · split at h
    · next hexpired =>
        obtain rfl := Option.some.inj h
        exact .late hp hexpired
    · next hexpired =>
        obtain rfl := Option.some.inj h
        exact .inTime hp (Bool.eq_false_of_not_eq_true hexpired)
  · obtain rfl := Option.some.inj h
    exact .classified hp

theorem task_of_advance (h : r.advance config v = some t) : r.Task config v t := by
  cases hp : r.place with
  | queued | agent | ended =>
      unfold advance at h
      rw [hp] at h
      contradiction
  | taken =>
      unfold advance at h
      rw [hp] at h
      obtain rfl := Option.some.inj h
      exact .took hp
  | entering =>
      unfold advance at h
      rw [hp] at h
      dsimp only at h
      split at h
      · next hstop =>
          obtain rfl := Option.some.inj h
          exact .refused (.inl hp) hstop
      · next hgo =>
          obtain rfl := Option.some.inj h
          exact .entered hp (Bool.eq_false_of_not_eq_true hgo)
  | speaking sentences => exact task_of_speaking hp h
  | opening sentence rest =>
      unfold advance at h
      rw [hp] at h
      dsimp only at h
      split at h
      · next hcurrent =>
          obtain rfl := Option.some.inj h
          exact .opened hp hcurrent
      · next hold =>
          obtain rfl := Option.some.inj h
          exact .closed hp (Bool.eq_false_of_not_eq_true hold)
  | pushing sentence rest =>
      unfold advance at h
      rw [hp] at h
      exact task_of_push hp h
  | returned | finishing | joining | checking | publishing =>
      exact task_of_completion (by simp [hp]) h
  | failing | quieting | rejoining | reporting | classifying =>
      exact task_of_failure (by simp [hp]) h
  | settling =>
      unfold advance at h
      rw [hp] at h
      obtain rfl := Option.some.inj h
      exact .leaves (.inl hp)
  | resigning =>
      unfold advance at h
      rw [hp] at h
      obtain rfl := Option.some.inj h
      exact .leaves (.inr hp)

theorem task_of_delta {text : Bytes} (h : r.delta text = some t) : r.Task config v t := by
  unfold delta at h
  split at h <;> try contradiction
  next hp =>
  dsimp only at h
  split at h
  · next hignored =>
      obtain rfl := Option.some.inj h
      rw [Bool.or_eq_true, List.isEmpty_iff] at hignored
      exact .deltaIgnored hp hignored
  · split at h
    · next hpush =>
        obtain rfl := Option.some.inj h
        exact .deltaTaken hp hpush
    · next hpush =>
        obtain rfl := Option.some.inj h
        exact .deltaThrew hp hpush

theorem task_of_agentReturn {completed : Bool} (h : r.agentReturn completed = some t) :
    r.Task config v t := by
  unfold agentReturn at h
  split at h <;> try contradiction
  next hp =>
  obtain rfl := Option.some.inj h
  exact .agentReturned completed hp

theorem task_of_agentThrow (h : r.agentThrow = some t) : r.Task config v t := by
  unfold agentThrow at h
  split at h <;> try contradiction
  next hp =>
  obtain rfl := Option.some.inj h
  exact .agentThrew hp

/-! ## the steps of a pipeline -/

/-- The steps of the pipeline's worker. -/
inductive Provider (config : IncrementalTtsConfig) (v : ResponseView) (r : Response) :
    Response → Prop where
  | worker {a : TtsWorkerAction} {t : Response} (hout : r.sinking = false)
      (ht : r.Calls config v (.worker a) t) : Provider config v r t
  | frame {p : IncrementalTtsState} {h : TtsHistory} (hout : r.sinking = false)
      (hhere : v.gone = false) (hspeech : r.speech = some (p, h))
      (hworker : p.worker = .synthesizing) :
      Provider config v r (publish { r with sinking := true, firstAudio := false }
        (if r.firstAudio then [.firstAudio] else []))
  | frameEnd (threw : Bool) (hin : r.sinking = true) :
      Provider config v r (publish { r with sinking := false, heard := r.heard ++ [v.gone] }
        (if threw then [] else [.audioOutput]))

theorem provider_of_worker {a : TtsWorkerAction} (h : r.workerStep config v a = some t) :
    r.Provider config v t := by
  unfold workerStep at h
  split at h <;> try contradiction
  next hout => exact .worker (Bool.eq_false_of_not_eq_true hout) (calls_iff.mp h)

theorem provider_of_frame (h : r.frame v = some t) : r.Provider config v t := by
  unfold frame at h
  split at h <;> try contradiction
  next hpass =>
  obtain rfl := Option.some.inj h
  rw [Bool.and_eq_true, Bool.and_eq_true, Bool.not_eq_true', Bool.not_eq_true',
    Option.any_eq_true] at hpass
  obtain ⟨⟨hout, hhere⟩, ⟨p, history⟩, hspeech, hp⟩ := hpass
  rw [Bool.and_eq_true, decide_eq_true_iff] at hp
  exact .frame hout hhere hspeech hp.1

theorem provider_of_frameEnd {threw : Bool} (h : r.frameEnd v threw = some t) :
    r.Provider config v t := by
  unfold frameEnd at h
  split at h <;> try contradiction
  next hin =>
  obtain rfl := Option.some.inj h
  exact .frameEnd threw hin

/-! ## what they leave alone -/

/-- Where the loop over the sentences is left for. -/
theorem resume_place (r : Response) : r.resume.place = .finishing ∨ r.resume.place = .agent := by
  unfold resume
  dsimp only
  split
  · exact .inl rfl
  · exact .inr rfl

theorem joined_place (r : Response) (place failed : ResponsePlace) :
    (r.joined place failed).place = place ∨ (r.joined place failed).place = failed := by
  unfold joined
  dsimp only
  split
  · exact .inr rfl
  · exact .inl rfl

theorem resume_not_queued (r : Response) : r.resume.place ≠ .queued := by
  rcases resume_place r with h | h <;> rw [h] <;> nofun

/-- A call of the pipeline changes nothing but the pipeline. -/
theorem Calls.fields {a : IncrementalTtsAction} (h : r.Calls config v a t) :
    t = { r with speech := t.speech } := by
  obtain ⟨p, history, q, -, -, rfl⟩ := h
  rfl

theorem Calls.place_eq {a : IncrementalTtsAction} (h : r.Calls config v a t) :
    t.place = r.place := by
  rw [h.fields]

/-- A provider does not move the task. -/
theorem Provider.place_eq (h : r.Provider config v t) : t.place = r.place := by
  cases h with
  | worker _ ht => exact ht.place_eq
  | frame | frameEnd => rfl

/-- A task that takes a step has been taken from the queue and has not ended, and
does not go back. -/
theorem Task.places (h : r.Task config v t) :
    r.place ≠ .queued ∧ r.place ≠ .ended ∧ t.place ≠ .queued := by
  cases h with
  | took hp | entered hp _ | deltaIgnored hp _ | deltaTaken hp _ | deltaThrew hp _
  | agentReturned _ hp | agentThrew hp | opens hp _ _ | chunk hp _ _ | opened hp _
  | accepted hp _ _ | flushed hp _ _ | unflushed hp _ _ | silent hp _ | stopped hp _
  | passed hp _ _ | completed hp | mute hp _ | late hp _ | inTime hp _ | classified hp =>
      simp [hp, publish]
  | finishes hp _ | cancels hp _ | quiets hp _ => simp [hp]
  | refused hp _ => rcases hp with hp | hp <;> simp [hp]
  | leaves hp => rcases hp with hp | hp <;> simp [hp]
  | spoken hp | stale hp _ | closed hp _ | declined hp _ _ =>
      exact ⟨by simp [hp], by simp [hp], resume_not_queued _⟩
  | @joins q hp _ =>
      rcases joined_place q .checking .failing with h | h <;> simp [h, hp]
  | @rejoins q hp _ =>
      rcases joined_place q .reporting .reporting with h | h <;> simp [h, hp]

end Response

/-! ## the steps of a conversation with its responses -/

namespace Responses

variable {config : IncrementalTtsConfig} {s t : Responses} {a : ResponsesAction}

/-- The steps of `responses`, one constructor for each kind. -/
inductive Moves (config : IncrementalTtsConfig) (s : Responses) : ResponsesAction → Responses →
    Prop where
  | conversation {a : ConversationAction} {c : Conversation} (hallowed : s.allows a = true)
      (hstep : conversationStep s.conversation a = some c) :
      Moves config s (.conversation a)
        { s with conversation := c, responses := s.responsesAfter c a }
  | destroy (halive : s.alive = true) (hfree : s.conversation.submission = none) :
      Moves config s .destroy { s with
        alive := false
        conversation := { s.conversation with submission := some .interrupting } }
  | bump (hdead : s.alive = false) (hroom : s.hasRoom = true) :
      Moves config s .bump { s with
        bumped := true
        conversation := { s.conversation with
          generation := (s.conversation.generation + 1) % 2 ^ 64 } }
  | expire (ticket : Nat) :
      Moves config s (.expire ticket) { s with
        responses := Function.update s.responses ticket
          { s.responses ticket with expired := true } }
  | task {a : ResponsesAction} {ticket : Nat} {turn : SpeechTurn} {r : Response}
      (hrunning : s.conversation.lane.running = some ticket)
      (hturn : s.conversation.turns[ticket]? = some turn)
      (h : (s.responses ticket).Task config (s.view turn) r) :
      Moves config s a ({ s with
        conversation := s.conversationAfter turn (s.responses ticket).place }.put ticket r)
  | provider {a : ResponsesAction} {ticket : Nat} {turn : SpeechTurn} {r : Response}
      (hturn : s.conversation.turns[ticket]? = some turn)
      (h : (s.responses ticket).Provider config (s.view turn) r) :
      Moves config s a (s.put ticket r)
  | endTask {ticket : Nat} {lane : Lane} (hrunning : s.conversation.lane.running = some ticket)
      (hended : (s.responses ticket).place = .ended)
      (hl : s.conversation.lane.step .finish = some lane) :
      Moves config s .endTask { s with conversation := { s.conversation with lane := lane } }

theorem task_moves {f : ResponseView → Response → Option Response}
    (hf : ∀ v r t, f v r = some t → r.Task config v t) (hs : s.taskStep f = some t) :
    s.Moves config a t := by
  obtain ⟨ticket, hrunning, hs⟩ := Option.bind_eq_some_iff.mp hs
  obtain ⟨turn, hturn, hs⟩ := Option.bind_eq_some_iff.mp hs
  obtain ⟨r, hr, rfl⟩ := Option.map_eq_some_iff.mp hs
  exact .task hrunning hturn (hf _ _ _ hr)

theorem provider_moves {ticket : Nat} {f : ResponseView → Response → Option Response}
    (hf : ∀ v r t, f v r = some t → r.Provider config v t)
    (hs : s.speechStep ticket f = some t) : s.Moves config a t := by
  obtain ⟨turn, hturn, hs⟩ := Option.bind_eq_some_iff.mp hs
  obtain ⟨r, hr, rfl⟩ := Option.map_eq_some_iff.mp hs
  exact .provider hturn (hf _ _ _ hr)

theorem moves_of_step (hs : responsesStep config s a = some t) : s.Moves config a t := by
  cases a with
  | conversation a =>
      simp only [responsesStep] at hs
      split at hs <;> try contradiction
      next hallowed =>
      obtain ⟨c, hc, rfl⟩ := Option.map_eq_some_iff.mp hs
      exact .conversation hallowed hc
  | destroy =>
      simp only [responsesStep] at hs
      split at hs <;> try contradiction
      next h =>
      obtain rfl := Option.some.inj hs
      rw [Bool.and_eq_true, decide_eq_true_iff] at h
      exact .destroy h.1 h.2
  | bump =>
      simp only [responsesStep] at hs
      split at hs <;> try contradiction
      next h =>
      obtain rfl := Option.some.inj hs
      rw [Bool.and_eq_true, Bool.and_eq_true, Bool.not_eq_true'] at h
      exact .bump h.1.1 h.2
  | expire ticket =>
      obtain rfl := Option.some.inj hs
      exact .expire ticket
  | advance => exact task_moves (fun _ _ _ => Response.task_of_advance) hs
  | delta text => exact task_moves (fun _ _ _ => Response.task_of_delta) hs
  | agentReturn completed => exact task_moves (fun _ _ _ => Response.task_of_agentReturn) hs
  | agentThrow => exact task_moves (fun _ _ _ => Response.task_of_agentThrow) hs
  | worker ticket a => exact provider_moves (fun _ _ _ => Response.provider_of_worker) hs
  | frame ticket => exact provider_moves (fun _ _ _ => Response.provider_of_frame) hs
  | frameEnd ticket threw =>
      exact provider_moves (fun _ _ _ => Response.provider_of_frameEnd) hs
  | endTask =>
      obtain ⟨ticket, hrunning, hs⟩ := Option.bind_eq_some_iff.mp hs
      split at hs <;> try contradiction
      next hended =>
      obtain ⟨lane, hl, rfl⟩ := Option.map_eq_some_iff.mp hs
      exact .endTask hrunning hended hl

/-! ## the responses in the lane -/

/-- What a step of the conversation that is no step of a task does to the lane
and to the responses. -/
inductive Outer (s : Responses) : Conversation → (Nat → Response) → Prop where
  | same {c : Conversation} (hlane : c.lane = s.conversation.lane)
      (hturns : c.turns = s.conversation.turns) : Outer s c s.responses
  | accepted {c : Conversation} {turn : SpeechTurn}
      (hl : s.conversation.lane.step (.accept s.conversation.turns.length) = some c.lane)
      (hturns : c.turns = s.conversation.turns ++ [turn]) : Outer s c s.responses
  | started {c : Conversation} {ticket : Nat}
      (hl : s.conversation.lane.step .start = some c.lane) (hrunning : c.lane.running = some ticket)
      (hturns : c.turns = s.conversation.turns) :
      Outer s c (Function.update s.responses ticket { s.responses ticket with place := .taken })
  | dropped {c : Conversation} (hl : s.conversation.lane.step .drop = some c.lane)
      (hturns : c.turns = s.conversation.turns) : Outer s c s.cancelUnfinished

theorem outer_of_step {a : ConversationAction} {c : Conversation} (hallowed : s.allows a = true)
    (hs : conversationStep s.conversation a = some c) : s.Outer c (s.responsesAfter c a) := by
  cases Conversation.moves_of_step hs with
  | drawTurnId | finalTranscript | rejectOverloaded | rejectStopped | storeListening
  | clearTurnId | interrupt => exact .same rfl rfl
  | accept _ _ hl => exact .accepted hl rfl
  | cancelSession _ hl => exact .dropped hl rfl
  | @start lane hl =>
      cases hrunning : lane.running with
      | none =>
          simp only [Lane.step] at hl
          split at hl <;> try contradiction
          obtain rfl := Option.some.inj hl
          contradiction
      | some ticket =>
          simp only [responsesAfter, hrunning]
          exact .started hl hrunning rfl
  | speak => contradiction
  | endTurn ha => rcases ha with rfl | rfl <;> contradiction
  | drop ha hl => rcases ha with rfl | rfl <;> exact .dropped hl rfl

/-- Where every response is, by the history of the lane. -/
structure Placed (s : Responses) : Prop where
  lane : Lane.machine.Reachable s.conversation.lane
  below : ∀ ticket ∈ s.conversation.lane.accepted, ticket < s.conversation.turns.length
  queued : ∀ ticket, (s.responses ticket).place = .queued ↔ ticket ∉ s.conversation.lane.started
  ended : ∀ ticket ∈ s.conversation.lane.finished, (s.responses ticket).place = .ended

theorem Placed.init : Placed {} := by
  refine ⟨.init _, nofun, fun ticket => ⟨fun _ => nofun, fun _ => rfl⟩, nofun⟩

theorem update_apply (f : Nat → Response) (i : Nat) (r : Response) (k : Nat) :
    Function.update f i r k = if k = i then r else f k := Function.update_apply f i r k

/-- The ticket at the front of the queue was not started before. -/
theorem start_fresh {l l' : Lane} {ticket : Nat} (hserial : l.Serial)
    (hl : l.step .start = some l') (hrunning : l'.running = some ticket) :
    ticket ∉ l.started ∧ l'.started = l.started ++ [ticket] ∧ l'.finished = l.finished ∧
      l'.accepted = l.accepted ∧ l.running = none ∧ ticket ∈ l.waiting := by
  simp only [Lane.step] at hl
  split at hl <;> try contradiction
  next head rest hnone hwaiting =>
  obtain rfl := Option.some.inj hl
  obtain rfl := Option.some.inj hrunning
  refine ⟨?_, rfl, rfl, rfl, hnone, by rw [hwaiting]; exact List.mem_cons_self⟩
  have hordered := hserial.increasing.sublist hserial.fifo
  rw [hwaiting, List.pairwise_append] at hordered
  exact fun hmem => Nat.lt_irrefl _ (hordered.2.2 head hmem head List.mem_cons_self)

theorem Placed.outer {c : Conversation} {f : Nat → Response} (h : s.Placed) (ho : s.Outer c f) :
    Placed { s with conversation := c, responses := f } := by
  cases ho with
  | same hlane hturns =>
      refine ⟨hlane ▸ h.lane, ?_, ?_, ?_⟩
      · rw [hlane, hturns]
        exact h.below
      · rw [hlane]
        exact h.queued
      · rw [hlane]
        exact h.ended
  | accepted hl hturns =>
      have hreach := Lane.reachable_step h.lane hl
      simp only [Lane.step] at hl
      split at hl <;> try contradiction
      have heq := Option.some.inj hl
      refine ⟨hreach, ?_, ?_, ?_⟩
      · intro ticket hticket
        rw [← heq, List.mem_append, List.mem_singleton] at hticket
        rw [hturns, List.length_append, List.length_singleton]
        rcases hticket with hticket | rfl
        · exact Nat.lt_succ_of_lt (h.below ticket hticket)
        · exact Nat.lt_succ_self _
      · rw [← heq]
        exact h.queued
      · rw [← heq]
        exact h.ended
  | @started ticket hl hrunning hturns =>
      obtain ⟨hfresh, hstarted, hfinished, haccepted, -, -⟩ :=
        start_fresh (Lane.serial_of_reachable h.lane) hl hrunning
      refine ⟨Lane.reachable_step h.lane hl, ?_, ?_, ?_⟩
      · rw [haccepted, hturns]
        exact h.below
      · intro k
        dsimp only
        rw [hstarted, update_apply, List.mem_append, List.mem_singleton]
        split
        · next hk => simp [hk]
        · next hk => simpa [hk] using h.queued k
      · intro k hk
        dsimp only at hk ⊢
        rw [hfinished] at hk
        have hserial := (Lane.serial_of_reachable h.lane).serial
        have hne : k ≠ ticket := by
          rintro rfl
          exact hfresh (by rw [hserial]; exact List.mem_append_left _ hk)
        rw [update_apply, if_neg hne]
        exact h.ended k hk
  | dropped hl hturns =>
      have hreach := Lane.reachable_step h.lane hl
      have heq := Option.some.inj hl
      have hplace (k : Nat) : (s.cancelUnfinished k).place = (s.responses k).place := by
        unfold cancelUnfinished
        split <;> rfl
      refine ⟨hreach, ?_, ?_, ?_⟩
      · rw [← heq, hturns]
        exact h.below
      · intro k
        dsimp only
        rw [hplace, ← heq]
        exact h.queued k
      · intro k hk
        dsimp only at hk ⊢
        rw [hplace]
        rw [← heq] at hk
        exact h.ended k hk

@[simp] theorem conversationAfter_lane {turn : SpeechTurn} {place : ResponsePlace} :
    (s.conversationAfter turn place).lane = s.conversation.lane := by
  unfold conversationAfter Conversation.speak Conversation.settle
  split
  · split <;> rfl
  · split <;> rfl
  · split
    · split <;> rfl
    · rfl
  · rfl

@[simp] theorem conversationAfter_turns {turn : SpeechTurn} {place : ResponsePlace} :
    (s.conversationAfter turn place).turns = s.conversation.turns := by
  unfold conversationAfter Conversation.speak Conversation.settle
  split
  · split <;> rfl
  · split <;> rfl
  · split
    · split <;> rfl
    · rfl
  · rfl

/-- A response moves without leaving or entering the queue. -/
theorem Placed.put {c : Conversation} {ticket : Nat} {r : Response} (h : s.Placed)
    (hlane : c.lane = s.conversation.lane) (hturns : c.turns = s.conversation.turns)
    (hqueued : r.place = .queued ↔ (s.responses ticket).place = .queued)
    (hended : (s.responses ticket).place = .ended → r.place = .ended) :
    ({ s with conversation := c }.put ticket r).Placed := by
  refine ⟨hlane ▸ h.lane, ?_, ?_, ?_⟩
  · show ∀ k ∈ c.lane.accepted, k < c.turns.length
    rw [hlane, hturns]
    exact h.below
  · intro k
    show (Function.update s.responses ticket r k).place = .queued ↔ k ∉ c.lane.started
    rw [hlane, update_apply]
    split
    · next hk => rw [hk, hqueued, h.queued]
    · exact h.queued k
  · intro k hk
    have hk : k ∈ s.conversation.lane.finished := hlane ▸ hk
    show (Function.update s.responses ticket r k).place = .ended
    rw [update_apply]
    split
    · next heq => exact hended (heq ▸ h.ended k hk)
    · exact h.ended k hk

theorem Placed.step (h : s.Placed) (hs : responsesStep config s a = some t) : t.Placed := by
  cases moves_of_step hs with
  | conversation hallowed hstep => exact h.outer (outer_of_step hallowed hstep)
  | destroy | bump => exact ⟨h.lane, h.below, h.queued, h.ended⟩
  | expire ticket =>
      have hplace (k : Nat) : (Function.update s.responses ticket
          { s.responses ticket with expired := true } k).place = (s.responses k).place := by
        rw [update_apply]
        split
        · next hk => rw [hk]
        · rfl
      refine ⟨h.lane, h.below, fun k => ?_, fun k hk => ?_⟩
      · dsimp only
        rw [hplace]
        exact h.queued k
      · dsimp only
        rw [hplace]
        exact h.ended k hk
  | task hrunning hturn htask =>
      obtain ⟨hqueued, hended, hqueued'⟩ := htask.places
      exact h.put conversationAfter_lane conversationAfter_turns (by simp [hqueued, hqueued'])
        (fun hend => absurd hend hended)
  | provider hturn hprovider =>
      refine h.put (c := s.conversation) rfl rfl ?_ ?_
      · rw [hprovider.place_eq]
      · rw [hprovider.place_eq]
        exact id
  | @endTask ticket lane hrunning hended hl =>
      have hreach := Lane.reachable_step h.lane hl
      have hsame : lane.accepted = s.conversation.lane.accepted :=
        (Lane.unfinished_finish hl hrunning).2.2
      simp only [Lane.step, hrunning] at hl
      have heq := Option.some.inj hl
      refine ⟨hreach, fun k hk => h.below k (hsame ▸ hk), ?_, ?_⟩
      · rw [← heq]
        exact h.queued
      · intro k hk
        rw [← heq] at hk
        rcases List.mem_append.mp hk with hk | hk
        · exact h.ended k hk
        · rw [List.mem_singleton.mp hk]
          exact hended

theorem placed_of_reachable (hr : (ByteTurn.responses config).Reachable s) : s.Placed :=
  hr.rec_inv Placed.init fun _ _ _ _ h hs => h.step hs

/-- The running ticket has been taken from the queue. -/
theorem Placed.running {ticket : Nat} (h : s.Placed)
    (hrunning : s.conversation.lane.running = some ticket) :
    (s.responses ticket).place ≠ .queued := by
  intro hqueued
  refine (h.queued ticket).mp hqueued ?_
  rw [(Lane.serial_of_reachable h.lane).serial, hrunning]
  exact List.mem_append_right _ List.mem_cons_self

/-- A response that is neither queued nor ended is the running one. -/
theorem Placed.active {ticket : Nat} (h : s.Placed)
    (hqueued : (s.responses ticket).place ≠ .queued) (hended : (s.responses ticket).place ≠ .ended) :
    s.conversation.lane.running = some ticket := by
  have hstarted : ticket ∈ s.conversation.lane.started :=
    not_not.mp fun hnot => hqueued ((h.queued ticket).mpr hnot)
  rw [(Lane.serial_of_reachable h.lane).serial] at hstarted
  rcases List.mem_append.mp hstarted with hfinished | hrunning
  · exact absurd (h.ended ticket hfinished) hended
  · exact Option.mem_toList.mp hrunning

end Responses

end ByteTurn

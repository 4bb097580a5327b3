import ByteTurn.Conversation.Tasks

/-!
# ByteTurn.Conversation.Views

What the callbacks of a turn read of the conversation, and the rules for what
holds of every response.

`alive_` and the match of the generations only ever get lost, so a turn that is
gone once is gone for good.  `Responses.view_invariant` is the rule for facts
about a response and what its callbacks read, `local_invariant` the one for
facts about the response alone; by the second, the pipeline of every response is
one that `speech` reaches.
-/

namespace ByteTurn

/-- What a callback reads later: nothing comes back. -/
structure ResponseView.Before (v w : ResponseView) : Prop where
  alive : w.alive = true → v.alive = true
  current : w.current = true → v.current = true

theorem ResponseView.Before.refl (v : ResponseView) : v.Before v := ⟨id, id⟩

theorem ResponseView.Before.gone {v w : ResponseView} (h : v.Before w) (hgone : v.gone = true) :
    w.gone = true := by
  obtain ⟨halive, hcurrent⟩ := h
  unfold ResponseView.gone at hgone ⊢
  cases ha : w.alive with
  | false => rfl
  | true =>
      cases hc : w.current with
      | false => rfl
      | true =>
          rw [halive ha, hcurrent hc] at hgone
          exact hgone

namespace Responses

variable {config : IncrementalTtsConfig} {s t : Responses} {a : ResponsesAction}

/-! ## generations -/

@[simp] theorem conversationAfter_generation {turn : SpeechTurn} {place : ResponsePlace} :
    (s.conversationAfter turn place).generation = s.conversation.generation := by
  unfold conversationAfter Conversation.speak Conversation.settle
  split
  · split <;> rfl
  · split <;> rfl
  · split
    · split <;> rfl
    · rfl
  · rfl

@[simp] theorem conversationAfter_submission {turn : SpeechTurn} {place : ResponsePlace} :
    (s.conversationAfter turn place).submission = s.conversation.submission := by
  unfold conversationAfter Conversation.speak Conversation.settle
  split
  · split <;> rfl
  · split <;> rfl
  · split
    · split <;> rfl
    · rfl
  · rfl

/-- What no step takes back. -/
structure Ages (s t : Responses) : Prop where
  alive : t.alive = true → s.alive = true
  generation : s.conversation.generation ≤ t.conversation.generation
  turns : s.conversation.turns <+: t.conversation.turns
  started : s.conversation.lane.started <+: t.conversation.lane.started

/-- A step of the lane starts at most one ticket more. -/
theorem started_of_lane {l l' : Lane} {label : Lane.Label} (hl : l.step label = some l') :
    l.started <+: l'.started := by
  cases label with
  | accept | finish =>
      simp only [Lane.step] at hl
      split at hl <;> try contradiction
      obtain rfl := Option.some.inj hl
      exact List.prefix_refl _
  | start =>
      simp only [Lane.step] at hl
      split at hl <;> try contradiction
      obtain rfl := Option.some.inj hl
      exact List.prefix_append _ _
  | drop =>
      obtain rfl := Option.some.inj hl
      exact List.prefix_refl _

/-- A bump that has room. -/
theorem generation_bump (hroom : s.hasRoom = true) :
    (s.conversation.generation + 1) % 2 ^ 64 = s.conversation.generation + 1 :=
  Nat.mod_eq_of_lt (of_decide_eq_true hroom)

theorem ages_of_step (hs : responsesStep config s a = some t) : s.Ages t := by
  cases moves_of_step hs with
  | @conversation _ c hallowed hstep =>
      refine ⟨id, ?_, ?_, ?_⟩
      · cases Conversation.moves_of_step hstep with
        | interrupt =>
            have hroom := (Bool.and_eq_true _ _ ▸ hallowed).2
            show _ ≤ (s.conversation.generation + 1) % 2 ^ 64
            rw [generation_bump hroom]
            exact Nat.le_succ _
        | speak => contradiction
        | endTurn ha => rcases ha with rfl | rfl <;> contradiction
        | _ => exact Nat.le_refl _
      · have houter := outer_of_step hallowed hstep
        generalize s.responsesAfter _ _ = f at houter
        cases houter with
        | same _ hturns | started _ _ hturns | dropped _ hturns =>
            exact ⟨[], by rw [List.append_nil]; exact hturns.symm⟩
        | accepted _ hturns => exact ⟨_, hturns.symm⟩
      · have houter := outer_of_step hallowed hstep
        generalize s.responsesAfter _ _ = f at houter
        cases houter with
        | same hlane => exact ⟨[], by rw [List.append_nil]; exact congrArg _ hlane.symm⟩
        | accepted hl | started hl | dropped hl => exact started_of_lane hl
  | destroy halive _ =>
      exact ⟨fun _ => halive, Nat.le_refl _, List.prefix_refl _, List.prefix_refl _⟩
  | bump _ hroom =>
      refine ⟨id, ?_, List.prefix_refl _, List.prefix_refl _⟩
      dsimp only
      rw [generation_bump hroom]
      exact Nat.le_succ _
  | expire | provider =>
      exact ⟨id, Nat.le_refl _, List.prefix_refl _, List.prefix_refl _⟩
  | endTask _ _ hl => exact ⟨id, Nat.le_refl _, List.prefix_refl _, started_of_lane hl⟩
  | task =>
      refine ⟨id, ?_, ?_, ?_⟩
      · exact conversationAfter_generation.symm.le
      · show _ <+: (s.conversationAfter _ _).turns
        rw [conversationAfter_turns]
      · show _ <+: (s.conversationAfter _ _).lane.started
        rw [conversationAfter_lane]

/-- No turn is ahead of the conversation. -/
structure Generations (s : Responses) : Prop where
  turns : ∀ turn ∈ s.conversation.turns, turn.generation ≤ s.conversation.generation
  submitting : ∀ turn, s.conversation.submission = some (.submitting turn) →
    turn.generation ≤ s.conversation.generation

theorem Generations.init : Generations {} := ⟨nofun, nofun⟩

/-- A step that draws no generation. -/
theorem Generations.of_same (h : s.Generations) (hages : s.Ages t)
    (hturns : t.conversation.turns = s.conversation.turns)
    (hsub : t.conversation.submission = s.conversation.submission ∨
      ∀ turn, t.conversation.submission ≠ some (.submitting turn)) : t.Generations := by
  refine ⟨fun turn hturn => ?_, fun turn hturn => ?_⟩
  · rw [hturns] at hturn
    exact (h.turns turn hturn).trans hages.generation
  · rcases hsub with hsub | hnone
    · rw [hsub] at hturn
      exact (h.submitting turn hturn).trans hages.generation
    · exact absurd hturn (hnone turn)

theorem Generations.step (h : s.Generations) (hs : responsesStep config s a = some t) :
    t.Generations := by
  have hages := ages_of_step hs
  cases moves_of_step hs with
  | conversation hallowed hstep =>
      cases Conversation.moves_of_step hstep with
      | drawTurnId | storeListening | clearTurnId | start | drop =>
          exact h.of_same hages rfl (.inl rfl)
      | rejectOverloaded | rejectStopped | interrupt | cancelSession =>
          exact h.of_same hages rfl (.inr fun _ => nofun)
      | finalTranscript =>
          refine ⟨h.turns, ?_⟩
          rintro turn heq
          cases heq
          exact Nat.le_refl _
      | @accept turn _ hsub _ _ =>
          refine ⟨fun other hother => ?_, nofun⟩
          rcases List.mem_append.mp hother with hother | hother
          · exact h.turns other hother
          · rw [List.mem_singleton.mp hother]
            exact h.submitting turn hsub
      | speak => contradiction
      | endTurn ha => rcases ha with rfl | rfl <;> contradiction
  | destroy => exact h.of_same hages rfl (.inr fun _ => nofun)
  | bump | expire | provider | endTask => exact h.of_same hages rfl (.inl rfl)
  | task =>
      exact h.of_same hages conversationAfter_turns (.inl conversationAfter_submission)

theorem generations_of_reachable (hr : (ByteTurn.responses config).Reachable s) : s.Generations :=
  hr.rec_inv Generations.init fun _ _ _ _ h hs => h.step hs

/-- What the callbacks of a turn read, before and after a step. -/
theorem Ages.view (h : s.Ages t) (hg : s.Generations) {turn : SpeechTurn}
    (hturn : turn ∈ s.conversation.turns) : (s.view turn).Before (t.view turn) := by
  refine ⟨h.alive, fun hcurrent => ?_⟩
  have heq : turn.generation = t.conversation.generation := of_decide_eq_true hcurrent
  have hle := h.generation
  have hturn := hg.turns turn hturn
  exact decide_eq_true (by omega)

/-! ## what holds of every response -/

/-- The response of a ticket keeps `P`, whatever its turn will read, or reads. -/
def Keeps (s : Responses) (P : ResponseView → Response → Prop) (ticket : Nat) : Prop :=
  (∀ v, P v (s.responses ticket)) ∨
    ∃ turn, s.conversation.turns[ticket]? = some turn ∧ P (s.view turn) (s.responses ticket)

/-! ## one response in a step -/

/-- What a step does to the response of a ticket, one constructor for each kind. -/
inductive Evolves (config : IncrementalTtsConfig) (s : Responses) (ticket : Nat) :
    Response → Prop where
  | same : Evolves config s ticket (s.responses ticket)
  | cancelled : Evolves config s ticket { s.responses ticket with cancelled := true }
  | expired : Evolves config s ticket { s.responses ticket with expired := true }
  | taken (hqueued : (s.responses ticket).place = .queued) :
      Evolves config s ticket { s.responses ticket with place := .taken }
  | task {turn : SpeechTurn} {r : Response}
      (hrunning : s.conversation.lane.running = some ticket)
      (hturn : s.conversation.turns[ticket]? = some turn)
      (h : (s.responses ticket).Task config (s.view turn) r) : Evolves config s ticket r
  | provider {turn : SpeechTurn} {r : Response}
      (hturn : s.conversation.turns[ticket]? = some turn)
      (h : (s.responses ticket).Provider config (s.view turn) r) : Evolves config s ticket r

theorem evolves_of_step (hr : (ByteTurn.responses config).Reachable s)
    (hs : responsesStep config s a = some t) (ticket : Nat) :
    s.Evolves config ticket (t.responses ticket) := by
  have hupdate {i : Nat} {r : Response} (hi : s.Evolves config i r) :
      s.Evolves config ticket (Function.update s.responses i r ticket) := by
    rw [update_apply]
    split
    · next hk => exact hk ▸ hi
    · exact .same
  cases moves_of_step hs with
  | conversation hallowed hstep =>
      have hplaced := placed_of_reachable hr
      have houter := outer_of_step hallowed hstep
      dsimp only
      generalize s.responsesAfter _ _ = f at houter
      cases houter with
      | same | accepted => exact .same
      | started hl hrunning _ =>
          obtain ⟨hfresh, -⟩ := start_fresh (Lane.serial_of_reachable hplaced.lane) hl hrunning
          exact hupdate (.taken ((hplaced.queued _).mpr hfresh))
      | dropped =>
          unfold cancelUnfinished
          split
          · exact .cancelled
          · exact .same
  | destroy | bump | endTask => exact .same
  | expire ticket => exact hupdate .expired
  | task hrunning hturn h => exact hupdate (.task hrunning hturn h)
  | provider hturn h => exact hupdate (.provider hturn h)

/-- A response that is reached, with what its callbacks read there. -/
def Reached (config : IncrementalTtsConfig) (v : ResponseView) (r : Response) : Prop :=
  ∃ (s : Responses) (ticket : Nat) (turn : SpeechTurn), (ByteTurn.responses config).Reachable s ∧
    s.conversation.turns[ticket]? = some turn ∧ s.view turn = v ∧ s.responses ticket = r

section Keeps

variable {P : ResponseView → Response → Prop} {ticket : Nat} {turn : SpeechTurn}

theorem Keeps.here (h : s.Keeps P ticket) (hturn : s.conversation.turns[ticket]? = some turn) :
    P (s.view turn) (s.responses ticket) := by
  rcases h with hall | ⟨turn', hturn', hp⟩
  · exact hall _
  · obtain rfl := Option.some.inj (hturn.symm.trans hturn')
    exact hp

/-- A turn is in its place for good. -/
theorem Ages.getElem? (h : s.Ages t) (hturn : s.conversation.turns[ticket]? = some turn) :
    t.conversation.turns[ticket]? = some turn := by
  obtain ⟨more, hmore⟩ := h.turns
  rw [← hmore, List.getElem?_append_left (List.getElem?_eq_some_iff.mp hturn).1]
  exact hturn

/-- **Invariants of a response and its view**: what holds of a response at first,
survives that its turn loses the conversation, and is kept by the steps of its
task, of its pipeline and of the executor holds of every response. -/
theorem view_invariant (hinit : ∀ v, P v {}) (hview : ∀ v w r, v.Before w → P v r → P w r)
    (hcancelled : ∀ v r, P v r → P v { r with cancelled := true })
    (hexpired : ∀ v r, P v r → P v { r with expired := true })
    (htaken : ∀ v r, r.place = .queued → P v r → P v { r with place := .taken })
    (htask : ∀ v r t, Reached config v r → P v r → r.Task config v t → P v t)
    (hprovider : ∀ v r t, Reached config v r → P v r → r.Provider config v t → P v t)
    (hr : (ByteTurn.responses config).Reachable s) (ticket : Nat) : s.Keeps P ticket := by
  refine hr.rec_inv (P := fun s => s.Keeps P ticket) (.inl hinit) ?_
  intro s a t hr hp hs
  have hages := ages_of_step hs
  -- a step that is allowed for every view
  have hevery (h : ∀ v, P v (s.responses ticket) → P v (t.responses ticket)) :
      t.Keeps P ticket := by
    rcases hp with hall | ⟨turn, hturn, hp⟩
    · exact .inl fun v => h v (hall v)
    · exact .inr ⟨turn, hages.getElem? hturn, hview _ _ _
        (hages.view (generations_of_reachable hr) (List.mem_of_getElem? hturn)) (h _ hp)⟩
  -- a step of the turn itself
  have hown {turn : SpeechTurn} (hturn : s.conversation.turns[ticket]? = some turn)
      (h : P (s.view turn) (t.responses ticket)) : t.Keeps P ticket :=
    .inr ⟨turn, hages.getElem? hturn, hview _ _ _
      (hages.view (generations_of_reachable hr) (List.mem_of_getElem? hturn)) h⟩
  have hevolves := evolves_of_step hr hs ticket
  generalize t.responses ticket = r at hevolves hevery hown
  cases hevolves with
  | same => exact hevery fun _ h => h
  | cancelled => exact hevery fun v => hcancelled v _
  | expired => exact hevery fun v => hexpired v _
  | taken hqueued => exact hevery fun v => htaken v _ hqueued
  | task _ hturn h =>
      exact hown hturn (htask _ _ _ ⟨s, _, _, hr, hturn, rfl, rfl⟩ (hp.here hturn) h)
  | provider hturn h =>
      exact hown hturn (hprovider _ _ _ ⟨s, _, _, hr, hturn, rfl, rfl⟩ (hp.here hturn) h)

end Keeps

/-- **Local invariants**: the rule for facts that do not look at the view. -/
theorem local_invariant {P : Response → Prop} (hinit : P {})
    (hcancelled : ∀ r, P r → P { r with cancelled := true })
    (hexpired : ∀ r, P r → P { r with expired := true })
    (htaken : ∀ r, r.place = .queued → P r → P { r with place := .taken })
    (htask : ∀ v r t, Reached config v r → P r → r.Task config v t → P t)
    (hprovider : ∀ v r t, Reached config v r → P r → r.Provider config v t → P t)
    (hr : (ByteTurn.responses config).Reachable s) (ticket : Nat) : P (s.responses ticket) := by
  have hkeeps := view_invariant (P := fun _ => P) (fun _ => hinit) (fun _ _ _ _ h => h)
    (fun _ => hcancelled) (fun _ => hexpired) (fun _ => htaken) htask hprovider hr ticket
  rcases hkeeps with hall | ⟨_, _, hp⟩
  · exact hall ⟨true, true⟩
  · exact hp

end Responses

/-! ## pipelines -/

section Pipeline

variable {config : IncrementalTtsConfig} {p q : IncrementalTtsState} {h h' : TtsHistory}

/-- What `cancelled_()` answers may change at any time. -/
theorem speech_view (hr : (speech config).Reachable (p, h)) (gone : Bool) :
    (speech config).Reachable ({ p with cancelled := p.cancelled || gone }, h) := by
  cases gone with
  | false =>
      rw [Bool.or_false]
      exact hr
  | true =>
      rw [Bool.or_true]
      exact hr.step (a := .pipeline .cancelExternally) rfl

theorem push_pushes {text : Bytes} (calls : List PushCall) :
    { p with pushes := calls }.push config text =
      ({ (p.push config text).1 with pushes := calls }, (p.push config text).2) := by
  have hwake : IncrementalTtsState.pushWake config { p with pushes := calls } = p.pushWake config :=
    rfl
  unfold IncrementalTtsState.push
  rw [hwake]
  split
  · dsimp only
    split <;> rfl
  · rfl

/-- What a section of `push` can do. -/
theorem push_cases {text : Bytes} {answer : Option Bool} (hpush : p.push config text = (q, answer)) :
    (answer = some true ∧
      q = { p with queue := p.queue ++ [text], accepted := p.accepted ++ [text] }) ∨
    (answer = some false ∧ q = p ∧ (p.finishing = true ∨ p.cancelledLocally = true ∨
      p.error.isSome = true ∨ p.cancelled = true)) ∨
    (answer = none ∧ q = p) := by
  unfold IncrementalTtsState.push at hpush
  split at hpush
  · split at hpush
    · next hclosed =>
        obtain ⟨rfl, rfl⟩ := Prod.mk.inj hpush
        simp only [Bool.or_eq_true, or_assoc] at hclosed
        exact .inr (.inl ⟨rfl, rfl, hclosed⟩)
    · obtain ⟨rfl, rfl⟩ := Prod.mk.inj hpush
      exact .inl ⟨rfl, rfl⟩
  · obtain ⟨rfl, rfl⟩ := Prod.mk.inj hpush
    exact .inr (.inr ⟨rfl, rfl⟩)

theorem push_keeps {text : Bytes} {answer : Option Bool} (hpush : p.push config text = (q, answer)) :
    q.worker = p.worker ∧ q.error = p.error ∧ q.finishing = p.finishing ∧
      q.finishers = p.finishers ∧ q.cancelled = p.cancelled := by
  rcases push_cases hpush with ⟨-, rfl⟩ | ⟨-, rfl, -⟩ | ⟨-, rfl⟩ <;> exact ⟨rfl, rfl, rfl, rfl, rfl⟩

/-- A call of `push` from its start to its answer. -/
theorem speech_push {text : Bytes} {accepted : Bool} (hr : (speech config).Reachable (p, h))
    (hpushes : p.pushes = []) (hpush : p.push config text = (q, some accepted)) :
    (speech config).Reachable (q, h) ∧ q.pushes = [] := by
  have hq : q.pushes = [] := by
    have hkeep := @push_pushes config p text p.pushes
    rw [hpush] at hkeep
    have heq := congrArg (fun r => r.1.pushes) hkeep
    exact heq.trans hpushes
  have hcall : (speech config).step (p, h) (.pipeline (.push text)) =
      some ({ p with pushes := [⟨text, false⟩] }, h) := by
    simp [speech, incrementalTtsStep, hpushes, TtsHistory.note]
  have hanswer : (speech config).step ({ p with pushes := [⟨text, false⟩] }, h)
      (.pipeline (.pushSection 0)) = some ({ q with pushes := [] }, h) := by
    simp [speech, incrementalTtsStep, push_pushes, hpush, TtsHistory.note]
  have hsame : { q with pushes := [] } = q := by rw [← hq]
  rw [hsame] at hanswer
  exact ⟨(hr.step hcall).step hanswer, hq⟩

/-- What a step of the worker leaves alone. -/
structure WorkerKeeps (p q : IncrementalTtsState) : Prop where
  worker : p.worker ≠ .exited
  finishing : q.finishing = p.finishing
  finishers : q.finishers = p.finishers
  cancelled : q.cancelled = p.cancelled
  accepted : q.accepted = p.accepted
  pushes : q.pushes = p.pushes
  error : p.error.isSome = true → q.error.isSome = true

theorem worker_keeps {a : TtsWorkerAction} (hs : ttsWorkerStep p a = some q) :
    WorkerKeeps p q := by
  cases a with
  | takeChunk =>
      simp only [ttsWorkerStep] at hs
      split at hs <;> try contradiction
      next hworker =>
      have hworker : p.worker ≠ .exited := by simp [hworker]
      unfold IncrementalTtsState.takeChunk at hs
      split at hs <;> try contradiction
      split at hs
      · obtain rfl := Option.some.inj hs
        exact ⟨hworker, rfl, rfl, rfl, rfl, rfl, id⟩
      · split at hs
        · split at hs <;> obtain rfl := Option.some.inj hs <;>
            exact ⟨hworker, rfl, rfl, rfl, rfl, rfl, id⟩
        · obtain rfl := Option.some.inj hs
          exact ⟨hworker, rfl, rfl, rfl, rfl, rfl, id⟩
  | returned | threw | poll | leave | handle =>
      simp only [ttsWorkerStep] at hs
      split at hs <;> try contradiction
      all_goals
        next hworker =>
        obtain rfl := Option.some.inj hs
        refine ⟨by simp [hworker], rfl, rfl, rfl, rfl, rfl, ?_⟩
        first | exact id | exact fun _ => rfl

/-- The calls of a task other than `push`. -/
theorem call_pushes {a : IncrementalTtsAction} (hpush : ∀ text, a ≠ .push text)
    (hsection : ∀ i, a ≠ .pushSection i) (hs : incrementalTtsStep config p a = some q) :
    q.pushes = p.pushes := by
  cases a with
  | push text => exact absurd rfl (hpush text)
  | pushSection i => exact absurd rfl (hsection i)
  | cancelExternally | finish =>
      obtain rfl := Option.some.inj hs
      rfl
  | cancel =>
      obtain rfl := Option.some.inj hs
      unfold IncrementalTtsState.cancel
      split <;> rfl
  | finishReturn | join =>
      simp only [incrementalTtsStep] at hs
      split at hs <;> try contradiction
      obtain rfl := Option.some.inj hs
      rfl
  | worker a => exact (worker_keeps hs).pushes

end Pipeline

namespace Response

variable {config : IncrementalTtsConfig} {v : ResponseView} {r t : Response}

/-- The pipeline of a response is one that `speech` reaches, between two calls of
`push`. -/
def PipelineReachable (config : IncrementalTtsConfig) (r : Response) : Prop :=
  ∀ p h, r.speech = some (p, h) → (ByteTurn.speech config).Reachable (p, h) ∧ p.pushes = []

/-- A call of the task or the worker that is no `push`. -/
def IsCall : IncrementalTtsAction → Prop
  | .finish | .finishReturn | .cancel | .worker _ => True
  | _ => False

/-- The pipeline as a callback finds it. -/
def seen (v : ResponseView) (p : IncrementalTtsState) : IncrementalTtsState :=
  { p with cancelled := p.cancelled || v.gone }

theorem Calls.finish (h : r.Calls config v .finish t) :
    ∃ p history, r.speech = some (p, history) ∧
      t = { r with speech := some ((seen v p).finish, history) } := by
  obtain ⟨p, history, q, hspeech, hstep, rfl⟩ := h
  obtain rfl := Option.some.inj hstep
  exact ⟨p, history, hspeech, rfl⟩

theorem Calls.cancel (h : r.Calls config v .cancel t) :
    ∃ p history, r.speech = some (p, history) ∧
      t = { r with speech := some ((seen v p).cancel, { history with cancelCalled := true }) } := by
  obtain ⟨p, history, q, hspeech, hstep, rfl⟩ := h
  obtain rfl := Option.some.inj hstep
  exact ⟨p, history, hspeech, rfl⟩

theorem Calls.finishReturn (h : r.Calls config v .finishReturn t) :
    ∃ p history, r.speech = some (p, history) ∧ (p.joined = true ∨ p.worker = .exited) ∧
      t = { r with speech := some ({ seen v p with
        joined := true
        finishers := p.finishers - 1
        finished := p.finished ++ [p.error] }, history) } := by
  obtain ⟨p, history, q, hspeech, hstep, rfl⟩ := h
  obtain ⟨q', hcall, hq⟩ := Option.map_eq_some_iff.mp hstep
  simp only [incrementalTtsStep] at hcall
  split at hcall <;> try contradiction
  next hjoined =>
  obtain rfl := Option.some.inj hcall
  obtain rfl := hq
  exact ⟨p, history, hspeech, hjoined.2, rfl⟩

theorem Calls.worker {a : TtsWorkerAction} (h : r.Calls config v (.worker a) t) :
    ∃ p history q history', r.speech = some (p, history) ∧ ttsWorkerStep (seen v p) a = some q ∧
      history' = history.note (seen v p) q (.worker a) ∧
      t = { r with speech := some (q, history') } := by
  obtain ⟨p, history, q, hspeech, hstep, rfl⟩ := h
  obtain ⟨q', hcall, hq⟩ := Option.map_eq_some_iff.mp hstep
  obtain rfl := hq
  exact ⟨p, history, q', _, hspeech, hcall, rfl, rfl⟩

/-- The worker does not call `cancel`. -/
theorem note_worker {a : TtsWorkerAction} {p q : IncrementalTtsState} {h : TtsHistory} :
    (h.note p q (.worker a)).cancelCalled = h.cancelCalled := by
  cases a <;> rfl

theorem PipelineReachable.call {a : IncrementalTtsAction} (hp : r.PipelineReachable config)
    (h : r.Calls config v a t) (ha : IsCall a) : t.PipelineReachable config := by
  obtain ⟨p, history, ⟨q, history'⟩, hspeech, hstep, rfl⟩ := h
  obtain ⟨hr, hpushes⟩ := hp p history hspeech
  rintro p' h' heq
  obtain ⟨rfl, rfl⟩ := Prod.mk.inj (Option.some.inj heq)
  refine ⟨(speech_view hr v.gone).step hstep, ?_⟩
  obtain ⟨q', hcall, hq'⟩ := Option.map_eq_some_iff.mp hstep
  obtain ⟨rfl, -⟩ := Prod.mk.inj hq'
  rw [call_pushes (by rintro text rfl; exact ha) (by rintro i rfl; exact ha) hcall]
  exact hpushes

theorem PipelineReachable.task (hp : r.PipelineReachable config) (h : r.Task config v t) :
    t.PipelineReachable config := by
  cases h with
  | opened =>
      rintro p h heq
      obtain ⟨rfl, rfl⟩ := Prod.mk.inj (Option.some.inj heq)
      exact ⟨Machine.Reachable.init (ByteTurn.speech config), rfl⟩
  | @accepted _ _ p q history _ hspeech hpush =>
      rintro p' h' heq
      obtain ⟨rfl, rfl⟩ := Prod.mk.inj (Option.some.inj heq)
      obtain ⟨hr, hpushes⟩ := hp p history hspeech
      exact speech_push (speech_view hr v.gone) hpushes hpush
  | @declined _ _ p q history _ hspeech hpush =>
      rintro p' h' heq
      obtain ⟨rfl, rfl⟩ := Prod.mk.inj (Option.some.inj heq)
      obtain ⟨hr, hpushes⟩ := hp p history hspeech
      exact speech_push (speech_view hr v.gone) hpushes hpush
  | finishes _ hq =>
      have hq := hp.call hq trivial
      exact hq
  | joins _ hq =>
      have hq := hp.call hq trivial
      exact hq
  | cancels _ hq =>
      have hq := hp.call hq trivial
      exact hq
  | quiets _ hq =>
      have hq := hp.call hq trivial
      exact hq
  | rejoins _ hq =>
      have hq := hp.call hq trivial
      exact hq
  | took | refused | entered | deltaIgnored | deltaTaken | deltaThrew | agentReturned | agentThrew
  | spoken | stale | opens | chunk | closed | flushed | unflushed | silent | stopped | passed
  | completed | mute | late | inTime | classified | leaves => exact hp

/-- `cancelled_()` has answered true only for a turn that is gone. -/
def Heeds (v : ResponseView) (r : Response) : Prop :=
  ∀ p h, r.speech = some (p, h) → p.cancelled = true → v.gone = true

/-- A call of the pipeline looks at the view. -/
theorem Calls.heeds {a : IncrementalTtsAction} (hr : r.Heeds v) (h : r.Calls config v a t)
    (ha : IsCall a) : t.Heeds v := by
  have hseen {p : IncrementalTtsState} {history : TtsHistory}
      (hspeech : r.speech = some (p, history)) (hcancelled : (seen v p).cancelled = true) :
      v.gone = true := by
    rcases Bool.or_eq_true _ _ ▸ hcancelled with hp | hgone
    · exact hr p history hspeech hp
    · exact hgone
  rintro p' h' heq hcancelled
  cases a with
  | cancelExternally | push | pushSection | join => exact ha.elim
  | finish =>
      obtain ⟨p, history, hspeech, rfl⟩ := h.finish
      obtain ⟨rfl, rfl⟩ := Prod.mk.inj (Option.some.inj heq)
      exact hseen hspeech hcancelled
  | finishReturn =>
      obtain ⟨p, history, hspeech, -, rfl⟩ := h.finishReturn
      obtain ⟨rfl, rfl⟩ := Prod.mk.inj (Option.some.inj heq)
      exact hseen hspeech hcancelled
  | cancel =>
      obtain ⟨p, history, hspeech, rfl⟩ := h.cancel
      obtain ⟨rfl, rfl⟩ := Prod.mk.inj (Option.some.inj heq)
      refine hseen hspeech ?_
      unfold IncrementalTtsState.cancel at hcancelled
      split at hcancelled <;> exact hcancelled
  | worker a =>
      obtain ⟨p, history, q, history', hspeech, hstep, -, rfl⟩ := h.worker
      obtain ⟨rfl, rfl⟩ := Prod.mk.inj (Option.some.inj heq)
      exact hseen hspeech ((worker_keeps hstep).cancelled ▸ hcancelled)

theorem Heeds.task (hr : r.Heeds v) (h : r.Task config v t) : t.Heeds v := by
  have hpush {p q : IncrementalTtsState} {history : TtsHistory} {text : Bytes}
      {answer : Option Bool} (hspeech : r.speech = some (p, history))
      (hq : (seen v p).push config text = (q, answer)) (hcancelled : q.cancelled = true) :
      v.gone = true := by
    rw [(push_keeps hq).2.2.2.2] at hcancelled
    rcases Bool.or_eq_true _ _ ▸ hcancelled with hp | hgone
    · exact hr p history hspeech hp
    · exact hgone
  cases h with
  | opened =>
      rintro p h heq hcancelled
      obtain ⟨rfl, rfl⟩ := Prod.mk.inj (Option.some.inj heq)
      contradiction
  | accepted _ hspeech hq | declined _ hspeech hq =>
      rintro p h heq hcancelled
      obtain ⟨rfl, rfl⟩ := Prod.mk.inj (Option.some.inj heq)
      exact hpush hspeech hq hcancelled
  | finishes _ hq =>
      have hq := hq.heeds hr trivial
      exact hq
  | joins _ hq =>
      have hq := hq.heeds hr trivial
      exact hq
  | cancels _ hq =>
      have hq := hq.heeds hr trivial
      exact hq
  | quiets _ hq =>
      have hq := hq.heeds hr trivial
      exact hq
  | rejoins _ hq =>
      have hq := hq.heeds hr trivial
      exact hq
  | took | refused | entered | deltaIgnored | deltaTaken | deltaThrew | agentReturned | agentThrew
  | spoken | stale | opens | chunk | closed | flushed | unflushed | silent | stopped | passed
  | completed | mute | late | inTime | classified | leaves => exact hr

theorem Heeds.provider (hr : r.Heeds v) (h : r.Provider config v t) : t.Heeds v := by
  cases h with
  | worker _ ht => exact ht.heeds hr trivial
  | frame | frameEnd => exact hr

theorem PipelineReachable.provider (hp : r.PipelineReachable config)
    (h : r.Provider config v t) : t.PipelineReachable config := by
  cases h with
  | worker _ ht => exact hp.call ht trivial
  | frame | frameEnd => exact hp

end Response

theorem Responses.pipeline_reachable {config : IncrementalTtsConfig} {s : Responses}
    (hr : (ByteTurn.responses config).Reachable s) (ticket : Nat) :
    (s.responses ticket).PipelineReachable config :=
  local_invariant (P := Response.PipelineReachable config) nofun (fun _ h => h) (fun _ h => h)
    (fun _ _ h => h) (fun _ _ _ _ h ht => h.task ht) (fun _ _ _ _ h ht => h.provider ht) hr ticket

/-- The pipeline of a turn that is there was never told that it is cancelled. -/
theorem Responses.heeds {config : IncrementalTtsConfig} {s : Responses}
    (hr : (ByteTurn.responses config).Reachable s) (ticket : Nat) :
    s.Keeps Response.Heeds ticket :=
  view_invariant (fun _ => nofun) (fun _ _ _ hv h p history hp hc => hv.gone (h p history hp hc))
    (fun _ _ h => h) (fun _ _ h => h) (fun _ _ _ h => h) (fun _ _ _ _ h ht => h.task ht)
    (fun _ _ _ _ h ht => h.provider ht) hr ticket

/-- What holds between any two steps of a pipeline. -/
theorem Responses.Reached.speech {config : IncrementalTtsConfig} {v : ResponseView} {r : Response}
    {p : IncrementalTtsState} {h : TtsHistory} (hr : Responses.Reached config v r)
    (hspeech : r.speech = some (p, h)) : SpeechInvariant config p h := by
  obtain ⟨s, ticket, _, hs, -, -, rfl⟩ := hr
  exact .of_reachable (Responses.pipeline_reachable hs ticket p h hspeech).1

end ByteTurn

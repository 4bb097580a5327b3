import ByteTurn.Conversation.Wedges

/-!
# ByteTurn.Conversation.Endings

The outcome of a response: whether there is one, how many there are, and whether
it is true.

`Passes` is what the completion has checked when it publishes that the turn is
completed.
-/

namespace ByteTurn

/-- The provider has spoken all the pipeline has accepted, and has thrown nothing. -/
structure Drained (p : IncrementalTtsState) (h : TtsHistory) : Prop where
  exited : p.worker = .exited
  queue : p.queue = []
  error : p.error = none
  thrown : h.thrown = []
  calls : h.calls = .beginUtterance :: p.accepted.map .synthesizeChunk ++ [.endUtterance]

/-- The worker has ended, nothing has gone wrong, and nobody has cancelled. -/
theorem SpeechInvariant.to_drained {config : IncrementalTtsConfig} {p : IncrementalTtsState}
    {h : TtsHistory} (hi : SpeechInvariant config p h) (hexited : p.worker = .exited)
    (herror : p.error = none) (hcancel : h.cancelCalled = false) (hcancelled : p.cancelled = false) :
    Drained p h := by
  have hlocal : p.cancelledLocally = false := by
    refine Bool.eq_false_of_not_eq_true fun hl => ?_
    rcases hi.cause hl with hc | he
    · rw [hcancel] at hc
      contradiction
    · rw [herror] at he
      contradiction
  have hqueue : p.queue = [] := by
    have hdrained := hi.drained (by rw [hexited]; rfl)
    rw [hcancelled, hlocal] at hdrained
    simpa using (hdrained.resolve_left nofun).resolve_left nofun |>.1
  have hsynthesized : p.synthesized = p.accepted := by
    have hlined := hi.lined hlocal
    rwa [hqueue, List.append_nil] at hlined
  refine ⟨hexited, hqueue, herror, ?_, ?_⟩
  · rw [hi.thrown, hexited, herror]
    rfl
  · have hcalls := hi.exited hexited
    rw [hcancelled, hlocal] at hcalls
    rw [(hcalls.resolve_right (by simp)), IncrementalTtsState.spoken, hsynthesized]

namespace Response

variable {config : IncrementalTtsConfig} {v : ResponseView} {r t : Response}

/-- The outcomes that are published about a response. -/
def outcomes (r : Response) : List EventType := r.published.filter EventType.isOutcome

theorem outcomes_report (r : Response) : r.outcomes = r.report.filter EventType.isOutcome := by
  unfold outcomes report
  rw [List.filter_filter]
  congr 1
  funext event
  cases event <;> rfl

/-- The agent tells of no outcome. -/
theorem AgentReturned.no_outcome {told : List EventType} (h : AgentReturned told) :
    told.filter EventType.isOutcome = [] := by
  rcases h with rfl | rfl <;> rfl

theorem AgentEnded.no_outcome {told : List EventType} (h : AgentEnded told) :
    told.filter EventType.isOutcome = [] := by
  rcases h with rfl | h | rfl
  · rfl
  · exact h.no_outcome
  · rfl

/-- What is told is the agent's story, and the outcome after it, if there is one. -/
theorem Told.story (h : r.Told) : ∃ before, before.filter EventType.isOutcome = [] ∧
    (r.report = before ∨
      ∃ outcome, outcome.isOutcome = true ∧ r.report = before ++ [outcome]) := by
  have hreports := h.reports
  cases hp : r.place with
  | queued | taken | entering | agent =>
      rw [hp] at hreports
      exact ⟨_, by rw [hreports]; rfl, .inl rfl⟩
  | speaking | opening | pushing =>
      rw [hp] at hreports
      dsimp only [Reports] at hreports
      split at hreports
      · exact ⟨_, hreports.no_outcome, .inl rfl⟩
      · exact ⟨_, by rw [hreports]; rfl, .inl rfl⟩
  | returned | finishing | joining | checking | publishing =>
      rw [hp] at hreports
      exact ⟨_, AgentReturned.no_outcome hreports, .inl rfl⟩
  | failing | quieting | rejoining | reporting | classifying =>
      rw [hp] at hreports
      exact ⟨_, AgentEnded.no_outcome hreports, .inl rfl⟩
  | settling =>
      rw [hp] at hreports
      obtain ⟨before, hbefore, heq⟩ := hreports
      exact ⟨before, hbefore.no_outcome, .inr ⟨_, rfl, heq⟩⟩
  | resigning | ended =>
      rw [hp] at hreports
      obtain ⟨before, outcome, hbefore, houtcome, heq⟩ := hreports
      exact ⟨before, hbefore.no_outcome, .inr ⟨outcome, houtcome, heq⟩⟩

theorem outcomes_of_story {before : List EventType} {outcome : EventType}
    (hbefore : before.filter EventType.isOutcome = []) (houtcome : outcome.isOutcome = true)
    (heq : r.report = before ++ [outcome]) : r.outcomes = [outcome] := by
  rw [outcomes_report, heq, List.filter_append, hbefore, List.filter_cons_of_pos houtcome]
  rfl

theorem Told.once (h : r.Told) : r.outcomes.length ≤ 1 := by
  obtain ⟨before, hbefore, heq | ⟨outcome, houtcome, heq⟩⟩ := h.story
  · rw [outcomes_report, heq, hbefore]
    exact Nat.zero_le 1
  · rw [outcomes_of_story hbefore houtcome heq]
    exact Nat.le_refl 1

/-- The agent tells nothing after the outcome. -/
theorem Told.last {before after : List EventType} {outcome : EventType} (h : r.Told)
    (hpublished : r.published = before ++ outcome :: after) (houtcome : outcome.isOutcome = true) :
    ∀ event ∈ after, event.ofAgent = false := by
  have hreport : r.report = (before.filter fun event => event.ofAgent || event.isOutcome) ++
      outcome :: after.filter fun event => event.ofAgent || event.isOutcome := by
    unfold report
    rw [hpublished, List.filter_append, List.filter_cons_of_pos (by simp [houtcome])]
  have hafter : (after.filter fun event => event.ofAgent || event.isOutcome) = [] := by
    generalize (after.filter fun event => event.ofAgent || event.isOutcome) = rest at hreport
    generalize (before.filter fun event => event.ofAgent || event.isOutcome) = first at hreport
    obtain ⟨told, htold, heq | ⟨last, -, heq⟩⟩ := h.story
    · -- there is no outcome yet
      rw [← heq, hreport, List.filter_append, List.filter_cons_of_pos houtcome] at htold
      simp at htold
    · cases rest using List.reverseRecOn with
      | nil => rfl
      | append_singleton rest event =>
          rw [heq, ← List.cons_append, ← List.append_assoc] at hreport
          have htold' := (List.append_inj' hreport rfl).1
          rw [htold', List.filter_append, List.filter_cons_of_pos houtcome] at htold
          simp at htold
  intro event hevent
  refine Bool.eq_false_of_not_eq_true fun hagent => ?_
  exact List.not_mem_nil (hafter ▸ List.mem_filter.mpr ⟨hevent, by simp [hagent]⟩)

/-- The one way to the events of a completed response. -/
theorem Task.to_publishing (h : r.Task config v t) (hplace : t.place = .publishing) :
    r.place = .checking ∧ r.stopRequested = false ∧ v.gone = false := by
  cases h with
  | passed hp hgo hhere => exact ⟨hp, hgo, hhere⟩
  | deltaIgnored hp | deltaThrew hp => rw [hp] at hplace; contradiction
  | spoken | stale | closed | declined =>
      rcases resume_place _ with hresume | hresume <;> rw [hresume] at hplace <;> contradiction
  | joins | rejoins =>
      rcases joined_place _ _ _ with hjoined | hjoined <;> rw [hjoined] at hplace <;> contradiction
  | _ => contradiction

/-- Only there a response is reported as completed. -/
theorem Task.completes (h : r.Task config v t)
    (hcompleted : .conversationTurnCompleted ∈ t.published) :
    .conversationTurnCompleted ∈ r.published ∨ r.place = .publishing := by
  have hadds {events : List EventType} (hnone : .conversationTurnCompleted ∉ events)
      (hmem : .conversationTurnCompleted ∈ r.published ++ events) :
      .conversationTurnCompleted ∈ r.published ∨ r.place = .publishing :=
    .inl ((List.mem_append.mp hmem).resolve_right hnone)
  cases h with
  | completed hp => exact .inr hp
  | entered | chunk | opened | late => exact hadds (by decide) hcompleted
  | agentReturned completed => exact hadds (by cases completed <;> decide) hcompleted
  | agentThrew => exact hadds (by split <;> decide) hcompleted
  | classified => exact hadds (by split <;> decide) hcompleted
  | finishes _ hq | joins _ hq | cancels _ hq | quiets _ hq | rejoins _ hq =>
      rw [hq.fields] at hcompleted
      exact .inl hcompleted
  | _ => exact .inl hcompleted

theorem Provider.completes (h : r.Provider config v t)
    (hcompleted : .conversationTurnCompleted ∈ t.published) :
    .conversationTurnCompleted ∈ r.published := by
  cases h with
  | worker _ ht =>
      rw [ht.fields] at hcompleted
      exact hcompleted
  | frame =>
      refine (List.mem_append.mp hcompleted).resolve_right ?_
      split <;> decide
  | frameEnd threw =>
      refine (List.mem_append.mp hcompleted).resolve_right ?_
      cases threw <;> decide

end Response

namespace Responses

open Response

variable {config : IncrementalTtsConfig} {s t : Responses} {a : ResponsesAction} {ticket : Nat}

/-! ## a truthful completion -/

/-- The completion finds the agent's reply, speech that is drained, and a turn
that is still the conversation's and that nobody has asked to stop. -/
structure Passes (s : Responses) (ticket : Nat) : Prop where
  place : (s.responses ticket).place = .checking
  returned : AgentReturned (s.responses ticket).report
  goes : (s.responses ticket).stopRequested = false
  here : ∃ turn, s.conversation.turns[ticket]? = some turn ∧ s.alive = true ∧
    turn.generation = s.conversation.generation
  drained : ∀ p h, (s.responses ticket).speech = some (p, h) → Drained p h

/-- What `view` says of a turn that is not gone. -/
theorem view_here {turn : SpeechTurn} (hhere : (s.view turn).gone = false) :
    s.alive = true ∧ turn.generation = s.conversation.generation := by
  unfold ResponseView.gone view at hhere
  simpa using hhere

theorem passes_of_task {turn : SpeechTurn} {r : Response}
    (hr : (ByteTurn.responses config).Reachable s)
    (hturn : s.conversation.turns[ticket]? = some turn)
    (h : (s.responses ticket).Task config (s.view turn) r) (hplace : r.place = .publishing) :
    s.Passes ticket := by
  obtain ⟨hp, hgo, hhere⟩ := h.to_publishing hplace
  have hreports := (told_of_reachable hr ticket).reports
  rw [hp] at hreports
  refine ⟨hp, hreports, hgo, ⟨turn, hturn, view_here hhere⟩, fun p history hspeech => ?_⟩
  have hrests := (quiet_of_reachable hr ticket).rests p history hspeech
  rw [hp] at hrests
  obtain ⟨hcancel, hexited, herror⟩ := hrests
  have hcancelled : p.cancelled = false := by
    refine Bool.eq_false_of_not_eq_true fun hc => ?_
    rw [(heeds hr ticket).here hturn p history hspeech hc] at hhere
    contradiction
  have hinv : SpeechInvariant config p history :=
    .of_reachable (pipeline_reachable hr ticket p history hspeech).1
  exact hinv.to_drained hexited herror hcancel hcancelled

/-- A response that is being reported as completed, or has been, has passed the
check. -/
theorem passed_of_reachable (hr : (ByteTurn.responses config).Reachable s)
    (h : (s.responses ticket).place = .publishing ∨
      .conversationTurnCompleted ∈ (s.responses ticket).published) :
    ∃ u, (ByteTurn.responses config).Reachable u ∧ (ByteTurn.responses config).Leads u s ∧
      u.Passes ticket := by
  revert h
  refine hr.rec_inv (P := fun s => (s.responses ticket).place = .publishing ∨
    .conversationTurnCompleted ∈ (s.responses ticket).published → ∃ u,
      (ByteTurn.responses config).Reachable u ∧ (ByteTurn.responses config).Leads u s ∧
        u.Passes ticket) ?_ ?_
  · rintro (h | h) <;> contradiction
  intro s a t hr hp hs h
  have hearlier (hs' : (s.responses ticket).place = .publishing ∨
      .conversationTurnCompleted ∈ (s.responses ticket).published) :
      ∃ u, (ByteTurn.responses config).Reachable u ∧ (ByteTurn.responses config).Leads u t ∧
        u.Passes ticket := by
    obtain ⟨u, hu, hleads, hpasses⟩ := hp hs'
    exact ⟨u, hu, hleads.trans (.single hs), hpasses⟩
  have hevolves := evolves_of_step hr hs ticket
  generalize t.responses ticket = r at hevolves h
  cases hevolves with
  | same | cancelled | expired => exact hearlier h
  | taken => exact hearlier (.inr (h.resolve_left nofun))
  | task hrunning hturn htask =>
      rcases h with h | h
      · exact ⟨s, hr, .single hs, passes_of_task hr hturn htask h⟩
      · exact hearlier (htask.completes h).symm
  | provider hturn hprovider =>
      rcases h with h | h
      · exact hearlier (.inl (hprovider.place_eq ▸ h))
      · exact hearlier (.inr (hprovider.completes h))

/-! ## one outcome -/

/-- What is published about a turn. -/
structure Truthful (config : IncrementalTtsConfig) (s : Responses) (ticket : Nat) : Prop where
  unstarted : ticket ∉ s.conversation.lane.started → (s.responses ticket).outcomes = []
  once : (s.responses ticket).outcomes.length ≤ 1
  finished : ticket ∈ s.conversation.lane.finished → (s.responses ticket).outcomes.length = 1
  last : ∀ before outcome after,
    (s.responses ticket).published = before ++ outcome :: after → outcome.isOutcome = true →
    ∀ event ∈ after, event.ofAgent = false
  completed : .conversationTurnCompleted ∈ (s.responses ticket).published →
    ∃ u, (ByteTurn.responses config).Reachable u ∧ (ByteTurn.responses config).Leads u s ∧
      u.Passes ticket

theorem truthful_of_reachable (hr : (ByteTurn.responses config).Reachable s) (ticket : Nat) :
    s.Truthful config ticket := by
  have hplaced := placed_of_reachable hr
  have htold := told_of_reachable hr ticket
  refine ⟨fun hstarted => ?_, htold.once, fun hfinished => ?_, fun _ _ _ => htold.last,
    fun hcompleted => passed_of_reachable hr (.inr hcompleted)⟩
  · have hreports := htold.reports
    rw [(hplaced.queued ticket).mpr hstarted] at hreports
    rw [outcomes_report, hreports]
    rfl
  · have hreports := htold.reports
    rw [hplaced.ended ticket hfinished] at hreports
    obtain ⟨before, outcome, hbefore, houtcome, heq⟩ := hreports
    rw [outcomes_of_story hbefore.no_outcome houtcome heq]
    rfl

/-- A wedged task has no outcome. -/
theorem Wedged.no_outcome (hr : (ByteTurn.responses config).Reachable s)
    (h : s.Wedged config ticket) : (s.responses ticket).outcomes = [] := by
  obtain ⟨_, _, hwedged⟩ := h
  obtain ⟨sentence, rest, hp⟩ := hwedged.pushing
  have hreports := (told_of_reachable hr ticket).reports
  rw [hp] at hreports
  rw [outcomes_report]
  dsimp only [Response.Reports] at hreports
  split at hreports
  · exact hreports.no_outcome
  · rw [hreports]
    rfl

end Responses

open Responses in
/-- **Outcomes**: a turn whose task never starts gets none, any other at most one,
and exactly one once its task has ended; the agent tells nothing after it, and a
turn is called completed only after the check of a completion.  A started turn
can get to its outcome exactly when its task is not wedged. -/
theorem responses_outcome (config : IncrementalTtsConfig) (s : Responses)
    (hr : (responses config).Reachable s) (ticket : Nat) :
    s.Truthful config ticket ∧
      (ticket ∈ s.conversation.lane.started →
        ((∃ t, (responses config).Leads s t ∧ (t.responses ticket).outcomes.length = 1) ↔
          ¬ s.Wedged config ticket)) := by
  refine ⟨truthful_of_reachable hr ticket, fun hstarted => ⟨?_, fun hfree => ?_⟩⟩
  · rintro ⟨t, hleads, hone⟩ hwedged
    rw [(hwedged.leads hr hleads).no_outcome (hr.leads hleads)] at hone
    contradiction
  · obtain ⟨t, hleads, hfinished⟩ := (finishes_iff_not_wedged hr hstarted).mpr hfree
    exact ⟨t, hleads, (truthful_of_reachable (hr.leads hleads) ticket).finished hfinished⟩

/-- A turn is taken, and its agent says something. -/
def repliedTurn (text : Bytes) : List ResponsesAction :=
  [.conversation .drawTurnId, .conversation (.finalTranscript 1), .conversation .accept,
    .conversation .start, .advance, .advance, .delta text]

/-- One sentence is spoken to its end. -/
def spokenTurn : List ResponsesAction :=
  repliedTurn (lit "One is here. ") ++
    [.advance, .advance, .worker 0 .returned, .advance, .advance, .worker 0 .takeChunk,
      .worker 0 .returned, .worker 0 .poll, .agentReturn true, .advance, .advance, .advance,
      .worker 0 .takeChunk, .worker 0 .leave, .worker 0 .returned, .advance, .advance, .advance,
      .advance, .endTask]

theorem spokenTurn_outcome :
    ∃ s, (responses tightTts).run {} spokenTurn = some s ∧
      (s.responses 0).outcomes = [.conversationTurnCompleted] ∧ s.Truthful tightTts 0 ∧
      ((∃ t, (responses tightTts).Leads s t ∧ (t.responses 0).outcomes.length = 1) ↔
        ¬ s.Wedged tightTts 0) := by
  have hrun : ((responses tightTts).run {} spokenTurn).map (fun s =>
      (s.conversation.lane.started, (s.responses 0).outcomes)) =
        some ([0], [.conversationTurnCompleted]) := by decide +kernel
  obtain ⟨s, hs, heq⟩ := Option.map_eq_some_iff.mp hrun
  obtain ⟨hstarted, houtcomes⟩ := Prod.mk.inj heq
  have houtcome := responses_outcome tightTts s ⟨spokenTurn, hs⟩ 0
  exact ⟨s, hs, houtcomes, houtcome.1, houtcome.2 (by rw [hstarted]; exact List.mem_cons_self)⟩

/-- Three sentences meet a queue of one; the turn is interrupted while the third
waits, and the worker ends its loop. -/
def wedgedTurn : List ResponsesAction :=
  repliedTurn (lit "One is here. Two is here. Three is here. ") ++
    [.advance, .advance, .worker 0 .returned, .advance, .worker 0 .takeChunk, .advance, .advance,
      .advance, .conversation .interrupt, .worker 0 .returned, .worker 0 .poll]

theorem wedgedTurn_no_outcome :
    ∃ s, (responses tightTts).run {} wedgedTurn = some s ∧ 0 ∈ s.conversation.lane.started ∧
      ∀ t, (responses tightTts).Leads s t → (t.responses 0).outcomes = [] := by
  have hrun : ((responses tightTts).run {} wedgedTurn).map (fun s =>
      (s.conversation.lane.started, s.conversation.turns[0]?.map s.view, (s.responses 0).place,
        (s.responses 0).speech.map fun p => (p.1.pushWake tightTts, p.1.worker))) =
        some ([0], some ⟨true, false⟩, .pushing (lit "Three is here.") [],
          some (false, .leaving)) := by decide +kernel
  obtain ⟨s, hs, heq⟩ := Option.map_eq_some_iff.mp hrun
  obtain ⟨hstarted, heq⟩ := Prod.mk.inj heq
  obtain ⟨hview, heq⟩ := Prod.mk.inj heq
  obtain ⟨hplace, hspeech⟩ := Prod.mk.inj heq
  obtain ⟨turn, hturn, hview⟩ := Option.map_eq_some_iff.mp hview
  obtain ⟨⟨p, h⟩, hspeech, hpipeline⟩ := Option.map_eq_some_iff.mp hspeech
  obtain ⟨hwake, hworker⟩ := Prod.mk.inj hpipeline
  have hr : (responses tightTts).Reachable s := ⟨wedgedTurn, hs⟩
  have hwedged : s.Wedged tightTts 0 := by
    refine ⟨turn, hturn, ⟨_, _, hplace⟩, by rw [hview]; rfl, p, h, hspeech, hwake, ?_⟩
    dsimp only at hworker
    rw [hworker]
    rfl
  refine ⟨s, hs, by rw [hstarted]; exact List.mem_cons_self, fun t hleads => ?_⟩
  exact (hwedged.leads hr hleads).no_outcome (hr.leads hleads)

end ByteTurn

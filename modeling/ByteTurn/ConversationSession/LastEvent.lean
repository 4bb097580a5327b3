import ByteTurn.ConversationSession.Settled

/-!
# ByteTurn.ConversationSession.LastEvent

The last event of a session's journal.

The lifecycle worker appends the event that ends the session and closes the
timeline after it, in two sections.  What a sink emits between the two is still
admitted; where nothing is (`Fenced`), the worker's event is the last one.
-/

namespace ByteTurn

variable {config : SessionConfig} {s t u : SessionState} {a : SessionAction}

/-! ## what is admitted -/

/-- An event that an open timeline admits. -/
def Admissible (config : TimelineConfig) (event : Event) : Prop :=
  match normalize config event with
  | .ok e => fits e config.maxEventBytes = true
  | .error _ => False

instance (config : TimelineConfig) (event : Event) : Decidable (Admissible config event) := by
  unfold Admissible
  split
  · infer_instance
  · exact .isFalse fun h => h

theorem admitEvent_journal {config : TimelineConfig} {s : TimelineState} {event e : Event}
    (hopen : s.closed = false) (hnormalize : normalize config event = .ok e)
    (hfits : fits e config.maxEventBytes = true) (now : Int) (allocationFails : Bool) :
    (admitEvent config s event now allocationFails).1.journal =
      s.journal ++ [stamp e now (s.counters.accepted + 1)] := by
  simp only [admitEvent, hopen, hnormalize, hfits, Bool.false_eq_true, if_false, if_true]
  split
  · cases allocationFails <;> rfl
  · rfl

theorem admitEvent_of_inadmissible {config : TimelineConfig} {event : Event}
    (h : ¬ Admissible config event) (s : TimelineState) (now : Int) (allocationFails : Bool) :
    (admitEvent config s event now allocationFails).1 = s.reject := by
  unfold Admissible at h
  unfold admitEvent
  split
  · rfl
  · split
    · rfl
    · next e hnormalize =>
      rw [hnormalize] at h
      rw [if_neg h]

theorem admitEvent_closed {config : TimelineConfig} {s : TimelineState} (h : s.closed = true)
    (event : Event) (now : Int) (allocationFails : Bool) :
    (admitEvent config s event now allocationFails).2.1.status = .closed := by
  rw [admitEvent, if_pos h]

/-! ## the terminal event -/

/-- What the lifecycle worker reports at the end. -/
def SessionState.reportedEvent (s : SessionState) (config : SessionConfig) : Event :=
  match s.worker.failure with
  | some _ => {
      type := .sessionFailed
      sessionId := config.timeline.sessionId
      name := lit "lifecycle_failure" }
  | none => {
      type := .sessionStopped
      sessionId := config.timeline.sessionId
      name := lit "stopped" }

theorem report_timeline {now : Int} {allocationFails : Bool}
    (hs : lifecycleStep config s (.report now allocationFails) = some t) :
    s.worker.place = .reporting ∧ t.worker.place = .closing ∧
      t.timeline = (admitEvent config.timeline s.timeline (s.reportedEvent config) now
        allocationFails).1 := by
  simp only [lifecycleStep] at hs
  split at hs <;> try contradiction
  next hplace =>
  obtain rfl := Option.some.inj hs
  refine ⟨hplace, rfl, ?_⟩
  unfold SessionState.reportedEvent
  cases hfailure : s.worker.failure with
  | none => rfl
  | some _ => rfl

/-- The timeline refuses it for its size only. -/
theorem normalize_reportedEvent (config : SessionConfig) (s : SessionState) :
    normalize config.timeline (s.reportedEvent config) =
      .ok { s.reportedEvent config with generation := config.timeline.generation } := by
  have hid := config.sessionId_ne
  unfold SessionState.reportedEvent
  split <;> simp [normalize, hid]

/-! ## the fence -/

/-- While the worker is between its last event and `close()`, what is emitted is
not admissible.  Nobody else closes the timeline. -/
def Fenced (config : SessionConfig) (s : SessionState) : SessionAction → Prop
  | .timeline (.append event _ _) =>
      s.worker.place = .closing → ¬ Admissible config.timeline event
  | .timeline .close => s.timeline.closed = true
  | _ => True

instance (config : SessionConfig) (s : SessionState) : (a : SessionAction) →
    Decidable (Fenced config s a)
  | .timeline (.append _ _ _) => inferInstanceAs (Decidable (_ → _))
  | .timeline .close => inferInstanceAs (Decidable (_ = _))
  | .timeline .take | .timeline .deliver | .timeline (.delivered _) | .timeline .complete
  | .start _ | .startWake | .requestStop | .acquire _ | .enter _ _ _ | .leave _ | .release _
  | .worker _ => .isTrue trivial

/-- The runs that keep the fence. -/
def fencedSession (config : SessionConfig) : Machine SessionState SessionAction :=
  (conversationSession config).guarded (Fenced config)

/-- The worker has said that the session is over. -/
def LifecyclePlace.reported : LifecyclePlace → Bool
  | .closing | .finishing | .exited => true
  | _ => false

theorem timelineStep_closed {config : TimelineConfig} {s t : TimelineState} {x : TimelineAction}
    (hs : timelineStep config s x = some t) (hx : x ≠ .close) : t.closed = s.closed := by
  cases x with
  | append event now allocationFails =>
      obtain rfl := Option.some.inj hs
      rcases admitEvent_cases config s event now allocationFails with
        hr | ⟨e, -, ⟨-, hr⟩ | ⟨failed, hr⟩⟩ <;> rw [hr] <;> rfl
  | close => exact absurd rfl hx
  | take =>
      simp only [timelineStep] at hs
      split at hs <;> try contradiction
      split at hs
      · split at hs <;> try contradiction
        obtain rfl := Option.some.inj hs
        rfl
      · obtain rfl := Option.some.inj hs
        rfl
  | deliver | delivered failures | complete =>
      all_goals
        simp only [timelineStep] at hs
        split at hs <;> try contradiction
        obtain rfl := Option.some.inj hs
        rfl

/-- The worker closes the timeline on its way to the end only. -/
theorem loop_closed {b : LifecycleAction} (hs : lifecycleStep config s b = some t) :
    t.timeline.closed = s.timeline.closed ∨ t.worker.place = .finishing := by
  cases b with
  | announce now allocationFails =>
      simp only [lifecycleStep] at hs
      split at hs <;> try contradiction
      obtain rfl := Option.some.inj hs
      exact .inl (timelineStep_closed (x := .append _ now allocationFails) rfl (by simp))
  | report now allocationFails =>
      obtain ⟨-, -, htimeline⟩ := report_timeline hs
      rw [htimeline]
      exact .inl (timelineStep_closed (x := .append _ now allocationFails) rfl (by simp))
  | close =>
      simp only [lifecycleStep] at hs
      split at hs <;> try contradiction
      obtain rfl := Option.some.inj hs
      exact .inr rfl
  | wake | probed caps | started | threw error | publishRunning | handleFailure | stopSeen
      | drained | stopped | finish =>
      simp only [lifecycleStep] at hs
      repeat' split at hs
      all_goals first
        | contradiction
        | (obtain rfl := Option.some.inj hs; exact .inl rfl)

/-- The end of the loop: the timeline is closed, and nothing else is done. -/
theorem loop_ending {b : LifecycleAction} (hs : lifecycleStep config s b = some t)
    (hplace : s.worker.place.reported = true) :
    t.timeline.journal = s.timeline.journal ∧
      (t.worker.place = .finishing ∨ t.worker.place = .exited) := by
  unfold LifecyclePlace.reported at hplace
  split at hplace
  · next hclosing =>
    cases b <;> simp only [lifecycleStep, hclosing, reduceCtorEq] at hs
    obtain rfl := Option.some.inj hs
    exact ⟨rfl, .inl rfl⟩
  · next hfinishing =>
    cases b <;> simp only [lifecycleStep, hfinishing, reduceCtorEq] at hs
    obtain rfl := Option.some.inj hs
    exact ⟨rfl, .inr rfl⟩
  · next hexited =>
    cases b <;> simp only [lifecycleStep, hexited, reduceCtorEq] at hs
  · contradiction

theorem enter_closed {i : Nat} {now : Int} {allocationFails : Bool}
    (hs : sessionStep config s (.enter i now allocationFails) = some t) :
    t.timeline.closed = s.timeline.closed := by
  simp only [sessionStep] at hs
  split at hs <;> try contradiction
  next call _ =>
  obtain rfl := Option.some.inj hs
  cases call with
  | observe event | handleEvent event =>
      exact timelineStep_closed (x := .append event now allocationFails) rfl (by simp)
  | pushAudio | cancelResponse | state => rfl

/-- In a fenced run the timeline is open until the worker closes it. -/
theorem leaving_of_closed (h : (fencedSession config).Reachable s)
    (hclosed : s.timeline.closed = true) :
    s.worker.place = .finishing ∨ s.worker.place = .exited := by
  refine Machine.Reachable.rec_inv (m := fencedSession config) (P := fun s =>
    s.timeline.closed = true → s.worker.place = .finishing ∨ s.worker.place = .exited)
    nofun ?_ h hclosed
  intro s a t _ hp hstep hclosed
  obtain ⟨hfence, hstep⟩ := Machine.guarded_step.mp hstep
  have hs : sessionStep config s a = some t := hstep
  cases a with
  | worker b =>
      obtain hsame | hfinishing := loop_closed hs
      · have hreported : s.worker.place.reported = true := by
          rcases hp (hsame ▸ hclosed) with hplace | hplace <;> rw [hplace] <;> rfl
        exact (loop_ending hs hreported).2
      · exact .inl hfinishing
  | timeline x =>
      have hworker := (caller_step hs (by simp)).worker
      rw [hworker]
      refine hp ?_
      obtain ⟨next, hnext, rfl⟩ := Option.map_eq_some_iff.mp hs
      by_cases hx : x = .close
      · subst hx
        exact hfence
      · exact (timelineStep_closed hnext hx).symm.trans hclosed
  | enter i now allocationFails =>
      rw [(caller_step hs (by simp)).worker]
      exact hp ((enter_closed hs).symm.trans hclosed)
  | start callback | startWake | requestStop | acquire call | leave i | release i =>
      rw [(caller_step hs (by simp)).worker]
      refine hp ?_
      rw [← caller_timeline hs (by simp) (by simp) (by simp)]
      exact hclosed

/-! ## the last event -/

/-- After its report the worker is past the point where calls are admitted. -/
theorem no_calls_of_reported (h : (conversationSession config).Reachable s)
    (hplace : s.worker.place.reported = true) : s.calls = [] := by
  by_contra hcalls
  rcases ((leases_of_reachable h).held hcalls).2 with hw | hw <;> rw [hw] at hplace <;>
    contradiction

theorem timelineStep_journal {config : TimelineConfig} {s t : TimelineState} {x : TimelineAction}
    (hs : timelineStep config s x = some t)
    (happend : ∀ event now allocationFails, x = .append event now allocationFails →
      s.closed = true ∨ ¬ Admissible config event) : t.journal = s.journal := by
  cases x with
  | append event now allocationFails =>
      obtain hclosed | hinadmissible := happend event now allocationFails rfl
      · exact (closed_step hclosed hs).2.1
      · obtain rfl := Option.some.inj hs
        rw [admitEvent_of_inadmissible hinadmissible]
        rfl
  | close =>
      obtain rfl := Option.some.inj hs
      rfl
  | take =>
      simp only [timelineStep] at hs
      split at hs <;> try contradiction
      split at hs
      · split at hs <;> try contradiction
        obtain rfl := Option.some.inj hs
        rfl
      · obtain rfl := Option.some.inj hs
        rfl
  | deliver | delivered failures | complete =>
      all_goals
        simp only [timelineStep] at hs
        split at hs <;> try contradiction
        obtain rfl := Option.some.inj hs
        rfl

/-- After the worker's report a fenced step leaves the journal as it is. -/
theorem reported_step (h : (conversationSession config).Reachable s)
    (hplace : s.worker.place.reported = true) (hfence : Fenced config s a)
    (hs : sessionStep config s a = some t) :
    t.worker.place.reported = true ∧ t.timeline.journal = s.timeline.journal := by
  cases a with
  | worker b =>
      obtain ⟨hjournal, hlater⟩ := loop_ending hs hplace
      refine ⟨?_, hjournal⟩
      rcases hlater with hlater | hlater <;> rw [hlater] <;> rfl
  | timeline x =>
      refine ⟨by rw [(caller_step hs (by simp)).worker]; exact hplace, ?_⟩
      obtain ⟨next, hnext, rfl⟩ := Option.map_eq_some_iff.mp hs
      refine timelineStep_journal hnext ?_
      rintro event now allocationFails rfl
      by_cases hclosing : s.worker.place = .closing
      · exact .inr (hfence hclosing)
      · refine .inl (closed_of_leaving h ?_)
        unfold LifecyclePlace.reported at hplace
        split at hplace
        · contradiction
        · exact .inl ‹_›
        · exact .inr ‹_›
        · contradiction
  | enter i now allocationFails =>
      simp only [sessionStep, no_calls_of_reported h hplace, List.getElem?_nil, reduceCtorEq] at hs
  | start callback | startWake | requestStop | acquire call | leave i | release i =>
      rw [(caller_step hs (by simp)).worker, caller_timeline hs (by simp) (by simp) (by simp)]
      exact ⟨hplace, rfl⟩

theorem reported_leads (h : (fencedSession config).Reachable s)
    (hplace : s.worker.place.reported = true) (hl : (fencedSession config).Leads s t) :
    t.worker.place.reported = true ∧ t.timeline.journal = s.timeline.journal := by
  refine Machine.Leads.rec_stable (P := fun r => r.worker.place.reported = true ∧
    r.timeline.journal = s.timeline.journal) ?_ h ⟨hplace, rfl⟩ hl
  intro r a r' hr hp hstep
  obtain ⟨hfence, hstep⟩ := Machine.guarded_step.mp hstep
  have hs : sessionStep config r a = some r' := hstep
  obtain ⟨hplace', hjournal⟩ := reported_step (Machine.Reachable.of_guarded hr) hp.1 hfence hs
  exact ⟨hplace', hjournal.trans hp.2⟩

/-- **The journal ends with the session** where the fence is kept: the event that
the worker reports is admitted if it fits, nothing is admitted after it, and once
the worker has closed the timeline whatever comes is refused as closed. -/
theorem reported_event_last (config : SessionConfig) (now : Int) (allocationFails : Bool)
    (h : (fencedSession config).Reachable s)
    (hreport : sessionStep config s (.worker (.report now allocationFails)) = some t)
    (hfits : (s.reportedEvent config).stringBytes ≤ config.timeline.maxEventBytes)
    (hl : (fencedSession config).Leads t u) :
    t.timeline.journal = s.timeline.journal ++
        [stamp { s.reportedEvent config with generation := config.timeline.generation } now
          (s.timeline.counters.accepted + 1)] ∧
      u.timeline.journal = t.timeline.journal ∧
      (u.worker.place ≠ .closing → ∀ event now allocationFails,
        (admitEvent config.timeline u.timeline event now allocationFails).2.1.status = .closed) := by
  obtain ⟨hreporting, hclosing, htimeline⟩ := report_timeline hreport
  have ht : (fencedSession config).Reachable t :=
    h.step (a := .worker (.report now allocationFails)) (Machine.guarded_step.mpr ⟨trivial, hreport⟩)
  obtain ⟨hplace, hjournal⟩ := reported_leads ht (by rw [hclosing]; rfl) hl
  have hopen : s.timeline.closed = false := by
    by_contra hclosed
    rcases leaving_of_closed h (by simpa using hclosed) with hplace | hplace <;>
      rw [hreporting] at hplace <;> contradiction
  refine ⟨?_, hjournal, fun hleft event now allocationFails => ?_⟩
  · rw [htimeline]
    exact admitEvent_journal hopen (normalize_reportedEvent config s) ((fits_iff _ _).mpr hfits) now
      allocationFails
  · refine admitEvent_closed ?_ event now allocationFails
    refine closed_of_leaving (Machine.Reachable.of_guarded (ht.leads hl)) ?_
    unfold LifecyclePlace.reported at hplace
    split at hplace
    · contradiction
    · exact .inl ‹_›
    · exact .inr ‹_›
    · contradiction

/-- A session that is started and stopped, up to the worker's report. -/
def startedAndStopped : List SessionAction :=
  [.start false, .worker .wake, .worker (.probed {}), .worker .started,
    .worker (.announce 1 false), .worker .publishRunning, .requestStop, .worker .stopSeen,
    .worker .drained, .worker .stopped]

/-- An emission that comes after the timeline is closed. -/
def emittedAfterClose : List SessionAction :=
  [.worker .close, .timeline (.append { type := .error } 3 false), .worker .finish]

theorem reported_event_last_stopped :
    ∃ s t u, (fencedSession tightSession).run (fencedSession tightSession).init startedAndStopped =
        some s ∧
      sessionStep tightSession s (.worker (.report 2 false)) = some t ∧
      (fencedSession tightSession).run t emittedAfterClose = some u ∧
      u.timeline.journal = t.timeline.journal ∧
      u.timeline.journal.map (·.type) = [.sessionStarted, .sessionStopped] := by
  refine ⟨_, _, _, rfl, rfl, rfl, ?_, rfl⟩
  exact (reported_event_last tightSession 2 false ⟨startedAndStopped, rfl⟩ rfl (by decide)
    ⟨emittedAfterClose, rfl⟩).2.1

/-- An emission that comes between the worker's report and `close()`. -/
def emittedBeforeClose : List SessionAction :=
  [.timeline (.append { type := .error } 3 false), .worker .close, .worker .finish]

/-- It is admitted after the session's last event. -/
theorem reported_event_not_last :
    ∃ s t u, (conversationSession tightSession).run (conversationSession tightSession).init
        startedAndStopped = some s ∧
      sessionStep tightSession s (.worker (.report 2 false)) = some t ∧
      (s.reportedEvent tightSession).stringBytes ≤ tightSession.timeline.maxEventBytes ∧
      (conversationSession tightSession).run t emittedBeforeClose = some u ∧
      t.timeline.journal.map (·.type) = [.sessionStarted, .sessionStopped] ∧
      u.timeline.journal.map (·.type) = [.sessionStarted, .sessionStopped, .error] :=
  ⟨_, _, _, rfl, rfl, by decide, rfl, rfl, rfl⟩

end ByteTurn

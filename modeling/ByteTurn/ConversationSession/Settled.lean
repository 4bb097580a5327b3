import ByteTurn.ConversationSession.Lifecycle
import ByteTurn.EventTimeline.Journal

/-!
# ByteTurn.ConversationSession.Settled

A session that has reached its end, seen from outside.

The session drives its timeline (`timeline_leads`), closes it before it
publishes a terminal phase (`closed_of_terminal`) and admits nothing after.
So the two facts an owner can observe one after the other, a terminal phase
and then an empty notification lane, stay true once observed
(`Settled.leads`).
-/

namespace ByteTurn

variable {config : SessionConfig} {s t : SessionState} {a : SessionAction} {b : LifecycleAction}

/-! ## the timeline of a session -/

theorem append_leads (config : TimelineConfig) (s : TimelineState) (event : Event) (now : Int)
    (allocationFails : Bool) :
    (timeline config).Leads s (admitEvent config s event now allocationFails).1 :=
  .single (a := .append event now allocationFails) rfl

theorem loop_timeline (hs : lifecycleStep config s b = some t) :
    (timeline config.timeline).Leads s.timeline t.timeline := by
  cases b with
  | announce now allocationFails =>
      simp only [lifecycleStep] at hs
      split at hs <;> try contradiction
      obtain rfl := Option.some.inj hs
      exact append_leads _ _ _ _ _
  | report now allocationFails =>
      simp only [lifecycleStep] at hs
      split at hs <;> try contradiction
      obtain rfl := Option.some.inj hs
      split <;> exact append_leads _ _ _ _ _
  | close =>
      simp only [lifecycleStep] at hs
      split at hs <;> try contradiction
      obtain rfl := Option.some.inj hs
      exact .single (a := .close) rfl
  | wake | probed caps | started | threw error | publishRunning | handleFailure | stopSeen
      | drained | stopped | finish =>
      simp only [lifecycleStep] at hs
      repeat' split at hs
      all_goals first
        | contradiction
        | (obtain rfl := Option.some.inj hs; exact .refl _ _)

/-- The other steps leave the timeline alone. -/
theorem caller_timeline (hs : sessionStep config s a = some t) (hworker : ∀ b, a ≠ .worker b)
    (htimeline : ∀ x, a ≠ .timeline x) (henter : ∀ i now failed, a ≠ .enter i now failed) :
    t.timeline = s.timeline := by
  cases a with
  | start callback =>
      obtain rfl := Option.some.inj hs
      show (s.start callback).1.timeline = s.timeline
      unfold SessionState.start
      repeat' split
      all_goals rfl
  | startWake =>
      simp only [sessionStep] at hs
      split at hs <;> try contradiction
      split at hs <;> try contradiction
      obtain rfl := Option.some.inj hs
      rfl
  | requestStop =>
      obtain rfl := Option.some.inj hs
      unfold SessionState.requestStop
      split <;> rfl
  | acquire call =>
      simp only [sessionStep, SessionState.acquireOperation] at hs
      split at hs
      · next heq =>
        obtain rfl := Option.some.inj hs
        split at heq <;> cases heq
        rfl
      · next heq =>
        obtain rfl := Option.some.inj hs
        split at heq <;> cases heq
        rfl
  | leave i | release i =>
      simp only [sessionStep] at hs
      split at hs <;> try contradiction
      obtain rfl := Option.some.inj hs
      rfl
  | worker b => exact absurd rfl (hworker b)
  | timeline x => exact absurd rfl (htimeline x)
  | enter i now failed => exact absurd rfl (henter i now failed)

/-- A step of a session is at most one step of its timeline. -/
theorem step_timeline (hs : sessionStep config s a = some t) :
    (timeline config.timeline).Leads s.timeline t.timeline := by
  cases a with
  | worker b => exact loop_timeline hs
  | timeline action =>
      obtain ⟨next, hnext, rfl⟩ := Option.map_eq_some_iff.mp hs
      exact .single hnext
  | enter i now allocationFails =>
      simp only [sessionStep] at hs
      split at hs <;> try contradiction
      next call _ =>
      obtain rfl := Option.some.inj hs
      cases call with
      | observe event | handleEvent event => exact append_leads _ _ _ _ _
      | pushAudio | cancelResponse | state => exact .refl _ _
  | start callback | startWake | requestStop | acquire call | leave i | release i =>
      rw [caller_timeline hs (by simp) (by simp) (by simp)]
      exact .refl _ _

theorem timeline_of_reachable (h : (conversationSession config).Reachable s) :
    (timeline config.timeline).Reachable s.timeline :=
  Machine.Reachable.rec_inv (P := fun s => (timeline config.timeline).Reachable s.timeline)
    (Machine.Reachable.init _) (fun _ _ _ _ hp hs => hp.leads (step_timeline hs)) h

theorem timeline_leads (hr : (conversationSession config).Reachable s)
    (h : (conversationSession config).Leads s t) :
    (timeline config.timeline).Leads s.timeline t.timeline :=
  Machine.Leads.rec_stable (P := fun t => (timeline config.timeline).Leads s.timeline t.timeline)
    (fun _ _ _ _ hp hs => hp.trans (step_timeline hs)) hr (.refl _ _) h

/-! ## the end of a session -/

/-- The worker closes the timeline before it publishes the end. -/
theorem closed_of_leaving (h : (conversationSession config).Reachable s)
    (hw : s.worker.place = .finishing ∨ s.worker.place = .exited) : s.timeline.closed = true := by
  refine Machine.Reachable.rec_inv (P := fun s => s.worker.place = .finishing ∨
    s.worker.place = .exited → s.timeline.closed = true) ?_ ?_ h hw
  · simp [conversationSession]
  · intro s a t hr hp hs hw
    have hkept (hclosed : s.timeline.closed = true) : t.timeline.closed = true :=
      (closed_leads (timeline_of_reachable hr) hclosed (step_timeline hs)).1
    by_cases ha : ∃ b, a = .worker b
    · obtain ⟨b, rfl⟩ := ha
      replace hs : lifecycleStep config s b = some t := hs
      cases b <;> simp only [lifecycleStep] at hs
      case close =>
        split at hs <;> try contradiction
        obtain rfl := Option.some.inj hs
        rfl
      case finish =>
        split at hs <;> try contradiction
        next hfinishing => exact hkept (hp (.inl hfinishing))
      case report =>
        split at hs <;> try contradiction
        obtain rfl := Option.some.inj hs
        revert hw
        split <;> simp
      all_goals
        repeat' split at hs
        all_goals first
          | contradiction
          | (obtain rfl := Option.some.inj hs; simp at hw)
    · have hcaller := caller_step hs fun b hb => ha ⟨b, hb⟩
      rw [hcaller.worker] at hw
      exact hkept (hp hw)

theorem closed_of_terminal (h : (conversationSession config).Reachable s)
    (hterm : s.lifecycle.terminal = true) : s.timeline.closed = true :=
  closed_of_leaving h (.inr ((phases_of_reachable h).terminal.mp hterm))

/-- The session has ended and its timeline has nothing left to deliver. -/
structure Settled (s : SessionState) : Prop where
  terminal : s.lifecycle.terminal = true
  drained : s.timeline.enqueued ≤ s.timeline.completed

theorem terminal_leads (hr : (conversationSession config).Reachable s)
    (h : (conversationSession config).Leads s t) (hterm : s.lifecycle.terminal = true) :
    t.lifecycle.terminal = true := by
  rw [(forward_leads hr h).2 hterm]
  exact hterm

theorem completed_step {config : TimelineConfig} {s t : TimelineState} {a : TimelineAction}
    (hs : timelineStep config s a = some t) : s.completed ≤ t.completed := by
  cases a with
  | append event now allocationFails =>
      obtain rfl := Option.some.inj hs
      rcases admitEvent_cases config s event now allocationFails with
        hr | ⟨e, -, ⟨-, hr⟩ | ⟨failed, hr⟩⟩ <;> rw [hr] <;> exact Nat.le_refl _
  | close =>
      obtain rfl := Option.some.inj hs
      exact Nat.le_refl _
  | take =>
      simp only [timelineStep] at hs
      split at hs <;> try contradiction
      split at hs
      · split at hs <;> try contradiction
        obtain rfl := Option.some.inj hs
        exact Nat.le_refl _
      · obtain rfl := Option.some.inj hs
        exact Nat.le_refl _
  | deliver | delivered failures =>
      simp only [timelineStep] at hs
      split at hs <;> try contradiction
      obtain rfl := Option.some.inj hs
      exact Nat.le_refl _
  | complete =>
      simp only [timelineStep] at hs
      split at hs <;> try contradiction
      obtain rfl := Option.some.inj hs
      exact Nat.le_succ _

theorem completed_leads {config : TimelineConfig} {s t : TimelineState}
    (hr : (timeline config).Reachable s) (h : (timeline config).Leads s t) :
    s.completed ≤ t.completed :=
  Machine.Leads.rec_rel (R := fun s t : TimelineState => s.completed ≤ t.completed)
    (fun _ => Nat.le_refl _) (fun _ _ _ => Nat.le_trans) (fun _ _ _ _ hs => completed_step hs) hr h

/-- Settled once, settled for good. -/
theorem Settled.leads (h : Settled s) (hr : (conversationSession config).Reachable s)
    (hl : (conversationSession config).Leads s t) : Settled t := by
  have hreach := timeline_of_reachable hr
  have hleads := timeline_leads hr hl
  obtain ⟨-, -, hnotified⟩ := closed_leads hreach (closed_of_terminal hr h.terminal) hleads
  have hbefore := (delivery_of_reachable hreach).enqueued
  have hafter := (delivery_of_reachable (hreach.leads hleads)).enqueued
  have hcompleted := completed_leads hreach hleads
  have hdrained := h.drained
  rw [hnotified] at hafter
  exact ⟨terminal_leads hr hl h.terminal, by omega⟩

/-- What a settled session has done: its timeline is closed, every notification
that was enqueued has been delivered, and no call is inside it. -/
theorem Settled.quiet (h : Settled s) (hr : (conversationSession config).Reachable s) :
    s.timeline.closed = true ∧ s.timeline.delivered = s.timeline.notified ∧ s.calls = [] := by
  have hdelivery := delivery_of_reachable (timeline_of_reachable hr)
  refine ⟨closed_of_terminal hr h.terminal, ?_, ?_⟩
  · have hhanded := hdelivery.handed_extends
    have hcompleted := hdelivery.completed
    have henqueued := hdelivery.enqueued
    have hdrained := h.drained
    have hlength := hhanded.length_le
    rw [TimelineState.delivered, List.take_of_length_le (by omega)]
    exact hhanded.eq_of_length (by omega)
  · by_contra hcalls
    have hexited := (phases_of_reachable hr).terminal.mp h.terminal
    rcases ((leases_of_reachable hr).held hcalls).2 with hw | hw <;> rw [hexited] at hw <;>
      contradiction

end ByteTurn

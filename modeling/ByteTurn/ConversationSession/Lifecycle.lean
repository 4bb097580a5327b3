import ByteTurn.ConversationSession

/-!
# ByteTurn.ConversationSession.Lifecycle

The lifecycle and lease protocol of a session, over every run.

A step belongs to a caller or the timeline (`caller_step`: the worker is left
alone and the phase may only be moved to `Starting` or `Stopping`) or to the
lifecycle worker, which walks its loop once.  Three invariants carry the
protocol:

* `Phases` — the published phase against the worker's place: a requested stop
  is exactly a phase from `Stopping` on, `Running` is published only while the
  worker serves, and the terminal phase is the worker's exit;
* `EngineCalls` — how often each engine entry point has been called, and what
  was thrown, for each place of the worker;
* `Leases` — the operation count is the number of admitted calls, and admitted
  calls exist only between the engine's start and its stop.
-/

namespace ByteTurn

variable {config : SessionConfig} {s t : SessionState} {a : SessionAction} {b : LifecycleAction}

/-! ## what a caller can do -/

/-- The part of a step that a caller, an admitted call or the timeline takes. -/
structure CallerStep (s t : SessionState) : Prop where
  worker : t.worker = s.worker
  failure : t.failure = s.failure
  reached : t.reachedRunning = s.reachedRunning
  phase :
    (t.lifecycle = s.lifecycle ∧ t.stopRequested = s.stopRequested ∧
      t.startRequested = s.startRequested) ∨
    (s.lifecycle = .created ∧ t.lifecycle = .starting ∧ t.stopRequested = s.stopRequested) ∨
    (s.lifecycle.terminal = false ∧ t.lifecycle = .stopping ∧ t.stopRequested = true ∧
      t.startRequested = s.startRequested)
  returned : t.startsReturned = s.startsReturned ∨ s.lifecycle = .running

/-- A step that leaves phase, flags, worker and history alone is a caller's. -/
theorem CallerStep.of_same (hw : t.worker = s.worker) (hf : t.failure = s.failure)
    (hr : t.reachedRunning = s.reachedRunning) (hl : t.lifecycle = s.lifecycle)
    (hstop : t.stopRequested = s.stopRequested) (hstart : t.startRequested = s.startRequested)
    (hn : t.startsReturned = s.startsReturned ∨ s.lifecycle = .running) : CallerStep s t :=
  ⟨hw, hf, hr, .inl ⟨hl, hstop, hstart⟩, hn⟩

/-- `start` returns normally only from a running session. -/
theorem startWake_returned (h : s.startWake = some .returned) : s.lifecycle = .running := by
  unfold SessionState.startWake at h
  split at h <;> try contradiction
  cases hf : s.failure with
  | some error => simp [hf] at h
  | none =>
      simp only [hf] at h
      split at h
      · next hl => exact hl
      · contradiction

/-- `start` is a step of a caller. -/
theorem start_caller (callback : Bool) :
    CallerStep s ((s.start callback).1.countReturn (s.start callback).2) := by
  unfold SessionState.start
  split
  · next hl => exact .of_same rfl rfl rfl rfl rfl rfl (.inr hl)
  · split
    · exact .of_same rfl rfl rfl rfl rfl rfl (.inl rfl)
    · split
      · next hc => exact ⟨rfl, rfl, rfl, .inr (.inl ⟨hc, rfl, rfl⟩), .inl rfl⟩
      · exact .of_same rfl rfl rfl rfl rfl rfl (.inl rfl)
      · exact .of_same rfl rfl rfl rfl rfl rfl (.inl rfl)

/-- Whatever is not the worker's is a step of a caller. -/
theorem caller_step (hs : sessionStep config s a = some t) (ha : ∀ b, a ≠ .worker b) :
    CallerStep s t := by
  cases a with
  | start callback =>
      obtain rfl := Option.some.inj hs
      exact start_caller callback
  | startWake =>
      simp only [sessionStep] at hs
      split at hs <;> try contradiction
      split at hs <;> try contradiction
      next result hw =>
      obtain rfl := Option.some.inj hs
      refine .of_same rfl rfl rfl rfl rfl rfl ?_
      by_cases hret : result = .returned
      · exact .inr (startWake_returned (hret ▸ hw))
      · exact .inl (if_neg fun heq => hret (Option.some.inj heq))
  | requestStop =>
      obtain rfl := Option.some.inj hs
      unfold SessionState.requestStop
      split
      · exact .of_same rfl rfl rfl rfl rfl rfl (.inl rfl)
      · next hterm =>
        exact ⟨rfl, rfl, rfl, .inr (.inr ⟨Bool.eq_false_iff.mpr hterm, rfl, rfl, rfl⟩), .inl rfl⟩
  | acquire call =>
      simp only [sessionStep, SessionState.acquireOperation] at hs
      by_cases hl : s.lifecycle = .running
      · rw [if_pos hl] at hs
        obtain rfl := Option.some.inj hs
        exact .of_same rfl rfl rfl rfl rfl rfl (.inl rfl)
      · rw [if_neg hl] at hs
        obtain rfl := Option.some.inj hs
        exact .of_same rfl rfl rfl rfl rfl rfl (.inl rfl)
  | enter i now allocationFails =>
      simp only [sessionStep] at hs
      split at hs <;> try contradiction
      next call _ =>
      obtain rfl := Option.some.inj hs
      cases call <;> exact .of_same rfl rfl rfl rfl rfl rfl (.inl rfl)
  | leave i | release i =>
      simp only [sessionStep] at hs
      split at hs <;> try contradiction
      obtain rfl := Option.some.inj hs
      exact .of_same rfl rfl rfl rfl rfl rfl (.inl rfl)
  | worker b => exact absurd rfl (ha b)
  | timeline action =>
      obtain ⟨timeline, -, rfl⟩ := Option.map_eq_some_iff.mp hs
      exact .of_same rfl rfl rfl rfl rfl rfl (.inl rfl)

/-! ## phases -/

/-- The places of the worker after its wait for a stop. -/
def LifecyclePlace.afterServing : LifecyclePlace → Bool
  | .draining | .stopping | .reporting | .closing | .finishing | .exited => true
  | _ => false

/-- The published phase and the flags against the worker's place. -/
structure Phases (s : SessionState) : Prop where
  stop : s.stopRequested = true ↔ 3 ≤ s.lifecycle.rank
  terminal : s.lifecycle.terminal = true ↔ s.worker.place = .exited
  running : s.lifecycle = .running → s.worker.place = .serving ∧ s.reachedRunning = true
  awake : s.worker.place ≠ .waiting → 1 ≤ s.lifecycle.rank
  requested : s.startRequested = true → 1 ≤ s.lifecycle.rank
  leaving : s.worker.place.afterServing = true → s.stopRequested = true
  returned : 0 < s.startsReturned → s.reachedRunning = true

/-- The phases of a new session fit. -/
theorem Phases.init : Phases (conversationSession config).init := by
  constructor <;>
    simp [conversationSession, SessionLifecycle.rank, SessionLifecycle.terminal,
      LifecyclePlace.afterServing]

/-- No caller moves the worker out of its phase. -/
theorem Phases.caller (h : Phases s) (hs : CallerStep s t) : Phases t := by
  obtain ⟨hw, -, hr, hphase, hret⟩ := hs
  have hreturned : 0 < t.startsReturned → t.reachedRunning = true := by
    intro hpos
    rw [hr]
    rcases hret with heq | hl
    · exact h.returned (heq ▸ hpos)
    · exact (h.running hl).2
  rcases hphase with ⟨hl, hstop, hstart⟩ | ⟨hc, hl, hstop⟩ | ⟨hterm, hl, hstop, hstart⟩
  · refine ⟨?_, ?_, ?_, ?_, ?_, ?_, hreturned⟩ <;> simp only [hw, hl, hstop, hstart, hr]
    exacts [h.stop, h.terminal, h.running, h.awake, h.requested, h.leaving]
  · -- a created session has neither been stopped nor reached its end
    have hns : ¬ s.stopRequested = true := by rw [h.stop, hc]; decide
    have hnx : ¬ s.worker.place = .exited := by rw [← h.terminal, hc]; decide
    exact {
      stop := by simp [hl, hstop, hns, SessionLifecycle.rank]
      terminal := by simp [hl, hw, hnx, SessionLifecycle.terminal]
      running := by simp [hl]
      awake := by simp [hl, SessionLifecycle.rank]
      requested := by simp [hl, SessionLifecycle.rank]
      leaving := by rw [hw, hstop]; exact h.leaving
      returned := hreturned }
  · have hnx : ¬ s.worker.place = .exited := by rw [← h.terminal, hterm]; decide
    exact {
      stop := by simp [hl, hstop, SessionLifecycle.rank]
      terminal := by simp [hl, hw, hnx, SessionLifecycle.terminal]
      running := by simp [hl]
      awake := by simp [hl, SessionLifecycle.rank]
      requested := by simp [hl, SessionLifecycle.rank]
      leaving := fun _ => hstop
      returned := hreturned }

/-- A session runs only while its worker serves it. -/
theorem Phases.not_running (h : Phases s) (hp : s.worker.place ≠ .serving) :
    s.lifecycle ≠ .running := fun hl => hp (h.running hl).1

/-- A session that is to stop does not run. -/
theorem Phases.not_running_of_stop (h : Phases s) (hstop : s.stopRequested = true) :
    s.lifecycle ≠ .running := by
  intro hl
  have hrank := h.stop.mp hstop
  rw [hl] at hrank
  exact absurd hrank (by decide)

/-- The parts of a session that a worker step between two inner places keeps. -/
structure SameControl (s t : SessionState) : Prop where
  lifecycle : t.lifecycle = s.lifecycle
  stop : t.stopRequested = s.stopRequested
  start : t.startRequested = s.startRequested
  reached : t.reachedRunning = s.reachedRunning
  returned : t.startsReturned = s.startsReturned

/-- A worker step that publishes no phase. -/
theorem Phases.move (h : Phases s) (hc : SameControl s t) (hns : s.lifecycle ≠ .running)
    (hx : s.worker.place ≠ .exited) (hx' : t.worker.place ≠ .exited) (hawake : 1 ≤ s.lifecycle.rank)
    (hleave : t.worker.place.afterServing = true → s.stopRequested = true) : Phases t where
  stop := by rw [hc.stop, hc.lifecycle]; exact h.stop
  terminal := by
    have hterm : ¬ s.lifecycle.terminal = true := fun ht => hx (h.terminal.mp ht)
    rw [hc.lifecycle]
    exact ⟨fun ht => absurd ht hterm, fun ht => absurd ht hx'⟩
  running := fun hl => absurd (hc.lifecycle ▸ hl) hns
  awake := fun _ => hc.lifecycle ▸ hawake
  requested := by rw [hc.start, hc.lifecycle]; exact h.requested
  leaving := by rw [hc.stop]; exact hleave
  returned := by rw [hc.returned, hc.reached]; exact h.returned

/-- The worker's own steps keep the phases in order. -/
theorem Phases.loop (h : Phases s) (hs : lifecycleStep config s b = some t) : Phases t := by
  cases b with
  | wake =>
      simp only [lifecycleStep] at hs
      split at hs <;> try contradiction
      next hw =>
      have hns := h.not_running (by rw [hw]; decide)
      split at hs
      · next hreq =>
        obtain rfl := Option.some.inj hs
        exact h.move ⟨rfl, rfl, rfl, rfl, rfl⟩ hns (by rw [hw]; decide) nofun (h.requested hreq.1) nofun
      · split at hs <;> try contradiction
        next hstop =>
        obtain rfl := Option.some.inj hs
        exact h.move ⟨rfl, rfl, rfl, rfl, rfl⟩ hns (by rw [hw]; decide) nofun
          (Nat.le_trans (by decide) (h.stop.mp hstop)) nofun
  | threw error =>
      simp only [lifecycleStep] at hs
      split at hs <;> try contradiction
      · next hw =>
        obtain rfl := Option.some.inj hs
        exact h.move ⟨rfl, rfl, rfl, rfl, rfl⟩ (h.not_running (by rw [hw]; decide))
          (by rw [hw]; decide) nofun (h.awake (by rw [hw]; decide)) nofun
      · next hw =>
        obtain rfl := Option.some.inj hs
        exact h.move ⟨rfl, rfl, rfl, rfl, rfl⟩ (h.not_running (by rw [hw]; decide))
          (by rw [hw]; decide) nofun (h.awake (by rw [hw]; decide)) nofun
      · next hw =>
        obtain rfl := Option.some.inj hs
        exact h.move ⟨rfl, rfl, rfl, rfl, rfl⟩ (h.not_running (by rw [hw]; decide))
          (by rw [hw]; decide) nofun (h.awake (by rw [hw]; decide))
          (fun _ => h.leaving (by rw [hw]; rfl))
  | probed caps | started | announce now allocationFails =>
      simp only [lifecycleStep] at hs
      split at hs <;> try contradiction
      next hw =>
      obtain rfl := Option.some.inj hs
      exact h.move ⟨rfl, rfl, rfl, rfl, rfl⟩ (h.not_running (by rw [hw]; decide))
        (by rw [hw]; decide) nofun (h.awake (by rw [hw]; decide)) nofun
  | publishRunning =>
      simp only [lifecycleStep] at hs
      split at hs <;> try contradiction
      next hw =>
      have hawake := h.awake (by rw [hw]; decide)
      split at hs <;> obtain rfl := Option.some.inj hs
      · exact h.move ⟨rfl, rfl, rfl, rfl, rfl⟩ (h.not_running (by rw [hw]; decide))
          (by rw [hw]; decide) nofun hawake nofun
      · next hstop =>
        -- nobody asked for a stop, so the phase is still before `Stopping`
        exact ⟨by simpa [SessionLifecycle.rank] using hstop, by simp [SessionLifecycle.terminal],
          fun _ => ⟨rfl, rfl⟩, by simp [SessionLifecycle.rank], by simp [SessionLifecycle.rank], nofun,
          fun _ => rfl⟩
  | handleFailure =>
      simp only [lifecycleStep] at hs
      split at hs <;> try contradiction
      obtain rfl := Option.some.inj hs
      exact ⟨by simp [SessionLifecycle.rank], by simp [SessionLifecycle.terminal], nofun,
        by simp [SessionLifecycle.rank], by simp [SessionLifecycle.rank], nofun, h.returned⟩
  | stopSeen =>
      simp only [lifecycleStep] at hs
      split at hs <;> try contradiction
      next hw =>
      split at hs <;> try contradiction
      next hstop =>
      obtain rfl := Option.some.inj hs
      exact h.move ⟨rfl, rfl, rfl, rfl, rfl⟩ (h.not_running_of_stop hstop) (by rw [hw]; decide) nofun
        (h.awake (by rw [hw]; decide)) (fun _ => hstop)
  | drained =>
      simp only [lifecycleStep] at hs
      split at hs <;> try contradiction
      next hw =>
      have hstop := h.leaving (by rw [hw]; rfl)
      split at hs <;> try contradiction
      split at hs <;> obtain rfl := Option.some.inj hs <;>
        exact h.move ⟨rfl, rfl, rfl, rfl, rfl⟩ (h.not_running_of_stop hstop) (by rw [hw]; decide) nofun
          (h.awake (by rw [hw]; decide)) (fun _ => hstop)
  | stopped | close =>
      simp only [lifecycleStep] at hs
      split at hs <;> try contradiction
      next hw =>
      have hstop := h.leaving (by rw [hw]; rfl)
      obtain rfl := Option.some.inj hs
      exact h.move ⟨rfl, rfl, rfl, rfl, rfl⟩ (h.not_running_of_stop hstop) (by rw [hw]; decide) nofun
        (h.awake (by rw [hw]; decide)) (fun _ => hstop)
  | report now allocationFails =>
      simp only [lifecycleStep] at hs
      split at hs <;> try contradiction
      next hw =>
      have hstop := h.leaving (by rw [hw]; rfl)
      obtain rfl := Option.some.inj hs
      refine h.move ?_ (h.not_running_of_stop hstop) (by rw [hw]; decide) nofun
        (h.awake (by rw [hw]; decide)) (fun _ => hstop)
      split <;> exact ⟨rfl, rfl, rfl, rfl, rfl⟩
  | finish =>
      simp only [lifecycleStep] at hs
      split at hs <;> try contradiction
      next hw =>
      have hstop := h.leaving (by rw [hw]; rfl)
      obtain rfl := Option.some.inj hs
      refine ⟨?_, ?_, ?_, ?_, ?_, fun _ => hstop, h.returned⟩ <;> cases s.worker.failure <;>
        simp [SessionLifecycle.rank, SessionLifecycle.terminal, hstop]

/-- So does every step. -/
theorem Phases.step (h : Phases s) (hs : sessionStep config s a = some t) : Phases t := by
  by_cases ha : ∃ b, a = .worker b
  · obtain ⟨b, rfl⟩ := ha
    exact h.loop hs
  · exact h.caller (caller_step hs fun b hb => ha ⟨b, hb⟩)

/-- The phases fit in every reachable state. -/
theorem phases_of_reachable (h : (conversationSession config).Reachable s) : Phases s :=
  Machine.Reachable.rec_inv Phases.init (fun _ _ _ _ hp hs => hp.step hs) h

/-! ## the order of the phases -/

/-- The phase does not move back, and a terminal one does not move at all. -/
def Forward (s t : SessionState) : Prop :=
  s.lifecycle.rank ≤ t.lifecycle.rank ∧ (s.lifecycle.terminal = true → t.lifecycle = s.lifecycle)

/-- A lifecycle that stays has not gone back. -/
theorem Forward.of_eq (h : t.lifecycle = s.lifecycle) : Forward s t :=
  ⟨Nat.le_of_eq (congrArg _ h.symm), fun _ => h⟩

/-- The terminal states come last. -/
theorem SessionLifecycle.rank_le_three (l : SessionLifecycle) (h : l.terminal = false) :
    l.rank ≤ 3 := by
  cases l <;> simp_all [SessionLifecycle.rank, SessionLifecycle.terminal]

/-- A step never goes back. -/
theorem Phases.forward (h : Phases s) (hs : sessionStep config s a = some t) : Forward s t := by
  by_cases ha : ∃ b, a = .worker b
  · obtain ⟨b, rfl⟩ := ha
    replace hs : lifecycleStep config s b = some t := hs
    have hterm : s.worker.place ≠ .exited → s.lifecycle.terminal = false := fun hx =>
      Bool.eq_false_iff.mpr fun ht => hx (h.terminal.mp ht)
    cases b with
    | publishRunning =>
        simp only [lifecycleStep] at hs
        split at hs <;> try contradiction
        next hw =>
        split at hs <;> obtain rfl := Option.some.inj hs
        · exact .of_eq rfl
        · next hstop =>
          have hrank : ¬ 3 ≤ s.lifecycle.rank := fun hr => hstop (h.stop.mpr hr)
          refine ⟨?_, fun ht => ?_⟩
          · show s.lifecycle.rank ≤ 2
            omega
          · rw [hterm (by rw [hw]; decide)] at ht
            contradiction
    | handleFailure =>
        simp only [lifecycleStep] at hs
        split at hs <;> try contradiction
        next hw =>
        have ht := hterm (by rw [hw]; decide)
        obtain rfl := Option.some.inj hs
        exact ⟨s.lifecycle.rank_le_three ht, fun ht' => by rw [ht] at ht'; contradiction⟩
    | finish =>
        simp only [lifecycleStep] at hs
        split at hs <;> try contradiction
        next hw =>
        have ht := hterm (by rw [hw]; decide)
        have hrank := s.lifecycle.rank_le_three ht
        obtain rfl := Option.some.inj hs
        refine ⟨?_, fun ht' => by rw [ht] at ht'; contradiction⟩
        cases s.worker.failure <;> exact Nat.le_trans hrank (Nat.le_succ 3)
    | report now allocationFails =>
        simp only [lifecycleStep] at hs
        split at hs <;> try contradiction
        obtain rfl := Option.some.inj hs
        refine .of_eq ?_
        split <;> rfl
    | wake | threw error | probed caps | started | announce now allocationFails | stopSeen | drained
        | stopped | close =>
        simp only [lifecycleStep] at hs
        repeat' split at hs
        all_goals first
          | contradiction
          | (obtain rfl := Option.some.inj hs; exact .of_eq rfl)
  · have hc := caller_step hs fun b hb => ha ⟨b, hb⟩
    rcases hc.phase with ⟨hl, -, -⟩ | ⟨hcreated, hl, -⟩ | ⟨hterm, hl, -, -⟩
    · exact .of_eq hl
    · rw [Forward, hcreated, hl]
      exact ⟨by decide, nofun⟩
    · rw [Forward, hl, hterm]
      exact ⟨s.lifecycle.rank_le_three hterm, nofun⟩

/-- Nor does a run. -/
theorem forward_leads (hr : (conversationSession config).Reachable s)
    (h : (conversationSession config).Leads s t) : Forward s t := by
  refine Machine.Leads.rec_rel (R := Forward) (fun s => .of_eq rfl) ?_ ?_ hr h
  · intro s t r hst htr
    refine ⟨Nat.le_trans hst.1 htr.1, fun hterm => ?_⟩
    have heq := hst.2 hterm
    exact (htr.2 (heq ▸ hterm)).trans heq
  · intro s a t hr hs
    exact (phases_of_reachable hr).forward hs

/-! ## engine calls -/

/-- What the engine has been asked so far, for each place of the worker. -/
def engineHistory (w : LifecycleLoop) : Prop :=
  match w.place with
  | .waiting =>
      w.attemptedStart = false ∧ w.capabilitiesCalls = 0 ∧ w.startCalls = 0 ∧ w.stopCalls = 0 ∧
        w.thrown = []
  | .probing =>
      w.attemptedStart = true ∧ w.capabilitiesCalls = 1 ∧ w.startCalls = 0 ∧ w.stopCalls = 0 ∧
        w.thrown = []
  | .starting =>
      w.attemptedStart = true ∧ w.capabilitiesCalls = 1 ∧ w.startCalls = 1 ∧ w.stopCalls = 0 ∧
        w.thrown = []
  | .announcing | .opening =>
      w.attemptedStart = true ∧ w.capabilitiesCalls = 1 ∧ w.startCalls = 1 ∧ w.stopCalls = 0 ∧
        w.startReturned = true
  | .caught =>
      w.attemptedStart = true ∧ w.capabilitiesCalls = 1 ∧ w.startCalls ≤ 1 ∧ w.stopCalls = 0
  | .serving | .draining =>
      w.capabilitiesCalls = w.attemptedStart.toNat ∧ w.startCalls ≤ w.capabilitiesCalls ∧
        w.stopCalls = 0
  | .stopping =>
      w.attemptedStart = true ∧ w.capabilitiesCalls = 1 ∧ w.startCalls ≤ 1 ∧ w.stopCalls = 1
  | .reporting | .closing | .finishing | .exited =>
      w.capabilitiesCalls = w.attemptedStart.toNat ∧ w.startCalls ≤ w.capabilitiesCalls ∧
        w.stopCalls = w.capabilitiesCalls

/-- The calls made so far, and the first exception as the worker remembers it. -/
structure EngineCalls (s : SessionState) : Prop where
  history : engineHistory s.worker
  first : s.worker.failure = s.worker.thrown.head?
  published : s.worker.place = .exited → s.failure = s.worker.failure ∧
    s.lifecycle = if s.worker.failure.isSome then .failed else .stopped

/-- The engine of a new session has not been called. -/
theorem EngineCalls.init : EngineCalls (conversationSession config).init := by
  constructor <;> simp [conversationSession, engineHistory]

/-- Callers do not call the engine's lifecycle. -/
theorem EngineCalls.caller (hp : Phases s) (h : EngineCalls s) (hs : CallerStep s t) :
    EngineCalls t := by
  refine ⟨by rw [hs.worker]; exact h.history, by rw [hs.worker]; exact h.first, fun hx => ?_⟩
  rw [hs.worker] at hx ⊢
  rw [hs.failure]
  have hterm := hp.terminal.mpr hx
  -- a finished session has a phase no caller moves
  rcases hs.phase with ⟨hl, -, -⟩ | ⟨hcreated, -, -⟩ | ⟨hnot, -, -, -⟩
  · rw [hl]; exact h.published hx
  · rw [hcreated] at hterm; contradiction
  · rw [hnot] at hterm; contradiction

/-- The worker calls the engine in order. -/
theorem EngineCalls.loop (h : EngineCalls s) (hs : lifecycleStep config s b = some t) :
    EngineCalls t := by
  obtain ⟨hhistory, hfirst, hpublished⟩ := h
  cases b with
  | wake =>
      simp only [lifecycleStep] at hs
      split at hs <;> try contradiction
      next hw =>
      simp only [engineHistory, hw] at hhistory
      split at hs
      · obtain rfl := Option.some.inj hs
        exact ⟨by simp [engineHistory, hhistory], hfirst, nofun⟩
      · split at hs <;> try contradiction
        obtain rfl := Option.some.inj hs
        exact ⟨by simp [engineHistory, hhistory], hfirst, nofun⟩
  | probed caps | started =>
      simp only [lifecycleStep] at hs
      split at hs <;> try contradiction
      next hw =>
      simp only [engineHistory, hw] at hhistory
      obtain rfl := Option.some.inj hs
      exact ⟨by simp [engineHistory, hhistory], hfirst, nofun⟩
  | threw error =>
      simp only [lifecycleStep] at hs
      split at hs <;> try contradiction
      all_goals
        rename_i hw
        obtain rfl := Option.some.inj hs
        simp only [engineHistory, hw] at hhistory
        refine ⟨by simp [engineHistory, hhistory], ?_, nofun⟩
      · simp [hhistory]
      · simp [hhistory]
      · -- a failure of `stop` counts only when nothing was thrown before
        cases hthrown : s.worker.thrown <;> simp_all
  | announce now allocationFails =>
      simp only [lifecycleStep] at hs
      split at hs <;> try contradiction
      next hw =>
      simp only [engineHistory, hw] at hhistory
      obtain rfl := Option.some.inj hs
      exact ⟨hhistory, hfirst, nofun⟩
  | publishRunning =>
      simp only [lifecycleStep] at hs
      split at hs <;> try contradiction
      next hw =>
      simp only [engineHistory, hw] at hhistory
      split at hs <;> obtain rfl := Option.some.inj hs <;>
        exact ⟨by simp [engineHistory, hhistory], hfirst, nofun⟩
  | handleFailure =>
      simp only [lifecycleStep] at hs
      split at hs <;> try contradiction
      next hw =>
      simp only [engineHistory, hw] at hhistory
      obtain rfl := Option.some.inj hs
      exact ⟨by simp [engineHistory, hhistory], hfirst, nofun⟩
  | stopSeen =>
      simp only [lifecycleStep] at hs
      split at hs <;> try contradiction
      next hw =>
      simp only [engineHistory, hw] at hhistory
      split at hs <;> try contradiction
      obtain rfl := Option.some.inj hs
      exact ⟨hhistory, hfirst, nofun⟩
  | drained =>
      simp only [lifecycleStep] at hs
      split at hs <;> try contradiction
      next hw =>
      simp only [engineHistory, hw] at hhistory
      split at hs <;> try contradiction
      split at hs
      · next hattempted =>
        obtain rfl := Option.some.inj hs
        rw [hattempted, Bool.toNat_true] at hhistory
        refine ⟨⟨hattempted, hhistory.1, ?_, ?_⟩, hfirst, nofun⟩
        · exact hhistory.1 ▸ hhistory.2.1
        · exact congrArg (· + 1) hhistory.2.2
      · next hattempted =>
        obtain rfl := Option.some.inj hs
        rw [Bool.eq_false_iff.mpr hattempted, Bool.toNat_false] at hhistory
        refine ⟨⟨?_, hhistory.2.1, ?_⟩, hfirst, nofun⟩
        · rw [Bool.eq_false_iff.mpr hattempted]
          exact hhistory.1
        · exact hhistory.2.2.trans hhistory.1.symm
  | stopped =>
      simp only [lifecycleStep] at hs
      split at hs <;> try contradiction
      next hw =>
      simp only [engineHistory, hw] at hhistory
      obtain rfl := Option.some.inj hs
      exact ⟨by simp [engineHistory, hhistory], hfirst, nofun⟩
  | report now allocationFails =>
      simp only [lifecycleStep] at hs
      split at hs <;> try contradiction
      next hw =>
      simp only [engineHistory, hw] at hhistory
      obtain rfl := Option.some.inj hs
      refine ⟨?_, ?_, nofun⟩ <;> split <;> first | exact hhistory | exact hfirst
  | close =>
      simp only [lifecycleStep] at hs
      split at hs <;> try contradiction
      next hw =>
      simp only [engineHistory, hw] at hhistory
      obtain rfl := Option.some.inj hs
      exact ⟨hhistory, hfirst, nofun⟩
  | finish =>
      simp only [lifecycleStep] at hs
      split at hs <;> try contradiction
      next hw =>
      simp only [engineHistory, hw] at hhistory
      obtain rfl := Option.some.inj hs
      exact ⟨hhistory, hfirst, fun _ => ⟨rfl, rfl⟩⟩

/-- Every step keeps the order of the engine's calls. -/
theorem EngineCalls.step (hp : Phases s) (h : EngineCalls s)
    (hs : sessionStep config s a = some t) : EngineCalls t := by
  by_cases ha : ∃ b, a = .worker b
  · obtain ⟨b, rfl⟩ := ha
    exact h.loop hs
  · exact h.caller hp (caller_step hs fun b hb => ha ⟨b, hb⟩)

/-- The order holds in every reachable state. -/
theorem engineCalls_of_reachable (h : (conversationSession config).Reachable s) : EngineCalls s :=
  Machine.Reachable.rec_inv EngineCalls.init
    (fun _ _ _ hr hc hs => hc.step (phases_of_reachable hr) hs) h

/-! ## leases -/

/-- The operation count is the number of admitted calls, and these exist only
while a started engine has not been asked to stop. -/
structure Leases (s : SessionState) : Prop where
  count : s.activeOperations = s.calls.length
  opened : s.lifecycle = .running → s.worker.startReturned = true
  held : s.calls ≠ [] → s.worker.startReturned = true ∧
    (s.worker.place = .serving ∨ s.worker.place = .draining)

/-- A new session has no call under way. -/
theorem Leases.init : Leases (conversationSession config).init := by
  constructor <;> simp [conversationSession]

/-- No caller makes a session run. -/
theorem CallerStep.running (hs : CallerStep s t) (hl : t.lifecycle = .running) :
    s.lifecycle = .running := by
  rcases hs.phase with ⟨heq, -, -⟩ | ⟨-, heq, -⟩ | ⟨-, heq, -, -⟩ <;> rw [heq] at hl
  · exact hl
  · contradiction
  · contradiction

/-- A caller's step that admits no call. -/
theorem Leases.caller (h : Leases s) (hs : CallerStep s t)
    (hcount : t.activeOperations = t.calls.length) (hcalls : t.calls ≠ [] → s.calls ≠ []) :
    Leases t where
  count := hcount
  opened := fun hl => by rw [hs.worker]; exact h.opened (hs.running hl)
  held := fun hne => by rw [hs.worker]; exact h.held (hcalls hne)

/-- A call takes its lease while the session runs. -/
theorem Leases.acquire (hp : Phases s) (h : Leases s) (call : SessionCall)
    (hl : s.lifecycle = .running) :
    Leases { s with
      activeOperations := s.activeOperations + 1
      calls := s.calls ++ [⟨call, .admitted⟩] } where
  count := by simp [h.count]
  opened := h.opened
  held := fun _ => ⟨h.opened hl, .inl (hp.running hl).1⟩

/-- What a call does at the engine changes its own place only. -/
theorem enterCall_calls (config : SessionConfig) (s : SessionState) (i : Nat) (call : SessionCall)
    (now : Int) (allocationFails : Bool) :
    (s.enterCall config i call now allocationFails).activeOperations = s.activeOperations ∧
      ∃ c, (s.enterCall config i call now allocationFails).calls = s.calls.set i c := by
  cases call <;> exact ⟨rfl, _, rfl⟩

/-- There was a call to change. -/
theorem set_ne_nil {c : ActiveCall} {i : Nat} (h : s.calls.set i c ≠ []) : s.calls ≠ [] := by
  intro hnil
  rw [hnil] at h
  exact h rfl

/-- The worker admits and releases no call. -/
theorem loop_calls (hs : lifecycleStep config s b = some t) :
    t.calls = s.calls ∧ t.activeOperations = s.activeOperations ∧
      (s.worker.startReturned = true → t.worker.startReturned = true) := by
  cases b with
  | report now allocationFails =>
      simp only [lifecycleStep] at hs
      split at hs <;> try contradiction
      obtain rfl := Option.some.inj hs
      split <;> exact ⟨rfl, rfl, id⟩
  | started =>
      simp only [lifecycleStep] at hs
      split at hs <;> try contradiction
      obtain rfl := Option.some.inj hs
      exact ⟨rfl, rfl, fun _ => rfl⟩
  | wake | probed caps | threw error | announce now allocationFails | publishRunning | handleFailure
      | stopSeen | drained | stopped | close | finish =>
      simp only [lifecycleStep] at hs
      repeat' split at hs
      all_goals first
        | contradiction
        | (obtain rfl := Option.some.inj hs; exact ⟨rfl, rfl, id⟩)

/-- The worker publishes `Running` at one place only. -/
theorem loop_running (hs : lifecycleStep config s b = some t) (hl : t.lifecycle = .running) :
    s.lifecycle = .running ∨ s.worker.place = .opening := by
  cases b with
  | publishRunning =>
      simp only [lifecycleStep] at hs
      split at hs <;> try contradiction
      next hw => exact .inr hw
  | handleFailure =>
      simp only [lifecycleStep] at hs
      split at hs <;> try contradiction
      obtain rfl := Option.some.inj hs
      contradiction
  | finish =>
      simp only [lifecycleStep] at hs
      split at hs <;> try contradiction
      obtain rfl := Option.some.inj hs
      revert hl
      cases s.worker.failure <;> nofun
  | report now allocationFails =>
      simp only [lifecycleStep] at hs
      split at hs <;> try contradiction
      obtain rfl := Option.some.inj hs
      revert hl
      split <;> exact .inl
  | wake | probed caps | started | threw error | announce now allocationFails | stopSeen | drained
      | stopped | close =>
      simp only [lifecycleStep] at hs
      repeat' split at hs
      all_goals first
        | contradiction
        | (obtain rfl := Option.some.inj hs; exact .inl hl)

/-- A worker that serves or drains moves past the drain only without leases. -/
theorem loop_held (hs : lifecycleStep config s b = some t)
    (hw : s.worker.place = .serving ∨ s.worker.place = .draining) (hops : s.activeOperations ≠ 0) :
    t.worker.place = .draining := by
  cases b with
  | stopSeen =>
      simp only [lifecycleStep] at hs
      repeat' split at hs
      all_goals first
        | contradiction
        | (obtain rfl := Option.some.inj hs; rfl)
  | drained =>
      simp only [lifecycleStep, if_pos hops] at hs
      split at hs <;> contradiction
  | wake | probed caps | started | threw error | announce now allocationFails | publishRunning
      | handleFailure | stopped | report now allocationFails | close | finish =>
      simp only [lifecycleStep] at hs
      rcases hw with hw | hw <;> rw [hw] at hs <;> contradiction

/-- The worker waits for the leases. -/
theorem Leases.loop (hc : EngineCalls s) (h : Leases s) (hs : lifecycleStep config s b = some t) :
    Leases t := by
  obtain ⟨hcalls, hops, hstarted⟩ := loop_calls hs
  refine ⟨by rw [hcalls, hops]; exact h.count, fun hl => ?_, fun hne => ?_⟩
  · refine hstarted ?_
    rcases loop_running hs hl with hl | hw
    · exact h.opened hl
    · have hhistory := hc.history
      simp only [engineHistory, hw] at hhistory
      exact hhistory.2.2.2.2
  · rw [hcalls] at hne
    obtain ⟨hreturned, hw⟩ := h.held hne
    have hpos : s.activeOperations ≠ 0 := by
      rw [h.count]
      exact fun hzero => hne (List.eq_nil_of_length_eq_zero hzero)
    exact ⟨hstarted hreturned, .inr (loop_held hs hw hpos)⟩

/-- Every step keeps count of the leases. -/
theorem Leases.step (hp : Phases s) (hc : EngineCalls s) (h : Leases s)
    (hs : sessionStep config s a = some t) : Leases t := by
  cases a with
  | start callback =>
      have hcaller := caller_step hs nofun
      obtain rfl := Option.some.inj hs
      have hkeep : (s.start callback).1.activeOperations = s.activeOperations ∧
          (s.start callback).1.calls = s.calls := by
        unfold SessionState.start
        repeat' split
        all_goals exact ⟨rfl, rfl⟩
      refine h.caller hcaller ?_ fun hne => ?_
      · exact (hkeep.1.trans h.count).trans (congrArg _ hkeep.2.symm)
      · exact hkeep.2 ▸ hne
  | startWake =>
      have hcaller := caller_step hs nofun
      simp only [sessionStep] at hs
      split at hs <;> try contradiction
      split at hs <;> try contradiction
      obtain rfl := Option.some.inj hs
      exact h.caller hcaller h.count id
  | requestStop =>
      have hcaller := caller_step hs nofun
      obtain rfl := Option.some.inj hs
      unfold SessionState.requestStop at hcaller ⊢
      split at hcaller
      · next hterm => rw [if_pos hterm]; exact h
      · next hterm => rw [if_neg hterm]; exact h.caller hcaller h.count id
  | acquire call =>
      simp only [sessionStep, SessionState.acquireOperation] at hs
      by_cases hl : s.lifecycle = .running
      · rw [if_pos hl] at hs
        obtain rfl := Option.some.inj hs
        exact h.acquire hp call hl
      · rw [if_neg hl] at hs
        obtain rfl := Option.some.inj hs
        exact h
  | enter i now allocationFails =>
      have hcaller := caller_step hs nofun
      simp only [sessionStep] at hs
      split at hs <;> try contradiction
      next call _ =>
      obtain rfl := Option.some.inj hs
      obtain ⟨hops, c, hcalls⟩ := enterCall_calls config s i call now allocationFails
      refine h.caller hcaller ?_ fun hne => ?_
      · rw [hops, hcalls, List.length_set]
        exact h.count
      · rw [hcalls] at hne
        exact set_ne_nil hne
  | leave i =>
      have hcaller := caller_step hs nofun
      simp only [sessionStep] at hs
      split at hs <;> try contradiction
      obtain rfl := Option.some.inj hs
      refine h.caller hcaller ?_ set_ne_nil
      rw [List.length_set]
      exact h.count
  | release i =>
      have hcaller := caller_step hs nofun
      simp only [sessionStep] at hs
      split at hs <;> try contradiction
      next hcall =>
      obtain rfl := Option.some.inj hs
      have hi : i < s.calls.length := (List.getElem?_eq_some_iff.mp hcall).1
      refine h.caller hcaller ?_ fun hne hnil => ?_
      · show s.activeOperations - 1 = (s.calls.eraseIdx i).length
        rw [List.length_eraseIdx_of_lt hi, h.count]
      · rw [hnil] at hi
        contradiction
  | timeline action =>
      have hcaller := caller_step hs nofun
      obtain ⟨timeline, -, rfl⟩ := Option.map_eq_some_iff.mp hs
      exact h.caller hcaller h.count id
  | worker b => exact h.loop hc hs

/-- The leases are counted in every reachable state. -/
theorem leases_of_reachable (h : (conversationSession config).Reachable s) : Leases s :=
  Machine.Reachable.rec_inv Leases.init (fun _ _ _ hr hl hs =>
    hl.step (phases_of_reachable hr) (engineCalls_of_reachable hr) hs) h

/-! ## the protocol -/

/-- What a session keeps to at every moment of every run. -/
structure SessionProtocol (s : SessionState) : Prop where
  /-- `engine_->start` is called at most once, after its `capabilities`. -/
  startOnce : s.worker.startCalls ≤ s.worker.capabilitiesCalls ∧ s.worker.capabilitiesCalls ≤ 1
  /-- `engine_->stop` is called at most once, and only after an attempted startup. -/
  stopOnce : s.worker.stopCalls ≤ s.worker.capabilitiesCalls
  /-- By the terminal state an attempted startup has been followed by one stop. -/
  stopped : s.lifecycle.terminal = true → s.worker.stopCalls = s.worker.capabilitiesCalls
  /-- A call runs on the engine only between the return of its start and its stop. -/
  leased : ∀ c ∈ s.calls, c.stage = .inEngine →
    s.worker.startReturned = true ∧ s.worker.stopCalls = 0
  returned : 0 < s.startsReturned → s.reachedRunning = true
  /-- The session failed exactly when the engine threw, with the first exception. -/
  failed : s.lifecycle.terminal = true →
    (s.lifecycle = .failed ↔ s.worker.thrown ≠ []) ∧ s.failure = s.worker.thrown.head?

/-- Nothing is called more than once, and nothing before `capabilities`. -/
theorem EngineCalls.bounds (h : EngineCalls s) :
    s.worker.startCalls ≤ s.worker.capabilitiesCalls ∧ s.worker.capabilitiesCalls ≤ 1 ∧
      s.worker.stopCalls ≤ s.worker.capabilitiesCalls := by
  have hh := h.history
  have hbool : s.worker.attemptedStart.toNat ≤ 1 := Bool.toNat_le _
  unfold engineHistory at hh
  split at hh <;> omega

/-- `stop` is not called before the last lease is back. -/
theorem EngineCalls.stopCalls_zero (h : EngineCalls s)
    (hw : s.worker.place = .serving ∨ s.worker.place = .draining) : s.worker.stopCalls = 0 := by
  have hh := h.history
  rcases hw with hw | hw <;> simp only [engineHistory, hw] at hh <;> exact hh.2.2

/-- The invariants make the protocol. -/
theorem sessionProtocol (hp : Phases s) (hc : EngineCalls s) (hl : Leases s) :
    SessionProtocol s := by
  obtain ⟨hstart, hcaps, hstop⟩ := hc.bounds
  refine ⟨⟨hstart, hcaps⟩, hstop, fun hterm => ?_, fun c hmem _ => ?_, hp.returned, fun hterm => ?_⟩
  · have hh := hc.history
    simp only [engineHistory, hp.terminal.mp hterm] at hh
    exact hh.2.2
  · obtain ⟨hreturned, hw⟩ := hl.held (List.ne_nil_of_mem hmem)
    exact ⟨hreturned, hc.stopCalls_zero hw⟩
  · obtain ⟨hfailure, hphase⟩ := hc.published (hp.terminal.mp hterm)
    have hfirst := hc.first
    refine ⟨?_, hfailure.trans hfirst⟩
    rw [hphase, hfirst]
    cases s.worker.thrown <;> simp

/-- **Lifecycle and leases**: in every interleaving of callers, admitted calls
and the lifecycle worker, with an engine whose every call may throw, the
session keeps to its protocol and its phase never moves back. -/
theorem session_lifecycle_protocol (config : SessionConfig) (s : SessionState)
    (h : (conversationSession config).Reachable s) :
    SessionProtocol s ∧ ∀ t, (conversationSession config).Leads s t → Forward s t :=
  ⟨sessionProtocol (phases_of_reachable h) (engineCalls_of_reachable h) (leases_of_reachable h),
    fun _ hl => forward_leads h hl⟩

theorem tightSession_id_ne : lit "s" ≠ [] := by decide

/-- A session over a timeline of one event. -/
def tightSession : SessionConfig where
  timeline := {
    sessionId := lit "s"
    maxEvents := 1
    maxPendingNotifications := 1
    maxEvents_pos := Nat.one_pos
    maxPendingNotifications_pos := Nat.one_pos
    maxEventBytes_pos := maxEventBytes_default_pos
    generation_pos := Nat.one_pos }
  sessionId_ne := tightSession_id_ne

/-- A stop that arrives while `start` runs, and an engine that throws when it
is stopped. -/
def stopDuringStart : List SessionAction :=
  [.start false, .worker .wake, .worker (.probed {}), .requestStop, .worker .started,
   .worker (.announce 1 false), .worker .publishRunning, .worker .stopSeen, .worker .drained,
   .worker (.threw (lit "stop failed")), .worker (.report 2 false), .worker .close,
   .worker .finish, .startWake]

theorem stopDuringStart_protocol :
    ∃ s, (conversationSession tightSession).run (conversationSession tightSession).init
        stopDuringStart = some s ∧
      s.lifecycle = .failed ∧ s.reachedRunning = false ∧ SessionProtocol s :=
  ⟨_, rfl, by decide, by decide, (session_lifecycle_protocol tightSession _ ⟨stopDuringStart, rfl⟩).1⟩

end ByteTurn

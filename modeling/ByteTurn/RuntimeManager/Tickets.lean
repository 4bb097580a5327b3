import ByteTurn.RuntimeManager.Admission

/-!
# ByteTurn.RuntimeManager.Tickets

The two completion tickets of an admission.

Two threads may owe the started promise: the startup worker that took the entry,
or the supervisor when the reservation was cancelled.  `Incarnation.Sound` keeps
the two cases apart; here it is read as a contract about the promises.
-/

namespace ByteTurn

namespace Incarnation

variable {e e' : Entry} {a : Label}

/-! ## the phase Running -/

/-- The flag is raised by the section that enters `Running`, and by no other. -/
theorem step_reachedRunning (hrunning : e.phase = .running → e.reachedRunning = true)
    (hs : step e a = some e') :
    e'.reachedRunning = true ↔ e.reachedRunning = true ∨ e'.phase = .running := by
  cases a <;> simp only [step] at hs
  case session action =>
    obtain ⟨next, -, rfl⟩ := Option.map_eq_some_iff.mp hs
    grind
  all_goals split at hs <;> try contradiction
  case stop reason _ =>
    obtain rfl := Option.some.inj hs
    unfold Entry.stop
    split
    · simp
    · grind
  case take hphase =>
    obtain rfl := Option.some.inj hs
    unfold Entry.take
    grind
  case conclude _ =>
    obtain rfl := Option.some.inj hs
    unfold Entry.conclude
    split
    · grind
    · simp
  all_goals
    obtain rfl := Option.some.inj hs
    grind [Entry.store, Entry.release, Entry.finish]

theorem reachedRunning_of_running {handle : SessionHandle} {factory : Option Nat}
    (h : (machine handle factory).Reachable e) (hp : e.phase = .running) :
    e.reachedRunning = true := by
  refine Machine.Reachable.rec_inv (P := fun e => e.phase = .running → e.reachedRunning = true)
    (by simp [machine]) (fun d a d' _ hd hs hd' => ?_) h hp
  exact (step_reachedRunning hd hs).mpr (.inr hd')

/-- The flag says what its name says: up to now some moment of the entry's life
had phase `Running`. -/
theorem reachedRunning_iff {handle : SessionHandle} {factory : Option Nat}
    (h : (machine handle factory).Reachable e) : e.reachedRunning = true ↔
      ∃ d, (machine handle factory).Reachable d ∧ d.phase = .running ∧
        (machine handle factory).Leads d e := by
  constructor
  · refine Machine.Reachable.rec_inv (P := fun e => e.reachedRunning = true →
      ∃ d, (machine handle factory).Reachable d ∧ d.phase = .running ∧
        (machine handle factory).Leads d e) (by simp [machine]) ?_ h
    intro d a d' hd ih hs hreached
    cases (step_reachedRunning (reachedRunning_of_running hd) hs).mp hreached with
    | inl hbefore =>
        obtain ⟨c, hc, hp, hleads⟩ := ih hbefore
        exact ⟨c, hc, hp, hleads.trans (.single hs)⟩
    | inr hnow => exact ⟨d', hd.step hs, hnow, .refl _ d'⟩
  · rintro ⟨d, hd, hp, hleads⟩
    refine Machine.Leads.rec_stable (P := fun e => e.reachedRunning = true)
      (fun c a c' hc hreached hs => ?_) hd (reachedRunning_of_running hd hp) hleads
    exact (step_reachedRunning (reachedRunning_of_running hc) hs).mpr (.inl hreached)

/-! ## the two promises -/

theorem Sound.started_cases (h : Sound e) :
    e.started = [] ∧ e.reachedRunning = false ∧ e.retired = [] ∨
    ∃ outcome, e.started = [outcome] ∧ outcome ≠ .none ∧
      (outcome = .started ↔ e.reachedRunning = true) := by
  cases hdone : e.startupDone with
  | false =>
      obtain ⟨hstarted, -, -, hreached, -, hphase⟩ := h.starting hdone
      exact .inl ⟨hstarted, hreached, h.not_retired hphase⟩
  | true =>
      cases hcancelled : e.cancelledBeforeStart with
      | false => exact .inr (h.concluded hdone hcancelled)
      | true =>
          obtain ⟨-, -, -, hreached, hstarted⟩ := h.cancelled hcancelled
          by_cases hretired : e.retired = []
          · exact .inl ⟨hstarted hretired, hreached, hretired⟩
          · have hphase := (h.retired hretired).2.1
            have hstop : e.stopRequested = true := by
              by_contra hstop
              exact (h.unstopped (by simpa using hstop)).2.2.2 hphase
            have hcause := (SessionOutcome.isCause_eq _).mp (h.stopped hstop).1
            exact .inr ⟨e.outcome, (h.retired hretired).2.2 hcancelled, hcause.1, by
              simp [hcause.2, hreached]⟩

theorem Sound.retired_cases (h : Sound e) :
    e.retired = [] ∨ ∃ outcome, e.retired = [outcome] ∧ outcome.isCause = true := by
  by_cases hretired : e.retired = []
  · exact .inl hretired
  · obtain ⟨hvalue, hphase, -⟩ := h.retired hretired
    have hstop : e.stopRequested = true := by
      by_contra hstop
      exact (h.unstopped (by simpa using hstop)).2.2.2 hphase
    exact .inr ⟨e.outcome, hvalue, (h.stopped hstop).1⟩

end Incarnation

open Incarnation

/-- What the tickets of the entry `ref` promise; a promise is the list of the
values it was set to, so a second `set_value` would show as a second value. -/
structure TicketContract (s : RuntimeState) (ref : Nat) (e : Entry) : Prop where
  startedOnce : e.started.length ≤ 1
  retiredOnce : e.retired.length ≤ 1
  /-- Retired is never set before started. -/
  ordered : e.retired ≠ [] → e.started ≠ []
  /-- Started carries `Started` exactly when the entry reached `Running`. -/
  running : .started ∈ e.started ↔ e.reachedRunning = true
  started : ∀ outcome ∈ e.started, outcome ≠ .none
  retired : ∀ outcome ∈ e.retired, outcome ≠ .none ∧ outcome ≠ .started
  /-- Retired is set in the section that erases the entry, and in no other:
  between sections it is unset exactly while the registry holds the entry. -/
  erased : e.retired = [] ↔ s.registry.lookup e.handle.id = some ref
  /-- The flag is a fact about the entry's life. -/
  reached : ∃ factory, (machine e.handle factory).Reachable e ∧ (e.reachedRunning = true ↔
    ∃ d, (machine e.handle factory).Reachable d ∧ d.phase = .running ∧
      (machine e.handle factory).Leads d e)

/-- **Tickets**: in every reachable state the tickets of every admission keep
their contract. -/
theorem runtime_tickets (config : RuntimeConfig) (s : RuntimeState)
    (h : (runtimeManager config).Reachable s) (ref : Nat) (e : Entry)
    (he : s.entries[ref]? = some e) : TicketContract s ref e := by
  have hplaced := entriesPlaced_of_reachable h
  have hsound := (hplaced.live.each ref e he).sound
  have hstarted := hsound.started_cases
  have hretired := hsound.retired_cases
  obtain ⟨factory, hlives⟩ := (hplaced.live.each ref e he).reachable
  exact {
    startedOnce := by rcases hstarted with h | ⟨outcome, h, -⟩ <;> simp [h]
    retiredOnce := by rcases hretired with h | ⟨outcome, h, -⟩ <;> simp [h]
    ordered := fun hne => by rcases hstarted with h | ⟨outcome, h, -⟩ <;> simp_all
    running := by
      rcases hstarted with ⟨h, hreached, -⟩ | ⟨outcome, h, -, hiff⟩
      · simp [h, hreached]
      · rw [h, List.mem_singleton, eq_comm]
        exact hiff
    started := fun value hvalue => by
      rcases hstarted with ⟨h, -⟩ | ⟨outcome, h, hne, -⟩
      · simp [h] at hvalue
      · rw [h, List.mem_singleton] at hvalue
        rwa [hvalue]
    retired := fun value hvalue => by
      rcases hretired with h | ⟨outcome, h, hcause⟩
      · simp [h] at hvalue
      · rw [h, List.mem_singleton] at hvalue
        rw [hvalue]
        exact (SessionOutcome.isCause_eq outcome).mp hcause
    erased := (hplaced.scanned.registered ref e he).symm
    reached := ⟨factory, hlives, reachedRunning_iff hlives⟩ }

/-- A reservation that is removed before any worker takes it: the supervisor
sets both promises. -/
def cancelReservation : List RuntimeAction :=
  [.add (lit "a") (some 0) false, .remove ⟨1, lit "a", 1⟩, .supervisor (.collect [0]),
   .supervisor .visit, .supervisor .check, .supervisor .destroy, .supervisor .releaseDependencies,
   .supervisor .finalize]

theorem cancelReservation_tickets :
    ∃ s e, (runtimeManager tightRuntime).run (runtimeManager tightRuntime).init
        cancelReservation = some s ∧
      s.entries[0]? = some e ∧ e.started = [.removed] ∧ e.retired = [.removed] ∧
      TicketContract s 0 e :=
  ⟨_, _, rfl, rfl, rfl, rfl, runtime_tickets tightRuntime _ ⟨cancelReservation, rfl⟩ 0 _ rfl⟩

end ByteTurn

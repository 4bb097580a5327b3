import ByteTurn.RuntimeManager.Notifications

/-!
# ByteTurn.RuntimeManager.Shutdown

`Stopped` is reported when nothing is left.

The end of a manager is a chain of handshakes: the request stops every entry,
the workers leave an empty queue, the supervisor leaves an empty registry, and
the dispatcher leaves an empty queue of notifications.  Every other section is
`Steady`.
-/

namespace ByteTurn

open Incarnation

variable {config : RuntimeConfig} {s t r : RuntimeState} {ref w j : Nat} {e : Entry}
  {reason : SessionOutcome} {type : RuntimeNotificationType} {past : List Entry}
  {handle : SessionHandle}

/-! ## steady sections -/

def StartupPlace.done : StartupPlace → Bool
  | .exited => true
  | _ => false

def SupervisorPlace.done : SupervisorPlace → Bool
  | .exited => true
  | _ => false

/-- No thread leaves, and nothing is shut down. -/
structure Steady (s t : RuntimeState) : Prop where
  lifecycle : t.counters.lifecycle = s.counters.lifecycle
  workersDone : t.workersDone = s.workersDone
  supervisorDone : t.supervisorDone = s.supervisorDone
  workers : t.workers.map StartupPlace.done = s.workers.map StartupPlace.done
  supervisor : t.supervisor.done = s.supervisor.done
  notifier : t.notifier = s.notifier

theorem Steady.refl (s : RuntimeState) : Steady s s := by
  constructor <;> rfl

theorem Steady.trans (h₁ : Steady s t) (h₂ : Steady t r) : Steady s r where
  lifecycle := h₂.lifecycle.trans h₁.lifecycle
  workersDone := h₂.workersDone.trans h₁.workersDone
  supervisorDone := h₂.supervisorDone.trans h₁.supervisorDone
  workers := h₂.workers.trans h₁.workers
  supervisor := h₂.supervisor.trans h₁.supervisor
  notifier := h₂.notifier.trans h₁.notifier

theorem publish_steady : Steady s (s.publish config e type) := by
  unfold RuntimeState.publish
  split
  · dsimp only
    split
    · constructor <;> rfl
    · split <;> constructor <;> rfl
  · exact .refl s

theorem stopEntry_steady : Steady s (s.stopEntry config ref reason) := by
  have hqueue (e : Entry) : Steady s (RuntimeState.modifyEntry
      (if e.cancelsReservation then { s with pending := s.pending.erase ref } else s) ref
      (·.stop reason)) := by
    split <;> constructor <;> rfl
  unfold RuntimeState.stopEntry
  split
  · exact .refl s
  · next e he =>
    split
    · dsimp only
      split
      · exact hqueue e
      · exact (hqueue e).trans publish_steady
    · exact .refl s

theorem remove_steady : Steady s (s.remove config handle reason).1 := by
  rw [remove_eq]
  split
  · exact stopEntry_steady
  · exact .refl s

theorem stepSession_steady {action : SessionAction} (hs : s.stepSession ref action = some t) :
    Steady s t := by
  obtain ⟨-, -, -, -, rfl⟩ := stepSession_some hs
  constructor <;> rfl

theorem add_steady {id : Bytes} {factory : Option Nat} {allocationFails : Bool} :
    Steady s (s.add config id factory allocationFails).1 := by
  have hrejected (status : AdmissionStatus) : Steady s (s.recordRejection status) := by
    cases status <;> constructor <;> rfl
  unfold RuntimeState.add
  split
  · exact hrejected .invalidRequest
  · split
    · dsimp only
      split
      · constructor <;> rfl
      · refine Steady.trans ?_ publish_steady
        constructor <;> rfl
    · exact hrejected _

theorem admitOperation_steady {call : SessionCall} :
    Steady s (s.admitOperation config handle call).1 := by
  unfold RuntimeState.admitOperation
  split
  · exact .refl s
  · split
    · constructor <;> rfl
    · exact .refl s

theorem setStage_steady (stage : OperationStage) : Steady s (s.setStage j stage) := by
  constructor <;> rfl

theorem operation_steady {action : OperationAction} (hs : operationStep config s j action = some t) :
    Steady s t := by
  cases action with
  | enter =>
      simp only [operationStep] at hs
      split at hs <;> try contradiction
      split at hs <;> try contradiction
      split at hs
      · obtain ⟨session, -, hs⟩ := Option.bind_eq_some_iff.mp hs
        obtain ⟨r, hr, rfl⟩ := Option.map_eq_some_iff.mp hs
        exact (stepSession_steady hr).trans (setStage_steady _)
      · obtain rfl := Option.some.inj hs
        exact setStage_steady _
  | leave i threw =>
      simp only [operationStep] at hs
      split at hs <;> try contradiction
      split at hs <;> try contradiction
      split at hs <;> try contradiction
      obtain ⟨r, hr, rfl⟩ := Option.map_eq_some_iff.mp hs
      exact (stepSession_steady hr).trans (setStage_steady _)
  | report =>
      simp only [operationStep] at hs
      split at hs <;> try contradiction
      split at hs <;> try contradiction
      obtain rfl := Option.some.inj hs
      exact remove_steady.trans (setStage_steady _)
  | finish =>
      simp only [operationStep] at hs
      split at hs <;> try contradiction
      split at hs <;> try contradiction
      obtain rfl := Option.some.inj hs
      constructor <;> rfl

/-- A worker that stays. -/
theorem setWorker_steady {old new : StartupPlace} (hw : s.workers[w]? = some old)
    (hold : old.done = false) (hnew : new.done = false) : Steady s (s.setWorker w new) := by
  have hworkers : (s.workers.set w new).map StartupPlace.done = s.workers.map StartupPlace.done := by
    rw [List.map_set]
    refine List.ext_getElem? fun k => ?_
    rw [List.getElem?_set]
    split
    · next hk =>
      subst hk
      obtain ⟨hlt, hget⟩ := List.getElem?_eq_some_iff.mp hw
      simp [hlt, hget, hold, hnew]
    · rfl
  exact ⟨rfl, rfl, rfl, hworkers, rfl, rfl⟩

/-- A section that writes to an entry before its worker moves on. -/
theorem Steady.setWorker {old new : StartupPlace} (h : Steady s t) (hsame : t.workers = s.workers)
    (hw : s.workers[w]? = some old) (hold : old.done = false) (hnew : new.done = false) :
    Steady s (t.setWorker w new) :=
  h.trans (setWorker_steady (by rw [hsame]; exact hw) hold hnew)

theorem afterStart_done (ref : Nat) (result : Option StartResult) :
    (RuntimeState.afterStart ref result).done = false := by
  cases result with
  | none => rfl
  | some result => cases result <;> rfl

/-- A worker leaves only an empty queue, after the request. -/
theorem startup_steady {action : StartupAction} (hs : startupStep config s w action = some t) :
    Steady s t ∨ (s.workers[w]? = some .waiting ∧ s.pending = [] ∧
      s.counters.lifecycle ≠ .running ∧
      t = { s with workersDone := s.workersDone + 1 }.setWorker w .exited) := by
  cases action with
  | take =>
      simp only [startupStep] at hs
      split at hs <;> try contradiction
      next hw =>
      unfold RuntimeState.takePending at hs
      split at hs
      · next hpending =>
        split at hs <;> try contradiction
        next hrunning =>
        exact .inr ⟨hw, hpending, hrunning, (Option.some.inj hs).symm⟩
      · obtain ⟨e, -, rfl⟩ := Option.map_eq_some_iff.mp hs
        left
        dsimp only
        split
        · refine Steady.setWorker ?_ rfl hw rfl rfl
          constructor <;> rfl
        · refine Steady.setWorker ?_ rfl hw rfl rfl
          constructor <;> rfl
  | made sessionConfig dependencies =>
      simp only [startupStep] at hs
      split at hs <;> try contradiction
      next hw =>
      split at hs <;> try contradiction
      split at hs <;> try contradiction
      obtain rfl := Option.some.inj hs
      exact .inl (setWorker_steady hw rfl rfl)
  | threw =>
      simp only [startupStep] at hs
      split at hs <;> try contradiction
      next hw =>
      obtain rfl := Option.some.inj hs
      exact .inl (setWorker_steady hw rfl rfl)
  | store =>
      simp only [startupStep] at hs
      split at hs <;> try contradiction
      next ref session dependencies hw =>
      obtain ⟨e, -, rfl⟩ := Option.map_eq_some_iff.mp hs
      left
      refine Steady.setWorker ?_ rfl hw rfl (by split <;> rfl)
      constructor <;> rfl
  | callStart =>
      simp only [startupStep] at hs
      split at hs <;> try contradiction
      next hw =>
      obtain ⟨session, -, hs⟩ := Option.bind_eq_some_iff.mp hs
      obtain ⟨r, hr, rfl⟩ := Option.map_eq_some_iff.mp hs
      exact .inl ((stepSession_steady hr).setWorker (stepSession_workers hr) hw rfl
        (afterStart_done _ _))
  | startReturned =>
      simp only [startupStep] at hs
      split at hs <;> try contradiction
      next hw =>
      obtain ⟨session, -, hs⟩ := Option.bind_eq_some_iff.mp hs
      split at hs <;> try contradiction
      obtain ⟨r, hr, rfl⟩ := Option.map_eq_some_iff.mp hs
      exact .inl ((stepSession_steady hr).setWorker (stepSession_workers hr) hw rfl
        (afterStart_done _ _))
  | handle =>
      simp only [startupStep] at hs
      split at hs <;> try contradiction
      next hw =>
      obtain ⟨e, -, rfl⟩ := Option.map_eq_some_iff.mp hs
      exact .inl (setWorker_steady hw rfl rfl)
  | conclude =>
      simp only [startupStep] at hs
      split at hs <;> try contradiction
      next ref failed hw =>
      left
      unfold RuntimeState.concludeStartup at hs
      have hfailed : Steady s (if failed then s.stopEntry config ref .startupFailed else s) ∧
          (if failed then s.stopEntry config ref .startupFailed else s).workers = s.workers := by
        split
        · exact ⟨stopEntry_steady, stopEntry_workers⟩
        · exact ⟨.refl s, rfl⟩
      generalize (if failed then s.stopEntry config ref .startupFailed else s) = r at hs hfailed
      obtain ⟨e, -, rfl⟩ := Option.map_eq_some_iff.mp hs
      have hmodify : Steady s (r.modifyEntry ref Entry.conclude) :=
        hfailed.1.trans (by constructor <;> rfl)
      have hconcluded : Steady s ((r.modifyEntry ref Entry.conclude).setWorker w .waiting) :=
        hmodify.setWorker hfailed.2 hw rfl rfl
      dsimp only
      split
      · exact hconcluded
      · exact hconcluded.trans publish_steady

/-- The supervisor moves on. -/
theorem place_steady {next : SupervisorPlace} (hold : s.supervisor.done = false)
    (hnew : next.done = false) : Steady s { s with supervisor := next } :=
  ⟨rfl, rfl, rfl, rfl, hnew.trans hold.symm, rfl⟩

/-- The supervisor leaves only an empty registry, after the workers. -/
theorem supervisor_steady {action : SupervisorAction} (hs : supervisorStep config s action = some t) :
    s.supervisor.done = false ∧ (Steady s t ∨ (s.registry.size = 0 ∧
      s.counters.lifecycle ≠ .running ∧ s.workersDone = config.startupWorkers ∧
      t = { s with supervisor := .exited, supervisorDone := true })) := by
  cases action with
  | collect order =>
      simp only [supervisorStep] at hs
      split at hs <;> try contradiction
      next hsup =>
      have hold : s.supervisor.done = false := by rw [hsup]; rfl
      refine ⟨hold, ?_⟩
      unfold RuntimeState.collect at hs
      split at hs
      · next hdone => exact .inr ⟨hdone.1, hdone.2.1, hdone.2.2, (Option.some.inj hs).symm⟩
      · split at hs <;> try contradiction
        obtain rfl := Option.some.inj hs
        exact .inl (place_steady hold rfl)
  | visit =>
      simp only [supervisorStep] at hs
      split at hs <;> try contradiction
      · next hsup =>
        have hold : s.supervisor.done = false := by rw [hsup]; rfl
        obtain rfl := Option.some.inj hs
        exact ⟨hold, .inl (place_steady hold rfl)⟩
      · next hsup =>
        have hold : s.supervisor.done = false := by rw [hsup]; rfl
        obtain ⟨e, -, rfl⟩ := Option.map_eq_some_iff.mp hs
        split <;> exact ⟨hold, .inl (place_steady hold rfl)⟩
  | observe =>
      simp only [supervisorStep] at hs
      split at hs <;> try contradiction
      next hsup =>
      have hold : s.supervisor.done = false := by rw [hsup]; rfl
      obtain ⟨session, -, rfl⟩ := Option.map_eq_some_iff.mp hs
      split <;> exact ⟨hold, .inl (place_steady hold rfl)⟩
  | report =>
      simp only [supervisorStep] at hs
      split at hs <;> try contradiction
      next ref lifecycle rest hsup =>
      have hold : s.supervisor.done = false := by rw [hsup]; rfl
      obtain ⟨r, hr, rfl⟩ := Option.map_eq_some_iff.mp hs
      obtain ⟨e, -, rfl⟩ := Option.map_eq_some_iff.mp hr
      refine ⟨hold, .inl ?_⟩
      split
      · exact stopEntry_steady.trans
          (place_steady (by rw [stopEntry_steady.supervisor]; exact hold) rfl)
      · split
        · exact place_steady hold rfl
        · exact stopEntry_steady.trans
            (place_steady (by rw [stopEntry_steady.supervisor]; exact hold) rfl)
  | flush =>
      simp only [supervisorStep] at hs
      split at hs <;> try contradiction
      next hsup =>
      have hold : s.supervisor.done = false := by rw [hsup]; rfl
      obtain ⟨session, -, rfl⟩ := Option.map_eq_some_iff.mp hs
      split <;> exact ⟨hold, .inl (place_steady hold rfl)⟩
  | check =>
      simp only [supervisorStep] at hs
      split at hs <;> try contradiction
      next ref rest hsup =>
      have hold : s.supervisor.done = false := by rw [hsup]; rfl
      obtain ⟨e, -, rfl⟩ := Option.map_eq_some_iff.mp hs
      split
      · exact ⟨hold, .inl (place_steady hold rfl)⟩
      · exact ⟨hold, .inl ⟨rfl, rfl, rfl, rfl, hold.symm, rfl⟩⟩
  | destroy | releaseDependencies | wake =>
      simp only [supervisorStep] at hs
      split at hs <;> try contradiction
      next hsup =>
      have hold : s.supervisor.done = false := by rw [hsup]; rfl
      obtain rfl := Option.some.inj hs
      exact ⟨hold, .inl (place_steady hold rfl)⟩
  | finalize =>
      simp only [supervisorStep] at hs
      split at hs <;> try contradiction
      next ref rest hsup =>
      have hold : s.supervisor.done = false := by rw [hsup]; rfl
      obtain ⟨e, -, rfl⟩ := Option.map_eq_some_iff.mp hs
      refine ⟨hold, .inl (Steady.trans ?_ publish_steady)⟩
      exact ⟨rfl, rfl, rfl, rfl, hold.symm, rfl⟩

theorem stopAll_steady {s : RuntimeState} {order : List Nat} :
    Steady s (order.foldl (fun s ref => s.stopEntry config ref reason) s) := by
  induction order generalizing s with
  | nil => exact .refl s
  | cons ref order ih => exact stopEntry_steady.trans ih

/-- Every step is steady, or one of the handshakes. -/
theorem step_steady {a : RuntimeAction} (hs : runtimeStep config s a = some t) :
    Steady s t ∨
      (∃ w, s.workers[w]? = some .waiting ∧ s.pending = [] ∧ s.counters.lifecycle ≠ .running ∧
        t = { s with workersDone := s.workersDone + 1 }.setWorker w .exited) ∨
      (s.supervisor.done = false ∧ s.registry.size = 0 ∧ s.counters.lifecycle ≠ .running ∧
        s.workersDone = config.startupWorkers ∧
        t = { s with supervisor := .exited, supervisorDone := true }) ∨
      (∃ order, a = .requestShutdown order ∧ order.Perm s.registered ∧
        s.counters.lifecycle = .running ∧
        Steady { s with counters := { s.counters with lifecycle := .draining } } t) ∨
      ∃ action, a = .notifier action ∧ notifierStep s action = some t := by
  cases a with
  | add id factory allocationFails =>
      obtain rfl := Option.some.inj hs
      exact .inl add_steady
  | remove handle | fail handle =>
      obtain rfl := Option.some.inj hs
      exact .inl remove_steady
  | operate handle call =>
      simp only [runtimeStep] at hs
      split at hs <;> try contradiction
      obtain rfl := Option.some.inj hs
      exact .inl admitOperation_steady
  | operation j action => exact .inl (operation_steady hs)
  | requestShutdown order =>
      simp only [runtimeStep] at hs
      split at hs <;> try contradiction
      next horder =>
      obtain rfl := Option.some.inj hs
      unfold RuntimeState.requestShutdown
      split
      · exact .inl (.refl s)
      · next hrunning =>
        exact .inr (.inr (.inr (.inl ⟨order, rfl, horder, not_not.mp hrunning, stopAll_steady⟩)))
  | startup w action =>
      cases startup_steady hs with
      | inl hsteady => exact .inl hsteady
      | inr hleft => exact .inr (.inl ⟨w, hleft⟩)
  | supervisor action =>
      obtain ⟨hold, hsteady | hleft⟩ := supervisor_steady hs
      · exact .inl hsteady
      · exact .inr (.inr (.inl ⟨hold, hleft⟩))
  | notifier action => exact .inr (.inr (.inr (.inr ⟨action, rfl, hs⟩)))
  | session ref action =>
      simp only [runtimeStep] at hs
      split at hs <;> try contradiction
      exact .inl (stepSession_steady hs)
  | ownedSession action =>
      simp only [runtimeStep] at hs
      split at hs <;> try contradiction
      next hsup =>
      split at hs <;> try contradiction
      obtain ⟨session, -, rfl⟩ := Option.map_eq_some_iff.mp hs
      exact .inl (place_steady (by rw [hsup]; rfl) rfl)

/-! ## the entries are stopped -/

namespace RuntimePage

/-- The entry `ref`, if there is one, is stopped. -/
def Stopped (page : RuntimePage) (ref : Nat) : Prop :=
  ∀ p, page.entries[ref]? = some p → p.stopRequested = true

/-- An entry is released only after it was stopped. -/
def Halting (page : RuntimePage) : Prop :=
  ∀ (ref : Nat) (p : EntryPage), page.entries[ref]? = some p →
    p.released = true → p.stopRequested = true

variable {page : RuntimePage}

theorem stop_stopRequested {p : EntryPage} (hp : p.stopRequested = true) :
    (p.stop reason).stopRequested = true := by
  unfold EntryPage.stop
  split
  · rfl
  · exact hp

/-- Only a reservation makes an entry that is not stopped. -/
theorem Stopped.perform {event : RuntimeEvent} (h : page.Stopped ref)
    (hreserve : ∀ handle, event ≠ .reserve handle) : (page.perform config event).Stopped ref := by
  have hkept {j : Nat} {f : EntryPage → EntryPage} (hf : ∀ p, p.stopRequested = true →
      (f p).stopRequested = true) (p : EntryPage) (hp : (page.entries.modify j f)[ref]? = some p) :
      p.stopRequested = true := by
    rcases modify_cases hp with ⟨-, hold⟩ | ⟨rfl, d, hold, rfl⟩
    · exact h p hold
    · exact hf d (h d hold)
  intro p hp
  rw [perform_entries] at hp
  cases event with
  | reserve handle => exact absurd rfl (hreserve handle)
  | stop j reason => exact hkept (fun _ => stop_stopRequested) p hp
  | start j => exact hkept (f := fun p => { p with started := true }) (fun _ => id) p hp
  | release j => exact hkept (f := fun p => { p with released := true }) (fun _ => id) p hp
  | retire j =>
      exact hkept (f := fun p => { p with retired := p.retired ++ [p.outcome] }) (fun _ => id) p hp
  | take | deliver => exact h p hp

theorem stop_released {p : EntryPage} : (p.stop reason).released = p.released := by
  unfold EntryPage.stop
  split <;> rfl

/-- A call of `stop_entry` leaves the entry stopped. -/
theorem Halting.stop (h : page.Halting) :
    (page.perform config (.stop ref reason)).Halting ∧
      (page.perform config (.stop ref reason)).Stopped ref := by
  have hstop {p : EntryPage} (hp : page.entries[ref]? = some p) :
      (p.stop reason).stopRequested = true := by
    by_cases hold : p.stopRequested = true
    · exact stop_stopRequested hold
    · have hreleased := mt (h ref p hp) hold
      have haccepts : p.accepts reason = true := by simp [EntryPage.accepts, hold, hreleased]
      rw [EntryPage.stop, if_pos haccepts]
  refine ⟨fun j p hp hreleased => ?_, fun p hp => ?_⟩
  · rw [perform_entries] at hp
    rcases modify_cases hp with ⟨-, hold⟩ | ⟨rfl, d, hold, rfl⟩
    · exact h j p hold hreleased
    · exact hstop hold
  · rw [perform_entries] at hp
    rcases modify_cases hp with ⟨hne, -⟩ | ⟨-, d, hold, rfl⟩
    · exact absurd rfl hne
    · exact hstop hold

/-- A shutdown stops every entry of its order. -/
theorem Halting.stopAll {order : List Nat} (h : page.Halting)
    (href : ref ∈ order ∨ page.Stopped ref) :
    ((order.map (.stop · reason)).foldl (perform config) page).Stopped ref := by
  induction order generalizing page with
  | nil => exact href.resolve_left List.not_mem_nil
  | cons j order ih =>
      obtain ⟨hhalting, hstopped⟩ := h.stop
      refine ih hhalting ?_
      cases href with
      | inl hmem =>
          cases List.mem_cons.mp hmem with
          | inl heq => exact .inr (heq ▸ hstopped)
          | inr hrest => exact .inl hrest
      | inr hold => exact .inr (hold.perform fun _ => nofun)

end RuntimePage

/-- A manager that is shut down accepts no admission. -/
theorem add_refused {id : Bytes} {factory : Option Nat} {allocationFails : Bool}
    {admission : SessionAdmission} (hrunning : s.counters.lifecycle ≠ .running)
    (hadd : (s.add config id factory allocationFails).2 = some admission) :
    admission.status ≠ .accepted := by
  unfold RuntimeState.add at hadd
  split at hadd
  · cases hadd
    nofun
  · rw [RuntimeState.admissionStatus, if_pos hrunning] at hadd
    cases hadd
    nofun

/-- A step of a manager that is shut down reserves nothing. -/
theorem events_reserve {a : RuntimeAction} (hrunning : s.counters.lifecycle ≠ .running)
    (handle : SessionHandle) : .reserve handle ∉ runtimeEvents config s a := by
  have hfound (found : Option (Nat × Entry)) (reason : SessionOutcome) :
      .reserve handle ∉ stopFound found reason := by
    unfold stopFound
    split <;> simp
  cases a with
  | add id factory allocationFails =>
      simp only [runtimeEvents]
      split
      · next admission hadd => rw [if_neg (add_refused hrunning hadd)]; nofun
      · nofun
  | remove _ | fail _ => exact hfound _ _
  | operation j action =>
      cases action with
      | report =>
          simp only [runtimeEvents]
          split
          · exact hfound _ _
          · nofun
      | _ => nofun
  | requestShutdown order =>
      simp only [runtimeEvents, if_neg hrunning]
      nofun
  | startup w action =>
      cases action with
      | conclude =>
          simp only [runtimeEvents]
          split
          · split
            · simp
            · split <;> simp
          · nofun
      | _ => nofun
  | supervisor action =>
      cases action with
      | report =>
          simp only [runtimeEvents]
          split
          · split
            · simp
            · split <;> simp
          · nofun
      | check =>
          simp only [runtimeEvents]
          split
          · split <;> simp
          · nofun
      | finalize =>
          simp only [runtimeEvents]
          split <;> simp
      | _ => nofun
  | notifier action => cases action <;> simp [runtimeEvents]
  | operate _ _ | session _ _ | ownedSession _ => nofun

/-- Events other than a reservation leave a stopped entry stopped. -/
theorem stopped_foldl {page : RuntimePage} {events : List RuntimeEvent} (h : page.Stopped ref)
    (hreserve : ∀ handle, .reserve handle ∉ events) :
    (events.foldl (RuntimePage.perform config) page).Stopped ref := by
  induction events generalizing page with
  | nil => exact h
  | cons event rest ih =>
      refine ih (h.perform fun handle heq => hreserve handle (heq ▸ List.mem_cons_self)) ?_
      exact fun handle hmem => hreserve handle (List.mem_cons_of_mem _ hmem)

/-- Once a shutdown was requested every entry is stopped. -/
def Stopping (s : RuntimeState) : Prop :=
  s.counters.lifecycle ≠ .running → ∀ ref, s.page.Stopped ref

theorem EntriesPlaced.halting (h : EntriesPlaced past s) : s.page.Halting := by
  intro ref p hp hreleased
  obtain ⟨e, he, rfl⟩ := page_cases hp
  have hphase : e.phase = .retiring := of_decide_eq_true hreleased
  by_contra hstop
  have hunstopped : e.stopRequested = false := by simpa [Entry.page] using hstop
  exact ((h.live.each ref e he).sound.unstopped hunstopped).2.2.2 hphase

/-- An entry that is not in the registry has been stopped. -/
theorem EntriesPlaced.registered_or_stopped (h : EntriesPlaced past s) {order : List Nat}
    (horder : order.Perm s.registered) (ref : Nat) : ref ∈ order ∨ s.page.Stopped ref := by
  cases he : s.entries[ref]? with
  | none =>
      refine .inr fun p hp => ?_
      obtain ⟨e, he', -⟩ := page_cases hp
      rw [he] at he'
      contradiction
  | some e =>
      have hregistered := h.scanned.registered ref e he
      by_cases hretired : e.retired = []
      · refine .inl (horder.mem_iff.mpr (List.mem_map.mpr ⟨⟨e.handle.id, ref⟩, ?_, rfl⟩))
        exact (List.mem_dlookup_iff s.registry.nodupKeys).mp (hregistered.mpr hretired)
      · refine .inr fun p hp => ?_
        obtain rfl := Option.some.inj ((page_entry he).symm.trans hp)
        have hphase := ((h.live.each ref e he).sound.retired hretired).2.1
        exact h.halting ref e.page hp (by simp [Entry.page, hphase])

/-! ## the handshakes -/

/-- How far the end of a manager has come. -/
structure Handshakes (config : RuntimeConfig) (s : RuntimeState) : Prop where
  workers : s.workers.length = config.startupWorkers
  counted : s.workersDone = (s.workers.map StartupPlace.done).countP id
  supervisor : s.supervisorDone = s.supervisor.done
  left : s.supervisorDone = true → s.counters.lifecycle ≠ .running ∧ s.registry.size = 0 ∧
    s.workersDone = config.startupWorkers
  stopped : s.counters.lifecycle = .stopped ↔ s.notifier = .exited
  told : s.notifier = .exited → s.supervisorDone = true ∧ s.notifications = []

theorem Handshakes.init (config : RuntimeConfig) : Handshakes config (runtimeManager config).init := by
  constructor <;> simp [runtimeManager, SupervisorPlace.done, StartupPlace.done, List.countP_replicate]

/-- When the supervisor has left, so has every worker. -/
theorem Handshakes.exited (h : Handshakes config s) (hdone : s.supervisorDone = true)
    {place : StartupPlace} (hw : s.workers[w]? = some place) : place.done = true := by
  have hcount : (s.workers.map StartupPlace.done).countP id =
      (s.workers.map StartupPlace.done).length := by
    rw [← h.counted, (h.left hdone).2.2, List.length_map, h.workers]
  exact List.countP_eq_length.mp hcount _ (List.mem_map.mpr ⟨place, List.mem_of_getElem? hw, rfl⟩)

theorem matching_empty (hregistry : s.registry.size = 0) (handle : SessionHandle) :
    s.matching config handle = none := by
  have hnone : s.registry.lookup handle.id = none := by
    rw [Table.eq_empty_of_size _ hregistry]
    rfl
  unfold RuntimeState.matching
  split
  · rfl
  · rw [hnone]
    rfl

/-- Once the supervisor has left, only the dispatcher has anything to do. -/
theorem Handshakes.silent {a : RuntimeAction} (h : Handshakes config s)
    (hdone : s.supervisorDone = true) :
    runtimeEvents config s a = [] ∨ ∃ action, a = .notifier action := by
  obtain ⟨hrunning, hregistry, -⟩ := h.left hdone
  have hexited : s.supervisor = .exited := by
    have hplace := h.supervisor.symm.trans hdone
    cases hsup : s.supervisor <;> rw [hsup] at hplace <;> first | rfl | contradiction
  cases a with
  | add id factory allocationFails =>
      left
      have hreserve := @events_reserve config s (.add id factory allocationFails) hrunning
      simp only [runtimeEvents] at hreserve ⊢
      split at hreserve
      · next admission hadd =>
        split at hreserve
        · exact absurd List.mem_cons_self (hreserve admission.handle)
        · next hstatus => exact if_neg hstatus
      · rfl
  | remove handle | fail handle =>
      left
      simp only [runtimeEvents, matching_empty hregistry]
      rfl
  | operation j action =>
      left
      cases action with
      | report =>
          simp only [runtimeEvents, matching_empty hregistry]
          split <;> rfl
      | _ => rfl
  | requestShutdown order =>
      left
      simp only [runtimeEvents, if_neg hrunning]
  | startup w action =>
      left
      cases action with
      | conclude =>
          simp only [runtimeEvents]
          split
          · next hw => exact absurd (h.exited hdone hw) nofun
          · rfl
      | _ => rfl
  | supervisor action =>
      left
      cases action <;> simp only [runtimeEvents, hexited]
  | notifier action => exact .inr ⟨action, rfl⟩
  | operate _ _ | session _ _ | ownedSession _ => exact .inl rfl

/-- A manager that is shut down registers nothing, and its supervisor erases. -/
theorem registry_left {a : RuntimeAction} (hrunning : s.counters.lifecycle ≠ .running)
    (hsup : s.supervisor.done = true) (hs : runtimeStep config s a = some t) :
    t.registry = s.registry := by
  rcases step_quiet hs with hquiet | ⟨id, factory, allocationFails, rfl, rfl⟩ |
    ⟨ref, rest, rfl, hplace, -⟩
  · exact hquiet.registry
  · have hrejected (status : AdmissionStatus) : (s.recordRejection status).registry = s.registry := by
      cases status <;> rfl
    unfold RuntimeState.add
    split
    · exact hrejected .invalidRequest
    · rw [RuntimeState.admissionStatus, if_pos hrunning]
      exact hrejected .draining
  · rw [hplace] at hsup
    contradiction

/-- The dispatcher leaves only an empty queue, after the supervisor. -/
theorem notifier_steady {action : NotifierAction} (hs : notifierStep s action = some t) :
    (s.supervisorDone = true ∧ s.notifier = .waiting ∧ s.notifications = [] ∧
      t = { s with
        notifier := .exited
        counters := { s.counters with lifecycle := .stopped } }) ∨
    (s.notifier ≠ .exited ∧ t.notifier ≠ .exited ∧ t.counters.lifecycle = s.counters.lifecycle ∧
      t.workersDone = s.workersDone ∧ t.supervisorDone = s.supervisorDone ∧
      t.workers = s.workers ∧ t.supervisor = s.supervisor) := by
  cases action with
  | take =>
      simp only [notifierStep] at hs
      split at hs <;> try contradiction
      next hwaiting =>
      split at hs
      · obtain rfl := Option.some.inj hs
        exact .inr ⟨by simp [hwaiting], by simp, rfl, rfl, rfl, rfl, rfl⟩
      · next hqueue =>
        split at hs <;> try contradiction
        next hdone => exact .inl ⟨hdone, hwaiting, hqueue, (Option.some.inj hs).symm⟩
  | notified threw =>
      simp only [notifierStep] at hs
      split at hs <;> try contradiction
      next hplace =>
      obtain rfl := Option.some.inj hs
      exact .inr ⟨by simp [hplace], by simp, rfl, rfl, rfl, rfl, rfl⟩

/-- A steady step keeps the handshakes. -/
theorem Handshakes.steady (h : Handshakes config s) (hsteady : Steady s t)
    (hregistry : s.supervisorDone = true → t.registry = s.registry)
    (hnotifications : s.notifier = .exited → t.notifications = s.notifications) :
    Handshakes config t where
  workers := by
    have hlength := congrArg List.length hsteady.workers
    rw [List.length_map, List.length_map] at hlength
    exact hlength.trans h.workers
  counted := by rw [hsteady.workersDone, hsteady.workers, h.counted]
  supervisor := by rw [hsteady.supervisorDone, hsteady.supervisor, h.supervisor]
  left hdone := by
    rw [hsteady.supervisorDone] at hdone
    rw [hsteady.lifecycle, hsteady.workersDone, hregistry hdone]
    exact h.left hdone
  stopped := by rw [hsteady.lifecycle, hsteady.notifier]; exact h.stopped
  told hexited := by
    rw [hsteady.notifier] at hexited
    obtain ⟨hdone, hqueue⟩ := h.told hexited
    exact ⟨hsteady.supervisorDone.trans hdone, (hnotifications hexited).trans hqueue⟩

/-- **Step lemma**: every section keeps the handshakes. -/
theorem Handshakes.step {a : RuntimeAction} (h : Handshakes config s) (hp : EntriesPlaced past s)
    (hs : runtimeStep config s a = some t) : Handshakes config t := by
  have hregistry (hdone : s.supervisorDone = true) : t.registry = s.registry :=
    registry_left (h.left hdone).1 (h.supervisor ▸ hdone) hs
  rcases step_steady hs with hsteady | ⟨w, hw, -, -, rfl⟩ | ⟨hold, hempty, hrunning, hworkers, rfl⟩ |
    ⟨order, rfl, -, hrunning, hsteady⟩ | ⟨action, rfl, hnotifier⟩
  · refine h.steady hsteady hregistry fun hexited => ?_
    have hqueue : t.page.mail.queued = s.page.mail.queued := by
      rcases h.silent (a := a) (h.told hexited).1 with hevents | ⟨action, rfl⟩
      · rw [step_page hp hs, hevents]
        rfl
      · cases action <;> simp [runtimeStep, notifierStep, hexited] at hs
    exact hqueue
  · have hdone : s.supervisorDone = false := by
      by_contra hdone
      have hleft := h.exited (by simpa using hdone) hw
      contradiction
    obtain ⟨hlt, hget⟩ := List.getElem?_eq_some_iff.mp hw
    exact {
      workers := by
        show (s.workers.set w .exited).length = config.startupWorkers
        rw [List.length_set, h.workers]
      counted := by
        show s.workersDone + 1 = ((s.workers.set w .exited).map StartupPlace.done).countP id
        have hpresent : 0 < (s.workers.map StartupPlace.done).length := by
          rw [List.length_map]
          omega
        rw [List.map_set, List.countP_set (by rwa [List.length_map]), ← h.counted]
        simp [hget, StartupPlace.done]
      supervisor := h.supervisor
      left := fun h' => absurd (hdone.symm.trans h') Bool.false_ne_true
      stopped := h.stopped
      told := h.told }
  · have hdone : s.supervisorDone = false := h.supervisor.trans hold
    exact {
      workers := h.workers
      counted := h.counted
      supervisor := rfl
      left := fun _ => ⟨hrunning, hempty, hworkers⟩
      stopped := h.stopped
      told := fun hexited => absurd (hdone.symm.trans (h.told hexited).1) Bool.false_ne_true }
  · have hdone : s.supervisorDone = false := by
      by_contra hdone
      exact (h.left (by simpa using hdone)).1 hrunning
    have hnotifier : s.notifier ≠ .exited := fun hexited =>
      absurd (hdone.symm.trans (h.told hexited).1) Bool.false_ne_true
    have hdrained : Handshakes config
        { s with counters := { s.counters with lifecycle := .draining } } := {
      workers := h.workers
      counted := h.counted
      supervisor := h.supervisor
      left := fun h' => absurd (hdone.symm.trans h') Bool.false_ne_true
      stopped := ⟨fun hstopped => absurd hstopped (by simp), fun hexited => absurd hexited hnotifier⟩
      told := fun hexited => absurd hexited hnotifier }
    exact hdrained.steady hsteady hregistry fun hexited => absurd hexited hnotifier
  · rcases notifier_steady hnotifier with ⟨hdone, -, hqueue, rfl⟩ |
      ⟨hbefore, hafter, hlifecycle, hworkersDone, hsupervisorDone, hworkers, hsupervisor⟩
    · exact {
        workers := h.workers
        counted := h.counted
        supervisor := h.supervisor
        left := fun _ => ⟨by simp, (h.left hdone).2⟩
        stopped := ⟨fun _ => rfl, fun _ => rfl⟩
        told := fun _ => ⟨hdone, hqueue⟩ }
    · exact {
        workers := by rw [hworkers, h.workers]
        counted := by rw [hworkersDone, hworkers, h.counted]
        supervisor := by rw [hsupervisorDone, hsupervisor, h.supervisor]
        left := fun h' => by
          rw [hsupervisorDone] at h'
          rw [hlifecycle, hworkersDone, hregistry h']
          exact h.left h'
        stopped := by
          rw [hlifecycle, h.stopped]
          exact ⟨fun hexited => absurd hexited hbefore, fun hexited => absurd hexited hafter⟩
        told := fun hexited => absurd hexited hafter }

/-! ## stopping -/

/-- **Step lemma**: a shutdown stops every entry, and no entry comes after it. -/
theorem Stopping.step {a : RuntimeAction} (h : Stopping s) (hk : Handshakes config s)
    (hp : EntriesPlaced past s) (hs : runtimeStep config s a = some t) : Stopping t := by
  have hpage := step_page hp hs
  by_cases hrunning : s.counters.lifecycle = .running
  · rcases step_steady hs with hsteady | ⟨w, -, -, hne, -⟩ | ⟨-, -, hne, -⟩ |
      ⟨order, rfl, horder, -⟩ | ⟨action, rfl, hnotifier⟩
    · exact fun hne => absurd (hsteady.lifecycle.trans hrunning) hne
    · exact absurd hrunning hne
    · exact absurd hrunning hne
    · intro _ ref
      have hevents : runtimeEvents config s (.requestShutdown order) =
          order.map (.stop · .runtimeShutdown) := by
        simp only [runtimeEvents, if_pos hrunning]
      rw [hpage, hevents]
      exact hp.halting.stopAll (hp.registered_or_stopped horder ref)
    · intro hne
      rcases notifier_steady hnotifier with ⟨hdone, -⟩ | ⟨-, -, hsame, -⟩
      · exact absurd hrunning (hk.left hdone).1
      · exact absurd (hsame.trans hrunning) hne
  · intro _ ref
    rw [hpage]
    exact stopped_foldl (h hrunning ref) (events_reserve hrunning)

theorem lifecycle_left {a : RuntimeAction} (hrunning : s.counters.lifecycle ≠ .running)
    (hs : runtimeStep config s a = some t) : t.counters.lifecycle ≠ .running := by
  rcases step_steady hs with hsteady | ⟨w, -, -, -, rfl⟩ | ⟨-, -, -, -, rfl⟩ |
    ⟨order, -, -, hwas, -⟩ | ⟨action, rfl, hnotifier⟩
  · exact hsteady.lifecycle ▸ hrunning
  · exact hrunning
  · exact hrunning
  · exact absurd hwas hrunning
  · rcases notifier_steady hnotifier with ⟨-, -, -, rfl⟩ | ⟨-, -, hsame, -⟩
    · nofun
    · exact hsame ▸ hrunning

theorem handshakes_of_reachable (h : (runtimeManager config).Reachable s) : Handshakes config s :=
  Machine.Reachable.rec_inv (P := Handshakes config) (Handshakes.init config)
    (fun _ _ _ hr hk hs => hk.step (entriesPlaced_of_reachable hr) hs) h

theorem stopping_of_reachable (h : (runtimeManager config).Reachable s) : Stopping s :=
  Machine.Reachable.rec_inv (P := Stopping) (fun hrunning => absurd rfl hrunning)
    (fun _ _ _ hr hstop hs =>
      hstop.step (handshakes_of_reachable hr) (entriesPlaced_of_reachable hr) hs) h

theorem lifecycle_leads (hr : (runtimeManager config).Reachable s)
    (hrunning : s.counters.lifecycle ≠ .running) (h : (runtimeManager config).Leads s t) :
    t.counters.lifecycle ≠ .running :=
  Machine.Leads.rec_stable (P := fun s => s.counters.lifecycle ≠ .running)
    (fun _ _ _ _ hp hs => lifecycle_left hp hs) hr hrunning h

/-! ## the contract -/

/-- What a manager promises about its end. -/
structure ShutdownContract (config : RuntimeConfig) (s : RuntimeState) : Prop where
  /-- From the moment the lifecycle leaves `Running`, no `add` is accepted and no
  entry has the phase `Running`. -/
  closed : s.counters.lifecycle ≠ .running → ∀ t, (runtimeManager config).Leads s t →
    t.counters.lifecycle ≠ .running ∧
    (∀ id factory allocationFails admission,
      (t.add config id factory allocationFails).2 = some admission →
        admission.status ≠ .accepted) ∧
    ∀ e ∈ t.entries, e.stopRequested = true ∧ e.phase ≠ .running
  registry : s.counters.lifecycle = .stopped → s.registry.size = 0 ∧ s.pending = []
  tickets : s.counters.lifecycle = .stopped → ∀ e ∈ s.entries,
    (∃ outcome, e.started = [outcome]) ∧ ∃ outcome, e.retired = [outcome]
  workers : s.counters.lifecycle = .stopped → s.workers.length = config.startupWorkers ∧
    ∀ place ∈ s.workers, place = .exited
  notifications : s.counters.lifecycle = .stopped →
    s.notifications = [] ∧ s.notifier = .exited ∧ s.delivered = s.enqueued

/-- **Shutdown**: `Stopped` is reported when nothing is left. -/
theorem runtime_shutdown (config : RuntimeConfig) (s : RuntimeState)
    (h : (runtimeManager config).Reachable s) : ShutdownContract config s := by
  have hk := handshakes_of_reachable h
  have hp := entriesPlaced_of_reachable h
  have hretired (hstopped : s.counters.lifecycle = .stopped) (ref : Nat) (e : Entry)
      (he : s.entries[ref]? = some e) : e.retired ≠ [] := by
    intro hnil
    have hlookup := (hp.scanned.registered ref e he).mpr hnil
    have hdone := (hk.told (hk.stopped.mp hstopped)).1
    rw [Table.eq_empty_of_size _ (hk.left hdone).2.1] at hlookup
    contradiction
  exact {
    closed := fun hrunning t hleads => by
      have hleft := lifecycle_leads h hrunning hleads
      refine ⟨hleft, fun _ _ _ _ hadd => add_refused hleft hadd, fun e hmem => ?_⟩
      obtain ⟨ref, he⟩ := List.mem_iff_getElem?.mp hmem
      have hstop : e.stopRequested = true :=
        stopping_of_reachable (h.leads hleads) hleft ref e.page (page_entry he)
      have hsound := ((entriesPlaced_of_reachable (h.leads hleads)).live.each ref e he).sound
      refine ⟨hstop, fun hphase => ?_⟩
      cases (hsound.stopped hstop).2 with
      | inl hrequested => exact absurd (hphase.symm.trans hrequested) nofun
      | inr hretiring => exact absurd (hphase.symm.trans hretiring) nofun
    registry := fun hstopped => by
      refine ⟨(hk.left (hk.told (hk.stopped.mp hstopped)).1).2.1, ?_⟩
      refine List.eq_nil_iff_forall_not_mem.mpr fun ref href => ?_
      obtain ⟨e, he, hphase⟩ := (hp.queued.mem_iff ref).mp href
      have hretiring := ((hp.live.each ref e he).sound.retired (hretired hstopped ref e he)).2.1
      exact absurd (hphase.symm.trans hretiring) nofun
    tickets := fun hstopped e hmem => by
      obtain ⟨ref, he⟩ := List.mem_iff_getElem?.mp hmem
      have hsound := (hp.live.each ref e he).sound
      have hset := hretired hstopped ref e he
      refine ⟨?_, e.outcome, (hsound.retired hset).1⟩
      rcases hsound.started_cases with ⟨-, -, hunset⟩ | ⟨outcome, hone, -⟩
      · exact absurd hunset hset
      · exact ⟨outcome, hone⟩
    workers := fun hstopped => by
      refine ⟨hk.workers, fun place hmem => ?_⟩
      obtain ⟨w, hw⟩ := List.mem_iff_getElem?.mp hmem
      have hdone := hk.exited (hk.told (hk.stopped.mp hstopped)).1 hw
      cases place <;> first | rfl | contradiction
    notifications := fun hstopped => by
      have hexited := hk.stopped.mp hstopped
      have hqueue := (hk.told hexited).2
      obtain ⟨ledger, hledger⟩ : ∃ ledger, (ledgeredRuntime config).Reachable (s, ledger) :=
        h.observed
      have hposted := posted_of_reachable hledger
      have hcarried : s.mail.carried ledger.delivered = ledger.delivered := by
        simp [Mail.carried, RuntimeState.mail, hexited, hqueue, NotifierPlace.inFlight]
      have henqueued : s.enqueued = (s.mail.carried ledger.delivered).length := hposted.enqueued
      have hcounted : s.delivered = ledger.delivered.length := hposted.counted
      exact ⟨hqueue, hexited, by rw [hcounted, henqueued, hcarried]⟩ }

/-- A shutdown overtakes a start: the factory runs while the manager is told to
stop, and its session is never started. -/
def shutdownDuringStart : List RuntimeAction :=
  [.add (lit "a") (some 0) false, .startup 0 .take, .requestShutdown [0], .startup 0 .threw,
   .startup 0 .handle, .startup 0 .conclude, .startup 0 .take, .supervisor (.collect [0]),
   .supervisor .visit, .supervisor .check, .supervisor .destroy, .supervisor .releaseDependencies,
   .supervisor .finalize, .supervisor .visit, .supervisor .wake, .supervisor (.collect []),
   .notifier .take, .notifier (.notified false), .notifier .take, .notifier (.notified false),
   .notifier .take, .notifier (.notified false), .notifier .take]

theorem shutdownDuringStart_stopped :
    ∃ s, (runtimeManager tightRuntime).run (runtimeManager tightRuntime).init
        shutdownDuringStart = some s ∧
      s.counters.lifecycle = .stopped ∧ s.delivered = 3 ∧ s.entries.length = 1 ∧
      ShutdownContract tightRuntime s :=
  ⟨_, rfl, rfl, rfl, rfl, runtime_shutdown tightRuntime _ ⟨shutdownDuringStart, rfl⟩⟩

end ByteTurn

import ByteTurn.RuntimeManager.Ledger

/-!
# ByteTurn.RuntimeManager.Unheard

A manager does the same whether or not its notifications are heard.

`unheard` forgets the notifications, and `mute` the observer.  Every section does
to the rest of the state what it does without an observer, so a run with any
queue, any drops and any observer is, apart from the notifications, a run of the
mute manager.
-/

namespace ByteTurn

variable {config : RuntimeConfig} {s t r : RuntimeState} {ref w j : Nat} {e : Entry}
  {reason : SessionOutcome} {type : RuntimeNotificationType} {handle : SessionHandle}

/-- No observer. -/
def RuntimeConfig.mute (config : RuntimeConfig) : RuntimeConfig := { config with notify := false }

/-- The dispatcher, apart from what it is busy with. -/
def NotifierPlace.idle : NotifierPlace → NotifierPlace
  | .exited => .exited
  | _ => .waiting

namespace RuntimeState

/-- The state, apart from the notifications. -/
def unheard (s : RuntimeState) : RuntimeState := { s with
  notifications := []
  notifier := s.notifier.idle
  sequence := 1
  enqueued := 0
  delivered := 0
  counters := { s.counters with
    notificationHighWatermark := 0
    droppedNotifications := 0
    observerFailures := 0
    firstDroppedSequence := 0
    lastDroppedSequence := 0 } }

end RuntimeState

/-! ## the functions of a manager -/

/-- A notification changes nothing but the mail. -/
theorem publish_unheard : (s.publish config e type).unheard = s.unheard := by
  unfold RuntimeState.publish
  split
  · dsimp only
    split
    · rfl
    · split <;> rfl
  · rfl

/-- With no one to notify, nothing is posted. -/
theorem publish_mute : s.publish config.mute e type = s := rfl

/-- An incarnation is stopped alike, whoever listens. -/
theorem stopEntry_unheard : (s.stopEntry config ref reason).unheard =
    s.unheard.stopEntry config.mute ref reason := by
  have hentries : s.unheard.entries = s.entries := rfl
  unfold RuntimeState.stopEntry
  rw [hentries]
  cases s.entries[ref]? with
  | none => rfl
  | some e =>
      dsimp only
      split
      · split
        · split <;> rfl
        · rw [publish_unheard, publish_mute]
          split <;> rfl
      · rfl

/-- A handle is found alike. -/
theorem matching_unheard : s.unheard.matching config.mute handle = s.matching config handle := rfl

/-- A session is removed alike. -/
theorem remove_unheard : (s.remove config handle reason).1.unheard =
    (s.unheard.remove config.mute handle reason).1 := by
  rw [remove_eq, remove_eq, matching_unheard]
  cases s.matching config handle with
  | none => rfl
  | some found => exact stopEntry_unheard

/-- So are all of them. -/
theorem stopAll_unheard {order : List Nat} :
    (order.foldl (fun s ref => s.stopEntry config ref reason) s).unheard =
      order.foldl (fun s ref => s.stopEntry config.mute ref reason) s.unheard := by
  induction order generalizing s with
  | nil => rfl
  | cons ref order ih => rw [List.foldl_cons, ih, List.foldl_cons, stopEntry_unheard]

/-- So is an admission answered. -/
theorem add_unheard {id : Bytes} {factory : Option Nat} {allocationFails : Bool} :
    (s.add config id factory allocationFails).1.unheard =
      (s.unheard.add config.mute id factory allocationFails).1 := by
  have hstatus : s.unheard.admissionStatus config.mute id = s.admissionStatus config id := rfl
  have hrejected (status : AdmissionStatus) :
      (s.recordRejection status).unheard = s.unheard.recordRejection status := by
    cases status <;> rfl
  unfold RuntimeState.add
  rw [hstatus]
  show _ = (if id = [] ∨ id.length > config.maxSessionIdBytes ∨ factory = none then _
    else _ : RuntimeState × Option SessionAdmission).1
  split
  · exact hrejected _
  · split
    · dsimp only
      split
      · rfl
      · exact publish_unheard
    · exact hrejected _

/-- What a session does by itself does not depend on who listens. -/
theorem stepSession_unheard {action : SessionAction} (hs : s.stepSession ref action = some t) :
    s.unheard.stepSession ref action = some t.unheard := by
  obtain ⟨session, next, hsession, hnext, rfl⟩ := stepSession_some hs
  have hsame : s.unheard.sessionOf ref = some session := hsession
  rw [RuntimeState.stepSession, hsame, Option.bind_some, hnext]
  rfl

/-- Nor does the admission of an operation. -/
theorem admitOperation_unheard {call : SessionCall} :
    (s.admitOperation config handle call).1.unheard =
      (s.unheard.admitOperation config.mute handle call).1 := by
  unfold RuntimeState.admitOperation
  rw [matching_unheard]
  cases s.matching config handle with
  | none => rfl
  | some found =>
      show _ = (if s.counters.lifecycle = .running ∧ found.2.phase = .running ∧
        found.2.stopRequested = false then _ else _ : RuntimeState × Bool).1
      dsimp only
      split <;> rfl

/-- Nor does a shutdown. -/
theorem requestShutdown_unheard {order : List Nat} : (s.requestShutdown config order).unheard =
    s.unheard.requestShutdown config.mute order := by
  unfold RuntimeState.requestShutdown
  show _ = if s.counters.lifecycle ≠ .running then _ else _
  split
  · rfl
  · exact stopAll_unheard

/-! ## the threads of a manager -/

/-- Nor does a step of an operation. -/
theorem operation_unheard {action : OperationAction} (hs : operationStep config s j action = some t) :
    operationStep config.mute s.unheard j action = some t.unheard := by
  have hget : s.unheard.operations[j]? = s.operations[j]? := rfl
  cases action with
  | enter =>
      simp only [operationStep] at hs ⊢
      rw [hget]
      split at hs <;> try contradiction
      next op hop =>
      split at hs <;> try contradiction
      next hstage =>
      split at hs
      · next hforwards =>
        obtain ⟨session, hsession, hs⟩ := Option.bind_eq_some_iff.mp hs
        obtain ⟨r, hr, rfl⟩ := Option.map_eq_some_iff.mp hs
        have hsame : s.unheard.sessionOf op.ref = some session := hsession
        rw [if_pos hforwards, hsame, Option.bind_some, stepSession_unheard hr]
        rfl
      · next hforwards =>
        obtain rfl := Option.some.inj hs
        rw [if_neg hforwards]
        rfl
  | leave i threw =>
      simp only [operationStep] at hs ⊢
      rw [hget]
      split at hs <;> try contradiction
      next op hop =>
      split at hs <;> try contradiction
      next hstage =>
      split at hs <;> try contradiction
      next hcall =>
      obtain ⟨r, hr, rfl⟩ := Option.map_eq_some_iff.mp hs
      have hsame : s.unheard.sessionOf op.ref = s.sessionOf op.ref := rfl
      rw [hsame, if_pos hcall, stepSession_unheard hr]
      rfl
  | report =>
      simp only [operationStep] at hs ⊢
      rw [hget]
      split at hs <;> try contradiction
      next op hop =>
      split at hs <;> try contradiction
      next hstage =>
      obtain rfl := Option.some.inj hs
      have hremove : ((s.remove config op.handle .engineFailure).1.setStage j .leaving).unheard =
          (s.remove config op.handle .engineFailure).1.unheard.setStage j .leaving := rfl
      rw [hremove, remove_unheard]
  | finish =>
      simp only [operationStep] at hs ⊢
      rw [hget]
      split at hs <;> try contradiction
      next op hop =>
      split at hs <;> try contradiction
      next hstage =>
      obtain rfl := Option.some.inj hs
      rfl

/-- Nor does the end of a start. -/
theorem concludeStartup_unheard {failed : Bool}
    (hs : s.concludeStartup config w ref failed = some t) :
    s.unheard.concludeStartup config.mute w ref failed = some t.unheard := by
  unfold RuntimeState.concludeStartup at hs ⊢
  have hfailed : (if failed then s.unheard.stopEntry config.mute ref .startupFailed
      else s.unheard) = (if failed then s.stopEntry config ref .startupFailed else s).unheard := by
    split
    · exact stopEntry_unheard.symm
    · rfl
  rw [hfailed]
  generalize (if failed then s.stopEntry config ref .startupFailed else s) = r at hs
  obtain ⟨e, he, rfl⟩ := Option.map_eq_some_iff.mp hs
  have hsame : r.unheard.entries[ref]? = some e := he
  dsimp only
  rw [hsame, Option.map_some]
  split
  · rfl
  · rw [publish_unheard, publish_mute]
    rfl

/-- Nor does a step of a worker. -/
theorem startup_unheard {action : StartupAction} (hs : startupStep config s w action = some t) :
    startupStep config.mute s.unheard w action = some t.unheard := by
  have hget : s.unheard.workers[w]? = s.workers[w]? := rfl
  cases action with
  | take =>
      simp only [startupStep] at hs ⊢
      rw [hget]
      split at hs <;> try contradiction
      have hpending : s.unheard.pending = s.pending := rfl
      unfold RuntimeState.takePending at hs ⊢
      rw [hpending]
      split at hs
      · split at hs <;> try contradiction
        next hrunning =>
        obtain rfl := Option.some.inj hs
        exact if_neg hrunning
      · next ref rest hqueue =>
        obtain ⟨e, he, rfl⟩ := Option.map_eq_some_iff.mp hs
        have hsame : s.unheard.entries[ref]? = some e := he
        rw [hsame, Option.map_some]
        dsimp only
        split <;> rfl
  | made sessionConfig dependencies =>
      simp only [startupStep] at hs ⊢
      rw [hget]
      split at hs <;> try contradiction
      next ref hw =>
      have hentry : s.unheard.entries[ref]? = s.entries[ref]? := rfl
      rw [hentry]
      split at hs <;> try contradiction
      split at hs <;> try contradiction
      next hnamed =>
      obtain rfl := Option.some.inj hs
      exact if_pos hnamed
  | threw =>
      simp only [startupStep] at hs ⊢
      rw [hget]
      split at hs <;> try contradiction
      obtain rfl := Option.some.inj hs
      rfl
  | store =>
      simp only [startupStep] at hs ⊢
      rw [hget]
      split at hs <;> try contradiction
      next ref session dependencies hw =>
      obtain ⟨e, he, rfl⟩ := Option.map_eq_some_iff.mp hs
      have hsame : s.unheard.entries[ref]? = some e := he
      rw [hsame]
      rfl
  | callStart =>
      simp only [startupStep] at hs ⊢
      rw [hget]
      split at hs <;> try contradiction
      next ref hw =>
      obtain ⟨session, hsession, hs⟩ := Option.bind_eq_some_iff.mp hs
      obtain ⟨r, hr, rfl⟩ := Option.map_eq_some_iff.mp hs
      have hsame : s.unheard.sessionOf ref = some session := hsession
      rw [hsame, Option.bind_some, stepSession_unheard hr]
      rfl
  | startReturned =>
      simp only [startupStep] at hs ⊢
      rw [hget]
      split at hs <;> try contradiction
      next ref hw =>
      obtain ⟨session, hsession, hs⟩ := Option.bind_eq_some_iff.mp hs
      have hsame : s.unheard.sessionOf ref = some session := hsession
      rw [hsame, Option.bind_some]
      split at hs <;> try contradiction
      next result hwake =>
      obtain ⟨r, hr, rfl⟩ := Option.map_eq_some_iff.mp hs
      rw [stepSession_unheard hr]
      rfl
  | handle =>
      simp only [startupStep] at hs ⊢
      rw [hget]
      split at hs <;> try contradiction
      next ref hw =>
      obtain ⟨e, he, rfl⟩ := Option.map_eq_some_iff.mp hs
      have hsame : s.unheard.entries[ref]? = some e := he
      rw [hsame]
      rfl
  | conclude =>
      simp only [startupStep] at hs ⊢
      rw [hget]
      split at hs <;> try contradiction
      exact concludeStartup_unheard hs

/-- Nor does the report of a session. -/
theorem report_unheard {lifecycle : SessionLifecycle} (hs : s.report config ref lifecycle = some t) :
    s.unheard.report config.mute ref lifecycle = some t.unheard := by
  obtain ⟨e, he, rfl⟩ := Option.map_eq_some_iff.mp hs
  have hsame : s.unheard.entries[ref]? = some e := he
  rw [RuntimeState.report, hsame, Option.map_some]
  congr 1
  split
  · exact stopEntry_unheard.symm
  · split
    · rfl
    · exact stopEntry_unheard.symm

/-- Nor does the end of a retirement. -/
theorem finalize_unheard {rest : List Nat} (hs : s.finalize config ref rest = some t) :
    s.unheard.finalize config.mute ref rest = some t.unheard := by
  obtain ⟨e, he, rfl⟩ := Option.map_eq_some_iff.mp hs
  have hsame : s.unheard.entries[ref]? = some e := he
  rw [RuntimeState.finalize, hsame, Option.map_some]
  dsimp only
  rw [publish_unheard, publish_mute]
  rfl

/-- Nor does a step of the supervisor. -/
theorem supervisor_unheard {action : SupervisorAction} (hs : supervisorStep config s action = some t) :
    supervisorStep config.mute s.unheard action = some t.unheard := by
  have hplace : s.unheard.supervisor = s.supervisor := rfl
  cases action with
  | collect order =>
      simp only [supervisorStep] at hs ⊢
      rw [hplace]
      split at hs <;> try contradiction
      unfold RuntimeState.collect at hs ⊢
      split at hs
      · next hdone =>
        obtain rfl := Option.some.inj hs
        exact if_pos hdone
      · next hleft =>
        split at hs <;> try contradiction
        next horder =>
        obtain rfl := Option.some.inj hs
        exact (if_neg hleft).trans (if_pos horder)
  | visit =>
      simp only [supervisorStep] at hs ⊢
      rw [hplace]
      split at hs <;> try contradiction
      · obtain rfl := Option.some.inj hs
        rfl
      · next ref rest hsup =>
        obtain ⟨e, he, rfl⟩ := Option.map_eq_some_iff.mp hs
        have hsame : s.unheard.entries[ref]? = some e := he
        rw [RuntimeState.visit, hsame, Option.map_some]
        split <;> rfl
  | observe =>
      simp only [supervisorStep] at hs ⊢
      rw [hplace]
      split at hs <;> try contradiction
      next ref rest hsup =>
      obtain ⟨session, hsession, rfl⟩ := Option.map_eq_some_iff.mp hs
      have hsame : s.unheard.sessionOf ref = some session := hsession
      rw [hsame, Option.map_some]
      split <;> rfl
  | report =>
      simp only [supervisorStep] at hs ⊢
      rw [hplace]
      split at hs <;> try contradiction
      obtain ⟨r, hr, rfl⟩ := Option.map_eq_some_iff.mp hs
      rw [report_unheard hr]
      rfl
  | flush =>
      simp only [supervisorStep] at hs ⊢
      rw [hplace]
      split at hs <;> try contradiction
      next ref rest hsup =>
      obtain ⟨session, hsession, rfl⟩ := Option.map_eq_some_iff.mp hs
      have hsame : s.unheard.sessionOf ref = some session := hsession
      rw [hsame, Option.map_some]
      split <;> rfl
  | check =>
      simp only [supervisorStep] at hs ⊢
      rw [hplace]
      split at hs <;> try contradiction
      next ref rest hsup =>
      obtain ⟨e, he, rfl⟩ := Option.map_eq_some_iff.mp hs
      have hsame : s.unheard.entries[ref]? = some e := he
      rw [RuntimeState.check, hsame, Option.map_some]
      split <;> rfl
  | destroy | releaseDependencies | wake =>
      simp only [supervisorStep] at hs ⊢
      rw [hplace]
      split at hs <;> try contradiction
      obtain rfl := Option.some.inj hs
      rfl
  | finalize =>
      simp only [supervisorStep] at hs ⊢
      rw [hplace]
      split at hs <;> try contradiction
      exact finalize_unheard hs

/-- The dispatcher of the mute manager only ends. -/
theorem notifier_unheard {action : NotifierAction} (hs : notifierStep s action = some t) :
    t.unheard = s.unheard ∨ notifierStep s.unheard action = some t.unheard := by
  cases action with
  | take =>
      simp only [notifierStep] at hs
      split at hs <;> try contradiction
      next hplace =>
      split at hs
      · obtain rfl := Option.some.inj hs
        left
        simp [RuntimeState.unheard, NotifierPlace.idle, hplace]
      · split at hs <;> try contradiction
        next hdone =>
        obtain rfl := Option.some.inj hs
        right
        have hidle : s.unheard.notifier = .waiting := by
          simp [RuntimeState.unheard, NotifierPlace.idle, hplace]
        simp only [notifierStep, hidle]
        exact if_pos hdone
  | notified threw =>
      simp only [notifierStep] at hs
      split at hs <;> try contradiction
      next notification hplace =>
      obtain rfl := Option.some.inj hs
      left
      simp [RuntimeState.unheard, NotifierPlace.idle, hplace]

/-! ## every run -/

/-- **Step lemma**: what a section does apart from the notifications, it does in
the mute manager. -/
theorem step_unheard {a : RuntimeAction} (hs : runtimeStep config s a = some t) :
    t.unheard = s.unheard ∨ runtimeStep config.mute s.unheard a = some t.unheard := by
  cases a with
  | add id factory allocationFails =>
      obtain rfl := Option.some.inj hs
      exact .inr (congrArg some add_unheard.symm)
  | remove handle =>
      obtain rfl := Option.some.inj hs
      exact .inr (congrArg some remove_unheard.symm)
  | fail handle =>
      obtain rfl := Option.some.inj hs
      exact .inr (congrArg some remove_unheard.symm)
  | operate handle call =>
      simp only [runtimeStep] at hs
      split at hs <;> try contradiction
      next hcall =>
      obtain rfl := Option.some.inj hs
      refine .inr ?_
      simp only [runtimeStep, if_neg hcall]
      exact congrArg some admitOperation_unheard.symm
  | operation j action => exact .inr (operation_unheard hs)
  | requestShutdown order =>
      simp only [runtimeStep] at hs
      split at hs <;> try contradiction
      next horder =>
      obtain rfl := Option.some.inj hs
      refine .inr ?_
      have hsame : order.Perm s.unheard.registered := horder
      simp only [runtimeStep, if_pos hsame]
      exact congrArg some requestShutdown_unheard.symm
  | startup w action => exact .inr (startup_unheard hs)
  | supervisor action => exact .inr (supervisor_unheard hs)
  | notifier action =>
      cases notifier_unheard hs with
      | inl hsame => exact .inl hsame
      | inr htake => exact .inr htake
  | session ref action =>
      simp only [runtimeStep] at hs
      split at hs <;> try contradiction
      next hauto =>
      refine .inr ?_
      simp only [runtimeStep, if_pos hauto]
      exact stepSession_unheard hs
  | ownedSession action =>
      simp only [runtimeStep] at hs
      split at hs <;> try contradiction
      next ref session dependencies rest hsup =>
      split at hs <;> try contradiction
      next hauto =>
      obtain ⟨next, hnext, rfl⟩ := Option.map_eq_some_iff.mp hs
      refine .inr ?_
      have hplace : s.unheard.supervisor = s.supervisor := rfl
      simp only [runtimeStep, hplace, hsup, if_pos hauto, hnext]
      rfl

/-- The mute manager goes where the manager goes, apart from the notifications. -/
theorem unheard_simulation (config : RuntimeConfig) :
    Machine.Simulation (runtimeManager config) (runtimeManager config.mute)
      fun s t => t = s.unheard where
  init := rfl
  step s t a s' _ ht hs := by
    subst ht
    refine ⟨s'.unheard, ?_, rfl⟩
    cases step_unheard hs with
    | inl hsame =>
        rw [hsame]
        exact .refl _ _
    | inr hstep => exact .single (a := a) hstep

/-- Whatever becomes of its notifications, the rest of a state is reached without
an observer. -/
theorem unheard_reachable (h : (runtimeManager config).Reachable s) :
    (runtimeManager config.mute).Reachable s.unheard := by
  obtain ⟨t, ht, rfl⟩ := (unheard_simulation config).reachable h
  exact ht

end ByteTurn

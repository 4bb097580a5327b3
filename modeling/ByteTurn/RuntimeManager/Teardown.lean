import ByteTurn.ConversationSession.Settled
import ByteTurn.RuntimeManager.Admission

/-!
# ByteTurn.RuntimeManager.Teardown

How an entry is taken apart.

The supervisor decides over several sections, with every other thread running in
between.  What it has seen stays true: a terminal session stays terminal, a
drained closed timeline stays drained (`Settled.leads`), and an entry in phase
`Retiring` admits nothing ever after (`Incarnation.leads_retiring`).
-/

namespace ByteTurn

namespace Incarnation

variable {d e e' : Entry} {a : Label}

/-! ## the session of an entry -/

theorem requestStop_leads (session : ManagedSession) :
    session.requestStop.config = session.config ∧
      (conversationSession session.config).Leads session.state session.requestStop.state :=
  ⟨rfl, .single (a := .requestStop) rfl⟩

/-- The session of an entry takes steps of its own, and is never replaced. -/
theorem step_session {next : ManagedSession} (hs : step e a = some e')
    (hnext : e'.session = some next) :
    (∃ session, e.session = some session ∧ next.config = session.config ∧
      (conversationSession session.config).Leads session.state next.state) ∨
    (e.session = none ∧ e.startupDone = false ∧
      (conversationSession next.config).Reachable next.state) := by
  have hkept (hsame : e'.session = e.session) :
      ∃ session, e.session = some session ∧ next.config = session.config ∧
        (conversationSession session.config).Leads session.state next.state :=
    ⟨next, hsame ▸ hnext, rfl, .refl _ _⟩
  cases a with
  | stop reason =>
      simp only [step] at hs
      split at hs <;> try contradiction
      obtain rfl := Option.some.inj hs
      unfold Entry.stop at hnext hkept
      split at hnext
      · obtain ⟨session, hsession, rfl⟩ := Option.map_eq_some_iff.mp hnext
        exact .inl ⟨session, hsession, requestStop_leads session⟩
      · exact .inl ⟨next, hnext, rfl, .refl _ _⟩
  | store config dependencies =>
      simp only [step] at hs
      split at hs <;> try contradiction
      next hg =>
      obtain rfl := Option.some.inj hs
      refine .inr ⟨by simpa using hg.2.2, hg.1, ?_⟩
      obtain rfl := Option.some.inj hnext
      split
      · exact (requestStop_leads { config := config }).2
      · exact Machine.Reachable.init _
  | session action =>
      obtain ⟨stepped, hstep, rfl⟩ := Option.map_eq_some_iff.mp hs
      obtain ⟨session, hsession, hmoved⟩ := Option.bind_eq_some_iff.mp hstep
      obtain rfl := Option.some.inj hnext
      obtain ⟨state, hstate, rfl⟩ := Option.map_eq_some_iff.mp hmoved
      exact .inl ⟨session, hsession, rfl, .single hstate⟩
  | conclude =>
      simp only [step] at hs
      split at hs <;> try contradiction
      obtain rfl := Option.some.inj hs
      refine .inl (hkept ?_)
      unfold Entry.conclude
      split <;> rfl
  | release =>
      simp only [step] at hs
      split at hs <;> try contradiction
      obtain rfl := Option.some.inj hs
      contradiction
  | take | lease | leave | finish =>
      simp only [step] at hs
      split at hs <;> try contradiction
      obtain rfl := Option.some.inj hs
      exact .inl (hkept rfl)

theorem reachable_session {handle : SessionHandle} {factory : Option Nat} {session : ManagedSession}
    (h : (machine handle factory).Reachable e) (hsession : e.session = some session) :
    (conversationSession session.config).Reachable session.state := by
  refine Machine.Reachable.rec_inv (P := fun e => ∀ session, e.session = some session →
    (conversationSession session.config).Reachable session.state) (by simp [machine]) ?_ h
    session hsession
  intro d a d' _ ih hs next hnext
  rcases step_session hs hnext with ⟨session, hsession, hconfig, hleads⟩ | ⟨-, -, hfresh⟩
  · rw [hconfig]
    exact (ih session hsession).leads hleads
  · exact hfresh

theorem step_startupDone (hs : step e a = some e') (hdone : e.startupDone = true) :
    e'.startupDone = true := by
  cases a <;> simp only [step] at hs
  case stop reason =>
    split at hs <;> try contradiction
    obtain rfl := Option.some.inj hs
    unfold Entry.stop
    split <;> simp [hdone]
  case conclude =>
    split at hs <;> try contradiction
    obtain rfl := Option.some.inj hs
    unfold Entry.conclude
    split <;> rfl
  case session action =>
    obtain ⟨next, -, rfl⟩ := Option.map_eq_some_iff.mp hs
    exact hdone
  all_goals
    split at hs <;> try contradiction
    obtain rfl := Option.some.inj hs
    exact hdone

/-- Once its startup is over, the session an entry has is the one it had. -/
theorem leads_session {handle : SessionHandle} {factory : Option Nat}
    (hr : (machine handle factory).Reachable d) (h : (machine handle factory).Leads d e)
    (hdone : d.startupDone = true) : ∀ next, e.session = some next →
      ∃ session, d.session = some session ∧ next.config = session.config ∧
        (conversationSession session.config).Leads session.state next.state := by
  refine (Machine.Leads.rec_stable (P := fun e => e.startupDone = true ∧ ∀ next,
    e.session = some next → ∃ session, d.session = some session ∧ next.config = session.config ∧
      (conversationSession session.config).Leads session.state next.state) ?_ hr
    ⟨hdone, fun next hnext => ⟨next, hnext, rfl, .refl _ _⟩⟩ h).2
  intro c a c' _ hp hs
  refine ⟨step_startupDone hs hp.1, fun next hnext => ?_⟩
  rcases step_session hs hnext with ⟨middle, hmiddle, hconfig, hleads⟩ | ⟨-, hstarting, -⟩
  · obtain ⟨session, hsession, hconfig', hleads'⟩ := hp.2 middle hmiddle
    rw [hconfig'] at hleads
    exact ⟨session, hsession, hconfig.trans hconfig', hleads'.trans hleads⟩
  · rw [hp.1] at hstarting
    contradiction

/-! ## the end of an entry -/

/-- An entry in phase `Retiring` stays there. -/
theorem step_retiring (h : Sound e) (hs : step e a = some e') (hp : e.phase = .retiring) :
    e'.phase = .retiring := by
  have hdone := (h.retiring hp).1
  have hsession := (h.retiring hp).2.1
  cases a <;> simp only [step, hp, hsession] at hs
  case stop reason =>
    split at hs <;> try contradiction
    obtain rfl := Option.some.inj hs
    simp [Entry.stop, Entry.acceptsStop, hp]
  all_goals
    try split at hs
    all_goals try contradiction
  all_goals
    try obtain rfl := Option.some.inj hs
    try simp_all [Entry.finish]

theorem leads_retiring {handle : SessionHandle} {factory : Option Nat}
    (hr : (machine handle factory).Reachable d) (h : (machine handle factory).Leads d e)
    (hp : d.phase = .retiring) : e.phase = .retiring :=
  Machine.Leads.rec_stable (P := fun e => e.phase = .retiring)
    (fun _ _ _ hc hp hs => step_retiring (sound_of_reachable hc) hs hp) hr hp h

/-- Without a session there is no bundle: the two are stored together and moved
out together. -/
theorem bundle_of_session {handle : SessionHandle} {factory : Option Nat}
    (h : (machine handle factory).Reachable e) (hnone : e.session = none) :
    e.dependencies = false := by
  refine Machine.Reachable.rec_inv (P := fun e => e.session = none → e.dependencies = false)
    (by simp [machine]) (fun c a c' _ ih hs hnone => ?_) h hnone
  replace hs : step c a = some c' := hs
  cases a with
  | stop reason =>
      simp only [step] at hs
      split at hs <;> try contradiction
      obtain rfl := Option.some.inj hs
      unfold Entry.stop at hnone ⊢
      split at hnone
      · next hacc =>
        rw [if_pos hacc]
        exact ih (Option.map_eq_none_iff.mp hnone)
      · next hacc =>
        rw [if_neg hacc]
        exact ih hnone
  | session action =>
      obtain ⟨next, -, rfl⟩ := Option.map_eq_some_iff.mp hs
      contradiction
  | store config dependencies =>
      simp only [step] at hs
      split at hs <;> try contradiction
      obtain rfl := Option.some.inj hs
      contradiction
  | conclude =>
      simp only [step] at hs
      split at hs <;> try contradiction
      obtain rfl := Option.some.inj hs
      unfold Entry.conclude at hnone ⊢
      split at hnone
      · next hstop =>
        rw [if_pos hstop]
        exact ih hnone
      · next hstop =>
        rw [if_neg hstop]
        exact ih hnone
  | release =>
      simp only [step] at hs
      split at hs <;> try contradiction
      obtain rfl := Option.some.inj hs
      rfl
  | take | lease | leave | finish =>
      simp only [step] at hs
      split at hs <;> try contradiction
      obtain rfl := Option.some.inj hs
      exact ih hnone

end Incarnation

open Incarnation

variable {config : RuntimeConfig} {s t : RuntimeState} {ref j w : Nat} {e : Entry} {past : List Entry}

/-! ## what other threads leave alone -/

/-- Where the supervisor is and which operations are in progress. -/
structure SameScene (s t : RuntimeState) : Prop where
  supervisor : t.supervisor = s.supervisor
  operations : t.operations = s.operations

theorem SamePlaces.scene (h : SamePlaces s t) : SameScene s t := ⟨h.supervisor, h.operations⟩

theorem SameScene.trans {r : RuntimeState} (h₁ : SameScene s t) (h₂ : SameScene t r) :
    SameScene s r :=
  ⟨h₂.supervisor.trans h₁.supervisor, h₂.operations.trans h₁.operations⟩

theorem stopEntry_scene {reason : SessionOutcome} :
    SameScene s (s.stopEntry config ref reason) :=
  ⟨stopEntry_places.supervisor, stopEntry_places.operations⟩

theorem remove_scene {handle : SessionHandle} {reason : SessionOutcome} :
    SameScene s (s.remove config handle reason).1 := by
  unfold RuntimeState.remove
  split
  · exact ⟨rfl, rfl⟩
  · split
    · exact ⟨rfl, rfl⟩
    · split
      · exact ⟨rfl, rfl⟩
      · exact stopEntry_scene

theorem requestShutdown_scene (order : List Nat) : SameScene s (s.requestShutdown config order) := by
  unfold RuntimeState.requestShutdown
  split
  · exact ⟨rfl, rfl⟩
  · refine SameScene.trans (t := { s with counters := { s.counters with lifecycle := .draining } })
      ⟨rfl, rfl⟩ ?_
    generalize { s with counters := { s.counters with lifecycle := .draining } } = t
    induction order generalizing t with
    | nil => exact ⟨rfl, rfl⟩
    | cons ref order ih => exact stopEntry_scene.trans (ih _)

theorem add_scene (id : Bytes) (factory : Option Nat) (allocationFails : Bool) :
    SameScene s (s.add config id factory allocationFails).1 := by
  unfold RuntimeState.add
  split
  · exact ⟨rfl, rfl⟩
  · split
    · dsimp only
      split
      · exact ⟨rfl, rfl⟩
      · refine SameScene.trans ?_ publish_places.scene
        exact ⟨rfl, rfl⟩
    · exact ⟨rfl, rfl⟩

theorem stepSession_scene {action : SessionAction} (hs : s.stepSession ref action = some t) :
    SameScene s t := by
  obtain ⟨-, -, -, -, rfl⟩ := stepSession_some hs
  exact ⟨rfl, rfl⟩

theorem startup_scene {action : StartupAction} (hs : startupStep config s w action = some t) :
    SameScene s t := by
  cases action with
  | take =>
      simp only [startupStep] at hs
      split at hs <;> try contradiction
      unfold RuntimeState.takePending at hs
      split at hs
      · split at hs <;> try contradiction
        obtain rfl := Option.some.inj hs
        exact ⟨rfl, rfl⟩
      · obtain ⟨e, -, rfl⟩ := Option.map_eq_some_iff.mp hs
        dsimp only
        split <;> exact ⟨rfl, rfl⟩
  | made sessionConfig dependencies =>
      simp only [startupStep] at hs
      split at hs <;> try contradiction
      split at hs <;> try contradiction
      split at hs <;> try contradiction
      obtain rfl := Option.some.inj hs
      exact ⟨rfl, rfl⟩
  | threw =>
      simp only [startupStep] at hs
      split at hs <;> try contradiction
      obtain rfl := Option.some.inj hs
      exact ⟨rfl, rfl⟩
  | store | handle =>
      simp only [startupStep] at hs
      split at hs <;> try contradiction
      obtain ⟨e, -, rfl⟩ := Option.map_eq_some_iff.mp hs
      exact ⟨rfl, rfl⟩
  | callStart =>
      simp only [startupStep] at hs
      split at hs <;> try contradiction
      obtain ⟨session, -, hs⟩ := Option.bind_eq_some_iff.mp hs
      obtain ⟨r, hr, rfl⟩ := Option.map_eq_some_iff.mp hs
      exact (stepSession_scene hr).trans ⟨rfl, rfl⟩
  | startReturned =>
      simp only [startupStep] at hs
      split at hs <;> try contradiction
      obtain ⟨session, -, hs⟩ := Option.bind_eq_some_iff.mp hs
      split at hs <;> try contradiction
      obtain ⟨r, hr, rfl⟩ := Option.map_eq_some_iff.mp hs
      exact (stepSession_scene hr).trans ⟨rfl, rfl⟩
  | conclude =>
      simp only [startupStep] at hs
      split at hs <;> try contradiction
      next ref failed hw =>
      have hfailed : SameScene s (if failed then s.stopEntry config ref .startupFailed else s) := by
        split
        · exact stopEntry_scene
        · exact ⟨rfl, rfl⟩
      unfold RuntimeState.concludeStartup at hs
      obtain ⟨e, -, rfl⟩ := Option.map_eq_some_iff.mp hs
      dsimp only
      split
      · exact hfailed.trans ⟨rfl, rfl⟩
      · refine SameScene.trans ?_ publish_places.scene
        exact hfailed.trans ⟨rfl, rfl⟩

/-! ## what the supervisor has observed -/

/-- The session of a settled startup in `t` is the one of `s`, further on. -/
theorem EntriesPlaced.session_since (h : EntriesPlaced s.entries t) (he : s.entries[ref]? = some e)
    (hdone : e.startupDone = true) {next : ManagedSession} (hnext : t.sessionOf ref = some next) :
    ∃ session, s.sessionOf ref = some session ∧ next.config = session.config ∧
      (conversationSession session.config).Reachable session.state ∧
      (conversationSession session.config).Leads session.state next.state := by
  obtain ⟨e', he', hsome⟩ := sessionOf_some hnext
  obtain ⟨factory, hreach, hleads⟩ := (h.live.each ref e' he').since e he
  obtain ⟨session, hsession, hconfig, hrun⟩ := leads_session hreach hleads hdone next hsome
  refine ⟨session, ?_, hconfig, reachable_session hreach hsession, hrun⟩
  rw [RuntimeState.sessionOf, he, Option.bind_some, hsession]

/-- The supervisor has seen the session of the entry end. -/
def VisitStage.seenEnd : VisitStage → Bool
  | .reporting _ | .flushing | .checking => true
  | _ => false

/-- What the supervisor knows of the session it examines. -/
structure Known (stage : VisitStage) (session : ManagedSession) : Prop where
  terminal : stage.seenEnd = true → session.state.lifecycle.terminal = true
  settled : stage = .checking → Settled session.state

/-- Every fact the supervisor has observed still holds. -/
structure Observed (s : RuntimeState) : Prop where
  visiting : ∀ (ref : Nat) (stage : VisitStage) (rest : List Nat) (session : ManagedSession),
    s.supervisor = .visiting ref stage rest → s.sessionOf ref = some session → Known stage session
  owned : ∀ (ref : Nat) (session : ManagedSession) (dependencies : Bool) (rest : List Nat),
    s.supervisor = .visiting ref (.destroying (some session) dependencies) rest →
    (conversationSession session.config).Reachable session.state ∧ Settled session.state

theorem Observed.init (config : RuntimeConfig) : Observed (runtimeManager config).init := by
  constructor <;> simp [runtimeManager]

/-- What is known stays known while other threads run. -/
theorem Observed.kept (h : Observed s) (hp : EntriesPlaced past s) (ht : EntriesPlaced s.entries t)
    {stage : VisitStage} {rest : List Nat} (hsup : s.supervisor = .visiting ref stage rest)
    {next : ManagedSession} (hnext : t.sessionOf ref = some next) : Known stage next := by
  obtain ⟨e, he, hok⟩ := hp.scanned.visiting ref stage rest hsup
  obtain ⟨session, hsession, hconfig, hreach, hleads⟩ := ht.session_since he hok.done hnext
  have hknown := h.visiting ref stage rest session hsup hsession
  exact ⟨fun hseen => terminal_leads hreach hleads (hknown.terminal hseen),
    fun hchecking => (hknown.settled hchecking).leads hreach hleads⟩

theorem Observed.undisturbed (h : Observed s) (hp : EntriesPlaced past s) (ht : EntriesPlaced s.entries t)
    (hsame : t.supervisor = s.supervisor) : Observed t where
  visiting := fun _ _ _ _ hsup hnext => h.kept hp ht (hsame ▸ hsup) hnext
  owned := fun ref session dependencies rest hsup =>
    h.owned ref session dependencies rest (hsame ▸ hsup)

/-- The supervisor is with no entry. -/
theorem Observed.of_idle (hsup : ∀ ref stage rest, s.supervisor ≠ .visiting ref stage rest) :
    Observed s :=
  ⟨fun ref stage rest _ h _ => absurd h (hsup ref stage rest),
    fun ref _ _ rest h => absurd h (hsup ref _ rest)⟩

/-- The supervisor is with an entry whose session it has not moved out. -/
theorem Observed.of_stage {stage : VisitStage} {rest : List Nat}
    (hsup : s.supervisor = .visiting ref stage rest)
    (howned : ∀ session dependencies, stage ≠ .destroying (some session) dependencies)
    (hknown : ∀ session, s.sessionOf ref = some session → Known stage session) : Observed s where
  visiting := fun ref' stage' rest' session hsup' hsession => by
    rw [hsup] at hsup'
    cases hsup'
    exact hknown session hsession
  owned := fun ref' session dependencies rest' hsup' => by
    rw [hsup] at hsup'
    cases hsup'
    exact absurd rfl (howned session dependencies)

/-- A stage at which nothing has been seen. -/
theorem Known.of_unseen {stage : VisitStage} (h : stage.seenEnd = false) (session : ManagedSession) :
    Known stage session :=
  ⟨fun hseen => by rw [h] at hseen; contradiction, fun heq => by rw [heq] at h; contradiction⟩

theorem report_supervisor {lifecycle : SessionLifecycle} {r : RuntimeState}
    (hr : s.report config ref lifecycle = some r) : SameScene s r := by
  obtain ⟨e, -, rfl⟩ := Option.map_eq_some_iff.mp hr
  split
  · exact stopEntry_scene
  · split
    · exact ⟨rfl, rfl⟩
    · exact stopEntry_scene

theorem Observed.supervise {action : SupervisorAction} (h : Observed s) (hp : EntriesPlaced past s)
    (ht : EntriesPlaced s.entries t) (hs : supervisorStep config s action = some t) : Observed t := by
  cases action with
  | collect order =>
      simp only [supervisorStep] at hs
      split at hs <;> try contradiction
      unfold RuntimeState.collect at hs
      split at hs
      · obtain rfl := Option.some.inj hs
        exact .of_idle (by simp)
      · split at hs <;> try contradiction
        obtain rfl := Option.some.inj hs
        exact .of_idle (by simp)
  | visit =>
      simp only [supervisorStep] at hs
      split at hs <;> try contradiction
      · obtain rfl := Option.some.inj hs
        exact .of_idle (by simp)
      · next ref rest hsup =>
        obtain ⟨e, he, rfl⟩ := Option.map_eq_some_iff.mp hs
        split
        · refine .of_stage rfl (by split <;> simp) fun session hsession => ?_
          -- an entry without a session is checked without one
          have hsome : e.session.isSome = true := by
            obtain ⟨d, hd, hd'⟩ := sessionOf_some hsession
            obtain rfl := Option.some.inj (hd.symm.trans he)
            rw [hd']; rfl
          rw [if_pos hsome]
          exact .of_unseen rfl session
        · exact .of_idle (by simp)
  | observe =>
      simp only [supervisorStep] at hs
      split at hs <;> try contradiction
      next ref rest hsup =>
      obtain ⟨session, hsession, rfl⟩ := Option.map_eq_some_iff.mp hs
      split
      · next hterm =>
        refine .of_stage rfl (by simp) fun session' hsession' => ?_
        obtain rfl := Option.some.inj (hsession.symm.trans hsession')
        exact ⟨fun _ => hterm, by simp⟩
      · exact .of_idle (by simp)
  | report =>
      simp only [supervisorStep] at hs
      split at hs <;> try contradiction
      next ref lifecycle rest hsup =>
      obtain ⟨r, hr, rfl⟩ := Option.map_eq_some_iff.mp hs
      refine .of_stage rfl (by simp) fun session hsession => ?_
      have hknown := h.kept hp ht hsup hsession
      exact ⟨fun _ => hknown.terminal rfl, by simp⟩
  | flush =>
      simp only [supervisorStep] at hs
      split at hs <;> try contradiction
      next ref rest hsup =>
      obtain ⟨session, hsession, rfl⟩ := Option.map_eq_some_iff.mp hs
      have hknown := h.visiting ref _ rest session hsup hsession
      split
      · next hflushed =>
        refine .of_stage rfl (by simp) fun session' hsession' => ?_
        obtain rfl := Option.some.inj (hsession.symm.trans hsession')
        have hterm := hknown.terminal rfl
        exact ⟨fun _ => hterm, fun _ => ⟨hterm, of_decide_eq_true hflushed⟩⟩
      · exact .of_idle (by simp)
  | check =>
      simp only [supervisorStep] at hs
      split at hs <;> try contradiction
      next ref rest hsup =>
      obtain ⟨e, he, rfl⟩ := Option.map_eq_some_iff.mp hs
      split
      · exact .of_idle (by simp)
      · constructor
        · intro ref' stage rest' session hsup' _
          cases hsup'
          exact .of_unseen rfl session
        · intro ref' session dependencies rest' hsup'
          simp only [SupervisorPlace.visiting.injEq, VisitStage.destroying.injEq] at hsup'
          obtain ⟨rfl, ⟨hsession, -⟩, rfl⟩ := hsup'
          obtain ⟨factory, hreach⟩ := (hp.live.each ref e he).reachable
          refine ⟨reachable_session hreach hsession, (h.visiting ref _ rest session hsup ?_).settled rfl⟩
          rw [RuntimeState.sessionOf, he, Option.bind_some, hsession]
  | destroy | releaseDependencies =>
      simp only [supervisorStep] at hs
      split at hs <;> try contradiction
      obtain rfl := Option.some.inj hs
      exact .of_stage rfl (by simp) fun session _ => .of_unseen rfl session
  | finalize =>
      simp only [supervisorStep] at hs
      split at hs <;> try contradiction
      next ref rest hsup =>
      obtain ⟨e, he, rfl⟩ := Option.map_eq_some_iff.mp hs
      refine .of_idle fun ref' stage rest' habsurd => ?_
      rw [publish_places.supervisor] at habsurd
      contradiction
  | wake =>
      simp only [supervisorStep] at hs
      split at hs <;> try contradiction
      obtain rfl := Option.some.inj hs
      exact .of_idle (by simp)

theorem operation_supervisor {action : OperationAction}
    (hs : operationStep config s j action = some t) : t.supervisor = s.supervisor := by
  cases action with
  | enter =>
      simp only [operationStep] at hs
      split at hs <;> try contradiction
      split at hs <;> try contradiction
      split at hs
      · obtain ⟨session, -, hs⟩ := Option.bind_eq_some_iff.mp hs
        obtain ⟨r, hr, rfl⟩ := Option.map_eq_some_iff.mp hs
        exact (stepSession_scene hr).supervisor
      · obtain rfl := Option.some.inj hs
        rfl
  | leave i threw =>
      simp only [operationStep] at hs
      split at hs <;> try contradiction
      split at hs <;> try contradiction
      split at hs <;> try contradiction
      obtain ⟨r, hr, rfl⟩ := Option.map_eq_some_iff.mp hs
      exact (stepSession_scene hr).supervisor
  | report =>
      simp only [operationStep] at hs
      split at hs <;> try contradiction
      split at hs <;> try contradiction
      obtain rfl := Option.some.inj hs
      exact remove_scene.supervisor
  | finish =>
      simp only [operationStep] at hs
      split at hs <;> try contradiction
      split at hs <;> try contradiction
      obtain rfl := Option.some.inj hs
      rfl

theorem admitOperation_supervisor {handle : SessionHandle} {call : SessionCall} :
    (s.admitOperation config handle call).1.supervisor = s.supervisor := by
  unfold RuntimeState.admitOperation
  split
  · rfl
  · split <;> rfl

/-- **Step lemma**: what the supervisor has observed survives every section of
every thread. -/
theorem Observed.step {a : RuntimeAction} (h : Observed s) (hp : EntriesPlaced past s)
    (ht : EntriesPlaced s.entries t) (hs : runtimeStep config s a = some t) : Observed t := by
  cases a with
  | add id factory allocationFails =>
      obtain rfl := Option.some.inj hs
      exact h.undisturbed hp ht (add_scene id factory allocationFails).supervisor
  | remove handle | fail handle =>
      obtain rfl := Option.some.inj hs
      exact h.undisturbed hp ht remove_scene.supervisor
  | operate handle call =>
      simp only [runtimeStep] at hs
      split at hs <;> try contradiction
      obtain rfl := Option.some.inj hs
      exact h.undisturbed hp ht admitOperation_supervisor
  | operation j action => exact h.undisturbed hp ht (operation_supervisor hs)
  | requestShutdown order =>
      simp only [runtimeStep] at hs
      split at hs <;> try contradiction
      obtain rfl := Option.some.inj hs
      exact h.undisturbed hp ht (requestShutdown_scene order).supervisor
  | startup w action => exact h.undisturbed hp ht (startup_scene hs).supervisor
  | supervisor action => exact h.supervise hp ht hs
  | notifier action => exact h.undisturbed hp ht (notifier_places hs).supervisor
  | session ref action =>
      simp only [runtimeStep] at hs
      split at hs <;> try contradiction
      exact h.undisturbed hp ht (stepSession_scene hs).supervisor
  | ownedSession action =>
      simp only [runtimeStep] at hs
      split at hs <;> try contradiction
      next ref session dependencies rest hsup =>
      split at hs <;> try contradiction
      obtain ⟨next, hnext, rfl⟩ := Option.map_eq_some_iff.mp hs
      obtain ⟨hreach, hsettled⟩ := h.owned ref session dependencies rest hsup
      obtain ⟨state, hstate, rfl⟩ := Option.map_eq_some_iff.mp hnext
      constructor
      · intro ref' stage rest' session' hsup' _
        cases hsup'
        exact .of_unseen rfl session'
      · intro ref' session' dependencies' rest' hsup'
        cases hsup'
        exact ⟨hreach.step (a := action) hstate, hsettled.leads hreach (.single hstate)⟩

theorem observed_of_reachable (h : (runtimeManager config).Reachable s) : Observed s :=
  Machine.Reachable.rec_inv (Observed.init config) (fun _ _ _ hr ho hs =>
    ho.step (entriesPlaced_of_reachable hr) (entriesPlaced_leads hr (.single hs)) hs) h

/-! ## operations and the entries they run on -/

/-- Every operation in progress was admitted with the handle of its entry. -/
def Routed (s : RuntimeState) : Prop :=
  ∀ op ∈ s.operations, ∃ e, s.entries[op.ref]? = some e ∧ e.handle.id = op.handle.id ∧
    e.handle.generation = op.handle.generation

theorem Incarnation.leads_handle {d e : Entry} {handle : SessionHandle} {factory : Option Nat}
    (hr : (machine handle factory).Reachable d) (h : (machine handle factory).Leads d e) :
    e.handle = d.handle :=
  Machine.Leads.rec_stable (P := fun e => e.handle = d.handle)
    (fun _ _ _ _ hp hs => (step_handle hs).trans hp) hr rfl h

/-- An entry stays where it is and keeps its handle. -/
theorem EntriesPlaced.entry_since (h : EntriesPlaced s.entries t) (he : s.entries[ref]? = some e) :
    ∃ factory e', t.entries[ref]? = some e' ∧ e'.handle = e.handle ∧
      (machine e.handle factory).Reachable e ∧ (machine e.handle factory).Leads e e' := by
  have hlt := (List.getElem?_eq_some_iff.mp he).1
  have hgrown := h.live.grown
  have hsome : t.entries[ref]? = some (t.entries.get ⟨ref, by omega⟩) := List.getElem?_eq_getElem _
  obtain ⟨factory, hreach, hleads⟩ := (h.live.each ref _ hsome).since e he
  exact ⟨factory, _, hsome, leads_handle hreach hleads, hreach, hleads⟩

/-- The operations of `t` are operations of `s`, perhaps at another stage. -/
theorem Routed.of_old (h : Routed s) (ht : EntriesPlaced s.entries t)
    (hold : ∀ op' ∈ t.operations, ∃ op ∈ s.operations, op'.ref = op.ref ∧ op'.handle = op.handle) :
    Routed t := by
  intro op' hop'
  obtain ⟨op, hop, href, hhandle⟩ := hold op' hop'
  obtain ⟨e, he, hid, hgeneration⟩ := h op hop
  obtain ⟨-, e', he', hsame, -⟩ := ht.entry_since he
  exact ⟨e', by rw [href, he'], by rw [hsame, hhandle, hid], by rw [hsame, hhandle, hgeneration]⟩

theorem Routed.undisturbed (h : Routed s) (ht : EntriesPlaced s.entries t)
    (hsame : t.operations = s.operations) : Routed t :=
  h.of_old ht fun op hop => ⟨op, hsame ▸ hop, rfl, rfl⟩

theorem setStage_old {stage : OperationStage} {op' : Operation}
    (hop' : op' ∈ (s.setStage j stage).operations) :
    ∃ op ∈ s.operations, op'.ref = op.ref ∧ op'.handle = op.handle := by
  obtain ⟨k, hk⟩ := List.mem_iff_getElem?.mp hop'
  rw [RuntimeState.setStage, List.getElem?_modify] at hk
  obtain ⟨op, hop, rfl⟩ := Option.map_eq_some_iff.mp hk
  refine ⟨op, List.mem_of_getElem? hop, ?_⟩
  split <;> exact ⟨rfl, rfl⟩

theorem operation_old {action : OperationAction} (hs : operationStep config s j action = some t) :
    ∀ op' ∈ t.operations, ∃ op ∈ s.operations, op'.ref = op.ref ∧ op'.handle = op.handle := by
  intro op' hop'
  cases action with
  | enter =>
      simp only [operationStep] at hs
      split at hs <;> try contradiction
      split at hs <;> try contradiction
      split at hs
      · obtain ⟨session, -, hs⟩ := Option.bind_eq_some_iff.mp hs
        obtain ⟨r, hr, rfl⟩ := Option.map_eq_some_iff.mp hs
        obtain ⟨op, hop, hsame⟩ := setStage_old hop'
        exact ⟨op, (stepSession_scene hr).operations ▸ hop, hsame⟩
      · obtain rfl := Option.some.inj hs
        exact setStage_old hop'
  | leave i threw =>
      simp only [operationStep] at hs
      split at hs <;> try contradiction
      split at hs <;> try contradiction
      split at hs <;> try contradiction
      obtain ⟨r, hr, rfl⟩ := Option.map_eq_some_iff.mp hs
      obtain ⟨op, hop, hsame⟩ := setStage_old hop'
      exact ⟨op, (stepSession_scene hr).operations ▸ hop, hsame⟩
  | report =>
      simp only [operationStep] at hs
      split at hs <;> try contradiction
      split at hs <;> try contradiction
      obtain rfl := Option.some.inj hs
      obtain ⟨op, hop, hsame⟩ := setStage_old hop'
      exact ⟨op, remove_scene.operations ▸ hop, hsame⟩
  | finish =>
      simp only [operationStep] at hs
      split at hs <;> try contradiction
      split at hs <;> try contradiction
      obtain rfl := Option.some.inj hs
      exact ⟨op', List.mem_of_mem_eraseIdx hop', rfl, rfl⟩

theorem supervisor_operations {action : SupervisorAction}
    (hs : supervisorStep config s action = some t) : t.operations = s.operations := by
  cases action with
  | collect order =>
      simp only [supervisorStep] at hs
      split at hs <;> try contradiction
      unfold RuntimeState.collect at hs
      split at hs
      · obtain rfl := Option.some.inj hs
        rfl
      · split at hs <;> try contradiction
        obtain rfl := Option.some.inj hs
        rfl
  | visit =>
      simp only [supervisorStep] at hs
      split at hs <;> try contradiction
      · obtain rfl := Option.some.inj hs
        rfl
      · obtain ⟨e, -, rfl⟩ := Option.map_eq_some_iff.mp hs
        split <;> rfl
  | observe | flush =>
      simp only [supervisorStep] at hs
      split at hs <;> try contradiction
      obtain ⟨session, -, rfl⟩ := Option.map_eq_some_iff.mp hs
      split <;> rfl
  | report =>
      simp only [supervisorStep] at hs
      split at hs <;> try contradiction
      obtain ⟨r, hr, rfl⟩ := Option.map_eq_some_iff.mp hs
      exact (report_supervisor hr).operations
  | check =>
      simp only [supervisorStep] at hs
      split at hs <;> try contradiction
      obtain ⟨e, -, rfl⟩ := Option.map_eq_some_iff.mp hs
      split <;> rfl
  | destroy | releaseDependencies | wake =>
      simp only [supervisorStep] at hs
      split at hs <;> try contradiction
      obtain rfl := Option.some.inj hs
      rfl
  | finalize =>
      simp only [supervisorStep] at hs
      split at hs <;> try contradiction
      obtain ⟨e, -, rfl⟩ := Option.map_eq_some_iff.mp hs
      exact publish_places.operations

theorem Routed.admitOperation {handle : SessionHandle} {call : SessionCall} (h : Routed s)
    (hp : EntriesPlaced past s) (ht : EntriesPlaced s.entries (s.admitOperation config handle call).1) :
    Routed (s.admitOperation config handle call).1 := by
  revert ht
  unfold RuntimeState.admitOperation
  split
  · exact fun _ => h
  · next ref e hmatching =>
    split
    · intro ht op hop
      obtain ⟨hlookup, he, -, hgeneration⟩ := matching_some hmatching
      obtain ⟨d, hd, hid⟩ := hp.scanned.keyed _ _ hlookup
      obtain rfl := Option.some.inj (hd.symm.trans he)
      cases List.mem_append.mp hop with
      | inl hold =>
          obtain ⟨c, hc, hids⟩ := h op hold
          obtain ⟨-, c', hc', hsame, -⟩ := ht.entry_since hc
          exact ⟨c', hc', hsame ▸ hids⟩
      | inr hnew =>
          rw [List.mem_singleton.mp hnew]
          obtain ⟨-, d', hd', hsame, -⟩ := ht.entry_since hd
          exact ⟨d', hd', hsame ▸ ⟨hid, hgeneration⟩⟩
    · exact fun _ => h

theorem Routed.step {a : RuntimeAction} (h : Routed s) (hp : EntriesPlaced past s)
    (ht : EntriesPlaced s.entries t) (hs : runtimeStep config s a = some t) : Routed t := by
  cases a with
  | add id factory allocationFails =>
      obtain rfl := Option.some.inj hs
      exact h.undisturbed ht (add_scene id factory allocationFails).operations
  | remove handle | fail handle =>
      obtain rfl := Option.some.inj hs
      exact h.undisturbed ht remove_scene.operations
  | operate handle call =>
      simp only [runtimeStep] at hs
      split at hs <;> try contradiction
      obtain rfl := Option.some.inj hs
      exact h.admitOperation hp ht
  | operation j action => exact h.of_old ht (operation_old hs)
  | requestShutdown order =>
      simp only [runtimeStep] at hs
      split at hs <;> try contradiction
      obtain rfl := Option.some.inj hs
      exact h.undisturbed ht (requestShutdown_scene order).operations
  | startup w action => exact h.undisturbed ht (startup_scene hs).operations
  | supervisor action => exact h.undisturbed ht (supervisor_operations hs)
  | notifier action => exact h.undisturbed ht (notifier_places hs).operations
  | session ref action =>
      simp only [runtimeStep] at hs
      split at hs <;> try contradiction
      exact h.undisturbed ht (stepSession_scene hs).operations
  | ownedSession action =>
      simp only [runtimeStep] at hs
      split at hs <;> try contradiction
      split at hs <;> try contradiction
      obtain ⟨next, -, rfl⟩ := Option.map_eq_some_iff.mp hs
      exact h.undisturbed ht rfl

theorem routed_of_reachable (h : (runtimeManager config).Reachable s) : Routed s :=
  Machine.Reachable.rec_inv (P := Routed) (fun op hop => by simp [runtimeManager] at hop)
    (fun _ _ _ hr hp hs => hp.step (entriesPlaced_of_reachable hr) (entriesPlaced_leads hr (.single hs)) hs) h

/-! ## teardown -/

/-- Nothing of the entry `ref` is left: no session, no bundle, no operation, and
no thread that holds either. -/
structure Dismantled (s : RuntimeState) (ref : Nat) : Prop where
  entry : ∃ e, s.entries[ref]? = some e ∧ e.session = none ∧ e.dependencies = false
  workers : ∀ place ∈ s.workers, place.ref ≠ some ref
  operations : ∀ op ∈ s.operations, op.ref ≠ ref

/-- An entry in phase `Retiring` is dismantled, but for what the supervisor holds. -/
theorem EntriesPlaced.dismantled (h : EntriesPlaced past s) (he : s.entries[ref]? = some e)
    (hphase : e.phase = .retiring) : Dismantled s ref := by
  obtain ⟨hdone, hsession, hbundle, hidle⟩ := (h.live.each ref e he).sound.retiring hphase
  refine ⟨⟨e, he, hsession, hbundle⟩, fun place hplace href => ?_, fun op hop href => ?_⟩
  · obtain ⟨w, hw⟩ := List.mem_iff_getElem?.mp hplace
    obtain ⟨d, hd, hok⟩ := h.held.holds w place ref hw href
    obtain rfl := Option.some.inj (hd.symm.trans he)
    exact absurd hdone (by simp [hok.notDone])
  · have hcount := h.leased.count ref e he
    rw [hidle, eq_comm, List.countP_eq_zero] at hcount
    exact hcount op hop (by simpa using href)

/-- What a manager promises when it takes an entry apart. -/
structure TeardownContract (config : RuntimeConfig) (s : RuntimeState) : Prop where
  /-- Before `owned.reset()`: no operation is or ever will be admitted, the session
  has ended, and its closed timeline has delivered everything. -/
  destroyed : ∀ ref owned dependencies rest,
    s.supervisor = .visiting ref (.destroying owned dependencies) rest →
    (∃ e, s.entries[ref]? = some e ∧ e.operations = 0) ∧
    (∀ t, (runtimeManager config).Leads s t → ∀ op ∈ t.operations, op.ref ≠ ref) ∧
    ∀ session, owned = some session → session.state.lifecycle.terminal = true ∧
      session.state.timeline.closed = true ∧
      session.state.timeline.delivered = session.state.timeline.notified ∧
      session.state.calls = []
  /-- Before `dependencies.reset()` the session is gone, and so is its entry's. -/
  released : ∀ ref dependencies rest,
    s.supervisor = .visiting ref (.releasing dependencies) rest → Dismantled s ref
  /-- A worker that stores a session and its bundle overwrites neither. -/
  stored : ∀ (w ref : Nat) (session : ManagedSession) (dependencies : Bool),
    s.workers[w]? = some (.storing ref session dependencies) →
    ∃ e, s.entries[ref]? = some e ∧ e.session = none ∧ e.dependencies = false
  /-- The slot and the id are free only once session and bundle are both gone. -/
  freed : ∀ (ref : Nat) (e : Entry), s.entries[ref]? = some e → s.registry.lookup e.handle.id ≠ some ref →
    Dismantled s ref ∧ ∀ stage rest, s.supervisor ≠ .visiting ref stage rest
  /-- An operation runs on the session of the entry it was admitted on, which is
  still registered under its id and has not been moved out. -/
  operations : ∀ op ∈ s.operations, ∃ e session, s.entries[op.ref]? = some e ∧
    e.session = some session ∧ e.handle.id = op.handle.id ∧
    e.handle.generation = op.handle.generation ∧
    s.registry.lookup op.handle.id = some op.ref ∧
    ∀ stage rest, s.supervisor = .visiting op.ref stage rest → stage.late = false

/-- **Teardown**: in every interleaving of operations, removals, failures,
sessions that stop by themselves and supervisor scans. -/
theorem runtime_teardown (config : RuntimeConfig) (s : RuntimeState)
    (h : (runtimeManager config).Reachable s) : TeardownContract config s := by
  have hplaced := entriesPlaced_of_reachable h
  have hobserved := observed_of_reachable h
  have hlate {ref : Nat} {stage : VisitStage} {rest : List Nat}
      (hsup : s.supervisor = .visiting ref stage rest) (hl : stage.late = true) :
      ∃ e, s.entries[ref]? = some e ∧ e.phase = .retiring ∧ e.retired = [] := by
    obtain ⟨e, he, hok⟩ := hplaced.scanned.visiting ref stage rest hsup
    exact ⟨e, he, hok.late hl⟩
  constructor
  · intro ref owned dependencies rest hsup
    obtain ⟨e, he, hphase, -⟩ := hlate hsup rfl
    refine ⟨⟨e, he, ((hplaced.live.each ref e he).sound.retiring hphase).2.2.2⟩, ?_, ?_⟩
    · intro t hleads
      have hlater := entriesPlaced_leads h hleads
      obtain ⟨factory, e', he', -, hreach, hrun⟩ := hlater.entry_since he
      exact (hlater.dismantled he' (leads_retiring hreach hrun hphase)).operations
    · rintro session rfl
      obtain ⟨hreach, hsettled⟩ := hobserved.owned ref session dependencies rest hsup
      exact ⟨hsettled.terminal, hsettled.quiet hreach⟩
  · intro ref dependencies rest hsup
    obtain ⟨e, he, hphase, -⟩ := hlate hsup rfl
    exact hplaced.dismantled he hphase
  · intro w ref session dependencies hw
    obtain ⟨e, he, hok⟩ := hplaced.held.holds w _ ref hw rfl
    have hnone : e.session = none := by simpa using hok.session.1
    obtain ⟨factory, hreach⟩ := (hplaced.live.each ref e he).reachable
    exact ⟨e, he, hnone, bundle_of_session hreach hnone⟩
  · intro ref e he hfree
    have hretired : e.retired ≠ [] := mt (hplaced.scanned.registered ref e he).mpr hfree
    have hsound := (hplaced.live.each ref e he).sound
    refine ⟨hplaced.dismantled he (hsound.retired hretired).2.1, fun stage rest hsup => ?_⟩
    obtain ⟨d, hd, hok⟩ := hplaced.scanned.visiting ref stage rest hsup
    obtain rfl := Option.some.inj (hd.symm.trans he)
    cases hl : stage.late with
    | true => exact hretired (hok.late hl).2
    | false => exact hok.early hl (hsound.retired hretired).2.1
  · intro op hop
    obtain ⟨e, he, hid, hgeneration⟩ := routed_of_reachable h op hop
    have hsound := (hplaced.live.each op.ref e he).sound
    have hpos : e.operations ≠ 0 := by
      rw [hplaced.leased.count op.ref e he]
      have hcount : 0 < s.operations.countP (·.ref = op.ref) :=
        List.countP_pos_iff.mpr ⟨op, hop, by simp⟩
      omega
    have hphase : e.phase ≠ .retiring := fun hp => hpos (hsound.retiring hp).2.2.2
    obtain ⟨session, hsession⟩ := Option.isSome_iff_exists.mp (hsound.leased hpos)
    refine ⟨e, session, he, hsession, hid, hgeneration, ?_, fun stage rest hsup => ?_⟩
    · rw [← hid]
      exact (hplaced.scanned.registered op.ref e he).mpr (hsound.not_retired hphase)
    · obtain ⟨d, hd, hok⟩ := hplaced.scanned.visiting op.ref stage rest hsup
      obtain rfl := Option.some.inj (hd.symm.trans he)
      by_contra hl
      exact hphase (hok.late (by simpa using hl)).1

/-- A session is started, and removed while an operation is inside it; the
supervisor gets to its destruction once the operation has left. -/
def operationDelaysRetirement : List RuntimeAction :=
  [.add (lit "s") (some 0) false, .startup 0 .take, .startup 0 (.made tightSession true),
   .startup 0 .store, .startup 0 .callStart, .session 0 (.worker .wake),
   .session 0 (.worker (.probed {})), .session 0 (.worker .started),
   .session 0 (.worker (.announce 1 false)), .session 0 (.worker .publishRunning),
   .startup 0 .startReturned, .startup 0 .conclude, .operate ⟨1, lit "s", 1⟩ .pushAudio,
   .operation 0 .enter, .session 0 (.enter 0 2 false), .remove ⟨1, lit "s", 1⟩,
   .session 0 (.worker .stopSeen), .session 0 (.leave 0), .operation 0 (.leave 0 false),
   .operation 0 .finish, .session 0 (.worker .drained), .session 0 (.worker .stopped),
   .session 0 (.worker (.report 3 false)), .session 0 (.worker .close),
   .session 0 (.worker .finish), .session 0 (.timeline .take), .session 0 (.timeline .deliver),
   .session 0 (.timeline (.delivered 0)), .session 0 (.timeline .complete),
   .supervisor (.collect [0]), .supervisor .visit, .supervisor .observe, .supervisor .report,
   .supervisor .flush, .supervisor .check]

theorem operationDelaysRetirement_teardown :
    ∃ s session, (runtimeManager tightRuntime).run (runtimeManager tightRuntime).init
        operationDelaysRetirement = some s ∧
      s.supervisor = .visiting 0 (.destroying (some session) true) [] ∧
      session.state.timeline.notified.length = 1 ∧ TeardownContract tightRuntime s :=
  ⟨_, _, rfl, rfl, rfl, runtime_teardown tightRuntime _ ⟨operationDelaysRetirement, rfl⟩⟩

end ByteTurn

import ByteTurn.RuntimeManager.Sections

/-!
# ByteTurn.RuntimeManager.Admission

What admission keeps to: the two bounds, the identities and the counters.

Only `add` and the supervisor's last section touch the registry and the
counters of admission; every other section is `Quiet`.
-/

namespace ByteTurn

variable {config : RuntimeConfig} {s t r : RuntimeState} {ref j w : Nat} {e : Entry}
  {reason : SessionOutcome} {type : RuntimeNotificationType} {past : List Entry}

/-! ## quiet sections -/

/-- The counters that admission and retirement keep. -/
def RuntimeCounters.tally (c : RuntimeCounters) : List Nat :=
  [c.admitted, c.retired, c.rejected, c.rejectedInvalid, c.rejectedDuplicate, c.rejectedCapacity,
    c.rejectedQueue, c.rejectedDraining, c.rejectedIdentity]

/-- Nothing has been admitted, rejected or retired. -/
structure Quiet (s t : RuntimeState) : Prop where
  registry : t.registry = s.registry
  generation : t.generation = s.generation
  handles : t.entries.map (·.handle) = s.entries.map (·.handle)
  pending : t.pending.Sublist s.pending
  tally : t.counters.tally = s.counters.tally
  invoked : ∀ ref ∈ t.invoked, ref ∈ s.invoked ∨ ref ∈ s.pending

/-- Six things are what admissions look at. -/
theorem Quiet.of_eq (hregistry : t.registry = s.registry) (hgeneration : t.generation = s.generation)
    (hhandles : t.entries.map (·.handle) = s.entries.map (·.handle))
    (hpending : t.pending = s.pending) (htally : t.counters.tally = s.counters.tally)
    (hinvoked : t.invoked = s.invoked) : Quiet s t :=
  ⟨hregistry, hgeneration, hhandles, hpending ▸ List.Sublist.refl _, htally,
    fun _ href => .inl (hinvoked ▸ href)⟩

/-- Doing nothing admits nothing. -/
theorem Quiet.refl (s : RuntimeState) : Quiet s s := .of_eq rfl rfl rfl rfl rfl rfl

/-- Nor do two quiet steps. -/
theorem Quiet.trans (h₁ : Quiet s t) (h₂ : Quiet t r) : Quiet s r where
  registry := h₂.registry.trans h₁.registry
  generation := h₂.generation.trans h₁.generation
  handles := h₂.handles.trans h₁.handles
  pending := h₂.pending.trans h₁.pending
  tally := h₂.tally.trans h₁.tally
  invoked := fun ref href => by
    cases h₂.invoked ref href with
    | inl hold => exact h₁.invoked ref hold
    | inr hqueued => exact .inr (h₁.pending.subset hqueued)

/-- A notification admits nothing. -/
theorem publish_quiet : Quiet s (s.publish config e type) := by
  unfold RuntimeState.publish
  apply Quiet.of_eq <;> grind [RuntimeState.dropNotification, RuntimeState.enqueueNotification,
    RuntimeCounters.tally]

/-- Nor does a change of an entry that keeps its handle. -/
theorem modifyEntry_quiet {f : Entry → Entry} (hf : ∀ e, (f e).handle = e.handle) :
    Quiet s (s.modifyEntry ref f) := by
  refine .of_eq rfl rfl (List.ext_getElem? fun j => ?_) rfl rfl rfl
  rw [List.getElem?_map, List.getElem?_map, RuntimeState.modifyEntry]
  cases he : s.entries[j]? with
  | none => rw [List.getElem?_modify, he]; rfl
  | some e =>
      rw [modify_of he]
      split <;> simp [hf]

/-- Nor does a stop. -/
theorem stopEntry_quiet : Quiet s (s.stopEntry config ref reason) := by
  have hmodify (s : RuntimeState) : Quiet s (s.modifyEntry ref (·.stop reason)) :=
    modifyEntry_quiet fun e => stop_handle e reason
  have hqueue (e : Entry) : Quiet s
      (if e.cancelsReservation then { s with pending := s.pending.erase ref } else s) := by
    split
    · exact ⟨rfl, rfl, rfl, List.erase_sublist, rfl, fun _ => .inl⟩
    · exact .refl s
  unfold RuntimeState.stopEntry
  split
  · exact .refl s
  · next e he =>
    split
    · have hstopped := (hqueue e).trans (hmodify _)
      by_cases hfirst : e.stopRequested = true
      · simp only [hfirst, if_true]
        exact hstopped
      · simp only [hfirst]
        exact hstopped.trans publish_quiet
    · exact .refl s

/-- Nor does a removal. -/
theorem remove_quiet {handle : SessionHandle} : Quiet s (s.remove config handle reason).1 := by
  unfold RuntimeState.remove
  split
  · exact .refl s
  · split
    · exact .refl s
    · split
      · exact .refl s
      · exact stopEntry_quiet

/-- Nor does what a session does by itself. -/
theorem stepSession_quiet {action : SessionAction} (hs : s.stepSession ref action = some t) :
    Quiet s t := by
  obtain ⟨-, -, -, -, rfl⟩ := stepSession_some hs
  exact modifyEntry_quiet fun _ => rfl

/-- Nor does the admission of an operation. -/
theorem admitOperation_quiet {handle : SessionHandle} {call : SessionCall} :
    Quiet s (s.admitOperation config handle call).1 := by
  unfold RuntimeState.admitOperation
  split
  · exact .refl s
  · next ref e hmatching =>
    have hmodify : Quiet s (s.modifyEntry ref fun entry =>
        { entry with operations := entry.operations + 1 }) := modifyEntry_quiet fun _ => rfl
    split
    · exact .of_eq rfl rfl hmodify.handles rfl rfl rfl
    · exact .refl s

/-- Nor does a shutdown. -/
theorem requestShutdown_quiet (order : List Nat) : Quiet s (s.requestShutdown config order) := by
  unfold RuntimeState.requestShutdown
  split
  · exact .refl s
  · refine Quiet.trans (t := { s with counters := { s.counters with lifecycle := .draining } })
      (.of_eq rfl rfl rfl rfl rfl rfl) ?_
    generalize { s with counters := { s.counters with lifecycle := .draining } } = t
    induction order generalizing t with
    | nil => exact .refl t
    | cons ref order ih => exact stopEntry_quiet.trans (ih _)

/-- Nor does a step of an operation. -/
theorem operation_quiet {action : OperationAction} (hs : operationStep config s j action = some t) :
    Quiet s t := by
  have hstage (s : RuntimeState) (stage : OperationStage) : Quiet s (s.setStage j stage) :=
    .of_eq rfl rfl rfl rfl rfl rfl
  cases action with
  | enter =>
      simp only [operationStep] at hs
      split at hs <;> try contradiction
      split at hs <;> try contradiction
      split at hs
      · obtain ⟨session, -, hs⟩ := Option.bind_eq_some_iff.mp hs
        obtain ⟨r, hr, rfl⟩ := Option.map_eq_some_iff.mp hs
        exact (stepSession_quiet hr).trans (hstage r _)
      · obtain rfl := Option.some.inj hs
        exact hstage s _
  | leave i threw =>
      simp only [operationStep] at hs
      split at hs <;> try contradiction
      split at hs <;> try contradiction
      split at hs <;> try contradiction
      obtain ⟨r, hr, rfl⟩ := Option.map_eq_some_iff.mp hs
      exact (stepSession_quiet hr).trans (hstage r _)
  | report =>
      simp only [operationStep] at hs
      split at hs <;> try contradiction
      split at hs <;> try contradiction
      obtain rfl := Option.some.inj hs
      exact remove_quiet.trans (hstage _ _)
  | finish =>
      simp only [operationStep] at hs
      split at hs <;> try contradiction
      next op hop =>
      split at hs <;> try contradiction
      obtain rfl := Option.some.inj hs
      have hmodify : Quiet s (s.modifyEntry op.ref fun entry =>
          { entry with operations := entry.operations - 1 }) := modifyEntry_quiet fun _ => rfl
      exact .of_eq rfl rfl hmodify.handles rfl rfl rfl

/-- Nor does a worker that moves on. -/
theorem setWorker_quiet (place : StartupPlace) : Quiet s (s.setWorker w place) :=
  .of_eq rfl rfl rfl rfl rfl rfl

/-- Nor does a step of a start, but for the one that takes up the incarnation. -/
theorem startup_quiet {action : StartupAction} (hs : startupStep config s w action = some t) :
    Quiet s t := by
  cases action with
  | take =>
      simp only [startupStep] at hs
      split at hs <;> try contradiction
      unfold RuntimeState.takePending at hs
      split at hs
      · split at hs <;> try contradiction
        obtain rfl := Option.some.inj hs
        exact .of_eq rfl rfl rfl rfl rfl rfl
      · next ref rest hpending =>
        obtain ⟨e, -, rfl⟩ := Option.map_eq_some_iff.mp hs
        have htake : Quiet s ({ s with pending := rest }.modifyEntry ref Entry.take) := by
          refine Quiet.trans (t := { s with pending := rest })
            ⟨rfl, rfl, rfl, ?_, rfl, fun _ => .inl⟩ (modifyEntry_quiet fun _ => rfl)
          rw [hpending]
          exact List.sublist_cons_self ref rest
        dsimp only
        split
        · exact htake.trans (setWorker_quiet _)
        · refine { htake with invoked := fun k hk => ?_ }
          cases List.mem_append.mp hk with
          | inl hold => exact .inl hold
          | inr hnew => exact .inr (by rw [hpending, List.mem_singleton.mp hnew]; simp)
  | made sessionConfig dependencies =>
      simp only [startupStep] at hs
      split at hs <;> try contradiction
      split at hs <;> try contradiction
      split at hs <;> try contradiction
      obtain rfl := Option.some.inj hs
      exact setWorker_quiet _
  | threw =>
      simp only [startupStep] at hs
      split at hs <;> try contradiction
      obtain rfl := Option.some.inj hs
      exact setWorker_quiet _
  | store =>
      simp only [startupStep] at hs
      split at hs <;> try contradiction
      next ref session dependencies hw =>
      obtain ⟨e, -, rfl⟩ := Option.map_eq_some_iff.mp hs
      have hmodify : Quiet s (s.modifyEntry ref (·.store session dependencies)) :=
        modifyEntry_quiet fun _ => rfl
      exact hmodify.trans (setWorker_quiet _)
  | callStart =>
      simp only [startupStep] at hs
      split at hs <;> try contradiction
      obtain ⟨session, -, hs⟩ := Option.bind_eq_some_iff.mp hs
      obtain ⟨r, hr, rfl⟩ := Option.map_eq_some_iff.mp hs
      exact (stepSession_quiet hr).trans (setWorker_quiet _)
  | startReturned =>
      simp only [startupStep] at hs
      split at hs <;> try contradiction
      obtain ⟨session, -, hs⟩ := Option.bind_eq_some_iff.mp hs
      split at hs <;> try contradiction
      obtain ⟨r, hr, rfl⟩ := Option.map_eq_some_iff.mp hs
      exact (stepSession_quiet hr).trans (setWorker_quiet _)
  | handle =>
      simp only [startupStep] at hs
      split at hs <;> try contradiction
      obtain ⟨e, -, rfl⟩ := Option.map_eq_some_iff.mp hs
      exact setWorker_quiet _
  | conclude =>
      simp only [startupStep] at hs
      split at hs <;> try contradiction
      next ref failed hw =>
      have hfailed : Quiet s (if failed then s.stopEntry config ref .startupFailed else s) := by
        split
        · exact stopEntry_quiet
        · exact .refl s
      unfold RuntimeState.concludeStartup at hs
      obtain ⟨e, -, rfl⟩ := Option.map_eq_some_iff.mp hs
      have hmodify (s : RuntimeState) : Quiet s (s.modifyEntry ref Entry.conclude) :=
        modifyEntry_quiet fun e => (conclude_same e).1
      have hconcluded := (hfailed.trans (hmodify _)).trans (setWorker_quiet (w := w) .waiting)
      dsimp only
      split
      · exact hconcluded
      · exact hconcluded.trans publish_quiet

/-- Nor does the report of a session. -/
theorem report_quiet {lifecycle : SessionLifecycle} (hs : s.report config ref lifecycle = some t) :
    Quiet s t := by
  obtain ⟨e, -, rfl⟩ := Option.map_eq_some_iff.mp hs
  split
  · exact stopEntry_quiet
  · split
    · exact .refl s
    · exact stopEntry_quiet

/-- The supervisor admits and retires nothing before its last section. -/
theorem supervisor_quiet {action : SupervisorAction}
    (hs : supervisorStep config s action = some t) :
    Quiet s t ∨ ∃ ref rest, action = .finalize ∧ s.supervisor = .visiting ref .finalizing rest ∧
      s.finalize config ref rest = some t := by
  have hplace (s : RuntimeState) (next : SupervisorPlace) : Quiet s { s with supervisor := next } :=
    .of_eq rfl rfl rfl rfl rfl rfl
  cases action with
  | collect order =>
      simp only [supervisorStep] at hs
      split at hs <;> try contradiction
      unfold RuntimeState.collect at hs
      split at hs
      · obtain rfl := Option.some.inj hs
        exact .inl (.of_eq rfl rfl rfl rfl rfl rfl)
      · split at hs <;> try contradiction
        obtain rfl := Option.some.inj hs
        exact .inl (hplace s _)
  | visit =>
      simp only [supervisorStep] at hs
      split at hs <;> try contradiction
      · obtain rfl := Option.some.inj hs
        exact .inl (hplace s _)
      · obtain ⟨e, -, rfl⟩ := Option.map_eq_some_iff.mp hs
        split <;> exact .inl (hplace s _)
  | observe =>
      simp only [supervisorStep] at hs
      split at hs <;> try contradiction
      obtain ⟨session, -, rfl⟩ := Option.map_eq_some_iff.mp hs
      split <;> exact .inl (hplace s _)
  | report =>
      simp only [supervisorStep] at hs
      split at hs <;> try contradiction
      obtain ⟨r, hr, rfl⟩ := Option.map_eq_some_iff.mp hs
      exact .inl ((report_quiet hr).trans (hplace r _))
  | flush =>
      simp only [supervisorStep] at hs
      split at hs <;> try contradiction
      obtain ⟨session, -, rfl⟩ := Option.map_eq_some_iff.mp hs
      split <;> exact .inl (hplace s _)
  | check =>
      simp only [supervisorStep] at hs
      split at hs <;> try contradiction
      next ref rest hsup =>
      obtain ⟨e, -, rfl⟩ := Option.map_eq_some_iff.mp hs
      have hrelease : Quiet s (s.modifyEntry ref Entry.release) := modifyEntry_quiet fun _ => rfl
      split
      · exact .inl (hplace s _)
      · exact .inl (hrelease.trans (hplace _ _))
  | destroy | releaseDependencies | wake =>
      simp only [supervisorStep] at hs
      split at hs <;> try contradiction
      obtain rfl := Option.some.inj hs
      exact .inl (hplace s _)
  | finalize =>
      simp only [supervisorStep] at hs
      split at hs <;> try contradiction
      next ref rest hsup => exact .inr ⟨ref, rest, rfl, hsup, hs⟩

/-- The notifier admits nothing. -/
theorem notifier_quiet {action : NotifierAction} (hs : notifierStep s action = some t) :
    Quiet s t := by
  cases action with
  | take =>
      simp only [notifierStep] at hs
      split at hs <;> try contradiction
      split at hs
      · obtain rfl := Option.some.inj hs
        exact .of_eq rfl rfl rfl rfl rfl rfl
      · split at hs <;> try contradiction
        obtain rfl := Option.some.inj hs
        exact .of_eq rfl rfl rfl rfl rfl rfl
  | notified threw =>
      simp only [notifierStep] at hs
      split at hs <;> try contradiction
      obtain rfl := Option.some.inj hs
      exact .of_eq rfl rfl rfl rfl rfl rfl

/-! ## the invariant -/

/-- The sum of the six per-reason counters. -/
def RuntimeCounters.reasons (c : RuntimeCounters) : Nat :=
  c.rejectedInvalid + c.rejectedDuplicate + c.rejectedCapacity + c.rejectedQueue +
    c.rejectedDraining + c.rejectedIdentity

/-- What admission keeps to. -/
structure Admissions (config : RuntimeConfig) (s : RuntimeState) : Prop where
  slots : s.registry.size ≤ config.maxSessions
  queue : s.pending.length ≤ config.maxPendingStarts
  known : ∀ ref ∈ s.pending, ref < s.entries.length
  increasing : (s.entries.map (·.handle)).Pairwise fun h h' => h.generation < h'.generation
  issued : ∀ h ∈ s.entries.map (·.handle), h.generation < s.generation
  bounded : s.generation ≤ maxUInt64
  admitted : s.counters.admitted = s.counters.retired + s.registry.size
  rejected : s.counters.rejected = s.counters.reasons
  invoked : ∀ ref ∈ s.invoked, ref < s.entries.length

/-- A new runtime has admitted nothing. -/
theorem Admissions.init (config : RuntimeConfig) :
    Admissions config (runtimeManager config).init := by
  constructor <;> simp [runtimeManager, RuntimeCounters.reasons, maxUInt64]

/-- A quiet step makes no incarnation. -/
theorem Quiet.length (h : Quiet s t) : t.entries.length = s.entries.length := by
  have hlength := congrArg List.length h.handles
  rwa [List.length_map, List.length_map] at hlength

/-- A quiet step keeps the account of admissions. -/
theorem Admissions.quiet (h : Admissions config s) (hq : Quiet s t) : Admissions config t := by
  have htally := hq.tally
  simp only [RuntimeCounters.tally, List.cons.injEq, and_true] at htally
  have hlength := hq.length
  have hshorter := hq.pending.length_le
  constructor
  · rw [hq.registry]; exact h.slots
  · exact Nat.le_trans hshorter h.queue
  · intro ref href
    rw [hlength]
    exact h.known ref (hq.pending.subset href)
  · rw [hq.handles]; exact h.increasing
  · rw [hq.handles, hq.generation]; exact h.issued
  · rw [hq.generation]; exact h.bounded
  · rw [hq.registry]
    have hadmitted := h.admitted
    omega
  · have hrejected := h.rejected
    simp only [RuntimeCounters.reasons] at hrejected ⊢
    omega
  · intro ref href
    rw [hlength]
    cases hq.invoked ref href with
    | inl hold => exact h.invoked ref hold
    | inr hqueued => exact h.known ref hqueued

/-- So does a rejection that is counted. -/
theorem Admissions.recordRejection (h : Admissions config s) (status : AdmissionStatus)
    (hstatus : status ≠ .accepted) : Admissions config (s.recordRejection status) := by
  have hrejected := h.rejected
  have hreasons : (s.recordRejection status).counters.rejected =
      (s.recordRejection status).counters.reasons := by
    cases status <;> simp only [RuntimeState.recordRejection, RuntimeCounters.reasons] at hrejected ⊢
    case accepted => contradiction
    all_goals omega
  have hadmitted : (s.recordRejection status).counters.admitted =
      (s.recordRejection status).counters.retired + s.registry.size := by
    cases status <;> exact h.admitted
  exact { h with rejected := hreasons, admitted := hadmitted }

/-- An accepted admission takes the next generation. -/
theorem Admissions.reserve {entry : Entry} (h : Admissions config s)
    (hstatus : s.admissionStatus config entry.handle.id = .accepted)
    (hgeneration : entry.handle.generation = s.generation) :
    Admissions config ({ s with generation := s.generation + 1 }.reserve config entry) := by
  obtain ⟨-, hfree, hslot, hqueue, hidentity⟩ := admissionStatus_accepted hstatus
  have hsize := Table.size_insert_of_none (v := s.entries.length) hfree
  refine Admissions.quiet ?_ publish_quiet
  constructor
  · dsimp only
    omega
  · dsimp only
    rw [List.length_append, List.length_singleton]
    exact hqueue
  · intro ref href
    dsimp only at href ⊢
    rw [List.length_append, List.length_singleton]
    cases List.mem_append.mp href with
    | inl hold =>
        have hknown := h.known ref hold
        omega
    | inr hnew =>
        rw [List.mem_singleton.mp hnew]
        omega
  · dsimp only
    rw [List.map_append, List.pairwise_append]
    refine ⟨h.increasing, List.pairwise_singleton _ _, fun old hold new hnew => ?_⟩
    rw [List.map_singleton, List.mem_singleton] at hnew
    rw [hnew, hgeneration]
    exact h.issued old hold
  · intro handle hmem
    dsimp only at hmem ⊢
    rw [List.map_append, List.map_singleton] at hmem
    cases List.mem_append.mp hmem with
    | inl hold =>
        have hissued := h.issued handle hold
        omega
    | inr hnew =>
        rw [List.mem_singleton.mp hnew, hgeneration]
        omega
  · have hbounded := h.bounded
    dsimp only
    omega
  · have hadmitted := h.admitted
    dsimp only
    omega
  · exact h.rejected
  · intro ref href
    have hinvoked := h.invoked ref href
    dsimp only
    rw [List.length_append]
    omega

/-- `add` keeps the account, whatever it answers. -/
theorem Admissions.add (h : Admissions config s) (id : Bytes) (factory : Option Nat)
    (allocationFails : Bool) : Admissions config (s.add config id factory allocationFails).1 := by
  unfold RuntimeState.add
  split
  · exact h.recordRejection .invalidRequest (by simp)
  · split
    · next hstatus =>
      have hidentity := (admissionStatus_accepted hstatus).2.2.2.2
      dsimp only
      split
      · have hbounded := h.bounded
        exact { h with
          issued := fun handle hmem => Nat.lt_succ_of_lt (h.issued handle hmem)
          bounded := by dsimp only; omega }
      · exact h.reserve hstatus rfl
    · next hstatus => exact h.recordRejection _ hstatus

/-- Erasing a registered entry moves it from the registry to the retired. -/
theorem Admissions.finalize {rest : List Nat} (h : Admissions config s) (hp : EntriesPlaced past s)
    (hsup : s.supervisor = .visiting ref .finalizing rest)
    (hs : s.finalize config ref rest = some t) : Admissions config t := by
  obtain ⟨e, he, rfl⟩ := Option.map_eq_some_iff.mp hs
  obtain ⟨d, hd, hok⟩ := hp.scanned.visiting ref _ rest hsup
  obtain rfl := Option.some.inj (hd.symm.trans he)
  have hslot := (hp.scanned.registered ref d hd).mpr (hok.late rfl).2
  have hsize := Table.size_erase hslot
  have hmodify : Quiet s (s.modifyEntry ref Entry.finish) := modifyEntry_quiet fun _ => rfl
  have hfinished := h.quiet hmodify
  have hslots := h.slots
  have hadmitted := h.admitted
  refine Admissions.quiet ?_ publish_quiet
  exact { hfinished with
    slots := by dsimp only; omega
    admitted := by dsimp only; omega }

/-- Every section but an `add` and the supervisor's last one is quiet. -/
theorem step_quiet {a : RuntimeAction} (hs : runtimeStep config s a = some t) :
    Quiet s t ∨
      (∃ id factory allocationFails, a = .add id factory allocationFails ∧
        t = (s.add config id factory allocationFails).1) ∨
      ∃ ref rest, a = .supervisor .finalize ∧ s.supervisor = .visiting ref .finalizing rest ∧
        s.finalize config ref rest = some t := by
  cases a with
  | add id factory allocationFails =>
      exact .inr (.inl ⟨id, factory, allocationFails, rfl, (Option.some.inj hs).symm⟩)
  | remove handle | fail handle =>
      obtain rfl := Option.some.inj hs
      exact .inl remove_quiet
  | operate handle call =>
      simp only [runtimeStep] at hs
      split at hs <;> try contradiction
      obtain rfl := Option.some.inj hs
      exact .inl admitOperation_quiet
  | operation j action => exact .inl (operation_quiet hs)
  | requestShutdown order =>
      simp only [runtimeStep] at hs
      split at hs <;> try contradiction
      obtain rfl := Option.some.inj hs
      exact .inl (requestShutdown_quiet order)
  | startup w action => exact .inl (startup_quiet hs)
  | supervisor action =>
      cases supervisor_quiet hs with
      | inl hquiet => exact .inl hquiet
      | inr hfinal =>
          obtain ⟨ref, rest, rfl, hsup, hfinalize⟩ := hfinal
          exact .inr (.inr ⟨ref, rest, rfl, hsup, hfinalize⟩)
  | notifier action => exact .inl (notifier_quiet hs)
  | session ref action =>
      simp only [runtimeStep] at hs
      split at hs <;> try contradiction
      exact .inl (stepSession_quiet hs)
  | ownedSession action =>
      simp only [runtimeStep] at hs
      split at hs <;> try contradiction
      split at hs <;> try contradiction
      obtain ⟨next, -, rfl⟩ := Option.map_eq_some_iff.mp hs
      exact .inl (.of_eq rfl rfl rfl rfl rfl rfl)

/-- **Step lemma**: every section of every thread keeps the bounds and the counters. -/
theorem Admissions.step {a : RuntimeAction} (h : Admissions config s) (hp : EntriesPlaced past s)
    (hs : runtimeStep config s a = some t) : Admissions config t := by
  rcases step_quiet hs with hquiet | ⟨id, factory, allocationFails, -, rfl⟩ | hfinal
  · exact h.quiet hquiet
  · exact h.add id factory allocationFails
  · obtain ⟨ref, rest, -, hsup, hfinalize⟩ := hfinal
    exact h.finalize hp hsup hfinalize

/-- The account is right in every reachable state. -/
theorem admissions_of_reachable (h : (runtimeManager config).Reachable s) : Admissions config s :=
  Machine.Reachable.rec_inv (Admissions.init config)
    (fun _ _ _ hr hp hs => hp.step (entriesPlaced_of_reachable hr) hs) h

/-! ## admission -/

/-- `s` with the rejection counters of `c`. -/
def RuntimeState.withRejections (s : RuntimeState) (c : RuntimeCounters) : RuntimeState :=
  { s with counters := { s.counters with
      rejected := c.rejected
      rejectedInvalid := c.rejectedInvalid
      rejectedDuplicate := c.rejectedDuplicate
      rejectedCapacity := c.rejectedCapacity
      rejectedQueue := c.rejectedQueue
      rejectedDraining := c.rejectedDraining
      rejectedIdentity := c.rejectedIdentity } }

/-- A rejection changes the counters only. -/
theorem recordRejection_withRejections (status : AdmissionStatus) :
    s.recordRejection status = s.withRejections (s.recordRejection status).counters := by
  cases status <;> rfl

/-- A rejected `add` records the rejection, and that is all. -/
theorem add_rejected {id : Bytes} {factory : Option Nat} {allocationFails : Bool}
    {admission : SessionAdmission}
    (hadd : s.add config id factory allocationFails = (t, some admission))
    (hrejected : admission.status ≠ .accepted) : t = s.withRejections t.counters := by
  unfold RuntimeState.add at hadd
  split at hadd
  · cases hadd
    exact recordRejection_withRejections _
  · split at hadd
    · dsimp only at hadd
      split at hadd
      · simp at hadd
      · cases hadd
        contradiction
    · cases hadd
      exact recordRejection_withRejections _

/-- What a manager promises about admission. -/
structure AdmissionContract (config : RuntimeConfig) (s : RuntimeState) : Prop where
  slots : s.registry.size ≤ config.maxSessions
  queue : s.pending.length ≤ config.maxPendingStarts
  /-- Every entry is stored under its own id. -/
  keyed : ∀ id ref, s.registry.lookup id = some ref →
    ∃ e, s.entries[ref]? = some e ∧ e.handle.id = id
  /-- The generations of all admissions ever accepted, in their order. -/
  generations : (s.entries.map (·.handle.generation)).Pairwise (· < ·)
  /-- The queue holds the reserved entries, once each. -/
  nodup : s.pending.Nodup
  reserved : ∀ ref, ref ∈ s.pending ↔ ∃ e, s.entries[ref]? = some e ∧ e.phase = .reserved
  unstopped : ∀ ref ∈ s.pending, ∀ e, s.entries[ref]? = some e → e.stopRequested = false
  admitted : s.counters.admitted = s.counters.retired + s.registry.size
  rejected : s.counters.rejected = s.counters.rejectedInvalid + s.counters.rejectedDuplicate +
    s.counters.rejectedCapacity + s.counters.rejectedQueue + s.counters.rejectedDraining +
    s.counters.rejectedIdentity
  /-- Only the factories of accepted admissions have been called. -/
  invoked : ∀ ref ∈ s.invoked, ref < s.entries.length
  /-- A rejected `add` changes nothing but the rejection counters. -/
  rejection : ∀ id factory allocationFails t admission,
    s.add config id factory allocationFails = (t, some admission) →
    admission.status ≠ .accepted → t = s.withRejections t.counters

/-- **Admission**: every reachable state keeps the contract, whatever callers,
workers, supervisor and sessions do, and in whatever order. -/
theorem runtime_admissions (config : RuntimeConfig) (s : RuntimeState)
    (h : (runtimeManager config).Reachable s) : AdmissionContract config s := by
  have hplaced := entriesPlaced_of_reachable h
  have hadmissions := admissions_of_reachable h
  have hincreasing := hadmissions.increasing
  rw [List.pairwise_map] at hincreasing
  exact {
    slots := hadmissions.slots
    queue := hadmissions.queue
    keyed := hplaced.scanned.keyed
    generations := List.pairwise_map.mpr hincreasing
    nodup := hplaced.queued.nodup
    reserved := hplaced.queued.mem_iff
    unstopped := fun ref href e he => by
      obtain ⟨d, hd, hphase⟩ := (hplaced.queued.mem_iff ref).mp href
      obtain rfl := Option.some.inj (hd.symm.trans he)
      exact (hplaced.live.each ref d hd).sound.not_stopped (by simp [hphase]) (by simp [hphase])
    admitted := hadmissions.admitted
    rejected := hadmissions.rejected
    invoked := hadmissions.invoked
    rejection := fun _ _ _ _ _ => add_rejected }

/-- Two slots, and room for one admission in the queue. -/
def tightRuntime : RuntimeConfig where
  maxSessions := 2
  maxPendingStarts := 1
  startupWorkers := 1
  maxSessions_pos := Nat.two_pos
  maxPendingStarts_pos := Nat.one_pos
  startupWorkers_pos := Nat.one_pos
  maxPendingNotifications_pos := Nat.succ_pos 255
  maxSessionIdBytes_pos := Nat.succ_pos 255

/-- The second admission finds the queue full until a worker takes the first;
the third finds every slot taken, and is cancelled before it starts. -/
def queueFull : List RuntimeAction :=
  [.add (lit "a") (some 0) false, .add (lit "b") (some 1) false, .startup 0 .take,
   .add (lit "b") (some 1) false, .add (lit "c") (some 2) false, .remove ⟨1, lit "b", 2⟩]

theorem queueFull_admissions :
    ∃ s, (runtimeManager tightRuntime).run (runtimeManager tightRuntime).init queueFull = some s ∧
      s.counters.rejectedQueue = 1 ∧ s.counters.rejectedCapacity = 1 ∧ s.invoked = [0] ∧
      s.pending = [] ∧ AdmissionContract tightRuntime s :=
  ⟨_, rfl, rfl, rfl, rfl, rfl, runtime_admissions tightRuntime _ ⟨queueFull, rfl⟩⟩

end ByteTurn

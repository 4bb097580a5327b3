import ByteTurn.SessionExecutor.Scheduling

/-!
# ByteTurn.SessionExecutor.Idle

Which entries of `sessions_` stay.

An entry is erased at one place, the last section of an iteration.  A worker
that takes a session whose turns were all cancelled leaves before it gets
there (`TakesEmpty`), and its entry is left with nothing queued, nothing running
and no place in the ready list.  No other step does that: the entries of a run
are occupied exactly as long as no worker takes an empty session.
-/

namespace ByteTurn

variable {config : SessionExecutorConfig} {s t : ExecutorState} {a : ExecutorAction}
  {sid : Bytes} {k : Nat}

/-! ## occupied entries -/

/-- The turns that sessions have marked as running. -/
def ExecutorState.runningTurns (s : ExecutorState) : Nat :=
  Table.total (fun v => if v.running.isSome then 1 else 0) s.sessions

/-- Every entry has a queued turn, a running one, or a place in the ready list,
and so there are no more entries than these. -/
structure NoIdle (s : ExecutorState) : Prop where
  occupied : ∀ x v, s.sessions.lookup x = some v →
    v.queue ≠ [] ∨ v.running.isSome = true ∨ x ∈ s.readySessions
  size_le : s.sessions.size ≤ s.pendingTotal + s.runningTurns + s.readySessions.length

/-- A worker takes a session with no turn left. -/
def TakesEmpty (s : ExecutorState) : ExecutorAction → Prop
  | .worker k .take => s.workers[k]? = some .waiting ∧
      match s.readySessions with
      | [] => False
      | sid :: _ => (s.session sid).queue = []
  | _ => False

/-- Entries with distinct keys are counted by what occupies them. -/
theorem length_le_of_occupied (l : List (Sigma fun _ : Bytes => ExecutorSession))
    (ready : List Bytes) (hkeys : (l.map Sigma.fst).Nodup)
    (h : ∀ e ∈ l, e.2.queue ≠ [] ∨ e.2.running.isSome = true ∨ e.1 ∈ ready) :
    l.length ≤ (l.map fun e => e.2.queue.length).sum +
      (l.map fun e => if e.2.running.isSome then 1 else 0).sum + ready.length := by
  induction l generalizing ready with
  | nil => exact Nat.zero_le _
  | cons e l ih =>
      simp only [List.map_cons, List.nodup_cons] at hkeys
      simp only [List.map_cons, List.sum_cons, List.length_cons]
      obtain ⟨hfresh, hkeys⟩ := hkeys
      by_cases hready : e.1 ∈ ready
      · -- the ready list gives up one id, which no other entry has
        have hrest : ∀ x ∈ l, x.2.queue ≠ [] ∨ x.2.running.isSome = true ∨
            x.1 ∈ ready.erase e.1 := by
          intro x hx
          have hne : x.1 ≠ e.1 := fun heq => hfresh (heq ▸ List.mem_map_of_mem hx)
          rw [List.mem_erase_of_ne hne]
          exact h x (List.mem_cons_of_mem _ hx)
        have hle := ih (ready.erase e.1) hkeys hrest
        have hlength := List.length_erase_of_mem hready
        have hpos := List.length_pos_of_mem hready
        omega
      · have hle := ih ready hkeys fun x hx => h x (List.mem_cons_of_mem _ hx)
        cases h e List.mem_cons_self with
        | inl hqueue =>
            have hpos := List.length_pos_iff.mpr hqueue
            omega
        | inr hrest =>
            have hrunning := hrest.resolve_right hready
            rw [if_pos hrunning]
            omega

/-- What every entry has. -/
def Occupied (s : ExecutorState) : Prop :=
  ∀ x v, s.sessions.lookup x = some v →
    v.queue ≠ [] ∨ v.running.isSome = true ∨ x ∈ s.readySessions

theorem Occupied.noIdle (h : Occupied s) (hc : Counted config s) : NoIdle s := by
  refine ⟨h, ?_⟩
  rw [hc.pending]
  refine length_le_of_occupied s.sessions.entries s.readySessions s.sessions.nodupKeys ?_
  rintro ⟨x, v⟩ he
  exact h x v (AList.mem_lookup_iff.mpr he)

theorem Occupied.init : Occupied (sessionExecutor config).init := by
  intro x v h
  contradiction

/-! ## one step -/

/-- An update of one entry that leaves it occupied and takes no other session
off the ready list. -/
theorem Occupied.update (h : Occupied s) {v : ExecutorSession}
    (hs : t.sessions = s.sessions.insert sid v)
    (hv : v.queue ≠ [] ∨ v.running.isSome = true ∨ sid ∈ t.readySessions)
    (hready : ∀ x, x ≠ sid → x ∈ s.readySessions → x ∈ t.readySessions) : Occupied t := by
  intro x w hw
  rw [hs, Table.lookup_insert'] at hw
  split at hw
  · next hx =>
    obtain rfl := Option.some.inj hw
    rw [hx]
    exact hv
  · next hx => exact (h x w hw).imp_right (Or.imp_right (hready x hx))

theorem Occupied.keep (h : Occupied s) (hs : t.sessions = s.sessions)
    (hready : t.readySessions = s.readySessions) : Occupied t := by
  unfold Occupied
  rw [hs, hready]
  exact h

theorem Occupied.submit (h : Occupied s) (options : TurnOptions) (now : Int) :
    Occupied (s.submitTurn config sid options now).1 := by
  obtain ⟨n, ⟨hs, -⟩ | ⟨-, -, turnId, hs⟩⟩ := submitTurn_cases config s sid options now
  · rw [hs]
    exact h.keep rfl rfl
  · rw [hs]
    refine Occupied.update (s := { s with nextTurnId := n }) (h.keep rfl rfl) rfl (.inl ?_) ?_
    · exact List.append_ne_nil_of_right_ne_nil _ (List.cons_ne_nil _ _)
    · intro x _ hx
      unfold ExecutorState.enqueue
      dsimp only
      split
      · exact List.mem_append_left _ hx
      · exact hx

/-- A cancelled session keeps its place in the ready list or its running turn. -/
theorem Occupied.cancel (h : Occupied s) (hr : Ready s) : Occupied (s.cancelSession sid) := by
  unfold ExecutorState.cancelSession
  cases hl : s.sessions.lookup sid with
  | none => exact h
  | some session =>
      refine h.update rfl (.inr ?_) fun _ _ hx => hx
      cases h sid session hl with
      | inl hqueue =>
          rw [← session_of_lookup hl] at hqueue ⊢
          exact (hr.served sid hqueue).symm.imp_right (hr.mem sid).mpr
      | inr hrest => exact hrest

theorem Occupied.shutdown (h : Occupied s) (hr : Ready s) : Occupied s.shutdown := by
  unfold ExecutorState.shutdown
  split
  · exact h
  intro x w hw
  simp only [Table.lookup_mapValues, Option.map_eq_some_iff] at hw
  obtain ⟨v, hv, rfl⟩ := hw
  refine .inr ?_
  cases h x v hv with
  | inl hqueue =>
      rw [← session_of_lookup hv] at hqueue ⊢
      exact (hr.served x hqueue).symm.imp_right (hr.mem x).mpr
  | inr hrest => exact hrest

/-- Taking a session keeps its entry occupied exactly when there is a turn to
take. -/
theorem Occupied.take_iff (h : Occupied s) (hr : Ready s) (hk : s.workers[k]? = some .waiting)
    (ht : TakeTurn s k t) : Occupied t ↔ ¬ TakesEmpty s (.worker k .take) := by
  cases ht with
  | exit hready hstop =>
      refine iff_of_true (h.keep rfl rfl) ?_
      rintro ⟨-, hempty⟩
      rw [hready] at hempty
      exact hempty
  | @idle sid ready hready hqueue =>
      refine iff_of_false (fun hocc => ?_) (not_not_intro ⟨hk, by rw [hready]; exact hqueue⟩)
      have hout : sid ∉ ready := by
        have hnodup := hr.nodup
        rw [hready] at hnodup
        exact (List.nodup_cons.mp hnodup).1
      have hentry := hocc sid { s.session sid with scheduled := false } (AList.lookup_insert _)
      dsimp only at hentry
      rw [hqueue, (hr.head hready).2] at hentry
      rcases hentry with hentry | hentry | hentry
      · exact hentry rfl
      · contradiction
      · exact hout hentry
  | @take sid ready ticket rest hready hqueue =>
      refine iff_of_true (h.update rfl (.inr (.inl rfl)) ?_) ?_
      · intro x hx hin
        rw [hready] at hin
        exact (List.mem_cons.mp hin).resolve_left hx
      · rintro ⟨-, hempty⟩
        simp only [hready, hqueue] at hempty
        contradiction

theorem Occupied.retire (h : Occupied s) (hpresent : s.session sid ≠ {}) :
    Occupied (s.retireTurn k sid) := by
  unfold ExecutorState.retireTurn
  simp only [lookup_of_session hpresent]
  split
  · next hwork =>
    refine h.update rfl (.inl hwork.1) ?_
    intro x _ hx
    exact List.mem_append_left _ hx
  · split
    · intro x w hw
      rw [Table.lookup_erase'] at hw
      split at hw
      · contradiction
      · exact h x w hw
    · next hqueue => exact h.update rfl (.inl hqueue) fun _ _ hx => hx

/-- **Step**: the entries stay occupied exactly when the step does not take an
empty session. -/
theorem Occupied.step_iff (h : Occupied s) (hp : Scheduling config s)
    (hs : executorStep config s a = some t) : Occupied t ↔ ¬ TakesEmpty s a := by
  obtain ⟨hready, hheld, -⟩ := hp
  cases a with
  | submit sid options now =>
      obtain rfl := Option.some.inj hs
      exact iff_of_true (h.submit options now) id
  | cancel sid =>
      obtain rfl := Option.some.inj hs
      exact iff_of_true (h.cancel hready) id
  | shutdown =>
      obtain rfl := Option.some.inj hs
      exact iff_of_true (h.shutdown hready) id
  | join =>
      simp only [executorStep] at hs
      split at hs <;> try contradiction
      obtain rfl := Option.some.inj hs
      exact iff_of_true (h.keep rfl rfl) id
  | worker k b =>
      simp only [executorStep] at hs
      cases b with
      | take =>
          simp only [workerStep] at hs
          split at hs <;> try contradiction
          next hk =>
          exact h.take_iff hready hk (takeTurn_cases (fun x hx => hready.present hx) hs)
      | retire =>
          simp only [workerStep] at hs
          split at hs <;> try contradiction
          next sid ticket hk =>
          obtain rfl := Option.some.inj hs
          have hrunning := (hheld.running sid ticket).mpr ⟨k, held_of_place hk⟩
          have hpresent : s.session sid ≠ {} := fun heq => by
            rw [heq] at hrunning
            contradiction
          exact iff_of_true (h.retire hpresent) id
      | begin now | returned reply | threw error now =>
          simp only [workerStep] at hs
          split at hs <;> try contradiction
          obtain rfl := Option.some.inj hs
          exact iff_of_true (h.keep rfl rfl) id

/-! ## every run -/

/-- A run none of whose steps takes an empty session ends with its entries
occupied. -/
theorem occupied_of_run (as : List ExecutorAction)
    (hrun : (sessionExecutor config).run (sessionExecutor config).init as = some s)
    (hfree : ∀ bs a u, bs ++ [a] <+: as →
      (sessionExecutor config).run (sessionExecutor config).init bs = some u → ¬ TakesEmpty u a) :
    Occupied s := by
  induction as using List.reverseRecOn generalizing s with
  | nil =>
      obtain rfl := Option.some.inj hrun
      exact Occupied.init
  | append_singleton as a ih =>
      rw [Machine.run_append] at hrun
      obtain ⟨u, hu, hrun⟩ := Option.bind_eq_some_iff.mp hrun
      rw [Machine.run_cons] at hrun
      obtain ⟨t, hstep, ht⟩ := Option.bind_eq_some_iff.mp hrun
      obtain rfl := Option.some.inj ht
      have hocc := ih hu fun bs b v hbs => hfree bs b v (hbs.trans (List.prefix_append _ _))
      exact (hocc.step_iff (scheduling_of_reachable ⟨as, hu⟩) hstep).mpr
        (hfree as a u (List.prefix_refl _) hu)

/-- **Idle entries**: along a run, every state has only occupied entries, and
no more of them than pending turns, running turns and ready sessions, exactly
when no worker of the run takes a session whose turns are all gone. -/
theorem no_idle_iff (config : SessionExecutorConfig) (as : List ExecutorAction) :
    (∀ bs u, bs <+: as →
      (sessionExecutor config).run (sessionExecutor config).init bs = some u → NoIdle u) ↔
    (∀ bs a u, bs ++ [a] <+: as →
      (sessionExecutor config).run (sessionExecutor config).init bs = some u →
        ¬ TakesEmpty u a) := by
  constructor
  · intro h bs a u hbs hu hempty
    have hscheduling := scheduling_of_reachable ⟨bs, hu⟩
    have hocc : Occupied u := (h bs u ((List.prefix_append _ _).trans hbs) hu).occupied
    cases hstep : executorStep config u a with
    | none =>
        -- a worker that is waiting while some session is ready can step
        cases a with
        | worker k b =>
            cases b with
            | take =>
                obtain ⟨hk, hempty⟩ := hempty
                simp only [executorStep, workerStep, hk, ExecutorState.takeTurn] at hstep
                split at hempty
                · exact hempty
                · next hready =>
                  simp only [hready] at hstep
                  split at hstep
                  · contradiction
                  · split at hstep <;> contradiction
            | begin _ | returned _ | threw _ _ | retire => exact hempty
        | submit _ _ _ | cancel _ | shutdown | join => exact hempty
    | some t =>
        have hrun : (sessionExecutor config).run (sessionExecutor config).init (bs ++ [a]) =
            some t := by
          rw [Machine.run_append, hu]
          exact congrArg (Option.bind · _) hstep
        exact (hocc.step_iff hscheduling hstep).mp (h _ t hbs hrun).occupied hempty
  · intro h bs u hbs hu
    have hocc := occupied_of_run bs hu fun cs a v hcs => h cs a v (hcs.trans hbs)
    exact hocc.noIdle (scheduling_of_reachable ⟨bs, hu⟩).counted

/-! ## what is left behind -/

/-- Nothing queued, running or ready, every worker waiting, and `n` entries with ids
of length at most `n`. -/
structure Stale (s : ExecutorState) (n : Nat) : Prop where
  pending : s.pendingTotal = 0
  running : ∀ x, (s.session x).running = none
  ready : s.readySessions = []
  open_ : s.stopping = false
  workers : ∀ place ∈ s.workers, place = .waiting
  worker : s.workers[0]? = some .waiting
  size : s.sessions.size = n
  ids : ∀ x v, s.sessions.lookup x = some v → x.length ≤ n

/-- A turn of the session `sid` is cancelled before the first worker gets to it. -/
def abandonTurn (sid : Bytes) : List ExecutorAction :=
  [.submit sid {} 0, .cancel sid, .worker 0 .take]

/-- A new session is submitted to and cancelled. -/
theorem Stale.cancelled {n : Nat} (h : Stale s n) (config : SessionExecutorConfig) (hid : sid ≠ [])
    (hnone : s.sessions.lookup sid = none) :
    ∃ t, (sessionExecutor config).run s [.submit sid {} 0, .cancel sid] = some t ∧
      t.pendingTotal = 0 ∧ t.readySessions = [sid] ∧ t.stopping = false ∧
      t.workers = s.workers ∧
      t.sessions = (s.sessions.insert sid { queue := [s.works.length], scheduled := true }).insert
        sid { scheduled := true } := by
  have hroom : ¬ config.maxPendingTotal ≤ s.pendingTotal := by
    have hpos := config.total_pos
    have hpending := h.pending
    omega
  have hover : { s with nextTurnId := (s.nameTurn {}).2 }.overload config sid = none := by
    simp only [ExecutorState.overload, hnone, Bool.false_eq_true, if_false, if_neg hroom]
  have hsubmit : (s.submitTurn config sid {} 0).1 =
      { s with nextTurnId := (s.nameTurn {}).2 }.enqueue sid (s.nameTurn {}).1 {} 0 := by
    rw [ExecutorState.submitTurn, if_neg hid, if_neg (by decide), if_neg (by rw [h.open_]; exact Bool.false_ne_true)]
    dsimp only
    rw [hover]
  have hsession : { s with nextTurnId := (s.nameTurn {}).2 }.session sid = {} := by
    simp only [ExecutorState.session, hnone, Option.getD_none]
  refine ⟨_, rfl, ?_⟩
  rw [hsubmit, ExecutorState.enqueue, hsession, ExecutorState.cancelSession]
  simp only [AList.lookup_insert]
  refine ⟨?_, ?_, h.open_, trivial, rfl⟩
  · show s.pendingTotal + 1 - 1 = 0
    rw [h.pending]
  · show s.readySessions ++ [sid] = [sid]
    rw [h.ready]
    rfl

/-- The worker leaves one more entry behind. -/
theorem Stale.grow {n : Nat} (h : Stale s n) (config : SessionExecutorConfig) :
    ∃ t, (sessionExecutor config).run s (abandonTurn (List.replicate (n + 1) 0x61)) = some t ∧
      Stale t (n + 1) := by
  generalize hsid : List.replicate (n + 1) (0x61 : UInt8) = sid
  have hlength : sid.length = n + 1 := by rw [← hsid, List.length_replicate]
  have hnone : s.sessions.lookup sid = none := by
    cases hl : s.sessions.lookup sid with
    | none => rfl
    | some v =>
        have := h.ids sid v hl
        omega
  obtain ⟨u, hu, hpending, hready, hopen, hworkers, hsessions⟩ :=
    h.cancelled config (List.ne_nil_of_length_eq_add_one hlength) hnone
  have hentry : u.sessions.lookup sid = some { scheduled := true } := by
    rw [hsessions, AList.lookup_insert]
  have htake : (sessionExecutor config).run u [.worker 0 .take] = some { u with
      readySessions := []
      sessions := u.sessions.insert sid {} } := by
    simp only [Machine.run_cons, Machine.run_nil, sessionExecutor, executorStep, workerStep,
      hworkers, h.worker, ExecutorState.takeTurn, hready, hentry]
    rfl
  have hrunning (x : Bytes) :
      (({ u with readySessions := [], sessions := u.sessions.insert sid {} } :
        ExecutorState).session x).running = none := by
    have hsame : u.sessions.insert sid {} = s.sessions.insert sid {} := by
      rw [hsessions, AList.insert_insert, AList.insert_insert]
    rw [session_insert (s := s) hsame x]
    split
    · rfl
    · exact h.running x
  refine ⟨{ u with readySessions := [], sessions := u.sessions.insert sid {} }, ?_,
    hpending, hrunning, rfl, hopen, hworkers ▸ h.workers, hworkers ▸ h.worker, ?_, ?_⟩
  · exact (Machine.run_append (sessionExecutor config) s [.submit sid {} 0, .cancel sid]
      [.worker 0 .take]).trans (by rw [hu]; exact htake)
  · show Table.size (u.sessions.insert sid {}) = n + 1
    rw [hsessions]
    have hsize := Table.size_insert_of_none (v := ({} : ExecutorSession)) hnone
    rw [h.size] at hsize
    rw [AList.insert_insert, AList.insert_insert]
    exact hsize
  · intro x v hx
    rw [hsessions, AList.insert_insert, AList.insert_insert, Table.lookup_insert'] at hx
    split at hx
    · next heq => rw [heq, hlength]
    · exact Nat.le_succ_of_le (h.ids x v hx)

/-- **Growth**: cancelling the turns of new sessions fills the map with as many
entries as one likes, with nothing pending, running or ready. -/
theorem cancelled_sessions_remain (config : SessionExecutorConfig) (n : Nat) :
    ∃ s, (sessionExecutor config).Reachable s ∧ Stale s n := by
  induction n with
  | zero =>
      have hworker : (List.replicate config.workerCount WorkerPlace.waiting)[0]? =
          some .waiting := by
        simp [config.workerCount_pos]
      exact ⟨_, Machine.Reachable.init _, rfl, fun _ => rfl, rfl, rfl,
        fun _ hplace => List.eq_of_mem_replicate hplace, hworker, rfl, nofun⟩
  | succ n ih =>
      obtain ⟨s, hs, hstale⟩ := ih
      obtain ⟨t, ht, hgrown⟩ := hstale.grow config
      exact ⟨t, hs.leads ⟨_, ht⟩, hgrown⟩

/-- One worker. -/
def loneWorker : SessionExecutorConfig where
  workerCount := 1

/-- One submission, cancelled before it is taken, leaves an idle entry. -/
theorem abandoned_turn_stays :
    ¬ ∀ bs u, bs <+: abandonTurn (lit "s") →
      (sessionExecutor loneWorker).run (sessionExecutor loneWorker).init bs = some u →
        NoIdle u := by
  intro h
  have hsize := (h (abandonTurn (lit "s")) _ (List.prefix_refl _) rfl).size_le
  exact absurd hsize (by decide)

end ByteTurn

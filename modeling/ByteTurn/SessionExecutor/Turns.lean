import ByteTurn.SessionExecutor.Scheduling
import ByteTurn.Lib.Lane

/-!
# ByteTurn.SessionExecutor.Turns

What happens to the turns of an executor over every run.

Every session is a serial lane (`InLane`, `session_lane`): submissions,
cancellations and worker steps of one session are the steps of a `Lane`, and all
other steps leave it alone.  From that, turns of one session start in the order
of their acceptance and no ticket is in two places (`Placed`), and so the
promise of a turn is set exactly when it stops being live (`Promised`).
-/

namespace ByteTurn

variable {config : SessionExecutorConfig} {s t : ExecutorState} {a : ExecutorAction}
  {sid : Bytes} {k : Nat}

/-! ## shared work objects -/

/-- What a step that keeps `g` of a work object leaves of it. -/
theorem map_modify {α : Type} (g : Work → α) {f : Work → Work} (hf : ∀ w, g (f w) = g w)
    (works : List Work) (i j : Nat) : ((works.modify i f)[j]?).map g = (works[j]?).map g := by
  rw [List.getElem?_modify]
  cases works[j]? with
  | none => rfl
  | some w =>
      simp only [Option.map_eq_map, Option.map_some]
      split
      · rw [hf]
      · rfl

theorem map_cancelWorks {α : Type} (g : Work → α) (hcancel : ∀ w, g w.cancel = g w) {error : Exception}
    (hdrop : ∀ w, g (w.drop error) = g w) (session : ExecutorSession) (works : List Work) (j : Nat) :
    ((session.cancelWorks error works)[j]?).map g = (works[j]?).map g := by
  have hfold : ∀ (queue : List Nat) (works : List Work),
      ((queue.foldl (fun works i => works.modify i (Work.drop error)) works)[j]?).map g =
        (works[j]?).map g := by
    intro queue
    induction queue with
    | nil => intro works; rfl
    | cons i queue ih => intro works; rw [List.foldl_cons, ih, map_modify g hdrop]
  unfold ExecutorSession.cancelWorks
  rw [hfold]
  split
  · exact map_modify g hcancel works _ j
  · rfl

/-- The session a ticket was accepted for. -/
def owner (works : List Work) (i : Nat) : Option Bytes := works[i]?.map Work.sessionId

/-- How often the promise of a ticket has been set. -/
def sets (works : List Work) (i : Nat) : Nat := (works[i]?.map fun w => w.promise.length).getD 0

theorem owner_modify {f : Work → Work} (hf : ∀ w, (f w).sessionId = w.sessionId) (works : List Work)
    (i j : Nat) : owner (works.modify i f) j = owner works j :=
  map_modify Work.sessionId hf works i j

theorem owner_lt {works : List Work} {i : Nat} {x : Bytes} (h : owner works i = some x) :
    i < works.length := by
  unfold owner at h
  rw [Option.map_eq_some_iff] at h
  obtain ⟨w, hw, -⟩ := h
  exact (List.getElem?_eq_some_iff.mp hw).1

theorem owner_concat (works : List Work) (w : Work) (i : Nat) :
    owner (works ++ [w]) i = if i = works.length then some w.sessionId else owner works i := by
  unfold owner
  rw [List.getElem?_append]
  split
  · next hi => rw [if_neg (Nat.ne_of_lt hi)]
  · next hi =>
    split
    · next heq => simp [heq]
    · next hne =>
      rw [List.getElem?_eq_none (by simp; omega), List.getElem?_eq_none (by omega)]

theorem sets_concat (works : List Work) (w : Work) (hw : w.promise = []) (i : Nat) :
    sets (works ++ [w]) i = sets works i := by
  unfold sets
  rw [List.getElem?_append]
  split
  · rfl
  · next hi =>
    rw [List.getElem?_eq_none (l := works) (by omega)]
    by_cases heq : i = works.length
    · simp [heq, hw]
    · rw [List.getElem?_eq_none (by simp; omega)]

/-- Setting the promise of a ticket once. -/
theorem sets_modify {f : Work → Work} (hf : ∀ w, (f w).promise.length = w.promise.length + 1)
    (works : List Work) {i : Nat} (hi : i < works.length) (j : Nat) :
    sets (works.modify i f) j = sets works j + if j = i then 1 else 0 := by
  unfold sets
  rw [List.getElem?_modify]
  by_cases hij : i = j
  · subst hij
    simp [List.getElem?_eq_getElem hi, hf]
  · rw [if_neg (Ne.symm hij)]
    cases works[j]? <;> simp [hij]

theorem length_cancelWorks (session : ExecutorSession) (error : Exception) (works : List Work) :
    (session.cancelWorks error works).length = works.length := by
  have hfold : ∀ (queue : List Nat) (works : List Work),
      (queue.foldl (fun works i => works.modify i (Work.drop error)) works).length =
        works.length := by
    intro queue
    induction queue with
    | nil => intro works; rfl
    | cons i queue ih => intro works; rw [List.foldl_cons, ih, List.length_modify]
  unfold ExecutorSession.cancelWorks
  rw [hfold]
  split
  · rw [List.length_modify]
  · rfl

/-- Cancelling a session sets the promise of each of its queued tickets. -/
theorem sets_cancelWorks (session : ExecutorSession) (error : Exception) (works : List Work)
    (hlt : ∀ i ∈ session.queue, i < works.length) (j : Nat) :
    sets (session.cancelWorks error works) j = sets works j + session.queue.count j := by
  have hfold : ∀ (queue : List Nat) (works : List Work), (∀ i ∈ queue, i < works.length) →
      sets (queue.foldl (fun works i => works.modify i (Work.drop error)) works) j =
        sets works j + queue.count j := by
    intro queue
    induction queue with
    | nil => intro works _; rfl
    | cons i queue ih =>
        intro works hlt
        have hi := hlt i (by simp)
        have hrest : ∀ m ∈ queue, m < (works.modify i (Work.drop error)).length := by
          intro m hm
          rw [List.length_modify]
          exact hlt m (by simp [hm])
        rw [List.foldl_cons, ih _ hrest, sets_modify (fun w => by simp [Work.drop]) works hi j,
          List.count_cons]
        by_cases hij : i = j
        · subst hij
          simp
          omega
        · simp [hij, Ne.symm hij]
  unfold ExecutorSession.cancelWorks
  cases hr : session.running with
  | none => exact hfold _ _ hlt
  | some ticket =>
      rw [hfold _ _ (by simpa using hlt)]
      have hsame := map_modify (fun w => w.promise.length) (f := Work.cancel) (fun _ => rfl) works ticket j
      unfold sets
      rw [hsame]

/-! ## a session is a serial lane -/

/-- The lane of a session: its queue and running turn, and the history of its
tickets. -/
structure InLane (sid : Bytes) (s : ExecutorState) (l : Lane) : Prop where
  waiting : l.waiting = (s.session sid).queue
  running : l.running = (s.session sid).running
  accepted : ∀ i, i ∈ l.accepted ↔ owner s.works i = some sid
  started : l.started = (s.started.filter (·.1 = sid)).map Prod.snd

variable {l : Lane}

theorem InLane.init : InLane sid (sessionExecutor config).init Lane.machine.init := by
  constructor <;> simp [sessionExecutor, Lane.machine, ExecutorState.session, owner]

/-- A step that moves no turn of the session. -/
theorem InLane.keep (h : InLane sid s l) (hq : (t.session sid).queue = (s.session sid).queue)
    (hr : (t.session sid).running = (s.session sid).running)
    (ho : ∀ i, owner t.works i = owner s.works i) (hst : t.started = s.started) :
    ∃ l', Lane.machine.Leads l l' ∧ InLane sid t l' :=
  ⟨l, .refl _ _, h.waiting.trans hq.symm, h.running.trans hr.symm,
    fun i => by rw [ho]; exact h.accepted i, by rw [hst]; exact h.started⟩

/-- A step that empties the session's queue. -/
theorem InLane.drop (h : InLane sid s l) (hq : (t.session sid).queue = [])
    (hr : (t.session sid).running = (s.session sid).running)
    (ho : ∀ i, owner t.works i = owner s.works i) (hst : t.started = s.started) :
    ∃ l', Lane.machine.Leads l l' ∧ InLane sid t l' :=
  ⟨_, .single (a := .drop) rfl, hq.symm, h.running.trans hr.symm,
    fun i => by rw [ho]; exact h.accepted i, by rw [hst]; exact h.started⟩

theorem InLane.submit (h : InLane sid s l) (x : Bytes) (options : TurnOptions) (now : Int) :
    ∃ l', Lane.machine.Leads l l' ∧ InLane sid (s.submitTurn config x options now).1 l' := by
  obtain ⟨n, ⟨hs, -⟩ | ⟨-, -, turnId, hs⟩⟩ := submitTurn_cases config s x options now
  · rw [hs]
    exact h.keep rfl rfl (fun _ => rfl) rfl
  · rw [hs]
    have howner : ∀ i, owner ({ s with nextTurnId := n }.enqueue x turnId options now).works i =
        if i = s.works.length then some x else owner s.works i := owner_concat s.works _
    have hsession := enqueue_session (s := { s with nextTurnId := n }) x turnId options now sid
    by_cases hx : sid = x
    · -- the ticket of the new turn is above all tickets accepted so far
      have hfresh : ∀ i ∈ l.accepted, i < s.works.length := fun i hi =>
        owner_lt ((h.accepted i).mp hi)
      have hstep : Lane.machine.step l (.accept s.works.length) = some { l with
          accepted := l.accepted ++ [s.works.length]
          waiting := l.waiting ++ [s.works.length] } := if_pos hfresh
      rw [if_pos hx] at hsession
      refine ⟨_, .single hstep, ?_, ?_, fun i => ?_, h.started⟩
      · rw [hsession, h.waiting, hx]
        rfl
      · rw [hsession, h.running, hx]
        rfl
      · rw [howner, List.mem_append, List.mem_singleton, h.accepted i, hx]
        by_cases hi : i = s.works.length
        · simp [hi]
        · simp [hi]
    · rw [if_neg hx] at hsession
      refine ⟨l, .refl _ _, ?_, ?_, fun i => ?_, h.started⟩
      · rw [hsession]
        exact h.waiting
      · rw [hsession]
        exact h.running
      · rw [howner, h.accepted i]
        split
        · next hi =>
          have hout : owner s.works i = none := by
            unfold owner
            rw [hi, List.getElem?_eq_none (Nat.le_refl _)]
            rfl
          rw [hout]
          exact ⟨nofun, fun heq => absurd (Option.some.inj heq).symm hx⟩
        · rfl

theorem InLane.cancel (h : InLane sid s l) (x : Bytes) :
    ∃ l', Lane.machine.Leads l l' ∧ InLane sid (s.cancelSession x) l' := by
  have hsession := cancelSession_session s x sid
  obtain ⟨-, -, -, -, hstarted, -⟩ := cancelSession_rest s x
  have howner : ∀ i, owner (s.cancelSession x).works i = owner s.works i := by
    intro i
    unfold ExecutorState.cancelSession
    split
    · rfl
    · exact map_cancelWorks Work.sessionId (fun _ => rfl) (fun _ => rfl) _ _ _
  by_cases hx : sid = x
  · rw [if_pos hx] at hsession
    refine h.drop (by rw [hsession]) ?_ howner hstarted
    rw [hsession, hx]
  · rw [if_neg hx] at hsession
    exact h.keep (by rw [hsession]) (by rw [hsession]) howner hstarted

theorem InLane.shutdown (h : InLane sid s l) :
    ∃ l', Lane.machine.Leads l l' ∧ InLane sid s.shutdown l' := by
  by_cases hstop : s.stopping = true
  · rw [ExecutorState.shutdown, if_pos hstop]
    exact ⟨l, .refl _ _, h⟩
  · have hsession := shutdown_session (Bool.eq_false_iff.mpr hstop) sid
    have hfold : ∀ (entries : List (Sigma fun _ : Bytes => ExecutorSession)) (works : List Work) (i : Nat),
        owner (entries.foldl (fun works e => e.2.cancelWorks (lit "executor stopped") works) works) i =
          owner works i := by
      intro entries
      induction entries with
      | nil => intro works i; rfl
      | cons e entries ih =>
          intro works i
          rw [List.foldl_cons, ih]
          exact map_cancelWorks Work.sessionId (fun _ => rfl) (fun _ => rfl) _ _ _
    refine h.drop (by rw [hsession]) (by rw [hsession]) (fun i => ?_) ?_
    all_goals rw [ExecutorState.shutdown, if_neg hstop]
    exact hfold _ _ i

theorem InLane.take (h : InLane sid s l) (hr : Ready s) (ht : TakeTurn s k t) :
    ∃ l', Lane.machine.Leads l l' ∧ InLane sid t l' := by
  cases ht with
  | exit hready hstop => exact h.keep rfl rfl (fun _ => rfl) rfl
  | @idle x ready hready hqueue =>
      refine h.keep ?_ ?_ (fun _ => rfl) rfl <;>
        rw [session_insert (s := s) rfl sid]
      · split
        · next hx => rw [hx]
        · rfl
      · split
        · next hx => rw [hx]
        · rfl
  | @take x ready ticket rest hready hqueue =>
      have hsession : ∀ (s' : ExecutorState), s'.sessions = s.sessions.insert x
          { queue := rest, running := some ticket, scheduled := false } → s'.session sid =
            if sid = x then { queue := rest, running := some ticket, scheduled := false }
            else s.session sid := fun s' hs' => session_insert hs' sid
      by_cases hx : sid = x
      · have hrunning : l.running = none := by rw [h.running, hx]; exact (hr.head hready).2
        have hwaiting : l.waiting = ticket :: rest := by rw [h.waiting, hx]; exact hqueue
        have hstep : Lane.machine.step l .start = some { l with
            running := some ticket
            waiting := rest
            started := l.started ++ [ticket] } := by
          simp only [Lane.machine, Lane.step, hrunning, hwaiting]
        refine ⟨_, .single hstep, ?_, ?_, h.accepted, ?_⟩
        · rw [hsession _ rfl, if_pos hx]
        · rw [hsession _ rfl, if_pos hx]
        · rw [List.filter_append, List.map_append, h.started]
          simp [hx]
      · refine ⟨l, .refl _ _, ?_, ?_, h.accepted, ?_⟩
        · rw [hsession _ rfl, if_neg hx]
          exact h.waiting
        · rw [hsession _ rfl, if_neg hx]
          exact h.running
        · rw [List.filter_append, h.started]
          simp [Ne.symm hx]

theorem InLane.retire {ticket : Nat} {x : Bytes} (h : InLane sid s l) (hr : Ready s)
    (hrunning : (s.session x).running = some ticket) :
    ∃ l', Lane.machine.Leads l l' ∧ InLane sid (s.retireTurn k x) l' := by
  have hpresent : s.session x ≠ {} := fun heq => by rw [heq] at hrunning; contradiction
  obtain ⟨hsession, -⟩ := retireTurn_session (k := k) hrunning (hr.idle x (by rw [hrunning]; rfl))
  obtain ⟨-, hworks, -, -, -, hstarted, -⟩ := retireTurn_rest (k := k) hpresent
  replace hsession := hsession sid
  by_cases hx : sid = x
  · have hlane : l.running = some ticket := by rw [h.running, hx]; exact hrunning
    have hstep : Lane.machine.step l .finish = some { l with
        running := none
        finished := l.finished ++ [ticket] } := by
      simp only [Lane.machine, Lane.step, hlane]
    rw [if_pos hx] at hsession
    refine ⟨_, .single hstep, ?_, ?_, ?_, ?_⟩
    · rw [hsession, h.waiting, hx]
    · rw [hsession]
    · rw [hworks]
      exact h.accepted
    · rw [hstarted]
      exact h.started
  · rw [if_neg hx] at hsession
    exact h.keep (by rw [hsession]) (by rw [hsession]) (fun _ => by rw [hworks]) hstarted

/-- **Serial lanes**: every session of an executor is a lane. -/
theorem executor_simulates_lane (config : SessionExecutorConfig) (sid : Bytes) :
    Machine.Simulation (sessionExecutor config) Lane.machine (InLane sid) where
  init := InLane.init
  step s l a t hreach h hs := by
    have hsch := scheduling_of_reachable hreach
    cases a with
    | submit x options now =>
        obtain rfl := Option.some.inj hs
        exact h.submit x options now
    | cancel x =>
        obtain rfl := Option.some.inj hs
        exact h.cancel x
    | shutdown =>
        obtain rfl := Option.some.inj hs
        exact h.shutdown
    | join =>
        simp only [sessionExecutor, executorStep] at hs
        split at hs <;> try contradiction
        obtain rfl := Option.some.inj hs
        exact h.keep rfl rfl (fun _ => rfl) rfl
    | worker k b =>
        cases b with
        | take =>
            simp only [sessionExecutor, executorStep, workerStep] at hs
            split at hs <;> try contradiction
            exact h.take hsch.ready (takeTurn_cases (fun x hx => hsch.ready.present hx) hs)
        | retire =>
            simp only [sessionExecutor, executorStep, workerStep] at hs
            split at hs <;> try contradiction
            next x ticket hk =>
            obtain rfl := Option.some.inj hs
            exact h.retire hsch.ready ((hsch.held.running x ticket).mpr ⟨k, held_of_place hk⟩)
        | begin now | returned reply | threw error now =>
            simp only [sessionExecutor, executorStep, workerStep] at hs
            split at hs <;> try contradiction
            obtain rfl := Option.some.inj hs
            refine h.keep rfl rfl (fun i => ?_) rfl
            apply owner_modify
            exact fun w => rfl

/-! ## tickets in one place -/

/-- Where the tickets of the sessions are: each is owned by its session, waits
once, and does not wait while it runs. -/
structure Placed (s : ExecutorState) : Prop where
  queued : ∀ x, ∀ i ∈ (s.session x).queue, owner s.works i = some x
  running : ∀ x i, (s.session x).running = some i → owner s.works i = some x
  nodup : ∀ x, (s.session x).queue.Nodup
  apart : ∀ x i, (s.session x).running = some i → i ∉ (s.session x).queue

/-- The lane of a session in a reachable state. -/
theorem session_lane (h : (sessionExecutor config).Reachable s) (sid : Bytes) :
    ∃ l, Lane.Serial l ∧ InLane sid s l := by
  obtain ⟨l, hl, hin⟩ := (executor_simulates_lane config sid).reachable h
  exact ⟨l, Lane.serial_of_reachable hl, hin⟩

theorem placed_of_reachable (h : (sessionExecutor config).Reachable s) : Placed s := by
  have hplace : ∀ x, ∃ l, Lane.Serial l ∧ InLane x s l := session_lane h
  refine ⟨fun x i hi => ?_, fun x i hi => ?_, fun x => ?_, fun x i hi hmem => ?_⟩ <;>
    obtain ⟨l, hserial, hin⟩ := hplace x
  · refine (hin.accepted i).mp (hserial.placed.mem_iff.mpr ?_)
    rw [hin.waiting]
    simp [hi]
  · refine (hin.accepted i).mp (hserial.placed.mem_iff.mpr ?_)
    rw [hin.running, hi]
    simp
  · rw [← hin.waiting]
    exact ((hserial.placed.nodup_iff.mp hserial.increasing.nodup).of_append_right)
  · have hnodup := hserial.placed.nodup_iff.mp hserial.increasing.nodup
    rw [hin.running, hi, hin.waiting] at hnodup
    exact (List.nodup_append.mp hnodup).2.2 i (by simp) i hmem rfl

/-! ## promises -/

/-- The ticket whose promise a worker has yet to set. -/
def WorkerPlace.unset : WorkerPlace → Option Nat
  | .taken _ ticket | .executing _ ticket => some ticket
  | .waiting | .retiring _ _ | .exited => none

/-- The ticket whose promise the worker `k` has yet to set. -/
def ExecutorState.unset (s : ExecutorState) (k : Nat) : Option Nat :=
  s.workers[k]?.bind WorkerPlace.unset

theorem unset_set {place : WorkerPlace} (h : t.workers = s.workers.set k place)
    (hk : k < s.workers.length) (x : Nat) :
    t.unset x = if x = k then place.unset else s.unset x := by
  rw [ExecutorState.unset, h, List.getElem?_set]
  by_cases hx : k = x
  · subst hx
    simp [hk]
  · rw [if_neg hx, if_neg (Ne.symm hx)]
    rfl

theorem unset_of_place {place : WorkerPlace} (h : s.workers[k]? = some place) :
    s.unset k = place.unset := by
  rw [ExecutorState.unset, h]
  rfl

theorem held_of_unset {i : Nat} (h : s.unset k = some i) : ∃ x, s.held k = some (x, i) := by
  unfold ExecutorState.unset at h
  obtain ⟨place, hplace, hi⟩ := Option.bind_eq_some_iff.mp h
  rw [held_of_place hplace]
  cases place with
  | taken x ticket | executing x ticket =>
      obtain rfl := Option.some.inj hi
      exact ⟨x, rfl⟩
  | waiting | retiring x ticket | exited => contradiction

/-- A turn that waits, or whose task has not ended. -/
def Live (s : ExecutorState) (i : Nat) : Prop :=
  (∃ x, i ∈ (s.session x).queue) ∨ ∃ k, s.unset k = some i

/-- The promise of an accepted turn is unset while the turn is live, and set
once afterwards. -/
structure Promised (s : ExecutorState) : Prop where
  live : ∀ i, Live s i → sets s.works i = 0
  settled : ∀ i < s.works.length, ¬ Live s i → sets s.works i = 1

theorem Promised.init : Promised (sessionExecutor config).init := by
  refine ⟨fun i _ => rfl, fun i hi => ?_⟩
  simp [sessionExecutor] at hi

/-- A step in which the tickets `D` stop being live, each with its promise set. -/
theorem Promised.settle (h : Promised s) (D : Nat → Prop)
    (hlive : ∀ i, Live t i ↔ Live s i ∧ ¬ D i) (hD : ∀ i, D i → Live s i)
    (hset : ∀ i, D i → sets t.works i = sets s.works i + 1)
    (hkeep : ∀ i, ¬ D i → sets t.works i = sets s.works i)
    (hlen : t.works.length = s.works.length) : Promised t := by
  refine ⟨fun i hi => ?_, fun i hi hnot => ?_⟩
  · obtain ⟨hs, hd⟩ := (hlive i).mp hi
    rw [hkeep i hd]
    exact h.live i hs
  · by_cases hd : D i
    · rw [hset i hd, h.live i (hD i hd)]
    · rw [hkeep i hd]
      exact h.settled i (hlen ▸ hi) fun hs => hnot ((hlive i).mpr ⟨hs, hd⟩)

/-- A step that sets no promise. -/
theorem Promised.keep (h : Promised s) (hlive : ∀ i, Live t i ↔ Live s i)
    (hkeep : ∀ i, sets t.works i = sets s.works i) (hlen : t.works.length = s.works.length) :
    Promised t :=
  h.settle (fun _ => False) (fun i => by simp [hlive i]) (fun _ => False.elim)
    (fun _ => False.elim) (fun i _ => hkeep i) hlen

theorem Placed.unset_notMem (h : Placed s) (hh : Held s) {i : Nat} (hi : s.unset k = some i)
    (x : Bytes) : i ∉ (s.session x).queue := by
  obtain ⟨y, hy⟩ := held_of_unset hi
  have hrunning := (hh.running y i).mpr ⟨k, hy⟩
  intro hmem
  have heq := (h.running y i hrunning).symm.trans (h.queued x i hmem)
  obtain rfl : y = x := Option.some.inj heq
  exact h.apart y i hrunning hmem

theorem Placed.queue_unique (h : Placed s) {i : Nat} {x y : Bytes} (hx : i ∈ (s.session x).queue)
    (hy : i ∈ (s.session y).queue) : x = y :=
  Option.some.inj ((h.queued x i hx).symm.trans (h.queued y i hy))

theorem Promised.submit (h : Promised s) (x : Bytes) (options : TurnOptions) (now : Int) :
    Promised (s.submitTurn config x options now).1 := by
  obtain ⟨n, ⟨hs, -⟩ | ⟨-, -, turnId, hs⟩⟩ := submitTurn_cases config s x options now
  · rw [hs]
    exact h.keep (fun _ => Iff.rfl) (fun _ => rfl) rfl
  · rw [hs]
    have hsets : ∀ i, sets ({ s with nextTurnId := n }.enqueue x turnId options now).works i =
        sets s.works i := sets_concat s.works _ rfl
    have hsession := enqueue_session (s := { s with nextTurnId := n }) x turnId options now
    have hlen : ({ s with nextTurnId := n }.enqueue x turnId options now).works.length =
        s.works.length + 1 := List.length_append
    have hqueue : ∀ i y, i ∈ (({ s with nextTurnId := n }.enqueue x turnId options now).session y).queue ↔
        i ∈ (s.session y).queue ∨ (y = x ∧ i = s.works.length) := by
      intro i y
      rw [hsession]
      by_cases hy : y = x
      · rw [if_pos hy, hy]
        simp [ExecutorState.session]
      · rw [if_neg hy]
        simp [ExecutorState.session, hy]
    refine ⟨fun i hi => ?_, fun i hi hnot => ?_⟩
    · rw [hsets]
      rcases hi with ⟨y, hy⟩ | ⟨k, hk⟩
      · rcases (hqueue i y).mp hy with hy | ⟨-, rfl⟩
        · exact h.live i (.inl ⟨y, hy⟩)
        · unfold sets
          rw [List.getElem?_eq_none (Nat.le_refl _)]
          rfl
      · exact h.live i (.inr ⟨k, hk⟩)
    · rw [hsets]
      have hne : i ≠ s.works.length := fun heq => hnot (.inl ⟨x, (hqueue i x).mpr (.inr ⟨rfl, heq⟩)⟩)
      have hlt : i < s.works.length := Nat.lt_of_le_of_ne (Nat.le_of_lt_succ (hlen.symm ▸ hi :)) hne
      refine h.settled i hlt fun hs => hnot ?_
      rcases hs with ⟨y, hy⟩ | ⟨k, hk⟩
      · exact .inl ⟨y, (hqueue i y).mpr (.inl hy)⟩
      · exact .inr ⟨k, hk⟩

theorem Promised.cancel (h : Promised s) (hp : Placed s) (hh : Held s) (x : Bytes) :
    Promised (s.cancelSession x) := by
  have hsession := cancelSession_session s x
  obtain ⟨-, -, -, hworkers, -⟩ := cancelSession_rest s x
  have hunset : ∀ k, (s.cancelSession x).unset k = s.unset k := fun k => by
    unfold ExecutorState.unset
    rw [hworkers]
  have hlt : ∀ i ∈ (s.session x).queue, i < s.works.length := fun i hi =>
    owner_lt (hp.queued x i hi)
  have hsets : ∀ i, sets (s.cancelSession x).works i = sets s.works i + (s.session x).queue.count i := by
    intro i
    unfold ExecutorState.cancelSession
    cases hl : s.sessions.lookup x with
    | none =>
        have hempty : (s.session x).queue = [] := by
          unfold ExecutorState.session
          rw [hl]
          rfl
        rw [hempty]
        rfl
    | some session =>
        rw [session_of_lookup hl] at hlt ⊢
        exact sets_cancelWorks session _ s.works hlt i
  refine h.settle (fun i => i ∈ (s.session x).queue) (fun i => ?_) (fun i hi => .inl ⟨x, hi⟩)
    (fun i hi => ?_) (fun i hi => ?_) ?_
  · constructor
    · rintro (⟨y, hy⟩ | ⟨k, hk⟩)
      · rw [hsession] at hy
        split at hy <;> try contradiction
        next hne => exact ⟨.inl ⟨y, hy⟩, fun hmem => hne (hp.queue_unique hy hmem)⟩
      · rw [hunset] at hk
        exact ⟨.inr ⟨k, hk⟩, hp.unset_notMem hh hk x⟩
    · rintro ⟨⟨y, hy⟩ | ⟨k, hk⟩, hnot⟩
      · have hne : y ≠ x := fun heq => hnot (heq ▸ hy)
        refine .inl ⟨y, ?_⟩
        rw [hsession, if_neg hne]
        exact hy
      · exact .inr ⟨k, (hunset k).trans hk⟩
  · rw [hsets, List.count_eq_one_of_mem (hp.nodup x) hi]
  · rw [hsets, List.count_eq_zero_of_not_mem hi]
    rfl
  · unfold ExecutorState.cancelSession
    split
    · rfl
    · exact length_cancelWorks _ _ _

/-- The flags and promises that `shutdown` sets, over all sessions. -/
theorem sets_shutdown (entries : List (Sigma fun _ : Bytes => ExecutorSession)) (error : Exception)
    (works : List Work) (hlt : ∀ e ∈ entries, ∀ i ∈ e.2.queue, i < works.length) (j : Nat) :
    sets (entries.foldl (fun works e => e.2.cancelWorks error works) works) j =
        sets works j + (entries.map fun e => e.2.queue.count j).sum ∧
      (entries.foldl (fun works e => e.2.cancelWorks error works) works).length = works.length := by
  induction entries generalizing works with
  | nil => exact ⟨rfl, rfl⟩
  | cons e entries ih =>
      have hlen := length_cancelWorks e.2 error works
      have hrest : ∀ e' ∈ entries, ∀ i ∈ e'.2.queue, i < (e.2.cancelWorks error works).length := by
        intro e' he' i hi
        rw [hlen]
        exact hlt e' (by simp [he']) i hi
      obtain ⟨hsets, hlength⟩ := ih (e.2.cancelWorks error works) hrest
      have hhead := sets_cancelWorks e.2 error works (hlt e (by simp)) j
      refine ⟨?_, hlength.trans hlen⟩
      rw [List.foldl_cons, hsets, hhead, List.map_cons, List.sum_cons]
      omega

theorem Promised.shutdown (h : Promised s) (hp : Placed s) (hh : Held s) : Promised s.shutdown := by
  by_cases hstop : s.stopping = true
  · rw [ExecutorState.shutdown, if_pos hstop]
    exact h
  · have hsession := shutdown_session (Bool.eq_false_iff.mpr hstop)
    have hlt : ∀ e ∈ s.sessions.entries, ∀ i ∈ e.2.queue, i < s.works.length := by
      rintro ⟨x, session⟩ he i hi
      have hl : s.sessions.lookup x = some session := (List.mem_dlookup_iff s.sessions.nodupKeys).mpr he
      exact owner_lt (hp.queued x i (by rw [session_of_lookup hl]; exact hi))
    have hshutdown : ∀ i, sets s.shutdown.works i =
        sets s.works i + Table.total (fun v => v.queue.count i) s.sessions ∧
          s.shutdown.works.length = s.works.length := by
      intro i
      rw [ExecutorState.shutdown, if_neg hstop]
      exact sets_shutdown s.sessions.entries _ s.works hlt i
    have hunset : ∀ k, s.shutdown.unset k = s.unset k := fun k => by
      rw [ExecutorState.shutdown, if_neg hstop]
      rfl
    refine h.settle (fun i => ∃ x, i ∈ (s.session x).queue) (fun i => ?_) (fun i hi => .inl hi)
      (fun i hi => ?_) (fun i hi => ?_) (hshutdown 0).2
    · constructor
      · rintro (⟨y, hy⟩ | ⟨k, hk⟩)
        · rw [hsession] at hy
          contradiction
        · rw [hunset] at hk
          exact ⟨.inr ⟨k, hk⟩, not_exists.mpr (hp.unset_notMem hh hk)⟩
      · rintro ⟨hy | ⟨k, hk⟩, hnot⟩
        · exact absurd hy hnot
        · exact .inr ⟨k, (hunset k).trans hk⟩
    · obtain ⟨x, hi⟩ := hi
      have hone : Table.total (fun v : ExecutorSession => v.queue.count i) s.sessions =
          (s.session x).queue.count i := by
        refine Table.total_eq_of_single (d := {}) (fun v : ExecutorSession => v.queue.count i) rfl x
          fun y hy => ?_
        exact List.count_eq_zero_of_not_mem fun hmem => hy (hp.queue_unique hmem hi)
      rw [(hshutdown i).1, hone, List.count_eq_one_of_mem (hp.nodup x) hi]
    · have hzero : Table.total (fun v : ExecutorSession => v.queue.count i) s.sessions = 0 := by
        refine Table.total_eq_zero_of_getD (d := {}) (fun v : ExecutorSession => v.queue.count i)
          fun y => ?_
        exact List.count_eq_zero_of_not_mem fun hmem => hi ⟨y, hmem⟩
      rw [(hshutdown i).1, hzero]
      rfl

/-- A ticket that leaves its queue for an idle worker stays live. -/
theorem live_take {x : Bytes} {ticket i : Nat} {rest : List Nat} (hnone : s.unset k = none)
    (hqueue : (s.session x).queue = ticket :: rest)
    (hsession : ∀ y, (t.session y).queue = if y = x then rest else (s.session y).queue)
    (hunset : ∀ m, t.unset m = if m = k then some ticket else s.unset m) : Live t i ↔ Live s i := by
  constructor
  · rintro (⟨y, hy⟩ | ⟨m, hm⟩)
    · rw [hsession] at hy
      split at hy
      · exact .inl ⟨x, by rw [hqueue]; exact List.mem_cons_of_mem _ hy⟩
      · exact .inl ⟨y, hy⟩
    · rw [hunset] at hm
      split at hm
      · obtain rfl := Option.some.inj hm
        exact .inl ⟨x, by rw [hqueue]; exact List.mem_cons_self⟩
      · exact .inr ⟨m, hm⟩
  · rintro (⟨y, hy⟩ | ⟨m, hm⟩)
    · by_cases heq : y = x
      · rw [heq, hqueue, List.mem_cons] at hy
        rcases hy with rfl | hy
        · exact .inr ⟨k, by rw [hunset, if_pos rfl]⟩
        · exact .inl ⟨x, by rw [hsession, if_pos rfl]; exact hy⟩
      · exact .inl ⟨y, by rw [hsession, if_neg heq]; exact hy⟩
    · have hne : m ≠ k := fun heq => by rw [heq, hnone] at hm; contradiction
      exact .inr ⟨m, by rw [hunset, if_neg hne]; exact hm⟩

theorem Promised.take (h : Promised s) (hk : s.workers[k]? = some .waiting) (ht : TakeTurn s k t) :
    Promised t := by
  have hlt := (List.getElem?_eq_some_iff.mp hk).1
  have hnone : s.unset k = none := unset_of_place hk
  cases ht with
  | exit hready hstop =>
      refine h.keep (fun i => or_congr Iff.rfl (exists_congr fun m => ?_)) (fun _ => rfl) rfl
      rw [unset_set (s := s) rfl hlt]
      split
      · next hm => rw [hm, hnone]; rfl
      · rfl
  | @idle x ready hready hqueue =>
      refine h.keep (fun i => or_congr (exists_congr fun y => ?_) Iff.rfl) (fun _ => rfl) rfl
      rw [session_insert (s := s) rfl y]
      split
      · next hy => rw [hy]
      · rfl
  | @take x ready ticket rest hready hqueue =>
      refine h.keep (fun i => live_take hnone hqueue (fun y => ?_) (fun m => ?_)) (fun _ => rfl) rfl
      · rw [session_insert (s := s) rfl y]
        split <;> rfl
      · rw [unset_set (s := s) rfl hlt]
        rfl

theorem Promised.retire {x : Bytes} {ticket : Nat} (h : Promised s) (hr : Ready s)
    (hk : s.workers[k]? = some (.retiring x ticket))
    (hrunning : (s.session x).running = some ticket) : Promised (s.retireTurn k x) := by
  have hlt := (List.getElem?_eq_some_iff.mp hk).1
  have hnone : s.unset k = none := unset_of_place hk
  have hpresent : s.session x ≠ {} := fun heq => by rw [heq] at hrunning; contradiction
  obtain ⟨hsession, -⟩ := retireTurn_session (k := k) hrunning (hr.idle x (by rw [hrunning]; rfl))
  obtain ⟨hworkers, hworks, -⟩ := retireTurn_rest (k := k) hpresent
  refine h.keep (fun i => or_congr (exists_congr fun y => ?_) (exists_congr fun m => ?_))
    (fun _ => by rw [hworks]) (by rw [hworks])
  · rw [hsession]
    split
    · next hy => rw [hy]
    · rfl
  · rw [unset_set hworkers hlt]
    split
    · next hm => rw [hm, hnone]; rfl
    · rfl

/-- A task starts. -/
theorem Promised.begin {x : Bytes} {ticket : Nat} (h : Promised s) (now : Int)
    (hk : s.workers[k]? = some (.taken x ticket)) :
    Promised { s with
      works := s.works.modify ticket (Work.begin now)
      workers := s.workers.set k (.executing x ticket) } := by
  have hlt := (List.getElem?_eq_some_iff.mp hk).1
  have hunset : s.unset k = some ticket := unset_of_place hk
  refine h.keep (fun i => or_congr Iff.rfl (exists_congr fun m => ?_)) (fun i => ?_)
    (List.length_modify _ _ _)
  · rw [unset_set (s := s) rfl hlt]
    split
    · next hm => rw [hm, hunset]; rfl
    · rfl
  · unfold sets
    rw [map_modify (fun w => w.promise.length) (f := Work.begin now) (fun _ => rfl)]

/-- The ticket of a task that ends is not live any more. -/
theorem live_execute {x : Bytes} {ticket i : Nat} (hp : Placed s) (hh : Held s)
    (hk : s.workers[k]? = some (.executing x ticket))
    (hsession : t.session = s.session)
    (hunset : ∀ m, t.unset m = if m = k then none else s.unset m) :
    Live t i ↔ Live s i ∧ i ≠ ticket := by
  have hset : s.unset k = some ticket := unset_of_place hk
  have hheld : s.held k = some (x, ticket) := held_of_place hk
  have howner := hp.running x ticket ((hh.running x ticket).mpr ⟨k, hheld⟩)
  constructor
  · rintro (⟨y, hy⟩ | ⟨m, hm⟩)
    · rw [hsession] at hy
      refine ⟨.inl ⟨y, hy⟩, ?_⟩
      rintro rfl
      exact hp.unset_notMem hh hset y hy
    · rw [hunset] at hm
      split at hm <;> try contradiction
      next hne =>
      refine ⟨.inr ⟨m, hm⟩, ?_⟩
      rintro rfl
      -- another worker with this ticket would run a turn of the same session
      obtain ⟨y, hy⟩ := held_of_unset hm
      have hown := hp.running y i ((hh.running y i).mpr ⟨m, hy⟩)
      obtain rfl : x = y := Option.some.inj (howner.symm.trans hown)
      exact hne (hh.alone m k x i i hy hheld)
  · rintro ⟨⟨y, hy⟩ | ⟨m, hm⟩, hi⟩
    · exact .inl ⟨y, by rw [hsession]; exact hy⟩
    · have hne : m ≠ k := by
        rintro rfl
        exact hi (Option.some.inj (hm.symm.trans hset))
      exact .inr ⟨m, by rw [hunset, if_neg hne]; exact hm⟩

/-- A task ends, and its promise is set. -/
theorem Promised.execute {x : Bytes} {ticket : Nat} {f : Work → Work} (h : Promised s) (hp : Placed s)
    (hh : Held s) (hk : s.workers[k]? = some (.executing x ticket))
    (hf : ∀ w, (f w).promise.length = w.promise.length + 1) :
    Promised { s with
      works := s.works.modify ticket f
      workers := s.workers.set k (.retiring x ticket) } := by
  have hlt := (List.getElem?_eq_some_iff.mp hk).1
  have hset : s.unset k = some ticket := unset_of_place hk
  have howner := hp.running x ticket ((hh.running x ticket).mpr ⟨k, held_of_place hk⟩)
  have hsets := sets_modify hf s.works (owner_lt howner)
  refine h.settle (· = ticket) (fun i => live_execute hp hh hk rfl fun m => ?_)
    (fun i hi => .inr ⟨k, hi ▸ hset⟩) (fun i hi => ?_) (fun i hi => ?_) (List.length_modify _ _ _)
  · rw [unset_set (s := s) rfl hlt]
    rfl
  · rw [hsets, if_pos hi]
  · rw [hsets, if_neg hi]
    rfl

theorem Promised.step (h : Promised s) (hreach : (sessionExecutor config).Reachable s)
    (hs : executorStep config s a = some t) : Promised t := by
  have hp := placed_of_reachable hreach
  obtain ⟨hr, hh, -⟩ := scheduling_of_reachable hreach
  cases a with
  | submit x options now =>
      obtain rfl := Option.some.inj hs
      exact h.submit x options now
  | cancel x =>
      obtain rfl := Option.some.inj hs
      exact h.cancel hp hh x
  | shutdown =>
      obtain rfl := Option.some.inj hs
      exact h.shutdown hp hh
  | join =>
      simp only [executorStep] at hs
      split at hs <;> try contradiction
      obtain rfl := Option.some.inj hs
      exact h.keep (fun _ => Iff.rfl) (fun _ => rfl) rfl
  | worker k b =>
      cases b with
      | take =>
          simp only [executorStep, workerStep] at hs
          split at hs <;> try contradiction
          next hk => exact h.take hk (takeTurn_cases (fun x hx => hr.present hx) hs)
      | begin now =>
          simp only [executorStep, workerStep] at hs
          split at hs <;> try contradiction
          next hk =>
          obtain rfl := Option.some.inj hs
          exact h.begin now hk
      | returned reply | threw error now =>
          simp only [executorStep, workerStep] at hs
          split at hs <;> try contradiction
          next hk =>
          obtain rfl := Option.some.inj hs
          refine h.execute hp hh hk fun w => ?_
          exact List.length_append
      | retire =>
          simp only [executorStep, workerStep] at hs
          split at hs <;> try contradiction
          next x ticket hk =>
          obtain rfl := Option.some.inj hs
          exact h.retire hr hk ((hh.running x ticket).mpr ⟨k, held_of_place hk⟩)

theorem promised_of_reachable (h : (sessionExecutor config).Reachable s) : Promised s :=
  Machine.Reachable.rec_inv Promised.init (fun _ _ _ hr hp hs => hp.step hr hs) h

/-! ## after the join -/

/-- The workers of a joined executor have exited, for good. -/
def Joined (s : ExecutorState) : Prop :=
  s.joined = true → s.stopping = true ∧ ∀ place ∈ s.workers, place = .exited

theorem Joined.step (h : Joined s) (hr : Ready s) (hh : Held s)
    (hs : executorStep config s a = some t) : Joined t := by
  cases a with
  | submit x options now =>
      obtain rfl := Option.some.inj hs
      obtain ⟨n, ⟨hs, -⟩ | ⟨-, -, turnId, hs⟩⟩ := submitTurn_cases config s x options now <;>
        rw [hs] <;> exact h
  | cancel x =>
      obtain rfl := Option.some.inj hs
      obtain ⟨-, hstop, -, hworkers, -, hjoined⟩ := cancelSession_rest s x
      intro hj
      rw [hstop, hworkers]
      exact h (hjoined ▸ hj)
  | shutdown =>
      obtain rfl := Option.some.inj hs
      unfold ExecutorState.shutdown
      split
      · exact h
      · exact fun hj => ⟨rfl, (h hj).2⟩
  | join =>
      simp only [executorStep] at hs
      split at hs <;> try contradiction
      next hexited =>
      obtain rfl := Option.some.inj hs
      exact fun _ => hexited
  | worker k b =>
      have hlive : ∀ place, s.workers[k]? = some place → place ≠ .exited → s.joined = false := by
        intro place hk hne
        refine Bool.eq_false_iff.mpr fun hj => hne ((h hj).2 place (List.mem_of_getElem? hk))
      have hout : t.joined = s.joined → s.joined = false → Joined t := by
        intro htj hsj hj
        rw [htj, hsj] at hj
        contradiction
      cases b with
      | take =>
          simp only [executorStep, workerStep] at hs
          split at hs <;> try contradiction
          next hk =>
          have hj := hlive _ hk (by simp)
          cases takeTurn_cases (fun x hx => hr.present hx) hs <;> exact hout rfl hj
      | begin now | returned reply | threw error now =>
          simp only [executorStep, workerStep] at hs
          split at hs <;> try contradiction
          next hk =>
          obtain rfl := Option.some.inj hs
          exact hout rfl (hlive _ hk (by simp))
      | retire =>
          simp only [executorStep, workerStep] at hs
          split at hs <;> try contradiction
          next x ticket hk =>
          obtain rfl := Option.some.inj hs
          have hrunning := (hh.running x ticket).mpr ⟨k, held_of_place hk⟩
          have hpresent : s.session x ≠ {} := fun heq => by rw [heq] at hrunning; contradiction
          obtain ⟨-, -, -, -, -, -, hjoined⟩ := retireTurn_rest (k := k) hpresent
          exact hout hjoined (hlive _ hk (by simp))

theorem joined_of_reachable (h : (sessionExecutor config).Reachable s) : Joined s :=
  Machine.Reachable.rec_inv (P := Joined) (fun hj => absurd hj Bool.false_ne_true)
    (fun _ _ _ hr hp hs =>
      hp.step (scheduling_of_reachable hr).ready (scheduling_of_reachable hr).held hs) h

/-! ## the executor's contract -/

/-- What an executor keeps to at every moment of every run. -/
structure ExecutorContract (config : SessionExecutorConfig) (s : ExecutorState) : Prop where
  /-- One turn per session runs at a time. -/
  serial : ∀ k k' x i j, s.held k = some (x, i) → s.held k' = some (x, j) → k = k'
  /-- The turns of a session start in the order of their acceptance. -/
  ordered : ∀ x, ((s.started.filter (·.1 = x)).map Prod.snd).Pairwise (· < ·)
  accepted : ∀ e ∈ s.started, owner s.works e.2 = some e.1
  ready : s.readySessions.Nodup ∧
    ∀ x, x ∈ s.readySessions ↔ ∃ session, s.sessions.lookup x = some session ∧
      session.scheduled = true
  idle : ∀ x session, s.sessions.lookup x = some session → session.running.isSome = true →
    session.scheduled = false
  served : ∀ x session, s.sessions.lookup x = some session → session.queue ≠ [] →
    session.scheduled = true ∨ session.running.isSome = true
  pending : s.pendingTotal = Table.total (fun session => session.queue.length) s.sessions ∧
    s.pendingTotal ≤ config.maxPendingTotal
  queue : ∀ x session, s.sessions.lookup x = some session →
    session.queue.length ≤ config.maxPendingPerSession ∧ session.queue.length ≤ s.pendingTotal
  missed : s.missed = false
  promised : ∀ w ∈ s.works, w.promise.length ≤ 1
  joined : s.joined = true → ∀ w ∈ s.works, w.promise.length = 1

theorem sets_of_mem {w : Work} (hw : w ∈ s.works) :
    ∃ i < s.works.length, sets s.works i = w.promise.length := by
  obtain ⟨i, hi, rfl⟩ := List.getElem_of_mem hw
  refine ⟨i, hi, ?_⟩
  unfold sets
  rw [List.getElem?_eq_getElem hi]
  rfl

theorem not_live_of_joined (h : Joined s) (hr : Ready s) (hj : s.joined = true) (i : Nat) :
    ¬ Live s i := by
  obtain ⟨hstop, hexited⟩ := h hj
  rintro (⟨x, hx⟩ | ⟨k, hk⟩)
  · rw [hr.stopped hstop x] at hx
    contradiction
  · obtain ⟨place, hplace, hi⟩ := Option.bind_eq_some_iff.mp hk
    rw [hexited place (List.mem_of_getElem? hplace)] at hi
    contradiction

/-- The started tickets of a session are those of its lane. -/
theorem InLane.started_mem (h : InLane sid s l) (hs : Lane.Serial l) {i : Nat}
    (hi : (sid, i) ∈ s.started) : owner s.works i = some sid := by
  refine (h.accepted i).mp (hs.fifo.subset (List.mem_append_left _ ?_))
  rw [h.started, List.mem_map]
  exact ⟨(sid, i), List.mem_filter.mpr ⟨hi, by simp⟩, rfl⟩

/-- **Scheduling**: for every worker count and every interleaving of
submissions, cancellations, shutdown and workers, with tasks that return or
throw, the executor keeps to its contract. -/
theorem executor_scheduling (config : SessionExecutorConfig) (s : ExecutorState)
    (h : (sessionExecutor config).Reachable s) : ExecutorContract config s := by
  obtain ⟨hr, hh, hc⟩ := scheduling_of_reachable h
  have hpromised := promised_of_reachable h
  refine ⟨hh.alone, fun x => ?_, fun ⟨x, i⟩ he => ?_, ⟨hr.nodup, fun x => ?_⟩,
    fun x session hl => ?_, fun x session hl => ?_, ⟨hc.pending, hc.limit⟩, fun x session hl => ?_,
    hr.missed, fun w hw => ?_, fun hj w hw => ?_⟩
  · obtain ⟨l, hserial, hin⟩ := session_lane h x
    rw [← hin.started]
    exact hserial.started_increasing
  · obtain ⟨l, hserial, hin⟩ := session_lane h x
    exact hin.started_mem hserial he
  · rw [hr.mem]
    constructor
    · intro hscheduled
      have hpresent : s.session x ≠ {} := fun heq => by rw [heq] at hscheduled; contradiction
      exact ⟨_, lookup_of_session hpresent, hscheduled⟩
    · rintro ⟨session, hl, hscheduled⟩
      rw [session_of_lookup hl]
      exact hscheduled
  · rw [← session_of_lookup hl]
    exact hr.idle x
  · rw [← session_of_lookup hl]
    exact hr.served x
  · rw [← session_of_lookup hl]
    exact ⟨hc.perSession x, hc.queue_le x⟩
  · obtain ⟨i, hi, hw⟩ := sets_of_mem hw
    rw [← hw]
    by_cases hlive : Live s i
    · rw [hpromised.live i hlive]
      exact Nat.zero_le _
    · rw [hpromised.settled i hi hlive]
  · obtain ⟨i, hi, hw⟩ := sets_of_mem hw
    rw [← hw]
    exact hpromised.settled i hi (not_live_of_joined (joined_of_reachable h) hr hj i)

/-- One worker and room for two turns. -/
def tightExecutor : SessionExecutorConfig where
  workerCount := 1
  maxPendingPerSession := 2
  maxPendingTotal := 2
  workerCount_pos := Nat.one_pos
  perSession_pos := Nat.two_pos
  total_pos := Nat.two_pos

/-- Three turns of one session: the first runs and throws, the second is
cancelled while it waits, and the third is dropped by the shutdown. -/
def cancelAndShutdown : List ExecutorAction :=
  [.submit (lit "a") {} 0, .worker 0 .take, .submit (lit "a") {} 0, .cancel (lit "a"),
   .submit (lit "a") {} 0, .worker 0 (.begin 1), .shutdown, .worker 0 (.threw (lit "no") 2),
   .worker 0 .retire, .worker 0 .take, .join]

theorem cancelAndShutdown_contract :
    ∃ s, (sessionExecutor tightExecutor).run (sessionExecutor tightExecutor).init
        cancelAndShutdown = some s ∧
      s.works.map (fun w => w.promise.length) = [1, 1, 1] ∧ s.started = [(lit "a", 0)] ∧
      ExecutorContract tightExecutor s :=
  ⟨_, rfl, rfl, rfl, executor_scheduling tightExecutor _ ⟨cancelAndShutdown, rfl⟩⟩

end ByteTurn

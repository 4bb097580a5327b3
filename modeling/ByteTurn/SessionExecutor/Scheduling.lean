import ByteTurn.SessionExecutor

/-!
# ByteTurn.SessionExecutor.Scheduling

The scheduling state over every run: the ready list, the three parts of each
session, the worker places and the pending counters.

A session that is not in the map counts as an empty one (`session`), so erasing
an idle session changes no session, and every step is an update of one session,
one worker place and the ready list.

* `Ready` — the ready list is the set of scheduled sessions, and a session with
  work is scheduled or running but never both;
* `Held` — the running turn of a session is the one some worker holds, and no
  two workers hold turns of one session;
* `Counted` — the pending counter is the number of queued turns, within limits.
-/

namespace ByteTurn

variable {config : SessionExecutorConfig} {s t : ExecutorState} {a : ExecutorAction}
  {sid : Bytes} {k : Nat}

/-! ## sessions under the operations -/

/-- A session that is written, and the others. -/
theorem session_insert {v : ExecutorSession} (h : t.sessions = s.sessions.insert sid v) (x : Bytes) :
    t.session x = if x = sid then v else s.session x := by
  rw [ExecutorState.session, h, Table.getD_insert]
  rfl

/-- A session that is erased is empty. -/
theorem session_erase (h : t.sessions = s.sessions.erase sid) (x : Bytes) :
    t.session x = if x = sid then {} else s.session x := by
  rw [ExecutorState.session, h, Table.getD_erase]
  rfl

/-- The session that is found. -/
theorem session_of_lookup {v : ExecutorSession} (h : s.sessions.lookup sid = some v) :
    s.session sid = v := by
  rw [ExecutorState.session, h]
  rfl

/-- A session that is not an empty one is in the map. -/
theorem lookup_of_session (h : s.session sid ≠ {}) :
    s.sessions.lookup sid = some (s.session sid) := by
  unfold ExecutorState.session at h ⊢
  cases hl : s.sessions.lookup sid with
  | none => rw [hl] at h; exact absurd rfl h
  | some v => rfl

/-- The turn a worker holds. -/
def WorkerPlace.turn : WorkerPlace → Option (Bytes × Nat)
  | .taken sessionId ticket | .executing sessionId ticket | .retiring sessionId ticket =>
      some (sessionId, ticket)
  | .waiting | .exited => none

/-- The turn the worker `k` holds. -/
def ExecutorState.held (s : ExecutorState) (k : Nat) : Option (Bytes × Nat) :=
  s.workers[k]?.bind WorkerPlace.turn

/-- What a worker holds after it has moved on. -/
theorem held_set {place : WorkerPlace} (h : t.workers = s.workers.set k place)
    (hk : k < s.workers.length) (x : Nat) :
    t.held x = if x = k then place.turn else s.held x := by
  rw [ExecutorState.held, h, List.getElem?_set]
  by_cases hx : k = x
  · subst hx
    simp [hk]
  · rw [if_neg hx, if_neg (Ne.symm hx)]
    rfl

/-- What a worker holds where it is. -/
theorem held_of_place {place : WorkerPlace} (h : s.workers[k]? = some place) :
    s.held k = place.turn := by
  rw [ExecutorState.held, h]
  rfl

/-- Moving a worker between two places that hold the same turn. -/
theorem held_move {place place' : WorkerPlace} (h : s.workers[k]? = some place)
    (ht : t.workers = s.workers.set k place') (hsame : place'.turn = place.turn) :
    t.held = s.held := by
  funext x
  rw [held_set ht (List.getElem?_eq_some_iff.mp h).1]
  split
  · next hx => rw [hx, held_of_place h, hsame]
  · rfl

/-! ## what the operations do -/

/-- A submission changes the turn counter, and queues the turn if it is accepted. -/
theorem submitTurn_cases (config : SessionExecutorConfig) (s : ExecutorState) (sid : Bytes)
    (options : TurnOptions) (now : Int) :
    ∃ n, ((s.submitTurn config sid options now).1 = { s with nextTurnId := n } ∧
        ∃ error, (s.submitTurn config sid options now).2 = .error error) ∨
      (s.stopping = false ∧ s.overload config sid = none ∧
        ∃ turnId, s.submitTurn config sid options now =
          ({ s with nextTurnId := n }.enqueue sid turnId options now,
            .ok ⟨turnId, s.works.length⟩)) := by
  unfold ExecutorState.submitTurn
  split
  · exact ⟨s.nextTurnId, .inl ⟨rfl, _, rfl⟩⟩
  · split
    · exact ⟨s.nextTurnId, .inl ⟨rfl, _, rfl⟩⟩
    · split
      · exact ⟨s.nextTurnId, .inl ⟨rfl, _, rfl⟩⟩
      · next hstop =>
        refine ⟨(s.nameTurn options).2, ?_⟩
        have hsame : { s with nextTurnId := (s.nameTurn options).2 }.overload config sid =
            s.overload config sid := rfl
        cases hover : s.overload config sid with
        | some what =>
            refine .inl ⟨?_, .overloaded what, ?_⟩ <;> simp only [hsame, hover]
        | none =>
            refine .inr ⟨Bool.eq_false_iff.mpr hstop, rfl, (s.nameTurn options).1, ?_⟩
            simp only [hsame, hover]

/-- The session and the ready list after a turn is queued. -/
theorem enqueue_session (sid turnId : Bytes) (options : TurnOptions) (now : Int) (x : Bytes) :
    (s.enqueue sid turnId options now).session x =
      if x = sid then { s.session sid with
        queue := (s.session sid).queue ++ [s.works.length]
        scheduled := (s.session sid).scheduled ||
          (!(s.session sid).scheduled && (s.session sid).running.isNone) }
      else s.session x := session_insert rfl x

/-- Cancelling empties the queue of its session only. -/
theorem cancelSession_session (s : ExecutorState) (sid x : Bytes) :
    (s.cancelSession sid).session x =
      if x = sid then { s.session sid with queue := [] } else s.session x := by
  unfold ExecutorState.cancelSession
  cases hl : s.sessions.lookup sid with
  | none =>
      by_cases hx : x = sid
      · rw [if_pos hx, hx]
        simp only [ExecutorState.session, hl, Option.getD_none]
      · rw [if_neg hx]
  | some session =>
      rw [session_of_lookup hl]
      exact session_insert rfl x

/-- A shutdown empties every queue. -/
theorem shutdown_session (h : s.stopping = false) (x : Bytes) :
    s.shutdown.session x = { s.session x with queue := [] } := by
  unfold ExecutorState.shutdown
  rw [if_neg (by simp [h])]
  exact Table.getD_mapValues (d := {}) (fun session : ExecutorSession => { session with queue := [] })
    s.sessions x rfl

/-- What `takeTurn` does where the session of the ready list exists. -/
inductive TakeTurn (s : ExecutorState) (k : Nat) : ExecutorState → Prop where
  | exit (hready : s.readySessions = []) (hstop : s.stopping = true) :
      TakeTurn s k { s with workers := s.workers.set k .exited }
  | idle {sid : Bytes} {ready : List Bytes} (hready : s.readySessions = sid :: ready)
      (hqueue : (s.session sid).queue = []) :
      TakeTurn s k { s with
        readySessions := ready
        sessions := s.sessions.insert sid { s.session sid with scheduled := false } }
  | take {sid : Bytes} {ready : List Bytes} {ticket : Nat} {rest : List Nat}
      (hready : s.readySessions = sid :: ready)
      (hqueue : (s.session sid).queue = ticket :: rest) :
      TakeTurn s k { s with
        readySessions := ready
        pendingTotal := s.pendingTotal - 1
        sessions := s.sessions.insert sid { queue := rest, running := some ticket, scheduled := false }
        workers := s.workers.set k (.taken sid ticket)
        started := s.started ++ [(sid, ticket)] }

/-- A worker that wakes up finds a turn, an empty session or the end. -/
theorem takeTurn_cases (hpresent : ∀ x ∈ s.readySessions, s.session x ≠ {})
    (h : s.takeTurn k = some t) : TakeTurn s k t := by
  unfold ExecutorState.takeTurn at h
  split at h
  · next hready =>
    split at h <;> try contradiction
    next hstop =>
    obtain rfl := Option.some.inj h
    exact .exit hready hstop
  · next sid ready hready =>
    have hl := lookup_of_session (hpresent sid (by simp [hready]))
    simp only [hl] at h
    split at h <;> obtain rfl := Option.some.inj h
    · next hqueue => exact .idle hready hqueue
    · next hqueue => exact .take hready hqueue

/-- The end of an iteration, for a session whose running turn is its only mark. -/
theorem retireTurn_session {ticket : Nat} (hrunning : (s.session sid).running = some ticket)
    (hidle : (s.session sid).scheduled = false) :
    (∀ x, (s.retireTurn k sid).session x =
      if x = sid then {
        queue := (s.session sid).queue
        running := none
        scheduled := decide ((s.session sid).queue ≠ []) && !s.stopping }
      else s.session x) ∧
    (s.retireTurn k sid).readySessions =
      if (decide ((s.session sid).queue ≠ []) && !s.stopping) = true then s.readySessions ++ [sid]
      else s.readySessions := by
  have hpresent : s.session sid ≠ {} := fun h => by rw [h] at hrunning; contradiction
  have hl := lookup_of_session hpresent
  unfold ExecutorState.retireTurn
  simp only [hl]
  split
  · next hwork =>
    have hscheduled : (decide ((s.session sid).queue ≠ []) && !s.stopping) = true := by simpa using hwork
    refine ⟨fun x => ?_, (if_pos hscheduled).symm⟩
    rw [session_insert (s := s) rfl x, hscheduled]
  · next hwork =>
    have hscheduled : ¬ (decide ((s.session sid).queue ≠ []) && !s.stopping) = true := by
      simpa using hwork
    split
    · next hempty =>
      refine ⟨fun x => ?_, rfl⟩
      rw [session_erase (s := s) rfl x, hempty]
      rfl
    · refine ⟨fun x => ?_, rfl⟩
      rw [session_insert (s := s) rfl x, Bool.eq_false_iff.mpr hscheduled, hidle]

/-- The rest of the state at the end of an iteration. -/
theorem retireTurn_rest (hl : s.session sid ≠ {}) :
    (s.retireTurn k sid).workers = s.workers.set k .waiting ∧
      (s.retireTurn k sid).works = s.works ∧ (s.retireTurn k sid).pendingTotal = s.pendingTotal ∧
      (s.retireTurn k sid).stopping = s.stopping ∧ (s.retireTurn k sid).missed = s.missed ∧
      (s.retireTurn k sid).started = s.started ∧ (s.retireTurn k sid).joined = s.joined := by
  unfold ExecutorState.retireTurn
  simp only [lookup_of_session hl]
  split
  · exact ⟨rfl, rfl, rfl, rfl, rfl, rfl, rfl⟩
  · split <;> exact ⟨rfl, rfl, rfl, rfl, rfl, rfl, rfl⟩

/-! ## the ready list -/

/-- The ready list holds each scheduled session once; a session with queued
turns is scheduled or running, and a running one is not scheduled. -/
structure Ready (s : ExecutorState) : Prop where
  nodup : s.readySessions.Nodup
  mem : ∀ x, x ∈ s.readySessions ↔ (s.session x).scheduled = true
  idle : ∀ x, (s.session x).running.isSome = true → (s.session x).scheduled = false
  served : ∀ x, (s.session x).queue ≠ [] →
    (s.session x).scheduled = true ∨ (s.session x).running.isSome = true
  stopped : s.stopping = true → ∀ x, (s.session x).queue = []
  missed : s.missed = false

/-- Nothing is ready in a new executor. -/
theorem Ready.init : Ready (sessionExecutor config).init := by
  constructor <;> simp [sessionExecutor, ExecutorState.session]

/-- What is ready has an entry. -/
theorem Ready.present (h : Ready s) {x : Bytes} (hx : x ∈ s.readySessions) : s.session x ≠ {} := by
  intro hempty
  have := (h.mem x).mp hx
  rw [hempty] at this
  contradiction

/-- How the ready list follows the scheduled flag of one session. -/
inductive ReadyChange (ready : List Bytes) (sid : Bytes) : Bool → Bool → List Bytes → Prop where
  | same (b : Bool) : ReadyChange ready sid b b ready
  | push : ReadyChange ready sid false true (ready ++ [sid])
  | pop {rest : List Bytes} (h : ready = sid :: rest) : ReadyChange ready sid true false rest

theorem ReadyChange.mem {ready ready' : List Bytes} {b c : Bool} (h : ReadyChange ready sid b c ready')
    (hnodup : ready.Nodup) (hmem : sid ∈ ready ↔ b = true) :
    ready'.Nodup ∧ ∀ x, x ∈ ready' ↔ if x = sid then c = true else x ∈ ready := by
  cases h with
  | same =>
      refine ⟨hnodup, fun x => ?_⟩
      split
      · next hx => rw [hx]; exact hmem
      · rfl
  | push =>
      have hout : sid ∉ ready := fun hin => by simpa using hmem.mp hin
      refine ⟨List.nodup_append.mpr ⟨hnodup, List.nodup_singleton _, ?_⟩, fun x => ?_⟩
      · rintro x hx y hy rfl
        exact hout (List.mem_singleton.mp hy ▸ hx)
      · by_cases hx : x = sid <;> simp [hx]
  | pop h =>
      subst h
      rw [List.nodup_cons] at hnodup
      refine ⟨hnodup.2, fun x => ?_⟩
      by_cases hx : x = sid
      · simp [hx, hnodup.1]
      · simp [hx]

/-- An update of one session that keeps the ready list in step with its flag. -/
theorem Ready.update (h : Ready s) (sid : Bytes) {v : ExecutorSession}
    (hsession : ∀ x, t.session x = if x = sid then v else s.session x)
    (hready : ReadyChange s.readySessions sid (s.session sid).scheduled v.scheduled t.readySessions)
    (hidle : v.running.isSome = true → v.scheduled = false)
    (hserved : v.queue ≠ [] → v.scheduled = true ∨ v.running.isSome = true)
    (hstopped : s.stopping = true → v.queue = []) (hstopping : t.stopping = s.stopping)
    (hmissed : t.missed = s.missed) : Ready t := by
  obtain ⟨hnodup, hmem⟩ := hready.mem h.nodup (h.mem sid)
  refine ⟨hnodup, fun x => ?_, fun x => ?_, fun x => ?_, fun hstop x => ?_, hmissed.trans h.missed⟩
  · rw [hmem x, hsession x]
    split
    · rfl
    · exact h.mem x
  all_goals rw [hsession x]; split
  · exact hidle
  · exact h.idle x
  · exact hserved
  · exact h.served x
  · exact hstopped (hstopping ▸ hstop)
  · exact h.stopped (hstopping ▸ hstop) x

/-- A step that touches no session. -/
theorem Ready.keep (h : Ready s) (hs : t.sessions = s.sessions)
    (hr : t.readySessions = s.readySessions) (hstopping : t.stopping = s.stopping)
    (hmissed : t.missed = s.missed) : Ready t := by
  have hsession : ∀ x, t.session x = s.session x := fun x => by
    rw [ExecutorState.session, hs]; rfl
  refine ⟨hr ▸ h.nodup, fun x => ?_, fun x => ?_, fun x => ?_, fun hstop x => ?_,
    hmissed.trans h.missed⟩
  · rw [hr, hsession]; exact h.mem x
  · rw [hsession]; exact h.idle x
  · rw [hsession]; exact h.served x
  · rw [hsession]; exact h.stopped (hstopping ▸ hstop) x

/-- A turn that is queued makes its session ready once. -/
theorem Ready.enqueue (h : Ready s) (hstop : s.stopping = false) (turnId : Bytes)
    (options : TurnOptions) (now : Int) : Ready (s.enqueue sid turnId options now) := by
  refine h.update sid (enqueue_session sid turnId options now) ?_ ?_ ?_ ?_ rfl rfl
  · show ReadyChange _ _ _ _ (if _ = true then s.readySessions ++ [sid] else s.readySessions)
    cases hb : (s.session sid).scheduled with
    | true => exact .same true
    | false =>
        cases hr : (s.session sid).running with
        | none => exact .push
        | some ticket => exact .same false
  · intro hr
    have hidle := h.idle sid hr
    have hbusy : (s.session sid).running.isNone = false := by
      rw [Option.isNone_eq_false_iff]; exact hr
    simp [hidle, hbusy]
  · intro _
    cases hb : (s.session sid).scheduled <;> cases hr : (s.session sid).running <;> simp
  · intro hstop'
    rw [hstop] at hstop'
    contradiction

/-- Every submission keeps the order of the ready sessions. -/
theorem Ready.submit (h : Ready s) (options : TurnOptions) (now : Int) :
    Ready (s.submitTurn config sid options now).1 := by
  obtain ⟨n, ⟨hs, -⟩ | ⟨hstop, -, turnId, hs⟩⟩ := submitTurn_cases config s sid options now
  · rw [hs]
    exact h.keep rfl rfl rfl rfl
  · rw [hs]
    have hn : Ready { s with nextTurnId := n } := h.keep rfl rfl rfl rfl
    exact hn.enqueue hstop turnId options now

/-- Cancelling changes nothing but the session and its turns. -/
theorem cancelSession_rest (s : ExecutorState) (sid : Bytes) :
    (s.cancelSession sid).readySessions = s.readySessions ∧
      (s.cancelSession sid).stopping = s.stopping ∧ (s.cancelSession sid).missed = s.missed ∧
      (s.cancelSession sid).workers = s.workers ∧ (s.cancelSession sid).started = s.started ∧
      (s.cancelSession sid).joined = s.joined := by
  unfold ExecutorState.cancelSession
  split <;> exact ⟨rfl, rfl, rfl, rfl, rfl, rfl⟩

/-- Cancelling keeps the order of the ready sessions. -/
theorem Ready.cancel (h : Ready s) : Ready (s.cancelSession sid) := by
  obtain ⟨hready, hstop, hmissed, -⟩ := cancelSession_rest s sid
  refine h.update sid (cancelSession_session s sid) ?_ (h.idle sid) ?_ (fun _ => rfl) hstop hmissed
  · rw [hready]
    exact .same _
  · nofun

/-- So does a shutdown. -/
theorem Ready.shutdown (h : Ready s) : Ready s.shutdown := by
  by_cases hstop : s.stopping = true
  · rw [ExecutorState.shutdown, if_pos hstop]
    exact h
  · have hsession := shutdown_session (Bool.eq_false_iff.mpr hstop)
    have hrest : s.shutdown.readySessions = s.readySessions ∧ s.shutdown.missed = s.missed := by
      rw [ExecutorState.shutdown, if_neg hstop]
      exact ⟨rfl, rfl⟩
    refine ⟨hrest.1 ▸ h.nodup, fun x => ?_, fun x => ?_, fun x => ?_, fun _ x => ?_,
      hrest.2.trans h.missed⟩
    · rw [hrest.1, hsession]; exact h.mem x
    · rw [hsession]; exact h.idle x
    · rw [hsession]; nofun
    · rw [hsession]

/-- The head of the ready list belongs to a session that is scheduled and idle. -/
theorem Ready.head (h : Ready s) {ready : List Bytes} (hready : s.readySessions = sid :: ready) :
    (s.session sid).scheduled = true ∧ (s.session sid).running = none := by
  have hscheduled := (h.mem sid).mp (by simp [hready])
  refine ⟨hscheduled, ?_⟩
  cases hr : (s.session sid).running with
  | none => rfl
  | some ticket =>
      have := h.idle sid (by rw [hr]; rfl)
      rw [this] at hscheduled
      contradiction

/-- A worker that takes a turn takes the first ready session. -/
theorem Ready.take (h : Ready s) (ht : TakeTurn s k t) : Ready t := by
  cases ht with
  | exit hready hstop => exact h.keep rfl rfl rfl rfl
  | idle hready hqueue =>
      have hhead := h.head hready
      refine h.update _ (session_insert rfl) ?_ (fun _ => rfl) ?_ (fun _ => hqueue) rfl rfl
      · rw [hhead.1]
        exact .pop hready
      · rw [hqueue]
        nofun
  | take hready hqueue =>
      have hhead := h.head hready
      refine h.update _ (session_insert rfl) ?_ (fun _ => rfl) (fun _ => .inr rfl) ?_ rfl rfl
      · rw [hhead.1]
        exact .pop hready
      · intro hstop
        rw [h.stopped hstop] at hqueue
        contradiction

/-- A session with turns left is ready again when its turn is over. -/
theorem Ready.retire {ticket : Nat} (h : Ready s) (hrunning : (s.session sid).running = some ticket) :
    Ready (s.retireTurn k sid) := by
  have hidle := h.idle sid (by rw [hrunning]; rfl)
  have hpresent : s.session sid ≠ {} := fun heq => by rw [heq] at hrunning; contradiction
  obtain ⟨hsession, hready⟩ := retireTurn_session (k := k) hrunning hidle
  obtain ⟨-, -, -, hstop, hmissed, -, -⟩ := retireTurn_rest (k := k) hpresent
  refine h.update sid hsession ?_ nofun ?_ (fun hs => h.stopped hs sid) hstop hmissed
  · rw [hready, hidle]
    split
    · next hwork => rw [hwork]; exact .push
    · next hwork => rw [Bool.eq_false_iff.mpr hwork]; exact .same false
  · intro hwork
    cases hs : s.stopping with
    | true => exact absurd (h.stopped hs sid) hwork
    | false => exact .inl (by simpa using hwork)

/-! ## workers and running turns -/

/-- The running turn of a session is the one a worker holds, and no two workers
hold turns of one session. -/
structure Held (s : ExecutorState) : Prop where
  running : ∀ x ticket, (s.session x).running = some ticket ↔ ∃ k, s.held k = some (x, ticket)
  alone : ∀ k k' x i j, s.held k = some (x, i) → s.held k' = some (x, j) → k = k'

/-- No worker of a new executor holds a turn. -/
theorem Held.init : Held (sessionExecutor config).init := by
  have hnone : ∀ k, (sessionExecutor config).init.held k = none := by
    intro k
    simp only [ExecutorState.held, sessionExecutor, List.getElem?_replicate]
    split <;> rfl
  refine ⟨fun x ticket => ⟨nofun, fun ⟨k, hk⟩ => ?_⟩, fun k k' x i j hk => ?_⟩
  · rw [hnone] at hk
    contradiction
  · rw [hnone] at hk
    contradiction

/-- What leaves the running turns and the workers leaves what is held. -/
theorem Held.keep (h : Held s) (hrunning : ∀ x, (t.session x).running = (s.session x).running)
    (hheld : t.held = s.held) : Held t := by
  refine ⟨fun x ticket => ?_, ?_⟩
  · rw [hrunning, hheld]
    exact h.running x ticket
  · rw [hheld]
    exact h.alone

/-- An idle worker takes a turn of a session that runs none. -/
theorem Held.take (h : Held s) (ticket : Nat) (hk : s.held k = none)
    (hidle : (s.session sid).running = none)
    (hrunning : ∀ x, (t.session x).running = if x = sid then some ticket else (s.session x).running)
    (hheld : ∀ x, t.held x = if x = k then some (sid, ticket) else s.held x) : Held t := by
  have hfree : ∀ k' i, s.held k' ≠ some (sid, i) := by
    intro k' i hk'
    have := (h.running sid i).mpr ⟨k', hk'⟩
    rw [hidle] at this
    contradiction
  refine ⟨fun x i => ?_, fun k₁ k₂ x i j h₁ h₂ => ?_⟩
  · rw [hrunning x]
    constructor
    · intro hx
      split at hx
      · next hsid => exact ⟨k, by rw [hheld, if_pos rfl, hsid, Option.some.inj hx]⟩
      · obtain ⟨k', hk'⟩ := (h.running x i).mp hx
        have hne : k' ≠ k := fun heq => by rw [heq, hk] at hk'; contradiction
        exact ⟨k', by rw [hheld, if_neg hne]; exact hk'⟩
    · rintro ⟨k', hk'⟩
      rw [hheld] at hk'
      split at hk'
      · obtain ⟨rfl, rfl⟩ := Prod.mk.inj (Option.some.inj hk')
        rw [if_pos rfl]
      · have hx : x ≠ sid := fun heq => hfree k' i (heq ▸ hk')
        rw [if_neg hx]
        exact (h.running x i).mpr ⟨k', hk'⟩
  · rw [hheld] at h₁ h₂
    split at h₁ <;> split at h₂
    · next e₁ e₂ => rw [e₁, e₂]
    · rw [← (Prod.mk.inj (Option.some.inj h₁)).1] at h₂
      exact absurd h₂ (hfree k₂ j)
    · rw [← (Prod.mk.inj (Option.some.inj h₂)).1] at h₁
      exact absurd h₁ (hfree k₁ i)
    · exact h.alone k₁ k₂ x i j h₁ h₂

/-- A worker lets go of the turn it holds. -/
theorem Held.release {ticket : Nat} (h : Held s) (hk : s.held k = some (sid, ticket))
    (hrunning : ∀ x, (t.session x).running = if x = sid then none else (s.session x).running)
    (hheld : ∀ x, t.held x = if x = k then none else s.held x) : Held t := by
  refine ⟨fun x i => ?_, fun k₁ k₂ x i j h₁ h₂ => ?_⟩
  · rw [hrunning x]
    constructor
    · intro hx
      split at hx <;> try contradiction
      next hsid =>
      obtain ⟨k', hk'⟩ := (h.running x i).mp hx
      have hne : k' ≠ k := by
        rintro rfl
        rw [hk] at hk'
        exact hsid (Prod.mk.inj (Option.some.inj hk')).1.symm
      exact ⟨k', by rw [hheld, if_neg hne]; exact hk'⟩
    · rintro ⟨k', hk'⟩
      rw [hheld] at hk'
      split at hk' <;> try contradiction
      next hne =>
      have hx : x ≠ sid := fun heq => hne (h.alone k' k sid i ticket (heq ▸ hk') hk)
      rw [if_neg hx]
      exact (h.running x i).mpr ⟨k', hk'⟩
  · rw [hheld] at h₁ h₂
    split at h₁ <;> try contradiction
    split at h₂ <;> try contradiction
    exact h.alone k₁ k₂ x i j h₁ h₂

/-- A submission is held by nobody yet. -/
theorem Held.submit (h : Held s) (options : TurnOptions) (now : Int) :
    Held (s.submitTurn config sid options now).1 := by
  obtain ⟨n, ⟨hs, -⟩ | ⟨-, -, turnId, hs⟩⟩ := submitTurn_cases config s sid options now
  · rw [hs]
    exact h.keep (fun _ => rfl) rfl
  · rw [hs]
    refine h.keep (fun x => ?_) rfl
    rw [enqueue_session]
    split
    · next hx => rw [hx]; rfl
    · rfl

/-- Cancelling takes no turn away from its worker. -/
theorem Held.cancel (h : Held s) : Held (s.cancelSession sid) := by
  obtain ⟨-, -, -, hworkers, -⟩ := cancelSession_rest s sid
  refine h.keep (fun x => ?_) ?_
  · rw [cancelSession_session]
    split
    · next hx => rw [hx]
    · rfl
  · funext x
    rw [ExecutorState.held, hworkers]
    rfl

/-- Nor does a shutdown. -/
theorem Held.shutdown (h : Held s) : Held s.shutdown := by
  by_cases hstop : s.stopping = true
  · rw [ExecutorState.shutdown, if_pos hstop]
    exact h
  · refine h.keep (fun x => by rw [shutdown_session (Bool.eq_false_iff.mpr hstop)]) ?_
    rw [ExecutorState.shutdown, if_neg hstop]
    rfl

/-- A turn that is taken is held by its worker alone. -/
theorem Held.takeTurn (h : Held s) (hr : Ready s) (hk : s.workers[k]? = some .waiting)
    (ht : TakeTurn s k t) : Held t := by
  have hlt := (List.getElem?_eq_some_iff.mp hk).1
  cases ht with
  | exit hready hstop => exact h.keep (fun _ => rfl) (held_move hk rfl rfl)
  | @idle sid ready hready hqueue =>
      refine h.keep (fun x => ?_) rfl
      rw [session_insert (s := s) rfl x]
      split
      · next hx => rw [hx]
      · rfl
  | @take sid ready ticket rest hready hqueue =>
      refine h.take ticket (held_of_place hk) (hr.head hready).2
        (fun x => ?_) (fun x => by rw [held_set (s := s) rfl hlt x]; rfl)
      rw [session_insert (s := s) rfl x]
      split <;> rfl

/-- A turn that is over is let go. -/
theorem Held.retire {ticket : Nat} (h : Held s) (hr : Ready s)
    (hk : s.workers[k]? = some (.retiring sid ticket)) : Held (s.retireTurn k sid) := by
  have hlt := (List.getElem?_eq_some_iff.mp hk).1
  have hrunning := (h.running sid ticket).mpr ⟨k, held_of_place hk⟩
  have hpresent : s.session sid ≠ {} := fun heq => by rw [heq] at hrunning; contradiction
  obtain ⟨hsession, -⟩ := retireTurn_session (k := k) hrunning (hr.idle sid (by rw [hrunning]; rfl))
  refine h.release (held_of_place hk) (fun x => ?_)
    (fun x => held_set (retireTurn_rest (k := k) hpresent).1 hlt x)
  rw [hsession]
  split <;> rfl

/-! ## the pending counters -/

/-- The pending counter is the number of queued turns, and within its limits. -/
structure Counted (config : SessionExecutorConfig) (s : ExecutorState) : Prop where
  pending : s.pendingTotal = Table.total (fun v => v.queue.length) s.sessions
  perSession : ∀ x, (s.session x).queue.length ≤ config.maxPendingPerSession
  limit : s.pendingTotal ≤ config.maxPendingTotal

/-- Nothing is pending in a new executor. -/
theorem Counted.init : Counted config (sessionExecutor config).init := by
  constructor <;> simp [sessionExecutor, ExecutorState.session]

/-- No subtraction of a queue's length from the counter wraps around. -/
theorem Counted.queue_le (h : Counted config s) (x : Bytes) :
    (s.session x).queue.length ≤ s.pendingTotal := by
  rw [h.pending]
  exact Table.getD_le_total (d := {}) (fun v : ExecutorSession => v.queue.length) rfl x s.sessions

/-- A turn is accepted where both limits have room. -/
theorem overload_none (h : s.overload config sid = none) :
    (s.session sid).queue.length < config.maxPendingPerSession ∧
      s.pendingTotal < config.maxPendingTotal := by
  unfold ExecutorState.session
  cases hl : s.sessions.lookup sid with
  | none =>
      simp only [ExecutorState.overload, hl, Bool.false_eq_true, if_false] at h
      split at h <;> try contradiction
      next htotal => exact ⟨config.perSession_pos, Nat.lt_of_not_le htotal⟩
  | some session =>
      simp only [ExecutorState.overload, hl, decide_eq_true_eq] at h
      split at h <;> try contradiction
      next hper =>
      split at h <;> try contradiction
      next htotal => exact ⟨Nat.lt_of_not_le hper, Nat.lt_of_not_le htotal⟩

/-- An update of one session with the counter following its queue. -/
theorem Counted.update (h : Counted config s) (sid : Bytes) {v : ExecutorSession}
    (hs : t.sessions = s.sessions.insert sid v)
    (hcount : t.pendingTotal + (s.session sid).queue.length = s.pendingTotal + v.queue.length)
    (hper : v.queue.length ≤ config.maxPendingPerSession)
    (hlimit : t.pendingTotal ≤ config.maxPendingTotal) : Counted config t := by
  refine ⟨?_, fun x => ?_, hlimit⟩
  · have hsum := Table.total_insert_getD (d := {}) (fun v : ExecutorSession => v.queue.length) rfl
      sid v s.sessions
    have hpending := h.pending
    rw [hs]
    unfold ExecutorState.session at hcount
    omega
  · rw [session_insert hs]
    split
    · exact hper
    · exact h.perSession x

/-- What leaves the sessions and the total keeps the count. -/
theorem Counted.keep (h : Counted config s) (hs : t.sessions = s.sessions)
    (hp : t.pendingTotal = s.pendingTotal) : Counted config t := by
  refine ⟨by rw [hs, hp]; exact h.pending, fun x => ?_, hp ▸ h.limit⟩
  rw [ExecutorState.session, hs]
  exact h.perSession x

/-- A submission that is accepted is counted. -/
theorem Counted.submit (h : Counted config s) (options : TurnOptions) (now : Int) :
    Counted config (s.submitTurn config sid options now).1 := by
  obtain ⟨n, ⟨hs, -⟩ | ⟨-, hover, turnId, hs⟩⟩ := submitTurn_cases config s sid options now
  · rw [hs]
    exact h.keep rfl rfl
  · obtain ⟨hper, htotal⟩ := overload_none hover
    rw [hs]
    refine h.update sid rfl ?_ ?_ ?_
    · show s.pendingTotal + 1 + (s.session sid).queue.length = _
      simp only [ExecutorState.session, List.length_append, List.length_singleton]
      omega
    · simp only [ExecutorState.session, List.length_append, List.length_singleton] at hper ⊢
      omega
    · exact htotal

/-- What is cancelled is no longer counted. -/
theorem Counted.cancel (h : Counted config s) : Counted config (s.cancelSession sid) := by
  have hle := h.queue_le sid
  have hlimit := h.limit
  unfold ExecutorState.cancelSession
  cases hl : s.sessions.lookup sid with
  | none => exact h
  | some session =>
      rw [session_of_lookup hl] at hle
      refine h.update sid rfl ?_ (Nat.zero_le _) (Nat.le_trans (Nat.sub_le _ _) hlimit)
      rw [session_of_lookup hl]
      show s.pendingTotal - session.queue.length + session.queue.length = s.pendingTotal + 0
      omega

/-- Subtracting one after the other is subtracting the sum. -/
theorem foldl_sub {α : Type} (f : α → Nat) (l : List α) (n : Nat) :
    l.foldl (fun n e => n - f e) n = n - (l.map f).sum := by
  induction l generalizing n with
  | nil => rfl
  | cons e l ih => rw [List.foldl_cons, ih, List.map_cons, List.sum_cons, Nat.sub_sub]

/-- Nothing is counted after a shutdown. -/
theorem Counted.shutdown (h : Counted config s) : Counted config s.shutdown := by
  by_cases hstop : s.stopping = true
  · rw [ExecutorState.shutdown, if_pos hstop]
    exact h
  · have hzero : s.shutdown.pendingTotal = 0 := by
      rw [ExecutorState.shutdown, if_neg hstop]
      show s.sessions.entries.foldl _ s.pendingTotal = 0
      rw [foldl_sub (fun e : Sigma fun _ : Bytes => ExecutorSession => e.2.queue.length), h.pending]
      exact Nat.sub_self _
    refine ⟨?_, fun x => ?_, hzero ▸ Nat.zero_le _⟩
    · rw [hzero, ExecutorState.shutdown, if_neg hstop]
      refine (Eq.trans ?_ (Table.total_eq_zero (f := fun _ => 0) (fun _ => rfl) s.sessions)).symm
      exact Table.total_mapValues (fun v : ExecutorSession => v.queue.length) _ s.sessions
    · rw [shutdown_session (Bool.eq_false_iff.mpr hstop)]
      exact Nat.zero_le _

/-- A turn that is taken is no longer pending. -/
theorem Counted.take (h : Counted config s) (ht : TakeTurn s k t) : Counted config t := by
  have hlimit := h.limit
  cases ht with
  | exit hready hstop => exact h.keep rfl rfl
  | @idle sid ready hready hqueue => exact h.update sid rfl rfl (h.perSession sid) hlimit
  | @take sid ready ticket rest hready hqueue =>
      have hle := h.queue_le sid
      have hper := h.perSession sid
      rw [hqueue, List.length_cons] at hle hper
      refine h.update sid rfl ?_ (Nat.le_of_succ_le hper)
        (Nat.le_trans (Nat.sub_le _ _) hlimit)
      rw [hqueue, List.length_cons]
      show s.pendingTotal - 1 + (rest.length + 1) = s.pendingTotal + rest.length
      omega

/-- A turn that is over was not pending. -/
theorem Counted.retire (h : Counted config s) (hpresent : s.session sid ≠ {}) :
    Counted config (s.retireTurn k sid) := by
  unfold ExecutorState.retireTurn
  simp only [lookup_of_session hpresent]
  split
  · exact h.update sid rfl rfl (h.perSession sid) h.limit
  · split
    · next hempty =>
      refine ⟨?_, fun x => ?_, h.limit⟩
      · have hsum := Table.total_erase_getD (d := {}) (fun v : ExecutorSession => v.queue.length) rfl
          sid s.sessions
        have hlength : ((s.sessions.lookup sid).getD {}).queue.length = 0 := by
          show (s.session sid).queue.length = 0
          rw [hempty, List.length_nil]
        have hpending := h.pending
        show s.pendingTotal = Table.total _ (s.sessions.erase sid)
        omega
      · rw [session_erase (s := s) rfl x]
        split
        · exact Nat.zero_le _
        · exact h.perSession x
    · exact h.update sid rfl rfl (h.perSession sid) h.limit

/-! ## every run -/

/-- The three invariants together. -/
structure Scheduling (config : SessionExecutorConfig) (s : ExecutorState) : Prop where
  ready : Ready s
  held : Held s
  counted : Counted config s

/-- Every step of a worker keeps the schedule. -/
theorem Scheduling.worker (h : Scheduling config s) {b : WorkerAction}
    (hs : workerStep s k b = some t) : Scheduling config t := by
  obtain ⟨hready, hheld, hcounted⟩ := h
  cases b with
  | take =>
      simp only [workerStep] at hs
      split at hs <;> try contradiction
      next hk =>
      have ht := takeTurn_cases (fun x hx => hready.present hx) hs
      exact ⟨hready.take ht, hheld.takeTurn hready hk ht, hcounted.take ht⟩
  | retire =>
      simp only [workerStep] at hs
      split at hs <;> try contradiction
      next sid ticket hk =>
      obtain rfl := Option.some.inj hs
      have hrunning := (hheld.running sid ticket).mpr ⟨k, held_of_place hk⟩
      have hpresent : s.session sid ≠ {} := fun heq => by rw [heq] at hrunning; contradiction
      exact ⟨hready.retire hrunning, hheld.retire hready hk, hcounted.retire hpresent⟩
  | begin now | returned reply | threw error now =>
      simp only [workerStep] at hs
      split at hs <;> try contradiction
      next hk =>
      obtain rfl := Option.some.inj hs
      exact ⟨hready.keep rfl rfl rfl rfl, hheld.keep (fun _ => rfl) (held_move hk rfl rfl),
        hcounted.keep rfl rfl⟩

/-- So does every step. -/
theorem Scheduling.step (h : Scheduling config s) (hs : executorStep config s a = some t) :
    Scheduling config t := by
  cases a with
  | submit sid options now =>
      obtain rfl := Option.some.inj hs
      exact ⟨h.ready.submit options now, h.held.submit options now, h.counted.submit options now⟩
  | cancel sid =>
      obtain rfl := Option.some.inj hs
      exact ⟨h.ready.cancel, h.held.cancel, h.counted.cancel⟩
  | shutdown =>
      obtain rfl := Option.some.inj hs
      exact ⟨h.ready.shutdown, h.held.shutdown, h.counted.shutdown⟩
  | join =>
      simp only [executorStep] at hs
      split at hs <;> try contradiction
      obtain rfl := Option.some.inj hs
      exact ⟨h.ready.keep rfl rfl rfl rfl, h.held.keep (fun _ => rfl) rfl, h.counted.keep rfl rfl⟩
  | worker k b => exact h.worker hs

/-- The schedule is in order in every reachable state. -/
theorem scheduling_of_reachable (h : (sessionExecutor config).Reachable s) : Scheduling config s :=
  Machine.Reachable.rec_inv ⟨Ready.init, Held.init, Counted.init⟩ (fun _ _ _ _ hp hs => hp.step hs) h

end ByteTurn

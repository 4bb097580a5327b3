import ByteTurn.SessionExecutor.Turns

/-!
# ByteTurn.SessionExecutor.Cancellation

What `cancel_session` reaches, and what it does not.

The section fails the turns that wait and flags the one that runs
(`cancelSession_get`); there is no third place, since a turn is made the
running one in the section that takes it off the queue.  A turn that has left
the lane stays out of it (`Gone.step`).  In a run in which nothing cancels a
session its turns are taken in order and none is dropped, and the flag and the
promise of each are what the worker that holds it makes of them
(`Undisturbed`).
-/

namespace ByteTurn

variable {config : SessionExecutorConfig} {s t r : ExecutorState} {a : ExecutorAction}
  {as : List ExecutorAction} {x y : Bytes} {i k : Nat} {w : Work}

/-! ## the section -/

/-- What `cancel_session` and `shutdown` do to the work objects of one session. -/
theorem cancelWorks_get (session : ExecutorSession) (error : Exception) (works : List Work)
    (hnodup : session.queue.Nodup) (hapart : ∀ i, session.running = some i → i ∉ session.queue)
    (j : Nat) : (session.cancelWorks error works)[j]? =
      if j ∈ session.queue then works[j]?.map (Work.drop error)
      else if session.running = some j then works[j]?.map Work.cancel else works[j]? := by
  have hfold : ∀ (queue : List Nat) (works : List Work), queue.Nodup →
      (queue.foldl (fun works i => works.modify i (Work.drop error)) works)[j]? =
        if j ∈ queue then works[j]?.map (Work.drop error) else works[j]? := by
    intro queue
    induction queue with
    | nil => intro works _; rfl
    | cons i queue ih =>
        intro works hnodup
        obtain ⟨hout, hnodup⟩ := List.nodup_cons.mp hnodup
        rw [List.foldl_cons, ih _ hnodup]
        by_cases hj : j = i
        · subst hj
          rw [if_neg hout, if_pos List.mem_cons_self, List.getElem?_modify]
          simp
        · rw [List.getElem?_modify_ne _ _ (Ne.symm hj)]
          simp only [List.mem_cons, hj, false_or]
  unfold ExecutorSession.cancelWorks
  rw [hfold _ _ hnodup]
  cases hrunning : session.running with
  | none => simp
  | some ticket =>
      have hout := hapart ticket hrunning
      by_cases hj : j = ticket
      · subst hj
        rw [if_neg hout, if_neg hout, if_pos rfl, List.getElem?_modify]
        simp
      · have hne : some ticket ≠ some j := fun heq => hj (Option.some.inj heq).symm
        dsimp only
        rw [List.getElem?_modify_ne _ _ (Ne.symm hj), if_neg hne]

theorem cancelSession_get (hp : Placed s) (x : Bytes) (j : Nat) :
    (s.cancelSession x).works[j]? =
      if j ∈ (s.session x).queue then s.works[j]?.map (Work.drop (lit "turn cancelled"))
      else if (s.session x).running = some j then s.works[j]?.map Work.cancel
      else s.works[j]? := by
  unfold ExecutorState.cancelSession
  cases hl : s.sessions.lookup x with
  | none =>
      have hempty : s.session x = {} := by rw [ExecutorState.session, hl]; rfl
      rw [hempty]
      simp
  | some session =>
      have hsession := session_of_lookup hl
      subst hsession
      exact cancelWorks_get _ _ _ (hp.nodup x) (hp.apart x) j

/-- The works of another session are left alone. -/
theorem cancelSession_other (hp : Placed s) (hw : s.works[i]? = some w) (hne : w.sessionId ≠ x) :
    (s.cancelSession x).works[i]? = some w := by
  have howner : owner s.works i = some w.sessionId := by rw [owner, hw]; rfl
  have hforeign (h : owner s.works i = some x) : False :=
    hne (Option.some.inj (howner.symm.trans h))
  rw [cancelSession_get hp, if_neg fun hmem => hforeign (hp.queued x i hmem),
    if_neg fun hrunning => hforeign (hp.running x i hrunning)]
  exact hw

/-! ## work objects only grow -/

/-- A work object keeps its identity, its deadline, its flag and its promise. -/
structure Work.Grows (w w' : Work) : Prop where
  sessionId : w'.sessionId = w.sessionId
  deadline : w'.deadline = w.deadline
  cancelled : w.cancelled = true → w'.cancelled = true
  promise : w.promise <+: w'.promise

theorem Work.Grows.refl (w : Work) : w.Grows w := ⟨rfl, rfl, id, List.prefix_rfl⟩

theorem Work.Grows.trans {w₁ w₂ w₃ : Work} (h₁ : w₁.Grows w₂) (h₂ : w₂.Grows w₃) : w₁.Grows w₃ :=
  ⟨h₂.sessionId.trans h₁.sessionId, h₂.deadline.trans h₁.deadline,
    fun h => h₂.cancelled (h₁.cancelled h), h₁.promise.trans h₂.promise⟩

theorem Work.grows_cancel (w : Work) : w.Grows w.cancel := ⟨rfl, rfl, fun _ => rfl, List.prefix_rfl⟩

theorem Work.grows_drop (error : Exception) (w : Work) : w.Grows (w.drop error) :=
  ⟨rfl, rfl, fun _ => rfl, List.prefix_append _ _⟩

theorem Work.grows_begin (now : Int) (w : Work) : w.Grows (w.begin now) :=
  ⟨rfl, rfl, fun h => by simp [Work.begin, h], List.prefix_rfl⟩

theorem Work.grows_complete (reply : Bytes) (w : Work) : w.Grows (w.complete reply) :=
  ⟨rfl, rfl, id, List.prefix_append _ _⟩

theorem Work.grows_fail (error : Exception) (now : Int) (w : Work) : w.Grows (w.fail error now) :=
  ⟨rfl, rfl, id, List.prefix_append _ _⟩

/-- No work object is lost, and each of them grows. -/
def Grown (works works' : List Work) : Prop :=
  ∀ (i : Nat) (w : Work), works[i]? = some w → ∃ w', works'[i]? = some w' ∧ w.Grows w'

theorem Grown.refl (works : List Work) : Grown works works := fun _ w hw => ⟨w, hw, .refl w⟩

theorem Grown.trans {l₁ l₂ l₃ : List Work} (h₁ : Grown l₁ l₂) (h₂ : Grown l₂ l₃) : Grown l₁ l₃ := by
  intro i w hw
  obtain ⟨w', hw', hgrows⟩ := h₁ i w hw
  obtain ⟨w'', hw'', hgrows'⟩ := h₂ i w' hw'
  exact ⟨w'', hw'', hgrows.trans hgrows'⟩

theorem grown_modify {f : Work → Work} (hf : ∀ w : Work, w.Grows (f w)) (works : List Work) (j : Nat) :
    Grown works (works.modify j f) := by
  intro i w hw
  rw [List.getElem?_modify, hw]
  by_cases hj : j = i
  · exact ⟨f w, by simp [hj], hf w⟩
  · exact ⟨w, by simp [hj], .refl w⟩

theorem grown_cancelWorks (session : ExecutorSession) (error : Exception) (works : List Work) :
    Grown works (session.cancelWorks error works) := by
  have hfold : ∀ (queue : List Nat) (works : List Work),
      Grown works (queue.foldl (fun works i => works.modify i (Work.drop error)) works) := by
    intro queue
    induction queue with
    | nil => exact Grown.refl
    | cons i queue ih => exact fun works => (grown_modify (Work.grows_drop error) works i).trans (ih _)
  unfold ExecutorSession.cancelWorks
  split
  · exact (grown_modify Work.grows_cancel works _).trans (hfold _ _)
  · exact hfold _ _

theorem grown_shutdown (s : ExecutorState) : Grown s.works s.shutdown.works := by
  have hfold : ∀ (entries : List (Sigma fun _ : Bytes => ExecutorSession)) (works : List Work),
      Grown works (entries.foldl (fun works e => e.2.cancelWorks (lit "executor stopped") works)
        works) := by
    intro entries
    induction entries with
    | nil => exact Grown.refl
    | cons e entries ih => exact fun works => (grown_cancelWorks e.2 _ works).trans (ih _)
  unfold ExecutorState.shutdown
  split
  · exact .refl _
  · exact hfold _ _

theorem takeTurn_works (hs : s.takeTurn k = some t) : t.works = s.works := by
  unfold ExecutorState.takeTurn at hs
  split at hs
  · split at hs <;> try contradiction
    obtain rfl := Option.some.inj hs
    rfl
  · split at hs
    · obtain rfl := Option.some.inj hs
      rfl
    · split at hs <;> obtain rfl := Option.some.inj hs <;> rfl

theorem retireTurn_works : (s.retireTurn k x).works = s.works := by
  unfold ExecutorState.retireTurn
  split
  · rfl
  · dsimp only
    split
    · rfl
    · split <;> rfl

theorem step_grown (hs : executorStep config s a = some t) : Grown s.works t.works := by
  cases a with
  | submit y options now =>
      obtain rfl := Option.some.inj hs
      obtain ⟨n, ⟨hs, -⟩ | ⟨-, -, turnId, hs⟩⟩ := submitTurn_cases config s y options now
      · rw [hs]
        exact .refl _
      · rw [hs]
        intro i w hw
        refine ⟨w, ?_, .refl w⟩
        exact (List.getElem?_append_left (List.getElem?_eq_some_iff.mp hw).1).trans hw
  | cancel y =>
      obtain rfl := Option.some.inj hs
      unfold ExecutorState.cancelSession
      split
      · exact .refl _
      · exact grown_cancelWorks _ _ _
  | shutdown =>
      obtain rfl := Option.some.inj hs
      exact grown_shutdown s
  | join =>
      simp only [executorStep] at hs
      split at hs <;> try contradiction
      obtain rfl := Option.some.inj hs
      exact .refl _
  | worker k b =>
      cases b with
      | take =>
          simp only [executorStep, workerStep] at hs
          split at hs <;> try contradiction
          rw [takeTurn_works hs]
          exact .refl _
      | begin now =>
          simp only [executorStep, workerStep] at hs
          split at hs <;> try contradiction
          obtain rfl := Option.some.inj hs
          exact grown_modify (Work.grows_begin now) _ _
      | returned reply =>
          simp only [executorStep, workerStep] at hs
          split at hs <;> try contradiction
          obtain rfl := Option.some.inj hs
          exact grown_modify (Work.grows_complete reply) _ _
      | threw error now =>
          simp only [executorStep, workerStep] at hs
          split at hs <;> try contradiction
          obtain rfl := Option.some.inj hs
          exact grown_modify (Work.grows_fail error now) _ _
      | retire =>
          simp only [executorStep, workerStep] at hs
          split at hs <;> try contradiction
          obtain rfl := Option.some.inj hs
          rw [retireTurn_works]
          exact .refl _

theorem leads_grown (hr : (sessionExecutor config).Reachable s)
    (h : (sessionExecutor config).Leads s t) : Grown s.works t.works :=
  Machine.Leads.rec_rel (R := fun s t => Grown s.works t.works) (fun _ => .refl _)
    (fun _ _ _ => .trans) (fun _ _ _ _ hs => step_grown hs) hr h

theorem Grown.owner (h : Grown s.works t.works) (ho : owner s.works i = some x) :
    owner t.works i = some x := by
  obtain ⟨w, hw, rfl⟩ := Option.map_eq_some_iff.mp ho
  obtain ⟨w', hw', hgrows⟩ := h i w hw
  rw [ByteTurn.owner, hw', Option.map_some, hgrows.sessionId]

/-! ## turns that have left -/

/-- The action cancels the session `x`. -/
def ExecutorAction.cancels (x : Bytes) : ExecutorAction → Bool
  | .cancel y => y = x
  | .shutdown => true
  | _ => false

/-- The tickets of a session that have been started, in their order. -/
def ExecutorState.startedOf (s : ExecutorState) (x : Bytes) : List Nat :=
  (s.started.filter (·.1 = x)).map Prod.snd

/-- What one step may do to the queue of a session. -/
inductive QueueStep (x : Bytes) (s : ExecutorState) (a : ExecutorAction) (t : ExecutorState) :
    Prop where
  | keep (hqueue : (t.session x).queue = (s.session x).queue)
      (hstarted : t.startedOf x = s.startedOf x)
      (howner : ∀ i, owner t.works i = some x → owner s.works i = some x)
  | arrive (hqueue : (t.session x).queue = (s.session x).queue ++ [s.works.length])
      (hstarted : t.startedOf x = s.startedOf x)
      (howner : ∀ i, owner t.works i = some x ↔ i = s.works.length ∨ owner s.works i = some x)
      (hsubmit : ∃ options now, a = .submit x options now)
      (hnew : ∃ w, t.works[s.works.length]? = some w ∧ w.sessionId = x ∧ w.cancelled = false ∧
        w.promise = [])
  | start (i : Nat) (hqueue : (s.session x).queue = i :: (t.session x).queue)
      (hstarted : t.startedOf x = s.startedOf x ++ [i])
      (howner : ∀ i, owner t.works i = some x → owner s.works i = some x)
  | clear (hcancels : a.cancels x = true) (hqueue : (t.session x).queue = [])
      (hstarted : t.startedOf x = s.startedOf x)
      (howner : ∀ i, owner t.works i = some x → owner s.works i = some x)

theorem Grown.length_le {works works' : List Work} (h : Grown works works') :
    works.length ≤ works'.length := by
  by_contra hlt
  have hw := List.getElem?_eq_getElem (Nat.not_le.mp hlt)
  obtain ⟨w', hw', -⟩ := h _ _ hw
  exact absurd (List.getElem?_eq_some_iff.mp hw').1 (Nat.lt_irrefl _)

theorem Grown.owner_of_lt (h : Grown s.works t.works) (hi : i < s.works.length)
    (ho : ByteTurn.owner t.works i = some x) : ByteTurn.owner s.works i = some x := by
  have hw := List.getElem?_eq_getElem hi
  obtain ⟨w', hw', hgrows⟩ := h i _ hw
  rw [ByteTurn.owner, hw', Option.map_some] at ho
  rw [ByteTurn.owner, hw, Option.map_some, ← hgrows.sessionId]
  exact ho

/-- Where no work object is new, the owners are the old ones. -/
theorem Grown.owner_old (h : Grown s.works t.works) (hlength : t.works.length = s.works.length)
    (i : Nat) (ho : ByteTurn.owner t.works i = some x) : ByteTurn.owner s.works i = some x :=
  h.owner_of_lt (hlength ▸ owner_lt ho) ho

theorem shutdown_length (s : ExecutorState) : s.shutdown.works.length = s.works.length := by
  have hfold : ∀ (entries : List (Sigma fun _ : Bytes => ExecutorSession)) (works : List Work),
      (entries.foldl (fun works e => e.2.cancelWorks (lit "executor stopped") works)
        works).length = works.length := by
    intro entries
    induction entries with
    | nil => intro works; rfl
    | cons e entries ih => intro works; rw [List.foldl_cons, ih, length_cancelWorks]
  unfold ExecutorState.shutdown
  split
  · rfl
  · exact hfold _ _

theorem cancelSession_length : (s.cancelSession x).works.length = s.works.length := by
  unfold ExecutorState.cancelSession
  split
  · rfl
  · exact length_cancelWorks _ _ _

theorem enqueue_owner (turnId : Bytes) (options : TurnOptions) (now : Int) (i : Nat) :
    owner (s.enqueue y turnId options now).works i =
      if i = s.works.length then some y else owner s.works i :=
  owner_concat s.works _ i

theorem take_queue (hr : Ready s) (hs : s.takeTurn k = some t) : QueueStep x s a t := by
  have hworks := takeTurn_works hs
  have howner (i : Nat) (ho : owner t.works i = some x) : owner s.works i = some x := hworks ▸ ho
  cases takeTurn_cases (fun y hy => hr.present hy) hs with
  | exit hready hstop => exact .keep rfl rfl howner
  | @idle y ready hready hqueue =>
      refine .keep ?_ rfl howner
      rw [session_insert (s := s) rfl x]
      split
      · next hx => rw [hx]
      · rfl
  | @take y ready ticket rest hready hqueue =>
      by_cases hx : x = y
      · subst hx
        refine .start ticket ?_ ?_ howner
        · rw [hqueue, session_insert (s := s) rfl x, if_pos rfl]
        · simp [ExecutorState.startedOf, List.filter_append]
      · refine .keep ?_ ?_ howner
        · rw [session_insert (s := s) rfl x, if_neg hx]
        · simp [ExecutorState.startedOf, List.filter_append, Ne.symm hx]

/-- **Step lemma**: the queue of a session changes at its ends only, or is cancelled. -/
theorem step_queue (hreach : (sessionExecutor config).Reachable s)
    (hs : executorStep config s a = some t) (x : Bytes) : QueueStep x s a t := by
  have hgrown := step_grown hs
  obtain ⟨hr, hh, -⟩ := scheduling_of_reachable hreach
  cases a with
  | submit y options now =>
      obtain rfl := Option.some.inj hs
      obtain ⟨n, ⟨hs, -⟩ | ⟨-, -, turnId, hs⟩⟩ := submitTurn_cases config s y options now
      · rw [hs]
        exact .keep rfl rfl fun _ => id
      · rw [hs]
        have hsession := enqueue_session (s := { s with nextTurnId := n }) y turnId options now x
        have howner := enqueue_owner (s := { s with nextTurnId := n }) (y := y) turnId options now
        by_cases hx : x = y
        · rw [if_pos hx] at hsession
          subst hx
          refine .arrive (by rw [hsession]; rfl) rfl (fun i => ?_) ⟨options, now, rfl⟩
            ⟨_, List.getElem?_concat_length, rfl, rfl, rfl⟩
          rw [howner]
          by_cases hi : i = s.works.length
          · simp [hi]
          · simp [hi]
        · rw [if_neg hx] at hsession
          refine .keep (by rw [hsession]; rfl) rfl fun i ho => ?_
          rw [howner] at ho
          split at ho
          · exact absurd (Option.some.inj ho).symm hx
          · exact ho
  | cancel y =>
      obtain rfl := Option.some.inj hs
      have hsession := cancelSession_session s y x
      obtain ⟨-, -, -, -, hstarted, -⟩ := cancelSession_rest s y
      have hstartedOf : (s.cancelSession y).startedOf x = s.startedOf x := by
        rw [ExecutorState.startedOf, hstarted]
        rfl
      have howner := hgrown.owner_old (x := x) cancelSession_length
      by_cases hx : x = y
      · rw [if_pos hx] at hsession
        exact .clear (decide_eq_true hx.symm) (by rw [hsession]) hstartedOf howner
      · rw [if_neg hx] at hsession
        exact .keep (by rw [hsession]) hstartedOf howner
  | shutdown =>
      obtain rfl := Option.some.inj hs
      have howner := hgrown.owner_old (x := x) (shutdown_length s)
      by_cases hstop : s.stopping = true
      · rw [ExecutorState.shutdown, if_pos hstop]
        exact .keep rfl rfl fun _ => id
      · have hsession := shutdown_session (Bool.eq_false_iff.mpr hstop) x
        refine .clear rfl (by rw [hsession]) ?_ howner
        rw [ExecutorState.shutdown, if_neg hstop]
        rfl
  | join =>
      simp only [executorStep] at hs
      split at hs <;> try contradiction
      obtain rfl := Option.some.inj hs
      exact .keep rfl rfl fun _ => id
  | worker k b =>
      cases b with
      | take =>
          simp only [executorStep, workerStep] at hs
          split at hs <;> try contradiction
          exact take_queue hr hs
      | begin now | returned reply | threw error now =>
          simp only [executorStep, workerStep] at hs
          split at hs <;> try contradiction
          obtain rfl := Option.some.inj hs
          exact .keep rfl rfl (hgrown.owner_old (List.length_modify _ _ _))
      | retire =>
          simp only [executorStep, workerStep] at hs
          split at hs <;> try contradiction
          next y ticket hk =>
          obtain rfl := Option.some.inj hs
          have hrunning := (hh.running y ticket).mpr ⟨k, held_of_place hk⟩
          have hpresent : s.session y ≠ {} := fun heq => by rw [heq] at hrunning; contradiction
          obtain ⟨hsession, -⟩ := retireTurn_session (k := k) hrunning
            (hr.idle y (by rw [hrunning]; rfl))
          obtain ⟨-, -, -, -, -, hstarted, -⟩ := retireTurn_rest (k := k) hpresent
          refine .keep ?_ ?_ (hgrown.owner_old (by rw [retireTurn_works]))
          · rw [hsession]
            split
            · next hx => rw [hx]
            · rfl
          · rw [ExecutorState.startedOf, hstarted]
            rfl

/-- A turn that neither waits nor has been started. -/
structure Gone (x : Bytes) (i : Nat) (s : ExecutorState) : Prop where
  owner : owner s.works i = some x
  waiting : i ∉ (s.session x).queue
  started : i ∉ s.startedOf x

theorem Gone.step (h : Gone x i s) (hreach : (sessionExecutor config).Reachable s)
    (hs : executorStep config s a = some t) : Gone x i t := by
  have howner := (step_grown hs).owner h.owner
  have hlt := owner_lt h.owner
  cases step_queue hreach hs x with
  | keep hqueue hstarted _ => exact ⟨howner, hqueue ▸ h.waiting, hstarted ▸ h.started⟩
  | arrive hqueue hstarted _ _ _ =>
      refine ⟨howner, ?_, hstarted ▸ h.started⟩
      rw [hqueue, List.mem_append, List.mem_singleton]
      rintro (hmem | heq)
      · exact h.waiting hmem
      · omega
  | start j hqueue hstarted _ =>
      have hwaiting := h.waiting
      rw [hqueue, List.mem_cons, not_or] at hwaiting
      refine ⟨howner, hwaiting.2, ?_⟩
      rw [hstarted, List.mem_append, List.mem_singleton]
      rintro (hmem | heq)
      · exact h.started hmem
      · exact hwaiting.1 heq
  | clear _ hqueue hstarted _ => exact ⟨howner, by simp [hqueue], hstarted ▸ h.started⟩

theorem Gone.leads (h : Gone x i s) (hreach : (sessionExecutor config).Reachable s)
    (hleads : (sessionExecutor config).Leads s t) : Gone x i t :=
  Machine.Leads.rec_stable (P := Gone x i) (fun _ _ _ hr hp hs => hp.step hr hs) hreach h hleads

/-- A waiting turn has not been started, and a running one has. -/
theorem started_of_lane (hreach : (sessionExecutor config).Reachable s) :
    (∀ i ∈ (s.session x).queue, i ∉ s.startedOf x) ∧
      ∀ i, (s.session x).running = some i → i ∈ s.startedOf x := by
  obtain ⟨l, hserial, hin⟩ := session_lane hreach x
  have hstarted : s.startedOf x = l.started := hin.started.symm
  rw [hstarted, ← hin.waiting, ← hin.running]
  constructor
  · intro i hi hmem
    have hnodup := hserial.increasing.nodup.sublist hserial.fifo
    exact (List.nodup_append.mp hnodup).2.2 i hmem i hi rfl
  · intro i hi
    rw [hserial.serial, hi]
    simp

/-! ## sessions that are left alone -/

/-- The queue of a session that was just cancelled is empty. -/
theorem queue_cancelled (hr : Ready s) (hs : executorStep config s a = some t)
    (hcancels : a.cancels x = true) : (t.session x).queue = [] := by
  cases a with
  | cancel y =>
      obtain rfl := Option.some.inj hs
      obtain rfl : y = x := of_decide_eq_true hcancels
      rw [cancelSession_session, if_pos rfl]
  | shutdown =>
      obtain rfl := Option.some.inj hs
      by_cases hstop : s.stopping = true
      · rw [ExecutorState.shutdown, if_pos hstop]
        exact hr.stopped hstop x
      · rw [shutdown_session (Bool.eq_false_iff.mpr hstop)]
  | submit _ _ _ | join | worker _ _ => contradiction

/-- A worker holds no turn that waits. -/
theorem Placed.held_notMem (h : Placed s) (hh : Held s) {place : WorkerPlace} {ticket : Nat}
    (hk : s.workers[k]? = some place) (hturn : place.turn = some (y, ticket))
    (hi : i ∈ (s.session x).queue) : i ≠ ticket := by
  rintro rfl
  have hrunning := (hh.running y i).mpr ⟨k, (held_of_place hk).trans hturn⟩
  obtain rfl : y = x :=
    Option.some.inj ((h.running y i hrunning).symm.trans (h.queued x i hi))
  exact h.apart y i hrunning hi

/-- Nothing but a cancellation touches a turn that waits. -/
theorem queued_same (hreach : (sessionExecutor config).Reachable s)
    (hs : executorStep config s a = some t) (haside : a.cancels x = false)
    (hi : i ∈ (s.session x).queue) : t.works[i]? = s.works[i]? := by
  have hp := placed_of_reachable hreach
  obtain ⟨hr, hh, -⟩ := scheduling_of_reachable hreach
  have howner := hp.queued x i hi
  cases a with
  | submit y options now =>
      obtain rfl := Option.some.inj hs
      obtain ⟨n, ⟨hs, -⟩ | ⟨-, -, turnId, hs⟩⟩ := submitTurn_cases config s y options now
      · rw [hs]
      · rw [hs]
        exact List.getElem?_append_left (owner_lt howner)
  | cancel y =>
      obtain rfl := Option.some.inj hs
      obtain ⟨w, hw, hsession⟩ := Option.map_eq_some_iff.mp howner
      have hne : w.sessionId ≠ y := fun heq => by
        rw [hsession] at heq
        exact absurd (decide_eq_true heq.symm) (Bool.eq_false_iff.mp haside)
      rw [cancelSession_other hp hw hne, hw]
  | shutdown => contradiction
  | join =>
      simp only [executorStep] at hs
      split at hs <;> try contradiction
      obtain rfl := Option.some.inj hs
      rfl
  | worker k b =>
      cases b with
      | take =>
          simp only [executorStep, workerStep] at hs
          split at hs <;> try contradiction
          rw [takeTurn_works hs]
      | begin now | returned reply | threw error now =>
          simp only [executorStep, workerStep] at hs
          split at hs <;> try contradiction
          next hk =>
          obtain rfl := Option.some.inj hs
          exact List.getElem?_modify_ne _ _ (Ne.symm (hp.held_notMem hh hk rfl hi))
      | retire =>
          simp only [executorStep, workerStep] at hs
          split at hs <;> try contradiction
          obtain rfl := Option.some.inj hs
          rw [retireTurn_works]

/-- A turn that waits has not been cancelled. -/
def Waiting (s : ExecutorState) : Prop :=
  ∀ x, ∀ i ∈ (s.session x).queue, ∃ w, s.works[i]? = some w ∧ w.sessionId = x ∧ w.cancelled = false

theorem Waiting.step (h : Waiting s) (hreach : (sessionExecutor config).Reachable s)
    (hs : executorStep config s a = some t) : Waiting t := by
  intro x i hi
  by_cases hcancels : a.cancels x = true
  · rw [queue_cancelled (scheduling_of_reachable hreach).ready hs hcancels] at hi
    contradiction
  · have haside := Bool.eq_false_iff.mpr hcancels
    have hold (hmem : i ∈ (s.session x).queue) :
        ∃ w, t.works[i]? = some w ∧ w.sessionId = x ∧ w.cancelled = false := by
      obtain ⟨w, hw, hsession, hflag⟩ := h x i hmem
      exact ⟨w, (queued_same hreach hs haside hmem).trans hw, hsession, hflag⟩
    cases step_queue hreach hs x with
    | keep hqueue _ _ => exact hold (hqueue ▸ hi)
    | start j hqueue _ _ => exact hold (hqueue ▸ List.mem_cons_of_mem _ hi)
    | clear hclears _ _ _ => exact absurd hclears hcancels
    | arrive hqueue _ _ _ hnew =>
        rw [hqueue, List.mem_append, List.mem_singleton] at hi
        rcases hi with hmem | rfl
        · exact hold hmem
        · obtain ⟨w, hw, hsession, hflag, -⟩ := hnew
          exact ⟨w, hw, hsession, hflag⟩

theorem waiting_of_reachable (h : (sessionExecutor config).Reachable s) : Waiting s := by
  refine Machine.Reachable.rec_inv (P := Waiting) (fun x i hi => ?_)
    (fun _ _ _ hr hp hs => hp.step hr hs) h
  simp [sessionExecutor, ExecutorState.session] at hi

/-! ## runs that leave a session alone -/

/-- What a step makes of the turn `i`: the worker that holds it begins it, or sets
its promise to what its task returned or threw. -/
def ExecutorState.served (s : ExecutorState) (i : Nat) (w : Work) : ExecutorAction → Work
  | .worker k (.begin now) => if s.held k = some (w.sessionId, i) then w.begin now else w
  | .worker k (.returned reply) => if s.held k = some (w.sessionId, i) then w.complete reply else w
  | .worker k (.threw error now) =>
      if s.held k = some (w.sessionId, i) then w.fail error now else w
  | _ => w

/-- What a run makes of the turn `i`. -/
def ExecutorState.servedOver (config : SessionExecutorConfig) (i : Nat) :
    ExecutorState → List ExecutorAction → Work → Work
  | _, [], w => w
  | s, a :: as, w => match executorStep config s a with
    | some t => t.servedOver config i as (s.served i w a)
    | none => w

/-- A turn keeps its session and its deadline, and is flagged only where it begins
after the deadline. -/
theorem served_keeps (s : ExecutorState) (i : Nat) (w : Work) (a : ExecutorAction) :
    (s.served i w a).sessionId = w.sessionId ∧ (s.served i w a).deadline = w.deadline ∧
      ((s.served i w a).cancelled = true →
        w.cancelled = true ∨ ∃ k now, a = .worker k (.begin now) ∧ w.deadline ≤ now) := by
  unfold ExecutorState.served
  split
  · next k now =>
    split
    · refine ⟨rfl, rfl, fun hflag => ?_⟩
      simp only [Work.begin, Bool.or_eq_true] at hflag
      exact hflag.imp id fun hexpired => ⟨k, now, rfl, of_decide_eq_true hexpired⟩
    · exact ⟨rfl, rfl, .inl⟩
  · split <;> exact ⟨rfl, rfl, .inl⟩
  · split <;> exact ⟨rfl, rfl, .inl⟩
  · exact ⟨rfl, rfl, .inl⟩

/-- By induction on the run: a turn keeps its deadline, and is flagged only where it
begins after it. -/
theorem servedOver_keeps (config : SessionExecutorConfig) (s : ExecutorState) (i : Nat)
    (as : List ExecutorAction) (w : Work) :
    (s.servedOver config i as w).deadline = w.deadline ∧
      ((s.servedOver config i as w).cancelled = true →
        w.cancelled = true ∨ ∃ k now, .worker k (.begin now) ∈ as ∧ w.deadline ≤ now) := by
  induction as generalizing s w with
  | nil => exact ⟨rfl, .inl⟩
  | cons a as ih =>
      rw [ExecutorState.servedOver]
      split
      · next t _ =>
        obtain ⟨-, hdeadline, hfirst⟩ := served_keeps s i w a
        obtain ⟨hsame, hlater⟩ := ih t (s.served i w a)
        refine ⟨hsame.trans hdeadline, fun hflag => ?_⟩
        obtain hflag | ⟨k, now, hmem, hpast⟩ := hlater hflag
        · obtain hflag | ⟨k, now, rfl, hpast⟩ := hfirst hflag
          · exact .inl hflag
          · exact .inr ⟨k, now, List.mem_cons_self, hpast⟩
        · exact .inr ⟨k, now, List.mem_cons_of_mem _ hmem, hdeadline ▸ hpast⟩
      · exact ⟨rfl, .inl⟩

/-- The part of a worker's iteration that changes a work object changes the one of
the turn the worker holds. -/
theorem modify_held (hreach : (sessionExecutor config).Reachable s) {f : Work → Work}
    {place : WorkerPlace} {ticket : Nat} (hk : s.workers[k]? = some place)
    (hturn : place.turn = some (y, ticket)) (hw : s.works[i]? = some w) :
    (s.works.modify ticket f)[i]? =
      some (if s.held k = some (w.sessionId, i) then f w else w) := by
  have hheld : s.held k = some (y, ticket) := (held_of_place hk).trans hturn
  have howner := (placed_of_reachable hreach).running y ticket
    (((scheduling_of_reachable hreach).held.running y ticket).mpr ⟨k, hheld⟩)
  rw [List.getElem?_modify, hw, hheld]
  by_cases hticket : ticket = i
  · subst hticket
    rw [owner, hw] at howner
    rw [if_pos (congrArg (fun y => some (y, ticket)) (Option.some.inj howner).symm)]
    simp
  · have hne : some (y, ticket) ≠ some (w.sessionId, i) := fun heq =>
      hticket (congrArg Prod.snd (Option.some.inj heq))
    rw [if_neg hne]
    simp [hticket]

/-- **Step lemma**: a step that does not cancel a session makes of its turns what
the workers that hold them make of them. -/
theorem aside_work (hreach : (sessionExecutor config).Reachable s)
    (hs : executorStep config s a = some t) (hw : s.works[i]? = some w)
    (haside : a.cancels w.sessionId = false) : t.works[i]? = some (s.served i w a) := by
  cases a with
  | submit y options now =>
      obtain rfl := Option.some.inj hs
      obtain ⟨n, ⟨hs, -⟩ | ⟨-, -, turnId, hs⟩⟩ := submitTurn_cases config s y options now
      · rw [hs]
        exact hw
      · rw [hs]
        exact (List.getElem?_append_left (List.getElem?_eq_some_iff.mp hw).1).trans hw
  | cancel y =>
      obtain rfl := Option.some.inj hs
      have hne : w.sessionId ≠ y := fun heq =>
        absurd (decide_eq_true heq.symm) (Bool.eq_false_iff.mp haside)
      exact cancelSession_other (placed_of_reachable hreach) hw hne
  | shutdown => contradiction
  | join =>
      simp only [executorStep] at hs
      split at hs <;> try contradiction
      obtain rfl := Option.some.inj hs
      exact hw
  | worker k b =>
      cases b with
      | take =>
          simp only [executorStep, workerStep] at hs
          split at hs <;> try contradiction
          rw [takeTurn_works hs]
          exact hw
      | begin now | returned reply | threw error now =>
          simp only [executorStep, workerStep] at hs
          split at hs <;> try contradiction
          next hk =>
          obtain rfl := Option.some.inj hs
          exact modify_held hreach hk rfl hw
      | retire =>
          simp only [executorStep, workerStep] at hs
          split at hs <;> try contradiction
          obtain rfl := Option.some.inj hs
          rw [retireTurn_works]
          exact hw

/-- By induction on the run, by `aside_work`. -/
theorem aside_works (hreach : (sessionExecutor config).Reachable s)
    (hrun : (sessionExecutor config).run s as = some t)
    (haside : ∀ a ∈ as, a.cancels x = false) (hw : s.works[i]? = some w)
    (hsession : w.sessionId = x) : t.works[i]? = some (s.servedOver config i as w) := by
  induction as generalizing s w with
  | nil =>
      obtain rfl : s = t := Option.some.inj hrun
      exact hw
  | cons a as ih =>
      rw [Machine.run_cons] at hrun
      obtain ⟨m, hs, hrun⟩ := Option.bind_eq_some_iff.mp hrun
      have hfirst : a.cancels w.sessionId = false := hsession ▸ haside a List.mem_cons_self
      have hlater := ih (hreach.step hs) hrun (fun b hb => haside b (List.mem_cons_of_mem _ hb))
        (aside_work hreach hs hw hfirst) ((served_keeps s i w a).1.trans hsession)
      have hs : executorStep config s a = some m := hs
      rw [hlater, ExecutorState.servedOver, hs]

/-- What a run that cancels the session `x` nowhere does to its turns. -/
structure Undisturbed (config : SessionExecutorConfig) (x : Bytes) (s : ExecutorState)
    (as : List ExecutorAction) (t : ExecutorState) : Prop where
  /-- The turns that waited and those accepted meanwhile are started in this order
  or wait still: none is dropped. -/
  order : ∃ arrivals starts, (s.session x).queue ++ arrivals = starts ++ (t.session x).queue ∧
    t.startedOf x = s.startedOf x ++ starts ∧
    ∀ i, i ∈ arrivals ↔ s.works.length ≤ i ∧ owner t.works i = some x
  /-- The flag and the promise of a turn are what the worker that holds it makes of
  them: the promise is set to what the turn's own task returned or threw. -/
  served : ∀ (i : Nat) (w : Work), s.works[i]? = some w → w.sessionId = x →
    t.works[i]? = some (s.servedOver config i as w)
  /-- So are those of a turn accepted meanwhile, which starts with neither set. -/
  accepted : ∀ i, s.works.length ≤ i → owner t.works i = some x →
    ∃ (before : List ExecutorAction) (options : TurnOptions) (now : Int)
      (after : List ExecutorAction) (m : ExecutorState) (w : Work),
      as = before ++ .submit x options now :: after ∧
      (sessionExecutor config).run s (before ++ [.submit x options now]) = some m ∧
      m.works[i]? = some w ∧ w.cancelled = false ∧ w.promise = [] ∧
      t.works[i]? = some (m.servedOver config i after w)
  /-- A flag is set only where its turn begins after its deadline. -/
  flag : ∀ (i : Nat) (w : Work), t.works[i]? = some w → w.sessionId = x → w.cancelled = true →
    (∃ v, s.works[i]? = some v ∧ v.cancelled = true) ∨
      ∃ k now, .worker k (.begin now) ∈ as ∧ w.deadline ≤ now

/-- By induction on the run: the queue moves in order. -/
theorem aside_order (hreach : (sessionExecutor config).Reachable s)
    (haside : ∀ a ∈ as, a.cancels x = false) (hrun : (sessionExecutor config).run s as = some t) :
    ∃ arrivals starts, (s.session x).queue ++ arrivals = starts ++ (t.session x).queue ∧
      t.startedOf x = s.startedOf x ++ starts ∧
      ∀ i, i ∈ arrivals ↔ s.works.length ≤ i ∧ owner t.works i = some x := by
  induction as generalizing s with
  | nil =>
      obtain rfl : s = t := Option.some.inj hrun
      refine ⟨[], [], by simp, by simp, fun i => ⟨nofun, fun ⟨hge, ho⟩ => ?_⟩⟩
      exact absurd (owner_lt ho) (Nat.not_lt.mpr hge)
  | cons a as ih =>
      rw [Machine.run_cons] at hrun
      obtain ⟨m, hs, hrun⟩ := Option.bind_eq_some_iff.mp hrun
      have hm := hreach.step hs
      have hfirst := haside a List.mem_cons_self
      have hgrown := leads_grown hm ⟨as, hrun⟩
      obtain ⟨arrivals, starts, hqueue, hstarted, harrivals⟩ :=
        ih hm (fun b hb => haside b (List.mem_cons_of_mem _ hb)) hrun
      have hgrow : Grown s.works m.works := step_grown hs
      have hle := hgrow.length_le
      -- where the step accepts no turn of `x`, the arrivals are those after it
      have hkept (hkeep : ∀ i, owner m.works i = some x → owner s.works i = some x) (i : Nat) :
          i ∈ arrivals ↔ s.works.length ≤ i ∧ owner t.works i = some x := by
        rw [harrivals]
        refine ⟨fun ⟨hge, ho⟩ => ⟨Nat.le_trans hle hge, ho⟩, fun ⟨hge, ho⟩ => ⟨?_, ho⟩⟩
        by_contra hlt
        have hold := owner_lt (hkeep i (hgrown.owner_of_lt (Nat.not_le.mp hlt) ho))
        omega
      cases step_queue hreach hs x with
      | keep hsame hfewer hkeep =>
          exact ⟨arrivals, starts, hsame ▸ hqueue, hfewer ▸ hstarted, hkept hkeep⟩
      | start j hhead hmore hkeep =>
          refine ⟨arrivals, j :: starts, ?_, ?_, hkept hkeep⟩
          · rw [hhead, List.cons_append, hqueue, List.cons_append]
          · rw [hstarted, hmore, List.append_assoc]
            rfl
      | clear hcancels _ _ _ => exact absurd hcancels (Bool.eq_false_iff.mp hfirst)
      | arrive htail hfewer howner _ _ =>
          refine ⟨s.works.length :: arrivals, starts, ?_, hfewer ▸ hstarted, fun i => ?_⟩
          · rw [← hqueue, htail, List.append_assoc]
            rfl
          · rw [List.mem_cons, harrivals]
            constructor
            · rintro (rfl | ⟨hge, ho⟩)
              · exact ⟨Nat.le_refl _, hgrown.owner ((howner _).mpr (.inl rfl))⟩
              · exact ⟨Nat.le_trans hle hge, ho⟩
            · rintro ⟨hge, ho⟩
              by_cases hlt : i < m.works.length
              · cases (howner i).mp (hgrown.owner_of_lt hlt ho) with
                | inl heq => exact .inl heq
                | inr hold => exact absurd (owner_lt hold) (Nat.not_lt.mpr hge)
              · exact .inr ⟨Nat.not_lt.mp hlt, ho⟩

/-- By induction on the run: a turn that is accepted in it starts with neither the
flag nor the promise set, and is left to the workers. -/
theorem aside_accepted (hreach : (sessionExecutor config).Reachable s)
    (haside : ∀ a ∈ as, a.cancels x = false) (hrun : (sessionExecutor config).run s as = some t)
    (hnew : s.works.length ≤ i) (howner : owner t.works i = some x) :
    ∃ (before : List ExecutorAction) (options : TurnOptions) (now : Int)
      (after : List ExecutorAction) (m : ExecutorState) (w : Work),
      as = before ++ .submit x options now :: after ∧
      (sessionExecutor config).run s (before ++ [.submit x options now]) = some m ∧
      m.works[i]? = some w ∧ w.cancelled = false ∧ w.promise = [] ∧
      t.works[i]? = some (m.servedOver config i after w) := by
  induction as generalizing s with
  | nil =>
      obtain rfl : s = t := Option.some.inj hrun
      exact absurd (owner_lt howner) (Nat.not_lt.mpr hnew)
  | cons a as ih =>
      rw [Machine.run_cons] at hrun
      obtain ⟨m, hs, hrest⟩ := Option.bind_eq_some_iff.mp hrun
      have hm := hreach.step hs
      have hlater := fun b hb => haside b (List.mem_cons_of_mem a hb)
      by_cases hlt : i < m.works.length
      · -- the step accepts it
        have hwas := (leads_grown hm ⟨as, hrest⟩).owner_of_lt hlt howner
        have hfresh : ¬ owner s.works i = some x := fun hold =>
          Nat.not_lt.mpr hnew (owner_lt hold)
        cases step_queue hreach hs x with
        | keep _ _ hkeep | start _ _ _ hkeep | clear _ _ _ hkeep =>
            exact absurd (hkeep i hwas) hfresh
        | arrive _ _ harrived hsubmit hfirst =>
            obtain rfl := ((harrived i).mp hwas).resolve_right hfresh
            obtain ⟨options, now, rfl⟩ := hsubmit
            obtain ⟨w, hw, hsession, hflag, hpromise⟩ := hfirst
            refine ⟨[], options, now, as, m, w, rfl, ?_, hw, hflag, hpromise,
              aside_works hm hrest hlater hw hsession⟩
            rw [List.nil_append, Machine.run_cons, hs]
            rfl
      · obtain ⟨before, options, now, after, r, w, rfl, hrun', hw, hflag, hpromise, hafter⟩ :=
          ih hm hlater hrest (Nat.not_lt.mp hlt)
        refine ⟨a :: before, options, now, after, r, w, rfl, ?_, hw, hflag, hpromise, hafter⟩
        rw [List.cons_append, Machine.run_cons, hs]
        exact hrun'

theorem undisturbed_of_run (hreach : (sessionExecutor config).Reachable s)
    (haside : ∀ a ∈ as, a.cancels x = false) (hrun : (sessionExecutor config).run s as = some t) :
    Undisturbed config x s as t where
  order := aside_order hreach haside hrun
  served _ _ hw hsession := aside_works hreach hrun haside hw hsession
  accepted _ hnew howner := aside_accepted hreach haside hrun hnew howner
  flag i w hw hsession hflag := by
    by_cases hold : i < s.works.length
    · -- it was there before
      have hv := List.getElem?_eq_getElem hold
      have howner := (leads_grown hreach ⟨as, hrun⟩).owner_of_lt hold (x := x)
        (by rw [owner, hw, Option.map_some, hsession])
      rw [owner, hv] at howner
      have hkept := aside_works hreach hrun haside hv (Option.some.inj howner)
      obtain rfl := Option.some.inj (hw.symm.trans hkept)
      obtain ⟨hdeadline, hlater⟩ := servedOver_keeps config s i as s.works[i]
      rw [hdeadline]
      exact (hlater hflag).imp (fun hflag => ⟨_, hv, hflag⟩) id
    · obtain ⟨before, options, now, after, m, v, rfl, -, -, hunset, -, hafter⟩ :=
        aside_accepted hreach haside hrun (Nat.not_lt.mp hold)
          (by rw [owner, hw, Option.map_some, hsession])
      obtain rfl := Option.some.inj (hw.symm.trans hafter)
      obtain ⟨hdeadline, hlater⟩ := servedOver_keeps config m i after v
      rw [hdeadline]
      obtain hflag | ⟨k, later, hmem, hpast⟩ := hlater hflag
      · rw [hunset] at hflag
        contradiction
      · exact .inr ⟨k, later, List.mem_append_right _ (List.mem_cons_of_mem _ hmem), hpast⟩

/-! ## the contract -/

/-- What `cancel_session` promises of the session `x` it is called for, when it
is called in the state `s`. -/
structure CancelContract (config : SessionExecutorConfig) (s : ExecutorState) (x : Bytes) : Prop where
  /-- Every turn of the session accepted before has finished, or is the running one
  and is flagged, or has failed and never runs. -/
  reached : ∀ (i : Nat) (w : Work), s.works[i]? = some w → w.sessionId = x →
    (w.promise ≠ [] ∧ ∃ w', (s.cancelSession x).works[i]? = some w' ∧ w'.promise = w.promise) ∨
    ((s.session x).running = some i ∧ (s.cancelSession x).works[i]? = some w.cancel) ∨
    ∀ t, (sessionExecutor config).Leads (s.cancelSession x) t →
      (∃ w', t.works[i]? = some w' ∧ w'.promise = [.error (lit "turn cancelled")]) ∧
      (x, i) ∉ t.started ∧ ∀ k, t.held k ≠ some (x, i)
  /-- No turn is between the queue and the running one. -/
  transit : (∀ (i : Nat) (w : Work), s.works[i]? = some w → w.promise = [] →
      i ∈ (s.session w.sessionId).queue ∨ (s.session w.sessionId).running = some i) ∧
    ∀ k y i, s.held k = some (y, i) → (s.session y).running = some i
  /-- Nothing else changes. -/
  others : (∀ y, y ≠ x → (s.cancelSession x).session y = s.session y) ∧
    (∀ (i : Nat) (w : Work), s.works[i]? = some w → w.sessionId ≠ x →
      (s.cancelSession x).works[i]? = some w) ∧
    (s.cancelSession x).readySessions = s.readySessions ∧
    (s.cancelSession x).workers = s.workers ∧ (s.cancelSession x).started = s.started
  /-- Turns accepted after the call, and turns of any other session during and
  after it, are left alone by it. -/
  later : ∀ (y : Bytes) (as : List ExecutorAction) (t : ExecutorState),
    (sessionExecutor config).run (s.cancelSession x) as = some t →
    (∀ a ∈ as, a.cancels y = false) →
    Undisturbed config y (s.cancelSession x) as t ∧
    (y ≠ x → Undisturbed config y s (.cancel x :: as) t) ∧
    ∀ i ∈ (t.session y).queue, ∃ w, t.works[i]? = some w ∧ w.cancelled = false ∧ w.promise = []

/-- Every turn whose promise is unset waits or runs. -/
theorem unset_places (h : (sessionExecutor config).Reachable s) (hw : s.works[i]? = some w)
    (hqueue : i ∉ (s.session w.sessionId).queue)
    (hrunning : (s.session w.sessionId).running ≠ some i) : w.promise.length = 1 := by
  have hp := placed_of_reachable h
  have hh := (scheduling_of_reachable h).held
  have howner : owner s.works i = some w.sessionId := by rw [owner, hw]; rfl
  have hlive : ¬ Live s i := by
    rintro (⟨y, hy⟩ | ⟨k, hk⟩)
    · obtain rfl := Option.some.inj (howner.symm.trans (hp.queued y i hy))
      exact hqueue hy
    · obtain ⟨y, hy⟩ := held_of_unset hk
      have hturn := (hh.running y i).mpr ⟨k, hy⟩
      obtain rfl := Option.some.inj (howner.symm.trans (hp.running y i hturn))
      exact hrunning hturn
  have hset := (promised_of_reachable h).settled i (owner_lt howner) hlive
  rw [sets, hw] at hset
  exact hset

theorem promise_of_waiting (h : (sessionExecutor config).Reachable s)
    (hi : i ∈ (s.session x).queue) (hw : s.works[i]? = some w) : w.promise = [] := by
  have hunset := (promised_of_reachable h).live i (.inl ⟨x, hi⟩)
  rw [sets, hw] at hunset
  exact List.length_eq_zero_iff.mp hunset

/-- A turn that waits when its session is cancelled fails, and never runs. -/
theorem cancelled_never_runs (h : (sessionExecutor config).Reachable s)
    (hi : i ∈ (s.session x).queue) (hw : s.works[i]? = some w)
    (hleads : (sessionExecutor config).Leads (s.cancelSession x) t) :
    (∃ w', t.works[i]? = some w' ∧ w'.promise = [.error (lit "turn cancelled")]) ∧
      (x, i) ∉ t.started ∧ ∀ k, t.held k ≠ some (x, i) := by
  have hp := placed_of_reachable h
  have hstep : (sessionExecutor config).step s (.cancel x) = some (s.cancelSession x) := rfl
  have hcancelled := h.step hstep
  have ht := hcancelled.leads hleads
  have hdrop : (s.cancelSession x).works[i]? = some (w.drop (lit "turn cancelled")) := by
    rw [cancelSession_get hp, if_pos hi, hw]
    rfl
  have hgone : Gone x i (s.cancelSession x) := by
    obtain ⟨-, -, -, -, hstarted, -⟩ := cancelSession_rest s x
    have hgrown : Grown s.works (s.cancelSession x).works :=
      step_grown (rfl : executorStep config s (.cancel x) = _)
    refine ⟨hgrown.owner (hp.queued x i hi), ?_, ?_⟩
    · rw [cancelSession_session, if_pos rfl]
      exact List.not_mem_nil
    · rw [ExecutorState.startedOf, hstarted]
      exact (started_of_lane h).1 i hi
  have hlater := hgone.leads hcancelled hleads
  refine ⟨?_, fun hmem => hlater.started ?_, fun k hk => hlater.started ?_⟩
  · obtain ⟨w', hw', hgrows⟩ := leads_grown hcancelled hleads i _ hdrop
    have honce := (executor_scheduling config t ht).promised w' (List.mem_of_getElem? hw')
    have hextends := hgrows.promise
    simp only [Work.drop, promise_of_waiting h hi hw, List.nil_append] at hextends
    exact ⟨w', hw', (hextends.eq_of_length_le honce).symm⟩
  · exact List.mem_map.mpr ⟨(x, i), List.mem_filter.mpr ⟨hmem, by simp⟩, rfl⟩
  · have hrunning := ((scheduling_of_reachable ht).held.running x i).mpr ⟨k, hk⟩
    exact (started_of_lane ht).2 i hrunning

/-- **Cancellation**: it reaches the turns accepted before it, and no other. -/
theorem executor_cancellation (config : SessionExecutorConfig) (s : ExecutorState)
    (h : (sessionExecutor config).Reachable s) (x : Bytes) : CancelContract config s x := by
  have hp := placed_of_reachable h
  have hh := (scheduling_of_reachable h).held
  have hstep : (sessionExecutor config).step s (.cancel x) = some (s.cancelSession x) := rfl
  have hcancelled := h.step hstep
  obtain ⟨hready, -, -, hworkers, hstarted, -⟩ := cancelSession_rest s x
  exact {
    reached := fun i w hw hsession => by
      subst hsession
      by_cases hqueue : i ∈ (s.session w.sessionId).queue
      · exact .inr (.inr fun t hleads => cancelled_never_runs h hqueue hw hleads)
      · by_cases hrunning : (s.session w.sessionId).running = some i
        · refine .inr (.inl ⟨hrunning, ?_⟩)
          rw [cancelSession_get hp, if_neg hqueue, if_pos hrunning, hw]
          rfl
        · have hset := unset_places h hw hqueue hrunning
          refine .inl ⟨fun hnil => ?_, w, ?_, rfl⟩
          · rw [hnil] at hset
            contradiction
          · rw [cancelSession_get hp, if_neg hqueue, if_neg hrunning, hw]
    transit := by
      refine ⟨fun i w hw hunset => ?_, fun k y i hk => (hh.running y i).mpr ⟨k, hk⟩⟩
      by_contra hnowhere
      obtain ⟨hqueue, hrunning⟩ := not_or.mp hnowhere
      have hset := unset_places h hw hqueue hrunning
      rw [hunset] at hset
      contradiction
    others := by
      refine ⟨fun y hy => ?_, fun i w hw hne => cancelSession_other hp hw hne, hready, hworkers,
        hstarted⟩
      rw [cancelSession_session, if_neg hy]
    later := fun y as t hrun haside => by
      have ht := hcancelled.leads ⟨as, hrun⟩
      refine ⟨undisturbed_of_run hcancelled haside hrun, fun hy => ?_, fun i hi => ?_⟩
      · refine undisturbed_of_run h (fun a ha => ?_) (by rw [Machine.run_cons, hstep]; exact hrun)
        cases List.mem_cons.mp ha with
        | inl heq => rw [heq]; exact decide_eq_false fun hx => hy hx.symm
        | inr hrest => exact haside a hrest
      · obtain ⟨w, hw, -, hflag⟩ := waiting_of_reachable ht y i hi
        exact ⟨w, hw, hflag, promise_of_waiting ht hi hw⟩ }

/-- One turn runs, one waits, and another session is ready. -/
def busySession : List ExecutorAction :=
  [.submit (lit "a") {} 0, .worker 0 .take, .worker 0 (.begin 1), .submit (lit "a") {} 0,
   .submit (lit "b") {} 0]

theorem busySession_cancellation :
    ∃ s, (sessionExecutor tightExecutor).run (sessionExecutor tightExecutor).init
        busySession = some s ∧
      (s.session (lit "a")).running = some 0 ∧ (s.session (lit "a")).queue = [1] ∧
      s.readySessions = [lit "b"] ∧
      CancelContract tightExecutor s (lit "a") :=
  ⟨_, rfl, rfl, rfl, rfl, executor_cancellation tightExecutor _ ⟨busySession, rfl⟩ (lit "a")⟩

end ByteTurn

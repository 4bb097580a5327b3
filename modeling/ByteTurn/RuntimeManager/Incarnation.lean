import ByteTurn.RuntimeManager

/-!
# ByteTurn.RuntimeManager.Incarnation

The life of one admitted entry, apart from the manager around it.

`Incarnation.machine` is what the manager does to a single entry: each label is
a section of some thread, enabled when that thread can get there.  Its
invariant (`Incarnation.Sound`) says what every later result about tickets and
teardown uses; that the manager keeps to this machine is proved in
`ByteTurn.RuntimeManager.Registry`.
-/

namespace ByteTurn

/-- A reason to stop, as opposed to the two values that are none. -/
def SessionOutcome.isCause (outcome : SessionOutcome) : Bool :=
  outcome ≠ .none && outcome ≠ .started

/-- Every outcome but these two is a cause. -/
@[simp, grind =] theorem SessionOutcome.isCause_eq (outcome : SessionOutcome) :
    outcome.isCause = true ↔ outcome ≠ .none ∧ outcome ≠ .started := by
  simp [isCause]

namespace Incarnation

/-- What may happen to an entry. -/
inductive Label where
  | stop (reason : SessionOutcome)
  | take
  | store (config : SessionConfig) (dependencies : Bool)
  | conclude
  | session (action : SessionAction)
  | lease
  | leave
  | release
  | finish

/-- One section's effect on an entry. -/
def step (e : Entry) : Label → Option Entry
  | .stop reason => if reason.isCause then some (e.stop reason) else none
  | .take => if e.phase = .reserved then some e.take else none
  | .store config dependencies =>
      if e.startupDone = false ∧ e.phase ≠ .reserved ∧ e.session.isNone then
        some (e.store { config := config } dependencies)
      else none
  | .conclude =>
      if e.startupDone = false ∧ e.phase ≠ .reserved ∧ (e.stopRequested ∨ e.session.isSome) then
        some e.conclude
      else none
  | .session action =>
      (e.session.bind (·.step action)).map fun session => { e with session := some session }
  | .lease =>
      if e.phase = .running then some { e with operations := e.operations + 1 } else none
  | .leave =>
      if e.operations = 0 then none else some { e with operations := e.operations - 1 }
  | .release =>
      if e.startupDone ∧ e.phase = .stopRequested ∧ e.operations = 0 then some e.release else none
  | .finish => if e.phase = .retiring ∧ e.retired = [] then some e.finish else none

/-- An incarnation with the given handle and factory. -/
def machine (handle : SessionHandle) (factory : Option Nat) : Machine Entry Label where
  init := { handle := handle, factory := factory }
  step := step

/-- What an entry keeps to, whatever is done to it. -/
structure Sound (e : Entry) : Prop where
  reserved : e.phase = .reserved →
    e.startupDone = false ∧ e.session = none ∧ e.dependencies = false
  unstopped : e.stopRequested = false →
    e.outcome = .none ∧ e.cancelledBeforeStart = false ∧ e.phase ≠ .stopRequested ∧
      e.phase ≠ .retiring
  stopped : e.stopRequested = true →
    e.outcome.isCause = true ∧ (e.phase = .stopRequested ∨ e.phase = .retiring)
  starting : e.startupDone = false →
    e.started = [] ∧ e.cancelledBeforeStart = false ∧ e.operations = 0 ∧
      e.reachedRunning = false ∧ e.phase ≠ .running ∧ e.phase ≠ .retiring
  startupDone : e.startupDone = true → e.phase ≠ .starting
  running : e.phase = .running → e.session.isSome = true
  cancelled : e.cancelledBeforeStart = true →
    e.session = none ∧ e.dependencies = false ∧ e.operations = 0 ∧ e.reachedRunning = false ∧
      (e.retired = [] → e.started = [])
  concluded : e.startupDone = true → e.cancelledBeforeStart = false →
    ∃ outcome, e.started = [outcome] ∧ outcome ≠ .none ∧ (outcome = .started ↔ e.reachedRunning = true)
  leased : e.operations ≠ 0 → e.session.isSome = true
  retiring : e.phase = .retiring →
    e.startupDone = true ∧ e.session = none ∧ e.dependencies = false ∧ e.operations = 0
  retired : e.retired ≠ [] →
    e.retired = [e.outcome] ∧ e.phase = .retiring ∧
      (e.cancelledBeforeStart = true → e.started = [e.outcome])

variable {e e' : Entry} {a : Label}

/-- A new incarnation is sound. -/
theorem Sound.init (handle : SessionHandle) (factory : Option Nat) :
    Sound (machine handle factory).init := by
  constructor <;> simp [machine]

/-- Only the two last phases have a stop requested. -/
theorem Sound.not_stopped (h : Sound e) (hp : e.phase ≠ .stopRequested) (hr : e.phase ≠ .retiring) :
    e.stopRequested = false := by
  cases hs : e.stopRequested with
  | false => rfl
  | true => exact absurd (h.stopped hs).2 (not_or.mpr ⟨hp, hr⟩)

/-- Nothing is promised about retirement before the last phase. -/
theorem Sound.not_retired (h : Sound e) (hp : e.phase ≠ .retiring) : e.retired = [] := by
  by_contra hr
  exact hp (h.retired hr).2.1

/-- Stopping a queued entry settles its startup; stopping any other one does not. -/
theorem Sound.stop (h : Sound e) {reason : SessionOutcome} (hr : reason.isCause = true) :
    Sound (e.stop reason) := by
  unfold Entry.stop
  split
  · next hacc =>
    simp only [Entry.acceptsStop, Bool.and_eq_true, decide_eq_true_eq] at hacc
    obtain ⟨hphase, -⟩ := hacc
    by_cases hqueued : e.phase = .reserved
    · have hstop := h.not_stopped (by simp [hqueued]) (by simp [hqueued])
      have hcancels : e.cancelsReservation = true := by
        simp [Entry.cancelsReservation, hstop, hqueued]
      obtain ⟨hdone, hsession, hdependencies⟩ := h.reserved hqueued
      obtain ⟨hstarted, -, hoperations, hreached, -, -⟩ := h.starting hdone
      have hretired := h.not_retired hphase
      constructor <;> simp [hcancels, hr, hsession, hdependencies, hstarted, hoperations, hreached,
        hretired]
    · have hcancels : e.cancelsReservation = false := by simp [Entry.cancelsReservation, hqueued]
      simp only [hcancels, Bool.or_false]
      exact {
        reserved := nofun
        unstopped := nofun
        stopped := fun _ => ⟨hr, .inl rfl⟩
        starting := fun hdone => by have := h.starting hdone; grind
        startupDone := nofun
        running := nofun
        cancelled := fun hc => by have := h.cancelled hc; grind
        concluded := h.concluded
        leased := fun ho => by have := h.leased ho; grind
        retiring := nofun
        retired := fun hret => absurd (h.retired hret).2.1 hphase }
  · exact h

/-- A factory is taken up. -/
theorem Sound.take (h : Sound e) (hp : e.phase = .reserved) : Sound e.take := by
  have hstop := h.not_stopped (by simp [hp]) (by simp [hp])
  have hdone := (h.reserved hp).1
  have htake : e.take = { e with phase := .starting, factory := none } := by
    simp [Entry.take, hstop]
  rw [htake]
  exact { h with
    reserved := nofun
    unstopped := fun hs => ⟨(h.unstopped hs).1, (h.unstopped hs).2.1, nofun, nofun⟩
    stopped := fun hs => absurd hs (by simp [hstop])
    starting := fun hd => by have := h.starting hd; grind
    startupDone := fun hd => absurd hd (by simp [hdone])
    running := nofun
    retiring := nofun
    retired := fun hr => absurd hp (by simp [(h.retired hr).2.1]) }

/-- What the factory made is stored. -/
theorem Sound.store (h : Sound e) (session : ManagedSession) (dependencies : Bool)
    (hd : e.startupDone = false) (hp : e.phase ≠ .reserved) :
    Sound (e.store session dependencies) := by
  have hstarting := h.starting hd
  exact { h with
    reserved := fun hr => absurd hr hp
    running := fun hr => absurd hr hstarting.2.2.2.2.1
    cancelled := fun hc => absurd hstarting.2.1 (by rw [show e.cancelledBeforeStart = true from hc]; simp)
    leased := fun _ => rfl
    retiring := fun hr => absurd hr hstarting.2.2.2.2.2 }

/-- The start has a result, once there is a session or a stop. -/
theorem Sound.conclude (h : Sound e) (hd : e.startupDone = false) (hp : e.phase ≠ .reserved)
    (hready : e.stopRequested = true ∨ e.session.isSome = true) : Sound e.conclude := by
  obtain ⟨hstarted, hcancelled, hoperations, hreached, hrunning, hretiring⟩ := h.starting hd
  unfold Entry.conclude
  split
  · next hstop =>
    have hcause := (SessionOutcome.isCause_eq e.outcome).mp (h.stopped hstop).1
    exact { h with
      reserved := fun hr => absurd hr hp
      starting := nofun
      startupDone := fun _ => by have := (h.stopped hstop).2; grind
      cancelled := fun hc => absurd hc (by simp [hcancelled])
      concluded := fun _ _ => ⟨e.outcome, by simp [hstarted], hcause.1, by simp [hcause.2, hreached]⟩
      retiring := fun hr => absurd hr hretiring
      retired := fun hr => absurd (h.retired hr).2.1 hretiring }
  · next hstop =>
    have hstop : e.stopRequested = false := by simpa using hstop
    exact { h with
      reserved := nofun
      unstopped := fun hs => ⟨(h.unstopped hs).1, (h.unstopped hs).2.1, nofun, nofun⟩
      stopped := fun hs => absurd hs (by simp [hstop])
      starting := nofun
      startupDone := nofun
      running := fun _ => hready.resolve_left (by simp [hstop])
      cancelled := fun hc => absurd hc (by simp [hcancelled])
      concluded := fun _ _ => ⟨.started, by simp [hstarted], by simp, by simp⟩
      retiring := nofun
      retired := fun hr => absurd (h.retired hr).2.1 hretiring }

/-- What the session does by itself leaves the incarnation sound. -/
theorem Sound.withSession (h : Sound e) (next : ManagedSession) (hs : e.session.isSome = true) :
    Sound { e with session := some next } :=
  { h with
    reserved := fun hr => absurd hs (by simp [(h.reserved hr).2.1])
    running := fun _ => rfl
    cancelled := fun hc => absurd hs (by simp [(h.cancelled hc).1])
    leased := fun _ => rfl
    retiring := fun hr => absurd hs (by simp [(h.retiring hr).2.1]) }

/-- Only a running entry, and so one with a session, is leased. -/
theorem Sound.withOperations (h : Sound e) (n : Nat)
    (hn : n = 0 ∨ e.phase = .running ∨ e.operations ≠ 0) : Sound { e with operations := n } :=
  { h with
    starting := fun hd => by have := h.starting hd; grind
    cancelled := fun hc => by have := h.cancelled hc; have := h.running; grind
    leased := fun _ => by have := h.leased; have := h.running; grind
    retiring := fun hr => by have := h.retiring hr; grind }

/-- The last phase begins when the start is over and no operation is open. -/
theorem Sound.release (h : Sound e) (hd : e.startupDone = true) (hp : e.phase = .stopRequested)
    (ho : e.operations = 0) : Sound e.release :=
  { h with
    reserved := nofun
    unstopped := fun hs => absurd hp (h.unstopped hs).2.2.1
    stopped := fun hs => ⟨(h.stopped hs).1, .inr rfl⟩
    starting := fun hs => absurd hs (by simp [Entry.release, hd])
    startupDone := nofun
    running := nofun
    cancelled := fun hc => by have := h.cancelled hc; grind [Entry.release]
    leased := fun hne => absurd ho hne
    retiring := fun _ => ⟨hd, rfl, rfl, ho⟩
    retired := fun hr => absurd hp (by simp [(h.retired hr).2.1]) }

/-- The retirement is promised once. -/
theorem Sound.finish (h : Sound e) (hp : e.phase = .retiring) (hr : e.retired = []) :
    Sound e.finish := by
  have hretired : e.finish.retired = [e.outcome] := by simp [Entry.finish, hr]
  exact { h with
    starting := fun hd => absurd hp (h.starting hd).2.2.2.2.2
    cancelled := fun hc => by have := h.cancelled hc; grind [Entry.finish]
    concluded := fun hd hc => by
      have := h.concluded hd hc
      have hsame : e.finish.started = e.started :=
        if_neg (by rw [show e.cancelledBeforeStart = false from hc]; simp)
      rwa [hsame]
    retired := fun _ => ⟨hretired, hp, fun hc => by
      have hstarted := (h.cancelled hc).2.2.2.2 hr
      simp [Entry.finish, show e.cancelledBeforeStart = true from hc, hstarted]⟩ }

/-- Every step keeps an incarnation sound. -/
theorem Sound.step (h : Sound e) (hs : step e a = some e') : Sound e' := by
  cases a with
  | stop reason =>
      simp only [Incarnation.step] at hs
      split at hs <;> try contradiction
      next hr =>
      obtain rfl := Option.some.inj hs
      exact h.stop hr
  | take =>
      simp only [Incarnation.step] at hs
      split at hs <;> try contradiction
      next hp =>
      obtain rfl := Option.some.inj hs
      exact h.take hp
  | store config dependencies =>
      simp only [Incarnation.step] at hs
      split at hs <;> try contradiction
      next hg =>
      obtain rfl := Option.some.inj hs
      exact h.store { config := config } dependencies hg.1 hg.2.1
  | conclude =>
      simp only [Incarnation.step] at hs
      split at hs <;> try contradiction
      next hg =>
      obtain rfl := Option.some.inj hs
      exact h.conclude hg.1 hg.2.1 hg.2.2
  | session action =>
      obtain ⟨next, hnext, rfl⟩ := Option.map_eq_some_iff.mp hs
      obtain ⟨session, hsession, -⟩ := Option.bind_eq_some_iff.mp hnext
      exact h.withSession next (by rw [hsession]; rfl)
  | lease =>
      simp only [Incarnation.step] at hs
      split at hs <;> try contradiction
      next hp =>
      obtain rfl := Option.some.inj hs
      exact h.withOperations _ (.inr (.inl hp))
  | leave =>
      simp only [Incarnation.step] at hs
      split at hs <;> try contradiction
      next hne =>
      obtain rfl := Option.some.inj hs
      exact h.withOperations _ (.inr (.inr hne))
  | release =>
      simp only [Incarnation.step] at hs
      split at hs <;> try contradiction
      next hg =>
      obtain rfl := Option.some.inj hs
      exact h.release hg.1 hg.2.1 hg.2.2
  | finish =>
      simp only [Incarnation.step] at hs
      split at hs <;> try contradiction
      next hg =>
      obtain rfl := Option.some.inj hs
      exact h.finish hg.1 hg.2

/-- No step changes the handle. -/
theorem step_handle (hs : step e a = some e') : e'.handle = e.handle := by
  cases a <;> simp only [step] at hs
  case stop reason =>
    split at hs <;> try contradiction
    obtain rfl := Option.some.inj hs
    unfold Entry.stop
    split <;> rfl
  case conclude =>
    split at hs <;> try contradiction
    obtain rfl := Option.some.inj hs
    unfold Entry.conclude
    split <;> rfl
  case session action =>
    obtain ⟨next, -, rfl⟩ := Option.map_eq_some_iff.mp hs
    rfl
  all_goals
    split at hs <;> try contradiction
    obtain rfl := Option.some.inj hs
    rfl

/-- Every incarnation a run leads to is sound. -/
theorem sound_of_reachable {handle : SessionHandle} {factory : Option Nat}
    (h : (machine handle factory).Reachable e) : Sound e :=
  Machine.Reachable.rec_inv (Sound.init handle factory) (fun _ _ _ _ hp hs => hp.step hs) h

/-- An entry that has lived by the machine, also since it was `past`. -/
structure Lives (past : Option Entry) (e : Entry) : Prop where
  reachable : ∃ factory, (machine e.handle factory).Reachable e
  since : ∀ d ∈ past, ∃ factory, (machine d.handle factory).Reachable d ∧
    (machine d.handle factory).Leads d e

section Lives

variable {past : Option Entry}

/-- What lives on is sound. -/
theorem Lives.sound (h : Lives past e) : Sound e := by
  obtain ⟨factory, hr⟩ := h.reachable
  exact sound_of_reachable hr

/-- An incarnation lives on through its steps. -/
theorem Lives.step (h : Lives past e) (hs : Incarnation.step e a = some e') : Lives past e' := by
  obtain ⟨factory, hr⟩ := h.reachable
  constructor
  · rw [step_handle hs]
    exact ⟨factory, hr.step (a := a) hs⟩
  · intro d hd
    obtain ⟨factory, hreach, hleads⟩ := h.since d hd
    exact ⟨factory, hreach, hleads.trans (.single (a := a) hs)⟩

/-- A new incarnation lives, with nothing before it. -/
theorem Lives.init (handle : SessionHandle) (factory : Option Nat) :
    Lives none { handle := handle, factory := factory } :=
  ⟨⟨factory, Machine.Reachable.init (machine handle factory)⟩, by simp⟩

/-- From the present moment on. -/
theorem Lives.now (h : Lives past e) : Lives (some e) e := by
  obtain ⟨factory, hr⟩ := h.reachable
  refine ⟨⟨factory, hr⟩, fun d hd => ?_⟩
  obtain rfl := Option.some.inj hd
  exact ⟨factory, hr, .refl _ e⟩

end Lives

end Incarnation

end ByteTurn

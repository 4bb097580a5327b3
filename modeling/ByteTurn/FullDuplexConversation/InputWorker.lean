import ByteTurn.Types
import ByteTurn.Lib.Machine

/-!
# ByteTurn.FullDuplexConversation.InputWorker

The input queue of a native session and the worker that drains it
(`push_audio`, `close` and `input_loop` of `full_duplex_conversation.cpp`), at
the granularity at which a wakeup can be lost: taking `input_mutex_`, changing
the predicate, releasing the mutex and notifying are steps of their own, and so
are the worker's evaluation of its predicate and the atomic release that puts
it to sleep.

Any number of calls are in progress, each with its own place.  A notification
reaches the worker only while it sleeps; it may also wake on its own.  The
provider is called between two sections, and takes or refuses a frame as it
likes.  The fields under *history* are read by no step.
-/

namespace ByteTurn

/-! ## calls and places -/

/-- What the section of `push_audio` decided. -/
inductive InputOutcome where
  | stopped | overloaded | queued
  deriving DecidableEq, Repr

/-- Where a `push_audio` call is. -/
inductive PushAudioPlace where
  /-- Before the first load of `stopping_`. -/
  | entered
  | locking
  /-- Holds the mutex, and has decided nothing yet. -/
  | holding
  /-- Holds the mutex still. -/
  | leaving (outcome : InputOutcome)
  | notifying
  | returned (accepted : Bool)
  deriving DecidableEq, Repr

/-- Where a `close` call is. -/
inductive ClosePlace where
  | locking
  | holding
  /-- Holds the mutex still; `first` is whether it set `stopping_`. -/
  | leaving (first : Bool)
  | notifying
  | joining
  | returned
  deriving DecidableEq, Repr

/-- A call in progress. -/
inductive InputCall where
  | push (frame : AudioFrame) (place : PushAudioPlace)
  | close (place : ClosePlace)
  deriving DecidableEq, Repr

/-- Where the worker is in `input_loop`. -/
inductive InputPlace where
  | locking
  /-- Holds the mutex, before the predicate of its wait. -/
  | checking
  /-- Holds the mutex; the predicate was false. -/
  | parking
  | sleeping
  /-- Holds the mutex; the predicate was true. -/
  | taking
  /-- Holds the mutex, and a frame. -/
  | took (frame : AudioFrame)
  /-- Before `provider_session_->push_audio`. -/
  | handing (frame : AudioFrame)
  /-- Holds the mutex; it saw `stopping_`. -/
  | stopped
  | exited
  deriving DecidableEq, Repr

/-- Who holds `input_mutex_`. -/
inductive InputHolder where
  | worker
  | call (i : Nat)
  deriving DecidableEq, Repr

/-- The input side of a `FullDuplexConversation`. -/
structure InputState where
  stopping : Bool := false
  queue : List AudioFrame := []
  holder : Option InputHolder := none
  worker : InputPlace := .locking
  calls : List InputCall := []
  -- history
  accepted : List AudioFrame := []
  handed : List AudioFrame := []
  deriving DecidableEq, Repr

namespace InputState

/-- The predicate of the worker's wait. -/
def wake (s : InputState) : Bool := s.stopping || !s.queue.isEmpty

/-- `notify_one` and `notify_all`: the worker is the only one that waits. -/
def notify (s : InputState) : InputState :=
  { s with worker := if s.worker = .sleeping then .locking else s.worker }

/-- `push_audio`, by the call `i`. -/
def pushStep (maxInputFrames : Nat) (s : InputState) (i : Nat) (frame : AudioFrame) :
    PushAudioPlace → Option InputState
  | .entered => some { s with
      calls := s.calls.set i (.push frame (if s.stopping then .returned false else .locking)) }
  | .locking =>
      if s.holder = none then some { s with
        holder := some (.call i)
        calls := s.calls.set i (.push frame .holding) }
      else none
  | .holding =>
      if s.stopping then some { s with
        calls := s.calls.set i (.push frame (.leaving .stopped)) }
      else if maxInputFrames ≤ s.queue.length then some { s with
        calls := s.calls.set i (.push frame (.leaving .overloaded)) }
      else some { s with
        queue := s.queue ++ [frame]
        accepted := s.accepted ++ [frame]
        calls := s.calls.set i (.push frame (.leaving .queued)) }
  | .leaving outcome => some { s with
      holder := none
      calls := s.calls.set i (.push frame
        (if outcome = .queued then .notifying else .returned false)) }
  | .notifying => some { s.notify with calls := s.calls.set i (.push frame (.returned true)) }
  | .returned _ => none

/-- `close`, by the call `i`, as far as the join. -/
def closeStep (s : InputState) (i : Nat) : ClosePlace → Option InputState
  | .locking =>
      if s.holder = none then some { s with
        holder := some (.call i)
        calls := s.calls.set i (.close .holding) }
      else none
  | .holding => some { s with
      stopping := true
      calls := s.calls.set i (.close (.leaving !s.stopping)) }
  | .leaving first => some { s with
      holder := none
      calls := s.calls.set i (.close (if first then .notifying else .returned)) }
  | .notifying => some { s.notify with calls := s.calls.set i (.close .joining) }
  | .joining =>
      if s.worker = .exited then some { s with calls := s.calls.set i (.close .returned) }
      else none
  | .returned => none

/-- `input_loop` -/
def inputStep (s : InputState) : Option InputState :=
  match s.worker with
  | .locking =>
      if s.holder = none then some { s with holder := some .worker, worker := .checking }
      else none
  | .checking => some { s with worker := if s.wake then .taking else .parking }
  | .parking => some { s with holder := none, worker := .sleeping }
  | .sleeping => none
  | .taking =>
      if s.stopping then some { s with queue := [], worker := .stopped }
      else match s.queue with
        | [] => none
        | frame :: queue => some { s with queue := queue, worker := .took frame }
  | .took frame => some { s with holder := none, worker := .handing frame }
  | .handing frame => some { s with handed := s.handed ++ [frame], worker := .locking }
  | .stopped => some { s with holder := none, worker := .exited }
  | .exited => none

end InputState

/-- One step: a call begins or goes on, the worker goes on, or it wakes on its
own. -/
inductive InputAction where
  | push (frame : AudioFrame)
  | close
  | call (i : Nat)
  | worker
  | spuriousWake
  deriving DecidableEq, Repr

/-- The calls and the worker of one input queue. -/
def inputStep (maxInputFrames : Nat) (s : InputState) : InputAction → Option InputState
  | .push frame => some { s with calls := s.calls ++ [.push frame .entered] }
  | .close => some { s with calls := s.calls ++ [.close .locking] }
  | .call i => match s.calls[i]? with
    | some (.push frame place) => s.pushStep maxInputFrames i frame place
    | some (.close place) => s.closeStep i place
    | none => none
  | .worker => s.inputStep
  | .spuriousWake => if s.worker = .sleeping then some { s with worker := .locking } else none

/-- The input side of a session whose queue holds `maxInputFrames`. -/
def inputQueue (maxInputFrames : Nat) : Machine InputState InputAction where
  init := {}
  step := inputStep maxInputFrames

/-! ## what a step does -/

variable {maxInputFrames : Nat} {s t : InputState} {a : InputAction}

/-- A call that has changed the queue and not notified yet. -/
def InputCall.owesPush : InputCall → Bool
  | .push _ (.leaving .queued) | .push _ .notifying => true
  | _ => false

/-- A call that has set `stopping_` and not notified yet. -/
def InputCall.owesClose : InputCall → Bool
  | .close (.leaving true) | .close .notifying => true
  | _ => false

/-- The call that set `stopping_`, until it returns. -/
def InputCall.closing : InputCall → Bool
  | .close (.leaving true) | .close .notifying | .close .joining => true
  | _ => false

/-- A call that holds the mutex. -/
def InputCall.holds : InputCall → Bool
  | .push _ .holding | .push _ (.leaving _) | .close .holding | .close (.leaving _) => true
  | _ => false

/-- The places in which the worker holds the mutex. -/
def InputPlace.holds : InputPlace → Bool
  | .checking | .parking | .taking | .took _ | .stopped => true
  | .locking | .sleeping | .handing _ | .exited => false

/-- The frame the worker has taken and not handed over. -/
def InputPlace.frames : InputPlace → List AudioFrame
  | .took frame | .handing frame => [frame]
  | _ => []

/-- The worker has seen `stopping_`. -/
def InputPlace.ended : InputPlace → Bool
  | .stopped | .exited => true
  | _ => false

/-- What a step of the call `i` does, by what it changes beside the call. -/
inductive CallStep (s : InputState) (i : Nat) (c c' : InputCall) : InputState → Prop where
  | plain (hholds : c'.holds = c.holds) : CallStep s i c c' { s with calls := s.calls.set i c' }
  | acquire (hfree : s.holder = none) (hafter : c'.holds = true) :
      CallStep s i c c' { s with holder := some (.call i), calls := s.calls.set i c' }
  | queue (frame : AudioFrame) (hopen : s.stopping = false) (hbefore : c.holds = true)
      (hafter : c'.holds = true) (howes : c'.owesPush = true) :
      CallStep s i c c' { s with
        queue := s.queue ++ [frame]
        accepted := s.accepted ++ [frame]
        calls := s.calls.set i c' }
  | stop (hbefore : c.holds = true) (hafter : c'.holds = true)
      (howes : c'.owesClose = !s.stopping) :
      CallStep s i c c' { s with stopping := true, calls := s.calls.set i c' }
  | release (hbefore : c.holds = true) (hafter : c'.holds = false) :
      CallStep s i c c' { s with holder := none, calls := s.calls.set i c' }
  | notify (hbefore : c.holds = false) (hafter : c'.holds = false) :
      CallStep s i c c' { s.notify with calls := s.calls.set i c' }

/-- A call forgets no notification it owes but by notifying, and becomes the
closing one by setting `stopping_`. -/
structure CallDebt (s : InputState) (c c' : InputCall) (t : InputState) : Prop where
  push : t.worker = .sleeping → c.owesPush = true → c'.owesPush = true
  close : t.worker = .sleeping → c.owesClose = true → c'.owesClose = true
  closing : c'.closing = true → c.closing = true ∨ (s.stopping = false ∧ t.stopping = true)

theorem notify_awake (s : InputState) : s.notify.worker ≠ .sleeping := by
  unfold InputState.notify
  dsimp only
  split
  · nofun
  · assumption

theorem call_step {i : Nat} (hs : inputStep maxInputFrames s (.call i) = some t) :
    ∃ c c', s.calls[i]? = some c ∧ CallStep s i c c' t ∧ CallDebt s c c' t := by
  simp only [inputStep] at hs
  split at hs <;> try contradiction
  · next frame place hcall =>
    refine ⟨.push frame place, ?_⟩
    cases place with
    | entered =>
        obtain rfl := Option.some.inj hs
        refine ⟨_, hcall, .plain ?_, nofun, nofun, ?_⟩
        · split <;> rfl
        · split <;> nofun
    | locking =>
        simp only [InputState.pushStep] at hs
        split at hs <;> try contradiction
        next hfree =>
        obtain rfl := Option.some.inj hs
        exact ⟨_, hcall, .acquire hfree rfl, nofun, nofun, nofun⟩
    | holding =>
        simp only [InputState.pushStep] at hs
        split at hs
        · obtain rfl := Option.some.inj hs
          exact ⟨_, hcall, .plain rfl, nofun, nofun, nofun⟩
        next hopen =>
        split at hs
        · obtain rfl := Option.some.inj hs
          exact ⟨_, hcall, .plain rfl, nofun, nofun, nofun⟩
        · obtain rfl := Option.some.inj hs
          exact ⟨_, hcall, .queue frame (Bool.eq_false_iff.mpr hopen) rfl rfl rfl, nofun, nofun,
            nofun⟩
    | leaving outcome =>
        obtain rfl := Option.some.inj hs
        cases outcome with
        | stopped | overloaded => exact ⟨_, hcall, .release rfl rfl, nofun, nofun, nofun⟩
        | queued => exact ⟨_, hcall, .release rfl rfl, fun _ _ => rfl, nofun, nofun⟩
    | notifying =>
        obtain rfl := Option.some.inj hs
        exact ⟨_, hcall, .notify rfl rfl, fun h => absurd h (notify_awake s), nofun, nofun⟩
    | returned accepted => contradiction
  · next place hcall =>
    refine ⟨.close place, ?_⟩
    cases place with
    | locking =>
        simp only [InputState.closeStep] at hs
        split at hs <;> try contradiction
        next hfree =>
        obtain rfl := Option.some.inj hs
        exact ⟨_, hcall, .acquire hfree rfl, nofun, nofun, nofun⟩
    | holding =>
        obtain rfl := Option.some.inj hs
        refine ⟨_, hcall, .stop rfl rfl ?_, nofun, nofun, ?_⟩
        · cases s.stopping <;> rfl
        · cases hstop : s.stopping with
          | true => nofun
          | false => exact fun _ => .inr ⟨rfl, rfl⟩
    | leaving first =>
        obtain rfl := Option.some.inj hs
        cases first with
        | true => exact ⟨_, hcall, .release rfl rfl, nofun, fun _ _ => rfl, fun _ => .inl rfl⟩
        | false => exact ⟨_, hcall, .release rfl rfl, nofun, nofun, nofun⟩
    | notifying =>
        obtain rfl := Option.some.inj hs
        exact ⟨_, hcall, .notify rfl rfl, nofun, fun h => absurd h (notify_awake s),
          fun _ => .inl rfl⟩
    | joining =>
        simp only [InputState.closeStep] at hs
        split at hs <;> try contradiction
        obtain rfl := Option.some.inj hs
        exact ⟨_, hcall, .plain rfl, nofun, nofun, nofun⟩
    | returned => contradiction

/-- A step that begins a call. -/
theorem begin_step (ha : a = .close ∨ ∃ frame, a = .push frame)
    (hs : inputStep maxInputFrames s a = some t) :
    ∃ c : InputCall, t = { s with calls := s.calls ++ [c] } ∧ c.holds = false ∧
      c.closing = false := by
  rcases ha with rfl | ⟨frame, rfl⟩
  · exact ⟨_, (Option.some.inj hs).symm, rfl, rfl⟩
  · exact ⟨_, (Option.some.inj hs).symm, rfl, rfl⟩

/-! ## the mutex -/

/-- The mutex is held by the one who is in a section. -/
structure Exclusive (s : InputState) : Prop where
  worker : s.holder = some .worker ↔ s.worker.holds = true
  call : ∀ i, s.holder = some (.call i) ↔ ∃ c, s.calls[i]? = some c ∧ c.holds = true

theorem Exclusive.init : Exclusive (inputQueue maxInputFrames).init := by
  constructor <;> simp [inputQueue, InputPlace.holds]

/-- The calls after one of them moved. -/
theorem getElem?_set_call {i j : Nat} {c c' d : InputCall} (hi : s.calls[i]? = some c) :
    (s.calls.set i c')[j]? = some d ↔ (j = i ∧ d = c') ∨ (j ≠ i ∧ s.calls[j]? = some d) := by
  have hlt := (List.getElem?_eq_some_iff.mp hi).1
  rw [List.getElem?_set]
  by_cases hij : i = j
  · subst hij
    simp [hlt, eq_comm]
  · simp [hij, Ne.symm hij]

theorem getElem?_append_call {i : Nat} {c d : InputCall} :
    (s.calls ++ [c])[i]? = some d ↔ s.calls[i]? = some d ∨ (i = s.calls.length ∧ d = c) := by
  rw [List.getElem?_append]
  split
  · next hlt => simp [Nat.ne_of_lt hlt]
  · next hge =>
    have hle := Nat.le_of_not_lt hge
    rw [List.getElem?_singleton, List.getElem?_eq_none hle]
    constructor
    · intro h
      split at h <;> try contradiction
      exact .inr ⟨by omega, (Option.some.inj h).symm⟩
    · rintro (h | ⟨rfl, rfl⟩)
      · contradiction
      · simp

/-- The call that holds the mutex. -/
theorem Exclusive.holder_of_call {i : Nat} {c : InputCall} (h : Exclusive s)
    (hi : s.calls[i]? = some c) (hc : c.holds = true) : s.holder = some (.call i) :=
  (h.call i).mpr ⟨c, hi, hc⟩

theorem Exclusive.callStep {i : Nat} {c c' : InputCall} (h : Exclusive s)
    (hi : s.calls[i]? = some c) (hstep : CallStep s i c c' t) : Exclusive t := by
  have hsame (hholds : c'.holds = c.holds) (j : Nat) :
      (∃ d, (s.calls.set i c')[j]? = some d ∧ d.holds = true) ↔
        ∃ d, s.calls[j]? = some d ∧ d.holds = true := by
    simp only [getElem?_set_call hi]
    constructor
    · rintro ⟨d, ⟨rfl, rfl⟩ | ⟨-, hd⟩, hh⟩
      · exact ⟨c, hi, hholds ▸ hh⟩
      · exact ⟨d, hd, hh⟩
    · rintro ⟨d, hd, hh⟩
      by_cases hj : j = i
      · subst hj
        obtain rfl := Option.some.inj (hi.symm.trans hd)
        exact ⟨c', .inl ⟨rfl, rfl⟩, hholds.trans hh⟩
      · exact ⟨d, .inr ⟨hj, hd⟩, hh⟩
  cases hstep with
  | plain hholds => exact ⟨h.worker, fun j => (h.call j).trans (hsame hholds j).symm⟩
  | queue frame hopen hbefore hafter howes =>
      exact ⟨h.worker, fun j => (h.call j).trans (hsame (hafter.trans hbefore.symm) j).symm⟩
  | stop hbefore hafter howes =>
      exact ⟨h.worker, fun j => (h.call j).trans (hsame (hafter.trans hbefore.symm) j).symm⟩
  | acquire hfree hafter =>
      refine ⟨⟨nofun, fun hw => ?_⟩, fun j => ?_⟩
      · have hheld := h.worker.mpr hw
        rw [hfree] at hheld
        contradiction
      · simp only [getElem?_set_call hi]
        constructor
        · intro hj
          obtain rfl : i = j := InputHolder.call.inj (Option.some.inj hj)
          exact ⟨c', .inl ⟨rfl, rfl⟩, hafter⟩
        · rintro ⟨d, ⟨rfl, rfl⟩ | ⟨-, hd⟩, hh⟩
          · rfl
          · have hheld := h.holder_of_call hd hh
            rw [hfree] at hheld
            contradiction
  | release hbefore hafter =>
      have hholder := h.holder_of_call hi hbefore
      refine ⟨⟨nofun, fun hw => ?_⟩, fun j => ⟨nofun, ?_⟩⟩
      · have hheld := h.worker.mpr hw
        rw [hholder] at hheld
        nomatch hheld
      · simp only [getElem?_set_call hi]
        rintro ⟨d, ⟨rfl, rfl⟩ | ⟨hj, hd⟩, hh⟩
        · rw [hafter] at hh
          contradiction
        · have hheld := h.holder_of_call hd hh
          rw [hholder] at hheld
          exact absurd (InputHolder.call.inj (Option.some.inj hheld)).symm hj
  | notify hbefore hafter =>
      refine ⟨?_, fun j => (h.call j).trans (hsame (hafter.trans hbefore.symm) j).symm⟩
      unfold InputState.notify
      dsimp only
      split
      · next hsleep =>
        rw [h.worker, hsleep]
        rfl
      · exact h.worker

theorem Exclusive.begin {c : InputCall} (h : Exclusive s) (hc : c.holds = false) :
    Exclusive { s with calls := s.calls ++ [c] } := by
  refine ⟨h.worker, fun i => (h.call i).trans ?_⟩
  simp only [getElem?_append_call]
  constructor
  · rintro ⟨d, hd, hh⟩
    exact ⟨d, .inl hd, hh⟩
  · rintro ⟨d, hd | ⟨rfl, rfl⟩, hh⟩
    · exact ⟨d, hd, hh⟩
    · rw [hc] at hh
      contradiction

/-- What a step of the worker does. -/
inductive WorkerStep (s : InputState) : InputState → Prop where
  | lock (hw : s.worker = .locking) (hfree : s.holder = none) :
      WorkerStep s { s with holder := some .worker, worker := .checking }
  | awake (hw : s.worker = .checking) (hwake : s.wake = true) :
      WorkerStep s { s with worker := .taking }
  | park (hw : s.worker = .checking) (hwake : s.wake = false) :
      WorkerStep s { s with worker := .parking }
  | sleep (hw : s.worker = .parking) :
      WorkerStep s { s with holder := none, worker := .sleeping }
  | stop (hw : s.worker = .taking) (hstop : s.stopping = true) :
      WorkerStep s { s with queue := [], worker := .stopped }
  | take {frame : AudioFrame} {queue : List AudioFrame} (hw : s.worker = .taking)
      (hopen : s.stopping = false) (hqueue : s.queue = frame :: queue) :
      WorkerStep s { s with queue := queue, worker := .took frame }
  | unlock {frame : AudioFrame} (hw : s.worker = .took frame) :
      WorkerStep s { s with holder := none, worker := .handing frame }
  | hand {frame : AudioFrame} (hw : s.worker = .handing frame) :
      WorkerStep s { s with handed := s.handed ++ [frame], worker := .locking }
  | exit (hw : s.worker = .stopped) :
      WorkerStep s { s with holder := none, worker := .exited }

theorem worker_step (hs : s.inputStep = some t) : WorkerStep s t := by
  unfold InputState.inputStep at hs
  split at hs <;> try contradiction
  · next hw =>
    split at hs <;> try contradiction
    next hfree =>
    obtain rfl := Option.some.inj hs
    exact .lock hw hfree
  · next hw =>
    obtain rfl := Option.some.inj hs
    cases hwake : s.wake with
    | true => exact .awake hw hwake
    | false => exact .park hw hwake
  · next hw =>
    obtain rfl := Option.some.inj hs
    exact .sleep hw
  · next hw =>
    split at hs
    · next hstop =>
      obtain rfl := Option.some.inj hs
      exact .stop hw hstop
    · next hopen =>
      split at hs <;> try contradiction
      next frame queue hqueue =>
      obtain rfl := Option.some.inj hs
      exact .take hw (Bool.eq_false_iff.mpr hopen) hqueue
  · next frame hw =>
    obtain rfl := Option.some.inj hs
    exact .unlock hw
  · next frame hw =>
    obtain rfl := Option.some.inj hs
    exact .hand hw
  · next hw =>
    obtain rfl := Option.some.inj hs
    exact .exit hw

theorem Exclusive.workerStep (h : Exclusive s) (hstep : WorkerStep s t) : Exclusive t := by
  -- the worker holds the mutex in its sections, and then no call does
  have hnone (hw : s.worker.holds = true) (i : Nat) :
      ¬ ∃ c, s.calls[i]? = some c ∧ c.holds = true := by
    intro hc
    have hcall := (h.call i).mpr hc
    rw [h.worker.mpr hw] at hcall
    nomatch hcall
  have hheld (hw : s.worker.holds = true) := h.worker.mpr hw
  cases hstep with
  | lock hw hfree =>
      refine ⟨iff_of_true rfl rfl, fun i => iff_of_false nofun fun hc => ?_⟩
      have hcall := (h.call i).mpr hc
      rw [hfree] at hcall
      contradiction
  | awake hw _ | park hw _ | stop hw _ | take hw _ _ =>
      exact ⟨iff_of_true (hheld (by rw [hw]; rfl)) rfl, h.call⟩
  | sleep hw | unlock hw | exit hw =>
      exact ⟨iff_of_false nofun Bool.false_ne_true,
        fun i => iff_of_false nofun (hnone (by rw [hw]; rfl) i)⟩
  | hand hw =>
      refine ⟨iff_of_false ?_ Bool.false_ne_true, h.call⟩
      rw [h.worker, hw]
      exact Bool.false_ne_true

/-! ## the sleeping worker -/

/-- While the worker sleeps, whoever made its predicate true has still to
notify it; between check and sleep nobody can. -/
structure Alert (s : InputState) : Prop where
  parked : s.worker = .parking → s.wake = false
  woken : s.worker = .taking → s.wake = true
  queued : s.worker = .sleeping → s.queue ≠ [] →
    ∃ (i : Nat) (c : InputCall), s.calls[i]? = some c ∧ c.owesPush = true
  stopping : s.worker = .sleeping → s.stopping = true →
    ∃ (i : Nat) (c : InputCall), s.calls[i]? = some c ∧ c.owesClose = true

theorem Alert.init : Alert (inputQueue maxInputFrames).init := by
  constructor <;> nofun

/-- A debt stays where its call keeps it. -/
theorem exists_debt_set {P : InputCall → Bool} {i : Nat} {c c' : InputCall}
    (hi : s.calls[i]? = some c) (hkeep : P c = true → P c' = true)
    (h : ∃ (j : Nat) (d : InputCall), s.calls[j]? = some d ∧ P d = true) :
    ∃ (j : Nat) (d : InputCall), (s.calls.set i c')[j]? = some d ∧ P d = true := by
  obtain ⟨j, d, hd, hp⟩ := h
  by_cases hj : j = i
  · subst hj
    obtain rfl := Option.some.inj (hi.symm.trans hd)
    exact ⟨j, c', (getElem?_set_call hi).mpr (.inl ⟨rfl, rfl⟩), hkeep hp⟩
  · exact ⟨j, d, (getElem?_set_call hi).mpr (.inr ⟨hj, hd⟩), hp⟩

theorem Alert.callStep {i : Nat} {c c' : InputCall} (h : Alert s) (hx : Exclusive s)
    (hi : s.calls[i]? = some c) (hstep : CallStep s i c c' t) (hdebt : CallDebt s c c' t) :
    Alert t := by
  have hself : (s.calls.set i c')[i]? = some c' := (getElem?_set_call hi).mpr (.inl ⟨rfl, rfl⟩)
  -- a call in its section is not beside a parking worker
  have hparked (hc : c.holds = true) : s.worker ≠ .parking := by
    intro hw
    have hholder := hx.worker.mpr (by rw [hw]; rfl)
    rw [hx.holder_of_call hi hc] at hholder
    nomatch hholder
  cases hstep with
  | plain hholds =>
      exact ⟨h.parked, h.woken,
        fun hw hq => exists_debt_set hi (hdebt.push hw) (h.queued hw hq),
        fun hw hs => exists_debt_set hi (hdebt.close hw) (h.stopping hw hs)⟩
  | acquire hfree hafter =>
      exact ⟨h.parked, h.woken,
        fun hw hq => exists_debt_set hi (hdebt.push hw) (h.queued hw hq),
        fun hw hs => exists_debt_set hi (hdebt.close hw) (h.stopping hw hs)⟩
  | queue frame hopen hbefore hafter howes =>
      refine ⟨fun hw => absurd hw (hparked hbefore), fun _ => ?_, fun _ _ => ⟨i, c', hself, howes⟩,
        fun hw hs => exists_debt_set hi (hdebt.close hw) (h.stopping hw hs)⟩
      simp [InputState.wake]
  | stop hbefore hafter howes =>
      refine ⟨fun hw => absurd hw (hparked hbefore), fun _ => rfl,
        fun hw hq => exists_debt_set hi (hdebt.push hw) (h.queued hw hq), fun hw _ => ?_⟩
      cases hstop : s.stopping with
      | true => exact exists_debt_set hi (hdebt.close hw) (h.stopping hw hstop)
      | false =>
          rw [hstop] at howes
          exact ⟨i, c', hself, howes⟩
  | release hbefore hafter =>
      exact ⟨h.parked, h.woken,
        fun hw hq => exists_debt_set hi (hdebt.push hw) (h.queued hw hq),
        fun hw hs => exists_debt_set hi (hdebt.close hw) (h.stopping hw hs)⟩
  | notify hbefore hafter =>
      have hplace : s.notify.worker = .parking ∨ s.notify.worker = .taking →
          s.notify.worker = s.worker := by
        unfold InputState.notify
        dsimp only
        split
        · rintro (hw | hw) <;> contradiction
        · exact fun _ => rfl
      refine ⟨fun hw => ?_, fun hw => ?_, fun hw => absurd hw (notify_awake s),
        fun hw => absurd hw (notify_awake s)⟩
      · exact h.parked ((hplace (.inl hw)).symm.trans hw)
      · exact h.woken ((hplace (.inr hw)).symm.trans hw)

theorem Alert.begin {c : InputCall} (h : Alert s) :
    Alert { s with calls := s.calls ++ [c] } := by
  have hkeep {P : InputCall → Bool}
      (hp : ∃ (i : Nat) (d : InputCall), s.calls[i]? = some d ∧ P d = true) :
      ∃ (i : Nat) (d : InputCall), (s.calls ++ [c])[i]? = some d ∧ P d = true := by
    obtain ⟨i, d, hd, hp⟩ := hp
    exact ⟨i, d, getElem?_append_call.mpr (.inl hd), hp⟩
  exact ⟨h.parked, h.woken, fun hw hq => hkeep (h.queued hw hq),
    fun hw hs => hkeep (h.stopping hw hs)⟩

theorem Alert.workerStep (h : Alert s) (hstep : WorkerStep s t) : Alert t := by
  cases hstep with
  | awake hw hwake => exact ⟨nofun, fun _ => hwake, nofun, nofun⟩
  | park hw hwake => exact ⟨fun _ => hwake, nofun, nofun, nofun⟩
  | sleep hw =>
      have hwake := h.parked hw
      simp only [InputState.wake, Bool.or_eq_false_iff, Bool.not_eq_false',
        List.isEmpty_iff] at hwake
      refine ⟨nofun, nofun, fun _ hq => absurd hwake.2 hq, fun _ hs => ?_⟩
      rw [hwake.1] at hs
      contradiction
  | _ => exact ⟨nofun, nofun, nofun, nofun⟩

/-! ## the closing call -/

/-- One call at most is past setting `stopping_` and has not returned. -/
structure OneCloser (s : InputState) : Prop where
  stopping : ∀ (i : Nat) (c : InputCall), s.calls[i]? = some c → c.closing = true →
    s.stopping = true
  one : ∀ (i j : Nat) (c d : InputCall), s.calls[i]? = some c → s.calls[j]? = some d →
    c.closing = true → d.closing = true → i = j

theorem OneCloser.init : OneCloser (inputQueue maxInputFrames).init := by
  constructor <;> simp [inputQueue]

theorem CallStep.stopping {i : Nat} {c c' : InputCall} (hstep : CallStep s i c c' t)
    (hs : s.stopping = true) : t.stopping = true := by
  cases hstep <;> first | exact hs | rfl

theorem CallStep.calls {i : Nat} {c c' : InputCall} (hstep : CallStep s i c c' t) :
    t.calls = s.calls.set i c' := by
  cases hstep <;> rfl

theorem OneCloser.callStep {i : Nat} {c c' : InputCall} (h : OneCloser s)
    (hi : s.calls[i]? = some c) (hstep : CallStep s i c c' t) (hdebt : CallDebt s c c' t) :
    OneCloser t := by
  -- where the call sets the flag, no other call was past that
  have hother (hc : c'.closing = true) (j : Nat) (d : InputCall) (hd : s.calls[j]? = some d)
      (hclosing : d.closing = true) : j = i := by
    cases hdebt.closing hc with
    | inl hold => exact h.one j i d c hd hi hclosing hold
    | inr hnew =>
        have hstopping := h.stopping j d hd hclosing
        rw [hnew.1] at hstopping
        contradiction
  constructor
  · intro j d hd hclosing
    rw [hstep.calls, getElem?_set_call hi] at hd
    rcases hd with ⟨-, rfl⟩ | ⟨-, hd⟩
    · cases hdebt.closing hclosing with
      | inl hold => exact hstep.stopping (h.stopping i c hi hold)
      | inr hnew => exact hnew.2
    · exact hstep.stopping (h.stopping j d hd hclosing)
  · intro j k d e hd he hdc hec
    rw [hstep.calls, getElem?_set_call hi] at hd he
    rcases hd with ⟨rfl, rfl⟩ | ⟨hj, hd⟩ <;> rcases he with ⟨rfl, rfl⟩ | ⟨hk, he⟩
    · rfl
    · exact (hother hdc k e he hec).symm
    · exact hother hec j d hd hdc
    · exact h.one j k d e hd he hdc hec

theorem OneCloser.begin {c : InputCall} (h : OneCloser s) (hc : c.closing = false) :
    OneCloser { s with calls := s.calls ++ [c] } := by
  have hold (j : Nat) (d : InputCall) (hd : (s.calls ++ [c])[j]? = some d)
      (hclosing : d.closing = true) : s.calls[j]? = some d := by
    rw [getElem?_append_call] at hd
    rcases hd with hd | ⟨-, rfl⟩
    · exact hd
    · rw [hc] at hclosing
      contradiction
  exact ⟨fun i d hd hclosing => h.stopping i d (hold i d hd hclosing) hclosing,
    fun i j d e hd he hdc hec => h.one i j d e (hold i d hd hdc) (hold j e he hec) hdc hec⟩

theorem OneCloser.workerStep (h : OneCloser s) (hstep : WorkerStep s t) : OneCloser t := by
  cases hstep <;> exact ⟨h.stopping, h.one⟩

/-! ## the frames -/

/-- Every accepted frame was handed over, is in the worker's hands or queued, in
this order, until the worker has seen `stopping_`. -/
structure Lined (s : InputState) : Prop where
  lined : s.worker.ended = false → s.handed ++ s.worker.frames ++ s.queue = s.accepted
  ended : s.worker.ended = true → s.handed <+: s.accepted ∧ s.stopping = true

theorem Lined.init : Lined (inputQueue maxInputFrames).init := ⟨fun _ => rfl, nofun⟩

theorem Lined.callStep {i : Nat} {c c' : InputCall} (h : Lined s)
    (hstep : CallStep s i c c' t) : Lined t := by
  cases hstep with
  | plain _ | acquire _ _ | release _ _ => exact ⟨h.lined, h.ended⟩
  | stop _ _ _ => exact ⟨h.lined, fun ho => ⟨(h.ended ho).1, rfl⟩⟩
  | queue frame hopen _ _ _ =>
      refine ⟨fun ho => ?_, fun ho => ?_⟩
      · show s.handed ++ s.worker.frames ++ (s.queue ++ [frame]) = s.accepted ++ [frame]
        rw [← List.append_assoc, h.lined ho]
      · have hstop := (h.ended ho).2
        rw [hopen] at hstop
        contradiction
  | notify _ _ =>
      unfold InputState.notify
      dsimp only
      split
      · next hw =>
        refine ⟨fun _ => ?_, nofun⟩
        have hlined := h.lined (by rw [hw]; rfl)
        rw [hw] at hlined
        exact hlined
      · exact ⟨h.lined, h.ended⟩

theorem Lined.workerStep (h : Lined s) (hstep : WorkerStep s t) : Lined t := by
  have hlined (hw : s.worker.ended = false) := h.lined hw
  cases hstep with
  | lock hw _ | awake hw _ | park hw _ | sleep hw | unlock hw =>
      refine ⟨fun _ => ?_, nofun⟩
      rw [hw] at hlined
      exact hlined rfl
  | stop hw hstop =>
      rw [hw] at hlined
      refine ⟨nofun, fun _ => ⟨⟨s.queue, ?_⟩, hstop⟩⟩
      simpa [InputPlace.frames] using hlined rfl
  | take hw _ hqueue =>
      rw [hw, hqueue] at hlined
      refine ⟨fun _ => ?_, nofun⟩
      simpa [InputPlace.frames] using hlined rfl
  | hand hw =>
      rw [hw] at hlined
      refine ⟨fun _ => ?_, nofun⟩
      simpa [InputPlace.frames] using hlined rfl
  | exit hw =>
      refine ⟨nofun, fun _ => ?_⟩
      exact h.ended (by rw [hw]; rfl)

/-! ## every run -/

/-- What holds between any two steps. -/
structure InputInvariant (s : InputState) : Prop where
  exclusive : Exclusive s
  alert : Alert s
  oneCloser : OneCloser s
  lined : Lined s

theorem InputInvariant.init : InputInvariant (inputQueue maxInputFrames).init :=
  ⟨.init, .init, .init, .init⟩

/-- A wakeup nobody caused takes the sleeping worker back to the mutex. -/
theorem InputInvariant.spuriousWake (h : InputInvariant s) (hsleep : s.worker = .sleeping) :
    InputInvariant { s with worker := .locking } := by
  have hworker := h.exclusive.worker
  have hlined := h.lined.lined
  rw [hsleep] at hworker hlined
  exact {
    exclusive := ⟨hworker, h.exclusive.call⟩
    alert := ⟨nofun, nofun, nofun, nofun⟩
    oneCloser := ⟨h.oneCloser.stopping, h.oneCloser.one⟩
    lined := ⟨hlined, nofun⟩ }

theorem InputInvariant.step (h : InputInvariant s)
    (hs : (inputQueue maxInputFrames).step s a = some t) : InputInvariant t := by
  have hbegin (ha : a = .close ∨ ∃ frame, a = .push frame) : InputInvariant t := by
    obtain ⟨c, rfl, hholds, hclosing⟩ := begin_step ha hs
    exact ⟨h.exclusive.begin hholds, h.alert.begin, h.oneCloser.begin hclosing,
      h.lined.lined, h.lined.ended⟩
  cases a with
  | push frame => exact hbegin (.inr ⟨frame, rfl⟩)
  | close => exact hbegin (.inl rfl)
  | call i =>
      obtain ⟨c, c', hi, hstep, hdebt⟩ := call_step hs
      exact ⟨h.exclusive.callStep hi hstep, h.alert.callStep h.exclusive hi hstep hdebt,
        h.oneCloser.callStep hi hstep hdebt, h.lined.callStep hstep⟩
  | worker =>
      have hstep := worker_step hs
      exact ⟨h.exclusive.workerStep hstep, h.alert.workerStep hstep,
        h.oneCloser.workerStep hstep, h.lined.workerStep hstep⟩
  | spuriousWake =>
      simp only [inputQueue, inputStep] at hs
      split at hs <;> try contradiction
      next hsleep =>
      obtain rfl := Option.some.inj hs
      exact h.spuriousWake hsleep

theorem InputInvariant.of_reachable (h : (inputQueue maxInputFrames).Reachable s) :
    InputInvariant s :=
  h.rec_inv .init fun _ _ _ _ hinv hs => hinv.step hs

/-! ## the joined worker -/

/-- While a call joins the worker, the worker is awake. -/
theorem InputInvariant.awake_of_joining {i : Nat} (h : InputInvariant s)
    (hi : s.calls[i]? = some (.close .joining)) : s.worker ≠ .sleeping := by
  intro hsleep
  have hstop := h.oneCloser.stopping i _ hi rfl
  obtain ⟨j, d, hd, howes⟩ := h.alert.stopping hsleep hstop
  have hclosing : d.closing = true := by
    unfold InputCall.owesClose at howes
    split at howes <;> first | rfl | contradiction
  obtain rfl := h.oneCloser.one i j _ d hi hd rfl hclosing
  obtain rfl := Option.some.inj (hi.symm.trans hd)
  contradiction

/-- The steps of the worker between here and its return, once `stopping_` is set. -/
def InputPlace.ahead : InputPlace → Nat
  | .took _ => 6
  | .handing _ => 5
  | .locking => 4
  | .checking => 3
  | .taking => 2
  | .stopped => 1
  | .parking | .sleeping | .exited => 0

/-- The steps of a call between here and its release of the mutex. -/
def InputCall.ahead : InputCall → Nat
  | .push _ .holding | .close .holding => 2
  | .push _ (.leaving _) | .close (.leaving _) => 1
  | _ => 0

/-- The steps between here and the return of the worker. -/
def InputState.ahead (s : InputState) : Nat :=
  s.worker.ahead + match s.holder with
    | some (.call i) => (s.calls[i]?.map InputCall.ahead).getD 0
    | _ => 0

/-- The call in its section goes on, and is nearer to the end of it. -/
theorem holding_call_steps {i : Nat} {c : InputCall} (hholder : s.holder = some (.call i))
    (hi : s.calls[i]? = some c) (hc : c.holds = true) :
    ∃ t c', inputStep maxInputFrames s (.call i) = some t ∧ t.calls = s.calls.set i c' ∧
      t.ahead < s.ahead := by
  have hlt := (List.getElem?_eq_some_iff.mp hi).1
  have hahead : s.ahead = s.worker.ahead + c.ahead := by
    simp [InputState.ahead, hholder, hi]
  rw [hahead]
  unfold InputCall.holds at hc
  split at hc <;> try contradiction
  · next frame =>
    simp only [inputStep, hi, InputState.pushStep]
    split
    · refine ⟨_, _, rfl, rfl, ?_⟩
      simp [InputState.ahead, hholder, hlt, InputCall.ahead]
    split
    · refine ⟨_, _, rfl, rfl, ?_⟩
      simp [InputState.ahead, hholder, hlt, InputCall.ahead]
    · refine ⟨_, _, rfl, rfl, ?_⟩
      simp [InputState.ahead, hholder, hlt, InputCall.ahead]
  · next frame outcome =>
    simp only [inputStep, hi, InputState.pushStep]
    refine ⟨_, _, rfl, rfl, ?_⟩
    simp [InputState.ahead, InputCall.ahead]
  · simp only [inputStep, hi, InputState.closeStep]
    refine ⟨_, _, rfl, rfl, ?_⟩
    simp [InputState.ahead, hholder, hlt, InputCall.ahead]
  · next first =>
    simp only [inputStep, hi, InputState.closeStep]
    refine ⟨_, _, rfl, rfl, ?_⟩
    simp [InputState.ahead, InputCall.ahead]

theorem ahead_of_free (hfree : ∀ j, s.holder ≠ some (.call j)) : s.ahead = s.worker.ahead := by
  unfold InputState.ahead
  split
  · next j hholder => exact absurd hholder (hfree j)
  · rfl

/-- A joined worker that no call keeps from the mutex goes on. -/
theorem joined_worker_steps {i : Nat} (h : InputInvariant s)
    (hi : s.calls[i]? = some (.close .joining)) (hfree : ∀ j, s.holder ≠ some (.call j))
    (hahead : s.worker.ahead ≠ 0) :
    ∃ t, s.inputStep = some t ∧ t.calls = s.calls ∧ t.ahead < s.ahead := by
  have hstop := h.oneCloser.stopping i _ hi rfl
  rw [ahead_of_free hfree]
  unfold InputState.inputStep
  cases hw : s.worker with
  | locking =>
      have hnone : s.holder = none := by
        cases hholder : s.holder with
        | none => rfl
        | some holder =>
            cases holder with
            | call j => exact absurd hholder (hfree j)
            | worker =>
                have hholds := h.exclusive.worker.mp hholder
                rw [hw] at hholds
                contradiction
      exact ⟨_, if_pos hnone, rfl, by simp [InputState.ahead, InputPlace.ahead]⟩
  | checking =>
      have hwake : s.wake = true := by simp [InputState.wake, hstop]
      refine ⟨{ s with worker := .taking }, by rw [hwake]; rfl, rfl, ?_⟩
      rw [ahead_of_free (s := { s with worker := .taking }) hfree]
      exact Nat.lt_add_one 2
  | taking =>
      refine ⟨_, if_pos hstop, rfl, ?_⟩
      rw [ahead_of_free (s := { s with queue := [], worker := .stopped }) hfree]
      exact Nat.lt_add_one 1
  | took frame => exact ⟨_, rfl, rfl, Nat.lt_add_one 5⟩
  | handing frame =>
      refine ⟨_, rfl, rfl, ?_⟩
      rw [ahead_of_free (s := { s with handed := s.handed ++ [frame], worker := .locking }) hfree]
      exact Nat.lt_add_one 4
  | stopped => exact ⟨_, rfl, rfl, Nat.lt_add_one 0⟩
  | parking | sleeping | exited => rw [hw] at hahead; contradiction

/-- While a worker is joined and has not returned, it or the call in its section
goes on. -/
theorem joined_steps {i : Nat} (h : InputInvariant s)
    (hi : s.calls[i]? = some (.close .joining)) (hahead : s.ahead ≠ 0) :
    ∃ a t, (inputQueue maxInputFrames).step s a = some t ∧
      (InputInvariant t ∧ t.calls[i]? = some (.close .joining)) ∧ t.ahead < s.ahead := by
  by_cases hcall : ∃ j, s.holder = some (.call j)
  · obtain ⟨j, hholder⟩ := hcall
    obtain ⟨c, hj, hc⟩ := (h.exclusive.call j).mp hholder
    obtain ⟨t, c', hs, hcalls, hlt⟩ := holding_call_steps hholder hj hc
    have hstep : (inputQueue maxInputFrames).step s (.call j) = some t := hs
    refine ⟨.call j, t, hstep, ⟨h.step hstep, ?_⟩, hlt⟩
    rw [hcalls, getElem?_set_call hj]
    refine .inr ⟨?_, hi⟩
    rintro rfl
    obtain rfl := Option.some.inj (hi.symm.trans hj)
    contradiction
  · have hfree (j : Nat) : s.holder ≠ some (.call j) := fun hj => hcall ⟨j, hj⟩
    rw [ahead_of_free hfree] at hahead
    obtain ⟨t, hs, hcalls, hlt⟩ := joined_worker_steps h hi hfree hahead
    have hstep : (inputQueue maxInputFrames).step s .worker = some t := hs
    exact ⟨.worker, t, hstep, ⟨h.step hstep, hcalls ▸ hi⟩, hlt⟩

/-- A joined worker returns, if it and whoever holds the mutex go on. -/
theorem joined_worker_exits {i : Nat} (h : InputInvariant s)
    (hi : s.calls[i]? = some (.close .joining)) :
    ∃ t, (inputQueue maxInputFrames).Leads s t ∧ t.worker = .exited := by
  obtain ⟨t, hleads, ⟨hinv, ht⟩, hzero⟩ := Machine.Leads.exists_drained
    (m := inputQueue maxInputFrames) (fun _ hp hsize => joined_steps hp.1 hp.2 hsize) ⟨h, hi⟩
  refine ⟨t, hleads, ?_⟩
  have hplace : t.worker.ahead = 0 := (Nat.add_eq_zero_iff.mp hzero).1
  have hstop := hinv.oneCloser.stopping i _ ht rfl
  have hwake : t.wake = true := by simp [InputState.wake, hstop]
  cases hw : t.worker with
  | exited => rfl
  | sleeping => exact absurd hw (hinv.awake_of_joining ht)
  | parking =>
      rw [hinv.alert.parked hw] at hwake
      contradiction
  | _ =>
      rw [hw] at hplace
      contradiction

/-! ## after `stopping_` was seen -/

/-- A worker that has seen `stopping_` hands over nothing more. -/
theorem InputPlace.ended_step (hended : s.worker.ended = true)
    (hs : (inputQueue maxInputFrames).step s a = some t) :
    t.worker.ended = true ∧ t.handed = s.handed := by
  cases a with
  | push frame | close =>
      obtain rfl := Option.some.inj hs
      exact ⟨hended, rfl⟩
  | call i =>
      obtain ⟨c, c', -, hstep, -⟩ := call_step hs
      cases hstep with
      | notify _ _ =>
          refine ⟨?_, rfl⟩
          unfold InputState.notify
          dsimp only
          split
          · next hsleep =>
            rw [hsleep] at hended
            contradiction
          · exact hended
      | _ => exact ⟨hended, rfl⟩
  | worker =>
      cases worker_step hs with
      | exit _ => exact ⟨rfl, rfl⟩
      | lock hw _ | awake hw _ | park hw _ | sleep hw | stop hw _ | take hw _ _ | unlock hw
      | hand hw =>
          rw [hw] at hended
          contradiction
  | spuriousWake =>
      simp only [inputQueue, inputStep] at hs
      split at hs <;> try contradiction
      next hsleep =>
      rw [hsleep] at hended
      contradiction

theorem handed_of_ended (hr : (inputQueue maxInputFrames).Reachable s)
    (hended : s.worker.ended = true) (hleads : (inputQueue maxInputFrames).Leads s t) :
    t.handed = s.handed := by
  have hkept : t.worker.ended = true ∧ t.handed = s.handed := by
    refine Machine.Leads.rec_stable (P := fun r => r.worker.ended = true ∧ r.handed = s.handed)
      ?_ hr ⟨hended, rfl⟩ hleads
    intro r a r' _ hp hs
    obtain ⟨hended', hhanded⟩ := InputPlace.ended_step hp.1 hs
    exact ⟨hended', hhanded.trans hp.2⟩
  exact hkept.2

/-! ## no wakeup is lost -/

/-- What the wait of the worker owes to `push_audio` and `close`. -/
structure NoLostWakeup (maxInputFrames : Nat) (s : InputState) : Prop where
  /-- The worker sleeps beside a frame only while a call has still to notify it
  of one. -/
  queued : s.worker = .sleeping → s.queue ≠ [] → ∃ c ∈ s.calls, c.owesPush = true
  /-- It sleeps beside `stopping_` only while the call that set it has still to
  notify it. -/
  stopping : s.worker = .sleeping → s.stopping = true → ∃ c ∈ s.calls, c.owesClose = true
  /-- A worker that is joined is awake, and can return. -/
  joined : .close .joining ∈ s.calls → s.worker ≠ .sleeping ∧
    ∃ t, (inputQueue maxInputFrames).Leads s t ∧ t.worker = .exited
  /-- The provider is handed the accepted frames, each once and in order. -/
  handed : s.handed <+: s.accepted
  /-- After the worker has seen `stopping_` it is handed none. -/
  ended : s.worker.ended = true →
    ∀ t, (inputQueue maxInputFrames).Leads s t → t.handed = s.handed

/-- Under every interleaving of any number of calls with the worker, no wakeup of
the worker is lost. -/
theorem no_lost_wakeup (hr : (inputQueue maxInputFrames).Reachable s) :
    NoLostWakeup maxInputFrames s := by
  have h := InputInvariant.of_reachable hr
  refine ⟨fun hsleep hqueue => ?_, fun hsleep hstop => ?_, fun hjoin => ?_, ?_,
    fun hended t => handed_of_ended hr hended⟩
  · obtain ⟨i, c, hi, howes⟩ := h.alert.queued hsleep hqueue
    exact ⟨c, List.mem_of_getElem? hi, howes⟩
  · obtain ⟨i, c, hi, howes⟩ := h.alert.stopping hsleep hstop
    exact ⟨c, List.mem_of_getElem? hi, howes⟩
  · obtain ⟨i, hi⟩ := List.mem_iff_getElem?.mp hjoin
    exact ⟨h.awake_of_joining hi, joined_worker_exits h hi⟩
  · cases hended : s.worker.ended with
    | true => exact (h.lined.ended hended).1
    | false =>
        rw [← h.lined.lined hended, List.append_assoc]
        exact List.prefix_append _ _

/-- A frame is pushed while the worker sleeps; `close` overtakes the push before
it notifies, and joins a worker that its own notification has woken. -/
theorem no_lost_wakeup_overtaken :
    ∃ s, NoLostWakeup 1 s ∧ s.queue ≠ [] ∧ InputCall.close .joining ∈ s.calls ∧
      s.worker = .locking := by
  let actions : List InputAction := [.worker, .worker, .worker, .push {}, .call 0, .call 0,
    .call 0, .close, .call 0, .call 1, .call 1, .call 1, .call 1]
  exact ⟨((inputQueue 1).run {} actions).get (by decide),
    no_lost_wakeup ⟨actions, by decide⟩, by decide, by decide, by decide⟩

end ByteTurn

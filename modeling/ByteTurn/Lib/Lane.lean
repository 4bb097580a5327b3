import ByteTurn.Lib.Machine

/-!
# ByteTurn.Lib.Lane

A serial lane: tickets are accepted in increasing order, wait in a queue, run
one at a time from its front, and either finish or are dropped while they wait.

`Lane.Serial` says what that amounts to over every run: what has been started
is what has finished plus the running ticket, started and waiting tickets are a
subsequence of the accepted ones, and every accepted ticket is in exactly one
of the four places.

The module names no program; schedulers are compared with it.
-/

/-- A lane, with the history of what happened to its tickets. -/
structure Lane where
  waiting : List Nat := []
  running : Option Nat := none
  accepted : List Nat := []
  started : List Nat := []
  finished : List Nat := []
  dropped : List Nat := []
  deriving DecidableEq, Repr

namespace Lane

/-- What may happen to a lane. -/
inductive Label where
  | accept (ticket : Nat)
  | start
  | finish
  | drop
  deriving DecidableEq, Repr

/-- One step of a lane. -/
def step (l : Lane) : Label → Option Lane
  | .accept ticket =>
      if ∀ i ∈ l.accepted, i < ticket then
        some { l with accepted := l.accepted ++ [ticket], waiting := l.waiting ++ [ticket] }
      else none
  | .start => match l.running, l.waiting with
    | none, ticket :: rest => some { l with
        running := some ticket
        waiting := rest
        started := l.started ++ [ticket] }
    | _, _ => none
  | .finish => match l.running with
    | some ticket => some { l with running := none, finished := l.finished ++ [ticket] }
    | none => none
  | .drop => some { l with waiting := [], dropped := l.dropped ++ l.waiting }

/-- An empty lane. -/
def machine : Machine Lane Label where
  init := {}
  step := step

/-- What a lane keeps to. -/
structure Serial (l : Lane) : Prop where
  increasing : l.accepted.Pairwise (· < ·)
  serial : l.started = l.finished ++ l.running.toList
  fifo : (l.started ++ l.waiting).Sublist l.accepted
  placed : l.accepted.Perm (l.finished ++ l.dropped ++ l.running.toList ++ l.waiting)

/-- An empty lane is serial. -/
theorem Serial.init : Serial machine.init := by
  constructor <;> simp [machine]

/-- Every step keeps a lane serial. -/
theorem Serial.step {l l' : Lane} {a : Label} (h : Serial l) (hs : l.step a = some l') :
    Serial l' := by
  obtain ⟨hincreasing, hserial, hfifo, hplaced⟩ := h
  cases a with
  | accept ticket =>
      simp only [Lane.step] at hs
      split at hs <;> try contradiction
      next hfresh =>
      obtain rfl := Option.some.inj hs
      refine ⟨?_, hserial, ?_, ?_⟩
      · rw [List.pairwise_append]
        refine ⟨hincreasing, List.pairwise_singleton _ _, fun i hi j hj => ?_⟩
        rw [List.mem_singleton.mp hj]
        exact hfresh i hi
      · rw [← List.append_assoc]
        exact hfifo.append (List.Sublist.refl _)
      · rw [← List.append_assoc]
        exact hplaced.append (List.Perm.refl _)
  | start =>
      simp only [Lane.step] at hs
      split at hs <;> try contradiction
      next ticket rest hrunning hwaiting =>
      obtain rfl := Option.some.inj hs
      rw [hrunning] at hserial hplaced
      rw [hwaiting] at hfifo hplaced
      refine ⟨hincreasing, ?_, ?_, ?_⟩
      · simpa using hserial
      · simpa using hfifo
      · simpa using hplaced
  | finish =>
      simp only [Lane.step] at hs
      split at hs <;> try contradiction
      next ticket hrunning =>
      obtain rfl := Option.some.inj hs
      rw [hrunning] at hserial hplaced
      refine ⟨hincreasing, ?_, hfifo, hplaced.trans ?_⟩
      · simpa using hserial
      · simp only [Option.toList_some, Option.toList_none, List.append_nil, List.append_assoc]
        refine List.Perm.append_left _ ?_
        rw [← List.append_assoc, ← List.append_assoc]
        exact List.perm_append_comm.append_right _
  | drop =>
      obtain rfl := Option.some.inj hs
      refine ⟨hincreasing, hserial, ?_, hplaced.trans ?_⟩
      · rw [List.append_nil]
        exact (List.sublist_append_left _ _).trans hfifo
      · simp only [List.append_assoc, List.append_nil]
        exact List.Perm.append_left _ (List.Perm.append_left _ List.perm_append_comm)

/-! ## what a step does to the tickets in the lane -/

/-- The tickets that have neither finished nor been dropped. -/
def unfinished (l : Lane) : List Nat := l.running.toList ++ l.waiting

variable {l l' : Lane} {ticket : Nat}

/-- Accepting puts a ticket behind the others. -/
theorem unfinished_accept (hs : l.step (.accept ticket) = some l') :
    l'.unfinished = l.unfinished ++ [ticket] ∧ l'.accepted = l.accepted ++ [ticket] := by
  simp only [step] at hs
  split at hs <;> try contradiction
  obtain rfl := Option.some.inj hs
  exact ⟨by simp [unfinished], rfl⟩

/-- Starting changes neither what is unfinished nor what was accepted. -/
theorem unfinished_start (hs : l.step .start = some l') :
    l'.unfinished = l.unfinished ∧ l'.accepted = l.accepted := by
  simp only [step] at hs
  split at hs <;> try contradiction
  next ticket rest hrunning hwaiting =>
  obtain rfl := Option.some.inj hs
  exact ⟨by simp [unfinished, hrunning, hwaiting], rfl⟩

/-- Finishing removes the first one. -/
theorem unfinished_finish (hs : l.step .finish = some l') (hr : l.running = some ticket) :
    l.unfinished = ticket :: l'.unfinished ∧ l'.running = none ∧ l'.accepted = l.accepted := by
  simp only [step, hr] at hs
  obtain rfl := Option.some.inj hs
  exact ⟨by simp [unfinished, hr], rfl, rfl⟩

/-- Dropping leaves the running one. -/
theorem unfinished_drop (hs : l.step .drop = some l') :
    l'.unfinished = l.running.toList ∧ l'.running = l.running ∧ l'.accepted = l.accepted := by
  obtain rfl := Option.some.inj hs
  exact ⟨by simp [unfinished], rfl, rfl⟩

theorem reachable_step {a : Label} (h : machine.Reachable l) (hs : l.step a = some l') :
    machine.Reachable l' := h.step (a := a) hs

/-- Every reachable lane is serial. -/
theorem serial_of_reachable {l : Lane} (h : machine.Reachable l) : Serial l :=
  Machine.Reachable.rec_inv Serial.init (fun _ _ _ _ hp hs => hp.step hs) h

/-- The tickets that have started did so in the order of their acceptance. -/
theorem Serial.started_increasing {l : Lane} (h : Serial l) : l.started.Pairwise (· < ·) :=
  h.increasing.sublist ((List.sublist_append_left _ _).trans h.fifo)

/-- An unfinished ticket has been accepted. -/
theorem Serial.accepted_of_unfinished {l : Lane} (h : Serial l) {i : Nat}
    (hi : i ∈ l.unfinished) : i ∈ l.accepted := by
  rw [h.placed.mem_iff]
  simp only [unfinished, List.mem_append] at hi ⊢
  tauto

/-- In a lane at rest every accepted ticket has finished or was dropped. -/
theorem Serial.settled {l : Lane} (h : Serial l) (hw : l.waiting = []) (hr : l.running = none)
    {i : Nat} (hi : i ∈ l.accepted) : i ∈ l.finished ∨ i ∈ l.dropped := by
  have hmem := h.placed.mem_iff.mp hi
  simpa [hw, hr] using hmem

end Lane

import ByteTurn.IncrementalTts

/-!
# ByteTurn.IncrementalTts.Backpressure

Can a producer blocked on back-pressure always leave `push`?

The worker leaves its loop on four paths.  A local cancellation, a drained
`finish` and an exception each set a flag of the producer's wait predicate
first; the external `cancelled_()` does not.  `Relief` is the invariant of the
runs in which the worker never leaves on `cancelled_()` alone while the queue is
full, and `stranded_after` completes any other run to a stranded producer.
-/

namespace ByteTurn

variable {config : IncrementalTtsConfig} {s t : IncrementalTtsState} {a : IncrementalTtsAction}
  {b : TtsWorkerAction}

/-- The worker is gone and some `push` waits on a predicate that is false. -/
def Stranded (config : IncrementalTtsConfig) (s : IncrementalTtsState) : Prop :=
  s.worker = .exited ∧ (∃ call ∈ s.pushes, call.blocked = true) ∧ s.pushWake config = false

/-! ## leaving the loop -/

/-- The places of the worker after its loop, its `catch` block apart. -/
def TtsPlace.afterLoop : TtsPlace → Bool
  | .leaving | .ending | .exited => true
  | _ => false

/-- The worker is about to leave its loop because of `cancelled_()`. -/
def leavesOnCancelled (s : IncrementalTtsState) : TtsWorkerAction → Bool
  | .takeChunk => s.worker = .waiting && s.cancelled
  | .poll => s.worker = .polling && s.cancelled
  | _ => false

/-- The step does not leave the loop on `cancelled_()` while the wait predicate
of `push` is false. -/
def LeavesRoom (config : IncrementalTtsConfig) (s : IncrementalTtsState) :
    IncrementalTtsAction → Prop
  | .worker b => leavesOnCancelled s b = true → s.pushWake config = true
  | _ => True

instance : Decidable (LeavesRoom config s a) := by
  unfold LeavesRoom
  split <;> infer_instance

/-- A flag that ends every `push`, whatever the queue holds. -/
def IncrementalTtsState.released (s : IncrementalTtsState) : Bool :=
  s.finishing || s.cancelledLocally || s.error.isSome

/-- A blocked `push` goes on when it is released or finds room. -/
theorem pushWake_iff :
    s.pushWake config = true ↔
      s.released = true ∨ s.queue.length < config.maxQueuedChunks := by
  simp [IncrementalTtsState.pushWake, IncrementalTtsState.released, or_assoc]

/-- Once the worker is out of its loop a producer can leave `push`; where that
is only because the queue has room, `cancelled_()` keeps it from filling up. -/
def Relief (config : IncrementalTtsConfig) (s : IncrementalTtsState) : Prop :=
  s.worker.afterLoop = true →
    s.released = true ∨ (s.cancelled = true ∧ s.queue.length < config.maxQueuedChunks)

/-- A new pipeline has nobody to relieve. -/
theorem Relief.init : Relief config (incrementalTts config).init := nofun

/-- Where the worker has left, a blocked `push` goes on. -/
theorem Relief.pushWake (h : Relief config s) (hw : s.worker = .exited) :
    s.pushWake config = true := by
  rw [pushWake_iff]
  rcases h (by rw [hw]; rfl) with hr | ⟨-, hroom⟩
  · exact .inl hr
  · exact .inr hroom

/-! ## steps of the callers -/

/-- A step of a caller or of the external predicate. -/
structure TtsCallerStep (s t : IncrementalTtsState) : Prop where
  worker : t.worker = s.worker
  released : s.released = true → t.released = true
  cancelled : s.cancelled = true → t.cancelled = true
  /-- A cancelled pipeline accepts no text. -/
  refused : s.cancelled = true → t.queue.length ≤ s.queue.length

/-- What a step of a caller may change. -/
theorem TtsCallerStep.of_same (hw : t.worker = s.worker) (hr : s.released = true → t.released = true)
    (hc : t.cancelled = s.cancelled) (hq : t.queue = s.queue) : TtsCallerStep s t :=
  ⟨hw, hr, fun h => hc.trans h, fun _ => Nat.le_of_eq (congrArg _ hq)⟩

/-- `push` is a step of a caller. -/
theorem push_step (config : IncrementalTtsConfig) (s : IncrementalTtsState) (text : Bytes)
    (pushes : List PushCall) : TtsCallerStep s { (s.push config text).1 with pushes := pushes } := by
  unfold IncrementalTtsState.push
  split
  · split
    · exact .of_same rfl id rfl rfl
    · next hrefuse =>
      refine ⟨rfl, id, id, fun hc => absurd ?_ hrefuse⟩
      simp [hc]
  · exact .of_same rfl id rfl rfl

/-- So is every step but the worker's. -/
theorem tts_caller_step (hs : incrementalTtsStep config s a = some t) (ha : ∀ b, a ≠ .worker b) :
    TtsCallerStep s t := by
  cases a with
  | cancelExternally =>
      obtain rfl := Option.some.inj hs
      exact ⟨rfl, id, fun _ => rfl, fun _ => Nat.le_refl _⟩
  | push text =>
      obtain rfl := Option.some.inj hs
      exact .of_same rfl id rfl rfl
  | pushSection i =>
      simp only [incrementalTtsStep] at hs
      split at hs <;> try contradiction
      next call _ =>
      have hpush := fun pushes => push_step config s call.text pushes
      split at hs <;> obtain rfl := Option.some.inj hs
      · next r heq => simpa only [heq] using hpush (r.pushes.set i ⟨call.text, true⟩)
      · next r _ heq => simpa only [heq] using hpush (r.pushes.eraseIdx i)
  | finish =>
      obtain rfl := Option.some.inj hs
      refine .of_same rfl (fun _ => ?_) rfl rfl
      simp [IncrementalTtsState.released, IncrementalTtsState.finish]
  | finishReturn | join =>
      simp only [incrementalTtsStep] at hs
      split at hs <;> try contradiction
      obtain rfl := Option.some.inj hs
      exact .of_same rfl id rfl rfl
  | cancel =>
      obtain rfl := Option.some.inj hs
      unfold IncrementalTtsState.cancel
      split
      · exact .of_same rfl id rfl rfl
      · refine ⟨rfl, fun _ => ?_, id, fun _ => Nat.zero_le _⟩
        simp [IncrementalTtsState.released]
  | worker b => exact absurd rfl (ha b)

/-- Callers keep the relief. -/
theorem Relief.caller (h : Relief config s) (hs : TtsCallerStep s t) : Relief config t := by
  intro hafter
  rw [hs.worker] at hafter
  rcases h hafter with hr | ⟨hc, hroom⟩
  · exact .inl (hs.released hr)
  · exact .inr ⟨hs.cancelled hc, Nat.lt_of_le_of_lt (hs.refused hc) hroom⟩

/-! ## steps of the worker -/

/-- Leaving on `cancelled_()` where the wait predicate of `push` is true. -/
theorem relief_of_pushWake (hc : s.cancelled = true) (hwake : s.pushWake config = true) :
    s.released = true ∨ (s.cancelled = true ∧ s.queue.length < config.maxQueuedChunks) := by
  rcases pushWake_iff.mp hwake with hr | hroom
  · exact .inl hr
  · exact .inr ⟨hc, hroom⟩

/-- The worker leaves at the head of its loop with the relief in place. -/
theorem Relief.takeChunk (hw : s.worker = .waiting) (hg : s.cancelled = true → s.pushWake config = true)
    (hs : s.takeChunk = some t) : Relief config t := by
  unfold IncrementalTtsState.takeChunk at hs
  split at hs <;> try contradiction
  split at hs
  · next hstop =>
    obtain rfl := Option.some.inj hs
    intro _
    rcases Bool.or_eq_true _ _ ▸ hstop with hl | hc
    · exact .inl (by simp [IncrementalTtsState.released, hl])
    · exact relief_of_pushWake hc (hg hc)
  · split at hs
    · split at hs <;> obtain rfl := Option.some.inj hs
      · next hf => exact fun _ => .inl (by simp [IncrementalTtsState.released, hf])
      · exact fun hafter => by rw [hw] at hafter; contradiction
    · obtain rfl := Option.some.inj hs
      nofun

/-- Every step of the worker keeps the relief, if it leaves room. -/
theorem Relief.worker (h : Relief config s) (hg : LeavesRoom config s (.worker b))
    (hs : ttsWorkerStep s b = some t) : Relief config t := by
  cases b with
  | takeChunk =>
      simp only [ttsWorkerStep] at hs
      split at hs <;> try contradiction
      next hw => exact .takeChunk hw (fun hc => hg (by simp [leavesOnCancelled, hw, hc])) hs
  | returned =>
      simp only [ttsWorkerStep] at hs
      split at hs <;> try contradiction
      · obtain rfl := Option.some.inj hs
        nofun
      · obtain rfl := Option.some.inj hs
        nofun
      · next hw =>
        obtain rfl := Option.some.inj hs
        exact fun _ => h (by rw [hw]; rfl)
  | threw error =>
      simp only [ttsWorkerStep] at hs
      split at hs <;> try contradiction
      all_goals
        obtain rfl := Option.some.inj hs
        nofun
  | poll =>
      simp only [ttsWorkerStep] at hs
      split at hs <;> try contradiction
      next hw =>
      obtain rfl := Option.some.inj hs
      cases hc : s.cancelled with
      | true => exact fun _ => hc ▸ relief_of_pushWake hc (hg (by simp [leavesOnCancelled, hw, hc]))
      | false => nofun
  | leave =>
      simp only [ttsWorkerStep] at hs
      split at hs <;> try contradiction
      next hw =>
      obtain rfl := Option.some.inj hs
      exact fun _ => h (by rw [hw]; rfl)
  | handle =>
      simp only [ttsWorkerStep] at hs
      split at hs <;> try contradiction
      obtain rfl := Option.some.inj hs
      exact fun _ => .inl (by simp [IncrementalTtsState.released])

/-- So does every step. -/
theorem Relief.step (h : Relief config s) (hg : LeavesRoom config s a)
    (hs : incrementalTtsStep config s a = some t) : Relief config t := by
  by_cases ha : ∃ b, a = .worker b
  · obtain ⟨b, rfl⟩ := ha
    exact h.worker hg hs
  · exact h.caller (tts_caller_step hs fun b hb => ha ⟨b, hb⟩)

/-- The relief is there in every state of a run that leaves room. -/
theorem relief_of_guarded
    (h : ((incrementalTts config).guarded (LeavesRoom config)).Reachable s) : Relief config s := by
  refine Machine.Reachable.rec_inv (m := (incrementalTts config).guarded (LeavesRoom config))
    Relief.init ?_ h
  intro s a t _ hp hstep
  obtain ⟨hg, hs⟩ := Machine.guarded_step.mp hstep
  exact hp.step hg hs

/-! ## stranding a producer -/

/-- Leaving on `cancelled_()` with a full queue: the next `push` waits for a
worker that is on its way out. -/
theorem stranded_after (hs : incrementalTtsStep config s a = some t)
    (hg : ¬ LeavesRoom config s a) :
    ∃ r, (incrementalTts config).Leads t r ∧ Stranded config r := by
  have hleft : t = { s with worker := .leaving } ∧ s.cancelled = true ∧
      s.pushWake config = false := by
    cases a <;> try exact absurd trivial hg
    next b =>
    obtain ⟨hleaves, hwake⟩ := Classical.not_imp.mp hg
    refine ⟨?_, ?_, Bool.eq_false_iff.mpr hwake⟩ <;> cases b <;> try contradiction
    all_goals
      simp only [leavesOnCancelled, Bool.and_eq_true, decide_eq_true_eq] at hleaves
    · obtain ⟨hw, hc⟩ := hleaves
      simp only [incrementalTtsStep, ttsWorkerStep, hw, IncrementalTtsState.takeChunk] at hs
      split at hs <;> try contradiction
      rw [if_pos (by simp [hc])] at hs
      exact (Option.some.inj hs).symm
    · obtain ⟨hw, hc⟩ := hleaves
      simp only [incrementalTtsStep, ttsWorkerStep, hw] at hs
      rw [if_pos hc] at hs
      exact (Option.some.inj hs).symm
    · exact hleaves.2
    · exact hleaves.2
  obtain ⟨rfl, hc, hwake⟩ := hleft
  let blocked : IncrementalTtsState :=
    { s with worker := .leaving, pushes := s.pushes ++ [⟨[], true⟩] }
  have hwake' : ∀ (w : TtsPlace) (pushes : List PushCall),
      IncrementalTtsState.pushWake config { s with worker := w, pushes := pushes } = false :=
    fun _ _ => hwake
  have hblock : (incrementalTts config).run { s with worker := .leaving }
      [.push [], .pushSection s.pushes.length] = some blocked := by
    simp [Machine.run, incrementalTts, incrementalTtsStep, IncrementalTtsState.push, hwake', blocked]
  have hexit : (incrementalTts config).step blocked (.worker .leave) =
      some { blocked with worker := .exited } := by
    simp [incrementalTts, incrementalTtsStep, ttsWorkerStep, blocked, hc]
  refine ⟨_, .trans ⟨_, hblock⟩ (.single hexit), rfl, ⟨⟨[], true⟩, ?_, rfl⟩, hwake' _ _⟩
  simp [blocked]

/-- **Back-pressure and cancellation**: while the worker never leaves its loop
on `cancelled_()` with a full queue and no flag set, no producer is stranded;
the first step that does so can be followed by one that is. -/
theorem producer_stranded_iff_full_exit (config : IncrementalTtsConfig) (s : IncrementalTtsState)
    (h : ((incrementalTts config).guarded (LeavesRoom config)).Reachable s) :
    ¬ Stranded config s ∧
      ∀ a t, (incrementalTts config).step s a = some t → ¬ LeavesRoom config s a →
        ∃ r, (incrementalTts config).Leads t r ∧ Stranded config r := by
  refine ⟨fun ⟨hw, _, hwake⟩ => ?_, fun a t hs hg => stranded_after hs hg⟩
  rw [(relief_of_guarded h).pushWake hw] at hwake
  contradiction

/-- A pipeline with room for one chunk. -/
def tightTts : IncrementalTtsConfig := { maxQueuedChunks := 1, positive := Nat.one_pos }

/-- A chunk is being spoken, another one queued and a third one blocked when the
response is cancelled from outside. -/
def bargeInRun : List IncrementalTtsAction :=
  [.worker .returned, .push (lit "a"), .pushSection 0, .worker .takeChunk, .push (lit "b"),
   .pushSection 0, .push (lit "c"), .pushSection 0, .cancelExternally, .worker .returned,
   .worker .poll, .worker .leave]

/-- The third chunk is stranded. -/
theorem bargeInRun_strands :
    ∃ s, (incrementalTts tightTts).run (incrementalTts tightTts).init bargeInRun = some s ∧
      Stranded tightTts s :=
  ⟨_, rfl, rfl, ⟨⟨lit "c", true⟩, by decide, rfl⟩, by decide⟩

/-- The queue is empty when the worker sees that the response is cancelled, and
another chunk comes after it has left. -/
def emptiedRun : List IncrementalTtsAction :=
  [.worker .returned, .push (lit "a"), .pushSection 0, .worker .takeChunk, .cancelExternally,
   .worker .returned, .worker .poll, .worker .leave, .push (lit "b"), .pushSection 0]

/-- A worker that leaves room strands nobody. -/
theorem emptiedRun_not_stranded :
    ∃ s, ((incrementalTts tightTts).guarded (LeavesRoom tightTts)).run
        (incrementalTts tightTts).init emptiedRun = some s ∧
      s.cancelled = true ∧ s.worker = .exited ∧ ¬ Stranded tightTts s :=
  ⟨_, rfl, rfl, rfl, (producer_stranded_iff_full_exit tightTts _ ⟨emptiedRun, rfl⟩).1⟩

end ByteTurn

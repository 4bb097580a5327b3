import ByteTurn.IncrementalTts.Backpressure

/-!
# ByteTurn.IncrementalTts.Ordering

What reaches the speech provider through the pipeline, in which order, and what
`finish` answers.

`speech` is the pipeline beside the provider's side of it: the calls the worker
makes, the exceptions that leave them, and the calls of the audio sink the
provider makes from within `synthesize_chunk`.  What the provider does with the
sink's answer, or with its exception, is up to the provider.
-/

namespace ByteTurn

variable {config : IncrementalTtsConfig} {s t : IncrementalTtsState} {a : IncrementalTtsAction}
  {b : TtsWorkerAction}

/-! ## the provider's side -/

/-- A call of the worker to the provider. -/
inductive TtsCall where
  | beginUtterance
  | synthesizeChunk (chunk : Bytes)
  | endUtterance
  deriving DecidableEq, Repr

/-- The text of a call of `synthesize_chunk`. -/
def TtsCall.chunk : TtsCall → Option Bytes
  | .synthesizeChunk chunk => some chunk
  | .beginUtterance | .endUtterance => none

/-- How a call of the audio sink ends. -/
inductive SinkOutcome where
  | answered (accepted : Bool)
  | threw (error : Exception)
  deriving DecidableEq, Repr

/-- What happened at the provider so far. -/
structure TtsHistory where
  calls : List TtsCall := [.beginUtterance]
  /-- The exceptions that left a call of the provider. -/
  thrown : List Exception := []
  /-- The exceptions of the audio sink. -/
  sinkThrew : List Exception := []
  /-- `cancel()` was called. -/
  cancelCalled : Bool := false
  deriving DecidableEq, Repr

namespace TtsHistory

/-- What a step of the pipeline from `s` to `t` adds. -/
def note (s t : IncrementalTtsState) (h : TtsHistory) : IncrementalTtsAction → TtsHistory
  | .cancel => { h with cancelCalled := true }
  | .worker .takeChunk => { h with
      calls := h.calls ++ (t.synthesized.drop s.synthesized.length).map .synthesizeChunk }
  | .worker .leave => { h with
      calls := h.calls ++ if t.worker = .ending then [.endUtterance] else [] }
  | .worker (.threw error) => { h with thrown := h.thrown ++ [error] }
  | _ => h

/-- What a call of the sink adds. -/
def heard (h : TtsHistory) : SinkOutcome → TtsHistory
  | .answered _ => h
  | .threw error => { h with sinkThrew := h.sinkThrew ++ [error] }

end TtsHistory

/-- A step of the pipeline, or a call of its audio sink by the provider. -/
inductive SpeechAction where
  | pipeline (action : IncrementalTtsAction)
  | sink (outcome : SinkOutcome)
  deriving DecidableEq, Repr

/-- The pipeline, and the sink as the lambda of `worker_loop` guards it: a
cancelled pipeline refuses the frame itself. -/
def speech (config : IncrementalTtsConfig) :
    Machine (IncrementalTtsState × TtsHistory) SpeechAction where
  init := ({}, {})
  step p
    | .pipeline a => (incrementalTtsStep config p.1 a).map fun t => (t, p.2.note p.1 t a)
    | .sink outcome =>
        if p.1.worker = .synthesizing ∧ p.1.cancelledLocally = false ∧ p.1.cancelled = false then
          some (p.1, p.2.heard outcome)
        else none

variable {h : TtsHistory}

/-! ## the invariant -/

/-- The places of the worker before it decides about `end_utterance`. -/
def TtsPlace.inLoop : TtsPlace → Bool
  | .beginning | .waiting | .synthesizing | .polling | .leaving => true
  | .ending | .caught _ | .exited => false

/-- The exception the worker has caught and not stored. -/
def TtsPlace.inFlight : TtsPlace → List Exception
  | .caught error => [error]
  | _ => []

/-- The calls that hand over what the worker has taken. -/
def IncrementalTtsState.spoken (s : IncrementalTtsState) : List TtsCall :=
  .beginUtterance :: s.synthesized.map .synthesizeChunk

/-- What holds between any two steps. -/
structure SpeechInvariant (config : IncrementalTtsConfig) (s : IncrementalTtsState)
    (h : TtsHistory) : Prop where
  lined : s.cancelledLocally = false → s.synthesized ++ s.queue = s.accepted
  cut : s.cancelledLocally = true → s.queue = [] ∧ s.synthesized <+: s.accepted
  bounded : s.queue.length ≤ config.maxQueuedChunks
  called : h.calls = s.spoken ∨ h.calls = s.spoken ++ [.endUtterance]
  looping : s.worker.inLoop = true → h.calls = s.spoken
  ending : s.worker = .ending → h.calls = s.spoken ++ [.endUtterance]
  exited : s.worker = .exited → h.calls = s.spoken ++ [.endUtterance] ∨ s.cancelled = true ∨
    s.cancelledLocally = true
  drained : s.worker.afterLoop = true → s.cancelled = true ∨ s.cancelledLocally = true ∨
    (s.queue = [] ∧ s.finishing = true)
  thrown : h.thrown = s.worker.inFlight ++ s.error.toList
  failed : s.error.isSome = true → s.worker = .exited
  joined : s.joined = true → s.worker = .exited
  finished : ∀ r ∈ s.finished, r = s.error ∧ s.worker = .exited
  cause : s.cancelledLocally = true → h.cancelCalled = true ∨ s.error.isSome = true

namespace SpeechInvariant

theorem init : SpeechInvariant config {} {} where
  lined _ := rfl
  cut := nofun
  bounded := Nat.zero_le _
  called := .inl rfl
  looping _ := rfl
  ending := nofun
  exited := nofun
  drained := nofun
  thrown := rfl
  failed := nofun
  joined := nofun
  finished := nofun
  cause := nofun

/-! ### the callers -/

theorem cancelExternally (hi : SpeechInvariant config s h) :
    SpeechInvariant config { s with cancelled := true } h :=
  { hi with
    exited := fun _ => .inr (.inl rfl)
    drained := fun _ => .inl rfl }

theorem pushes (hi : SpeechInvariant config s h) (pushes : List PushCall) :
    SpeechInvariant config { s with pushes := pushes } h := { hi with }

theorem push (hi : SpeechInvariant config s h) (text : Bytes) :
    SpeechInvariant config (s.push config text).1 h := by
  unfold IncrementalTtsState.push
  split
  · next hwake =>
    split
    · exact hi
    · next hopen =>
      simp only [Bool.or_eq_true, not_or, Bool.not_eq_true] at hopen
      obtain ⟨⟨⟨hfinishing, hlocal⟩, herror⟩, hcancelled⟩ := hopen
      have hroom : s.queue.length < config.maxQueuedChunks := by
        simpa [IncrementalTtsState.pushWake, hfinishing, hlocal, herror] using hwake
      refine { hi with lined := ?_, cut := ?_, bounded := ?_, drained := ?_ }
      · intro _
        show s.synthesized ++ (s.queue ++ [text]) = s.accepted ++ [text]
        rw [← List.append_assoc, hi.lined hlocal]
      · intro hcut
        rw [hlocal] at hcut
        contradiction
      · rw [List.length_append]
        exact hroom
      · intro hafter
        rcases hi.drained hafter with hc | hc | ⟨-, hc⟩
        · exact .inl hc
        · exact .inr (.inl hc)
        · rw [hfinishing] at hc
          contradiction
  · exact hi

theorem finish (hi : SpeechInvariant config s h) : SpeechInvariant config s.finish h := by
  refine { hi with drained := ?_ }
  intro hafter
  rcases hi.drained hafter with hc | hc | ⟨hc, -⟩
  · exact .inl hc
  · exact .inr (.inl hc)
  · exact .inr (.inr ⟨hc, rfl⟩)

theorem finishReturn (hi : SpeechInvariant config s h) (hw : s.worker = .exited) (n : Nat) :
    SpeechInvariant config { s with
      joined := true
      finishers := n
      finished := s.finished ++ [s.error] } h := by
  refine { hi with joined := fun _ => hw, finished := ?_ }
  intro r hr
  rcases List.mem_append.mp hr with hr | hr
  · exact hi.finished r hr
  · exact ⟨List.mem_singleton.mp hr, hw⟩

theorem join (hi : SpeechInvariant config s h) (hw : s.worker = .exited) :
    SpeechInvariant config { s with joined := true } h :=
  { hi with joined := fun _ => hw }

theorem cancel (hi : SpeechInvariant config s h) :
    SpeechInvariant config s.cancel { h with cancelCalled := true } := by
  unfold IncrementalTtsState.cancel
  split
  · exact { hi with cause := fun _ => .inl rfl }
  · refine { hi with
      lined := nofun
      cut := ?_
      bounded := Nat.zero_le _
      exited := fun _ => .inr (.inr rfl)
      drained := fun _ => .inr (.inl rfl)
      cause := fun _ => .inl rfl }
    refine fun _ => ⟨rfl, ?_⟩
    cases hlocal : s.cancelledLocally with
    | true => exact (hi.cut hlocal).2
    | false =>
        rw [← hi.lined hlocal]
        exact List.prefix_append _ _

/-! ### the worker -/

/-- The worker moves on within its loop, or out of it with nothing left to say. -/
theorem moved (hi : SpeechInvariant config s h) (place : TtsPlace)
    (hfrom : s.worker.inLoop = true) (hto : place.inLoop = true)
    (hleave : place = .leaving → s.cancelled = true ∨ s.cancelledLocally = true ∨
      (s.queue = [] ∧ s.finishing = true)) :
    SpeechInvariant config { s with worker := place } h := by
  have hnot (hw : s.worker = .exited) : place = .exited := by
    rw [hw] at hfrom
    contradiction
  have hflight {q : TtsPlace} (hq : q.inLoop = true) : q.inFlight = [] := by
    cases q <;> first | rfl | contradiction
  refine { hi with
    looping := fun _ => hi.looping hfrom
    ending := ?_
    exited := ?_
    drained := ?_
    thrown := ?_
    failed := fun hf => hnot (hi.failed hf)
    joined := fun hj => hnot (hi.joined hj)
    finished := fun r hr => ⟨(hi.finished r hr).1, hnot (hi.finished r hr).2⟩ }
  · rintro rfl
    contradiction
  · rintro rfl
    contradiction
  · intro hafter
    refine hleave ?_
    cases place <;> first | rfl | contradiction
  · rw [hi.thrown, hflight hfrom]
    exact congrArg (· ++ _) (hflight hto).symm

theorem took (hi : SpeechInvariant config s h) (hw : s.worker = .waiting)
    (hlocal : s.cancelledLocally = false) {chunk : Bytes} {rest : List Bytes}
    (hqueue : s.queue = chunk :: rest) :
    SpeechInvariant config { s with
      queue := rest
      synthesized := s.synthesized ++ [chunk]
      worker := .synthesizing } { h with calls := h.calls ++ [.synthesizeChunk chunk] } := by
  have hcalls : h.calls = s.spoken := hi.looping (by rw [hw]; rfl)
  have hspoken : h.calls ++ [.synthesizeChunk chunk] =
      IncrementalTtsState.spoken { s with synthesized := s.synthesized ++ [chunk] } := by
    rw [hcalls]
    simp [IncrementalTtsState.spoken]
  have hnot (hexit : s.worker = .exited) : TtsPlace.synthesizing = .exited := by
    rw [hw] at hexit
    contradiction
  refine { hi with
    lined := ?_
    cut := ?_
    bounded := ?_
    called := .inl hspoken
    looping := fun _ => hspoken
    ending := nofun
    exited := nofun
    drained := nofun
    thrown := ?_
    failed := fun hf => hnot (hi.failed hf)
    joined := fun hj => hnot (hi.joined hj)
    finished := fun r hr => ⟨(hi.finished r hr).1, hnot (hi.finished r hr).2⟩ }
  · intro _
    have hlined := hi.lined hlocal
    rw [hqueue] at hlined
    simpa using hlined
  · intro hcut
    rw [hlocal] at hcut
    contradiction
  · have hbounded := hi.bounded
    rw [hqueue] at hbounded
    exact Nat.le_of_succ_le hbounded
  · have hthrown := hi.thrown
    rw [hw] at hthrown
    exact hthrown

/-- A place the worker reaches from elsewhere is not a place it ended in. -/
theorem not_exited (hi : SpeechInvariant config s h) (hw : s.worker ≠ .exited) :
    s.error = none ∧ s.joined = false ∧ s.finished = [] := by
  refine ⟨?_, ?_, ?_⟩
  · cases herror : s.error with
    | none => rfl
    | some error => exact absurd (hi.failed (by rw [herror]; rfl)) hw
  · cases hjoined : s.joined with
    | false => rfl
    | true => exact absurd (hi.joined hjoined) hw
  · exact List.eq_nil_iff_forall_not_mem.mpr fun r hr => hw (hi.finished r hr).2

/-- Out of the loop the worker calls `end_utterance`. -/
theorem ended (hi : SpeechInvariant config s h) (hw : s.worker = .leaving) :
    SpeechInvariant config { s with worker := .ending }
      { h with calls := h.calls ++ [.endUtterance] } := by
  have hcalls : h.calls = s.spoken := hi.looping (by rw [hw]; rfl)
  have hthrown := hi.thrown
  rw [hw] at hthrown
  obtain ⟨herror, hjoined, hfinished⟩ := hi.not_exited (by rw [hw]; nofun)
  refine { hi with
    called := .inr (congrArg (· ++ _) hcalls)
    looping := nofun
    ending := fun _ => congrArg (· ++ _) hcalls
    exited := nofun
    drained := fun _ => hi.drained (by rw [hw]; rfl)
    thrown := hthrown
    failed := ?_
    joined := ?_
    finished := ?_ }
  · intro hf
    rw [herror] at hf
    contradiction
  · intro hj
    rw [hjoined] at hj
    contradiction
  · intro r hr
    rw [hfinished] at hr
    contradiction

/-- A cancelled worker ends without a call of `end_utterance`. -/
theorem cutShort (hi : SpeechInvariant config s h) (hw : s.worker = .leaving)
    (hcut : s.cancelled = true ∨ s.cancelledLocally = true) :
    SpeechInvariant config { s with worker := .exited } h := by
  have hthrown := hi.thrown
  rw [hw] at hthrown
  exact { hi with
    looping := nofun
    ending := nofun
    exited := fun _ => .inr hcut
    drained := fun _ => hi.drained (by rw [hw]; rfl)
    thrown := hthrown
    failed := fun _ => rfl
    joined := fun _ => rfl
    finished := fun r hr => ⟨(hi.finished r hr).1, rfl⟩ }

theorem returnedFromEnd (hi : SpeechInvariant config s h) (hw : s.worker = .ending) :
    SpeechInvariant config { s with worker := .exited, endReturned := true } h := by
  have hthrown := hi.thrown
  rw [hw] at hthrown
  exact { hi with
    looping := nofun
    ending := nofun
    exited := fun _ => .inl (hi.ending hw)
    drained := fun _ => hi.drained (by rw [hw]; rfl)
    thrown := hthrown
    failed := fun _ => rfl
    joined := fun _ => rfl
    finished := fun r hr => ⟨(hi.finished r hr).1, rfl⟩ }

theorem threw (hi : SpeechInvariant config s h)
    (hw : s.worker = .beginning ∨ s.worker = .synthesizing ∨ s.worker = .ending)
    (error : Exception) :
    SpeechInvariant config { s with worker := .caught error }
      { h with thrown := h.thrown ++ [error] } := by
  obtain ⟨herror, hjoined, hfinished⟩ :=
    hi.not_exited (by rcases hw with hw | hw | hw <;> rw [hw] <;> nofun)
  have hthrown : h.thrown = [] := by
    rw [hi.thrown, herror]
    rcases hw with hw | hw | hw <;> rw [hw] <;> rfl
  refine { hi with
    looping := nofun
    ending := nofun
    exited := nofun
    drained := nofun
    thrown := ?_
    failed := ?_
    joined := ?_
    finished := ?_ }
  · show h.thrown ++ [error] = [error] ++ s.error.toList
    rw [hthrown, herror]
    rfl
  · intro hf
    rw [herror] at hf
    contradiction
  · intro hj
    rw [hjoined] at hj
    contradiction
  · intro r hr
    rw [hfinished] at hr
    contradiction

theorem handle (hi : SpeechInvariant config s h) {error : Exception}
    (hw : s.worker = .caught error) :
    SpeechInvariant config { s with
      error := some error
      cancelledLocally := true
      queue := []
      worker := .exited } h := by
  obtain ⟨herror, -, hfinished⟩ := hi.not_exited (by rw [hw]; nofun)
  have hthrown := hi.thrown
  rw [hw, herror] at hthrown
  refine { hi with
    lined := nofun
    cut := ?_
    bounded := Nat.zero_le _
    looping := nofun
    ending := nofun
    exited := fun _ => .inr (.inr rfl)
    drained := fun _ => .inr (.inl rfl)
    thrown := hthrown
    failed := fun _ => rfl
    joined := fun _ => rfl
    finished := ?_
    cause := fun _ => .inr rfl }
  · refine fun _ => ⟨rfl, ?_⟩
    cases hlocal : s.cancelledLocally with
    | true => exact (hi.cut hlocal).2
    | false =>
        rw [← hi.lined hlocal]
        exact List.prefix_append _ _
  · intro r hr
    rw [hfinished] at hr
    contradiction

/-! ### every step -/

/-- The head of the loop: the worker takes a chunk, leaves, or goes round. -/
theorem takeChunk (hi : SpeechInvariant config s h) (hw : s.worker = .waiting)
    (hs : s.takeChunk = some t) :
    SpeechInvariant config t (h.note s t (.worker .takeChunk)) := by
  have hloop : s.worker.inLoop = true := by rw [hw]; rfl
  -- no step but the taking of a chunk adds a call
  have hsame (hsyn : t.synthesized = s.synthesized) : h.note s t (.worker .takeChunk) = h := by
    simp [TtsHistory.note, hsyn]
  unfold IncrementalTtsState.takeChunk at hs
  split at hs <;> try contradiction
  split at hs
  · next hcut =>
    obtain rfl := Option.some.inj hs
    rw [hsame rfl]
    refine hi.moved .leaving hloop rfl fun _ => ?_
    rw [Bool.or_eq_true] at hcut
    exact hcut.elim (fun hlocal => .inr (.inl hlocal)) .inl
  · next hopen =>
    simp only [Bool.or_eq_true, not_or, Bool.not_eq_true] at hopen
    split at hs
    · next hqueue =>
      split at hs <;> obtain rfl := Option.some.inj hs
      · next hfinishing =>
        rw [hsame rfl]
        exact hi.moved .leaving hloop rfl fun _ => .inr (.inr ⟨hqueue, hfinishing⟩)
      · rw [hsame rfl]
        exact hi
    · next chunk rest hqueue =>
      obtain rfl := Option.some.inj hs
      have hnote := hi.took hw hopen.1 hqueue
      simpa [TtsHistory.note] using hnote

theorem workerStep (hi : SpeechInvariant config s h) (hs : ttsWorkerStep s b = some t) :
    SpeechInvariant config t (h.note s t (.worker b)) := by
  cases b with
  | takeChunk =>
      simp only [ttsWorkerStep] at hs
      split at hs <;> try contradiction
      next hw => exact hi.takeChunk hw hs
  | returned =>
      simp only [ttsWorkerStep] at hs
      split at hs <;> try contradiction
      · next hw =>
        obtain rfl := Option.some.inj hs
        exact hi.moved .waiting (by rw [hw]; rfl) rfl (by simp)
      · next hw =>
        obtain rfl := Option.some.inj hs
        exact hi.moved .polling (by rw [hw]; rfl) rfl (by simp)
      · next hw =>
        obtain rfl := Option.some.inj hs
        exact hi.returnedFromEnd hw
  | threw error =>
      simp only [ttsWorkerStep] at hs
      split at hs <;> try contradiction
      all_goals
        next hw =>
        obtain rfl := Option.some.inj hs
        exact hi.threw (by simp [hw]) error
  | poll =>
      simp only [ttsWorkerStep] at hs
      split at hs <;> try contradiction
      next hw =>
      obtain rfl := Option.some.inj hs
      have hloop : s.worker.inLoop = true := by rw [hw]; rfl
      by_cases hc : s.cancelled = true
      · rw [if_pos hc]
        exact hi.moved .leaving hloop rfl fun _ => .inl hc
      · rw [if_neg hc]
        exact hi.moved .waiting hloop rfl (by simp)
  | leave =>
      simp only [ttsWorkerStep] at hs
      split at hs <;> try contradiction
      next hw =>
      obtain rfl := Option.some.inj hs
      by_cases hopen : (!s.cancelledLocally && !s.cancelled) = true
      · have hend := hi.ended hw
        simpa only [TtsHistory.note, if_pos hopen, if_true] using hend
      · simp only [TtsHistory.note, if_neg hopen, reduceCtorEq, if_false, List.append_nil]
        refine hi.cutShort hw ?_
        cases hlocal : s.cancelledLocally with
        | true => exact .inr rfl
        | false => simpa [hlocal] using hopen
  | handle =>
      simp only [ttsWorkerStep] at hs
      split at hs <;> try contradiction
      next error hw =>
      obtain rfl := Option.some.inj hs
      exact hi.handle hw

theorem pipelineStep (hi : SpeechInvariant config s h)
    (hs : incrementalTtsStep config s a = some t) : SpeechInvariant config t (h.note s t a) := by
  cases a with
  | cancelExternally =>
      obtain rfl := Option.some.inj hs
      exact hi.cancelExternally
  | push text =>
      obtain rfl := Option.some.inj hs
      exact hi.pushes _
  | pushSection i =>
      simp only [incrementalTtsStep] at hs
      split at hs <;> try contradiction
      next call _ =>
      have hpush := hi.push call.text
      split at hs <;> obtain rfl := Option.some.inj hs
      · next heq =>
        rw [heq] at hpush
        exact hpush.pushes _
      · next heq =>
        rw [heq] at hpush
        exact hpush.pushes _
  | finish =>
      obtain rfl := Option.some.inj hs
      exact hi.finish
  | finishReturn =>
      simp only [incrementalTtsStep] at hs
      split at hs <;> try contradiction
      next hexit =>
      obtain rfl := Option.some.inj hs
      exact hi.finishReturn (hexit.2.elim hi.joined id) _
  | cancel =>
      obtain rfl := Option.some.inj hs
      exact hi.cancel
  | join =>
      simp only [incrementalTtsStep] at hs
      split at hs <;> try contradiction
      next hw =>
      obtain rfl := Option.some.inj hs
      exact hi.join hw
  | worker b => exact hi.workerStep hs

end SpeechInvariant

theorem SpeechInvariant.of_reachable {p : IncrementalTtsState × TtsHistory}
    (hr : (speech config).Reachable p) : SpeechInvariant config p.1 p.2 := by
  refine hr.rec_inv (P := fun p => SpeechInvariant config p.1 p.2) SpeechInvariant.init ?_
  rintro ⟨s, h⟩ a ⟨t, h'⟩ _ hi hs
  cases a with
  | pipeline a =>
      obtain ⟨r, hstep, hr⟩ := Option.map_eq_some_iff.mp hs
      obtain ⟨rfl, rfl⟩ := Prod.mk.inj hr
      exact hi.pipelineStep hstep
  | sink outcome =>
      simp only [speech] at hs
      split at hs <;> try contradiction
      obtain ⟨rfl, rfl⟩ := Prod.mk.inj (Option.some.inj hs)
      cases outcome with
      | answered accepted => exact hi
      | threw error => exact { hi with }

/-! ## after the pipeline was closed -/

theorem released_worker (hr : s.released = true) (hs : ttsWorkerStep s b = some t) :
    t.released = true := by
  cases b with
  | takeChunk =>
      simp only [ttsWorkerStep] at hs
      split at hs <;> try contradiction
      unfold IncrementalTtsState.takeChunk at hs
      split at hs <;> try contradiction
      split at hs
      · obtain rfl := Option.some.inj hs
        exact hr
      · split at hs
        · split at hs <;> obtain rfl := Option.some.inj hs <;> exact hr
        · obtain rfl := Option.some.inj hs
          exact hr
  | handle =>
      simp only [ttsWorkerStep] at hs
      split at hs <;> try contradiction
      obtain rfl := Option.some.inj hs
      simp [IncrementalTtsState.released]
  | returned | threw error | poll | leave =>
      simp only [ttsWorkerStep] at hs
      split at hs <;> try contradiction
      all_goals
        obtain rfl := Option.some.inj hs
        exact hr

/-- `finish`, `cancel` and an error are never taken back. -/
theorem released_step (hr : s.released = true) (hs : incrementalTtsStep config s a = some t) :
    t.released = true := by
  by_cases hworker : ∃ b, a = .worker b
  · obtain ⟨b, rfl⟩ := hworker
    exact released_worker hr hs
  · exact (tts_caller_step hs fun b hb => hworker ⟨b, hb⟩).released hr

/-- A pipeline that was closed refuses every text, and keeps no producer waiting. -/
theorem push_released (hr : s.released = true) (text : Bytes) :
    s.push config text = (s, some false) := by
  unfold IncrementalTtsState.push
  rw [if_pos (pushWake_iff.mpr (.inl hr)), if_pos]
  unfold IncrementalTtsState.released at hr
  rw [hr]
  rfl

/-! ## the contract -/

/-- What a pipeline promises about its provider and to its callers. -/
structure OrderedSpeech (config : IncrementalTtsConfig) (p : IncrementalTtsState × TtsHistory) :
    Prop where
  /-- The chunks synthesized are the first ones accepted, in order. -/
  ordered : p.2.calls.filterMap TtsCall.chunk <+: p.1.accepted
  /-- If `finish` returned and nothing was cancelled, they are all of them, and
  `end_utterance` was called after the last. -/
  lossless : none ∈ p.1.finished → p.2.cancelCalled = false → p.1.cancelled = false →
    p.2.calls =
      TtsCall.beginUtterance :: p.1.accepted.map TtsCall.synthesizeChunk ++ [TtsCall.endUtterance]
  /-- `finish` rethrows the first exception that left a call of the provider. -/
  rethrown : ∀ r ∈ p.1.finished, r = p.2.thrown.head?
  /-- After such an exception a call of `finish` can return, and with it. -/
  returns : p.2.thrown ≠ [] → p.1.finishers ≠ 0 →
    ∃ q, (speech config).Leads p q ∧ p.2.thrown.head? ∈ q.1.finished
  bounded : p.1.queue.length ≤ config.maxQueuedChunks
  /-- After `finish`, `cancel` or an error every `push` returns false. -/
  closed : p.1.released = true → ∀ q, (speech config).Leads p q →
    ∀ text, q.1.push config text = (q.1, some false)

/-- The chunks among the calls. -/
theorem SpeechInvariant.chunks (hi : SpeechInvariant config s h) :
    h.calls.filterMap TtsCall.chunk = s.synthesized := by
  have hspoken : s.spoken.filterMap TtsCall.chunk = s.synthesized := by
    rw [IncrementalTtsState.spoken, List.filterMap_cons_none rfl, List.filterMap_map]
    exact List.filterMap_some
  rcases hi.called with hcalls | hcalls
  · rw [hcalls, hspoken]
  · rw [hcalls, List.filterMap_append, hspoken]
    exact List.append_nil _

theorem SpeechInvariant.lossless (hi : SpeechInvariant config s h) (hfinished : none ∈ s.finished)
    (hcalled : h.cancelCalled = false) (hcancelled : s.cancelled = false) :
    h.calls =
      TtsCall.beginUtterance :: s.accepted.map TtsCall.synthesizeChunk ++
        [TtsCall.endUtterance] := by
  obtain ⟨herror, hw⟩ := hi.finished none hfinished
  have hlocal : s.cancelledLocally = false := by
    cases hlocal : s.cancelledLocally with
    | false => rfl
    | true =>
        rcases hi.cause hlocal with hc | hc
        · rw [hcalled] at hc
          contradiction
        · rw [← herror] at hc
          contradiction
  have hqueue : s.queue = [] := by
    rcases hi.drained (by rw [hw]; rfl) with hc | hc | ⟨hqueue, -⟩
    · rw [hcancelled] at hc
      contradiction
    · rw [hlocal] at hc
      contradiction
    · exact hqueue
  have hall : s.synthesized = s.accepted := by
    rw [← hi.lined hlocal, hqueue, List.append_nil]
  rcases hi.exited hw with hcalls | hc | hc
  · rw [hcalls, IncrementalTtsState.spoken, hall]
  · rw [hcancelled] at hc
    contradiction
  · rw [hlocal] at hc
    contradiction

theorem SpeechInvariant.rethrown (hi : SpeechInvariant config s h) {r : Option Exception}
    (hr : r ∈ s.finished) : r = h.thrown.head? := by
  obtain ⟨hr, hw⟩ := hi.finished r hr
  rw [hr, hi.thrown, hw]
  cases s.error <;> rfl

/-- The worker that caught an exception stores it, and `finish` returns. -/
theorem SpeechInvariant.returns (hi : SpeechInvariant config s h) (hthrown : h.thrown ≠ [])
    (hfinishers : s.finishers ≠ 0) :
    ∃ q, (speech config).Leads (s, h) q ∧ h.thrown.head? ∈ q.1.finished := by
  -- from any state whose worker has exited
  have hjoin {r : IncrementalTtsState} (hw : r.worker = .exited) (hf : r.finishers ≠ 0)
      (herror : r.error = h.thrown.head?) :
      ∃ q, (speech config).Leads (r, h) q ∧ h.thrown.head? ∈ q.1.finished := by
    have hs : (speech config).step (r, h) (.pipeline .finishReturn) = some ({ r with
        joined := true
        finishers := r.finishers - 1
        finished := r.finished ++ [r.error] }, h) := by
      simp [speech, incrementalTtsStep, hw, hf, TtsHistory.note]
    refine ⟨_, .single hs, ?_⟩
    rw [herror]
    exact List.mem_append_right _ List.mem_cons_self
  by_cases hw : s.worker = .exited
  · refine hjoin hw hfinishers ?_
    rw [hi.thrown, hw]
    cases s.error <;> rfl
  · obtain ⟨herror, -, -⟩ := hi.not_exited hw
    have hflight : h.thrown = s.worker.inFlight := by
      rw [hi.thrown, herror]
      exact List.append_nil _
    cases hplace : s.worker with
    | caught error =>
        have hs : (speech config).step (s, h) (.pipeline (.worker .handle)) = some ({ s with
            error := some error
            cancelledLocally := true
            queue := []
            worker := .exited }, h) := by
          simp [speech, incrementalTtsStep, ttsWorkerStep, hplace, TtsHistory.note]
        obtain ⟨q, hleads, hq⟩ := hjoin (r := { s with
            error := some error
            cancelledLocally := true
            queue := []
            worker := .exited }) rfl hfinishers (by rw [hflight, hplace]; rfl)
        exact ⟨q, .trans (.single hs) hleads, hq⟩
    | _ =>
        rw [hplace] at hflight
        exact absurd hflight hthrown

/-- Under every interleaving of its callers, its worker and its cancellation, and
whatever the provider and the sink do. -/
theorem speech_ordered (config : IncrementalTtsConfig) (p : IncrementalTtsState × TtsHistory)
    (hr : (speech config).Reachable p) : OrderedSpeech config p := by
  have hi := SpeechInvariant.of_reachable hr
  refine ⟨?_, hi.lossless, fun r => hi.rethrown, hi.returns, hi.bounded, fun hreleased => ?_⟩
  · rw [hi.chunks]
    cases hlocal : p.1.cancelledLocally with
    | true => exact (hi.cut hlocal).2
    | false =>
        rw [← hi.lined hlocal]
        exact List.prefix_append _ _
  · intro q hleads text
    refine push_released ?_ text
    refine Machine.Leads.rec_stable (P := fun q => q.1.released = true) ?_ hr hreleased hleads
    rintro ⟨s, h⟩ a ⟨t, h'⟩ _ hp hs
    cases a with
    | pipeline a =>
        obtain ⟨r, hstep, heq⟩ := Option.map_eq_some_iff.mp hs
        obtain ⟨rfl, rfl⟩ := Prod.mk.inj heq
        exact released_step hp hstep
    | sink outcome =>
        simp only [speech] at hs
        split at hs <;> try contradiction
        obtain ⟨rfl, rfl⟩ := Prod.mk.inj (Option.some.inj hs)
        exact hp

/-- One chunk is taken, and its synthesis fails. -/
def brokenSpeech : List SpeechAction :=
  [.pipeline (.worker .returned), .pipeline (.push (lit "One.")), .pipeline (.pushSection 0),
    .pipeline (.worker .takeChunk), .sink (.threw (lit "device")),
    .pipeline (.worker (.threw (lit "device"))), .pipeline .finish,
    .pipeline (.worker .handle), .pipeline .finishReturn]

theorem brokenSpeech_ordered :
    ∃ p, p.1.finished = [some (lit "device")] ∧ OrderedSpeech tightTts p := by
  have hrun : ((speech tightTts).run (speech tightTts).init brokenSpeech).map
      (fun p => p.1.finished) = some [some (lit "device")] := by decide
  obtain ⟨p, hrun, hp⟩ := Option.map_eq_some_iff.mp hrun
  exact ⟨p, hp, speech_ordered tightTts p (Machine.Reachable.of_run hrun)⟩

/-- The provider keeps the sink's exception to itself. -/
def swallowedSpeech : List SpeechAction :=
  [.pipeline (.worker .returned), .pipeline (.push (lit "One.")), .pipeline (.pushSection 0),
    .pipeline (.worker .takeChunk), .sink (.threw (lit "device")),
    .pipeline (.worker .returned), .pipeline (.worker .poll), .pipeline .finish,
    .pipeline (.worker .takeChunk), .pipeline (.worker .leave), .pipeline (.worker .returned),
    .pipeline .finishReturn]

/-- Not every exception of the sink is rethrown by `finish`. -/
theorem sink_exception_swallowed :
    ¬ ∀ p, (speech tightTts).Reachable p → p.2.sinkThrew ≠ [] →
      ∀ r ∈ p.1.finished, r = p.2.sinkThrew.head? := by
  intro hall
  have hrun : ((speech tightTts).run (speech tightTts).init swallowedSpeech).map
      (fun p => (p.2.sinkThrew, p.1.finished)) = some ([lit "device"], [none]) := by decide
  obtain ⟨p, hrun, hp⟩ := Option.map_eq_some_iff.mp hrun
  obtain ⟨hsink, hfinished⟩ := Prod.mk.inj hp
  have hnone := hall p (Machine.Reachable.of_run hrun) (by rw [hsink]; nofun) none
    (by rw [hfinished]; exact List.mem_singleton_self _)
  rw [hsink] at hnone
  contradiction

end ByteTurn

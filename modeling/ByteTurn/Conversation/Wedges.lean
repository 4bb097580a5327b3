import ByteTurn.Conversation.Outcomes

/-!
# ByteTurn.Conversation.Wedges

Can the task of a started turn always end?

`Wedged` is the one way it cannot: its thread waits in `push` on a full queue
with no flag set, and the worker that could make room is between two calls of
the provider and finds the turn gone.  A wedged task stays so; any other has a
step of its own, of its agent or of its pipeline that brings it nearer to its
end, if the agent and the provider may throw.
-/

namespace ByteTurn

/-- The places of the worker at which it asks `cancelled_()` before it calls the
provider again. -/
def TtsPlace.betweenCalls : TtsPlace → Bool
  | .waiting | .polling | .leaving | .exited => true
  | .beginning | .synthesizing | .ending | .caught _ => false

/-- How many steps the worker is from its end, when its calls throw. -/
def TtsPlace.rank : TtsPlace → Nat
  | .polling => 5
  | .waiting => 4
  | .leaving => 3
  | .beginning | .synthesizing | .ending => 2
  | .caught _ => 1
  | .exited => 0

/-- How far a place is from the end of the task; `flushes` is the number of
sentences in the segmenter. -/
def ResponsePlace.rank (flushes : Nat) : ResponsePlace → Nat
  | .queued => 0
  | .ended => 1
  | .settling | .resigning => 2
  | .classifying => 3
  | .reporting => 4
  | .rejoining => 5
  | .quieting => 6
  | .failing => 7
  | .publishing => 8
  | .checking => 9
  | .joining => 10
  | .finishing => 11
  | .agent => 12
  | .entering => 13
  | .taken => 14
  | .returned => 14 + 3 * flushes
  | .speaking sentences => 13 + 3 * sentences.length
  | .pushing _ rest => 14 + 3 * rest.length
  | .opening _ rest => 15 + 3 * rest.length

namespace Response

variable {config : IncrementalTtsConfig} {v : ResponseView} {r t : Response}

/-- How many sentences `flush` would return. -/
def flushes (r : Response) : Nat :=
  match r.segmenter.flush with
  | (.ok sentences, _) => sentences.length
  | (.error _, _) => 0

/-- How far the task is from its end. -/
def rank (r : Response) : Nat := ResponsePlace.rank r.flushes r.place

/-- How far the pipeline is from its end. -/
def pipelineRank (r : Response) : Nat :=
  2 * r.speech.elim 0 (·.1.worker.rank) + if r.sinking then 1 else 0

/-- The task waits in `push` for a worker that will not make room. -/
structure Wedged (config : IncrementalTtsConfig) (v : ResponseView) (r : Response) : Prop where
  pushing : ∃ sentence rest, r.place = .pushing sentence rest
  gone : v.gone = true
  full : ∃ p h, r.speech = some (p, h) ∧ p.pushWake config = false ∧ p.worker.betweenCalls = true

theorem not_wedged_of_place (h : ∀ sentence rest, r.place ≠ .pushing sentence rest) :
    ¬ r.Wedged config v :=
  fun hw => by
    obtain ⟨sentence, rest, hp⟩ := hw.pushing
    exact h sentence rest hp

/-! ## a wedged task stays so -/

theorem Wedged.mono {w : ResponseView} (h : r.Wedged config v) (hv : v.Before w) :
    r.Wedged config w :=
  ⟨h.pushing, hv.gone h.gone, h.full⟩

/-- The section of `push` waits. -/
theorem push_waits {p q : IncrementalTtsState} {text : Bytes} {answer : Option Bool}
    (hwake : p.pushWake config = false) (hanswer : answer ≠ none) :
    p.push config text ≠ (q, answer) := by
  unfold IncrementalTtsState.push
  rw [hwake, if_neg Bool.false_ne_true]
  rintro heq
  exact hanswer (congrArg Prod.snd heq).symm

theorem Wedged.task (h : r.Wedged config v) (ht : r.Task config v t) : t.Wedged config v := by
  obtain ⟨⟨sentence, rest, hp⟩, hgone, p, history, hspeech, hfull, hbetween⟩ := h
  cases ht with
  | accepted _ hspeech' hpush | declined _ hspeech' hpush =>
      -- the section of `push` still waits
      obtain ⟨rfl, rfl⟩ := Prod.mk.inj (Option.some.inj (hspeech.symm.trans hspeech'))
      have hwake : IncrementalTtsState.pushWake config (seen v p) = false := hfull
      exact absurd hpush (push_waits hwake nofun)
  | refused hp' | leaves hp' =>
      rcases hp' with hp' | hp' <;> rw [hp] at hp' <;> contradiction
  | took hp' | entered hp' _ | deltaIgnored hp' _ | deltaTaken hp' _ | deltaThrew hp' _
  | agentReturned _ hp' | agentThrew hp' | opens hp' _ _ | chunk hp' _ _ | opened hp' _
  | flushed hp' _ _ | unflushed hp' _ _ | silent hp' _ | stopped hp' _
  | passed hp' _ _ | completed hp' | mute hp' _ | late hp' _ | inTime hp' _ | classified hp'
  | finishes hp' _ | cancels hp' _ | quiets hp' _ | spoken hp' | stale hp' _ | closed hp' _
  | joins hp' _ | rejoins hp' _ =>
      rw [hp] at hp'
      contradiction

theorem Wedged.provider (h : r.Wedged config v) (ht : r.Provider config v t) :
    t.Wedged config v := by
  obtain ⟨hpushing, hgone, p, history, hspeech, hfull, hbetween⟩ := h
  cases ht with
  | @worker a _ _ ht =>
      obtain ⟨p', history', q, history'', hspeech', hstep, -, rfl⟩ := ht.worker
      obtain ⟨rfl, rfl⟩ := Prod.mk.inj (Option.some.inj (hspeech.symm.trans hspeech'))
      have hcancelled : (seen v p).cancelled = true := by simp [seen, hgone]
      refine ⟨hpushing, hgone, q, history'', rfl, ?_⟩
      have hwake : IncrementalTtsState.pushWake config (seen v p) = false := hfull
      have hbetween : (seen v p).worker.betweenCalls = true := hbetween
      generalize seen v p = p at hstep hcancelled hwake hbetween
      -- whatever the worker finds, it goes on to leave
      cases a with
      | takeChunk =>
          simp only [ttsWorkerStep] at hstep
          split at hstep <;> try contradiction
          unfold IncrementalTtsState.takeChunk at hstep
          split at hstep <;> try contradiction
          rw [hcancelled, Bool.or_true, if_pos rfl] at hstep
          obtain rfl := Option.some.inj hstep
          exact ⟨hwake, rfl⟩
      | returned | threw | handle =>
          simp only [ttsWorkerStep] at hstep
          split at hstep <;> try contradiction
          all_goals
            next hworker =>
            rw [hworker] at hbetween
            contradiction
      | poll =>
          simp only [ttsWorkerStep] at hstep
          split at hstep <;> try contradiction
          obtain rfl := Option.some.inj hstep
          exact ⟨hwake, by rw [hcancelled]; rfl⟩
      | leave =>
          simp only [ttsWorkerStep] at hstep
          split at hstep <;> try contradiction
          obtain rfl := Option.some.inj hstep
          exact ⟨hwake, by rw [hcancelled, Bool.not_true, Bool.and_false]; rfl⟩
  | frame _ hhere =>
      rw [hgone] at hhere
      contradiction
  | frameEnd threw hin => exact ⟨hpushing, hgone, p, history, hspeech, hfull, hbetween⟩

/-! ## any other comes nearer to its end -/

/-- A step of the pipeline brings it nearer to its end, and does not wedge the task. -/
def Nears (config : IncrementalTtsConfig) (v : ResponseView) (r t : Response) : Prop :=
  (r.frameEnd v true = some t ∨ ∃ a, r.workerStep config v a = some t) ∧ t.rank = r.rank ∧
    t.pipelineRank < r.pipelineRank ∧ ¬ t.Wedged config v

/-- A worker with something to do has a step towards its end; from inside a call
of the provider it is the one that throws. -/
theorem exists_worker_step (config : IncrementalTtsConfig) {p : IncrementalTtsState}
    (hrunning : p.worker ≠ .exited) (hbusy : p.queue ≠ [] ∨ p.finishing = true) :
    ∃ a q, ttsWorkerStep p a = some q ∧ q.worker.rank < p.worker.rank ∧
      (p.worker.betweenCalls = false → q.worker.betweenCalls = false ∨ q.pushWake config = true) := by
  cases hworker : p.worker with
  | exited => exact absurd hworker hrunning
  | beginning | synthesizing | ending =>
      refine ⟨.threw [], { p with worker := .caught [] }, ?_, ?_, fun _ => .inl rfl⟩
      · rw [ttsWorkerStep, hworker]
      · exact Nat.lt_succ_self 1
  | caught error =>
      refine ⟨.handle, { p with
        error := some error, cancelledLocally := true, queue := [], worker := .exited }, ?_, ?_,
        fun _ => .inr ?_⟩
      · rw [ttsWorkerStep, hworker]
      · exact Nat.zero_lt_one
      · simp [IncrementalTtsState.pushWake]
  | polling =>
      refine ⟨.poll, { p with worker := if p.cancelled then .leaving else .waiting }, ?_, ?_, by simp [TtsPlace.betweenCalls]⟩
      · rw [ttsWorkerStep, hworker]
      · dsimp only
        split <;> decide
  | leaving =>
      refine ⟨.leave, { p with
        worker := if !p.cancelledLocally && !p.cancelled then .ending else .exited }, ?_, ?_, by simp [TtsPlace.betweenCalls]⟩
      · rw [ttsWorkerStep, hworker]
      · dsimp only
        split <;> decide
  | waiting =>
      have hwake : (p.cancelledLocally || !p.queue.isEmpty || p.finishing) = true := by
        rcases hbusy with hqueue | hfinishing
        · simp [hqueue]
        · simp [hfinishing]
      have hstep : ttsWorkerStep p .takeChunk = p.takeChunk := by rw [ttsWorkerStep, hworker]
      unfold IncrementalTtsState.takeChunk at hstep
      rw [if_pos hwake] at hstep
      have hleaves : TtsPlace.leaving.rank < TtsPlace.waiting.rank := Nat.lt_succ_self 3
      split at hstep
      · exact ⟨_, _, hstep, hleaves, by simp [TtsPlace.betweenCalls]⟩
      · split at hstep
        · next hqueue =>
            rw [if_pos (hbusy.resolve_left fun hne => hne hqueue)] at hstep
            exact ⟨_, _, hstep, hleaves, by simp [TtsPlace.betweenCalls]⟩
        · exact ⟨_, _, hstep, (by decide : TtsPlace.synthesizing.rank < TtsPlace.waiting.rank), by simp [TtsPlace.betweenCalls]⟩

/-- While the worker has something to do, its next step, or the end of the call
of the sink it waits for, is one. -/
theorem exists_nears {p : IncrementalTtsState} {h : TtsHistory} (hquiet : r.Quiet)
    (hspeech : r.speech = some (p, h)) (hrunning : p.worker ≠ .exited)
    (hbusy : p.queue ≠ [] ∨ p.finishing = true) (hfree : ¬ r.Wedged config v)
    (hfull : (∃ sentence rest, r.place = .pushing sentence rest) → p.pushWake config = false) :
    ∃ t, r.Nears config v t := by
  cases hsinking : r.sinking with
  | true =>
      obtain ⟨p', h', hspeech', hsynthesizing⟩ := hquiet.sinking hsinking
      obtain ⟨rfl, rfl⟩ := Prod.mk.inj (Option.some.inj (hspeech.symm.trans hspeech'))
      have hend : r.frameEnd v true =
          some (publish { r with sinking := false, heard := r.heard ++ [v.gone] } []) := by
        unfold frameEnd
        rw [if_pos hsinking]
        rfl
      refine ⟨_, .inl hend, rfl, ?_, fun hw => hfree ⟨hw.pushing, hw.gone, hw.full⟩⟩
      unfold pipelineRank
      rw [hsinking, if_pos rfl]
      exact Nat.lt_succ_self _
  | false =>
      obtain ⟨a, q, hstep, hrank, hleaves⟩ :=
        exists_worker_step config (p := seen v p) hrunning hbusy
      have hcall : r.workerStep config v a =
          some { r with speech := some (q, h.note (seen v p) q (.worker a)) } := by
        unfold workerStep
        rw [if_neg (by rw [hsinking]; exact Bool.false_ne_true)]
        refine calls_iff.mpr ⟨p, h, (q, h.note (seen v p) q (.worker a)), hspeech, ?_, rfl⟩
        show (ttsWorkerStep (seen v p) a).map _ = _
        rw [hstep]
        rfl
      refine ⟨_, .inr ⟨a, hcall⟩, rfl, ?_, ?_⟩
      · unfold pipelineRank
        rw [hspeech, hsinking]
        show 2 * q.worker.rank + 0 < 2 * p.worker.rank + 0
        have hrank : q.worker.rank < p.worker.rank := hrank
        omega
      · -- a worker inside the provider makes room as it goes
        rintro ⟨hpushing, hgone, p', h', heq, hwake, hbetween⟩
        obtain ⟨rfl, rfl⟩ := Prod.mk.inj (Option.some.inj heq)
        have hinside : p.worker.betweenCalls = false :=
          Bool.eq_false_of_not_eq_true fun hb =>
            hfree ⟨hpushing, hgone, p, h, hspeech, hfull hpushing, hb⟩
        rcases hleaves hinside with hq | hq
        · rw [hq] at hbetween
          contradiction
        · rw [hq] at hwake
          contradiction

/-- A step of the task or of its agent brings the task nearer to its end, and
does not wedge it. -/
def Advances (config : IncrementalTtsConfig) (v : ResponseView) (r t : Response) : Prop :=
  (r.advance config v = some t ∨ r.agentThrow = some t) ∧ t.rank < r.rank ∧
    ¬ t.Wedged config v

/-- The task moves to a place that is nearer to its end. -/
theorem advances_of_move (h : r.advance config v = some t ∨ r.agentThrow = some t)
    (hsegmenter : t.segmenter = r.segmenter)
    (hrank : ∀ flushes, t.place.rank flushes < r.place.rank flushes)
    (hplace : ∀ sentence rest, t.place ≠ .pushing sentence rest) : r.Advances config v t := by
  refine ⟨h, ?_, not_wedged_of_place hplace⟩
  unfold rank flushes
  rw [hsegmenter]
  exact hrank _

/-- The loop over the sentences is left. -/
theorem resume_rank (r : Response) (flushes : Nat) : r.resume.place.rank flushes < 13 := by
  rcases resume_place r with h | h <;> rw [h] <;> simp [ResponsePlace.rank]

theorem resume_not_pushing (r : Response) (sentence : Bytes) (rest : List Bytes) :
    r.resume.place ≠ .pushing sentence rest := by
  rcases resume_place r with h | h <;> rw [h] <;> nofun

/-- `push` answers once it does not wait. -/
theorem push_answers {p : IncrementalTtsState} {text : Bytes} (hwake : p.pushWake config = true) :
    ∃ q answer, p.push config text = (q, some answer) := by
  unfold IncrementalTtsState.push
  rw [if_pos hwake]
  split
  · exact ⟨_, _, rfl⟩
  · exact ⟨_, _, rfl⟩

/-- In the loop over the sentences. -/
theorem speaking_advances {sentences : List Bytes} (hp : r.place = .speaking sentences) :
    ∃ t, r.Advances config v t := by
  have hstep : r.advance config v = r.advance config v := rfl
  conv_rhs at hstep => unfold advance; rw [hp]
  cases sentences with
  | nil =>
      refine ⟨_, advances_of_move (.inl hstep) rfl (fun flushes => ?_) (resume_not_pushing r)⟩
      rw [hp]
      exact resume_rank r flushes
  | cons sentence rest =>
      have hspeaking (flushes : Nat) :
          r.place.rank flushes = 16 + 3 * rest.length := by
        rw [hp, ResponsePlace.rank, List.length_cons]
        omega
      dsimp only at hstep
      split at hstep
      · refine ⟨_, advances_of_move (.inl hstep) rfl (fun flushes => ?_) (resume_not_pushing r)⟩
        have hresume := resume_rank r flushes
        have hspeaking := hspeaking flushes
        omega
      · next hhere =>
          split at hstep
          · refine ⟨_, advances_of_move (.inl hstep) rfl (fun flushes => ?_) nofun⟩
            rw [hspeaking]
            show 15 + 3 * rest.length < 16 + 3 * rest.length
            omega
          · refine ⟨_, .inl hstep, ?_, fun hw => hhere hw.gone⟩
            show ResponsePlace.rank _ (.pushing sentence rest) < ResponsePlace.rank _ r.place
            rw [hspeaking]
            show 14 + 3 * rest.length < 16 + 3 * rest.length
            omega

/-- Inside `push`: the call answers, or the worker moves on. -/
theorem pushing_advances {sentence : Bytes} {rest : List Bytes} (hquiet : r.Quiet)
    (hinv : ∀ p h, r.speech = some (p, h) → SpeechInvariant config p h) (hheeds : r.Heeds v)
    (hp : r.place = .pushing sentence rest) (hfree : ¬ r.Wedged config v) :
    ∃ t, r.Advances config v t ∨ r.Nears config v t := by
  obtain ⟨⟨p, h⟩, hspeech⟩ :=
    Option.ne_none_iff_exists'.mp (hquiet.present (by rw [hp]; rfl))
  cases hwake : p.pushWake config with
  | true =>
      obtain ⟨q, answer, hpush⟩ := @push_answers config (seen v p) sentence hwake
      have hstep : r.advance config v = r.pushSentence config v sentence rest := by
        unfold advance
        rw [hp]
      unfold pushSentence at hstep
      rw [hspeech, Option.bind_some] at hstep
      unfold seen at hpush
      dsimp only at hstep
      rw [hpush] at hstep
      have hrank (flushes : Nat) : r.place.rank flushes = 14 + 3 * rest.length := by rw [hp]; rfl
      cases answer with
      | true =>
          refine ⟨_, .inl (advances_of_move (.inl hstep) rfl (fun flushes => ?_) nofun)⟩
          rw [hrank]
          show 13 + 3 * rest.length < 14 + 3 * rest.length
          omega
      | false =>
          refine ⟨_, .inl (advances_of_move (.inl hstep) rfl (fun flushes => ?_)
            (resume_not_pushing _))⟩
          have hresume := resume_rank { r with speech := some (q, h) } flushes
          have hrank := hrank flushes
          omega
  | false =>
      have hclosed := hwake
      simp only [IncrementalTtsState.pushWake, Bool.or_eq_false_iff, decide_eq_false_iff_not] at hclosed
      obtain ⟨⟨⟨hfinishing, hlocal⟩, -⟩, hfull⟩ := hclosed
      have hrunning : p.worker ≠ .exited := by
        intro hexited
        rcases (hinv p h hspeech).drained (by rw [hexited]; rfl) with hc | hl | ⟨-, hf⟩
        · exact hfree ⟨⟨sentence, rest, hp⟩, hheeds p h hspeech hc, p, h, hspeech, hwake,
            by rw [hexited]; rfl⟩
        · rw [hlocal] at hl
          contradiction
        · rw [hfinishing] at hf
          contradiction
      have hqueue : p.queue ≠ [] := by
        intro hempty
        rw [hempty] at hfull
        exact hfull config.positive
      obtain ⟨t, ht⟩ := exists_nears hquiet hspeech hrunning (.inl hqueue) hfree fun _ => hwake
      exact ⟨t, .inr ht⟩

/-- In the join of `finish`: the call returns, or the worker moves on. -/
theorem joining_advances {place failed : ResponsePlace} (hquiet : r.Quiet)
    (hp : r.place = .joining ∨ r.place = .rejoining)
    (hstep : r.advance config v = (r.speechStep config v .finishReturn).map (·.joined place failed))
    (hrank : ∀ flushes, place.rank flushes < r.place.rank flushes ∧
      failed.rank flushes < r.place.rank flushes)
    (hplace : ∀ sentence rest, place ≠ .pushing sentence rest ∧ failed ≠ .pushing sentence rest) :
    ∃ t, r.Advances config v t ∨ r.Nears config v t := by
  obtain ⟨⟨p, h⟩, hspeech⟩ :=
    Option.ne_none_iff_exists'.mp (hquiet.present (by rcases hp with hp | hp <;> rw [hp] <;> rfl))
  have hfinish : p.finishing = true ∧ p.finishers ≠ 0 := by
    have hrests := hquiet.rests p h hspeech
    rcases hp with hp | hp <;> rw [hp] at hrests
    · exact hrests.2
    · exact hrests
  have hnot (sentence : Bytes) (rest : List Bytes) : r.place ≠ .pushing sentence rest := by
    rcases hp with hp | hp <;> simp [hp]
  by_cases hexited : p.worker = .exited
  · have hcall : r.speechStep config v .finishReturn =
        some { r with speech := some ({ seen v p with
          joined := true
          finishers := p.finishers - 1
          finished := p.finished ++ [p.error] }, h) } := by
      refine calls_iff.mpr ⟨p, h, _, hspeech, ?_, rfl⟩
      simp [ByteTurn.speech, incrementalTtsStep, hfinish.2, hexited, TtsHistory.note, seen]
    rw [hcall] at hstep
    refine ⟨_, .inl (advances_of_move (.inl hstep) rfl (fun flushes => ?_) fun sentence rest => ?_)⟩
    · rcases joined_place _ place failed with hj | hj <;> rw [hj]
      · exact (hrank flushes).1
      · exact (hrank flushes).2
    · rcases joined_place _ place failed with hj | hj <;> rw [hj]
      · exact (hplace sentence rest).1
      · exact (hplace sentence rest).2
  · obtain ⟨t, ht⟩ := exists_nears hquiet hspeech hexited (.inr hfinish.1)
      (not_wedged_of_place hnot) (by
        rintro ⟨sentence, rest, hpushing⟩
        exact absurd hpushing (hnot sentence rest))
    exact ⟨t, .inr ht⟩

/-- The section of `finish` never waits. -/
theorem calls_finish {p : IncrementalTtsState} {h : TtsHistory} (hspeech : r.speech = some (p, h)) :
    r.Calls config v .finish { r with speech := some ((seen v p).finish, h) } :=
  ⟨p, h, _, hspeech, rfl, rfl⟩

/-- Nor does that of `cancel`. -/
theorem calls_cancel {p : IncrementalTtsState} {h : TtsHistory} (hspeech : r.speech = some (p, h)) :
    r.Calls config v .cancel
      { r with speech := some ((seen v p).cancel, { h with cancelCalled := true }) } :=
  ⟨p, h, _, hspeech, rfl, rfl⟩

/-- **Progress of a response**: a task that has been taken, has not ended and is
not wedged can come nearer to its end. -/
theorem exists_progress (hquiet : r.Quiet)
    (hinv : ∀ p h, r.speech = some (p, h) → SpeechInvariant config p h) (hheeds : r.Heeds v)
    (hqueued : r.place ≠ .queued) (hended : r.place ≠ .ended) (hfree : ¬ r.Wedged config v) :
    ∃ t, r.Advances config v t ∨ r.Nears config v t := by
  have hmove {t : Response} (h : r.advance config v = some t ∨ r.agentThrow = some t)
      (hsegmenter : t.segmenter = r.segmenter)
      (hrank : ∀ flushes, t.place.rank flushes < r.place.rank flushes)
      (hplace : ∀ sentence rest, t.place ≠ .pushing sentence rest) :
      ∃ t, r.Advances config v t ∨ r.Nears config v t :=
    ⟨t, .inl (advances_of_move h hsegmenter hrank hplace)⟩
  have hstep : r.advance config v = r.advance config v := rfl
  conv_rhs at hstep => unfold advance
  cases hp : r.place with
  | queued => exact absurd hp hqueued
  | ended => exact absurd hp hended
  | speaking sentences =>
      obtain ⟨t, ht⟩ := @speaking_advances config v r sentences hp
      exact ⟨t, .inl ht⟩
  | pushing sentence rest => exact pushing_advances hquiet hinv hheeds hp hfree
  | joining =>
      rw [hp] at hstep
      refine joining_advances hquiet (.inl hp) hstep (fun _ => ?_) fun _ _ => ⟨by simp, by simp⟩
      rw [hp]
      simp [ResponsePlace.rank]
  | rejoining =>
      rw [hp] at hstep
      refine joining_advances hquiet (.inr hp) hstep (fun _ => ?_) fun _ _ => ⟨by simp, by simp⟩
      rw [hp]
      simp [ResponsePlace.rank]
  | agent =>
      have hthrow : r.agentThrow = some (publish { r with place := .failing }
          [if r.stopRequested then .turnCancelled else .turnFailed]) := by
        unfold agentThrow
        rw [if_pos hp]
      exact hmove (.inr hthrow) rfl (fun _ => by rw [hp]; simp [ResponsePlace.rank, publish])
            (by simp [publish])
  | taken | publishing | settling | classifying | resigning =>
      rw [hp] at hstep
      exact hmove (.inl hstep) rfl (fun _ => by rw [hp]; simp [ResponsePlace.rank, publish])
            (by simp [publish])
  | entering | checking | reporting =>
      rw [hp] at hstep
      dsimp only at hstep
      split at hstep <;>
        exact hmove (.inl hstep) rfl (fun _ => by rw [hp]; simp [ResponsePlace.rank, publish])
            (by simp [publish])
  | opening sentence rest =>
      rw [hp] at hstep
      dsimp only at hstep
      split at hstep
      · refine ⟨_, .inl ⟨.inl hstep, ?_, ?_⟩⟩
        · show ResponsePlace.rank _ (.pushing sentence rest) < ResponsePlace.rank _ r.place
          rw [hp]
          show 14 + 3 * rest.length < 15 + 3 * rest.length
          omega
        · -- a fresh queue has room
          rintro ⟨-, -, p, h, heq, hwake, -⟩
          obtain ⟨rfl, rfl⟩ := Prod.mk.inj (Option.some.inj heq)
          simp [IncrementalTtsState.pushWake, config.positive] at hwake
      · refine hmove (.inl hstep) rfl (fun flushes => ?_) (resume_not_pushing r)
        have hresume := resume_rank r flushes
        rw [hp, ResponsePlace.rank]
        omega
  | returned =>
      rw [hp] at hstep
      dsimp only at hstep
      split at hstep
      · refine hmove (.inl hstep) rfl (fun flushes => ?_) (by simp)
        rw [hp]
        show 7 < 14 + 3 * flushes
        omega
      · split at hstep
        · next sentences segmenter hflush =>
            refine ⟨_, .inl ⟨.inl hstep, ?_, not_wedged_of_place (by simp)⟩⟩
            have hflushes : r.flushes = sentences.length := by rw [Response.flushes, hflush]
            show 13 + 3 * sentences.length < ResponsePlace.rank r.flushes r.place
            rw [hp, hflushes, ResponsePlace.rank]
            omega
        · refine ⟨_, .inl ⟨.inl hstep, ?_, not_wedged_of_place (by simp)⟩⟩
          show 7 < ResponsePlace.rank r.flushes r.place
          rw [hp, ResponsePlace.rank]
          omega
  | finishing | failing =>
      rw [hp] at hstep
      dsimp only at hstep
      cases hspeech : r.speech with
      | none =>
          rw [hspeech, Option.isNone_none, if_pos rfl] at hstep
          exact hmove (.inl hstep) rfl (fun _ => by rw [hp]; simp [ResponsePlace.rank])
            (by simp)
      | some speech =>
          obtain ⟨p, h⟩ := speech
          rw [hspeech, Option.isNone_some, if_neg Bool.false_ne_true] at hstep
          first
            | rw [calls_iff.mpr (calls_finish hspeech)] at hstep
            | rw [calls_iff.mpr (calls_cancel hspeech)] at hstep
          exact hmove (.inl hstep) rfl (fun _ => by rw [hp]; simp [ResponsePlace.rank])
            (by simp)
  | quieting =>
      rw [hp] at hstep
      obtain ⟨⟨p, h⟩, hspeech⟩ :=
        Option.ne_none_iff_exists'.mp (hquiet.present (by rw [hp]; rfl))
      dsimp only at hstep
      rw [calls_iff.mpr (calls_finish hspeech)] at hstep
      exact hmove (.inl hstep) rfl (fun _ => by rw [hp]; simp [ResponsePlace.rank])
            (by simp)

end Response

namespace Responses

open Response

variable {config : IncrementalTtsConfig} {s t : Responses} {a : ResponsesAction} {ticket : Nat}

/-! ## the task of a started turn -/

/-- The task of a turn is wedged. -/
def Wedged (config : IncrementalTtsConfig) (s : Responses) (ticket : Nat) : Prop :=
  ∃ turn, s.conversation.turns[ticket]? = some turn ∧
    (s.responses ticket).Wedged config (s.view turn)

theorem Wedged.step (hr : (ByteTurn.responses config).Reachable s) (h : s.Wedged config ticket)
    (hs : responsesStep config s a = some t) : t.Wedged config ticket := by
  obtain ⟨turn, hturn, hwedged⟩ := h
  have hages := ages_of_step hs
  have hview := hages.view (generations_of_reachable hr) (List.mem_of_getElem? hturn)
  refine ⟨turn, hages.getElem? hturn, Response.Wedged.mono (v := s.view turn) ?_ hview⟩
  have hevolves := evolves_of_step hr hs ticket
  generalize t.responses ticket = r at hevolves
  cases hevolves with
  | same => exact hwedged
  | cancelled | expired => exact ⟨hwedged.pushing, hwedged.gone, hwedged.full⟩
  | taken hqueued =>
      obtain ⟨sentence, rest, hp⟩ := hwedged.pushing
      rw [hp] at hqueued
      contradiction
  | task _ hturn' htask =>
      obtain rfl := Option.some.inj (hturn.symm.trans hturn')
      exact hwedged.task htask
  | provider hturn' hprovider =>
      obtain rfl := Option.some.inj (hturn.symm.trans hturn')
      exact hwedged.provider hprovider

theorem Wedged.leads (hr : (ByteTurn.responses config).Reachable s) (h : s.Wedged config ticket)
    (hleads : (ByteTurn.responses config).Leads s t) : t.Wedged config ticket :=
  Machine.Leads.rec_stable (P := fun s => s.Wedged config ticket)
    (fun _ _ _ hr h hs => h.step hr hs) hr h hleads

/-- How far the running task of a ticket is from its end. -/
def distance (s : Responses) (ticket : Nat) : Nat :=
  if s.conversation.lane.running = some ticket then
    16 * (s.responses ticket).rank + (s.responses ticket).pipelineRank + 1
  else 0

theorem pipelineRank_lt (r : Response) : r.pipelineRank < 16 := by
  have hworker : r.speech.elim 0 (·.1.worker.rank) ≤ 5 := by
    cases r.speech with
    | none => exact Nat.zero_le 5
    | some speech => cases hw : speech.1.worker <;> simp [hw, TtsPlace.rank]
  unfold pipelineRank
  split <;> omega

/-- A response moves under the running task. -/
theorem distance_put {c : Conversation} {r : Response}
    (hrunning : s.conversation.lane.running = some ticket) (hlane : c.lane = s.conversation.lane)
    (hrank : r.rank < (s.responses ticket).rank ∨
      r.rank = (s.responses ticket).rank ∧ r.pipelineRank < (s.responses ticket).pipelineRank) :
    ({ s with conversation := c }.put ticket r).distance ticket < s.distance ticket := by
  have hnew : ({ s with conversation := c }.put ticket r).responses ticket = r :=
    Function.update_self ..
  have hsame : ({ s with conversation := c }.put ticket r).conversation.lane.running = some ticket := by
    rw [← hrunning, ← hlane]
    rfl
  unfold distance
  rw [if_pos hrunning, if_pos hsame, hnew]
  have hr := pipelineRank_lt r
  have hs := pipelineRank_lt (s.responses ticket)
  rcases hrank with hrank | ⟨hrank, hpipeline⟩ <;> omega

/-- The response of a ticket moves, and its turn reads what it read. -/
theorem not_wedged_put {c : Conversation} {turn : SpeechTurn} {r : Response}
    (hturn : s.conversation.turns[ticket]? = some turn) (hturns : c.turns = s.conversation.turns)
    (hgeneration : c.generation = s.conversation.generation) (hfree : ¬ r.Wedged config (s.view turn)) :
    ¬ ({ s with conversation := c }.put ticket r).Wedged config ticket := by
  rintro ⟨turn', hturn', hwedged⟩
  have hturn' : c.turns[ticket]? = some turn' := hturn'
  rw [hturns, hturn] at hturn'
  obtain rfl := Option.some.inj hturn'
  have hview : ({ s with conversation := c }.put ticket r).view turn = s.view turn := by
    unfold view put
    dsimp only
    rw [hgeneration]
  have hnew : ({ s with conversation := c }.put ticket r).responses ticket = r :=
    Function.update_self ..
  rw [hview, hnew] at hwedged
  exact hfree hwedged

/-- A started ticket has its turn. -/
theorem Placed.turn_of_started (h : s.Placed) (hstarted : ticket ∈ s.conversation.lane.started) :
    ∃ turn, s.conversation.turns[ticket]? = some turn := by
  have haccepted : ticket ∈ s.conversation.lane.accepted :=
    (Lane.serial_of_reachable h.lane).fifo.subset (List.mem_append_left _ hstarted)
  exact ⟨_, List.getElem?_eq_getElem (h.below ticket haccepted)⟩

/-- A running task that is not wedged has a step that brings it nearer to its end. -/
theorem exists_nearer (hr : (ByteTurn.responses config).Reachable s)
    (hrunning : s.conversation.lane.running = some ticket) (hfree : ¬ s.Wedged config ticket) :
    ∃ a t, (ByteTurn.responses config).step s a = some t ∧ ¬ t.Wedged config ticket ∧
      t.distance ticket < s.distance ticket := by
  have hplaced := placed_of_reachable hr
  have hstarted : ticket ∈ s.conversation.lane.started := by
    rw [(Lane.serial_of_reachable hplaced.lane).serial, hrunning]
    exact List.mem_append_right _ List.mem_cons_self
  obtain ⟨turn, hturn⟩ := hplaced.turn_of_started hstarted
  by_cases hended : (s.responses ticket).place = .ended
  · -- the executor's last section
    let lane : Lane := { s.conversation.lane with
      running := none, finished := s.conversation.lane.finished ++ [ticket] }
    refine ⟨.endTask, { s with conversation := { s.conversation with lane := lane } }, ?_,
      fun ⟨turn, hturn, hwedged⟩ => hfree ⟨turn, hturn, hwedged⟩, ?_⟩
    · simp [ByteTurn.responses, responsesStep, endTask, hrunning, hended, Lane.step, lane]
    · unfold distance
      rw [if_pos hrunning, if_neg (by simp [lane])]
      exact Nat.succ_pos _
  · have hinv (p : IncrementalTtsState) (h : TtsHistory)
        (hspeech : (s.responses ticket).speech = some (p, h)) : SpeechInvariant config p h :=
      .of_reachable (pipeline_reachable hr ticket p h hspeech).1
    have hfree' : ¬ (s.responses ticket).Wedged config (s.view turn) :=
      fun hw => hfree ⟨turn, hturn, hw⟩
    obtain ⟨r, ⟨hstep, hrank, hr'⟩ | ⟨hstep, hrank, hpipeline, hr'⟩⟩ :=
      exists_progress (quiet_of_reachable hr ticket) hinv ((heeds hr ticket).here hturn)
        (hplaced.running hrunning) hended hfree'
    · have htask {f : ResponseView → Response → Option Response}
          (hf : f (s.view turn) (s.responses ticket) = some r) :
          s.taskStep f = some ({ s with
            conversation := s.conversationAfter turn (s.responses ticket).place }.put ticket r) := by
        unfold taskStep
        rw [hrunning, Option.bind_some, hturn, Option.bind_some, hf]
        rfl
      have hnot := not_wedged_put
        (c := s.conversationAfter turn (s.responses ticket).place) hturn conversationAfter_turns
        conversationAfter_generation hr'
      have hdistance := distance_put (c := s.conversationAfter turn (s.responses ticket).place)
        hrunning conversationAfter_lane (.inl hrank)
      rcases hstep with hstep | hstep
      · exact ⟨.advance, _, htask (f := fun v r => r.advance config v) hstep, hnot, hdistance⟩
      · exact ⟨.agentThrow, _, htask (f := fun _ r => r.agentThrow) hstep, hnot, hdistance⟩
    · have hspeech {f : ResponseView → Response → Option Response}
          (hf : f (s.view turn) (s.responses ticket) = some r) :
          s.speechStep ticket f = some (s.put ticket r) := by
        unfold speechStep
        rw [hturn, Option.bind_some, hf]
        rfl
      have hnot := not_wedged_put (c := s.conversation) hturn rfl rfl hr'
      have hdistance := distance_put (c := s.conversation) hrunning rfl (.inr ⟨hrank, hpipeline⟩)
      rcases hstep with hstep | ⟨b, hstep⟩
      · exact ⟨.frameEnd ticket true, _, hspeech (f := fun v r => r.frameEnd v true) hstep, hnot,
          hdistance⟩
      · exact ⟨.worker ticket b, _, hspeech (f := fun v r => r.workerStep config v b) hstep, hnot,
          hdistance⟩

/-- **Endings**: a started task can end exactly when it is not wedged. -/
theorem finishes_iff_not_wedged (hr : (ByteTurn.responses config).Reachable s)
    (hstarted : ticket ∈ s.conversation.lane.started) :
    (∃ t, (ByteTurn.responses config).Leads s t ∧ ticket ∈ t.conversation.lane.finished) ↔
      ¬ s.Wedged config ticket := by
  constructor
  · rintro ⟨t, hleads, hfinished⟩ hwedged
    obtain ⟨_, _, hwedged⟩ := hwedged.leads hr hleads
    obtain ⟨sentence, rest, hp⟩ := hwedged.pushing
    rw [(placed_of_reachable (hr.leads hleads)).ended ticket hfinished] at hp
    contradiction
  · intro hfree
    have hnearer (s : Responses) (h : (ByteTurn.responses config).Reachable s ∧
        ticket ∈ s.conversation.lane.started ∧ ¬ s.Wedged config ticket)
        (hdistance : s.distance ticket ≠ 0) :
        ∃ a t, (ByteTurn.responses config).step s a = some t ∧
          ((ByteTurn.responses config).Reachable t ∧ ticket ∈ t.conversation.lane.started ∧
            ¬ t.Wedged config ticket) ∧ t.distance ticket < s.distance ticket := by
      obtain ⟨hr, hstarted, hfree⟩ := h
      have hrunning : s.conversation.lane.running = some ticket := by
        by_contra hnot
        exact hdistance (if_neg hnot)
      obtain ⟨a, t, hs, ht, hlt⟩ := exists_nearer hr hrunning hfree
      exact ⟨a, t, hs, ⟨hr.step hs, (ages_of_step hs).started.subset hstarted, ht⟩, hlt⟩
    obtain ⟨t, hleads, ⟨ht, hstarted, -⟩, hzero⟩ :=
      Machine.Leads.exists_drained hnearer ⟨hr, hstarted, hfree⟩
    refine ⟨t, hleads, ?_⟩
    rw [(Lane.serial_of_reachable (placed_of_reachable ht).lane).serial] at hstarted
    refine (List.mem_append.mp hstarted).resolve_right fun hrunning => ?_
    unfold distance at hzero
    rw [if_pos (Option.mem_toList.mp hrunning)] at hzero
    contradiction

end Responses

end ByteTurn

import ByteTurn.Conversation.Views

/-!
# ByteTurn.Conversation.Outcomes

What is published about a response, and how it ends.

`Told` follows the agent's own events and the outcome through the task, place by
place; `Settled` says at which places the pipeline of the response is at rest.
-/

namespace ByteTurn

/-- The outcomes of a turn of a conversation. -/
def EventType.isOutcome : EventType → Bool
  | .conversationTurnCompleted | .conversationTurnCancelled | .conversationTurnFailed => true
  | _ => false

/-- The agent's own events about a turn. -/
def EventType.ofAgent : EventType → Bool
  | .turnStarted | .turnCompleted | .turnCancelled | .turnFailed => true
  | _ => false

namespace Response

variable {config : IncrementalTtsConfig} {v : ResponseView} {r t : Response}

/-- The agent's events and the outcomes of a response, in order. -/
def report (r : Response) : List EventType :=
  r.published.filter fun event => event.ofAgent || event.isOutcome

theorem publish_report (events : List EventType) :
    (r.publish events).report =
      r.report ++ events.filter fun event => event.ofAgent || event.isOutcome :=
  List.filter_append ..

/-! ## the agent's events and the outcome -/

/-- What the agent has told once `run_streaming` has returned. -/
def AgentReturned (told : List EventType) : Prop :=
  told = [.turnStarted, .turnCompleted] ∨ told = [.turnStarted, .turnFailed]

/-- What it has told when it did not run, returned or threw. -/
def AgentEnded (told : List EventType) : Prop :=
  told = [] ∨ AgentReturned told ∨ told = [.turnStarted, .turnCancelled]

/-- The report at a place of the task. -/
def Reports (flushed : Bool) (told : List EventType) : ResponsePlace → Prop
  | .queued | .taken | .entering => told = []
  | .agent => told = [.turnStarted]
  | .speaking _ | .opening _ _ | .pushing _ _ =>
      if flushed then AgentReturned told else told = [.turnStarted]
  | .returned | .finishing | .joining | .checking | .publishing => AgentReturned told
  | .failing | .quieting | .rejoining | .reporting | .classifying => AgentEnded told
  | .settling => ∃ before, AgentReturned before ∧ told = before ++ [.conversationTurnCompleted]
  | .resigning | .ended =>
      ∃ before outcome, AgentEnded before ∧ outcome.isOutcome = true ∧ told = before ++ [outcome]

/-- The segmenter is not flushed there. -/
def ResponsePlace.unflushed : ResponsePlace → Bool
  | .queued | .taken | .entering | .agent | .returned => true
  | _ => false

/-- The report of a response is that of its place. -/
structure Told (r : Response) : Prop where
  reports : Reports r.flushed r.report r.place
  unflushed : ResponsePlace.unflushed r.place = true → r.flushed = false

theorem Told.init : Told {} := ⟨rfl, fun _ => rfl⟩

/-- Events are published at a place. -/
theorem told_publish {events : List EventType}
    (hreports : Reports r.flushed
      (r.report ++ events.filter fun event => event.ofAgent || event.isOutcome) r.place)
    (hunflushed : ResponsePlace.unflushed r.place = true → r.flushed = false) :
    (r.publish events).Told :=
  ⟨publish_report events ▸ hreports, hunflushed⟩

/-- The loop over the sentences is left. -/
theorem told_resume (h : Reports r.flushed r.report (.speaking [])) : r.resume.Told := by
  dsimp only [Reports] at h
  unfold resume
  by_cases hflushed : r.flushed = true
  · rw [if_pos hflushed] at h ⊢
    exact ⟨h, nofun⟩
  · rw [if_neg hflushed] at h ⊢
    exact ⟨h, fun _ => Bool.eq_false_of_not_eq_true hflushed⟩

theorem Told.task (h : r.Told) (ht : r.Task config v t) : t.Told := by
  obtain ⟨hreports, hunflushed⟩ := h
  cases ht with
  | took hp =>
      rw [hp] at hreports hunflushed
      exact ⟨hreports, fun _ => hunflushed rfl⟩
  | refused hp =>
      rcases hp with hp | hp <;> rw [hp] at hreports
      · exact ⟨.inl hreports, nofun⟩
      · exact ⟨.inr (.inl hreports), nofun⟩
  | entered hp =>
      rw [hp] at hreports hunflushed
      refine told_publish ?_ fun _ => hunflushed rfl
      show r.report ++ _ = _
      rw [hreports]
      rfl
  | deltaIgnored hp =>
      rw [hp] at hreports hunflushed
      exact ⟨hp ▸ hreports, fun _ => hunflushed rfl⟩
  | deltaThrew hp =>
      rw [hp] at hreports hunflushed
      exact ⟨hp ▸ hreports, fun _ => hunflushed rfl⟩
  | deltaTaken hp =>
      rw [hp] at hreports hunflushed
      refine ⟨?_, nofun⟩
      dsimp only [Reports]
      rw [hunflushed rfl]
      exact hreports
  | agentReturned completed hp =>
      rw [hp] at hreports hunflushed
      refine told_publish ?_ fun _ => hunflushed rfl
      show AgentReturned (r.report ++ _)
      rw [hreports]
      cases completed
      · exact .inr rfl
      · exact .inl rfl
  | agentThrew hp =>
      rw [hp] at hreports
      refine told_publish ?_ nofun
      show AgentEnded (r.report ++ _)
      rw [hreports]
      split
      · exact .inr (.inr rfl)
      · exact .inr (.inl (.inr rfl))
  | spoken hp | stale hp =>
      rw [hp] at hreports
      exact told_resume hreports
  | closed hp | declined hp =>
      rw [hp] at hreports
      exact told_resume hreports
  | opens hp | accepted hp =>
      rw [hp] at hreports
      exact ⟨hreports, nofun⟩
  | chunk hp | opened hp =>
      rw [hp] at hreports
      refine told_publish ?_ nofun
      rw [show (List.filter _ _ : List EventType) = [] from rfl, List.append_nil]
      exact hreports
  | flushed hp =>
      rw [hp] at hreports
      exact ⟨hreports, nofun⟩
  | unflushed hp | stopped hp =>
      rw [hp] at hreports
      exact ⟨.inr (.inl hreports), nofun⟩
  | silent hp | passed hp =>
      rw [hp] at hreports
      exact ⟨hreports, nofun⟩
  | finishes hp hq =>
      rw [hp] at hreports
      rw [hq.fields]
      exact ⟨hreports, nofun⟩
  | @joins q hp hq =>
      rw [hp] at hreports
      rw [hq.fields]
      unfold joined
      dsimp only
      split
      · exact ⟨.inr (.inl hreports), nofun⟩
      · exact ⟨hreports, nofun⟩
  | completed hp =>
      rw [hp] at hreports
      refine told_publish ⟨r.report, hreports, ?_⟩ nofun
      show r.report ++ _ = _
      cases r.speech <;> rfl
  | mute hp | inTime hp =>
      rw [hp] at hreports
      exact ⟨hreports, nofun⟩
  | cancels hp hq | quiets hp hq =>
      rw [hp] at hreports
      rw [hq.fields]
      exact ⟨hreports, nofun⟩
  | @rejoins q hp hq =>
      rw [hp] at hreports
      rw [hq.fields]
      unfold joined
      dsimp only
      rw [ite_self]
      exact ⟨hreports, nofun⟩
  | late hp =>
      rw [hp] at hreports
      exact told_publish ⟨r.report, .conversationTurnFailed, hreports, rfl, rfl⟩ nofun
  | classified hp =>
      rw [hp] at hreports
      refine told_publish ⟨r.report, if r.cancelled || !v.current then .conversationTurnCancelled
        else .conversationTurnFailed, hreports, ?_, ?_⟩ nofun
      · split <;> rfl
      · show r.report ++ _ = _
        split <;> rfl
  | leaves hp =>
      rcases hp with hp | hp <;> rw [hp] at hreports
      · obtain ⟨before, hbefore, heq⟩ := hreports
        exact ⟨⟨before, _, .inr (.inl hbefore), rfl, heq⟩, nofun⟩
      · exact ⟨hreports, nofun⟩

/-- What a provider does is no part of the report. -/
theorem Provider.report (ht : r.Provider config v t) : t.report = r.report := by
  cases ht with
  | worker _ ht => rw [ht.fields]; rfl
  | frame =>
      rw [publish_report]
      have hnone : (if r.firstAudio then [EventType.firstAudio] else []).filter
          (fun event => event.ofAgent || event.isOutcome) = [] := by split <;> rfl
      rw [hnone, List.append_nil]
      rfl
  | frameEnd threw =>
      rw [publish_report]
      cases threw <;> exact List.append_nil _

theorem Told.provider (h : r.Told) (ht : r.Provider config v t) : t.Told := by
  have hflushed : t.flushed = r.flushed := by
    cases ht with
    | worker _ ht => rw [ht.fields]
    | frame | frameEnd => rfl
  obtain ⟨hreports, hunflushed⟩ := h
  exact ⟨by rw [hflushed, ht.report, ht.place_eq]; exact hreports,
    by rw [ht.place_eq, hflushed]; exact hunflushed⟩

/-! ## the pipeline at rest -/

/-- The pipeline at a place of the task; at some there is none. -/
def Rests (p : IncrementalTtsState) (h : TtsHistory) : ResponsePlace → Prop
  | .queued | .taken | .entering | .opening _ _ => False
  | .agent | .speaking _ | .pushing _ _ | .returned | .finishing =>
      h.cancelCalled = false ∧ p.finishing = false
  | .joining => h.cancelCalled = false ∧ p.finishing = true ∧ p.finishers ≠ 0
  | .failing => h.cancelCalled = false
  | .quieting => True
  | .rejoining => p.finishing = true ∧ p.finishers ≠ 0
  | .checking | .publishing | .settling =>
      h.cancelCalled = false ∧ p.worker = .exited ∧ p.error = none
  | .reporting | .classifying | .resigning | .ended => p.worker = .exited

/-- What `Rests` looks at. -/
theorem Rests.of_same {p q : IncrementalTtsState} {h h' : TtsHistory} {place : ResponsePlace}
    (hp : Rests p h place) (hworker : q.worker = p.worker) (herror : q.error = p.error)
    (hfinishing : q.finishing = p.finishing) (hfinishers : q.finishers = p.finishers)
    (hcancel : h'.cancelCalled = h.cancelCalled) : Rests q h' place := by
  cases place <;> simp_all [Rests]

/-- The places at which the task is inside a call of its pipeline. -/
def ResponsePlace.calling : ResponsePlace → Bool
  | .pushing _ _ | .joining | .quieting | .rejoining => true
  | _ => false

/-- The pipeline of a response is as its place says, and a frame in the sink
comes from inside `synthesize_chunk`. -/
structure Quiet (r : Response) : Prop where
  rests : ∀ p h, r.speech = some (p, h) → Rests p h r.place
  present : ResponsePlace.calling r.place = true → r.speech ≠ none
  sinking : r.sinking = true → ∃ p h, r.speech = some (p, h) ∧ p.worker = .synthesizing

theorem Quiet.init : Quiet {} := ⟨nofun, nofun, nofun⟩

/-- The task goes to another place, with its pipeline as it is. -/
theorem Quiet.move (h : r.Quiet) (hspeech : t.speech = r.speech) (hsinking : t.sinking = r.sinking)
    (hrests : ∀ p h, Rests p h r.place → Rests p h t.place)
    (hpresent : ResponsePlace.calling t.place = true → t.speech ≠ none) : t.Quiet := by
  refine ⟨fun p history hp => hrests p history (h.rests p history (hspeech ▸ hp)), hpresent,
    fun hs => ?_⟩
  rw [hspeech]
  exact h.sinking (hsinking ▸ hs)

/-- Leaving the loop over the sentences. -/
theorem Quiet.resume (h : r.Quiet)
    (hrests : ∀ p h, Rests p h r.place → Rests p h (.speaking [])) : r.resume.Quiet := by
  refine h.move rfl rfl (fun p history hp => ?_) ?_
  · rcases resume_place r with hplace | hplace <;> rw [hplace] <;> exact hrests p history hp
  · rcases resume_place r with hplace | hplace <;> rw [hplace] <;> nofun

/-- The pipeline changes under the task, and its worker does not. -/
theorem Quiet.pipeline {p q : IncrementalTtsState} {h h' : TtsHistory} (hr : r.Quiet)
    (hspeech : r.speech = some (p, h)) (ht : t.speech = some (q, h'))
    (hworker : q.worker = p.worker) (hsinking : t.sinking = r.sinking)
    (hrests : Rests p h r.place → Rests q h' t.place) : t.Quiet := by
  refine ⟨?_, fun _ => by rw [ht]; nofun, fun hs => ?_⟩
  · rintro p' history' heq
    obtain ⟨rfl, rfl⟩ := Prod.mk.inj (Option.some.inj (ht.symm.trans heq))
    exact hrests (hr.rests p h hspeech)
  · obtain ⟨p', h', hspeech', hsynthesizing⟩ := hr.sinking (hsinking ▸ hs)
    obtain ⟨rfl, rfl⟩ := Prod.mk.inj (Option.some.inj (hspeech.symm.trans hspeech'))
    exact ⟨q, _, ht, hworker.trans hsynthesizing⟩

/-- Without a pipeline. -/
theorem Quiet.silent (hr : r.Quiet) (hnone : r.speech = none) (hspeech : t.speech = r.speech)
    (hsinking : t.sinking = r.sinking) (hplace : ResponsePlace.calling t.place = false) :
    t.Quiet := by
  refine ⟨fun p h hp => ?_, fun hc => ?_, fun hs => ?_⟩
  · rw [hspeech, hnone] at hp
    contradiction
  · rw [hplace] at hc
    contradiction
  · obtain ⟨p, h, hp, -⟩ := hr.sinking (hsinking ▸ hs)
    rw [hnone] at hp
    contradiction

/-- `finish` has joined the worker. -/
theorem Quiet.finishReturn {place failed : ResponsePlace} (hr : r.Quiet)
    (hinv : ∀ p h, r.speech = some (p, h) → SpeechInvariant config p h)
    {q : Response} (hq : r.Calls config v .finishReturn q)
    (hplace : ∀ p h q, Rests p h r.place → q.worker = .exited → q.error = none → Rests q h place)
    (hfailed : ∀ p h q, Rests p h r.place → q.worker = .exited → Rests q h failed) :
    (q.joined place failed).Quiet := by
  obtain ⟨p, h, hspeech, hjoined, rfl⟩ := hq.finishReturn
  have hexited : p.worker = .exited := hjoined.elim (hinv p h hspeech).joined id
  refine hr.pipeline hspeech rfl rfl rfl fun hrests => ?_
  unfold joined
  dsimp only
  split
  · exact hfailed p h _ hrests hexited
  · next hnone => exact hplace p h _ hrests hexited (by simpa using hnone)

theorem Quiet.task (h : r.Quiet) (hinv : ∀ p h, r.speech = some (p, h) → SpeechInvariant config p h)
    (ht : r.Task config v t) : t.Quiet := by
  cases ht with
  | took hp =>
      refine h.move rfl rfl (fun p history hrests => ?_) nofun
      rw [hp] at hrests
      exact hrests
  | deltaIgnored | deltaThrew => exact ⟨h.rests, h.present, h.sinking⟩
  | refused hp =>
      refine h.move rfl rfl (fun p history hrests => ?_) nofun
      rcases hp with hp | hp <;> rw [hp] at hrests
      · exact hrests.elim
      · exact hrests.1
  | entered hp =>
      refine h.move rfl rfl (fun p history hrests => ?_) nofun
      rw [hp] at hrests
      exact hrests.elim
  | deltaTaken hp | flushed hp =>
      refine h.move rfl rfl (fun p history hrests => ?_) nofun
      rw [hp] at hrests
      exact hrests
  | agentReturned completed hp =>
      refine h.move rfl rfl (fun p history hrests => ?_) nofun
      rw [hp] at hrests
      exact hrests
  | agentThrew hp | unflushed hp =>
      refine h.move rfl rfl (fun p history hrests => ?_) nofun
      rw [hp] at hrests
      exact hrests.1
  | spoken hp | stale hp =>
      refine h.resume fun p history hrests => ?_
      rw [hp] at hrests
      exact hrests
  | opens hp _ hnone => exact h.silent hnone rfl rfl rfl
  | chunk hp _ hsome =>
      refine h.move rfl rfl (fun p history hrests => ?_) fun _ => hsome
      rw [hp] at hrests
      exact hrests
  | closed hp =>
      refine h.resume fun p history hrests => ?_
      rw [hp] at hrests
      exact hrests.elim
  | opened hp =>
      refine ⟨?_, fun _ => nofun, fun hs => ?_⟩
      · rintro p history heq
        obtain ⟨rfl, rfl⟩ := Prod.mk.inj (Option.some.inj heq)
        exact ⟨rfl, rfl⟩
      · obtain ⟨p, history, hspeech, -⟩ := h.sinking hs
        have hrests := h.rests p history hspeech
        rw [hp] at hrests
        exact hrests.elim
  | accepted hp hspeech hpush =>
      obtain ⟨hworker, herror, hfinishing, hfinishers, -⟩ := push_keeps hpush
      refine h.pipeline hspeech rfl hworker rfl fun hrests => ?_
      rw [hp] at hrests
      exact @Rests.of_same _ _ _ _ (.speaking _) hrests hworker herror hfinishing hfinishers rfl
  | @declined _ _ p q history hp hspeech hpush =>
      obtain ⟨hworker, herror, hfinishing, hfinishers, -⟩ := push_keeps hpush
      have hq : Quiet { r with speech := some (q, history) } :=
        h.pipeline hspeech rfl hworker rfl fun hrests => hrests.of_same hworker herror hfinishing hfinishers rfl
      refine hq.resume fun p history hrests => ?_
      have hrests : Rests p history r.place := hrests
      rw [hp] at hrests
      exact hrests
  | silent hp hnone => exact h.silent hnone rfl rfl rfl
  | finishes hp hq =>
      obtain ⟨p, history, hspeech, rfl⟩ := hq.finish
      refine h.pipeline hspeech rfl rfl rfl fun hrests => ?_
      rw [hp] at hrests
      exact ⟨hrests.1, rfl, Nat.succ_ne_zero _⟩
  | joins hp hq =>
      refine h.finishReturn hinv hq ?_ ?_
      · intro p history q hrests hexited herror
        rw [hp] at hrests
        exact ⟨hrests.1, hexited, herror⟩
      · intro p history q hrests _
        rw [hp] at hrests
        exact hrests.1
  | stopped hp | completed hp | passed hp =>
      refine h.move rfl rfl (fun p history hrests => ?_) nofun
      rw [hp] at hrests
      first | exact hrests | exact hrests.1
  | mute hp hnone => exact h.silent hnone rfl rfl rfl
  | cancels hp hq =>
      obtain ⟨p, history, hspeech, rfl⟩ := hq.cancel
      refine h.pipeline hspeech rfl ?_ rfl fun _ => trivial
      unfold IncrementalTtsState.cancel
      split <;> rfl
  | quiets hp hq =>
      obtain ⟨p, history, hspeech, rfl⟩ := hq.finish
      exact h.pipeline hspeech rfl rfl rfl fun _ => ⟨rfl, Nat.succ_ne_zero _⟩
  | rejoins hp hq =>
      exact h.finishReturn hinv hq (fun _ _ _ _ hexited _ => hexited) (fun _ _ _ _ hexited => hexited)
  | late hp | inTime hp | classified hp =>
      refine h.move rfl rfl (fun p history hrests => ?_) nofun
      rw [hp] at hrests
      exact hrests
  | leaves hp =>
      refine h.move rfl rfl (fun p history hrests => ?_) nofun
      rcases hp with hp | hp <;> rw [hp] at hrests
      · exact hrests.2.1
      · exact hrests

/-- The worker takes a step: it is not at rest. -/
theorem Rests.worker {p q : IncrementalTtsState} {h h' : TtsHistory} {place : ResponsePlace}
    (hp : Rests p h place) (hkeeps : WorkerKeeps p q) (hcancel : h'.cancelCalled = h.cancelCalled) :
    Rests q h' place := by
  have hfinishing := hkeeps.finishing
  cases place with
  | queued | taken | entering | opening => exact hp
  | agent | speaking | pushing | returned | finishing =>
      exact ⟨hcancel.trans hp.1, hfinishing.trans hp.2⟩
  | joining => exact ⟨hcancel.trans hp.1, hfinishing.trans hp.2.1, hkeeps.finishers ▸ hp.2.2⟩
  | failing => exact hcancel.trans hp
  | quieting => trivial
  | rejoining => exact ⟨hfinishing.trans hp.1, hkeeps.finishers ▸ hp.2⟩
  | checking | publishing | settling => exact absurd hp.2.1 hkeeps.worker
  | reporting | classifying | resigning | ended => exact absurd hp hkeeps.worker

theorem Quiet.provider (h : r.Quiet) (ht : r.Provider config v t) : t.Quiet := by
  cases ht with
  | worker hout ht =>
      obtain ⟨p, history, q, history', hspeech, hstep, rfl, rfl⟩ := ht.worker
      refine ⟨?_, fun _ => nofun, fun hs => absurd hs (by rw [hout]; exact Bool.false_ne_true)⟩
      rintro p' h' heq
      obtain ⟨rfl, rfl⟩ := Prod.mk.inj (Option.some.inj heq)
      have hkeeps := worker_keeps hstep
      have hrests := h.rests p history hspeech
      exact (hrests.of_same (q := seen v p) rfl rfl rfl rfl rfl).worker hkeeps note_worker
  | @frame p history _ _ hspeech hworker => exact ⟨h.rests, h.present, fun _ => ⟨p, history, hspeech, hworker⟩⟩
  | frameEnd => exact ⟨h.rests, h.present, nofun⟩

end Response

namespace Responses

variable {config : IncrementalTtsConfig} {s : Responses} {v : ResponseView} {r : Response}

theorem told_of_reachable (hr : (ByteTurn.responses config).Reachable s) (ticket : Nat) :
    (s.responses ticket).Told :=
  local_invariant .init (fun _ h => ⟨h.reports, h.unflushed⟩) (fun _ h => ⟨h.reports, h.unflushed⟩)
    (fun _ hp h => ⟨by have hreports := h.reports; rw [hp] at hreports; exact hreports,
      fun _ => h.unflushed (by rw [hp]; rfl)⟩)
    (fun _ _ _ _ h ht => h.task ht) (fun _ _ _ _ h ht => h.provider ht) hr ticket

theorem quiet_of_reachable (hr : (ByteTurn.responses config).Reachable s) (ticket : Nat) :
    (s.responses ticket).Quiet :=
  local_invariant .init (fun _ h => ⟨h.rests, h.present, h.sinking⟩)
    (fun _ h => ⟨h.rests, h.present, h.sinking⟩)
    (fun _ hp h => h.move rfl rfl (fun _ _ hrests => by rw [hp] at hrests; exact hrests) nofun)
    (fun _ _ _ hr h ht => h.task (fun _ _ => hr.speech) ht) (fun _ _ _ _ h ht => h.provider ht)
    hr ticket

end Responses

end ByteTurn

import ByteTurn.FullDuplexConversation.Accounting

/-!
# ByteTurn.FullDuplexConversation.BargeIn

What a barge-in leaves uncancelled.

A barge-in cancels the current response.  The responses before it are out of
its reach: a `ResponseStarted` overwrites the one record the conversation has,
also while audio of the earlier response is unheard.  In the runs where this
does not happen (`KeepsUnheard`), a barge-in cancels all unheard audio.
-/

namespace ByteTurn

/-! ## the condition -/

namespace FullDuplexConversation

/-- A `ResponseStarted` finds no current response, or one that is heard as far
as it is delivered. -/
def KeepsUnheard (d : FullDuplexConversation) (a : DuplexAction) : Prop :=
  match a with
  | .call _ => True
  | .run thread _ => match d.nextTask thread with
    | some (.startResponse _) =>
        ¬ d.playback.responseActive ∨ d.playback.playedSamples = d.playback.deliveredSamples
    | _ => True

instance (d : FullDuplexConversation) (a : DuplexAction) : Decidable (d.KeepsUnheard a) := by
  unfold KeepsUnheard
  cases a with
  | call => exact .isTrue trivial
  | run thread accepted =>
      dsimp only
      cases d.nextTask thread with
      | none => exact .isTrue trivial
      | some task => cases task <;> infer_instance

end FullDuplexConversation

/-- The conversation in the runs that keep unheard audio. -/
def keepingDuplex (sessionId : Bytes) (outputSampleRateHz : Int) :
    Machine (FullDuplexConversation × List ResponseRecord) DuplexAction :=
  (notedDuplex sessionId outputSampleRateHz).guarded fun p a => p.1.KeepsUnheard a

/-! ## what is closed -/

/-- Cancelled, or heard as far as it is delivered. -/
def ResponseRecord.Closed (r : ResponseRecord) : Prop :=
  r.cancelled ≠ none ∨ r.acknowledged = r.delivered

/-- An acknowledgement opens no record. -/
theorem ResponseRecord.Closed.acknowledge {r : ResponseRecord} (h : r.Closed) (n : Nat) :
    (r.acknowledge n).Closed := by
  cases h with
  | inl hcancelled => exact .inl hcancelled
  | inr hheard =>
      right
      show max r.acknowledged (min n r.delivered) = r.delivered
      omega

/-- Every response but an active one is closed. -/
structure OthersClosed (p : Playback) (records : List ResponseRecord) : Prop where
  latest : ∀ r rest, records = r :: rest → p.responseActive = false → r.Closed
  earlier : ∀ r rest, records = r :: rest → ∀ e ∈ rest, e.Closed

namespace OthersClosed

variable {p p' : Playback} {records : List ResponseRecord}

theorem of_cons {r : ResponseRecord} {rest : List ResponseRecord}
    (hlatest : p.responseActive = false → r.Closed) (hrest : ∀ e ∈ rest, e.Closed) :
    OthersClosed p (r :: rest) where
  latest := by
    intro r' rest' heq
    obtain ⟨rfl, rfl⟩ := List.cons.inj heq
    exact hlatest
  earlier := by
    intro r' rest' heq
    obtain ⟨rfl, rfl⟩ := List.cons.inj heq
    exact hrest

theorem of_nil : OthersClosed p [] := ⟨nofun, nofun⟩

/-- It opens none of a list of records. -/
theorem acknowledgeLatest (h : OthersClosed p records) (responseId : Bytes) (n : Nat) :
    OthersClosed p (acknowledgeLatest responseId n records) := by
  cases records with
  | nil => exact of_nil
  | cons r rest =>
      have hlatest := h.latest r rest rfl
      have hearlier := h.earlier r rest rfl
      unfold ByteTurn.acknowledgeLatest
      split
      · exact of_cons (fun hinactive => (hlatest hinactive).acknowledge n) hearlier
      · exact of_cons hlatest
          (forall_acknowledgeLatest responseId n (fun _ he => he.acknowledge n) hearlier)

/-- An acknowledgement that ends the response closes its record. -/
theorem acknowledge_some (h : OthersClosed p records) (ht : Tracks p records)
    (hsound : ∀ r ∈ records, r.Sound) {responseId : Bytes} {n : Nat}
    (hp : p.acknowledge responseId n = some p') :
    OthersClosed p' (ByteTurn.acknowledgeLatest responseId n records) := by
  unfold Playback.acknowledge at hp
  split at hp
  · next hcurrent =>
      obtain ⟨r, rest, rfl⟩ := ht.exists_latest hcurrent.1
      obtain ⟨hid, hdelivered⟩ := ht.current r rest rfl
      obtain ⟨hr, _⟩ := List.forall_mem_cons.mp hsound
      have hle := hr.acknowledged_le
      dsimp only at hp
      split at hp
      · obtain rfl := Option.some.inj hp
        rw [ByteTurn.acknowledgeLatest, if_pos (hid.symm.trans hcurrent.2.symm)]
        refine of_cons ?_ (h.earlier r rest rfl)
        intro hinactive
        have hended : p.responseGenerationDone = true ∧
            min n p.deliveredSamples = p.deliveredSamples := not_not.mp (of_decide_eq_false hinactive)
        right
        show max r.acknowledged (min n r.delivered) = r.delivered
        rw [← hdelivered] at hle ⊢
        omega
      · contradiction
  · contradiction

/-- A new response finds the others closed, where nothing unheard is overwritten. -/
theorem start (h : OthersClosed p records) (ht : Tracks p records)
    (hkeeps : ¬ p.responseActive ∨ p.playedSamples = p.deliveredSamples) (responseId : Bytes) :
    OthersClosed (.start responseId) ({ id := responseId } :: records) := by
  refine of_cons nofun ?_
  cases records with
  | nil => exact nofun
  | cons r rest =>
      refine List.forall_mem_cons.mpr ⟨?_, h.earlier r rest rfl⟩
      by_cases hactive : p.responseActive = true
      · have hheard := hkeeps.resolve_left (not_not.mpr hactive)
        obtain ⟨hplayed, _⟩ := ht.live r rest rfl hactive
        obtain ⟨_, hdelivered⟩ := ht.current r rest rfl
        exact .inr (hplayed.symm.trans (hheard.trans hdelivered))
      · exact h.latest r rest rfl (eq_false_of_ne_true hactive)

/-- Audio is delivered to an active response only. -/
theorem deliver (h : OthersClosed p records) {responseId : Bytes} (hadmits : p.Admits responseId)
    (audio : AudioFrame) (output : DuplexAudio) :
    OthersClosed (p.deliver audio) (onLatest (·.admitOutput output) records) := by
  cases records with
  | nil => exact of_nil
  | cons r rest =>
      refine of_cons ?_ (h.earlier r rest rfl)
      intro hinactive
      exact absurd (hadmits.1.symm.trans hinactive) (by simp)

/-- A response that ends heard out is closed. -/
theorem complete_some (h : OthersClosed p records) (ht : Tracks p records) {responseId : Bytes}
    (hp : p.complete responseId = some p') :
    OthersClosed p' (onLatest (·.complete responseId) records) := by
  unfold Playback.complete at hp
  split at hp
  · next hadmits =>
      obtain rfl := Option.some.inj hp
      obtain ⟨r, rest, rfl⟩ := ht.exists_latest hadmits.1
      obtain ⟨hid, hdelivered⟩ := ht.current r rest rfl
      obtain ⟨hplayed, _⟩ := ht.live r rest rfl hadmits.1
      have hle := ht.played_le
      have hrecord : r.complete responseId = { r with completed := true } :=
        if_pos (hid.symm.trans hadmits.2.2.symm)
      refine of_cons ?_ (h.earlier r rest rfl)
      intro hinactive
      have hheard : ¬ p.playedSamples < p.deliveredSamples := of_decide_eq_false hinactive
      show (r.complete responseId).Closed
      rw [hrecord]
      right
      show r.acknowledged = r.delivered
      omega
  · contradiction

/-- A response that is not current stays as it is. -/
theorem complete_none (h : OthersClosed p records) (responseId : Bytes) :
    OthersClosed p (onLatest (·.complete responseId) records) := by
  cases records with
  | nil => exact of_nil
  | cons r rest =>
      refine of_cons ?_ (h.earlier r rest rfl)
      intro hinactive
      have hclosed := h.latest r rest rfl hinactive
      unfold ResponseRecord.complete
      dsimp only
      split <;> exact hclosed

/-- A barge-in closes the response. -/
theorem bargeIn (h : OthersClosed p records) :
    OthersClosed { p with responseActive := false } (onLatest (·.bargeIn) records) := by
  cases records with
  | nil => exact of_nil
  | cons r rest => exact of_cons (fun _ => .inl (by simp [ResponseRecord.bargeIn])) (h.earlier r rest rfl)

open FullDuplexConversation in
/-- What one task does, where it keeps unheard audio. -/
theorem runTask {d : FullDuplexConversation} {accepted : Bool} (h : OthersClosed d.playback records)
    (ht : Tracks d.playback records) (hsound : ∀ r ∈ records, r.Sound) (task : DuplexTask)
    (hkeeps : ∀ responseId, task = .startResponse responseId →
      ¬ d.playback.responseActive ∨ d.playback.playedSamples = d.playback.deliveredSamples) :
    OthersClosed (d.runTask accepted task).1.playback (noteTask d.playback records task) := by
  cases task with
  | call c =>
      cases c with
      | playbackStarted responseId =>
          rw [FullDuplexConversation.runTask, runCall, Playback.started]
          split
          · next p hp =>
              split at hp
              · rw [← Option.some.inj hp]
                exact ⟨h.latest, h.earlier⟩
              · contradiction
          · exact h
      | acknowledgePlayback responseId n =>
          rw [FullDuplexConversation.runTask, runCall]
          cases hp : d.playback.acknowledge responseId n with
          | none => exact h.acknowledgeLatest responseId n
          | some p => exact h.acknowledge_some ht hsound hp
      | close =>
          rw [FullDuplexConversation.runTask, runCall]
          split <;> exact h
      | inputSpeechStarted | inputSpeechEnded | onProviderEvent => exact h
  | startInput | endInput =>
      rw [FullDuplexConversation.runTask]
      split <;> exact h
  | startResponse responseId => exact h.start ht (hkeeps responseId rfl) responseId
  | admitAudio responseId audio =>
      rw [FullDuplexConversation.runTask, noteTask]
      split
      · next hadmits => exact h.deliver hadmits audio _
      · exact h
  | completeResponse responseId =>
      rw [FullDuplexConversation.runTask, noteTask]
      cases hp : d.playback.complete responseId with
      | none => exact h.complete_none responseId
      | some p => exact h.complete_some ht hp
  | bargeIn =>
      rw [FullDuplexConversation.runTask, noteTask]
      split
      · exact h.bargeIn
      · exact h
  | audioSink | cancelResponse | commitInput | transcriptSink | publish => exact h

end OthersClosed

/-! ## runs -/

variable {sessionId : Bytes} {rate : Int} {d d' : FullDuplexConversation}
  {records : List ResponseRecord}

open FullDuplexConversation

/-- In the runs that keep unheard audio, every response but an active one is
closed. -/
theorem othersClosed_of_reachable (h : (keepingDuplex sessionId rate).Reachable (d, records)) :
    OthersClosed d.playback records := by
  refine Machine.Reachable.rec_inv (m := keepingDuplex sessionId rate)
    (P := fun p => OthersClosed p.1.playback p.2) OthersClosed.of_nil ?_ h
  rintro ⟨d, records⟩ a ⟨d', records'⟩ hreachable hclosed hs
  obtain ⟨hkeeps, hs⟩ := Machine.guarded_step.mp hs
  obtain ⟨hstep, rfl⟩ := Machine.observed_step.mp hs
  have hagree := NotesAgree.of_reachable hreachable.of_guarded
  obtain ⟨c, rfl, rfl⟩ | ⟨thread, accepted, task, rest, rfl, hthread, hnext, rfl⟩ :=
    NotesAgree.duplexStep_cases hstep
  · exact hclosed
  · have hnote : d.note (.run thread accepted) records = noteTask d.playback records task := by
      rw [note, hnext]
    rw [hnote]
    refine hclosed.runTask hagree.tracks hagree.sound task ?_
    rintro responseId rfl
    unfold KeepsUnheard at hkeeps
    dsimp only at hkeeps
    rw [hnext] at hkeeps
    exact hkeeps

/-- The requests that are sent or about to be. -/
def FullDuplexConversation.requested (d : FullDuplexConversation) : List CancelResponse :=
  d.cancels ++ d.pendingCancels

/-- Only a task that is a request sends one. -/
theorem runTask_sent (accepted : Bool) (task : DuplexTask) :
    (d.runTask accepted task).1.cancels = d.cancels ++ task.requests := by
  cases task with
  | call c =>
      rw [runTask]
      unfold runCall
      split
      · exact (List.append_nil _).symm
      · exact (List.append_nil _).symm
      · split <;> exact (List.append_nil _).symm
      · split <;> exact (List.append_nil _).symm
      · exact (List.append_nil _).symm
      · split <;> exact (List.append_nil _).symm
  | startInput | endInput | admitAudio | completeResponse | bargeIn =>
      rw [runTask]
      split <;> exact (List.append_nil _).symm
  | cancelResponse request => rfl
  | startResponse | audioSink | commitInput | transcriptSink | publish =>
      exact (List.append_nil _).symm

/-- A request on its way is not lost. -/
theorem requested_step {a : DuplexAction} (hs : d.duplexStep a = some d') {request : CancelResponse}
    (h : request ∈ d.requested) : request ∈ d'.requested := by
  obtain ⟨c, rfl, rfl⟩ | ⟨thread, accepted, task, rest, rfl, hthread, _, rfl⟩ :=
    NotesAgree.duplexStep_cases hs
  · simpa [requested, pendingCancels, DuplexTask.requests] using h
  · have hpending := List.flatMap_set_perm DuplexTask.requests hthread (d.runTask accepted task).2
    have hmem : request ∈ d.cancels ++ (pendingCancels d ++
        (d.runTask accepted task).2.flatMap DuplexTask.requests) := by
      rw [← List.append_assoc]
      exact List.mem_append_left _ h
    have hmoved : request ∈ d.cancels ++ (((d.threads.set thread
        ((d.runTask accepted task).2 ++ rest)).flatten.flatMap DuplexTask.requests) ++
          task.requests) :=
      (hpending.append_left d.cancels).symm.mem_iff.mp hmem
    show request ∈ (d.runTask accepted task).1.cancels ++
      (d.threads.set thread ((d.runTask accepted task).2 ++ rest)).flatten.flatMap DuplexTask.requests
    rw [runTask_sent]
    simp only [List.mem_append] at hmoved ⊢
    tauto

/-- A request is sent or pending from then on. -/
theorem requested_leads (h : (fullDuplex sessionId rate).Reachable d) {request : CancelResponse}
    (hrequested : request ∈ d.requested) (hleads : (fullDuplex sessionId rate).Leads d d') :
    request ∈ d'.requested :=
  Machine.Leads.rec_stable (P := fun d => request ∈ d.requested)
    (fun _ _ _ _ hp hs => requested_step hs hp) h hrequested hleads

/-- The request of a barge-in. -/
theorem bargeIn_requests {thread : Nat} {accepted : Bool}
    (hnext : d.nextTask thread = some .bargeIn) (hactive : d.playback.responseActive)
    (hs : d.duplexStep (.run thread accepted) = some d') :
    ⟨d.playback.responseId, d.playback.playedSamples, d.outputSampleRateHz⟩ ∈ d'.requested := by
  obtain ⟨c, hcall, _⟩ | ⟨_, _, task, rest, hrun, hthread, htask, rfl⟩ :=
    NotesAgree.duplexStep_cases hs
  · contradiction
  · obtain ⟨rfl, rfl⟩ := DuplexAction.run.inj hrun
    obtain rfl := Option.some.inj (hnext.symm.trans htask)
    have hpending := List.flatMap_set_perm DuplexTask.requests hthread
      (d.runTask accepted .bargeIn).2
    refine List.mem_append_right _ ?_
    show _ ∈ (d.threads.set thread ((d.runTask accepted .bargeIn).2 ++ rest)).flatten.flatMap
      DuplexTask.requests
    have hmem : (⟨d.playback.responseId, d.playback.playedSamples, d.outputSampleRateHz⟩ :
        CancelResponse) ∈ (d.runTask accepted .bargeIn).2.flatMap DuplexTask.requests := by
      rw [runTask, if_pos hactive]
      exact List.mem_singleton_self _
    have hnone : DuplexTask.bargeIn.requests = [] := rfl
    rw [hnone, List.append_nil] at hpending
    exact hpending.symm.mem_iff.mp (List.mem_append_right _ hmem)

/-- The sample rate is that of the constructor. -/
theorem rate_of_reachable (h : (fullDuplex sessionId rate).Reachable d) :
    d.outputSampleRateHz = rate := by
  refine Machine.Reachable.rec_inv (m := fullDuplex sessionId rate)
    (P := fun d => d.outputSampleRateHz = rate) rfl ?_ h
  intro d a d' _ hrate hs
  obtain ⟨c, rfl, rfl⟩ | ⟨thread, accepted, task, rest, rfl, _, _, rfl⟩ :=
    NotesAgree.duplexStep_cases hs
  · exact hrate
  · exact (runTask_constant task).1.trans hrate

/-- **A barge-in cancels all unheard audio**, in the runs where every
`ResponseStarted` finds the current response inactive or heard: whichever
response has delivered more than was acknowledged and is not cancelled, the
request for it, with its acknowledged offset, is sent or on its way, and is sent
once no thread has a request to send. -/
theorem bargeIn_cancels_unheard (sessionId : Bytes) (rate : Int) (d d' : FullDuplexConversation)
    (records : List ResponseRecord) (thread : Nat) (accepted : Bool)
    (h : (keepingDuplex sessionId rate).Reachable (d, records))
    (hnext : d.nextTask thread = some .bargeIn) (hactive : d.playback.responseActive)
    (hs : d.duplexStep (.run thread accepted) = some d') :
    ∀ r ∈ records, r.acknowledged < r.delivered → r.cancelled = none →
      ∀ later, (fullDuplex sessionId rate).Leads d' later →
        ⟨r.id, r.acknowledged, rate⟩ ∈ later.requested ∧
          (later.pendingCancels = [] → ⟨r.id, r.acknowledged, rate⟩ ∈ later.cancels) := by
  intro r hr hunheard hlive later hlater
  have hagree := NotesAgree.of_reachable h.of_guarded
  have hclosed := othersClosed_of_reachable h
  obtain ⟨latest, rest, rfl⟩ := hagree.tracks.exists_latest hactive
  have hopen : ¬ r.Closed := by
    rintro (hcancelled | hheard)
    · exact hcancelled hlive
    · omega
  have hlatest : r = latest := by
    cases List.mem_cons.mp hr with
    | inl heq => exact heq
    | inr hmem => exact absurd (hclosed.earlier latest rest rfl r hmem) hopen
  subst hlatest
  obtain ⟨hid, _⟩ := hagree.tracks.current r rest rfl
  obtain ⟨hplayed, _⟩ := hagree.tracks.live r rest rfl hactive
  have hreachable : (fullDuplex sessionId rate).Reachable d := h.of_guarded.of_observed
  have hstep : (fullDuplex sessionId rate).step d (.run thread accepted) = some d' := hs
  have hrequested := bargeIn_requests hnext hactive hs
  rw [hid, hplayed, rate_of_reachable hreachable] at hrequested
  have hfinal := requested_leads (hreachable.step hstep) hrequested hlater
  refine ⟨hfinal, ?_⟩
  intro hnone
  rw [requested, hnone, List.append_nil] at hfinal
  exact hfinal

/-- Four samples, three of them heard, when the user starts to speak. -/
def heardAndSpoken : List DuplexAction :=
  provided 0 2 { type := .responseStarted, responseId := lit "r" } ++
    provided 1 3 (fourSamples (lit "r")) ++
    [.call (.acknowledgePlayback (lit "r") 3), .run 2 true, .call .inputSpeechStarted] ++
    List.replicate 3 (.run 3 true)

theorem bargeIn_cancels_unheard_tail :
    ∃ d', (fullDuplex (lit "native") 24000).Reachable d' ∧ ⟨lit "r", 3, 24000⟩ ∈ d'.requested := by
  have hrun : ((keepingDuplex (lit "native") 24000).run (keepingDuplex (lit "native") 24000).init
      heardAndSpoken).bind (fun p => (p.1.duplexStep (.run 3 true)).map fun _ =>
        decide (p.1.nextTask 3 = some .bargeIn ∧ p.1.playback.responseActive ∧
          ∃ r ∈ p.2, r.id = lit "r" ∧ r.acknowledged = 3 ∧ r.delivered = 4 ∧
            r.cancelled = none)) = some true := by decide +kernel
  obtain ⟨⟨d, records⟩, hrun, hstep⟩ := Option.bind_eq_some_iff.mp hrun
  obtain ⟨d', hs, hshape⟩ := Option.map_eq_some_iff.mp hstep
  obtain ⟨hnext, hactive, r, hr, hid, hacknowledged, hdelivered, hcancelled⟩ :=
    of_decide_eq_true hshape
  have hreachable := Machine.Reachable.of_run hrun
  have hall := bargeIn_cancels_unheard _ _ d d' records 3 true hreachable hnext hactive hs r
    hr (by omega) hcancelled d' (Machine.Leads.refl _ d')
  rw [hid, hacknowledged] at hall
  have hstep : (fullDuplex (lit "native") 24000).step d (.run 3 true) = some d' := hs
  exact ⟨d', hreachable.of_guarded.of_observed.step hstep, hall.1⟩

/-- A second response starts while the first one is unheard, and the user speaks. -/
def overtakenThenSpoken : List DuplexAction :=
  provided 0 2 { type := .responseStarted, responseId := lit "r1" } ++
    provided 1 3 (fourSamples (lit "r1")) ++
    provided 2 2 { type := .responseStarted, responseId := lit "r2" } ++
    .call .inputSpeechStarted :: List.replicate 3 (.run 3 true)

/-- The first response is left as it is. -/
theorem unheard_forgotten :
    ∃ d records d', (notedDuplex (lit "native") 24000).Reachable (d, records) ∧
      d.nextTask 3 = some .bargeIn ∧ d.playback.responseActive ∧
      d.duplexStep (.run 3 true) = some d' ∧
      ∃ r ∈ records, r.acknowledged < r.delivered ∧ r.cancelled = none ∧
        ⟨r.id, r.acknowledged, 24000⟩ ∉ d'.requested := by
  have hrun : ((notedDuplex (lit "native") 24000).run (notedDuplex (lit "native") 24000).init
      overtakenThenSpoken).bind (fun p => (p.1.duplexStep (.run 3 true)).map fun d' =>
        decide (p.1.nextTask 3 = some .bargeIn ∧ p.1.playback.responseActive ∧
          ∃ r ∈ p.2, r.acknowledged < r.delivered ∧ r.cancelled = none ∧
            ⟨r.id, r.acknowledged, 24000⟩ ∉ d'.requested)) = some true := by decide +kernel
  obtain ⟨⟨d, records⟩, hrun, hstep⟩ := Option.bind_eq_some_iff.mp hrun
  obtain ⟨d', hs, hforgotten⟩ := Option.map_eq_some_iff.mp hstep
  obtain ⟨hnext, hactive, hunheard⟩ := of_decide_eq_true hforgotten
  exact ⟨d, records, d', Machine.Reachable.of_run hrun, hnext, hactive, hs, hunheard⟩

end ByteTurn

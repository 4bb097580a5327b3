import ByteTurn.FullDuplexConversation
import ByteTurn.Lib.Lists

/-!
# ByteTurn.FullDuplexConversation.Accounting

What each response has delivered, what of it was heard and what was cancelled.

The conversation keeps one response at a time.  Beside it we keep notes on all
of them, the newest first (`ResponseRecord`): the outputs admitted for it, the
largest acknowledgement, and how it stood when a barge-in ended it.  The notes
are taken at the sections, in the order of the lock, and no step reads them
(`Machine.observed`).  `Accounted` says how the counters, the sink and the
provider agree with the notes, in every reachable state.
-/

namespace ByteTurn

/-! ## the notes -/

/-- How a response stood when a barge-in ended it: its outputs, the largest
acknowledgement so far, and whether its generation was done. -/
structure BargeInRecord where
  admitted : List DuplexAudio
  offset : Nat
  completed : Bool
  deriving DecidableEq, Repr

/-- A response, from its `ResponseStarted` on. -/
structure ResponseRecord where
  id : Bytes
  /-- The outputs of its audio deltas that passed the state check. -/
  admitted : List DuplexAudio := []
  /-- The largest acknowledgement, each clamped to what was delivered then. -/
  acknowledged : Nat := 0
  /-- Its generation is done. -/
  completed : Bool := false
  cancelled : Option BargeInRecord := none
  deriving DecidableEq, Repr

/-- The number of samples of some outputs. -/
def sampleCount (outputs : List DuplexAudio) : Nat :=
  (outputs.map fun output => output.frame.samples.length).sum

theorem sampleCount_append (a b : List DuplexAudio) :
    sampleCount (a ++ b) = sampleCount a + sampleCount b := by
  simp [sampleCount]

namespace ResponseRecord

/-- The samples delivered for a response. -/
def delivered (r : ResponseRecord) : Nat := sampleCount r.admitted

/-- Note an admitted output. -/
def admitOutput (r : ResponseRecord) (output : DuplexAudio) : ResponseRecord :=
  { r with admitted := r.admitted ++ [output] }

/-- Note an acknowledgement. -/
def acknowledge (r : ResponseRecord) (playedSamples : Nat) : ResponseRecord :=
  { r with acknowledged := max r.acknowledged (min playedSamples r.delivered) }

/-- Note the end of the generation. -/
def complete (r : ResponseRecord) (responseId : Bytes) : ResponseRecord :=
  if r.id = responseId then { r with completed := true } else r

/-- Note a barge-in. -/
def bargeIn (r : ResponseRecord) : ResponseRecord :=
  { r with cancelled := some ⟨r.admitted, r.acknowledged, r.completed⟩ }

/-- What the provider is to be asked for a response: to cancel it once, if a
barge-in ended it. -/
def cancelRequests (sampleRateHz : Int) (r : ResponseRecord) : List CancelResponse :=
  match r.cancelled with
  | some b => [⟨r.id, b.offset, sampleRateHz⟩]
  | none => []

/-- Every output starts where the outputs before it end, under the response's id. -/
def Contiguous (r : ResponseRecord) : Prop :=
  ∀ before output after, r.admitted = before ++ output :: after →
    output.responseId = r.id ∧ output.startSample = sampleCount before

end ResponseRecord

/-- Change the newest record. -/
def onLatest (f : ResponseRecord → ResponseRecord) : List ResponseRecord → List ResponseRecord
  | [] => []
  | r :: rest => f r :: rest

/-- An acknowledgement is for the newest response of its id. -/
def acknowledgeLatest (responseId : Bytes) (playedSamples : Nat) :
    List ResponseRecord → List ResponseRecord
  | [] => []
  | r :: rest =>
      if r.id = responseId then r.acknowledge playedSamples :: rest
      else r :: acknowledgeLatest responseId playedSamples rest

/-- The note on a task. -/
def noteTask (p : Playback) (records : List ResponseRecord) : DuplexTask → List ResponseRecord
  | .call (.acknowledgePlayback responseId playedSamples) =>
      acknowledgeLatest responseId playedSamples records
  | .startResponse responseId => { id := responseId } :: records
  | .admitAudio responseId audio =>
      if p.Admits responseId then onLatest (·.admitOutput (p.output responseId audio)) records
      else records
  | .completeResponse responseId => onLatest (·.complete responseId) records
  | .bargeIn => if p.responseActive then onLatest (·.bargeIn) records else records
  | _ => records

namespace FullDuplexConversation

/-- The note on a step. -/
def note (d : FullDuplexConversation) (a : DuplexAction) (records : List ResponseRecord) :
    List ResponseRecord :=
  match a with
  | .call _ => records
  | .run thread _ => match d.nextTask thread with
    | some task => noteTask d.playback records task
    | none => records

end FullDuplexConversation

/-- A conversation with the notes on its responses. -/
def notedDuplex (sessionId : Bytes) (outputSampleRateHz : Int) :
    Machine (FullDuplexConversation × List ResponseRecord) DuplexAction :=
  (fullDuplex sessionId outputSampleRateHz).observed [] FullDuplexConversation.note

/-! ## what is on its way -/

/-- The outputs a task passes to the sink. -/
def DuplexTask.outputs : DuplexTask → List DuplexAudio
  | .audioSink output => [output]
  | _ => []

/-- The requests a task sends to the provider. -/
def DuplexTask.requests : DuplexTask → List CancelResponse
  | .cancelResponse request => [request]
  | _ => []

namespace FullDuplexConversation

/-- The outputs that a thread is about to pass to the sink. -/
def pendingAudio (d : FullDuplexConversation) : List DuplexAudio :=
  d.threads.flatten.flatMap DuplexTask.outputs

/-- The requests that a thread is about to send. -/
def pendingCancels (d : FullDuplexConversation) : List CancelResponse :=
  d.threads.flatten.flatMap DuplexTask.requests

/-- The conversation agrees with the notes. -/
structure Accounted (d : FullDuplexConversation) (records : List ResponseRecord) : Prop where
  played_le_delivered : d.playback.playedSamples ≤ d.playback.deliveredSamples
  contiguous : ∀ r ∈ records, r.Contiguous
  /-- What reaches the sink is what was admitted. -/
  sink : (d.audio ++ d.pendingAudio).Perm (records.flatMap ResponseRecord.admitted)
  /-- One request for each cancelled response, with its id and its offset. -/
  cancelled_once : (d.cancels ++ d.pendingCancels).Perm
    (records.flatMap (·.cancelRequests d.outputSampleRateHz))
  /-- Nothing is admitted after a barge-in. -/
  no_late_audio : ∀ r ∈ records, ∀ b ∈ r.cancelled, r.admitted = b.admitted
  /-- A response that is done and heard is inactive. -/
  heard_inactive : ∀ r rest, records = r :: rest → r.completed → r.acknowledged = r.delivered →
    d.playback.responseActive = false
  /-- A response that is done and heard is not cancelled. -/
  heard_not_cancelled : ∀ r ∈ records, ∀ b ∈ r.cancelled,
    ¬ (b.completed ∧ b.offset = sampleCount b.admitted)

end FullDuplexConversation

/-! ## the records -/

/-- What holds of every record, whatever becomes of its response. -/
structure ResponseRecord.Sound (r : ResponseRecord) : Prop where
  contiguous : r.Contiguous
  no_late_audio : ∀ b ∈ r.cancelled, r.admitted = b.admitted
  heard_not_cancelled : ∀ b ∈ r.cancelled, ¬ (b.completed ∧ b.offset = sampleCount b.admitted)
  acknowledged_le : r.acknowledged ≤ r.delivered

namespace ResponseRecord

variable {r : ResponseRecord}

theorem Sound.fresh (responseId : Bytes) : Sound { id := responseId } where
  contiguous := by
    intro before output after h
    simp at h
  no_late_audio := nofun
  heard_not_cancelled := nofun
  acknowledged_le := Nat.zero_le _

theorem Sound.acknowledge (h : r.Sound) (playedSamples : Nat) : (r.acknowledge playedSamples).Sound where
  contiguous := h.contiguous
  no_late_audio := h.no_late_audio
  heard_not_cancelled := h.heard_not_cancelled
  acknowledged_le := max_le h.acknowledged_le (min_le_right _ _)

theorem Sound.complete (h : r.Sound) (responseId : Bytes) : (r.complete responseId).Sound := by
  unfold ResponseRecord.complete
  split
  · exact ⟨h.contiguous, h.no_late_audio, h.heard_not_cancelled, h.acknowledged_le⟩
  · exact h

theorem delivered_admitOutput (output : DuplexAudio) :
    (r.admitOutput output).delivered = r.delivered + output.frame.samples.length := by
  rw [delivered, admitOutput, sampleCount_append]
  simp [sampleCount, delivered]

theorem Sound.admitOutput (h : r.Sound) (output : DuplexAudio) (hid : output.responseId = r.id)
    (hstart : output.startSample = r.delivered) (hlive : r.cancelled = none) :
    (r.admitOutput output).Sound where
  contiguous := by
    intro before o after hsplit
    rcases List.eq_nil_or_concat after with rfl | ⟨after', last, rfl⟩
    · obtain ⟨rfl, hlast⟩ := List.append_inj' hsplit rfl
      rw [← List.singleton_inj.mp hlast]
      exact ⟨hid, hstart⟩
    · rw [List.concat_eq_append, ← List.cons_append, ← List.append_assoc] at hsplit
      exact h.contiguous before o after' (List.append_inj' hsplit rfl).1
  no_late_audio := by
    intro b hb
    rw [ResponseRecord.admitOutput, hlive] at hb
    contradiction
  heard_not_cancelled := by
    intro b hb
    rw [ResponseRecord.admitOutput, hlive] at hb
    contradiction
  acknowledged_le := by
    rw [delivered_admitOutput]
    exact le_trans h.acknowledged_le (Nat.le_add_right _ _)

theorem Sound.bargeIn (h : r.Sound) (hunheard : ¬ (r.completed ∧ r.acknowledged = r.delivered)) :
    r.bargeIn.Sound where
  contiguous := h.contiguous
  no_late_audio := by
    intro b hb
    rw [← Option.some.inj hb]
    rfl
  heard_not_cancelled := by
    intro b hb
    rw [← Option.some.inj hb]
    exact hunheard
  acknowledged_le := h.acknowledged_le

end ResponseRecord

theorem forall_acknowledgeLatest {P : ResponseRecord → Prop} (responseId : Bytes)
    (playedSamples : Nat) (hack : ∀ r, P r → P (r.acknowledge playedSamples))
    {records : List ResponseRecord} (h : ∀ r ∈ records, P r) :
    ∀ r ∈ acknowledgeLatest responseId playedSamples records, P r := by
  induction records with
  | nil => exact h
  | cons r rest ih =>
      obtain ⟨hr, hrest⟩ := List.forall_mem_cons.mp h
      unfold acknowledgeLatest
      split
      · exact List.forall_mem_cons.mpr ⟨hack r hr, hrest⟩
      · exact List.forall_mem_cons.mpr ⟨hr, ih hrest⟩

theorem flatMap_acknowledgeLatest {β : Type} {f : ResponseRecord → List β}
    (hf : ∀ r n, f (r.acknowledge n) = f r) (responseId : Bytes) (playedSamples : Nat)
    (records : List ResponseRecord) :
    (acknowledgeLatest responseId playedSamples records).flatMap f = records.flatMap f := by
  induction records with
  | nil => rfl
  | cons r rest ih =>
      unfold acknowledgeLatest
      split
      · rw [List.flatMap_cons, List.flatMap_cons, hf]
      · rw [List.flatMap_cons, List.flatMap_cons, ih]

/-! ## the newest record and the counters -/

/-- The counters are those of the newest record. -/
structure Tracks (p : Playback) (records : List ResponseRecord) : Prop where
  played_le : p.playedSamples ≤ p.deliveredSamples
  unheard : p.responseActive → p.responseGenerationDone → p.playedSamples < p.deliveredSamples
  none_active : records = [] → p.responseActive = false
  current : ∀ r rest, records = r :: rest → p.responseId = r.id ∧ p.deliveredSamples = r.delivered
  live : ∀ r rest, records = r :: rest → p.responseActive →
    p.playedSamples = r.acknowledged ∧ p.responseGenerationDone = r.completed ∧ r.cancelled = none

namespace Tracks

variable {p p' : Playback} {records : List ResponseRecord}

/-- An active response has the newest record. -/
theorem exists_latest (h : Tracks p records) (hactive : p.responseActive) :
    ∃ r rest, records = r :: rest := by
  cases records with
  | nil =>
      have hnone := h.none_active rfl
      rw [hactive] at hnone
      contradiction
  | cons r rest => exact ⟨r, rest, rfl⟩

theorem started (h : Tracks p records) {responseId : Bytes} (hp : p.started responseId = some p') :
    Tracks p' records := by
  unfold Playback.started at hp
  split at hp
  · rw [← Option.some.inj hp]
    exact ⟨h.played_le, h.unheard, h.none_active, h.current, h.live⟩
  · contradiction

/-- A refused acknowledgement is not larger than those before it. -/
theorem acknowledge_none (h : Tracks p records) {responseId : Bytes} {n : Nat}
    (hp : p.acknowledge responseId n = none) :
    Tracks p (acknowledgeLatest responseId n records) := by
  cases records with
  | nil => exact h
  | cons r rest =>
      obtain ⟨hid, hdelivered⟩ := h.current r rest rfl
      unfold acknowledgeLatest
      split
      · next hsame =>
          refine ⟨h.played_le, h.unheard, nofun, ?_, ?_⟩
          · intro r' rest' heq
            obtain ⟨rfl, rfl⟩ := List.cons.inj heq
            exact ⟨hid, hdelivered⟩
          · intro r' rest' heq hactive
            obtain ⟨rfl, rfl⟩ := List.cons.inj heq
            obtain ⟨hplayed, hdone, hlive⟩ := h.live r rest rfl hactive
            refine ⟨?_, hdone, hlive⟩
            unfold Playback.acknowledge at hp
            rw [if_pos ⟨hactive, hsame.symm.trans hid.symm⟩] at hp
            dsimp only at hp
            split at hp
            · contradiction
            · next hle =>
                show p.playedSamples = max r.acknowledged (min n r.delivered)
                rw [← hdelivered]
                omega
      · refine ⟨h.played_le, h.unheard, nofun, ?_, ?_⟩
        · intro r' rest' heq
          obtain ⟨rfl, rfl⟩ := List.cons.inj heq
          exact ⟨hid, hdelivered⟩
        · intro r' rest' heq hactive
          obtain ⟨rfl, rfl⟩ := List.cons.inj heq
          exact h.live r rest rfl hactive

theorem acknowledge_some (h : Tracks p records) {responseId : Bytes} {n : Nat}
    (hp : p.acknowledge responseId n = some p') :
    Tracks p' (acknowledgeLatest responseId n records) := by
  unfold Playback.acknowledge at hp
  split at hp
  · next hcurrent =>
      obtain ⟨r, rest, rfl⟩ := h.exists_latest hcurrent.1
      obtain ⟨hid, hdelivered⟩ := h.current r rest rfl
      obtain ⟨hplayed, hdone, hlive⟩ := h.live r rest rfl hcurrent.1
      dsimp only at hp
      split at hp
      · next hlarger =>
          obtain rfl := Option.some.inj hp
          rw [acknowledgeLatest, if_pos (hid.symm.trans hcurrent.2.symm)]
          refine ⟨min_le_right _ _, ?_, nofun, ?_, ?_⟩
          · intro hactive hgenerated
            have hunheard : ¬ (p.responseGenerationDone = true ∧
                min n p.deliveredSamples = p.deliveredSamples) := of_decide_eq_true hactive
            have hne : min n p.deliveredSamples ≠ p.deliveredSamples :=
              fun heq => hunheard ⟨hgenerated, heq⟩
            show min n p.deliveredSamples < p.deliveredSamples
            omega
          · intro r' rest' heq
            obtain ⟨rfl, rfl⟩ := List.cons.inj heq
            exact ⟨hid, hdelivered⟩
          · intro r' rest' heq _
            obtain ⟨rfl, rfl⟩ := List.cons.inj heq
            refine ⟨?_, hdone, hlive⟩
            show min n p.deliveredSamples = max r.acknowledged (min n r.delivered)
            rw [← hdelivered, ← hplayed]
            omega
      · contradiction
  · contradiction

theorem start (responseId : Bytes) :
    Tracks (.start responseId) ({ id := responseId } :: records) where
  played_le := le_refl 0
  unheard := by
    intro _ hdone
    contradiction
  none_active := nofun
  current := by
    intro r rest heq
    obtain ⟨rfl, rfl⟩ := List.cons.inj heq
    exact ⟨rfl, rfl⟩
  live := by
    intro r rest heq _
    obtain ⟨rfl, rfl⟩ := List.cons.inj heq
    exact ⟨rfl, rfl, rfl⟩

theorem deliver (h : Tracks p records) {responseId : Bytes} (hadmits : p.Admits responseId)
    (audio : AudioFrame) :
    Tracks (p.deliver audio) (onLatest (·.admitOutput (p.output responseId audio)) records) := by
  obtain ⟨hactive, hgenerating, hsame⟩ := hadmits
  obtain ⟨r, rest, rfl⟩ := h.exists_latest hactive
  obtain ⟨hid, hdelivered⟩ := h.current r rest rfl
  refine ⟨?_, fun _ hdone => absurd hdone hgenerating, nofun, ?_, ?_⟩
  · exact le_trans h.played_le (Nat.le_add_right _ _)
  · intro r' rest' heq
    obtain ⟨rfl, rfl⟩ := List.cons.inj heq
    rw [ResponseRecord.delivered_admitOutput, ← hdelivered]
    exact ⟨hid, rfl⟩
  · intro r' rest' heq _
    obtain ⟨rfl, rfl⟩ := List.cons.inj heq
    exact h.live r rest rfl hactive

theorem complete_some (h : Tracks p records) {responseId : Bytes}
    (hp : p.complete responseId = some p') :
    Tracks p' (onLatest (·.complete responseId) records) := by
  unfold Playback.complete at hp
  split at hp
  · next hadmits =>
      obtain rfl := Option.some.inj hp
      obtain ⟨hactive, _, hsame⟩ := hadmits
      obtain ⟨r, rest, rfl⟩ := h.exists_latest hactive
      obtain ⟨hid, hdelivered⟩ := h.current r rest rfl
      obtain ⟨hplayed, _, hlive⟩ := h.live r rest rfl hactive
      have hrecord : r.complete responseId = { r with completed := true } :=
        if_pos (hid.symm.trans hsame.symm)
      rw [onLatest, hrecord]
      refine ⟨h.played_le, ?_, nofun, ?_, ?_⟩
      · intro hunheard _
        simpa using hunheard
      · intro r' rest' heq
        obtain ⟨rfl, rfl⟩ := List.cons.inj heq
        exact ⟨hid, hdelivered⟩
      · intro r' rest' heq _
        obtain ⟨rfl, rfl⟩ := List.cons.inj heq
        exact ⟨hplayed, rfl, hlive⟩
  · contradiction

theorem complete_none (h : Tracks p records) {responseId : Bytes}
    (hp : p.complete responseId = none) :
    Tracks p (onLatest (·.complete responseId) records) := by
  cases records with
  | nil => exact h
  | cons r rest =>
      obtain ⟨hid, hdelivered⟩ := h.current r rest rfl
      have hsame : (r.complete responseId).id = r.id ∧
          (r.complete responseId).delivered = r.delivered := by
        unfold ResponseRecord.complete
        split <;> exact ⟨rfl, rfl⟩
      refine ⟨h.played_le, h.unheard, nofun, ?_, ?_⟩
      · intro r' rest' heq
        obtain ⟨rfl, rfl⟩ := List.cons.inj heq
        rw [hsame.1, hsame.2]
        exact ⟨hid, hdelivered⟩
      · intro r' rest' heq hactive
        obtain ⟨rfl, rfl⟩ := List.cons.inj heq
        obtain ⟨hplayed, hdone, hlive⟩ := h.live r rest rfl hactive
        unfold ResponseRecord.complete
        dsimp only
        split
        · next hmatch =>
            have hdone' : p.responseGenerationDone = true := by
              by_contra hgenerating
              unfold Playback.complete at hp
              rw [if_pos ⟨hactive, hgenerating, hmatch.symm.trans hid.symm⟩] at hp
              contradiction
            exact ⟨hplayed, hdone', hlive⟩
        · exact ⟨hplayed, hdone, hlive⟩

theorem bargeIn (h : Tracks p records) (hactive : p.responseActive) :
    Tracks { p with responseActive := false } (onLatest (·.bargeIn) records) := by
  obtain ⟨r, rest, rfl⟩ := h.exists_latest hactive
  obtain ⟨hid, hdelivered⟩ := h.current r rest rfl
  refine ⟨h.played_le, nofun, nofun, ?_, nofun⟩
  intro r' rest' heq
  obtain ⟨rfl, rfl⟩ := List.cons.inj heq
  exact ⟨hid, hdelivered⟩

/-- The barge-in's response is not done and heard. -/
theorem not_heard (h : Tracks p records) {r : ResponseRecord} {rest : List ResponseRecord}
    (hrecords : records = r :: rest) (hactive : p.responseActive) :
    ¬ (r.completed ∧ r.acknowledged = r.delivered) := by
  rintro ⟨hcompleted, hheard⟩
  obtain ⟨_, hdelivered⟩ := h.current r rest hrecords
  obtain ⟨hplayed, hdone, _⟩ := h.live r rest hrecords hactive
  have hlt := h.unheard hactive (hdone.trans hcompleted)
  omega

end Tracks

/-! ## one task -/

section Task

variable {d : FullDuplexConversation} {records : List ResponseRecord} {accepted : Bool}

open FullDuplexConversation

/-- What one task does to the counters and the records. -/
theorem runTask_tracks (h : Tracks d.playback records) (task : DuplexTask) :
    Tracks (d.runTask accepted task).1.playback (noteTask d.playback records task) := by
  cases task with
  | call c =>
      cases c with
      | playbackStarted responseId =>
          rw [runTask, runCall]
          cases hp : d.playback.started responseId with
          | none => exact h
          | some p => exact h.started hp
      | acknowledgePlayback responseId n =>
          rw [runTask, runCall]
          cases hp : d.playback.acknowledge responseId n with
          | none => exact h.acknowledge_none hp
          | some p => exact h.acknowledge_some hp
      | close =>
          rw [runTask, runCall]
          split <;> exact h
      | inputSpeechStarted | inputSpeechEnded | onProviderEvent => exact h
  | startInput | endInput =>
      rw [runTask]
      split <;> exact h
  | startResponse responseId => exact .start responseId
  | admitAudio responseId audio =>
      rw [runTask, noteTask]
      split
      · next hadmits => exact h.deliver hadmits audio
      · exact h
  | completeResponse responseId =>
      rw [runTask, noteTask]
      cases hp : d.playback.complete responseId with
      | none => exact h.complete_none hp
      | some p => exact h.complete_some hp
  | bargeIn =>
      rw [runTask, noteTask]
      split
      · next hactive => exact h.bargeIn hactive
      · exact h
  | audioSink | cancelResponse | commitInput | transcriptSink | publish => exact h

/-- What one task does to the records. -/
theorem noteTask_sound (h : Tracks d.playback records)
    (hsound : ∀ r ∈ records, r.Sound) (task : DuplexTask) :
    ∀ r ∈ noteTask d.playback records task, r.Sound := by
  cases task with
  | call c =>
      cases c with
      | acknowledgePlayback responseId n =>
          exact forall_acknowledgeLatest responseId n (fun _ hr => hr.acknowledge n) hsound
      | inputSpeechStarted | inputSpeechEnded | playbackStarted | onProviderEvent | close =>
          exact hsound
  | startResponse responseId => exact List.forall_mem_cons.mpr ⟨.fresh responseId, hsound⟩
  | admitAudio responseId audio =>
      rw [noteTask]
      split
      · next hadmits =>
          obtain ⟨r, rest, rfl⟩ := h.exists_latest hadmits.1
          obtain ⟨hr, hrest⟩ := List.forall_mem_cons.mp hsound
          obtain ⟨hid, hdelivered⟩ := h.current r rest rfl
          obtain ⟨_, _, hlive⟩ := h.live r rest rfl hadmits.1
          have hout := hr.admitOutput (d.playback.output responseId audio)
            (hadmits.2.2.trans hid) hdelivered hlive
          exact List.forall_mem_cons.mpr ⟨hout, hrest⟩
      · exact hsound
  | completeResponse responseId =>
      cases records with
      | nil => exact hsound
      | cons r rest =>
          obtain ⟨hr, hrest⟩ := List.forall_mem_cons.mp hsound
          exact List.forall_mem_cons.mpr ⟨hr.complete responseId, hrest⟩
  | bargeIn =>
      rw [noteTask]
      split
      · next hactive =>
          obtain ⟨r, rest, rfl⟩ := h.exists_latest hactive
          obtain ⟨hr, hrest⟩ := List.forall_mem_cons.mp hsound
          exact List.forall_mem_cons.mpr ⟨hr.bargeIn (h.not_heard rfl hactive), hrest⟩
      · exact hsound
  | startInput | endInput | audioSink | cancelResponse | commitInput | transcriptSink | publish =>
      exact hsound

/-- What a task passes to the sink, at once or later, and what is admitted. -/
theorem runTask_sink (h : Tracks d.playback records) (accepted : Bool) (task : DuplexTask) :
    ((d.runTask accepted task).1.audio ++ (d.runTask accepted task).2.flatMap DuplexTask.outputs ++
      records.flatMap ResponseRecord.admitted).Perm
    (d.audio ++ task.outputs ++ (noteTask d.playback records task).flatMap ResponseRecord.admitted) := by
  cases task with
  | call c =>
      cases c with
      | playbackStarted responseId =>
          rw [runTask, runCall]
          cases d.playback.started responseId <;> exact .refl _
      | acknowledgePlayback responseId n =>
          rw [runTask, runCall, noteTask, flatMap_acknowledgeLatest fun _ _ => rfl]
          cases d.playback.acknowledge responseId n <;> exact .refl _
      | close =>
          rw [runTask, runCall]
          split <;> exact .refl _
      | inputSpeechStarted | inputSpeechEnded =>
          rw [runTask, runCall]
          split <;> exact .refl _
      | onProviderEvent e =>
          rw [runTask, runCall]
          split
          · exact .refl _
          · rw [FullDuplexConversation.onProviderEvent]
            cases e.type <;> exact .refl _
  | startInput | endInput =>
      rw [runTask]
      split <;> exact .refl _
  | startResponse responseId => exact .refl _
  | admitAudio responseId audio =>
      rw [runTask, noteTask]
      split
      · next hadmits =>
          obtain ⟨r, rest, rfl⟩ := h.exists_latest hadmits.1
          rw [onLatest, ← Multiset.coe_eq_coe]
          simp only [ResponseRecord.admitOutput, DuplexTask.outputs, List.flatMap_cons,
            List.flatMap_nil, List.append_nil, ← Multiset.coe_add]
          abel
      · exact .refl _
  | completeResponse responseId =>
      have hsame : (onLatest (·.complete responseId) records).flatMap ResponseRecord.admitted =
          records.flatMap ResponseRecord.admitted := by
        cases records with
        | nil => rfl
        | cons r rest =>
            rw [onLatest, List.flatMap_cons, List.flatMap_cons, ResponseRecord.complete]
            split <;> rfl
      rw [runTask, noteTask, hsame]
      cases d.playback.complete responseId <;> exact .refl _
  | bargeIn =>
      rw [runTask, noteTask]
      split
      · cases records <;> exact .refl _
      · exact .refl _
  | audioSink output =>
      rw [runTask]
      cases accepted <;> simp [DuplexTask.outputs, noteTask]
  | cancelResponse | commitInput | transcriptSink | publish => exact .refl _

/-- What a task sends to the provider, at once or later, and what is cancelled. -/
theorem runTask_cancels (h : Tracks d.playback records) (accepted : Bool) (task : DuplexTask) :
    ((d.runTask accepted task).1.cancels ++ (d.runTask accepted task).2.flatMap DuplexTask.requests ++
      records.flatMap (·.cancelRequests d.outputSampleRateHz)).Perm
    (d.cancels ++ task.requests ++
      (noteTask d.playback records task).flatMap (·.cancelRequests d.outputSampleRateHz)) := by
  cases task with
  | call c =>
      cases c with
      | playbackStarted responseId =>
          rw [runTask, runCall]
          cases d.playback.started responseId <;> exact .refl _
      | acknowledgePlayback responseId n =>
          rw [runTask, runCall, noteTask, flatMap_acknowledgeLatest fun _ _ => rfl]
          cases d.playback.acknowledge responseId n <;> exact .refl _
      | close =>
          rw [runTask, runCall]
          split <;> exact .refl _
      | inputSpeechStarted | inputSpeechEnded =>
          rw [runTask, runCall]
          split <;> exact .refl _
      | onProviderEvent e =>
          rw [runTask, runCall]
          split
          · exact .refl _
          · rw [FullDuplexConversation.onProviderEvent]
            cases e.type <;> exact .refl _
  | startInput | endInput =>
      rw [runTask]
      split <;> exact .refl _
  | startResponse responseId => exact .refl _
  | admitAudio responseId audio =>
      rw [runTask, noteTask]
      split
      · cases records <;> exact .refl _
      · exact .refl _
  | completeResponse responseId =>
      have hsame : (onLatest (·.complete responseId) records).flatMap
          (·.cancelRequests d.outputSampleRateHz) =
            records.flatMap (·.cancelRequests d.outputSampleRateHz) := by
        cases records with
        | nil => rfl
        | cons r rest =>
            rw [onLatest, List.flatMap_cons, List.flatMap_cons, ResponseRecord.complete]
            split <;> rfl
      rw [runTask, noteTask, hsame]
      cases d.playback.complete responseId <;> exact .refl _
  | bargeIn =>
      rw [runTask, noteTask]
      split
      · next hactive =>
          obtain ⟨r, rest, rfl⟩ := h.exists_latest hactive
          obtain ⟨hid, _⟩ := h.current r rest rfl
          obtain ⟨hplayed, _, hlive⟩ := h.live r rest rfl hactive
          rw [onLatest, ← Multiset.coe_eq_coe]
          simp only [DuplexTask.requests, ResponseRecord.cancelRequests, ResponseRecord.bargeIn,
            hlive, hid, hplayed, List.flatMap_cons, List.flatMap_nil, List.append_nil,
            List.nil_append, ← Multiset.coe_add]
          abel
      · exact .refl _
  | audioSink output =>
      rw [runTask]
      cases accepted <;> exact .refl _
  | cancelResponse request => simp [runTask, DuplexTask.requests, noteTask]
  | commitInput | transcriptSink | publish => exact .refl _

theorem runTask_constant (task : DuplexTask) :
    (d.runTask accepted task).1.outputSampleRateHz = d.outputSampleRateHz ∧
      (d.runTask accepted task).1.threads = d.threads := by
  cases task with
  | call c =>
      rw [runTask]
      unfold runCall
      split
      · exact ⟨rfl, rfl⟩
      · exact ⟨rfl, rfl⟩
      · split <;> exact ⟨rfl, rfl⟩
      · split <;> exact ⟨rfl, rfl⟩
      · exact ⟨rfl, rfl⟩
      · split <;> exact ⟨rfl, rfl⟩
  | startInput | endInput | admitAudio | completeResponse | bargeIn =>
      rw [runTask]
      split <;> exact ⟨rfl, rfl⟩
  | startResponse | audioSink | cancelResponse | commitInput | transcriptSink | publish =>
      exact ⟨rfl, rfl⟩

end Task

/-! ## runs -/

/-- The invariant. -/
structure NotesAgree (d : FullDuplexConversation) (records : List ResponseRecord) : Prop where
  tracks : Tracks d.playback records
  sound : ∀ r ∈ records, r.Sound
  sink : (d.audio ++ d.pendingAudio).Perm (records.flatMap ResponseRecord.admitted)
  cancels : (d.cancels ++ d.pendingCancels).Perm
    (records.flatMap (·.cancelRequests d.outputSampleRateHz))

namespace NotesAgree

variable {d d' : FullDuplexConversation} {records : List ResponseRecord}

open FullDuplexConversation

/-- A step is a call that comes in or a task of a thread. -/
theorem duplexStep_cases {a : DuplexAction} (h : d.duplexStep a = some d') :
    (∃ c, a = .call c ∧ d' = { d with threads := d.threads ++ [[.call c]] }) ∨
    ∃ thread accepted task rest, a = .run thread accepted ∧
      d.threads[thread]? = some (task :: rest) ∧ d.nextTask thread = some task ∧
      d' = { (d.runTask accepted task).1 with
        threads := d.threads.set thread ((d.runTask accepted task).2 ++ rest) } := by
  cases a with
  | call c => exact .inl ⟨c, rfl, (Option.some.inj h).symm⟩
  | run thread accepted =>
      simp only [duplexStep] at h
      split at h
      · next task rest hthread =>
          have hnext : d.nextTask thread = some task := by
            rw [nextTask, hthread]
            rfl
          exact .inr ⟨thread, accepted, task, rest, rfl, hthread, hnext, (Option.some.inj h).symm⟩
      · contradiction

theorem step (h : NotesAgree d records) {a : DuplexAction} (hs : d.duplexStep a = some d') :
    NotesAgree d' (d.note a records) := by
  obtain ⟨c, rfl, rfl⟩ | ⟨thread, accepted, task, rest, rfl, hthread, hnext, rfl⟩ :=
    duplexStep_cases hs
  · refine ⟨h.tracks, h.sound, ?_, ?_⟩
    · simpa [note, pendingAudio, DuplexTask.outputs] using h.sink
    · simpa [note, pendingCancels, DuplexTask.requests] using h.cancels
  · have hnote : d.note (.run thread accepted) records = noteTask d.playback records task := by
      rw [note, hnext]
    obtain ⟨hrate, _⟩ := runTask_constant (d := d) task
    have hsink := runTask_sink h.tracks accepted task
    have hcancels := runTask_cancels h.tracks accepted task
    have hpending := List.flatMap_set_perm DuplexTask.outputs hthread (d.runTask accepted task).2
    have hrequests := List.flatMap_set_perm DuplexTask.requests hthread (d.runTask accepted task).2
    rw [hnote]
    refine ⟨runTask_tracks h.tracks task, noteTask_sound h.tracks h.sound task,
      h.sink.exchange hpending hsink, ?_⟩
    dsimp only
    rw [hrate]
    exact h.cancels.exchange hrequests hcancels

/-- Every reachable state agrees with the notes. -/
theorem of_reachable {sessionId : Bytes} {rate : Int}
    (h : (notedDuplex sessionId rate).Reachable (d, records)) : NotesAgree d records := by
  refine Machine.Reachable.rec_inv (m := notedDuplex sessionId rate)
    (P := fun p => NotesAgree p.1 p.2) ?_ ?_ h
  · refine ⟨⟨le_refl 0, nofun, fun _ => rfl, nofun, nofun⟩, nofun, .refl _, .refl _⟩
  · rintro ⟨d, records⟩ a ⟨d', records'⟩ _ hagree hs
    obtain ⟨hstep, rfl⟩ := Machine.observed_step.mp hs
    exact hagree.step hstep

theorem accounted (h : NotesAgree d records) : Accounted d records where
  played_le_delivered := h.tracks.played_le
  contiguous := fun r hr => (h.sound r hr).contiguous
  sink := h.sink
  cancelled_once := h.cancels
  no_late_audio := fun r hr => (h.sound r hr).no_late_audio
  heard_inactive := by
    intro r rest hrecords hcompleted hheard
    by_contra hactive
    exact h.tracks.not_heard hrecords (eq_true_of_ne_false hactive) ⟨hcompleted, hheard⟩
  heard_not_cancelled := fun r hr => (h.sound r hr).heard_not_cancelled

/-- Only a `ResponseStarted` takes acknowledged samples back. -/
theorem played_mono {a : DuplexAction} (hs : d.duplexStep a = some d')
    (hstart : ∀ thread accepted responseId, a = .run thread accepted →
      d.nextTask thread ≠ some (.startResponse responseId)) :
    d.playback.playedSamples ≤ d'.playback.playedSamples := by
  obtain ⟨c, rfl, rfl⟩ | ⟨thread, accepted, task, rest, rfl, hthread, hnext, rfl⟩ :=
    duplexStep_cases hs
  · exact le_refl _
  · show d.playback.playedSamples ≤ (d.runTask accepted task).1.playback.playedSamples
    cases task with
    | call c =>
        cases c with
        | playbackStarted responseId =>
            rw [runTask, runCall, Playback.started]
            split
            · next hsome =>
                split at hsome
                · rw [← Option.some.inj hsome]
                · contradiction
            · exact le_refl _
        | acknowledgePlayback responseId n =>
            rw [runTask, runCall, Playback.acknowledge]
            split
            · next p hsome =>
                split at hsome
                · dsimp only at hsome
                  split at hsome
                  · next hlarger =>
                      rw [← Option.some.inj hsome]
                      exact le_of_lt hlarger
                  · contradiction
                · contradiction
            · exact le_refl _
        | close =>
            rw [runTask, runCall]
            split <;> exact le_refl _
        | inputSpeechStarted | inputSpeechEnded | onProviderEvent => exact le_refl _
    | startResponse responseId => exact absurd hnext (hstart thread accepted responseId rfl)
    | completeResponse responseId =>
        rw [runTask, Playback.complete]
        split
        · next p hsome =>
            split at hsome
            · rw [← Option.some.inj hsome]
            · contradiction
        · exact le_refl _
    | startInput | endInput | admitAudio | bargeIn =>
        rw [runTask]
        split <;> exact le_refl _
    | audioSink | cancelResponse | commitInput | transcriptSink | publish => exact le_refl _

end NotesAgree

/-- **Playback accounting**: in every reachable state of every interleaving the
counters, the sink and the provider agree with the notes on the responses, and
the acknowledged samples of a response never decrease. -/
theorem playback_accounted (sessionId : Bytes) (rate : Int) (d : FullDuplexConversation)
    (records : List ResponseRecord) (h : (notedDuplex sessionId rate).Reachable (d, records)) :
    FullDuplexConversation.Accounted d records ∧
      ∀ a d', d.duplexStep a = some d' →
        (∀ thread accepted responseId, a = .run thread accepted →
          d.nextTask thread ≠ some (.startResponse responseId)) →
        d.playback.playedSamples ≤ d'.playback.playedSamples :=
  ⟨(NotesAgree.of_reachable h).accounted, fun _ _ => NotesAgree.played_mono⟩

/-- A provider's event, with the steps of its thread. -/
def provided (thread steps : Nat) (event : RealtimeEvent) : List DuplexAction :=
  .call (.onProviderEvent event) :: List.replicate steps (.run thread true)

/-- Four samples of a response. -/
def fourSamples (responseId : Bytes) : RealtimeEvent where
  type := .audioDelta
  responseId := responseId
  audio := { samples := [1, 2, 3, 4] }

/-- A response of four samples, three of them heard when the user speaks. -/
def heardThenInterrupted : List DuplexAction :=
  provided 0 2 { type := .responseStarted, responseId := lit "r" } ++
    provided 1 3 (fourSamples (lit "r")) ++
    [.call (.acknowledgePlayback (lit "r") 3), .run 2 true, .call .inputSpeechStarted] ++
    List.replicate 6 (.run 3 true)

theorem playback_accounted_interrupted :
    ∃ d records, (notedDuplex (lit "native") 24000).Reachable (d, records) ∧
      d.cancels = [⟨lit "r", 3, 24000⟩] ∧ FullDuplexConversation.Accounted d records := by
  have hrun : ((notedDuplex (lit "native") 24000).run (notedDuplex (lit "native") 24000).init
      heardThenInterrupted).map (fun p => p.1.cancels) = some [⟨lit "r", 3, 24000⟩] := by
    decide +kernel
  obtain ⟨⟨d, records⟩, hrun, hcancels⟩ := Option.map_eq_some_iff.mp hrun
  have hreachable := Machine.Reachable.of_run hrun
  exact ⟨d, records, hreachable, hcancels, (playback_accounted _ _ d records hreachable).1⟩

end ByteTurn

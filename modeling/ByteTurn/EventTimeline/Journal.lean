import ByteTurn.EventTimeline
import ByteTurn.Lib.Lists

/-!
# ByteTurn.EventTimeline.Journal

What the two bounded queues of a timeline hold in every reachable state.

The journal is the reference: its sequences are `1, 2, …`, the retained events
are its tail, and the notification lane is a sublist of it.  `Delivery` says where
each enqueued notification is — handed over, held by the dispatcher, or still
pending — and the counters are read off those lists.

Everything follows from one classification of `admitEvent` (`admitEvent_cases`) and one
of the dispatcher's steps.
-/

namespace ByteTurn

open TimelineState

/-! ## what an append can do -/

/-- An accepted event carries the next sequence, fits, and was normalized. -/
structure Admitted (config : TimelineConfig) (s : TimelineState) (e : Event) : Prop where
  open_ : s.closed = false
  sequence : e.sequence = s.counters.accepted + 1
  bytes : e.stringBytes ≤ config.maxEventBytes

/-- An append either counts a rejection or records the admitted event and then
queues its notification or counts it as dropped. -/
theorem admitEvent_cases (config : TimelineConfig) (s : TimelineState) (event : Event) (now : Int)
    (allocationFails : Bool) :
    (admitEvent config s event now allocationFails).1 = s.reject ∨
    ∃ e, Admitted config s e ∧
      (((s.record config e).pending.length < config.maxPendingNotifications ∧
          (admitEvent config s event now allocationFails).1 = (s.record config e).enqueue e) ∨
        ∃ failed, (admitEvent config s event now allocationFails).1 =
          (s.record config e).drop e failed) := by
  unfold admitEvent
  cases hc : s.closed with
  | true => exact .inl rfl
  | false =>
      simp only [Bool.false_eq_true, if_false]
      cases hn : normalize config event with
      | error status => exact .inl rfl
      | ok event =>
          by_cases hf : fits event config.maxEventBytes = true
          · simp only [hf, if_true]
            refine .inr ⟨stamp event now (s.counters.accepted + 1), ⟨hc, rfl, ?_⟩, ?_⟩
            · exact (fits_iff event _).mp hf
            · by_cases hp : (s.record config (stamp event now (s.counters.accepted + 1))).pending.length
                  < config.maxPendingNotifications
              · cases allocationFails with
                | true => exact .inr ⟨true, by simp [hp]⟩
                | false => exact .inl ⟨hp, by simp [hp]⟩
              · exact .inr ⟨false, by simp [hp]⟩
          · simp only [hf]
            exact .inl rfl

/-! ## where the notifications are -/

/-- The event the dispatcher took and has not handed over yet. -/
def Dispatcher.held : Dispatcher → List Event
  | .holding e => [e]
  | _ => []

/-- One while `bus->deliver` runs or its outcome is not recorded yet. -/
def Dispatcher.inCall : Dispatcher → Nat
  | .delivering _ | .recording _ => 1
  | _ => 0

/-- Notifications taken by the dispatcher and not completed. -/
def Dispatcher.inFlight (d : Dispatcher) : Nat := d.held.length + d.inCall

/-- The notification lane is a queue: what was enqueued is handed over, held or
pending, in that order, and `completed` counts the calls that returned. -/
structure Delivery (s : TimelineState) : Prop where
  queue : s.handed ++ s.dispatcher.held ++ s.pending = s.notified
  enqueued : s.enqueued = s.notified.length
  completed : s.completed + s.dispatcher.inCall = s.handed.length
  exited : s.dispatcher = .exited → s.closed = true ∧ s.pending = []

/-- The accepted events whose notification was not enqueued, oldest first. -/
def TimelineState.droppedEvents (s : TimelineState) : List Event :=
  s.journal.filter (· ∉ s.notified)

/-- The retained events, the counters and the lane against the journal. -/
structure Journal (config : TimelineConfig) (s : TimelineState) : Prop where
  sequence : s.journal.map Event.sequence = List.range' 1 s.counters.accepted
  events : s.events = s.journal.rtake config.maxEvents
  evicted : s.counters.evicted + s.events.length = s.counters.accepted
  pending : s.pending.length ≤ config.maxPendingNotifications
  bytes : ∀ e ∈ s.journal, e.stringBytes ≤ config.maxEventBytes
  notified : s.notified.Sublist s.journal
  dropped : s.counters.droppedNotifications = s.droppedEvents.length
  first : s.counters.firstDroppedSequence = (s.droppedEvents.head?.map Event.sequence).getD 0
  last : s.counters.lastDroppedSequence = (s.droppedEvents.getLast?.map Event.sequence).getD 0

namespace Journal

variable {config : TimelineConfig} {s : TimelineState} {e : Event}

theorem length (h : Journal config s) : s.journal.length = s.counters.accepted := by
  simpa using congrArg List.length h.sequence

theorem nodup_sequence (h : Journal config s) : (s.journal.map Event.sequence).Nodup := by
  rw [h.sequence]; exact List.nodup_range'

theorem nodup (h : Journal config s) : s.journal.Nodup :=
  List.Nodup.of_map Event.sequence h.nodup_sequence

/-- Every journal sequence is positive and at most `accepted`. -/
theorem sequence_mem (h : Journal config s) (he : e ∈ s.journal) :
    1 ≤ e.sequence ∧ e.sequence ≤ s.counters.accepted := by
  have hm : e.sequence ∈ s.journal.map Event.sequence := List.mem_map_of_mem he
  rw [h.sequence, List.mem_range'] at hm
  omega

/-- A newly admitted event is not in the journal yet. -/
theorem fresh (h : Journal config s) (he : Admitted config s e) : e ∉ s.journal := by
  intro hm
  have := (h.sequence_mem hm).2
  have := he.sequence
  omega

end Journal

/-! ## the two halves of an accepted append -/

section Append

variable {config : TimelineConfig} {s : TimelineState} {e : Event}

/-- Dropping the notification of an admitted event adds it to the dropped ones. -/
theorem droppedEvents_drop (h : Journal config s) (he : Admitted config s e) (failed : Bool) :
    ((s.record config e).drop e failed).droppedEvents = s.droppedEvents ++ [e] :=
  List.filter_notMem_concat_left fun hm => h.fresh he (h.notified.subset hm)

/-- Queueing it does not. -/
theorem droppedEvents_enqueue (h : Journal config s) (he : Admitted config s e) :
    ((s.record config e).enqueue e).droppedEvents = s.droppedEvents :=
  List.filter_notMem_concat_both (h.fresh he)

/-- The journal half of an accepted append: sequence, window and eviction count. -/
theorem record_window (h : Journal config s) (he : Admitted config s e) :
    ((s.record config e).journal.map Event.sequence =
        List.range' 1 (s.record config e).counters.accepted) ∧
      (s.record config e).events = (s.record config e).journal.rtake config.maxEvents ∧
      (s.record config e).counters.evicted + (s.record config e).events.length =
        (s.record config e).counters.accepted := by
  refine ⟨?_, ?_, ?_⟩
  · simp only [record, List.map_append, h.sequence, List.map_singleton, he.sequence]
    rw [List.range'_concat, Nat.one_mul, Nat.add_comm 1]
  · simp only [record, List.rtake_concat, ← h.events]
  · have hev := h.evicted
    simp only [record]
    split
    · rw [List.length_tail, List.length_append, List.length_singleton]; omega
    · rw [List.length_append, List.length_singleton]; omega

theorem record_bytes (h : Journal config s) (he : Admitted config s e) :
    ∀ e' ∈ (s.record config e).journal, e'.stringBytes ≤ config.maxEventBytes := by
  intro e' hm
  rcases List.mem_append.mp hm with hm | hm
  · exact h.bytes e' hm
  · rw [List.mem_singleton.mp hm]; exact he.bytes

/-- Every dropped event was accepted, so its sequence is not zero. -/
theorem Journal.firstDropped_eq_zero (h : Journal config s) :
    s.counters.firstDroppedSequence = 0 ↔ s.droppedEvents = [] := by
  rw [h.first]
  cases hd : s.droppedEvents with
  | nil => simp
  | cons d ds =>
      have hmem : d ∈ s.journal := (List.mem_filter.mp (hd ▸ List.mem_cons_self : d ∈ s.droppedEvents)).1
      have := (h.sequence_mem hmem).1
      simp; omega

theorem Journal.enqueue (h : Journal config s) (he : Admitted config s e)
    (hroom : (s.record config e).pending.length < config.maxPendingNotifications) :
    Journal config ((s.record config e).enqueue e) := by
  obtain ⟨hseq, hevents, hevicted⟩ := record_window h he
  have hdrop := droppedEvents_enqueue h he
  refine ⟨hseq, hevents, hevicted, ?_, record_bytes h he, ?_, ?_, ?_, ?_⟩
  · change (s.pending ++ [e]).length ≤ _
    rw [List.length_append, List.length_singleton]
    exact hroom
  · exact h.notified.append (List.Sublist.refl [e])
  · rw [hdrop]; exact h.dropped
  · rw [hdrop]; exact h.first
  · rw [hdrop]; exact h.last

theorem Journal.drop (h : Journal config s) (he : Admitted config s e) (failed : Bool) :
    Journal config ((s.record config e).drop e failed) := by
  obtain ⟨hseq, hevents, hevicted⟩ := record_window h he
  have hdrop := droppedEvents_drop h he failed
  refine ⟨hseq, hevents, hevicted, h.pending, record_bytes h he, ?_, ?_, ?_, ?_⟩
  · exact h.notified.trans (List.sublist_append_left s.journal [e])
  · rw [hdrop, List.length_append, List.length_singleton, ← h.dropped]; rfl
  · rw [hdrop]
    change (if s.counters.firstDroppedSequence = 0 then e.sequence
      else s.counters.firstDroppedSequence) = _
    -- the first drop sets the lower end, every later one keeps it
    by_cases hz : s.counters.firstDroppedSequence = 0
    · rw [if_pos hz, h.firstDropped_eq_zero.mp hz]; rfl
    · rw [if_neg hz, h.first]
      cases hd : s.droppedEvents with
      | nil => exact absurd (h.firstDropped_eq_zero.mpr hd) hz
      | cons d ds => rfl
  · rw [hdrop, List.getLast?_concat]; rfl

end Append

/-! ## every step keeps the journal and the lane -/

theorem Journal.init (config : TimelineConfig) : Journal config (timeline config).init := by
  constructor <;> simp [timeline, TimelineState.droppedEvents]

theorem Delivery.init (config : TimelineConfig) : Delivery (timeline config).init := by
  constructor <;> simp [timeline, Dispatcher.held, Dispatcher.inCall]

section Step

variable {config : TimelineConfig} {s t : TimelineState} {a : TimelineAction}

theorem Journal.append (h : Journal config s) (event : Event) (now : Int) (allocationFails : Bool) :
    Journal config (admitEvent config s event now allocationFails).1 := by
  rcases admitEvent_cases config s event now allocationFails with hr | ⟨e, he, ⟨hroom, hr⟩ | ⟨failed, hr⟩⟩
  · rw [hr]
    exact ⟨h.sequence, h.events, h.evicted, h.pending, h.bytes, h.notified, h.dropped, h.first, h.last⟩
  · rw [hr]; exact h.enqueue he hroom
  · rw [hr]; exact h.drop he failed

/-- Rejecting, recording and dropping leave the lane alone; queueing appends to it. -/
theorem Delivery.append (h : Delivery s) (event : Event) (now : Int) (allocationFails : Bool) :
    Delivery (admitEvent config s event now allocationFails).1 := by
  rcases admitEvent_cases config s event now allocationFails with hr | ⟨e, he, ⟨_, hr⟩ | ⟨failed, hr⟩⟩
  · rw [hr]; exact ⟨h.queue, h.enqueued, h.completed, h.exited⟩
  · rw [hr]
    refine ⟨?_, ?_, h.completed, ?_⟩
    · change s.handed ++ s.dispatcher.held ++ (s.pending ++ [e]) = s.notified ++ [e]
      rw [← List.append_assoc, h.queue]
    · change s.enqueued + 1 = (s.notified ++ [e]).length
      rw [List.length_append, h.enqueued]; rfl
    · intro hx
      -- nothing is admitted once the dispatcher is gone
      have hclosed := (h.exited hx).1
      rw [he.open_] at hclosed; contradiction
  · rw [hr]; exact ⟨h.queue, h.enqueued, h.completed, h.exited⟩

theorem Journal.step (h : Journal config s) (hs : timelineStep config s a = some t) :
    Journal config t := by
  cases a with
  | append event now allocationFails =>
      obtain rfl := Option.some.inj hs
      exact h.append event now allocationFails
  | close =>
      obtain rfl := Option.some.inj hs
      exact ⟨h.sequence, h.events, h.evicted, h.pending, h.bytes, h.notified, h.dropped, h.first, h.last⟩
  | take =>
      have hp := h.pending
      simp only [timelineStep] at hs
      split at hs <;> try contradiction
      split at hs
      · split at hs <;> try contradiction
        obtain rfl := Option.some.inj hs
        exact ⟨h.sequence, h.events, h.evicted, hp, h.bytes, h.notified, h.dropped, h.first, h.last⟩
      · next e pending hq =>
        obtain rfl := Option.some.inj hs
        rw [hq, List.length_cons] at hp
        exact ⟨h.sequence, h.events, h.evicted, by dsimp only; omega, h.bytes, h.notified,
          h.dropped, h.first, h.last⟩
  | deliver | delivered failures | complete =>
      all_goals
        simp only [timelineStep] at hs
        split at hs <;> try contradiction
        obtain rfl := Option.some.inj hs
        exact ⟨h.sequence, h.events, h.evicted, h.pending, h.bytes, h.notified, h.dropped, h.first,
          h.last⟩

theorem Delivery.step (h : Delivery s) (hs : timelineStep config s a = some t) : Delivery t := by
  have hq := h.queue
  have hc := h.completed
  cases a with
  | append event now allocationFails =>
      obtain rfl := Option.some.inj hs
      exact h.append event now allocationFails
  | close =>
      obtain rfl := Option.some.inj hs
      exact ⟨hq, h.enqueued, hc, fun hx => ⟨rfl, (h.exited hx).2⟩⟩
  | take =>
      simp only [timelineStep] at hs
      split at hs <;> try contradiction
      next hd =>
      simp only [hd, Dispatcher.held, Dispatcher.inCall] at hq hc
      split at hs
      · next hp =>
        split at hs <;> try contradiction
        next hclosed =>
        obtain rfl := Option.some.inj hs
        exact ⟨hq, h.enqueued, hc, fun _ => ⟨hclosed, hp⟩⟩
      · next e pending hp =>
        obtain rfl := Option.some.inj hs
        rw [hp] at hq
        exact ⟨by simpa [Dispatcher.held] using hq, h.enqueued, hc, by simp⟩
  | deliver =>
      simp only [timelineStep] at hs
      split at hs <;> try contradiction
      next e hd =>
      simp only [hd, Dispatcher.held, Dispatcher.inCall] at hq hc
      obtain rfl := Option.some.inj hs
      refine ⟨by simpa [Dispatcher.held] using hq, h.enqueued, ?_, by simp⟩
      simp only [Dispatcher.inCall, List.length_append, List.length_singleton]; omega
  | delivered failures =>
      simp only [timelineStep] at hs
      split at hs <;> try contradiction
      next e hd =>
      simp only [hd, Dispatcher.held, Dispatcher.inCall] at hq hc
      obtain rfl := Option.some.inj hs
      exact ⟨hq, h.enqueued, hc, by simp⟩
  | complete =>
      simp only [timelineStep] at hs
      split at hs <;> try contradiction
      next failures hd =>
      simp only [hd, Dispatcher.held, Dispatcher.inCall] at hq hc
      obtain rfl := Option.some.inj hs
      exact ⟨hq, h.enqueued, by simp only [Dispatcher.inCall]; omega, by simp⟩

theorem journal_of_reachable (h : (timeline config).Reachable s) : Journal config s :=
  Machine.Reachable.rec_inv (Journal.init config) (fun _ _ _ _ hp hs => hp.step hs) h

theorem delivery_of_reachable (h : (timeline config).Reachable s) : Delivery s :=
  Machine.Reachable.rec_inv (Delivery.init config) (fun _ _ _ _ hp hs => hp.step hs) h

/-! ## what a run can no longer undo -/

/-- Enqueued notifications stay enqueued, in the same places of the queue. -/
theorem notified_extends_step (hs : timelineStep config s a = some t) :
    s.notified <+: t.notified := by
  cases a with
  | append event now allocationFails =>
      obtain rfl := Option.some.inj hs
      rcases admitEvent_cases config s event now allocationFails with hr | ⟨e, he, ⟨_, hr⟩ | ⟨failed, hr⟩⟩
      · rw [hr]; exact List.prefix_refl s.notified
      · rw [hr]; exact List.prefix_append s.notified [e]
      · rw [hr]; exact List.prefix_refl s.notified
  | close =>
      obtain rfl := Option.some.inj hs
      exact List.prefix_refl s.notified
  | take =>
      simp only [timelineStep] at hs
      split at hs <;> try contradiction
      split at hs
      · split at hs <;> try contradiction
        obtain rfl := Option.some.inj hs
        exact List.prefix_refl s.notified
      · obtain rfl := Option.some.inj hs
        exact List.prefix_refl s.notified
  | deliver | delivered failures | complete =>
      all_goals
        simp only [timelineStep] at hs
        split at hs <;> try contradiction
        obtain rfl := Option.some.inj hs
        exact List.prefix_refl s.notified

theorem notified_extends (hr : (timeline config).Reachable s) (h : (timeline config).Leads s t) :
    s.notified <+: t.notified :=
  Machine.Leads.rec_rel (R := fun s t : TimelineState => s.notified <+: t.notified)
    (fun s => List.prefix_refl s.notified) (fun _ _ _ h₁ h₂ => h₁.trans h₂)
    (fun _ _ _ _ hs => notified_extends_step hs) hr h

/-- A closed timeline stays closed and admits nothing. -/
theorem closed_step (hc : s.closed = true) (hs : timelineStep config s a = some t) :
    t.closed = true ∧ t.journal = s.journal ∧ t.notified = s.notified := by
  cases a with
  | append event now allocationFails =>
      obtain rfl := Option.some.inj hs
      rcases admitEvent_cases config s event now allocationFails with hr | ⟨e, he, _⟩
      · rw [hr]; exact ⟨hc, rfl, rfl⟩
      · rw [he.open_] at hc; contradiction
  | close =>
      obtain rfl := Option.some.inj hs
      exact ⟨rfl, rfl, rfl⟩
  | take =>
      simp only [timelineStep] at hs
      split at hs <;> try contradiction
      split at hs
      · split at hs <;> try contradiction
        obtain rfl := Option.some.inj hs
        exact ⟨hc, rfl, rfl⟩
      · obtain rfl := Option.some.inj hs
        exact ⟨hc, rfl, rfl⟩
  | deliver | delivered failures | complete =>
      all_goals
        simp only [timelineStep] at hs
        split at hs <;> try contradiction
        obtain rfl := Option.some.inj hs
        exact ⟨hc, rfl, rfl⟩

theorem closed_leads (hr : (timeline config).Reachable s) (hc : s.closed = true)
    (h : (timeline config).Leads s t) :
    t.closed = true ∧ t.journal = s.journal ∧ t.notified = s.notified := by
  refine Machine.Leads.rec_stable
    (P := fun r => r.closed = true ∧ r.journal = s.journal ∧ r.notified = s.notified)
    ?_ hr ⟨hc, rfl, rfl⟩ h
  intro r a r' _ hp hs
  obtain ⟨hclosed, hjournal, hnotified⟩ := closed_step hp.1 hs
  exact ⟨hclosed, hjournal.trans hp.2.1, hnotified.trans hp.2.2⟩

end Step

/-! ## journal and delivery -/

/-- The notifications whose `bus->deliver` call has been recorded as over. -/
def TimelineState.delivered (s : TimelineState) : List Event := s.handed.take s.completed

/-- The mutual consistency of the journal, the two queues, the delivery lane
and the counters. -/
structure TimelineAccounting (config : TimelineConfig) (s : TimelineState) : Prop where
  /-- Accepted events carry `1, 2, …, accepted`. -/
  sequences : s.journal.map Event.sequence = List.range' 1 s.counters.accepted
  /-- `snapshot()` is the tail of the accepted events, as long as the bound allows. -/
  snapshot : s.snapshot = s.journal.drop (s.counters.accepted - s.retained)
  retained : s.retained = min s.counters.accepted config.maxEvents
  evicted : s.counters.evicted = s.counters.accepted - s.retained
  pending : s.pending.length ≤ config.maxPendingNotifications
  bytes : ∀ e ∈ s.events, e.stringBytes ≤ config.maxEventBytes
  /-- Subscribers see unmodified journal entries, in order … -/
  handed : s.handed.Sublist s.journal
  /-- … and each at most once. -/
  increasing : (s.handed.map Event.sequence).Pairwise (· < ·)
  accounted : s.completed + s.dispatcher.inFlight + s.pending.length +
    s.counters.droppedNotifications = s.counters.accepted
  dropped : s.counters.droppedNotifications = s.droppedEvents.length
  noneDropped : s.droppedEvents = [] →
    s.counters.firstDroppedSequence = 0 ∧ s.counters.lastDroppedSequence = 0
  someDropped : s.droppedEvents ≠ [] →
    (∃ e ∈ s.droppedEvents, e.sequence = s.counters.firstDroppedSequence) ∧
    (∃ e ∈ s.droppedEvents, e.sequence = s.counters.lastDroppedSequence)
  dropSpan : ∀ e ∈ s.droppedEvents, s.counters.firstDroppedSequence ≤ e.sequence ∧
    e.sequence ≤ s.counters.lastDroppedSequence
  /-- The dispatcher leaves with nothing undelivered. -/
  drained : s.dispatcher = .exited → s.closed = true ∧ s.delivered = s.notified

section Accounting

variable {config : TimelineConfig} {s t : TimelineState}

theorem Journal.increasing (h : Journal config s) :
    (s.journal.map Event.sequence).Pairwise (· < ·) := by
  rw [h.sequence]; exact List.pairwise_lt_range'

theorem Journal.droppedEvents_increasing (h : Journal config s) :
    (s.droppedEvents.map Event.sequence).Pairwise (· < ·) :=
  h.increasing.sublist (List.filter_sublist.map Event.sequence)

/-- The recorded span runs from the first to the last dropped event. -/
theorem Journal.drop_span (h : Journal config s) {e : Event} (he : e ∈ s.droppedEvents) :
    s.counters.firstDroppedSequence ≤ e.sequence ∧
      e.sequence ≤ s.counters.lastDroppedSequence := by
  have hinc := h.droppedEvents_increasing
  rw [h.first, h.last]
  constructor
  · cases hd : s.droppedEvents with
    | nil => rw [hd] at he; contradiction
    | cons d ds =>
        rw [hd] at he hinc
        rcases List.mem_cons.mp he with rfl | hm
        · exact Nat.le_refl _
        · exact Nat.le_of_lt ((List.pairwise_cons.mp hinc).1 _ (List.mem_map_of_mem hm))
  · rcases List.eq_nil_or_concat s.droppedEvents with hd | ⟨ds, d, hd⟩
    · rw [hd] at he; contradiction
    · rw [List.concat_eq_append] at hd
      rw [hd] at he hinc ⊢
      rw [List.getLast?_concat]
      rcases List.mem_append.mp he with hm | hm
      · rw [List.map_append, List.pairwise_append] at hinc
        exact Nat.le_of_lt (hinc.2.2 _ (List.mem_map_of_mem hm) d.sequence (by simp))
      · rw [List.mem_singleton.mp hm]; exact Nat.le_refl _

theorem Journal.drop_ends (h : Journal config s) (hd : s.droppedEvents ≠ []) :
    (∃ e ∈ s.droppedEvents, e.sequence = s.counters.firstDroppedSequence) ∧
      (∃ e ∈ s.droppedEvents, e.sequence = s.counters.lastDroppedSequence) := by
  rw [h.first, h.last, List.head?_eq_some_head hd, List.getLast?_eq_some_getLast hd]
  exact ⟨⟨_, List.head_mem hd, rfl⟩, ⟨_, List.getLast_mem hd, rfl⟩⟩

/-- Every accepted event was notified or dropped. -/
theorem notified_add_dropped (h : Journal config s) :
    s.notified.length + s.droppedEvents.length = s.counters.accepted := by
  rw [← h.length]
  exact List.length_filter_notMem h.nodup h.notified

theorem Delivery.handed_extends (h : Delivery s) : s.handed <+: s.notified := by
  rw [← h.queue, List.append_assoc]; exact List.prefix_append s.handed _

theorem timelineAccounting (hj : Journal config s) (hl : Delivery s) : TimelineAccounting config s := by
  have hlen := hj.length
  have hretained : s.retained = min s.counters.accepted config.maxEvents := by
    rw [TimelineState.retained, hj.events, List.length_rtake, hlen]
  have hevicted := hj.evicted
  have hhanded := hl.handed_extends.sublist.trans hj.notified
  have hqueue := congrArg List.length hl.queue
  have hcompleted := hl.completed
  have hsplit := notified_add_dropped hj
  rw [List.length_append, List.length_append] at hqueue
  refine ⟨hj.sequence, ?_, hretained, ?_, hj.pending, ?_, hhanded, ?_, ?_, hj.dropped, ?_,
    hj.drop_ends, fun e he => hj.drop_span he, ?_⟩
  · rw [TimelineState.snapshot, hj.events, List.rtake, hretained, hlen]
    congr 1; omega
  · rw [TimelineState.retained]; omega
  · intro e he
    rw [hj.events] at he
    exact hj.bytes e ((List.rtake_sublist _ _).subset he)
  · exact hj.increasing.sublist (hhanded.map Event.sequence)
  · rw [hj.dropped, Dispatcher.inFlight]; omega
  · intro hd
    simp [hj.first, hj.last, hd]
  · intro hx
    obtain ⟨hclosed, hpending⟩ := hl.exited hx
    have hq := hl.queue
    rw [hx, hpending] at hq
    simp only [Dispatcher.held, List.append_nil] at hq
    rw [hx] at hcompleted
    simp only [Dispatcher.inCall] at hcompleted
    refine ⟨hclosed, ?_⟩
    rw [TimelineState.delivered, ← hq]
    exact List.take_of_length_le (by omega)

/-- A flush that waited for `target` completions saw the first `target`
notifications delivered: the lane is first in, first out. -/
theorem delivered_of_flushed (hr : (timeline config).Reachable s) (h : (timeline config).Leads s t)
    (reentrant : Bool) (hf : t.flushResult reentrant s.flushTarget = true) :
    s.notified <+: t.delivered := by
  have hs := delivery_of_reachable hr
  have ht := delivery_of_reachable (hr.leads h)
  have htarget : s.notified.length ≤ t.completed := by
    cases reentrant with
    | true => contradiction
    | false =>
        rw [← hs.enqueued]
        exact of_decide_eq_true hf
  have hhanded : t.completed ≤ t.handed.length := by
    have := ht.completed; omega
  rw [TimelineState.delivered, List.prefix_take_iff]
  refine ⟨List.prefix_of_prefix_length_le (notified_extends hr h) ht.handed_extends ?_, htarget⟩
  omega

/-- **Journal and delivery**: for every configuration the constructor accepts
and every interleaving of appends, closes and dispatcher steps, the journal,
both queues and the counters agree; a closed timeline admits nothing more; and
a `flush` that returns true has seen every notification enqueued before it
delivered. -/
theorem timeline_journal_and_delivery (config : TimelineConfig) (s : TimelineState)
    (h : (timeline config).Reachable s) :
    TimelineAccounting config s ∧
      ∀ t, (timeline config).Leads s t →
        (s.closed = true → t.closed = true ∧ t.journal = s.journal) ∧
        ∀ reentrant, t.flushResult reentrant s.flushTarget = true → s.notified <+: t.delivered :=
  ⟨timelineAccounting (journal_of_reachable h) (delivery_of_reachable h),
    fun _ hl => ⟨fun hc => ⟨(closed_leads h hc hl).1, (closed_leads h hc hl).2.1⟩,
      fun reentrant hf => delivered_of_flushed h hl reentrant hf⟩⟩

end Accounting

/-- A timeline of one retained event and one pending notification. -/
def tightTimeline : TimelineConfig where
  maxEvents := 1
  maxPendingNotifications := 1
  maxEvents_pos := Nat.one_pos
  maxPendingNotifications_pos := Nat.one_pos
  maxEventBytes_pos := maxEventBytes_default_pos
  generation_pos := Nat.one_pos

/-- Three events into a timeline with room for one: two are evicted and the
notification of the second is dropped. -/
def overloadRun : List TimelineAction :=
  [.append { type := .error, data := lit "a" } 1 false,
   .append { type := .error, data := lit "b" } 2 false, .take, .deliver,
   .append { type := .error, data := lit "c" } 3 false, .close, .delivered 1, .complete]

theorem overloadRun_accounting :
    ∃ s, (timeline tightTimeline).run (timeline tightTimeline).init overloadRun = some s ∧
      s.counters.evicted = 2 ∧ s.counters.firstDroppedSequence = 2 ∧
      TimelineAccounting tightTimeline s :=
  ⟨_, rfl, by decide, by decide, (timeline_journal_and_delivery tightTimeline _ ⟨overloadRun, rfl⟩).1⟩

end ByteTurn

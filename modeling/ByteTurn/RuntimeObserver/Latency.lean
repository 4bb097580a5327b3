import ByteTurn.RuntimeObserver

/-!
# ByteTurn.RuntimeObserver.Latency

What a latency sample measures.

An event is a short list of operations on the spans (`Event.spanOps`,
`observe_spans`).  Beside the observer, with its bounded memory, runs a `Trace`
that remembers every start, and with every sample the starts its key had: a
sample is honest when there was one, and the sample is the time since.

A start that the span limit refuses is forgotten.  The observer is honest as
long as it takes no later start for the first one.
-/

namespace ByteTurn

/-! ## events as operations on spans -/

/-- The metric of a phase. -/
def SpanPhase.metric : SpanPhase → Bytes
  | .turn => lit "byteturn_turn_duration_ms"
  | .model => lit "byteturn_model_duration_ms"
  | .firstToken => lit "byteturn_time_to_first_token_ms"
  | .tool => lit "byteturn_tool_duration_ms"
  | .asrFinal => lit "byteturn_asr_final_latency_ms"
  | .s2sFirstAudio | .duplexFirstAudio => lit "byteturn_s2s_first_audio_latency_ms"
  | .duplexFirstAudible => lit "byteturn_s2s_first_audible_latency_ms"
  | .conversationTurn => lit "byteturn_conversation_turn_duration_ms"
  | .ttsFirstAudio => lit "byteturn_tts_first_audio_latency_ms"
  | .ttsTotal => lit "byteturn_tts_total_duration_ms"
  | .bargeInStop => lit "byteturn_barge_in_stop_latency_ms"

/-- What an event asks of the spans. -/
inductive SpanOp where
  | start (key : SpanKey)
  /-- `finish`, for one key after the other until one is pending. -/
  | stop (keys : List SpanKey) (metric : Bytes)
  | drop (scope : SpanKey → Bool)

/-- The keys an endpoint is matched with: without the turn if there is no other. -/
def Event.eitherKey (e : Event) (phase : SpanPhase) : List SpanKey :=
  if e.turnId = [] then [spanKey e phase false]
  else [spanKey e phase false, spanKey { e with turnId := [] } phase false]

/-- The operations of an event; `speaking` when its utterance has begun. -/
def Event.spanOps (e : Event) (speaking : Bool) : List SpanOp :=
  match e.type with
  | .turnStarted => [.start (spanKey e .turn false)]
  | .modelStarted => [.start (spanKey e .model true), .start (spanKey e .firstToken true)]
  | .toolStarted => [.start (spanKey e .tool true)]
  | .asrEndOfUtterance =>
      [.start (spanKey e .asrFinal false), .start (spanKey e .s2sFirstAudio false),
       .start (spanKey e .conversationTurn false)]
  | .inputSpeechEnded =>
      [.start (spanKey e .duplexFirstAudio false), .start (spanKey e .duplexFirstAudible false),
       .start (spanKey e .conversationTurn false)]
  | .transcriptFinal => [.stop [spanKey e .asrFinal false] SpanPhase.asrFinal.metric]
  | .firstToken => [.stop [spanKey e .firstToken true] SpanPhase.firstToken.metric]
  | .modelCompleted =>
      [.stop [spanKey e .model true] SpanPhase.model.metric,
       .drop fun k => k = spanKey e .firstToken true]
  | .toolCompleted => [.stop [spanKey e .tool true] SpanPhase.tool.metric]
  | .turnCompleted =>
      [.stop [spanKey e .turn false] SpanPhase.turn.metric, .drop (·.discarded e false true)]
  | .turnCancelled | .turnFailed => [.drop (·.discarded e false true)]
  | .ttsChunkStarted =>
      if speaking then []
      else [.start (spanKey e .ttsFirstAudio false), .start (spanKey e .ttsTotal false)]
  | .firstAudio =>
      [.stop [spanKey e .ttsFirstAudio false] SpanPhase.ttsFirstAudio.metric,
       .stop [spanKey e .s2sFirstAudio false] SpanPhase.s2sFirstAudio.metric]
  | .audioOutput => [.stop (e.eitherKey .duplexFirstAudio) SpanPhase.duplexFirstAudio.metric]
  | .playbackStarted =>
      [.stop (e.eitherKey .duplexFirstAudible) SpanPhase.duplexFirstAudible.metric]
  | .bargeInDetected => [.start (spanKey e .bargeInStop false)]
  | .outputCancelled =>
      [.stop [spanKey e .bargeInStop false] SpanPhase.bargeInStop.metric,
       .drop (·.discarded e false false)]
  | .speechCompleted => [.stop [spanKey e .ttsTotal false] SpanPhase.ttsTotal.metric]
  | .conversationTurnCompleted =>
      [.stop (e.eitherKey .conversationTurn) SpanPhase.conversationTurn.metric,
       .drop (·.discarded e false false)]
  | .conversationTurnCancelled | .conversationTurnFailed => [.drop (·.discarded e false false)]
  | .sessionStopped | .sessionFailed | .realtimeSessionClosed =>
      [.drop (·.discarded e true false)]
  | _ => []

/-- The spans of an observer, without its counters. -/
structure Spans where
  starts : Table SpanKey Int := ∅
  samples : List LatencySample := []

def ObserverState.spans (s : ObserverState) : Spans := ⟨s.starts, s.samples⟩

namespace Spans

def pending (s : Spans) (k : SpanKey) : Bool := (s.starts.lookup k).isSome

/-- A start opens a span. -/
def accepts (s : Spans) (limit : Nat) (k : SpanKey) : Bool :=
  !s.pending k && decide (s.starts.size < limit)

def start (s : Spans) (limit : Nat) (e : Event) (k : SpanKey) : Spans :=
  if s.pending k then { s with starts := s.starts.insert k 0 }
  else if limit ≤ s.starts.size then s
  else { s with starts := s.starts.insert k e.timestamp }

/-- The sample of a span that ends with `e`. -/
def sample (s : Spans) (e : Event) (metric : Bytes) (k : SpanKey) : Option LatencySample :=
  match s.starts.lookup k with
  | some start =>
      if start = 0 ∨ e.timestamp = 0 ∨ e.timestamp < start then none
      else some ⟨metric, e.timestamp - start, k⟩
  | none => none

def stop (s : Spans) (e : Event) (metric : Bytes) (k : SpanKey) : Spans where
  starts := s.starts.erase k
  samples := s.samples ++ (s.sample e metric k).toList

def apply (limit : Nat) (e : Event) (s : Spans) : SpanOp → Spans
  | .start k => s.start limit e k
  | .stop keys metric => match keys.find? s.pending with
    | some k => s.stop e metric k
    | none => s
  | .drop scope => { s with starts := s.starts.filterKeys fun k => !scope k }

end Spans

variable {s t : ObserverState} {limit : Nat} {e : Event} {phase : SpanPhase}
  {operation required : Bool} {metric : Bytes}

@[simp] theorem spans_starts : s.spans.starts = s.starts := rfl

theorem increment_spans (name : Bytes) (value : Nat) : (s.increment name value).spans = s.spans := rfl

theorem begin_spans (s : ObserverState) (limit : Nat) (e : Event) (phase : SpanPhase)
    (operation : Bool) : (s.begin limit e phase operation).spans =
      s.spans.apply limit e (.start (spanKey e phase operation)) := by
  show _ = s.spans.start limit e (spanKey e phase operation)
  unfold ObserverState.begin Spans.start
  dsimp only
  by_cases hpending : s.spans.pending (spanKey e phase operation) = true
  · have hstart : (s.starts.lookup (spanKey e phase operation)).isSome = true := hpending
    rw [if_pos hstart, if_pos hpending]
    rfl
  · have hstart : ¬ (s.starts.lookup (spanKey e phase operation)).isSome = true := hpending
    rw [if_neg hstart, if_neg hpending]
    by_cases hfull : limit ≤ s.starts.size
    · rw [if_pos hfull, if_pos (show limit ≤ s.spans.starts.size from hfull)]
      rfl
    · rw [if_neg hfull, if_neg (show ¬ limit ≤ s.spans.starts.size from hfull)]
      rfl

theorem finish_found (s : ObserverState) (e : Event) (phase : SpanPhase) (metric : Bytes)
    (operation required : Bool) : (s.finish e phase metric operation required).2 =
      s.spans.pending (spanKey e phase operation) := by
  unfold ObserverState.finish Spans.pending
  simp only [spans_starts]
  split
  · next hnone => rw [hnone]; rfl
  · next start hstart => rw [hstart]; rfl

theorem finish_spans (s : ObserverState) (limit : Nat) (e : Event) (phase : SpanPhase)
    (metric : Bytes) (operation required : Bool) :
    (s.finish e phase metric operation required).1.spans =
      s.spans.apply limit e (.stop [spanKey e phase operation] metric) := by
  have hfound := finish_found s e phase metric operation required
  unfold ObserverState.finish at hfound ⊢
  dsimp only at hfound ⊢
  cases hstart : s.starts.lookup (spanKey e phase operation) with
  | none =>
      rw [hstart] at hfound
      simp only [Spans.apply, List.find?_cons, ← hfound, List.find?_nil]
      split <;> rfl
  | some start =>
      rw [hstart] at hfound
      simp only [Spans.apply, List.find?_cons, ← hfound, Spans.stop, Spans.sample, spans_starts,
        hstart]
      split
      · simp [ObserverState.increment, ObserverState.spans]
      · rfl

theorem discard_spans (s : ObserverState) (limit : Nat) (e : Event) (entireSession agentOnly : Bool) :
    (s.discard e entireSession agentOnly).spans =
      s.spans.apply limit e (.drop (·.discarded e entireSession agentOnly)) := by
  unfold ObserverState.discard
  dsimp only
  split <;> rfl

theorem finishEither_spans (s : ObserverState) (limit : Nat) (e : Event) (phase : SpanPhase)
    (metric : Bytes) : (s.finishEither e phase metric).spans =
      s.spans.apply limit e (.stop (e.eitherKey phase) metric) := by
  unfold ObserverState.finishEither Event.eitherKey
  have hfound := finish_found s e phase metric false false
  have hspans := finish_spans s limit e phase metric false false
  cases hfinish : s.finish e phase metric false false with
  | mk r found =>
      rw [hfinish] at hfound hspans
      dsimp only at hfound hspans ⊢
      by_cases hturn : e.turnId = []
      · rw [if_pos hturn, if_pos (by simp [hturn])]
        exact hspans
      · rw [if_neg hturn]
        cases hp : s.spans.pending (spanKey e phase false) with
        | true =>
            rw [hp] at hfound
            rw [if_pos (by simp [hfound]), hspans]
            simp only [Spans.apply, List.find?_cons, hp]
        | false =>
            rw [hp] at hfound
            have hsame : r.spans = s.spans := by
              rw [hspans]
              simp only [Spans.apply, List.find?_cons, hp, List.find?_nil]
            rw [if_neg (by simp [hfound, hturn]), finish_spans _ limit, hsame]
            simp only [Spans.apply, List.find?_cons, hp]
            rfl

/-- **Reducer**: an event does its operations, one after the other. -/
theorem observe_spans (s : ObserverState) (limit : Nat) (e : Event) :
    (s.observe limit e).spans =
      (e.spanOps (s.spans.pending (spanKey e .ttsTotal false))).foldl (Spans.apply limit e)
        s.spans := by
  have hcount : (s.increment (lit "byteturn_events_" ++ eventTypeName e.type ++ lit "_total") 1).spans =
      s.spans := rfl
  unfold ObserverState.observe Event.spanOps
  generalize s.increment (lit "byteturn_events_" ++ eventTypeName e.type ++ lit "_total") 1 = r
    at hcount ⊢
  rw [← hcount]
  cases e.type <;> dsimp only
  case ttsChunkStarted =>
    by_cases hspeaking : r.spans.pending (spanKey e .ttsTotal false) = true
    · have hstart : (r.starts.lookup (spanKey e .ttsTotal false)).isSome = true := hspeaking
      rw [if_pos hstart, if_pos hspeaking]
      rfl
    · have hstart : ¬ (r.starts.lookup (spanKey e .ttsTotal false)).isSome = true := hspeaking
      rw [if_neg hstart, if_neg hspeaking]
      simp only [begin_spans, List.foldl_cons, List.foldl_nil]
  case modelCompleted =>
    have herase (r : ObserverState) : ObserverState.spans
        { r with starts := r.starts.erase (spanKey e .firstToken true) } =
          r.spans.apply limit e (.drop fun k => k = spanKey e .firstToken true) := by
      rw [Table.erase_eq_filterKeys]
      rfl
    rw [herase, finish_spans _ limit]
    rfl
  all_goals
    simp only [begin_spans, finish_spans _ limit, discard_spans _ limit, finishEither_spans _ limit,
      List.foldl_cons, List.foldl_nil, increment_spans]
  all_goals rfl

/-! ## the trace -/

/-- A start event of a key: the number of the event and its time. -/
structure Opening where
  key : SpanKey
  index : Nat
  timestamp : Int
  deriving DecidableEq, Repr

/-- A sample, its endpoint, and the starts its key had since it was last
finished or discarded. -/
structure Measurement where
  sample : LatencySample
  endpoint : Event
  starts : List Opening
  deriving Repr

/-- The sample is the time since the only start. -/
def Measurement.Honest (m : Measurement) : Prop :=
  ∃ o, m.starts = [o] ∧ o.key = m.sample.key ∧ o.timestamp ≠ 0 ∧ m.endpoint.timestamp ≠ 0 ∧
    o.timestamp ≤ m.endpoint.timestamp ∧ m.sample.elapsed = m.endpoint.timestamp - o.timestamp

/-- All starts of a stream of events, whatever the span limit does to them. -/
structure Trace where
  /-- The number of events. -/
  length : Nat := 0
  /-- The starts of each key since it was last finished or discarded. -/
  openings : List Opening := []
  measurements : List Measurement := []

/-- The phases that the first chunk of an utterance starts. -/
def SpanPhase.chunk : SpanPhase → Bool
  | .ttsFirstAudio | .ttsTotal => true
  | _ => false

/-- The keys `finish` is called for. -/
def Spans.asked (s : Spans) : List SpanKey → List SpanKey
  | [] => []
  | k :: ks => if s.pending k then [k] else k :: s.asked ks

namespace Trace

/-- The starts of a key. -/
def of (tr : Trace) (k : SpanKey) : List Opening := tr.openings.filter (·.key = k)

/-- A start counts, unless it is a later chunk of an utterance. -/
def counts (tr : Trace) (k : SpanKey) : Bool :=
  !(k.phase.chunk && tr.openings.any (·.key = { k with phase := .ttsTotal }))

def start (tr : Trace) (e : Event) (k : SpanKey) : Trace :=
  if tr.counts k then { tr with openings := tr.openings ++ [⟨k, tr.length, e.timestamp⟩] } else tr

/-- What an operation adds to the trace. -/
def note (e : Event) (s : Spans) (tr : Trace) : SpanOp → Trace
  | .start k => tr.start e k
  | .stop keys metric => { tr with
      openings := tr.openings.filter (·.key ∉ s.asked keys)
      measurements := tr.measurements ++ match keys.find? s.pending with
        | some k => (s.sample e metric k).toList.map fun sample => ⟨sample, e, tr.of k⟩
        | none => [] }
  | .drop scope => { tr with openings := tr.openings.filter fun o => !scope o.key }

/-- An operation on the spans and on the trace. -/
def apply (limit : Nat) (e : Event) (p : Spans × Trace) (op : SpanOp) : Spans × Trace :=
  (p.1.apply limit e op, p.2.note e p.1 op)

/-- The operations of an event on the spans of an observer. -/
def ops (s : ObserverState) (e : Event) : List SpanOp :=
  e.spanOps (s.spans.pending (spanKey e .ttsTotal false))

/-- The trace after an event. -/
def record (limit : Nat) (s : ObserverState) (e : Event) (tr : Trace) : Trace :=
  { ((ops s e).foldl (apply limit e) (s.spans, tr)).2 with length := tr.length + 1 }

end Trace

/-- An observer with the trace of its events. -/
def tracedObserver (limit : Nat) : Machine (ObserverState × Trace) Event :=
  (runtimeObserver limit).observed {} fun s e tr => tr.record limit s e

/-- Every start that the operations open a span for is the first of its key. -/
def allFirst (limit : Nat) (e : Event) : Spans × Trace → List SpanOp → Bool
  | _, [] => true
  | p, op :: rest =>
      (match op with
        | .start k => !p.1.accepts limit k || (p.2.counts k && (p.2.of k).isEmpty)
        | _ => true) && allFirst limit e (Trace.apply limit e p op) rest

/-- The observer takes no later start of a key for the first one. -/
def FirstStarts (limit : Nat) (p : ObserverState × Trace) (e : Event) : Prop :=
  allFirst limit e (p.1.spans, p.2) (Trace.ops p.1 e) = true

instance (limit : Nat) (p : ObserverState × Trace) (e : Event) : Decidable (FirstStarts limit p e) :=
  inferInstanceAs (Decidable (_ = true))

/-! ## pending spans and their starts -/

variable {r r' : Spans} {tr tr' : Trace} {k : SpanKey} {op : SpanOp}

/-- A pending span holds the time of the only start of its key, or no time. -/
structure Agrees (r : Spans) (tr : Trace) : Prop where
  pending : ∀ k v, r.starts.lookup k = some v →
    tr.of k ≠ [] ∧ (v = 0 ∨ ∃ o, tr.of k = [o] ∧ v = o.timestamp)
  covered : r.samples = tr.measurements.map (·.sample)
  honest : ∀ m ∈ tr.measurements, m.Honest

theorem of_start (tr : Trace) (e : Event) (k k' : SpanKey) :
    (tr.start e k).of k' = tr.of k' ++
      if tr.counts k ∧ k = k' then [⟨k, tr.length, e.timestamp⟩] else [] := by
  unfold Trace.start Trace.of
  by_cases hcounts : tr.counts k = true
  · rw [if_pos hcounts, List.filter_append]
    by_cases hk : k = k'
    · rw [if_pos ⟨hcounts, hk⟩]
      simp [hk]
    · rw [if_neg fun h => hk h.2]
      simp [hk]
  · rw [if_neg hcounts, if_neg fun h => hcounts h.1, List.append_nil]

theorem of_filter (keep : Opening → Bool) (k : SpanKey)
    (hk : ∀ o : Opening, o.key = k → keep o = true)
    (ho : tr'.openings = tr.openings.filter keep) : tr'.of k = tr.of k := by
  unfold Trace.of
  rw [ho, List.filter_filter]
  refine List.filter_congr fun o _ => ?_
  by_cases ho : o.key = k
  · simp [ho, hk o ho]
  · simp [ho]

theorem Agrees.start (h : Agrees r tr)
    (hfirst : (!r.accepts limit k || (tr.counts k && (tr.of k).isEmpty)) = true) :
    Agrees (r.start limit e k) (tr.start e k) := by
  have htrace : (tr.start e k).measurements = tr.measurements := by
    unfold Trace.start
    split <;> rfl
  have hgrown (k' : SpanKey) (hne : tr.of k' ≠ []) : (tr.start e k).of k' ≠ [] := by
    rw [of_start]
    exact fun hnil => hne (List.append_eq_nil_iff.mp hnil).1
  have hother (k' : SpanKey) (hk : k' ≠ k) : (tr.start e k).of k' = tr.of k' := by
    rw [of_start, if_neg fun h => hk h.2.symm, List.append_nil]
  unfold Spans.start
  split
  · next hpending =>
    refine ⟨fun k' v hv => ?_, by rw [htrace]; exact h.covered, by rw [htrace]; exact h.honest⟩
    rw [Table.lookup_insert'] at hv
    split at hv
    · next hk =>
      subst hk
      obtain ⟨w, hw⟩ := Option.isSome_iff_exists.mp hpending
      exact ⟨hgrown k' (h.pending k' w hw).1, .inl (Option.some.inj hv).symm⟩
    · next hk =>
      rw [hother k' hk]
      exact h.pending k' v hv
  · next hpending =>
    have habsent : r.starts.lookup k = none := Option.not_isSome_iff_eq_none.mp hpending
    split
    · refine ⟨fun k' v hv => ?_, by rw [htrace]; exact h.covered, by rw [htrace]; exact h.honest⟩
      have hk : k' ≠ k := fun heq => by
        rw [heq, habsent] at hv
        contradiction
      rw [hother k' hk]
      exact h.pending k' v hv
    · next hroom =>
      refine ⟨fun k' v hv => ?_, by rw [htrace]; exact h.covered, by rw [htrace]; exact h.honest⟩
      rw [Table.lookup_insert'] at hv
      split at hv
      · next hk =>
        subst hk
        have haccepts : r.accepts limit k' = true := by
          simp [Spans.accepts, hpending, Nat.not_le.mp hroom]
        rw [haccepts] at hfirst
        simp only [Bool.not_true, Bool.false_or, Bool.and_eq_true, List.isEmpty_iff] at hfirst
        have hone : (tr.start e k').of k' = [⟨k', tr.length, e.timestamp⟩] := by
          rw [of_start, hfirst.2, if_pos ⟨hfirst.1, rfl⟩]
          rfl
        rw [hone]
        exact ⟨nofun, .inr ⟨_, rfl, (Option.some.inj hv).symm⟩⟩
      · next hk =>
        rw [hother k' hk]
        exact h.pending k' v hv

/-- A pending key that `finish` is called for is the one that is finished. -/
theorem find?_of_asked {keys : List SpanKey} (hk : k ∈ r.asked keys) (hpending : r.pending k = true) :
    keys.find? r.pending = some k := by
  induction keys with
  | nil => contradiction
  | cons k' keys ih =>
      unfold Spans.asked at hk
      rw [List.find?_cons]
      split at hk
      · next hk' =>
        rw [hk', List.mem_singleton.mp hk]
      · next hk' =>
        cases List.mem_cons.mp hk with
        | inl heq => rw [← heq, hpending] at hk'; contradiction
        | inr hrest => rw [Bool.eq_false_iff.mpr hk']; exact ih hrest

/-- A sample is taken of a span whose only start is known. -/
theorem Agrees.sample {x : LatencySample} (h : Agrees r tr) (hx : r.sample e metric k = some x) :
    x.metric = metric ∧ x.key = k ∧ Measurement.Honest ⟨x, e, tr.of k⟩ := by
  unfold Spans.sample at hx
  cases hv : r.starts.lookup k with
  | none =>
      rw [hv] at hx
      contradiction
  | some v =>
      rw [hv] at hx
      dsimp only at hx
      split at hx <;> try contradiction
      next hvalid =>
      obtain rfl := Option.some.inj hx
      obtain ⟨hstart, hend, hafter⟩ := not_or.mp hvalid |>.imp_right not_or.mp
      obtain ⟨-, hzero | ⟨o, hone, rfl⟩⟩ := h.pending k v hv
      · exact absurd hzero hstart
      · have hkey : o.key = k := by
          have hmem : o ∈ tr.of k := by rw [hone]; exact List.mem_singleton_self o
          exact of_decide_eq_true (List.mem_filter.mp hmem).2
        exact ⟨rfl, rfl, o, hone, hkey, hstart, hend, not_lt.mp hafter, rfl⟩

theorem Agrees.stop {keys : List SpanKey} (h : Agrees r tr) :
    Agrees (r.apply limit e (.stop keys metric)) (tr.note e r (.stop keys metric)) := by
  have hkept (k' : SpanKey) (hout : k' ∉ r.asked keys) :
      (tr.note e r (.stop keys metric)).of k' = tr.of k' :=
    of_filter _ k' (fun o ho => by simpa [ho] using hout) rfl
  cases hfind : keys.find? r.pending with
  | none =>
      have hsame : r.apply limit e (.stop keys metric) = r := by simp only [Spans.apply, hfind]
      have hmeasured : (tr.note e r (.stop keys metric)).measurements = tr.measurements := by
        simp only [Trace.note, hfind, List.append_nil]
      rw [hsame]
      refine ⟨fun k' v hv => ?_, by rw [hmeasured]; exact h.covered, by rw [hmeasured]; exact h.honest⟩
      have hpending : r.pending k' = true := by rw [Spans.pending, hv]; rfl
      have hout : k' ∉ r.asked keys := fun hmem => by
        rw [find?_of_asked hmem hpending] at hfind
        contradiction
      rw [hkept k' hout]
      exact h.pending k' v hv
  | some k =>
      have hstop : r.apply limit e (.stop keys metric) = r.stop e metric k := by
        simp only [Spans.apply, hfind]
      have hmeasured : (tr.note e r (.stop keys metric)).measurements = tr.measurements ++
          (r.sample e metric k).toList.map fun x => ⟨x, e, tr.of k⟩ := by
        simp only [Trace.note, hfind]
      rw [hstop]
      refine ⟨fun k' v hv => ?_, ?_, fun m hm => ?_⟩
      · have hlookup : (r.starts.erase k).lookup k' = some v := hv
        rw [Table.lookup_erase'] at hlookup
        split at hlookup <;> try contradiction
        next hne =>
        have hpending : r.pending k' = true := by rw [Spans.pending, hlookup]; rfl
        have hout : k' ∉ r.asked keys := fun hmem => by
          rw [find?_of_asked hmem hpending] at hfind
          exact hne (Option.some.inj hfind)
        rw [hkept k' hout]
        exact h.pending k' v hlookup
      · rw [hmeasured, List.map_append, ← h.covered]
        simp [Spans.stop, Function.comp_def]
      · rw [hmeasured, List.mem_append] at hm
        cases hm with
        | inl hold => exact h.honest m hold
        | inr hnew =>
            obtain ⟨x, hx, rfl⟩ := List.mem_map.mp hnew
            exact (h.sample (Option.mem_toList.mp hx)).2.2

theorem Agrees.drop {scope : SpanKey → Bool} (h : Agrees r tr) :
    Agrees (r.apply limit e (.drop scope)) (tr.note e r (.drop scope)) := by
  refine ⟨fun k v hv => ?_, h.covered, h.honest⟩
  have hlookup : (r.starts.filterKeys fun k => !scope k).lookup k = some v := hv
  rw [Table.lookup_filterKeys] at hlookup
  split at hlookup <;> try contradiction
  next hkeep =>
  have hsame : (tr.note e r (.drop scope)).of k = tr.of k :=
    of_filter _ k (fun o ho => by rw [ho]; exact hkeep) rfl
  rw [hsame]
  exact h.pending k v hlookup

/-- The operations of an event, if each start they open a span for is the first. -/
theorem Agrees.ops {ops : List SpanOp} {p : Spans × Trace} (h : Agrees p.1 p.2)
    (hfirst : allFirst limit e p ops = true) :
    Agrees (ops.foldl (Trace.apply limit e) p).1 (ops.foldl (Trace.apply limit e) p).2 := by
  induction ops generalizing p with
  | nil => exact h
  | cons op ops ih =>
      obtain ⟨hop, hrest⟩ := Bool.and_eq_true_iff.mp hfirst
      refine ih ?_ hrest
      cases op with
      | start k => exact h.start hop
      | stop keys metric =>
          have hstop : Agrees (p.1.apply limit e (.stop keys metric)) _ := h.stop
          exact hstop
      | drop scope =>
          have hdrop : Agrees (p.1.apply limit e (.drop scope)) _ := h.drop
          exact hdrop

/-! ## each start counts once -/

/-- The metrics an operation opens spans for. -/
def SpanOp.opened : SpanOp → List Bytes
  | .start k => [k.phase.metric]
  | _ => []

/-- An endpoint records the metric of the phase it ends. -/
def SpanOp.Measured : SpanOp → Prop
  | .stop keys metric => ∀ k ∈ keys, k.phase.metric = metric
  | _ => True

/-- A start, and the metric it may give a sample of. -/
def Opening.tag (o : Opening) : Nat × Bytes := (o.index, o.key.phase.metric)

/-- The starts that may still give a sample, and those that have. -/
def Trace.tags (tr : Trace) : List (Nat × Bytes) :=
  tr.openings.map Opening.tag ++ tr.measurements.flatMap fun m => m.starts.map Opening.tag

theorem spanOps_measured (e : Event) (speaking : Bool) : ∀ op ∈ e.spanOps speaking, op.Measured := by
  have heither (phase : SpanPhase) : ∀ k ∈ e.eitherKey phase, k.phase.metric = phase.metric := by
    unfold Event.eitherKey
    split <;> simp [spanKey]
  unfold Event.spanOps
  cases e.type <;> dsimp only
  case ttsChunkStarted => split <;> simp [SpanOp.Measured]
  all_goals simp [SpanOp.Measured, spanKey]
  all_goals exact heither _

/-- The spans that one event opens are of different metrics. -/
theorem spanOps_opened (e : Event) (speaking : Bool) :
    ((e.spanOps speaking).flatMap SpanOp.opened).Nodup := by
  unfold Event.spanOps
  cases e.type <;> dsimp only
  case ttsChunkStarted =>
    split
    · exact List.nodup_nil
    · simp only [List.flatMap_cons, SpanOp.opened, spanKey, List.flatMap_nil]
      decide
  all_goals
    simp only [List.flatMap_cons, SpanOp.opened, spanKey, List.flatMap_nil]
    decide

theorem note_length : (tr.note e r op).length = tr.length := by
  cases op with
  | start k => unfold Trace.note Trace.start; dsimp only; split <;> rfl
  | stop keys metric | drop scope => rfl

/-- The key that is finished is one that `finish` is called for. -/
theorem asked_of_find? {keys : List SpanKey} (h : keys.find? r.pending = some k) :
    k ∈ r.asked keys := by
  induction keys with
  | nil => contradiction
  | cons k' keys ih =>
      rw [List.find?_cons] at h
      unfold Spans.asked
      split
      · next hk' =>
        rw [hk'] at h
        exact List.mem_singleton.mpr (Option.some.inj h).symm
      · next hk' =>
        rw [Bool.eq_false_iff.mpr hk'] at h
        exact List.mem_cons_of_mem k' (ih h)

/-- The starts of a sample are no longer those of its key. -/
theorem measured_tags (tr : Trace) (keys : List SpanKey) (h : k ∈ r.asked keys) :
    List.Subperm ((tr.openings.filter (·.key ∉ r.asked keys)).map Opening.tag ++
      (tr.of k).map Opening.tag) (tr.openings.map Opening.tag) := by
  have hsub : (tr.of k).Sublist (tr.openings.filter (·.key ∈ r.asked keys)) :=
    List.monotone_filter_right _ fun o ho => by
      rw [of_decide_eq_true ho]
      exact decide_eq_true h
  have hsplit : (tr.openings.filter (·.key ∉ r.asked keys) ++
      tr.openings.filter (·.key ∈ r.asked keys)).Perm tr.openings := by
    have hperm := List.filter_append_perm (fun o : Opening => decide (o.key ∈ r.asked keys)) tr.openings
    simp only [← decide_not] at hperm
    exact List.perm_append_comm.trans hperm
  rw [← List.map_append]
  exact (((List.Sublist.refl _).append hsub).map _).subperm.trans (hsplit.map _).subperm

/-- An operation adds the tags of the spans it opens, and no other. -/
theorem note_tags : List.Subperm (tr.note e r op).tags (op.opened.map (tr.length, ·) ++ tr.tags) := by
  cases op with
  | start k =>
      unfold Trace.note Trace.start
      dsimp only
      split
      · have hperm : ({ tr with openings := tr.openings ++ [⟨k, tr.length, e.timestamp⟩] } :
            Trace).tags.Perm ((tr.length, k.phase.metric) :: tr.tags) := by
          simp only [Trace.tags, List.map_append, List.map_singleton, List.append_assoc]
          exact List.perm_middle
        exact hperm.subperm
      · exact (List.sublist_append_right _ _).subperm
  | drop scope =>
      have hsub : (tr.note e r (.drop scope)).tags.Sublist tr.tags :=
        (List.filter_sublist.map _).append (List.Sublist.refl _)
      exact hsub.subperm
  | stop keys metric =>
      show List.Subperm _ tr.tags
      have hdropped : List.Subperm ((tr.openings.filter (·.key ∉ r.asked keys)).map Opening.tag ++
          tr.measurements.flatMap fun m => m.starts.map Opening.tag) tr.tags :=
        ((List.filter_sublist.map _).append (List.Sublist.refl _)).subperm
      unfold Trace.tags at hdropped ⊢
      cases hfind : keys.find? r.pending with
      | none => simpa only [Trace.note, hfind, List.append_nil] using hdropped
      | some k =>
          cases hsample : r.sample e metric k with
          | none =>
              simpa only [Trace.note, hfind, hsample, Option.toList_none, List.map_nil,
                List.append_nil] using hdropped
          | some x =>
              simp only [Trace.note, hfind, hsample, Option.toList_some, List.map_singleton,
                List.flatMap_append, List.flatMap_singleton]
              have hsome := measured_tags tr keys (asked_of_find? hfind)
              refine (List.Perm.subperm ?_).trans ((List.subperm_append_right _).mpr hsome)
              rw [List.append_assoc]
              exact List.perm_append_comm.append_left _

/-- What the operations of one event add. -/
theorem ops_tags (limit : Nat) (e : Event) (ops : List SpanOp) (p : Spans × Trace) :
    List.Subperm (ops.foldl (Trace.apply limit e) p).2.tags
        ((ops.flatMap SpanOp.opened).map (p.2.length, ·) ++ p.2.tags) ∧
      (ops.foldl (Trace.apply limit e) p).2.length = p.2.length := by
  induction ops generalizing p with
  | nil => exact ⟨List.Subperm.refl _, rfl⟩
  | cons op ops ih =>
      obtain ⟨htags, hlength⟩ := ih (Trace.apply limit e p op)
      have hone : (Trace.apply limit e p op).2.length = p.2.length := note_length
      rw [hone] at htags hlength
      refine ⟨htags.trans ?_, hlength⟩
      rw [List.flatMap_cons, List.map_append]
      refine ((List.subperm_append_left _).mpr note_tags).trans (List.Perm.subperm ?_)
      rw [← List.append_assoc]
      exact List.perm_append_comm.append_right _

/-- No start may give two samples of one metric, and every start is of an event
there was. -/
structure Once (tr : Trace) : Prop where
  nodup : tr.tags.Nodup
  past : ∀ tag ∈ tr.tags, tag.1 < tr.length

theorem Once.record (h : Once tr) (limit : Nat) (s : ObserverState) (e : Event) :
    Once (tr.record limit s e) := by
  obtain ⟨hsub, -⟩ := ops_tags limit e (Trace.ops s e) (s.spans, tr)
  have hnew : ∀ tag ∈ ((Trace.ops s e).flatMap SpanOp.opened).map (tr.length, ·),
      tag.1 = tr.length := by
    intro tag htag
    obtain ⟨metric, -, rfl⟩ := List.mem_map.mp htag
    rfl
  have hall : (((Trace.ops s e).flatMap SpanOp.opened).map (tr.length, ·) ++ tr.tags).Nodup := by
    refine List.nodup_append.mpr ⟨?_, h.nodup, fun a ha b hb hab => ?_⟩
    · exact (spanOps_opened e _).map fun a b hab => (Prod.mk.inj hab).2
    · have hold := h.past b hb
      rw [← hab, hnew a ha] at hold
      exact Nat.lt_irrefl _ hold
  refine ⟨?_, fun tag htag => ?_⟩
  · obtain ⟨l, hperm, hl⟩ := hsub
    exact hperm.nodup_iff.mp (hall.sublist hl)
  · show tag.1 < tr.length + 1
    cases List.mem_append.mp (hsub.subset htag) with
    | inl hn => rw [hnew tag hn]; exact Nat.lt_succ_self _
    | inr ho => exact Nat.lt_succ_of_lt (h.past tag ho)

/-- The metric of a sample is the one its starts are for. -/
def Metrics (tr : Trace) : Prop :=
  ∀ m ∈ tr.measurements, ∀ o ∈ m.starts, o.key.phase.metric = m.sample.metric

theorem Spans.sample_metric {x : LatencySample} (hx : r.sample e metric k = some x) :
    x.metric = metric := by
  unfold Spans.sample at hx
  split at hx <;> try contradiction
  split at hx <;> try contradiction
  rw [← Option.some.inj hx]

theorem Metrics.note (h : Metrics tr) (hop : op.Measured) : Metrics (tr.note e r op) := by
  cases op with
  | start k =>
      unfold Trace.note Trace.start
      dsimp only
      split <;> exact h
  | drop scope => exact h
  | stop keys metric =>
      cases hfind : keys.find? r.pending with
      | none =>
          intro m hm
          simp only [Trace.note, hfind, List.append_nil] at hm
          exact h m hm
      | some k =>
          intro m hm o ho
          simp only [Trace.note, hfind, List.mem_append, List.mem_map] at hm
          obtain hold | ⟨x, hx, rfl⟩ := hm
          · exact h m hold o ho
          · have hkey : o.key = k := of_decide_eq_true (List.mem_filter.mp ho).2
            rw [hkey, Spans.sample_metric (Option.mem_toList.mp hx)]
            exact hop k (List.mem_of_find?_eq_some hfind)

theorem Metrics.ops {ops : List SpanOp} {p : Spans × Trace} (h : Metrics p.2)
    (hops : ∀ op ∈ ops, op.Measured) : Metrics (ops.foldl (Trace.apply limit e) p).2 := by
  induction ops generalizing p with
  | nil => exact h
  | cons op ops ih =>
      have hone : Metrics (Trace.apply limit e p op).2 :=
        h.note (hops op List.mem_cons_self)
      exact ih hone fun op hop => hops op (List.mem_cons_of_mem _ hop)

/-! ## honest samples -/

/-- What the samples of an observer say about its events. -/
structure HonestSamples (s : ObserverState) (tr : Trace) : Prop where
  /-- Every sample was measured at an endpoint. -/
  covered : s.samples = tr.measurements.map (·.sample)
  /-- It is the time since the only start of its key. -/
  honest : ∀ m ∈ tr.measurements, m.Honest
  /-- A start event gives one sample of a metric. -/
  once : (tr.measurements.flatMap fun m => m.starts.map fun o =>
    (o.index, m.sample.metric)).Nodup

/-- The spans and the trace after an event. -/
theorem record_spans (limit : Nat) (s : ObserverState) (e : Event) (tr : Trace) :
    ((Trace.ops s e).foldl (Trace.apply limit e) (s.spans, tr)).1 = (s.observe limit e).spans := by
  rw [observe_spans]
  show _ = (Trace.ops s e).foldl (Spans.apply limit e) (s.spans, tr).1
  generalize (s.spans, tr) = p
  induction Trace.ops s e generalizing p with
  | nil => rfl
  | cons op ops ih => exact ih _

/-- What holds of an observer and its trace between two events. -/
structure Traced (s : ObserverState) (tr : Trace) : Prop where
  agrees : Agrees s.spans tr
  once : Once tr
  metrics : Metrics tr

theorem Traced.init : Traced {} {} where
  agrees := by
    refine ⟨fun k v hv => ?_, rfl, fun m hm => ?_⟩
    · have hnone : (∅ : Table SpanKey Int).lookup k = some v := hv
      rw [AList.lookup_empty] at hnone
      contradiction
    · exact absurd hm List.not_mem_nil
  once := ⟨List.nodup_nil, fun tag htag => absurd htag List.not_mem_nil⟩
  metrics := fun m hm => absurd hm List.not_mem_nil

theorem Traced.record (h : Traced s tr) (hfirst : FirstStarts limit (s, tr) e) :
    Traced (s.observe limit e) (tr.record limit s e) := by
  refine ⟨?_, h.once.record limit s e, ?_⟩
  · have hops := h.agrees.ops (p := (s.spans, tr)) hfirst
    rw [record_spans] at hops
    exact ⟨hops.pending, hops.covered, hops.honest⟩
  · exact h.metrics.ops (p := (s.spans, tr)) (spanOps_measured e _)

theorem Traced.honest (h : Traced s tr) : HonestSamples s tr where
  covered := h.agrees.covered
  honest := h.agrees.honest
  once := by
    have htags : (tr.measurements.flatMap fun m => m.starts.map Opening.tag) =
        tr.measurements.flatMap fun m => m.starts.map fun o => (o.index, m.sample.metric) := by
      refine List.flatMap_congr fun m hm => List.map_congr_left fun o ho => ?_
      rw [← h.metrics m hm o ho]
      rfl
    rw [← htags]
    exact h.once.nodup.sublist (List.sublist_append_right _ _)

/-- **Latency**: an observer that takes no later start for the first one takes
honest samples only. -/
theorem observer_latency (limit : Nat) (s : ObserverState) (tr : Trace)
    (h : ((tracedObserver limit).guarded (FirstStarts limit)).Reachable (s, tr)) :
    HonestSamples s tr := by
  have htraced : Traced s tr := by
    refine Machine.Reachable.rec_inv (P := fun p => Traced p.1 p.2) ?_ ?_ h
    · exact .init
    · intro p e p' _ hp hs
      obtain ⟨hfirst, hstep⟩ := Machine.guarded_step.mp hs
      obtain ⟨hstep, hnote⟩ := Machine.observed_step.mp hstep
      rw [← Option.some.inj hstep, ← hnote]
      exact hp.record hfirst
  exact htraced.honest

/-- A response whose first chunk is heard of, with a late second one. -/
def spokenResponse : List Event := [
  { type := .turnStarted, turnId := lit "a", timestamp := 1 },
  { type := .ttsChunkStarted, turnId := lit "a", timestamp := 2 },
  { type := .ttsChunkStarted, turnId := lit "a", timestamp := 3 },
  { type := .firstAudio, turnId := lit "a", timestamp := 4 },
  { type := .turnCompleted, turnId := lit "a", timestamp := 5 }]

theorem spokenResponse_latency :
    ∃ s tr, s.samples.map (·.elapsed) = [2, 4] ∧ HonestSamples s tr := by
  have hrun : (((tracedObserver 3).guarded (FirstStarts 3)).run
      ((tracedObserver 3).guarded (FirstStarts 3)).init spokenResponse).map
        (fun p => p.1.samples.map (·.elapsed)) = some [2, 4] := by decide +kernel
  obtain ⟨⟨s, tr⟩, hrun, hsamples⟩ := Option.map_eq_some_iff.mp hrun
  exact ⟨s, tr, hsamples, observer_latency 3 s tr (Machine.Reachable.of_run hrun)⟩

/-- The first chunk is refused, and the second one is taken for it. -/
def refusedChunk : List Event := [
  { type := .turnStarted, turnId := lit "a", timestamp := 1 },
  { type := .ttsChunkStarted, turnId := lit "b", timestamp := 2 },
  { type := .turnCompleted, turnId := lit "a", timestamp := 3 },
  { type := .ttsChunkStarted, turnId := lit "b", timestamp := 4 },
  { type := .firstAudio, turnId := lit "b", timestamp := 5 }]

theorem refusedChunk_dishonest :
    ¬ ∀ limit, 1 ≤ limit → ∀ s tr, (tracedObserver limit).Reachable (s, tr) →
      HonestSamples s tr := by
  intro hall
  have hrun : ((tracedObserver 1).run (tracedObserver 1).init refusedChunk).map
      (fun p => p.2.measurements.map fun m => (m.sample.elapsed, m.endpoint.timestamp,
        m.starts.map (·.timestamp))) = some [(2, 3, [1]), (1, 5, [2])] := by decide +kernel
  obtain ⟨⟨s, tr⟩, hrun, hmeasured⟩ := Option.map_eq_some_iff.mp hrun
  have hhonest := (hall 1 (Nat.le_refl 1) s tr (Machine.Reachable.of_run hrun)).honest
  have hlate : (1, 5, [2]) ∈ tr.measurements.map fun m => (m.sample.elapsed, m.endpoint.timestamp,
      m.starts.map (·.timestamp)) := by
    rw [hmeasured]
    decide
  obtain ⟨m, hm, hshape⟩ := List.mem_map.mp hlate
  obtain ⟨o, hstarts, -, -, -, -, helapsed⟩ := hhonest m hm
  simp only [hstarts, List.map_singleton, Prod.mk.injEq, List.cons.injEq, and_true] at hshape
  omega

end ByteTurn

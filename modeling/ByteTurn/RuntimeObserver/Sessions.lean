import ByteTurn.Lib.Lists
import ByteTurn.RuntimeObserver

/-!
# ByteTurn.RuntimeObserver.Sessions

Sessions do not contaminate each other's metrics.

An observer that was fed the events of two groups of sessions is put together
from two observers that were each fed those of one (`Merged`).  Each operation
of an event keeps that (`Joined`), because it names the session and the
generation of the event in every key it looks at.
-/

namespace ByteTurn

/-! ## histograms -/

/-- The bounds of `MetricsRegistry::observe`, in milliseconds. -/
def latencyBounds : List Nat := [5, 10, 25, 50, 100, 250, 500, 1000, 2500, 5000]

/-- `HistogramSnapshot`, with an exact sum in nanoseconds. -/
structure LatencyHistogram where
  count : Nat := 0
  sum : Int := 0
  bucketCounts : List Nat := List.replicate (latencyBounds.length + 1) 0
  deriving DecidableEq, Repr

/-- The bucket of a value: `lower_bound` on the bounds. -/
def latencyBucket (elapsed : Int) : Nat := latencyBounds.countP fun bound => bound * 1000000 < elapsed

/-- `MetricsRegistry::observe` -/
def LatencyHistogram.observe (h : LatencyHistogram) (elapsed : Int) : LatencyHistogram where
  count := h.count + 1
  sum := h.sum + elapsed
  bucketCounts := h.bucketCounts.modify (latencyBucket elapsed) (· + 1)

/-- The histogram of all values of two. -/
def LatencyHistogram.add (h h' : LatencyHistogram) : LatencyHistogram where
  count := h.count + h'.count
  sum := h.sum + h'.sum
  bucketCounts := List.zipWith (· + ·) h.bucketCounts h'.bucketCounts

namespace ObserverState

/-- The values observed for a metric. -/
def values (s : ObserverState) (metric : Bytes) : List Int :=
  (s.samples.filter (·.metric = metric)).map (·.elapsed)

/-- `MetricsRegistry::histogram` -/
def histogram (s : ObserverState) (metric : Bytes) : LatencyHistogram :=
  (s.values metric).foldl LatencyHistogram.observe {}

/-- `MetricsRegistry::counter` -/
def counter (s : ObserverState) (name : Bytes) : Nat := (s.counters.lookup name).getD 0

/-- The starts refused by the span limit. -/
def refused (s : ObserverState) : Nat :=
  s.counter (lit "byteturn_observer_span_limit_rejections_total")

end ObserverState

/-- A fresh observer is fed a sequence of events. -/
def observeAll (limit : Nat) (events : List Event) : ObserverState :=
  events.foldl (fun s e => s.observe limit e) {}

/-! ### histograms of lists -/

/-- A histogram in terms of the values observed. -/
theorem foldl_observe (values : List Int) (h : LatencyHistogram) :
    (values.foldl LatencyHistogram.observe h).count = h.count + values.length ∧
      (values.foldl LatencyHistogram.observe h).sum = h.sum + values.sum ∧
      ∀ i, (values.foldl LatencyHistogram.observe h).bucketCounts[i]? =
        h.bucketCounts[i]?.map (· + values.countP fun v => latencyBucket v = i) := by
  induction values generalizing h with
  | nil => simp
  | cons v values ih =>
      obtain ⟨hcount, hsum, hbuckets⟩ := ih (h.observe v)
      refine ⟨?_, ?_, fun i => ?_⟩
      · rw [List.foldl_cons, hcount, List.length_cons]
        show h.count + 1 + _ = _
        omega
      · rw [List.foldl_cons, hsum, List.sum_cons]
        show h.sum + v + _ = _
        omega
      · rw [List.foldl_cons, hbuckets]
        show (h.bucketCounts.modify (latencyBucket v) (· + 1))[i]?.map _ = _
        rw [List.getElem?_modify, List.countP_cons]
        cases h.bucketCounts[i]? with
        | none => rfl
        | some n =>
            by_cases hi : latencyBucket v = i
            · simp [hi]
              omega
            · simp [hi]

/-- The order of the values does not matter, and the histogram of two lists of
values is the sum of theirs. -/
theorem histogram_append {values left right : List Int} (h : values.Perm (left ++ right)) :
    values.foldl LatencyHistogram.observe {} =
      (left.foldl LatencyHistogram.observe {}).add (right.foldl LatencyHistogram.observe {}) := by
  obtain ⟨hcount, hsum, hbuckets⟩ := foldl_observe values {}
  obtain ⟨lcount, lsum, lbuckets⟩ := foldl_observe left {}
  obtain ⟨rcount, rsum, rbuckets⟩ := foldl_observe right {}
  have hext (a b : LatencyHistogram) (h₁ : a.count = b.count) (h₂ : a.sum = b.sum)
      (h₃ : a.bucketCounts = b.bucketCounts) : a = b := by
    cases a
    cases b
    simp_all
  refine hext _ _ ?_ ?_ (List.ext_getElem? fun i => ?_)
  · show _ = _ + _
    rw [hcount, lcount, rcount, h.length_eq, List.length_append]
    simp
  · show _ = _ + _
    rw [hsum, lsum, rsum, h.sum_eq, List.sum_append]
    simp
  · show _ = (List.zipWith _ _ _)[i]?
    rw [hbuckets, List.getElem?_zipWith, lbuckets, rbuckets, h.countP_eq, List.countP_append]
    cases hi : (List.replicate (latencyBounds.length + 1) 0)[i]? with
    | none => simp
    | some n =>
        have hn : n = 0 := (List.mem_replicate.mp (List.mem_of_getElem? hi)).2
        simp [hn]

/-! ## two observers in one -/

/-- The incarnation an event belongs to. -/
def Event.session (e : Event) : Bytes × Nat := (e.sessionId, e.generation)

def SpanKey.session (k : SpanKey) : Bytes × Nat := (k.sessionId, k.generation)

namespace ObserverState

/-- `s` is `l`, which saw the sessions in `own`, and `r`, which saw the others. -/
structure Merged (own : Bytes × Nat → Bool) (s l r : ObserverState) : Prop where
  starts : ∀ k, s.starts.lookup k = if own k.session then l.starts.lookup k else r.starts.lookup k
  left : ∀ k : SpanKey, (l.starts.lookup k).isSome = true → own k.session = true
  right : ∀ k : SpanKey, (r.starts.lookup k).isSome = true → own k.session = false
  counters : ∀ name, s.counter name = l.counter name + r.counter name
  samples : s.samples.Perm (l.samples ++ r.samples)

variable {own : Bytes × Nat → Bool} {s l r : ObserverState} {k : SpanKey} {limit : Nat} {e : Event}

/-- An increment counts under its own name. -/
theorem counter_increment (s : ObserverState) (name : Bytes) (value : Nat) (n : Bytes) :
    (s.increment name value).counter n = s.counter n + if n = name then value else 0 := by
  unfold counter increment
  dsimp only
  rw [Table.getD_insert]
  by_cases hn : n = name
  · subst hn
    simp
  · simp [hn]

/-- The two sides may change places. -/
theorem Merged.symm (h : Merged own s l r) : Merged (fun session => !own session) s r l where
  starts k := by
    rw [h.starts]
    cases own k.session <;> rfl
  left k hk := by rw [h.right k hk]; rfl
  right k hk := by rw [h.left k hk]; rfl
  counters name := by rw [h.counters, Nat.add_comm]
  samples := h.samples.trans List.perm_append_comm

/-- The spans of the whole are those of the two sides. -/
theorem Merged.size (h : Merged own s l r) : s.starts.size = l.starts.size + r.starts.size :=
  Table.size_of_split (p := fun k => own k.session) h.starts h.left h.right

/-- A span of one side is found there. -/
theorem Merged.lookup (h : Merged own s l r) (hk : own k.session = true) :
    s.starts.lookup k = l.starts.lookup k := by
  rw [h.starts, if_pos hk]

/-- A count of one side is a count of the whole. -/
theorem Merged.increment (h : Merged own s l r) (name : Bytes) (value : Nat) :
    Merged own (s.increment name value) (l.increment name value) r where
  starts := h.starts
  left := h.left
  right := h.right
  counters n := by
    rw [counter_increment, counter_increment, h.counters]
    omega
  samples := h.samples

/-- So is a span that is opened. -/
theorem Merged.put (h : Merged own s l r) (hk : own k.session = true) (time : Int) :
    Merged own { s with starts := s.starts.insert k time }
      { l with starts := l.starts.insert k time } r where
  starts k' := by
    show (s.starts.insert k time).lookup k' =
      if own k'.session then (l.starts.insert k time).lookup k' else r.starts.lookup k'
    rw [Table.lookup_insert', Table.lookup_insert', h.starts]
    by_cases hk' : k' = k
    · rw [hk', if_pos rfl, if_pos rfl, if_pos hk]
    · rw [if_neg hk', if_neg hk']
  left k' hk' := by
    have hk' : ((l.starts.insert k time).lookup k').isSome = true := hk'
    rw [Table.lookup_insert'] at hk'
    split at hk'
    · next heq => rw [heq]; exact hk
    · exact h.left k' hk'
  right := h.right
  counters := h.counters
  samples := h.samples

/-- Only spans of the sessions in `own` are thrown away. -/
theorem Merged.keep (h : Merged own s l r) (kept : SpanKey → Bool)
    (hkept : ∀ k : SpanKey, own k.session = false → kept k = true) :
    Merged own { s with starts := s.starts.filterKeys kept }
      { l with starts := l.starts.filterKeys kept } r where
  starts k := by
    show (s.starts.filterKeys kept).lookup k =
      if own k.session then (l.starts.filterKeys kept).lookup k else r.starts.lookup k
    rw [Table.lookup_filterKeys, Table.lookup_filterKeys, h.starts]
    cases hown : own k.session with
    | true => rfl
    | false => rw [if_pos (hkept k hown)]; rfl
  left k hk := by
    have hk : ((l.starts.filterKeys kept).lookup k).isSome = true := hk
    rw [Table.lookup_filterKeys] at hk
    split at hk
    · exact h.left k hk
    · contradiction
  right := h.right
  counters := h.counters
  samples := h.samples

/-- A span that is closed on one side is closed in the whole. -/
theorem Merged.drop (h : Merged own s l r) (hk : own k.session = true) :
    Merged own { s with starts := s.starts.erase k } { l with starts := l.starts.erase k } r := by
  rw [Table.erase_eq_filterKeys, Table.erase_eq_filterKeys]
  refine h.keep _ fun k' hk' => ?_
  have hne : k' ≠ k := fun heq => by
    rw [heq, hk] at hk'
    contradiction
  simp [hne]

/-- So is a sample. -/
theorem Merged.sampled (h : Merged own s l r) (x : LatencySample) :
    Merged own { s with samples := s.samples ++ [x] } { l with samples := l.samples ++ [x] } r where
  starts := h.starts
  left := h.left
  right := h.right
  counters := h.counters
  samples := by
    show (s.samples ++ [x]).Perm (l.samples ++ [x] ++ r.samples)
    refine (h.samples.append_right [x]).trans ?_
    rw [List.append_assoc, List.append_assoc]
    exact List.perm_append_comm.append_left l.samples

/-! ## operations of an event -/

/-- An operation that refuses no start acts on the observer of its session. -/
structure Joined (own : Bytes × Nat → Bool) (f : ObserverState → ObserverState) : Prop where
  grows : ∀ s : ObserverState, s.refused ≤ (f s).refused
  merged : ∀ s l r, Merged own s l r → (f s).refused = 0 → Merged own (f s) (f l) r

/-- What joins on each step joins on both. -/
theorem Joined.comp {f g : ObserverState → ObserverState} (hg : Joined own g) (hf : Joined own f) :
    Joined own fun s => g (f s) where
  grows s := Nat.le_trans (hf.grows s) (hg.grows (f s))
  merged s l r h hnone := by
    have hone : (f s).refused = 0 := Nat.le_zero.mp (hnone ▸ hg.grows (f s))
    exact hg.merged (f s) (f l) r (hf.merged s l r h hone) hnone

/-- No count of refusals is taken back. -/
theorem refused_increment (s : ObserverState) (name : Bytes) (value : Nat) :
    s.refused ≤ (s.increment name value).refused := by
  unfold refused
  rw [counter_increment]
  exact Nat.le_add_right _ _

/-- Counting joins. -/
theorem joined_increment (name : Bytes) (value : Nat) :
    Joined own fun s => s.increment name value :=
  ⟨fun s => refused_increment s name value, fun _ _ _ h _ => h.increment name value⟩

/-- Opening a span of one side joins, where the limit refuses none. -/
theorem joined_begin (he : own e.session = true) (phase : SpanPhase) (operation : Bool) :
    Joined own fun s => s.begin limit e phase operation where
  grows s := by
    unfold begin
    dsimp only
    split
    · exact refused_increment { s with starts := _ } _ _
    · split
      · exact refused_increment s _ _
      · exact Nat.le_refl _
  merged s l r h hnone := by
    have hk : own (spanKey e phase operation).session = true := he
    have hlookup := h.lookup hk
    unfold begin at hnone ⊢
    dsimp only at hnone ⊢
    rw [hlookup] at hnone ⊢
    split
    · exact (h.put hk 0).increment _ _
    · next hpending =>
      rw [if_neg hpending] at hnone
      split
      · next hfull =>
        rw [if_pos hfull] at hnone
        unfold refused at hnone
        rw [counter_increment, if_pos rfl] at hnone
        exact absurd hnone (Nat.succ_ne_zero _)
      · next hroom =>
        have hfits : ¬ limit ≤ l.starts.size := fun hle =>
          hroom (Nat.le_trans hle (by rw [h.size]; exact Nat.le_add_right _ _))
        rw [if_neg hfits]
        exact h.put hk e.timestamp

/-- Closing a span of one side joins. -/
theorem joined_finish (he : own e.session = true) (phase : SpanPhase) (metric : Bytes)
    (operation required : Bool) :
    Joined own fun s => (s.finish e phase metric operation required).1 where
  grows s := by
    unfold finish
    dsimp only
    split
    · dsimp only
      split
      · exact refused_increment s _ _
      · exact Nat.le_refl _
    · dsimp only
      split
      · exact refused_increment { s with starts := _ } _ _
      · exact Nat.le_refl _
  merged s l r h _ := by
    have hk : own (spanKey e phase operation).session = true := he
    have hlookup := h.lookup hk
    unfold finish
    dsimp only
    rw [hlookup]
    cases l.starts.lookup (spanKey e phase operation) with
    | none =>
        dsimp only
        split
        · exact h.increment _ _
        · exact h
    | some start =>
        dsimp only
        split
        · exact (h.drop hk).increment _ _
        · exact (h.drop hk).sampled _

/-- Discarding spans of one side joins. -/
theorem joined_discard (he : own e.session = true) (entireSession agentOnly : Bool) :
    Joined own fun s => s.discard e entireSession agentOnly where
  grows s := by
    unfold discard
    dsimp only
    split
    · exact refused_increment { s with starts := _ } _ _
    · exact Nat.le_refl _
  merged s l r h _ := by
    have hkept := h.keep (fun k => !k.discarded e entireSession agentOnly) fun k hk => by
      have hne : ¬ (k.sessionId = e.sessionId ∧ k.generation = e.generation) := fun hsame => by
        have hsession : k.session = e.session := Prod.ext hsame.1 hsame.2
        rw [hsession, he] at hk
        contradiction
      unfold SpanKey.discarded
      by_cases hid : k.sessionId = e.sessionId
      · have hg : k.generation ≠ e.generation := fun hg => hne ⟨hid, hg⟩
        simp [hg]
      · simp [hid]
    have hsize := h.size
    have hsize' := hkept.size
    dsimp only at hsize'
    unfold discard
    dsimp only
    have hcount : s.starts.size - (s.starts.filterKeys fun k =>
          !k.discarded e entireSession agentOnly).size =
        l.starts.size - (l.starts.filterKeys fun k => !k.discarded e entireSession agentOnly).size := by
      omega
    rw [hcount]
    split
    · exact hkept.increment _ _
    · exact hkept

theorem finishEither_eq (s : ObserverState) (e : Event) (phase : SpanPhase) (metric : Bytes) :
    s.finishEither e phase metric =
      if (s.starts.lookup (spanKey e phase false)).isSome || e.turnId = [] then
        (s.finish e phase metric false false).1
      else ((s.finish e phase metric false false).1.finish { e with turnId := [] } phase metric
        false false).1 := by
  unfold finishEither
  have hfound : (s.finish e phase metric false false).2 =
      (s.starts.lookup (spanKey e phase false)).isSome := by
    unfold finish
    dsimp only
    cases s.starts.lookup (spanKey e phase false) <;> rfl
  rw [← hfound]

theorem joined_finishEither (he : own e.session = true) (phase : SpanPhase) (metric : Bytes) :
    Joined own fun s => s.finishEither e phase metric := by
  have hfirst : Joined own fun s => (s.finish e phase metric false false).1 :=
    joined_finish he phase metric false false
  have hbare : own ({ e with turnId := [] } : Event).session = true := he
  have hsecond : Joined own fun s => (s.finish { e with turnId := [] } phase metric false false).1 :=
    joined_finish hbare phase metric false false
  have hboth := hsecond.comp hfirst
  refine ⟨fun s => ?_, fun s l r h hnone => ?_⟩
  · rw [finishEither_eq]
    split
    · exact hfirst.grows s
    · exact hboth.grows s
  · have hlookup := h.lookup (k := spanKey e phase false) he
    rw [finishEither_eq] at hnone ⊢
    rw [finishEither_eq l, ← hlookup]
    split
    · next hfound =>
      rw [if_pos hfound] at hnone
      exact hfirst.merged s l r h hnone
    · next hfound =>
      rw [if_neg hfound] at hnone
      exact hboth.merged s l r h hnone

theorem joined_erase (he : own e.session = true) (phase : SpanPhase) (operation : Bool) :
    Joined own fun s => { s with starts := s.starts.erase (spanKey e phase operation) } where
  grows _ := Nat.le_refl _
  merged _ _ _ h _ := h.drop (k := spanKey e phase operation) he

theorem joined_chunk (he : own e.session = true) :
    Joined own fun s => if (s.starts.lookup (spanKey e .ttsTotal false)).isSome then s
      else (s.begin limit e .ttsFirstAudio false).begin limit e .ttsTotal false := by
  have hbegin : Joined own fun s =>
      (s.begin limit e .ttsFirstAudio false).begin limit e .ttsTotal false :=
    (joined_begin he .ttsTotal false).comp (joined_begin he .ttsFirstAudio false)
  refine ⟨fun s => ?_, fun s l r h hnone => ?_⟩
  · split
    · exact Nat.le_refl _
    · exact hbegin.grows s
  · have hlookup := h.lookup (k := spanKey e .ttsTotal false) he
    rw [← hlookup]
    split
    · exact h
    · next hsilent =>
      rw [if_neg hsilent] at hnone
      exact hbegin.merged s l r h hnone

/-- An event acts on the observer of its session. -/
theorem joined_observe (he : own e.session = true) : Joined own fun s => s.observe limit e := by
  have hcount (name : Bytes) (value : Nat) : Joined own fun s => s.increment name value :=
    joined_increment name value
  have hbegin (phase : SpanPhase) (operation : Bool) :
      Joined own fun s => s.begin limit e phase operation := joined_begin he phase operation
  have hfinish (phase : SpanPhase) (metric : Bytes) (operation required : Bool) :
      Joined own fun s => (s.finish e phase metric operation required).1 :=
    joined_finish he phase metric operation required
  have hdiscard (entireSession agentOnly : Bool) :
      Joined own fun s => s.discard e entireSession agentOnly :=
    joined_discard he entireSession agentOnly
  cases htype : e.type with
  | turnStarted =>
      simp only [observe, htype]
      exact (hbegin .turn false).comp (hcount _ 1)
  | modelStarted =>
      simp only [observe, htype]
      exact ((hbegin .firstToken true).comp (hbegin .model true)).comp (hcount _ 1)
  | toolStarted =>
      simp only [observe, htype]
      exact (hbegin .tool true).comp (hcount _ 1)
  | asrEndOfUtterance =>
      simp only [observe, htype]
      exact ((hbegin .conversationTurn false).comp
        ((hbegin .s2sFirstAudio false).comp (hbegin .asrFinal false))).comp (hcount _ 1)
  | inputSpeechEnded =>
      simp only [observe, htype]
      exact ((hbegin .conversationTurn false).comp ((hbegin .duplexFirstAudible false).comp
        (hbegin .duplexFirstAudio false))).comp (hcount _ 1)
  | transcriptFinal =>
      simp only [observe, htype]
      exact (hfinish .asrFinal _ false false).comp (hcount _ 1)
  | firstToken =>
      simp only [observe, htype]
      exact (hfinish .firstToken _ true true).comp (hcount _ 1)
  | modelCompleted =>
      simp only [observe, htype]
      exact ((joined_erase he .firstToken true).comp (hfinish .model _ true true)).comp (hcount _ 1)
  | toolCompleted =>
      simp only [observe, htype]
      exact (hfinish .tool _ true true).comp (hcount _ 1)
  | turnCompleted =>
      simp only [observe, htype]
      exact ((hdiscard false true).comp (hfinish .turn _ false true)).comp (hcount _ 1)
  | turnCancelled | turnFailed =>
      simp only [observe, htype]
      exact ((hdiscard false true).comp (hcount _ 1)).comp (hcount _ 1)
  | ttsChunkStarted =>
      simp only [observe, htype]
      exact (joined_chunk he).comp (hcount _ 1)
  | firstAudio =>
      simp only [observe, htype]
      exact ((hfinish .s2sFirstAudio _ false false).comp
        (hfinish .ttsFirstAudio _ false true)).comp (hcount _ 1)
  | audioOutput =>
      simp only [observe, htype]
      exact (joined_finishEither he .duplexFirstAudio _).comp (hcount _ 1)
  | playbackStarted =>
      simp only [observe, htype]
      exact (joined_finishEither he .duplexFirstAudible _).comp (hcount _ 1)
  | bargeInDetected =>
      simp only [observe, htype]
      exact (hbegin .bargeInStop false).comp (hcount _ 1)
  | outputCancelled =>
      simp only [observe, htype]
      exact ((hdiscard false false).comp (hfinish .bargeInStop _ false false)).comp (hcount _ 1)
  | speechCompleted =>
      simp only [observe, htype]
      exact (hfinish .ttsTotal _ false false).comp (hcount _ 1)
  | conversationTurnCompleted =>
      simp only [observe, htype]
      exact ((hdiscard false false).comp (joined_finishEither he .conversationTurn _)).comp
        (hcount _ 1)
  | conversationTurnCancelled | conversationTurnFailed =>
      simp only [observe, htype]
      exact (hdiscard false false).comp (hcount _ 1)
  | sessionStopped | sessionFailed | realtimeSessionClosed =>
      simp only [observe, htype]
      exact (hdiscard true false).comp (hcount _ 1)
  | error =>
      simp only [observe, htype]
      exact (hcount _ 1).comp (hcount _ 1)
  | realtimeSessionStarted | inputSpeechStarted | transcriptPartial | modelTextDelta | speechStarted
  | playbackProgress | sessionStarted | responseCancelRequested =>
      simp only [observe, htype]
      exact hcount _ 1

/-- Refusals are never taken back. -/
theorem refused_observe (s : ObserverState) (limit : Nat) (e : Event) :
    s.refused ≤ (s.observe limit e).refused := by
  have hjoined : Joined (fun _ => true) fun s => s.observe limit e := joined_observe rfl
  exact hjoined.grows s

theorem refused_foldl (s : ObserverState) (limit : Nat) (events : List Event) :
    s.refused ≤ (events.foldl (fun s e => s.observe limit e) s).refused := by
  induction events generalizing s with
  | nil => exact Nat.le_refl _
  | cons e events ih => exact Nat.le_trans (refused_observe s limit e) (ih _)

/-- An interleaving of two groups of sessions, none of whose starts is refused. -/
theorem Merged.run {xs ys zs : List Event} (h : Merged own s l r) (hzs : List.Interleaved xs ys zs)
    (hxs : ∀ x ∈ xs, own x.session = true) (hys : ∀ y ∈ ys, own y.session = false)
    (hnone : (zs.foldl (fun s e => s.observe limit e) s).refused = 0) :
    Merged own (zs.foldl (fun s e => s.observe limit e) s)
      (xs.foldl (fun s e => s.observe limit e) l) (ys.foldl (fun s e => s.observe limit e) r) := by
  induction hzs generalizing s l r with
  | nil => exact h
  | @left e u v w hrest ih =>
      have hone : (s.observe limit e).refused = 0 :=
        Nat.le_zero.mp (hnone ▸ refused_foldl (s.observe limit e) limit w)
      have hstep := (joined_observe (hxs e List.mem_cons_self)).merged s l r h hone
      exact ih hstep (fun x hx => hxs x (List.mem_cons_of_mem e hx)) hys hnone
  | @right e u v w hrest ih =>
      have hone : (s.observe limit e).refused = 0 :=
        Nat.le_zero.mp (hnone ▸ refused_foldl (s.observe limit e) limit w)
      have hother : (fun session => !own session) e.session = true := by
        show (!own e.session) = true
        rw [hys e List.mem_cons_self]
        rfl
      have hstep := (joined_observe hother).merged s r l h.symm hone
      have hback := hstep.symm
      simp only [Bool.not_not] at hback
      exact ih hback hxs (fun y hy => hys y (List.mem_cons_of_mem e hy)) hnone

theorem merged_init (own : Bytes × Nat → Bool) : Merged own {} {} {} where
  starts k := by split <;> rfl
  left k hk := by
    have hnone : ((∅ : Table SpanKey Int).lookup k).isSome = true := hk
    rw [AList.lookup_empty] at hnone
    contradiction
  right k hk := by
    have hnone : ((∅ : Table SpanKey Int).lookup k).isSome = true := hk
    rw [AList.lookup_empty] at hnone
    contradiction
  counters name := rfl
  samples := List.Perm.refl _

theorem Merged.histogram (h : Merged own s l r) (metric : Bytes) :
    s.histogram metric = (l.histogram metric).add (r.histogram metric) := by
  refine histogram_append ?_
  unfold values
  rw [← List.map_append, ← List.filter_append]
  exact (h.samples.filter _).map _

end ObserverState

/-- What one observer says of two groups of sessions is the sum of what two say. -/
structure Separated (s l r : ObserverState) : Prop where
  histograms : ∀ metric, s.histogram metric = (l.histogram metric).add (r.histogram metric)
  counters : ∀ name, s.counter name = l.counter name + r.counter name
  pending : ∀ k v, s.starts.lookup k = some v ↔
    l.starts.lookup k = some v ∨ r.starts.lookup k = some v
  disjoint : ∀ k, l.starts.lookup k = none ∨ r.starts.lookup k = none
  spans : s.pendingSpans = l.pendingSpans + r.pendingSpans

/-- **Sessions**: an interleaving of the events of two groups of sessions is
measured as if each group had an observer of its own. -/
theorem observer_sessions (limit : Nat) (xs ys zs : List Event)
    (hzs : List.Interleaved xs ys zs) (hapart : ∀ x ∈ xs, ∀ y ∈ ys, x.session ≠ y.session)
    (hlimit : (observeAll limit zs).refused = 0) :
    Separated (observeAll limit zs) (observeAll limit xs) (observeAll limit ys) := by
  have hown : ∀ x ∈ xs, (fun session => xs.any (·.session = session)) x.session = true :=
    fun x hx => List.any_eq_true.mpr ⟨x, hx, decide_eq_true rfl⟩
  have hother : ∀ y ∈ ys, (fun session => xs.any (·.session = session)) y.session = false := by
    intro y hy
    refine Bool.eq_false_iff.mpr fun hany => ?_
    obtain ⟨x, hx, hsame⟩ := List.any_eq_true.mp hany
    exact hapart x hx y hy (of_decide_eq_true hsame)
  have hmerged := (ObserverState.merged_init fun session => xs.any (·.session = session)).run hzs hown hother hlimit
  have hapartKeys (k : SpanKey) :
      (observeAll limit xs).starts.lookup k = none ∨ (observeAll limit ys).starts.lookup k = none := by
    cases hl : (observeAll limit xs).starts.lookup k with
    | none => exact .inl rfl
    | some v =>
        cases hr : (observeAll limit ys).starts.lookup k with
        | none => exact .inr rfl
        | some v' =>
            have hleft := hmerged.left k (Option.isSome_iff_exists.mpr ⟨v, hl⟩)
            rw [hmerged.right k (Option.isSome_iff_exists.mpr ⟨v', hr⟩)] at hleft
            contradiction
  refine ⟨hmerged.histogram, hmerged.counters, fun k v => ?_, hapartKeys, hmerged.size⟩
  have hstarts : (observeAll limit zs).starts.lookup k = _ := hmerged.starts k
  rw [hstarts]
  constructor
  · intro hv
    split at hv
    · exact .inl hv
    · exact .inr hv
  · rintro (hl | hr)
    · rw [if_pos (hmerged.left k (Option.isSome_iff_exists.mpr ⟨v, hl⟩))]
      exact hl
    · rw [if_neg (by simp [hmerged.right k (Option.isSome_iff_exists.mpr ⟨v, hr⟩)])]
      exact hr

/-- A tool call of one session. -/
def toolSession : List Event := [
  { type := .toolStarted, sessionId := lit "a", generation := 1, turnId := lit "1", timestamp := 1 },
  { type := .toolCompleted, sessionId := lit "a", generation := 1, turnId := lit "1", timestamp := 9 }]

/-- A tool call of the next incarnation of the session, which is cancelled. -/
def cancelledSession : List Event := [
  { type := .toolStarted, sessionId := lit "a", generation := 2, turnId := lit "1", timestamp := 2 },
  { type := .turnCancelled, sessionId := lit "a", generation := 2, turnId := lit "1", timestamp := 5 }]

/-- Both at once. -/
def bothSessions : List Event :=
  toolSession.take 1 ++ cancelledSession ++ toolSession.drop 1

theorem bothSessions_separated :
    ((observeAll 2 bothSessions).histogram (lit "byteturn_tool_duration_ms")).count = 1 ∧
      Separated (observeAll 2 bothSessions) (observeAll 2 toolSession)
        (observeAll 2 cancelledSession) := by
  refine ⟨by decide +kernel, observer_sessions 2 _ _ _ ?_ (by decide) (by decide +kernel)⟩
  exact .left (.right (.right (.left .nil)))

end ByteTurn

import ByteTurn.Agent.Trace
import ByteTurn.SentenceSegmenter.Cuts

/-!
# ByteTurn.Conversation.Speech

What a turn of `Conversation` says (`on_transcript` in `conversation.cpp`).

The agent's deltas go through the segmenter of the turn, and the sentences it
returns through `speak`, which hands them to the TTS pipeline.  The segmenter
lives for the whole turn and is flushed once, at its end: what a model call
leaves in its buffer is cut together with the text of the next call, unless it is
only spaces (`FreshCalls`).
-/

namespace ByteTurn

/-! ## the turn -/

/-- What `speak` does with a sentence. -/
inductive SpeakAnswer where
  /-- The turn is no longer the conversation's: false, and the sentence goes nowhere. -/
  | stale
  /-- Something threw before the sentence was handed over. -/
  | thrown
  /-- The sentence is handed to `IncrementalTtsPipeline::push`, whose answer is returned. -/
  | pushed (accepted : Bool)
  deriving DecidableEq, Repr

/-- Whether the sentence is handed to the pipeline. -/
def SpeakAnswer.handed : SpeakAnswer → Bool
  | .pushed _ => true
  | _ => false

/-- Whether the loop over the sentences goes on. -/
def SpeakAnswer.goesOn : SpeakAnswer → Bool
  | .pushed accepted => accepted
  | _ => false

/-- A sentence the segmenter has returned, and what `speak` did with it, if it
was given to it. -/
structure SpokenSentence where
  sentence : Bytes
  answer : Option SpeakAnswer
  deriving DecidableEq, Repr

/-- The segmenter of a turn, and the sentences it has returned so far. -/
structure SpokenTurn where
  segmenter : SentenceSegmenter
  sentences : List SpokenSentence := []

/-- `for (auto& sentence : …) if (!speak(std::move(sentence))) …`, with the
sentences before it: false when the loop was left early. -/
def speakAll (answers : Nat → SpeakAnswer) (before : List SpokenSentence) :
    List Bytes → List SpokenSentence × Bool
  | [] => (before, true)
  | sentence :: rest =>
      let answer := answers before.length
      let spoken := before ++ [⟨sentence, some answer⟩]
      if answer.goesOn then speakAll answers spoken rest
      else (spoken ++ rest.map (⟨·, none⟩), false)

namespace SpokenTurn

/-- The sentences of a call of the segmenter, spoken; nothing is spoken when it throws. -/
def speak (answers : Nat → SpeakAnswer) (turn : SpokenTurn) :
    Except Exception (List Bytes) × SentenceSegmenter → SpokenTurn × Bool
  | (.ok sentences, segmenter) =>
      let (spoken, answer) := speakAll answers turn.sentences sentences
      (⟨segmenter, spoken⟩, answer)
  | (.error _, segmenter) => ({ turn with segmenter := segmenter }, false)

/-- The delta sink of `on_transcript`. -/
def onTextDelta (answers : Nat → SpeakAnswer) (turn : SpokenTurn) (delta : Bytes) :
    SpokenTurn × Bool :=
  turn.speak answers (turn.segmenter.push delta)

/-- The completion of `on_transcript`, up to `finish`. -/
def onCompleted (answers : Nat → SpeakAnswer) (turn : SpokenTurn) : SpokenTurn :=
  (turn.speak answers turn.segmenter.flush).1

/-- The turn after the deltas of the agent, and after its completion if it gets there. -/
def run (answers : Nat → SpeakAnswer) (turn : SpokenTurn) (deltas : List Bytes)
    (completes : Bool) : SpokenTurn :=
  let turn := deltas.foldl (fun turn delta => (turn.onTextDelta answers delta).1) turn
  if completes then turn.onCompleted answers else turn

end SpokenTurn

/-- The defaults pass the check of the constructor. -/
theorem SentenceSegmenterConfig.defaults (config : SentenceSegmenterConfig) (h : config = {}) :
    0 < config.minCharacters ∧ config.minCharacters ≤ config.targetCharacters ∧
      config.targetCharacters ≤ config.hardMaxCharacters := by
  rw [h]
  decide

/-- The segmenter of `SpeechTurn`, with the defaults of its configuration. -/
def SentenceSegmenter.fresh : SentenceSegmenter :=
  have h := SentenceSegmenterConfig.defaults {} rfl
  ⟨{}, [], h.1, h.2.1, h.2.2⟩

/-- The cuts behind the sentences of a turn. -/
def turnCuts (deltas : List Bytes) (completes : Bool) : List Cut :=
  SentenceSegmenter.fresh.pushCuts [] deltas ++
    if completes then (SentenceSegmenter.fresh.pushes deltas).2.extractCuts true deltas.flatten
    else []

/-! ## the text of the model calls -/

/-- The deltas of each model call of a trace. -/
def modelCalls (trace : List Event) : List (List Bytes) :=
  (itemsByCall .modelTextDelta trace).map (·.map (·.2))

/-- The deltas of a trace, in order. -/
def traceDeltas (trace : List Event) : List Bytes :=
  (trace.filter (·.type = .modelTextDelta)).map (·.data)

theorem addItem_flatten {type : EventType} (htype : type ≠ .modelStarted)
    (calls : List (List (Bytes × Bytes))) (event : Event) :
    (addItem type calls event).flatten =
      calls.flatten ++ if event.type = type then [(event.name, event.data)] else [] := by
  unfold addItem
  split
  · next hstarted => simp [hstarted, htype.symm]
  · split
    · cases calls using List.reverseRecOn with
      | nil => rfl
      | append_singleton calls last => simp
    · exact (List.append_nil _).symm

theorem modelCalls_flatten (trace : List Event) :
    (modelCalls trace).flatten = traceDeltas trace := by
  rw [modelCalls, ← List.map_flatten]
  induction trace using List.reverseRecOn with
  | nil => rfl
  | append_singleton trace event ih =>
      have hflatten := @addItem_flatten .modelTextDelta nofun (itemsByCall .modelTextDelta trace) event
      rw [itemsByCall, List.foldl_append]
      show ((addItem .modelTextDelta (itemsByCall .modelTextDelta trace) event).flatten).map _ = _
      rw [hflatten, List.map_append, ih, traceDeltas, traceDeltas, List.filter_append,
        List.map_append]
      by_cases htype : event.type = .modelTextDelta <;> simp [htype]

/-- Every delta that is passed on is a delta of the trace. -/
def DeltasTraced (s t : AgentState) : Prop :=
  ∃ events, t.trace = s.trace ++ events ∧ t.deltas = s.deltas ++ traceDeltas events

theorem DeltasTraced.of_same {s t : AgentState} (htrace : t.trace = s.trace)
    (hdeltas : t.deltas = s.deltas) : DeltasTraced s t :=
  ⟨[], by rw [htrace, List.append_nil], by rw [hdeltas]; exact (List.append_nil _).symm⟩

theorem DeltasTraced.trans (s t u : AgentState) (hst : DeltasTraced s t) (htu : DeltasTraced t u) : DeltasTraced s u := by
  obtain ⟨events, htrace, hdeltas⟩ := hst
  obtain ⟨events', htrace', hdeltas'⟩ := htu
  refine ⟨events ++ events', ?_, ?_⟩
  · rw [htrace', htrace, List.append_assoc]
  · rw [hdeltas', hdeltas, traceDeltas, traceDeltas, traceDeltas, List.filter_append,
      List.map_append, List.append_assoc]

/-- An event that is no delta. -/
theorem DeltasTraced.emitted {call : AgentCall} {type : EventType} {name data : Bytes}
    (s : AgentState) (htype : type ≠ .modelTextDelta) :
    DeltasTraced s (Agent.emitted call type name data s) := by
  refine ⟨[Agent.turnEvent call type name data], rfl, ?_⟩
  simp [Agent.emitted, traceDeltas, Agent.turnEvent, htype]

theorem DeltasTraced.polled {call : AgentCall} (s : AgentState) : DeltasTraced s (Agent.polled call s) := by
  unfold Agent.polled
  split
  · exact .of_same rfl rfl
  · exact .of_same rfl rfl

theorem DeltasTraced.pieces {call : AgentCall} : Agent.Pieces call DeltasTraced where
  refl _ := .of_same rfl rfl
  trans := .trans
  polled := .polled
  emitted s _ _ _ htype := .emitted s htype
  handlerBegun s _ := .trans s (Agent.polled call s) _ (.polled s) (.of_same rfl rfl)
  modelBegun s step _ := by
    refine .trans s (Agent.polled call s) _ (.polled s) ?_
    refine .trans _ (Agent.emitted call .modelStarted (Agent.decimal step) [] (Agent.polled call s))
      _ (.emitted _ nofun) (.of_same rfl rfl)
  deltaPassed s step delta :=
    ⟨[Agent.turnEvent call .modelTextDelta (Agent.decimal step) delta], rfl, rfl⟩
  returned _ _ := .of_same rfl rfl
  history _ _ := .of_same rfl rfl

/-! ## the sentences of a turn -/

theorem speakAll_sentences (answers : Nat → SpeakAnswer) (before : List SpokenSentence)
    (sentences : List Bytes) :
    (speakAll answers before sentences).1.map (·.sentence) =
      before.map (·.sentence) ++ sentences := by
  induction sentences generalizing before with
  | nil => exact (List.append_nil _).symm
  | cons sentence rest ih =>
      rw [speakAll]
      split
      · rw [ih, List.map_append, List.append_assoc]
        rfl
      · simp [Function.comp_def]

namespace SpokenTurn

variable {answers : Nat → SpeakAnswer}

theorem speak_ok (turn : SpokenTurn) (sentences : List Bytes) (segmenter : SentenceSegmenter) :
    (turn.speak answers (.ok sentences, segmenter)).1.segmenter = segmenter ∧
      (turn.speak answers (.ok sentences, segmenter)).1.sentences.map (·.sentence) =
        turn.sentences.map (·.sentence) ++ sentences :=
  ⟨rfl, speakAll_sentences answers turn.sentences sentences⟩

/-- By induction on the deltas: the sentences of the pushes, after those before. -/
theorem deltas_sentences (turn : SpokenTurn) (deltas : List Bytes) {sentences : List Bytes}
    {segmenter : SentenceSegmenter}
    (hpushes : turn.segmenter.pushes deltas = (.ok sentences, segmenter)) :
    (deltas.foldl (fun turn delta => (turn.onTextDelta answers delta).1) turn).segmenter =
        segmenter ∧
      (deltas.foldl (fun turn delta => (turn.onTextDelta answers delta).1) turn).sentences.map
        (·.sentence) = turn.sentences.map (·.sentence) ++ sentences := by
  induction deltas generalizing turn sentences with
  | nil =>
      cases hpushes
      exact ⟨rfl, (List.append_nil _).symm⟩
  | cons delta rest ih =>
      rw [SentenceSegmenter.pushes] at hpushes
      cases hpush : turn.segmenter.push delta with
      | mk first after =>
          rw [hpush] at hpushes
          cases first with
          | error e => cases hpushes
          | ok first =>
              cases hrest : after.pushes rest with
              | mk later last =>
                  simp only [hrest] at hpushes
                  cases later with
                  | error e => cases hpushes
                  | ok later =>
                      cases hpushes
                      obtain ⟨hsegmenter, hsentences⟩ := @speak_ok answers turn first after
                      obtain ⟨hlast, hall⟩ := ih (turn.speak answers (.ok first, after)).1
                        (hsegmenter ▸ hrest)
                      rw [List.foldl_cons, onTextDelta, hpush]
                      refine ⟨hlast, ?_⟩
                      rw [hall, hsentences, List.append_assoc]

/-- The sentences of a turn are those of its cuts, which are placed in its text. -/
theorem run_sentences (deltas : List Bytes) (completes : Bool) :
    (run answers ⟨.fresh, []⟩ deltas completes).sentences.map (·.sentence) =
        (turnCuts deltas completes).map Cut.sentence ∧
      PlacedCuts deltas.flatten [] (turnCuts deltas completes) := by
  obtain ⟨segmenter, taken, hpushes, -, hplaced, htext, hspaced⟩ :=
    @SentenceSegmenter.pushes_cuts .fresh deltas [] [] [] rfl (.blank nofun)
  rw [List.nil_append] at hplaced htext
  rw [List.nil_append] at hspaced
  obtain ⟨hsegmenter, hsentences⟩ :=
    @deltas_sentences answers ⟨.fresh, []⟩ deltas _ _ hpushes
  rw [List.map_nil, List.nil_append] at hsentences
  unfold run turnCuts
  cases completes with
  | false =>
      rw [if_neg Bool.false_ne_true, if_neg Bool.false_ne_true, List.append_nil]
      exact ⟨hsentences, hplaced⟩
  | true =>
      rw [if_pos rfl, if_pos rfl, onCompleted, hsegmenter, hpushes]
      dsimp only
      by_cases hcomplete : CompleteUtf8 segmenter.buffer
      · obtain ⟨last, _, hflush, -, hlast, -, -⟩ :=
          segmenter.extract_cuts true (fun _ => hcomplete) htext hspaced
        have hspoken := @speak_ok answers
          (deltas.foldl (fun turn delta => (turn.onTextDelta answers delta).1) ⟨.fresh, []⟩)
          ((segmenter.extractCuts true deltas.flatten).map Cut.sentence) last
        refine ⟨?_, hplaced.append hlast⟩
        rw [SentenceSegmenter.flush, hflush, hspoken.2, hsentences, List.map_append]
      · -- a flush in the middle of a code point throws
        have hnone : segmenter.extractCuts true deltas.flatten = [] := by
          rw [SentenceSegmenter.extractCuts, SentenceSegmenter.extractRounds, rounds,
            if_pos (.inr ⟨rfl, hcomplete⟩)]
          rfl
        rw [hnone, List.append_nil, SentenceSegmenter.flush_incomplete hcomplete]
        exact ⟨hsentences, hplaced⟩

/-- Every sentence handed to the pipeline lies in one of the texts. -/
def HandedWithin (turn : SpokenTurn) (texts : List Bytes) : Prop :=
  ∀ (i : Nat) (sentence : Bytes) (answer : SpeakAnswer),
    turn.sentences[i]? = some ⟨sentence, some answer⟩ → answer.handed = true →
    PartOfOne texts ((turn.sentences.take i).map (·.sentence)) sentence

/-- No cut whose sentence is handed to the pipeline goes by the end of a text. -/
def CutsWithin (turn : SpokenTurn) (cuts : List Cut) (texts : List Bytes) : Prop :=
  ∀ (i : Nat) (cut : Cut) (sentence : Bytes) (answer : SpeakAnswer), cuts[i]? = some cut →
    turn.sentences[i]? = some ⟨sentence, some answer⟩ → answer.handed = true → ¬ cut.Joins texts

theorem handedWithin_iff {deltas texts : List Bytes} (completes : Bool)
    (htexts : texts.flatten = deltas.flatten) :
    (run answers ⟨.fresh, []⟩ deltas completes).HandedWithin texts ↔
      (run answers ⟨.fresh, []⟩ deltas completes).CutsWithin (turnCuts deltas completes) texts := by
  obtain ⟨hsentences, hplaced⟩ := @run_sentences answers deltas completes
  generalize run answers ⟨.fresh, []⟩ deltas completes = turn at hsentences ⊢
  have hearlier : ∀ i, (turn.sentences.take i).map (·.sentence) =
      ((turnCuts deltas completes).take i).map Cut.sentence := by
    intro i
    rw [List.map_take, hsentences, List.map_take]
  -- the sentence at a place is that of the cut at the place
  have hone : ∀ {i cut sentence answer}, (turnCuts deltas completes)[i]? = some cut →
      turn.sentences[i]? = some ⟨sentence, some answer⟩ →
      (PartOfOne texts ((turn.sentences.take i).map (·.sentence)) sentence ↔
        ¬ cut.Joins texts) := by
    intro i cut sentence answer hcut hsentence
    obtain rfl : cut.sentence = sentence := by
      have hsame := congrArg (·[i]?) hsentences
      simp only [List.getElem?_map, hcut, hsentence, Option.map_some, Option.some.injEq] at hsame
      exact hsame.symm
    obtain ⟨hspaced, htext, hne⟩ := hplaced.getElem? hcut
    rw [List.nil_append] at hspaced
    rw [hearlier]
    exact Cut.partOfOne_iff hspaced (htexts ▸ htext) hne
  constructor
  · intro h i cut sentence answer hcut hsentence hhanded
    exact (hone hcut hsentence).mp (h i sentence answer hsentence hhanded)
  · intro h i sentence answer hsentence hhanded
    obtain ⟨cut, hcut⟩ : ∃ cut, (turnCuts deltas completes)[i]? = some cut := by
      have hsame := congrArg (·[i]?) hsentences
      simp only [List.getElem?_map, hsentence, Option.map_some] at hsame
      obtain ⟨cut, hcut, -⟩ := Option.map_eq_some_iff.mp hsame.symm
      exact ⟨cut, hcut⟩
    exact (hone hcut hsentence).mpr (h i cut sentence answer hcut hsentence hhanded)

/-! ## model calls that find the buffer empty -/

/-- Whenever a model call begins to say something, the buffer of the segmenter holds
only spaces. -/
def FreshCalls (answers : Nat → SpeakAnswer) (calls : List (List Bytes)) : Prop :=
  ∀ (before : List (List Bytes)) (call : List Bytes) (after : List (List Bytes)),
    calls = before ++ call :: after → ¬ Blank call.flatten →
      Blank (run answers ⟨.fresh, []⟩ before.flatten false).segmenter.buffer

/-- The first of the calls that says something. -/
theorem first_speaking {calls : List (List Bytes)} (h : ¬ Blank calls.flatten.flatten) :
    ∃ before call after, calls = before ++ call :: after ∧ Blank before.flatten.flatten ∧
      ¬ Blank call.flatten := by
  induction calls with
  | nil => exact absurd nofun h
  | cons call rest ih =>
      by_cases hcall : Blank call.flatten
      · have hrest : ¬ Blank rest.flatten.flatten := fun hblank =>
          h (by rw [List.flatten_cons, List.flatten_append]; exact hcall.append hblank)
        obtain ⟨before, call', after, rfl, hbefore, hspeaks⟩ := ih hrest
        refine ⟨call :: before, call', after, rfl, ?_, hspeaks⟩
        rw [List.flatten_cons, List.flatten_append]
        exact hcall.append hbefore
      · exact ⟨[], call, rest, rfl, nofun, hcall⟩

/-- No cut goes by the end of a text that leaves only spaces in the buffer: the cuts
after it begin where all that is no space has left the buffer. -/
theorem cut_apart {before after : List Bytes} {completes : Bool} {i : Nat} {cut : Cut}
    (hcut : (turnCuts (before ++ after) completes)[i]? = some cut)
    (hbuffer : Blank (run answers ⟨.fresh, []⟩ before false).segmenter.buffer) :
    Blank (cut.piece.take (before.flatten.length - cut.taken.length)) ∨
      Blank (cut.piece.drop (before.flatten.length - cut.taken.length)) := by
  obtain ⟨segmenter, taken, hpushes, -, hplaced, htext, hspaced⟩ :=
    @SentenceSegmenter.pushes_cuts .fresh before [] [] [] rfl (.blank nofun)
  rw [List.nil_append] at hplaced htext hspaced
  have hsegmenter := (@deltas_sentences answers ⟨.fresh, []⟩ before _ _ hpushes).1
  have hblank : Blank segmenter.buffer := hsegmenter ▸ hbuffer
  have hpushed : SentenceSegmenter.fresh.pushCuts [] before <+:
      turnCuts (before ++ after) completes :=
    (SentenceSegmenter.pushCuts_prefix _ _ _ _).trans (List.prefix_append _ _)
  by_cases hi : i < (SentenceSegmenter.fresh.pushCuts [] before).length
  · -- the cut is over before the end
    right
    obtain ⟨rest, hrest⟩ := hpushed
    rw [← hrest, List.getElem?_append_left hi] at hcut
    have hlength := (hplaced.getElem? hcut).2.1.length_le
    rw [List.length_append] at hlength
    have hpiece : cut.piece.length ≤ cut.buffer.length := by
      rw [Cut.piece, List.length_take]
      exact Nat.min_le_right _ _
    rw [List.drop_of_length_le (by omega)]
    exact nofun
  · left
    obtain ⟨-, hall⟩ := @run_sentences answers (before ++ after) completes
    obtain ⟨hlater, hin, -⟩ := hall.getElem? hcut
    by_cases hend : before.flatten.length ≤ cut.taken.length
    · rw [Nat.sub_eq_zero_of_le hend, List.take_zero]
      exact nofun
    -- as much has left the buffer before the cut as before the end
    have hfewer : (unspaced taken).length ≤ (unspaced cut.taken).length := by
      have hearlier : SentenceSegmenter.fresh.pushCuts [] before <+:
          (turnCuts (before ++ after) completes).take i :=
        List.prefix_take_iff.mpr ⟨hpushed, Nat.not_lt.mp hi⟩
      obtain ⟨rest, hrest⟩ := hearlier
      rw [unspaced, unspaced, ← hspaced.filter_flatten, ← hlater.filter_flatten, ← hrest]
      simp
    have hreaches : cut.taken ++ cut.piece.take (before.flatten.length - cut.taken.length) <+:
        before.flatten := by
      have hpiece : cut.taken ++ cut.piece.take (before.flatten.length - cut.taken.length) <+:
          (before ++ after).flatten := by
        refine List.IsPrefix.trans ?_ hin
        rw [List.prefix_append_right_inj]
        exact (List.take_prefix _ _).trans (List.take_prefix _ _)
      have hend : before.flatten <+: (before ++ after).flatten := by
        rw [List.flatten_append]
        exact List.prefix_append _ _
      refine List.prefix_of_prefix_length_le hpiece hend ?_
      rw [List.length_append, List.length_take]
      omega
    obtain ⟨rest, hrest⟩ := hreaches
    have hcount := congrArg (fun text => (unspaced text).length) (hrest.trans htext)
    simp only [unspaced_append, List.length_append, unspaced_eq_nil.mpr hblank,
      List.length_nil] at hcount
    refine unspaced_eq_nil.mp (List.length_eq_zero_iff.mp ?_)
    omega

/-- Where the buffer is empty whenever a call begins to say something, no cut goes by
the end of a call. -/
theorem cutsWithin_of_freshCalls {calls : List (List Bytes)} (h : FreshCalls answers calls)
    (completes : Bool) :
    (run answers ⟨.fresh, []⟩ calls.flatten completes).CutsWithin
      (turnCuts calls.flatten completes) (calls.map List.flatten) := by
  rintro i cut sentence answer hcut - - ⟨k, hbefore, hafter⟩
  obtain ⟨-, hall⟩ := @run_sentences answers calls.flatten completes
  obtain ⟨-, ⟨tail, htail⟩, -⟩ := hall.getElem? hcut
  rw [← List.map_take, ← List.flatten_flatten] at hbefore hafter
  have hreached : cut.taken.length < (calls.take k).flatten.flatten.length := by
    by_contra hle
    rw [Nat.sub_eq_zero_of_le (Nat.not_lt.mp hle), List.take_zero] at hbefore
    exact hbefore nofun
  have hrest : cut.piece.drop ((calls.take k).flatten.flatten.length - cut.taken.length) <+:
      (calls.drop k).flatten.flatten := by
    refine List.drop_prefix_of_prefix ?_ (Nat.le_of_lt hreached)
    rw [← List.flatten_append, ← List.flatten_append, List.take_append_drop, ← htail,
      List.append_assoc, List.prefix_append_right_inj]
    exact (List.take_prefix _ _).trans (List.prefix_append _ _)
  obtain ⟨before, call, after, hsplit, hquiet, hspeaks⟩ :=
    first_speaking fun hblank => hafter fun b hb => hblank b (hrest.subset hb)
  have hcalls : calls = (calls.take k ++ before) ++ call :: after := by
    rw [List.append_assoc, ← hsplit, List.take_append_drop]
  have hend : (calls.take k ++ before).flatten.flatten.length - cut.taken.length =
      ((calls.take k).flatten.flatten.length - cut.taken.length) +
        before.flatten.flatten.length := by
    rw [List.flatten_append, List.flatten_append, List.length_append]
    omega
  have hcut' : (turnCuts ((calls.take k ++ before).flatten ++ (call :: after).flatten)
      completes)[i]? = some cut := by
    rw [← List.flatten_append, ← hcalls]
    exact hcut
  have hapart := cut_apart hcut' (h _ _ _ hcalls hspeaks)
  rw [hend] at hapart
  cases hapart with
  | inl hblank =>
      exact hbefore fun b hb =>
        hblank b ((List.take_subset_take_left _ (Nat.le_add_right _ _)) hb)
  | inr hblank =>
      -- the calls between the two ends say nothing
      rw [← List.drop_drop] at hblank
      refine hafter ?_
      rw [← List.take_append_drop before.flatten.flatten.length (cut.piece.drop _)]
      refine Blank.append (fun b hb => hquiet b ?_) hblank
      have hbetween := hrest.take before.flatten.flatten.length
      rw [hsplit, List.flatten_append, List.flatten_append, List.take_left] at hbetween
      exact hbetween.subset hb

end SpokenTurn

/-- **When no sentence joins two replies**: in a turn of the agent in which every
model call that says something finds only spaces in the buffer, every sentence
handed to the pipeline lies in the text of one model call.  Whatever the sink
answers and `speak` does, and whether or not the turn completes. -/
theorem spoken_sentence_of_one_call (agent : Agent) (call : AgentCall) (s : AgentState)
    (answers : Nat → SpeakAnswer) (completes : Bool) :
    ∃ events deltas,
      (Agent.finalState ((Agent.runStreaming agent call).run s)).trace = s.trace ++ events ∧
      (Agent.finalState ((Agent.runStreaming agent call).run s)).deltas = s.deltas ++ deltas ∧
      deltas = (modelCalls events).flatten ∧
      (SpokenTurn.FreshCalls answers (modelCalls events) →
        (SpokenTurn.run answers ⟨.fresh, []⟩ deltas completes).HandedWithin
          ((modelCalls events).map List.flatten)) := by
  have hwithin : Programs.Within DeltasTraced (Agent.runStreaming agent call) := DeltasTraced.pieces.runStreaming
  obtain ⟨events, htrace, hdeltas⟩ := hwithin s
  have hfinal : Programs.finalState ((Agent.runStreaming agent call).run s) =
      Agent.finalState ((Agent.runStreaming agent call).run s) := by
    cases (Agent.runStreaming agent call).run s <;> rfl
  rw [hfinal] at htrace hdeltas
  refine ⟨events, traceDeltas events, htrace, hdeltas, (modelCalls_flatten events).symm, ?_⟩
  intro hfresh
  rw [← modelCalls_flatten]
  exact (SpokenTurn.handedWithin_iff completes List.flatten_flatten.symm).mpr
    (SpokenTurn.cutsWithin_of_freshCalls hfresh completes)

/-- A model that says what it is about to do, calls a tool and says what it found. -/
def checkingAgent (first second : Bytes) : Agent where
  llm := fun calls _ =>
    if calls = 0 then .delta first fun _ => .ret {
      text := first
      toolCalls := [{ id := lit "1", name := lit "clock", arguments := [] }] }
    else .delta second fun _ => .ret { text := second }
  tools := ∅

/-- The events of its turn. -/
def checkingEvents (first second : Bytes) : List Event :=
  (Agent.finalState
    ((Agent.runStreaming (checkingAgent first second) { userText := [] }).run {})).trace

/-- The first reply ends in a space, and the buffer is empty when the second begins. -/
theorem spoken_sentence_of_one_call_spaced :
    modelCalls (checkingEvents (lit "Let me check. ") (lit "It is noon.")) =
      [[lit "Let me check. "], [lit "It is noon."]] ∧
    SpokenTurn.FreshCalls (fun _ => .pushed true)
      [[lit "Let me check. "], [lit "It is noon."]] ∧
    (SpokenTurn.run (fun _ => .pushed true) ⟨.fresh, []⟩
      [lit "Let me check. ", lit "It is noon."] true).HandedWithin
        [lit "Let me check. ", lit "It is noon."] := by
  have hcalls : modelCalls (checkingEvents (lit "Let me check. ") (lit "It is noon.")) =
      [[lit "Let me check. "], [lit "It is noon."]] := by decide +kernel
  have hfresh : SpokenTurn.FreshCalls (fun _ => .pushed true)
      [[lit "Let me check. "], [lit "It is noon."]] := by
    intro before call after hsplit _
    match before with
    | [] => exact nofun
    | [_] =>
        obtain rfl := (List.cons.inj hsplit).1
        have hempty : (SpokenTurn.run (fun _ => .pushed true) ⟨.fresh, []⟩
          [lit "Let me check. "] false).segmenter.buffer = [] := by decide +kernel
        exact hempty ▸ nofun
    | _ :: _ :: _ => simp at hsplit
  obtain ⟨events, deltas, htrace, -, rfl, hwithin⟩ := spoken_sentence_of_one_call
    (checkingAgent (lit "Let me check. ") (lit "It is noon.")) { userText := [] } {}
    (fun _ => .pushed true) true
  obtain rfl : checkingEvents (lit "Let me check. ") (lit "It is noon.") = events := htrace
  rw [hcalls] at hwithin
  exact ⟨hcalls, hfresh, hwithin hfresh⟩

theorem spoken_sentence_joins_calls :
    modelCalls (checkingEvents (lit "Let me check") (lit "It is noon.")) =
      [[lit "Let me check"], [lit "It is noon."]] ∧
    (SpokenTurn.run (fun _ => .pushed true) ⟨.fresh, []⟩
      [lit "Let me check", lit "It is noon."] true).sentences =
      [⟨lit "Let me checkIt is noon.", some (.pushed true)⟩] ∧
    ∀ text ∈ [lit "Let me check", lit "It is noon."],
      ¬ lit "Let me checkIt is noon." <:+: text := by
  decide +kernel

end ByteTurn

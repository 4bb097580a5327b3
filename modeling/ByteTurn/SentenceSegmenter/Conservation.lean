import ByteTurn.SentenceSegmenter

/-!
# ByteTurn.SentenceSegmenter.Conservation

The segmenter loses, duplicates and reorders nothing.

`Spaced chunks text` says that the chunks stand in the text in their order, each
of them trimmed, with only spaces around them.  A round of `extract` moves one
chunk or only spaces out of the buffer, so what a call has returned is `Spaced`
in what has left the buffer, and a call on one part of a text composes with the
call on the rest of it.
-/

namespace ByteTurn

/-! ## trimmed chunks -/

/-- A chunk neither starts nor ends with a space. -/
structure Trimmed (s : Bytes) : Prop where
  ne_nil : s ≠ []
  head : ∀ b ∈ s.head?, isSpace b = false
  last : ∀ b ∈ s.getLast?, isSpace b = false

theorem Blank.append {x y : Bytes} (hx : Blank x) (hy : Blank y) : Blank (x ++ y) := by
  intro b hb
  cases List.mem_append.mp hb with
  | inl h => exact hx b h
  | inr h => exact hy b h

theorem blank_takeWhile (text : Bytes) : Blank (text.takeWhile isSpace) :=
  fun _ hb => List.mem_takeWhile_imp hb

/-- What `trim` drops is spaces. -/
theorem trim_split (text : Bytes) :
    ∃ w w', Blank w ∧ Blank w' ∧ text = w ++ trim text ++ w' := by
  let back := (text.dropWhile isSpace).reverse
  refine ⟨text.takeWhile isSpace, (back.takeWhile isSpace).reverse, blank_takeWhile text, ?_, ?_⟩
  · intro b hb
    exact blank_takeWhile back b (List.mem_reverse.mp hb)
  · have hback : trim text ++ (back.takeWhile isSpace).reverse = text.dropWhile isSpace := by
      show (back.dropWhile isSpace).reverse ++ (back.takeWhile isSpace).reverse = _
      rw [← List.reverse_append, List.takeWhile_append_dropWhile, List.reverse_reverse]
    rw [List.append_assoc, hback, List.takeWhile_append_dropWhile]

theorem trim_trimmed {text : Bytes} (h : trim text ≠ []) : Trimmed (trim text) := by
  have hlast : ∀ b ∈ (trim text).getLast?, isSpace b = false := by
    intro b hb
    rw [trim, List.getLast?_reverse] at hb
    have hnot := List.head?_dropWhile_not isSpace (text.dropWhile isSpace).reverse
    rw [hb] at hnot
    simpa using hnot
  have hhead : ∀ b ∈ (trim text).head?, isSpace b = false := by
    intro b hb
    have hsuffix := List.dropWhile_suffix isSpace (l := (text.dropWhile isSpace).reverse)
    have hprefix : trim text <+: text.dropWhile isSpace := by
      rw [trim, ← List.reverse_suffix, List.reverse_reverse]
      exact hsuffix
    obtain ⟨tail, htail⟩ := hprefix
    have hfirst : (text.dropWhile isSpace).head? = some b := by
      rw [← htail, List.head?_append_of_ne_nil _ h]
      exact hb
    have hnot := List.head?_dropWhile_not isSpace text
    rw [hfirst] at hnot
    simpa using hnot
  exact ⟨h, hhead, hlast⟩

/-! ## chunks spaced out in a text -/

/-- `text` is the chunks in their order, with only spaces before, between and
after them. -/
inductive Spaced : List Bytes → Bytes → Prop
  | blank {text : Bytes} : Blank text → Spaced [] text
  | chunk {w s tail : Bytes} {rest : List Bytes} :
      Blank w → Trimmed s → Spaced rest tail → Spaced (s :: rest) (w ++ s ++ tail)

namespace Spaced

theorem blank_append {w text : Bytes} {chunks : List Bytes} (hw : Blank w)
    (h : Spaced chunks text) : Spaced chunks (w ++ text) := by
  cases h with
  | blank htext => exact blank (hw.append htext)
  | @chunk w' s tail rest hw' hs htail =>
      have hspaced := chunk (hw.append hw') hs htail
      simpa [List.append_assoc] using hspaced

/-- Texts with their chunks follow one another. -/
theorem append {x y : Bytes} {chunks chunks' : List Bytes} (h : Spaced chunks x)
    (h' : Spaced chunks' y) : Spaced (chunks ++ chunks') (x ++ y) := by
  induction h with
  | blank hx => exact blank_append hx h'
  | @chunk w s tail rest hw hs _ ih =>
      have hspaced := chunk hw hs ih
      simpa [List.append_assoc] using hspaced

theorem trimmed {chunks : List Bytes} {text : Bytes} (h : Spaced chunks text) :
    ∀ s ∈ chunks, Trimmed s := by
  induction h with
  | blank _ => simp
  | chunk _ hs _ ih =>
      intro s' hs'
      cases List.mem_cons.mp hs' with
      | inl he => exact he ▸ hs
      | inr hrest => exact ih s' hrest

/-- Apart from spaces, the chunks one after another are the text. -/
theorem filter_flatten {chunks : List Bytes} {text : Bytes} (h : Spaced chunks text) :
    chunks.flatten.filter (fun b => !isSpace b) = text.filter fun b => !isSpace b := by
  have hblank : ∀ {w : Bytes}, Blank w → w.filter (fun b => !isSpace b) = [] := by
    intro w hw
    rw [List.filter_eq_nil_iff]
    intro b hb
    simp [hw b hb]
  induction h with
  | blank htext => rw [hblank htext]; rfl
  | chunk hw _ _ ih =>
      rw [List.flatten_cons, List.filter_append, ih]
      rw [List.filter_append, List.filter_append, hblank hw, List.nil_append]

/-- What one round takes out of the buffer. -/
theorem trim (text : Bytes) :
    Spaced (if ByteTurn.trim text = [] then [] else [ByteTurn.trim text]) text := by
  obtain ⟨w, w', hw, hw', htext⟩ := trim_split text
  split
  · next hnil =>
      rw [hnil, List.append_nil] at htext
      rw [htext]
      exact blank (hw.append hw')
  · next hne =>
      have hspaced := chunk hw (trim_trimmed hne) (blank hw')
      rwa [← htext] at hspaced

end Spaced

/-! ## complete texts -/

/-- The text does not stop inside a UTF-8 sequence. -/
def CompleteUtf8 (text : Bytes) : Prop := completeUtf8Prefix text = text.length

instance (text : Bytes) : Decidable (CompleteUtf8 text) :=
  inferInstanceAs (Decidable (completeUtf8Prefix text = text.length))

theorem sequenceStart_le (text : Bytes) (n : Nat) : sequenceStart text n ≤ n := by
  induction n with
  | zero => exact Nat.le_refl 0
  | succ n ih =>
      rw [sequenceStart]
      split <;> omega

/-- A byte that no sequence starts with announces no other. -/
theorem sequenceWidth_of_continuation {b : UInt8} (h : isContinuation b = true) :
    sequenceWidth b = 1 := by
  revert b
  have hall : ∀ b : BitVec 8, isContinuation ⟨b⟩ = true → sequenceWidth ⟨b⟩ = 1 := by decide +kernel
  exact fun {b} h => hall b.toBitVec h

/-- The last sequence of a text starts where it starts in a longer one, or the
text is only the end of a sequence. -/
theorem sequenceStart_drop (text : Bytes) (k n : Nat) :
    sequenceStart text (k + n) = k + sequenceStart (text.drop k) n ∨
      (sequenceStart (text.drop k) n = 0 ∧ isContinuation (text.getD k 0) = true) := by
  induction n with
  | zero =>
      cases k with
      | zero => left; rfl
      | succ k =>
          rw [sequenceStart]
          cases hb : isContinuation (text.getD (k + 1) 0) with
          | true => exact Or.inr ⟨rfl, rfl⟩
          | false => left; rw [Nat.add_zero, sequenceStart, hb]; rfl
  | succ n ih =>
      have hget : (text.drop k).getD (n + 1) 0 = text.getD (k + n + 1) 0 := by
        simp [List.getD_eq_getElem?_getD, List.getElem?_drop, Nat.add_assoc]
      rw [← Nat.add_assoc, sequenceStart, sequenceStart, hget]
      cases hb : isContinuation (text.getD (k + n + 1) 0) with
      | true => simpa using ih
      | false => left; simp; omega

/-- The end of a complete text is complete. -/
theorem CompleteUtf8.drop {text : Bytes} (h : CompleteUtf8 text) (k : Nat) :
    CompleteUtf8 (text.drop k) := by
  by_cases hnil : text.drop k = []
  · rw [CompleteUtf8, completeUtf8Prefix, if_pos hnil, hnil]; rfl
  have hk : k < text.length := by
    rw [List.drop_eq_nil_iff] at hnil; omega
  have htext : text ≠ [] := by
    intro he
    rw [he] at hk
    simp at hk
  have hlength : (text.drop k).length = text.length - k := List.length_drop
  rw [CompleteUtf8, completeUtf8Prefix, if_neg htext] at h
  rw [CompleteUtf8, completeUtf8Prefix, if_neg hnil]
  dsimp only at h ⊢
  have hstart := sequenceStart_drop text k ((text.drop k).length - 1)
  have hend : k + ((text.drop k).length - 1) = text.length - 1 := by omega
  rw [hend] at hstart
  have hle := sequenceStart_le (text.drop k) ((text.drop k).length - 1)
  generalize sequenceStart (text.drop k) ((text.drop k).length - 1) = start at hstart hle ⊢
  have hget : (text.drop k).getD start 0 = text.getD (k + start) 0 := by
    simp [List.getD_eq_getElem?_getD, List.getElem?_drop]
  rw [hget]
  cases hstart with
  | inl hsame =>
      rw [hsame] at h
      split at h
      · next hshort => omega
      · next hlong => rw [if_neg (by omega)]
  | inr hinside =>
      obtain ⟨rfl, hbyte⟩ := hinside
      rw [Nat.add_zero, sequenceWidth_of_continuation hbyte, if_neg (by omega)]

/-! ## one round -/

section Round

variable {config : SentenceSegmenterConfig} {buffer : Bytes}

theorem punctuationAt_pos {i bytes : Nat} {strong : Bool}
    (h : punctuationAt buffer i = some (bytes, strong)) : 0 < bytes := by
  simp only [punctuationAt] at h
  repeat' split at h
  all_goals first
    | (cases h; omega)
    | simp at h

theorem punctuationBoundary_pos {n i : Nat} {soft : Option Nat} {boundary : Nat}
    (hsoft : ∀ b ∈ soft, 0 < b)
    (h : punctuationBoundary config buffer n i soft = some boundary) : 0 < boundary := by
  induction n generalizing i soft with
  | zero => exact hsoft boundary h
  | succ n ih =>
      rw [punctuationBoundary] at h
      split at h
      · exact ih hsoft h
      · next bytes strong hmark =>
          have hbytes := punctuationAt_pos hmark
          have hend : ∀ b ∈ some (i + bytes), 0 < b := by
            intro b hb
            obtain rfl := Option.some.inj hb
            omega
          dsimp only at h
          split at h
          · exact hend boundary h
          · split at h
            · exact ih hend h
            · exact ih hsoft h

theorem hardBoundary_pos {completeBytes n i characters : Nat} {lastSpace : Option Nat}
    {boundary : Nat} (hlast : ∀ b ∈ lastSpace, 0 < b)
    (h : hardBoundary config buffer completeBytes n i characters lastSpace = some boundary) :
    0 < boundary := by
  induction n generalizing i characters lastSpace with
  | zero => simp [hardBoundary] at h
  | succ n ih =>
      rw [hardBoundary] at h
      generalize hcount : (if isContinuation (buffer.getD i 0) then characters else characters + 1) =
        count at h
      generalize hnext : (if isSpace (buffer.getD i 0) then some (i + 1) else lastSpace) = next at h
      have hpos : ∀ b ∈ next, 0 < b := by
        intro b hb
        rw [← hnext] at hb
        split at hb
        · obtain rfl := Option.some.inj hb
          omega
        · exact hlast b hb
      split at h
      · obtain rfl := Option.some.inj h
        have hstart : 0 < next.getD (i + 1) := by
          cases next with
          | none => exact Nat.succ_pos i
          | some b => exact hpos b rfl
        rw [skipContinuation]
        omega
      · exact ih hpos h

/-- Every boundary lets a round take a byte at least. -/
theorem sentenceBoundary_pos {boundary : Nat}
    (h : sentenceBoundary config buffer = some boundary) : 0 < boundary := by
  rw [sentenceBoundary] at h
  split at h
  · next hmark =>
      obtain rfl := Option.some.inj h
      exact punctuationBoundary_pos (by simp) hmark
  · split at h
    · exact hardBoundary_pos (by simp) h
    · simp at h

/-- What a round leaves is the end of the buffer, and the rest of it holds the
chunk that the round returns. -/
theorem cut_split (buffer : Bytes) (boundary : Nat) :
    ∃ x, buffer = x ++ (buffer.drop boundary).dropWhile isSpace ∧
      Spaced (if trim (buffer.take boundary) = [] then [] else [trim (buffer.take boundary)]) x := by
  let blanks := (buffer.drop boundary).takeWhile isSpace
  refine ⟨buffer.take boundary ++ blanks, ?_, ?_⟩
  · rw [List.append_assoc, List.takeWhile_append_dropWhile, List.take_append_drop]
  · have hspaced := (Spaced.trim (buffer.take boundary)).append (Spaced.blank (blank_takeWhile (buffer.drop boundary)))
    rwa [List.append_nil] at hspaced

theorem cut_length {boundary : Nat} (hne : buffer ≠ []) (hpos : 0 < boundary) :
    ((buffer.drop boundary).dropWhile isSpace).length < buffer.length := by
  have hle := (List.dropWhile_suffix isSpace (l := buffer.drop boundary)).length_le
  have hlength := List.length_pos_iff.mpr hne
  rw [List.length_drop] at hle
  omega

theorem cut_complete (h : CompleteUtf8 buffer) (boundary : Nat) :
    CompleteUtf8 ((buffer.drop boundary).dropWhile isSpace) := by
  have hsuffix := List.dropWhile_suffix isSpace (l := buffer.drop boundary)
  rw [List.suffix_iff_eq_drop] at hsuffix
  rw [hsuffix]
  exact (h.drop boundary).drop _

end Round

/-! ## a whole call -/

section Loop

variable {config : SentenceSegmenterConfig}

/-- One round of the loop: it stops, with everything it has, or it cuts. -/
theorem extractLoop_succ (config : SentenceSegmenterConfig) (flushing : Bool) (fuel : Nat) (output : List Bytes) (buffer : Bytes) :
    extractLoop config flushing (fuel + 1) output buffer =
      if buffer = [] then (.ok output, buffer)
      else if flushing ∧ ¬CompleteUtf8 buffer then
        (.error (lit "incomplete UTF-8 at end of text stream"), buffer)
      else match (sentenceBoundary config buffer).or (if flushing then some buffer.length else none) with
        | some boundary => extractLoop config flushing fuel
            (output ++ (if trim (buffer.take boundary) = [] then []
              else [trim (buffer.take boundary)]))
            ((buffer.drop boundary).dropWhile isSpace)
        | none => (.ok output, buffer) := by
  have houtput : ∀ s : Bytes, (if s = [] then output else output ++ [s]) =
      output ++ (if s = [] then [] else [s]) := by
    intro s
    split
    · rw [List.append_nil]
    · rfl
  rw [extractLoop]
  simp only [houtput]
  split
  · rfl
  · split
    · next h => exact (if_pos h).symm
    · next h =>
        refine Eq.trans ?_ (if_neg h).symm
        cases sentenceBoundary config buffer with
        | some boundary => rfl
        | none => cases flushing <;> rfl

theorem boundary_pos {flushing : Bool} {buffer : Bytes} {boundary : Nat} (hne : buffer ≠ [])
    (h : (sentenceBoundary config buffer).or (if flushing then some buffer.length else none) =
      some boundary) : 0 < boundary := by
  cases hmark : sentenceBoundary config buffer with
  | some b =>
      rw [hmark] at h
      obtain rfl := Option.some.inj h
      exact sentenceBoundary_pos hmark
  | none =>
      rw [hmark, Option.none_or] at h
      split at h
      · obtain rfl := Option.some.inj h
        exact List.length_pos_iff.mpr hne
      · simp at h

/-- A call that does not throw: what it returns is spaced out in what has left
the buffer, and a flush has emptied it. -/
theorem extractLoop_ok (config : SentenceSegmenterConfig) (flushing : Bool) {fuel : Nat}
    (output : List Bytes) {buffer : Bytes}
    (hfuel : buffer.length < fuel) (hcomplete : flushing = true → CompleteUtf8 buffer) :
    ∃ new x rest, extractLoop config flushing fuel output buffer = (.ok (output ++ new), rest) ∧
      buffer = x ++ rest ∧ Spaced new x ∧ (flushing = true → rest = []) := by
  induction fuel generalizing output buffer with
  | zero => omega
  | succ fuel ih =>
      rw [extractLoop_succ]
      by_cases hnil : buffer = []
      · refine ⟨[], [], [], ?_, hnil, Spaced.blank (by simp [Blank]), fun _ => rfl⟩
        rw [if_pos hnil, List.append_nil, hnil]
      rw [if_neg hnil, if_neg (by simpa using hcomplete)]
      cases hboundary : (sentenceBoundary config buffer).or
          (if flushing then some buffer.length else none) with
      | none =>
          have hpush : flushing = false := by
            cases flushing with
            | false => rfl
            | true => simp at hboundary
          refine ⟨[], [], buffer, ?_, rfl, Spaced.blank (by simp [Blank]), ?_⟩
          · simp
          · intro hflush
            rw [hpush] at hflush
            simp at hflush
      | some boundary =>
          have hpos := boundary_pos hnil hboundary
          have hshorter := cut_length hnil hpos
          have hrest : flushing = true →
              CompleteUtf8 ((buffer.drop boundary).dropWhile isSpace) :=
            fun hflush => cut_complete (hcomplete hflush) boundary
          obtain ⟨x, hx, hspaced⟩ := cut_split buffer boundary
          obtain ⟨new, y, rest, hrun, hy, hnew, hempty⟩ := ih _ (by omega) hrest
          refine ⟨_, x ++ y, rest, ?_, ?_, hspaced.append hnew, hempty⟩
          · rw [← List.append_assoc]
            exact hrun
          · rw [List.append_assoc, ← hy]
            exact hx

end Loop

namespace SentenceSegmenter

/-- A push returns the chunks of what leaves the buffer. -/
theorem push_spaced (s : SentenceSegmenter) (textDelta : Bytes) :
    ∃ new x s', s.push textDelta = (.ok new, s') ∧ s'.config = s.config ∧
      s.buffer ++ textDelta = x ++ s'.buffer ∧ Spaced new x := by
  obtain ⟨new, x, rest, hrun, hx, hspaced, _⟩ :=
    extractLoop_ok s.config false []
      (Nat.lt_succ_self (s.buffer ++ textDelta).length) (by simp)
  refine ⟨new, x, { s with buffer := rest }, ?_, rfl, hx, hspaced⟩
  show SentenceSegmenter.extract _ false = _
  simp only [extract, hrun, List.nil_append]

/-- A flush of a complete buffer returns the chunks of all of it. -/
theorem flush_spaced {s : SentenceSegmenter} (hcomplete : CompleteUtf8 s.buffer) :
    ∃ new, s.flush = (.ok new, { s with buffer := [] }) ∧ Spaced new s.buffer := by
  obtain ⟨new, x, rest, hrun, hx, hspaced, hempty⟩ :=
    extractLoop_ok s.config true []
      (Nat.lt_succ_self s.buffer.length) (fun _ => hcomplete)
  obtain rfl := hempty rfl
  rw [List.append_nil] at hx
  refine ⟨new, ?_, hx ▸ hspaced⟩
  rw [flush, extract, hrun]
  rfl

/-- A flush of a buffer that stops inside a UTF-8 sequence throws before it does
anything. -/
theorem flush_incomplete {s : SentenceSegmenter} (h : ¬CompleteUtf8 s.buffer) :
    s.flush = (.error (lit "incomplete UTF-8 at end of text stream"), s) := by
  have hne : s.buffer ≠ [] := by
    intro hnil
    apply h
    rw [hnil]
    rfl
  have hrun := extractLoop_succ s.config true s.buffer.length [] s.buffer
  rw [if_neg hne, if_pos ⟨rfl, h⟩] at hrun
  rw [flush, extract, hrun]

/-- A sequence of pushes: the chunks they return in order. -/
def pushes : SentenceSegmenter → List Bytes → Except Exception (List Bytes) × SentenceSegmenter
  | s, [] => (.ok [], s)
  | s, textDelta :: rest => match s.push textDelta with
    | (.error what, s') => (.error what, s')
    | (.ok first, s') => match s'.pushes rest with
      | (.error what, s'') => (.error what, s'')
      | (.ok later, s'') => (.ok (first ++ later), s'')

/-- However the deltas cut the text, the chunks are spaced out in what has left
the buffer. -/
theorem pushes_spaced (s : SentenceSegmenter) (deltas : List Bytes) :
    ∃ chunks x s', s.pushes deltas = (.ok chunks, s') ∧
      s.buffer ++ deltas.flatten = x ++ s'.buffer ∧ Spaced chunks x := by
  induction deltas generalizing s with
  | nil => exact ⟨[], [], s, rfl, by simp, Spaced.blank (by simp [Blank])⟩
  | cons textDelta rest ih =>
      obtain ⟨first, x, s', hpush, _, hx, hfirst⟩ := s.push_spaced textDelta
      obtain ⟨later, y, s'', hlater, hy, hspaced⟩ := ih s'
      refine ⟨first ++ later, x ++ y, s'', ?_, ?_, hfirst.append hspaced⟩
      · simp only [pushes, hpush, hlater]
      · rw [List.flatten_cons, ← List.append_assoc, hx, List.append_assoc, hy, List.append_assoc]

/-- **Segmentation conserves the text**: pushes never throw.  A flush after them
throws exactly when the buffer stops inside a UTF-8 sequence, and then it leaves
the segmenter as it was; otherwise all the chunks returned are spaced out in the
whole input and the buffer is empty. -/
theorem segmentation_conserves {config : SentenceSegmenterConfig} {s : SentenceSegmenter}
    (hs : construct config = .ok s) (deltas : List Bytes) :
    ∃ chunks s', s.pushes deltas = (.ok chunks, s') ∧
      (∀ last s'', s'.flush = (.ok last, s'') →
        Spaced (chunks ++ last) deltas.flatten ∧ s''.buffer = []) ∧
      ((∃ what s'', s'.flush = (.error what, s'')) ↔
        completeUtf8Prefix s'.buffer ≠ s'.buffer.length) ∧
      (∀ what s'', s'.flush = (.error what, s'') → s'' = s') := by
  have hempty : s.buffer = [] := by
    rw [construct] at hs
    split at hs
    · obtain rfl := Except.ok.inj hs
      rfl
    · simp at hs
  obtain ⟨chunks, x, s', hpushes, hx, hspaced⟩ := s.pushes_spaced deltas
  rw [hempty, List.nil_append] at hx
  refine ⟨chunks, s', hpushes, ?_⟩
  by_cases hcomplete : CompleteUtf8 s'.buffer
  · obtain ⟨new, hflush, hnew⟩ := flush_spaced hcomplete
    rw [hflush]
    refine ⟨?_, ?_, ?_⟩
    · intro last s'' h
      obtain ⟨hlast, rfl⟩ := Prod.mk.inj h
      obtain rfl := Except.ok.inj hlast
      rw [hx]
      exact ⟨hspaced.append hnew, rfl⟩
    · simp only [Prod.mk.injEq, reduceCtorEq, false_and, exists_false, false_iff, not_not]
      exact hcomplete
    · simp
  · rw [flush_incomplete hcomplete]
    refine ⟨by simp, ?_, ?_⟩
    · exact iff_of_true ⟨_, _, rfl⟩ hcomplete
    · intro what s'' h
      exact (Prod.mk.inj h).2.symm

/-- Two deltas that cut a mark in two, under the limits the source starts with. -/
theorem defaults_conserve : ∃ s, construct {} = .ok s ∧
    ∃ chunks s', s.pushes [lit "Hello there, world! Ok", [0xe4, 0xbd]] = (.ok chunks, s') ∧
      (∀ last s'', s'.flush = (.ok last, s'') →
        Spaced (chunks ++ last) [lit "Hello there, world! Ok", [0xe4, 0xbd]].flatten ∧
          s''.buffer = []) ∧
      ((∃ what s'', s'.flush = (.error what, s'')) ↔
        completeUtf8Prefix s'.buffer ≠ s'.buffer.length) ∧
      (∀ what s'', s'.flush = (.error what, s'') → s'' = s') :=
  ⟨_, rfl, @segmentation_conserves {} _ rfl _⟩

end SentenceSegmenter

end ByteTurn

import ByteTurn.SentenceSegmenter.CodePoints

/-!
# ByteTurn.SentenceSegmenter.Residual

The loop of `extract` ends, and what it leaves could not be cut.

A round that does not leave the loop shortens the buffer (`nextBuffer_shorter`);
the loop is left by a push where a round finds no boundary (`extractLoop_last`),
and then every mark of the buffer stands too early and the hard maximum has not
been reached (`residual_of_none`).
-/

namespace ByteTurn

open Utf8

/-! ## the rounds end -/

/-- What the buffer is after a round that does not leave the loop. -/
def nextBuffer (config : SentenceSegmenterConfig) (flushing : Bool) (buffer : Bytes) :
    Option Bytes :=
  if buffer = [] ∨ (flushing ∧ ¬CompleteUtf8 buffer) then none
  else ((sentenceBoundary config buffer).or (if flushing then some buffer.length else none)).map
    fun boundary => (buffer.drop boundary).dropWhile isSpace

/-- A round that does not leave the loop goes on with the next buffer. -/
theorem extractLoop_next {config : SentenceSegmenterConfig} {flushing : Bool} {buffer next : Bytes}
    (h : nextBuffer config flushing buffer = some next) (output : List Bytes) :
    ∃ new, ∀ fuel, extractLoop config flushing (fuel + 1) output buffer =
      extractLoop config flushing fuel new next := by
  unfold nextBuffer at h
  split at h
  · cases h
  · next hstays =>
    obtain ⟨hnil, hcomplete⟩ := not_or.mp hstays
    obtain ⟨boundary, hboundary, rfl⟩ := Option.map_eq_some_iff.mp h
    refine ⟨output ++ (if trim (buffer.take boundary) = [] then []
      else [trim (buffer.take boundary)]), fun fuel => ?_⟩
    rw [extractLoop_succ, if_neg hnil, if_neg hcomplete, hboundary]

/-- Any other round leaves the loop. -/
theorem extractLoop_leaves {config : SentenceSegmenterConfig} {flushing : Bool} {buffer : Bytes}
    (h : nextBuffer config flushing buffer = none) (output : List Bytes) :
    ∃ result, ∀ fuel, extractLoop config flushing (fuel + 1) output buffer = (result, buffer) := by
  unfold nextBuffer at h
  by_cases hnil : buffer = []
  · exact ⟨_, fun fuel => by rw [extractLoop_succ, if_pos hnil]⟩
  by_cases hcomplete : flushing ∧ ¬CompleteUtf8 buffer
  · exact ⟨_, fun fuel => by rw [extractLoop_succ, if_neg hnil, if_pos hcomplete]⟩
  rw [if_neg (not_or.mpr ⟨hnil, hcomplete⟩), Option.map_eq_none_iff] at h
  exact ⟨_, fun fuel => by rw [extractLoop_succ, if_neg hnil, if_neg hcomplete, h]⟩

/-- The buffer shrinks with every round that does not leave the loop. -/
theorem nextBuffer_shorter {config : SentenceSegmenterConfig} {flushing : Bool}
    {buffer next : Bytes} (h : nextBuffer config flushing buffer = some next) :
    next.length < buffer.length := by
  unfold nextBuffer at h
  split at h
  · cases h
  · next hstays =>
    obtain ⟨boundary, hboundary, rfl⟩ := Option.map_eq_some_iff.mp h
    have hnil := (not_or.mp hstays).1
    exact cut_length hnil (boundary_pos hnil hboundary)

/-- One more byte of fuel than the buffer holds is enough. -/
theorem extractLoop_fuel (config : SentenceSegmenterConfig) (flushing : Bool) {n k : Nat}
    (output : List Bytes) {buffer : Bytes} (hn : buffer.length < n) (hk : buffer.length < k) :
    extractLoop config flushing n output buffer = extractLoop config flushing k output buffer := by
  induction n generalizing k output buffer with
  | zero => omega
  | succ n ih =>
      obtain ⟨k, rfl⟩ : ∃ j, k = j + 1 := ⟨k - 1, by omega⟩
      cases hnext : nextBuffer config flushing buffer with
      | none =>
          obtain ⟨result, hleaves⟩ := extractLoop_leaves hnext output
          rw [hleaves n, hleaves k]
      | some next =>
          have hshorter := nextBuffer_shorter hnext
          obtain ⟨new, hgoes⟩ := extractLoop_next hnext output
          rw [hgoes n, hgoes k]
          exact ih new (by omega) (by omega)

/-- The loop is left where no round goes on. -/
theorem extractLoop_last {config : SentenceSegmenterConfig} {flushing : Bool} {fuel : Nat}
    {output : List Bytes} {buffer : Bytes} {result : Except Exception (List Bytes) × Bytes}
    (hfuel : buffer.length < fuel)
    (h : extractLoop config flushing fuel output buffer = result) :
    nextBuffer config flushing result.2 = none := by
  induction fuel generalizing output buffer with
  | zero => omega
  | succ fuel ih =>
      cases hnext : nextBuffer config flushing buffer with
      | none =>
          obtain ⟨what, hleaves⟩ := extractLoop_leaves hnext output
          rw [← h, hleaves fuel]
          exact hnext
      | some next =>
          have hshorter := nextBuffer_shorter hnext
          obtain ⟨new, hgoes⟩ := extractLoop_next hnext output
          rw [hgoes fuel] at h
          exact ih (by omega) h

/-! ## characters -/

/-- `std::isspace`, of a character. -/
def whitespaceChar (c : Char) : Bool := c ∈ [' ', '\t', '\n', '\x0b', '\x0c', '\r']

/-- A strong terminator, before the characters that follow it. -/
def StrongTerminator (c : Char) (after : List Char) : Prop :=
  c ∈ ['!', '?', '\n', '。', '！', '？'] ∨
    (c = '.' ∧ ∃ d ∈ after.head?, whitespaceChar d = true)

/-- A comma or a semicolon. -/
def SoftMark (c : Char) : Prop := c ∈ [',', ';', '，', '；']

theorem punctuationAt_drop (buffer : Bytes) (i : Nat) :
    punctuationAt buffer i = punctuationAt (buffer.drop i) 0 := by
  have hget (k : Nat) : (buffer.drop i).getD k 0 = buffer.getD (i + k) 0 := by
    simp [List.getD_eq_getElem?_getD, List.getElem?_drop]
  have hstarts (token : Bytes) : startsAt (buffer.drop i) 0 token = startsAt buffer i token := by
    rw [startsAt, startsAt, List.drop_zero]
  have hlength : 0 + 1 < (buffer.drop i).length ↔ i + 1 < buffer.length := by
    rw [List.length_drop]
    omega
  unfold punctuationAt
  simp only [hget, hstarts, hlength, Nat.add_zero, Nat.zero_add]

/-- A strong terminator is one to `extract`. -/
theorem strongTerminator_mark {c : Char} {after : List Char} (h : StrongTerminator c after)
    (tail : Bytes) : punctuationAt (String.utf8EncodeChar c ++ (encode after ++ tail)) 0 =
      some ((String.utf8EncodeChar c).length, true) := by
  cases h with
  | inl hmark =>
      simp only [List.mem_cons, List.not_mem_nil, or_false] at hmark
      rcases hmark with rfl | rfl | rfl | rfl | rfl | rfl <;> rfl
  | inr hperiod =>
      obtain ⟨rfl, d, hd, hspace⟩ := hperiod
      obtain ⟨after, rfl⟩ : ∃ rest, after = d :: rest := by
        cases after with
        | nil => cases hd
        | cons d' rest => exact ⟨rest, by rw [Option.some.inj hd]⟩
      rw [encode_cons]
      simp only [whitespaceChar, List.mem_cons, List.not_mem_nil, or_false,
        decide_eq_true_eq] at hspace
      rcases hspace with rfl | rfl | rfl | rfl | rfl | rfl <;> rfl

theorem softMark_mark {c : Char} (h : SoftMark c) (rest : Bytes) :
    punctuationAt (String.utf8EncodeChar c ++ rest) 0 =
      some ((String.utf8EncodeChar c).length, false) := by
  simp only [SoftMark, List.mem_cons, List.not_mem_nil, or_false] at h
  rcases h with rfl | rfl | rfl | rfl <;> rfl

section Residual

variable {config : SentenceSegmenterConfig}

theorem no_mark_of_none (hlimits : config.minCharacters ≤ config.targetCharacters) {buffer : Bytes}
    (h : sentenceBoundary config buffer = none) {i : Nat} (hi : i < completeUtf8Prefix buffer) :
    strongEnd config buffer i = none ∧ softEnd config buffer i = none := by
  have hmark : markEnd config buffer = none := by
    rw [sentenceBoundary, punctuationBoundary_eq_markEnd buffer hlimits] at h
    cases hmark : markEnd config buffer with
    | none => rfl
    | some e =>
        rw [hmark] at h
        cases h
  obtain ⟨hstrong, hsoft⟩ := Option.or_eq_none_iff.mp hmark
  have hmem := List.mem_range.mpr hi
  exact ⟨List.findSome?_eq_none_iff.mp hstrong i hmem,
    List.findSome?_eq_none_iff.mp hsoft i (List.mem_reverse.mpr hmem)⟩

/-- Without a boundary the hard maximum has not been reached. -/
theorem short_of_none (hmin : 0 < config.minCharacters)
    (hlimits : config.minCharacters ≤ config.targetCharacters)
    (hhard : config.targetCharacters ≤ config.hardMaxCharacters) {buffer : Bytes}
    (h : sentenceBoundary config buffer = none) :
    characterCount buffer (completeUtf8Prefix buffer) < config.hardMaxCharacters := by
  unfold sentenceBoundary at h
  dsimp only at h
  split at h
  · cases h
  · split at h
    · next hreached =>
      have hzero : characterCount buffer 0 ≤ 0 := by simp [characterCount]
      have hshort := hardBoundary_none hzero (by omega) h
      rw [Nat.zero_add] at hshort
      omega
    · next hshort => omega

/-- **Where a round finds no boundary**: no mark stands late enough, and the hard
maximum has not been reached. -/
theorem residual_of_none (hmin : 0 < config.minCharacters)
    (hlimits : config.minCharacters ≤ config.targetCharacters)
    (hhard : config.targetCharacters ≤ config.hardMaxCharacters) {text : List Char} {tail : Bytes}
    (htail : Incomplete tail) (h : sentenceBoundary config (encode text ++ tail) = none) :
    text.length < config.hardMaxCharacters ∧
      ∀ before c after, text = before ++ c :: after →
        (StrongTerminator c after → before.length + 1 < config.minCharacters) ∧
          (SoftMark c → before.length + 1 < config.targetCharacters) := by
  have hcomplete := completeUtf8Prefix_encode text htail
  constructor
  · have hshort := short_of_none hmin hlimits hhard h
    rw [hcomplete, ← codePoints_take, List.take_left, codePoints_encode] at hshort
    exact hshort
  · rintro before c after rfl
    have hbuffer : encode (before ++ c :: after) ++ tail =
        encode before ++ (String.utf8EncodeChar c ++ (encode after ++ tail)) := by
      rw [encode_append, encode_cons, List.append_assoc, List.append_assoc]
    have hposition : (encode before).length < completeUtf8Prefix (encode (before ++ c :: after) ++ tail) := by
      have hlength := List.length_pos_iff.mpr (String.utf8EncodeChar_ne_nil (c := c))
      rw [hcomplete, encode_append, encode_cons, List.length_append, List.length_append]
      omega
    obtain ⟨hstrong, hsoft⟩ := no_mark_of_none hlimits h hposition
    have hcount : characterCount (encode (before ++ c :: after) ++ tail)
        ((encode before).length + (String.utf8EncodeChar c).length) = before.length + 1 := by
      have hcut : encode before ++ String.utf8EncodeChar c = encode (before ++ [c]) := by
        rw [encode_append]
        simp [encode]
      have htake : (encode (before ++ c :: after) ++ tail).take
          ((encode before).length + (String.utf8EncodeChar c).length) = encode (before ++ [c]) := by
        rw [hbuffer, ← List.append_assoc, hcut]
        exact List.take_left' (by rw [← hcut, List.length_append])
      rw [← codePoints_take, htake, codePoints_encode, List.length_append]
      rfl
    have hmark (strong : Bool) (hpunctuation : punctuationAt
        (String.utf8EncodeChar c ++ (encode after ++ tail)) 0 =
          some ((String.utf8EncodeChar c).length, strong)) :
        punctuationAt (encode (before ++ c :: after) ++ tail) (encode before).length =
          some ((String.utf8EncodeChar c).length, strong) := by
      rw [punctuationAt_drop, hbuffer, List.drop_left]
      exact hpunctuation
    constructor
    · intro hterminator
      rw [strongEnd, hmark true (strongTerminator_mark hterminator tail)] at hstrong
      dsimp only at hstrong
      rw [hcount] at hstrong
      by_contra hlate
      rw [if_pos (by omega)] at hstrong
      cases hstrong
    · intro hsoftMark
      rw [softEnd, hmark false (softMark_mark hsoftMark _)] at hsoft
      dsimp only at hsoft
      rw [hcount] at hsoft
      by_contra hlate
      rw [if_pos (by omega)] at hsoft
      cases hsoft

end Residual

namespace SentenceSegmenter

/-- No round would go on after a push. -/
theorem push_last (s : SentenceSegmenter) (textDelta : Bytes) :
    nextBuffer s.config false (s.push textDelta).2.buffer = none :=
  @extractLoop_last s.config false _ [] _ _ (Nat.lt_succ_self (s.buffer ++ textDelta).length) rfl

theorem pushes_last {s s' : SentenceSegmenter} {deltas chunks : List Bytes}
    (hstart : nextBuffer s.config false s.buffer = none)
    (h : s.pushes deltas = (.ok chunks, s')) : nextBuffer s'.config false s'.buffer = none := by
  induction deltas generalizing s chunks with
  | nil =>
      obtain ⟨-, rfl⟩ := Prod.mk.inj h
      exact hstart
  | cons textDelta rest ih =>
      have hpush := s.push_last textDelta
      obtain ⟨first, x, next, hrun, hconfig, -⟩ := s.push_spaced textDelta
      rw [hrun] at hpush
      rw [← hconfig] at hpush
      rw [pushes, hrun] at h
      dsimp only at h
      split at h
      · cases (Prod.mk.inj h).1
      · next later s'' hlater =>
        obtain ⟨-, rfl⟩ := Prod.mk.inj h
        exact ih hpush hlater

/-- **The loop ends, and nothing speakable is held back**: a round of `extract`
that does not leave the loop shortens the buffer, so that one more byte of fuel
than the buffer holds makes no difference; and after the pushes of the beginning
of a UTF-8 text, however they cut it, the buffer has fewer characters than the
hard maximum, no strong terminator that reaches the minimum and no comma or
semicolon that reaches the target. -/
theorem segmentation_residual {config : SentenceSegmenterConfig} {s : SentenceSegmenter}
    (hs : construct config = .ok s) :
    (∀ flushing buffer,
      (∀ next ∈ nextBuffer config flushing buffer, next.length < buffer.length) ∧
        ∀ fuel output, buffer.length < fuel →
          extractLoop config flushing fuel output buffer =
            extractLoop config flushing (buffer.length + 1) output buffer) ∧
    ∀ deltas, Partial deltas.flatten →
      ∃ chunks s' text tail, s.pushes deltas = (.ok chunks, s') ∧
        s'.buffer = encode text ++ tail ∧ Incomplete tail ∧
        text.length < config.hardMaxCharacters ∧
        ∀ before c after, text = before ++ c :: after →
          (StrongTerminator c after → before.length + 1 < config.minCharacters) ∧
            (SoftMark c → before.length + 1 < config.targetCharacters) := by
  refine ⟨fun flushing buffer => ⟨fun next hnext => nextBuffer_shorter hnext,
    fun fuel output hfuel => extractLoop_fuel config flushing output hfuel (Nat.lt_succ_self _)⟩,
    ?_⟩
  intro deltas htext
  obtain ⟨hconfig, hempty⟩ := construct_eq hs
  obtain ⟨chunks, s', hpushes, hconfig', -, hbuffer⟩ := s.pushes_valid deltas (by rwa [hempty])
  obtain ⟨text, tail, hsplit, htail⟩ := hbuffer.split
  refine ⟨chunks, s', text, tail, hpushes, hsplit, htail, ?_⟩
  have hstart : nextBuffer s.config false s.buffer = none := by
    rw [nextBuffer, if_pos (.inl hempty)]
  have hlast := pushes_last hstart hpushes
  have hmin := s'.min_pos
  have htarget := s'.min_le_target
  have hhard := s'.target_le_hard
  rw [hconfig', hconfig] at hlast hmin htarget hhard
  have hnone : sentenceBoundary config (encode text ++ tail) = none := by
    rw [← hsplit]
    by_cases hnil : s'.buffer = []
    · rw [hnil]
      have hcount : ¬config.hardMaxCharacters ≤ characterCount [] 0 := by
        simp only [characterCount, List.take_nil, List.countP_nil]
        omega
      exact if_neg hcount
    · rw [nextBuffer, if_neg (by simpa using hnil)] at hlast
      simpa using hlast
  exact residual_of_none hmin htarget hhard htail hnone

/-- A text with every kind of mark, all of them too early to cut at. -/
theorem segmentation_residual_early : ∃ s, construct {} = .ok s ∧
    ∃ chunks s' text tail, s.pushes [lit "One, two. T", [0xe3, 0x80]] = (.ok chunks, s') ∧
      s'.buffer = encode text ++ tail ∧ Incomplete tail ∧ text.length < 140 ∧
      ∀ before c after, text = before ++ c :: after →
        (StrongTerminator c after → before.length + 1 < 12) ∧
          (SoftMark c → before.length + 1 < 60) :=
  ⟨_, rfl, (@segmentation_residual {} _ rfl).2 _
    ⟨['O', 'n', 'e', ',', ' ', 't', 'w', 'o', '.', ' ', 'T', '。'], [0x82], by decide⟩⟩

end SentenceSegmenter

end ByteTurn

import ByteTurn.Lib.Utf8
import ByteTurn.SentenceSegmenter.Conservation

/-!
# ByteTurn.SentenceSegmenter.HardMaximum

When the chunks stay within the hard maximum.

A round cuts at the first strong mark, else at the last soft one
(`punctuationBoundary_eq`), and asks for the hard maximum only when it found no
mark.  A cut of the hard limit has at most the target's code points and a flush
without a mark less than the hard maximum, so a chunk is too long exactly when a
round finds a mark that stands too late (`LateMark`).
-/

namespace ByteTurn

/-! ## code points -/

/-- The code points of a text, as `character_count` counts them. -/
def codePoints (text : Bytes) : Nat := characterCount text text.length

theorem codePoints_eq (text : Bytes) : codePoints text = text.countP fun b => !isContinuation b := by
  rw [codePoints, characterCount, List.take_length]

theorem codePoints_append (x y : Bytes) : codePoints (x ++ y) = codePoints x + codePoints y := by
  simp only [codePoints_eq, List.countP_append]

theorem codePoints_take (buffer : Bytes) (n : Nat) :
    codePoints (buffer.take n) = characterCount buffer n := by
  rw [codePoints_eq, characterCount]

theorem characterCount_mono (buffer : Bytes) {m n : Nat} (hmn : m ≤ n) :
    characterCount buffer m ≤ characterCount buffer n :=
  ((List.take_prefix_take_left hmn).sublist).countP_le

/-- The count goes on by one at a byte that continues no sequence. -/
theorem characterCount_succ_le {buffer : Bytes} {i characters : Nat}
    (hcount : characterCount buffer i ≤ characters) :
    characterCount buffer (i + 1) ≤
      if isContinuation (buffer.getD i 0) then characters else characters + 1 := by
  rw [characterCount, List.take_add_one, List.countP_append]
  rw [characterCount] at hcount
  cases hget : buffer[i]? with
  | none =>
      have hzero : buffer.getD i 0 = 0 := by rw [List.getD_eq_getElem?_getD, hget]; rfl
      rw [hzero]
      exact Nat.le_succ_of_le hcount
  | some b =>
      have hb : buffer.getD i 0 = b := by rw [List.getD_eq_getElem?_getD, hget]; rfl
      rw [hb]
      cases hcontinuation : isContinuation b <;> simpa [hcontinuation] using hcount

theorem codePoints_trim_le (text : Bytes) : codePoints (trim text) ≤ codePoints text := by
  obtain ⟨w, w', -, -, htext⟩ := trim_split text
  have hcount := congrArg codePoints htext
  rw [codePoints_append, codePoints_append] at hcount
  omega

theorem isContinuation_iff {b : UInt8} : isContinuation b = true ↔ Utf8.IsTrail b :=
  decide_eq_true_iff

theorem isContinuation_lead {b : UInt8} (h : Utf8.IsLead b) : isContinuation b = false :=
  decide_eq_false h.not_trail

theorem codePoints_encodeChar (c : Char) : codePoints (String.utf8EncodeChar c) = 1 := by
  obtain ⟨lead, rest, hc, hlead, -, htrail⟩ := Utf8.encodeChar_shape c
  have hrest : rest.countP (fun b => !isContinuation b) = 0 := by
    rw [List.countP_eq_zero]
    intro b hb
    simp [isContinuation_iff.mpr (htrail b hb)]
  rw [codePoints_eq, hc, List.countP_cons, hrest, isContinuation_lead hlead]
  rfl

/-- Of an encoded text, the code points are its characters. -/
theorem codePoints_encode (text : List Char) : codePoints (Utf8.encode text) = text.length := by
  induction text with
  | nil => rfl
  | cons c text ih =>
      rw [Utf8.encode_cons, codePoints_append, codePoints_encodeChar, ih, List.length_cons,
        Nat.add_comm]

/-! ## the marks of a round -/

/-- Where the strong mark at a position ends, if there is one and it is not too early. -/
def strongEnd (config : SentenceSegmenterConfig) (buffer : Bytes) (i : Nat) : Option Nat :=
  match punctuationAt buffer i with
  | some (bytes, true) =>
      if config.minCharacters ≤ characterCount buffer (i + bytes) then some (i + bytes) else none
  | _ => none

/-- Where the soft mark at a position ends, if there is one past the target. -/
def softEnd (config : SentenceSegmenterConfig) (buffer : Bytes) (i : Nat) : Option Nat :=
  match punctuationAt buffer i with
  | some (bytes, false) =>
      if config.targetCharacters ≤ characterCount buffer (i + bytes) then some (i + bytes) else none
  | _ => none

/-- The end of the first strong mark, or else of the last soft one. -/
def markEnd (config : SentenceSegmenterConfig) (buffer : Bytes) : Option Nat :=
  let positions := List.range (completeUtf8Prefix buffer)
  (positions.findSome? (strongEnd config buffer)).or
    (positions.reverse.findSome? (softEnd config buffer))

/-- A round goes by a mark with more than the hard maximum of code points up to
it, spaces around them not counted. -/
def LateMark (config : SentenceSegmenterConfig) (buffer : Bytes) : Prop :=
  ∃ e ∈ markEnd config buffer, config.hardMaxCharacters < codePoints (trim (buffer.take e))

section Round

variable {config : SentenceSegmenterConfig} {buffer : Bytes}

theorem punctuationBoundary_eq (hlimits : config.minCharacters ≤ config.targetCharacters)
    (n i : Nat) (soft : Option Nat) :
    punctuationBoundary config buffer n i soft =
      ((List.range' i n).findSome? (strongEnd config buffer)).or
        (((List.range' i n).reverse.findSome? (softEnd config buffer)).or soft) := by
  induction n generalizing i soft with
  | zero => simp [punctuationBoundary]
  | succ n ih =>
      rw [punctuationBoundary, List.range'_succ, List.findSome?_cons, List.reverse_cons,
        List.findSome?_append, Option.or_assoc]
      cases hmark : punctuationAt buffer i with
      | none =>
          have hstrong : strongEnd config buffer i = none := by simp [strongEnd, hmark]
          have hsoft : softEnd config buffer i = none := by simp [softEnd, hmark]
          simp [hstrong, hsoft, ih]
      | some mark =>
          obtain ⟨bytes, strong⟩ := mark
          cases strong with
          | true =>
              have hsoft : softEnd config buffer i = none := by simp [softEnd, hmark]
              by_cases hmin : config.minCharacters ≤ characterCount buffer (i + bytes)
              · simp [strongEnd, hmark, hmin]
              · have htarget : ¬config.targetCharacters ≤ characterCount buffer (i + bytes) := by
                  omega
                simp [strongEnd, hmark, hmin, htarget, hsoft, ih]
          | false =>
              have hstrong : strongEnd config buffer i = none := by simp [strongEnd, hmark]
              by_cases htarget : config.targetCharacters ≤ characterCount buffer (i + bytes)
              · simp [softEnd, hmark, htarget, hstrong, ih]
              · simp [softEnd, hmark, htarget, hstrong, ih]

theorem punctuationBoundary_eq_markEnd (buffer : Bytes)
    (hlimits : config.minCharacters ≤ config.targetCharacters) :
    punctuationBoundary config buffer (completeUtf8Prefix buffer) 0 none =
      markEnd config buffer := by
  rw [punctuationBoundary_eq hlimits, Option.or_none, ← List.range_eq_range']
  rfl

/-! ## the hard limit -/

/-- Moving past continuation bytes adds no code point. -/
theorem characterCount_skipContinuation (completeBytes e : Nat) :
    characterCount buffer (skipContinuation buffer completeBytes e) = characterCount buffer e := by
  let skipped := ((buffer.take completeBytes).drop e).takeWhile isContinuation
  have hskipped : (buffer.drop e).take skipped.length = skipped := by
    refine (List.prefix_iff_eq_take.mp ((List.takeWhile_prefix _).trans ?_)).symm
    exact (List.take_prefix completeBytes buffer).drop e
  have hnone : skipped.countP (fun b => !isContinuation b) = 0 := by
    rw [List.countP_eq_zero]
    intro b hb
    simp [List.mem_takeWhile_imp hb]
  rw [characterCount, skipContinuation, List.take_add, List.countP_append, hskipped, hnone]
  rfl

/-- A cut of the hard limit has at most as many code points as the target. -/
theorem hardBoundary_le {completeBytes n i characters : Nat} {lastSpace : Option Nat}
    {boundary : Nat} (hcount : characterCount buffer i ≤ characters)
    (hbelow : characters < config.targetCharacters) (hlast : ∀ b ∈ lastSpace, b ≤ i)
    (h : hardBoundary config buffer completeBytes n i characters lastSpace = some boundary) :
    characterCount buffer boundary ≤ config.targetCharacters := by
  induction n generalizing i characters lastSpace with
  | zero => simp [hardBoundary] at h
  | succ n ih =>
      have hcount' := characterCount_succ_le hcount
      rw [hardBoundary] at h
      generalize hcharacters :
        (if isContinuation (buffer.getD i 0) then characters else characters + 1) = next at h hcount'
      generalize hspace : (if isSpace (buffer.getD i 0) then some (i + 1) else lastSpace) =
        space at h
      have hnext_le : next ≤ config.targetCharacters := by
        rw [← hcharacters]
        split <;> omega
      have hspace_le : ∀ b ∈ space, b ≤ i + 1 := by
        intro b hb
        rw [← hspace] at hb
        split at hb
        · obtain rfl := Option.some.inj hb
          exact Nat.le_refl _
        · exact Nat.le_succ_of_le (hlast b hb)
      split at h
      · obtain rfl := Option.some.inj h
        have he : space.getD (i + 1) ≤ i + 1 := by
          cases space with
          | none => exact Nat.le_refl _
          | some b => exact hspace_le b rfl
        have hmono := characterCount_mono buffer he
        rw [characterCount_skipContinuation]
        omega
      · exact ih hcount' (by omega) hspace_le h

/-- The hard limit finds a cut when the target has been reached. -/
theorem hardBoundary_none {completeBytes n i characters : Nat} {lastSpace : Option Nat}
    (hcount : characterCount buffer i ≤ characters) (hbelow : characters < config.targetCharacters)
    (h : hardBoundary config buffer completeBytes n i characters lastSpace = none) :
    characterCount buffer (i + n) < config.targetCharacters := by
  induction n generalizing i characters lastSpace with
  | zero =>
      rw [Nat.add_zero]
      omega
  | succ n ih =>
      have hcount' := characterCount_succ_le hcount
      rw [hardBoundary] at h
      generalize (if isContinuation (buffer.getD i 0) then characters else characters + 1) = next
        at h hcount'
      split at h
      · cases h
      · next hstill =>
        have hend := ih hcount' (by omega) h
        rwa [Nat.add_assoc, Nat.add_comm 1 n] at hend

/-! ## one round -/

/-- A round cuts at a mark, or it cuts, if at all, within the hard maximum. -/
theorem boundary_cases {flushing : Bool} {boundary : Nat} (hmin : 0 < config.minCharacters)
    (htarget : config.minCharacters ≤ config.targetCharacters)
    (hhard : config.targetCharacters ≤ config.hardMaxCharacters)
    (hcomplete : flushing = true → CompleteUtf8 buffer)
    (h : (sentenceBoundary config buffer).or (if flushing then some buffer.length else none) =
      some boundary) :
    markEnd config buffer = some boundary ∨ markEnd config buffer = none ∧
      characterCount buffer boundary ≤ config.hardMaxCharacters := by
  have hmarks := punctuationBoundary_eq_markEnd buffer htarget
  have hzero : characterCount buffer 0 ≤ 0 := by simp [characterCount]
  cases hmark : markEnd config buffer with
  | some e =>
      rw [sentenceBoundary, hmarks, hmark] at h
      exact .inl h
  | none =>
      refine .inr ⟨rfl, ?_⟩
      rw [sentenceBoundary, hmarks, hmark] at h
      dsimp only at h
      split at h
      · cases hcut : hardBoundary config buffer (completeUtf8Prefix buffer)
            (completeUtf8Prefix buffer) 0 0 none with
        | some e =>
            rw [hcut] at h
            obtain rfl := Option.some.inj h
            exact Nat.le_trans (hardBoundary_le hzero (by omega) (by simp) hcut) hhard
        | none =>
            have hshort := hardBoundary_none hzero (by omega) hcut
            rw [Nat.zero_add] at hshort
            omega
      · next hshort =>
        rw [Option.none_or] at h
        split at h
        · next hflush =>
          obtain rfl := Option.some.inj h
          have hall : completeUtf8Prefix buffer = buffer.length := hcomplete hflush
          rw [hall] at hshort
          omega
        · cases h

/-- The chunk of a round is within the hard maximum exactly when the round goes
by no late mark. -/
theorem cut_within_iff {flushing : Bool} {boundary : Nat} (hmin : 0 < config.minCharacters)
    (htarget : config.minCharacters ≤ config.targetCharacters)
    (hhard : config.targetCharacters ≤ config.hardMaxCharacters)
    (hcomplete : flushing = true → CompleteUtf8 buffer)
    (h : (sentenceBoundary config buffer).or (if flushing then some buffer.length else none) =
      some boundary) :
    codePoints (trim (buffer.take boundary)) ≤ config.hardMaxCharacters ↔
      ¬LateMark config buffer := by
  obtain hmark | ⟨hmark, hshort⟩ := boundary_cases hmin htarget hhard hcomplete h
  · rw [LateMark, hmark]
    simp
  · have htrim := codePoints_trim_le (buffer.take boundary)
    rw [codePoints_take] at htrim
    refine iff_of_true (by omega) ?_
    rw [LateMark, hmark]
    simp

end Round

/-! ## the rounds of a call -/

/-- The buffers at the head of the rounds of `extract`. -/
def rounds (config : SentenceSegmenterConfig) (flushing : Bool) : Nat → Bytes → List Bytes
  | 0, _ => []
  | fuel + 1, buffer =>
      if buffer = [] ∨ (flushing ∧ ¬CompleteUtf8 buffer) then []
      else match (sentenceBoundary config buffer).or
          (if flushing then some buffer.length else none) with
        | some boundary =>
            buffer :: rounds config flushing fuel ((buffer.drop boundary).dropWhile isSpace)
        | none => [buffer]

/-- A round that found no boundary went by no mark. -/
theorem no_late_mark {config : SentenceSegmenterConfig} {buffer : Bytes}
    (htarget : config.minCharacters ≤ config.targetCharacters)
    (h : sentenceBoundary config buffer = none) : ¬LateMark config buffer := by
  have hmarks := punctuationBoundary_eq_markEnd buffer htarget
  rw [sentenceBoundary, hmarks] at h
  rintro ⟨e, he, -⟩
  rw [Option.mem_def.mp he] at h
  cases h

/-- A buffer within the hard maximum has no late mark. -/
theorem not_late_of_short {config : SentenceSegmenterConfig} {buffer : Bytes}
    (h : codePoints buffer ≤ config.hardMaxCharacters) : ¬LateMark config buffer := by
  rintro ⟨e, -, hlate⟩
  have htrim := codePoints_trim_le (buffer.take e)
  have htake : codePoints (buffer.take e) ≤ codePoints buffer := by
    rw [codePoints_eq, codePoints_eq]
    exact (List.take_sublist e buffer).countP_le
  omega

/-- A round starts with an end of what the call started with. -/
theorem rounds_suffix {config : SentenceSegmenterConfig} {flushing : Bool} {fuel : Nat}
    {buffer b : Bytes} (hb : b ∈ rounds config flushing fuel buffer) : b <:+ buffer := by
  induction fuel generalizing buffer with
  | zero => cases hb
  | succ fuel ih =>
      rw [rounds] at hb
      split at hb
      · cases hb
      · split at hb
        · next boundary _ =>
          cases List.mem_cons.mp hb with
          | inl h => exact h ▸ List.suffix_refl _
          | inr h => exact (ih h).trans ((List.dropWhile_suffix _).trans (List.drop_suffix _ _))
        · rw [List.mem_singleton.mp hb]

/-- By induction on the rounds: the chunks of a call are within the hard maximum
exactly when none of its rounds goes by a late mark. -/
theorem extractLoop_within_iff (s : SentenceSegmenter) (flushing : Bool) {fuel : Nat}
    (output : List Bytes) {buffer : Bytes} (hfuel : buffer.length < fuel)
    (hcomplete : flushing = true → CompleteUtf8 buffer) :
    ∃ new rest, extractLoop s.config flushing fuel output buffer = (.ok (output ++ new), rest) ∧
      ((∀ chunk ∈ new, codePoints chunk ≤ s.config.hardMaxCharacters) ↔
        ∀ b ∈ rounds s.config flushing fuel buffer, ¬LateMark s.config b) := by
  induction fuel generalizing output buffer with
  | zero => omega
  | succ fuel ih =>
      rw [extractLoop_succ, rounds]
      by_cases hnil : buffer = []
      · refine ⟨[], buffer, ?_, by simp [hnil]⟩
        rw [if_pos hnil, List.append_nil]
      rw [if_neg hnil, if_neg (by simpa using hcomplete)]
      rw [if_neg (not_or.mpr ⟨hnil, by simpa using hcomplete⟩)]
      cases hboundary : (sentenceBoundary s.config buffer).or
          (if flushing then some buffer.length else none) with
      | none =>
          have hnone := (Option.or_eq_none_iff.mp hboundary).1
          refine ⟨[], buffer, by simp, ?_⟩
          simpa using no_late_mark s.min_le_target hnone
      | some boundary =>
          have hshorter := cut_length hnil (boundary_pos hnil hboundary)
          have hround := cut_within_iff s.min_pos s.min_le_target s.target_le_hard hcomplete hboundary
          let first : List Bytes :=
            if trim (buffer.take boundary) = [] then [] else [trim (buffer.take boundary)]
          have hfirst : (∀ chunk ∈ first, codePoints chunk ≤ s.config.hardMaxCharacters) ↔
              codePoints (trim (buffer.take boundary)) ≤ s.config.hardMaxCharacters := by
            by_cases hempty : trim (buffer.take boundary) = []
            · simp [first, hempty, codePoints, characterCount]
            · simp [first, hempty]
          obtain ⟨new, rest, hrun, hnew⟩ := ih (output ++ first) (by omega)
            fun hflush => cut_complete (hcomplete hflush) boundary
          refine ⟨first ++ new, rest, ?_, ?_⟩
          · rw [← List.append_assoc]
            exact hrun
          · rw [List.forall_mem_append, hfirst, hround, hnew]
            exact (List.forall_mem_cons (p := fun b => ¬LateMark s.config b)).symm

namespace SentenceSegmenter

/-- The buffers at the head of the rounds of one call of `extract`. -/
def extractRounds (s : SentenceSegmenter) (flushing : Bool) : List Bytes :=
  rounds s.config flushing (s.buffer.length + 1) s.buffer

/-- The buffers at the head of the rounds of a sequence of pushes. -/
def pushRounds : SentenceSegmenter → List Bytes → List Bytes
  | _, [] => []
  | s, textDelta :: rest =>
      { s with buffer := s.buffer ++ textDelta }.extractRounds false ++
        (s.push textDelta).2.pushRounds rest

theorem extract_within_iff (s : SentenceSegmenter) (flushing : Bool)
    (hcomplete : flushing = true → CompleteUtf8 s.buffer) :
    ∃ new s', s.extract flushing = (.ok new, s') ∧ s'.config = s.config ∧
      ((∀ chunk ∈ new, codePoints chunk ≤ s.config.hardMaxCharacters) ↔
        ∀ b ∈ s.extractRounds flushing, ¬LateMark s.config b) := by
  obtain ⟨new, rest, hrun, hnew⟩ :=
    extractLoop_within_iff s flushing [] (Nat.lt_succ_self s.buffer.length) hcomplete
  refine ⟨new, { s with buffer := rest }, ?_, rfl, hnew⟩
  simp only [extract, hrun, List.nil_append]

theorem pushes_within_iff (s : SentenceSegmenter) (deltas : List Bytes) :
    ∃ chunks s', s.pushes deltas = (.ok chunks, s') ∧ s'.config = s.config ∧
      ((∀ chunk ∈ chunks, codePoints chunk ≤ s.config.hardMaxCharacters) ↔
        ∀ b ∈ s.pushRounds deltas, ¬LateMark s.config b) := by
  induction deltas generalizing s with
  | nil => exact ⟨[], s, rfl, rfl, by simp [pushRounds]⟩
  | cons textDelta rest ih =>
      obtain ⟨first, s', hpush, hconfig, hfirst⟩ :=
        extract_within_iff { s with buffer := s.buffer ++ textDelta } false (by simp)
      have hpush : s.push textDelta = (.ok first, s') := hpush
      have hconfig : s'.config = s.config := hconfig
      obtain ⟨later, s'', hlater, hconfig', hrest⟩ := ih s'
      refine ⟨first ++ later, s'', ?_, hconfig'.trans hconfig, ?_⟩
      · simp only [pushes, hpush, hlater]
      · rw [pushRounds, hpush, List.forall_mem_append, List.forall_mem_append, hfirst]
        rw [hconfig] at hrest
        rw [hrest]

/-- A call with no more in the buffer than the hard maximum returns no chunk that is longer. -/
theorem extract_within_of_room {s : SentenceSegmenter} {flushing : Bool}
    (hroom : codePoints s.buffer ≤ s.config.hardMaxCharacters)
    (hcomplete : flushing = true → CompleteUtf8 s.buffer) :
    ∃ new s', s.extract flushing = (.ok new, s') ∧
      ∀ chunk ∈ new, codePoints chunk ≤ s.config.hardMaxCharacters := by
  obtain ⟨new, s', hextract, -, hnew⟩ := extract_within_iff s flushing hcomplete
  refine ⟨new, s', hextract, hnew.mpr fun b hb => not_late_of_short ?_⟩
  obtain ⟨x, hx⟩ := rounds_suffix hb
  have hcount := congrArg codePoints hx
  rw [codePoints_append] at hcount
  omega

/-- **When the hard maximum is a maximum**: the chunks that pushes return, and
with them those of a flush, have at most the hard maximum of code points exactly
when no round goes by a mark that stands too late. -/
theorem hard_maximum_iff {config : SentenceSegmenterConfig} {s : SentenceSegmenter}
    (hs : construct config = .ok s) (deltas : List Bytes) :
    ∃ chunks s', s.pushes deltas = (.ok chunks, s') ∧
      ((∀ chunk ∈ chunks, codePoints chunk ≤ config.hardMaxCharacters) ↔
        ∀ b ∈ s.pushRounds deltas, ¬LateMark config b) ∧
      ∀ last s'', s'.flush = (.ok last, s'') →
        ((∀ chunk ∈ chunks ++ last, codePoints chunk ≤ config.hardMaxCharacters) ↔
          ∀ b ∈ s.pushRounds deltas ++ s'.extractRounds true, ¬LateMark config b) := by
  have hconfig : s.config = config := by
    rw [construct] at hs
    split at hs
    · obtain rfl := Except.ok.inj hs
      rfl
    · cases hs
  obtain ⟨chunks, s', hpushes, hconfig', hchunks⟩ := s.pushes_within_iff deltas
  rw [hconfig] at hconfig' hchunks
  refine ⟨chunks, s', hpushes, hchunks, fun last s'' hflush => ?_⟩
  have hcomplete : CompleteUtf8 s'.buffer := by
    by_contra hincomplete
    rw [flush_incomplete hincomplete] at hflush
    cases hflush
  obtain ⟨new, t, hextract, -, hnew⟩ := extract_within_iff s' true fun _ => hcomplete
  have hlast : new = last := by
    rw [flush, hextract] at hflush
    exact Except.ok.inj (Prod.mk.inj hflush).1
  rw [hlast, hconfig'] at hnew
  rw [List.forall_mem_append, List.forall_mem_append, hchunks, hnew]

theorem hard_maximum_iff_hello : ∃ s, construct {} = .ok s ∧
    ∃ chunks s', s.pushes [lit "Hello there, ", lit "world!"] = (.ok chunks, s') ∧
      ((∀ chunk ∈ chunks, codePoints chunk ≤ 140) ↔
        ∀ b ∈ s.pushRounds [lit "Hello there, ", lit "world!"], ¬LateMark {} b) ∧
      ∀ last s'', s'.flush = (.ok last, s'') →
        ((∀ chunk ∈ chunks ++ last, codePoints chunk ≤ 140) ↔
          ∀ b ∈ s.pushRounds [lit "Hello there, ", lit "world!"] ++ s'.extractRounds true,
            ¬LateMark {} b) :=
  ⟨_, rfl, @hard_maximum_iff {} _ rfl _⟩

/-- 140 letters and an exclamation mark. -/
def longSentence : Bytes := List.replicate 140 0x61 ++ lit "!"

/-- Under the limits the source starts with, one delta gives a chunk of 141 code points. -/
theorem hard_maximum_exceeded : ∃ s, construct {} = .ok s ∧
    (s.pushes [longSentence]).1 = .ok [longSentence] ∧ 140 < codePoints longSentence := by
  refine ⟨_, rfl, ?_, ?_⟩ <;> decide +kernel

end SentenceSegmenter

end ByteTurn

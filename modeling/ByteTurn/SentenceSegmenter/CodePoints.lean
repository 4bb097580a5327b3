import ByteTurn.Lib.Lists
import ByteTurn.SentenceSegmenter.HardMaximum

/-!
# ByteTurn.SentenceSegmenter.CodePoints

The segmenter cuts between characters, and it holds back nothing it could cut.

A buffer that is the beginning of a UTF-8 text is characters and a beginning of
one more, and `complete_utf8_prefix` tells them apart
(`completeUtf8Prefix_encode`).  Every boundary is a border of the characters
(`sentenceBoundary_valid`): a mark is a whole character, and the hard limit moves
on to the next one.  So what is returned is valid (`segmentation_valid`), and a
round that finds no boundary has no mark late enough to cut at
(`segmentation_residual`).
-/

namespace ByteTurn

open Utf8

/-! ## the complete prefix -/

theorem sequenceWidth_lead {b : UInt8} (h : IsLead b) : sequenceWidth b = width b := by
  have hall : ∀ b : UInt8, b < 0x80 ∨ (0xc0 ≤ b ∧ b < 0xf8) → sequenceWidth b = width b := by
    decide +kernel
  exact hall b h

/-- The last sequence of a text starts at its last byte that is no continuation byte. -/
theorem sequenceStart_sequence {x rest : Bytes} {lead : UInt8} (hlead : IsLead lead)
    (hrest : ∀ b ∈ rest, IsTrail b) {k : Nat} (hk : k ≤ rest.length) :
    sequenceStart (x ++ lead :: rest) (x.length + k) = x.length := by
  induction k with
  | zero =>
      cases hx : x.length with
      | zero => rfl
      | succ n =>
          have hget : (x ++ lead :: rest).getD (n + 1) 0 = lead := by
            rw [← hx, List.getD_eq_getElem?_getD, List.getElem?_append_right (Nat.le_refl _),
              Nat.sub_self]
            rfl
          rw [Nat.add_zero, sequenceStart, hget, isContinuation_lead hlead]
          rfl
  | succ k ih =>
      have hlt : k < rest.length := by omega
      have hget : (x ++ lead :: rest).getD (x.length + k + 1) 0 = rest[k] := by
        rw [List.getD_eq_getElem?_getD, List.getElem?_append_right (by omega),
          Nat.add_assoc, Nat.add_sub_cancel_left, List.getElem?_cons_succ,
          List.getElem?_eq_getElem hlt]
        rfl
      rw [← Nat.add_assoc, sequenceStart, hget,
        isContinuation_iff.mpr (hrest _ (List.getElem_mem hlt))]
      exact ih (by omega)

theorem completeUtf8Prefix_sequence (x : Bytes) {rest : Bytes} {lead : UInt8} (hlead : IsLead lead)
    (hrest : ∀ b ∈ rest, IsTrail b) :
    completeUtf8Prefix (x ++ lead :: rest) =
      if rest.length + 1 < width lead then x.length else (x ++ lead :: rest).length := by
  have hne : x ++ lead :: rest ≠ [] := List.append_ne_nil_of_right_ne_nil _ (List.cons_ne_nil _ _)
  have hlength : (x ++ lead :: rest).length = x.length + rest.length + 1 := by
    rw [List.length_append, List.length_cons]
    omega
  have hget : (x ++ lead :: rest).getD x.length 0 = lead := by
    rw [List.getD_eq_getElem?_getD, List.getElem?_append_right (Nat.le_refl _), Nat.sub_self]
    rfl
  have hstart := sequenceStart_sequence (x := x) hlead hrest (Nat.le_refl _)
  rw [completeUtf8Prefix, if_neg hne, hlength, Nat.add_sub_cancel, hstart]
  dsimp only
  rw [hget, sequenceWidth_lead hlead]
  have hleft : x.length + rest.length + 1 - x.length = rest.length + 1 := by omega
  rw [hleft]

/-- **The complete prefix is the whole characters.** -/
theorem completeUtf8Prefix_encode (text : List Char) {tail : Bytes} (htail : Incomplete tail) :
    completeUtf8Prefix (encode text ++ tail) = (encode text).length := by
  obtain ⟨c, hprefix, hne⟩ := htail
  obtain ⟨lead, rest, hc, hlead, hwidth, hrest⟩ := encodeChar_shape c
  rw [hc] at hprefix hne
  cases tail with
  | cons b tail =>
      obtain ⟨rfl, hinside⟩ := List.cons_prefix_cons.mp hprefix
      have hshort : tail.length < rest.length := by
        refine lt_of_le_of_ne hinside.length_le fun heq => hne ?_
        rw [hinside.eq_of_length heq]
      rw [completeUtf8Prefix_sequence _ hlead fun b hb => hrest b (hinside.subset hb),
        if_pos (by omega)]
  | nil =>
      rw [List.append_nil]
      cases text using List.reverseRecOn with
      | nil => rfl
      | append_singleton text c' =>
          obtain ⟨lead', rest', hc', hlead', hwidth', hrest'⟩ := encodeChar_shape c'
          have hencode : encode (text ++ [c']) = encode text ++ lead' :: rest' := by
            rw [encode_append, ← hc']
            simp [encode]
          rw [hencode, completeUtf8Prefix_sequence _ hlead' hrest', if_neg (by omega)]

/-- A partial text is its complete prefix and an incomplete character. -/
theorem partial_front {buffer : Bytes} (h : Partial buffer) :
    ∃ text tail, buffer = encode text ++ tail ∧ Incomplete tail ∧
      buffer.take (completeUtf8Prefix buffer) = encode text := by
  obtain ⟨text, tail, rfl, htail⟩ := h.split
  refine ⟨text, tail, rfl, htail, ?_⟩
  rw [completeUtf8Prefix_encode text htail]
  exact List.take_left

theorem completeUtf8Prefix_le (text : Bytes) : completeUtf8Prefix text ≤ text.length := by
  unfold completeUtf8Prefix
  split
  · exact Nat.zero_le _
  · dsimp only
    have hle := sequenceStart_le text (text.length - 1)
    split <;> omega

/-! ## spaces -/

theorem ascii_of_isSpace (b : UInt8) (h : isSpace b = true) : b < 0x80 := by
  simp only [isSpace, Bool.or_eq_true, Bool.and_eq_true, decide_eq_true_eq] at h
  rcases h with rfl | ⟨-, hle⟩
  · decide
  · exact UInt8.lt_of_le_of_lt hle (by decide)

theorem Blank.valid {w : Bytes} (h : Blank w) : Valid w :=
  valid_ascii fun b hb => ascii_of_isSpace b (h b hb)

theorem not_trail_of_ascii (b : UInt8) (h : b < 0x80) : ¬IsTrail b := IsLead.not_trail (.inl h)

/-- Trimming removes whole characters. -/
theorem valid_trim {text : Bytes} (h : Valid text) : Valid (trim text) := by
  obtain ⟨w, w', hw, hw', htext⟩ := trim_split text
  rw [List.append_assoc] at htext
  have hback : Valid (trim text ++ w') := hw.valid.of_append (htext ▸ h)
  have hcut := hback.take_of_lead (i := (trim text).length) (by
    intro b hb
    rw [List.getElem?_append_right (Nat.le_refl _), Nat.sub_self] at hb
    have hmem : b ∈ w' := List.mem_of_getElem? hb
    exact not_trail_of_ascii b (ascii_of_isSpace b (hw' b hmem)))
  rwa [List.take_left] at hcut

/-! ## boundaries -/

section Round

variable {config : SentenceSegmenterConfig} {buffer : Bytes}

/-- A mark is a whole character. -/
theorem punctuationAt_lead {i bytes : Nat} {strong : Bool} (hi : i < buffer.length)
    (h : punctuationAt buffer i = some (bytes, strong)) :
    ∃ lead, buffer[i]? = some lead ∧ ¬IsTrail lead ∧ width lead = bytes := by
  have hget : buffer.getD i 0 = buffer[i] := by
    rw [List.getD_eq_getElem?_getD, List.getElem?_eq_getElem hi]
    rfl
  have htoken {token : Bytes} (htoken : startsAt buffer i token = true) {lead : UInt8}
      (hhead : token.head? = some lead) : buffer[i] = lead := by
    obtain ⟨rest, hrest⟩ := List.isPrefixOf_iff_prefix.mp htoken
    have hfirst : (buffer.drop i).head? = some lead := by
      rw [← hrest, List.head?_append, hhead]
      rfl
    rw [List.head?_drop, List.getElem?_eq_getElem hi] at hfirst
    exact Option.some.inj hfirst
  refine ⟨buffer[i], List.getElem?_eq_getElem hi, ?_⟩
  have hone {b : UInt8} (hb : buffer[i] = b) (hascii : ¬IsTrail b ∧ width b = 1) :
      ¬IsTrail buffer[i] ∧ width buffer[i] = 1 := hb ▸ hascii
  have hthree {token : Bytes} (hstarts : startsAt buffer i token = true) {lead : UInt8}
      (hhead : token.head? = some lead) (hwide : ¬IsTrail lead ∧ width lead = 3) :
      ¬IsTrail buffer[i] ∧ width buffer[i] = 3 := htoken hstarts hhead ▸ hwide
  unfold punctuationAt at h
  dsimp only at h
  rw [hget] at h
  split at h
  · next hmark =>
    cases h
    rcases hmark with hb | hb | hb <;> exact hone hb (by decide)
  · split at h
    · next hmark =>
      cases h
      rcases hmark with hb | hb | hb <;> exact hthree hb rfl (by decide)
    · split at h
      · next hmark =>
        cases h
        rcases hmark with hb | hb <;> exact hone hb (by decide)
      · split at h
        · next hmark =>
          cases h
          rcases hmark with hb | hb <;> exact hthree hb rfl (by decide)
        · split at h
          · next hmark =>
            cases h
            exact hone hmark.1 (by decide)
          · cases h

theorem mark_valid (hbegun : Partial buffer) {i bytes : Nat} {strong : Bool}
    (hi : i < completeUtf8Prefix buffer) (h : punctuationAt buffer i = some (bytes, strong)) :
    Valid (buffer.take (i + bytes)) := by
  obtain ⟨text, tail, -, -, hfront⟩ := partial_front hbegun
  have hle := completeUtf8Prefix_le buffer
  obtain ⟨lead, hget, hlead, rfl⟩ := punctuationAt_lead (by omega) h
  have hvalid : Valid (buffer.take (completeUtf8Prefix buffer)) := ⟨text, hfront⟩
  have hfrontget : (buffer.take (completeUtf8Prefix buffer))[i]? = some lead := by
    rw [List.getElem?_take_of_lt hi, hget]
  obtain ⟨hend, hcut⟩ := hvalid.take_of_width hfrontget hlead
  rw [List.length_take] at hend
  rwa [List.take_take, Nat.min_eq_left (by omega)] at hcut

theorem markEnd_valid (hbegun : Partial buffer) {e : Nat} (h : markEnd config buffer = some e) :
    Valid (buffer.take e) := by
  have hposition {i : Nat} {mark : Nat → Option Nat} (hmem : i ∈ List.range (completeUtf8Prefix buffer))
      (hmark : mark i = some e) (hkind : mark = strongEnd config buffer ∨
        mark = softEnd config buffer) : Valid (buffer.take e) := by
    have hi := List.mem_range.mp hmem
    rcases hkind with rfl | rfl
    · unfold strongEnd at hmark
      split at hmark
      · next bytes hpunctuation =>
        split at hmark
        · obtain rfl := Option.some.inj hmark
          exact mark_valid hbegun hi hpunctuation
        · cases hmark
      · cases hmark
    · unfold softEnd at hmark
      split at hmark
      · next bytes hpunctuation =>
        split at hmark
        · obtain rfl := Option.some.inj hmark
          exact mark_valid hbegun hi hpunctuation
        · cases hmark
      · cases hmark
  unfold markEnd at h
  dsimp only at h
  cases hstrong : (List.range (completeUtf8Prefix buffer)).findSome? (strongEnd config buffer) with
  | some e' =>
      rw [hstrong] at h
      obtain rfl := Option.some.inj h
      obtain ⟨i, hi, hmark⟩ := List.exists_of_findSome?_eq_some hstrong
      exact hposition hi hmark (.inl rfl)
  | none =>
      rw [hstrong, Option.none_or] at h
      obtain ⟨i, hi, hmark⟩ := List.exists_of_findSome?_eq_some h
      exact hposition (List.mem_reverse.mp hi) hmark (.inr rfl)

/-- The hard limit cuts after some byte, and then before the next character. -/
theorem hardBoundary_skips {completeBytes n i characters : Nat} {lastSpace : Option Nat}
    {boundary : Nat} (hn : i + n ≤ completeBytes) (hlast : ∀ b ∈ lastSpace, b ≤ i)
    (h : hardBoundary config buffer completeBytes n i characters lastSpace = some boundary) :
    ∃ e ≤ completeBytes, boundary = skipContinuation buffer completeBytes e := by
  induction n generalizing i characters lastSpace with
  | zero => cases h
  | succ n ih =>
      rw [hardBoundary] at h
      generalize (if isContinuation (buffer.getD i 0) then characters else characters + 1) = next
        at h
      generalize hspace : (if isSpace (buffer.getD i 0) then some (i + 1) else lastSpace) =
        space at h
      have hspace_le : ∀ b ∈ space, b ≤ i + 1 := by
        intro b hb
        rw [← hspace] at hb
        split at hb
        · obtain rfl := Option.some.inj hb
          exact Nat.le_refl _
        · exact Nat.le_succ_of_le (hlast b hb)
      split at h
      · obtain rfl := Option.some.inj h
        refine ⟨space.getD (i + 1), ?_, rfl⟩
        cases space with
        | none => exact Nat.le_trans (by omega : i + 1 ≤ i + (n + 1)) hn
        | some b => exact Nat.le_trans (hspace_le b rfl) (by omega)
      · exact ih (by omega) hspace_le h

theorem skipContinuation_valid (hbegun : Partial buffer) {e : Nat}
    (he : e ≤ completeUtf8Prefix buffer) :
    Valid (buffer.take (skipContinuation buffer (completeUtf8Prefix buffer) e)) := by
  obtain ⟨text, tail, -, -, hfront⟩ := partial_front hbegun
  have hvalid : Valid (buffer.take (completeUtf8Prefix buffer)) := ⟨text, hfront⟩
  have hle := completeUtf8Prefix_le buffer
  let front := buffer.take (completeUtf8Prefix buffer)
  have hlength : front.length = completeUtf8Prefix buffer := by
    rw [List.length_take, Nat.min_eq_left hle]
  have hskip : skipContinuation buffer (completeUtf8Prefix buffer) e =
      e + ((front.drop e).takeWhile isContinuation).length := rfl
  have hend : e + ((front.drop e).takeWhile isContinuation).length ≤ completeUtf8Prefix buffer := by
    have htake := (List.takeWhile_sublist isContinuation (l := front.drop e)).length_le
    rw [List.length_drop, hlength] at htake
    omega
  have hborder : ∀ b ∈ front[e + ((front.drop e).takeWhile isContinuation).length]?,
      ¬IsTrail b := by
    intro b hb
    rw [← List.getElem?_drop, ← List.head?_drop, List.drop_takeWhile_length] at hb
    have hnot := List.head?_dropWhile_not isContinuation (front.drop e)
    rw [hb] at hnot
    dsimp only at hnot
    intro htrail
    rw [isContinuation_iff.mpr htrail] at hnot
    cases hnot
  have hcut := hvalid.take_of_lead hborder
  rw [hskip]
  rwa [List.take_take, Nat.min_eq_left hend] at hcut

/-- **Every boundary is a border of the characters.** -/
theorem sentenceBoundary_valid (hlimits : config.minCharacters ≤ config.targetCharacters)
    (hbegun : Partial buffer) {boundary : Nat}
    (h : sentenceBoundary config buffer = some boundary) : Valid (buffer.take boundary) := by
  rw [sentenceBoundary, punctuationBoundary_eq_markEnd buffer hlimits] at h
  cases hmark : markEnd config buffer with
  | some e =>
      rw [hmark] at h
      obtain rfl := Option.some.inj h
      exact markEnd_valid hbegun hmark
  | none =>
      rw [hmark] at h
      dsimp only at h
      split at h
      · obtain ⟨e, he, rfl⟩ := hardBoundary_skips (by omega) (by simp) h
        exact skipContinuation_valid hbegun he
      · cases h

end Round

/-! ## a whole call -/

theorem valid_of_complete {buffer : Bytes} (hbegun : Partial buffer)
    (hcomplete : CompleteUtf8 buffer) : Valid buffer := by
  obtain ⟨text, tail, -, -, hfront⟩ := partial_front hbegun
  have hall : completeUtf8Prefix buffer = buffer.length := hcomplete
  rw [hall, List.take_length] at hfront
  exact ⟨text, hfront⟩

/-- Every round cuts at a border. -/
theorem boundary_valid {config : SentenceSegmenterConfig}
    (hlimits : config.minCharacters ≤ config.targetCharacters) {flushing : Bool} {buffer : Bytes}
    {boundary : Nat} (hbegun : Partial buffer) (hcomplete : flushing = true → CompleteUtf8 buffer)
    (h : (sentenceBoundary config buffer).or (if flushing then some buffer.length else none) =
      some boundary) : Valid (buffer.take boundary) := by
  cases hmark : sentenceBoundary config buffer with
  | some b =>
      rw [hmark] at h
      obtain rfl := Option.some.inj h
      exact sentenceBoundary_valid hlimits hbegun hmark
  | none =>
      rw [hmark, Option.none_or] at h
      split at h
      · next hflush =>
        obtain rfl := Option.some.inj h
        rw [List.take_length]
        exact valid_of_complete hbegun (hcomplete hflush)
      · cases h

/-- By induction on the rounds: what a call returns is valid, and what it leaves
is partial with what may follow. -/
theorem extractLoop_valid {config : SentenceSegmenterConfig}
    (hlimits : config.minCharacters ≤ config.targetCharacters) (flushing : Bool) {fuel : Nat}
    (output : List Bytes) {buffer : Bytes} (later : Bytes) (hfuel : buffer.length < fuel)
    (hcomplete : flushing = true → CompleteUtf8 buffer) (hbegun : Partial (buffer ++ later)) :
    ∃ new rest, extractLoop config flushing fuel output buffer = (.ok (output ++ new), rest) ∧
      (∀ chunk ∈ new, Valid chunk) ∧ Partial (rest ++ later) := by
  induction fuel generalizing output buffer with
  | zero => omega
  | succ fuel ih =>
      rw [extractLoop_succ]
      by_cases hnil : buffer = []
      · rw [if_pos hnil]
        exact ⟨[], buffer, by rw [List.append_nil], nofun, hbegun⟩
      rw [if_neg hnil, if_neg (by simpa using hcomplete)]
      cases hboundary : (sentenceBoundary config buffer).or
          (if flushing then some buffer.length else none) with
      | none => exact ⟨[], buffer, by rw [List.append_nil], nofun, hbegun⟩
      | some boundary =>
          have hbuffer : Partial buffer := hbegun.of_prefix (List.prefix_append _ _)
          have hcut := boundary_valid hlimits hbuffer hcomplete hboundary
          have hshorter := cut_length hnil (boundary_pos hnil hboundary)
          have hblanks := blank_takeWhile (buffer.drop boundary)
          have hsplit : buffer = (buffer.take boundary ++ (buffer.drop boundary).takeWhile isSpace) ++
              (buffer.drop boundary).dropWhile isSpace := by
            rw [List.append_assoc, List.takeWhile_append_dropWhile, List.take_append_drop]
          have hrest : Partial ((buffer.drop boundary).dropWhile isSpace ++ later) := by
            refine Partial.of_append (hcut.append hblanks.valid) ?_
            rw [← List.append_assoc, ← hsplit]
            exact hbegun
          let first : List Bytes :=
            if trim (buffer.take boundary) = [] then [] else [trim (buffer.take boundary)]
          have hfirst : ∀ chunk ∈ first, Valid chunk := by
            by_cases hempty : trim (buffer.take boundary) = []
            · simp [first, hempty]
            · simp [first, hempty, valid_trim hcut]
          obtain ⟨new, rest, hrun, hnew, hleft⟩ := ih (output ++ first) (by omega)
            (fun hflush => cut_complete (hcomplete hflush) boundary) hrest
          refine ⟨first ++ new, rest, ?_, List.forall_mem_append.mpr ⟨hfirst, hnew⟩, hleft⟩
          rw [← List.append_assoc]
          exact hrun

namespace SentenceSegmenter

/-- A call keeps what follows partial. -/
theorem extract_valid (s : SentenceSegmenter) (flushing : Bool) (later : Bytes)
    (hcomplete : flushing = true → CompleteUtf8 s.buffer)
    (hbegun : Partial (s.buffer ++ later)) :
    ∃ new s', s.extract flushing = (.ok new, s') ∧ s'.config = s.config ∧
      (∀ chunk ∈ new, Valid chunk) ∧ Partial (s'.buffer ++ later) := by
  obtain ⟨new, rest, hrun, hnew, hrest⟩ := extractLoop_valid s.min_le_target flushing [] later
    (Nat.lt_succ_self s.buffer.length) hcomplete hbegun
  refine ⟨new, { s with buffer := rest }, ?_, rfl, hnew, hrest⟩
  simp only [extract, hrun, List.nil_append]

theorem pushes_valid (s : SentenceSegmenter) (deltas : List Bytes)
    (hbegun : Partial (s.buffer ++ deltas.flatten)) :
    ∃ chunks s', s.pushes deltas = (.ok chunks, s') ∧ s'.config = s.config ∧
      (∀ chunk ∈ chunks, Valid chunk) ∧ Partial s'.buffer := by
  induction deltas generalizing s with
  | nil =>
      rw [List.flatten_nil, List.append_nil] at hbegun
      exact ⟨[], s, rfl, rfl, nofun, hbegun⟩
  | cons textDelta rest ih =>
      rw [List.flatten_cons, ← List.append_assoc] at hbegun
      obtain ⟨first, s', hpush, hconfig, hfirst, hnext⟩ :=
        extract_valid { s with buffer := s.buffer ++ textDelta } false rest.flatten (by simp)
          hbegun
      have hpush : s.push textDelta = (.ok first, s') := hpush
      obtain ⟨later, s'', hlater, hconfig', hvalid, hleft⟩ := ih s' hnext
      refine ⟨first ++ later, s'', ?_, hconfig'.trans hconfig,
        List.forall_mem_append.mpr ⟨hfirst, hvalid⟩, hleft⟩
      simp only [pushes, hpush, hlater]

theorem construct_eq {config : SentenceSegmenterConfig} {s : SentenceSegmenter}
    (hs : construct config = .ok s) : s.config = config ∧ s.buffer = [] := by
  rw [construct] at hs
  split at hs
  · obtain rfl := Except.ok.inj hs
    exact ⟨rfl, rfl⟩
  · cases hs

/-- **Segmentation respects code points**: when the deltas pushed so far are the
beginning of a UTF-8 text, however they cut it, every chunk that was returned is
valid and the buffer is characters and at most one incomplete character; the
chunks of a flush after them are valid too. -/
theorem segmentation_valid {config : SentenceSegmenterConfig} {s : SentenceSegmenter}
    (hs : construct config = .ok s) (deltas : List Bytes) (htext : Partial deltas.flatten) :
    ∃ chunks s', s.pushes deltas = (.ok chunks, s') ∧ (∀ chunk ∈ chunks, Valid chunk) ∧
      (∃ text tail, s'.buffer = encode text ++ tail ∧ Incomplete tail) ∧
      ∀ last s'', s'.flush = (.ok last, s'') → ∀ chunk ∈ last, Valid chunk := by
  obtain ⟨-, hempty⟩ := construct_eq hs
  obtain ⟨chunks, s', hpushes, -, hchunks, hbuffer⟩ := s.pushes_valid deltas (by rwa [hempty])
  refine ⟨chunks, s', hpushes, hchunks, hbuffer.split, ?_⟩
  intro last s'' hflush
  have hcomplete : CompleteUtf8 s'.buffer := by
    by_contra hincomplete
    rw [flush_incomplete hincomplete] at hflush
    cases hflush
  obtain ⟨new, t, hextract, -, hnew, -⟩ := extract_valid s' true [] (fun _ => hcomplete)
    (by rwa [List.append_nil])
  rw [flush, hextract] at hflush
  obtain rfl := Except.ok.inj (Prod.mk.inj hflush).1
  exact hnew

/-- Two deltas that cut a character. -/
theorem segmentation_valid_split : ∃ s, construct {} = .ok s ∧
    ∃ chunks s', s.pushes [[0x48, 0x69, 0xe3, 0x80], [0x82]] = (.ok chunks, s') ∧
      (∀ chunk ∈ chunks, Valid chunk) ∧
      (∃ text tail, s'.buffer = encode text ++ tail ∧ Incomplete tail) ∧
      ∀ last s'', s'.flush = (.ok last, s'') → ∀ chunk ∈ last, Valid chunk :=
  ⟨_, rfl, @segmentation_valid {} _ rfl _ ⟨['H', 'i', '。'], [], by decide⟩⟩

end SentenceSegmenter

end ByteTurn

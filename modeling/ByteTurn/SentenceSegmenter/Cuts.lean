import ByteTurn.Lib.Lists
import ByteTurn.SentenceSegmenter.HardMaximum

/-!
# ByteTurn.SentenceSegmenter.Cuts

Where the sentences of a text stand in it.

A round that returns a sentence is a cut (`Cut`).  It begins where the sentences
before it are spaced out (`PlacedCuts`), and so the place of a sentence in a text
made of several parts can be read off the sentences alone: it lies in one part,
or the cut goes by the end of a part with text on both sides of it
(`Cut.partOfOne_iff`).
-/

namespace ByteTurn

/-! ## cuts -/

/-- A round of `extract` that returns a sentence: the text so far, the buffer at
the head of the round, and its boundary. -/
structure Cut where
  text : Bytes
  buffer : Bytes
  boundary : Nat

namespace Cut

/-- The text that has left the buffer before. -/
def taken (c : Cut) : Bytes := c.text.rdrop c.buffer.length

/-- What is cut off. -/
def piece (c : Cut) : Bytes := c.buffer.take c.boundary

def sentence (c : Cut) : Bytes := trim c.piece

/-- The text ends in one of its parts, and the cut goes by the end of that part:
what is cut off has something but spaces on both sides of it. -/
def Joins (parts : List Bytes) (c : Cut) : Prop :=
  ∃ k, ¬ Blank (c.piece.take ((parts.take k).flatten.length - c.taken.length)) ∧
    ¬ Blank (c.piece.drop ((parts.take k).flatten.length - c.taken.length))

end Cut

/-- The cut of a round, if it returns a sentence. -/
def roundCut (config : SentenceSegmenterConfig) (flushing : Bool) (text buffer : Bytes) :
    Option Cut :=
  match (sentenceBoundary config buffer).or (if flushing then some buffer.length else none) with
  | some boundary =>
      if trim (buffer.take boundary) = [] then none else some ⟨text, buffer, boundary⟩
  | none => none

/-- Cuts in a text after the sentences `before`: each begins where the sentences
before it are spaced out. -/
inductive PlacedCuts (text : Bytes) : List Bytes → List Cut → Prop
  | nil {before : List Bytes} : PlacedCuts text before []
  | cons {before : List Bytes} {c : Cut} {cuts : List Cut} :
      Spaced before c.taken → c.taken ++ c.buffer <+: text → c.sentence ≠ [] →
      PlacedCuts text (before ++ [c.sentence]) cuts → PlacedCuts text before (c :: cuts)

namespace PlacedCuts

variable {text : Bytes} {before : List Bytes} {cuts : List Cut}

theorem append {cuts' : List Cut} (h : PlacedCuts text before cuts)
    (h' : PlacedCuts text (before ++ cuts.map Cut.sentence) cuts') :
    PlacedCuts text before (cuts ++ cuts') := by
  induction h with
  | nil =>
      rw [List.map_nil, List.append_nil] at h'
      exact h'
  | cons hspaced htext hne _ ih =>
      refine .cons hspaced htext hne (ih ?_)
      rw [List.map_cons, List.append_cons] at h'
      exact h'

theorem extend {text' : Bytes} (h : PlacedCuts text before cuts) (htext : text <+: text') :
    PlacedCuts text' before cuts := by
  induction h with
  | nil => exact .nil
  | cons hspaced hbuffer hne _ ih => exact .cons hspaced (hbuffer.trans htext) hne ih

theorem getElem? {i : Nat} {c : Cut} (h : PlacedCuts text before cuts) (hi : cuts[i]? = some c) :
    Spaced (before ++ (cuts.take i).map Cut.sentence) c.taken ∧ c.taken ++ c.buffer <+: text ∧
      c.sentence ≠ [] := by
  induction h generalizing i with
  | nil => cases hi
  | @cons before d cuts hspaced htext hne _ ih =>
      cases i with
      | zero =>
          obtain rfl := Option.some.inj hi
          rw [List.take_zero, List.map_nil, List.append_nil]
          exact ⟨hspaced, htext, hne⟩
      | succ i =>
          obtain ⟨hlater, hrest⟩ := ih hi
          rw [List.take_succ_cons, List.map_cons, List.append_cons]
          exact ⟨hlater, hrest⟩

end PlacedCuts

/-! ## the cuts of a call -/

/-- By induction on the rounds: the sentences of a call are those of its cuts. -/
theorem extractLoop_cuts (config : SentenceSegmenterConfig) (flushing : Bool) {fuel : Nat}
    (output : List Bytes) {text taken buffer : Bytes} {before : List Bytes}
    (hfuel : buffer.length < fuel) (hcomplete : flushing = true → CompleteUtf8 buffer)
    (htext : text = taken ++ buffer) (hspaced : Spaced before taken) :
    ∃ cuts taken' rest,
      cuts = (rounds config flushing fuel buffer).filterMap (roundCut config flushing text) ∧
      extractLoop config flushing fuel output buffer =
        (.ok (output ++ cuts.map Cut.sentence), rest) ∧
      PlacedCuts text before cuts ∧ text = taken' ++ rest ∧
      Spaced (before ++ cuts.map Cut.sentence) taken' := by
  induction fuel generalizing output taken buffer before with
  | zero => omega
  | succ fuel ih =>
      rw [extractLoop_succ, rounds]
      by_cases hnil : buffer = []
      · refine ⟨[], taken, buffer, by simp [hnil], ?_, .nil, htext, by simpa using hspaced⟩
        rw [if_pos hnil, List.map_nil, List.append_nil]
      have hgoes : ¬(flushing = true ∧ ¬CompleteUtf8 buffer) := by simpa using hcomplete
      rw [if_neg hnil, if_neg hgoes, if_neg (not_or.mpr ⟨hnil, hgoes⟩)]
      cases hboundary : (sentenceBoundary config buffer).or
          (if flushing then some buffer.length else none) with
      | none =>
          refine ⟨[], taken, buffer, ?_, by simp, .nil, htext, by simpa using hspaced⟩
          simp [roundCut, hboundary]
      | some boundary =>
          have hshorter := cut_length hnil (boundary_pos hnil hboundary)
          obtain ⟨x, hx, hfirst⟩ := cut_split buffer boundary
          obtain ⟨cuts, taken', rest, hcuts, hrun, hplaced, hrest, hlater⟩ :=
            ih (output ++ if trim (buffer.take boundary) = [] then []
                else [trim (buffer.take boundary)]) (by omega)
              (fun hflush => cut_complete (hcomplete hflush) boundary)
              (by rw [htext, List.append_assoc, ← hx]) (hspaced.append hfirst)
          by_cases hempty : trim (buffer.take boundary) = []
          · -- a round that cuts off spaces
            rw [if_pos hempty, List.append_nil] at hplaced hlater hrun
            refine ⟨cuts, taken', rest, ?_, ?_, hplaced, hrest, hlater⟩
            · rw [hcuts]
              simp [roundCut, hboundary, hempty]
            · simpa [hempty] using hrun
          · let c : Cut := ⟨text, buffer, boundary⟩
            have htaken : c.taken = taken := by
              show text.rdrop buffer.length = taken
              rw [htext, List.rdrop_append_length]
            rw [if_neg hempty] at hplaced hlater hrun
            refine ⟨c :: cuts, taken', rest, ?_, ?_, .cons ?_ ?_ hempty hplaced, hrest, ?_⟩
            · rw [hcuts]
              simp [roundCut, hboundary, hempty, c]
            · rw [List.append_assoc] at hrun
              dsimp only
              rw [if_neg hempty]
              exact hrun
            · rw [htaken]
              exact hspaced
            · rw [htaken]
              exact htext ▸ List.prefix_refl _
            · rw [List.map_cons, List.append_cons]
              exact hlater

namespace SentenceSegmenter

/-- The cuts of one call of `extract`, with the text so far. -/
def extractCuts (s : SentenceSegmenter) (flushing : Bool) (text : Bytes) : List Cut :=
  (s.extractRounds flushing).filterMap (roundCut s.config flushing text)

/-- The cuts of a sequence of pushes, with the text before them. -/
def pushCuts : SentenceSegmenter → Bytes → List Bytes → List Cut
  | _, _, [] => []
  | s, text, textDelta :: rest =>
      { s with buffer := s.buffer ++ textDelta }.extractCuts false (text ++ textDelta) ++
        (s.push textDelta).2.pushCuts (text ++ textDelta) rest

theorem extract_cuts (s : SentenceSegmenter) (flushing : Bool) {text taken : Bytes}
    {before : List Bytes} (hcomplete : flushing = true → CompleteUtf8 s.buffer)
    (htext : text = taken ++ s.buffer) (hspaced : Spaced before taken) :
    ∃ s' taken', s.extract flushing = (.ok ((s.extractCuts flushing text).map Cut.sentence), s') ∧
      s'.config = s.config ∧ PlacedCuts text before (s.extractCuts flushing text) ∧
      text = taken' ++ s'.buffer ∧
      Spaced (before ++ (s.extractCuts flushing text).map Cut.sentence) taken' := by
  obtain ⟨cuts, taken', rest, hcuts, hrun, hplaced, hrest, hlater⟩ :=
    extractLoop_cuts s.config flushing [] (Nat.lt_succ_self s.buffer.length) hcomplete htext hspaced
  obtain rfl : cuts = s.extractCuts flushing text := hcuts
  refine ⟨{ s with buffer := rest }, taken', ?_, rfl, hplaced, hrest, hlater⟩
  simp only [extract, hrun, List.nil_append]

theorem pushes_cuts (s : SentenceSegmenter) (deltas : List Bytes) {text taken : Bytes}
    {before : List Bytes} (htext : text = taken ++ s.buffer) (hspaced : Spaced before taken) :
    ∃ s' taken', s.pushes deltas = (.ok ((s.pushCuts text deltas).map Cut.sentence), s') ∧
      s'.config = s.config ∧ PlacedCuts (text ++ deltas.flatten) before (s.pushCuts text deltas) ∧
      text ++ deltas.flatten = taken' ++ s'.buffer ∧
      Spaced (before ++ (s.pushCuts text deltas).map Cut.sentence) taken' := by
  induction deltas generalizing s text taken before with
  | nil =>
      refine ⟨s, taken, rfl, rfl, .nil, ?_, ?_⟩
      · rw [List.flatten_nil, List.append_nil, htext]
      · rw [pushCuts, List.map_nil, List.append_nil]
        exact hspaced
  | cons textDelta rest ih =>
      have hlonger : text ++ textDelta = taken ++ (s.buffer ++ textDelta) := by
        rw [htext, List.append_assoc]
      obtain ⟨s', taken', hpush, hconfig, hplaced, htaken, hfirst⟩ :=
        extract_cuts { s with buffer := s.buffer ++ textDelta } false (by simp) hlonger hspaced
      replace hpush : s.push textDelta = _ := hpush
      obtain ⟨s'', taken'', hlater, hconfig', hplaced', htaken', hrest⟩ := ih s' htaken hfirst
      rw [pushCuts, hpush, List.flatten_cons, ← List.append_assoc, List.map_append,
        ← List.append_assoc before]
      refine ⟨s'', taken'', ?_, hconfig'.trans hconfig, ?_, htaken', hrest⟩
      · simp only [pushes, hpush, hlater]
      · exact (hplaced.extend (List.prefix_append _ _)).append hplaced'

/-- Later pushes only add cuts. -/
theorem pushCuts_prefix (s : SentenceSegmenter) (text : Bytes) (deltas later : List Bytes) :
    s.pushCuts text deltas <+: s.pushCuts text (deltas ++ later) := by
  induction deltas generalizing s text with
  | nil => exact List.nil_prefix
  | cons textDelta rest ih =>
      rw [List.cons_append, pushCuts, pushCuts]
      exact (List.prefix_append_right_inj _).mpr (ih _ _)

end SentenceSegmenter

/-! ## one part -/

/-- A sentence is a stretch of one of the parts of a text: before it stands what
the earlier sentences are spaced out in. -/
def PartOfOne (parts : List Bytes) (earlier : List Bytes) (sentence : Bytes) : Prop :=
  ∃ before part after a b, parts = before ++ part :: after ∧ part = a ++ sentence ++ b ∧
    Spaced earlier (before.flatten ++ a)

/-- A text without its spaces. -/
def unspaced (text : Bytes) : Bytes := text.filter fun b => !isSpace b

theorem unspaced_append (x y : Bytes) : unspaced (x ++ y) = unspaced x ++ unspaced y :=
  List.filter_append x y

/-- Nothing but the spaces of a text is left out. -/
theorem unspaced_eq_nil {text : Bytes} : unspaced text = [] ↔ Blank text := by
  simp [unspaced, Blank, List.filter_eq_nil_iff]

/-- A sentence stands at one place of a text after the sentences before it. -/
theorem Spaced.unique {earlier : List Bytes} {x x' sentence y y' : Bytes}
    (h : Spaced earlier x) (h' : Spaced earlier x') (hsentence : Trimmed sentence)
    (htext : x ++ sentence ++ y = x' ++ sentence ++ y') : x = x' := by
  have hcount : unspaced x = unspaced x' := h.filter_flatten.symm.trans h'.filter_flatten
  -- the shorter one is followed by the first byte of the sentence
  have hshorter : ∀ {u u' v v' : Bytes}, unspaced u = unspaced u' →
      u ++ sentence ++ v = u' ++ sentence ++ v' → u.length ≤ u'.length → u = u' := by
    intro u u' v v' hcount htext hle
    obtain ⟨z, rfl⟩ : u <+: u' := by
      refine List.prefix_of_prefix_length_le ⟨sentence ++ v, ?_⟩ ⟨sentence ++ v', rfl⟩ hle
      rw [← List.append_assoc, ← List.append_assoc, htext]
    cases z with
    | nil => rw [List.append_nil]
    | cons b z =>
        obtain ⟨c, tail, rfl⟩ := List.exists_cons_of_ne_nil hsentence.ne_nil
        have hc := hsentence.head c rfl
        obtain rfl : b = c := by
          simp only [List.append_assoc, List.cons_append, List.append_cancel_left_eq,
            List.cons.injEq] at htext
          exact htext.1.symm
        have hlength := congrArg List.length hcount
        simp [unspaced, hc] at hlength
  rcases Nat.le_total x.length x'.length with hle | hle
  · exact hshorter hcount htext hle
  · exact (hshorter hcount.symm htext.symm hle).symm

section Sides

variable {w w' sentence : Bytes}

theorem not_blank_take_iff (hw : Blank w) (hsentence : Trimmed sentence) {m : Nat} :
    ¬ Blank ((w ++ sentence ++ w').take m) ↔ w.length < m := by
  constructor
  · intro h
    by_contra hle
    refine h fun b hb => hw b ?_
    rw [List.append_assoc, List.take_append_of_le_length (Nat.not_lt.mp hle)] at hb
    exact List.mem_of_mem_take hb
  · intro hlt hblank
    obtain ⟨b, tail, rfl⟩ := List.exists_cons_of_ne_nil hsentence.ne_nil
    obtain ⟨n, rfl⟩ := Nat.exists_eq_add_of_lt hlt
    have hb : isSpace b = true := by
      refine hblank b ?_
      rw [List.append_assoc, List.cons_append, Nat.add_assoc, List.take_length_add_append]
      simp
    rw [hsentence.head b rfl] at hb
    cases hb

theorem not_blank_drop_iff (hw' : Blank w') (hsentence : Trimmed sentence) {m : Nat} :
    ¬ Blank ((w ++ sentence ++ w').drop m) ↔ m < w.length + sentence.length := by
  constructor
  · intro h
    by_contra hle
    refine h fun b hb => hw' b ?_
    rw [List.drop_append, List.drop_of_length_le (by rw [List.length_append]; omega)] at hb
    exact List.mem_of_mem_drop hb
  · intro hlt hblank
    let last := sentence.getLast hsentence.ne_nil
    have hsplit : sentence = sentence.dropLast ++ [last] :=
      (List.dropLast_append_getLast hsentence.ne_nil).symm
    have hlast : isSpace last = true := by
      refine hblank last ?_
      have hlength : m ≤ (w ++ sentence.dropLast).length := by
        rw [List.length_append, List.length_dropLast]
        omega
      rw [hsplit, ← List.append_assoc w, List.append_assoc (w ++ _),
        List.drop_append_of_le_length hlength]
      simp
    rw [hsentence.last last (List.getLast?_eq_some_getLast hsentence.ne_nil)] at hlast
    cases hlast

end Sides

/-- **Where a sentence lies**: in one part of the text, or its cut goes by the end
of a part. -/
theorem Cut.partOfOne_iff {c : Cut} {parts earlier : List Bytes} (hspaced : Spaced earlier c.taken)
    (htext : c.taken ++ c.buffer <+: parts.flatten) (hne : c.sentence ≠ []) :
    PartOfOne parts earlier c.sentence ↔ ¬ c.Joins parts := by
  have htrimmed : Trimmed c.sentence := trim_trimmed hne
  obtain ⟨w, w', hw, hw', hpiece⟩ := trim_split c.piece
  replace hpiece : c.piece = w ++ c.sentence ++ w' := hpiece
  obtain ⟨rest, hrest⟩ := htext
  have hparts : parts.flatten = c.taken ++ w ++ c.sentence ++
      (w' ++ c.buffer.drop c.boundary ++ rest) := by
    calc parts.flatten = c.taken ++ (c.piece ++ c.buffer.drop c.boundary) ++ rest := by
          rw [Cut.piece, List.take_append_drop, hrest]
      _ = c.taken ++ w ++ c.sentence ++ (w' ++ c.buffer.drop c.boundary ++ rest) := by
          rw [hpiece]
          simp only [List.append_assoc]
  have hstart : Spaced earlier (c.taken ++ w) := by
    have happend := hspaced.append (Spaced.blank hw)
    rwa [List.append_nil] at happend
  -- an end of a part with text on both sides of it lies inside the sentence
  have hjoins : c.Joins parts ↔ ∃ k, (c.taken ++ w).length < (parts.take k).flatten.length ∧
      (parts.take k).flatten.length < (c.taken ++ w).length + c.sentence.length := by
    have hpos := List.length_pos_iff.mpr hne
    unfold Cut.Joins
    rw [hpiece]
    refine exists_congr fun k => ?_
    rw [not_blank_take_iff hw htrimmed, not_blank_drop_iff hw' htrimmed, List.length_append]
    omega
  rw [hjoins]
  constructor
  · rintro ⟨before, part, after, a, b, rfl, rfl, hbefore⟩ ⟨k, hk, hk'⟩
    have hplace : before.flatten ++ a ++ c.sentence ++ (b ++ after.flatten) =
        c.taken ++ w ++ c.sentence ++ (w' ++ c.buffer.drop c.boundary ++ rest) := by
      rw [← hparts]
      simp
    have hsame : before.flatten ++ a = c.taken ++ w := hbefore.unique hstart htrimmed hplace
    rw [← hsame] at hk hk'
    exact absurd (List.not_inside_of_mem a c.sentence b k hk) (Nat.not_le.mpr hk')
  · intro hinside
    obtain ⟨before, part, after, a, b, hsplit, hpart, ha⟩ | hk :=
      List.exists_mem_of_flatten hparts hne
    · exact ⟨before, part, after, a, b, hsplit, hpart, ha ▸ hstart⟩
    · exact absurd hk hinside

end ByteTurn

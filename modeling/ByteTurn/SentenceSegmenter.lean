import ByteTurn.Types

/-!
# ByteTurn.SentenceSegmenter

The sentence segmenter (`sentence_segmenter.h`, `sentence_segmenter.cpp`).

The buffer is cut at the first strong boundary, else at the last soft one, else
at a hard limit, else, on a flush, at its end.  `extract` returns what it throws
or returns beside the segmenter it leaves behind.
-/

namespace ByteTurn

/-- `SentenceSegmenterConfig` -/
structure SentenceSegmenterConfig where
  minCharacters : Nat := 12
  targetCharacters : Nat := 60
  hardMaxCharacters : Nat := 140
  deriving DecidableEq, Repr

/-- `SentenceSegmenter`: a configuration its constructor accepted, and the buffer. -/
structure SentenceSegmenter where
  config : SentenceSegmenterConfig
  buffer : Bytes := []
  min_pos : 0 < config.minCharacters
  min_le_target : config.minCharacters ≤ config.targetCharacters
  target_le_hard : config.targetCharacters ≤ config.hardMaxCharacters

/-! ## text -/

/-- `trim` -/
def trim (text : Bytes) : Bytes :=
  ((text.dropWhile isSpace).reverse.dropWhile isSpace).reverse

/-- A continuation byte of UTF-8. -/
def isContinuation (b : UInt8) : Bool := b &&& 0xc0 = 0x80

/-- The width a lead byte announces. -/
def sequenceWidth (lead : UInt8) : Nat :=
  if lead < 0x80 then 1
  else if lead &&& 0xe0 = 0xc0 then 2
  else if lead &&& 0xf0 = 0xe0 then 3
  else if lead &&& 0xf8 = 0xf0 then 4
  else 1

/-- The loop of `complete_utf8_prefix`, from a position back to the start of its
sequence. -/
def sequenceStart (text : Bytes) : Nat → Nat
  | 0 => 0
  | start + 1 =>
      if isContinuation (text.getD (start + 1) 0) then sequenceStart text start else start + 1

/-- `complete_utf8_prefix` -/
def completeUtf8Prefix (text : Bytes) : Nat :=
  if text = [] then 0
  else
    let start := sequenceStart text (text.length - 1)
    if text.length - start < sequenceWidth (text.getD start 0) then start else text.length

/-- `starts_at` -/
def startsAt (value : Bytes) (position : Nat) (token : Bytes) : Bool :=
  token.isPrefixOf (value.drop position)

/-- `character_count` -/
def characterCount (buffer : Bytes) (bytes : Nat) : Nat :=
  (buffer.take bytes).countP fun b => !isContinuation b

/-! ## boundaries -/

/-- A punctuation mark at a position: its bytes, and whether it ends a sentence. -/
def punctuationAt (buffer : Bytes) (i : Nat) : Option (Nat × Bool) :=
  let b := buffer.getD i 0
  if b = 0x21 ∨ b = 0x3f ∨ b = 0x0a then some (1, true)
  else if startsAt buffer i (lit "。") ∨ startsAt buffer i (lit "！") ∨
      startsAt buffer i (lit "？") then some (3, true)
  else if b = 0x3b ∨ b = 0x2c then some (1, false)
  else if startsAt buffer i (lit "；") ∨ startsAt buffer i (lit "，") then some (3, false)
  else if b = 0x2e ∧ i + 1 < buffer.length ∧ isSpace (buffer.getD (i + 1) 0) then some (1, true)
  else none

/-- The loop over the punctuation, with `n` positions to go: the first strong
boundary, or else the last soft one. -/
def punctuationBoundary (config : SentenceSegmenterConfig) (buffer : Bytes) :
    Nat → Nat → Option Nat → Option Nat
  | 0, _, soft => soft
  | n + 1, i, soft => match punctuationAt buffer i with
    | none => punctuationBoundary config buffer n (i + 1) soft
    | some (bytes, strong) =>
        let characters := characterCount buffer (i + bytes)
        if strong ∧ config.minCharacters ≤ characters then some (i + bytes)
        else if config.targetCharacters ≤ characters then
          punctuationBoundary config buffer n (i + 1) (some (i + bytes))
        else punctuationBoundary config buffer n (i + 1) soft

/-- `boundary`, moved past the continuation bytes that follow it. -/
def skipContinuation (buffer : Bytes) (completeBytes boundary : Nat) : Nat :=
  boundary + (((buffer.take completeBytes).drop boundary).takeWhile isContinuation).length

/-- The loop of the hard limit, with `n` positions to go: after the last space,
or else after the character that reaches the target. -/
def hardBoundary (config : SentenceSegmenterConfig) (buffer : Bytes) (completeBytes : Nat) :
    Nat → Nat → Nat → Option Nat → Option Nat
  | 0, _, _, _ => none
  | n + 1, i, characters, lastSpace =>
      let b := buffer.getD i 0
      let characters := if isContinuation b then characters else characters + 1
      let lastSpace := if isSpace b then some (i + 1) else lastSpace
      if config.targetCharacters ≤ characters then
        some (skipContinuation buffer completeBytes (lastSpace.getD (i + 1)))
      else hardBoundary config buffer completeBytes n (i + 1) characters lastSpace

/-- The boundary of one round, if there is one. -/
def sentenceBoundary (config : SentenceSegmenterConfig) (buffer : Bytes) : Option Nat :=
  let completeBytes := completeUtf8Prefix buffer
  match punctuationBoundary config buffer completeBytes 0 none with
  | some boundary => some boundary
  | none =>
      if config.hardMaxCharacters ≤ characterCount buffer completeBytes then
        hardBoundary config buffer completeBytes completeBytes 0 0 none
      else none

/-! ## the segmenter -/

/-- The loop of `extract`: the output, or what is thrown, and the buffer after it.
Each round takes a byte at least. -/
def extractLoop (config : SentenceSegmenterConfig) (flushing : Bool) :
    Nat → List Bytes → Bytes → Except Exception (List Bytes) × Bytes
  | 0, output, buffer => (.ok output, buffer)
  | fuel + 1, output, buffer =>
      let cut (boundary : Nat) :=
        let sentence := trim (buffer.take boundary)
        extractLoop config flushing fuel (if sentence = [] then output else output ++ [sentence])
          ((buffer.drop boundary).dropWhile isSpace)
      if buffer = [] then (.ok output, buffer)
      else if flushing ∧ completeUtf8Prefix buffer ≠ buffer.length then
        (.error (lit "incomplete UTF-8 at end of text stream"), buffer)
      else match sentenceBoundary config buffer with
        | some boundary => cut boundary
        | none => if flushing then cut buffer.length else (.ok output, buffer)

namespace SentenceSegmenter

/-- `SentenceSegmenter::SentenceSegmenter` -/
def construct (config : SentenceSegmenterConfig) : Except Exception SentenceSegmenter :=
  if h : 0 < config.minCharacters ∧ config.minCharacters ≤ config.targetCharacters ∧
      config.targetCharacters ≤ config.hardMaxCharacters then
    .ok ⟨config, [], h.1, h.2.1, h.2.2⟩
  else .error (lit "invalid sentence segmenter limits")

/-- `extract` -/
def extract (s : SentenceSegmenter) (flushing : Bool) :
    Except Exception (List Bytes) × SentenceSegmenter :=
  let (output, buffer) := extractLoop s.config flushing (s.buffer.length + 1) [] s.buffer
  (output, { s with buffer := buffer })

/-- `push` -/
def push (s : SentenceSegmenter) (textDelta : Bytes) :
    Except Exception (List Bytes) × SentenceSegmenter :=
  { s with buffer := s.buffer ++ textDelta }.extract false

/-- `flush` -/
def flush (s : SentenceSegmenter) : Except Exception (List Bytes) × SentenceSegmenter :=
  s.extract true

/-- `reset` -/
def reset (s : SentenceSegmenter) : SentenceSegmenter := { s with buffer := [] }

end SentenceSegmenter

end ByteTurn

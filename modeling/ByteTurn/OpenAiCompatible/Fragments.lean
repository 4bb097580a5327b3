import ByteTurn.OpenAiCompatible

/-!
# ByteTurn.OpenAiCompatible.Fragments

The event stream does not depend on how the bytes are cut.

`feed` of two chunks is `feed` of their concatenation, as programs over any
sink (`feed_append`): a complete line of the first chunk is cut in the same way
when the second one follows, and what is left over is waiting in the buffer.
So `stream` does the same for every way of cutting its bytes
(`stream_whole`), and what it does is given by the events of the whole text
(`feed_finish_eq_events`).
-/

namespace ByteTurn

namespace SseParser

/-! ## lines -/

theorem cutLine_of_notMem {text : Bytes} (h : newline ∉ text) : cutLine text = none := if_neg h

theorem cutLine_of_mem {text : Bytes} (h : newline ∈ text) :
    ∃ line rest, text = line ++ newline :: rest ∧ newline ∉ line ∧
      cutLine text = some (line, rest) := by
  have hsplit := List.takeWhile_append_dropWhile (p := (· ≠ newline)) (l := text)
  have hline : newline ∉ text.takeWhile (· ≠ newline) := by
    intro hmem
    have hne := List.mem_takeWhile_imp hmem
    simp at hne
  cases hdrop : text.dropWhile (· ≠ newline) with
  | nil =>
      rw [hdrop, List.append_nil] at hsplit
      rw [hsplit] at hline
      contradiction
  | cons b rest =>
      have hb := List.head?_dropWhile_not (· ≠ newline) text
      rw [hdrop] at hb hsplit
      obtain rfl : b = newline := by simpa using hb
      exact ⟨_, rest, hsplit.symm, hline, by rw [cutLine, if_pos h, hdrop]; rfl⟩

theorem cutLine_line {line : Bytes} (h : newline ∉ line) (rest : Bytes) :
    cutLine (line ++ newline :: rest) = some (line, rest) := by
  have hall : ∀ b ∈ line, decide (b ≠ newline) = true := by
    intro b hb
    exact decide_eq_true fun heq => h (heq ▸ hb)
  rw [cutLine, if_pos (by simp), List.takeWhile_append_of_pos hall,
    List.dropWhile_append_of_pos hall]
  simp

/-! ## feeding -/

section Sink

variable {m : Type → Type} [Monad m] (sink : Bytes → m Unit)

/-- One more byte of fuel than the buffer holds is enough. -/
theorem feedLines_fuel {n k : Nat} {p : SseParser} (hn : p.buffer.length < n)
    (hk : p.buffer.length < k) : feedLines sink n p = feedLines sink k p := by
  induction n generalizing k p with
  | zero => omega
  | succ n ih =>
      obtain ⟨k, rfl⟩ : ∃ j, k = j + 1 := ⟨k - 1, by omega⟩
      by_cases hmem : newline ∈ p.buffer
      · obtain ⟨line, rest, hbuffer, _, hcut⟩ := cutLine_of_mem hmem
        have hlength := congrArg List.length hbuffer
        simp only [List.length_append, List.length_cons] at hlength
        have hn' : rest.length < n := by omega
        have hk' : rest.length < k := by omega
        rw [feedLines, feedLines, hcut]
        exact bind_congr fun data => ih (p := ⟨rest, data⟩) hn' hk'
      · rw [feedLines, feedLines, cutLine_of_notMem hmem]

theorem feed_nil (p : SseParser) (h : newline ∉ p.buffer) : feed sink p [] = pure p := by
  rw [feed, List.append_nil, feedLines, cutLine_of_notMem h]

/-- Feeding, by the first line of what is then in the buffer. -/
theorem feed_line {line rest bytes : Bytes} {p : SseParser} (hline : newline ∉ line)
    (h : p.buffer ++ bytes = line ++ newline :: rest) :
    feed sink p bytes =
      processLine sink p.data (dropReturn line) >>= fun data => feed sink ⟨rest, data⟩ [] := by
  have hlength := congrArg List.length h
  simp only [List.length_append, List.length_cons] at hlength
  have hleft : rest.length < (line ++ newline :: rest).length := by
    simp only [List.length_append, List.length_cons]
    omega
  rw [feed, feedLines, h, cutLine_line hline]
  refine bind_congr fun data => ?_
  rw [feed, List.append_nil]
  exact feedLines_fuel sink (p := ⟨rest, data⟩) hleft (Nat.lt_succ_self _)

theorem feed_eq_of_buffer {p q : SseParser} {a b : Bytes} (hdata : p.data = q.data)
    (h : p.buffer ++ a = q.buffer ++ b) : feed sink p a = feed sink q b := by
  rw [feed, feed, h, hdata]

/-- **Two chunks are one**: feeding one chunk and then another is feeding both
at once. -/
theorem feed_append [LawfulMonad m] (p : SseParser) (a b : Bytes) :
    feed sink p (a ++ b) = feed sink p a >>= fun q => feed sink q b := by
  generalize hn : (p.buffer ++ a).length = n
  induction n using Nat.strong_induction_on generalizing p a with
  | _ n ih =>
      by_cases hmem : newline ∈ p.buffer ++ a
      · obtain ⟨line, rest, hbuffer, hline, _⟩ := cutLine_of_mem hmem
        have hlength := congrArg List.length hbuffer
        rw [hn, List.length_append, List.length_cons] at hlength
        have hboth : p.buffer ++ (a ++ b) = line ++ newline :: (rest ++ b) := by
          rw [← List.append_assoc, hbuffer, List.append_assoc, List.cons_append]
        rw [feed_line sink hline hboth, feed_line sink hline hbuffer, bind_assoc]
        refine bind_congr fun data => ?_
        have hlt : rest.length < n := by omega
        have hrest := ih rest.length hlt ⟨rest, data⟩ [] (by simp)
        rw [← hrest]
        exact feed_eq_of_buffer sink rfl (by simp)
      · have hfirst : feed sink p a = pure ⟨p.buffer ++ a, p.data⟩ := by
          rw [feed, feedLines, cutLine_of_notMem hmem]
        rw [hfirst, pure_bind]
        exact feed_eq_of_buffer sink rfl (List.append_assoc _ _ _).symm

/-- Feeding a list of chunks after a first one. -/
theorem feed_flatten [LawfulMonad m] (chunks : List Bytes) (p : SseParser) (first : Bytes) :
    (feed sink p first >>= fun q => chunks.foldlM (feed sink) q) =
      feed sink p (first ++ chunks.flatten) := by
  induction chunks generalizing first with
  | nil => simp
  | cons chunk chunks ih =>
      have hboth := ih (first ++ chunk)
      rw [feed_append, bind_assoc] at hboth
      rw [List.flatten_cons, ← List.append_assoc, ← hboth]
      rfl

/-- A list of chunks is its concatenation. -/
theorem feed_chunks [LawfulMonad m] (chunks : List Bytes) :
    chunks.foldlM (feed sink) {} = feed sink {} chunks.flatten := by
  have hnone : feed sink {} [] = pure {} := feed_nil sink {} (by simp)
  have hflatten := feed_flatten sink chunks {} []
  rw [hnone, pure_bind, List.nil_append] at hflatten
  exact hflatten

end Sink

/-! ## events -/

/-- A sink that keeps the events. -/
def collect (event : Bytes) : StateM (List Bytes) Unit := modify (· ++ [event])

/-- The events of a whole text. -/
def events (bytes : Bytes) : List Bytes :=
  ((feed collect {} bytes >>= finish collect).run []).2

/-- What a program does over `sink` is to pass on the events that it passes on
over `collect`. -/
def Emits {m : Type → Type} [Monad m] (sink : Bytes → m Unit) {α : Type} (x : m α)
    (y : StateM (List Bytes) α) : Prop :=
  ∃ a added, x = (forM added sink >>= fun _ => pure a) ∧
    ∀ before, y.run before = (a, before ++ added)

section Emits

variable {m : Type → Type} [Monad m] [LawfulMonad m] {sink : Bytes → m Unit}

theorem emits_pure {α : Type} (a : α) : Emits sink (pure a) (pure a) :=
  ⟨a, [], by simp, fun before => by rw [List.append_nil]; rfl⟩

theorem emits_bind {α β : Type} {x : m α} {y : StateM (List Bytes) α} {f : α → m β}
    {g : α → StateM (List Bytes) β} (h : Emits sink x y) (hfg : ∀ a, Emits sink (f a) (g a)) :
    Emits sink (x >>= f) (y >>= g) := by
  obtain ⟨a, added, rfl, hy⟩ := h
  obtain ⟨b, more, hf, hg⟩ := hfg a
  refine ⟨b, added ++ more, ?_, ?_⟩
  · rw [bind_assoc, List.forM_append, bind_assoc]
    refine bind_congr fun _ => ?_
    rw [pure_bind, hf]
  · intro before
    rw [StateT.run_bind, hy]
    show (g a).run (before ++ added) = _
    rw [hg, List.append_assoc]

theorem emits_sink (event : Bytes) : Emits sink (sink event) (collect event) := by
  refine ⟨(), [event], ?_, fun _ => rfl⟩
  simp

theorem emits_dispatch (data : Bytes) : Emits sink (dispatch sink data) (dispatch collect data) := by
  unfold dispatch
  split
  · exact emits_pure _
  · exact emits_bind (emits_sink data) fun _ => emits_pure _

theorem emits_processLine (data line : Bytes) :
    Emits sink (processLine sink data line) (processLine collect data line) := by
  unfold processLine
  split
  · exact emits_dispatch data
  · split
    · exact emits_pure _
    · exact emits_pure _

theorem emits_feedLines (n : Nat) (p : SseParser) :
    Emits sink (feedLines sink n p) (feedLines collect n p) := by
  induction n generalizing p with
  | zero => exact emits_pure _
  | succ n ih =>
      rw [feedLines, feedLines]
      cases cutLine p.buffer with
      | none => exact emits_pure _
      | some cut => exact emits_bind (emits_processLine _ _) fun data => ih ⟨cut.2, data⟩

theorem emits_finish (p : SseParser) : Emits sink (finish sink p) (finish collect p) := by
  have hend (data : Bytes) : Emits sink (dispatch sink data >>= fun _ => pure ())
      (dispatch collect data >>= fun _ => pure ()) :=
    emits_bind (emits_dispatch data) fun _ => emits_pure _
  unfold finish
  dsimp only
  split
  · exact emits_bind (emits_pure _) hend
  · exact emits_bind (emits_processLine _ _) hend

/-- **A stream is its events**: over any sink, feeding a text and finishing is
passing on the events of the text. -/
theorem feed_finish_eq_events (bytes : Bytes) :
    (feed sink {} bytes >>= finish sink) = forM (events bytes) sink := by
  have hfeed : Emits sink (feed sink {} bytes) (feed collect {} bytes) := emits_feedLines _ _
  obtain ⟨a, added, hx, hy⟩ := emits_bind hfeed emits_finish
  have hevents : events bytes = added := by
    rw [events, hy []]
    rfl
  rw [hx, hevents]
  exact bind_pure_unit

end Emits

end SseParser

/-- The transfer of the same bytes in one chunk. -/
def Transfer.whole (t : Transfer) : Transfer := { t with chunks := [t.chunks.flatten] }

namespace OpenAiCompatibleLlm

/-- **SSE decoding does not depend on fragmentation**: for every history, delta
sink and transport, whatever chunks it cuts the bytes into, `stream` passes on
the same texts and ends in the same way as when they arrive in one chunk. -/
theorem stream_whole (platform : Platform) (llm : OpenAiCompatibleLlm) (history : List Message)
    (onTextDelta : TextDeltaSink) :
    stream platform { llm with perform := fun request => (llm.perform request).whole } history
        onTextDelta =
      stream platform llm history onTextDelta := by
  unfold stream
  congr 1
  funext request
  have hchunks (t : Transfer) :
      t.whole.chunks.foldlM (SseParser.feed (onEvent platform onTextDelta)) {} =
        t.chunks.foldlM (SseParser.feed (onEvent platform onTextDelta)) {} := by
    rw [SseParser.feed_chunks, SseParser.feed_chunks, Transfer.whole, List.flatten_singleton]
  dsimp only
  rw [hchunks]
  rfl

end OpenAiCompatibleLlm

end ByteTurn

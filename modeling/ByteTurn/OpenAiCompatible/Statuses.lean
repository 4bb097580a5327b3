import ByteTurn.Json.Errors
import ByteTurn.Lib.Programs
import ByteTurn.OpenAiCompatible.Replies

/-!
# ByteTurn.OpenAiCompatible.Statuses

What `stream` does with a response whose status is no success.

The status is read once the transport has returned, and by then the events of
the body have been decoded.  So the body of a failed response is spoken, and
what `stream` throws may come from the body; neither happens exactly when the
events that arrive before `[DONE]` are decoded, have no text and ask for no calls
there is no room for (`failed_silent_iff`).
-/

namespace ByteTurn

open Programs

namespace SseParser

/-- The events of a text that are passed on while it arrives. -/
def fedEvents (bytes : Bytes) : List Bytes := ((feed collect {} bytes).run []).2

/-- Feeding a text is passing on its events. -/
theorem feed_eq_fedEvents {m : Type → Type} [Monad m] [LawfulMonad m] (sink : Bytes → m Unit)
    (bytes : Bytes) :
    ∃ p, feed sink {} bytes = forM (fedEvents bytes) sink >>= fun _ => pure p := by
  have hfeed : Emits sink (feed sink {} bytes) (feed collect {} bytes) := emits_feedLines _ _
  obtain ⟨p, added, hx, hy⟩ := hfeed
  have hevents : fedEvents bytes = added := by
    rw [fedEvents, hy []]
    rfl
  exact ⟨p, hevents ▸ hx⟩

end SseParser

namespace OpenAiCompatibleLlm

variable {platform : Platform}

/-! ## what a decoder throws -/

/-- An exception of an event that cannot be decoded: of the parser, of a document
that has no list where one belongs, or of the vector of calls. -/
def DecodingError (e : Exception) : Prop :=
  ParseError e ∨ e = lit "expected JSON array" ∨ ∃ failure : ResizeFailure, e = failure.what

theorem items_error {j : Json} {e : Exception} (h : j.items = .error e) : DecodingError e := by
  cases j with
  | array items => cases h
  | null | bool | number | string | object => exact .inr (.inl (Except.error.inj h).symm)

theorem deltaOf_error {root : Json} {e : Exception} (h : deltaOf root = .error e) :
    DecodingError e := by
  unfold deltaOf at h
  split at h
  · cases h
  · obtain hitems | ⟨items, -, h⟩ := bind_error h
    · exact items_error hitems
    · cases items with
      | nil => cases h
      | cons front rest => cases h

/-- The exception of a status that is no success. -/
def statusError (response : HttpResponse) : Exception :=
  lit "LLM HTTP status " ++ statusText response.status

theorem statusError_not_decoding (response : HttpResponse) :
    ¬ DecodingError (statusError response) := by
  have hstatus : (statusError response).head? = some 0x4c := by
    rw [statusError, List.head?_append]
    exact congrArg (Option.or · _) (by decide : (lit "LLM HTTP status ").head? = some 0x4c)
  rintro ((⟨rest, hposition⟩ | hstod) | harray | ⟨failure, hfailure⟩)
  · rw [← hposition, List.head?_append] at hstatus
    have hreport : (lit "invalid JSON near byte ").head? = some 0x69 := by decide
    rw [hreport, Option.some_or] at hstatus
    exact absurd (Option.some.inj hstatus) (by decide)
  · rw [hstod] at hstatus
    revert hstatus
    decide
  · rw [harray] at hstatus
    revert hstatus
    decide
  · rw [hfailure] at hstatus
    revert hstatus
    cases failure <;> decide

/-! ## an event -/

/-- A delta that is decoded and has no text. -/
def QuietDelta (delta : Json) : Prop :=
  fragmentText delta (lit "content") = [] ∧
    ∀ calls ∈ delta.find (lit "tool_calls"), ∃ items, calls.items = .ok items

/-- An event that is decoded and has no text. -/
def QuietEvent (event : Bytes) : Prop :=
  ∃ root delta, parseJson event = .ok root ∧ deltaOf root = .ok delta ∧ ∀ d ∈ delta, QuietDelta d

/-- Events that go by unnoticed: each of them is decoded and has no text, and
there is room for their calls after the first `size` ones. -/
structure QuietEvents (platform : Platform) (size : Nat) (events : List Bytes) : Prop where
  decoded : ∀ event ∈ events, QuietEvent event
  room : HasRoom platform size (events.flatMap eventFragments)

theorem quietEvents_cons {size : Nat} {event : Bytes} {events : List Bytes} :
    QuietEvents platform size (event :: events) ↔
      (QuietEvent event ∧ HasRoom platform size (eventFragments event)) ∧
        QuietEvents platform (callsAfter platform size (eventFragments event)) events := by
  constructor
  · rintro ⟨hdecoded, hroom⟩
    obtain ⟨hevent, hrest⟩ := List.forall_mem_cons.mp hdecoded
    rw [List.flatMap_cons, hasRoom_append] at hroom
    exact ⟨⟨hevent, hroom.1⟩, hrest, hroom.2⟩
  · rintro ⟨⟨hevent, hroom⟩, hdecoded, hlater⟩
    refine ⟨List.forall_mem_cons.mpr ⟨hevent, hdecoded⟩, ?_⟩
    rw [List.flatMap_cons, hasRoom_append]
    exact ⟨hroom, hlater⟩

/-- A text was passed on, or a document ended the stream. -/
def Spoiled : EStateM.Result Exception StreamState Unit → Prop
  | .ok _ t => t.texts ≠ []
  | .error e t => t.texts ≠ [] ∨ DecodingError e

/-- The fragments have their calls, and nothing else has happened. -/
def Unnoticed (platform : Platform) (s : StreamState) (items : List Json) :
    EStateM.Result Exception StreamState Unit → Prop
  | .ok _ t => t.done = s.done ∧ t.texts = s.texts ∧
      t.turn.toolCalls.length = callsAfter platform s.turn.toolCalls.length items
  | .error _ _ => False

/-- Texts that were passed on stay passed on. -/
def Remembers (s t : StreamState) : Prop := s.texts ≠ [] → t.texts ≠ []

theorem Remembers.refl (s : StreamState) : Remembers s s := id

theorem Remembers.trans (s t u : StreamState) (h : Remembers s t) (h' : Remembers t u) :
    Remembers s u := fun hs => h' (h hs)

theorem decoding_remembers {α : Type} (x : Except Exception α) : Within Remembers (decoding x) := by
  cases x with
  | ok a => exact Within.pure Remembers.refl a
  | error e => exact Within.throw Remembers.refl e

theorem onText_remembers (onTextDelta : TextDeltaSink) (text : Bytes) :
    Within Remembers (onText onTextDelta text) := by
  unfold onText
  split
  · refine Within.update Remembers.trans (fun s _ => by simp) fun s => ?_
    refine Within.bind Remembers.trans (decoding_remembers _) fun accepted => ?_
    split
    · exact Within.throw Remembers.refl _
    · exact Within.pure Remembers.refl _
  · exact Within.pure Remembers.refl _

theorem onFragments_remember (items : List Json) :
    Within Remembers (forM items (onFragment platform) : StreamM Unit) := by
  intro s
  obtain ⟨-, hrun⟩ | ⟨-, failure, t, hrun, htexts⟩ := onFragments_run platform items s
  · rw [hrun]
    exact id
  · rw [hrun]
    intro hs
    exact htexts ▸ hs

theorem onToolCalls_remembers (delta : Json) : Within Remembers (onToolCalls platform delta) := by
  unfold onToolCalls
  split
  · exact Within.pure Remembers.refl _
  · exact Within.bind Remembers.trans (decoding_remembers _) onFragments_remember

theorem onDelta_remembers (onTextDelta : TextDeltaSink) (delta : Json) :
    Within Remembers (onDelta platform onTextDelta delta) := by
  unfold onDelta
  dsimp only
  split
  · exact onToolCalls_remembers delta
  · exact Within.bind Remembers.trans (onText_remembers _ _) fun _ => onToolCalls_remembers delta

/-! ## a delta -/

theorem spoiled_of_texts {r : EStateM.Result Exception StreamState Unit}
    (h : (finalState r).texts ≠ []) : Spoiled r := by
  cases r with
  | ok u t => exact h
  | error e t => exact .inl h

/-- What was spoiled stays so. -/
theorem spoiled_bind {x : StreamM Unit} {f : Unit → StreamM Unit} {s : StreamState}
    (h : Spoiled (x.run s)) (hf : ∀ u, Within Remembers (f u)) : Spoiled ((x >>= f).run s) := by
  rw [EStateM.run_bind]
  cases hx : x.run s with
  | ok u t =>
      rw [hx] at h
      exact spoiled_of_texts (hf u t h)
  | error e t =>
      rw [hx] at h
      exact h

theorem onText_spoils (onTextDelta : TextDeltaSink) {text : Bytes} (h : text ≠ [])
    (s : StreamState) : Spoiled ((onText onTextDelta text).run s) := by
  unfold onText
  rw [if_pos h]
  have hrest : Within Remembers (do
      let accepted ← decoding (onTextDelta s.texts text)
      if !accepted then throw (lit "LLM stream consumer stopped") : StreamM Unit) := by
    refine Within.bind Remembers.trans (decoding_remembers _) fun accepted => ?_
    split
    · exact Within.throw Remembers.refl _
    · exact Within.pure Remembers.refl _
  let next : StreamState := { s with turn.text := s.turn.text ++ text, texts := s.texts ++ [text] }
  have hnext : next.texts ≠ [] := List.append_ne_nil_of_right_ne_nil _ (List.cons_ne_nil _ _)
  exact spoiled_of_texts (hrest next hnext)

theorem onText_nil (onTextDelta : TextDeltaSink) (s : StreamState) :
    (onText onTextDelta []).run s = .ok () s := rfl

theorem onDelta_eq (onTextDelta : TextDeltaSink) (delta : Json) :
    onDelta platform onTextDelta delta = (do
      onText onTextDelta (fragmentText delta (lit "content"))
      onToolCalls platform delta) := by
  unfold onDelta fragmentText
  cases delta.find (lit "content") with
  | none => rfl
  | some content => rfl

/-- The fragments of a delta are added, or its list or one of them ends the stream. -/
theorem onToolCalls_run (platform : Platform) (delta : Json) (s : StreamState) :
    (((∀ calls ∈ delta.find (lit "tool_calls"), ∃ items, calls.items = .ok items) ∧
        HasRoom platform s.turn.toolCalls.length (delta.itemsOf (lit "tool_calls"))) ∧
      Unnoticed platform s (delta.itemsOf (lit "tool_calls"))
        ((onToolCalls platform delta).run s)) ∨
    (¬ ((∀ calls ∈ delta.find (lit "tool_calls"), ∃ items, calls.items = .ok items) ∧
        HasRoom platform s.turn.toolCalls.length (delta.itemsOf (lit "tool_calls"))) ∧
      Spoiled ((onToolCalls platform delta).run s)) := by
  unfold onToolCalls Json.itemsOf
  cases hfind : delta.find (lit "tool_calls") with
  | none => exact .inl ⟨⟨nofun, trivial⟩, rfl, rfl, rfl⟩
  | some calls =>
      cases hitems : calls.items with
      | error e =>
          refine .inr ⟨?_, ?_⟩
          · rintro ⟨hall, -⟩
            obtain ⟨items, hitems'⟩ := hall calls rfl
            rw [hitems] at hitems'
            cases hitems'
          · dsimp only
            rw [hitems]
            exact .inr (items_error hitems)
      | ok items =>
          obtain rfl := array_of_items hitems
          dsimp only
          rw [hitems]
          obtain ⟨hroom, hrun⟩ | ⟨hnone, failure, t, hrun, htexts⟩ :=
            onFragments_run platform items s
          · refine .inl ⟨⟨?_, hroom⟩, ?_⟩
            · rintro _ ⟨⟩
              exact ⟨items, rfl⟩
            · show Unnoticed platform s items
                ((forM items (onFragment platform) : StreamM Unit).run s)
              rw [hrun]
              exact ⟨rfl, rfl, length_foldl_growCalls _ _⟩
          · refine .inr ⟨fun h => hnone h.2, ?_⟩
            show Spoiled ((forM items (onFragment platform) : StreamM Unit).run s)
            rw [hrun]
            exact .inr (.inr (.inr ⟨failure, rfl⟩))

/-- A delta goes by unnoticed, or it spoils the stream. -/
theorem onDelta_run (platform : Platform) (onTextDelta : TextDeltaSink) (delta : Json)
    (s : StreamState) :
    ((QuietDelta delta ∧
        HasRoom platform s.turn.toolCalls.length (delta.itemsOf (lit "tool_calls"))) ∧
      Unnoticed platform s (delta.itemsOf (lit "tool_calls"))
        ((onDelta platform onTextDelta delta).run s)) ∨
    (¬ (QuietDelta delta ∧
        HasRoom platform s.turn.toolCalls.length (delta.itemsOf (lit "tool_calls"))) ∧
      Spoiled ((onDelta platform onTextDelta delta).run s)) := by
  rw [onDelta_eq]
  by_cases htext : fragmentText delta (lit "content") = []
  · have hcalls : ((do
        onText onTextDelta (fragmentText delta (lit "content"))
        onToolCalls platform delta : StreamM Unit)).run s = (onToolCalls platform delta).run s := by
      rw [EStateM.run_bind, htext, onText_nil]
    rw [hcalls, QuietDelta, and_iff_right htext]
    exact onToolCalls_run platform delta s
  · exact .inr ⟨fun h => htext h.1.1,
      spoiled_bind (onText_spoils onTextDelta htext s) fun _ => onToolCalls_remembers delta⟩

/-! ## events before and after `[DONE]` -/

/-- The decoding of an event before `[DONE]`. -/
def decodeEvent (platform : Platform) (onTextDelta : TextDeltaSink) (event : Bytes) :
    StreamM Unit := do
  let root ← decoding (parseJson event)
  let delta ← decoding (deltaOf root)
  match delta with
  | none => pure ()
  | some delta => onDelta platform onTextDelta delta

theorem onEvent_eq (onTextDelta : TextDeltaSink) (event : Bytes) (s : StreamState) :
    (onEvent platform onTextDelta event).run s =
      if s.done then .ok () s
      else if event = lit "[DONE]" then .ok () { s with done := true }
      else (decodeEvent platform onTextDelta event).run s := by
  unfold onEvent
  rw [EStateM.run_bind, EStateM.run_get]
  dsimp only
  split
  · rfl
  · split <;> rfl

theorem decodeEvent_remembers (onTextDelta : TextDeltaSink) (event : Bytes) :
    Within Remembers (decodeEvent platform onTextDelta event) := by
  refine Within.bind Remembers.trans (decoding_remembers _) fun root => ?_
  refine Within.bind Remembers.trans (decoding_remembers _) fun delta => ?_
  split
  · exact Within.pure Remembers.refl _
  · exact onDelta_remembers _ _

theorem onEvent_remembers (onTextDelta : TextDeltaSink) (event : Bytes) :
    Within Remembers (onEvent platform onTextDelta event) := by
  intro s
  rw [onEvent_eq]
  split
  · exact Remembers.refl s
  · split
    · exact id
    · exact decodeEvent_remembers onTextDelta event s

theorem onEvents_remember (onTextDelta : TextDeltaSink) (events : List Bytes) :
    Within Remembers (forM events (onEvent platform onTextDelta) : StreamM Unit) := by
  induction events with
  | nil => exact Within.pure Remembers.refl _
  | cons event events ih =>
      rw [List.forM_cons]
      exact Within.bind Remembers.trans (onEvent_remembers _ _) fun _ => ih

/-- An event before `[DONE]` goes by unnoticed, or it spoils the stream. -/
theorem onEvent_run (platform : Platform) (onTextDelta : TextDeltaSink) {event : Bytes}
    (hmarker : event ≠ lit "[DONE]") {s : StreamState} (hdone : s.done = false) :
    ((QuietEvent event ∧ HasRoom platform s.turn.toolCalls.length (eventFragments event)) ∧
      Unnoticed platform s (eventFragments event)
        ((onEvent platform onTextDelta event).run s)) ∨
    (¬ (QuietEvent event ∧ HasRoom platform s.turn.toolCalls.length (eventFragments event)) ∧
      Spoiled ((onEvent platform onTextDelta event).run s)) := by
  rw [onEvent_eq, hdone, if_neg Bool.false_ne_true, if_neg hmarker, decodeEvent, EStateM.run_bind]
  cases hroot : parseJson event with
  | error e =>
      refine .inr ⟨?_, .inr (.inl (parseJson_reports hroot))⟩
      rintro ⟨⟨root, delta, hroot', -⟩, -⟩
      rw [hroot] at hroot'
      cases hroot'
  | ok root =>
      show (_ ∧ Unnoticed platform s _ (EStateM.run (decoding (deltaOf root) >>= _) s)) ∨
        (_ ∧ Spoiled (EStateM.run (decoding (deltaOf root) >>= _) s))
      rw [EStateM.run_bind]
      cases hdelta : deltaOf root with
      | error e =>
          refine .inr ⟨?_, .inr (deltaOf_error hdelta)⟩
          rintro ⟨⟨root', delta, hroot', hdelta', -⟩, -⟩
          obtain rfl := Except.ok.inj (hroot.symm.trans hroot')
          rw [hdelta] at hdelta'
          cases hdelta'
      | ok delta =>
          have hquiet : QuietEvent event ↔ ∀ d ∈ delta, QuietDelta d := by
            refine ⟨?_, fun h => ⟨root, delta, hroot, hdelta, h⟩⟩
            rintro ⟨root', delta', hroot', hdelta', h⟩
            obtain rfl := Except.ok.inj (hroot.symm.trans hroot')
            obtain rfl := Except.ok.inj (hdelta.symm.trans hdelta')
            exact h
          rw [hquiet, eventFragments_eq hroot hdelta]
          cases delta with
          | none => exact .inl ⟨⟨nofun, trivial⟩, rfl, rfl, rfl⟩
          | some d =>
              have hd : (∀ d' ∈ some d, QuietDelta d') ↔ QuietDelta d := by simp
              rw [hd]
              exact onDelta_run platform onTextDelta d s

/-- After `[DONE]` nothing is decoded. -/
theorem onEvents_done (onTextDelta : TextDeltaSink) (events : List Bytes) {s : StreamState}
    (hdone : s.done = true) :
    (forM events (onEvent platform onTextDelta) : StreamM Unit).run s = .ok () s := by
  induction events with
  | nil => rfl
  | cons event events ih =>
      have hevent : (onEvent platform onTextDelta event).run s = .ok () s := by
        rw [onEvent_eq, if_pos hdone]
      rw [List.forM_cons, EStateM.run_bind, hevent]
      exact ih

/-- The events before `[DONE]` go by unnoticed, or one of them spoils the stream. -/
theorem onEvents_run (platform : Platform) (onTextDelta : TextDeltaSink) (events : List Bytes)
    {s : StreamState} (hdone : s.done = false) :
    (QuietEvents platform s.turn.toolCalls.length (decodedEvents events) ∧
      ∃ t, (forM events (onEvent platform onTextDelta) : StreamM Unit).run s = .ok () t ∧
        t.texts = s.texts) ∨
    (¬ QuietEvents platform s.turn.toolCalls.length (decodedEvents events) ∧
      Spoiled ((forM events (onEvent platform onTextDelta) : StreamM Unit).run s)) := by
  induction events generalizing s with
  | nil => exact .inl ⟨⟨nofun, trivial⟩, s, rfl, rfl⟩
  | cons event events ih =>
      by_cases hmarker : event = lit "[DONE]"
      · have hnone : decodedEvents (event :: events) = [] :=
          List.takeWhile_cons_of_neg (by simp [hmarker])
        refine .inl ⟨by rw [hnone]; exact ⟨nofun, trivial⟩, { s with done := true }, ?_, rfl⟩
        have hevent :
            (onEvent platform onTextDelta event).run s = .ok () { s with done := true } := by
          rw [onEvent_eq, hdone, if_neg Bool.false_ne_true, if_pos hmarker]
        rw [List.forM_cons, EStateM.run_bind, hevent]
        exact onEvents_done onTextDelta events rfl
      · have hcons : decodedEvents (event :: events) = event :: decodedEvents events :=
          List.takeWhile_cons_of_pos (by simp [hmarker])
        rw [hcons, quietEvents_cons, List.forM_cons]
        cases onEvent_run platform onTextDelta hmarker hdone with
        | inl h =>
            obtain ⟨hquiet, hunnoticed⟩ := h
            cases hrun : (onEvent platform onTextDelta event).run s with
            | error e t =>
                rw [hrun] at hunnoticed
                exact hunnoticed.elim
            | ok u t =>
                rw [hrun] at hunnoticed
                obtain ⟨hdone', htexts, hlength⟩ := hunnoticed
                rw [EStateM.run_bind, hrun, ← htexts, ← hlength, and_iff_right hquiet]
                exact ih (hdone'.trans hdone)
        | inr h =>
            exact .inr ⟨fun hall => h.1 hall.1,
              spoiled_bind h.2 fun _ => onEvents_remember onTextDelta events⟩

/-! ## a failed response -/

/-- A status that is no success. -/
def Failed (response : HttpResponse) : Prop := response.status < 200 ∨ 300 ≤ response.status

/-- A buffered response that failed is reported by its status, whatever its body. -/
theorem parseResponse_failed {response : HttpResponse} (h : Failed response) (body : Bytes) :
    parseResponse { response with body := body } = .error (statusError response) := by
  have hstatus : response.status < 200 ∨ 300 ≤ response.status := h
  unfold parseResponse
  dsimp only
  rw [if_pos hstatus]
  rfl

/-- What `stream` does on a response that failed: it decodes the events that
arrive, and throws the status if they let it. -/
theorem stream_failed {llm : OpenAiCompatibleLlm} {history : List Message} {request : HttpRequest}
    {response : HttpResponse} (onTextDelta : TextDeltaSink)
    (hrequest : llm.streamRequest history = .ok request)
    (hresponse : (llm.perform request).result = .ok response) (hfailed : Failed response)
    (s : StreamState) :
    (stream platform llm history onTextDelta).run s =
      match (forM (SseParser.fedEvents (llm.perform request).chunks.flatten)
        (onEvent platform onTextDelta) : StreamM Unit).run s with
      | .ok _ t => .error (statusError response) t
      | .error e t => .error e t := by
  obtain ⟨parser, hfeed⟩ := SseParser.feed_eq_fedEvents (onEvent platform onTextDelta)
    (llm.perform request).chunks.flatten
  unfold stream
  rw [hrequest]
  show EStateM.run (List.foldlM _ _ _ >>= _) s = _
  rw [SseParser.feed_chunks, hfeed, bind_assoc, EStateM.run_bind]
  cases (forM (SseParser.fedEvents (llm.perform request).chunks.flatten)
      (onEvent platform onTextDelta) : StreamM Unit).run s with
  | error e t => rfl
  | ok u t =>
      have hstatus : response.status < 200 ∨ 300 ≤ response.status := hfailed
      dsimp only
      rw [pure_bind, hresponse]
      show EStateM.run (if _ then _ else _) t = _
      rw [if_pos hstatus]
      rfl

/-- **When a failed response is not spoken**: for every exchange that ends with a
status that is no success, whatever the chunks of its body, `stream` throws that
status, as `complete` does, and has passed on no text exactly when each event that
arrives before `[DONE]` is decoded and has no text, and there is room for the calls
of them all. -/
theorem failed_silent_iff (platform : Platform) (llm : OpenAiCompatibleLlm) (history : List Message)
    (onTextDelta : TextDeltaSink) (request : HttpRequest) (response : HttpResponse)
    (hrequest : llm.streamRequest history = .ok request)
    (hresponse : (llm.perform request).result = .ok response) (hfailed : Failed response) :
    (∃ e t, (stream platform llm history onTextDelta).run {} = .error e t ∧
      (∀ body, parseResponse { response with body := body } = .error e) ∧ t.texts = []) ↔
      QuietEvents platform 0
        (decodedEvents (SseParser.fedEvents (llm.perform request).chunks.flatten)) := by
  rw [stream_failed onTextDelta hrequest hresponse hfailed]
  cases onEvents_run platform onTextDelta (SseParser.fedEvents (llm.perform request).chunks.flatten)
      (s := {}) rfl with
  | inl h =>
      obtain ⟨hquiet, t, hrun, htexts⟩ := h
      rw [hrun]
      exact ⟨fun _ => hquiet, fun _ => ⟨_, t, rfl, parseResponse_failed hfailed, htexts⟩⟩
  | inr h =>
      obtain ⟨hloud, hspoiled⟩ := h
      refine ⟨?_, fun hquiet => absurd hquiet hloud⟩
      rintro ⟨e, t, hrun, hstatus, htexts⟩
      have he : e = statusError response :=
        Except.error.inj ((hstatus []).symm.trans (parseResponse_failed hfailed []))
      subst he
      revert hrun hspoiled
      cases (forM (SseParser.fedEvents (llm.perform request).chunks.flatten)
          (onEvent platform onTextDelta) : StreamM Unit).run {} with
      | ok u t' =>
          intro hspoiled hrun
          obtain ⟨-, rfl⟩ := EStateM.Result.error.inj hrun
          exact absurd htexts hspoiled
      | error e' t' =>
          intro hspoiled hrun
          obtain ⟨rfl, rfl⟩ := EStateM.Result.error.inj hrun
          cases hspoiled with
          | inl hloud => exact absurd htexts hloud
          | inr hdecoding => exact absurd hdecoding (statusError_not_decoding response)

/-- A client whose requests are answered with a status and the chunks of a body. -/
def answered (status : Int) (chunks : List Bytes) : OpenAiCompatibleLlm where
  config := { model := lit "test-model" }
  perform := fun _ => ⟨chunks, .ok { status := status }⟩
  model_ne := testModel_ne

theorem answered_request (status : Int) (chunks : List Bytes) :
    ∃ request, (answered status chunks).streamRequest [Agent.userMessage (lit "hello")] =
      .ok request := by
  have hmake : ∃ request, (answered status chunks).makeRequest
      [Agent.userMessage (lit "hello")] = .ok request :=
    makeRequest_iff.mpr ⟨⟨_, rfl⟩, List.forall_mem_singleton.mpr ⟨_, rfl⟩, ⟨_, rfl⟩⟩
  obtain ⟨request, hmake⟩ := hmake
  exact ⟨_, by rw [streamRequest, hmake]; rfl⟩

/-- An error document, and a tool-call fragment. -/
def errorBody : Bytes :=
  lit "data: \x7b\"error\":\"private\"\x7d\n\ndata: \x7b\"choices\":[\x7b\"delta\":" ++
    lit "\x7b\"tool_calls\":[\x7b\"id\":\"b\"\x7d]\x7d\x7d]\x7d\n\n"

theorem failed_silent_iff_error :
    ∃ e t, (stream amplePlatform (answered 401 [errorBody])
        [Agent.userMessage (lit "hello")] fun _ _ => .ok true).run {} = .error e t ∧
      (∀ body, parseResponse { status := 401, body := body } = .error e) ∧ t.texts = [] := by
  obtain ⟨request, hrequest⟩ := answered_request 401 [errorBody]
  refine (failed_silent_iff amplePlatform _ _ (fun _ _ => .ok true) request { status := 401 }
    hrequest rfl (.inr (by decide))).mpr ?_
  have hevents : decodedEvents (SseParser.fedEvents [errorBody].flatten) =
      [lit "\x7b\"error\":\"private\"\x7d", lit "\x7b\"choices\":[\x7b\"delta\":" ++
        lit "\x7b\"tool_calls\":[\x7b\"id\":\"b\"\x7d]\x7d\x7d]\x7d"] := by decide +kernel
  show QuietEvents amplePlatform 0 (decodedEvents (SseParser.fedEvents [errorBody].flatten))
  rw [hevents]
  refine ⟨?_, ?_⟩
  · intro event hevent
    simp only [List.mem_cons, List.not_mem_nil, or_false] at hevent
    rcases hevent with rfl | rfl
    · exact ⟨_, none, rfl, rfl, nofun⟩
    · exact ⟨_, _, rfl, rfl, fun _ hd => Option.some.inj hd ▸
        ⟨rfl, fun _ hcalls => Option.some.inj hcalls ▸ ⟨_, rfl⟩⟩⟩
  · exact ⟨fun _ => rfl, trivial⟩

/-- What `stream` throws on a body with the status 500, and the texts it has passed on. -/
def thrownOn (body : Bytes) : Option (Exception × List Bytes) :=
  match (stream amplePlatform (answered 500 [body]) [Agent.userMessage (lit "hello")]
    fun _ _ => .ok true).run {} with
  | .ok _ _ => none
  | .error e t => some (e, t.texts)

/-- A response that failed is spoken when its body has the form of a stream, and
its status is not reported when a data line is no document or asks for more calls
than a vector holds. -/
theorem failed_speaks :
    thrownOn (lit "data: \x7b\"choices\":[\x7b\"delta\":\x7b\"content\":\"x\"\x7d\x7d]\x7d\n\n") =
        some (lit "LLM HTTP status 500", [lit "x"]) ∧
      thrownOn (lit "data: private\n\n") = some (lit "invalid JSON near byte 0: value", []) ∧
      thrownOn (lit "data: \x7b\"choices\":[\x7b\"delta\":\x7b\"tool_calls\":" ++
          lit "[\x7b\"index\":1e18\x7d]\x7d\x7d]\x7d\n\n") =
        some (lit "vector::_M_default_append", []) := by
  decide +kernel

end OpenAiCompatibleLlm

end ByteTurn

import ByteTurn.Agent
import ByteTurn.Lib.Programs
import ByteTurn.OpenAiCompatible.Encoding
import ByteTurn.OpenAiCompatible.Calls
import ByteTurn.OpenAiCompatible.Fragments

/-!
# ByteTurn.OpenAiCompatible.Replies

When a reply of the model can be sent back to it.

The decoder reads every byte a JSON string can spell; the encoder throws on a
control byte other than a newline, a return and a tab.  So a reply that was
accepted is encoded in the next request exactly when none of the strings it was
decoded from has such a byte (`replies_iff`), and one that has is in the way of
every later request (`control_byte_poisons`).
-/

namespace ByteTurn

/-! ## encoding a reply -/

/-- A loop that may throw returns exactly when each round does. -/
theorem mapM_ok_iff {α β : Type} {f : α → Except Exception β} {l : List α} :
    (∃ results, l.mapM f = .ok results) ↔ ∀ a ∈ l, ∃ b, f a = .ok b := by
  induction l with
  | nil => exact ⟨fun _ => nofun, fun _ => ⟨[], rfl⟩⟩
  | cons a l ih =>
      rw [List.forall_mem_cons, ← ih]
      constructor
      · rintro ⟨results, h⟩
        rw [List.mapM_cons] at h
        obtain ⟨b, hb, h⟩ := bind_ok h
        obtain ⟨rest, hrest, _⟩ := bind_ok h
        exact ⟨⟨b, hb⟩, ⟨rest, hrest⟩⟩
      · rintro ⟨⟨b, hb⟩, ⟨rest, hrest⟩⟩
        exact ⟨b :: rest, by rw [List.mapM_cons, hb, hrest]; rfl⟩

/-- The strings of a tool call. -/
def ToolCall.strings (call : ToolCall) : List Bytes := [call.id, call.name, call.arguments]

/-- The strings of a turn: its text and those of its tool calls. -/
def LlmTurn.strings (turn : LlmTurn) : List Bytes :=
  turn.text :: turn.toolCalls.flatMap ToolCall.strings

/-- A tool call is encoded exactly when its strings are. -/
theorem toolCallJson_iff {call : ToolCall} :
    (∃ text, toolCallJson call = .ok text) ↔ ∀ s ∈ call.strings, Encodable s := by
  simp only [ToolCall.strings, List.forall_mem_cons, ← escape_iff]
  constructor
  · rintro ⟨text, h⟩
    obtain ⟨id, hid, h⟩ := bind_ok h
    obtain ⟨name, hname, h⟩ := bind_ok h
    obtain ⟨arguments, harguments, _⟩ := bind_ok h
    exact ⟨⟨id, hid⟩, ⟨name, hname⟩, ⟨arguments, harguments⟩, nofun⟩
  · rintro ⟨⟨id, hid⟩, ⟨name, hname⟩, ⟨arguments, harguments⟩, _⟩
    exact ⟨_, by rw [toolCallJson, hid, hname, harguments]; rfl⟩

/-- So is a list of them. -/
theorem toolCallsJson_iff {calls : List ToolCall} :
    (∃ text, toolCallsJson calls = .ok text) ↔
      ∀ s ∈ calls.flatMap ToolCall.strings, Encodable s := by
  have hall : (∀ s ∈ calls.flatMap ToolCall.strings, Encodable s) ↔
      ∀ call ∈ calls, ∃ text, toolCallJson call = .ok text := by
    simp only [toolCallJson_iff, List.mem_flatMap]
    grind
  rw [hall, ← mapM_ok_iff, toolCallsJson]
  by_cases hnone : calls = []
  · subst hnone
    exact ⟨fun _ => ⟨[], rfl⟩, fun _ => ⟨[], rfl⟩⟩
  · rw [if_neg hnone]
    constructor
    · rintro ⟨text, h⟩
      obtain ⟨items, hitems, _⟩ := bind_ok h
      exact ⟨items, hitems⟩
    · rintro ⟨items, hitems⟩
      exact ⟨_, by rw [hitems]; rfl⟩

/-- The message of a reply is encoded exactly when its strings are. -/
theorem assistantJson_iff (turn : LlmTurn) :
    (∃ text, messageJson (Agent.assistantMessage turn.text turn.toolCalls) = .ok text) ↔
      ∀ s ∈ turn.strings, Encodable s := by
  rw [LlmTurn.strings, List.forall_mem_cons, ← toolCallsJson_iff, ← escape_iff]
  constructor
  · rintro ⟨text, h⟩
    obtain ⟨toolCallId, hid, h⟩ := bind_ok h
    obtain ⟨content, hcontent, h⟩ := bind_ok h
    obtain ⟨toolCalls, hcalls, _⟩ := bind_ok h
    exact ⟨⟨content, hcontent⟩, ⟨toolCalls, hcalls⟩⟩
  · rintro ⟨⟨content, hcontent⟩, ⟨toolCalls, hcalls⟩⟩
    have hid : toolCallIdJson (Agent.assistantMessage turn.text turn.toolCalls) = .ok [] := rfl
    have hcontent : escape (Agent.assistantMessage turn.text turn.toolCalls).content = .ok content :=
      hcontent
    have hcalls : toolCallsJson (Agent.assistantMessage turn.text turn.toolCalls).toolCalls =
      .ok toolCalls := hcalls
    exact ⟨_, by rw [messageJson, hid, ok_bind, hcontent, ok_bind, hcalls]; rfl⟩

namespace OpenAiCompatibleLlm

variable {platform : Platform}

/-- A request is made exactly when each of its parts is encoded. -/
theorem makeRequest_iff {llm : OpenAiCompatibleLlm} {history : List Message} :
    (∃ request, llm.makeRequest history = .ok request) ↔
      (∃ text, escape llm.config.model = .ok text) ∧
        (∀ message ∈ history, ∃ text, messageJson message = .ok text) ∧
          ∃ text, toolsJson llm.config.tools = .ok text := by
  rw [← mapM_ok_iff]
  constructor
  · rintro ⟨request, h⟩
    obtain ⟨body, h, _⟩ := bind_ok h
    obtain ⟨model, hmodel, h⟩ := bind_ok h
    obtain ⟨messages, hmessages, h⟩ := bind_ok h
    obtain ⟨tools, htools, _⟩ := bind_ok h
    exact ⟨⟨model, hmodel⟩, ⟨messages, hmessages⟩, ⟨tools, htools⟩⟩
  · rintro ⟨⟨model, hmodel⟩, ⟨messages, hmessages⟩, ⟨tools, htools⟩⟩
    have hbody : ∃ body, requestBody llm.config history = .ok body :=
      ⟨_, by rw [requestBody, hmodel, ok_bind, hmessages, ok_bind, htools]; rfl⟩
    obtain ⟨body, hbody⟩ := hbody
    exact ⟨_, by rw [makeRequest, hbody]; rfl⟩

/-- One message more. -/
theorem makeRequest_append_iff {llm : OpenAiCompatibleLlm} {history : List Message}
    {request : HttpRequest} (h : llm.makeRequest history = .ok request) (message : Message) :
    (∃ r, llm.makeRequest (history ++ [message]) = .ok r) ↔
      ∃ text, messageJson message = .ok text := by
  obtain ⟨hmodel, hmessages, htools⟩ := makeRequest_iff.mp ⟨request, h⟩
  rw [makeRequest_iff, List.forall_mem_append, List.forall_mem_singleton]
  exact ⟨fun hall => hall.2.1.2, fun hmessage => ⟨hmodel, ⟨hmessages, hmessage⟩, htools⟩⟩

end OpenAiCompatibleLlm

/-! ## the strings of a document -/

namespace OpenAiCompatibleLlm

/-- The strings of an element of `tool_calls`: its id, name and arguments. -/
def callStrings (item : Json) : List Bytes :=
  [fragmentText item (lit "id"), functionText item (lit "name"),
    functionText item (lit "arguments")]

/-- The strings of a message or a delta: its content and those of its tool calls. -/
def partStrings (part : Json) : List Bytes :=
  fragmentText part (lit "content") :: (part.itemsOf (lit "tool_calls")).flatMap callStrings

/-- The strings of a document's message or delta, by the key of either. -/
def replyStrings (key : Bytes) (root : Json) : List Bytes :=
  match root.firstChoice.bind (·.find key) with
  | some part => partStrings part
  | none => []

/-- What `at` returns is found. -/
theorem find_of_at {j value : Json} {key : Bytes} (h : j.at' key = .ok value) :
    j.find key = some value := by
  unfold Json.at' at h
  unfold Json.find
  cases j with
  | object fields =>
      cases hlookup : fields.lookup key with
      | none => simp only [hlookup] at h; contradiction
      | some v =>
          simp only [hlookup] at h ⊢
          rw [Except.ok.inj h]
  | null | bool | number | string | array => contradiction

/-- The text of a field that is there. -/
theorem fragmentText_of_find {j value : Json} {key : Bytes} (h : j.find key = some value) :
    fragmentText j key = value.stringOrEmpty := by
  rw [fragmentText, h]

theorem functionText_of_find {j function : Json} (h : j.find (lit "function") = some function)
    (key : Bytes) : functionText j key = fragmentText function key := by
  rw [functionText, h]

/-! ## a response -/

/-- A tool call of a response holds the strings of its item. -/
theorem responseToolCall_strings {item : Json} {call : ToolCall}
    (h : responseToolCall item = .ok call) : call.strings = callStrings item := by
  obtain ⟨function, hfunction, h⟩ := bind_ok h
  obtain ⟨id, hid, h⟩ := bind_ok h
  obtain ⟨name, hname, h⟩ := bind_ok h
  obtain ⟨arguments, harguments, h⟩ := bind_ok h
  have hfind := find_of_at hfunction
  rw [← Except.ok.inj h, callStrings, functionText_of_find hfind, functionText_of_find hfind,
    fragmentText_of_find (find_of_at hid), fragmentText_of_find (find_of_at hname),
    fragmentText_of_find (find_of_at harguments)]
  rfl

theorem flatMap_strings {calls : List ToolCall} {items : List Json}
    (h : List.Forall₂ (fun call item => call.strings = callStrings item) calls items) :
    calls.flatMap ToolCall.strings = items.flatMap callStrings := by
  induction h with
  | nil => rfl
  | cons hcall _ ih => rw [List.flatMap_cons, List.flatMap_cons, hcall, ih]

/-- The tool calls of a response hold the strings of their items. -/
theorem responseToolCalls_strings {message : Json} {calls : List ToolCall}
    (h : responseToolCalls message = .ok calls) :
    calls.flatMap ToolCall.strings = (message.itemsOf (lit "tool_calls")).flatMap callStrings := by
  obtain ⟨list, hlist, h⟩ := bind_ok h
  obtain ⟨items, hitems, h⟩ := bind_ok h
  have hfind := find_of_at hlist
  rw [array_of_items hitems] at hfind
  rw [itemsOf_of_find hfind]
  exact flatMap_strings (forall₂_of_mapM (fun item call => responseToolCall_strings) h)

/-- `at` throws for a missing field, or for no object. -/
theorem at_error {j : Json} {key : Bytes} {e : Exception} (h : j.at' key = .error e) :
    e = lit "missing JSON field: " ++ key ∨ e = lit "expected JSON object" := by
  unfold Json.at' at h
  split at h
  · split at h
    · contradiction
    · exact .inl (Except.error.inj h).symm
  · exact .inr (Except.error.inj h).symm

/-- A loop throws what one of its rounds does. -/
theorem mapM_error {α β : Type} {f : α → Except Exception β} {l : List α} {e : Exception}
    (h : l.mapM f = .error e) : ∃ a ∈ l, f a = .error e := by
  induction l with
  | nil => contradiction
  | cons a l ih =>
      rw [List.mapM_cons] at h
      cases bind_error h with
      | inl ha => exact ⟨a, List.mem_cons_self, ha⟩
      | inr h =>
          obtain ⟨b, _, h⟩ := h
          cases bind_error h with
          | inl hrest =>
              obtain ⟨a', ha', hfail⟩ := ih hrest
              exact ⟨a', List.mem_cons_of_mem _ ha', hfail⟩
          | inr h =>
              obtain ⟨rest, _, h⟩ := h
              contradiction

/-- A field of a tool call, when it is missing. -/
theorem responseToolCall_error {item : Json} {e : Exception} (h : responseToolCall item = .error e) :
    ∃ key ∈ [lit "function", lit "id", lit "name", lit "arguments"],
      e = lit "missing JSON field: " ++ key ∨ e = lit "expected JSON object" := by
  rcases bind_error h with h | ⟨function, _, h⟩
  · exact ⟨_, by simp, at_error h⟩
  rcases bind_error h with h | ⟨id, _, h⟩
  · exact ⟨_, by simp, at_error h⟩
  rcases bind_error h with h | ⟨name, _, h⟩
  · exact ⟨lit "name", by simp, at_error h⟩
  rcases bind_error h with h | ⟨arguments, _, h⟩
  · exact ⟨lit "arguments", by simp, at_error h⟩
  · contradiction

/-- The other missing fields are not taken for missing tool calls. -/
theorem not_missing_toolCalls : ∀ key ∈ [lit "function", lit "id", lit "name", lit "arguments"],
    ¬ lit "missing JSON field: tool_calls" <:+: lit "missing JSON field: " ++ key := by
  decide

/-- Only a missing `tool_calls` is forgiven. -/
theorem itemsOf_of_missing {message content : Json} {e : Exception}
    (hcontent : message.at' (lit "content") = .ok content)
    (h : responseToolCalls message = .error e)
    (hmissing : lit "missing JSON field: tool_calls" <:+: e) :
    message.itemsOf (lit "tool_calls") = [] := by
  have hobject : ¬ lit "missing JSON field: tool_calls" <:+: lit "expected JSON object" := by
    decide
  have harray : ¬ lit "missing JSON field: tool_calls" <:+: lit "expected JSON array" := by
    decide
  rcases bind_error h with h | ⟨list, _, h⟩
  · unfold Json.at' at h hcontent
    cases message with
    | object fields =>
        cases hlookup : fields.lookup (lit "tool_calls") with
        | none => simp [Json.itemsOf, Json.find, hlookup]
        | some value => simp only [hlookup] at h; contradiction
    | null | bool | number | string | array => contradiction
  rcases bind_error h with h | ⟨items, _, h⟩
  · cases list with
    | array items => contradiction
    | null | bool | number | string | object =>
        rw [← Except.error.inj h] at hmissing
        exact absurd hmissing harray
  obtain ⟨item, _, h⟩ := mapM_error h
  obtain ⟨key, hkey, rfl | rfl⟩ := responseToolCall_error h
  · exact absurd hmissing (not_missing_toolCalls key hkey)
  · exact absurd hmissing hobject

/-- The strings of an accepted response are those of its document. -/
theorem parseResponse_strings {response : HttpResponse} {turn : LlmTurn}
    (h : parseResponse response = .ok turn) :
    ∃ root, parseJson response.body = .ok root ∧
      turn.strings = replyStrings (lit "message") root := by
  unfold parseResponse at h
  dsimp only at h
  split at h
  · contradiction
  obtain ⟨root, hroot, h⟩ := bind_ok h
  obtain ⟨list, hlist, h⟩ := bind_ok h
  obtain ⟨choices, hchoices, h⟩ := bind_ok h
  refine ⟨root, hroot, ?_⟩
  cases choices with
  | nil => contradiction
  | cons front rest =>
      obtain ⟨message, hmessage, h⟩ := bind_ok h
      obtain ⟨content, hcontent, h⟩ := bind_ok h
      have hchoice : root.firstChoice = some front := by
        rw [Json.firstChoice, find_of_at hlist, array_of_items hchoices]
      rw [replyStrings, hchoice, Option.bind_some, find_of_at hmessage]
      dsimp only
      rw [partStrings, fragmentText_of_find (find_of_at hcontent)]
      cases hcalls : responseToolCalls message with
      | ok toolCalls =>
          rw [hcalls] at h
          rw [← Except.ok.inj h, LlmTurn.strings, responseToolCalls_strings hcalls]
      | error e =>
          rw [hcalls] at h
          dsimp only at h
          split at h
          · next hmissing =>
              rw [← Except.ok.inj h, LlmTurn.strings, itemsOf_of_missing hcontent hcalls hmissing]
              rfl
          · contradiction

/-! ## a stream -/

/-- Every string of a turn can be encoded. -/
def TurnEncodable (turn : LlmTurn) : Prop := ∀ s ∈ turn.strings, Encodable s

/-- A decoder leaves the stream as it is. -/
theorem run_decoding_ok {α : Type} {x : Except Exception α} {s t : StreamState} {a : α}
    (h : (decoding x).run s = .ok a t) : x = .ok a ∧ s = t := by
  cases x with
  | error e => contradiction
  | ok b =>
      obtain ⟨rfl, rfl⟩ := EStateM.Result.ok.inj h
      exact ⟨rfl, rfl⟩

/-- A fragment adds its strings to those of the calls. -/
theorem strings_growCalls (calls : List ToolCall) (item : Json) :
    (∀ s ∈ (growCalls platform calls item).flatMap ToolCall.strings, Encodable s) ↔
      (∀ s ∈ calls.flatMap ToolCall.strings, Encodable s) ∧ ∀ s ∈ callStrings item, Encodable s := by
  unfold growCalls
  generalize fragmentIndex platform item = i
  have hpadding : (∀ s ∈ (calls ++ List.replicate (i + 1 - calls.length)
      (⟨[], [], []⟩ : ToolCall)).flatMap ToolCall.strings, Encodable s) ↔ ∀ s ∈ calls.flatMap ToolCall.strings, Encodable s := by
    rw [List.flatMap_append, List.forall_mem_append]
    refine ⟨fun h => h.1, fun h => ⟨h, ?_⟩⟩
    intro s hs
    obtain ⟨call, hcall, hs⟩ := List.mem_flatMap.mp hs
    rw [List.eq_of_mem_replicate hcall] at hs
    have hnil : s = [] := by simpa [ToolCall.strings] using hs
    rw [hnil]
    exact Encodable.nil
  have hlength : i < (calls ++ List.replicate (i + 1 - calls.length)
      (⟨[], [], []⟩ : ToolCall)).length := by
    rw [List.length_append, List.length_replicate]
    omega
  rw [← hpadding]
  obtain ⟨before, call, after, hsplit, _, hmodify⟩ :=
    List.exists_of_modify (extendCall item) hlength
  rw [hmodify, hsplit]
  simp only [List.flatMap_append, List.flatMap_cons, List.forall_mem_append, ToolCall.strings,
    callStrings, extendCall, List.forall_mem_cons, Encodable.append_iff]
  have hnone : ∀ s ∈ ([] : List Bytes), Encodable s := nofun
  tauto

/-- So do all fragments of a delta. -/
theorem strings_addFragments (items : List Json) (calls : List ToolCall) :
    (∀ s ∈ (items.foldl (growCalls platform) calls).flatMap ToolCall.strings, Encodable s) ↔
      (∀ s ∈ calls.flatMap ToolCall.strings, Encodable s) ∧
        ∀ s ∈ items.flatMap callStrings, Encodable s := by
  induction items generalizing calls with
  | nil => simp
  | cons item items ih =>
      rw [List.foldl_cons, ih, strings_growCalls, List.flatMap_cons, List.forall_mem_append]
      tauto

/-- A text adds itself to the turn. -/
theorem onText_encodable {onTextDelta : TextDeltaSink} {text : Bytes} {s t : StreamState}
    (h : (onText onTextDelta text).run s = .ok () t) :
    t.done = s.done ∧ (TurnEncodable t.turn ↔ TurnEncodable s.turn ∧ Encodable text) := by
  unfold onText at h
  split at h
  · obtain ⟨u, v, hget, h⟩ := Programs.ok_of_bind h
    obtain ⟨rfl, rfl⟩ := EStateM.Result.ok.inj hget
    obtain ⟨_, w, hset, h⟩ := Programs.ok_of_bind h
    obtain ⟨_, rfl⟩ := EStateM.Result.ok.inj hset
    obtain ⟨accepted, x, hsink, h⟩ := Programs.ok_of_bind h
    obtain ⟨_, rfl⟩ := run_decoding_ok hsink
    cases accepted with
    | false => contradiction
    | true =>
        obtain ⟨_, rfl⟩ := EStateM.Result.ok.inj h
        refine ⟨rfl, ?_⟩
        simp only [TurnEncodable, LlmTurn.strings, List.forall_mem_cons, Encodable.append_iff]
        tauto
  · next hempty =>
      obtain ⟨_, rfl⟩ := EStateM.Result.ok.inj h
      rw [not_not.mp hempty]
      exact ⟨rfl, fun h => ⟨h, Encodable.nil⟩, fun h => h.1⟩

/-- The fragments of a delta add their strings to the turn. -/
theorem onToolCalls_encodable {delta : Json} {s t : StreamState}
    (h : (onToolCalls platform delta).run s = .ok () t) :
    t.done = s.done ∧ (TurnEncodable t.turn ↔ TurnEncodable s.turn ∧
      ∀ s ∈ (delta.itemsOf (lit "tool_calls")).flatMap callStrings, Encodable s) := by
  unfold onToolCalls at h
  cases hfind : delta.find (lit "tool_calls") with
  | none =>
      rw [hfind] at h
      obtain ⟨_, rfl⟩ := EStateM.Result.ok.inj h
      rw [Json.itemsOf, hfind]
      exact ⟨rfl, fun h => ⟨h, List.forall_mem_nil _⟩, fun h => h.1⟩
  | some calls =>
      rw [hfind] at h
      obtain ⟨items, u, hread, h⟩ := Programs.ok_of_bind h
      obtain ⟨hitems, rfl⟩ := run_decoding_ok hread
      obtain ⟨-, rfl⟩ := onFragments_ok h
      rw [array_of_items hitems] at hfind
      refine ⟨rfl, ?_⟩
      rw [itemsOf_of_find hfind]
      simp only [TurnEncodable, LlmTurn.strings, List.forall_mem_cons, strings_addFragments]
      tauto

/-- A delta adds its strings to the turn. -/
theorem onDelta_encodable {onTextDelta : TextDeltaSink} {delta : Json} {s t : StreamState}
    (h : (onDelta platform onTextDelta delta).run s = .ok () t) :
    t.done = s.done ∧
      (TurnEncodable t.turn ↔ TurnEncodable s.turn ∧ ∀ s ∈ partStrings delta, Encodable s) := by
  have hcontent : ∃ u, (onText onTextDelta (fragmentText delta (lit "content"))).run s = .ok () u ∧
      (onToolCalls platform delta).run u = .ok () t := by
    unfold onDelta at h
    dsimp only at h
    cases hfind : delta.find (lit "content") with
    | none =>
        rw [hfind] at h
        rw [fragmentText, hfind]
        exact ⟨s, rfl, h⟩
    | some content =>
        rw [hfind] at h
        obtain ⟨_, u, htext, h⟩ := Programs.ok_of_bind h
        rw [fragmentText, hfind]
        exact ⟨u, htext, h⟩
  obtain ⟨u, htext, hcalls⟩ := hcontent
  obtain ⟨hdone, htext⟩ := onText_encodable htext
  obtain ⟨hdone', hcalls⟩ := onToolCalls_encodable hcalls
  refine ⟨hdone'.trans hdone, ?_⟩
  rw [partStrings, List.forall_mem_cons, hcalls, htext]
  tauto

/-- The delta of a document has the strings of its reply. -/
theorem deltaOf_strings {root : Json} {delta : Option Json} (h : deltaOf root = .ok delta) :
    replyStrings (lit "delta") root = (delta.map partStrings).getD [] := by
  unfold deltaOf at h
  unfold replyStrings Json.firstChoice
  cases hfind : root.find (lit "choices") with
  | none =>
      rw [hfind] at h
      rw [← Except.ok.inj h]
      rfl
  | some list =>
      rw [hfind] at h
      obtain ⟨items, hitems, h⟩ := bind_ok h
      rw [array_of_items hitems]
      cases items with
      | nil =>
          rw [← Except.ok.inj h]
          rfl
      | cons front rest =>
          rw [← Except.ok.inj h]
          dsimp only
          rw [Option.bind_some]
          cases front.find (lit "delta") with
          | none => rfl
          | some part => rfl

/-- The strings of an event, once it is parsed. -/
def EventEncodable (event : Bytes) : Prop :=
  ∀ root, parseJson event = .ok root → ∀ s ∈ replyStrings (lit "delta") root, Encodable s

/-- One event: after `[DONE]` nothing changes; `[DONE]` ends the turn; any other
event adds its strings. -/
theorem onEvent_encodable {onTextDelta : TextDeltaSink} {event : Bytes} {s t : StreamState}
    (h : (onEvent platform onTextDelta event).run s = .ok () t) :
    if s.done = true then t = s
    else if event = lit "[DONE]" then t.done = true ∧ t.turn = s.turn
    else t.done = false ∧
      (TurnEncodable t.turn ↔ TurnEncodable s.turn ∧ EventEncodable event) := by
  unfold onEvent at h
  obtain ⟨u, v, hget, h⟩ := Programs.ok_of_bind h
  obtain ⟨rfl, rfl⟩ := EStateM.Result.ok.inj hget
  split
  · next hdone =>
      rw [if_pos hdone] at h
      obtain ⟨_, rfl⟩ := EStateM.Result.ok.inj h
      rfl
  · next hdone =>
      rw [if_neg hdone] at h
      have hdone := eq_false_of_ne_true hdone
      split
      · next hmarker =>
          rw [if_pos hmarker] at h
          obtain ⟨_, rfl⟩ := EStateM.Result.ok.inj h
          exact ⟨rfl, rfl⟩
      · next hmarker =>
          rw [if_neg hmarker] at h
          obtain ⟨root, v, hparse, h⟩ := Programs.ok_of_bind h
          obtain ⟨hroot, rfl⟩ := run_decoding_ok hparse
          obtain ⟨delta, w, hselect, h⟩ := Programs.ok_of_bind h
          obtain ⟨hdelta, rfl⟩ := run_decoding_ok hselect
          have hevent : EventEncodable event ↔
              ∀ s ∈ (delta.map partStrings).getD [], Encodable s := by
            rw [← deltaOf_strings hdelta]
            refine ⟨fun h => h root hroot, ?_⟩
            intro h root' hroot'
            rwa [← Except.ok.inj (hroot.symm.trans hroot')]
          rw [hevent]
          cases delta with
          | none =>
              obtain ⟨_, rfl⟩ := EStateM.Result.ok.inj h
              exact ⟨hdone, fun h => ⟨h, nofun⟩, fun h => h.1⟩
          | some delta =>
              obtain ⟨hsame, hstrings⟩ := onDelta_encodable h
              exact ⟨hsame.trans hdone, hstrings⟩

/-- The events before the end add their strings to the turn. -/
theorem onEvents_encodable {onTextDelta : TextDeltaSink} {events : List Bytes} {s t : StreamState}
    (h : (forM events (onEvent platform onTextDelta) : StreamM Unit).run s = .ok () t) :
    if s.done = true then t = s
    else (TurnEncodable t.turn ↔ TurnEncodable s.turn ∧
      ∀ event ∈ decodedEvents events, EventEncodable event) := by
  induction events generalizing s with
  | nil =>
      obtain ⟨_, rfl⟩ := EStateM.Result.ok.inj h
      split
      · rfl
      · exact ⟨fun h => ⟨h, nofun⟩, fun h => h.1⟩
  | cons event events ih =>
      rw [List.forM_cons] at h
      obtain ⟨_, u, hevent, h⟩ := Programs.ok_of_bind h
      have hevent := onEvent_encodable hevent
      have hrest := ih h
      split
      · next hdone =>
          rw [if_pos hdone] at hevent
          rw [hevent, if_pos hdone] at hrest
          exact hrest
      · next hdone =>
          rw [if_neg hdone] at hevent
          split at hevent
          · next hmarker =>
              obtain ⟨hdone', hturn⟩ := hevent
              rw [if_pos hdone'] at hrest
              have hnone : decodedEvents (event :: events) = [] :=
                List.takeWhile_cons_of_neg (by simp [hmarker])
              rw [hrest, hturn, hnone]
              exact ⟨fun h => ⟨h, nofun⟩, fun h => h.1⟩
          · next hmarker =>
              obtain ⟨hdone', hturn⟩ := hevent
              rw [if_neg (by simp [hdone']), hturn] at hrest
              have hcons : decodedEvents (event :: events) = event :: decodedEvents events :=
                List.takeWhile_cons_of_pos (by simp [hmarker])
              rw [hrest, hcons, List.forall_mem_cons, and_assoc]

/-- What an accepted stream leads to: its events are processed, in order. -/
theorem stream_events {llm : OpenAiCompatibleLlm} {history : List Message}
    {onTextDelta : TextDeltaSink} {turn : LlmTurn} {s t : StreamState}
    (h : (stream platform llm history onTextDelta).run s = .ok turn t) :
    ∃ request, llm.streamRequest history = .ok request ∧
      (forM (SseParser.events (llm.perform request).chunks.flatten) (onEvent platform onTextDelta) :
        StreamM Unit).run s = .ok () t ∧ turn = { t.turn with complete := t.done } := by
  unfold stream at h
  obtain ⟨request, u, hmake, h⟩ := Programs.ok_of_bind h
  obtain ⟨hrequest, rfl⟩ := run_decoding_ok hmake
  refine ⟨request, hrequest, ?_⟩
  dsimp only at h
  obtain ⟨parser, u, hfeed, h⟩ := Programs.ok_of_bind h
  obtain ⟨response, v, hperform, h⟩ := Programs.ok_of_bind h
  obtain ⟨_, rfl⟩ := run_decoding_ok hperform
  split at h
  · contradiction
  obtain ⟨_, w, hfinish, h⟩ := Programs.ok_of_bind h
  obtain ⟨x, y, hget, h⟩ := Programs.ok_of_bind h
  obtain ⟨rfl, rfl⟩ := EStateM.Result.ok.inj hget
  obtain ⟨rfl, rfl⟩ := EStateM.Result.ok.inj h
  refine ⟨?_, rfl⟩
  rw [SseParser.feed_chunks] at hfeed
  rw [← SseParser.feed_finish_eq_events]
  rw [EStateM.run_bind, hfeed]
  exact hfinish

/-! ## sending it back -/

/-- **When a reply can be sent back**: on a history that is accepted, the
request with an accepted reply, of a response or of any stream, is accepted
exactly when no string the reply was decoded from has a control byte the encoder
does not escape. -/
theorem replies_iff (llm : OpenAiCompatibleLlm) (history : List Message) (request : HttpRequest)
    (h : llm.makeRequest history = .ok request) :
    (∀ response turn, parseResponse response = .ok turn →
      ((∃ r, llm.makeRequest (history ++ [Agent.assistantMessage turn.text turn.toolCalls]) = .ok r) ↔
        ∀ root, parseJson response.body = .ok root →
          ∀ s ∈ replyStrings (lit "message") root, Encodable s)) ∧
    ∀ platform client earlier onTextDelta turn t,
      (stream platform client earlier onTextDelta).run {} = .ok turn t →
      ((∃ r, llm.makeRequest (history ++ [Agent.assistantMessage turn.text turn.toolCalls]) = .ok r) ↔
        ∀ sent, client.streamRequest earlier = .ok sent →
          ∀ event ∈ decodedEvents (SseParser.events (client.perform sent).chunks.flatten),
            EventEncodable event) := by
  have hencode (turn : LlmTurn) :
      (∃ r, llm.makeRequest (history ++ [Agent.assistantMessage turn.text turn.toolCalls]) = .ok r) ↔
        TurnEncodable turn := by
    rw [makeRequest_append_iff h, assistantJson_iff, TurnEncodable]
  constructor
  · intro response turn hparse
    obtain ⟨root, hroot, hstrings⟩ := parseResponse_strings hparse
    rw [hencode, TurnEncodable, hstrings]
    refine ⟨?_, fun hall => hall root hroot⟩
    intro hall root' hroot'
    rwa [← Except.ok.inj (hroot.symm.trans hroot')]
  · intro platform client earlier onTextDelta turn t hstream
    obtain ⟨sent, hsent, hrun, rfl⟩ := stream_events hstream
    have hevents := onEvents_encodable hrun
    rw [if_neg (by simp)] at hevents
    have hstart : TurnEncodable ({} : StreamState).turn := by
      intro s hs
      rw [List.mem_singleton.mp hs]
      exact Encodable.nil
    have hturn : TurnEncodable { t.turn with complete := t.done } ↔ TurnEncodable t.turn := Iff.rfl
    rw [hencode, hturn, hevents]
    constructor
    · intro hall sent' hsent'
      rw [← Except.ok.inj (hsent.symm.trans hsent')]
      exact hall.2
    · exact fun hall => ⟨hstart, hall sent hsent⟩

/-- A client without tools. -/
def withoutTools : OpenAiCompatibleLlm where
  config := { model := lit "test-model" }
  perform := fun _ => ⟨[], .ok { status := 200 }⟩
  model_ne := testModel_ne

/-- The response with a content, as it is spelled in the body. -/
def contentResponse (content : Bytes) : HttpResponse where
  status := 200
  body := lit "\x7b\"choices\":[\x7b\"message\":\x7b\"content\":" ++ content ++ lit "\x7d\x7d]\x7d"

/-- A greeting is encoded. -/
theorem withoutTools_request :
    ∃ request, withoutTools.makeRequest [Agent.userMessage (lit "hello")] = .ok request :=
  makeRequest_iff.mpr ⟨⟨_, rfl⟩, List.forall_mem_singleton.mpr ⟨_, rfl⟩, ⟨_, rfl⟩⟩

theorem replies_iff_plain :
    ∃ turn, parseResponse (contentResponse (lit "\"hi\"")) = .ok turn ∧
      ∃ r, withoutTools.makeRequest ([Agent.userMessage (lit "hello")] ++
        [Agent.assistantMessage turn.text turn.toolCalls]) = .ok r := by
  obtain ⟨request, hrequest⟩ := withoutTools_request
  have hparse : parseResponse (contentResponse (lit "\"hi\"")) = .ok { text := lit "hi" } := rfl
  refine ⟨_, hparse, ((replies_iff _ _ request hrequest).1 _ _ hparse).mpr ?_⟩
  intro root hroot
  have hdocument : parseJson (contentResponse (lit "\"hi\"")).body = .ok (.object
      [(lit "choices", .array [.object [(lit "message", .object
        [(lit "content", .string (lit "hi"))])]])]) := rfl
  rw [← Except.ok.inj (hdocument.symm.trans hroot)]
  show ∀ s ∈ [lit "hi"], Encodable s
  rw [List.forall_mem_singleton]
  decide

/-- A backspace in a reply is in the way of every later request. -/
theorem control_byte_poisons :
    ∃ turn, parseResponse (contentResponse (lit "\"\\b\"")) = .ok turn ∧
      (∃ request, withoutTools.makeRequest [Agent.userMessage (lit "hello")] = .ok request) ∧
      ∀ later, ¬ ∃ r, withoutTools.makeRequest ([Agent.userMessage (lit "hello")] ++
        Agent.assistantMessage turn.text turn.toolCalls :: later) = .ok r := by
  refine ⟨{ text := [0x08] }, rfl, withoutTools_request, ?_⟩
  intro later hrequest
  obtain ⟨_, hmessages, _⟩ := makeRequest_iff.mp hrequest
  have hmessage := hmessages (Agent.assistantMessage [0x08] []) (by simp)
  have hstrings := (assistantJson_iff { text := [0x08] }).mp hmessage
  have hcontent : Encodable [0x08] := hstrings [0x08] List.mem_cons_self
  have hbyte := hcontent 0x08 List.mem_cons_self
  revert hbyte
  decide

end OpenAiCompatibleLlm

end ByteTurn

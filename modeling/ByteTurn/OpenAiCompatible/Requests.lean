import ByteTurn.OpenAiCompatible.Encoding

/-!
# ByteTurn.OpenAiCompatible.Requests

What a server that reads the request gets back.

The body of a request, and the body of a streamed one, is a JSON text `parseJson`
accepts, and its `messages` decode to the history, as far as a message is sent
at all (`SentMessage`).  The tools' parameters are pasted into the body, so it is
not enough that they are JSON texts: one may have a number no double can hold, or
half of a surrogate pair, and then the parser throws on the body.
-/

namespace ByteTurn

/-! ## reading a request back -/

/-- What of a message is sent. -/
structure SentMessage where
  role : Role
  content : Bytes
  /-- Sent for a `Tool` message. -/
  toolCallId : Option Bytes
  toolCalls : List ToolCall
  deriving DecidableEq, Repr

/-- What is sent of a message of the history. -/
def Message.sent (message : Message) : SentMessage where
  role := message.role
  content := message.content
  toolCallId := if message.role = .tool then some message.toolCallId else none
  toolCalls := message.toolCalls

/-- A string field. -/
def stringField (j : Json) (key : Bytes) : Option Bytes :=
  match j.find key with
  | some (.string value) => some value
  | _ => none

/-- The role of a name. -/
def readRole (name : Bytes) : Option Role :=
  [Role.system, Role.user, Role.assistant, Role.tool].find? (roleName · = name)

/-- Read an element of `tool_calls`. -/
def readToolCall (j : Json) : Option ToolCall := do
  let function ← j.find (lit "function")
  let id ← stringField j (lit "id")
  let name ← stringField function (lit "name")
  let arguments ← stringField function (lit "arguments")
  some ⟨id, name, arguments⟩

/-- Read an element of `messages`. -/
def readMessage (j : Json) : Option SentMessage := do
  let name ← stringField j (lit "role")
  let role ← readRole name
  let content ← stringField j (lit "content")
  let toolCalls ← match j.find (lit "tool_calls") with
    | none => some []
    | some (.array items) => items.mapM readToolCall
    | some _ => none
  some ⟨role, content, stringField j (lit "tool_call_id"), toolCalls⟩

/-- Read the messages of a request. -/
def readMessages (root : Json) : Option (List SentMessage) :=
  match root.find (lit "messages") with
  | some (.array items) => items.mapM readMessage
  | _ => none

/-- The parser accepts the body, and its messages are those of the history. -/
def Conveys (body : Bytes) (history : List Message) : Prop :=
  ∃ root, parseJson body = .ok root ∧ readMessages root = some (history.map Message.sent)

theorem readToolCall_document (call : ToolCall) : readToolCall (toolCallDocument call) = some call :=
  rfl

theorem mapM_map_some {α β γ : Type} {f : β → Option γ} {g : α → β} {h : α → γ}
    (hfg : ∀ a, f (g a) = some (h a)) (l : List α) : (l.map g).mapM f = some (l.map h) := by
  induction l with
  | nil => rfl
  | cons a l ih =>
      rw [List.map_cons, List.mapM_cons, hfg, ih]
      rfl

theorem readMessage_document (message : Message) :
    readMessage (messageDocument message) = some message.sent := by
  obtain ⟨role, content, name, toolCalls, toolCallId⟩ := message
  have hcalls := mapM_map_some readToolCall_document toolCalls
  rw [List.map_id'] at hcalls
  cases toolCalls with
  | nil => cases role <;> rfl
  | cons call rest =>
      have hread (id : Option Bytes) : (do
          let toolCalls ← ((call :: rest).map toolCallDocument).mapM readToolCall
          some (⟨role, content, id, toolCalls⟩ : SentMessage)) =
            some ⟨role, content, id, call :: rest⟩ := by
        rw [hcalls]
        rfl
      cases role with
      | tool => exact hread (some toolCallId)
      | system | user | assistant => exact hread none

theorem conveys_of_fields {texts : List Bytes} {config : OpenAiCompatibleConfig}
    {history : List Message} {fields : List (Bytes × Json)}
    (h : List.Forall₂ decodableLexis.Field texts ((lit "model", .string config.model) ::
      (lit "messages", .array (history.map messageDocument)) :: fields)) :
    JsonText (objectJson texts) ∧ Conveys (objectJson texts) history := by
  have hreads := JsonLexis.reads_object h
  exact ⟨jsonText_of_decodable hreads, _, parse_of_decodable hreads,
    mapM_map_some readMessage_document history⟩

namespace OpenAiCompatibleLlm

theorem makeRequest_body {llm : OpenAiCompatibleLlm} {history : List Message} {request : HttpRequest}
    (h : llm.makeRequest history = .ok request) :
    requestBody llm.config history = .ok request.body := by
  obtain ⟨body, hbody, h⟩ := bind_ok h
  rw [hbody, ← Except.ok.inj h]

/-- **Requests are faithful**: the body of an accepted history, streamed or not,
is a JSON text, the parser accepts it, and reading its messages gives the history
back, for every finite temperature and every tool whose parameters are JSON with
numbers a double can hold and no half of a surrogate pair. -/
theorem requests_convey (llm : OpenAiCompatibleLlm) (history : List Message) (request : HttpRequest)
    (hfinite : llm.config.temperature.IsFinite)
    (htools : ∀ tool ∈ llm.config.tools, ∃ j, decodableLexis.Reads tool.parametersJson j)
    (h : llm.makeRequest history = .ok request) :
    (JsonText request.body ∧ Conveys request.body history) ∧
      ∃ streamed, llm.streamRequest history = .ok streamed ∧
        JsonText streamed.body ∧ Conveys streamed.body history := by
  obtain ⟨texts, fields, hbody, hne, hfields⟩ :=
    requestBody_fields hfinite htools (makeRequest_body h)
  have hstream : decodableLexis.Field (fieldJson (lit "stream") (lit "true"))
      (lit "stream", .bool true) := field_fieldJson rfl .true
  have hstreamed := List.rel_append hfields (.cons hstream .nil)
  constructor
  · rw [hbody]
    exact conveys_of_fields hfields
  · refine ⟨_, by rw [streamRequest, h]; rfl, ?_⟩
    dsimp only
    rw [hbody, streamed_objectJson hne]
    exact conveys_of_fields hstreamed

/-- A client with one tool. -/
def withTool (parameters : Bytes) : OpenAiCompatibleLlm where
  config := {
    model := lit "test-model"
    tools := [{ name := lit "lookup", description := lit "Look up a value", parametersJson := parameters }]
    temperature := .finite false 0 }
  perform := fun _ => ⟨[], .ok { status := 200 }⟩
  model_ne := testModel_ne

theorem withTool_finite (parameters : Bytes) : (withTool parameters).config.temperature.IsFinite := by
  constructor
  · exact le_refl 0
  · exact sub_nonneg.mpr (pow_le_pow_right₀ (by norm_num) (by omega))

/-- A history with a tool call and its result. -/
def lookupHistory : List Message :=
  [⟨.system, lit "a\"b\\c\n\t", [], [], []⟩,
    ⟨.assistant, [], [], [⟨lit "call1", lit "lookup", lit "\x7b\"x\":1\x7d"⟩], []⟩,
    ⟨.tool, lit "ok", lit "lookup", [], lit "call1"⟩]

/-- The parameters of the tool. -/
def lookupParameters : Bytes := lit "\x7b\"type\":\"object\"\x7d"

theorem lookupParameters_decodable : ∃ j, decodableLexis.Reads lookupParameters j := by
  have htype : decodableLexis.Field (fieldJson (lit "type") (quoted (lit "object")))
      (lit "type", .string (lit "object")) := field_fieldJson rfl (reads_quoted rfl)
  have hobject := JsonLexis.reads_object (.cons htype .nil)
  exact ⟨_, hobject⟩

theorem requests_convey_lookup :
    ∃ request, (withTool lookupParameters).makeRequest lookupHistory = .ok request ∧
      JsonText request.body ∧ Conveys request.body lookupHistory := by
  have hok : ((withTool lookupParameters).makeRequest lookupHistory).toOption.isSome = true := by
    decide +kernel
  cases h : (withTool lookupParameters).makeRequest lookupHistory with
  | error e => rw [h] at hok; contradiction
  | ok request =>
      have htools (tool : ToolDefinition)
          (htool : tool ∈ (withTool lookupParameters).config.tools) :
          ∃ j, decodableLexis.Reads tool.parametersJson j := by
        rw [List.mem_singleton.mp htool]
        exact lookupParameters_decodable
      exact ⟨request, rfl, (requests_convey _ _ request (withTool_finite _) htools h).1⟩

/-- A number that no double can hold follows the grammar. -/
theorem jsonText_huge : JsonText (lit "1e400") := by
  have hwhole : JsonDigits [0x31] := ⟨List.cons_ne_nil _ _, List.all_eq_true.mp rfl⟩
  have hdigits : JsonDigits [0x34, 0x30, 0x30] := ⟨List.cons_ne_nil _ _, List.all_eq_true.mp rfl⟩
  have hexponent : JsonExponent (0x65 :: ([] ++ [0x34, 0x30, 0x30])) :=
    .some (.inl rfl) (.inl rfl) hdigits
  have hnumber : JsonNumber ([] ++ ([0x31] ++ ([] ++ (0x65 :: ([] ++ [0x34, 0x30, 0x30]))))) :=
    .mk (.inl rfl) hwhole (by decide) .none hexponent
  exact .number hnumber

/-- So does half of a surrogate pair. -/
theorem jsonText_surrogate : JsonText (lit "\"\\ud800\"") := by
  have hstring : JsonString (backslash :: 0x75 :: (lit "d800" ++ [])) :=
    .unicode rfl (List.all_eq_true.mp rfl) .nil
  exact .string hstring

/-- The parser throws on the body. -/
theorem not_conveys_of_rejected {parameters : Bytes}
    (hreject : (match (withTool parameters).makeRequest [] with
      | .ok request => (parseJson request.body).toOption.isNone
      | .error _ => false) = true) :
    ∃ request, (withTool parameters).makeRequest [] = .ok request ∧ ¬ Conveys request.body [] := by
  cases h : (withTool parameters).makeRequest [] with
  | error e => rw [h] at hreject; contradiction
  | ok request =>
      rw [h] at hreject
      refine ⟨request, rfl, ?_⟩
      rintro ⟨root, hroot, _⟩
      dsimp only at hreject
      rw [hroot] at hreject
      contradiction

/-- Parameters that follow the grammar do not suffice: one number, or one string. -/
theorem huge_parameters_rejected :
    ((∀ tool ∈ (withTool (lit "1e400")).config.tools, JsonText tool.parametersJson) ∧
      ∃ request, (withTool (lit "1e400")).makeRequest [] = .ok request ∧
        ¬ Conveys request.body []) ∧
    ((∀ tool ∈ (withTool (lit "\"\\ud800\"")).config.tools, JsonText tool.parametersJson) ∧
      ∃ request, (withTool (lit "\"\\ud800\"")).makeRequest [] = .ok request ∧
        ¬ Conveys request.body []) := by
  refine ⟨⟨fun tool htool => ?_, not_conveys_of_rejected (by decide +kernel)⟩,
    ⟨fun tool htool => ?_, not_conveys_of_rejected (by decide +kernel)⟩⟩
  · rw [List.mem_singleton.mp htool]
    exact jsonText_huge
  · rw [List.mem_singleton.mp htool]
    exact jsonText_surrogate

end OpenAiCompatibleLlm

end ByteTurn

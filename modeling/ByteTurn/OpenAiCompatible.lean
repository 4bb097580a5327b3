import ByteTurn.Json
import ByteTurn.Lib.Table

/-!
# ByteTurn.OpenAiCompatible

The OpenAI-compatible model client (`openai_compatible.h`,
`openai_compatible.cpp`): the request encoder, the response decoder and the SSE
stream.

The transport is outside.  For a request it passes chunks to the body sink and
then returns a response or fails (`Transfer`); an exception of the body sink
ends the transfer and is what `stream` fails with, whatever the transport would
have done next.

So is what the language leaves to the platform where `stream` takes an index off
the wire (`Platform`): the cast of a number beyond `std::size_t`, and whether
there is room for so many calls.
-/

namespace ByteTurn

/-! ## the encoder -/

/-- One byte of `escape`. -/
def escapeByte (b : UInt8) : Except Exception Bytes :=
  if b = quote then .ok [backslash, quote]
  else if b = backslash then .ok [backslash, backslash]
  else if b = 0x0a then .ok [backslash, 0x6e]
  else if b = 0x0d then .ok [backslash, 0x72]
  else if b = 0x09 then .ok [backslash, 0x74]
  else if b < 0x20 then .error (lit "control character in JSON string")
  else .ok [b]

/-- `escape` -/
def escape : Bytes → Except Exception Bytes
  | [] => .ok []
  | b :: rest => do
      let first ← escapeByte b
      let result ← escape rest
      .ok (first ++ result)

/-- `role_name` -/
def roleName : Role → Bytes
  | .system => lit "system"
  | .user => lit "user"
  | .assistant => lit "assistant"
  | .tool => lit "tool"

/-- An element of `tool_calls` in `message_json`. -/
def toolCallJson (call : ToolCall) : Except Exception Bytes := do
  let id ← escape call.id
  let name ← escape call.name
  let arguments ← escape call.arguments
  .ok (lit "\x7b\"id\":\"" ++ id ++ lit "\",\"type\":\"function\",\"function\":\x7b\"name\":\"" ++
    name ++ lit "\",\"arguments\":\"" ++ arguments ++ lit "\"\x7d\x7d")

/-- The `tool_call_id` of a `Tool` message. -/
def toolCallIdJson (message : Message) : Except Exception Bytes :=
  if message.role = .tool then do
    let id ← escape message.toolCallId
    .ok (lit ",\"tool_call_id\":\"" ++ id ++ lit "\"")
  else .ok []

/-- The `tool_calls` of a message that has some. -/
def toolCallsJson (calls : List ToolCall) : Except Exception Bytes :=
  if calls = [] then .ok []
  else do
    let items ← calls.mapM toolCallJson
    .ok (lit ",\"tool_calls\":[" ++ joined items ++ lit "]")

/-- `message_json` -/
def messageJson (message : Message) : Except Exception Bytes := do
  let out := lit "\x7b\"role\":\"" ++ roleName message.role ++ lit "\""
  let toolCallId ← toolCallIdJson message
  let content ← escape message.content
  let toolCalls ← toolCallsJson message.toolCalls
  .ok (out ++ toolCallId ++ lit ",\"content\":\"" ++ content ++ lit "\"" ++ toolCalls ++ lit "\x7d")

/-! ## the client and its requests -/

/-- `ToolDefinition` -/
structure ToolDefinition where
  name : Bytes
  description : Bytes
  parametersJson : Bytes := lit "\x7b\"type\":\"object\",\"properties\":\x7b\x7d\x7d"

/-- `OpenAiCompatibleConfig`; the default temperature is the double next to 0.2. -/
structure OpenAiCompatibleConfig where
  baseUrl : Bytes := lit "https://api.openai.com/v1"
  apiKey : Bytes := []
  model : Bytes
  tools : List ToolDefinition := []
  temperature : Double := .finite false (3602879701896397 / 2 ^ 54)

/-- `HttpRequest`, but for its callbacks. -/
structure HttpRequest where
  method : Bytes
  url : Bytes
  headers : Table Bytes Bytes
  body : Bytes

/-- What the client reads of an `HttpResponse`. -/
structure HttpResponse where
  status : Int
  body : Bytes := []

/-- What a transport does with a request: the chunks it passes to the body sink,
and what `perform` ends with. -/
structure Transfer where
  chunks : List Bytes
  result : Except Exception HttpResponse

/-- `OpenAiCompatibleLlm`: a configuration its constructor accepted, and the
transport. -/
structure OpenAiCompatibleLlm where
  config : OpenAiCompatibleConfig
  perform : HttpRequest → Transfer
  model_ne : config.model ≠ []

/-- An element of `tools`. -/
def toolJson (tool : ToolDefinition) : Except Exception Bytes := do
  let name ← escape tool.name
  let description ← escape tool.description
  .ok (lit "\x7b\"type\":\"function\",\"function\":\x7b\"name\":\"" ++ name ++
    lit "\",\"description\":\"" ++ description ++ lit "\",\"parameters\":" ++
    tool.parametersJson ++ lit "\x7d\x7d")

/-- The `tools` of a configuration that has some. -/
def toolsJson (tools : List ToolDefinition) : Except Exception Bytes :=
  if tools = [] then .ok []
  else do
    let items ← tools.mapM toolJson
    .ok (lit ",\"tools\":[" ++ joined items ++ lit "]")

/-- The decimal form of an integer. -/
def statusText (n : Int) : Bytes := lit (toString n)

namespace OpenAiCompatibleLlm

/-- `OpenAiCompatibleLlm::OpenAiCompatibleLlm` -/
def construct (config : OpenAiCompatibleConfig) (perform : HttpRequest → Transfer) :
    Except Exception OpenAiCompatibleLlm :=
  if h : config.model = [] then .error (lit "model is required")
  else .ok ⟨config, perform, h⟩

/-- The body of a request. -/
def requestBody (config : OpenAiCompatibleConfig) (history : List Message) :
    Except Exception Bytes := do
  let model ← escape config.model
  let messages ← history.mapM messageJson
  let tools ← toolsJson config.tools
  .ok (lit "\x7b\"model\":\"" ++ model ++ lit "\",\"messages\":[" ++ joined messages ++
    lit "],\"temperature\":" ++ config.temperature.toFixed ++ tools ++ lit "\x7d")

/-- `make_request` -/
def makeRequest (llm : OpenAiCompatibleLlm) (history : List Message) :
    Except Exception HttpRequest := do
  let body ← requestBody llm.config history
  let base := (llm.config.baseUrl.reverse.dropWhile (· = 0x2f)).reverse
  let headers := (∅ : Table Bytes Bytes).insert (lit "Content-Type") (lit "application/json")
  .ok {
    method := lit "POST"
    url := base ++ lit "/chat/completions"
    headers := if llm.config.apiKey = [] then headers
      else headers.insert (lit "Authorization") (lit "Bearer " ++ llm.config.apiKey)
    body := body }

/-! ## the response -/

/-- An element of a response's `tool_calls`. -/
def responseToolCall (item : Json) : Except Exception ToolCall := do
  let function ← item.at' (lit "function")
  let id ← item.at' (lit "id")
  let name ← function.at' (lit "name")
  let arguments ← function.at' (lit "arguments")
  .ok ⟨id.stringOrEmpty, name.stringOrEmpty, arguments.stringOrEmpty⟩

/-- The `tool_calls` of a response. -/
def responseToolCalls (message : Json) : Except Exception (List ToolCall) := do
  let toolCalls ← message.at' (lit "tool_calls")
  let items ← toolCalls.items
  items.mapM responseToolCall

/-- `parse_response` -/
def parseResponse (response : HttpResponse) : Except Exception LlmTurn := do
  if response.status < 200 ∨ 300 ≤ response.status then
    throw (lit "LLM HTTP status " ++ statusText response.status)
  let root ← parseJson response.body
  let choices ← root.at' (lit "choices")
  let choices ← choices.items
  match choices with
  | [] => throw (lit "LLM response has no choices")
  | front :: _ => do
      let message ← front.at' (lit "message")
      let content ← message.at' (lit "content")
      -- only the lookup of `tool_calls` throws this text, and then no call has been read
      match responseToolCalls message with
      | .ok toolCalls => .ok { text := content.stringOrEmpty, toolCalls := toolCalls }
      | .error e =>
          if lit "missing JSON field: tool_calls" <:+: e then .ok { text := content.stringOrEmpty }
          else .error e

/-- `complete` -/
def complete (llm : OpenAiCompatibleLlm) (history : List Message) : Except Exception LlmTurn := do
  let request ← llm.makeRequest history
  let response ← (llm.perform request).result
  parseResponse response

end OpenAiCompatibleLlm

/-! ## the event stream -/

/-- `SseParser`: the bytes after the last newline, and the pending data lines. -/
structure SseParser where
  buffer : Bytes := []
  data : Bytes := []
  deriving DecidableEq, Repr

namespace SseParser

/-- The newline byte. -/
def newline : UInt8 := 0x0a

/-- The first line of a text, without its newline, and what follows. -/
def cutLine (text : Bytes) : Option (Bytes × Bytes) :=
  if newline ∈ text then
    some (text.takeWhile (· ≠ newline), (text.dropWhile (· ≠ newline)).drop 1)
  else none

/-- A line without a carriage return at its end. -/
def dropReturn (line : Bytes) : Bytes := if line.getLast? = some 0x0d then line.dropLast else line

section Sink

variable {m : Type → Type} [Monad m] (sink : Bytes → m Unit)

/-- `dispatch`, from the pending data to what is pending after it. -/
def dispatch (data : Bytes) : m Bytes := do
  if data = [] then pure []
  else
    sink data
    pure []

/-- `process_line`, from the pending data to what is pending after it. -/
def processLine (data line : Bytes) : m Bytes := do
  if line = [] then dispatch sink data
  else if ¬ lit "data:" <+: line then pure data
  else
    let value := line.drop 5
    let value := if value.head? = some 0x20 then value.drop 1 else value
    let data := if data = [] then data else data ++ [newline]
    pure (data ++ value)

/-- The loop of `feed`. -/
def feedLines : Nat → SseParser → m SseParser
  | 0, p => pure p
  | fuel + 1, p => match cutLine p.buffer with
    | none => pure p
    | some (line, rest) => do
        let data ← processLine sink p.data (dropReturn line)
        feedLines fuel ⟨rest, data⟩

/-- `feed`; each round of its loop takes a byte at least. -/
def feed (p : SseParser) (bytes : Bytes) : m SseParser :=
  feedLines sink ((p.buffer ++ bytes).length + 1) { p with buffer := p.buffer ++ bytes }

/-- `finish` -/
def finish (p : SseParser) : m Unit := do
  let data ← if p.buffer = [] then pure p.data else processLine sink p.data (dropReturn p.buffer)
  let _ ← dispatch sink data

end Sink

end SseParser

/-- What `stream` has decoded, and the texts it has passed to `on_text_delta`. -/
structure StreamState where
  turn : LlmTurn := { text := [] }
  done : Bool := false
  texts : List Bytes := []
  deriving DecidableEq, Repr

/-- A part of `stream`: it may throw, and what it has passed on stays passed on. -/
abbrev StreamM := EStateM Exception StreamState

/-- What `std::vector::resize` throws, with the texts of libstdc++. -/
inductive ResizeFailure where
  | lengthError
  | badAlloc
  deriving DecidableEq, Repr

/-- `what()` -/
def ResizeFailure.what : ResizeFailure → Exception
  | .lengthError => lit "vector::_M_default_append"
  | .badAlloc => lit "std::bad_alloc"

/-- What the language and the library leave to the platform of a run. -/
structure Platform where
  /-- `static_cast<std::size_t>` of a number it cannot hold.  The last size is left
  out: one more is zero, and the call at that index is beyond every vector. -/
  tooLarge : Double → Fin (2 ^ 64 - 1)
  /-- What `resize` of the calls to a larger size throws, if there is no room; a
  stream asks for no size twice. -/
  resizeFailure : Nat → Option ResizeFailure

/-- `TextDeltaSink`; it may remember the texts before. -/
abbrev TextDeltaSink := List Bytes → Bytes → Except Exception Bool

namespace OpenAiCompatibleLlm

/-- A decoder that knows nothing of the stream. -/
def decoding {α : Type} (x : Except Exception α) : StreamM α :=
  match x with
  | .ok a => pure a
  | .error e => throw e

/-- A text delta. -/
def onText (onTextDelta : TextDeltaSink) (text : Bytes) : StreamM Unit := do
  if text ≠ [] then
    let s ← get
    set { s with turn.text := s.turn.text ++ text, texts := s.texts ++ [text] }
    let accepted ← decoding (onTextDelta s.texts text)
    if !accepted then throw (lit "LLM stream consumer stopped")

/-- A field of a tool-call fragment. -/
def fragmentText (item : Json) (key : Bytes) : Bytes :=
  match item.find key with
  | some value => value.stringOrEmpty
  | none => []

/-- A field of a fragment's `function`. -/
def functionText (item : Json) (key : Bytes) : Bytes :=
  match item.find (lit "function") with
  | some function => fragmentText function key
  | none => []

/-- The index of a tool-call fragment. -/
def fragmentIndex (platform : Platform) (item : Json) : Nat :=
  match item.find (lit "index") with
  | some index => index.indexOrZero fun d => platform.tooLarge d
  | none => 0

/-- `resize`, to more calls than there are. -/
def resizeCalls (platform : Platform) (calls : List ToolCall) (size : Nat) :
    Except Exception (List ToolCall) :=
  match platform.resizeFailure size with
  | some failure => .error failure.what
  | none => .ok (calls ++ List.replicate (size - calls.length) ⟨[], [], []⟩)

/-- A tool-call fragment: it extends the call at its index. -/
def addFragment (platform : Platform) (calls : List ToolCall) (item : Json) :
    Except Exception (List ToolCall) := do
  let i := fragmentIndex platform item
  let calls ← if calls.length ≤ i then resizeCalls platform calls (i + 1) else .ok calls
  .ok (calls.modify i fun call => {
    id := call.id ++ fragmentText item (lit "id")
    name := call.name ++ functionText item (lit "name")
    arguments := call.arguments ++ functionText item (lit "arguments") })

/-- A tool-call fragment of a delta. -/
def onFragment (platform : Platform) (item : Json) : StreamM Unit := do
  let s ← get
  let calls ← decoding (addFragment platform s.turn.toolCalls item)
  set { s with turn.toolCalls := calls }

/-- The tool-call fragments of a delta. -/
def onToolCalls (platform : Platform) (delta : Json) : StreamM Unit := do
  match delta.find (lit "tool_calls") with
  | none => pure ()
  | some calls => do
      let items ← decoding calls.items
      forM items (onFragment platform)

/-- The delta of an event. -/
def onDelta (platform : Platform) (onTextDelta : TextDeltaSink) (delta : Json) : StreamM Unit := do
  match delta.find (lit "content") with
  | none => pure ()
  | some content => onText onTextDelta content.stringOrEmpty
  onToolCalls platform delta

/-- The delta of a document, if it has one. -/
def deltaOf (root : Json) : Except Exception (Option Json) :=
  match root.find (lit "choices") with
  | none => .ok none
  | some choices => do
      let items ← choices.items
      match items with
      | [] => .ok none
      | front :: _ => .ok (front.find (lit "delta"))

/-- The event sink of `stream`. -/
def onEvent (platform : Platform) (onTextDelta : TextDeltaSink) (event : Bytes) :
    StreamM Unit := do
  let s ← get
  if s.done then pure ()
  else if event = lit "[DONE]" then set { s with done := true }
  else
    let root ← decoding (parseJson event)
    let delta ← decoding (deltaOf root)
    match delta with
    | none => pure ()
    | some delta => onDelta platform onTextDelta delta

/-- The request of `stream`. -/
def streamRequest (llm : OpenAiCompatibleLlm) (history : List Message) :
    Except Exception HttpRequest := do
  let request ← llm.makeRequest history
  .ok { request with
    body := request.body.dropLast ++ lit ",\"stream\":true\x7d"
    headers := request.headers.insert (lit "Accept") (lit "text/event-stream") }

/-- `stream` -/
def stream (platform : Platform) (llm : OpenAiCompatibleLlm) (history : List Message)
    (onTextDelta : TextDeltaSink) : StreamM LlmTurn := do
  let request ← decoding (llm.streamRequest history)
  let transfer := llm.perform request
  let parser ← transfer.chunks.foldlM (SseParser.feed (onEvent platform onTextDelta)) {}
  let response ← decoding transfer.result
  if response.status < 200 ∨ 300 ≤ response.status then
    throw (lit "LLM HTTP status " ++ statusText response.status)
  SseParser.finish (onEvent platform onTextDelta) parser
  let s ← get
  pure { s.turn with complete := s.done }

end OpenAiCompatibleLlm

end ByteTurn

import ByteTurn.Json.Decodable
import ByteTurn.OpenAiCompatible

/-!
# ByteTurn.OpenAiCompatible.Encoding

What the encoder's texts stand for.

`escape` succeeds on the strings without a control byte it has no escape for
(`Encodable`), and the escaped text between quotes stands for the string itself.
Every text the encoder puts together is then JSON that stands for a document
(`decodableLexis`): `messageDocument`, `toolDocument` and the fields of a request
(`requestBody_fields`).
-/

namespace ByteTurn

/-! ## strings -/

/-- Without a control byte, but for a newline, a return and a tab. -/
def Encodable (s : Bytes) : Prop := ∀ b ∈ s, 0x20 ≤ b ∨ b = 0x0a ∨ b = 0x0d ∨ b = 0x09

instance (s : Bytes) : Decidable (Encodable s) := List.decidableBAll _ s

theorem Encodable.append_iff {s t : Bytes} : Encodable (s ++ t) ↔ Encodable s ∧ Encodable t :=
  List.forall_mem_append

theorem Encodable.nil : Encodable [] := nofun

theorem escapeByte_iff {b : UInt8} :
    (∃ text, escapeByte b = .ok text) ↔ (0x20 ≤ b ∨ b = 0x0a ∨ b = 0x0d ∨ b = 0x09) := by
  unfold escapeByte
  by_cases hquote : b = quote
  · subst hquote; simp [quote]
  by_cases hbackslash : b = backslash
  · subst hbackslash; simp [quote, backslash]
  rw [if_neg hquote, if_neg hbackslash]
  by_cases hnewline : b = 0x0a
  · simp [hnewline]
  by_cases hreturn : b = 0x0d
  · simp [hreturn]
  by_cases htab : b = 0x09
  · simp [htab]
  simp only [hnewline, hreturn, htab, if_false, or_false]
  by_cases hcontrol : b < 0x20
  · rw [if_pos hcontrol]
    simp [UInt8.not_le.mpr hcontrol]
  · rw [if_neg hcontrol]
    simp [UInt8.not_lt.mp hcontrol]

/-- `escape` throws on the other control bytes only. -/
theorem escape_iff {s : Bytes} : (∃ text, escape s = .ok text) ↔ Encodable s := by
  induction s with
  | nil => exact ⟨fun _ => Encodable.nil, fun _ => ⟨[], rfl⟩⟩
  | cons b s ih =>
      constructor
      · rintro ⟨text, h⟩
        obtain ⟨first, hfirst, h⟩ := bind_ok h
        obtain ⟨result, hresult, _⟩ := bind_ok h
        have hb := escapeByte_iff.mp ⟨first, hfirst⟩
        have hs := ih.mp ⟨result, hresult⟩
        exact List.forall_mem_cons.mpr ⟨hb, hs⟩
      · intro h
        obtain ⟨hb, hs⟩ := List.forall_mem_cons.mp h
        obtain ⟨first, hfirst⟩ := escapeByte_iff.mpr hb
        obtain ⟨result, hresult⟩ := ih.mpr hs
        exact ⟨first ++ result, by rw [escape, hfirst, hresult]; rfl⟩

theorem plain_letter {letter : UInt8} (h : 0x20 ≤ letter) : ∀ c ∈ [backslash, letter], 0x20 ≤ c :=
  List.forall_mem_cons.mpr ⟨by decide, List.forall_mem_singleton.mpr h⟩

/-- An escaped byte is read in one round, and has no control byte left. -/
theorem unit_escapeByte {b : UInt8} {text : Bytes} (h : escapeByte b = .ok text) :
    StringUnit text [b] ∧ ∀ c ∈ text, 0x20 ≤ c := by
  unfold escapeByte at h
  split_ifs at h with hquote hbackslash hnewline hreturn htab hcontrol <;>
    rw [← Except.ok.inj h]
  · exact ⟨.letter (by rw [hquote]; rfl), plain_letter (by decide)⟩
  · exact ⟨.letter (by rw [hbackslash]; rfl), plain_letter (by decide)⟩
  · exact ⟨.letter (by rw [hnewline]; rfl), plain_letter (by decide)⟩
  · exact ⟨.letter (by rw [hreturn]; rfl), plain_letter (by decide)⟩
  · exact ⟨.letter (by rw [htab]; rfl), plain_letter (by decide)⟩
  · exact ⟨.byte hquote hbackslash, List.forall_mem_singleton.mpr (UInt8.not_lt.mp hcontrol)⟩

/-- **Escaping is undone**: the escaped text is a JSON string that stands for the
string it was. -/
theorem characters_escape {s text : Bytes} (h : escape s = .ok text) :
    decodableLexis.characters text s := by
  have hunits : ∃ texts, text = texts.flatten ∧
      List.Forall₂ StringUnit texts (s.map fun b => [b]) ∧ ∀ c ∈ texts.flatten, 0x20 ≤ c := by
    induction s generalizing text with
    | nil => exact ⟨[], (Except.ok.inj h).symm, .nil, nofun⟩
    | cons b s ih =>
        obtain ⟨first, hfirst, h⟩ := bind_ok h
        obtain ⟨result, hresult, h⟩ := bind_ok h
        obtain ⟨texts, rfl, hall, hplain⟩ := ih hresult
        obtain ⟨hunit, hprintable⟩ := unit_escapeByte hfirst
        exact ⟨first :: texts, (Except.ok.inj h).symm, .cons hunit hall,
          List.forall_mem_append.mpr ⟨hprintable, hplain⟩⟩
  obtain ⟨texts, rfl, hall, hplain⟩ := hunits
  have hcharacters := characters_of_units hall hplain
  rwa [← List.flatMap_def, List.flatMap_singleton'] at hcharacters

/-! ## texts of documents -/

/-- A field whose key needs no escape. -/
theorem field_fieldJson {key text : Bytes} {j : Json} (hkey : escape key = .ok key)
    (h : decodableLexis.Reads text j) : decodableLexis.Field (fieldJson key text) (key, j) :=
  JsonLexis.field_mk (characters_escape hkey) h

theorem reads_quoted {s text : Bytes} (h : escape s = .ok text) :
    decodableLexis.Reads (quoted text) (.string s) :=
  .string (characters_escape h)

/-- The results of a loop that may throw. -/
theorem forall₂_of_mapM {α β : Type} {f : α → Except Exception β} {R : β → α → Prop}
    (hf : ∀ a b, f a = .ok b → R b a) {l : List α} {results : List β}
    (h : l.mapM f = .ok results) : List.Forall₂ R results l := by
  induction l generalizing results with
  | nil =>
      rw [← Except.ok.inj h]
      exact .nil
  | cons a l ih =>
      rw [List.mapM_cons] at h
      obtain ⟨b, hb, h⟩ := bind_ok h
      obtain ⟨rest, hrest, h⟩ := bind_ok h
      rw [← Except.ok.inj h]
      exact .cons (hf a b hb) (ih hrest)

theorem reads_of_mapM {α : Type} {f : α → Except Exception Bytes} {document : α → Json}
    (hf : ∀ a text, f a = .ok text → decodableLexis.Reads text (document a)) {l : List α}
    {texts : List Bytes} (h : l.mapM f = .ok texts) :
    decodableLexis.Reads (arrayJson texts) (.array (l.map document)) := by
  have hall := forall₂_of_mapM (R := fun text a => decodableLexis.Reads text (document a)) hf h
  exact JsonLexis.reads_array (List.forall₂_map_right_iff.mpr hall)

/-! ## messages -/

/-- A tool call of the history, as it is sent. -/
def toolCallDocument (call : ToolCall) : Json :=
  .object [(lit "id", .string call.id), (lit "type", .string (lit "function")),
    (lit "function", .object
      [(lit "name", .string call.name), (lit "arguments", .string call.arguments)])]

/-- A message of the history, as it is sent. -/
def messageDocument (message : Message) : Json :=
  .object ((lit "role", .string (roleName message.role)) ::
    ((if message.role = .tool then [(lit "tool_call_id", .string message.toolCallId)] else []) ++
      (lit "content", .string message.content) ::
        (if message.toolCalls = [] then []
          else [(lit "tool_calls", .array (message.toolCalls.map toolCallDocument))])))

theorem escape_roleName (role : Role) : escape (roleName role) = .ok (roleName role) := by
  cases role <;> rfl

theorem reads_toolCall {call : ToolCall} {text : Bytes} (h : toolCallJson call = .ok text) :
    decodableLexis.Reads text (toolCallDocument call) := by
  obtain ⟨id, hid, h⟩ := bind_ok h
  obtain ⟨name, hname, h⟩ := bind_ok h
  obtain ⟨arguments, harguments, h⟩ := bind_ok h
  have htext : text = objectJson [fieldJson (lit "id") (quoted id),
      fieldJson (lit "type") (quoted (lit "function")), fieldJson (lit "function") (objectJson
        [fieldJson (lit "name") (quoted name), fieldJson (lit "arguments") (quoted arguments)])] := by
    rw [← Except.ok.inj h]
    simp only [objectJson, fieldJson, joined, quoted, List.append_assoc, List.cons_append,
      List.nil_append]
    rfl
  have hfunction : decodableLexis.Reads (objectJson [fieldJson (lit "name") (quoted name),
      fieldJson (lit "arguments") (quoted arguments)]) (.object
        [(lit "name", .string call.name), (lit "arguments", .string call.arguments)]) :=
    JsonLexis.reads_object (.cons (field_fieldJson rfl (reads_quoted hname))
      (.cons (field_fieldJson rfl (reads_quoted harguments)) .nil))
  rw [htext]
  exact JsonLexis.reads_object (.cons (field_fieldJson rfl (reads_quoted hid))
    (.cons (field_fieldJson rfl (reads_quoted rfl)) (.cons (field_fieldJson rfl hfunction) .nil)))

/-- The optional fields: nothing, or one field after a comma. -/
def OptionalFields (text : Bytes) (fields : List (Bytes × Json)) : Prop :=
  ∃ texts, text = texts.flatMap (comma :: ·) ∧ List.Forall₂ decodableLexis.Field texts fields

theorem reads_toolCallId {message : Message} {text : Bytes}
    (h : toolCallIdJson message = .ok text) :
    OptionalFields text
      (if message.role = .tool then [(lit "tool_call_id", .string message.toolCallId)] else []) := by
  unfold toolCallIdJson at h
  split
  · next htool =>
      rw [if_pos htool] at h
      obtain ⟨id, hid, h⟩ := bind_ok h
      refine ⟨[fieldJson (lit "tool_call_id") (quoted id)], ?_,
        .cons (field_fieldJson rfl (reads_quoted hid)) .nil⟩
      rw [← Except.ok.inj h]
      simp only [List.flatMap_cons, List.flatMap_nil, fieldJson, quoted, List.append_assoc,
        List.cons_append, List.nil_append, List.append_nil]
      rfl
  · next hother =>
      rw [if_neg hother] at h
      exact ⟨[], (Except.ok.inj h).symm, .nil⟩

theorem reads_toolCalls {calls : List ToolCall} {text : Bytes}
    (h : toolCallsJson calls = .ok text) :
    OptionalFields text
      (if calls = [] then [] else [(lit "tool_calls", .array (calls.map toolCallDocument))]) := by
  unfold toolCallsJson at h
  split
  · next hnone =>
      rw [if_pos hnone] at h
      exact ⟨[], (Except.ok.inj h).symm, .nil⟩
  · next hsome =>
      rw [if_neg hsome] at h
      obtain ⟨items, hitems, h⟩ := bind_ok h
      have hspells := reads_of_mapM (fun call text => reads_toolCall) hitems
      refine ⟨[fieldJson (lit "tool_calls") (arrayJson items)], ?_,
        .cons (field_fieldJson rfl hspells) .nil⟩
      rw [← Except.ok.inj h]
      simp only [List.flatMap_cons, List.flatMap_nil, fieldJson, arrayJson, quoted,
        List.append_assoc, List.cons_append, List.nil_append, List.append_nil]
      rfl

/-- **A message's text** stands for its document. -/
theorem reads_message {message : Message} {text : Bytes} (h : messageJson message = .ok text) :
    decodableLexis.Reads text (messageDocument message) := by
  obtain ⟨toolCallId, hid, h⟩ := bind_ok h
  obtain ⟨content, hcontent, h⟩ := bind_ok h
  obtain ⟨toolCalls, hcalls, h⟩ := bind_ok h
  obtain ⟨idTexts, rfl, hidFields⟩ := reads_toolCallId hid
  obtain ⟨callTexts, rfl, hcallFields⟩ := reads_toolCalls hcalls
  have htext : text = objectJson (fieldJson (lit "role") (quoted (roleName message.role)) ::
      (idTexts ++ fieldJson (lit "content") (quoted content) :: callTexts)) := by
    rw [← Except.ok.inj h, objectJson, joined_eq_flatMap]
    simp only [List.flatMap_append, List.flatMap_cons, fieldJson, quoted, List.append_assoc,
      List.cons_append, List.nil_append]
    rfl
  have hrole : decodableLexis.Field (fieldJson (lit "role") (quoted (roleName message.role)))
      (lit "role", .string (roleName message.role)) :=
    field_fieldJson rfl (reads_quoted (escape_roleName _))
  have hbody : decodableLexis.Field (fieldJson (lit "content") (quoted content))
      (lit "content", .string message.content) :=
    field_fieldJson rfl (reads_quoted hcontent)
  rw [htext]
  exact JsonLexis.reads_object (.cons hrole (List.rel_append hidFields (.cons hbody hcallFields)))

/-! ## requests -/

theorem testModel_ne : lit "test-model" ≠ [] := by decide

/-- A tool of the configuration, as it is sent. -/
def toolDocument (tool : ToolDefinition) (parameters : Json) : Json :=
  .object [(lit "type", .string (lit "function")), (lit "function", .object
    [(lit "name", .string tool.name), (lit "description", .string tool.description),
      (lit "parameters", parameters)])]

theorem reads_tool {tool : ToolDefinition} {parameters : Json} {text : Bytes}
    (hparameters : decodableLexis.Reads tool.parametersJson parameters)
    (h : toolJson tool = .ok text) : decodableLexis.Reads text (toolDocument tool parameters) := by
  obtain ⟨name, hname, h⟩ := bind_ok h
  obtain ⟨description, hdescription, h⟩ := bind_ok h
  have htext : text = objectJson [fieldJson (lit "type") (quoted (lit "function")),
      fieldJson (lit "function") (objectJson [fieldJson (lit "name") (quoted name),
        fieldJson (lit "description") (quoted description),
        fieldJson (lit "parameters") tool.parametersJson])] := by
    rw [← Except.ok.inj h]
    simp only [objectJson, fieldJson, joined, quoted, List.append_assoc, List.cons_append,
      List.nil_append]
    rfl
  have hfunction : decodableLexis.Reads (objectJson [fieldJson (lit "name") (quoted name),
      fieldJson (lit "description") (quoted description),
      fieldJson (lit "parameters") tool.parametersJson]) (.object
        [(lit "name", .string tool.name), (lit "description", .string tool.description),
          (lit "parameters", parameters)]) :=
    JsonLexis.reads_object (.cons (field_fieldJson rfl (reads_quoted hname))
      (.cons (field_fieldJson rfl (reads_quoted hdescription))
        (.cons (field_fieldJson rfl hparameters) .nil)))
  rw [htext]
  exact JsonLexis.reads_object (.cons (field_fieldJson rfl (reads_quoted rfl))
    (.cons (field_fieldJson rfl hfunction) .nil))

/-- Texts that each stand for something. -/
theorem exists_documents {α : Type} {f : α → Except Exception Bytes} {l : List α}
    (hf : ∀ a ∈ l, ∀ text, f a = .ok text → ∃ j, decodableLexis.Reads text j) {texts : List Bytes}
    (h : l.mapM f = .ok texts) :
    ∃ documents, List.Forall₂ decodableLexis.Reads texts documents := by
  induction l generalizing texts with
  | nil =>
      rw [← Except.ok.inj h]
      exact ⟨[], .nil⟩
  | cons a l ih =>
      rw [List.mapM_cons] at h
      obtain ⟨text, htext, h⟩ := bind_ok h
      obtain ⟨rest, hrest, h⟩ := bind_ok h
      obtain ⟨document, hdocument⟩ := hf a List.mem_cons_self text htext
      obtain ⟨documents, hdocuments⟩ := ih (fun b hb => hf b (List.mem_cons_of_mem _ hb)) hrest
      rw [← Except.ok.inj h]
      exact ⟨document :: documents, .cons hdocument hdocuments⟩

theorem reads_tools {tools : List ToolDefinition} {text : Bytes}
    (hparameters : ∀ tool ∈ tools, ∃ j, decodableLexis.Reads tool.parametersJson j)
    (h : toolsJson tools = .ok text) : ∃ fields, OptionalFields text fields := by
  unfold toolsJson at h
  split at h
  · exact ⟨[], [], (Except.ok.inj h).symm, .nil⟩
  · obtain ⟨items, hitems, h⟩ := bind_ok h
    have hspells (tool : ToolDefinition) (hmem : tool ∈ tools) (text : Bytes)
        (htext : toolJson tool = .ok text) : ∃ j, decodableLexis.Reads text j := by
      obtain ⟨parameters, hparse⟩ := hparameters tool hmem
      exact ⟨_, reads_tool hparse htext⟩
    obtain ⟨documents, hdocuments⟩ := exists_documents hspells hitems
    refine ⟨[(lit "tools", .array documents)], [fieldJson (lit "tools") (arrayJson items)], ?_,
      .cons (field_fieldJson rfl (JsonLexis.reads_array hdocuments)) .nil⟩
    rw [← Except.ok.inj h]
    simp only [List.flatMap_cons, List.flatMap_nil, fieldJson, arrayJson, quoted,
      List.append_assoc, List.cons_append, List.nil_append, List.append_nil]
    rfl

/-- The fields of a request's body: the model, the messages, and then what no
reader of the messages looks at. -/
theorem requestBody_fields {config : OpenAiCompatibleConfig} {history : List Message} {body : Bytes}
    (hfinite : config.temperature.IsFinite)
    (htools : ∀ tool ∈ config.tools, ∃ j, decodableLexis.Reads tool.parametersJson j)
    (h : OpenAiCompatibleLlm.requestBody config history = .ok body) :
    ∃ texts fields, body = objectJson texts ∧ texts ≠ [] ∧
      List.Forall₂ decodableLexis.Field texts ((lit "model", .string config.model) ::
        (lit "messages", .array (history.map messageDocument)) :: fields) := by
  obtain ⟨model, hmodel, h⟩ := bind_ok h
  obtain ⟨messages, hmessages, h⟩ := bind_ok h
  obtain ⟨tools, hjson, h⟩ := bind_ok h
  obtain ⟨temperature, htemperature⟩ := decodable_toFixed hfinite
  obtain ⟨fields, toolTexts, rfl, hfields⟩ := reads_tools htools hjson
  have hhistory := reads_of_mapM (fun message text => reads_message) hmessages
  refine ⟨fieldJson (lit "model") (quoted model) :: fieldJson (lit "messages") (arrayJson messages) ::
    fieldJson (lit "temperature") config.temperature.toFixed :: toolTexts, _, ?_, by simp,
    .cons (field_fieldJson rfl (reads_quoted hmodel)) (.cons (field_fieldJson rfl hhistory)
      (.cons (field_fieldJson rfl htemperature) hfields))⟩
  rw [← Except.ok.inj h, objectJson, joined_eq_flatMap]
  simp only [List.flatMap_cons, fieldJson, arrayJson, quoted, List.append_assoc, List.cons_append,
    List.nil_append]
  rfl

/-- The stream's edit of a body adds a field at its end. -/
theorem streamed_objectJson {texts : List Bytes} (hne : texts ≠ []) :
    (objectJson texts).dropLast ++ lit ",\"stream\":true\x7d" =
      objectJson (texts ++ [fieldJson (lit "stream") (lit "true")]) := by
  obtain ⟨first, rest, rfl⟩ := List.exists_cons_of_ne_nil hne
  have hlast : (objectJson (first :: rest)).dropLast = openBrace :: joined (first :: rest) := by
    rw [objectJson, ← List.cons_append, List.dropLast_concat]
  rw [hlast, objectJson, List.cons_append, joined_eq_flatMap, List.cons_append, joined_eq_flatMap,
    List.flatMap_append]
  simp only [List.flatMap_cons, List.flatMap_nil, List.append_assoc, List.append_nil]
  rfl

end ByteTurn

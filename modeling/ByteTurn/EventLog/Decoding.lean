import ByteTurn.EventLog
import ByteTurn.OpenAiCompatible.Encoding

/-!
# ByteTurn.EventLog.Decoding

What a line of the event log decodes to.

The two escape tables are written apart, one for the log and one in the parser.
Every byte `json_escape` writes an escape for is read back in one round
(`unit_jsonEscapeByte`), so the line of an event is JSON that stands for
`eventDocument` (`log_line_decodes`).
-/

namespace ByteTurn

/-! ## strings -/

/-- The two digits of a control byte are read as it. -/
theorem hexDigit_hexByte : ∀ b : UInt8, b < 0x20 →
    hexDigit (hexByte (b >>> 4)) = some (b.toNat / 16) ∧
      hexDigit (hexByte (b &&& 15)) = some (b.toNat % 16) := by
  decide +kernel

/-- An escaped byte is read in one round. -/
theorem unit_jsonEscapeByte (b : UInt8) : StringUnit (jsonEscapeByte b) [b] := by
  unfold jsonEscapeByte
  split_ifs with hquote hbackslash hnewline hreturn htab hplain
  · exact .letter (by rw [hquote]; rfl)
  · exact .letter (by rw [hbackslash]; rfl)
  · exact .letter (by rw [hnewline]; rfl)
  · exact .letter (by rw [hreturn]; rfl)
  · exact .letter (by rw [htab]; rfl)
  · exact .byte hquote hbackslash
  · have hcontrol : b < 0x20 := UInt8.not_le.mp hplain
    have hlt : b.toNat < 0x20 := hcontrol
    obtain ⟨hhigh, hlow⟩ := hexDigit_hexByte b hcontrol
    have hdigits : List.Forall₂ (fun b d => hexDigit b = some d)
        [0x30, 0x30, hexByte (b >>> 4), hexByte (b &&& 15)] [0, 0, b.toNat / 16, b.toNat % 16] :=
      .cons rfl (.cons rfl (.cons hhigh (.cons hlow .nil)))
    have hvalue : b.toNat = hexValue 0 [0, 0, b.toNat / 16, b.toNat % 16] := by
      simp only [hexValue, List.foldl_cons, List.foldl_nil]
      omega
    have hunit := StringUnit.unicode ⟨rfl, _, hdigits, hvalue⟩ (by omega)
    rw [utf8, if_pos (by omega)] at hunit
    simpa using hunit

/-- The digits of a byte are printable. -/
theorem hexByte_printable : ∀ b : UInt8, (0x20 : UInt8) ≤ hexByte (b >>> 4) ∧
    (0x20 : UInt8) ≤ hexByte (b &&& 15) := by
  decide +kernel

/-- An escaped byte is printable. -/
theorem jsonEscapeByte_printable (b : UInt8) : ∀ c ∈ jsonEscapeByte b, 0x20 ≤ c := by
  obtain ⟨hhigh, hlow⟩ := hexByte_printable b
  have htwo (c d : UInt8) (hc : 0x20 ≤ c) (hd : 0x20 ≤ d) : ∀ x ∈ [c, d], 0x20 ≤ x := by
    simp [hc, hd]
  unfold jsonEscapeByte
  split_ifs with _ _ _ _ _ hplain
  · exact htwo _ _ (by decide) (by decide)
  · exact htwo _ _ (by decide) (by decide)
  · exact htwo _ _ (by decide) (by decide)
  · exact htwo _ _ (by decide) (by decide)
  · exact htwo _ _ (by decide) (by decide)
  · exact List.forall_mem_singleton.mpr hplain
  · simp only [List.forall_mem_cons]
    exact ⟨by decide, by decide, by decide, by decide, hhigh, hlow, nofun⟩

/-- So is an escaped text. -/
theorem jsonEscape_printable (s : Bytes) : ∀ c ∈ jsonEscape s, 0x20 ≤ c := by
  intro c hc
  obtain ⟨b, _, hc⟩ := List.mem_flatMap.mp hc
  exact jsonEscapeByte_printable b c hc

/-- **Escaping is undone**, for every string. -/
theorem characters_jsonEscape (s : Bytes) : decodableLexis.characters (jsonEscape s) s := by
  have hunits : List.Forall₂ StringUnit (s.map jsonEscapeByte) (s.map fun b => [b]) := by
    rw [List.forall₂_map_left_iff, List.forall₂_map_right_iff]
    exact List.forall₂_same.mpr fun b _ => unit_jsonEscapeByte b
  have hprintable := jsonEscape_printable s
  rw [jsonEscape, List.flatMap_def] at hprintable
  have hcharacters := characters_of_units hunits hprintable
  rwa [← List.flatMap_def, ← List.flatMap_def, List.flatMap_singleton'] at hcharacters

/-! ## an event -/

/-- The ranges of the fields' types: 64 bits each, the times with a sign. -/
structure Event.InRange (event : Event) : Prop where
  sequence : event.sequence < 2 ^ 64
  generation : event.generation < 2 ^ 64
  timestamp : -2 ^ 63 ≤ event.timestamp ∧ event.timestamp < 2 ^ 63
  receivedAt : -2 ^ 63 ≤ event.receivedAt ∧ event.receivedAt < 2 ^ 63

/-- An event, as it is logged. -/
def eventDocument (event : Event) (options : EventLogOptions) : Json :=
  .object ([(lit "schema_version", Json.number (Double.ofInt 1)),
    (lit "sequence", Json.number (Double.ofInt event.sequence)),
    (lit "event", Json.string (eventTypeName event.type)),
    (lit "session_id", Json.string event.sessionId),
    (lit "generation", Json.number (Double.ofInt event.generation)),
    (lit "turn_id", Json.string event.turnId),
    (lit "name", Json.string event.name),
    (lit "trace_id", Json.string event.traceId),
    (lit "timestamp_ns", Json.number (Double.ofInt event.timestamp)),
    (lit "received_at_ns", Json.number (Double.ofInt event.receivedAt))] ++
    if options.includePayload then [(lit "data", Json.string event.data)] else [])

/-- The texts of the fields of a line. -/
def eventFields (event : Event) (options : EventLogOptions) : List Bytes :=
  [fieldJson (lit "schema_version") (Double.toDecimal 1),
    fieldJson (lit "sequence") (Double.toDecimal event.sequence),
    fieldJson (lit "event") (quoted (eventTypeName event.type)),
    fieldJson (lit "session_id") (quoted (jsonEscape event.sessionId)),
    fieldJson (lit "generation") (Double.toDecimal event.generation),
    fieldJson (lit "turn_id") (quoted (jsonEscape event.turnId)),
    fieldJson (lit "name") (quoted (jsonEscape event.name)),
    fieldJson (lit "trace_id") (quoted (jsonEscape event.traceId)),
    fieldJson (lit "timestamp_ns") (Double.toDecimal event.timestamp),
    fieldJson (lit "received_at_ns") (Double.toDecimal event.receivedAt)] ++
    if options.includePayload then [fieldJson (lit "data") (quoted (jsonEscape event.data))]
    else []

theorem toDecimal_one : Double.toDecimal 1 = lit "1" := by
  have hdigits : Double.toDigits 1 = lit "1" := by
    rw [Double.toDigits, if_neg Nat.one_ne_zero]
    norm_num
    rfl
  rw [Double.toDecimal]
  exact hdigits

/-- A line is the object of its fields. -/
theorem eventJson_eq_object (event : Event) (options : EventLogOptions) :
    eventJson event options = objectJson (eventFields event options) := by
  have hopen : lit "\x7b\"schema_version\":1,\"sequence\":" =
      openBrace :: (quoted (lit "schema_version") ++ colon :: (lit "1" ++ comma ::
        (quoted (lit "sequence") ++ [colon]))) := rfl
  have hclose : lit "\x7d" = [closeBrace] := rfl
  have hevent : lit ",\"event\":\"" = comma :: (quoted (lit "event") ++ [colon, quote]) := rfl
  have hdata : lit ",\"data\":\"" = comma :: (quoted (lit "data") ++ [colon, quote]) := rfl
  have hquote : lit "\"" = [quote] := rfl
  have hsession : lit "\",\"session_id\":\"" =
      quote :: comma :: (quoted (lit "session_id") ++ [colon, quote]) := rfl
  have hgeneration : lit "\",\"generation\":" =
      quote :: comma :: (quoted (lit "generation") ++ [colon]) := rfl
  have hturn : lit ",\"turn_id\":\"" = comma :: (quoted (lit "turn_id") ++ [colon, quote]) := rfl
  have hname : lit "\",\"name\":\"" =
      quote :: comma :: (quoted (lit "name") ++ [colon, quote]) := rfl
  have htrace : lit "\",\"trace_id\":\"" =
      quote :: comma :: (quoted (lit "trace_id") ++ [colon, quote]) := rfl
  have htimestamp : lit "\",\"timestamp_ns\":" =
      quote :: comma :: (quoted (lit "timestamp_ns") ++ [colon]) := rfl
  have hreceived : lit ",\"received_at_ns\":" =
      comma :: (quoted (lit "received_at_ns") ++ [colon]) := rfl
  -- the equations of `eventJson` would be found by evaluating its text
  delta eventJson eventFields
  rw [objectJson, toDecimal_one, hopen, hclose, hevent, hsession, hgeneration, hturn, hname,
    htrace, htimestamp, hreceived, hdata, hquote]
  cases options.includePayload with
  | true =>
      simp only [if_true, List.cons_append, List.nil_append, joined, fieldJson, quoted,
        List.append_assoc]
  | false =>
      simp only [if_false, Bool.false_eq_true, List.cons_append, List.nil_append, joined, fieldJson,
        quoted, List.append_assoc, List.append_nil]

/-- The name of a type needs no escape. -/
theorem escape_eventTypeName (type : EventType) :
    escape (eventTypeName type) = .ok (eventTypeName type) := by
  cases type <;> rfl

/-- The line of an event stands for its document. -/
theorem reads_eventFields {event : Event} (hrange : event.InRange) (options : EventLogOptions) :
    decodableLexis.Reads (objectJson (eventFields event options))
      (eventDocument event options) := by
  have hstring {key : Bytes} (hkey : escape key = .ok key) (s : Bytes) :
      decodableLexis.Field (fieldJson key (quoted (jsonEscape s))) (key, .string s) :=
    field_fieldJson hkey (.string (characters_jsonEscape s))
  have hnumber {key : Bytes} (hkey : escape key = .ok key) {n : Int} (h : n.natAbs ≤ 2 ^ 64) :
      decodableLexis.Field (fieldJson key (Double.toDecimal n)) (key, .number (Double.ofInt n)) :=
    field_fieldJson hkey (decodable_toDecimal h)
  have hname : decodableLexis.Field (fieldJson (lit "event") (quoted (eventTypeName event.type)))
      (lit "event", .string (eventTypeName event.type)) :=
    field_fieldJson rfl (reads_quoted (escape_eventTypeName _))
  have hsequence := hrange.sequence
  have hgeneration := hrange.generation
  have htimestamp := hrange.timestamp
  have hreceived := hrange.receivedAt
  refine JsonLexis.reads_object (List.rel_append (.cons (hnumber rfl (by decide)) (.cons
    (hnumber rfl (by omega)) (.cons hname (.cons (hstring rfl _) (.cons (hnumber rfl (by omega))
      (.cons (hstring rfl _) (.cons (hstring rfl _) (.cons (hstring rfl _)
        (.cons (hnumber rfl (by omega)) (.cons (hnumber rfl (by omega)) .nil)))))))))) ?_)
  split
  · exact .cons (hstring rfl _) .nil
  · exact .nil

/-! ## one line -/

/-- Number bytes are printable. -/
theorem isNumberByte_printable : ∀ b : UInt8, Double.isNumberByte b = true → 0x20 ≤ b := by
  decide +kernel

/-- So is an integer. -/
theorem toDecimal_printable (n : Int) : ∀ c ∈ Double.toDecimal n, 0x20 ≤ c :=
  fun c hc => isNumberByte_printable c (Double.isNumberByte_of_mem_toDecimal hc)

theorem printable_of_all {text : Bytes} (h : text.all (fun c => decide (0x20 ≤ c)) = true) :
    ∀ c ∈ text, 0x20 ≤ c := fun c hc => of_decide_eq_true (List.all_eq_true.mp h c hc)

/-- The name of a type is printable. -/
theorem eventTypeName_printable (type : EventType) : ∀ c ∈ eventTypeName type, 0x20 ≤ c :=
  printable_of_all (by cases type <;> rfl)

/-- No byte of a line ends it. -/
theorem eventJson_printable (event : Event) (options : EventLogOptions) :
    ∀ c ∈ eventJson event options, 0x20 ≤ c := by
  have hpayload : ∀ c ∈ (if options.includePayload then
      lit ",\"data\":\"" ++ jsonEscape event.data ++ lit "\"" else []), 0x20 ≤ c := by
    split
    · exact List.forall_mem_append.mpr ⟨List.forall_mem_append.mpr
        ⟨printable_of_all rfl, jsonEscape_printable _⟩, printable_of_all rfl⟩
    · exact nofun
  delta eventJson
  simp only [List.forall_mem_append, and_assoc]
  refine ⟨?_, ?_, ?_, ?_, ?_, ?_, ?_, ?_, ?_, ?_, ?_, ?_, ?_, ?_, ?_, ?_, ?_, ?_, hpayload, ?_⟩
  all_goals first
    | exact toDecimal_printable _
    | exact jsonEscape_printable _
    | exact eventTypeName_printable _
    | exact printable_of_all rfl

/-- **A line decodes to its event**: whatever the bytes of an event's strings,
its line has no control byte and is read by the parser as the object of the
event's fields, with the payload exactly when the options include it; without it,
events that differ in their payload only have the same line. -/
theorem log_line_decodes (event : Event) (options : EventLogOptions) (hrange : event.InRange) :
    (∀ c ∈ eventJson event options, 0x20 ≤ c) ∧
      parseJson (eventJson event options) = .ok (eventDocument event options) ∧
      ∀ data, options.includePayload = false →
        eventJson { event with data := data } options = eventJson event options := by
  refine ⟨eventJson_printable event options, ?_, ?_⟩
  · rw [eventJson_eq_object]
    exact parse_of_decodable (reads_eventFields hrange options)
  · intro data hredacted
    rw [eventJson_eq_object, eventJson_eq_object]
    delta eventFields
    rw [hredacted]
    rfl

/-- An event with a control byte, a quote, a newline and no UTF-8 in its name. -/
def hostileEvent : Event where
  type := .error
  sessionId := lit "s"
  sequence := 7
  timestamp := -1
  name := [0x61, 0x01, quote, backslash, 0x0a, 0xff]
  data := lit "private"

theorem log_line_decodes_hostile :
    parseJson (eventJson hostileEvent { includePayload := true }) =
      .ok (eventDocument hostileEvent { includePayload := true }) :=
  (log_line_decodes hostileEvent { includePayload := true }
    ⟨by decide, by decide, by decide, by decide⟩).2.1

end ByteTurn

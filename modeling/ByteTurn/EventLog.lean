import ByteTurn.Json
import ByteTurn.RuntimeObserver

/-!
# ByteTurn.EventLog

The line of the event log for an event (`observability.cpp`).
-/

namespace ByteTurn

/-- A lower-case hexadecimal digit. -/
def hexByte (n : UInt8) : UInt8 := (lit "0123456789abcdef").getD n.toNat 0

/-- One byte of `json_escape`. -/
def jsonEscapeByte (b : UInt8) : Bytes :=
  if b = quote then [backslash, quote]
  else if b = backslash then [backslash, backslash]
  else if b = 0x0a then [backslash, 0x6e]
  else if b = 0x0d then [backslash, 0x72]
  else if b = 0x09 then [backslash, 0x74]
  else if 0x20 ≤ b then [b]
  else [backslash, 0x75, 0x30, 0x30, hexByte (b >>> 4), hexByte (b &&& 15)]

/-- `json_escape` -/
def jsonEscape (input : Bytes) : Bytes := input.flatMap jsonEscapeByte

/-- `EventLogOptions` -/
structure EventLogOptions where
  includePayload : Bool := false
  deriving DecidableEq, Repr

/-- `event_json` -/
def eventJson (event : Event) (options : EventLogOptions) : Bytes :=
  lit "\x7b\"schema_version\":1,\"sequence\":" ++ Double.toDecimal event.sequence ++
    lit ",\"event\":\"" ++ eventTypeName event.type ++
    lit "\",\"session_id\":\"" ++ jsonEscape event.sessionId ++
    lit "\",\"generation\":" ++ Double.toDecimal event.generation ++
    lit ",\"turn_id\":\"" ++ jsonEscape event.turnId ++
    lit "\",\"name\":\"" ++ jsonEscape event.name ++
    lit "\",\"trace_id\":\"" ++ jsonEscape event.traceId ++
    lit "\",\"timestamp_ns\":" ++ Double.toDecimal event.timestamp ++
    lit ",\"received_at_ns\":" ++ Double.toDecimal event.receivedAt ++
    (if options.includePayload then lit ",\"data\":\"" ++ jsonEscape event.data ++ lit "\""
      else []) ++
    lit "\x7d"

/-- What `JsonEventLogger::write` appends to the log. -/
def logLine (options : EventLogOptions) (event : Event) : Bytes := eventJson event options ++ [0x0a]

end ByteTurn

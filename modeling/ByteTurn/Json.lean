import ByteTurn.Lib.Double
import ByteTurn.Types

/-!
# ByteTurn.Json

The JSON document and the recursive-descent parser of `openai_compatible.cpp`.

The parser is more liberal than the grammar: any byte may stand in a string,
any `std::isspace` byte between tokens, and a number is whatever `std::stod`
reads at the front of a run of number bytes.  Its exceptions carry the byte
position.

`value` and the loops recurse with a fuel argument; `parse` supplies one more
than the length of the input, which is enough (`ByteTurn.Json.Spelling`).
-/

namespace ByteTurn

/-! ## bytes -/

/-- `'"'` -/
def quote : UInt8 := 0x22

/-- A backslash. -/
def backslash : UInt8 := 0x5c

def openBrace : UInt8 := 0x7b

def closeBrace : UInt8 := 0x7d

def openBracket : UInt8 := 0x5b

def closeBracket : UInt8 := 0x5d

def colon : UInt8 := 0x3a

def comma : UInt8 := 0x2c

/-- Texts with a comma before each but the first. -/
def joined : List Bytes → Bytes
  | [] => []
  | [text] => text
  | text :: rest => text ++ comma :: joined rest

/-! ## documents -/

/-- `Json`.  An object lists its fields as they stand in the text; `emplace`
keeps the first of two fields with one key, and so does the lookup. -/
inductive Json where
  | null
  | bool (value : Bool)
  | number (value : Double)
  | string (value : Bytes)
  | array (items : List Json)
  | object (fields : List (Bytes × Json))

namespace Json

/-- `find` -/
def find (j : Json) (key : Bytes) : Option Json :=
  match j with
  | object fields => fields.lookup key
  | _ => none

/-- `at` -/
def at' (j : Json) (key : Bytes) : Except Exception Json :=
  match j with
  | object fields => match fields.lookup key with
    | some value => .ok value
    | none => .error (lit "missing JSON field: " ++ key)
  | _ => .error (lit "expected JSON object")

/-- `array()` -/
def items (j : Json) : Except Exception (List Json) :=
  match j with
  | array items => .ok items
  | _ => .error (lit "expected JSON array")

/-- `string_or_empty` -/
def stringOrEmpty (j : Json) : Bytes :=
  match j with
  | string value => value
  | _ => []

/-- `index_or_zero`; the language leaves the cast of a number that is too large
open, and `tooLarge` says what it gives. -/
def indexOrZero (tooLarge : Double → Nat) (j : Json) : Nat :=
  match j with
  | number value => if value.isNonneg then value.toUInt64?.getD (tooLarge value) else 0
  | _ => 0

end Json

/-! ## the parser's position -/

/-- `position_`, and what of the input is left from there. -/
structure Cursor where
  position : Nat
  rest : Bytes
  deriving DecidableEq, Repr

namespace Cursor

/-- `position_ += n` -/
def advance (c : Cursor) (n : Nat) : Cursor := ⟨c.position + n, c.rest.drop n⟩

/-- `fail` -/
def fail {α : Type} (c : Cursor) (reason : String) : Except Exception α :=
  .error (lit "invalid JSON near byte " ++ lit (toString c.position) ++ lit ": " ++ lit reason)

/-- `space` -/
def space (c : Cursor) : Cursor := c.advance (c.rest.takeWhile isSpace).length

/-- `consume` -/
def consume (c : Cursor) (b : UInt8) : Option Cursor :=
  if c.rest.head? = some b then some (c.advance 1) else none

end Cursor

/-! ## strings -/

/-- The value of a hexadecimal digit. -/
def hexDigit (b : UInt8) : Option Nat :=
  if 0x30 ≤ b ∧ b ≤ 0x39 then some (b.toNat - 0x30)
  else if 0x61 ≤ b ∧ b ≤ 0x66 then some (b.toNat - 0x61 + 10)
  else if 0x41 ≤ b ∧ b ≤ 0x46 then some (b.toNat - 0x41 + 10)
  else none

/-- The loop of `hex4`, with `n` digits to go. -/
def hexDigits : Nat → Nat → Cursor → Except Exception (Nat × Cursor)
  | 0, value, c => .ok (value, c)
  | n + 1, value, c => match c.rest with
    | [] => c.fail "invalid unicode escape"
    | b :: _ => match hexDigit b with
      | some digit => hexDigits n (value * 16 + digit) (c.advance 1)
      | none => (c.advance 1).fail "invalid unicode escape"

/-- `hex4` -/
def hex4 (c : Cursor) : Except Exception (Nat × Cursor) :=
  if c.rest.length < 4 then c.fail "short unicode escape" else hexDigits 4 0 c

/-- The code point of a `\u` escape, from after the `u`. -/
def codepoint (c : Cursor) : Except Exception (Nat × Cursor) := do
  let (high, c) ← hex4 c
  if 0xd800 ≤ high ∧ high ≤ 0xdbff then
    if c.rest.take 2 ≠ [backslash, 0x75] then c.fail "missing low surrogate"
    else
      let (low, c) ← hex4 (c.advance 2)
      if low < 0xdc00 ∨ 0xdfff < low then c.fail "invalid low surrogate"
      else .ok (0x10000 + (high - 0xd800) * 0x400 + (low - 0xdc00), c)
  else if 0xdc00 ≤ high ∧ high ≤ 0xdfff then c.fail "unexpected low surrogate"
  else .ok (high, c)

/-- What `append_utf8` appends. -/
def utf8 (codepoint : Nat) : Bytes :=
  let tail (shift : Nat) : UInt8 := (0x80 + codepoint / 2 ^ shift % 0x40).toUInt8
  if codepoint ≤ 0x7f then [codepoint.toUInt8]
  else if codepoint ≤ 0x7ff then [(0xc0 + codepoint / 2 ^ 6).toUInt8, tail 0]
  else if codepoint ≤ 0xffff then [(0xe0 + codepoint / 2 ^ 12).toUInt8, tail 6, tail 0]
  else [(0xf0 + codepoint / 2 ^ 18).toUInt8, tail 12, tail 6, tail 0]

/-- The escapes of one letter, but for `u`. -/
def letterEscape (b : UInt8) : Option UInt8 :=
  if b = quote ∨ b = backslash ∨ b = 0x2f then some b
  else if b = 0x62 then some 0x08
  else if b = 0x66 then some 0x0c
  else if b = 0x6e then some 0x0a
  else if b = 0x72 then some 0x0d
  else if b = 0x74 then some 0x09
  else none

/-- The loop of `string`. -/
def stringLoop : Nat → Bytes → Cursor → Except Exception (Bytes × Cursor)
  | 0, _, c => c.fail "out of fuel"
  | fuel + 1, result, c => match c.rest with
    | [] => c.fail "unterminated string"
    | b :: _ =>
        if b = quote then .ok (result, c.advance 1)
        else if b ≠ backslash then stringLoop fuel (result ++ [b]) (c.advance 1)
        else match c.rest.drop 1 with
          | [] => (c.advance 1).fail "escape"
          | escaped :: _ => match letterEscape escaped with
            | some b => stringLoop fuel (result ++ [b]) (c.advance 2)
            | none =>
                if escaped = 0x75 then do
                  let (point, c) ← codepoint (c.advance 2)
                  stringLoop fuel (result ++ utf8 point) c
                else (c.advance 2).fail "unsupported escape"

/-- `string`, at the opening quote. -/
def string (c : Cursor) : Except Exception (Bytes × Cursor) := stringLoop (c.rest.length + 1) [] (c.advance 1)

/-! ## values -/

/-- `literal` -/
def literal (c : Cursor) (text : Bytes) (result : Json) : Except Exception (Json × Cursor) :=
  if text.isPrefixOf c.rest then .ok (result, c.advance text.length) else c.fail "literal"

/-- `number` -/
def number (c : Cursor) : Except Exception (Json × Cursor) :=
  let text := c.rest.takeWhile Double.isNumberByte
  if text = [] then c.fail "value"
  else match Double.stod text with
    | some d => .ok (.number d, c.advance text.length)
    | none => .error (lit "stod")

/-- The loop of `array`; `value` parses one item. -/
def arrayLoop (value : Cursor → Except Exception (Json × Cursor)) : Nat → List Json → Cursor → Except Exception (Json × Cursor)
  | 0, _, c => c.fail "out of fuel"
  | fuel + 1, result, c => do
      let (item, c) ← value c
      let c := c.space
      match c.consume closeBracket with
      | some c => .ok (.array (result ++ [item]), c)
      | none => match c.consume comma with
        | some c => arrayLoop value fuel (result ++ [item]) c
        | none => c.fail "comma"

/-- `array`, at the opening bracket. -/
def array (value : Cursor → Except Exception (Json × Cursor)) (fuel : Nat) (c : Cursor) : Except Exception (Json × Cursor) :=
  let c := (c.advance 1).space
  match c.consume closeBracket with
  | some c => .ok (.array [], c)
  | none => arrayLoop value fuel [] c

/-- A field of an object: its key, a colon and its value. -/
def field (value : Cursor → Except Exception (Json × Cursor)) (c : Cursor) : Except Exception ((Bytes × Json) × Cursor) :=
  let c := c.space
  if c.rest.head? ≠ some quote then c.fail "object key"
  else do
    let (key, c) ← string c
    let c := c.space
    match c.consume colon with
    | none => c.fail "colon"
    | some c => do
        let (item, c) ← value c
        .ok ((key, item), c)

/-- The loop of `object`. -/
def objectLoop (value : Cursor → Except Exception (Json × Cursor)) :
    Nat → List (Bytes × Json) → Cursor → Except Exception (Json × Cursor)
  | 0, _, c => c.fail "out of fuel"
  | fuel + 1, result, c => do
      let (item, c) ← field value c
      let c := c.space
      match c.consume closeBrace with
      | some c => .ok (.object (result ++ [item]), c)
      | none => match c.consume comma with
        | some c => objectLoop value fuel (result ++ [item]) c
        | none => c.fail "comma"

/-- `object`, at the opening brace. -/
def object (value : Cursor → Except Exception (Json × Cursor)) (fuel : Nat) (c : Cursor) : Except Exception (Json × Cursor) :=
  let c := (c.advance 1).space
  match c.consume closeBrace with
  | some c => .ok (.object [], c)
  | none => objectLoop value fuel [] c

/-- `value` -/
def value : Nat → Cursor → Except Exception (Json × Cursor)
  | 0, c => c.fail "out of fuel"
  | fuel + 1, c =>
      let c := c.space
      match c.rest with
      | [] => c.fail "unexpected end"
      | b :: _ =>
          if b = openBrace then object (fun c => value fuel c) fuel c
          else if b = openBracket then array (fun c => value fuel c) fuel c
          else if b = quote then (string c).map fun (text, c) => (.string text, c)
          else if b = 0x74 then literal c (lit "true") (.bool true)
          else if b = 0x66 then literal c (lit "false") (.bool false)
          else if b = 0x6e then literal c (lit "null") .null
          else number c

/-- `JsonParser::parse` -/
def parseJson (input : Bytes) : Except Exception Json := do
  let (result, c) ← value (input.length + 1) ⟨0, input⟩
  let c := c.space
  if c.rest = [] then .ok result else c.fail "trailing data"

end ByteTurn

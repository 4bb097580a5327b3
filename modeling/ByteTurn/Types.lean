import Mathlib

/-!
# ByteTurn.Types

The value types shared by every component: byte strings, chat messages, tool
calls and model turns.

`std::string` is a sequence of bytes with no encoding attached, so it is
modelled as `Bytes`; a string literal of the source is `lit "…"`.
-/

namespace ByteTurn

/-- `std::string`: arbitrary bytes. -/
abbrev Bytes := List UInt8

/-- The bytes of a string literal. -/
def lit (s : String) : Bytes := s.toUTF8.data.toList

/-- `std::isspace` in the C locale. -/
def isSpace (b : UInt8) : Bool := b = 0x20 || (0x09 ≤ b && b ≤ 0x0d)

/-- Only spaces. -/
def Blank (l : Bytes) : Prop := ∀ b ∈ l, isSpace b = true

/-- A thrown exception, identified by its text. -/
abbrev Exception := Bytes

section Throwing

variable {ε α β : Type} {x : Except ε α} {f : α → Except ε β}

/-- A sequence that returned has made both its parts return. -/
theorem bind_ok {b : β} (h : (x >>= f) = .ok b) : ∃ a, x = .ok a ∧ f a = .ok b := by
  cases x with
  | error e => contradiction
  | ok a => exact ⟨a, rfl, h⟩

/-- A sequence throws what its first part throws, or its second part after it. -/
theorem bind_error {e : ε} (h : (x >>= f) = .error e) :
    x = .error e ∨ ∃ a, x = .ok a ∧ f a = .error e := by
  cases x with
  | error e' => exact .inl (congrArg Except.error (Except.error.inj h))
  | ok a => exact .inr ⟨a, rfl, h⟩

theorem ok_bind (a : α) (f : α → Except ε β) : ((.ok a : Except ε α) >>= f) = f a := rfl

end Throwing

/-- `AudioFrame` -/
structure AudioFrame where
  samples : List (BitVec 16) := []
  sampleRateHz : Int := 16000
  channels : Int := 1
  endOfUtterance : Bool := false
  deriving DecidableEq, Repr

/-- `Role` -/
inductive Role where
  | system | user | assistant | tool
  deriving DecidableEq, Repr

/-- `ToolCall` -/
structure ToolCall where
  id : Bytes
  name : Bytes
  arguments : Bytes
  deriving DecidableEq, Repr

/-- `Message` -/
structure Message where
  role : Role
  content : Bytes
  name : Bytes
  toolCalls : List ToolCall
  toolCallId : Bytes
  deriving DecidableEq, Repr

/-- `LlmTurn`; a provider leaves `complete` at its default unless the stream
broke off. -/
structure LlmTurn where
  text : Bytes
  toolCalls : List ToolCall := []
  complete : Bool := true
  deriving DecidableEq, Repr

end ByteTurn

import ByteTurn.Json
import ByteTurn.OpenAiCompatible

/-!
# ByteTurn.OpenAiCompatible.Calls

What the tool-call fragments of a delta do to the calls of a stream.

A fragment makes the vector of calls as long as its index asks for, if the
platform has room for that, and extends the call at its index (`growCalls`).
Whether there is room for a list of fragments depends on their indices only
(`HasRoom`), and a list of them adds them all or ends in the exception of a
`resize` (`onFragments_run`).
-/

namespace ByteTurn

/-! ## documents -/

/-- The first choice of a document. -/
def Json.firstChoice (root : Json) : Option Json :=
  match root.find (lit "choices") with
  | some (.array (front :: _)) => some front
  | _ => none

/-- The items of a list, if there is one. -/
def Json.itemsOf (j : Json) (key : Bytes) : List Json :=
  match j.find key with
  | some (.array items) => items
  | _ => []

namespace OpenAiCompatibleLlm

variable {platform : Platform}

/-! ## one fragment -/

/-- What a fragment does to the call it extends. -/
def extendCall (item : Json) (call : ToolCall) : ToolCall where
  id := call.id ++ fragmentText item (lit "id")
  name := call.name ++ functionText item (lit "name")
  arguments := call.arguments ++ functionText item (lit "arguments")

/-- The calls after a fragment, where there is room for them. -/
def growCalls (platform : Platform) (calls : List ToolCall) (item : Json) : List ToolCall :=
  List.modify
    (calls ++ List.replicate (fragmentIndex platform item + 1 - calls.length) ⟨[], [], []⟩)
    (fragmentIndex platform item) (extendCall item)

theorem length_growCalls (calls : List ToolCall) (item : Json) :
    (growCalls platform calls item).length =
      max calls.length (fragmentIndex platform item + 1) := by
  rw [growCalls, List.length_modify, List.length_append, List.length_replicate]
  omega

/-- There is room for the calls of the fragments after the first `size` ones. -/
def HasRoom (platform : Platform) : Nat → List Json → Prop
  | _, [] => True
  | size, item :: items =>
      (size ≤ fragmentIndex platform item →
        platform.resizeFailure (fragmentIndex platform item + 1) = none) ∧
      HasRoom platform (max size (fragmentIndex platform item + 1)) items

/-- A fragment grows the calls, or `resize` throws. -/
theorem addFragment_cases (platform : Platform) (calls : List ToolCall) (item : Json) :
    ((calls.length ≤ fragmentIndex platform item →
        platform.resizeFailure (fragmentIndex platform item + 1) = none) ∧
      addFragment platform calls item = .ok (growCalls platform calls item)) ∨
    ∃ failure, calls.length ≤ fragmentIndex platform item ∧
      platform.resizeFailure (fragmentIndex platform item + 1) = some failure ∧
      addFragment platform calls item = .error failure.what := by
  unfold addFragment growCalls
  dsimp only
  by_cases hlength : calls.length ≤ fragmentIndex platform item
  · rw [if_pos hlength, resizeCalls]
    cases hfailure : platform.resizeFailure (fragmentIndex platform item + 1) with
    | none => exact .inl ⟨fun _ => rfl, rfl⟩
    | some failure => exact .inr ⟨failure, hlength, rfl, rfl⟩
  · have hnone : fragmentIndex platform item + 1 - calls.length = 0 := by omega
    rw [if_neg hlength, hnone, List.replicate_zero, List.append_nil]
    exact .inl ⟨fun h => absurd h hlength, rfl⟩

/-! ## the fragments of a delta -/

theorem onFragment_run (platform : Platform) (item : Json) (s : StreamState) :
    (onFragment platform item).run s =
      match addFragment platform s.turn.toolCalls item with
      | .ok calls => .ok () { s with turn.toolCalls := calls }
      | .error e => .error e s := by
  unfold onFragment
  rw [EStateM.run_bind, EStateM.run_get]
  dsimp only
  rw [EStateM.run_bind]
  cases addFragment platform s.turn.toolCalls item with
  | ok calls => rfl
  | error e => rfl

/-- By induction on the fragments: they are all added, or one of them finds no room. -/
theorem onFragments_run (platform : Platform) (items : List Json) (s : StreamState) :
    (HasRoom platform s.turn.toolCalls.length items ∧
      (forM items (onFragment platform) : StreamM Unit).run s = .ok () { s with
        turn.toolCalls := items.foldl (growCalls platform) s.turn.toolCalls }) ∨
    (¬ HasRoom platform s.turn.toolCalls.length items ∧
      ∃ (failure : ResizeFailure) (t : StreamState),
        (forM items (onFragment platform) : StreamM Unit).run s = .error failure.what t ∧
          t.texts = s.texts) := by
  induction items generalizing s with
  | nil => exact .inl ⟨trivial, rfl⟩
  | cons item items ih =>
      rw [List.forM_cons, EStateM.run_bind, onFragment_run, HasRoom, List.foldl_cons]
      obtain ⟨hroom, hadd⟩ | ⟨failure, hlength, hfailure, hadd⟩ :=
        addFragment_cases platform s.turn.toolCalls item
      · rw [hadd, and_iff_right hroom, ← length_growCalls]
        exact ih { s with turn.toolCalls := growCalls platform s.turn.toolCalls item }
      · rw [hadd]
        refine .inr ⟨fun h => ?_, failure, s, rfl, rfl⟩
        rw [h.1 hlength] at hfailure
        contradiction

/-- Fragments that are added have room, and are added in their order. -/
theorem onFragments_ok {items : List Json} {s t : StreamState}
    (h : (forM items (onFragment platform) : StreamM Unit).run s = .ok () t) :
    HasRoom platform s.turn.toolCalls.length items ∧
      t = { s with turn.toolCalls := items.foldl (growCalls platform) s.turn.toolCalls } := by
  obtain ⟨hroom, hrun⟩ | ⟨-, failure, u, hrun, -⟩ := onFragments_run platform items s
  · rw [hrun] at h
    exact ⟨hroom, (EStateM.Result.ok.inj h).2.symm⟩
  · rw [hrun] at h
    contradiction

/-! ## the fragments of an event -/

theorem array_of_items {j : Json} {items : List Json} (h : j.items = .ok items) :
    j = .array items := by
  cases j with
  | array l => exact congrArg Json.array (Except.ok.inj h)
  | null | bool | number | string | object => contradiction

theorem itemsOf_of_find {j : Json} {key : Bytes} {items : List Json}
    (h : j.find key = some (.array items)) : j.itemsOf key = items := by
  rw [Json.itemsOf, h]

/-- The events of a stream that are decoded: those before `[DONE]`. -/
def decodedEvents (events : List Bytes) : List Bytes := events.takeWhile (· ≠ lit "[DONE]")

/-- The tool-call fragments of an event. -/
def eventFragments (event : Bytes) : List Json :=
  match parseJson event with
  | .ok root =>
      ((root.firstChoice.bind (·.find (lit "delta"))).map (·.itemsOf (lit "tool_calls"))).getD []
  | .error _ => []

/-- The fragments of an event, by the delta it is decoded to. -/
theorem eventFragments_eq {event : Bytes} {root : Json} {delta : Option Json}
    (hroot : parseJson event = .ok root) (hdelta : deltaOf root = .ok delta) :
    eventFragments event = (delta.map (·.itemsOf (lit "tool_calls"))).getD [] := by
  rw [eventFragments, hroot]
  dsimp only
  unfold deltaOf at hdelta
  unfold Json.firstChoice
  cases hfind : root.find (lit "choices") with
  | none =>
      rw [hfind] at hdelta
      rw [← Except.ok.inj hdelta]
      rfl
  | some list =>
      rw [hfind] at hdelta
      obtain ⟨items, hitems, hselect⟩ := bind_ok hdelta
      rw [array_of_items hitems]
      cases items with
      | nil =>
          rw [← Except.ok.inj hselect]
          rfl
      | cons front rest =>
          rw [← Except.ok.inj hselect]
          rfl

/-! ## room -/

/-- The calls there are after some fragments. -/
def callsAfter (platform : Platform) (size : Nat) (items : List Json) : Nat :=
  items.foldl (fun size item => max size (fragmentIndex platform item + 1)) size

theorem length_foldl_growCalls (items : List Json) (calls : List ToolCall) :
    (items.foldl (growCalls platform) calls).length =
      callsAfter platform calls.length items := by
  induction items generalizing calls with
  | nil => rfl
  | cons item items ih =>
      rw [List.foldl_cons, ih, length_growCalls]
      rfl

theorem hasRoom_append {size : Nat} {items items' : List Json} :
    HasRoom platform size (items ++ items') ↔
      HasRoom platform size items ∧ HasRoom platform (callsAfter platform size items) items' := by
  induction items generalizing size with
  | nil => exact (and_iff_right trivial).symm
  | cons item items ih =>
      rw [List.cons_append, HasRoom, HasRoom, ih, and_assoc]
      rfl

/-- A platform as x86-64 is: a number beyond 64 bits is cast to zero, and there is
memory for every size that is a valid one for calls of 96 bytes. -/
def amplePlatform : Platform where
  tooLarge _ := ⟨0, by decide⟩
  resizeFailure size := if size ≤ (2 ^ 63 - 1) / 96 then none else some .lengthError

end OpenAiCompatibleLlm

end ByteTurn

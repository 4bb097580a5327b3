import ByteTurn.Lib.Buckets
import ByteTurn.OpenAiCompatible.Replies

/-!
# ByteTurn.OpenAiCompatible.ToolCalls

How the tool calls of a stream are put together from its fragments.

The calls are indexed by the integer part of a fragment's number, where it fits
into 64 bits, from zero up to the largest index (`foldl_growCalls`): every index
below it has a call, also one that no fragment mentions, and fragments whose
numbers are read alike share a call.  So the calls are the ones the fragments
spell exactly when the numbers are read apart, no index is left out, and none is
read out of order (`assembled_iff`).
-/

namespace ByteTurn

open Buckets

/-- The value of a double; its magnitude is not negative.  Of the values that no
text spells only the positive infinity counts. -/
def numberValue : Double → WithTop ℚ
  | .finite false magnitude => (magnitude : ℚ)
  | .finite true magnitude => (-|magnitude| : ℚ)
  | .infinite false => ⊤
  | _ => (0 : ℚ)

namespace OpenAiCompatibleLlm

variable {platform : Platform}

/-! ## fragments -/

/-- The number a fragment gives as its index; without one it is zero. -/
def fragmentNumber (item : Json) : WithTop ℚ :=
  match item.find (lit "index") with
  | some (.number number) => numberValue number
  | _ => (0 : ℚ)

/-- The index a number is read as. -/
def readIndex (platform : Platform) : WithTop ℚ → Nat
  | ⊤ => platform.tooLarge (.infinite false)
  | (q : ℚ) => if ⌊q⌋₊ < 2 ^ 64 then ⌊q⌋₊ else platform.tooLarge (.finite false q)

theorem indexOrZero_number (number : Double) :
    Json.indexOrZero (fun d => platform.tooLarge d) (.number number) =
      readIndex platform (numberValue number) := by
  unfold Json.indexOrZero
  dsimp only
  cases number with
  | finite negative magnitude =>
      cases negative with
      | false =>
          show Option.getD (if _ then _ else _) _ = if _ then _ else _
          split <;> rfl
      | true =>
          have hfloor : ⌊-|magnitude|⌋₊ = 0 :=
            Nat.floor_of_nonpos (neg_nonpos.mpr (abs_nonneg magnitude))
          have hread : readIndex platform (numberValue (.finite true magnitude)) = 0 := by
            show (if ⌊-|magnitude|⌋₊ < 2 ^ 64 then ⌊-|magnitude|⌋₊ else _) = 0
            rw [hfloor]
            rfl
          rw [hread]
          by_cases hzero : magnitude = 0
          · simp [Double.isNonneg, Double.toUInt64?, hzero]
          · simp [Double.isNonneg, hzero]
  | infinite negative | nan negative => cases negative <;> rfl

theorem fragmentIndex_eq (platform : Platform) (item : Json) :
    fragmentIndex platform item = readIndex platform (fragmentNumber item) := by
  unfold fragmentIndex fragmentNumber
  cases item.find (lit "index") with
  | none => rfl
  | some index =>
      cases index with
      | number number => exact indexOrZero_number number
      | null | bool _ | string _ | array _ | object _ => rfl

/-- The call that fragments spell, in their order. -/
def joinFragments (items : List Json) : ToolCall where
  id := items.flatMap (fragmentText · (lit "id"))
  name := items.flatMap (functionText · (lit "name"))
  arguments := items.flatMap (functionText · (lit "arguments"))

/-- The fragments of one index. -/
def fragmentsAt (platform : Platform) (items : List Json) (i : Nat) : List Json :=
  items.filter (fragmentIndex platform · = i)

theorem joinFragments_append (items : List Json) (item : Json) :
    joinFragments (items ++ [item]) = extendCall item (joinFragments items) := by
  simp [joinFragments, extendCall]

theorem joinFragmentsAt_append (items : List Json) (item : Json) (i : Nat) :
    joinFragments (fragmentsAt platform (items ++ [item]) i) =
      if fragmentIndex platform item = i then
        extendCall item (joinFragments (fragmentsAt platform items i))
      else joinFragments (fragmentsAt platform items i) := by
  rw [fragmentsAt, List.filter_append]
  split
  · next hi =>
    rw [List.filter_cons_of_pos (by simpa using hi), List.filter_nil, joinFragments_append]
    rfl
  · next hi =>
    rw [List.filter_cons_of_neg (by simpa using hi), List.filter_nil, List.append_nil]
    rfl

/-- The calls below `n`, as fragments spell them. -/
def callsBelow (platform : Platform) (items : List Json) (n : Nat) : List ToolCall :=
  (List.range n).map fun i => joinFragments (fragmentsAt platform items i)

/-- Calls that no fragment has mentioned yet are empty. -/
theorem callsBelow_pad {items : List Json} {n k : Nat}
    (hitems : ∀ item ∈ items, fragmentIndex platform item < n) :
    callsBelow platform items n ++ List.replicate k ⟨[], [], []⟩ =
      callsBelow platform items (n + k) := by
  rw [callsBelow, callsBelow, List.range_add, List.map_append, List.map_map]
  congr 1
  symm
  rw [List.eq_replicate_iff]
  refine ⟨by simp, ?_⟩
  intro call hcall
  obtain ⟨j, -, rfl⟩ := List.mem_map.mp hcall
  have hnone : fragmentsAt platform items (n + j) = [] := by
    rw [fragmentsAt, List.filter_eq_nil_iff]
    intro item hitem
    have hlt := hitems item hitem
    simp only [decide_eq_true_eq]
    omega
  rw [Function.comp_apply, hnone]
  rfl

theorem callsBelow_extend {items : List Json} {item : Json} {n : Nat} :
    (callsBelow platform items n).modify (fragmentIndex platform item) (extendCall item) =
      callsBelow platform (items ++ [item]) n := by
  refine List.ext_getElem? fun j => ?_
  rw [List.getElem?_modify, callsBelow, callsBelow, List.getElem?_map, List.getElem?_map]
  cases hj : (List.range n)[j]? with
  | none => rfl
  | some i =>
      obtain rfl : j = i := by
        obtain ⟨hlt, hget⟩ := List.getElem?_eq_some_iff.mp hj
        simpa using hget
      simp only [Option.map_some, Option.map_eq_map, joinFragmentsAt_append]

/-- The calls of the fragments read so far: one for each index up to the largest. -/
theorem foldl_growCalls (platform : Platform) (items : List Json) :
    ∃ n, items.foldl (growCalls platform) [] = callsBelow platform items n ∧
      (∀ item ∈ items, fragmentIndex platform item < n) ∧
      (n = 0 ∨ ∃ item ∈ items, fragmentIndex platform item + 1 = n) := by
  induction items using List.reverseRecOn with
  | nil => exact ⟨0, rfl, by simp, .inl rfl⟩
  | append_singleton items item ih =>
      obtain ⟨n, hcalls, hbelow, hlargest⟩ := ih
      refine ⟨n + (fragmentIndex platform item + 1 - n), ?_, ?_, ?_⟩
      · have hlength : (callsBelow platform items n).length = n := by simp [callsBelow]
        rw [List.foldl_append, hcalls, List.foldl_cons, List.foldl_nil, growCalls, hlength,
          callsBelow_pad hbelow, callsBelow_extend]
      · intro item' hitem'
        cases List.mem_append.mp hitem' with
        | inl h =>
            have hlt := hbelow item' h
            omega
        | inr h =>
            rw [List.mem_singleton.mp h]
            omega
      · by_cases hlt : fragmentIndex platform item < n
        · obtain rfl | ⟨item', hitem', heq⟩ := hlargest
          · omega
          · exact .inr ⟨item', List.mem_append_left _ hitem', by omega⟩
        · exact .inr ⟨item, by simp, by omega⟩

/-! ## what a stream should return -/

/-- The numbers that occur, in increasing order. -/
def indexNumbers (items : List Json) : List (WithTop ℚ) := sortUnique (items.map fragmentNumber)

/-- The call that the fragments of a number spell. -/
def spelledCall (items : List Json) (q : WithTop ℚ) : ToolCall :=
  joinFragments (items.filter (fragmentNumber · = q))

/-- The calls are the ones the fragments spell: one for each number that occurs,
in increasing order, made of that number's fragments in their order; and no call
that no fragment mentions. -/
def Assembled (platform : Platform) (items : List Json) (calls : List ToolCall) : Prop :=
  calls = (indexNumbers items).map (spelledCall items) ∧
    ∀ i < calls.length, ∃ item ∈ items, fragmentIndex platform item = i

/-- Different numbers are read as different indices, and no index is left out
below one that occurs.  The index of a number is its place in their order, but for
numbers whose fragments spell one call: only the cast of a number beyond 64 bits
can put one elsewhere. -/
structure Dense (platform : Platform) (items : List Json) : Prop where
  apart : ∀ f ∈ items, ∀ g ∈ items, fragmentIndex platform f = fragmentIndex platform g →
    fragmentNumber f = fragmentNumber g
  below : ∀ f ∈ items, ∀ i < fragmentIndex platform f, ∃ g ∈ items, fragmentIndex platform g = i
  ordered : ∀ f ∈ items, ∀ g ∈ items,
    fragmentIndex platform f = lowerBound (indexNumbers items) (fragmentNumber g) →
    spelledCall items (fragmentNumber f) = spelledCall items (fragmentNumber g)

theorem indexNumbers_increasing (items : List Json) : (indexNumbers items).Pairwise (· < ·) :=
  sortUnique_pairwise _

theorem mem_indexNumbers {items : List Json} {q : WithTop ℚ} :
    q ∈ indexNumbers items ↔ ∃ item ∈ items, fragmentNumber item = q := by
  rw [indexNumbers, mem_sortUnique, List.mem_map]

theorem indexNumbers_nodup (items : List Json) : (indexNumbers items).Nodup :=
  (indexNumbers_increasing items).imp fun hlt => hlt.ne

/-- There are no more calls than fragments. -/
theorem Assembled.length_le {items : List Json} {calls : List ToolCall}
    (h : Assembled platform items calls) : calls.length ≤ items.length := by
  have hsub : indexNumbers items ⊆ items.map fragmentNumber := fun q hq =>
    List.mem_map.mpr (mem_indexNumbers.mp hq)
  rw [h.1, List.length_map]
  simpa using ((indexNumbers_nodup items).subperm hsub).length_le

/-- A list of `n` numbers below `n` that misses none repeats none. -/
theorem nodup_of_range_subset {l : List Nat} {n : Nat} (hlength : l.length = n)
    (hall : ∀ i < n, i ∈ l) : l.Nodup := by
  have hsub : List.range n ⊆ l := fun i hi => hall i (List.mem_range.mp hi)
  have hperm := (List.nodup_range.subperm hsub).perm_of_length_le (by simp [hlength])
  exact hperm.nodup_iff.mp List.nodup_range

/-- Where different numbers are read as different indices, the fragments of an
index are those of a number. -/
theorem spelled_of_apart {items : List Json}
    (hapart : ∀ f ∈ items, ∀ g ∈ items, fragmentIndex platform f = fragmentIndex platform g →
      fragmentNumber f = fragmentNumber g) {f : Json} (hf : f ∈ items) :
    joinFragments (fragmentsAt platform items (fragmentIndex platform f)) =
      spelledCall items (fragmentNumber f) := by
  refine congrArg joinFragments (List.filter_congr fun g hg => ?_)
  rw [decide_eq_decide]
  refine ⟨hapart g hg f hf, fun heq => ?_⟩
  rw [fragmentIndex_eq, heq, ← fragmentIndex_eq]

/-- The call at an index is the one its fragments spell. -/
theorem callsBelow_getElem? {items : List Json} {i n : Nat} (hi : i < n) :
    (callsBelow platform items n)[i]? =
      some (joinFragments (fragmentsAt platform items i)) := by
  rw [callsBelow, List.getElem?_map, List.getElem?_range hi]
  rfl

theorem dense_of_assembled {items : List Json}
    (h : Assembled platform items (items.foldl (growCalls platform) [])) :
    Dense platform items := by
  obtain ⟨n, hcalls, hbelow, -⟩ := foldl_growCalls platform items
  obtain ⟨heq, hmentioned⟩ := h
  have hlength : (items.foldl (growCalls platform) []).length = n := by
    rw [hcalls]
    simp [callsBelow]
  rw [hlength] at hmentioned
  have hcount : ((indexNumbers items).map (readIndex platform)).length = n := by
    rw [heq] at hlength
    simpa using hlength
  have hread : ∀ item ∈ items,
      fragmentIndex platform item ∈ (indexNumbers items).map (readIndex platform) := by
    intro item hitem
    rw [fragmentIndex_eq]
    exact List.mem_map_of_mem (mem_indexNumbers.mpr ⟨item, hitem, rfl⟩)
  have hnodup : ((indexNumbers items).map (readIndex platform)).Nodup := by
    refine nodup_of_range_subset hcount fun i hi => ?_
    obtain ⟨item, hitem, rfl⟩ := hmentioned i hi
    exact hread item hitem
  have hapart : ∀ f ∈ items, ∀ g ∈ items,
      fragmentIndex platform f = fragmentIndex platform g →
        fragmentNumber f = fragmentNumber g := by
    intro f hf g hg hindex
    rw [fragmentIndex_eq, fragmentIndex_eq] at hindex
    exact List.inj_on_of_nodup_map hnodup (mem_indexNumbers.mpr ⟨f, hf, rfl⟩)
      (mem_indexNumbers.mpr ⟨g, hg, rfl⟩) hindex
  refine ⟨hapart, fun f hf i hi => hmentioned i (Nat.lt_trans hi (hbelow f hf)), ?_⟩
  -- the call at the place of a number is the one its fragments spell
  intro f hf g hg hplace
  obtain ⟨k, hk⟩ := List.mem_iff_getElem?.mp (mem_indexNumbers.mpr ⟨g, hg, rfl⟩)
  rw [lowerBound_bound (indexNumbers_increasing items) hk] at hplace
  have hcall := @callsBelow_getElem? platform items _ n (hbelow f hf)
  rw [← hcalls, heq, hplace, List.getElem?_map, hk, ← hplace, spelled_of_apart hapart hf] at hcall
  exact (Option.some.inj hcall).symm

theorem assembled_of_dense {items : List Json} (h : Dense platform items) :
    Assembled platform items (items.foldl (growCalls platform) []) := by
  obtain ⟨n, hcalls, hbelow, hlargest⟩ := foldl_growCalls platform items
  have hmentioned : ∀ i < n, ∃ item ∈ items, fragmentIndex platform item = i := by
    intro i hi
    obtain rfl | ⟨f, hf, rfl⟩ := hlargest
    · omega
    · obtain hlt | heq := Nat.lt_succ_iff_lt_or_eq.mp hi
      · exact h.below f hf i hlt
      · exact ⟨f, hf, heq.symm⟩
  -- the numbers are read as the indices, one each
  have hnodup : ((indexNumbers items).map (readIndex platform)).Nodup := by
    refine (indexNumbers_nodup items).map_on fun q hq r hr hread => ?_
    obtain ⟨f, hf, rfl⟩ := mem_indexNumbers.mp hq
    obtain ⟨g, hg, rfl⟩ := mem_indexNumbers.mp hr
    rw [← fragmentIndex_eq, ← fragmentIndex_eq] at hread
    exact h.apart f hf g hg hread
  have hperm : ((indexNumbers items).map (readIndex platform)).Perm (List.range n) := by
    rw [List.perm_ext_iff_of_nodup hnodup List.nodup_range]
    intro i
    rw [List.mem_map, List.mem_range]
    constructor
    · rintro ⟨q, hq, rfl⟩
      obtain ⟨f, hf, rfl⟩ := mem_indexNumbers.mp hq
      rw [← fragmentIndex_eq]
      exact hbelow f hf
    · intro hi
      obtain ⟨f, hf, rfl⟩ := hmentioned i hi
      exact ⟨fragmentNumber f, mem_indexNumbers.mpr ⟨f, hf, rfl⟩,
        (fragmentIndex_eq platform f).symm⟩
  have hlength : (indexNumbers items).length = n := by simpa using hperm.length_eq
  refine ⟨?_, ?_⟩
  · refine List.ext_getElem? fun k => ?_
    rw [hcalls, List.getElem?_map]
    by_cases hk : k < n
    · obtain ⟨f, hf, rfl⟩ := hmentioned k hk
      obtain ⟨q, hq⟩ : ∃ q, (indexNumbers items)[fragmentIndex platform f]? = some q :=
        ⟨_, List.getElem?_eq_getElem (by omega)⟩
      obtain ⟨g, hg, rfl⟩ := mem_indexNumbers.mp (List.mem_of_getElem? hq)
      have hplace := lowerBound_bound (indexNumbers_increasing items) hq
      rw [callsBelow_getElem? hk, hq, spelled_of_apart h.apart hf,
        h.ordered f hf g hg hplace.symm]
      rfl
    · rw [List.getElem?_eq_none (by simpa [callsBelow] using hk),
        List.getElem?_eq_none (by omega)]
      rfl
  · rw [hcalls]
    intro i hi
    exact hmentioned i (by simpa [callsBelow] using hi)

/-- The calls are the ones the fragments spell exactly when these are dense. -/
theorem assembled_iff (items : List Json) :
    Assembled platform items (items.foldl (growCalls platform) []) ↔ Dense platform items :=
  ⟨dense_of_assembled, assembled_of_dense⟩

/-! ## the fragments of a stream -/

/-- The tool-call fragments of a stream, up to `[DONE]`. -/
def streamFragments (bytes : Bytes) : List Json :=
  (decodedEvents (SseParser.events bytes)).flatMap eventFragments

theorem onText_calls {onTextDelta : TextDeltaSink} {text : Bytes} {s t : StreamState}
    (h : (onText onTextDelta text).run s = .ok () t) :
    t.done = s.done ∧ t.turn.toolCalls = s.turn.toolCalls := by
  unfold onText at h
  split at h
  · obtain ⟨u, v, hget, hset⟩ := Programs.ok_of_bind h
    obtain ⟨rfl, rfl⟩ := EStateM.Result.ok.inj hget
    obtain ⟨_, w, hset, hsink⟩ := Programs.ok_of_bind hset
    obtain ⟨_, rfl⟩ := EStateM.Result.ok.inj hset
    obtain ⟨accepted, x, hsink, hend⟩ := Programs.ok_of_bind hsink
    obtain ⟨_, rfl⟩ := run_decoding_ok hsink
    cases accepted with
    | false => contradiction
    | true =>
        obtain ⟨_, rfl⟩ := EStateM.Result.ok.inj hend
        exact ⟨rfl, rfl⟩
  · obtain ⟨_, rfl⟩ := EStateM.Result.ok.inj h
    exact ⟨rfl, rfl⟩

theorem onToolCalls_calls {delta : Json} {s t : StreamState}
    (h : (onToolCalls platform delta).run s = .ok () t) :
    t.done = s.done ∧
      t.turn.toolCalls =
        (delta.itemsOf (lit "tool_calls")).foldl (growCalls platform) s.turn.toolCalls := by
  unfold onToolCalls at h
  cases hfind : delta.find (lit "tool_calls") with
  | none =>
      rw [hfind] at h
      obtain ⟨_, rfl⟩ := EStateM.Result.ok.inj h
      rw [Json.itemsOf, hfind]
      exact ⟨rfl, rfl⟩
  | some calls =>
      rw [hfind] at h
      obtain ⟨items, u, hread, hadd⟩ := Programs.ok_of_bind h
      obtain ⟨hitems, rfl⟩ := run_decoding_ok hread
      obtain ⟨-, rfl⟩ := onFragments_ok hadd
      rw [array_of_items hitems] at hfind
      rw [itemsOf_of_find hfind]
      exact ⟨rfl, rfl⟩

theorem onDelta_calls {onTextDelta : TextDeltaSink} {delta : Json} {s t : StreamState}
    (h : (onDelta platform onTextDelta delta).run s = .ok () t) :
    t.done = s.done ∧
      t.turn.toolCalls =
        (delta.itemsOf (lit "tool_calls")).foldl (growCalls platform) s.turn.toolCalls := by
  unfold onDelta at h
  dsimp only at h
  cases hfind : delta.find (lit "content") with
  | none =>
      rw [hfind] at h
      exact onToolCalls_calls h
  | some content =>
      rw [hfind] at h
      obtain ⟨_, u, htext, hcalls⟩ := Programs.ok_of_bind h
      obtain ⟨hdone, hsame⟩ := onText_calls htext
      obtain ⟨hdone', hcalls⟩ := onToolCalls_calls hcalls
      exact ⟨hdone'.trans hdone, by rw [hcalls, hsame]⟩

/-- One event: its fragments are added, unless it is `[DONE]` or comes after it. -/
theorem onEvent_calls {onTextDelta : TextDeltaSink} {event : Bytes} {s t : StreamState}
    (h : (onEvent platform onTextDelta event).run s = .ok () t) :
    if s.done = true then t = s
    else if event = lit "[DONE]" then t.done = true ∧ t.turn = s.turn
    else t.done = false ∧
      t.turn.toolCalls = (eventFragments event).foldl (growCalls platform) s.turn.toolCalls := by
  unfold onEvent at h
  obtain ⟨u, v, hget, hbody⟩ := Programs.ok_of_bind h
  obtain ⟨rfl, rfl⟩ := EStateM.Result.ok.inj hget
  split
  · next hdone =>
      rw [if_pos hdone] at hbody
      obtain ⟨_, rfl⟩ := EStateM.Result.ok.inj hbody
      rfl
  · next hdone =>
      rw [if_neg hdone] at hbody
      have hdone := eq_false_of_ne_true hdone
      split
      · next hmarker =>
          rw [if_pos hmarker] at hbody
          obtain ⟨_, rfl⟩ := EStateM.Result.ok.inj hbody
          exact ⟨rfl, rfl⟩
      · next hmarker =>
          rw [if_neg hmarker] at hbody
          obtain ⟨root, v, hparse, hselect⟩ := Programs.ok_of_bind hbody
          obtain ⟨hroot, rfl⟩ := run_decoding_ok hparse
          obtain ⟨delta, w, hselect, hend⟩ := Programs.ok_of_bind hselect
          obtain ⟨hdelta, rfl⟩ := run_decoding_ok hselect
          rw [eventFragments_eq hroot hdelta]
          cases delta with
          | none =>
              obtain ⟨_, rfl⟩ := EStateM.Result.ok.inj hend
              exact ⟨hdone, rfl⟩
          | some delta =>
              obtain ⟨hsame, hcalls⟩ := onDelta_calls hend
              exact ⟨hsame.trans hdone, hcalls⟩

/-- By induction on the events: the fragments up to `[DONE]` are added in their order. -/
theorem onEvents_calls {onTextDelta : TextDeltaSink} {events : List Bytes} {s t : StreamState}
    (h : (forM events (onEvent platform onTextDelta) : StreamM Unit).run s = .ok () t) :
    if s.done = true then t = s
    else t.turn.toolCalls =
      ((decodedEvents events).flatMap eventFragments).foldl (growCalls platform)
        s.turn.toolCalls := by
  induction events generalizing s with
  | nil =>
      obtain ⟨_, rfl⟩ := EStateM.Result.ok.inj h
      split <;> rfl
  | cons event events ih =>
      rw [List.forM_cons] at h
      obtain ⟨_, u, hfirst, hrest⟩ := Programs.ok_of_bind h
      have hevent := onEvent_calls hfirst
      have hlater := ih hrest
      split
      · next hdone =>
          rw [if_pos hdone] at hevent
          rw [hevent, if_pos hdone] at hlater
          exact hlater
      · next hdone =>
          rw [if_neg hdone] at hevent
          split at hevent
          · next hmarker =>
              obtain ⟨hdone', hturn⟩ := hevent
              rw [if_pos hdone'] at hlater
              have hnone : decodedEvents (event :: events) = [] :=
                List.takeWhile_cons_of_neg (by simp [hmarker])
              rw [hlater, hturn, hnone]
              rfl
          · next hmarker =>
              obtain ⟨hdone', hcalls⟩ := hevent
              rw [if_neg (by simp [hdone']), hcalls] at hlater
              have hcons : decodedEvents (event :: events) = event :: decodedEvents events :=
                List.takeWhile_cons_of_pos (by simp [hmarker])
              rw [hlater, hcons, List.flatMap_cons, List.foldl_append]

/-- **When the tool calls are assembled exactly**: a stream that is accepted
returns the calls that its fragments before `[DONE]` spell exactly when these
are dense. -/
theorem streamed_calls_iff (platform : Platform) (llm : OpenAiCompatibleLlm)
    (history : List Message) (onTextDelta : TextDeltaSink) (turn : LlmTurn) (t : StreamState)
    (hrun : (stream platform llm history onTextDelta).run {} = .ok turn t) :
    ∃ request, llm.streamRequest history = .ok request ∧
      (Assembled platform (streamFragments (llm.perform request).chunks.flatten) turn.toolCalls ↔
        Dense platform (streamFragments (llm.perform request).chunks.flatten)) := by
  obtain ⟨request, hrequest, hevents, rfl⟩ := stream_events hrun
  have hcalls := onEvents_calls hevents
  rw [if_neg (by simp)] at hcalls
  refine ⟨request, hrequest, ?_⟩
  show Assembled platform _ t.turn.toolCalls ↔ _
  rw [hcalls]
  exact assembled_iff _

/-- A client whose server streams tool-call fragments, a list of them in each event. -/
def callingClient (events : List Bytes) : OpenAiCompatibleLlm where
  config := { model := lit "test-model" }
  perform := fun _ => ⟨events.map fun fragments =>
      lit "data: \x7b\"choices\":[\x7b\"delta\":\x7b\"tool_calls\":[" ++ fragments ++
        lit "]\x7d\x7d]\x7d\n\n",
    .ok { status := 200 }⟩
  model_ne := testModel_ne

/-- What the client returns. -/
def callingStream (events : List Bytes) : EStateM.Result Exception StreamState LlmTurn :=
  (stream amplePlatform (callingClient events) [Agent.userMessage (lit "hello")]
    fun _ _ => .ok true).run {}

/-- The fragments the client is sent. -/
def callingFragments (events : List Bytes) : List Json :=
  match (callingClient events).streamRequest [Agent.userMessage (lit "hello")] with
  | .ok request => streamFragments ((callingClient events).perform request).chunks.flatten
  | .error _ => []

/-- Two calls that begin in one event and end in the next. -/
def interleavedEvents : List Bytes :=
  [lit "\x7b\"index\":0,\"id\":\"a\"\x7d,\x7b\"index\":1,\"id\":\"b\"\x7d",
    lit "\x7b\"index\":0,\"function\":\x7b\"name\":\"now\"\x7d\x7d," ++
      lit "\x7b\"index\":1,\"function\":\x7b\"name\":\"day\"\x7d\x7d"]

theorem streamed_calls_iff_interleaved :
    ∃ turn t, callingStream interleavedEvents = .ok turn t ∧
      turn.toolCalls = [⟨lit "a", lit "now", []⟩, ⟨lit "b", lit "day", []⟩] ∧
      ∃ request, (callingClient interleavedEvents).streamRequest
          [Agent.userMessage (lit "hello")] = .ok request ∧
        (Assembled amplePlatform
            (streamFragments ((callingClient interleavedEvents).perform request).chunks.flatten)
            turn.toolCalls ↔
          Dense amplePlatform
            (streamFragments
              ((callingClient interleavedEvents).perform request).chunks.flatten)) := by
  have hcalls : (Programs.outcome (callingStream interleavedEvents)).toOption.map (·.toolCalls) =
      some [⟨lit "a", lit "now", []⟩, ⟨lit "b", lit "day", []⟩] := by
    decide +kernel
  cases hrun : callingStream interleavedEvents with
  | error e t =>
      rw [hrun] at hcalls
      contradiction
  | ok turn t =>
      rw [hrun] at hcalls
      exact ⟨turn, t, rfl, Option.some.inj hcalls, streamed_calls_iff amplePlatform
        (callingClient interleavedEvents) [Agent.userMessage (lit "hello")]
        (fun _ _ => .ok true) turn t hrun⟩

/-- One fragment with the index one makes two calls. -/
theorem sparse_index_adds_a_call :
    ∃ turn t, callingStream [lit "\x7b\"index\":1,\"id\":\"b\"\x7d"] = .ok turn t ∧
      ¬ Assembled amplePlatform (callingFragments [lit "\x7b\"index\":1,\"id\":\"b\"\x7d"])
        turn.toolCalls := by
  have hcalls : (Programs.outcome
      (callingStream [lit "\x7b\"index\":1,\"id\":\"b\"\x7d"])).toOption.map
        (·.toolCalls.length) = some 2 := by decide +kernel
  have hfragments :
      (callingFragments [lit "\x7b\"index\":1,\"id\":\"b\"\x7d"]).length = 1 := by
    decide +kernel
  cases hrun : callingStream [lit "\x7b\"index\":1,\"id\":\"b\"\x7d"] with
  | error e t =>
      rw [hrun] at hcalls
      contradiction
  | ok turn t =>
      rw [hrun] at hcalls
      refine ⟨turn, t, rfl, fun hassembled => ?_⟩
      have hle := hassembled.length_le
      have htwo : turn.toolCalls.length = 2 := Option.some.inj hcalls
      omega

end OpenAiCompatibleLlm

end ByteTurn

import ByteTurn.CurlTransport
import ByteTurn.Lib.Lists

/-!
# ByteTurn.CurlTransport.Attempts

How a call of `perform` proceeds: the effect of each callback, and the rules
for a fact that every callback of an attempt keeps (`transfer_rule`) and for one
that every attempt of the loop keeps (`performFrom_rule`).

Both rules carry an assumption on libcurl beside the fact.  It is stated on the
history of the whole call, and holds of every part of it.
-/

namespace ByteTurn

open SignedWords

/-! ## the script of an attempt -/

namespace CurlAttempt

/-- The block of a call of `write_body`. -/
def blocksOf (calls : List CurlCall) : List Bytes :=
  calls.filterMap fun | .body block => some block | _ => none

/-- The header lines among some callbacks. -/
def linesOf (calls : List CurlCall) : List Bytes :=
  calls.filterMap fun | .header line => some line | _ => none

/-- The blocks of two sequences of calls, one after the other. -/
@[simp] theorem blocksOf_append (calls calls' : List CurlCall) :
    blocksOf (calls ++ calls') = blocksOf calls ++ blocksOf calls' := List.filterMap_append

@[simp] theorem blocksOf_body (block : Bytes) : blocksOf [.body block] = [block] := rfl

@[simp] theorem blocksOf_header (line : Bytes) : blocksOf [.header line] = [] := rfl

@[simp] theorem blocksOf_progress : blocksOf [.progress] = [] := rfl

/-- The header lines of two sequences of calls, one after the other. -/
@[simp] theorem linesOf_append (calls calls' : List CurlCall) :
    linesOf (calls ++ calls') = linesOf calls ++ linesOf calls' := List.filterMap_append

@[simp] theorem linesOf_body (block : Bytes) : linesOf [.body block] = [] := rfl

@[simp] theorem linesOf_header (line : Bytes) : linesOf [.header line] = [line] := rfl

@[simp] theorem linesOf_progress : linesOf [.progress] = [] := rfl

/-- The blocks of an attempt. -/
def blocks (curl : CurlAttempt) : List Bytes := blocksOf curl.calls

/-- The headers of an attempt. -/
def headers (curl : CurlAttempt) : Table Bytes Bytes :=
  (linesOf curl.calls).foldl CurlHttpTransport.writeHeader ∅

end CurlAttempt

namespace CurlHttpTransport

open CurlAttempt

variable {config : CurlTransportConfig} {request : TransportRequest} {attempt : Nat}
  {environment : CurlEnvironment} {curl : Nat → CurlAttempt} {s t : TransferState} {c : CurlCall}

/-! ## one callback -/

/-- What a callback can do to the state of a transfer. -/
inductive CallbackEffect (config : CurlTransportConfig) (request : TransportRequest)
    (attempt : Nat) (s : TransferState) : CurlCall → TransferState → Prop where
  | large {block : Bytes}
      (hsize : config.maxResponseBytes - min config.maxResponseBytes s.receivedBytes <
        block.length) :
      CallbackEffect config request attempt s (.body block) { s with
        tooLarge := true
        history := s.history ++ [.wrote attempt block.length 0] }
  | stored {block : Bytes} (hsink : request.bodySink = none) :
      CallbackEffect config request attempt s (.body block) { s with
        receivedBytes := s.receivedBytes + block.length
        response := { s.response with body := s.response.body ++ block }
        history := s.history ++ [.wrote attempt block.length block.length] }
  | accepted {block : Bytes} {sink : List Bytes → Bytes → Except Exception Bool}
      (hsink : request.bodySink = some sink)
      (hsize : block.length ≤
        config.maxResponseBytes - min config.maxResponseBytes s.receivedBytes)
      (hanswer : sink (givenBlocks s.history) block = .ok true) :
      CallbackEffect config request attempt s (.body block) { s with
        receivedBytes := s.receivedBytes + block.length
        history := s.history ++ [.sunk attempt block (.ok true),
          .wrote attempt block.length block.length] }
  | refused {block : Bytes} {sink : List Bytes → Bytes → Except Exception Bool}
      (hsink : request.bodySink = some sink)
      (hsize : block.length ≤
        config.maxResponseBytes - min config.maxResponseBytes s.receivedBytes)
      (hanswer : sink (givenBlocks s.history) block = .ok false) :
      CallbackEffect config request attempt s (.body block) { s with
        receivedBytes := s.receivedBytes + block.length
        history := s.history ++ [.sunk attempt block (.ok false), .wrote attempt block.length 0] }
  | threw {block : Bytes} {sink : List Bytes → Bytes → Except Exception Bool}
      {exception : Exception} (hsink : request.bodySink = some sink)
      (hsize : block.length ≤
        config.maxResponseBytes - min config.maxResponseBytes s.receivedBytes)
      (hanswer : sink (givenBlocks s.history) block = .error exception) :
      CallbackEffect config request attempt s (.body block) { s with
        receivedBytes := s.receivedBytes + block.length
        sinkError := some exception
        history := s.history ++ [.sunk attempt block (.error exception),
          .wrote attempt block.length 0] }
  | header (line : Bytes) :
      CallbackEffect config request attempt s (.header line) { s with
        response := { s.response with headers := writeHeader s.response.headers line } }
  | unpolled (hnone : request.cancelled = none) :
      CallbackEffect config request attempt s .progress s
  | polled {cancelled : Nat → Bool} (hsome : request.cancelled = some cancelled) :
      CallbackEffect config request attempt s .progress { s with
        history := s.history ++ [.polled (cancelled (polls s.history))] }

/-- Each callback does what its kind may do. -/
theorem callback_effect (config : CurlTransportConfig) (request : TransportRequest)
    (attempt : Nat) (s : TransferState) (c : CurlCall) :
    CallbackEffect config request attempt s c (callback config request attempt s c) := by
  cases c with
  | header line => exact .header line
  | progress =>
      unfold callback poll
      cases hcancelled : request.cancelled with
      | none => exact .unpolled hcancelled
      | some cancelled => exact .polled hcancelled
  | body block =>
      unfold callback writeBody
      dsimp only
      split
      · next hsize => exact .large hsize
      next hsize =>
      cases hsink : request.bodySink with
      | none => exact .stored hsink
      | some sink =>
          unfold deliver
          dsimp only
          cases hanswer : sink (givenBlocks s.history) block with
          | error exception =>
              have heffect := @CallbackEffect.threw config request attempt s block sink exception
                hsink (Nat.not_lt.mp hsize) hanswer
              simpa using heffect
          | ok answer =>
              cases answer with
              | true =>
                  have heffect := @CallbackEffect.accepted config request attempt s block sink
                    hsink (Nat.not_lt.mp hsize) hanswer
                  simpa using heffect
              | false =>
                  have heffect := @CallbackEffect.refused config request attempt s block sink
                    hsink (Nat.not_lt.mp hsize) hanswer
                  simpa using heffect

/-- A callback takes nothing back of what has happened. -/
theorem CallbackEffect.history_extends (h : CallbackEffect config request attempt s c t) :
    s.history <+: t.history := by
  cases h with
  | header line | unpolled hnone => exact List.prefix_refl _
  | _ => exact List.prefix_append _ _

/-- So the history only grows, whatever is called. -/
theorem callback_extends (config : CurlTransportConfig) (request : TransportRequest)
    (attempt : Nat) (s : TransferState) (c : CurlCall) :
    s.history <+: (callback config request attempt s c).history :=
  (callback_effect config request attempt s c).history_extends

/-- It grows over all the calls of a transfer. -/
theorem foldl_callback_extends (calls : List CurlCall) (s : TransferState) :
    s.history <+: (calls.foldl (callback config request attempt) s).history := by
  induction calls generalizing s with
  | nil => exact List.prefix_refl _
  | cons c calls ih => exact (callback_extends config request attempt s c).trans (ih _)

/-- A transfer begins with its own entry in the history. -/
theorem transfer_extends (history : List HttpEvent) (curl : CurlAttempt) :
    history ++ [.started attempt] <+: (transfer config request attempt history curl).history :=
  @foldl_callback_extends config request attempt curl.calls
    { history := history ++ [.started attempt] }

/-! ## one attempt -/

/-- A fact that holds of every part of a history it holds of. -/
def PrefixClosed (O : List HttpEvent → Prop) : Prop := ∀ h k, h <+: k → O k → O h

/-- **Attempt rule**: what holds of a fresh transfer and is kept by every
callback holds at the end of the attempt. -/
theorem transfer_rule {O : List HttpEvent → Prop} (hO : PrefixClosed O)
    {P : List CurlCall → TransferState → Prop} {history : List HttpEvent} {curl : CurlAttempt}
    (hstart : P [] { history := history ++ [.started attempt] })
    (hstep : ∀ done s c t, P done s → O t.history →
      CallbackEffect config request attempt s c t → P (done ++ [c]) t)
    (hassumed : O (transfer config request attempt history curl).history) :
    P curl.calls (transfer config request attempt history curl) := by
  unfold transfer at hassumed ⊢
  generalize curl.calls = calls at hassumed ⊢
  induction calls using List.reverseRecOn with
  | nil => exact hstart
  | append_singleton done c ih =>
      rw [List.foldl_append, List.foldl_cons, List.foldl_nil] at hassumed ⊢
      have heffect := callback_effect config request attempt
        (done.foldl (callback config request attempt)
          { history := history ++ [.started attempt] }) c
      exact hstep done _ c _ (ih (hO _ _ heffect.history_extends hassumed)) hassumed heffect

/-- A rule for facts that need no assumption. -/
theorem transfer_rule_true {P : List CurlCall → TransferState → Prop} {history : List HttpEvent}
    {curl : CurlAttempt} (hstart : P [] { history := history ++ [.started attempt] })
    (hstep : ∀ done s c t, P done s → CallbackEffect config request attempt s c t →
      P (done ++ [c]) t) :
    P curl.calls (transfer config request attempt history curl) :=
  transfer_rule (O := fun _ => True) (fun _ _ _ _ => trivial) hstart
    (fun done s c t hp _ heffect => hstep done s c t hp heffect) trivial

/-- The response of an attempt is that of its own callbacks. -/
theorem transfer_response (history : List HttpEvent) (curl : CurlAttempt) :
    (transfer config request attempt history curl).response.headers = curl.headers ∧
      (request.bodySink.isSome = true →
        (transfer config request attempt history curl).response.body = []) ∧
      ((transfer config request attempt history curl).tooLarge = false →
        request.bodySink = none →
        (transfer config request attempt history curl).response.body = curl.blocks.flatten) := by
  refine transfer_rule_true (P := fun done s =>
    s.response.headers = (linesOf done).foldl writeHeader ∅ ∧
    (request.bodySink.isSome = true → s.response.body = []) ∧
    (s.tooLarge = false → request.bodySink = none →
      s.response.body = (blocksOf done).flatten)) ⟨rfl, fun _ => rfl, fun _ _ => rfl⟩ ?_
  rintro done s c t ⟨hheaders, hsunk, hstored⟩ heffect
  rw [linesOf_append, blocksOf_append]
  cases heffect with
  | header line =>
      refine ⟨?_, hsunk, ?_⟩
      · rw [linesOf_header, List.foldl_append]
        exact congrArg (writeHeader · line) hheaders
      · simpa using hstored
  | large hsize =>
      refine ⟨?_, hsunk, nofun⟩
      simpa using hheaders
  | stored hsink =>
      refine ⟨?_, ?_, ?_⟩
      · simpa using hheaders
      · rw [hsink]
        nofun
      · intro hsmall hnone
        have hbody := hstored hsmall hnone
        simp [hbody]
  | accepted hsink _ _ | refused hsink _ _ | threw hsink _ _ =>
      refine ⟨?_, hsunk, ?_⟩
      · simpa using hheaders
      · rw [hsink]
        nofun
  | unpolled hnone | polled hsome =>
      refine ⟨?_, hsunk, ?_⟩
      · simpa using hheaders
      · simpa using hstored

/-! ## the loop -/

/-- How an attempt that is not repeated ends. -/
inductive AttemptEnd (config : CurlTransportConfig) (request : TransportRequest)
    (environment : CurlEnvironment) (attempt : Nat) (curl : CurlAttempt) (s : TransferState) :
    Except PerformError TransportResponse → Prop where
  | tooLarge (hlarge : s.tooLarge = true) :
      AttemptEnd config request environment attempt curl s (.error .responseTooLarge)
  | sink {exception : Exception} (hlarge : s.tooLarge = false)
      (hsink : s.sinkError = some exception) :
      AttemptEnd config request environment attempt curl s (.error (.sink exception))
  | aborted (hlarge : s.tooLarge = false) (hsink : s.sinkError = none)
      (hcode : curl.code = .abortedByCallback) :
      AttemptEnd config request environment attempt curl s (.error .cancelled)
  | concluded (hlarge : s.tooLarge = false) (hsink : s.sinkError = none)
      (hretry : retry config request attempt s curl = false) :
      AttemptEnd config request environment attempt curl s
        (conclude environment curl s.response)

/-- A poll is added to the history. -/
theorem poll_extends (request : TransportRequest) (history : List HttpEvent) :
    history <+: (poll request history).2 := by
  unfold poll
  cases request.cancelled with
  | none => exact List.prefix_refl _
  | some cancelled => exact List.prefix_append _ _

/-- Later attempts add to the history of the earlier ones. -/
theorem performFrom_extends (left attempt : Nat) (backoff : Int) (history : List HttpEvent) :
    history <+: (performFrom config request environment curl left attempt backoff history).2 := by
  induction left generalizing attempt backoff history with
  | zero => exact List.prefix_refl _
  | succ left ih =>
      unfold performFrom
      dsimp only
      split
      · exact poll_extends request history
      have hattempt : history <+: (transfer config request attempt (poll request history).2
          (curl attempt)).history :=
        (poll_extends request history).trans
          ((List.prefix_append _ _).trans (transfer_extends _ _))
      split
      · exact hattempt
      split
      · exact hattempt
      split
      · exact hattempt
      split
      · exact hattempt.trans ((List.prefix_append _ _).trans (ih _ _ _))
      · exact hattempt

/-- **Loop rule**: `I` is a fact at the head of the loop and `Q` one about the
end of the call.  There is always an attempt that ends the call. -/
theorem performFrom_rule {O : List HttpEvent → Prop} (hO : PrefixClosed O)
    {I : Nat → Int → List HttpEvent → Prop}
    {Q : Except PerformError TransportResponse → List HttpEvent → Prop}
    (hcancelled : ∀ n backoff h, I n backoff h → (poll request h).1 = true →
      Q (.error .cancelled) (poll request h).2)
    (hended : ∀ n backoff h r, n ≤ config.maxAttempts → I n backoff h →
      (poll request h).1 = false →
      O (transfer config request n (poll request h).2 (curl n)).history →
      AttemptEnd config request environment n (curl n)
        (transfer config request n (poll request h).2 (curl n)) r →
      Q r (transfer config request n (poll request h).2 (curl n)).history)
    (hretried : ∀ n backoff h, I n backoff h → (poll request h).1 = false →
      O (transfer config request n (poll request h).2 (curl n)).history →
      (transfer config request n (poll request h).2 (curl n)).tooLarge = false →
      (transfer config request n (poll request h).2 (curl n)).sinkError = none →
      retry config request n (transfer config request n (poll request h).2 (curl n)) (curl n) =
        true →
      I (n + 1) (min (wrap (backoff * 2)) config.maxBackoff)
        ((transfer config request n (poll request h).2 (curl n)).history ++
          [.slept n (retryDelay config n environment backoff
            (transfer config request n (poll request h).2 (curl n)).response.headers)]))
    (left attempt : Nat) (backoff : Int) (history : List HttpEvent)
    (hleft : attempt + left = config.maxAttempts + 1) (hpos : 0 < left)
    (hI : I attempt backoff history)
    (hassumed :
      O (performFrom config request environment curl left attempt backoff history).2) :
    Q (performFrom config request environment curl left attempt backoff history).1
      (performFrom config request environment curl left attempt backoff history).2 := by
  induction left generalizing attempt backoff history with
  | zero => omega
  | succ left ih =>
      have hlast : attempt ≤ config.maxAttempts := by omega
      unfold performFrom at hassumed ⊢
      dsimp only at hassumed ⊢
      cases hpoll : (poll request history).1 with
      | true => exact hcancelled attempt backoff history hI hpoll
      | false =>
          rw [hpoll] at hassumed
          simp only [Bool.false_eq_true, if_false] at hassumed ⊢
          cases hlarge : (transfer config request attempt (poll request history).2
              (curl attempt)).tooLarge with
          | true =>
              simp only [hlarge, if_true] at hassumed ⊢
              exact hended _ _ _ _ hlast hI hpoll hassumed (.tooLarge hlarge)
          | false =>
              simp only [hlarge, Bool.false_eq_true, if_false] at hassumed ⊢
              cases hsink : (transfer config request attempt (poll request history).2
                  (curl attempt)).sinkError with
              | some exception =>
                  simp only [hsink] at hassumed ⊢
                  exact hended _ _ _ _ hlast hI hpoll hassumed (.sink hlarge hsink)
              | none =>
                  simp only [hsink] at hassumed ⊢
                  by_cases hcode : (curl attempt).code = .abortedByCallback
                  · rw [if_pos hcode] at hassumed ⊢
                    exact hended _ _ _ _ hlast hI hpoll hassumed (.aborted hlarge hsink hcode)
                  rw [if_neg hcode] at hassumed ⊢
                  cases hretry : retry config request attempt (transfer config request attempt
                      (poll request history).2 (curl attempt)) (curl attempt) with
                  | false =>
                      simp only [hretry, Bool.false_eq_true, if_false] at hassumed ⊢
                      exact hended _ _ _ _ hlast hI hpoll hassumed
                        (.concluded hlarge hsink hretry)
                  | true =>
                      simp only [hretry, if_true] at hassumed ⊢
                      have hmore : attempt < config.maxAttempts := by
                        unfold retry at hretry
                        simp only [Bool.and_eq_true, decide_eq_true_eq] at hretry
                        exact hretry.1.1
                      have hpart := hO _ _
                        ((List.prefix_append _ _).trans (performFrom_extends _ _ _ _)) hassumed
                      exact ih _ _ _ (by omega) (by omega)
                        (hretried _ _ _ hI hpoll hpart hlarge hsink hretry) hassumed

end CurlHttpTransport

end ByteTurn

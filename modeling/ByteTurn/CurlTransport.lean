import ByteTurn.OpenAiCompatible
import ByteTurn.Lib.SignedWords

/-!
# ByteTurn.CurlTransport

The HTTP transport over libcurl (`curl_transport.cpp`): the callbacks of a
transfer, the attempts of `perform` and the wait between two of them.

libcurl is outside the source.  What it does in an attempt is a script
(`CurlAttempt`): the callbacks it makes, in order, and what it reports.  The
caller's own code is a parameter too: the sink answers each block from the
blocks it was given before, and `request.cancelled` answers by the number of
times it was asked.

The history of a call of `perform` is read by no step but the caller's code.
Metrics and timings are left out.
-/

namespace ByteTurn

open SignedWords

/-! ## configuration and requests -/

/-- `CurlTransportConfig`, with the conditions the constructor checks.  Times
are in milliseconds. -/
structure CurlTransportConfig where
  connectTimeout : Int := 3000
  requestTimeout : Int := 30000
  initialBackoff : Int := 200
  maxBackoff : Int := 5000
  maxResponseBytes : Nat := 8 * 1024 * 1024
  maxAttempts : Nat := 3
  retryHttpErrors : Bool := true
  maxAttempts_pos : 0 < maxAttempts := by decide
  maxResponseBytes_pos : 0 < maxResponseBytes := by decide
  connectTimeout_pos : 0 < connectTimeout := by decide
  requestTimeout_pos : 0 < requestTimeout := by decide

/-- The default of `max_response_bytes` passes its check. -/
theorem maxResponseBytes_default_pos : 0 < 8 * 1024 * 1024 := by decide

/-- `HttpRequest` with its callbacks: the sink sees a block after the blocks it
was given before, and `cancelled` is asked for the `n`-th time. -/
structure TransportRequest extends HttpRequest where
  cancelled : Option (Nat → Bool) := none
  bodySink : Option (List Bytes → Bytes → Except Exception Bool) := none

/-- `HttpResponse` with its headers. -/
structure TransportResponse extends HttpResponse where
  headers : Table Bytes Bytes := ∅

/-- The `CURLcode` values that `perform` tells apart. -/
inductive CurlCode where
  | ok | couldntResolveHost | couldntConnect | operationTimedout | sendError | recvError
  | gotNothing | http2 | abortedByCallback
  | other (code : Nat)
  deriving DecidableEq, Repr

/-- A callback libcurl makes during `curl_easy_perform`. -/
inductive CurlCall where
  | body (block : Bytes)
  | header (line : Bytes)
  | progress
  deriving DecidableEq, Repr

/-- What libcurl does in one attempt; `error` is what it leaves in the error
buffer. -/
structure CurlAttempt where
  calls : List CurlCall := []
  code : CurlCode := .ok
  status : Int := 0
  error : Bytes := []

/-- What `perform` reads of the world: the jittered value of a backoff, the
system clock in nanoseconds, `curl_getdate` and `curl_easy_strerror`.  The first
two are indexed by the attempt. -/
structure CurlEnvironment where
  jittered : Nat → Int → Int
  now : Nat → Int
  getdate : Bytes → Int
  strerror : CurlCode → Bytes

/-- How a call of `perform` fails; an exception of the sink is passed on. -/
inductive PerformError where
  | cancelled
  | responseTooLarge
  | transportFailed (detail : Bytes)
  | retryLoopExhausted
  | sink (exception : Exception)
  deriving DecidableEq, Repr

/-- The exception the caller sees. -/
def PerformError.exception : PerformError → Exception
  | .cancelled => lit "HTTP request cancelled"
  | .responseTooLarge => lit "HTTP response exceeds configured limit"
  | .transportFailed detail => lit "HTTP transport failed: " ++ detail
  | .retryLoopExhausted => lit "HTTP retry loop exhausted"
  | .sink exception => exception

/-- What happens during a call of `perform`. -/
inductive HttpEvent where
  /-- `request.cancelled()` was asked. -/
  | polled (answer : Bool)
  /-- `curl_easy_perform` was entered. -/
  | started (attempt : Nat)
  /-- The sink was given a block. -/
  | sunk (attempt : Nat) (block : Bytes) (answer : Except Exception Bool)
  /-- `write_body` returned for a block of `size` bytes. -/
  | wrote (attempt size returned : Nat)
  /-- The wait after an attempt. -/
  | slept (attempt : Nat) (delay : Int)

/-- The number of times `request.cancelled` was asked. -/
def polls (history : List HttpEvent) : Nat :=
  history.countP fun | .polled _ => true | _ => false

/-- The blocks given to the sink. -/
def givenBlocks (history : List HttpEvent) : List Bytes :=
  history.filterMap fun | .sunk _ block _ => some block | _ => none

namespace CurlHttpTransport

/-! ## texts -/

/-- `trim` -/
def trim (value : Bytes) : Bytes :=
  ((value.dropWhile isSpace).reverse.dropWhile isSpace).reverse

/-- `lower` -/
def lower (value : Bytes) : Bytes :=
  value.map fun c => if 0x41 ≤ c ∧ c ≤ 0x5a then c + 0x20 else c

/-- `value.c_str()`: the bytes before the first NUL. -/
def cString (value : Bytes) : Bytes := value.takeWhile (· ≠ 0)

/-- `std::stoll`: the number at the front of a text and how many bytes it takes.
There is none without a digit, and none that is out of range. -/
def stoll (text : Bytes) : Option (Int × Nat) :=
  let rest := text.dropWhile isSpace
  let (negative, body) := Double.readSign rest
  let digits := body.takeWhile Double.isDigit
  let value : Int := if negative then -Double.ofDigits digits else Double.ofDigits digits
  if digits = [] ∨ ¬ Fits value then none
  else some (value, text.length - body.length + digits.length)

/-! ## Retry-After -/

/-- The number of seconds in a `Retry-After` value that is nothing else. -/
def retrySeconds (value : Bytes) : Option Int :=
  match stoll (trim value) with
  | some (seconds, consumed) =>
      if consumed = (trim value).length ∧ 0 < seconds then some seconds else none
  | none => none

/-- `parse_retry_after`, `word` being applied to the result of each conversion:
seconds to milliseconds, a date to the clock's nanoseconds, and the distance of
two time points. -/
def parseRetryAfterWith {m : Type → Type} [Monad m] (word : Int → m Int)
    (getdate : Bytes → Int) (value : Bytes) (now : Int) : m Int :=
  match retrySeconds value with
  | some seconds => word (seconds * 1000)
  | none =>
      let date := getdate (cString value)
      if date < 0 then pure 0
      else do
        let target ← word (date * 1000000000)
        if target ≤ now then pure 0
        else do
          let ahead ← word (target - now)
          pure (ahead.tdiv 1000000)

/-- `parse_retry_after` on the machine's words. -/
def parseRetryAfter (getdate : Bytes → Int) (value : Bytes) (now : Int) : Int :=
  (parseRetryAfterWith wrapped getdate value now).run

/-! ## the callbacks -/

/-- `TransferState`, with the history of the call. -/
structure TransferState where
  response : TransportResponse := { status := 0 }
  tooLarge : Bool := false
  receivedBytes : Nat := 0
  sinkError : Option Exception := none
  history : List HttpEvent

variable (config : CurlTransportConfig) (request : TransportRequest) (attempt : Nat)

/-- The sink's answer to a block, and what `write_body` returns. -/
def deliver (sink : List Bytes → Bytes → Except Exception Bool) (state : TransferState)
    (block : Bytes) : TransferState × Nat :=
  let answer := sink (givenBlocks state.history) block
  let state := { state with history := state.history ++ [.sunk attempt block answer] }
  match answer with
  | .ok true => (state, block.length)
  | .ok false => (state, 0)
  | .error exception => ({ state with sinkError := some exception }, 0)

/-- `write_body` -/
def writeBody (state : TransferState) (block : Bytes) : TransferState × Nat :=
  if block.length > config.maxResponseBytes - min config.maxResponseBytes state.receivedBytes then
    ({ state with tooLarge := true }, 0)
  else
    let state := { state with receivedBytes := state.receivedBytes + block.length }
    match request.bodySink with
    | some sink => deliver attempt sink state block
    | none =>
        ({ state with response := { state.response with body := state.response.body ++ block } },
          block.length)

/-- `write_header`; it always takes the whole line. -/
def writeHeader (headers : Table Bytes Bytes) (line : Bytes) : Table Bytes Bytes :=
  if 0x3a ∈ line then
    let name := lower (trim (line.takeWhile (· ≠ 0x3a)))
    let value := trim ((line.dropWhile (· ≠ 0x3a)).drop 1)
    if name = [] then headers else headers.insert name value
  else headers

/-- `request.cancelled && request.cancelled()` -/
def poll (history : List HttpEvent) : Bool × List HttpEvent :=
  match request.cancelled with
  | none => (false, history)
  | some cancelled => (cancelled (polls history), history ++ [.polled (cancelled (polls history))])

/-- One callback of an attempt.  What `progress` returns is libcurl's to act on. -/
def callback (state : TransferState) : CurlCall → TransferState
  | .body block =>
      let (state, returned) := writeBody config request attempt state block
      { state with history := state.history ++ [.wrote attempt block.length returned] }
  | .header line =>
      { state with response := { state.response with
          headers := writeHeader state.response.headers line } }
  | .progress => { state with history := (poll request state.history).2 }

/-- `curl_easy_perform`, from a fresh `TransferState`. -/
def transfer (history : List HttpEvent) (curl : CurlAttempt) : TransferState :=
  curl.calls.foldl (callback config request attempt) { history := history ++ [.started attempt] }

/-! ## attempts -/

/-- `retryable_http_status` -/
def retryableHttpStatus (status : Int) : Bool :=
  status = 408 || status = 429 || status = 500 || status = 502 || status = 503 || status = 504

/-- `retryable_curl` -/
def retryableCurl : CurlCode → Bool
  | .couldntResolveHost | .couldntConnect | .operationTimedout | .sendError | .recvError
  | .gotNothing | .http2 => true
  | .ok | .abortedByCallback | .other _ => false

/-- The `retry` of `perform`. -/
def retry (state : TransferState) (curl : CurlAttempt) : Bool :=
  attempt < config.maxAttempts && (request.bodySink.isNone || state.receivedBytes = 0) &&
    (retryableCurl curl.code ||
      (curl.code = .ok && config.retryHttpErrors && retryableHttpStatus curl.status))

/-- How long `perform` waits after an attempt that it repeats. -/
def retryDelay (environment : CurlEnvironment) (backoff : Int) (headers : Table Bytes Bytes) :
    Int :=
  let delay := environment.jittered attempt backoff
  let delay := match headers.lookup (lit "retry-after") with
    | some value => max delay (parseRetryAfter environment.getdate value (environment.now attempt))
    | none => delay
  min delay config.maxBackoff

/-- What an attempt that is not repeated ends with. -/
def conclude (environment : CurlEnvironment) (curl : CurlAttempt) (response : TransportResponse) :
    Except PerformError TransportResponse :=
  if curl.code ≠ .ok then
    .error (.transportFailed
      (if curl.error ≠ [] then curl.error else environment.strerror curl.code))
  else .ok { response with status := curl.status }

/-- The loop of `perform`, with the number of attempts left. -/
def performFrom (environment : CurlEnvironment) (curl : Nat → CurlAttempt) :
    Nat → Nat → Int → List HttpEvent →
      Except PerformError TransportResponse × List HttpEvent
  | 0, _, _, history => (.error .retryLoopExhausted, history)
  | left + 1, attempt, backoff, history =>
      let (cancelled, history) := poll request history
      if cancelled then (.error .cancelled, history)
      else
        let state := transfer config request attempt history (curl attempt)
        if state.tooLarge then (.error .responseTooLarge, state.history)
        else match state.sinkError with
          | some exception => (.error (.sink exception), state.history)
          | none =>
            if (curl attempt).code = .abortedByCallback then (.error .cancelled, state.history)
            else if retry config request attempt state (curl attempt) then
              let delay := retryDelay config attempt environment backoff state.response.headers
              performFrom environment curl left (attempt + 1)
                (min (wrap (backoff * 2)) config.maxBackoff)
                (state.history ++ [.slept attempt delay])
            else (conclude environment (curl attempt) state.response, state.history)

/-- `perform`, with the history of the call. -/
def perform (environment : CurlEnvironment) (curl : Nat → CurlAttempt) :
    Except PerformError TransportResponse × List HttpEvent :=
  performFrom config request environment curl config.maxAttempts 1 config.initialBackoff []

end CurlHttpTransport

end ByteTurn

import ByteTurn.CurlTransport.Delivery

/-!
# ByteTurn.CurlTransport.RetryAfter

What the arithmetic of `parse_retry_after` does to the delay a server asks for.

The conversions multiply before anything is clamped.  The requested delay
(`requestedDelay`) is what the value asks for in unbounded arithmetic; the
checked run of `parseRetryAfterWith` says whether the machine computes it
without an overflow, and `RetryAfterFits` is the condition for that on value
and date.  `perform` then waits as long as it should.
-/

namespace ByteTurn

open SignedWords CurlHttpTransport

variable {getdate : Bytes → Int} {value : Bytes} {now : Int}

/-! ## the requested delay -/

/-- The delay in milliseconds that a `Retry-After` value asks for at `now`. -/
def requestedDelay (getdate : Bytes → Int) (value : Bytes) (now : Int) : Int :=
  match retrySeconds value with
  | some seconds => seconds * 1000
  | none =>
      let date := getdate (cString value)
      if date < 0 then 0 else max 0 (date * 1000000000 - now) / 1000000

/-- The numbers of seconds, dates and distances that the conversions take. -/
def RetryAfterFits (getdate : Bytes → Int) (value : Bytes) (now : Int) : Prop :=
  match retrySeconds value with
  | some seconds => seconds * 1000 < 2 ^ 63
  | none =>
      let date := getdate (cString value)
      0 ≤ date → date * 1000000000 < 2 ^ 63 ∧ date * 1000000000 - now < 2 ^ 63

theorem retrySeconds_pos {seconds : Int} (h : retrySeconds value = some seconds) : 0 < seconds := by
  unfold retrySeconds at h
  split at h <;> try contradiction
  split at h <;> try contradiction
  next hseconds =>
  obtain rfl := Option.some.inj h
  exact hseconds.2

theorem requestedDelay_nonneg (getdate : Bytes → Int) (value : Bytes) (now : Int) :
    0 ≤ requestedDelay getdate value now := by
  unfold requestedDelay
  split
  · next seconds hseconds =>
    have hpos := retrySeconds_pos hseconds
    omega
  · dsimp only
    split
    · exact le_refl 0
    · omega

/-! ## the two runs -/

/-- Nothing overflows exactly when the value fits. -/
theorem checked_isSome_iff :
    (parseRetryAfterWith checked getdate value now).isSome = true ↔
      RetryAfterFits getdate value now := by
  unfold parseRetryAfterWith RetryAfterFits
  cases hseconds : retrySeconds value with
  | some seconds =>
      have hpos := retrySeconds_pos hseconds
      dsimp only
      by_cases hfits : Fits (seconds * 1000)
      · rw [checked_of_fits hfits]
        exact iff_of_true rfl hfits.2
      · rw [checked_of_overflow hfits]
        refine iff_of_false Bool.false_ne_true fun hlt => hfits ⟨?_, hlt⟩
        omega
  | none =>
      dsimp only
      generalize getdate (cString value) = date
      by_cases hdate : date < 0
      · rw [if_pos hdate]
        exact iff_of_true rfl fun h => absurd h (Int.not_le.mpr hdate)
      rw [if_neg hdate]
      have hnonneg : 0 ≤ date := Int.not_lt.mp hdate
      by_cases hfits : Fits (date * 1000000000)
      · rw [checked_of_fits hfits]
        dsimp only [Option.bind_eq_bind, Option.bind_some]
        by_cases hpast : date * 1000000000 ≤ now
        · rw [if_pos hpast]
          refine iff_of_true rfl fun _ => ⟨hfits.2, ?_⟩
          omega
        · rw [if_neg hpast]
          by_cases hahead : Fits (date * 1000000000 - now)
          · rw [checked_of_fits hahead]
            exact iff_of_true rfl fun _ => ⟨hfits.2, hahead.2⟩
          · rw [checked_of_overflow hahead]
            refine iff_of_false Bool.false_ne_true fun h => hahead ⟨?_, (h hnonneg).2⟩
            omega
      · rw [checked_of_overflow hfits]
        refine iff_of_false Bool.false_ne_true fun h => hfits ⟨?_, (h hnonneg).1⟩
        omega

/-- Where nothing overflows, the machine computes the requested delay. -/
theorem parseRetryAfter_of_fits (h : RetryAfterFits getdate value now) :
    parseRetryAfter getdate value now = requestedDelay getdate value now := by
  unfold parseRetryAfter parseRetryAfterWith requestedDelay
  unfold RetryAfterFits at h
  cases hseconds : retrySeconds value with
  | some seconds =>
      have hpos := retrySeconds_pos hseconds
      rw [hseconds] at h
      have hfits : Fits (seconds * 1000) := ⟨by omega, h⟩
      dsimp only
      rw [wrapped_of_fits hfits]
      rfl
  | none =>
      rw [hseconds] at h
      dsimp only at h ⊢
      generalize getdate (cString value) = date at h ⊢
      by_cases hdate : date < 0
      · rw [if_pos hdate, if_pos hdate]
        rfl
      obtain ⟨htarget, hahead⟩ := h (Int.not_lt.mp hdate)
      have hfits : Fits (date * 1000000000) := ⟨by omega, htarget⟩
      rw [if_neg hdate, if_neg hdate, wrapped_of_fits hfits, pure_bind]
      by_cases hpast : date * 1000000000 ≤ now
      · rw [if_pos hpast, max_eq_left (by omega)]
        rfl
      · have hdistance : Fits (date * 1000000000 - now) := ⟨by omega, hahead⟩
        rw [if_neg hpast, wrapped_of_fits hdistance, pure_bind, max_eq_right (by omega)]
        exact Int.tdiv_eq_ediv_of_nonneg (by omega)

/-! ## what `perform` waits -/

/-- The backoff of the attempt after `n` others. -/
def backoffAfter (config : CurlTransportConfig) : Nat → Int
  | 0 => config.initialBackoff
  | n + 1 => min (wrap (backoffAfter config n * 2)) config.maxBackoff

/-- Every wait of a call is computed from the headers of the attempt it follows. -/
theorem perform_waits (config : CurlTransportConfig) (request : TransportRequest)
    (environment : CurlEnvironment) (curl : Nat → CurlAttempt) :
    ∀ w ∈ waits (perform config request environment curl).2,
      w.2 = retryDelay config w.1 environment (backoffAfter config (w.1 - 1))
        (curl w.1).headers := by
  refine performFrom_rule (O := fun _ => True) (fun _ _ _ _ => trivial)
    (I := fun n backoff h => 1 ≤ n ∧ backoff = backoffAfter config (n - 1) ∧ ∀ w ∈ waits h,
      w.2 = retryDelay config w.1 environment (backoffAfter config (w.1 - 1)) (curl w.1).headers)
    (Q := fun _ h => ∀ w ∈ waits h,
      w.2 = retryDelay config w.1 environment (backoffAfter config (w.1 - 1)) (curl w.1).headers)
    ?_ ?_ ?_ _ _ _ _ (Nat.add_comm 1 _) config.maxAttempts_pos ⟨le_refl 1, rfl, nofun⟩ trivial
  · rintro n backoff h ⟨-, -, hwaits⟩ -
    rw [(poll_starts request h).2.1]
    exact hwaits
  · rintro n backoff h r - ⟨-, -, hwaits⟩ - - -
    rw [(transfer_starts _ _).2, (poll_starts request h).2.1]
    exact hwaits
  · rintro n backoff h ⟨hpos, rfl, hwaits⟩ - - - - -
    refine ⟨by omega, ?_, ?_⟩
    · obtain ⟨m, rfl⟩ : ∃ m, n = m + 1 := ⟨n - 1, by omega⟩
      rfl
    · rw [waits_append, (transfer_starts _ _).2, (poll_starts request h).2.1]
      intro w hw
      cases List.mem_append.mp hw with
      | inl hold => exact hwaits w hold
      | inr hnew =>
          obtain rfl := List.mem_singleton.mp hnew
          dsimp only
          rw [(transfer_response _ _).1]

/-- What the arithmetic of a `Retry-After` value promises at the time `now`. -/
structure RetryAfterSound (getdate : Bytes → Int) (value : Bytes) (now : Int) : Prop where
  /-- No conversion and no subtraction overflows. -/
  defined : (parseRetryAfterWith checked getdate value now).isSome = true
  nonneg : 0 ≤ parseRetryAfter getdate value now
  /-- Who asks for a longer delay gets no shorter one. -/
  monotone : ∀ value' now', (parseRetryAfterWith checked getdate value' now').isSome = true →
    (requestedDelay getdate value' now' ≤ requestedDelay getdate value now →
      parseRetryAfter getdate value' now' ≤ parseRetryAfter getdate value now) ∧
    (requestedDelay getdate value now ≤ requestedDelay getdate value' now' →
      parseRetryAfter getdate value now ≤ parseRetryAfter getdate value' now')
  /-- `perform` waits the longer of the two delays, within the maximum. -/
  slept : ∀ (config : CurlTransportConfig) (request : TransportRequest)
    (environment : CurlEnvironment) (curl : Nat → CurlAttempt) (n : Nat) (delay : Int),
    environment.getdate = getdate → environment.now n = now →
    (curl n).headers.lookup (lit "retry-after") = some value →
    (n, delay) ∈ waits (perform config request environment curl).2 →
    delay = min (max (environment.jittered n (backoffAfter config (n - 1)))
      (requestedDelay getdate value now)) config.maxBackoff

/-- **Retry-After**: the delay a server asks for is computed without an overflow,
and waited for within the maximum, exactly when it fits the conversions. -/
theorem retry_after_iff (getdate : Bytes → Int) (value : Bytes) (now : Int) :
    RetryAfterSound getdate value now ↔ RetryAfterFits getdate value now := by
  constructor
  · intro h
    exact checked_isSome_iff.mp h.defined
  intro hfits
  have hvalue := parseRetryAfter_of_fits hfits
  refine ⟨checked_isSome_iff.mpr hfits, ?_, ?_, ?_⟩
  · rw [hvalue]
    exact requestedDelay_nonneg getdate value now
  · intro value' now' hdefined
    rw [hvalue, parseRetryAfter_of_fits (checked_isSome_iff.mp hdefined)]
    exact ⟨id, id⟩
  · rintro config request environment curl n delay rfl rfl hheader hw
    have hdelay := perform_waits config request environment curl _ hw
    dsimp only at hdelay
    rw [hdelay, retryDelay, hheader]
    dsimp only
    rw [hvalue]

/-- The largest number of seconds that `std::stoll` accepts overflows, and the
machine's result asks for no delay at all. -/
theorem largest_retry_after_overflows :
    parseRetryAfter (fun _ => -1) (lit "9223372036854775807") 0 = -1000 ∧
      ¬ RetryAfterSound (fun _ => -1) (lit "9223372036854775807") 0 := by
  have hseconds : retrySeconds (lit "9223372036854775807") = some 9223372036854775807 := rfl
  refine ⟨?_, fun h => ?_⟩
  · unfold parseRetryAfter parseRetryAfterWith
    rw [hseconds]
    decide
  · have hfits := checked_isSome_iff.mp h.defined
    unfold RetryAfterFits at hfits
    rw [hseconds] at hfits
    exact absurd hfits (by decide)

end ByteTurn

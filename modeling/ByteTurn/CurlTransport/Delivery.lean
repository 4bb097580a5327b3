import ByteTurn.CurlTransport.Attempts

/-!
# ByteTurn.CurlTransport.Delivery

What the caller of `perform` sees of its attempts.

`write_body` stops a transfer by a short count, and an empty block leaves no
count that is short: a sink that refuses or throws on one is called again.
Where the sink takes empty blocks (`TakesEmptyBlocks`), the bytes it is given
are those of one attempt and end where it stops (`NoReplay`), whatever libcurl
does within what `perform` relies on (`Obeys`); and only then.
-/

namespace ByteTurn

namespace CurlHttpTransport

open CurlAttempt

/-! ## reading a history -/

/-- The attempts that were started. -/
def starts (history : List HttpEvent) : List Nat :=
  history.filterMap fun | .started attempt => some attempt | _ => none

/-- The waits, each with the attempt it follows. -/
def waits (history : List HttpEvent) : List (Nat × Int) :=
  history.filterMap fun | .slept attempt delay => some (attempt, delay) | _ => none

/-- The blocks with bytes that the sink was given, each with its attempt. -/
def deliveries (history : List HttpEvent) : List (Nat × Bytes) :=
  history.filterMap fun
    | .sunk attempt block _ => if block = [] then none else some (attempt, block)
    | _ => none

/-- An attempt starts. -/
def Starts : HttpEvent → Prop
  | .started _ => True
  | _ => False

/-- The sink refuses a block or throws. -/
def Stops : HttpEvent → Prop
  | .sunk _ _ (.ok true) => False
  | .sunk _ _ _ => True
  | _ => False

/-- The sink is given bytes. -/
def Delivers : HttpEvent → Prop
  | .sunk _ block _ => block ≠ []
  | _ => False

/-- `write_body` returns in the attempt `n`. -/
def WritesFor (n : Nat) : HttpEvent → Prop
  | .wrote attempt _ _ => attempt = n
  | _ => False

/-- `write_body` returns a short count in the attempt `n`. -/
def ShortFor (n : Nat) : HttpEvent → Prop
  | .wrote attempt size returned => attempt = n ∧ returned ≠ size
  | _ => False

/-- What `perform` relies on: after a short count libcurl does not call
`write_body` again in that attempt, and it does not report the attempt as OK. -/
structure Obeys (curl : Nat → CurlAttempt) (history : List HttpEvent) : Prop where
  silent : history.Pairwise fun x y => ∀ n, ShortFor n x → ¬ WritesFor n y
  reported : ∀ n, (∃ x ∈ history, ShortFor n x) → (curl n).code ≠ .ok

/-- What libcurl did up to here it did before. -/
theorem Obeys.prefixClosed (curl : Nat → CurlAttempt) : PrefixClosed (Obeys curl) := by
  rintro h k hpart ⟨hsilent, hreported⟩
  refine ⟨hsilent.sublist hpart.sublist, ?_⟩
  rintro n ⟨x, hx, hshort⟩
  exact hreported n ⟨x, hpart.subset hx, hshort⟩

/-! ## what a call promises -/

/-- The attempts and waits of a call, and what it ends with. -/
structure Ended (config : CurlTransportConfig) (request : TransportRequest)
    (curl : Nat → CurlAttempt) (r : Except PerformError TransportResponse)
    (history : List HttpEvent) : Prop where
  attempts : (starts history).length ≤ config.maxAttempts
  /-- There is at most one wait after an attempt. -/
  waitsOnce : ((waits history).map Prod.fst).Nodup
  waitsBounded : ∀ w ∈ waits history, w.2 ≤ config.maxBackoff
  /-- A response is that of the last attempt, which libcurl reported as OK. -/
  response : ∀ response, r = .ok response → ∃ n, (starts history).getLast? = some n ∧
    (curl n).code = .ok ∧ response.status = (curl n).status ∧
    response.headers = (curl n).headers ∧
    response.body = if request.bodySink.isSome then [] else (curl n).blocks.flatten
  finished : r ≠ .error .retryLoopExhausted

/-- What the sink of a call is given, and what becomes of its exceptions. -/
structure Delivered (config : CurlTransportConfig) (curl : Nat → CurlAttempt)
    (r : Except PerformError TransportResponse) (history : List HttpEvent) : Prop where
  /-- The bytes are the beginning of the body of one attempt. -/
  oneAttempt : ∃ n, deliveries history <+:
    (((curl n).blocks.filter fun block => block ≠ []).map (Prod.mk n))
  limited : ((deliveries history).map fun d => d.2.length).sum ≤ config.maxResponseBytes
  fenced : history.Pairwise fun x y => Stops x → ¬ Delivers y
  rethrown : ∀ n block exception, .sunk n block (.error exception) ∈ history →
    r = .error (.sink exception)

/-- What a call of `perform` does for its caller. -/
structure NoReplay (config : CurlTransportConfig) (request : TransportRequest)
    (curl : Nat → CurlAttempt) (r : Except PerformError TransportResponse)
    (history : List HttpEvent) : Prop extends Ended config request curl r history,
    Delivered config curl r history where
  /-- No attempt is started after a poll that was answered with true. -/
  uncancelled : history.Pairwise fun x y => x = .polled true → ¬ Starts y

/-- Once true, `request.cancelled` stays true. -/
def CancelsForGood (request : TransportRequest) : Prop :=
  ∀ cancelled, request.cancelled = some cancelled →
    ∀ i j, i ≤ j → cancelled i = true → cancelled j = true

/-- The blocks a sink can have been given by a transfer that goes on: it
accepted them, but for empty ones that it refused when all the bytes of the limit
had been delivered. -/
inductive Fed (limit : Nat) (sink : List Bytes → Bytes → Except Exception Bool) :
    List Bytes → Prop where
  | nil : Fed limit sink []
  | accepted {blocks : List Bytes} {block : Bytes} (hfed : Fed limit sink blocks)
      (hanswer : sink blocks block = .ok true)
      (hlimit : blocks.flatten.length + block.length ≤ limit) : Fed limit sink (blocks ++ [block])
  | full {blocks : List Bytes} (hfed : Fed limit sink blocks)
      (hanswer : sink blocks [] = .ok false) (hfull : blocks.flatten.length = limit) :
      Fed limit sink (blocks ++ [[]])

/-- The sink never throws on an empty block, and takes it while more bytes may
come. -/
def TakesEmptyBlocks (limit : Nat) (sink : List Bytes → Bytes → Except Exception Bool) : Prop :=
  ∀ blocks, Fed limit sink blocks → (∀ exception, sink blocks [] ≠ .error exception) ∧
    (blocks.flatten.length < limit → sink blocks [] ≠ .ok false)

variable {config : CurlTransportConfig} {request : TransportRequest} {attempt : Nat}
  {environment : CurlEnvironment} {curl : Nat → CurlAttempt} {s t : TransferState} {c : CurlCall}
  {sink : List Bytes → Bytes → Except Exception Bool}

/-! ## attempts and waits -/

@[simp] theorem starts_append (h k : List HttpEvent) : starts (h ++ k) = starts h ++ starts k :=
  List.filterMap_append

@[simp] theorem waits_append (h k : List HttpEvent) : waits (h ++ k) = waits h ++ waits k :=
  List.filterMap_append

@[simp] theorem deliveries_append (h k : List HttpEvent) :
    deliveries (h ++ k) = deliveries h ++ deliveries k := List.filterMap_append

@[simp] theorem givenBlocks_append (h k : List HttpEvent) :
    givenBlocks (h ++ k) = givenBlocks h ++ givenBlocks k := List.filterMap_append

@[simp] theorem polls_append (h k : List HttpEvent) : polls (h ++ k) = polls h + polls k :=
  List.countP_append

/-- A poll leaves a note of its own and nothing else. -/
theorem poll_snd (request : TransportRequest) (history : List HttpEvent) :
    (request.cancelled = none ∧ poll request history = (false, history)) ∨
      ∃ cancelled, request.cancelled = some cancelled ∧ poll request history =
        (cancelled (polls history), history ++ [.polled (cancelled (polls history))]) := by
  unfold poll
  cases hcancelled : request.cancelled with
  | none => exact .inl ⟨rfl, rfl⟩
  | some cancelled => exact .inr ⟨cancelled, rfl, rfl⟩

/-- A poll starts, awaits and delivers nothing. -/
theorem poll_starts (request : TransportRequest) (history : List HttpEvent) :
    starts (poll request history).2 = starts history ∧
      waits (poll request history).2 = waits history ∧
      deliveries (poll request history).2 = deliveries history := by
  obtain ⟨-, hpoll⟩ | ⟨cancelled, -, hpoll⟩ := poll_snd request history
  · rw [hpoll]
    exact ⟨rfl, rfl, rfl⟩
  · rw [hpoll]
    simp [starts, waits, deliveries]

/-- An attempt is one start and no wait. -/
theorem transfer_starts (history : List HttpEvent) (curl : CurlAttempt) :
    starts (transfer config request attempt history curl).history = starts history ++ [attempt] ∧
      waits (transfer config request attempt history curl).history = waits history := by
  refine transfer_rule_true (P := fun _ s =>
    starts s.history = starts history ++ [attempt] ∧ waits s.history = waits history) ?_ ?_
  · rw [starts_append, waits_append]
    exact ⟨rfl, List.append_nil _⟩
  rintro done s c t ⟨hstarts, hwaits⟩ heffect
  cases heffect with
  | header line | unpolled hnone => exact ⟨hstarts, hwaits⟩
  | _ =>
      rw [starts_append, waits_append, hstarts, hwaits]
      exact ⟨List.append_nil _, List.append_nil _⟩

/-- A response that an attempt ends with. -/
theorem AttemptEnd.response {r : Except PerformError TransportResponse} {n : Nat}
    {history : List HttpEvent}
    (h : AttemptEnd config request environment n (curl n)
      (transfer config request n history (curl n)) r) :
    r ≠ .error .retryLoopExhausted ∧ ∀ response, r = .ok response → (curl n).code = .ok ∧
      response.status = (curl n).status ∧ response.headers = (curl n).headers ∧
      response.body = if request.bodySink.isSome then [] else (curl n).blocks.flatten := by
  cases h with
  | tooLarge _ | sink _ _ | aborted _ _ _ => exact ⟨nofun, nofun⟩
  | concluded hlarge hsink hretry =>
      obtain ⟨hheaders, hsunk, hstored⟩ :=
        @transfer_response config request n history (curl n)
      unfold conclude
      split
      · exact ⟨nofun, nofun⟩
      next hcode =>
      refine ⟨nofun, ?_⟩
      intro response hresponse
      obtain rfl := Except.ok.inj hresponse
      refine ⟨Classical.not_not.mp hcode, rfl, hheaders, ?_⟩
      cases hbody : request.bodySink with
      | none => exact hstored hlarge hbody
      | some sink => exact hsunk (by rw [hbody]; rfl)

/-- The attempts are `1, 2, …`, with one wait between two of them. -/
structure Paced (config : CurlTransportConfig) (n : Nat) (history : List HttpEvent) : Prop where
  starts : starts history = List.range' 1 (n - 1)
  waits : (waits history).map Prod.fst = List.range' 1 (n - 1)
  bounded : ∀ w ∈ CurlHttpTransport.waits history, w.2 ≤ config.maxBackoff

/-- No wait is longer than the cap. -/
theorem retryDelay_le (environment : CurlEnvironment) (backoff : Int)
    (headers : Table Bytes Bytes) :
    retryDelay config attempt environment backoff headers ≤ config.maxBackoff :=
  min_le_right _ _

/-- What `perform` returns is how its last attempt ended. -/
theorem perform_ended (config : CurlTransportConfig) (request : TransportRequest)
    (environment : CurlEnvironment) (curl : Nat → CurlAttempt) :
    Ended config request curl (perform config request environment curl).1
      (perform config request environment curl).2 := by
  refine performFrom_rule (O := fun _ => True) (fun _ _ _ _ => trivial)
    (I := fun n _ h => 1 ≤ n ∧ n ≤ config.maxAttempts + 1 ∧ Paced config n h)
    (Q := Ended config request curl) ?_ ?_ ?_ _ _ _ _ (Nat.add_comm 1 _) config.maxAttempts_pos
    ⟨le_refl 1, Nat.succ_le_succ (Nat.zero_le _), rfl, rfl, nofun⟩ trivial
  · rintro n backoff h ⟨hpos, hlast, hpaced⟩ -
    obtain ⟨hstarts, hwaits, -⟩ := poll_starts request h
    refine ⟨?_, ?_, ?_, nofun, nofun⟩
    · rw [hstarts, hpaced.starts, List.length_range']
      omega
    · rw [hwaits, hpaced.waits]
      exact List.nodup_range'
    · rw [hwaits]
      exact hpaced.bounded
  · rintro n backoff h r hn ⟨hpos, -, hpaced⟩ - - hend
    obtain ⟨hstarts, hwaits, -⟩ := poll_starts request h
    obtain ⟨hstarts', hwaits'⟩ :=
      @transfer_starts config request n (poll request h).2 (curl n)
    obtain ⟨hfinished, hresponse⟩ := hend.response
    refine ⟨?_, ?_, ?_, ?_, hfinished⟩
    · rw [hstarts', hstarts, hpaced.starts, List.length_append, List.length_range',
        List.length_singleton]
      omega
    · rw [hwaits', hwaits, hpaced.waits]
      exact List.nodup_range'
    · rw [hwaits', hwaits]
      exact hpaced.bounded
    · intro response hr
      refine ⟨n, ?_, hresponse response hr⟩
      rw [hstarts', List.getLast?_append]
      rfl
  · rintro n backoff h ⟨hpos, -, hpaced⟩ - - - - hretry
    obtain ⟨hstarts, hwaits, -⟩ := poll_starts request h
    obtain ⟨hstarts', hwaits'⟩ :=
      @transfer_starts config request n (poll request h).2 (curl n)
    have hmore : n < config.maxAttempts := by
      unfold retry at hretry
      simp only [Bool.and_eq_true, decide_eq_true_eq] at hretry
      exact hretry.1.1
    have hrange : List.range' 1 n = List.range' 1 (n - 1) ++ [n] := by
      obtain ⟨m, rfl⟩ : ∃ m, n = m + 1 := ⟨n - 1, by omega⟩
      rw [List.range'_concat]
      simp [Nat.add_comm]
    refine ⟨by omega, by omega, ?_, ?_, ?_⟩
    · rw [starts_append, hstarts', hstarts, hpaced.starts, Nat.add_sub_cancel, hrange]
      exact List.append_nil _
    · rw [waits_append, hwaits', hwaits, List.map_append, hpaced.waits, Nat.add_sub_cancel,
        hrange]
      rfl
    · rw [waits_append, hwaits', hwaits]
      intro w hw
      cases List.mem_append.mp hw with
      | inl hold => exact hpaced.bounded w hold
      | inr hnew =>
          obtain rfl := List.mem_singleton.mp hnew
          exact retryDelay_le environment backoff _

/-! ## cancellation -/

/-- Appending events that start nothing. -/
theorem pairwise_append_starts {P : HttpEvent → Prop} {h k : List HttpEvent}
    (hh : h.Pairwise fun x y => P x → ¬ Starts y) (hk : ∀ y ∈ k, ¬ Starts y) :
    (h ++ k).Pairwise fun x y => P x → ¬ Starts y := by
  refine List.pairwise_append.mpr ⟨hh, ?_, fun x _ y hy _ => hk y hy⟩
  exact List.pairwise_of_forall_mem_list fun x _ y hy _ => hk y hy

/-- No attempt was started after a poll answered with true, and once there was
one the next is answered so too. -/
structure Uncancelled (request : TransportRequest) (history : List HttpEvent) : Prop where
  fenced : history.Pairwise fun x y => x = .polled true → ¬ Starts y
  next : .polled true ∈ history →
    ∃ cancelled, request.cancelled = some cancelled ∧ cancelled (polls history) = true

/-- Events that neither poll nor start. -/
theorem Uncancelled.append {h k : List HttpEvent} (hh : Uncancelled request h)
    (hstarts : ∀ y ∈ k, ¬ Starts y) (hpolls : ∀ b, .polled b ∉ k) :
    Uncancelled request (h ++ k) := by
  refine ⟨pairwise_append_starts hh.fenced hstarts, ?_⟩
  intro hmem
  have hold := (List.mem_append.mp hmem).resolve_right (hpolls true)
  have hzero : polls k = 0 := by
    rw [polls, List.countP_eq_zero]
    rintro x hx
    cases x with
    | polled b => exact absurd hx (hpolls b)
    | _ => exact Bool.false_ne_true
  rw [polls_append, hzero]
  exact hh.next hold

/-- A poll begins nothing. -/
theorem Uncancelled.poll {h : List HttpEvent} (hmono : CancelsForGood request)
    (hh : Uncancelled request h) : Uncancelled request (poll request h).2 := by
  obtain ⟨-, hpoll⟩ | ⟨cancelled, hsome, hpoll⟩ := poll_snd request h
  · rw [hpoll]
    exact hh
  rw [hpoll]
  have hnone : ∀ y ∈ [HttpEvent.polled (cancelled (polls h))], ¬ Starts y := by
    intro y hy
    obtain rfl := List.mem_singleton.mp hy
    exact id
  refine ⟨pairwise_append_starts hh.fenced hnone, ?_⟩
  intro hmem
  have htrue : cancelled (polls h) = true := by
    cases List.mem_append.mp hmem with
    | inl hold =>
        obtain ⟨cancelled', hsome', htrue⟩ := hh.next hold
        obtain rfl : cancelled = cancelled' := Option.some.inj (hsome.symm.trans hsome')
        exact htrue
    | inr hnew => exact (HttpEvent.polled.inj (List.mem_singleton.mp hnew)).symm
  refine ⟨cancelled, hsome, ?_⟩
  exact hmono cancelled hsome _ _ (by rw [polls_append]; exact Nat.le_add_right _ _) htrue

/-- An attempt begins only where the poll before it answered false. -/
theorem Uncancelled.transfer {h : List HttpEvent} {curl : CurlAttempt}
    (hmono : CancelsForGood request) (hh : Uncancelled request h)
    (hgo : (CurlHttpTransport.poll request h).1 = false) :
    Uncancelled request
      (transfer config request attempt (CurlHttpTransport.poll request h).2 curl).history := by
  refine transfer_rule_true (P := fun _ s => Uncancelled request s.history) ?_ ?_
  · -- no poll was answered with true before this attempt
    have hpolled := hh.poll hmono
    have hnone : HttpEvent.polled true ∉ (CurlHttpTransport.poll request h).2 := by
      obtain ⟨hcancelled, hpoll⟩ | ⟨cancelled, hsome, hpoll⟩ := poll_snd request h
      · intro hmem
        rw [hpoll] at hmem
        obtain ⟨cancelled, hsome, -⟩ := hh.next hmem
        rw [hcancelled] at hsome
        contradiction
      · rw [hpoll] at hgo ⊢
        intro hmem
        cases List.mem_append.mp hmem with
        | inl hold =>
            obtain ⟨cancelled', hsome', htrue⟩ := hh.next hold
            obtain rfl : cancelled = cancelled' := Option.some.inj (hsome.symm.trans hsome')
            rw [htrue] at hgo
            contradiction
        | inr hnew =>
            have htrue := HttpEvent.polled.inj (List.mem_singleton.mp hnew)
            rw [← htrue] at hgo
            contradiction
    refine ⟨List.pairwise_append.mpr ⟨hpolled.fenced, List.pairwise_singleton _ _, ?_⟩, ?_⟩
    · rintro x hx y - rfl
      exact absurd hx hnone
    · intro hmem
      cases List.mem_append.mp hmem with
      | inl hold => exact absurd hold hnone
      | inr hnew => exact nomatch List.mem_singleton.mp hnew
  rintro done s c t hs heffect
  cases heffect with
  | header line | unpolled hnone => exact hs
  | polled hsome =>
      have hpolled := hs.poll hmono
      unfold CurlHttpTransport.poll at hpolled
      rw [hsome] at hpolled
      exact hpolled
  | _ => exact hs.append (by simp [Starts]) (by simp)

/-- Nothing begins behind a poll that answered true. -/
theorem perform_uncancelled (config : CurlTransportConfig) (environment : CurlEnvironment)
    (curl : Nat → CurlAttempt) (hmono : CancelsForGood request) :
    Uncancelled request (perform config request environment curl).2 := by
  refine performFrom_rule (O := fun _ => True) (fun _ _ _ _ => trivial)
    (I := fun _ _ h => Uncancelled request h) (Q := fun _ h => Uncancelled request h)
    ?_ ?_ ?_ _ _ _ _ (Nat.add_comm 1 _) config.maxAttempts_pos
    ⟨List.Pairwise.nil, nofun⟩ trivial
  · intro n backoff h hh _
    exact hh.poll hmono
  · intro n backoff h r _ hh hgo _ _
    exact hh.transfer hmono hgo
  · intro n backoff h hh hgo _ _ _ _
    exact (hh.transfer hmono hgo).append (by simp [Starts]) (by simp)

end CurlHttpTransport

end ByteTurn

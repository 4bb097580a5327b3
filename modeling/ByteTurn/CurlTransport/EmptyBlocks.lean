import ByteTurn.CurlTransport.Delivery

/-!
# ByteTurn.CurlTransport.EmptyBlocks

The bytes a sink is given, and the sinks for which no attempt repeats them.

While a transfer goes on, its sink has accepted every block, or has all the
bytes of the limit (`Sending.flow`).  A short count ends that, and what ended
it keeps `perform` from trying again.  The blocks that leave no short count are
the empty ones.
-/

namespace ByteTurn

namespace CurlHttpTransport

open CurlAttempt

variable {config : CurlTransportConfig} {request : TransportRequest} {n : Nat}
  {environment : CurlEnvironment} {curl : Nat → CurlAttempt} {s t : TransferState} {c : CurlCall}
  {sink : List Bytes → Bytes → Except Exception Bool} {done : List CurlCall}

/-! ## one attempt -/

/-- A transfer that has met no short count. -/
structure Flowing (config : CurlTransportConfig)
    (sink : List Bytes → Bytes → Except Exception Bool) (n : Nat) (done : List CurlCall)
    (s : TransferState) : Prop where
  exact_ : deliveries s.history =
    ((blocksOf done).filter fun block => block ≠ []).map (Prod.mk n)
  fed : Fed config.maxResponseBytes sink (givenBlocks s.history)
  total : (givenBlocks s.history).flatten.length = s.receivedBytes
  small : s.tooLarge = false
  calm : s.sinkError = none
  full : (∃ x ∈ s.history, Stops x) → s.receivedBytes = config.maxResponseBytes

/-- A transfer that has met one, with what keeps `perform` from repeating it. -/
structure Stopped (n : Nat) (s : TransferState) : Prop where
  short : ∃ x ∈ s.history, ShortFor n x
  final : s.tooLarge = true ∨ s.sinkError.isSome = true ∨ 0 < s.receivedBytes

/-- The sink of the attempt `n` after the callbacks `done`. -/
structure Sending (config : CurlTransportConfig)
    (sink : List Bytes → Bytes → Except Exception Bool) (n : Nat) (done : List CurlCall)
    (s : TransferState) : Prop where
  oneAttempt : deliveries s.history <+:
    ((blocksOf done).filter fun block => block ≠ []).map (Prod.mk n)
  received : ((deliveries s.history).map fun d => d.2.length).sum = s.receivedBytes
  limited : s.receivedBytes ≤ config.maxResponseBytes
  fenced : s.history.Pairwise fun x y => Stops x → ¬ Delivers y
  thrown : ∀ m block exception, .sunk m block (.error exception) ∈ s.history →
    s.tooLarge = false ∧ s.sinkError = some exception
  owned : ∀ x ∈ s.history, ∀ m, WritesFor m x → m ≤ n
  flow : Flowing config sink n done s ∨ Stopped n s

/-- Appending events that deliver nothing. -/
theorem pairwise_append_stops {h k : List HttpEvent}
    (hh : h.Pairwise fun x y => Stops x → ¬ Delivers y) (hk : ∀ y ∈ k, ¬ Delivers y) :
    (h ++ k).Pairwise fun x y => Stops x → ¬ Delivers y := by
  refine List.pairwise_append.mpr ⟨hh, ?_, fun x _ y hy _ => hk y hy⟩
  exact List.pairwise_of_forall_mem_list fun x _ y hy _ => hk y hy

/-- Appending the note of one block and its count. -/
theorem pairwise_append_sunk {h : List HttpEvent} {block : Bytes} {answer : Except Exception Bool}
    {size returned : Nat} (hh : h.Pairwise fun x y => Stops x → ¬ Delivers y)
    (hblock : block ≠ [] → ∀ x ∈ h, ¬ Stops x) :
    (h ++ [HttpEvent.sunk n block answer, .wrote n size returned]).Pairwise
      fun x y => Stops x → ¬ Delivers y := by
  refine List.pairwise_append.mpr ⟨hh, ?_, ?_⟩
  · refine List.pairwise_cons.mpr ⟨?_, List.pairwise_singleton _ _⟩
    intro y hy _
    obtain rfl := List.mem_singleton.mp hy
    exact id
  · intro x hx y hy hstops
    cases List.mem_cons.mp hy with
    | inl hsunk =>
        subst hsunk
        intro hne
        exact hblock hne x hx hstops
    | inr hwrote =>
        obtain rfl := List.mem_singleton.mp hwrote
        exact id

theorem deliveries_sunk {block : Bytes} {answer : Except Exception Bool} {size returned : Nat} :
    deliveries [.sunk n block answer, .wrote n size returned] =
      ([block].filter fun block => block ≠ []).map (Prod.mk n) := by
  by_cases hblock : block = []
  · subst hblock
    rfl
  · simp [deliveries, hblock]

/-- The bytes of the deliveries are those of the blocks. -/
theorem sum_deliveries_sunk {block : Bytes} {answer : Except Exception Bool}
    {size returned : Nat} :
    ((deliveries [.sunk n block answer, .wrote n size returned]).map fun d => d.2.length).sum =
      block.length := by
  rw [deliveries_sunk]
  by_cases hblock : block = []
  · subst hblock
    rfl
  · simp [hblock]

/-- The events of one call of the sink, in a transfer that goes on until then. -/
theorem Sending.sunk {block : Bytes} (h : Sending config sink n done s)
    (hflow : Flowing config sink n done s)
    (hsize : block.length ≤
      config.maxResponseBytes - min config.maxResponseBytes s.receivedBytes)
    (answer : Except Exception Bool) (returned : Nat) :
    deliveries (s.history ++ [HttpEvent.sunk n block answer, .wrote n block.length returned]) =
      ((blocksOf (done ++ [.body block])).filter fun block => block ≠ []).map (Prod.mk n) ∧
    ((deliveries (s.history ++ [HttpEvent.sunk n block answer, .wrote n block.length returned])).map
      fun d => d.2.length).sum = s.receivedBytes + block.length ∧
    s.receivedBytes + block.length ≤ config.maxResponseBytes ∧
    (s.history ++ [HttpEvent.sunk n block answer, .wrote n block.length returned]).Pairwise
      (fun x y => Stops x → ¬ Delivers y) ∧
    ∀ x ∈ s.history ++ [HttpEvent.sunk n block answer, .wrote n block.length returned],
      ∀ m, WritesFor m x → m ≤ n := by
  have hlimit := h.limited
  refine ⟨?_, ?_, ?_, ?_, ?_⟩
  · rw [deliveries_append, hflow.exact_, deliveries_sunk, blocksOf_append,
      blocksOf_body, List.filter_append, List.map_append]
  · rw [deliveries_append, List.map_append, List.sum_append, h.received,
      sum_deliveries_sunk]
  · omega
  · refine pairwise_append_sunk h.fenced fun hne x hx hstops => hne ?_
    -- after a refusal all the bytes of the limit are there
    have hfull := hflow.full ⟨x, hx, hstops⟩
    exact List.length_eq_zero_iff.mp (by omega)
  · intro x hx m hm
    cases List.mem_append.mp hx with
    | inl hold => exact h.owned x hold m hm
    | inr hnew =>
        simp only [List.mem_cons, List.not_mem_nil, or_false] at hnew
        rcases hnew with rfl | rfl
        · exact absurd hm id
        · exact Nat.le_of_eq (Eq.symm hm)

/-- No exception was thrown into a transfer that goes on. -/
theorem Sending.calm (h : Sending config sink n done s) (hcalm : s.sinkError = none) :
    ∀ m block exception, HttpEvent.sunk m block (.error exception) ∉ s.history := by
  intro m block exception hmem
  have hthrown := (h.thrown m block exception hmem).2
  rw [hcalm] at hthrown
  contradiction

/-- After a short count `write_body` is not called. -/
theorem Stopped.silent {size returned : Nat} (h : Stopped n s) {k : List HttpEvent}
    (hobeys : Obeys curl (s.history ++ k)) (hk : .wrote n size returned ∈ k) : False := by
  obtain ⟨x, hx, hshort⟩ := h.short
  have hpairs := (List.pairwise_append.mp hobeys.silent).2.2
  exact hpairs x hx _ hk n hshort rfl

/-- Events that concern neither sink nor `write_body`. -/
theorem Sending.keep {k : List HttpEvent} (h : Sending config sink n done s)
    (hc : blocksOf [c] = []) (hhistory : t.history = s.history ++ k)
    (hpolled : ∀ x ∈ k, ∃ b, x = .polled b) (hreceived : t.receivedBytes = s.receivedBytes)
    (hlarge : t.tooLarge = s.tooLarge) (herror : t.sinkError = s.sinkError) :
    Sending config sink n (done ++ [c]) t := by
  have hsilent : ∀ x ∈ k, ¬ Delivers x ∧ ¬ Stops x ∧ ∀ m, ¬ WritesFor m x := by
    intro x hx
    obtain ⟨b, rfl⟩ := hpolled x hx
    exact ⟨id, id, fun _ => id⟩
  have hnone : deliveries k = [] ∧ givenBlocks k = [] := by
    constructor
    all_goals
      refine List.filterMap_eq_nil_iff.mpr fun x hx => ?_
      obtain ⟨b, rfl⟩ := hpolled x hx
      rfl
  have hdeliveries : deliveries t.history = deliveries s.history := by
    rw [hhistory, deliveries_append, hnone.1, List.append_nil]
  have hgiven : givenBlocks t.history = givenBlocks s.history := by
    rw [hhistory, givenBlocks_append, hnone.2, List.append_nil]
  have hblocks : blocksOf (done ++ [c]) = blocksOf done := by
    rw [blocksOf_append, hc, List.append_nil]
  have hmem : ∀ x, (∀ b, x ≠ .polled b) → x ∈ t.history → x ∈ s.history := by
    intro x hne hx
    rw [hhistory] at hx
    refine (List.mem_append.mp hx).resolve_right fun hnew => ?_
    obtain ⟨b, rfl⟩ := hpolled x hnew
    exact hne b rfl
  refine ⟨?_, ?_, ?_, ?_, ?_, ?_, ?_⟩
  · rw [hdeliveries, hblocks]
    exact h.oneAttempt
  · rw [hdeliveries, hreceived]
    exact h.received
  · rw [hreceived]
    exact h.limited
  · rw [hhistory]
    exact pairwise_append_stops h.fenced fun x hx => (hsilent x hx).1
  · intro m block exception hx
    rw [hlarge, herror]
    exact h.thrown m block exception (hmem _ (fun _ => nofun) hx)
  · intro x hx m hm
    refine h.owned x (hmem x ?_ hx) m hm
    rintro b rfl
    exact hm
  · cases h.flow with
    | inl hflow =>
        refine .inl ⟨?_, ?_, ?_, hlarge.trans hflow.small, herror.trans hflow.calm, ?_⟩
        · rw [hdeliveries, hblocks]
          exact hflow.exact_
        · rw [hgiven]
          exact hflow.fed
        · rw [hgiven, hreceived]
          exact hflow.total
        · rintro ⟨x, hx, hstops⟩
          rw [hreceived]
          refine hflow.full ⟨x, hmem x ?_ hx, hstops⟩
          rintro b rfl
          exact hstops
    | inr hstopped =>
        obtain ⟨x, hx, hshort⟩ := hstopped.short
        refine .inr ⟨⟨x, ?_, hshort⟩, ?_⟩
        · rw [hhistory]
          exact List.mem_append_left _ hx
        · rw [hlarge, herror, hreceived]
          exact hstopped.final

/-- The step of a transfer: what a callback does to it, for a sink that takes
empty blocks. -/
theorem Sending.step (htakes : TakesEmptyBlocks config.maxResponseBytes sink)
    (hsink : request.bodySink = some sink) (h : Sending config sink n done s)
    (hobeys : Obeys curl t.history) (heffect : CallbackEffect config request n s c t) :
    Sending config sink n (done ++ [c]) t := by
  cases heffect with
  | header line =>
      exact h.keep rfl (List.append_nil _).symm (fun _ => nofun) rfl rfl rfl
  | unpolled _ =>
      exact h.keep rfl (List.append_nil _).symm (fun _ => nofun) rfl rfl rfl
  | polled _ =>
      exact h.keep rfl rfl (fun x hx => ⟨_, List.mem_singleton.mp hx⟩) rfl rfl rfl
  | stored hnone =>
      rw [hnone] at hsink
      contradiction
  | @large block hsize =>
      have hlimit := h.limited
      have hshort : ShortFor n (.wrote n block.length 0) := ⟨rfl, by omega⟩
      cases h.flow with
      | inr hstopped => exact (hstopped.silent hobeys List.mem_cons_self).elim
      | inl hflow =>
          have hcalm := h.calm hflow.calm
          refine ⟨?_, ?_, hlimit, ?_, ?_, ?_, .inr ⟨⟨_, ?_, hshort⟩, .inl rfl⟩⟩
          · rw [deliveries_append, blocksOf_append, List.filter_append, List.map_append]
            exact (List.append_nil _).symm ▸ h.oneAttempt.trans (List.prefix_append _ _)
          · rw [deliveries_append]
            exact (List.append_nil _).symm ▸ h.received
          · exact pairwise_append_stops h.fenced (by simp [Delivers])
          · intro m block' exception hx
            cases List.mem_append.mp hx with
            | inl hold => exact absurd hold (hcalm m block' exception)
            | inr hnew => exact nomatch List.mem_singleton.mp hnew
          · intro x hx m hm
            cases List.mem_append.mp hx with
            | inl hold => exact h.owned x hold m hm
            | inr hnew =>
                obtain rfl := List.mem_singleton.mp hnew
                exact Nat.le_of_eq (Eq.symm hm)
          · exact List.mem_append_right _ List.mem_cons_self
  | @accepted block sink' hsink' hsize hanswer =>
      obtain rfl : sink' = sink := Option.some.inj (hsink'.symm.trans hsink)
      cases h.flow with
      | inr hstopped =>
          exact (hstopped.silent hobeys (List.mem_cons_of_mem _ List.mem_cons_self)).elim
      | inl hflow =>
          obtain ⟨hexact, hreceived, hlimited, hfenced, howned⟩ := h.sunk hflow hsize _ _
          have hgiven : givenBlocks (s.history ++ [.sunk n block (.ok true),
              .wrote n block.length block.length]) = givenBlocks s.history ++ [block] :=
            givenBlocks_append _ _
          refine ⟨hexact ▸ List.prefix_refl _, hreceived, hlimited, hfenced, ?_, howned,
            .inl ⟨hexact, ?_, ?_, hflow.small, hflow.calm, ?_⟩⟩
          · intro m block' exception hx
            refine absurd ?_ (h.calm hflow.calm m block' exception)
            simpa using hx
          · rw [hgiven]
            refine .accepted hflow.fed hanswer ?_
            rw [hflow.total]
            exact hlimited
          · rw [hgiven, List.flatten_append, List.length_append, hflow.total]
            simp
          · rintro ⟨x, hx, hstops⟩
            have hold : x ∈ s.history := by
              refine (List.mem_append.mp hx).resolve_right fun hnew => ?_
              simp only [List.mem_cons, List.not_mem_nil, or_false] at hnew
              rcases hnew with rfl | rfl
              · exact hstops
              · exact hstops
            have hfull := hflow.full ⟨x, hold, hstops⟩
            dsimp only at hlimited ⊢
            omega
  | @refused block sink' hsink' hsize hanswer =>
      obtain rfl : sink' = sink := Option.some.inj (hsink'.symm.trans hsink)
      cases h.flow with
      | inr hstopped =>
          exact (hstopped.silent hobeys (List.mem_cons_of_mem _ List.mem_cons_self)).elim
      | inl hflow =>
          obtain ⟨hexact, hreceived, hlimited, hfenced, howned⟩ := h.sunk hflow hsize _ _
          have hgiven : givenBlocks (s.history ++ [.sunk n block (.ok false),
              .wrote n block.length 0]) = givenBlocks s.history ++ [block] :=
            givenBlocks_append _ _
          refine ⟨hexact ▸ List.prefix_refl _, hreceived, hlimited, hfenced, ?_, howned, ?_⟩
          · intro m block' exception hx
            refine absurd ?_ (h.calm hflow.calm m block' exception)
            simpa using hx
          by_cases hblock : block = []
          · -- an empty block is refused only when the limit is reached
            subst hblock
            have hfull : s.receivedBytes = config.maxResponseBytes := by
              have hle := h.limited
              have hnot := (htakes _ hflow.fed).2
              rw [hflow.total] at hnot
              by_contra hne
              exact hnot (by omega) hanswer
            refine .inl ⟨hexact, ?_, ?_, hflow.small, hflow.calm, fun _ => hfull⟩
            · rw [hgiven]
              exact .full hflow.fed hanswer (hflow.total.trans hfull)
            · rw [hgiven, List.flatten_append, List.length_append, hflow.total]
              rfl
          · have hpos := List.length_pos_iff.mpr hblock
            have hshort : ShortFor n (.wrote n block.length 0) := ⟨rfl, by omega⟩
            refine .inr ⟨⟨_, List.mem_append_right _ (List.mem_cons_of_mem _ List.mem_cons_self),
              hshort⟩, .inr (.inr ?_)⟩
            show 0 < s.receivedBytes + block.length
            omega
  | @threw block sink' exception hsink' hsize hanswer =>
      obtain rfl : sink' = sink := Option.some.inj (hsink'.symm.trans hsink)
      cases h.flow with
      | inr hstopped =>
          exact (hstopped.silent hobeys (List.mem_cons_of_mem _ List.mem_cons_self)).elim
      | inl hflow =>
          obtain ⟨hexact, hreceived, hlimited, hfenced, howned⟩ := h.sunk hflow hsize _ _
          have hblock : block ≠ [] := by
            rintro rfl
            exact (htakes _ hflow.fed).1 exception hanswer
          have hpos := List.length_pos_iff.mpr hblock
          have hshort : ShortFor n (.wrote n block.length 0) := ⟨rfl, by omega⟩
          refine ⟨hexact ▸ List.prefix_refl _, hreceived, hlimited, hfenced, ?_, howned,
            .inr ⟨⟨_, List.mem_append_right _ (List.mem_cons_of_mem _ List.mem_cons_self),
              hshort⟩, .inr (.inl rfl)⟩⟩
          intro m block' exception' hx
          cases List.mem_append.mp hx with
          | inl hold => exact absurd hold (h.calm hflow.calm m block' exception')
          | inr hnew =>
              simp only [List.mem_cons, HttpEvent.sunk.injEq, Except.error.injEq, reduceCtorEq,
                List.not_mem_nil, or_false] at hnew
              exact ⟨hflow.small, congrArg some hnew.2.2.symm⟩

/-! ## every attempt -/

/-- The sink at the head of the loop, before the attempt `n`: it was given no
bytes and took all the empty blocks. -/
structure Untouched (config : CurlTransportConfig)
    (sink : List Bytes → Bytes → Except Exception Bool) (n : Nat) (history : List HttpEvent) :
    Prop where
  none : deliveries history = []
  fed : Fed config.maxResponseBytes sink (givenBlocks history)
  total : (givenBlocks history).flatten = []
  calm : ∀ x ∈ history, ¬ Stops x
  owned : ∀ x ∈ history, ∀ m, WritesFor m x → m < n

/-- Events without blocks. -/
theorem Untouched.append {h k : List HttpEvent} (hh : Untouched config sink n h)
    (hgiven : givenBlocks k = []) (hdeliveries : deliveries k = [])
    (hk : ∀ x ∈ k, ¬ Stops x ∧ ∀ m, ¬ WritesFor m x) : Untouched config sink n (h ++ k) := by
  have hsame : givenBlocks (h ++ k) = givenBlocks h := by
    rw [givenBlocks_append, hgiven, List.append_nil]
  refine ⟨?_, ?_, ?_, ?_, ?_⟩
  · rw [deliveries_append, hh.none, hdeliveries]
    rfl
  · rw [hsame]
    exact hh.fed
  · rw [hsame]
    exact hh.total
  · intro x hx
    cases List.mem_append.mp hx with
    | inl hold => exact hh.calm x hold
    | inr hnew => exact (hk x hnew).1
  · intro x hx m hm
    cases List.mem_append.mp hx with
    | inl hold => exact hh.owned x hold m hm
    | inr hnew => exact absurd hm ((hk x hnew).2 m)

theorem Untouched.poll {h : List HttpEvent} (hh : Untouched config sink n h) :
    Untouched config sink n (poll request h).2 := by
  obtain ⟨-, hpoll⟩ | ⟨cancelled, -, hpoll⟩ := poll_snd request h
  · rw [hpoll]
    exact hh
  · rw [hpoll]
    exact hh.append rfl rfl (by simp [Stops, WritesFor])

/-- A fresh transfer. -/
theorem Untouched.sending {h : List HttpEvent} (hh : Untouched config sink n h) :
    Sending config sink n [] { history := h ++ [.started n] } := by
  have hstarted := hh.append (k := [.started n]) rfl rfl (by simp [Stops, WritesFor])
  refine ⟨?_, ?_, Nat.zero_le _, ?_, ?_, ?_, .inl ⟨?_, hstarted.fed, ?_, rfl, rfl, ?_⟩⟩
  · rw [hstarted.none]
    exact List.nil_prefix
  · rw [hstarted.none]
    rfl
  · exact List.pairwise_of_forall_mem_list fun x hx _ _ hstops =>
      absurd hstops (hstarted.calm x hx)
  · intro m block exception hx
    exact absurd trivial (hstarted.calm _ hx)
  · intro x hx m hm
    exact Nat.le_of_lt (hstarted.owned x hx m hm)
  · exact hstarted.none
  · rw [hstarted.total]
    rfl
  · rintro ⟨x, hx, hstops⟩
    exact absurd hstops (hstarted.calm x hx)

theorem Untouched.transfer {h : List HttpEvent} (hh : Untouched config sink n h)
    (htakes : TakesEmptyBlocks config.maxResponseBytes sink)
    (hsink : request.bodySink = some sink)
    (hobeys : Obeys curl
      (transfer config request n (CurlHttpTransport.poll request h).2 (curl n)).history) :
    Sending config sink n (curl n).calls
      (transfer config request n (CurlHttpTransport.poll request h).2 (curl n)) :=
  transfer_rule (Obeys.prefixClosed curl) hh.poll.sending
    (fun _ _ _ _ hs ho heffect => hs.step htakes hsink ho heffect) hobeys

/-- What the end of the last attempt makes of it. -/
theorem Sending.delivered {r : Except PerformError TransportResponse}
    (h : Sending config sink n (curl n).calls s)
    (hend : AttemptEnd config request environment n (curl n) s r) :
    Delivered config curl r s.history := by
  refine ⟨⟨n, h.oneAttempt⟩, h.received ▸ h.limited, h.fenced, ?_⟩
  intro m block exception hx
  obtain ⟨hlarge, herror⟩ := h.thrown m block exception hx
  cases hend with
  | tooLarge hlarge' =>
      rw [hlarge] at hlarge'
      contradiction
  | sink _ herror' =>
      obtain rfl := Option.some.inj (herror.symm.trans herror')
      rfl
  | aborted _ herror' _ | concluded _ herror' _ =>
      rw [herror] at herror'
      contradiction

/-- An attempt that is repeated has delivered nothing. -/
theorem Sending.untouched {delay : Int} (h : Sending config sink n done s)
    (hlarge : s.tooLarge = false) (herror : s.sinkError = none) (hzero : s.receivedBytes = 0) :
    Untouched config sink (n + 1) (s.history ++ [.slept n delay]) := by
  cases h.flow with
  | inr hstopped =>
      rcases hstopped.final with hfinal | hfinal | hfinal
      · rw [hlarge] at hfinal
        contradiction
      · rw [herror] at hfinal
        contradiction
      · omega
  | inl hflow =>
      have htotal : (givenBlocks s.history).flatten = [] :=
        List.length_eq_zero_iff.mp (hflow.total.trans hzero)
      have hnone : deliveries s.history = [] := by
        refine List.filterMap_eq_nil_iff.mpr fun x hx => ?_
        cases x with
        | sunk m block answer =>
            have hblock : block = [] :=
              List.flatten_eq_nil_iff.mp htotal block (List.mem_filterMap.mpr ⟨_, hx, rfl⟩)
            exact if_pos hblock
        | _ => rfl
      refine Untouched.append ⟨hnone, hflow.fed, htotal, ?_, ?_⟩ rfl rfl
        (by simp [Stops, WritesFor])
      · intro x hx hstops
        have hfull := hflow.full ⟨x, hx, hstops⟩
        have hpos := config.maxResponseBytes_pos
        omega
      · intro x hx m hm
        exact Nat.lt_succ_of_le (h.owned x hx m hm)

theorem perform_delivered (config : CurlTransportConfig) (environment : CurlEnvironment)
    (hsink : request.bodySink = some sink)
    (htakes : TakesEmptyBlocks config.maxResponseBytes sink)
    (hobeys : Obeys curl (perform config request environment curl).2) :
    Delivered config curl (perform config request environment curl).1
      (perform config request environment curl).2 := by
  refine performFrom_rule (Obeys.prefixClosed curl)
    (I := fun n _ h => Untouched config sink n h) (Q := Delivered config curl)
    ?_ ?_ ?_ _ _ _ _ (Nat.add_comm 1 _) config.maxAttempts_pos
    ⟨rfl, .nil, rfl, fun _ hx => (List.not_mem_nil hx).elim,
      fun _ hx => (List.not_mem_nil hx).elim⟩ hobeys
  · intro n backoff h hh _
    have hpolled : Untouched config sink n (poll request h).2 := hh.poll
    refine ⟨⟨n, ?_⟩, ?_, ?_, ?_⟩
    · rw [hpolled.none]
      exact List.nil_prefix
    · rw [hpolled.none]
      exact Nat.zero_le _
    · exact List.pairwise_of_forall_mem_list fun x hx _ _ hstops =>
        absurd hstops (hpolled.calm x hx)
    · intro m block exception hx
      exact absurd trivial (hpolled.calm _ hx)
  · intro n backoff h r _ hh _ ho hend
    exact (hh.transfer htakes hsink ho).delivered hend
  · intro n backoff h hh _ ho hlarge herror hretry
    have hzero : (CurlHttpTransport.transfer config request n
        (CurlHttpTransport.poll request h).2 (curl n)).receivedBytes = 0 := by
      unfold retry at hretry
      rw [hsink] at hretry
      simp only [Bool.and_eq_true, Option.isNone_some, Bool.false_or, decide_eq_true_eq] at hretry
      exact hretry.1.2
    exact (hh.transfer htakes hsink ho).untouched hlarge herror hzero

/-! ## a request without a sink -/

/-- The sink is called. -/
def Sinks : HttpEvent → Prop
  | .sunk _ _ _ => True
  | _ => False

theorem unsunk_append {h k : List HttpEvent} (hh : ∀ x ∈ h, ¬ Sinks x) (hk : ∀ x ∈ k, ¬ Sinks x) :
    ∀ x ∈ h ++ k, ¬ Sinks x := List.forall_mem_append.mpr ⟨hh, hk⟩

theorem unsunk_poll {h : List HttpEvent} (hh : ∀ x ∈ h, ¬ Sinks x) :
    ∀ x ∈ (poll request h).2, ¬ Sinks x := by
  obtain ⟨-, hpoll⟩ | ⟨cancelled, -, hpoll⟩ := poll_snd request h
  · rw [hpoll]
    exact hh
  · rw [hpoll]
    exact unsunk_append hh (by simp [Sinks])

theorem unsunk_transfer {h : List HttpEvent} {curl : CurlAttempt}
    (hsink : request.bodySink = none) (hh : ∀ x ∈ h, ¬ Sinks x) :
    ∀ x ∈ (transfer config request n h curl).history, ¬ Sinks x := by
  refine transfer_rule_true (P := fun _ s => ∀ x ∈ s.history, ¬ Sinks x)
    (unsunk_append hh (by simp [Sinks])) ?_
  rintro done s c t hs heffect
  cases heffect with
  | header line | unpolled hnone => exact hs
  | large _ | stored _ | polled _ => exact unsunk_append hs (by simp [Sinks])
  | accepted hsink' _ _ | refused hsink' _ _ | threw hsink' _ _ =>
      rw [hsink] at hsink'
      contradiction

/-- A request without a sink gives it nothing. -/
theorem perform_unsunk (config : CurlTransportConfig) (environment : CurlEnvironment)
    (curl : Nat → CurlAttempt) (hsink : request.bodySink = none) :
    ∀ x ∈ (perform config request environment curl).2, ¬ Sinks x := by
  refine performFrom_rule (O := fun _ => True) (fun _ _ _ _ => trivial)
    (I := fun _ _ h => ∀ x ∈ h, ¬ Sinks x) (Q := fun _ h => ∀ x ∈ h, ¬ Sinks x)
    ?_ ?_ ?_ _ _ _ _ (Nat.add_comm 1 _) config.maxAttempts_pos
    (fun _ hx => (List.not_mem_nil hx).elim) trivial
  · intro n backoff h hh _
    exact unsunk_poll hh
  · intro n backoff h r _ hh _ _ _
    exact unsunk_transfer hsink (unsunk_poll hh)
  · intro n backoff h hh _ _ _ _ _
    exact unsunk_append (unsunk_transfer hsink (unsunk_poll hh)) (by simp [Sinks])

/-- Without a call of the sink there is nothing to repeat. -/
theorem Delivered.of_unsunk {r : Except PerformError TransportResponse} {h : List HttpEvent}
    (hh : ∀ x ∈ h, ¬ Sinks x) : Delivered config curl r h := by
  have hnone : deliveries h = [] := by
    refine List.filterMap_eq_nil_iff.mpr fun x hx => ?_
    cases x with
    | sunk m block answer => exact absurd trivial (hh _ hx)
    | _ => rfl
  refine ⟨⟨0, ?_⟩, ?_, ?_, ?_⟩
  · rw [hnone]
    exact List.nil_prefix
  · rw [hnone]
    exact Nat.zero_le _
  · refine List.pairwise_of_forall_mem_list fun x hx _ _ hstops => ?_
    cases x with
    | sunk m block answer => exact absurd trivial (hh _ hx)
    | _ => exact absurd hstops id
  · intro m block exception hx
    exact absurd trivial (hh _ hx)

/-- A call that is cancelled before its first attempt. -/
theorem perform_of_cancelled (hcancelled : (poll request []).1 = true) :
    perform config request environment curl = (.error .cancelled, (poll request []).2) := by
  obtain ⟨left, hleft⟩ : ∃ left, config.maxAttempts = left + 1 :=
    ⟨config.maxAttempts - 1, by have := config.maxAttempts_pos; omega⟩
  unfold perform
  rw [hleft]
  unfold performFrom
  dsimp only
  rw [hcancelled]
  rfl

theorem delivered_of_takes (config : CurlTransportConfig) (environment : CurlEnvironment)
    (htakes : ∀ sink, request.bodySink = some sink → (poll request []).1 = false →
      TakesEmptyBlocks config.maxResponseBytes sink)
    (hobeys : Obeys curl (perform config request environment curl).2) :
    Delivered config curl (perform config request environment curl).1
      (perform config request environment curl).2 := by
  cases hsink : request.bodySink with
  | none => exact .of_unsunk (perform_unsunk config environment curl hsink)
  | some sink =>
      cases hpoll : (poll request []).1 with
      | false => exact perform_delivered config environment hsink (htakes sink hsink hpoll) hobeys
      | true =>
          rw [perform_of_cancelled hpoll]
          exact .of_unsunk (unsunk_poll fun _ hx => (List.not_mem_nil hx).elim)

/-! ## a sink that does not take an empty block -/

/-- An attempt that delivers `blocks`, an empty block and one byte more, and
then fails for good. -/
def probe (blocks : List Bytes) : CurlAttempt where
  calls := (blocks ++ [[], [0]]).map .body
  code := .other 23

/-- A call whose first attempt is not repeated. -/
theorem perform_once (config : CurlTransportConfig) (environment : CurlEnvironment)
    (hpoll : (poll request []).1 = false) (hcode : retryableCurl (curl 1).code = false)
    (hok : (curl 1).code ≠ .ok) :
    AttemptEnd config request environment 1 (curl 1)
        (transfer config request 1 (poll request []).2 (curl 1))
        (perform config request environment curl).1 ∧
      (perform config request environment curl).2 =
        (transfer config request 1 (poll request []).2 (curl 1)).history := by
  refine performFrom_rule (O := fun _ => True) (fun _ _ _ _ => trivial)
    (I := fun n _ h => n = 1 ∧ h = [])
    (Q := fun r h => AttemptEnd config request environment 1 (curl 1)
        (transfer config request 1 (poll request []).2 (curl 1)) r ∧
      h = (transfer config request 1 (poll request []).2 (curl 1)).history)
    ?_ ?_ ?_ _ _ _ _ (Nat.add_comm 1 _) config.maxAttempts_pos ⟨rfl, rfl⟩ trivial
  · rintro n backoff h ⟨rfl, rfl⟩ htrue
    rw [hpoll] at htrue
    contradiction
  · rintro n backoff h r - ⟨rfl, rfl⟩ - - hend
    exact ⟨hend, rfl⟩
  · rintro n backoff h ⟨rfl, rfl⟩ - - - - hretry
    unfold retry at hretry
    rw [hcode, decide_eq_false hok] at hretry
    simp at hretry

/-- A transfer without a short count that gave the sink the blocks `blocks`. -/
structure Fluent (config : CurlTransportConfig) (blocks : List Bytes) (s : TransferState) :
    Prop where
  given : givenBlocks s.history = blocks
  received : s.receivedBytes = blocks.flatten.length
  limited : s.receivedBytes ≤ config.maxResponseBytes
  small : s.tooLarge = false
  full : ∀ x ∈ s.history, ∀ m, ¬ ShortFor m x

/-- A block that is given to the sink without a short count. -/
theorem Fluent.sunk {blocks : List Bytes} {block : Bytes} {answer : Except Exception Bool}
    {error : Option Exception} (h : Fluent config blocks s)
    (hlimit : blocks.flatten.length + block.length ≤ config.maxResponseBytes) {returned : Nat}
    (hfull : returned = block.length) :
    Fluent config (blocks ++ [block]) { s with
      receivedBytes := s.receivedBytes + block.length
      sinkError := error
      history := s.history ++ [.sunk n block answer, .wrote n block.length returned] } := by
  refine ⟨?_, ?_, ?_, h.small, ?_⟩
  · rw [givenBlocks_append, h.given]
    rfl
  · rw [h.received, List.flatten_append, List.length_append]
    simp
  · rw [h.received]
    exact hlimit
  · intro x hx m hshort
    cases List.mem_append.mp hx with
    | inl hold => exact h.full x hold m hshort
    | inr hnew =>
        simp only [List.mem_cons, List.not_mem_nil, or_false] at hnew
        rcases hnew with rfl | rfl
        · exact hshort
        · exact hshort.2 hfull

/-- The blocks a sink can have been given are given by an attempt of their own. -/
theorem Fed.fluent {blocks : List Bytes} (hfed : Fed config.maxResponseBytes sink blocks)
    (hsink : request.bodySink = some sink) {h : List HttpEvent} (hh : givenBlocks h = [])
    (hquiet : ∀ x ∈ h, ∀ m, ¬ ShortFor m x) :
    Fluent config blocks
      ((blocks.map CurlCall.body).foldl (callback config request n) { history := h }) := by
  induction hfed with
  | nil => exact ⟨hh, rfl, Nat.zero_le _, rfl, hquiet⟩
  | @accepted blocks block hfed hanswer hlimit ih =>
      rw [List.map_append, List.foldl_append]
      generalize (blocks.map CurlCall.body).foldl (callback config request n)
        { history := h } = s at ih
      have hreceived := ih.received
      have heffect := callback_effect config request n s (.body block)
      rw [List.map_singleton, List.foldl_cons, List.foldl_nil]
      generalize callback config request n s (.body block) = t at heffect
      cases heffect with
      | large hsize => omega
      | stored hnone =>
          rw [hnone] at hsink
          contradiction
      | accepted hsink' hsize hanswer' => exact ih.sunk hlimit rfl
      | refused hsink' hsize hanswer' | threw hsink' hsize hanswer' =>
          obtain rfl := Option.some.inj (hsink'.symm.trans hsink)
          rw [ih.given, hanswer] at hanswer'
          contradiction
  | @full blocks hfed hanswer hfull ih =>
      rw [List.map_append, List.foldl_append]
      generalize (blocks.map CurlCall.body).foldl (callback config request n)
        { history := h } = s at ih
      have heffect := callback_effect config request n s (.body [])
      rw [List.map_singleton, List.foldl_cons, List.foldl_nil]
      generalize callback config request n s (.body []) = t at heffect
      cases heffect with
      | large hsize => exact absurd hsize (Nat.not_lt_zero _)
      | stored hnone =>
          rw [hnone] at hsink
          contradiction
      | refused hsink' hsize hanswer' =>
          have hroom : blocks.flatten.length + ([] : Bytes).length ≤ config.maxResponseBytes :=
            Nat.le_of_eq hfull
          exact ih.sunk hroom rfl
      | accepted hsink' hsize hanswer' | threw hsink' hsize hanswer' =>
          obtain rfl := Option.some.inj (hsink'.symm.trans hsink)
          rw [ih.given, hanswer] at hanswer'
          contradiction

/-- The transfer of a probe before its last byte: the empty block was not taken,
and left no short count. -/
theorem Fluent.refused {blocks : List Bytes} (h : Fluent config blocks s)
    (hsink : request.bodySink = some sink) (hanswer : sink blocks [] ≠ .ok true) :
    ∃ t, callback config request n s (.body []) = t ∧ Fluent config (blocks ++ [[]]) t ∧
      .sunk n [] (sink blocks []) ∈ t.history ∧ Stops (.sunk n [] (sink blocks [])) := by
  have hlimit : blocks.flatten.length + ([] : Bytes).length ≤ config.maxResponseBytes := by
    have hlimited := h.limited
    rw [h.received] at hlimited
    exact hlimited
  have heffect := callback_effect config request n s (.body [])
  refine ⟨_, rfl, ?_⟩
  generalize callback config request n s (.body []) = t at heffect
  cases heffect with
  | large hsize => exact absurd hsize (Nat.not_lt_zero _)
  | stored hnone =>
      rw [hnone] at hsink
      contradiction
  | accepted hsink' hsize hanswer' =>
      obtain rfl := Option.some.inj (hsink'.symm.trans hsink)
      rw [h.given] at hanswer'
      exact absurd hanswer' hanswer
  | refused hsink' hsize hanswer' | threw hsink' hsize hanswer' =>
      obtain rfl := Option.some.inj (hsink'.symm.trans hsink)
      rw [h.given] at hanswer'
      refine ⟨h.sunk hlimit rfl, ?_, ?_⟩
      · rw [hanswer']
        exact List.mem_append_right _ List.mem_cons_self
      · rw [hanswer']
        trivial

/-- The end of a probe: the byte after the empty block is given to the sink, or
there is no room for it. -/
theorem probe_transfer {blocks : List Bytes} {h : List HttpEvent}
    (hfed : Fed config.maxResponseBytes sink blocks) (hsink : request.bodySink = some sink)
    (hh : givenBlocks h = []) (hquiet : ∀ x ∈ h, ∀ m, ¬ ShortFor m x)
    (hanswer : sink blocks [] ≠ .ok true) :
    ∃ k last, (∀ x ∈ k, ∀ m, ¬ ShortFor m x) ∧ .sunk n [] (sink blocks []) ∈ k ∧
      Stops (.sunk n [] (sink blocks [])) ∧
      (transfer config request n h (probe blocks)).history = k ++ last ∧
      ((∃ answer returned, last = [.sunk n [0] answer, .wrote n 1 returned]) ∨
        (blocks.flatten.length = config.maxResponseBytes ∧ last = [.wrote n 1 0] ∧
          (transfer config request n h (probe blocks)).tooLarge = true)) := by
  have hstart := hfed.fluent (n := n) hsink (h := h ++ [.started n])
    (by rw [givenBlocks_append, hh]; rfl)
    (List.forall_mem_append.mpr ⟨hquiet, by simp [ShortFor]⟩)
  unfold transfer probe
  simp only [List.map_append, List.map_cons, List.map_nil, List.foldl_append, List.foldl_cons,
    List.foldl_nil]
  generalize (blocks.map CurlCall.body).foldl (callback config request n)
    { history := h ++ [.started n] } = s at hstart
  obtain ⟨t, ht, hfluent, hmem, hstops⟩ := hstart.refused (n := n) hsink hanswer
  rw [ht]
  have hreceived : t.receivedBytes = blocks.flatten.length := by
    rw [hfluent.received]
    simp
  have heffect := callback_effect config request n t (.body [0])
  generalize callback config request n t (.body [0]) = u at heffect
  have hlimited := hfluent.limited
  cases heffect with
  | large hsize =>
      refine ⟨t.history, _, hfluent.full, hmem, hstops, rfl, .inr ⟨?_, rfl, rfl⟩⟩
      rw [List.length_singleton] at hsize
      omega
  | stored hnone =>
      rw [hnone] at hsink
      contradiction
  | accepted _ _ _ | refused _ _ _ | threw _ _ _ =>
      exact ⟨t.history, _, hfluent.full, hmem, hstops, rfl, .inl ⟨_, _, rfl⟩⟩

/-- A probe keeps to what `perform` relies on. -/
theorem obeys_probe {blocks : List Bytes} {k last : List HttpEvent}
    (hk : ∀ x ∈ k, ∀ m, ¬ ShortFor m x)
    (hlast : (∃ answer returned, last = [.sunk n [0] answer, .wrote n 1 returned]) ∨
      last = [.wrote n 1 0]) : Obeys (fun _ => probe blocks) (k ++ last) := by
  refine ⟨List.pairwise_append.mpr ⟨?_, ?_, ?_⟩, fun _ _ => nofun⟩
  · exact List.pairwise_of_forall_mem_list fun x hx _ _ m hshort =>
      absurd hshort (hk x hx m)
  · rcases hlast with ⟨answer, returned, rfl⟩ | rfl
    · refine List.pairwise_cons.mpr ⟨?_, List.pairwise_singleton _ _⟩
      exact fun _ _ _ hshort => absurd hshort id
    · exact List.pairwise_singleton _ _
  · exact fun x hx _ _ m hshort => absurd hshort (hk x hx m)

theorem takes_of_delivered (config : CurlTransportConfig) (environment : CurlEnvironment)
    (hdelivered : ∀ curl, Obeys curl (perform config request environment curl).2 →
      Delivered config curl (perform config request environment curl).1
        (perform config request environment curl).2)
    (hsink : request.bodySink = some sink) (hpoll : (poll request []).1 = false) :
    TakesEmptyBlocks config.maxResponseBytes sink := by
  intro blocks hfed
  by_contra hrefuses
  have hanswer : sink blocks [] ≠ .ok true := by
    intro htrue
    rw [htrue] at hrefuses
    exact hrefuses ⟨nofun, fun _ => nofun⟩
  have hquiet : givenBlocks (poll request []).2 = [] ∧
      ∀ x ∈ (poll request []).2, ∀ m, ¬ ShortFor m x := by
    obtain ⟨-, heq⟩ | ⟨cancelled, -, heq⟩ := poll_snd request []
    · rw [heq]
      exact ⟨rfl, fun _ hx => (List.not_mem_nil hx).elim⟩
    · rw [heq]
      exact ⟨rfl, by simp [ShortFor]⟩
  obtain ⟨k, last, hk, hmem, hstops, hhistory, hlast⟩ :=
    probe_transfer (n := 1) hfed hsink hquiet.1 hquiet.2 hanswer
  obtain ⟨hend, hperform⟩ := @perform_once request (fun _ => probe blocks) config
    environment hpoll rfl nofun
  have hobeys : Obeys (fun _ => probe blocks)
      (perform config request environment fun _ => probe blocks).2 := by
    rw [hperform, hhistory]
    exact obeys_probe hk (hlast.imp_right fun h => h.2.1)
  have hdelivered := hdelivered _ hobeys
  have hfenced := hdelivered.fenced
  have hrethrown := hdelivered.rethrown
  rw [hperform, hhistory] at hfenced hrethrown
  rcases hlast with ⟨answer, returned, rfl⟩ | ⟨hfull, rfl, hlarge⟩
  · -- the byte comes after the refusal
    exact (List.pairwise_append.mp hfenced).2.2 _ hmem _ List.mem_cons_self hstops
      (List.cons_ne_nil _ _)
  · cases hthrows : sink blocks [] with
    | ok taken =>
        rw [hthrows] at hrefuses
        exact hrefuses ⟨nofun, fun hlt => absurd hfull (Nat.ne_of_lt hlt)⟩
    | error exception =>
        rw [hthrows] at hmem
        have hresult := hrethrown 1 [] exception (List.mem_append_left _ hmem)
        rw [hresult] at hend
        cases hend with
        | sink hsmall _ =>
            rw [hlarge] at hsmall
            contradiction

/-! ## what a caller can rely on -/

/-- **Delivery**: whatever libcurl does within what `perform` relies on, a call
repeats no delivered byte and reports what became of it, exactly when the call is
cancelled at once, has no sink, or its sink takes empty blocks. -/
theorem no_replay_iff (config : CurlTransportConfig) (request : TransportRequest)
    (environment : CurlEnvironment) (hmono : CancelsForGood request) :
    (∀ curl, Obeys curl (perform config request environment curl).2 →
      NoReplay config request curl (perform config request environment curl).1
        (perform config request environment curl).2) ↔
    (∀ sink, request.bodySink = some sink → (poll request []).1 = false →
      TakesEmptyBlocks config.maxResponseBytes sink) := by
  constructor
  · intro h sink hsink hpoll
    exact takes_of_delivered config environment (fun curl ho => (h curl ho).toDelivered) hsink
      hpoll
  · intro htakes curl ho
    exact ⟨perform_ended config request environment curl,
      delivered_of_takes config environment htakes ho,
      (perform_uncancelled config environment curl hmono).fenced⟩

/-- A sink that refuses empty blocks. -/
def pickySink (_ : List Bytes) (block : Bytes) : Except Exception Bool := .ok (block ≠ [])

/-- A request for the sink `sink`. -/
def sinkRequest (sink : List Bytes → Bytes → Except Exception Bool) : TransportRequest where
  method := lit "POST"
  url := lit "https://host/v1"
  headers := ∅
  body := []
  bodySink := some sink

/-- A world without jitter and dates. -/
def plainWorld : CurlEnvironment where
  jittered _ backoff := backoff
  now _ := 0
  getdate _ := -1
  strerror _ := []

/-- An empty 503, and then an answer with one byte. -/
def emptyThenByte : Nat → CurlAttempt
  | 1 => { calls := [.body []], status := 503 }
  | _ => { calls := [.body [0x41]], status := 200 }

/-- A sink that refused the empty body of the first attempt is given the body of
the second. -/
theorem refusal_ignored :
    Obeys emptyThenByte (perform {} (sinkRequest pickySink) plainWorld emptyThenByte).2 ∧
      ¬ NoReplay {} (sinkRequest pickySink) emptyThenByte
        (perform {} (sinkRequest pickySink) plainWorld emptyThenByte).1
        (perform {} (sinkRequest pickySink) plainWorld emptyThenByte).2 := by
  have hhistory : (perform {} (sinkRequest pickySink) plainWorld emptyThenByte).2 =
      [.started 1, .sunk 1 [] (.ok false), .wrote 1 0 0, .slept 1 200, .started 2,
        .sunk 2 [0x41] (.ok true), .wrote 2 1 1] := rfl
  refine ⟨?_, fun h => ?_⟩
  · rw [hhistory]
    exact ⟨by simp [ShortFor], by simp [ShortFor]⟩
  · have hfenced := h.fenced
    rw [hhistory] at hfenced
    simp [Stops, Delivers] at hfenced

/-- A sink that takes every block. -/
def willingSink (_ : List Bytes) (_ : Bytes) : Except Exception Bool := .ok true

theorem no_replay_to_willing_sink :
    NoReplay {} (sinkRequest willingSink) emptyThenByte
      (perform {} (sinkRequest willingSink) plainWorld emptyThenByte).1
      (perform {} (sinkRequest willingSink) plainWorld emptyThenByte).2 := by
  have hhistory : (perform {} (sinkRequest willingSink) plainWorld emptyThenByte).2 =
      [.started 1, .sunk 1 [] (.ok true), .wrote 1 0 0, .slept 1 200, .started 2,
        .sunk 2 [0x41] (.ok true), .wrote 2 1 1] := rfl
  refine (no_replay_iff {} (sinkRequest willingSink) plainWorld nofun).mpr ?_ emptyThenByte ?_
  · intro sink hsink _ blocks _
    obtain rfl := Option.some.inj hsink
    exact ⟨nofun, fun _ => nofun⟩
  · rw [hhistory]
    exact ⟨by simp [ShortFor], by simp [ShortFor]⟩

end CurlHttpTransport

end ByteTurn

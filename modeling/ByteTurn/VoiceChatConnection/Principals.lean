import ByteTurn.VoiceChatConnection.Incarnations

/-!
# ByteTurn.VoiceChatConnection.Principals

A client that is not the owner of a binding gets a fixed refusal, and nobody
can tell that it has asked.
-/

namespace ByteTurn

/-- What a method returns. -/
inductive ChatReply where
  | started (reply : StartReply)
  | code (code : ChatCode)
  | status (status : ChatStatus)
  | outputs (outputs : List ChatOutput)
  | nothing
  deriving DecidableEq, Repr

/-- The client a request comes from; the other methods are hooks of the transport. -/
def ChatCall.client : ChatCall → Option AuthenticatedClient
  | .start client _ _ | .stop client _ | .pushAudio client _ _ _ | .status client _
  | .takeOutput client _ | .acknowledgePlayerStop client _ | .heartbeat client _ => some client
  | .tick _ | .disconnect => none

/-- The reply to a client that is not the owner. -/
def ChatCall.refusal : ChatCall → ChatReply
  | .start _ _ _ => .started ⟨{ code := .forbidden }, {}⟩
  | .status _ _ => .status { code := .forbidden }
  | .takeOutput _ _ => .outputs []
  | .stop _ _ | .pushAudio _ _ _ _ | .acknowledgePlayerStop _ _ | .heartbeat _ _ =>
      .code .forbidden
  | .tick _ | .disconnect => .nothing

namespace ConnectionState

/-- The reply of a method. -/
def answer (b : ChatBinding) (s : ConnectionState) : ChatCall → ChatReply
  | .start client answer generation => .started (s.start b client answer generation).1
  | .stop client handle => .code (s.stop b client handle).1
  | .pushAudio client handle frame accepted => .code (s.pushAudio b client handle frame accepted).1
  | .status client handle => .status (s.status b client handle).1
  | .takeOutput client handle => .outputs (s.takeOutput b client handle).1
  | .acknowledgePlayerStop client handle => .code (s.acknowledgePlayerStop b client handle).1
  | .heartbeat client now => .code (s.heartbeat b client now).1
  | .tick _ | .disconnect => .nothing

/-- The binding between two calls; the moves of the last call are over. -/
def settled (s : ConnectionState) : ConnectionState := { s with moves := [] }

end ConnectionState

open ConnectionState

/-- A request of a client that is not the owner. -/
def ChatCall.foreign (b : ChatBinding) (c : ChatCall) : Bool := c.client.any fun client =>
  !authorized b client

/-- An action that stays when the requests of other clients are deleted. -/
def ChatAction.own (b : ChatBinding) : ChatAction → Bool
  | .call c _ => !c.foreign b
  | .world _ => true

/-- The replies to the owner. -/
def ownReplies (b : ChatBinding) (s : ConnectionState) : ChatAction → List ChatReply
  | .call c moves => if c.foreign b then [] else [({ s with moves := moves }).answer b c]
  | .world _ => []

/-- A binding with the history of the replies to its owner. -/
def repliedChat (b : ChatBinding) (now : Int) : Machine (ConnectionState × List ChatReply) ChatAction :=
  (voiceChat b now).observed [] fun s a replies => replies ++ ownReplies b s a

variable {b : ChatBinding} {s t : ConnectionState} {c : ChatCall} {now : Int}

/-- A foreign request is refused before anything else. -/
theorem foreign_refused (h : c.foreign b = true) :
    s.answer b c = c.refusal ∧ s.call b c = s := by
  unfold ChatCall.foreign at h
  have hvalidate (client : AuthenticatedClient) (handle : SessionHandle)
      (hclient : (!authorized b client) = true) : s.validate b client handle = .forbidden := by
    unfold validate
    rw [if_pos hclient]
  cases c with
  | start client admission generation =>
      have hclient : (!authorized b client) = true := h
      unfold answer call start
      dsimp only
      rw [if_pos hclient]
      exact ⟨rfl, rfl⟩
  | stop client handle =>
      unfold answer call stop
      dsimp only
      rw [hvalidate client handle h]
      exact ⟨rfl, rfl⟩
  | pushAudio client handle frame accepted =>
      unfold answer call pushAudio
      dsimp only
      rw [hvalidate client handle h]
      exact ⟨rfl, rfl⟩
  | status client handle =>
      unfold answer call status
      dsimp only
      rw [hvalidate client handle h]
      exact ⟨rfl, rfl⟩
  | takeOutput client handle =>
      unfold answer call takeOutput
      dsimp only
      rw [hvalidate client handle h]
      exact ⟨rfl, rfl⟩
  | acknowledgePlayerStop client handle =>
      unfold answer call acknowledgePlayerStop
      dsimp only
      rw [hvalidate client handle h]
      exact ⟨rfl, rfl⟩
  | heartbeat client now =>
      have hclient : (!authorized b client) = true := h
      unfold answer call heartbeat
      dsimp only
      rw [if_pos hclient]
      exact ⟨rfl, rfl⟩
  | tick | disconnect => contradiction

theorem settled_of_moves (h : t.settled = s.settled) (moves : List (List WorldMove)) :
    ({ t with moves := moves } : ConnectionState) = { s with moves := moves } := by
  cases s
  cases t
  simp only [settled, ConnectionState.mk.injEq] at h ⊢
  simp [h]

theorem settled_move (s : ConnectionState) (m : WorldMove) :
    (s.move b m).settled = s.settled.move b m := by
  cases m with
  | append n payload stored | started n outcome | find n info => rfl
  | retired n outcome =>
      unfold ConnectionState.move settled
      dsimp only
      split
      · split <;> rfl
      · rfl

/-- A step of the owner or of the world does not see the moves of the last call. -/
theorem own_step {a : ChatAction} {s' t : ConnectionState} {rs rs' : List ChatReply}
    (hsame : s'.settled = s.settled) (h : (repliedChat b now).step (s, rs) a = some (t, rs')) :
    ∃ t', (repliedChat b now).step (s', rs) a = some (t', rs') ∧ t'.settled = t.settled := by
  obtain ⟨hstep, hreplies⟩ := Machine.observed_step.mp h
  cases a with
  | world m =>
      obtain rfl := Option.some.inj hstep
      refine ⟨s'.move b m, Machine.observed_step.mpr ⟨rfl, hreplies⟩, ?_⟩
      rw [settled_move, hsame, ← settled_move]
  | call c moves =>
      have hmoves := settled_of_moves hsame moves
      have hfresh : s'.fresh b c = s.fresh b c := by
        have hincarnations : s'.incarnations = s.incarnations := congrArg (·.incarnations) hsame
        unfold fresh
        rw [hincarnations]
      have hstep' : (voiceChat b now).step s' (.call c moves) = some t := by
        simp only [voiceChat] at hstep ⊢
        rw [hfresh, hmoves]
        exact hstep
      refine ⟨t, Machine.observed_step.mpr ⟨hstep', ?_⟩, rfl⟩
      rw [← hreplies]
      unfold ownReplies
      dsimp only
      rw [hmoves]

/-- A foreign request changes nothing. -/
theorem foreign_step {a : ChatAction} {t : ConnectionState} {rs rs' : List ChatReply}
    (ha : a.own b = false) (h : (repliedChat b now).step (s, rs) a = some (t, rs')) :
    t.settled = s.settled ∧ rs' = rs := by
  obtain ⟨hstep, hreplies⟩ := Machine.observed_step.mp h
  cases a with
  | world m => contradiction
  | call c moves =>
      have hforeign : c.foreign b = true := by simpa [ChatAction.own] using ha
      simp only [voiceChat, Option.ite_none_right_eq_some, Option.some.injEq] at hstep
      obtain ⟨-, rfl⟩ := hstep
      rw [(foreign_refused hforeign).2]
      refine ⟨rfl, ?_⟩
      rw [← hreplies]
      unfold ownReplies
      dsimp only
      rw [if_pos hforeign, List.append_nil]

/-- A run without the foreign requests. -/
theorem run_own {as : List ChatAction} {s' t : ConnectionState} {rs rs' : List ChatReply}
    (hsame : s'.settled = s.settled) (h : (repliedChat b now).run (s, rs) as = some (t, rs')) :
    ∃ t', (repliedChat b now).run (s', rs) (as.filter (·.own b)) = some (t', rs') ∧
      t'.settled = t.settled := by
  induction as generalizing s s' rs with
  | nil =>
      obtain ⟨rfl, rfl⟩ := Prod.mk.inj (Option.some.inj h)
      exact ⟨s', rfl, hsame⟩
  | cons a as ih =>
      rw [Machine.run_cons] at h
      obtain ⟨⟨u, ru⟩, hstep, hrest⟩ := Option.bind_eq_some_iff.mp h
      cases ha : a.own b with
      | false =>
          obtain ⟨hu, rfl⟩ := foreign_step ha hstep
          rw [List.filter_cons_of_neg (by simp [ha])]
          exact ih (hsame.trans hu.symm) hrest
      | true =>
          obtain ⟨u', hstep', hu⟩ := own_step hsame hstep
          obtain ⟨t', hrun, ht⟩ := ih hu hrest
          rw [List.filter_cons_of_pos ha, Machine.run_cons, hstep']
          exact ⟨t', hrun, ht⟩

/-- **Principals**: a request of a client that is not the owner gets the fixed
refusal of its method.  Without all such requests, a run gives the owner the
same replies and ends in the same state, with the same notes of what the runtime
was asked. -/
theorem voiceChat_principals (b : ChatBinding) (now : Int) :
    (∀ (s : ConnectionState) (c : ChatCall), c.foreign b = true → s.answer b c = c.refusal) ∧
      ∀ (as : List ChatAction) (s : ConnectionState) (replies : List ChatReply),
        (repliedChat b now).run (repliedChat b now).init as = some (s, replies) →
          ∃ t, (repliedChat b now).run (repliedChat b now).init (as.filter (·.own b)) =
            some (t, replies) ∧ t.settled = s.settled :=
  ⟨fun _ _ h => (foreign_refused h).1, fun _ _ _ h => run_own rfl h⟩

/-- The owner's user on another connection. -/
def otherClient : AuthenticatedClient := ⟨lit "user", lit "other"⟩

/-- Another connection tries to stop a session, to look at it and to be heard. -/
def intrudedRun : List ChatAction := [
  .call (.start voiceClient .accepted 1) [],
  .call (.stop otherClient (voiceHandle 1)) [],
  .call (.status otherClient (voiceHandle 1)) [],
  .call (.heartbeat otherClient 7) [],
  .call (.status voiceClient (voiceHandle 1)) []]

theorem intrudedRun_principals :
    (∀ s : ConnectionState, s.answer voiceBinding (.stop otherClient (voiceHandle 1)) = .code .forbidden) ∧
      ∃ (s t : ConnectionState) (replies : List ChatReply), replies.length = 2 ∧ t.settled = s.settled ∧
        (repliedChat voiceBinding 0).run (repliedChat voiceBinding 0).init intrudedRun =
          some (s, replies) ∧
        (repliedChat voiceBinding 0).run (repliedChat voiceBinding 0).init
          [.call (.start voiceClient .accepted 1) [],
            .call (.status voiceClient (voiceHandle 1)) []] = some (t, replies) := by
  obtain ⟨hrefused, hdeleted⟩ := voiceChat_principals voiceBinding 0
  refine ⟨fun s => hrefused s _ (by decide), ?_⟩
  have hrun : ((repliedChat voiceBinding 0).run (repliedChat voiceBinding 0).init intrudedRun).map
      (fun p => p.2.length) = some 2 := by decide +kernel
  obtain ⟨⟨s, replies⟩, hrun, hlength⟩ := Option.map_eq_some_iff.mp hrun
  obtain ⟨t, hrun', hsame⟩ := hdeleted intrudedRun s replies hrun
  exact ⟨s, t, replies, hlength, hsame, hrun, hrun'⟩

end ByteTurn

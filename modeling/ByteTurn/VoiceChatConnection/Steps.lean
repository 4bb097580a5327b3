import ByteTurn.VoiceChatConnection

/-!
# ByteTurn.VoiceChatConnection.Steps

What the methods of a binding are made of.

`Micro` lists the things a method does to the binding, each with the condition
under which the code does it; `call_path` takes every method apart into them.
The properties of the binding are then proved of the micro steps.
-/

namespace ByteTurn

/-- A request to the runtime that changes nothing of the binding. -/
def ChatNote.plain : ChatNote → Bool
  | .refused _ | .removed _ | .failed _ | .found _ => true
  | _ => false

namespace ConnectionState

variable {b : ChatBinding} {s t r : ConnectionState} {n : Nat} {f : Incarnation → Incarnation}

/-! ## what stays as it is -/

/-- The handles of all incarnations. -/
def handles (s : ConnectionState) : List SessionHandle := s.incarnations.map (·.handle)

/-- The handle of `admission_`. -/
def handle (s : ConnectionState) : Option SessionHandle := s.admission.bind fun n => s.handles[n]?

/-- The fields of the binding. -/
def binding (s : ConnectionState) : Bool × Int × Option Nat × ChatPhase × Bool × Bool :=
  (s.connected, s.lastSeen, s.admission, s.phase, s.flushRequested, s.playerStopped)

/-- What `refresh` does not change. -/
def fixed (s : ConnectionState) : Bool × Int × Option Nat × Bool × List SessionHandle :=
  (s.connected, s.lastSeen, s.admission, s.playerStopped, s.handles)

/-- The handle of `admission_` is that of the present incarnation. -/
theorem handle_eq (s : ConnectionState) : s.handle = s.current.map (·.handle) := by
  unfold handle handles current
  cases s.admission with
  | none => rfl
  | some n => exact List.getElem?_map

/-- What is done to an incarnation leaves its handle. -/
theorem handles_modify (hf : ∀ i, (f i).handle = i.handle) : (s.modify n f).handles = s.handles := by
  unfold handles modify
  refine List.ext_getElem? fun m => ?_
  simp only [List.getElem?_map, List.getElem?_modify]
  cases s.incarnations[m]? with
  | none => rfl
  | some i =>
      simp only [Option.map_some]
      split
      · exact congrArg some (hf i)
      · rfl

/-- What holds after every move holds after the moves of a place. -/
theorem others_rec {P : ConnectionState → Prop} (hmove : ∀ s m, P s → P (s.move b m))
    (hmoves : ∀ s ms, P s → P { s with moves := ms }) (h : P s) : P (s.others b) := by
  unfold others
  cases s.moves with
  | nil => exact h
  | cons moves rest =>
      dsimp only
      have hstart : P { s with moves := rest } := hmoves s rest h
      generalize ({ s with moves := rest } : ConnectionState) = r at hstart ⊢
      induction moves generalizing r with
      | nil => exact hstart
      | cons m moves ih => exact ih _ (hmove r m hstart)

/-- A move of the world changes no field of the binding and no handle. -/
theorem move_kept (s : ConnectionState) (m : WorldMove) :
    (s.move b m).binding = s.binding ∧ (s.move b m).handles = s.handles := by
  cases m with
  | append n payload stored => exact ⟨rfl, handles_modify fun _ => rfl⟩
  | started n outcome => exact ⟨rfl, handles_modify fun _ => rfl⟩
  | find n info => exact ⟨rfl, handles_modify fun _ => rfl⟩
  | retired n outcome =>
      unfold move
      dsimp only
      split
      · split
        · exact ⟨rfl, rfl⟩
        · exact ⟨rfl, handles_modify (s := s) (n := n)
            (f := fun i => { i with retired := some outcome }) fun _ => rfl⟩
      · exact ⟨rfl, rfl⟩

/-- Nor do all the moves of a place. -/
theorem others_kept (b : ChatBinding) (s : ConnectionState) :
    (s.others b).binding = s.binding ∧ (s.others b).handles = s.handles := by
  refine others_rec (P := fun t => t.binding = s.binding ∧ t.handles = s.handles)
    (fun r m h => ?_) (fun r ms h => h) ⟨rfl, rfl⟩
  obtain ⟨hbinding, hhandles⟩ := move_kept (b := b) r m
  exact ⟨hbinding.trans h.1, hhandles.trans h.2⟩

/-- The fields and the handles decide what `refresh` does not change. -/
theorem fixed_of_binding (hbinding : t.binding = s.binding) (hhandles : t.handles = s.handles) :
    t.fixed = s.fixed := by
  simp only [binding, Prod.mk.injEq] at hbinding
  simp only [fixed, hhandles, hbinding]

/-- Others leave what `refresh` leaves. -/
@[simp] theorem others_fixed : (s.others b).fixed = s.fixed :=
  fixed_of_binding (others_kept b s).1 (others_kept b s).2

@[simp] theorem note_fixed {x : ChatNote} : (s.note x).fixed = s.fixed := rfl

@[simp] theorem setPhase_fixed {phase : ChatPhase} : (s.setPhase phase).fixed = s.fixed := rfl

/-- `close_route` leaves the client, the admission and the handles. -/
@[simp] theorem closeRoute_fixed : (s.closeRoute b).fixed = s.fixed := by
  unfold closeRoute
  cases s.admission with
  | none => rfl
  | some n =>
      have hhandle : ((s.others b).modify n fun i => { i with route := i.route.close }).fixed =
          (s.others b).fixed := fixed_of_binding rfl (handles_modify fun _ => rfl)
      exact hhandle.trans others_fixed

/-- So does a request to the runtime. -/
@[simp] theorem request_fixed {x : SessionHandle → ChatNote} : (s.request b x).fixed = s.fixed := by
  unfold request
  dsimp only
  split
  · exact others_fixed
  · exact others_fixed

/-- So does the check for an overflow. -/
@[simp] theorem refreshOverflow_fixed : (s.refreshOverflow b).fixed = s.fixed := by
  unfold refreshOverflow
  dsimp only
  split
  · exact others_fixed
  · split <;> simp

/-- So does the look at the tickets. -/
@[simp] theorem refreshPhase_fixed : (s.refreshPhase b).fixed = s.fixed := by
  unfold refreshPhase
  dsimp only
  split
  · simp
  · split <;> simp

/-- `refresh` changes the phase, the routes and `flush_requested_` only. -/
@[simp] theorem refresh_fixed : (s.refresh b).fixed = s.fixed := by
  unfold refresh
  dsimp only
  split
  · rfl
  · split <;> simp

/-- So does `stop_locked`. -/
@[simp] theorem stopLocked_fixed : (s.stopLocked b).fixed = s.fixed := by
  unfold stopLocked
  dsimp only
  split
  · rfl
  · split <;> simp

/-- A status changes nothing of the binding. -/
theorem snapshot_binding {code : ChatCode} : (s.snapshot b code).2.binding = s.binding := by
  unfold snapshot
  dsimp only
  split
  · rfl
  · exact (((others_kept b _).1.trans (others_kept b _).1).trans (others_kept b s).1)

/-- A reply with `admission_` does what its status does. -/
theorem reply_snd (b : ChatBinding) (s : ConnectionState) (code : ChatCode) :
    (s.reply b code).2 = (s.snapshot b code).2 := rfl

/-! ## micro steps -/

/-- The retired ticket of `admission_` is ready. -/
def retiredReady (s : ConnectionState) : Bool := (s.current.bind (·.retired)).isSome

/-- The route of `admission_` is closed. -/
def routeClosed (s : ConnectionState) : Prop :=
  ∀ i, s.current = some i → i.route.isOpen = false

/-- `add` may be called. -/
def restartable (s : ConnectionState) : Prop :=
  s.phase ≠ .starting ∧ s.phase ≠ .running ∧ s.phase ≠ .stopping ∧
    (s.phase = .retired → s.playerStopped = true)

/-- A thing a method does, or the world does meanwhile. -/
inductive Micro (b : ChatBinding) : ConnectionState → ConnectionState → Prop where
  | move (s : ConnectionState) (m : WorldMove) : Micro b s (s.move b m)
  | moves (s : ConnectionState) (ms : List (List WorldMove)) : Micro b s { s with moves := ms }
  | close (s : ConnectionState) (n : Nat) (h : s.admission = some n) :
      Micro b s { s.modify n fun i => { i with route := i.route.close } with flushRequested := true }
  | stopping (s : ConnectionState) (hadmitted : s.admission ≠ none) (hphase : s.phase ≠ .retired)
      (hclosed : s.routeClosed) : Micro b s (s.setPhase .stopping)
  | running (s : ConnectionState) (hphase : s.phase = .starting) : Micro b s (s.setPhase .running)
  | retired (s : ConnectionState) (hready : s.retiredReady = true) (hclosed : s.routeClosed) :
      Micro b s (s.setPhase .retired)
  | request (s : ConnectionState) (x : ChatNote) (hplain : x.plain = true) : Micro b s (s.note x)
  | shown (s : ConnectionState) (h : SessionHandle) (hconnected : s.connected = true) :
      Micro b s (s.note (.shown h))
  | fed (s : ConnectionState) (h : SessionHandle) (hconnected : s.connected = true) :
      Micro b s (s.note (.fed h))
  | took (s : ConnectionState) (n : Nat) (i : Incarnation) (hconnected : s.connected = true)
      (hn : s.admission = some n) (hi : s.incarnations[n]? = some i) :
      Micro b s ((s.modify n fun i => { i with route := i.route.drain }).note
        (.took i.handle i.route.queue))
  | acknowledged (s : ConnectionState) (h : SessionHandle) (hconnected : s.connected = true)
      (hhandle : s.handle = some h) :
      Micro b s { s.note (.acknowledged h) with playerStopped := true }
  | admitted (s : ConnectionState) (generation : Nat) (hconnected : s.connected = true)
      (hrestartable : s.restartable)
      (hfresh : newHandle b generation ∉ s.handles) :
      Micro b s (s.admitted b generation)
  | disconnected (s : ConnectionState) : Micro b s { s with connected := false }
  | seen (s : ConnectionState) (now : Int) : Micro b s { s with lastSeen := now }

abbrev Path (b : ChatBinding) : ConnectionState → ConnectionState → Prop :=
  Relation.ReflTransGen (Micro b)

/-- A retired binding has a ready ticket. -/
def Ticketed (s : ConnectionState) : Prop := s.phase = .retired → s.retiredReady = true

/-! ## methods as paths -/

/-- What others do is a path. -/
theorem others_path (s : ConnectionState) : Path b s (s.others b) :=
  others_rec (P := Path b s) (fun r m h => h.tail (.move r m)) (fun r ms h => h.tail (.moves r ms))
    .refl

/-- `close_route` closes the route after others have acted. -/
theorem closeRoute_path (s : ConnectionState) : Path b s (s.closeRoute b) := by
  unfold closeRoute
  cases hn : s.admission with
  | none => exact .refl
  | some n =>
      have hadmission : (s.others b).admission = some n := by
        have hkept := (others_kept b s).1
        simp only [binding, Prod.mk.injEq] at hkept
        exact hkept.2.2.1.trans hn
      exact (others_path s).tail (.close _ n hadmission)

/-- A request leaves its note after others have acted. -/
theorem request_path {x : SessionHandle → ChatNote} (hx : ∀ h, (x h).plain = true) :
    Path b s (s.request b x) := by
  unfold request
  dsimp only
  split
  · exact others_path s
  · exact (others_path s).tail (.request _ _ (hx _))

/-- Two states agree on the binding when they agree on its fields. -/
theorem binding_eq : t.binding = s.binding ↔ t.connected = s.connected ∧ t.lastSeen = s.lastSeen ∧
    t.admission = s.admission ∧ t.phase = s.phase ∧ t.flushRequested = s.flushRequested ∧
    t.playerStopped = s.playerStopped := by
  simp only [binding, Prod.mk.injEq]

/-- Others do not assign `phase_`. -/
@[simp] theorem others_phase : (s.others b).phase = s.phase :=
  (binding_eq.mp (others_kept b s).1).2.2.2.1

@[simp] theorem closeRoute_phase : (s.closeRoute b).phase = s.phase := by
  unfold closeRoute
  cases s.admission with
  | none => rfl
  | some n => exact others_phase

@[simp] theorem request_phase {x : SessionHandle → ChatNote} : (s.request b x).phase = s.phase := by
  unfold request
  dsimp only
  split <;> exact others_phase

/-- Two states agree on what `refresh` does not change, field by field. -/
theorem fixed_eq : t.fixed = s.fixed ↔ t.connected = s.connected ∧ t.lastSeen = s.lastSeen ∧
    t.admission = s.admission ∧ t.playerStopped = s.playerStopped ∧ t.handles = s.handles := by
  simp only [fixed, Prod.mk.injEq]

@[simp] theorem closeRoute_admission : (s.closeRoute b).admission = s.admission :=
  (fixed_eq.mp closeRoute_fixed).2.2.1

/-- A ready ticket stays ready, whatever is done to an incarnation. -/
theorem ready_modify (hf : ∀ i, i.retired.isSome = true → (f i).retired.isSome = true)
    (h : s.retiredReady = true) : (s.modify n f).retiredReady = true := by
  unfold retiredReady current modify at *
  cases hm : s.admission with
  | none => rw [hm] at h; contradiction
  | some m =>
      rw [hm] at h
      simp only [Option.bind_some, List.getElem?_modify] at h ⊢
      cases hi : s.incarnations[m]? with
      | none => rw [hi] at h; contradiction
      | some i =>
          rw [hi] at h
          simp only [Option.bind_some] at h ⊢
          split
          · exact hf i h
          · exact h

/-- No move of the world takes a result back. -/
theorem ready_move {m : WorldMove} (h : s.retiredReady = true) :
    (s.move b m).retiredReady = true := by
  cases m with
  | append n payload stored => exact ready_modify (fun _ hi => hi) h
  | started n outcome => exact ready_modify (fun _ hi => hi) h
  | find n info => exact ready_modify (fun _ hi => hi) h
  | retired n outcome =>
      unfold move
      dsimp only
      split
      · split
        · exact h
        · exact ready_modify (s := s) (fun _ _ => rfl) h
      · exact h

theorem ready_others (h : s.retiredReady = true) : (s.others b).retiredReady = true :=
  others_rec (P := fun t => t.retiredReady = true) (fun _ _ ht => ready_move ht) (fun _ _ ht => ht) h

theorem ready_closeRoute (h : s.retiredReady = true) : (s.closeRoute b).retiredReady = true := by
  unfold closeRoute
  cases s.admission with
  | none => exact h
  | some n => exact ready_modify (s := s.others b) (fun _ hi => hi) (ready_others h)

/-- The incarnation of `admission_` is the one that is modified. -/
theorem current_modify (h : s.admission = some n) : (s.modify n f).current = s.current.map f := by
  unfold current modify
  rw [h]
  simp only [Option.bind_some, List.getElem?_modify_eq]
  rfl

/-- After `close_route` the route is closed, whatever others did before. -/
theorem closeRoute_closed (b : ChatBinding) (s : ConnectionState) : (s.closeRoute b).routeClosed := by
  intro i hi
  unfold closeRoute at hi
  cases hn : s.admission with
  | none =>
      simp only [hn, current] at hi
      contradiction
  | some n =>
      simp only [hn] at hi
      have hadmission : (s.others b).admission = some n :=
        (binding_eq.mp (others_kept b s).1).2.2.1.trans hn
      have hclosed : ((s.others b).modify n fun i => { i with route := i.route.close }).current =
          some i := hi
      rw [current_modify hadmission] at hclosed
      obtain ⟨i', -, rfl⟩ := Option.map_eq_some_iff.mp hclosed
      rfl

/-- Only a ready ticket retires a binding, and it stays ready. -/
theorem Micro.ticketed (h : Micro b s t) (hs : s.Ticketed) : t.Ticketed := by
  cases h with
  | move m =>
      intro hphase
      rw [(binding_eq.mp (move_kept (b := b) s m).1).2.2.2.1] at hphase
      exact ready_move (hs hphase)
  | moves | request | shown | fed | disconnected | seen => exact hs
  | close n h => exact fun hphase => ready_modify (s := s) (fun _ hi => hi) (hs hphase)
  | stopping | running => exact nofun
  | retired hready => exact fun _ => hready
  | took n i hconnected hn hi =>
      exact fun hphase => ready_modify (s := s) (fun _ hi => hi) (hs hphase)
  | acknowledged h hconnected hhandle => exact hs
  | admitted => exact nofun

theorem Path.ticketed (h : Path b s t) (hs : s.Ticketed) : t.Ticketed := by
  induction h with
  | refl => exact hs
  | tail _ hstep ih => exact hstep.ticketed ih

/-- `stop_locked` closes the route before it assigns `Stopping`. -/
theorem stopLocked_path (s : ConnectionState) : Path b s (s.stopLocked b) := by
  unfold stopLocked
  dsimp only
  split
  · exact .refl
  · next hadmission =>
    split
    · next hphase =>
      have hsome : (s.closeRoute b).admission ≠ none := by
        rw [closeRoute_admission]
        exact fun hnone => hadmission (by rw [hnone]; rfl)
      exact ((closeRoute_path s).tail (.stopping _ hsome hphase (closeRoute_closed b _))).trans
        (request_path fun _ => rfl)
    · exact closeRoute_path s

/-- An overflow is answered as a stop is, with a failure instead of a removal. -/
theorem refreshOverflow_path (s : ConnectionState) : Path b s (s.refreshOverflow b) := by
  unfold refreshOverflow
  dsimp only
  split
  · exact others_path s
  · next i hi =>
    split
    · next hoverflow =>
      have hsome : ((s.others b).closeRoute b).admission ≠ none := by
        rw [closeRoute_admission]
        intro hnone
        unfold current at hi
        rw [hnone] at hi
        contradiction
      have hphase : ((s.others b).closeRoute b).phase ≠ .retired := by
        rw [closeRoute_phase]
        exact hoverflow.2.2
      exact (((others_path s).trans (closeRoute_path _)).tail (.stopping _ hsome hphase (closeRoute_closed b _))).trans
        (request_path fun _ => rfl)
    · exact others_path s

/-- The look at the tickets stops a session or finds it running. -/
theorem refreshPhase_path (hadmission : s.admission ≠ none) (hphase : s.phase ≠ .retired) :
    Path b s (s.refreshPhase b) := by
  unfold refreshPhase
  dsimp only
  have htwice : Path b s ((s.request b .found).others b) :=
    (request_path fun _ => rfl).trans (others_path _)
  split
  · have hsome : (((s.request b .found).others b).closeRoute b).admission ≠ none := by
      rw [closeRoute_admission, (fixed_eq.mp others_fixed).2.2.1, (fixed_eq.mp request_fixed).2.2.1]
      exact hadmission
    have hnot : (((s.request b .found).others b).closeRoute b).phase ≠ .retired := by
      simpa only [closeRoute_phase, others_phase, request_phase] using hphase
    exact (htwice.trans (closeRoute_path _)).tail (.stopping _ hsome hnot (closeRoute_closed b _))
  · split
    · next hstarting => exact (htwice.trans (others_path _)).tail (.running _ hstarting.1)
    · exact htwice.trans (others_path _)

/-- What `refresh` does after the overflow. -/
theorem refresh_rest (hs : s.Ticketed) (hadmission : s.admission ≠ none) :
    Path b (s.refreshOverflow b) (s.refresh b) := by
  unfold refresh
  dsimp only
  rw [if_neg fun hnone => hadmission (Option.isNone_iff_eq_none.mp hnone)]
  split
  · next hready =>
    exact ((others_path _).trans (closeRoute_path _)).tail
      (.retired _ (ready_closeRoute hready) (closeRoute_closed b _))
  · next hready =>
    have hpath : Path b s ((s.refreshOverflow b).others b) :=
      (refreshOverflow_path s).trans (others_path _)
    have hfixed : ((s.refreshOverflow b).others b).fixed = s.fixed :=
      others_fixed.trans refreshOverflow_fixed
    refine (others_path _).trans (refreshPhase_path ?_ fun hphase => hready (hpath.ticketed hs hphase))
    rw [(fixed_eq.mp hfixed).2.2.1]
    exact hadmission

/-- `refresh` is a path, once what it shows of a retired session is known. -/
theorem refresh_path (hs : s.Ticketed) : Path b s (s.refresh b) := by
  by_cases hadmission : s.admission = none
  · unfold refresh
    rw [hadmission]
    exact .refl
  · exact (refreshOverflow_path s).trans (refresh_rest hs hadmission)

/-- A status is a path; it tells about the session to a connected client only. -/
theorem snapshot_path {code : ChatCode}
    (hcode : code ≠ .forbidden → code ≠ .staleSession → code ≠ .disconnected →
      s.connected = true) : Path b s (s.snapshot b code).2 := by
  unfold snapshot
  dsimp only
  split
  · exact .refl
  · next hopen =>
    have hconnected : (((s.others b).others b).others b).connected = true := by
      rw [(fixed_eq.mp others_fixed).1, (fixed_eq.mp others_fixed).1, (fixed_eq.mp others_fixed).1]
      exact hcode (fun h => hopen (.inl h)) (fun h => hopen (.inr (.inl h)))
        (fun h => hopen (.inr (.inr h)))
    exact (((others_path s).trans (others_path _)).trans (others_path _)).tail
      (.shown _ _ hconnected)

/-- A reply is a path, for a connected client. -/
theorem reply_path {code : ChatCode} (hconnected : s.connected = true) :
    Path b s (s.reply b code).2 :=
  snapshot_path fun _ _ _ => hconnected

/-- What passes `validate` comes from a connected client and names the present session. -/
theorem validate_ok {client : AuthenticatedClient} {h : SessionHandle}
    (hok : s.validate b client h = .ok) : s.connected = true ∧ s.handle = some h := by
  unfold validate at hok
  split at hok <;> try contradiction
  split at hok <;> try contradiction
  next hconnected =>
  rw [handle_eq]
  split at hok <;> try contradiction
  next i hi =>
  split at hok <;> try contradiction
  next hsame =>
  rw [hi, hsame]
  exact ⟨by simpa using hconnected, rfl⟩

/-- `validate` passes or gives one of three refusals. -/
theorem validate_codes (b : ChatBinding) (s : ConnectionState) (client : AuthenticatedClient)
    (h : SessionHandle) : s.validate b client h = .ok ∨ s.validate b client h = .forbidden ∨
      s.validate b client h = .staleSession ∨ s.validate b client h = .disconnected := by
  unfold validate
  split
  · exact .inr (.inl rfl)
  split
  · exact .inr (.inr (.inr rfl))
  split
  · exact .inr (.inr (.inl rfl))
  split
  · exact .inl rfl
  · exact .inr (.inr (.inl rfl))

/-- `refresh` does not disconnect the client. -/
theorem refresh_connected (b : ChatBinding) (s : ConnectionState) :
    (s.refresh b).connected = s.connected := (fixed_eq.mp refresh_fixed).1

/-- What `refresh` does not change includes the handle. -/
theorem handle_of_fixed (h : t.fixed = s.fixed) : t.handle = s.handle := by
  obtain ⟨-, -, hadmission, -, hhandles⟩ := fixed_eq.mp h
  unfold handle
  rw [hadmission, hhandles]

/-- A generation that was not given before makes a handle that nobody has. -/
theorem fresh_handles {client : AuthenticatedClient} {generation : Nat}
    (h : s.fresh b (.start client .accepted generation) = true) :
    newHandle b generation ∉ s.handles := by
  intro hmem
  obtain ⟨i, hi, hsame⟩ := List.mem_map.mp hmem
  have hdiffer := List.all_eq_true.mp h i hi
  simp [hsame] at hdiffer

/-- `start` is a path, and admits only where the binding may be restarted. -/
theorem start_path {client : AuthenticatedClient} {answer : AdmissionStatus} {generation : Nat}
    (hs : s.Ticketed) (hfresh : s.fresh b (.start client answer generation) = true) :
    Path b s (s.start b client answer generation).2 := by
  unfold start
  dsimp only
  split
  · exact .refl
  split
  · exact .refl
  next hconnected =>
  have hconnected : (s.refresh b).connected = true := by
    rw [refresh_connected]
    simpa using hconnected
  have hrefresh : Path b s (s.refresh b) := refresh_path hs
  split
  · exact hrefresh.trans (reply_path hconnected)
  next hstarted =>
  split
  · exact hrefresh.trans (reply_path hconnected)
  next hstopping =>
  split
  · exact hrefresh.trans (reply_path hconnected)
  next hplayer =>
  have hfixed : ((s.refresh b).others b).fixed = (s.refresh b).fixed := others_fixed
  have hothers : Path b s ((s.refresh b).others b) := hrefresh.trans (others_path _)
  have hconnected : ((s.refresh b).others b).connected = true :=
    (fixed_eq.mp hfixed).1.trans hconnected
  split
  · exact (hothers.tail (.request _ (.refused answer) rfl)).trans
      (snapshot_path fun _ _ _ => hconnected)
  next haccepted =>
  have haccepted : answer = .accepted := not_not.mp haccepted
  subst haccepted
  have hrestartable : ((s.refresh b).others b).restartable := by
    unfold restartable
    rw [others_phase, (fixed_eq.mp hfixed).2.2.2.1]
    refine ⟨fun h => hstarted (.inl h), fun h => hstarted (.inr h), hstopping, fun h => ?_⟩
    by_cases hstopped : (s.refresh b).playerStopped = true
    · exact hstopped
    · exact absurd ⟨h, by simpa using hstopped⟩ hplayer
  have hnew : newHandle b generation ∉ ((s.refresh b).others b).handles := by
    rw [(fixed_eq.mp hfixed).2.2.2.2, (fixed_eq.mp refresh_fixed).2.2.2.2]
    exact fresh_handles hfresh
  have hadmitted : Path b s (((s.refresh b).others b).admitted b generation) :=
    hothers.tail (.admitted _ generation hconnected hrestartable hnew)
  refine hadmitted.trans (reply_path ?_)
  exact (fixed_eq.mp others_fixed).1.trans hconnected

/-- A client that is silent for too long is disconnected, and its session stopped. -/
theorem expire_path (s : ConnectionState) (now : Int) : Path b s (s.expire b now) := by
  unfold expire
  split
  · exact (Relation.ReflTransGen.single (.disconnected s)).trans (stopLocked_path _)
  · exact .refl

/-- **Methods**: a method does a sequence of micro steps. -/
theorem call_path {c : ChatCall} (hs : s.Ticketed) (hfresh : s.fresh b c = true) :
    Path b s (s.call b c) := by
  cases c with
  | start client answer generation => exact start_path hs hfresh
  | stop client h =>
      unfold call stop
      dsimp only
      split
      · exact .refl
      · have hstop : Path b s (s.stopLocked b) := stopLocked_path s
        exact hstop.trans (refresh_path (hstop.ticketed hs))
  | pushAudio client h frame accepted =>
      unfold call pushAudio
      dsimp only
      have hrefresh : Path b s (s.refresh b) := refresh_path hs
      split
      · exact .refl
      next hvalid =>
      have hconnected := (validate_ok (not_not.mp hvalid)).1
      split
      · exact hrefresh
      split
      · exact hrefresh
      have hfed : Path b s (((s.refresh b).others b).note (.fed h)) := by
        refine (hrefresh.trans (others_path _)).tail (.fed _ h ?_)
        rw [(fixed_eq.mp others_fixed).1, refresh_connected, hconnected]
      exact hfed.trans (refresh_path (hfed.ticketed hs))
  | status client h =>
      unfold call status
      dsimp only
      split
      · next hvalid =>
        refine (refresh_path hs).trans (snapshot_path fun _ _ _ => ?_)
        rw [refresh_connected]
        exact (validate_ok hvalid).1
      · next hvalid =>
        refine snapshot_path fun hforbidden hstale hdisconnected => ?_
        obtain h | h | h := (validate_codes b s client h).resolve_left hvalid <;> contradiction
  | takeOutput client h =>
      unfold call takeOutput
      dsimp only
      have hrefresh : Path b s (s.refresh b) := refresh_path hs
      split
      · exact .refl
      next hvalid =>
      obtain ⟨hconnected, hhandle⟩ := validate_ok (not_not.mp hvalid)
      split
      · exact hrefresh
      have hothers : Path b s ((s.refresh b).others b) := hrefresh.trans (others_path _)
      split
      · next n i hn hi =>
        have hfixed : ((s.refresh b).others b).fixed = s.fixed := others_fixed.trans refresh_fixed
        have hsame : i.handle = h := by
          have hcurrent := handle_of_fixed hfixed
          rw [hhandle, handle_eq, hi] at hcurrent
          exact Option.some.inj hcurrent
        have hindex : ((s.refresh b).others b).incarnations[n]? = some i := by
          unfold current at hi
          rw [hn] at hi
          exact hi
        rw [← hsame]
        exact hothers.tail (.took _ n i ((fixed_eq.mp hfixed).1.trans hconnected) hn hindex)
      · exact hothers
  | acknowledgePlayerStop client h =>
      unfold call acknowledgePlayerStop
      dsimp only
      have hrefresh : Path b s (s.refresh b) := refresh_path hs
      split
      · exact .refl
      next hvalid =>
      obtain ⟨hconnected, hhandle⟩ := validate_ok (not_not.mp hvalid)
      split
      · exact hrefresh
      · refine hrefresh.tail (.acknowledged _ h ?_ ?_)
        · rw [refresh_connected, hconnected]
        · rw [handle_of_fixed refresh_fixed, hhandle]
  | heartbeat client now =>
      unfold call heartbeat
      dsimp only
      split
      · exact .refl
      split
      · exact expire_path s now
      split
      · exact (expire_path s now).tail (.seen _ now)
      · exact expire_path s now
  | tick now =>
      have hexpire : Path b s (s.expire b now) := expire_path s now
      exact hexpire.trans (refresh_path (hexpire.ticketed hs))
  | disconnect =>
      exact (Relation.ReflTransGen.single (.disconnected s)).trans (stopLocked_path _)

/-- A step of the machine. -/
theorem step_path {now : Int} {a : ChatAction} (hs : s.Ticketed)
    (h : (voiceChat b now).step s a = some t) : Path b s t := by
  cases a with
  | world m =>
      obtain rfl := Option.some.inj h
      exact .single (.move s m)
  | call c moves =>
      simp only [voiceChat, Option.ite_none_right_eq_some, Option.some.injEq] at h
      obtain ⟨hfresh, rfl⟩ := h
      have hmoves : Path b s { s with moves := moves } := .single (.moves s moves)
      exact hmoves.trans (call_path (hmoves.ticketed hs) hfresh)

/-- **Micro steps**: what holds of a new binding and is kept by every micro step
holds of every reachable state. -/
theorem reachable_micro {now : Int} {P : ConnectionState → Prop}
    (hinit : P { lastSeen := now }) (hmicro : ∀ s t, Micro b s t → P s → P t)
    (h : (voiceChat b now).Reachable s) : P s := by
  have hboth : s.Ticketed ∧ P s := by
    refine Machine.Reachable.rec_inv (P := fun s => s.Ticketed ∧ P s) ⟨nofun, hinit⟩ ?_ h
    intro s a t _ hs hstep
    have hpath := step_path hs.1 hstep
    refine ⟨hpath.ticketed hs.1, ?_⟩
    clear hstep
    induction hpath with
    | refl => exact hs.2
    | tail _ hlast ih => exact hmicro _ _ hlast ih
  exact hboth.2

end ConnectionState

end ByteTurn

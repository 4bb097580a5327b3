import ByteTurn.VoiceChatConnection.Steps

/-!
# ByteTurn.VoiceChatConnection.Incarnations

A binding runs one incarnation at a time.

The notes are the history of the binding.  `Lawful` says what may follow what:
a new admission only after the last one has retired and the player has
acknowledged its stop, and no way out of `Stopping` but `Retired`.
-/

namespace ByteTurn

/-! ## lawful histories -/

/-- The phase after a history. -/
def phaseAfter : List ChatNote → ChatPhase :=
  List.foldl (fun phase x => match x with
    | .admitted _ => .starting
    | .entered next => next
    | _ => phase) .idle

/-- The last admission, and the notes since. -/
def sinceAdmission : List ChatNote → Option (SessionHandle × List ChatNote) :=
  List.foldl (fun since x => match x with
    | .admitted handle => some (handle, [])
    | x => since.map fun (handle, notes) => (handle, notes ++ [x])) none

/-- What has to be true of the history before a note. -/
def ChatNote.Allowed (before : List ChatNote) : ChatNote → Prop
  | .admitted _ => (phaseAfter before = .idle ∨ phaseAfter before = .retired) ∧
      ∀ handle notes, sinceAdmission before = some (handle, notes) →
        .retired handle ∈ notes ∧ .acknowledged handle ∈ notes
  | .entered phase =>
      (phaseAfter before = .stopping → phase = .stopping ∨ phase = .retired) ∧
        (phaseAfter before = .retired → phase = .retired)
  | _ => True

def Lawful (notes : List ChatNote) : Prop :=
  ∀ before x after, notes = before ++ x :: after → x.Allowed before

/-- The notes of starting, feeding and reading a session. -/
def ChatNote.contact : ChatNote → Bool
  | .admitted _ | .fed _ | .took _ _ | .shown _ => true
  | _ => false

/-- A note that is about neither admissions nor phases. -/
def ChatNote.aside : ChatNote → Bool
  | .admitted _ | .entered _ => false
  | _ => true

variable {notes : List ChatNote} {x : ChatNote}

/-- The last note decides the phase, if it tells of one. -/
theorem phaseAfter_concat (notes : List ChatNote) (x : ChatNote) :
    phaseAfter (notes ++ [x]) = match x with
      | .admitted _ => .starting
      | .entered next => next
      | _ => phaseAfter notes := by
  unfold phaseAfter
  rw [List.foldl_append]
  rfl

/-- A note aside leaves the phase. -/
theorem phaseAfter_aside (hx : x.aside = true) : phaseAfter (notes ++ [x]) = phaseAfter notes := by
  rw [phaseAfter_concat]
  cases x <;> first | rfl | contradiction

/-- An admission begins anew; every other note is added. -/
theorem sinceAdmission_concat (notes : List ChatNote) (x : ChatNote) :
    sinceAdmission (notes ++ [x]) = match x with
      | .admitted handle => some (handle, [])
      | x => (sinceAdmission notes).map fun (handle, notes) => (handle, notes ++ [x]) := by
  unfold sinceAdmission
  rw [List.foldl_append]
  rfl

/-- A note that is no admission comes after the last one. -/
theorem sinceAdmission_later {handle : SessionHandle} {since : List ChatNote}
    (h : sinceAdmission notes = some (handle, since)) (hx : ∀ h, x ≠ .admitted h) :
    sinceAdmission (notes ++ [x]) = some (handle, since ++ [x]) := by
  rw [sinceAdmission_concat]
  cases x with
  | admitted h => exact absurd rfl (hx h)
  | entered | retired | acknowledged | refused | removed | failed | found | fed | took | shown =>
      rw [h]; rfl

/-- A lawful history goes on with what is allowed after it. -/
theorem Lawful.concat (h : Lawful notes) (hx : x.Allowed notes) : Lawful (notes ++ [x]) := by
  intro before y after hsplit
  cases List.eq_nil_or_concat after with
  | inl hnil =>
      rw [hnil] at hsplit
      obtain ⟨hbefore, hy⟩ := List.append_inj' hsplit rfl
      obtain rfl := List.singleton_inj.mp hy
      rw [← hbefore]
      exact hx
  | inr hlast =>
      obtain ⟨after', z, rfl⟩ := hlast
      rw [List.concat_eq_append, ← List.cons_append, ← List.append_assoc] at hsplit
      obtain ⟨hbefore, -⟩ := List.append_inj' hsplit rfl
      exact h before y after' hbefore

/-- It goes on with a note aside. -/
theorem Lawful.aside (h : Lawful notes) (hx : x.aside = true) : Lawful (notes ++ [x]) :=
  h.concat (by cases x <;> first | exact trivial | contradiction)

namespace ConnectionState

variable {b : ChatBinding} {s t : ConnectionState} {n : Nat}

/-! ## what a move notes -/

/-- The retired ticket of an incarnation is ready. -/
def readyAt (s : ConnectionState) (n : Nat) : Bool :=
  (s.incarnations[n]?.bind (·.retired)).isSome

/-- What leaves the retired ticket leaves its readiness. -/
theorem readyAt_modify {f : Incarnation → Incarnation} (hf : ∀ i, (f i).retired = i.retired)
    (m : Nat) : (s.modify m f).readyAt n = s.readyAt n := by
  unfold readyAt modify
  simp only [List.getElem?_modify]
  cases s.incarnations[n]? with
  | none => rfl
  | some i =>
      simp only [Option.map_eq_map, Option.map_some, Option.bind_some]
      split
      · rw [hf]
      · rfl

/-- A ticket becomes ready with a note, and there is no other note of a move. -/
theorem move_notes (s : ConnectionState) (m : WorldMove) :
    ((s.move b m).notes = s.notes ∧ ∀ n, (s.move b m).readyAt n = s.readyAt n) ∨
      ∃ k h, s.handles[k]? = some h ∧ (s.move b m).notes = s.notes ++ [.retired h] ∧
        ∀ n, (s.move b m).readyAt n = (s.readyAt n || n = k) := by
  cases m with
  | append k payload stored | started k outcome | find k info =>
      refine .inl ⟨rfl, fun n => readyAt_modify ?_ k⟩
      exact fun _ => rfl
  | retired k outcome =>
      unfold move
      dsimp only
      split
      · next i hi =>
        split
        · exact .inl ⟨rfl, fun _ => rfl⟩
        · refine .inr ⟨k, i.handle, ?_, rfl, fun n => ?_⟩
          · unfold handles
            rw [List.getElem?_map, hi]
            rfl
          · show ((s.incarnations.modify k _)[n]?.bind (·.retired)).isSome = _
            rw [List.getElem?_modify]
            by_cases hn : k = n
            · subst hn
              simp [hi]
            · simp [hn, Ne.symm hn, readyAt]
      · exact .inl ⟨rfl, fun _ => rfl⟩

/-! ## the gate -/

/-- The notes since the admission of an incarnation. -/
structure Since (s : ConnectionState) (n : Nat) (handle : SessionHandle)
    (notes : List ChatNote) : Prop where
  last : sinceAdmission s.notes = some (handle, notes)
  named : s.handles[n]? = some handle
  ready : s.readyAt n = true → .retired handle ∈ notes

/-- The binding knows what its history says. -/
structure Gate (s : ConnectionState) : Prop where
  lawful : Lawful s.notes
  phase : phaseAfter s.notes = s.phase
  ticketed : s.Ticketed
  idle : s.admission = none → s.phase = .idle ∧ sinceAdmission s.notes = none
  started : s.admission ≠ none → s.phase ≠ .idle
  since : ∀ n, s.admission = some n → ∃ handle notes, s.Since n handle notes ∧
    (s.playerStopped = true → .acknowledged handle ∈ notes)

/-- A later note of the same incarnation is added. -/
theorem Since.later {handle : SessionHandle} {notes : List ChatNote} {x : ChatNote}
    (h : s.Since n handle notes) (hx : ∀ h, x ≠ .admitted h) (hnotes : t.notes = s.notes ++ [x])
    (hhandles : t.handles = s.handles)
    (hready : t.readyAt n = true → s.readyAt n = true ∨ x = .retired handle) :
    t.Since n handle (notes ++ [x]) where
  last := by
    rw [hnotes]
    exact sinceAdmission_later h.last hx
  named := by rw [hhandles]; exact h.named
  ready hr := by
    cases hready hr with
    | inl hold => exact List.mem_append_left _ (h.ready hold)
    | inr hnew => rw [hnew]; exact List.mem_append_right _ (List.mem_singleton_self _)

/-- The moves of the world keep what is known since an admission. -/
theorem Since.move {handle : SessionHandle} {notes : List ChatNote} (h : s.Since n handle notes)
    (m : WorldMove) : ∃ later, (s.move b m).Since n handle (notes ++ later) := by
  have hhandles := (move_kept (b := b) s m).2
  obtain ⟨hnotes, hready⟩ | ⟨k, h', hk, hnotes, hready⟩ := move_notes (b := b) s m
  · refine ⟨[], ?_, by rw [hhandles]; exact h.named, fun hr => ?_⟩
    · rw [hnotes, List.append_nil]
      exact h.last
    · rw [hready] at hr
      exact List.mem_append_left _ (h.ready hr)
  · refine ⟨[.retired h'], h.later nofun hnotes hhandles fun hr => ?_⟩
    rw [hready, Bool.or_eq_true, decide_eq_true_eq] at hr
    refine hr.imp_right fun hn => ?_
    have hsame := h.named
    rw [hn, hk] at hsame
    rw [Option.some.inj hsame]

/-- What others do is added as well. -/
theorem Since.others {handle : SessionHandle} {notes : List ChatNote} (h : s.Since n handle notes) :
    ∃ later, (s.others b).Since n handle (notes ++ later) := by
  refine others_rec (P := fun t => ∃ later, t.Since n handle (notes ++ later))
    (fun r m ⟨later, hr⟩ => ?_) (fun r ms ⟨later, hr⟩ => ⟨later, hr.last, hr.named, hr.ready⟩)
    ⟨[], by rw [List.append_nil]; exact h⟩
  obtain ⟨later', hmove⟩ := hr.move (b := b) m
  exact ⟨later ++ later', by rw [← List.append_assoc]; exact hmove⟩

/-- A step that keeps phase and admission, and notes at most one thing. -/
theorem Gate.keep {x : ChatNote} (h : s.Gate) (hadmission : t.admission = s.admission)
    (hphase : t.phase = s.phase) (hstopped : t.playerStopped = s.playerStopped)
    (hticketed : t.Ticketed) (hnotes : t.notes = s.notes ∨ x.aside = true ∧ t.notes = s.notes ++ [x])
    (hsince : ∀ n handle notes, s.Since n handle notes → ∃ later, t.Since n handle (notes ++ later)) :
    t.Gate where
  lawful := by
    obtain hsame | ⟨hx, hone⟩ := hnotes
    · rw [hsame]; exact h.lawful
    · rw [hone]; exact h.lawful.aside hx
  phase := by
    rw [hphase, ← h.phase]
    obtain hsame | ⟨hx, hone⟩ := hnotes
    · rw [hsame]
    · rw [hone]; exact phaseAfter_aside hx
  ticketed := hticketed
  idle hnone := by
    obtain ⟨hidle, hsince⟩ := h.idle (hadmission ▸ hnone)
    refine ⟨hphase.trans hidle, ?_⟩
    obtain hsame | ⟨hx, hone⟩ := hnotes
    · rw [hsame]; exact hsince
    · rw [hone, sinceAdmission_concat]
      cases x <;> first | contradiction | (rw [hsince]; rfl)
  started := by rw [hadmission, hphase]; exact h.started
  since n hn := by
    obtain ⟨handle, notes, hs, hack⟩ := h.since n (hadmission ▸ hn)
    obtain ⟨later, ht⟩ := hsince n handle notes hs
    exact ⟨handle, notes ++ later, ht, fun hp => List.mem_append_left _ (hack (hstopped ▸ hp))⟩

/-- A note beside the binding. -/
theorem Gate.noted {x : ChatNote} (h : s.Gate) (hx : x.aside = true) : (s.note x).Gate :=
  h.keep (x := x) rfl rfl rfl h.ticketed (.inr ⟨hx, rfl⟩) fun n handle notes hs =>
    ⟨[x], hs.later (fun h' heq => by rw [heq] at hx; contradiction) rfl rfl .inl⟩

/-- What keeps handle and retirement keeps the gate. -/
theorem Gate.modified {f : Incarnation → Incarnation} (h : s.Gate) (m : Nat)
    (hhandle : ∀ i, (f i).handle = i.handle) (hretired : ∀ i, (f i).retired = i.retired) :
    (s.modify m f).Gate := by
  refine h.keep (x := .removed {}) rfl rfl rfl
    (fun hphase => ready_modify (fun i hi => by rw [hretired]; exact hi) (h.ticketed hphase))
    (.inl rfl) fun n handle notes hs => ⟨[], ?_⟩
  rw [List.append_nil]
  refine ⟨hs.last, ?_, fun hr => hs.ready ?_⟩
  · rw [handles_modify hhandle]
    exact hs.named
  · rw [← readyAt_modify hretired m]
    exact hr

/-- The world keeps the gate. -/
theorem Gate.move (h : s.Gate) (m : WorldMove) : (s.move b m).Gate := by
  obtain ⟨-, -, hadmission, hphase, -, hstopped⟩ := binding_eq.mp (move_kept (b := b) s m).1
  have hticketed : (s.move b m).Ticketed := (Micro.move s m).ticketed h.ticketed
  have hsince (n : Nat) (handle : SessionHandle) (notes : List ChatNote)
      (hs : s.Since n handle notes) : ∃ later, (s.move b m).Since n handle (notes ++ later) :=
    hs.move m
  obtain ⟨hnotes, -⟩ | ⟨k, h', -, hnotes, -⟩ := move_notes (b := b) s m
  · exact h.keep (x := .removed {}) hadmission hphase hstopped hticketed (.inl hnotes) hsince
  · exact h.keep (x := .retired h') hadmission hphase hstopped hticketed (.inr ⟨rfl, hnotes⟩) hsince

/-- A change of phase. -/
theorem Gate.entered {phase : ChatPhase} (h : s.Gate) (hadmitted : s.admission ≠ none)
    (hallowed : (ChatNote.entered phase).Allowed s.notes) (hphase : phase ≠ .idle)
    (hready : phase = .retired → s.retiredReady = true) : (s.setPhase phase).Gate where
  lawful := h.lawful.concat hallowed
  phase := phaseAfter_concat s.notes (.entered phase)
  ticketed := hready
  idle hnone := absurd hnone hadmitted
  started _ := hphase
  since n hn := by
    obtain ⟨handle, notes, hs, hack⟩ := h.since n hn
    exact ⟨handle, notes ++ [.entered phase], hs.later nofun rfl rfl .inl,
      fun hp => List.mem_append_left _ (hack hp)⟩

/-- An accepted admission. -/
theorem Gate.admitted (h : s.Gate) (generation : Nat) (hrestartable : s.restartable) :
    (s.admitted b generation).Gate := by
  have hallowed : (ChatNote.admitted (newHandle b generation)).Allowed s.notes := by
    obtain ⟨hstarting, hrunning, hstopping, hstopped⟩ := hrestartable
    have hphase : s.phase = .idle ∨ s.phase = .retired := by
      cases hp : s.phase <;> simp_all
    refine ⟨by rw [h.phase]; exact hphase, fun handle notes hlast => ?_⟩
    cases hn : s.admission with
    | none =>
        rw [(h.idle hn).2] at hlast
        contradiction
    | some n =>
        obtain ⟨handle', notes', hs, hack⟩ := h.since n hn
        rw [hs.last] at hlast
        obtain ⟨rfl, rfl⟩ := Prod.mk.inj (Option.some.inj hlast)
        have hretired : s.phase = .retired :=
          hphase.resolve_left (h.started (by rw [hn]; nofun))
        have hready : s.readyAt n = true := by
          have hticket := h.ticketed hretired
          unfold retiredReady current at hticket
          rw [hn] at hticket
          exact hticket
        exact ⟨hs.ready hready, hack (hstopped hretired)⟩
  let started : Incarnation := { handle := newHandle b generation }
  let r : ConnectionState := { s with incarnations := s.incarnations ++ [started] }
  have hsince : (r.note (.admitted (newHandle b generation))).Since s.incarnations.length
      (newHandle b generation) [] := by
    refine ⟨sinceAdmission_concat s.notes _, ?_, fun hr => ?_⟩
    · show ((s.incarnations ++ [started]).map (·.handle))[s.incarnations.length]? = _
      simp [started]
    · have hnot : ((s.incarnations ++ [started])[s.incarnations.length]?.bind (·.retired)).isSome =
          true := hr
      simp [started] at hnot
  have hnotes : Lawful ((r.note (.admitted (newHandle b generation))).others b).notes ∧
      phaseAfter ((r.note (.admitted (newHandle b generation))).others b).notes = .starting := by
    refine others_rec (P := fun t => Lawful t.notes ∧ phaseAfter t.notes = .starting)
      (fun t m ht => ?_) (fun t ms ht => ht)
      ⟨h.lawful.concat hallowed, phaseAfter_concat s.notes _⟩
    obtain ⟨hsame, -⟩ | ⟨k, h', -, hone, -⟩ := move_notes (b := b) t m
    · rw [hsame]; exact ht
    · rw [hone, phaseAfter_aside rfl]
      exact ⟨ht.1.aside rfl, ht.2⟩
  obtain ⟨later, hothers⟩ := hsince.others (b := b)
  refine ⟨hnotes.1, hnotes.2, nofun, nofun, nofun, fun n hn => ?_⟩
  obtain rfl := Option.some.inj hn
  exact ⟨_, _, ⟨hothers.last, hothers.named, hothers.ready⟩, nofun⟩

/-- The gate reads neither the other flags nor the moves to come. -/
theorem Gate.congr (h : s.Gate) (hnotes : t.notes = s.notes) (hphase : t.phase = s.phase)
    (hadmission : t.admission = s.admission) (hstopped : t.playerStopped = s.playerStopped)
    (hincarnations : t.incarnations = s.incarnations) : t.Gate := by
  have hready (n : Nat) : t.readyAt n = s.readyAt n := by unfold readyAt; rw [hincarnations]
  have hticketed : t.Ticketed := by
    have hs := h.ticketed
    unfold Ticketed retiredReady current at hs ⊢
    rw [hphase, hadmission, hincarnations]
    exact hs
  refine h.keep (x := .removed {}) hadmission hphase hstopped hticketed (.inl hnotes)
    fun n handle notes hs => ⟨[], ?_⟩
  rw [List.append_nil]
  refine ⟨by rw [hnotes]; exact hs.last, ?_, fun hr => hs.ready (hready n ▸ hr)⟩
  unfold handles
  rw [hincarnations]
  exact hs.named

/-- Every micro step keeps the gate. -/
theorem Gate.micro (h : s.Gate) (hs : Micro b s t) : t.Gate := by
  cases hs with
  | move m => exact h.move m
  | moves ms => exact h.congr rfl rfl rfl rfl rfl
  | close n hn =>
      have hclosed := h.modified n (f := fun i => { i with route := i.route.close })
        (fun _ => rfl) fun _ => rfl
      exact hclosed.congr rfl rfl rfl rfl rfl
  | stopping hadmitted hphase hclosed =>
      exact h.entered hadmitted ⟨fun _ => .inl rfl, fun hr => absurd (h.phase ▸ hr) hphase⟩ nofun nofun
  | running hphase =>
      refine h.entered (fun hnone => ?_) ⟨fun hr => ?_, fun hr => ?_⟩ nofun nofun
      · rw [(h.idle hnone).1] at hphase
        contradiction
      · rw [h.phase, hphase] at hr
        contradiction
      · rw [h.phase, hphase] at hr
        contradiction
  | retired hready hclosed =>
      refine h.entered (fun hnone => ?_) ⟨fun _ => .inr rfl, fun _ => rfl⟩ nofun fun _ => hready
      unfold retiredReady current at hready
      rw [hnone] at hready
      contradiction
  | request x hplain => exact h.noted (by cases x <;> first | rfl | contradiction)
  | shown | fed => exact h.noted rfl
  | took n i hconnected hn hi =>
      have hdrained := h.modified n (f := fun i => { i with route := i.route.drain })
        (fun _ => rfl) fun _ => rfl
      exact hdrained.noted rfl
  | acknowledged handle hconnected hhandle =>
      have hnoted := h.noted (x := .acknowledged handle) rfl
      refine ⟨hnoted.lawful, hnoted.phase, hnoted.ticketed, hnoted.idle, hnoted.started,
        fun n hn => ?_⟩
      obtain ⟨handle', notes, hs, -⟩ := h.since n hn
      have hlater : (s.note (.acknowledged handle)).Since n handle' (notes ++ [.acknowledged handle]) :=
        hs.later nofun rfl rfl .inl
      refine ⟨handle', _, ⟨hlater.last, hlater.named, hlater.ready⟩, fun _ => ?_⟩
      have hadmission : s.admission = some n := hn
      unfold ConnectionState.handle at hhandle
      rw [hadmission] at hhandle
      have hsame : handle = handle' := Option.some.inj (hhandle.symm.trans hs.named)
      rw [hsame]
      exact List.mem_append_right _ (List.mem_singleton_self _)
  | admitted generation hconnected hrestartable hfresh => exact h.admitted generation hrestartable
  | disconnected | seen => exact h.congr rfl rfl rfl rfl rfl

/-! ## refused starts -/

/-- An admission adds its handle. -/
theorem handles_admitted (s : ConnectionState) (generation : Nat) :
    (s.admitted b generation).handles = s.handles ++ [newHandle b generation] := by
  have hothers := (others_kept b (({ s with incarnations :=
    s.incarnations ++ [{ handle := newHandle b generation }] } : ConnectionState).note
      (.admitted (newHandle b generation)))).2
  refine hothers.trans ?_
  exact List.map_append

/-- A status adds none. -/
theorem snapshot_handles {code : ChatCode} : (s.snapshot b code).2.handles = s.handles := by
  unfold snapshot
  dsimp only
  split
  · rfl
  · exact ((others_kept b _).2.trans (others_kept b _).2).trans (others_kept b s).2

/-- A reply changes nothing of the binding. -/
theorem reply_binding {code : ChatCode} : (s.reply b code).2.binding = s.binding := by
  rw [reply_snd]
  exact snapshot_binding

/-- A start that is not accepted leaves the binding as `refresh` does. -/
theorem start_refused {client : AuthenticatedClient} {answer : AdmissionStatus} {generation : Nat}
    (h : (s.start b client answer generation).2.handles = s.handles) :
    (s.start b client answer generation).2.binding =
      (if authorized b client && s.connected then s.refresh b else s).binding := by
  unfold start at h ⊢
  dsimp only at h ⊢
  by_cases hauthorized : authorized b client = true
  case neg => simp only [Bool.not_eq_true .. ▸ hauthorized, Bool.not_false, if_true, Bool.false_and,
    Bool.false_eq_true, if_false]
  by_cases hconnected : s.connected = true
  case neg => simp only [hauthorized, Bool.not_eq_true .. ▸ hconnected, Bool.not_true, Bool.not_false,
    Bool.and_false, Bool.false_eq_true, if_true, if_false]
  simp only [hauthorized, hconnected, Bool.not_true, Bool.and_self, Bool.false_eq_true, if_true,
    if_false] at h ⊢
  split
  · exact reply_binding
  next hstarted =>
  split
  · exact reply_binding
  next hstopping =>
  split
  · exact reply_binding
  next hplayer =>
  rw [if_neg hstarted, if_neg hstopping, if_neg hplayer] at h
  split
  · exact snapshot_binding.trans (others_kept b _).1
  · next haccepted =>
    rw [if_neg haccepted] at h
    have hgrown : ((((s.refresh b).others b).admitted b generation).reply b .ok).2.handles =
        s.handles ++ [newHandle b generation] := by
      rw [reply_snd]
      refine snapshot_handles.trans ?_
      rw [handles_admitted, (others_kept b _).2, (fixed_eq.mp refresh_fixed).2.2.2.2]
    rw [hgrown] at h
    have hlength := congrArg List.length h
    simp at hlength

/-! ## after the connection is lost -/

/-- The calls that end the connection. -/
def cuts (b : ChatBinding) (s : ConnectionState) : ChatCall → Prop
  | .disconnect => True
  | .tick now => expired b s now
  | .heartbeat client now => authorized b client = true ∧ expired b s now
  | _ => False

/-- The session was neither started nor fed nor read. -/
def Silent (s t : ConnectionState) : Prop :=
  t.connected = false ∧ t.notes.filter (·.contact) = s.notes.filter (·.contact)

/-- A disconnected binding is silent. -/
theorem Micro.silent (h : Micro b s t) (hs : s.connected = false) : s.Silent t := by
  have hnote (x : ChatNote) (hx : x.contact = false) :
      (s.notes ++ [x]).filter (·.contact) = s.notes.filter (·.contact) := by
    rw [List.filter_append, List.filter_singleton, hx]
    exact List.append_nil _
  cases h with
  | move m =>
      refine ⟨(binding_eq.mp (move_kept (b := b) s m).1).1.trans hs, ?_⟩
      obtain ⟨hsame, -⟩ | ⟨k, h', -, hone, -⟩ := move_notes (b := b) s m
      · rw [hsame]
      · rw [hone]
        exact hnote _ rfl
  | moves | close | disconnected | seen => exact ⟨by first | exact hs | rfl, rfl⟩
  | stopping | running | retired => exact ⟨hs, hnote _ rfl⟩
  | request x hplain => exact ⟨hs, hnote x (by cases x <;> first | rfl | contradiction)⟩
  | acknowledged | shown | fed | took | admitted => simp_all

/-- It stays silent along a path. -/
theorem Path.silent (h : Path b s t) (hs : s.connected = false) : s.Silent t := by
  induction h with
  | refl => exact ⟨hs, rfl⟩
  | tail _ hlast ih =>
      have hnext := hlast.silent ih.1
      exact ⟨hnext.1, hnext.2.trans ih.2⟩

theorem cut_path {c : ChatCall} (hs : s.Ticketed) (hc : cuts b s c) :
    Path b { s with connected := false } (s.call b c) := by
  have hexpire (now : Int) (hnow : expired b s now) :
      Path b { s with connected := false } (s.expire b now) := by
    unfold expire
    rw [if_pos hnow]
    exact stopLocked_path _
  cases c with
  | disconnect => exact stopLocked_path _
  | tick now =>
      have hcut := hexpire now hc
      have hticketed : ({ s with connected := false } : ConnectionState).Ticketed := hs
      exact hcut.trans (refresh_path (hcut.ticketed hticketed))
  | heartbeat client now =>
      have hcut := hexpire now hc.2
      have hconnected := (hcut.silent rfl).1
      unfold call heartbeat
      dsimp only
      rw [if_neg (by simp [hc.1]), if_pos (by simp [hconnected])]
      exact hcut
  | start | stop | pushAudio | status | takeOutput | acknowledgePlayerStop => exact absurd hc id

/-! ## one incarnation at a time -/

/-- What a binding promises about its incarnations. -/
structure OneAtATime (b : ChatBinding) (now : Int) (s : ConnectionState) : Prop where
  /-- Admissions and phases follow each other as they should. -/
  lawful : Lawful s.notes
  phase : phaseAfter s.notes = s.phase
  /-- A start that is not accepted changes nothing but what `refresh` does. -/
  refused : ∀ (moves : List (List WorldMove)) (client : AuthenticatedClient)
    (answer : AdmissionStatus) (generation : Nat) (r : ConnectionState),
    r = { s with moves := moves } → (r.start b client answer generation).2.handles = r.handles →
      (r.start b client answer generation).2.binding =
        (if authorized b client && r.connected then r.refresh b else r).binding
  /-- When the connection is lost, no session is ever started, fed or read. -/
  lost : ∀ (c : ChatCall) (moves : List (List WorldMove)) (t u : ConnectionState),
    cuts b s c → (voiceChat b now).step s (.call c moves) = some t →
      (voiceChat b now).Leads t u → s.Silent u

/-- The gate holds in every reachable state. -/
theorem reachable_gate {now : Int} (h : (voiceChat b now).Reachable s) : s.Gate :=
  reachable_micro ⟨fun before x after hsplit => absurd hsplit.symm (by simp), rfl, nofun,
    fun _ => ⟨rfl, rfl⟩, fun hne => absurd rfl hne, nofun⟩ (fun _ _ hs hg => hg.micro hs) h

/-- A step of a disconnected binding is silent. -/
theorem step_silent {now : Int} {a : ChatAction} (hs : (voiceChat b now).Reachable s)
    (hconnected : s.connected = false) (h : (voiceChat b now).step s a = some t) : s.Silent t :=
  (step_path (reachable_gate hs).ticketed h).silent hconnected

end ConnectionState

open ConnectionState in
/-- **Incarnations**: in every reachable state of a binding. -/
theorem voiceChat_incarnations (b : ChatBinding) (now : Int) (s : ConnectionState)
    (h : (voiceChat b now).Reachable s) : OneAtATime b now s where
  lawful := (reachable_gate h).lawful
  phase := (reachable_gate h).phase
  refused moves client answer generation r _ hhandles := start_refused hhandles
  lost c moves t u hcut hstep hlater := by
    have hcut : cuts b { s with moves := moves } c := hcut
    have hsilent : s.Silent t := by
      have hcall := hstep
      simp only [voiceChat, Option.ite_none_right_eq_some, Option.some.injEq] at hcall
      obtain ⟨-, rfl⟩ := hcall
      have hticketed : ({ s with moves := moves } : ConnectionState).Ticketed :=
        (reachable_gate h).ticketed
      exact (cut_path hticketed hcut).silent rfl
    refine Machine.Leads.rec_stable (P := fun u => s.Silent u) (fun r a r' hr hp hs => ?_)
      (h.step hstep) hsilent hlater
    have hnext := step_silent hr hp.1 hs
    exact ⟨hnext.1, hnext.2.trans hp.2⟩

def voiceClient : AuthenticatedClient := ⟨lit "user", lit "connection"⟩

theorem voiceClient_userId : voiceClient.userId ≠ [] ∧ voiceClient.userId.length ≤ 256 := by decide

theorem voiceClient_connectionId :
    voiceClient.connectionId ≠ [] ∧ voiceClient.connectionId.length ≤ 256 := by decide

/-- The defaults pass the constructor's own checks: the queue has room. -/
theorem chatConfig_maxOutputMessages : 0 < ({} : ChatConfig).maxOutputMessages := by decide

/-- A payload may have bytes. -/
theorem chatConfig_maxPayloadBytes : 0 < ({} : ChatConfig).maxPayloadBytes := by decide

/-- The timeout is positive. -/
theorem chatConfig_livenessTimeout : 0 < ({} : ChatConfig).livenessTimeout := by decide

def voiceBinding : ChatBinding where
  client := voiceClient
  userId_size := voiceClient_userId
  connectionId_size := voiceClient_connectionId
  maxOutputMessages_pos := chatConfig_maxOutputMessages
  maxPayloadBytes_pos := chatConfig_maxPayloadBytes
  livenessTimeout_pos := chatConfig_livenessTimeout

/-- A handle of `voiceBinding`. -/
def voiceHandle (generation : Nat) : SessionHandle := ⟨1, lit "voice-1", generation⟩

/-- A session is stopped while it is being started, retires, and is followed by
another, until the client is gone. -/
def restartedRun : List ChatAction := [
  .call (.start voiceClient .accepted 1) [],
  .call (.stop voiceClient (voiceHandle 1)) [[.find 0 (some .stopRequested)]],
  .call (.start voiceClient .accepted 2) [],
  .call (.acknowledgePlayerStop voiceClient (voiceHandle 1)) [[.retired 0 .removed]],
  .call (.start voiceClient .accepted 2) [],
  .call .disconnect []]

open ConnectionState in
theorem restartedRun_incarnations :
    ∃ s, s.handles = [voiceHandle 1, voiceHandle 2] ∧ s.connected = false ∧
      OneAtATime voiceBinding 0 s := by
  have hrun : ((voiceChat voiceBinding 0).run (voiceChat voiceBinding 0).init restartedRun).map
      (fun s => (s.handles, s.connected)) = some ([voiceHandle 1, voiceHandle 2], false) := by
    decide +kernel
  obtain ⟨s, hrun, hs⟩ := Option.map_eq_some_iff.mp hrun
  obtain ⟨hhandles, hconnected⟩ := Prod.mk.inj hs
  exact ⟨s, hhandles, hconnected,
    voiceChat_incarnations voiceBinding 0 s (Machine.Reachable.of_run hrun)⟩

end ByteTurn

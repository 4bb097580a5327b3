import ByteTurn.VoiceChatConnection.Incarnations

/-!
# ByteTurn.VoiceChatConnection.Output

What a client takes is a prefix of what its own session appended.

While a route is open, everything offered to it has been taken or is queued
(`Flow`).  Closing and overflowing throw the queue away and let nothing in
again.
-/

namespace ByteTurn

/-- Everything `take_output` returned for a handle. -/
def tookOf (notes : List ChatNote) (handle : SessionHandle) : List ChatOutput :=
  notes.flatMap fun x => match x with
    | .took h outputs => if h = handle then outputs else []
    | _ => []

/-- What a route keeps, and what was taken from it. -/
structure Flow (b : ChatBinding) (i : Incarnation) (taken : List ChatOutput) : Prop where
  named : ∀ o ∈ i.route.offered, o.handle = i.handle
  bounded : ∀ o ∈ taken ++ i.route.queue, o.payload.bytes ≤ b.config.maxPayloadBytes
  room : i.route.queue.length ≤ b.config.maxOutputMessages
  opened : i.route.isOpen = true → taken ++ i.route.queue = i.route.offered
  closed : i.route.isOpen = false → i.route.queue = [] ∧ taken.IsPrefix i.route.offered
  overflowed : i.route.overflow = true → i.route.isOpen = false

variable {b : ChatBinding} {i : Incarnation} {taken : List ChatOutput} {notes : List ChatNote}
  {x : ChatNote} {handle : SessionHandle}

/-- A note adds to what was taken for its handle only. -/
theorem tookOf_concat (notes : List ChatNote) (x : ChatNote) (handle : SessionHandle) :
    tookOf (notes ++ [x]) handle = tookOf notes handle ++ match x with
      | .took h outputs => if h = handle then outputs else []
      | _ => [] := by
  unfold tookOf
  rw [List.flatMap_append, List.flatMap_singleton]

/-- A note of something else adds nothing. -/
theorem tookOf_other (hx : ∀ outputs, x ≠ .took handle outputs) :
    tookOf (notes ++ [x]) handle = tookOf notes handle := by
  rw [tookOf_concat]
  cases x with
  | took h outputs =>
      have hne : h ≠ handle := fun heq => hx outputs (by rw [heq])
      simp only [if_neg hne, List.append_nil]
  | admitted | entered | retired | acknowledged | refused | removed | failed | found | fed | shown =>
      exact List.append_nil _

/-- A note of what was taken adds just that. -/
theorem tookOf_took {outputs : List ChatOutput} :
    tookOf (notes ++ [.took handle outputs]) handle = tookOf notes handle ++ outputs := by
  rw [tookOf_concat]
  simp only [if_true]

/-! ## one route -/

/-- What was taken is the beginning of what was offered. -/
theorem Flow.part (h : Flow b i taken) : taken.IsPrefix i.route.offered := by
  cases hopen : i.route.isOpen with
  | true => exact ⟨i.route.queue, h.opened hopen⟩
  | false => exact (h.closed hopen).2

/-- Nothing is kept that was not taken. -/
theorem Flow.shut {r : Route} (h : Flow b i taken) (hopen : r.isOpen = false) (hqueue : r.queue = [])
    (hoffered : r.offered = i.route.offered) : Flow b { i with route := r } taken where
  named := by
    show ∀ o ∈ r.offered, _
    rw [hoffered]
    exact h.named
  bounded o ho := by
    have htaken : o ∈ taken ++ r.queue := ho
    rw [hqueue, List.append_nil] at htaken
    exact h.bounded o (List.mem_append_left _ htaken)
  room := by
    show r.queue.length ≤ _
    rw [hqueue]
    exact Nat.zero_le _
  opened htrue := by
    have hfalse : r.isOpen = true := htrue
    rw [hopen] at hfalse
    contradiction
  closed _ := ⟨hqueue, by
    show taken.IsPrefix r.offered
    rw [hoffered]
    exact h.part⟩
  overflowed _ := hopen

/-- Closing a route loses what is queued and nothing that was taken. -/
theorem Flow.close (h : Flow b i taken) : Flow b { i with route := i.route.close } taken :=
  h.shut rfl rfl rfl

/-- An output was handed to a route. -/
theorem Flow.offer {output : ChatOutput} (h : Flow b i taken) (ho : output.handle = i.handle)
    (hclosed : i.route.isOpen = false) :
    Flow b { i with route := { i.route with offered := i.route.offered ++ [output] } } taken where
  named o hmem := (List.mem_append.mp hmem).elim (h.named o) fun hnew => by
    rw [List.mem_singleton.mp hnew]
    exact ho
  bounded := h.bounded
  room := h.room
  opened hopen := absurd (hclosed.symm.trans hopen) Bool.false_ne_true
  closed _ := ⟨(h.closed hclosed).1, h.part.trans (List.prefix_append _ _)⟩
  overflowed := h.overflowed

/-- What is offered is queued, or closes the route. -/
theorem Flow.append {payload : ChatPayload} {stored : Bool} (h : Flow b i taken) :
    Flow b { i with route := i.route.append b.config ⟨i.handle, payload⟩ stored } taken := by
  let offered : Route := { i.route with offered := i.route.offered ++ [⟨i.handle, payload⟩] }
  have hshut : Flow b { i with route := offered.overflowed } taken :=
    (h.close.offer rfl rfl).shut (r := offered.overflowed) rfl rfl rfl
  unfold Route.append
  dsimp only
  split
  · next hclosed => exact h.offer rfl (by simpa using hclosed)
  next hopen =>
  have hopen : i.route.isOpen = true := by simpa using hopen
  split
  · exact hshut
  next hfits =>
  obtain ⟨hbytes, hroom⟩ := not_or.mp hfits
  split
  · exact {
      named := fun o hmem => (List.mem_append.mp hmem).elim (h.named o) fun hnew => by
        rw [List.mem_singleton.mp hnew]
      bounded := fun o hmem => by
        rw [← List.append_assoc] at hmem
        cases List.mem_append.mp hmem with
        | inl hold => exact h.bounded o hold
        | inr hnew =>
            rw [List.mem_singleton.mp hnew]
            exact Nat.not_lt.mp hbytes
      room := by
        show (i.route.queue ++ [_]).length ≤ _
        rw [List.length_append]
        exact Nat.not_le.mp hroom
      opened := fun _ => by
        show taken ++ (i.route.queue ++ _) = i.route.offered ++ _
        rw [← List.append_assoc, h.opened hopen]
      closed := fun hfalse => absurd (hopen.symm.trans hfalse) Bool.true_eq_false.mp
      overflowed := h.overflowed }
  · exact hshut

/-- What is queued is taken, all of it and in order. -/
theorem Flow.drain (h : Flow b i taken) :
    Flow b { i with route := i.route.drain } (taken ++ i.route.queue) where
  named := h.named
  bounded o ho := by
    have hmem : o ∈ (taken ++ i.route.queue) ++ [] := ho
    rw [List.append_nil] at hmem
    exact h.bounded o hmem
  room := Nat.zero_le _
  opened hopen := (List.append_nil _).trans (h.opened hopen)
  closed hclosed := by
    obtain ⟨hqueue, hpart⟩ := h.closed hclosed
    rw [hqueue, List.append_nil]
    exact ⟨rfl, hpart⟩
  overflowed := h.overflowed

/-! ## all routes -/

namespace ConnectionState

variable {s t : ConnectionState} {n : Nat} {f : Incarnation → Incarnation} {live live' : Nat → Prop}

/-- The route of the binding may be open. -/
def Live (s : ConnectionState) (n : Nat) : Prop :=
  s.admission = some n ∧ s.phase ≠ .stopping ∧ s.phase ≠ .retired

/-- The routes of all incarnations; only those in `live` may be open. -/
structure Routes (b : ChatBinding) (live : Nat → Prop) (s : ConnectionState) : Prop where
  flow : ∀ (n : Nat) (i : Incarnation), s.incarnations[n]? = some i →
    Flow b i (tookOf s.notes i.handle)
  past : ∀ (n : Nat) (i : Incarnation), s.incarnations[n]? = some i → ¬ live n →
    i.route.isOpen = false
  distinct : s.handles.Nodup
  own : ∀ h ∈ s.handles, h.runtimeId = b.runtimeId ∧ h.id = b.sessionId
  known : ∀ h outputs, .took h outputs ∈ s.notes → h ∈ s.handles

/-- An incarnation is modified in its place. -/
theorem modify_get {m : Nat} {j : Incarnation} (h : (s.modify m f).incarnations[n]? = some j) :
    ∃ i, s.incarnations[n]? = some i ∧ j = if m = n then f i else i := by
  unfold modify at h
  dsimp only at h
  rw [List.getElem?_modify] at h
  obtain ⟨i, hi, rfl⟩ := Option.map_eq_some_iff.mp h
  exact ⟨i, hi, rfl⟩

/-- What keeps the flow of each route and opens none keeps the routes. -/
theorem Routes.modify (h : Routes b live s) (m : Nat) (hhandle : ∀ i, (f i).handle = i.handle)
    (hflow : ∀ i taken, Flow b i taken → Flow b (f i) taken)
    (hclosed : ∀ i, i.route.isOpen = false → (f i).route.isOpen = false) :
    Routes b live (s.modify m f) where
  flow n j hj := by
    obtain ⟨i, hi, rfl⟩ := modify_get hj
    split
    · rw [hhandle]
      exact hflow i _ (h.flow n i hi)
    · exact h.flow n i hi
  past n j hj hlive := by
    obtain ⟨i, hi, rfl⟩ := modify_get hj
    split
    · exact hclosed i (h.past n i hi hlive)
    · exact h.past n i hi hlive
  distinct := by
    rw [handles_modify hhandle]
    exact h.distinct
  own := by
    rw [handles_modify hhandle]
    exact h.own
  known := by
    rw [handles_modify hhandle]
    exact h.known

/-- A note of something else keeps the routes. -/
theorem Routes.note (h : Routes b live s) (hx : ∀ h outputs, x ≠ .took h outputs) :
    Routes b live (s.note x) where
  flow n i hi := by
    show Flow b i (tookOf (s.notes ++ [x]) i.handle)
    rw [tookOf_other fun outputs => hx i.handle outputs]
    exact h.flow n i hi
  past := h.past
  distinct := h.distinct
  own := h.own
  known handle outputs hmem := (List.mem_append.mp hmem).elim (h.known handle outputs) fun hnew =>
    absurd (List.mem_singleton.mp hnew).symm (hx handle outputs)

/-- Only the incarnations and the notes matter. -/
theorem Routes.congr (h : Routes b live s) (hincarnations : t.incarnations = s.incarnations)
    (hnotes : t.notes = s.notes) : Routes b live t where
  flow := by rw [hincarnations, hnotes]; exact h.flow
  past := by rw [hincarnations]; exact h.past
  distinct := by unfold handles; rw [hincarnations]; exact h.distinct
  own := by unfold handles; rw [hincarnations]; exact h.own
  known := by unfold handles; rw [hincarnations, hnotes]; exact h.known

/-- Another route may be the open one once this one is closed. -/
theorem Routes.relive (h : Routes b live s) (hlive : ∀ n i, s.incarnations[n]? = some i →
    ¬ live' n → live n → i.route.isOpen = false) : Routes b live' s where
  flow := h.flow
  past n i hi hn := by
    by_cases hold : live n
    · exact hlive n i hi hn hold
    · exact h.past n i hi hold
  distinct := h.distinct
  own := h.own
  known := h.known

/-- A closed route stays closed, whatever is offered to it. -/
theorem append_closed {r : Route} {output : ChatOutput} {stored : Bool} (h : r.isOpen = false) :
    (r.append b.config output stored).isOpen = false := by
  unfold Route.append
  dsimp only
  rw [if_pos (by simp [h])]
  exact h

/-- The world keeps the routes. -/
theorem Routes.move (h : Routes b live s) (m : WorldMove) : Routes b live (s.move b m) := by
  cases m with
  | append n payload stored =>
      exact h.modify n (fun _ => rfl) (fun i taken hi => hi.append) fun i hi => append_closed hi
  | started n outcome | find n info =>
      refine h.modify n ?_ (fun i taken hi => ⟨hi.named, hi.bounded, hi.room, hi.opened, hi.closed,
        hi.overflowed⟩) fun i hi => hi
      exact fun _ => rfl
  | retired n outcome =>
      unfold ConnectionState.move
      dsimp only
      split
      · split
        · exact h
        · have hready : Routes b live (s.modify n fun i => { i with retired := some outcome }) :=
            h.modify n (fun _ => rfl) (fun i taken hi => ⟨hi.named, hi.bounded, hi.room, hi.opened,
              hi.closed, hi.overflowed⟩) fun i hi => hi
          exact hready.note nofun
      · exact h

/-- So do all the moves of a place. -/
theorem Routes.others (h : Routes b live s) : Routes b live (s.others b) :=
  others_rec (P := Routes b live) (fun _ m hr => hr.move m) (fun _ _ hr => hr.congr rfl rfl) h

/-- Taking the output changes no handle. -/
theorem handles_drain : ((s.modify n fun i => { i with route := i.route.drain }).note x).handles =
    s.handles := handles_modify (s := s) (n := n)
      (f := fun i => { i with route := i.route.drain }) fun _ => rfl

/-- What `take_output` returns comes from its own route. -/
theorem Routes.took (h : Routes b live s) (hi : s.incarnations[n]? = some i) :
    Routes b live ((s.modify n fun i => { i with route := i.route.drain }).note
      (.took i.handle i.route.queue)) where
  flow m j hj := by
    obtain ⟨k, hk, rfl⟩ := modify_get (s := s) hj
    show Flow b _ (tookOf (s.notes ++ _) _)
    split
    · next hn =>
      rw [← hn, hi] at hk
      obtain rfl := Option.some.inj hk
      rw [tookOf_took]
      exact (h.flow n i hi).drain
    · next hn =>
      have hne : k.handle ≠ i.handle := fun hsame => by
        have hsame : s.handles[m]? = s.handles[n]? := by
          unfold handles
          rw [List.getElem?_map, List.getElem?_map, hk, hi]
          exact congrArg some hsame
        have hlt : m < s.handles.length := by
          unfold handles
          rw [List.length_map]
          exact (List.getElem?_eq_some_iff.mp hk).1
        exact hn ((List.getElem?_inj hlt h.distinct).mp hsame).symm
      rw [tookOf_other fun outputs heq => hne (ChatNote.took.inj heq).1.symm]
      exact h.flow m k hk
  past m j hj hlive := by
    obtain ⟨k, hk, rfl⟩ := modify_get (s := s) hj
    split <;> exact h.past m k hk hlive
  distinct := by
    rw [handles_drain]
    exact h.distinct
  own := by
    rw [handles_drain]
    exact h.own
  known handle outputs hmem := by
    rw [handles_drain]
    cases List.mem_append.mp hmem with
    | inl hold => exact h.known handle outputs hold
    | inr hnew =>
        rw [(ChatNote.took.inj (List.mem_singleton.mp hnew)).1]
        exact List.mem_map.mpr ⟨i, List.mem_of_getElem? hi, rfl⟩

/-- An admission brings a route of its own, and finds all others closed. -/
theorem Routes.admitted (h : Routes b (Live s) s) (generation : Nat) (hrestartable : s.restartable)
    (hidle : s.phase = .idle → s.admission = none) (hfresh : newHandle b generation ∉ s.handles) :
    Routes b (Live (s.admitted b generation)) (s.admitted b generation) := by
  let started : Incarnation := { handle := newHandle b generation }
  let r : ConnectionState := { s with incarnations := s.incarnations ++ [started] }
  have hdead (n : Nat) : ¬ s.Live n := by
    obtain ⟨hstarting, hrunning, hstopping, -⟩ := hrestartable
    intro hlive
    cases hp : s.phase with
    | idle => rw [Live, hidle hp] at hlive; exact absurd hlive.1 nofun
    | starting => exact hstarting hp
    | running => exact hrunning hp
    | stopping => exact hlive.2.1 hp
    | retired => exact hlive.2.2 hp
  have hget (n : Nat) (i : Incarnation) (hi : r.incarnations[n]? = some i) :
      s.incarnations[n]? = some i ∨ n = s.incarnations.length ∧ i = started := by
    have hi : (s.incarnations ++ [started])[n]? = some i := hi
    rw [List.getElem?_append] at hi
    split at hi
    · exact .inl hi
    · next hn =>
      obtain ⟨hlt, hi⟩ := List.getElem?_eq_some_iff.mp hi
      rw [List.length_singleton] at hlt
      have hn : n = s.incarnations.length := by omega
      subst hn
      exact .inr ⟨rfl, by simpa using hi.symm⟩
  have hhandles : r.handles = s.handles ++ [newHandle b generation] := List.map_append
  have hstart : Routes b (· = s.incarnations.length) r := by
    refine ⟨fun n i hi => ?_, fun n i hi hlive => ?_, ?_, ?_, fun handle outputs hmem => ?_⟩
    · obtain hold | ⟨-, rfl⟩ := hget n i hi
      · exact h.flow n i hold
      · have hnone : tookOf s.notes (newHandle b generation) = [] := by
          refine List.flatMap_eq_nil_iff.mpr fun x hx => ?_
          cases x with
          | took handle outputs =>
              refine if_neg fun heq => hfresh ?_
              rw [← heq]
              exact h.known handle outputs hx
          | admitted | entered | retired | acknowledged | refused | removed | failed | found | fed
          | shown => rfl
        show Flow b started (tookOf s.notes (newHandle b generation))
        rw [hnone]
        exact ⟨nofun, nofun, Nat.zero_le _, fun _ => rfl, nofun, nofun⟩
    · obtain hold | ⟨hn, -⟩ := hget n i hi
      · exact h.past n i hold (hdead n)
      · exact absurd hn hlive
    · rw [hhandles]
      exact List.nodup_append.mpr ⟨h.distinct, List.nodup_singleton _, fun a ha c hc heq => hfresh
        (by rw [← List.mem_singleton.mp hc, ← heq]; exact ha)⟩
    · rw [hhandles]
      intro handle hmem
      cases List.mem_append.mp hmem with
      | inl hold => exact h.own handle hold
      | inr hnew => rw [List.mem_singleton.mp hnew]; exact ⟨rfl, rfl⟩
    · rw [hhandles]
      exact List.mem_append_left _ (h.known handle outputs hmem)
  have hnoted := (hstart.note (x := .admitted (newHandle b generation)) nofun).others
  refine (hnoted.congr (t := s.admitted b generation) rfl rfl).relive fun n i _ hnot hn => ?_
  exact absurd ⟨congrArg some hn.symm, nofun, nofun⟩ hnot

/-- Every micro step keeps the routes. -/
theorem Routes.micro (h : Routes b (Live s) s) (hs : Micro b s t)
    (hidle : s.phase = .idle → s.admission = none) : Routes b (Live t) t := by
  have hclosing (hclosed : s.routeClosed) (n : Nat) (i : Incarnation)
      (hi : s.incarnations[n]? = some i) (hlive : s.Live n) : i.route.isOpen = false := by
    refine hclosed i ?_
    unfold current
    rw [hlive.1]
    exact hi
  cases hs with
  | move m =>
      refine (h.move m).relive fun n i _ hnot hlive => absurd ?_ hnot
      obtain ⟨-, -, hadmission, hphase, -⟩ := binding_eq.mp (move_kept (b := b) s m).1
      unfold Live
      rw [hadmission, hphase]
      exact hlive
  | moves ms => exact h.congr rfl rfl
  | close n hn =>
      exact (h.modify n (f := fun i => { i with route := i.route.close }) (fun _ => rfl)
        (fun i taken hi => hi.close) fun _ _ => rfl).congr rfl rfl
  | stopping hadmitted hphase hclosed =>
      have hnoted := h.note (x := .entered .stopping) nofun
      exact (hnoted.congr (t := s.setPhase .stopping) rfl rfl).relive fun n i hi _ hlive =>
        hclosing hclosed n i hi hlive
  | running hphase =>
      have hnoted := h.note (x := .entered .running) nofun
      exact (hnoted.congr (t := s.setPhase .running) rfl rfl).relive fun n i hi hnot hlive =>
        absurd ⟨hlive.1, nofun, nofun⟩ hnot
  | retired hready hclosed =>
      have hnoted := h.note (x := .entered .retired) nofun
      exact (hnoted.congr (t := s.setPhase .retired) rfl rfl).relive fun n i hi _ hlive =>
        hclosing hclosed n i hi hlive
  | request x hplain => exact h.note fun handle outputs heq => by rw [heq] at hplain; contradiction
  | shown | fed => exact h.note nofun
  | took n i hconnected hn hi => exact h.took hi
  | acknowledged handle => exact (h.note (x := .acknowledged handle) nofun).congr rfl rfl
  | admitted generation hconnected hrestartable hfresh =>
      exact h.admitted generation hrestartable hidle hfresh
  | disconnected | seen => exact h.congr rfl rfl

/-! ## closed routes -/

/-- The route of an incarnation is closed, and this is all that was taken of it. -/
structure Spent (n : Nat) (handle : SessionHandle) (taken : List ChatOutput)
    (s : ConnectionState) : Prop where
  closed : ∃ i, s.incarnations[n]? = some i ∧ i.handle = handle ∧ i.route.isOpen = false
  taken : tookOf s.notes handle = taken

/-- What opens no route leaves a spent one spent. -/
theorem Spent.modify (h : Spent n handle taken s) (m : Nat) (hhandle : ∀ i, (f i).handle = i.handle)
    (hclosed : ∀ i, i.route.isOpen = false → (f i).route.isOpen = false) :
    Spent n handle taken (s.modify m f) where
  closed := by
    obtain ⟨i, hi, hsame, hopen⟩ := h.closed
    refine ⟨if m = n then f i else i, ?_, ?_, ?_⟩
    · unfold ConnectionState.modify
      dsimp only
      rw [List.getElem?_modify, hi]
      rfl
    · split
      · exact (hhandle i).trans hsame
      · exact hsame
    · split
      · exact hclosed i hopen
      · exact hopen
  taken := h.taken

/-- A note of something else leaves it spent. -/
theorem Spent.note (h : Spent n handle taken s) (hx : ∀ outputs, x ≠ .took handle outputs) :
    Spent n handle taken (s.note x) :=
  ⟨h.closed, (tookOf_other hx).trans h.taken⟩

/-- Only the incarnations and the notes matter to a spent route. -/
theorem Spent.congr (h : Spent n handle taken s) (hincarnations : t.incarnations = s.incarnations)
    (hnotes : t.notes = s.notes) : Spent n handle taken t :=
  ⟨by rw [hincarnations]; exact h.closed, by rw [hnotes]; exact h.taken⟩

/-- Callbacks that come late leave it spent. -/
theorem Spent.move (h : Spent n handle taken s) (m : WorldMove) :
    Spent n handle taken (s.move b m) := by
  cases m with
  | append k payload stored => exact h.modify k (fun _ => rfl) fun i hi => append_closed hi
  | started k outcome | find k info =>
      refine h.modify k ?_ fun i hi => hi
      exact fun _ => rfl
  | retired k outcome =>
      unfold ConnectionState.move
      dsimp only
      split
      · split
        · exact h
        · have hready : Spent n handle taken
              (s.modify k fun i => { i with retired := some outcome }) :=
            h.modify k (fun _ => rfl) fun i hi => hi
          exact hready.note nofun
      · exact h

/-- So do all the moves of a place. -/
theorem Spent.others (h : Spent n handle taken s) : Spent n handle taken (s.others b) :=
  others_rec (P := Spent n handle taken) (fun _ m hr => hr.move m) (fun _ _ hr => hr.congr rfl rfl) h

/-- Every micro step leaves a spent route spent. -/
theorem Spent.micro (h : Spent n handle taken s) (hroutes : Routes b live s) (hs : Micro b s t) :
    Spent n handle taken t := by
  cases hs with
  | move m => exact h.move m
  | close m hm =>
      exact (h.modify m (f := fun i => { i with route := i.route.close }) (fun _ => rfl)
        fun _ _ => rfl).congr rfl rfl
  | moves | disconnected | seen => exact h.congr rfl rfl
  | stopping => exact (h.note (x := .entered .stopping) nofun).congr rfl rfl
  | running => exact (h.note (x := .entered .running) nofun).congr rfl rfl
  | retired => exact (h.note (x := .entered .retired) nofun).congr rfl rfl
  | request x hplain => exact h.note fun outputs heq => by rw [heq] at hplain; contradiction
  | shown | fed => exact h.note nofun
  | acknowledged handle' => exact (h.note (x := .acknowledged handle') nofun).congr rfl rfl
  | took m i hconnected hm hi =>
      have hdrained : Spent n handle taken
          (s.modify m fun i => { i with route := i.route.drain }) :=
        h.modify m (fun _ => rfl) fun i hi => hi
      by_cases hsame : i.handle = handle
      · -- the same incarnation, whose queue is empty
        obtain ⟨j, hj, hhandle, hopen⟩ := h.closed
        have hindex : s.handles[m]? = s.handles[n]? := by
          unfold handles
          rw [List.getElem?_map, List.getElem?_map, hi, hj]
          exact congrArg some (hsame.trans hhandle.symm)
        have hlt : m < s.handles.length := by
          unfold handles
          rw [List.length_map]
          exact (List.getElem?_eq_some_iff.mp hi).1
        have hmn : m = n := (List.getElem?_inj hlt hroutes.distinct).mp hindex
        rw [hmn, hj] at hi
        obtain rfl := Option.some.inj hi
        have hqueue := ((hroutes.flow n j hj).closed hopen).1
        refine ⟨hdrained.closed, ?_⟩
        rw [hsame, hqueue]
        exact tookOf_took.trans ((List.append_nil _).trans h.taken)
      · exact hdrained.note fun outputs heq => hsame (ChatNote.took.inj heq).1
  | admitted generation =>
      have hgrown : Spent n handle taken ({ s with incarnations :=
          s.incarnations ++ [{ handle := newHandle b generation }] } : ConnectionState) := by
        refine ⟨?_, h.taken⟩
        obtain ⟨i, hi, hrest⟩ := h.closed
        exact ⟨i, (List.getElem?_append_left (List.getElem?_eq_some_iff.mp hi).1).trans hi, hrest⟩
      exact ((hgrown.note (x := .admitted (newHandle b generation)) nofun).others (b := b)).congr
        rfl rfl

/-! ## overflow -/

/-- The current route has overflowed. -/
def Overflowed (s : ConnectionState) (handle : SessionHandle) : Prop :=
  ∃ i, s.current = some i ∧ i.handle = handle ∧ i.route.overflow = true

/-- An overflow is not taken back. -/
theorem append_overflow {r : Route} {output : ChatOutput} {stored : Bool}
    (hopen : r.isOpen = false) (h : r.overflow = true) :
    (r.append b.config output stored).overflow = true := by
  unfold Route.append
  dsimp only
  rw [if_pos (by simp [hopen])]
  exact h

/-- A note that stays is a note of all that follows. -/
theorem Micro.noted (h : Micro b s t) : s.notes.IsPrefix t.notes := by
  cases h with
  | move m =>
      obtain ⟨hsame, -⟩ | ⟨k, h', -, hone, -⟩ := move_notes (b := b) s m
      · rw [hsame]
      · rw [hone]
        exact List.prefix_append _ _
  | moves | close | disconnected | seen => exact List.prefix_rfl
  | stopping | running | retired | request | shown | fed | took | acknowledged =>
      exact List.prefix_append _ _
  | admitted generation =>
      refine List.IsPrefix.trans (List.prefix_append s.notes [.admitted (newHandle b generation)]) ?_
      show List.IsPrefix _ (ConnectionState.others b _).notes
      refine others_rec (P := fun r =>
        (s.notes ++ [ChatNote.admitted (newHandle b generation)]).IsPrefix r.notes) (fun r m hr => hr.trans ?_) (fun r ms hr => hr) List.prefix_rfl
      obtain ⟨hsame, -⟩ | ⟨k, h', -, hone, -⟩ := move_notes (b := b) r m
      · rw [hsame]
      · rw [hone]
        exact List.prefix_append _ _

/-- Along a path nothing that was noted is lost. -/
theorem Path.noted (h : Path b s t) : s.notes.IsPrefix t.notes := by
  induction h with
  | refl => exact List.prefix_rfl
  | tail _ hlast ih => exact ih.trans hlast.noted

/-- The present incarnation is modified or left. -/
theorem current_of_modify (m : Nat) (h : s.current = some i) :
    ∃ j, (s.modify m f).current = some j ∧ (j = i ∨ j = f i) := by
  unfold current at h ⊢
  obtain ⟨n, hn, hi⟩ := Option.bind_eq_some_iff.mp h
  refine ⟨if m = n then f i else i, ?_, ?_⟩
  · unfold ConnectionState.modify
    dsimp only
    rw [hn]
    simp only [Option.bind_some, List.getElem?_modify, hi]
    rfl
  · split
    · exact .inr rfl
    · exact .inl rfl

/-- What takes no overflow back leaves the current route overflowed. -/
theorem Overflowed.modify (h : s.Overflowed handle) (m : Nat)
    (hhandle : ∀ i, (f i).handle = i.handle)
    (hoverflow : ∀ i, s.current = some i → i.route.overflow = true →
      (f i).route.overflow = true) : (s.modify m f).Overflowed handle := by
  obtain ⟨i, hi, hsame, hover⟩ := h
  obtain ⟨j, hj, rfl | rfl⟩ := current_of_modify (f := f) m hi
  · exact ⟨j, hj, hsame, hover⟩
  · exact ⟨f i, hj, (hhandle i).trans hsame, hoverflow i hi hover⟩

/-- The world takes no overflow back. -/
theorem Overflowed.move (h : s.Overflowed handle) (hroutes : Routes b live s) (m : WorldMove) :
    (s.move b m).Overflowed handle := by
  cases m with
  | append k payload stored =>
      refine h.modify k (fun _ => rfl) fun i hi hover => append_overflow ?_ hover
      obtain ⟨n, -, hn⟩ := Option.bind_eq_some_iff.mp hi
      exact (hroutes.flow n i hn).overflowed hover
  | started k outcome | find k info =>
      refine h.modify k ?_ fun i _ hover => hover
      exact fun _ => rfl
  | retired k outcome =>
      unfold ConnectionState.move
      dsimp only
      split
      · split
        · exact h
        · have hready : ({ s with incarnations := s.incarnations.modify k fun i =>
              { i with retired := some outcome } } : ConnectionState).Overflowed handle :=
            h.modify k (fun _ => rfl) fun i _ hover => hover
          exact hready
      · exact h

/-- A refresh that finds an overflow tells the runtime. -/
theorem refresh_reports (hticketed : s.Ticketed) (hroutes : Routes b live s)
    (h : s.Overflowed handle) (hstopping : s.phase ≠ .stopping) (hretired : s.phase ≠ .retired) :
    ∃ later, (s.refresh b).notes = s.notes ++ later ∧ .failed handle ∈ later := by
  have hadmission : s.admission ≠ none := fun hnone => by
    obtain ⟨i, hi, -⟩ := h
    unfold current at hi
    rw [hnone] at hi
    contradiction
  have hothers : Routes b live (s.others b) ∧ (s.others b).Overflowed handle :=
    others_rec (P := fun r => Routes b live r ∧ r.Overflowed handle)
      (fun r m hr => ⟨hr.1.move m, hr.2.move hr.1 m⟩)
      (fun r ms hr => ⟨hr.1.congr rfl rfl, hr.2⟩) ⟨hroutes, h⟩
  obtain ⟨i, hi, hhandle, hoverflow⟩ := hothers.2
  let closed := ((s.others b).closeRoute b).setPhase .stopping
  have hclosed : s.refreshOverflow b = closed.request b .failed := by
    unfold refreshOverflow
    dsimp only
    rw [hi]
    dsimp only
    rw [if_pos ⟨hoverflow, by rw [others_phase]; exact hstopping,
      by rw [others_phase]; exact hretired⟩]
  have hsame : (closed.others b).handle = some handle := by
    have hfixed : (closed.others b).fixed = (s.others b).fixed :=
      others_fixed.trans (setPhase_fixed.trans closeRoute_fixed)
    rw [handle_of_fixed hfixed, handle_eq, hi, ← hhandle]
    rfl
  have hnotes : (s.refreshOverflow b).notes = (closed.others b).notes ++ [.failed handle] := by
    rw [hclosed]
    unfold request
    dsimp only
    rw [handle_eq] at hsame
    obtain ⟨j, hj, hjhandle⟩ := Option.map_eq_some_iff.mp hsame
    rw [hj, ← hjhandle]
    rfl
  have hbefore : s.notes.IsPrefix (closed.others b).notes := by
    have hfirst : s.notes.IsPrefix ((s.others b).closeRoute b).notes :=
      Path.noted ((others_path s).trans (closeRoute_path (b := b) _))
    have hlast : closed.notes.IsPrefix (closed.others b).notes := Path.noted (others_path (b := b) closed)
    exact (hfirst.trans (List.prefix_append _ _)).trans hlast
  obtain ⟨middle, hmiddle⟩ := hbefore
  obtain ⟨rest, hrest⟩ := Path.noted (refresh_rest (b := b) hticketed hadmission)
  refine ⟨middle ++ [.failed handle] ++ rest, ?_, ?_⟩
  · rw [← hrest, hnotes, ← hmiddle]
    simp only [List.append_assoc]
  · simp

/-! ## the output of an incarnation -/

/-- What a binding promises about its output. -/
structure OwnOutput (b : ChatBinding) (now : Int) (s : ConnectionState) : Prop where
  /-- What was taken for a handle is the beginning of what its incarnation
  appended, and bears the handle. -/
  part : ∀ (n : Nat) (i : Incarnation), s.incarnations[n]? = some i →
    (tookOf s.notes i.handle).IsPrefix i.route.offered ∧
      ∀ o ∈ i.route.offered, o.handle = i.handle
  /-- Nothing was taken for any other handle, and no two incarnations share one. -/
  known : ∀ h, tookOf s.notes h ≠ [] → h ∈ s.handles
  distinct : s.handles.Nodup
  own : ∀ h ∈ s.handles, h.runtimeId = b.runtimeId ∧ h.id = b.sessionId
  room : ∀ (n : Nat) (i : Incarnation), s.incarnations[n]? = some i →
    i.route.queue.length ≤ b.config.maxOutputMessages ∧
      ∀ o ∈ tookOf s.notes i.handle ++ i.route.queue, o.payload.bytes ≤ b.config.maxPayloadBytes
  /-- Only the route of the present incarnation may be open. -/
  past : ∀ (n : Nat) (i : Incarnation), s.incarnations[n]? = some i → ¬ s.Live n →
    i.route.isOpen = false
  /-- After an overflow nothing more is taken. -/
  overflowed : ∀ (n : Nat) (i : Incarnation) (t : ConnectionState),
    s.incarnations[n]? = some i → i.route.overflow = true → (voiceChat b now).Leads s t →
      tookOf t.notes i.handle = tookOf s.notes i.handle
  /-- Nor is anything taken after an overflow in the middle of a method. -/
  overflowedWithin : ∀ (n : Nat) (i : Incarnation) (r t : ConnectionState), Path b s r →
    r.incarnations[n]? = some i → i.route.overflow = true → Path b r t →
      tookOf t.notes i.handle = tookOf r.notes i.handle
  /-- A refresh, also one in the middle of a method, reports the overflow. -/
  reported : ∀ (r : ConnectionState) (h : SessionHandle), Path b s r → r.Overflowed h →
    r.phase ≠ .stopping → r.phase ≠ .retired →
      ∃ later, (r.refresh b).notes = r.notes ++ later ∧ .failed h ∈ later

/-- An idle binding has no admission. -/
theorem Gate.admission_of_idle (h : s.Gate) (hidle : s.phase = .idle) : s.admission = none := by
  by_cases hnone : s.admission = none
  · exact hnone
  · exact absurd hidle (h.started hnone)

/-- What every micro step keeps. -/
def Sound (b : ChatBinding) (s : ConnectionState) : Prop := s.Gate ∧ Routes b (Live s) s

/-- A micro step keeps the gate and the routes. -/
theorem Sound.micro (h : Sound b s) (hs : Micro b s t) : Sound b t :=
  ⟨h.1.micro hs, h.2.micro hs h.1.admission_of_idle⟩

/-- A new binding has no routes. -/
theorem Routes.init (live : Nat → Prop) (now : Int) : Routes b live { lastSeen := now } where
  flow _ _ hi := absurd hi (by simp)
  past _ _ hi := absurd hi (by simp)
  distinct := List.nodup_nil
  own := nofun
  known := nofun

/-- Every reachable state is sound. -/
theorem reachable_sound {now : Int} (h : (voiceChat b now).Reachable s) : Sound b s :=
  reachable_micro ⟨reachable_gate (Machine.Reachable.init (voiceChat b now)), Routes.init _ now⟩
    (fun _ _ hs hr => hr.micro hs) h

/-- So is every state in the middle of a method. -/
theorem Path.sound (h : Path b s t) (hs : Sound b s) : Sound b t := by
  induction h with
  | refl => exact hs
  | tail _ hlast ih => exact ih.micro hlast

/-- Along a path a spent route stays spent. -/
theorem Path.spent (h : Path b s t) (hs : Sound b s) (hspent : Spent n handle taken s) :
    Spent n handle taken t := by
  induction h with
  | refl => exact hspent
  | tail hpath hlast ih => exact ih.micro (Path.sound hpath hs).2 hlast

/-- A run is a path. -/
theorem leads_path {now : Int} (h : (voiceChat b now).Reachable s)
    (hlater : (voiceChat b now).Leads s t) : Path b s t :=
  Machine.Leads.rec_stable (P := Path b s)
    (fun _ _ _ hr hpath hs => hpath.trans (step_path (reachable_gate hr).ticketed hs)) h .refl
    hlater

/-- Nothing is taken of a route that has overflowed. -/
theorem Path.overflowed (h : Path b s t) (hs : Sound b s) (hi : s.incarnations[n]? = some i)
    (hoverflow : i.route.overflow = true) : tookOf t.notes i.handle = tookOf s.notes i.handle := by
  have hclosed : i.route.isOpen = false := (hs.2.flow n i hi).overflowed hoverflow
  have hspent : Spent n i.handle (tookOf s.notes i.handle) t :=
    Path.spent h hs ⟨⟨i, hi, rfl, hclosed⟩, rfl⟩
  exact hspent.taken

end ConnectionState

/-- A session says two things, and the client takes the first. -/
def takenRun : List ChatAction := [
  .call (.start voiceClient .accepted 1) [[.find 0 (some .running)]],
  .world (.started 0 .started),
  .world (.append 0 (.transcript (lit "one") false) true),
  .call (.takeOutput voiceClient (voiceHandle 1)) [],
  .world (.append 0 (.transcript (lit "two") true) true)]

end ByteTurn

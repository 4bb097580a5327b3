import ByteTurn.EventBus
import ByteTurn.Lib.Lists

/-!
# ByteTurn.EventBus.Unsubscribe

What holds when `unsubscribe` returns.

A handler's `active_calls` is the number of its calls on all stacks
(`Sound.active`), and `unsubscribe` waits until no other stack holds one.  A call
that does not find the subscription does not wait: it is a barrier as long as
the removal it comes after has gone so far (`Settled`), and no longer.
-/

namespace ByteTurn

namespace EventBus

/-! ## the barrier -/

/-- When `unsubscribe` returns, no call of the handler is in progress on another
thread, and none begins later. -/
def Barrier (log : List BusNote) : Prop :=
  ∀ before t id after, log = before ++ .unsubscribed t id :: after →
    (∀ t', t' ≠ t → before.count (.began t' id) = before.count (.ended t' id)) ∧
      ∀ t', .began t' id ∉ after

/-- The frame has still to call the handler, if it is enabled. -/
def Awaits (id : Nat) : BusFrame → Prop
  | .delivering _ remaining => id ∈ remaining
  | _ => False

instance (id : Nat) : (frame : BusFrame) → Decidable (Awaits id frame)
  | .delivering _ _ => inferInstanceAs (Decidable (_ ∈ _))
  | .collecting _ | .handling _ _ | .removing _ | .waiting _ _ => .isFalse fun h => h

/-- No call of the handler can begin any more: it is disabled, or nobody is to
call it. -/
def Silent (s : EventBus) (id : Nat) : Prop :=
  (s.entries id).enabled = false ∨ ∀ frames ∈ s.threads, ∀ frame ∈ frames, ¬ Awaits id frame

instance (s : EventBus) (id : Nat) : Decidable (s.Silent id) :=
  inferInstanceAs (Decidable (_ ∨ _))

/-- A call of `unsubscribe` that does not find a subscription there has been
comes when no call of its handler can begin, and none is in progress on another
thread. -/
def Settled (s : EventBus) : BusAction → Prop
  | .unsubscribe t id => id ∉ s.handlers → 0 < id ∧ id < s.nextSubscription →
      s.Silent id ∧ ∀ frames ∈ s.threads.eraseIdx t, callsOn id frames = 0
  | _ => True

instance (s : EventBus) : (a : BusAction) → Decidable (s.Settled a)
  | .unsubscribe _ _ => inferInstanceAs (Decidable (_ → _ → _))
  | .subscribe _ | .publish _ _ _ | .deliver _ _ | .collect _ _ | .call _ | .endCall _
  | .endDelivery _ | .disable _ | .wake _ => .isTrue trivial

theorem Barrier.append {log : List BusNote} {n : BusNote} (h : Barrier log)
    (hbegan : ∀ t id, n = .began t id → ∀ t', .unsubscribed t' id ∉ log)
    (hreturned : ∀ t id, n = .unsubscribed t id → ∀ t', t' ≠ t →
      log.count (.began t' id) = log.count (.ended t' id)) :
    Barrier (log ++ [n]) := by
  intro before t id after heq
  by_cases hlast : after = []
  · subst hlast
    obtain ⟨rfl, hn⟩ := List.append_inj' heq rfl
    exact ⟨hreturned t id (List.cons.inj hn).1, fun _ => List.not_mem_nil⟩
  · obtain ⟨rest, last, rfl⟩ : ∃ rest last, after = rest ++ [last] :=
      ⟨after.dropLast, after.getLast hlast, (List.dropLast_append_getLast hlast).symm⟩
    rw [← List.cons_append, ← List.append_assoc] at heq
    obtain ⟨rfl, hn⟩ := List.append_inj' heq rfl
    obtain ⟨hquiet, hnone⟩ := h before t id rest rfl
    refine ⟨hquiet, fun t' hmem => ?_⟩
    obtain hold | hnew := List.mem_append.mp hmem
    · exact hnone t' hold
    · have hbegins : n = .began t' id := (List.cons.inj hn).1.trans (List.mem_singleton.mp hnew).symm
      exact hbegan t' id hbegins t (by simp)

/-! ## the invariant -/

/-- The subscription has been removed from the map. -/
def Erased (s : EventBus) (id : Nat) : Prop := id ∉ s.handlers ∧ id < s.nextSubscription

/-- What a removal has done so far. -/
structure FramesOk (s : EventBus) (frames : List BusFrame) : Prop where
  removing : ∀ id, .removing id ∈ frames → s.Erased id
  waiting : ∀ id localCalls below, .waiting id localCalls :: below <:+ frames →
    localCalls = callsOn id below ∧ s.Erased id ∧ (s.entries id).enabled = false

structure Sound (s : EventBus) : Prop where
  handlers : s.handlers.Nodup ∧ ∀ id ∈ s.handlers, id < s.nextSubscription
  active : ∀ id, (s.entries id).activeCalls = (s.threads.map (callsOn id)).sum
  notes : ∀ t id, s.log.count (.began t id) =
    s.log.count (.ended t id) + callsOn id (s.threads.getD t [])
  frames : ∀ frames ∈ s.threads, s.FramesOk frames
  removed : ∀ t id, .unsubscribed t id ∈ s.log → s.Erased id ∧ s.Silent id
  barrier : Barrier s.log

/-- What a step never takes back. -/
structure Evolves (s s' : EventBus) : Prop where
  erased : ∀ id, s.Erased id → s'.Erased id
  disabled : ∀ id, (s.entries id).enabled = false → (s'.entries id).enabled = false

variable {s s' : EventBus} {t : Nat} {old new : List BusFrame}

theorem FramesOk.evolves (h : s.FramesOk old) (hev : s.Evolves s') : s'.FramesOk old where
  removing id hmem := hev.erased id (h.removing id hmem)
  waiting id localCalls below hsuffix := by
    obtain ⟨hlocal, herased, hdisabled⟩ := h.waiting id localCalls below hsuffix
    exact ⟨hlocal, hev.erased id herased, hev.disabled id hdisabled⟩

/-- A step of thread `t`: its frames change from `old` to `new`, the calls in
progress are counted and noted as they change, and nothing is taken back. -/
structure Goes (s s' : EventBus) (t : Nat) (old new : List BusFrame) (notes : List BusNote) :
    Prop where
  threads : s'.threads = s.threads.set t new
  log : s'.log = s.log ++ notes
  evolves : s.Evolves s'
  handlers : s'.handlers.Nodup ∧ ∀ id ∈ s'.handlers, id < s'.nextSubscription
  active : ∀ id, (s'.entries id).activeCalls + callsOn id old =
    (s.entries id).activeCalls + callsOn id new
  frames : s'.FramesOk new
  awaits : ∀ id, s.Erased id → (∀ frame ∈ old, ¬ Awaits id frame) → ∀ frame ∈ new, ¬ Awaits id frame
  mine : ∀ id, notes.count (.began t id) + callsOn id old = notes.count (.ended t id) + callsOn id new
  others : ∀ t', t' ≠ t → ∀ id, .began t' id ∉ notes ∧ .ended t' id ∉ notes

theorem Silent.goes {notes : List BusNote} (hgoes : s.Goes s' t old new notes)
    (hold : s.threads[t]? = some old) {id : Nat} (herased : s.Erased id) (h : s.Silent id) :
    s'.Silent id := by
  obtain hdisabled | hnobody := h
  · exact .inl (hgoes.evolves.disabled id hdisabled)
  · refine .inr fun frames hmem => ?_
    rw [hgoes.threads] at hmem
    obtain hmem | rfl := List.mem_or_eq_of_mem_set hmem
    · exact hnobody frames hmem
    · exact hgoes.awaits id herased (hnobody old (List.mem_of_getElem? hold))

theorem Sound.goes {notes : List BusNote} (h : Sound s) (hold : s.threads[t]? = some old)
    (hgoes : s.Goes s' t old new notes)
    (hremoved : ∀ t' id, .unsubscribed t' id ∈ notes → s'.Erased id ∧ s'.Silent id)
    (hbarrier : Barrier s'.log) : Sound s' where
  handlers := hgoes.handlers
  active := by
    intro id
    have hsum := List.sum_map_set (callsOn id) hold new
    have hactive := hgoes.active id
    have hbefore := h.active id
    rw [hgoes.threads]
    omega
  notes := by
    intro t' id
    have hbefore := h.notes t' id
    rw [hgoes.log, List.count_append, List.count_append]
    by_cases ht : t' = t
    · subst ht
      have hmine := hgoes.mine id
      have hlt := (List.getElem?_eq_some_iff.mp hold).1
      have hget : s.threads.getD t' [] = old := by rw [List.getD_eq_getElem?_getD, hold]; rfl
      have hget' : s'.threads.getD t' [] = new := by
        rw [hgoes.threads, List.getD_eq_getElem?_getD, List.getElem?_set_self hlt]
        rfl
      rw [hget] at hbefore
      rw [hget']
      omega
    · obtain ⟨hbegan, hended⟩ := hgoes.others t' ht id
      have hsame : s'.threads.getD t' [] = s.threads.getD t' [] := by
        rw [hgoes.threads, List.getD_eq_getElem?_getD, List.getElem?_set_ne (Ne.symm ht),
          ← List.getD_eq_getElem?_getD]
      rw [List.count_eq_zero_of_not_mem hbegan, List.count_eq_zero_of_not_mem hended, hsame]
      omega
  frames := by
    intro frames hmem
    rw [hgoes.threads] at hmem
    obtain hmem | rfl := List.mem_or_eq_of_mem_set hmem
    · exact (h.frames frames hmem).evolves hgoes.evolves
    · exact hgoes.frames
  removed := by
    intro t' id hmem
    rw [hgoes.log] at hmem
    obtain hmem | hmem := List.mem_append.mp hmem
    · obtain ⟨herased, hsilent⟩ := h.removed t' id hmem
      exact ⟨hgoes.evolves.erased id herased, hsilent.goes hgoes hold herased⟩
    · exact hremoved t' id hmem
  barrier := hbarrier

/-- A step that notes nothing. -/
theorem Sound.goes_quietly (h : Sound s) (hold : s.threads[t]? = some old)
    (hgoes : s.Goes s' t old new []) : Sound s' := by
  refine h.goes hold hgoes (by simp) ?_
  rw [hgoes.log, List.append_nil]
  exact h.barrier

theorem Sound.init (threads : Nat) : Sound (eventBus threads).init where
  handlers := ⟨List.nodup_nil, nofun⟩
  active id := by
    show 0 = ((List.replicate threads []).map (callsOn id)).sum
    simp [callsOn]
  notes t id := by
    have hnone : (List.replicate threads ([] : List BusFrame)).getD t [] = [] := by
      simp [List.getD_eq_getElem?_getD, List.getElem?_replicate]
      split <;> rfl
    show 0 = 0 + callsOn id ((List.replicate threads []).getD t [])
    rw [hnone]
    rfl
  frames frames hmem := by
    have hnone : frames = [] := List.eq_of_mem_replicate hmem
    subst hnone
    exact ⟨nofun, fun id localCalls below hsuffix => by simp at hsuffix⟩
  removed := nofun
  barrier := by
    intro before t id after heq
    have hlog : ([] : List BusNote) = before ++ .unsubscribed t id :: after := heq
    simp at hlog

/-! ## frames -/

theorem FramesOk.tail {frame : BusFrame} (h : s.FramesOk (frame :: old)) : s.FramesOk old where
  removing id hmem := h.removing id (List.mem_cons_of_mem _ hmem)
  waiting id localCalls below hsuffix :=
    h.waiting id localCalls below (hsuffix.trans (List.suffix_cons _ _))

/-- A frame that is no part of a removal. -/
theorem FramesOk.cons {frame : BusFrame} (h : s.FramesOk old)
    (hremoving : ∀ id, frame ≠ .removing id) (hwaiting : ∀ id n, frame ≠ .waiting id n) :
    s.FramesOk (frame :: old) where
  removing id hmem := by
    obtain heq | hmem := List.mem_cons.mp hmem
    · exact absurd heq.symm (hremoving id)
    · exact h.removing id hmem
  waiting id localCalls below hsuffix := by
    obtain heq | hsuffix := List.suffix_cons_iff.mp hsuffix
    · exact absurd (List.cons.inj heq).1.symm (hwaiting id localCalls)
    · exact h.waiting id localCalls below hsuffix

/-- A step that changes a thread's frames, and no calls in progress. -/
theorem Sound.setFrames (h : Sound s) (hold : s.threads[t]? = some old)
    (hcalls : ∀ id, callsOn id new = callsOn id old) (hframes : s.FramesOk new)
    (hawaits : ∀ id, s.Erased id → (∀ frame ∈ old, ¬ Awaits id frame) →
      ∀ frame ∈ new, ¬ Awaits id frame) : Sound (s.setFrames t new) := by
  have hevolves : s.Evolves (s.setFrames t new) := ⟨fun _ h => h, fun _ h => h⟩
  refine h.goes_quietly hold ⟨rfl, (List.append_nil _).symm, hevolves, h.handlers,
    fun id => ?_, hframes.evolves hevolves, hawaits, fun id => ?_, fun _ _ _ => by simp⟩
  · rw [hcalls id]
    rfl
  · rw [hcalls id]
    rfl

/-- A frame more that is neither a call nor a delivery under way. -/
theorem awaits_cons {frame : BusFrame} {id : Nat} (hframe : ¬ Awaits id frame)
    (hold : ∀ frame ∈ old, ¬ Awaits id frame) : ∀ frame' ∈ frame :: old, ¬ Awaits id frame' := by
  intro frame' hmem
  obtain rfl | hmem := List.mem_cons.mp hmem
  · exact hframe
  · exact hold frame' hmem

/-! ## one step -/

theorem Sound.subscribe (h : Sound s) (hold : s.threads[t]? = some old) : Sound s.subscribe := by
  have hevolves : s.Evolves s.subscribe := by
    refine ⟨fun id herased => ⟨?_, Nat.lt_succ_of_lt herased.2⟩, fun _ h => h⟩
    intro hmem
    obtain hmem | hmem := List.mem_append.mp hmem
    · exact herased.1 hmem
    · have heq := List.mem_singleton.mp hmem
      have hlt := herased.2
      omega
  have hself : s.threads = s.threads.set t old := by
    obtain ⟨hlt, rfl⟩ := List.getElem?_eq_some_iff.mp hold
    exact (List.set_getElem_self hlt).symm
  refine h.goes_quietly hold ⟨hself, (List.append_nil _).symm, hevolves, ?_,
    fun _ => rfl, (h.frames old (List.mem_of_getElem? hold)).evolves hevolves,
    fun _ _ hnone => hnone, fun _ => rfl, fun _ _ _ => by simp⟩
  obtain ⟨hnodup, hbelow⟩ := h.handlers
  constructor
  · refine List.nodup_append'.mpr ⟨hnodup, List.nodup_singleton _, ?_⟩
    intro id hid hnew
    have hlt := hbelow id hid
    rw [List.mem_singleton.mp hnew] at hlt
    exact Nat.lt_irrefl _ hlt
  · intro id hmem
    obtain hmem | hmem := List.mem_append.mp hmem
    · exact Nat.lt_succ_of_lt (hbelow id hmem)
    · rw [List.mem_singleton.mp hmem]
      exact Nat.lt_succ_self _

theorem callsOn_cons {id : Nat} {frame : BusFrame} (hframe : isCallOf id frame = false) :
    callsOn id (frame :: old) = callsOn id old := by
  rw [callsOn, List.countP_cons_of_neg (by simp [hframe])]
  rfl

theorem callsOn_handling {event : Event} (id i : Nat) :
    callsOn i (.handling event id :: old) = callsOn i old + if i = id then 1 else 0 := by
  rw [callsOn, List.countP_cons, callsOn]
  by_cases hid : i = id
  · simp [isCallOf, hid]
  · simp [isCallOf, hid, Ne.symm hid]

theorem Sound.callNext (h : Sound s) {event : Event} {id : Nat} {remaining : List Nat}
    {below : List BusFrame}
    (hold : s.threads[t]? = some (.delivering event (id :: remaining) :: below)) :
    Sound (s.callNext t event id remaining below) := by
  have hframes : s.FramesOk (.delivering event remaining :: below) :=
    (h.frames _ (List.mem_of_getElem? hold)).tail.cons nofun nofun
  have hawaits : ∀ i,
      (∀ frame ∈ BusFrame.delivering event (id :: remaining) :: below, ¬ Awaits i frame) →
      ∀ frame ∈ BusFrame.delivering event remaining :: below, ¬ Awaits i frame := by
    intro i hnone
    refine awaits_cons (fun hmem => ?_) fun frame hmem => hnone frame (List.mem_cons_of_mem _ hmem)
    exact hnone (.delivering event (id :: remaining)) (by simp) (List.mem_cons_of_mem _ hmem)
  unfold EventBus.callNext
  dsimp only
  split
  · next henabled =>
    -- nobody has been told that the handler is quiet: it is enabled and awaited
    have hunheard : ∀ t', .unsubscribed t' id ∉ s.log := by
      intro t' hmem
      obtain ⟨-, hdisabled | hnobody⟩ := h.removed t' id hmem
      · rw [hdisabled] at henabled
        cases henabled
      · exact hnobody _ (List.mem_of_getElem? hold) (.delivering event (id :: remaining)) (by simp)
          List.mem_cons_self
    have hevolves : s.Evolves (s.callNext t event id remaining below) := by
      refine ⟨fun i herased => ?_, fun i hdisabled => ?_⟩
      · rw [EventBus.callNext, if_pos henabled]
        exact herased
      · rw [EventBus.callNext, if_pos henabled]
        show (Function.update s.entries id _ i).enabled = false
        rw [Function.update_apply]
        split
        · next hi => exact hi ▸ hdisabled
        · exact hdisabled
    rw [EventBus.callNext, if_pos henabled] at hevolves
    refine h.goes hold  ⟨rfl, rfl, hevolves, h.handlers, fun i => ?_,
      (hframes.cons (fun _ => by simp) fun _ _ => by simp).evolves hevolves,
      fun i _ hnone => awaits_cons (fun hawait => hawait) (hawaits i hnone), fun i => ?_, ?_⟩
      (by simp) ?_
    · show (Function.update s.entries id _ i).activeCalls + _ = _
      rw [callsOn_handling, callsOn_cons rfl, callsOn_cons rfl, Function.update_apply]
      split
      · next hi =>
        subst hi
        dsimp only
        omega
      · rfl
    · rw [callsOn_handling, callsOn_cons rfl, callsOn_cons rfl]
      by_cases hi : i = id
      · simp [hi, Nat.add_comm]
      · simp [hi, Ne.symm hi]
    · intro t' ht i
      simp [ht]
    · refine h.barrier.append ?_ (by simp)
      intro t' i hn
      obtain ⟨-, rfl⟩ := BusNote.began.inj hn
      exact hunheard
  · refine h.setFrames hold (fun i => ?_) hframes fun i _ => hawaits i
    rw [callsOn_cons rfl, callsOn_cons rfl]

theorem Sound.finishCall (h : Sound s) {event : Event} {id : Nat} {below : List BusFrame}
    (hold : s.threads[t]? = some (.handling event id :: below)) :
    Sound (s.finishCall t id below) := by
  have hframes := (h.frames _ (List.mem_of_getElem? hold)).tail
  -- the call is one of those counted
  have hcounted : 1 ≤ (s.entries id).activeCalls := by
    have hone := List.sum_map_set (callsOn id) hold below
    rw [callsOn_handling, if_pos rfl, ← h.active id] at hone
    omega
  have hevolves : s.Evolves (s.finishCall t id below) := by
    refine ⟨fun i herased => herased, fun i hdisabled => ?_⟩
    show (Function.update s.entries id _ i).enabled = false
    rw [Function.update_apply]
    split
    · next hi => exact hi ▸ hdisabled
    · exact hdisabled
  refine h.goes hold ⟨rfl, rfl, hevolves, h.handlers, fun i => ?_,
    hframes.evolves hevolves, fun i _ hnone frame hmem => hnone frame (List.mem_cons_of_mem _ hmem),
    fun i => ?_, ?_⟩ (by simp) (h.barrier.append (by simp) (by simp))
  · show (Function.update s.entries id _ i).activeCalls + _ = _
    rw [callsOn_handling, Function.update_apply]
    split
    · next hi =>
      subst hi
      dsimp only
      omega
    · rfl
  · rw [callsOn_handling]
    by_cases hi : i = id
    · simp [hi, Nat.add_comm]
    · simp [hi, Ne.symm hi]
  · intro t' ht i
    simp [ht]

/-- Where a subscription there has been is gone, the guard makes the return a
barrier. -/
theorem Sound.unsubscribed (h : Sound s) (hold : s.threads[t]? = some old) {id : Nat}
    (herased : s.Erased id) (hsilent : s.Silent id)
    (hquiet : ∀ t', t' ≠ t → callsOn id (s.threads.getD t' []) = 0) :
    Sound (s.note (.unsubscribed t id)) := by
  have hevolves : s.Evolves (s.note (.unsubscribed t id)) := ⟨fun _ h => h, fun _ h => h⟩
  have hself : s.threads = s.threads.set t old := by
    obtain ⟨hlt, rfl⟩ := List.getElem?_eq_some_iff.mp hold
    exact (List.set_getElem_self hlt).symm
  refine h.goes hold ⟨hself, rfl, hevolves,
    h.handlers, fun _ => rfl, (h.frames old (List.mem_of_getElem? hold)).evolves hevolves,
    fun _ _ hnone => hnone, fun _ => by simp, fun _ _ _ => by simp⟩ ?_
    (h.barrier.append (by simp) ?_)
  · intro t' i hmem
    obtain ⟨rfl, rfl⟩ := BusNote.unsubscribed.inj (List.mem_singleton.mp hmem)
    exact ⟨herased, hsilent⟩
  · intro t' i hn t'' ht
    obtain ⟨rfl, rfl⟩ := BusNote.unsubscribed.inj hn
    have hnotes := h.notes t'' id
    rw [hquiet t'' ht] at hnotes
    exact hnotes

theorem Sound.lookupAndErase (h : Sound s) (hold : s.threads[t]? = some old) {id : Nat}
    (hsettled : s.Settled (.unsubscribe t id)) : Sound (s.lookupAndErase t id old) := by
  have hframes := h.frames old (List.mem_of_getElem? hold)
  obtain ⟨hnodup, hbelow⟩ := h.handlers
  unfold EventBus.lookupAndErase
  split
  · next hfound =>
    have hkept : ∀ i, i ∉ s.handlers → i ∉ s.handlers.erase id :=
      fun i hgone hmem => hgone (List.mem_of_mem_erase hmem)
    have hevolves : s.Evolves ({ s with handlers := s.handlers.erase id }.setFrames t
        (.removing id :: old)) := ⟨fun i herased => ⟨hkept i herased.1, herased.2⟩, fun _ h => h⟩
    refine h.goes_quietly hold ⟨rfl, (List.append_nil _).symm,
      hevolves, ⟨hnodup.erase id, fun i hmem => hbelow i (List.mem_of_mem_erase hmem)⟩,
      fun i => by rw [callsOn_cons rfl]; rfl, ⟨fun i hmem => ?_, fun i localCalls below hsuffix => ?_⟩,
      fun i _ hnone => awaits_cons (fun hawait => hawait) hnone,
      fun i => by rw [callsOn_cons rfl]; rfl, fun _ _ _ => by simp⟩
    · obtain heq | hmem := List.mem_cons.mp hmem
      · obtain rfl := BusFrame.removing.inj heq
        exact ⟨hnodup.not_mem_erase, hbelow i hfound⟩
      · exact (hframes.evolves hevolves).removing i hmem
    · obtain heq | hsuffix := List.suffix_cons_iff.mp hsuffix
      · cases (List.cons.inj heq).1
      · exact (hframes.evolves hevolves).waiting i localCalls below hsuffix
  · next hgone =>
    split
    · next hissued =>
      obtain ⟨hsilent, hquiet⟩ := hsettled hgone hissued
      refine h.unsubscribed hold ⟨hgone, hissued.2⟩ hsilent fun t' ht => ?_
      rw [List.getD_eq_getElem?_getD]
      cases hother : s.threads[t']? with
      | none => rfl
      | some frames => exact hquiet frames (List.mem_eraseIdx_iff_getElem?.mpr ⟨t', ht, hother⟩)
    · exact h

theorem Sound.disableEntry (h : Sound s) {id : Nat} {below : List BusFrame}
    (hold : s.threads[t]? = some (.removing id :: below)) : Sound (s.disableEntry t id below) := by
  have hframes := h.frames _ (List.mem_of_getElem? hold)
  have hevolves : s.Evolves (s.disableEntry t id below) := by
    refine ⟨fun i herased => herased, fun i hdisabled => ?_⟩
    show (Function.update s.entries id _ i).enabled = false
    rw [Function.update_apply]
    split
    · rfl
    · exact hdisabled
  have hframes' := hframes.tail.evolves hevolves
  refine h.goes_quietly hold ⟨rfl,
    (List.append_nil _).symm, hevolves, h.handlers, fun i => ?_,
    ⟨fun i hmem => ?_, fun i localCalls rest hsuffix => ?_⟩,
    fun i _ hnone => awaits_cons (fun hawait => hawait)
      fun frame hmem => hnone frame (List.mem_cons_of_mem _ hmem),
    fun i => by rw [callsOn_cons rfl, callsOn_cons rfl]; rfl, fun _ _ _ => by simp⟩
  · show (Function.update s.entries id _ i).activeCalls + _ = _
    rw [callsOn_cons rfl, callsOn_cons rfl, Function.update_apply]
    split
    · next hi => rw [hi]
    · rfl
  · obtain heq | hmem := List.mem_cons.mp hmem
    · cases heq
    · exact hframes'.removing i hmem
  · obtain heq | hsuffix := List.suffix_cons_iff.mp hsuffix
    · obtain ⟨hframe, rfl⟩ := List.cons.inj heq
      obtain ⟨rfl, rfl⟩ := BusFrame.waiting.inj hframe
      refine ⟨rfl, hframes.removing i List.mem_cons_self, ?_⟩
      show (Function.update s.entries i _ i).enabled = false
      rw [Function.update_self]
    · exact hframes'.waiting i localCalls rest hsuffix

theorem Sound.wake (h : Sound s) {id localCalls : Nat} {below : List BusFrame}
    (hold : s.threads[t]? = some (.waiting id localCalls :: below))
    (hquiet : (s.entries id).activeCalls ≤ localCalls) :
    Sound ((s.setFrames t below).note (.unsubscribed t id)) := by
  have hframes := h.frames _ (List.mem_of_getElem? hold)
  obtain ⟨rfl, herased, hdisabled⟩ := hframes.waiting id localCalls below (List.suffix_refl _)
  have hleft : Sound (s.setFrames t below) := by
    refine h.setFrames hold (fun i => (callsOn_cons rfl).symm) hframes.tail ?_
    exact fun i _ hnone frame hmem => hnone frame (List.mem_cons_of_mem _ hmem)
  have hlt := (List.getElem?_eq_some_iff.mp hold).1
  refine hleft.unsubscribed (List.getElem?_set_self hlt) herased (.inl hdisabled) fun t' ht => ?_
  have hother : (s.threads.set t below).getD t' [] = s.threads.getD t' [] := by
    rw [List.getD_eq_getElem?_getD, List.getElem?_set_ne (Ne.symm ht), ← List.getD_eq_getElem?_getD]
  show callsOn id ((s.threads.set t below).getD t' []) = 0
  rw [hother, List.getD_eq_getElem?_getD]
  -- the wait is over when the calls of this thread are all there are
  have hall : (s.threads.map (callsOn id)).sum ≤ callsOn id (.waiting id (callsOn id below) :: below) := by
    rw [← h.active id, callsOn_cons rfl]
    exact hquiet
  cases hget : s.threads[t']? with
  | none => rfl
  | some frames => exact List.eq_zero_of_sum_map_le (callsOn id) hold hall hget ht

/-- **Step lemma**. -/
theorem Sound.step {a : BusAction} (h : Sound s) (hsettled : s.Settled a)
    (hold : s.threads[a.thread]? = some old) (hstep : s.stepThread a.thread old a = some s') :
    Sound s' := by
  have hframes := h.frames old (List.mem_of_getElem? hold)
  cases a with
  | subscribe t =>
      simp only [stepThread, Option.ite_none_right_eq_some, Option.some.injEq] at hstep
      obtain ⟨-, rfl⟩ := hstep
      exact h.subscribe hold
  | publish t event now =>
      simp only [stepThread, Option.ite_none_right_eq_some, Option.some.injEq] at hstep
      obtain ⟨-, rfl⟩ := hstep
      have hstamped : Sound { s with nextSequence := s.nextSequence + 1 } :=
        ⟨h.handlers, h.active, h.notes, fun frames hmem => ⟨(h.frames frames hmem).removing,
          (h.frames frames hmem).waiting⟩, h.removed, h.barrier⟩
      exact hstamped.setFrames hold (fun i => callsOn_cons rfl)
        (FramesOk.cons ⟨hframes.removing, hframes.waiting⟩ nofun nofun)
        fun i _ => awaits_cons fun hawait => hawait
  | deliver t event =>
      simp only [stepThread, Option.ite_none_right_eq_some, Option.some.injEq] at hstep
      obtain ⟨-, rfl⟩ := hstep
      exact h.setFrames hold (fun i => callsOn_cons rfl) (hframes.cons nofun nofun)
        fun i _ => awaits_cons fun hawait => hawait
  | collect t order =>
      simp only [stepThread] at hstep
      split at hstep
      · next event below =>
        simp only [Option.ite_none_right_eq_some, Option.some.injEq] at hstep
        obtain ⟨horder, rfl⟩ := hstep
        refine h.setFrames hold (fun i => by rw [callsOn_cons rfl, callsOn_cons rfl])
          (hframes.tail.cons nofun nofun) fun i herased hnone => ?_
        -- an erased subscription is in no later snapshot
        exact awaits_cons (fun hmem => herased.1 (horder.mem_iff.mp hmem))
          fun frame hmem => hnone frame (List.mem_cons_of_mem _ hmem)
      · cases hstep
  | call t =>
      simp only [stepThread] at hstep
      split at hstep
      · obtain rfl := Option.some.inj hstep
        exact h.callNext hold
      · cases hstep
  | endCall t =>
      simp only [stepThread] at hstep
      split at hstep
      · obtain rfl := Option.some.inj hstep
        exact h.finishCall hold
      · cases hstep
  | endDelivery t =>
      simp only [stepThread] at hstep
      split at hstep
      · obtain rfl := Option.some.inj hstep
        exact h.setFrames hold (fun i => (callsOn_cons rfl).symm) hframes.tail
          fun i _ hnone frame hmem => hnone frame (List.mem_cons_of_mem _ hmem)
      · cases hstep
  | unsubscribe t id =>
      simp only [stepThread, Option.ite_none_right_eq_some, Option.some.injEq] at hstep
      obtain ⟨-, rfl⟩ := hstep
      exact h.lookupAndErase hold hsettled
  | disable t =>
      simp only [stepThread] at hstep
      split at hstep
      · obtain rfl := Option.some.inj hstep
        exact h.disableEntry hold
      · cases hstep
  | wake t =>
      simp only [stepThread] at hstep
      split at hstep
      · simp only [Option.ite_none_right_eq_some, Option.some.injEq] at hstep
        obtain ⟨hquiet, rfl⟩ := hstep
        exact h.wake hold hquiet
      · cases hstep

/-! ## every run -/

/-- A run in which no call of `unsubscribe` passes by a removal under way. -/
theorem sound_of_reachable {threads : Nat}
    (hs : ((eventBus threads).guarded Settled).Reachable s) : Sound s := by
  refine Machine.Reachable.rec_inv (m := (eventBus threads).guarded Settled) (P := Sound)
    (Sound.init threads) ?_ hs
  intro s a s' _ h hstep
  obtain ⟨hsettled, hstep⟩ := Machine.guarded_step.mp hstep
  have hbind : (s.threads[a.thread]?.bind fun frames => s.stepThread a.thread frames a) = some s' :=
    hstep
  obtain ⟨frames, hold, hthread⟩ := Option.bind_eq_some_iff.mp hbind
  exact h.step hsettled hold hthread

/-- **Unsubscription is a barrier** in every run whose calls of `unsubscribe`
either remove the subscription themselves or come after its handler has become
quiet. -/
theorem unsubscribe_barrier (threads : Nat)
    (hs : ((eventBus threads).guarded Settled).Reachable s) : Barrier s.log :=
  (sound_of_reachable hs).barrier

/-- A subscription is removed while its handler runs; another removal comes after. -/
def removedOnce : List BusAction :=
  [.subscribe 0, .publish 1 { type := .turnStarted } 1, .collect 1 [1], .call 1, .unsubscribe 0 1,
    .disable 0, .endCall 1, .wake 0, .unsubscribe 2 1, .endDelivery 1]

theorem unsubscribe_barrier_once :
    ∃ s, ((eventBus 3).guarded Settled).run ((eventBus 3).guarded Settled).init removedOnce = some s ∧
      s.log = [.began 1 1, .ended 1 1, .unsubscribed 0 1, .unsubscribed 2 1] ∧ Barrier s.log :=
  ⟨_, rfl, rfl, unsubscribe_barrier 3 ⟨removedOnce, rfl⟩⟩

/-- Another thread removes the subscription during the wait of the first removal. -/
def removedTwice : List BusAction :=
  [.subscribe 0, .publish 1 { type := .turnStarted } 1, .collect 1 [1], .call 1, .unsubscribe 0 1,
    .disable 0, .unsubscribe 2 1]

/-- The second removal returns while the handler runs. -/
theorem unsubscribe_not_barrier :
    ∃ s, (eventBus 3).run (eventBus 3).init removedTwice = some s ∧
      s.log = [.began 1 1, .unsubscribed 2 1] ∧ ¬ Barrier s.log := by
  refine ⟨_, rfl, rfl, fun h => ?_⟩
  obtain ⟨hquiet, -⟩ := h [.began 1 1] 2 1 [] rfl
  exact absurd (hquiet 1 (by decide)) (by decide)

end EventBus

end ByteTurn

import ByteTurn.RuntimeManager.Incarnation
import ByteTurn.Lib.Lists

/-!
# ByteTurn.RuntimeManager.Placement

Where the entries of a manager are.

`EntriesPlaced` relates the entries to the five places that refer to them: the queue
(`Queued`), the startup workers (`WorkerHeld`), the registry and the supervisor
(`Scanned`) and the admitted operations (`Leased`); and it says that each entry
lives by `Incarnation.machine`.  Every step of the manager keeps it, so the
guards of that machine are met wherever the program does not check them.
-/

namespace ByteTurn

open Incarnation

/-! ## lists of entries -/

section Modify

variable {α : Type} {entries : List α} {ref j : Nat} {f : α → α} {e : α}

theorem modify_eq (he : entries[ref]? = some e) : (entries.modify ref f)[ref]? = some (f e) := by
  rw [List.getElem?_modify, he]
  simp

theorem modify_ne (hj : j ≠ ref) : (entries.modify ref f)[j]? = entries[j]? := by
  simp [Ne.symm hj]

theorem modify_same (hf : ∀ e, entries[ref]? = some e → f e = e) : entries.modify ref f = entries := by
  refine List.ext_getElem? fun j => ?_
  by_cases hj : j = ref
  · subst hj
    cases he : entries[j]? with
    | none => simpa [List.getElem?_modify] using he
    | some e => rw [modify_eq he, hf e he]
  · exact modify_ne hj

theorem modify_id : entries.modify ref id = entries := modify_same fun _ _ => rfl

/-- An entry of a modified list is the modified one or another one. -/
theorem modify_cases (h : (entries.modify ref f)[j]? = some e) :
    (j ≠ ref ∧ entries[j]? = some e) ∨ (j = ref ∧ ∃ d, entries[ref]? = some d ∧ e = f d) := by
  by_cases hj : j = ref
  · subst hj
    cases hd : entries[j]? with
    | none => rw [List.getElem?_modify, hd] at h; contradiction
    | some d =>
        rw [modify_eq hd] at h
        exact .inr ⟨rfl, d, rfl, (Option.some.inj h).symm⟩
  · exact .inl ⟨hj, by rwa [modify_ne hj] at h⟩

/-- An entry of the list before is still there, modified or not. -/
theorem modify_of (h : entries[j]? = some e) :
    (entries.modify ref f)[j]? = some (if j = ref then f e else e) := by
  by_cases hj : j = ref
  · subst hj; rw [modify_eq h, if_pos rfl]
  · rw [modify_ne hj, if_neg hj, h]

/-- An entry of an extended list is the new one or an old one. -/
theorem append_cases {d : α} (h : (entries ++ [e])[j]? = some d) :
    entries[j]? = some d ∨ (j = entries.length ∧ d = e) := by
  by_cases hj : j < entries.length
  · exact .inl (by rwa [List.getElem?_append_left hj] at h)
  · rw [List.getElem?_append_right (by omega), List.getElem?_singleton] at h
    split at h <;> try contradiction
    next hzero => exact .inr ⟨by omega, (Option.some.inj h).symm⟩

theorem append_of {d : α} (h : entries[j]? = some d) : (entries ++ [e])[j]? = some d := by
  rw [List.getElem?_append_left (List.getElem?_eq_some_iff.mp h).1, h]

end Modify

/-! ## the five places -/

/-- The queue holds exactly the reserved entries, each of them once. -/
structure Queued (entries : List Entry) (pending : List Nat) : Prop where
  nodup : pending.Nodup
  mem_iff : ∀ ref, ref ∈ pending ↔ ∃ e, entries[ref]? = some e ∧ e.phase = .reserved

/-- What a startup worker may rely on at its place. -/
structure StartupOk (place : StartupPlace) (e : Entry) : Prop where
  notDone : e.startupDone = false
  taken : e.phase ≠ .reserved
  session : match place with
    | .inFactory _ => e.session.isSome = false
    | .storing _ session _ => e.session.isSome = false ∧ session.state = {}
    | .calling _ | .starting _ => e.session.isSome = true
    | .concluding _ failed =>
        failed = true ∨ e.stopRequested = true ∨ e.session.isSome = true
    | _ => True

/-- Every startup worker holds an entry of its own. -/
structure WorkerHeld (entries : List Entry) (workers : List StartupPlace) : Prop where
  holds : ∀ (w : Nat) (place : StartupPlace) (ref : Nat), workers[w]? = some place →
    place.ref = some ref → ∃ e, entries[ref]? = some e ∧ StartupOk place e
  single : ∀ (w w' : Nat) (place place' : StartupPlace) (ref : Nat), workers[w]? = some place →
    workers[w']? = some place' → place.ref = some ref → place'.ref = some ref → w = w'

/-- The session has been moved out of the entry. -/
def VisitStage.late : VisitStage → Bool
  | .destroying _ _ | .releasing _ | .finalizing => true
  | _ => false

/-- The entry has been told to stop. -/
def VisitStage.decided : VisitStage → Bool
  | .flushing | .checking => true
  | _ => false

/-- What the supervisor may rely on at each stage. -/
structure StageOk (stage : VisitStage) (e : Entry) : Prop where
  done : e.startupDone = true
  early : stage.late = false → e.phase ≠ .retiring
  decided : stage.decided = true → e.stopRequested = true
  late : stage.late = true → e.phase = .retiring ∧ e.retired = []

/-- The entries the supervisor has still to look at. -/
def SupervisorPlace.rest : SupervisorPlace → List Nat
  | .scanning rest | .visiting _ _ rest => rest
  | _ => []

/-- The entries of the present scan that are not yet behind the supervisor. -/
def SupervisorPlace.scan : SupervisorPlace → List Nat
  | .scanning rest => rest
  | .visiting ref _ rest => ref :: rest
  | _ => []

/-- The registry and the supervisor's scan. -/
structure Scanned (entries : List Entry) (registry : Table Bytes Nat)
    (supervisor : SupervisorPlace) : Prop where
  registered : ∀ (ref : Nat) (e : Entry), entries[ref]? = some e →
    (registry.lookup e.handle.id = some ref ↔ e.retired = [])
  keyed : ∀ (id : Bytes) (ref : Nat), registry.lookup id = some ref →
    ∃ e, entries[ref]? = some e ∧ e.handle.id = id
  late : ∀ (ref : Nat) (e : Entry), entries[ref]? = some e → e.phase = .retiring →
    e.retired = [] → ∃ stage rest, supervisor = .visiting ref stage rest ∧ stage.late = true
  visiting : ∀ (ref : Nat) (stage : VisitStage) (rest : List Nat),
    supervisor = .visiting ref stage rest → ∃ e, entries[ref]? = some e ∧ StageOk stage e
  rest : ∀ ref ∈ supervisor.rest, ∃ e, entries[ref]? = some e ∧ e.phase ≠ .retiring
  nodup : supervisor.scan.Nodup

/-- The count of an entry is the number of operations admitted on it. -/
structure Leased (entries : List Entry) (operations : List Operation) : Prop where
  count : ∀ (ref : Nat) (e : Entry), entries[ref]? = some e →
    e.operations = operations.countP (·.ref = ref)
  known : ∀ op ∈ operations, op.ref < entries.length

/-- Every entry lives by its machine, also since the entries were `past`. -/
structure AllLive (past entries : List Entry) : Prop where
  grown : past.length ≤ entries.length
  each : ∀ (ref : Nat) (e : Entry), entries[ref]? = some e → Lives past[ref]? e

/-! ## one entry changes -/

section Entries

variable {past entries : List Entry} {pending : List Nat} {workers : List StartupPlace}
  {registry : Table Bytes Nat} {supervisor : SupervisorPlace} {operations : List Operation}
  {ref : Nat} {f : Entry → Entry}

theorem AllLive.modify (h : AllLive past entries)
    (hf : ∀ e, entries[ref]? = some e → Lives past[ref]? e → Lives past[ref]? (f e)) :
    AllLive past (entries.modify ref f) := by
  refine ⟨by rw [List.length_modify]; exact h.grown, fun j e he => ?_⟩
  cases modify_cases he with
  | inl hother => exact h.each j e hother.2
  | inr hsame =>
      obtain ⟨rfl, d, hd, rfl⟩ := hsame
      exact hf d hd (h.each j d hd)

/-- From the present moment on. -/
theorem AllLive.now (h : AllLive past entries) : AllLive entries entries :=
  ⟨Nat.le_refl _, fun ref e he => by rw [he]; exact (h.each ref e he).now⟩

theorem Queued.modify (h : Queued entries pending)
    (hf : ∀ e, entries[ref]? = some e → ((f e).phase = .reserved ↔ e.phase = .reserved)) :
    Queued (entries.modify ref f) pending := by
  refine ⟨h.nodup, fun j => (h.mem_iff j).trans ⟨?_, ?_⟩⟩
  · rintro ⟨e, he, hp⟩
    refine ⟨_, modify_of he, ?_⟩
    split
    · next hj => subst hj; exact (hf e he).mpr hp
    · exact hp
  · rintro ⟨e, he, hp⟩
    cases modify_cases he with
    | inl hother => exact ⟨e, hother.2, hp⟩
    | inr hsame =>
        obtain ⟨rfl, d, hd, rfl⟩ := hsame
        exact ⟨d, hd, (hf d hd).mp hp⟩

/-- A reserved entry leaves the queue and stops being reserved. -/
theorem Queued.remove (h : Queued entries pending)
    (hf : ∀ e, entries[ref]? = some e → (f e).phase ≠ .reserved) :
    Queued (entries.modify ref f) (pending.erase ref) := by
  refine ⟨h.nodup.erase ref, fun j => ?_⟩
  rw [h.nodup.mem_erase_iff, h.mem_iff]
  constructor
  · rintro ⟨hj, e, he, hp⟩
    exact ⟨e, by rwa [modify_ne hj], hp⟩
  · rintro ⟨e, he, hp⟩
    cases modify_cases he with
    | inl hother => exact ⟨hother.1, e, hother.2, hp⟩
    | inr hsame =>
        obtain ⟨rfl, d, hd, rfl⟩ := hsame
        exact absurd hp (hf d hd)

theorem WorkerHeld.modify (h : WorkerHeld entries workers)
    (hf : ∀ e place, entries[ref]? = some e → StartupOk place e → StartupOk place (f e)) :
    WorkerHeld (entries.modify ref f) workers := by
  refine ⟨fun w place j hw hj => ?_, h.single⟩
  obtain ⟨e, he, hok⟩ := h.holds w place j hw hj
  refine ⟨_, modify_of he, ?_⟩
  split
  · next hjr => subst hjr; exact hf e place he hok
  · exact hok

/-- The worker that holds the entry changes it and moves on. -/
theorem WorkerHeld.move {w : Nat} {old new : StartupPlace} (h : WorkerHeld entries workers)
    (hw : workers[w]? = some old)
    (hother : ∀ w' place', w' ≠ w → workers[w']? = some place' → place'.ref ≠ some ref)
    (hnew : ∀ j, new.ref = some j → j = ref ∧
      ∃ e, entries[ref]? = some e ∧ StartupOk new (f e)) :
    WorkerHeld (entries.modify ref f) (workers.set w new) := by
  have hlt : w < workers.length := (List.getElem?_eq_some_iff.mp hw).1
  have hcases : ∀ w' place', (workers.set w new)[w']? = some place' →
      (w' = w ∧ place' = new) ∨ (w' ≠ w ∧ workers[w']? = some place') := by
    intro w' place' h'
    by_cases heq : w' = w
    · subst heq
      rw [List.getElem?_set_self hlt] at h'
      exact .inl ⟨rfl, (Option.some.inj h').symm⟩
    · rw [List.getElem?_set_ne fun h => heq h.symm] at h'
      exact .inr ⟨heq, h'⟩
  constructor
  · intro w' place' j hw' hj
    cases hcases w' place' hw' with
    | inl hsame =>
        obtain ⟨rfl, rfl⟩ := hsame
        obtain ⟨rfl, e, he, hok⟩ := hnew j hj
        exact ⟨_, modify_eq he, hok⟩
    | inr hne =>
        obtain ⟨e, he, hok⟩ := h.holds w' place' j hne.2 hj
        have hjr : j ≠ ref := fun heq => hother w' place' hne.1 hne.2 (heq ▸ hj)
        exact ⟨e, by rwa [modify_ne hjr], hok⟩
  · intro w₁ w₂ p₁ p₂ j h₁ h₂ hj₁ hj₂
    cases hcases w₁ p₁ h₁ with
    | inl hsame₁ =>
        obtain ⟨rfl, rfl⟩ := hsame₁
        cases hcases w₂ p₂ h₂ with
        | inl hsame₂ => exact hsame₂.1.symm
        | inr hne₂ => exact absurd ((hnew j hj₁).1 ▸ hj₂) (hother w₂ p₂ hne₂.1 hne₂.2)
    | inr hne₁ =>
        cases hcases w₂ p₂ h₂ with
        | inl hsame₂ =>
            obtain ⟨rfl, rfl⟩ := hsame₂
            exact absurd ((hnew j hj₂).1 ▸ hj₁) (hother w₁ p₁ hne₁.1 hne₁.2)
        | inr hne₂ => exact h.single w₁ w₂ p₁ p₂ j hne₁.2 hne₂.2 hj₁ hj₂

theorem Scanned.modify (h : Scanned entries registry supervisor)
    (hf : ∀ e, entries[ref]? = some e → (f e).handle = e.handle ∧ (f e).retired = e.retired ∧
      ((f e).phase = .retiring ↔ e.phase = .retiring))
    (hstage : ∀ e stage, entries[ref]? = some e → StageOk stage e → StageOk stage (f e)) :
    Scanned (entries.modify ref f) registry supervisor := by
  constructor
  · intro j e he
    cases modify_cases he with
    | inl hother => exact h.registered j e hother.2
    | inr hsame =>
        obtain ⟨rfl, d, hd, rfl⟩ := hsame
        rw [(hf d hd).1, (hf d hd).2.1]
        exact h.registered j d hd
  · intro id j hj
    obtain ⟨e, he, hid⟩ := h.keyed id j hj
    refine ⟨_, modify_of he, ?_⟩
    split
    · next hjr => subst hjr; rwa [(hf e he).1]
    · exact hid
  · intro j e he hp hr
    cases modify_cases he with
    | inl hother => exact h.late j e hother.2 hp hr
    | inr hsame =>
        obtain ⟨rfl, d, hd, rfl⟩ := hsame
        exact h.late j d hd ((hf d hd).2.2.mp hp) (by rwa [(hf d hd).2.1] at hr)
  · intro j stage rest hsup
    obtain ⟨e, he, hok⟩ := h.visiting j stage rest hsup
    refine ⟨_, modify_of he, ?_⟩
    split
    · next hjr => subst hjr; exact hstage e stage he hok
    · exact hok
  · intro j hj
    obtain ⟨e, he, hp⟩ := h.rest j hj
    refine ⟨_, modify_of he, ?_⟩
    split
    · next hjr => subst hjr; exact fun hret => hp ((hf e he).2.2.mp hret)
    · exact hp
  · exact h.nodup

theorem Leased.modify (h : Leased entries operations)
    (hf : ∀ e, entries[ref]? = some e → (f e).operations = e.operations) :
    Leased (entries.modify ref f) operations := by
  refine ⟨fun j e he => ?_, fun op hop => by simpa using h.known op hop⟩
  cases modify_cases he with
  | inl hother => exact h.count j e hother.2
  | inr hsame =>
      obtain ⟨rfl, d, hd, rfl⟩ := hsame
      rw [hf d hd]
      exact h.count j d hd

/-! ## a new entry -/

theorem AllLive.append {e : Entry} (h : AllLive past entries) (he : Lives none e) :
    AllLive past (entries ++ [e]) := by
  have hgrown := h.grown
  refine ⟨by rw [List.length_append]; omega, fun j d hd => ?_⟩
  cases append_cases hd with
  | inl hold => exact h.each j d hold
  | inr hnew =>
      obtain ⟨rfl, rfl⟩ := hnew
      rwa [List.getElem?_eq_none hgrown]

theorem Queued.append {e : Entry} (h : Queued entries pending) (he : e.phase = .reserved) :
    Queued (entries ++ [e]) (pending ++ [entries.length]) := by
  constructor
  · rw [List.nodup_append]
    refine ⟨h.nodup, List.nodup_singleton _, fun j hj k hk => ?_⟩
    rw [List.mem_singleton.mp hk]
    obtain ⟨d, hd, -⟩ := (h.mem_iff j).mp hj
    have hlt := (List.getElem?_eq_some_iff.mp hd).1
    omega
  · intro j
    rw [List.mem_append, List.mem_singleton, h.mem_iff]
    constructor
    · rintro (⟨d, hd, hp⟩ | rfl)
      · exact ⟨d, append_of hd, hp⟩
      · exact ⟨e, by simp, he⟩
    · rintro ⟨d, hd, hp⟩
      cases append_cases hd with
      | inl hold => exact .inl ⟨d, hold, hp⟩
      | inr hnew => exact .inr hnew.1

theorem WorkerHeld.append (h : WorkerHeld entries workers) (e : Entry) : WorkerHeld (entries ++ [e]) workers := by
  refine ⟨fun w place j hw hj => ?_, h.single⟩
  obtain ⟨d, hd, hok⟩ := h.holds w place j hw hj
  exact ⟨d, append_of hd, hok⟩

theorem Scanned.append {e : Entry} (h : Scanned entries registry supervisor)
    (hfree : registry.lookup e.handle.id = none) (hphase : e.phase ≠ .retiring)
    (hretired : e.retired = []) :
    Scanned (entries ++ [e]) (registry.insert e.handle.id entries.length) supervisor := by
  constructor
  · intro j d hd
    rw [Table.lookup_insert']
    cases append_cases hd with
    | inl hold =>
        have hlt := (List.getElem?_eq_some_iff.mp hold).1
        rw [← h.registered j d hold]
        split
        · next hid =>
          rw [hid, hfree, Option.some.injEq]
          exact iff_of_false (by omega) nofun
        · exact Iff.rfl
    | inr hnew =>
        obtain ⟨rfl, rfl⟩ := hnew
        simp [hretired]
  · intro id j hj
    rw [Table.lookup_insert'] at hj
    split at hj
    · next hid =>
      obtain rfl := Option.some.inj hj
      exact ⟨e, by simp, hid.symm⟩
    · obtain ⟨d, hd, hid⟩ := h.keyed id j hj
      exact ⟨d, append_of hd, hid⟩
  · intro j d hd hp hr
    cases append_cases hd with
    | inl hold => exact h.late j d hold hp hr
    | inr hnew => exact absurd (hnew.2 ▸ hp) hphase
  · intro j stage rest hsup
    obtain ⟨d, hd, hok⟩ := h.visiting j stage rest hsup
    exact ⟨d, append_of hd, hok⟩
  · intro j hj
    obtain ⟨d, hd, hp⟩ := h.rest j hj
    exact ⟨d, append_of hd, hp⟩
  · exact h.nodup

theorem Leased.append {e : Entry} (h : Leased entries operations) (he : e.operations = 0) :
    Leased (entries ++ [e]) operations := by
  constructor
  · intro j d hd
    cases append_cases hd with
    | inl hold => exact h.count j d hold
    | inr hnew =>
        obtain ⟨rfl, rfl⟩ := hnew
        rw [he, eq_comm, List.countP_eq_zero]
        intro op hop
        have hknown := h.known op hop
        simp only [decide_eq_true_eq]
        omega
  · intro op hop
    have hknown := h.known op hop
    rw [List.length_append]
    omega

/-! ## operations -/

theorem Leased.lease {e : Entry} {op : Operation} (h : Leased entries operations)
    (he : entries[ref]? = some e) (hop : op.ref = ref) :
    Leased (entries.modify ref fun e => { e with operations := e.operations + 1 })
      (operations ++ [op]) := by
  constructor
  · intro j d hd
    rw [List.countP_append, List.countP_singleton]
    cases modify_cases hd with
    | inl hother =>
        rw [h.count j d hother.2, if_neg (by simpa [hop] using fun hj => hother.1 hj.symm)]
        rfl
    | inr hsame =>
        obtain ⟨rfl, c, hc, rfl⟩ := hsame
        simp only [h.count j c hc, hop, decide_true, if_true]
  · intro op' hop'
    rw [List.length_modify]
    cases List.mem_append.mp hop' with
    | inl hold => exact h.known op' hold
    | inr hnew =>
        rw [List.mem_singleton.mp hnew, hop]
        exact (List.getElem?_eq_some_iff.mp he).1

theorem Leased.finish {i : Nat} {op : Operation} (h : Leased entries operations)
    (hop : operations[i]? = some op) :
    Leased (entries.modify op.ref fun e => { e with operations := e.operations - 1 })
      (operations.eraseIdx i) := by
  constructor
  · intro j d hd
    have herase := List.countP_eraseIdx_add (fun o => decide (o.ref = j)) hop
    cases modify_cases hd with
    | inl hother =>
        rw [if_neg (by simpa using fun hj => hother.1 hj.symm)] at herase
        rw [h.count j d hother.2]
        exact herase.symm
    | inr hsame =>
        obtain ⟨rfl, c, hc, rfl⟩ := hsame
        rw [if_pos (by simp)] at herase
        simp only [h.count op.ref c hc]
        omega
  · intro op' hop'
    rw [List.length_modify]
    exact h.known op' (List.mem_of_mem_eraseIdx hop')

theorem Leased.setStage {i : Nat} (h : Leased entries operations) (stage : OperationStage) :
    Leased entries (operations.modify i fun op => { op with stage := stage }) := by
  constructor
  · intro j e he
    rw [h.count j e he, eq_comm]
    exact List.countP_modify (fun op : Operation => decide (op.ref = j))
      (fun op => { op with stage := stage }) (fun _ => rfl) _ _
  · intro op hop
    obtain ⟨k, hk⟩ := List.mem_iff_getElem?.mp hop
    rw [List.getElem?_modify] at hk
    obtain ⟨old, hold, rfl⟩ := Option.map_eq_some_iff.mp hk
    have hknown := h.known old (List.mem_of_getElem? hold)
    split <;> exact hknown

/-! ## the supervisor moves -/

/-- Between two stages at which no entry is being taken apart. -/
theorem Scanned.advance {next : SupervisorPlace} (h : Scanned entries registry supervisor)
    (hold : ∀ ref stage rest, supervisor = .visiting ref stage rest → stage.late = false)
    (hrest : next.rest ⊆ supervisor.rest) (hscan : next.scan.Sublist supervisor.scan)
    (hvisit : ∀ ref stage rest, next = .visiting ref stage rest →
      ∃ e, entries[ref]? = some e ∧ StageOk stage e) :
    Scanned entries registry next where
  registered := h.registered
  keyed := h.keyed
  late := fun j e he hp hr => by
    obtain ⟨stage, rest, hsup, hlate⟩ := h.late j e he hp hr
    rw [hold j stage rest hsup] at hlate
    contradiction
  visiting := hvisit
  rest := fun j hj => h.rest j (hrest hj)
  nodup := h.nodup.sublist hscan

/-- Between two stages of taking an entry apart. -/
theorem Scanned.dismantle {stage next : VisitStage} {rest : List Nat}
    (h : Scanned entries registry (.visiting ref stage rest)) (hlate : stage.late = true)
    (hnext : next.late = true) (hdecided : next.decided = false) :
    Scanned entries registry (.visiting ref next rest) where
  registered := h.registered
  keyed := h.keyed
  late := fun j e he hp hr => by
    obtain ⟨stage', rest', hsup, -⟩ := h.late j e he hp hr
    cases hsup
    exact ⟨next, rest, rfl, hnext⟩
  visiting := fun j stage' rest' hsup => by
    cases hsup
    obtain ⟨e, he, hok⟩ := h.visiting ref stage rest rfl
    exact ⟨e, he, hok.done, by simp [hnext], by simp [hdecided], fun _ => hok.late hlate⟩
  rest := h.rest
  nodup := h.nodup

theorem Scanned.not_in_rest {stage : VisitStage} {rest : List Nat}
    (h : Scanned entries registry (.visiting ref stage rest)) : ref ∉ rest ∧ rest.Nodup := by
  have hnodup := h.nodup
  rwa [SupervisorPlace.scan, List.nodup_cons] at hnodup

/-- The supervisor begins to take an entry apart. -/
theorem Scanned.release {stage next : VisitStage} {rest : List Nat} {e : Entry}
    (h : Scanned entries registry (.visiting ref stage rest)) (hearly : stage.late = false)
    (he : entries[ref]? = some e) (hdone : e.startupDone = true) (hretired : e.retired = [])
    (hnext : next.late = true) (hdecided : next.decided = false) :
    Scanned (entries.modify ref Entry.release) registry (.visiting ref next rest) where
  registered := fun j c hc => by
    cases modify_cases hc with
    | inl hother => exact h.registered j c hother.2
    | inr hentry =>
        obtain ⟨rfl, b, hb, rfl⟩ := hentry
        exact h.registered j b hb
  keyed := fun id j hj => by
    obtain ⟨c, hc, hid⟩ := h.keyed id j hj
    refine ⟨_, modify_of hc, ?_⟩
    split <;> exact hid
  late := fun j c hc hp hr => by
    cases modify_cases hc with
    | inl hother =>
        obtain ⟨stage', rest', hvisit, hlate⟩ := h.late j c hother.2 hp hr
        cases hvisit
        rw [hearly] at hlate
        contradiction
    | inr hentry => exact ⟨next, rest, by rw [hentry.1], hnext⟩
  visiting := fun j stage' rest' hvisit => by
    cases hvisit
    exact ⟨_, modify_eq he, hdone, by simp [hnext], by simp [hdecided], fun _ => ⟨rfl, hretired⟩⟩
  rest := fun j hj => by
    obtain ⟨c, hc, hp⟩ := h.rest j hj
    have hne : j ≠ ref := fun heq => h.not_in_rest.1 (heq ▸ hj)
    exact ⟨c, (modify_ne hne).trans hc, hp⟩
  nodup := h.nodup

/-- The supervisor erases an entry it has taken apart. -/
theorem Scanned.retire {stage : VisitStage} {rest : List Nat} {e : Entry}
    (h : Scanned entries registry (.visiting ref stage rest)) (hlate : stage.late = true)
    (he : entries[ref]? = some e) :
    Scanned (entries.modify ref Entry.finish) (registry.erase e.handle.id) (.scanning rest) := by
  obtain ⟨d, hd, hok⟩ := h.visiting ref stage rest rfl
  obtain rfl := Option.some.inj (hd.symm.trans he)
  have hslot := (h.registered ref d he).mpr (hok.late hlate).2
  exact {
    registered := fun j c hc => by
      rw [Table.lookup_erase']
      cases modify_cases hc with
      | inl hother =>
          rw [← h.registered j c hother.2]
          split
          · next hid =>
            rw [hid, hslot, Option.some.injEq]
            exact iff_of_false nofun fun heq => hother.1 heq.symm
          · exact Iff.rfl
      | inr hentry =>
          obtain ⟨rfl, b, hb, rfl⟩ := hentry
          obtain rfl := Option.some.inj (hb.symm.trans he)
          simp [Entry.finish]
    keyed := fun id j hj => by
      rw [Table.lookup_erase'] at hj
      split at hj <;> try contradiction
      obtain ⟨c, hc, hid⟩ := h.keyed id j hj
      refine ⟨_, modify_of hc, ?_⟩
      split <;> exact hid
    late := fun j c hc hp hr => by
      cases modify_cases hc with
      | inl hother =>
          obtain ⟨stage', rest', hvisit, -⟩ := h.late j c hother.2 hp hr
          cases hvisit
          exact absurd rfl hother.1
      | inr hentry =>
          obtain ⟨rfl, b, hb, rfl⟩ := hentry
          simp [Entry.finish] at hr
    visiting := by simp
    rest := fun j hj => by
      obtain ⟨c, hc, hp⟩ := h.rest j hj
      have hne : j ≠ ref := fun heq => h.not_in_rest.1 (heq ▸ hj)
      exact ⟨c, (modify_ne hne).trans hc, hp⟩
    nodup := h.not_in_rest.2 }

/-- The registry lists every entry at most once, and each that is not retired. -/
theorem Scanned.registered_mem (h : Scanned entries registry supervisor) {l : List Nat}
    (hl : l = registry.entries.map (·.2)) (hj : ref ∈ l) :
    ∃ e, entries[ref]? = some e ∧ e.retired = [] := by
  subst hl
  obtain ⟨⟨id, j⟩, hmem, rfl⟩ := List.mem_map.mp hj
  have hlookup : registry.lookup id = some j := (List.mem_dlookup_iff registry.nodupKeys).mpr hmem
  obtain ⟨e, he, hid⟩ := h.keyed id j hlookup
  exact ⟨e, he, (h.registered j e he).mp (hid ▸ hlookup)⟩

theorem Scanned.registered_nodup (h : Scanned entries registry supervisor) :
    (registry.entries.map (·.2)).Nodup := by
  refine List.Nodup.map_on ?_ registry.nodupKeys.nodup
  rintro ⟨id, j⟩ hx ⟨id', j'⟩ hy hj
  obtain rfl : j = j' := hj
  obtain ⟨e, he, hid⟩ := h.keyed id j ((List.mem_dlookup_iff registry.nodupKeys).mpr hx)
  obtain ⟨e', he', hid'⟩ := h.keyed id' j ((List.mem_dlookup_iff registry.nodupKeys).mpr hy)
  obtain rfl := Option.some.inj (he.symm.trans he')
  rw [← hid, ← hid']

end Entries

end ByteTurn

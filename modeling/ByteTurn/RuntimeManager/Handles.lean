import ByteTurn.RuntimeManager.Teardown

/-!
# ByteTurn.RuntimeManager.Handles

Stale handles.

A handle is current when it is the whole identity of an entry in the registry.
No two admissions share a handle, so an entry that has left the registry takes
its handle with it, whatever becomes of its id.
-/

namespace ByteTurn

open Incarnation

variable {config : RuntimeConfig} {s t : RuntimeState} {ref j w : Nat} {e : Entry}
  {past : List Entry} {handle : SessionHandle}

/-- The identity of an entry in the registry. -/
def RuntimeState.Current (s : RuntimeState) (handle : SessionHandle) : Prop :=
  ∃ id ref e, s.registry.lookup id = some ref ∧ s.entries[ref]? = some e ∧ e.handle = handle

/-! ## identities -/

/-- Every handle carries the identity of the manager. -/
def Scoped (config : RuntimeConfig) (s : RuntimeState) : Prop :=
  ∀ handle ∈ s.entries.map (·.handle), handle.runtimeId = config.runtimeId

theorem Scoped.quiet (h : Scoped config s) (hq : Quiet s t) : Scoped config t := by
  rw [Scoped, hq.handles]
  exact h

theorem Scoped.add (h : Scoped config s) (id : Bytes) (factory : Option Nat)
    (allocationFails : Bool) : Scoped config (s.add config id factory allocationFails).1 := by
  unfold RuntimeState.add
  split
  · exact h
  · split
    · dsimp only
      split
      · exact h
      · refine Scoped.quiet ?_ publish_quiet
        intro handle hmem
        dsimp only at hmem
        rw [List.map_append, List.map_singleton, List.mem_append, List.mem_singleton] at hmem
        cases hmem with
        | inl hold => exact h handle hold
        | inr hnew => rw [hnew]
    · exact h

theorem Scoped.step {a : RuntimeAction} (h : Scoped config s)
    (hs : runtimeStep config s a = some t) : Scoped config t := by
  rcases step_quiet hs with hquiet | ⟨id, factory, allocationFails, -, rfl⟩ | hfinal
  · exact h.quiet hquiet
  · exact h.add id factory allocationFails
  · obtain ⟨ref, rest, -, -, hs⟩ := hfinal
    obtain ⟨e, -, rfl⟩ := Option.map_eq_some_iff.mp hs
    have hmodify : Quiet s (s.modifyEntry ref Entry.finish) := modifyEntry_quiet fun _ => rfl
    have hmodified := h.quiet hmodify
    exact Scoped.quiet (s := { s.modifyEntry ref Entry.finish with
      supervisor := .scanning rest
      registry := s.registry.erase e.handle.id
      counters := { s.counters with
        retired := s.counters.retired + 1
        failures := s.counters.failures + (if e.outcome.failed then 1 else 0) } })
      hmodified publish_quiet

theorem scoped_of_reachable (h : (runtimeManager config).Reachable s) : Scoped config s :=
  Machine.Reachable.rec_inv (P := Scoped config) (by simp [Scoped, runtimeManager])
    (fun _ _ _ _ hp hs => hp.step hs) h

/-- No two admissions share a handle. -/
theorem handle_injective (h : (runtimeManager config).Reachable s) {e' : Entry}
    (he : s.entries[ref]? = some e) (he' : s.entries[j]? = some e')
    (hsame : e.handle = e'.handle) : ref = j := by
  have hincreasing := (admissions_of_reachable h).increasing
  rw [List.pairwise_map, List.pairwise_iff_getElem] at hincreasing
  obtain ⟨hlt, hget⟩ := List.getElem?_eq_some_iff.mp he
  obtain ⟨hlt', hget'⟩ := List.getElem?_eq_some_iff.mp he'
  have hgeneration : e.handle.generation = e'.handle.generation := by rw [hsame]
  rcases Nat.lt_trichotomy ref j with hless | hequal | hmore
  · have := hincreasing ref j hlt hlt' hless
    rw [hget, hget'] at this
    omega
  · exact hequal
  · have := hincreasing j ref hlt' hlt hmore
    rw [hget, hget'] at this
    omega

/-! ## the identity checks -/

/-- The entry that the check of a public operation finds is the handle's own. -/
theorem matching_current (hp : EntriesPlaced past s) (hscope : Scoped config s)
    (hm : s.matching config handle = some (ref, e)) : s.Current handle := by
  obtain ⟨hlookup, he, hruntime, hgeneration⟩ := matching_some hm
  obtain ⟨d, hd, hid⟩ := hp.scanned.keyed handle.id ref hlookup
  obtain rfl := Option.some.inj (hd.symm.trans he)
  have hscoped := hscope d.handle (List.mem_map.mpr ⟨d, List.mem_of_getElem? hd, rfl⟩)
  refine ⟨handle.id, ref, d, hlookup, hd, ?_⟩
  have hsame : d.handle.runtimeId = handle.runtimeId := hscoped.trans hruntime.symm
  cases hdh : d.handle with
  | mk runtimeId id generation =>
      cases handle with
      | mk runtimeId' id' generation' =>
          rw [hdh] at hsame hid hgeneration
          simp only at hsame hid hgeneration
          rw [hsame, hid, hgeneration]

theorem matching_stale (hp : EntriesPlaced past s) (hscope : Scoped config s)
    (hstale : ¬s.Current handle) : s.matching config handle = none := by
  cases hm : s.matching config handle with
  | none => rfl
  | some found => exact absurd (matching_current hp hscope hm) hstale

/-- `remove` makes the same check as `matching`, in another form. -/
theorem remove_of_matching_none (hm : s.matching config handle = none) (reason : SessionOutcome) :
    (s.remove config handle reason).1 = s ∧
      ((s.remove config handle reason).2 = .staleHandle ∨
        (s.remove config handle reason).2 = .notFound) := by
  unfold RuntimeState.matching at hm
  unfold RuntimeState.remove
  split at hm
  · next hruntime =>
      rw [if_pos hruntime]
      exact ⟨rfl, .inl rfl⟩
  · next hruntime =>
      rw [if_neg hruntime]
      split at hm
      · exact ⟨rfl, .inr rfl⟩
      · split at hm <;> try contradiction
        next hgeneration =>
        rw [if_pos (Ne.symm hgeneration)]
        exact ⟨rfl, .inl rfl⟩

/-! ## the end of a handle -/

namespace Incarnation

/-- A promise that has been set stays set. -/
theorem step_retired {e' : Entry} {a : Label} (hs : step e a = some e') (hset : e.retired ≠ []) :
    e'.retired ≠ [] := by
  cases a <;> simp only [step] at hs
  case stop reason =>
    split at hs <;> try contradiction
    obtain rfl := Option.some.inj hs
    rwa [stop_retired]
  case conclude =>
    split at hs <;> try contradiction
    obtain rfl := Option.some.inj hs
    rwa [(conclude_same e).2.1]
  case session action =>
    obtain ⟨next, -, rfl⟩ := Option.map_eq_some_iff.mp hs
    exact hset
  case finish =>
    split at hs <;> try contradiction
    obtain rfl := Option.some.inj hs
    simp [Entry.finish]
  all_goals
    split at hs <;> try contradiction
    obtain rfl := Option.some.inj hs
    exact hset

theorem leads_retired {e' : Entry} {factory : Option Nat}
    (hr : (machine handle factory).Reachable e) (h : (machine handle factory).Leads e e')
    (hset : e.retired ≠ []) : e'.retired ≠ [] :=
  Machine.Leads.rec_stable (P := fun e => e.retired ≠ [])
    (fun _ _ _ _ hp hs => step_retired hs hp) hr hset h

end Incarnation

/-- A handle that is current has been current ever since it was issued. -/
theorem current_since (hr : (runtimeManager config).Reachable s)
    (hleads : (runtimeManager config).Leads s t) (hissued : ∃ e ∈ s.entries, e.handle = handle)
    (hcurrent : t.Current handle) : s.Current handle := by
  obtain ⟨d, hmem, rfl⟩ := hissued
  obtain ⟨k, hd⟩ := List.getElem?_of_mem hmem
  obtain ⟨id, ref, e, hlookup, he, hhandle⟩ := hcurrent
  have hlater := entriesPlaced_leads hr hleads
  obtain ⟨factory, d', hd', hsame, hreach, hlife⟩ := hlater.entry_since hd
  have hplace := handle_injective (hr.leads hleads) he hd' (hhandle.trans hsame.symm)
  subst hplace
  obtain rfl := Option.some.inj (he.symm.trans hd')
  obtain ⟨c, hc, hid⟩ := hlater.scanned.keyed id ref hlookup
  obtain rfl := Option.some.inj (hc.symm.trans he)
  have hunset : c.retired = [] := (hlater.scanned.registered ref c hc).mp (hid ▸ hlookup)
  have hbefore : d.retired = [] := by
    by_contra hset
    exact leads_retired hreach hlife hset hunset
  have hslot := ((entriesPlaced_of_reachable hr).scanned.registered ref d hd).mpr hbefore
  exact ⟨d.handle.id, ref, d, hslot, hd, rfl⟩

/-! ## the contract -/

/-- What a call with a stale handle does: nothing. -/
structure StaleContract (config : RuntimeConfig) (s : RuntimeState) (handle : SessionHandle) :
    Prop where
  remove : ∀ t, runtimeStep config s (.remove handle) = some t → t = s
  fail : ∀ t, runtimeStep config s (.fail handle) = some t → t = s
  refused : ∀ reason, (s.remove config handle reason).2 = .staleHandle ∨
    (s.remove config handle reason).2 = .notFound
  /-- `push_audio`, `cancel_response`, `handle_event` and `observe` admit no
  operation, so none of them gets to the session. -/
  operate : ∀ call t, runtimeStep config s (.operate handle call) = some t → t = s
  unadmitted : ∀ call, (s.admitOperation config handle call).2 = false
  find : s.find config handle = none
  /-- A handle that was issued once never becomes current again. -/
  forever : (∃ e ∈ s.entries, e.handle = handle) →
    ∀ t, (runtimeManager config).Leads s t → ¬t.Current handle

/-- **Stale handles**: in every reachable state a handle that is not the whole
identity of a registered entry is inert, and no two admissions ever accepted
have equal handles. -/
theorem runtime_stale_handles (config : RuntimeConfig) (s : RuntimeState)
    (h : (runtimeManager config).Reachable s) :
    (∀ handle, ¬s.Current handle → StaleContract config s handle) ∧
      (s.entries.map (·.handle)).Nodup := by
  have hplaced := entriesPlaced_of_reachable h
  have hscope := scoped_of_reachable h
  constructor
  · intro handle hstale
    have hmatching := matching_stale hplaced hscope hstale
    have hadmit : ∀ call, s.admitOperation config handle call = (s, false) := by
      intro call
      rw [RuntimeState.admitOperation, hmatching]
    exact {
      remove := fun t ht => by
        rw [← Option.some.inj ht]
        exact (remove_of_matching_none hmatching _).1
      fail := fun t ht => by
        rw [← Option.some.inj ht]
        exact (remove_of_matching_none hmatching _).1
      refused := fun reason => (remove_of_matching_none hmatching reason).2
      operate := fun call t ht => by
        simp only [runtimeStep, hadmit] at ht
        split at ht <;> try contradiction
        exact (Option.some.inj ht).symm
      unadmitted := fun call => by rw [ hadmit]
      find := by rw [RuntimeState.find, hmatching]; rfl
      forever := fun hissued t hleads hcurrent =>
        hstale (current_since h hleads hissued hcurrent) }
  · rw [List.nodup_iff_pairwise_ne, List.pairwise_iff_getElem]
    intro i j hi hj hlt heq
    rw [List.getElem_map, List.getElem_map] at heq
    have hsame := handle_injective h (List.getElem?_eq_getElem _) (List.getElem?_eq_getElem _) heq
    omega

/-- An id is admitted again after its reservation was cancelled and retired. -/
def readmission : List RuntimeAction :=
  [.add (lit "a") (some 0) false, .remove ⟨1, lit "a", 1⟩, .supervisor (.collect [0]),
   .supervisor .visit, .supervisor .check, .supervisor .destroy, .supervisor .releaseDependencies,
   .supervisor .finalize, .add (lit "a") (some 1) false]

theorem readmission_stale :
    ∃ s, (runtimeManager tightRuntime).run (runtimeManager tightRuntime).init readmission = some s ∧
      s.registry.lookup (lit "a") = some 1 ∧
      ((∀ handle, ¬s.Current handle → StaleContract tightRuntime s handle) ∧
        (s.entries.map (·.handle)).Nodup) :=
  ⟨_, rfl, rfl, runtime_stale_handles tightRuntime _ ⟨readmission, rfl⟩⟩

end ByteTurn

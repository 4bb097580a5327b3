import ByteTurn.RuntimeManager.Ledger

/-!
# ByteTurn.RuntimeManager.Outcome

The final cause of a session.

The outcome of an entry is the first failure among the reasons applied to it
before it was released, or else the first of them.  The ticket, the notification
and the counter of failures report that outcome, and it is settled when they do.
-/

namespace ByteTurn

open Incarnation

variable {config : RuntimeConfig} {s t : RuntimeState} {ledger : Ledger} {page : RuntimePage}
  {ref : Nat} {e d : Entry} {reason : SessionOutcome} {reasons : List SessionOutcome}

/-! ## the cause of a list of reasons -/

/-- The first failure, or else the first reason. -/
def finalCause (reasons : List SessionOutcome) : SessionOutcome :=
  (reasons.find? SessionOutcome.failed).getD (reasons.headD .none)

@[simp] theorem finalCause_nil : finalCause [] = .none := rfl

@[simp] theorem finalCause_singleton (reason : SessionOutcome) : finalCause [reason] = reason := by
  rw [finalCause, List.find?_singleton]
  split <;> rfl

/-- The cause is a failure when one of the reasons is. -/
theorem finalCause_failed (reasons : List SessionOutcome) :
    (finalCause reasons).failed = reasons.any SessionOutcome.failed := by
  cases hfind : reasons.find? SessionOutcome.failed with
  | some reason =>
      have hany : reasons.any SessionOutcome.failed = true :=
        List.any_eq_true.mpr ⟨reason, List.mem_of_find?_eq_some hfind, List.find?_some hfind⟩
      rw [finalCause, hfind, hany]
      exact List.find?_some hfind
  | none =>
      have hnone := List.find?_eq_none.mp hfind
      have hany : reasons.any SessionOutcome.failed = false := by
        rw [List.any_eq_false]
        exact hnone
      rw [finalCause, hfind, hany]
      cases reasons with
      | nil => rfl
      | cons reason rest => simpa using hnone reason (List.mem_cons_self ..)

/-- A later reason is the cause only when it is the first failure. -/
theorem finalCause_concat (hne : reasons ≠ []) (reason : SessionOutcome) :
    finalCause (reasons ++ [reason]) =
      if reason.failed && !(finalCause reasons).failed then reason else finalCause reasons := by
  rw [finalCause_failed]
  have hhead : (reasons ++ [reason]).headD .none = reasons.headD .none := by
    cases reasons with
    | nil => contradiction
    | cons first rest => rfl
  rw [finalCause, finalCause, List.find?_append, hhead]
  cases hfind : reasons.find? SessionOutcome.failed with
  | some cause =>
      have hany : reasons.any SessionOutcome.failed = true :=
        List.any_eq_true.mpr ⟨cause, List.mem_of_find?_eq_some hfind, List.find?_some hfind⟩
      simp [hany]
  | none =>
      have hany : reasons.any SessionOutcome.failed = false := by
        rw [List.any_eq_false]
        exact List.find?_eq_none.mp hfind
      cases hreason : reason.failed <;> simp [hany, hreason]

/-! ## reasons and outcomes -/

/-- The retired entries with a failure for an outcome. -/
def failedCount (entries : List EntryPage) : Nat :=
  entries.countP fun p => decide (p.retired ≠ []) && p.outcome.failed

/-- The outcomes on a page are the causes in the ledger. -/
structure Caused (page : RuntimePage) (ledger : Ledger) : Prop where
  outcome : ∀ (ref : Nat) (p : EntryPage), page.entries[ref]? = some p →
    p.outcome = finalCause (ledger.reasons ref)
  stopped : ∀ (ref : Nat) (p : EntryPage), page.entries[ref]? = some p →
    (p.stopRequested = true ↔ ledger.reasons ref ≠ [])
  known : ∀ x ∈ ledger.applied, x.1 < page.entries.length
  failures : page.failures = failedCount page.entries
  /-- What has been retired has been released. -/
  released : ∀ p ∈ page.entries, p.retired ≠ [] → p.released = true
  notified : ∀ n ∈ ledger.published, n.type = .retired →
    ∃ p ∈ page.entries, p.handle = n.handle ∧ p.retired ≠ [] ∧ n.outcome = p.outcome

theorem Ledger.reasons_append (ledger : Ledger) (applied : List (Nat × SessionOutcome)) (ref : Nat) :
    Ledger.reasons { ledger with applied := ledger.applied ++ applied } ref =
      ledger.reasons ref ++ (applied.filter (·.1 = ref)).map (·.2) := by
  simp [Ledger.reasons]

/-- The reasons in the ledger after an event. -/
theorem record_reasons (config : RuntimeConfig) (page : RuntimePage) (ledger : Ledger)
    (event : RuntimeEvent) (ref : Nat) :
    (ledger.record config page event).reasons ref =
      ledger.reasons ref ++ ((page.application event).filter (·.1 = ref)).map (·.2) :=
  Ledger.reasons_append _ _ _

theorem record_reasons_same (config : RuntimeConfig) (ledger : Ledger) {event : RuntimeEvent}
    (h : page.application event = []) (ref : Nat) :
    (ledger.record config page event).reasons ref = ledger.reasons ref := by
  rw [record_reasons, h]
  simp

theorem EntryPage.stop_handle (p : EntryPage) : (p.stop reason).handle = p.handle := by
  unfold EntryPage.stop; split <;> rfl

theorem EntryPage.stop_retired (p : EntryPage) : (p.stop reason).retired = p.retired := by
  unfold EntryPage.stop; split <;> rfl

theorem EntryPage.stop_released (p : EntryPage) : (p.stop reason).released = p.released := by
  unfold EntryPage.stop; split <;> rfl

/-- A released entry is not stopped again. -/
theorem EntryPage.stop_of_released {p : EntryPage} (h : p.released = true) : p.stop reason = p := by
  simp [EntryPage.stop, EntryPage.accepts, h]

/-- A reason counts for the cause as it counts for the entry. -/
theorem EntryPage.stop_cause {p : EntryPage} (reason : SessionOutcome) (hreleased : p.released = false)
    (houtcome : p.outcome = finalCause reasons) (hstopped : p.stopRequested = true ↔ reasons ≠ []) :
    (p.stop reason).outcome = finalCause (reasons ++ [reason]) ∧
      (p.stop reason).stopRequested = true := by
  by_cases hfirst : reasons = []
  · have hunstopped : p.stopRequested = false := by
      rw [← Bool.not_eq_true, hstopped]
      exact not_not.mpr hfirst
    have haccepts : p.accepts reason = true := by simp [EntryPage.accepts, hreleased, hunstopped]
    rw [EntryPage.stop, if_pos haccepts, hfirst, List.nil_append, finalCause_singleton]
    exact ⟨rfl, rfl⟩
  · have hstop : p.stopRequested = true := hstopped.mpr hfirst
    have haccepts : p.accepts reason = (reason.failed && !(finalCause reasons).failed) := by
      simp [EntryPage.accepts, hreleased, hstop, houtcome]
    rw [EntryPage.stop, haccepts, finalCause_concat hfirst]
    split
    · exact ⟨rfl, rfl⟩
    · exact ⟨houtcome, hstop⟩

/-! ## every event -/

theorem failedCount_modify (entries : List EntryPage) (ref : Nat) (f : EntryPage → EntryPage)
    (hf : ∀ p, entries[ref]? = some p → (decide ((f p).retired ≠ []) && (f p).outcome.failed) =
      (decide (p.retired ≠ []) && p.outcome.failed)) :
    failedCount (entries.modify ref f) = failedCount entries := by
  cases hp : entries[ref]? with
  | none => rw [modify_same (by simp [hp])]
  | some p =>
      have hcount := List.countP_modify_add
        (fun p : EntryPage => decide (p.retired ≠ []) && p.outcome.failed) f hp
      simp only [hf p hp] at hcount
      rw [failedCount, failedCount]
      omega

/-- A published notification was published before, or the event announces it. -/
theorem record_published {event : RuntimeEvent} {n : RuntimeNotification}
    (h : n ∈ (ledger.record config page event).published) :
    n ∈ ledger.published ∨ page.announcement event = some n := by
  cases List.mem_append.mp h with
  | inl hold => exact .inl hold
  | inr hnew =>
      split at hnew
      · exact .inr (by simpa using hnew)
      · simp at hnew

/-- An event that rewrites one entry and applies no reason to it. -/
theorem Caused.rewrite {event : RuntimeEvent} {f : EntryPage → EntryPage} (h : Caused page ledger)
    (hentries : page.rewrite event = page.entries.modify ref f)
    (happlication : page.application event = [])
    (hf : ∀ p, page.entries[ref]? = some p → (f p).handle = p.handle ∧ (f p).outcome = p.outcome ∧
      (f p).stopRequested = p.stopRequested ∧ (p.retired ≠ [] → (f p).retired ≠ []) ∧
      ((f p).retired ≠ [] → (f p).released = true))
    (hfailures : (page.perform config event).failures = failedCount (page.entries.modify ref f))
    (hnotified : ∀ n, page.announcement event = some n → n.type = .retired →
      ∃ p, page.entries[ref]? = some p ∧ p.handle = n.handle ∧ (f p).retired ≠ [] ∧
        n.outcome = p.outcome) :
    Caused (page.perform config event) (ledger.record config page event) := by
  have hsame := record_reasons_same config ledger happlication
  constructor
  · intro j p hp
    rw [RuntimePage.perform_entries, hentries] at hp
    rw [hsame]
    cases modify_cases hp with
    | inl hother => exact h.outcome j p hother.2
    | inr hentry =>
        obtain ⟨rfl, q, hq, rfl⟩ := hentry
        rw [(hf q hq).2.1]
        exact h.outcome j q hq
  · intro j p hp
    rw [RuntimePage.perform_entries, hentries] at hp
    rw [hsame]
    cases modify_cases hp with
    | inl hother => exact h.stopped j p hother.2
    | inr hentry =>
        obtain ⟨rfl, q, hq, rfl⟩ := hentry
        rw [(hf q hq).2.2.1]
        exact h.stopped j q hq
  · intro x hx
    rw [RuntimePage.perform_entries, hentries, List.length_modify]
    have hold : x ∈ ledger.applied := by simpa [Ledger.record, happlication] using hx
    exact h.known x hold
  · rw [RuntimePage.perform_entries, hentries]
    exact hfailures
  · intro p hp hretired
    rw [RuntimePage.perform_entries, hentries] at hp
    obtain ⟨j, hj⟩ := List.getElem?_of_mem hp
    cases modify_cases hj with
    | inl hother => exact h.released p (List.mem_of_getElem? hother.2) hretired
    | inr hentry =>
        obtain ⟨rfl, q, hq, rfl⟩ := hentry
        exact (hf q hq).2.2.2.2 hretired
  · intro n hn htype
    rw [RuntimePage.perform_entries, hentries]
    cases record_published hn with
    | inl hold =>
        obtain ⟨p, hp, hhandle, hretired, houtcome⟩ := h.notified n hold htype
        obtain ⟨j, hj⟩ := List.getElem?_of_mem hp
        refine ⟨_, List.mem_of_getElem? (modify_of hj), ?_⟩
        split
        · next hjr =>
          subst hjr
          obtain ⟨hh, ho, -, hr, -⟩ := hf p hj
          exact ⟨hh.trans hhandle, hr hretired, houtcome.trans ho.symm⟩
        · exact ⟨hhandle, hretired, houtcome⟩
    | inr hnew =>
        obtain ⟨p, hp, hhandle, hretired, houtcome⟩ := hnotified n hnew htype
        obtain ⟨hh, ho, -, -, -⟩ := hf p hp
        exact ⟨f p, List.mem_of_getElem? (modify_eq hp), hh.trans hhandle, hretired,
          houtcome.trans ho.symm⟩

theorem Caused.reserve {handle : SessionHandle} (h : Caused page ledger) :
    Caused (page.perform config (.reserve handle)) (ledger.record config page (.reserve handle)) := by
  have happlication : page.application (.reserve handle) = [] := rfl
  have hsame := record_reasons_same config ledger happlication
  have hnone : ledger.reasons page.entries.length = [] := by
    rw [Ledger.reasons, List.map_eq_nil_iff, List.filter_eq_nil_iff]
    intro x hx
    have hknown := h.known x hx
    simp only [decide_eq_true_eq]
    omega
  have hentries := RuntimePage.perform_entries config page (.reserve handle)
  rw [RuntimePage.rewrite] at hentries
  constructor
  · intro j p hp
    rw [hentries] at hp
    rw [hsame]
    cases append_cases hp with
    | inl hold => exact h.outcome j p hold
    | inr hnew =>
        obtain ⟨rfl, rfl⟩ := hnew
        rw [hnone, finalCause_nil]
  · intro j p hp
    rw [hentries] at hp
    rw [hsame]
    cases append_cases hp with
    | inl hold => exact h.stopped j p hold
    | inr hnew =>
        obtain ⟨rfl, rfl⟩ := hnew
        simp [hnone]
  · intro x hx
    rw [hentries, List.length_append]
    have hold : x ∈ ledger.applied := by simpa [Ledger.record, happlication] using hx
    have hknown := h.known x hold
    omega
  · rw [hentries, failedCount, List.countP_append, RuntimePage.perform_failures, h.failures]
    rfl
  · intro p hp hretired
    rw [hentries] at hp
    cases List.mem_append.mp hp with
    | inl hold => exact h.released p hold hretired
    | inr hnew =>
        rw [List.mem_singleton.mp hnew] at hretired
        contradiction
  · intro n hn htype
    rw [hentries]
    cases record_published hn with
    | inl hold =>
        obtain ⟨p, hp, hrest⟩ := h.notified n hold htype
        exact ⟨p, List.mem_append_left _ hp, hrest⟩
    | inr hnew =>
        obtain rfl := Option.some.inj hnew
        contradiction

theorem Caused.stop (h : Caused page ledger) : Caused (page.perform config (.stop ref reason))
    (ledger.record config page (.stop ref reason)) := by
  have hentries := RuntimePage.perform_entries config page (.stop ref reason)
  rw [RuntimePage.rewrite] at hentries
  have hreasons (j : Nat) := record_reasons config page ledger (.stop ref reason) j
  have happlied : page.application (.stop ref reason) =
      if (page.entries[ref]?).any (fun p => !p.released) then [(ref, reason)] else [] := rfl
  have hother (j : Nat) (hj : j ≠ ref) :
      (ledger.record config page (.stop ref reason)).reasons j = ledger.reasons j := by
    rw [hreasons, happlied]
    split <;> simp [hj.symm]
  -- what becomes of the entry itself
  have hentry (p : EntryPage) (hp : page.entries[ref]? = some p) :
      (p.stop reason).outcome =
        finalCause ((ledger.record config page (.stop ref reason)).reasons ref) ∧
      ((p.stop reason).stopRequested = true ↔
        (ledger.record config page (.stop ref reason)).reasons ref ≠ []) := by
    rw [hreasons, happlied, hp, Option.any_some]
    cases hreleased : p.released with
    | true =>
        rw [EntryPage.stop_of_released hreleased]
        simpa using ⟨h.outcome ref p hp, h.stopped ref p hp⟩
    | false =>
        obtain ⟨houtcome, hstop⟩ := EntryPage.stop_cause reason hreleased
          (h.outcome ref p hp) (h.stopped ref p hp)
        simpa [hstop] using houtcome
  constructor
  · intro j p hp
    rw [hentries] at hp
    cases modify_cases hp with
    | inl hne =>
        rw [hother j hne.1]
        exact h.outcome j p hne.2
    | inr hsame =>
        obtain ⟨rfl, q, hq, rfl⟩ := hsame
        exact (hentry q hq).1
  · intro j p hp
    rw [hentries] at hp
    cases modify_cases hp with
    | inl hne =>
        rw [hother j hne.1]
        exact h.stopped j p hne.2
    | inr hsame =>
        obtain ⟨rfl, q, hq, rfl⟩ := hsame
        exact (hentry q hq).2
  · intro x hx
    rw [hentries, List.length_modify]
    cases List.mem_append.mp hx with
    | inl hold => exact h.known x hold
    | inr hnew =>
        rw [happlied] at hnew
        split at hnew
        · next hany =>
          obtain ⟨p, hp, -⟩ := (Option.any_eq_true _ _).mp hany
          rw [List.mem_singleton.mp hnew]
          exact (List.getElem?_eq_some_iff.mp hp).1
        · simp at hnew
  · rw [hentries, RuntimePage.perform_failures, h.failures]
    refine (failedCount_modify _ _ _ fun p hp => ?_).symm
    rw [EntryPage.stop_retired]
    by_cases hretired : p.retired = []
    · simp [hretired]
    · rw [EntryPage.stop_of_released (h.released p (List.mem_of_getElem? hp) hretired)]
  · intro p hp hretired
    rw [hentries] at hp
    obtain ⟨j, hj⟩ := List.getElem?_of_mem hp
    cases modify_cases hj with
    | inl hne => exact h.released p (List.mem_of_getElem? hne.2) hretired
    | inr hsame =>
        obtain ⟨rfl, q, hq, rfl⟩ := hsame
        rw [EntryPage.stop_retired] at hretired
        rw [EntryPage.stop_released]
        exact h.released q (List.mem_of_getElem? hq) hretired
  · intro n hn htype
    have hold : n ∈ ledger.published := by
      cases record_published hn with
      | inl hold => exact hold
      | inr hnew =>
          obtain ⟨p, -, hp⟩ := Option.bind_eq_some_iff.mp hnew
          split at hp <;> try contradiction
          obtain rfl := Option.some.inj hp
          contradiction
    obtain ⟨p, hp, hhandle, hretired, houtcome⟩ := h.notified n hold htype
    obtain ⟨j, hj⟩ := List.getElem?_of_mem hp
    rw [hentries]
    refine ⟨_, List.mem_of_getElem? (modify_of hj), ?_⟩
    split
    · rw [EntryPage.stop_of_released (h.released p hp hretired)]
      exact ⟨hhandle, hretired, houtcome⟩
    · exact ⟨hhandle, hretired, houtcome⟩

/-- An event that is only about notifications. -/
theorem Caused.mail {event : RuntimeEvent} (h : Caused page ledger)
    (hevent : event = .take ∨ event = .deliver) :
    Caused (page.perform config event) (ledger.record config page event) := by
  have hrewrite : page.rewrite event = page.entries.modify page.entries.length id := by
    rw [modify_id]
    rcases hevent with rfl | rfl <;> rfl
  refine h.rewrite (f := id) hrewrite (by rcases hevent with rfl | rfl <;> rfl) ?_ ?_ ?_
  · intro p hp
    simp at hp
  · rw [RuntimePage.perform_failures, h.failures, modify_id]
    rcases hevent with rfl | rfl <;> rfl
  · intro n hn
    rcases hevent with rfl | rfl <;> contradiction

/-- **Step lemma**: every event keeps the outcomes in step with the ledger. -/
theorem Caused.perform {event : RuntimeEvent} (h : Caused page ledger) (hlegal : page.Legal event) :
    Caused (page.perform config event) (ledger.record config page event) := by
  cases event with
  | reserve handle => exact h.reserve
  | stop ref reason => exact h.stop
  | start ref =>
      refine h.rewrite rfl rfl (fun p hp => ⟨rfl, rfl, rfl, id, ?_⟩) ?_ ?_
      · exact h.released p (List.mem_of_getElem? hp)
      · rw [RuntimePage.perform_failures, h.failures]
        have hcount := failedCount_modify page.entries ref
          (fun p => { p with started := true }) fun _ _ => rfl
        exact hcount.symm
      · intro n hn htype
        obtain ⟨p, -, rfl⟩ := Option.map_eq_some_iff.mp hn
        contradiction
  | release ref =>
      refine h.rewrite rfl rfl (fun p _ => ⟨rfl, rfl, rfl, id, fun _ => rfl⟩) ?_ ?_
      · rw [RuntimePage.perform_failures, h.failures]
        have hcount := failedCount_modify page.entries ref
          (fun p => { p with released := true }) fun _ _ => rfl
        exact hcount.symm
      · intro n hn
        contradiction
  | retire ref =>
      refine h.rewrite rfl rfl (fun p hp => ⟨rfl, rfl, rfl, fun _ => by simp, fun _ => ?_⟩) ?_ ?_
      · exact (hlegal p hp).1
      · rw [RuntimePage.perform_failures, h.failures]
        cases hp : page.entries[ref]? with
        | none =>
            rw [modify_same (by simp [hp])]
            simp [hp]
        | some p =>
            have hunset := (hlegal p hp).2.2
            have hcount := List.countP_modify_add
              (fun p : EntryPage => decide (p.retired ≠ []) && p.outcome.failed)
              (fun p : EntryPage => { p with retired := p.retired ++ [p.outcome] }) hp
            simp [hunset] at hcount
            simp [failedCount, hcount, hp]
      · intro n hn _
        obtain ⟨p, hp, rfl⟩ := Option.map_eq_some_iff.mp hn
        exact ⟨p, hp, rfl, by simp, rfl⟩
  | take => exact h.mail (.inl rfl)
  | deliver => exact h.mail (.inr rfl)

theorem caused_of_reachable (h : (ledgeredRuntime config).Reachable (s, ledger)) :
    Caused s.page ledger := by
  refine ledger_rec_inv ?_ (fun _ _ _ hp hlegal => hp.perform hlegal) h
  constructor <;> simp [failedCount]

/-! ## what may still change -/

namespace Incarnation

variable {a : Label} {handle : SessionHandle} {factory : Option Nat}

/-- A stop request stays, and after it only a failure replaces the outcome, and
only one that is none. -/
structure Settling (d e : Entry) : Prop where
  stopped : d.stopRequested = true → e.stopRequested = true
  outcome : d.stopRequested = true →
    e.outcome = d.outcome ∨ (d.outcome.failed = false ∧ e.outcome.failed = true)

theorem Settling.refl (e : Entry) : Settling e e := ⟨id, fun _ => .inl rfl⟩

theorem Settling.of_eq (hstop : e.stopRequested = d.stopRequested) (houtcome : e.outcome = d.outcome) :
    Settling d e := ⟨fun h => hstop.trans h, fun _ => .inl houtcome⟩

theorem Settling.trans {c : Entry} (h₁ : Settling c d) (h₂ : Settling d e) : Settling c e := by
  refine ⟨fun h => h₂.stopped (h₁.stopped h), fun h => ?_⟩
  have hfirst := h₁.outcome h
  have hsecond := h₂.outcome (h₁.stopped h)
  grind

theorem settling_stop (e : Entry) (reason : SessionOutcome) : Settling e (e.stop reason) := by
  unfold Entry.stop
  split
  · next hacc =>
    refine ⟨fun _ => rfl, fun hstop => ?_⟩
    simp only [Entry.acceptsStop, hstop, Bool.not_true, Bool.false_or, Bool.and_eq_true,
      Bool.not_eq_true'] at hacc
    exact .inr ⟨hacc.2.2, hacc.2.1⟩
  · exact .refl e

theorem step_settling (hs : step d a = some e) : Settling d e := by
  cases a <;> simp only [step] at hs
  case stop reason =>
    split at hs <;> try contradiction
    obtain rfl := Option.some.inj hs
    exact settling_stop d reason
  case conclude =>
    split at hs <;> try contradiction
    obtain rfl := Option.some.inj hs
    unfold Entry.conclude
    split <;> exact .of_eq rfl rfl
  case session action =>
    obtain ⟨next, -, rfl⟩ := Option.map_eq_some_iff.mp hs
    exact .of_eq rfl rfl
  all_goals
    split at hs <;> try contradiction
    obtain rfl := Option.some.inj hs
    exact .of_eq rfl rfl

theorem leads_settling (hr : (machine handle factory).Reachable d)
    (h : (machine handle factory).Leads d e) : Settling d e :=
  Machine.Leads.rec_rel Settling.refl (fun _ _ _ => Settling.trans)
    (fun _ _ _ _ hs => step_settling hs) hr h

/-- The outcome of a released entry is settled. -/
theorem step_settled (hphase : d.phase = .retiring) (hs : step d a = some e) :
    e.outcome = d.outcome := by
  cases a <;> simp only [step] at hs
  case stop reason =>
    split at hs <;> try contradiction
    obtain rfl := Option.some.inj hs
    simp [Entry.stop, Entry.acceptsStop, hphase]
  case conclude =>
    split at hs <;> try contradiction
    obtain rfl := Option.some.inj hs
    unfold Entry.conclude
    split <;> rfl
  case session action =>
    obtain ⟨next, -, rfl⟩ := Option.map_eq_some_iff.mp hs
    rfl
  all_goals
    split at hs <;> try contradiction
    obtain rfl := Option.some.inj hs
    rfl

theorem leads_settled (hr : (machine handle factory).Reachable d)
    (h : (machine handle factory).Leads d e) (hphase : d.phase = .retiring) :
    e.outcome = d.outcome := by
  have hkept : e.phase = .retiring ∧ e.outcome = d.outcome := by
    refine Machine.Leads.rec_stable (P := fun e => e.phase = .retiring ∧ e.outcome = d.outcome)
      (fun b a c hb hp hs => ?_) hr ⟨hphase, rfl⟩ h
    exact ⟨step_retiring (sound_of_reachable hb) hs hp.1, (step_settled hp.1 hs).trans hp.2⟩
  exact hkept.2

end Incarnation

/-! ## the contract -/

/-- What a manager promises about the outcome of the entry `ref`. -/
structure CauseContract (config : RuntimeConfig) (s : RuntimeState) (ledger : Ledger) (ref : Nat)
    (e : Entry) : Prop where
  /-- The first failure applied before the entry became `Retiring`, or else the
  first reason applied. -/
  cause : e.outcome = finalCause (ledger.reasons ref)
  stopped : e.stopRequested = true ↔ ledger.reasons ref ≠ []
  /-- After the first stop request only a failure replaces a reason that is none,
  and so only once. -/
  escalated : e.stopRequested = true → ∀ t e', (runtimeManager config).Leads s t →
    t.entries[ref]? = some e' →
    e'.outcome = e.outcome ∨ (e.outcome.failed = false ∧ e'.outcome.failed = true)
  settled : e.outcome.failed = true ∨ e.phase = .retiring → ∀ t e',
    (runtimeManager config).Leads s t → t.entries[ref]? = some e' → e'.outcome = e.outcome
  ticket : ∀ outcome ∈ e.retired, outcome = e.outcome
  notification : ∀ n ∈ ledger.published, n.handle = e.handle → n.type = .retired →
    n.outcome = e.outcome
  failures : s.counters.failures =
    s.entries.countP fun e => decide (e.retired ≠ []) && e.outcome.failed

/-- **Final cause**: in every reachable state every entry has one cause, and the
ticket, the notification and the counter of failures report it. -/
theorem runtime_final_cause (config : RuntimeConfig) (s : RuntimeState) (ledger : Ledger)
    (h : (ledgeredRuntime config).Reachable (s, ledger)) (ref : Nat) (e : Entry)
    (he : s.entries[ref]? = some e) : CauseContract config s ledger ref e := by
  have hreach : (runtimeManager config).Reachable s := h.of_observed
  have hcaused := caused_of_reachable h
  have hplaced := entriesPlaced_of_reachable hreach
  have hsound := (hplaced.live.each ref e he).sound
  have hpage := page_entry he
  have hsince (t : RuntimeState) (e' : Entry) (hleads : (runtimeManager config).Leads s t)
      (he' : t.entries[ref]? = some e') : ∃ factory, (machine e.handle factory).Reachable e ∧
        (machine e.handle factory).Leads e e' := by
    obtain ⟨factory, d, hd, -, hr, hl⟩ := (entriesPlaced_leads hreach hleads).entry_since he
    obtain rfl := Option.some.inj (hd.symm.trans he')
    exact ⟨factory, hr, hl⟩
  have hescalated (hstop : e.stopRequested = true) (t : RuntimeState) (e' : Entry)
      (hleads : (runtimeManager config).Leads s t) (he' : t.entries[ref]? = some e') :
      e'.outcome = e.outcome ∨ (e.outcome.failed = false ∧ e'.outcome.failed = true) := by
    obtain ⟨factory, hr, hl⟩ := hsince t e' hleads he'
    exact (leads_settling hr hl).outcome hstop
  exact {
    cause := hcaused.outcome ref e.page hpage
    stopped := hcaused.stopped ref e.page hpage
    escalated := hescalated
    settled := fun hsettled t e' hleads he' => by
      cases hsettled with
      | inl hfailed =>
          have hstop : e.stopRequested = true := by
            by_contra hstop
            rw [(hsound.unstopped (by simpa using hstop)).1] at hfailed
            contradiction
          cases hescalated hstop t e' hleads he' with
          | inl hsame => exact hsame
          | inr hchanged => rw [hfailed] at hchanged; simp at hchanged
      | inr hphase =>
          obtain ⟨factory, hr, hl⟩ := hsince t e' hleads he'
          exact leads_settled hr hl hphase
    ticket := fun outcome hmem => by
      have hvalue := (hsound.retired (List.ne_nil_of_mem hmem)).1
      rw [hvalue] at hmem
      exact List.mem_singleton.mp hmem
    notification := fun n hn hhandle htype => by
      obtain ⟨p, hp, hsame, -, houtcome⟩ := hcaused.notified n hn htype
      obtain ⟨k, hk⟩ := List.getElem?_of_mem hp
      obtain ⟨d, hd, rfl⟩ := page_cases hk
      have hplace := handle_injective hreach hd he (hsame.trans hhandle)
      subst hplace
      obtain rfl := Option.some.inj (hd.symm.trans he)
      exact houtcome
    failures := by
      have hfailures : s.counters.failures = failedCount (s.entries.map Entry.page) :=
        hcaused.failures
      rw [hfailures, failedCount, List.countP_map]
      rfl }

/-- A reservation is removed, and then reported as failed before it is released;
a later report is too late. -/
def escalation : List RuntimeAction :=
  [.add (lit "a") (some 0) false, .remove ⟨1, lit "a", 1⟩, .fail ⟨1, lit "a", 1⟩,
   .supervisor (.collect [0]), .supervisor .visit, .supervisor .check, .fail ⟨1, lit "a", 1⟩,
   .supervisor .destroy, .supervisor .releaseDependencies, .supervisor .finalize]

theorem escalation_final_cause :
    ∃ s ledger e, (ledgeredRuntime tightRuntime).run (ledgeredRuntime tightRuntime).init escalation =
        some (s, ledger) ∧
      s.entries[0]? = some e ∧ ledger.reasons 0 = [.removed, .reportedFailure] ∧
      e.retired = [.reportedFailure] ∧ s.counters.failures = 1 ∧
      CauseContract tightRuntime s ledger 0 e :=
  ⟨_, _, _, rfl, rfl, rfl, rfl, rfl,
    runtime_final_cause tightRuntime _ _ ⟨escalation, rfl⟩ 0 _ rfl⟩

end ByteTurn

import ByteTurn.RuntimeManager.Handles

/-!
# ByteTurn.RuntimeManager.Ledger

What a manager tells about its entries, apart from how it gets there.

A step of the manager makes a list of `RuntimeEvent`s: an entry is reserved, told
to stop, started, released, retired, or a notification is taken or delivered.
`RuntimePage` is the part of the state that these events write: what is known of
every entry, the counter of failures, and the notifications.  `step_page` says
that the events of a step are all that happens to it.

`Ledger` is the history of the events: the reasons applied to every entry before
it was released, and the notifications published and delivered.  No step reads
it.  `ledger_rec_inv` is the rule for what holds of a page and its ledger.
-/

namespace ByteTurn

open Incarnation

/-! ## events -/

/-- What a section does that others are told of. -/
inductive RuntimeEvent where
  | reserve (handle : SessionHandle)
  /-- A call of `stop_entry`. -/
  | stop (ref : Nat) (reason : SessionOutcome)
  /-- The entry becomes `Running`. -/
  | start (ref : Nat)
  /-- The entry becomes `Retiring`. -/
  | release (ref : Nat)
  /-- The entry is erased and its tickets are completed. -/
  | retire (ref : Nat)
  /-- The dispatcher takes a notification, or ends. -/
  | take
  /-- The observer has been called. -/
  | deliver
  deriving DecidableEq, Repr

/-- `stop_entry` on what an identity check found. -/
def stopFound (found : Option (Nat × Entry)) (reason : SessionOutcome) : List RuntimeEvent :=
  match found with
  | some (ref, _) => [.stop ref reason]
  | none => []

/-- The events of a step, in their order. -/
def runtimeEvents (config : RuntimeConfig) (s : RuntimeState) : RuntimeAction → List RuntimeEvent
  | .add id factory allocationFails => match (s.add config id factory allocationFails).2 with
    | some admission => if admission.status = .accepted then [.reserve admission.handle] else []
    | none => []
  | .remove handle => stopFound (s.matching config handle) .removed
  | .fail handle => stopFound (s.matching config handle) .reportedFailure
  | .operation j .report => match s.operations[j]? with
    | some op => stopFound (s.matching config op.handle) .engineFailure
    | none => []
  | .requestShutdown order =>
      if s.counters.lifecycle = .running then order.map (.stop · .runtimeShutdown) else []
  | .startup w .conclude => match s.workers[w]? with
    | some (.concluding ref failed) =>
        if failed then [.stop ref .startupFailed]
        else if (s.entries[ref]?).any (·.stopRequested) then [] else [.start ref]
    | _ => []
  | .supervisor .report => match s.supervisor with
    | .visiting ref (.reporting lifecycle) _ =>
        if lifecycle = .failed then [.stop ref .lifecycleFailure]
        else if (s.entries[ref]?).any (·.stopRequested) then [] else [.stop ref .unexpectedStop]
    | _ => []
  | .supervisor .check => match s.supervisor with
    | .visiting ref .checking _ =>
        if (s.entries[ref]?).any (·.operations = 0) then [.release ref] else []
    | _ => []
  | .supervisor .finalize => match s.supervisor with
    | .visiting ref .finalizing _ => [.retire ref]
    | _ => []
  | .notifier .take => [.take]
  | .notifier (.notified _) => [.deliver]
  | _ => []

/-! ## the page -/

/-- What is known of an entry. -/
structure EntryPage where
  handle : SessionHandle
  outcome : SessionOutcome := .none
  stopRequested : Bool := false
  started : Bool := false
  released : Bool := false
  retired : List SessionOutcome := []
  deriving DecidableEq, Repr

/-- The notifications, and what counts them. -/
structure Mail where
  queued : List RuntimeNotification := []
  notifier : NotifierPlace := .waiting
  sequence : Nat := 1
  enqueued : Nat := 0
  delivered : Nat := 0
  dropped : Nat := 0
  firstDropped : Nat := 0
  lastDropped : Nat := 0
  deriving DecidableEq, Repr

/-- What the events write. -/
@[ext] structure RuntimePage where
  entries : List EntryPage := []
  failures : Nat := 0
  mail : Mail := {}
  deriving DecidableEq, Repr

def Entry.page (e : Entry) : EntryPage where
  handle := e.handle
  outcome := e.outcome
  stopRequested := e.stopRequested
  started := e.reachedRunning
  released := e.phase = .retiring
  retired := e.retired

namespace RuntimeState

def mail (s : RuntimeState) : Mail where
  queued := s.notifications
  notifier := s.notifier
  sequence := s.sequence
  enqueued := s.enqueued
  delivered := s.delivered
  dropped := s.counters.droppedNotifications
  firstDropped := s.counters.firstDroppedSequence
  lastDropped := s.counters.lastDroppedSequence

def page (s : RuntimeState) : RuntimePage where
  entries := s.entries.map Entry.page
  failures := s.counters.failures
  mail := s.mail

end RuntimeState

namespace EntryPage

def accepts (p : EntryPage) (reason : SessionOutcome) : Bool :=
  !p.released && (!p.stopRequested || (reason.failed && !p.outcome.failed))

def stop (p : EntryPage) (reason : SessionOutcome) : EntryPage :=
  if p.accepts reason then { p with outcome := reason, stopRequested := true } else p

end EntryPage

namespace Mail

def drop (m : Mail) (number : Nat) : Mail :=
  { m with
    dropped := m.dropped + 1
    firstDropped := if m.firstDropped = 0 then number else m.firstDropped
    lastDropped := number }

/-- `publish` -/
def post (m : Mail) (config : RuntimeConfig) (type : RuntimeNotificationType)
    (handle : SessionHandle) (outcome : SessionOutcome) : Mail :=
  if config.notify then
    if m.sequence = maxUInt64 then m.drop m.sequence
    else if m.queued.length < config.maxPendingNotifications ∧
        ¬ config.allocationFails m.sequence then
      { m with
        sequence := m.sequence + 1
        queued := m.queued ++ [⟨m.sequence, type, handle, outcome⟩]
        enqueued := m.enqueued + 1 }
    else { m with sequence := m.sequence + 1 }.drop m.sequence
  else m

end Mail

namespace RuntimePage

/-- An entry's page is rewritten, and a notification about it published. -/
def tell (page : RuntimePage) (config : RuntimeConfig) (ref : Nat) (f : EntryPage → EntryPage)
    (type : RuntimeNotificationType) (outcome : EntryPage → SessionOutcome) : RuntimePage :=
  match page.entries[ref]? with
  | some p => { page with
      entries := page.entries.modify ref f
      mail := page.mail.post config type p.handle (outcome p) }
  | none => page

/-- What an event writes. -/
def perform (config : RuntimeConfig) (page : RuntimePage) : RuntimeEvent → RuntimePage
  | .reserve handle => { page with
      entries := page.entries ++ [{ handle := handle }]
      mail := page.mail.post config .reserved handle .none }
  | .stop ref reason =>
      if (page.entries[ref]?).any fun p => !p.released && !p.stopRequested then
        page.tell config ref (·.stop reason) .stopRequested fun _ => reason
      else { page with entries := page.entries.modify ref (·.stop reason) }
  | .start ref =>
      page.tell config ref (fun p => { p with started := true }) .started fun _ => .started
  | .release ref => { page with
      entries := page.entries.modify ref fun p => { p with released := true } }
  | .retire ref =>
      { page.tell config ref (fun p => { p with retired := p.retired ++ [p.outcome] })
          .retired (·.outcome) with
        failures := page.failures + (if (page.entries[ref]?).any (·.outcome.failed) then 1 else 0) }
  | .take => match page.mail.queued with
    | notification :: rest => { page with mail := { page.mail with
        queued := rest, notifier := .notifying notification } }
    | [] => { page with mail := { page.mail with notifier := .exited } }
  | .deliver => { page with mail := { page.mail with
      notifier := .waiting, delivered := page.mail.delivered + 1 } }

end RuntimePage

variable {config : RuntimeConfig} {s t r : RuntimeState} {ref w j : Nat} {e : Entry}
  {reason : SessionOutcome} {type : RuntimeNotificationType} {past : List Entry}

/-! ## what an event changes -/

namespace RuntimePage

/-- What an event does to the entries. -/
def rewrite (page : RuntimePage) : RuntimeEvent → List EntryPage
  | .reserve handle => page.entries ++ [{ handle := handle }]
  | .stop ref reason => page.entries.modify ref (·.stop reason)
  | .start ref => page.entries.modify ref fun p => { p with started := true }
  | .release ref => page.entries.modify ref fun p => { p with released := true }
  | .retire ref => page.entries.modify ref fun p => { p with retired := p.retired ++ [p.outcome] }
  | .take | .deliver => page.entries

/-- The notification an event publishes. -/
def announcement (page : RuntimePage) : RuntimeEvent → Option RuntimeNotification
  | .reserve handle => some ⟨page.mail.sequence, .reserved, handle, .none⟩
  | .stop ref reason => (page.entries[ref]?).bind fun p =>
      if !p.released && !p.stopRequested then
        some ⟨page.mail.sequence, .stopRequested, p.handle, reason⟩
      else none
  | .start ref => page.entries[ref]?.map fun p =>
      ⟨page.mail.sequence, .started, p.handle, .started⟩
  | .retire ref => page.entries[ref]?.map fun p =>
      ⟨page.mail.sequence, .retired, p.handle, p.outcome⟩
  | _ => none

variable {page : RuntimePage}

/-- Telling the owner of an entry changes that entry only. -/
theorem tell_entries (f : EntryPage → EntryPage) (outcome : EntryPage → SessionOutcome) :
    (page.tell config ref f type outcome).entries = page.entries.modify ref f := by
  unfold tell
  split
  · rfl
  · next hnone => exact (modify_same (by simp [hnone])).symm

/-- An event rewrites the entries and nothing else decides how. -/
theorem perform_entries (config : RuntimeConfig) (page : RuntimePage) (event : RuntimeEvent) :
    (page.perform config event).entries = page.rewrite event := by
  cases event with
  | stop ref reason =>
      unfold perform
      dsimp only
      split
      · exact tell_entries _ _
      · rfl
  | start ref | retire ref => exact tell_entries _ _
  | take =>
      unfold perform
      dsimp only
      split <;> rfl
  | reserve handle | release ref | deliver => rfl

/-- An event posts what it announces, and no other mail. -/
theorem perform_mail (config : RuntimeConfig) (page : RuntimePage) (event : RuntimeEvent) (htake : event ≠ .take) (hdeliver : event ≠ .deliver) :
    (page.perform config event).mail = match page.announcement event with
      | some n => page.mail.post config n.type n.handle n.outcome
      | none => page.mail := by
  cases event with
  | stop ref reason =>
      simp only [perform, announcement]
      cases hp : page.entries[ref]? with
      | none => rfl
      | some p =>
          rw [Option.any_some, Option.bind_some]
          split
          · rw [tell, hp]
          · rfl
  | start ref | retire ref =>
      simp only [perform, announcement, tell]
      cases page.entries[ref]? with
      | none => rfl
      | some p => rfl
  | take => contradiction
  | deliver => contradiction
  | reserve handle | release ref => rfl

/-- Only the retirement of a failed incarnation counts as a failure. -/
theorem perform_failures (config : RuntimeConfig) (page : RuntimePage) (event : RuntimeEvent) :
    (page.perform config event).failures =
    page.failures + match event with
      | .retire ref => if (page.entries[ref]?).any (·.outcome.failed) then 1 else 0
      | _ => 0 := by
  have htell (ref : Nat) (f : EntryPage → EntryPage) (type : RuntimeNotificationType)
      (outcome : EntryPage → SessionOutcome) :
      (page.tell config ref f type outcome).failures = page.failures := by
    unfold tell
    split <;> rfl
  cases event with
  | stop ref reason =>
      unfold perform
      dsimp only
      split
      · exact htell _ _ _ _
      · rfl
  | start ref => exact htell _ _ _ _
  | retire ref => rfl
  | take =>
      unfold perform
      dsimp only
      split <;> rfl
  | reserve handle | release ref | deliver => rfl

end RuntimePage

/-! ## sections that write nothing -/

/-- What is done to an entry is done to its page. -/
theorem modify_map {f : Entry → Entry} {g : EntryPage → EntryPage} {entries : List Entry}
    (h : ∀ e, entries[ref]? = some e → (f e).page = g e.page) :
    (entries.modify ref f).map Entry.page = (entries.map Entry.page).modify ref g := by
  refine List.ext_getElem? fun k => ?_
  rw [List.getElem?_map, List.getElem?_modify, List.getElem?_modify, List.getElem?_map]
  cases he : entries[k]? with
  | none => rfl
  | some e =>
      by_cases hk : ref = k
      · subst hk
        simp [h e he]
      · simp [hk]

/-- The page of a state follows what is done to one of its entries. -/
theorem modifyEntry_page {f : Entry → Entry} {g : EntryPage → EntryPage}
    (h : ∀ e, s.entries[ref]? = some e → (f e).page = g e.page) :
    (s.modifyEntry ref f).page = { s.page with entries := s.page.entries.modify ref g } := by
  simp only [RuntimeState.page, RuntimeState.modifyEntry, modify_map h]
  rfl

/-- A section writes to an entry what nobody is told of. -/
theorem modifyEntry_silent (s : RuntimeState) (ref : Nat) {f : Entry → Entry}
    (h : ∀ e, s.entries[ref]? = some e → (f e).page = e.page) :
    (s.modifyEntry ref f).page = s.page := by
  rw [modifyEntry_page (g := id) h]
  simp only [List.modify_id]

/-- The page has the page of each entry. -/
theorem page_entry (he : s.entries[ref]? = some e) : s.page.entries[ref]? = some e.page := by
  simp [RuntimeState.page, he]

/-- What a session does by itself is not on the page. -/
theorem stepSession_silent {action : SessionAction} (hs : s.stepSession ref action = some t) :
    t.page = s.page := by
  obtain ⟨session, next, -, -, rfl⟩ := stepSession_some hs
  exact modifyEntry_silent s ref fun _ _ => rfl

/-! ## sections that publish -/

/-- A notification is mail, and nothing else. -/
theorem publish_page : (s.publish config e type).page = { s.page with
    mail := s.mail.post config type e.handle (if type = .started then .started else e.outcome) } := by
  unfold RuntimeState.publish Mail.post
  by_cases hnotify : config.notify = true
  · rw [if_pos hnotify, if_pos hnotify]
    by_cases hfull : s.sequence = maxUInt64
    · have hmail : s.mail.sequence = maxUInt64 := hfull
      rw [if_pos hmail]
      dsimp only
      rw [if_pos hfull]
      rfl
    · have hmail : s.mail.sequence ≠ maxUInt64 := hfull
      rw [if_neg hmail]
      dsimp only
      rw [if_neg hfull]
      by_cases hroom : s.notifications.length < config.maxPendingNotifications ∧
          ¬config.allocationFails s.sequence = true
      · have hmail : s.mail.queued.length < config.maxPendingNotifications ∧
            ¬config.allocationFails s.mail.sequence = true := hroom
        rw [if_pos hroom, if_pos hmail]
        rfl
      · have hmail : ¬(s.mail.queued.length < config.maxPendingNotifications ∧
            ¬config.allocationFails s.mail.sequence = true) := hroom
        rw [if_neg hroom, if_neg hmail]
        rfl
  · rw [if_neg hnotify, if_neg hnotify]
    rfl

/-- Stopping an entry stops its page. -/
theorem stop_page (e : Entry) (reason : SessionOutcome) : (e.stop reason).page = e.page.stop reason := by
  have haccepts : e.page.accepts reason = e.acceptsStop reason := by
    simp [EntryPage.accepts, Entry.acceptsStop, Entry.page]
  rw [EntryPage.stop, haccepts, Entry.stop]
  split
  · next hacc =>
      simp only [Entry.acceptsStop, Bool.and_eq_true, decide_eq_true_eq] at hacc
      simp [Entry.page, hacc.1]
  · rfl

/-- A stop that is accepted leaves its reason. -/
theorem stop_outcome (h : e.acceptsStop reason = true) : (e.stop reason).outcome = reason := by
  rw [Entry.stop, if_pos h]

/-- `stop_entry` performs one stop. -/
theorem stopEntry_page :
    (s.stopEntry config ref reason).page = s.page.perform config (.stop ref reason) := by
  have hmodify (r : RuntimeState) : (r.modifyEntry ref (·.stop reason)).page =
      { r.page with entries := r.page.entries.modify ref (·.stop reason) } :=
    modifyEntry_page fun e _ => stop_page e reason
  unfold RuntimeState.stopEntry
  cases he : s.entries[ref]? with
  | none =>
      have hpage : s.page.entries[ref]? = none := by simp [RuntimeState.page, he]
      have hsame : s.page.entries.modify ref (·.stop reason) = s.page.entries :=
        modify_same (by simp [hpage])
      simp only [RuntimePage.perform, hpage, Option.any_none, Bool.false_eq_true, if_false, hsame]
  | some e =>
      have hpage := page_entry he
      dsimp only
      by_cases hacc : e.acceptsStop reason = true
      · rw [if_pos hacc]
        have hqueue : (if e.cancelsReservation then { s with pending := s.pending.erase ref }
            else s).page = s.page := by split <;> rfl
        generalize (if e.cancelsReservation then { s with pending := s.pending.erase ref }
          else s) = r at hqueue ⊢
        have hreleased : e.page.released = false := by
          simp only [Entry.acceptsStop, Bool.and_eq_true, decide_eq_true_eq] at hacc
          simp [Entry.page, hacc.1]
        by_cases hfirst : e.stopRequested = true
        · have hseen : e.page.stopRequested = true := hfirst
          rw [if_pos hfirst, hmodify, hqueue]
          simp [RuntimePage.perform, hpage, hseen]
        · have hseen : e.page.stopRequested = false := by simpa [Entry.page] using hfirst
          rw [if_neg hfirst, publish_page, hmodify, hqueue]
          have hmail : (r.modifyEntry ref (·.stop reason)).mail = s.page.mail :=
            congrArg RuntimePage.mail hqueue
          rw [hmail, stop_handle, stop_outcome hacc]
          have hhandle : e.page.handle = e.handle := rfl
          simp [RuntimePage.perform, RuntimePage.tell, hpage, hseen, hreleased, hhandle]
      · rw [if_neg hacc]
        have hsame : e.page.stop reason = e.page := by
          rw [← stop_page, Entry.stop, if_neg hacc]
        have hentries : s.page.entries.modify ref (·.stop reason) = s.page.entries := by
          refine modify_same fun p hp => ?_
          obtain rfl := Option.some.inj (hpage.symm.trans hp)
          exact hsame
        have hnot : (!e.page.released && !e.page.stopRequested) = false := by
          simp only [Entry.acceptsStop] at hacc
          simp only [Entry.page]
          grind
        simp only [RuntimePage.perform, hpage, Option.any_some, hnot, Bool.false_eq_true, if_false,
          hentries]

/-- Both forms of the identity check find the same entry. -/
theorem remove_eq (s : RuntimeState) (config : RuntimeConfig) (handle : SessionHandle)
    (reason : SessionOutcome) : (s.remove config handle reason).1 =
      match s.matching config handle with
      | some (ref, _) => s.stopEntry config ref reason
      | none => s := by
  unfold RuntimeState.remove RuntimeState.matching
  by_cases hruntime : handle.runtimeId ≠ config.runtimeId
  · rw [if_pos hruntime, if_pos hruntime]
  · rw [if_neg hruntime, if_neg hruntime]
    cases (s.registry.lookup handle.id).bind fun ref =>
        s.entries[ref]?.map fun entry => (ref, entry) with
    | none => rfl
    | some found =>
        obtain ⟨ref, e⟩ := found
        dsimp only
        by_cases hgeneration : e.handle.generation ≠ handle.generation
        · rw [if_pos hgeneration.symm, if_pos hgeneration]
        · rw [if_neg hgeneration, if_neg fun hne => hgeneration (Ne.symm hne)]

/-- `remove` performs the stop of the incarnation it finds. -/
theorem remove_page {handle : SessionHandle} : (s.remove config handle reason).1.page =
    (stopFound (s.matching config handle) reason).foldl (RuntimePage.perform config) s.page := by
  rw [remove_eq]
  cases s.matching config handle with
  | none => rfl
  | some found => exact stopEntry_page

/-- A sweep performs its stops one after the other. -/
theorem stopAll_page {s : RuntimeState} {order : List Nat} :
    (order.foldl (fun s ref => s.stopEntry config ref reason) s).page =
      (order.map (.stop · reason)).foldl (RuntimePage.perform config) s.page := by
  induction order generalizing s with
  | nil => rfl
  | cons ref order ih =>
      rw [List.foldl_cons, ih, List.map_cons, List.foldl_cons, stopEntry_page]

/-- `add` performs the admission it answers with. -/
theorem add_page {id : Bytes} {factory : Option Nat} {allocationFails : Bool} :
    (s.add config id factory allocationFails).1.page =
      (runtimeEvents config s (.add id factory allocationFails)).foldl
        (RuntimePage.perform config) s.page := by
  have hrejected (status : AdmissionStatus) : (s.recordRejection status).page = s.page := by
    cases status <;> rfl
  unfold runtimeEvents
  dsimp only
  unfold RuntimeState.add
  split
  · exact hrejected .invalidRequest
  · cases hstatus : s.admissionStatus config id with
    | accepted =>
        dsimp only
        split
        · rfl
        · dsimp only
          rw [RuntimeState.reserve, publish_page]
          simp only [RuntimeState.page, List.map_append, List.map_singleton]
          rfl
    | _ => exact hrejected _

/-- A start that ends in a stop changes nothing on the page. -/
theorem conclude_silent (h : e.stopRequested = true) : e.conclude.page = e.page := by
  rw [Entry.conclude, if_pos h]
  rfl

/-- A start that is over promises its outcome. -/
theorem conclude_page (h : Sound e) (hdone : e.startupDone = false) (hstop : e.stopRequested = false) :
    e.conclude.page = { e.page with started := true } := by
  have hretiring : e.phase ≠ .retiring := (h.starting hdone).2.2.2.2.2
  rw [Entry.conclude, if_neg (by simp [hstop])]
  simp [Entry.page, hretiring]

/-- The end of a start performs what it announces. -/
theorem concludeStartup_page {failed : Bool} (hp : EntriesPlaced past s)
    (hw : s.workers[w]? = some (.concluding ref failed))
    (hs : s.concludeStartup config w ref failed = some t) :
    t.page = (runtimeEvents config s (.startup w .conclude)).foldl
      (RuntimePage.perform config) s.page := by
  obtain ⟨e, he, hok⟩ := hp.held.holds w _ ref hw rfl
  have hsound := (hp.live.each ref e he).sound
  have hsilent {r : RuntimeState} (hr : ∀ d, r.entries[ref]? = some d → d.stopRequested = true) :
      (r.modifyEntry ref Entry.conclude).page = r.page :=
    modifyEntry_silent r ref fun d hd => conclude_silent (hr d hd)
  unfold runtimeEvents
  simp only [hw]
  unfold RuntimeState.concludeStartup at hs
  cases failed with
  | true =>
      rw [if_pos rfl] at hs
      obtain ⟨d, hd, rfl⟩ := Option.map_eq_some_iff.mp hs
      have hstopped : d.stopRequested = true := by
        rw [stopEntry_entry he] at hd
        rw [← Option.some.inj hd]
        exact stop_stopped (hsound.starting hok.notDone).2.2.2.2.2
      dsimp only
      rw [if_pos hstopped]
      show ((s.stopEntry config ref .startupFailed).modifyEntry ref Entry.conclude).page = _
      rw [hsilent fun c hc => Option.some.inj (hd.symm.trans hc) ▸ hstopped, stopEntry_page]
      rfl
  | false =>
      rw [if_neg (by simp)] at hs
      obtain ⟨d, hd, rfl⟩ := Option.map_eq_some_iff.mp hs
      obtain rfl := Option.some.inj (hd.symm.trans he)
      rw [he]
      dsimp only
      by_cases hstopped : d.stopRequested = true
      · rw [if_pos hstopped]
        show (s.modifyEntry ref Entry.conclude).page = _
        rw [hsilent fun c hc => Option.some.inj (hd.symm.trans hc) ▸ hstopped]
        simp [hstopped]
      · have hunstopped : d.stopRequested = false := by simpa using hstopped
        have hmodify : (s.modifyEntry ref Entry.conclude).page = { s.page with
            entries := s.page.entries.modify ref fun p => { p with started := true } } := by
          refine modifyEntry_page fun c hc => ?_
          obtain rfl := Option.some.inj (hd.symm.trans hc)
          exact conclude_page hsound hok.notDone hunstopped
        have hevents : (if false = true then [RuntimeEvent.stop ref .startupFailed]
            else if (some d).any (·.stopRequested) then [] else [.start ref]) = [.start ref] := by
          simp [hunstopped]
        have hentries := congrArg RuntimePage.entries hmodify
        rw [if_neg hstopped, publish_page, hevents]
        simp only [List.foldl_cons, List.foldl_nil, RuntimePage.perform, RuntimePage.tell,
          page_entry he, if_true, (conclude_same d).1]
        exact RuntimePage.ext hentries rfl rfl

/-- The supervisor performs what the session reports. -/
theorem report_page {lifecycle : SessionLifecycle} {rest : List Nat}
    (hsup : s.supervisor = .visiting ref (.reporting lifecycle) rest)
    (hs : s.report config ref lifecycle = some t) :
    t.page = (runtimeEvents config s (.supervisor .report)).foldl
      (RuntimePage.perform config) s.page := by
  obtain ⟨e, he, rfl⟩ := Option.map_eq_some_iff.mp hs
  unfold runtimeEvents
  simp only [hsup, he, Option.any_some]
  split
  · exact stopEntry_page
  · split
    · rfl
    · exact stopEntry_page

/-- The last step performs the retirement. -/
theorem finalize_page {rest : List Nat} (hs : s.finalize config ref rest = some t) :
    t.page = s.page.perform config (.retire ref) := by
  obtain ⟨e, he, rfl⟩ := Option.map_eq_some_iff.mp hs
  have hpage := page_entry he
  have hmodify : (s.modifyEntry ref Entry.finish).page = { s.page with
      entries := s.page.entries.modify ref fun p => { p with retired := p.retired ++ [p.outcome] } } :=
    modifyEntry_page fun _ _ => rfl
  have hentries := congrArg RuntimePage.entries hmodify
  dsimp only
  rw [publish_page]
  simp only [RuntimePage.perform, RuntimePage.tell, hpage, Option.any_some]
  exact RuntimePage.ext hentries rfl rfl

/-! ## every step -/

/-- An operation performs a failure or nothing. -/
theorem operation_page {action : OperationAction} (hs : operationStep config s j action = some t) :
    t.page = (runtimeEvents config s (.operation j action)).foldl
      (RuntimePage.perform config) s.page := by
  cases action with
  | enter =>
      simp only [operationStep] at hs
      split at hs <;> try contradiction
      split at hs <;> try contradiction
      split at hs
      · obtain ⟨session, -, hs⟩ := Option.bind_eq_some_iff.mp hs
        obtain ⟨r, hr, rfl⟩ := Option.map_eq_some_iff.mp hs
        have hsilent := stepSession_silent hr
        exact hsilent
      · obtain rfl := Option.some.inj hs
        rfl
  | leave i threw =>
      simp only [operationStep] at hs
      split at hs <;> try contradiction
      split at hs <;> try contradiction
      split at hs <;> try contradiction
      obtain ⟨r, hr, rfl⟩ := Option.map_eq_some_iff.mp hs
      have hsilent := stepSession_silent hr
      exact hsilent
  | report =>
      simp only [operationStep] at hs
      split at hs <;> try contradiction
      next op hop =>
      split at hs <;> try contradiction
      obtain rfl := Option.some.inj hs
      unfold runtimeEvents
      simp only [hop]
      exact remove_page
  | finish =>
      simp only [operationStep] at hs
      split at hs <;> try contradiction
      next op hop =>
      split at hs <;> try contradiction
      obtain rfl := Option.some.inj hs
      exact modifyEntry_silent s op.ref fun _ _ => rfl

/-- Taking up an incarnation changes nothing that is announced. -/
theorem take_page (hp : EntriesPlaced past s) (hs : s.takePending w = some t) : t.page = s.page := by
  unfold RuntimeState.takePending at hs
  split at hs
  · split at hs <;> try contradiction
    obtain rfl := Option.some.inj hs
    rfl
  · next ref rest hpending =>
    obtain ⟨e, he, rfl⟩ := Option.map_eq_some_iff.mp hs
    obtain ⟨d, hd, hphase⟩ := (hp.queued.mem_iff ref).mp (by simp [hpending])
    obtain rfl := Option.some.inj (hd.symm.trans he)
    have htake : (s.modifyEntry ref Entry.take).page = s.page := by
      refine modifyEntry_silent s ref fun c hc => ?_
      obtain rfl := Option.some.inj (hd.symm.trans hc)
      simp only [Entry.take, Entry.page, hphase]
      split <;> simp
    dsimp only
    split <;> exact htake

/-- A worker performs what its start comes to. -/
theorem startup_page {action : StartupAction} (hp : EntriesPlaced past s)
    (hs : startupStep config s w action = some t) :
    t.page = (runtimeEvents config s (.startup w action)).foldl
      (RuntimePage.perform config) s.page := by
  cases action with
  | take =>
      simp only [startupStep] at hs
      split at hs <;> try contradiction
      exact take_page hp hs
  | made sessionConfig dependencies =>
      simp only [startupStep] at hs
      split at hs <;> try contradiction
      split at hs <;> try contradiction
      split at hs <;> try contradiction
      obtain rfl := Option.some.inj hs
      rfl
  | threw =>
      simp only [startupStep] at hs
      split at hs <;> try contradiction
      obtain rfl := Option.some.inj hs
      rfl
  | store =>
      simp only [startupStep] at hs
      split at hs <;> try contradiction
      next ref session dependencies hw =>
      obtain ⟨e, -, rfl⟩ := Option.map_eq_some_iff.mp hs
      exact modifyEntry_silent s ref fun _ _ => rfl
  | callStart =>
      simp only [startupStep] at hs
      split at hs <;> try contradiction
      obtain ⟨session, -, hs⟩ := Option.bind_eq_some_iff.mp hs
      obtain ⟨r, hr, rfl⟩ := Option.map_eq_some_iff.mp hs
      have hsilent := stepSession_silent hr
      exact hsilent
  | startReturned =>
      simp only [startupStep] at hs
      split at hs <;> try contradiction
      obtain ⟨session, -, hs⟩ := Option.bind_eq_some_iff.mp hs
      split at hs <;> try contradiction
      obtain ⟨r, hr, rfl⟩ := Option.map_eq_some_iff.mp hs
      have hsilent := stepSession_silent hr
      exact hsilent
  | handle =>
      simp only [startupStep] at hs
      split at hs <;> try contradiction
      obtain ⟨e, -, rfl⟩ := Option.map_eq_some_iff.mp hs
      rfl
  | conclude =>
      simp only [startupStep] at hs
      split at hs <;> try contradiction
      next ref failed hw => exact concludeStartup_page hp hw hs

/-- Looking at an incarnation performs nothing, or the release of its session. -/
theorem check_page {rest : List Nat} (hsup : s.supervisor = .visiting ref .checking rest)
    (hs : s.check ref rest = some t) :
    t.page = (runtimeEvents config s (.supervisor .check)).foldl
      (RuntimePage.perform config) s.page := by
  obtain ⟨e, he, rfl⟩ := Option.map_eq_some_iff.mp hs
  unfold runtimeEvents
  simp only [hsup, he, Option.any_some]
  have hrelease : (s.modifyEntry ref Entry.release).page = { s.page with
      entries := s.page.entries.modify ref fun p => { p with released := true } } :=
    modifyEntry_page fun _ _ => rfl
  by_cases hidle : e.operations = 0
  · rw [if_neg (by simpa using hidle), if_pos (by simpa using hidle)]
    exact hrelease
  · rw [if_pos hidle, if_neg (by simpa using hidle)]
    rfl

/-- Each step of the supervisor performs its events. -/
theorem supervisor_page {action : SupervisorAction} (hs : supervisorStep config s action = some t) :
    t.page = (runtimeEvents config s (.supervisor action)).foldl
      (RuntimePage.perform config) s.page := by
  cases action with
  | collect order =>
      simp only [supervisorStep] at hs
      split at hs <;> try contradiction
      unfold RuntimeState.collect at hs
      split at hs
      · obtain rfl := Option.some.inj hs
        rfl
      · split at hs <;> try contradiction
        obtain rfl := Option.some.inj hs
        rfl
  | visit =>
      simp only [supervisorStep] at hs
      split at hs <;> try contradiction
      · obtain rfl := Option.some.inj hs
        rfl
      · obtain ⟨e, -, rfl⟩ := Option.map_eq_some_iff.mp hs
        split <;> rfl
  | observe =>
      simp only [supervisorStep] at hs
      split at hs <;> try contradiction
      obtain ⟨session, -, rfl⟩ := Option.map_eq_some_iff.mp hs
      split <;> rfl
  | report =>
      simp only [supervisorStep] at hs
      split at hs <;> try contradiction
      next ref lifecycle rest hsup =>
      obtain ⟨r, hr, rfl⟩ := Option.map_eq_some_iff.mp hs
      have hpage := report_page hsup hr
      exact hpage
  | flush =>
      simp only [supervisorStep] at hs
      split at hs <;> try contradiction
      obtain ⟨session, -, rfl⟩ := Option.map_eq_some_iff.mp hs
      split <;> rfl
  | check =>
      simp only [supervisorStep] at hs
      split at hs <;> try contradiction
      next ref rest hsup => exact check_page hsup hs
  | destroy | releaseDependencies | wake =>
      simp only [supervisorStep] at hs
      split at hs <;> try contradiction
      obtain rfl := Option.some.inj hs
      rfl
  | finalize =>
      simp only [supervisorStep] at hs
      split at hs <;> try contradiction
      next ref rest hsup =>
      unfold runtimeEvents
      simp only [hsup]
      exact finalize_page hs

/-- The notifier performs what it takes and delivers. -/
theorem notifier_page {action : NotifierAction} (hs : notifierStep s action = some t) :
    t.page = (runtimeEvents config s (.notifier action)).foldl
      (RuntimePage.perform config) s.page := by
  cases action with
  | take =>
      simp only [notifierStep] at hs
      split at hs <;> try contradiction
      split at hs
      · next notification rest hqueue =>
        obtain rfl := Option.some.inj hs
        have hmail : s.page.mail.queued = notification :: rest := hqueue
        unfold runtimeEvents
        simp only [List.foldl_cons, List.foldl_nil, RuntimePage.perform, hmail]
        rfl
      · next hqueue =>
        split at hs <;> try contradiction
        obtain rfl := Option.some.inj hs
        unfold runtimeEvents
        simp only [List.foldl_cons, List.foldl_nil, RuntimePage.perform]
        split
        · next hmail =>
          have hfull : s.notifications = _ := hmail
          rw [hqueue] at hfull
          contradiction
        · rfl
  | notified threw =>
      simp only [notifierStep] at hs
      split at hs <;> try contradiction
      obtain rfl := Option.some.inj hs
      rfl

/-- **Step lemma**: the events of a step are all that happens to the page. -/
theorem step_page {a : RuntimeAction} (hp : EntriesPlaced past s)
    (hs : runtimeStep config s a = some t) :
    t.page = (runtimeEvents config s a).foldl (RuntimePage.perform config) s.page := by
  cases a with
  | add id factory allocationFails =>
      obtain rfl := Option.some.inj hs
      exact add_page
  | remove handle | fail handle =>
      obtain rfl := Option.some.inj hs
      exact remove_page
  | operate handle call =>
      simp only [runtimeStep] at hs
      split at hs <;> try contradiction
      obtain rfl := Option.some.inj hs
      unfold RuntimeState.admitOperation
      split
      · rfl
      · next ref e hm =>
        split
        · exact modifyEntry_silent s ref fun _ _ => rfl
        · rfl
  | operation j action => exact operation_page hs
  | requestShutdown order =>
      simp only [runtimeStep] at hs
      split at hs <;> try contradiction
      obtain rfl := Option.some.inj hs
      unfold runtimeEvents
      dsimp only
      unfold RuntimeState.requestShutdown
      by_cases hrunning : s.counters.lifecycle = .running
      · rw [if_neg (by simp [hrunning]), if_pos hrunning, stopAll_page]
        rfl
      · rw [if_pos hrunning, if_neg hrunning]
        rfl
  | startup w action => exact startup_page hp hs
  | supervisor action => exact supervisor_page hs
  | notifier action => exact notifier_page hs
  | session ref action =>
      simp only [runtimeStep] at hs
      split at hs <;> try contradiction
      exact stepSession_silent hs
  | ownedSession action =>
      simp only [runtimeStep] at hs
      split at hs <;> try contradiction
      split at hs <;> try contradiction
      obtain ⟨next, -, rfl⟩ := Option.map_eq_some_iff.mp hs
      rfl

/-! ## the ledger -/

/-- The history of a run. -/
structure Ledger where
  /-- The reasons applied to the entries before they were released, in their order. -/
  applied : List (Nat × SessionOutcome) := []
  published : List RuntimeNotification := []
  delivered : List RuntimeNotification := []

/-- The reasons applied to one entry. -/
def Ledger.reasons (ledger : Ledger) (ref : Nat) : List SessionOutcome :=
  (ledger.applied.filter (·.1 = ref)).map (·.2)

namespace RuntimePage

/-- The reason an event applies. -/
def application (page : RuntimePage) : RuntimeEvent → List (Nat × SessionOutcome)
  | .stop ref reason =>
      if (page.entries[ref]?).any fun p => !p.released then [(ref, reason)] else []
  | _ => []

end RuntimePage

/-- The notification the observer is called with. -/
def NotifierPlace.inFlight : NotifierPlace → List RuntimeNotification
  | .notifying notification => [notification]
  | _ => []

/-- An event is written down. -/
def Ledger.record (config : RuntimeConfig) (page : RuntimePage) (ledger : Ledger)
    (event : RuntimeEvent) : Ledger where
  applied := ledger.applied ++ page.application event
  published := ledger.published ++
    if config.notify then (page.announcement event).toList else []
  delivered := ledger.delivered ++
    if event = .deliver then page.mail.notifier.inFlight else []

/-- The events of a section, one after another. -/
def recordAll (config : RuntimeConfig) (page : RuntimePage) (ledger : Ledger) :
    List RuntimeEvent → RuntimePage × Ledger
  | [] => (page, ledger)
  | event :: rest =>
      recordAll config (page.perform config event) (ledger.record config page event) rest

/-- A manager with its ledger. -/
def ledgeredRuntime (config : RuntimeConfig) : Machine (RuntimeState × Ledger) RuntimeAction :=
  (runtimeManager config).observed {} fun s a ledger =>
    (recordAll config s.page ledger (runtimeEvents config s a)).2

/-! ## what an event meets -/

/-- When an event may happen. -/
def RuntimePage.Legal (page : RuntimePage) : RuntimeEvent → Prop
  | .reserve handle => ∀ p ∈ page.entries, p.handle ≠ handle
  | .stop _ _ | .release _ => True
  | .start ref => ∀ p, page.entries[ref]? = some p →
      p.started = false ∧ p.stopRequested = false ∧ p.retired = []
  | .retire ref => ∀ p, page.entries[ref]? = some p →
      p.released = true ∧ p.stopRequested = true ∧ p.retired = []
  | .take => page.mail.notifier = .waiting
  | .deliver => ∃ notification, page.mail.notifier = .notifying notification

/-- Each event is legal when its turn comes. -/
def LegalAll (config : RuntimeConfig) (page : RuntimePage) : List RuntimeEvent → Prop
  | [] => True
  | event :: rest => page.Legal event ∧ LegalAll config (page.perform config event) rest

/-- One legal event is a legal sequence. -/
theorem legalAll_single {page : RuntimePage} {event : RuntimeEvent} (h : page.Legal event) :
    LegalAll config page [event] := ⟨h, trivial⟩

/-- Stops are legal everywhere. -/
theorem legalAll_stops {page : RuntimePage} {order : List Nat} :
    LegalAll config page (order.map (.stop · reason)) := by
  induction order generalizing page with
  | nil => trivial
  | cons ref order ih => exact ⟨trivial, ih⟩

/-- So is the stop of what was found. -/
theorem legalAll_found {page : RuntimePage} (found : Option (Nat × Entry)) :
    LegalAll config page (stopFound found reason) := by
  cases found with
  | none => trivial
  | some found => exact legalAll_single trivial

/-- Every page of an entry is the page of an entry. -/
theorem page_cases {p : EntryPage} (h : s.page.entries[ref]? = some p) :
    ∃ e, s.entries[ref]? = some e ∧ e.page = p := by
  simpa [RuntimeState.page, Option.map_eq_some_iff] using h

/-- An accepted admission has the next generation. -/
theorem add_accepted {id : Bytes} {factory : Option Nat} {allocationFails : Bool}
    {admission : SessionAdmission}
    (hadd : (s.add config id factory allocationFails).2 = some admission)
    (haccepted : admission.status = .accepted) : admission.handle.generation = s.generation := by
  unfold RuntimeState.add at hadd
  split at hadd
  · cases hadd
    contradiction
  · split at hadd
    · dsimp only at hadd
      split at hadd
      · contradiction
      · cases hadd
        rfl
    · next hstatus =>
      cases hadd
      contradiction

/-- An admission is legal: its handle is new. -/
theorem add_legal {id : Bytes} {factory : Option Nat} {allocationFails : Bool}
    (ha : Admissions config s) :
    LegalAll config s.page (runtimeEvents config s (.add id factory allocationFails)) := by
  unfold runtimeEvents
  dsimp only
  split
  · next admission hadd =>
    split
    · next haccepted =>
      refine legalAll_single fun p hp heq => ?_
      obtain ⟨e, hmem, rfl⟩ := List.mem_map.mp hp
      have hissued := ha.issued e.handle (List.mem_map.mpr ⟨e, hmem, rfl⟩)
      have hgeneration : e.handle.generation = admission.handle.generation :=
        congrArg (·.generation) heq
      rw [add_accepted hadd haccepted] at hgeneration
      omega
    · trivial
  · trivial

/-- The end of a start is legal: it promises what was not promised. -/
theorem conclude_legal (hp : EntriesPlaced past s) :
    LegalAll config s.page (runtimeEvents config s (.startup w .conclude)) := by
  unfold runtimeEvents
  dsimp only
  split
  · next ref failed hw =>
    obtain ⟨e, he, hok⟩ := hp.held.holds w _ ref hw rfl
    have hsound := (hp.live.each ref e he).sound
    obtain ⟨-, -, -, hreached, -, hretiring⟩ := hsound.starting hok.notDone
    split
    · exact legalAll_single trivial
    · rw [he, Option.any_some]
      split
      · trivial
      · next hstop =>
        refine legalAll_single fun p hp' => ?_
        obtain ⟨d, hd, rfl⟩ := page_cases hp'
        obtain rfl := Option.some.inj (hd.symm.trans he)
        have hunstopped : d.stopRequested = false := by simpa using hstop
        exact ⟨hreached, hunstopped, hsound.not_retired hretiring⟩
  · trivial

/-- A retirement is legal: it comes after the start, and once. -/
theorem finalize_legal (hp : EntriesPlaced past s) :
    LegalAll config s.page (runtimeEvents config s (.supervisor .finalize)) := by
  unfold runtimeEvents
  dsimp only
  split
  · next ref rest hsup =>
    obtain ⟨e, he, hok⟩ := hp.scanned.visiting ref _ rest hsup
    have hsound := (hp.live.each ref e he).sound
    obtain ⟨hphase, hretired⟩ := hok.late rfl
    refine legalAll_single fun p hp' => ?_
    obtain ⟨d, hd, rfl⟩ := page_cases hp'
    obtain rfl := Option.some.inj (hd.symm.trans he)
    have hstop : d.stopRequested = true := by
      by_contra hstop
      exact (hsound.unstopped (by simpa using hstop)).2.2.2 hphase
    exact ⟨by simp [Entry.page, hphase], hstop, hretired⟩
  · trivial

/-- The events of a step are legal. -/
theorem events_legal {a : RuntimeAction} (hr : (runtimeManager config).Reachable s)
    (hs : runtimeStep config s a = some t) : LegalAll config s.page (runtimeEvents config s a) := by
  have hp := entriesPlaced_of_reachable hr
  cases a with
  | add id factory allocationFails => exact add_legal (admissions_of_reachable hr)
  | remove handle | fail handle => exact legalAll_found _
  | operation j action =>
      cases action with
      | report =>
          unfold runtimeEvents
          dsimp only
          split
          · exact legalAll_found _
          · trivial
      | _ => trivial
  | requestShutdown order =>
      unfold runtimeEvents
      dsimp only
      split
      · exact legalAll_stops
      · trivial
  | startup w action =>
      cases action with
      | conclude => exact conclude_legal hp
      | _ => trivial
  | supervisor action =>
      cases action with
      | report =>
          unfold runtimeEvents
          dsimp only
          split
          · split
            · exact legalAll_single trivial
            · split
              · trivial
              · exact legalAll_single trivial
          · trivial
      | check =>
          unfold runtimeEvents
          dsimp only
          split
          · split
            · exact legalAll_single trivial
            · trivial
          · trivial
      | finalize => exact finalize_legal hp
      | _ => trivial
  | notifier action =>
      cases action with
      | take =>
          simp only [runtimeStep, notifierStep] at hs
          split at hs <;> try contradiction
          next hplace => exact legalAll_single hplace
      | notified threw =>
          simp only [runtimeStep, notifierStep] at hs
          split at hs <;> try contradiction
          next notification hplace => exact legalAll_single ⟨notification, hplace⟩
  | operate handle call | session ref action | ownedSession action => trivial

/-! ## the invariant rule -/

/-- Recording does not change the page. -/
theorem recordAll_page {page : RuntimePage} {ledger : Ledger} {events : List RuntimeEvent} :
    (recordAll config page ledger events).1 = events.foldl (RuntimePage.perform config) page := by
  induction events generalizing page ledger with
  | nil => rfl
  | cons event rest ih => exact ih

/-- What every legal event keeps is kept by a legal sequence. -/
theorem LegalAll.rec_inv {P : RuntimePage → Ledger → Prop}
    (hstep : ∀ page ledger event, P page ledger → page.Legal event →
      P (page.perform config event) (ledger.record config page event))
    {page : RuntimePage} {ledger : Ledger} {events : List RuntimeEvent} (hp : P page ledger)
    (h : LegalAll config page events) :
    P (recordAll config page ledger events).1 (recordAll config page ledger events).2 := by
  induction events generalizing page ledger with
  | nil => exact hp
  | cons event rest ih => exact ih (hstep page ledger event hp h.1) h.2

/-- **Ledger rule**: what holds of the first page and the empty ledger, and is kept
by every legal event, holds along every run. -/
theorem ledger_rec_inv {P : RuntimePage → Ledger → Prop} {ledger : Ledger}
    (hinit : P {} {})
    (hstep : ∀ page ledger event, P page ledger → page.Legal event →
      P (page.perform config event) (ledger.record config page event))
    (h : (ledgeredRuntime config).Reachable (s, ledger)) : P s.page ledger := by
  refine Machine.Reachable.rec_inv (P := fun x => P x.1.page x.2) hinit ?_ h
  rintro ⟨s, ledger⟩ a ⟨t, ledger'⟩ hr hp hs
  obtain ⟨hrun, rfl⟩ := Machine.observed_step.mp hs
  have hsection : runtimeStep config s a = some t := hrun
  have hreach : (runtimeManager config).Reachable s := hr.of_observed
  have hpage := step_page (entriesPlaced_of_reachable hreach) hsection
  have hkept := LegalAll.rec_inv hstep hp (events_legal hreach hsection)
  rw [recordAll_page, ← hpage] at hkept
  exact hkept

end ByteTurn

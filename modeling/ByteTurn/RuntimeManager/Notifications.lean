import ByteTurn.RuntimeManager.Outcome
import ByteTurn.RuntimeManager.Tickets
import ByteTurn.RuntimeManager.Unheard

/-!
# ByteTurn.RuntimeManager.Notifications

The notifications of a manager are an ordered log that may lose entries, and
says so.

`Posted` is about the numbers: what was published is carried to the observer in
its order, or counted as dropped, in the range the counters name.  `Told` is
about the sessions: what was published of an entry is its story so far.
-/

namespace ByteTurn

open Incarnation

variable {config : RuntimeConfig} {s t : RuntimeState} {ledger : Ledger} {page : RuntimePage}
  {ref : Nat} {e : Entry} {published delivered : List RuntimeNotification} {mail : Mail}

/-! ## numbers -/

/-- What reaches the observer, in its order: delivered, in flight, queued. -/
def Mail.carried (mail : Mail) (delivered : List RuntimeNotification) : List RuntimeNotification :=
  delivered ++ mail.notifier.inFlight ++ mail.queued

/-- The range of the dropped numbers. -/
def Mail.dropRange (mail : Mail) (number : Nat) : Prop :=
  mail.firstDropped ≠ 0 ∧ mail.firstDropped ≤ number ∧ number ≤ mail.lastDropped

/-- The books of the notifications. -/
structure Posted (config : RuntimeConfig) (mail : Mail)
    (published delivered : List RuntimeNotification) : Prop where
  number : mail.sequence = min (published.length + 1) maxUInt64
  numbered : ∀ n ∈ published, 0 < n.sequence ∧ n.sequence ≤ mail.sequence
  kept : (mail.carried delivered).Sublist published
  increasing : (mail.carried delivered).Pairwise fun n n' => n.sequence < n'.sequence
  below : ∀ n ∈ mail.carried delivered, n.sequence < mail.sequence
  total : published.length = (mail.carried delivered).length + mail.dropped
  dropped : ∀ n ∈ published, n ∈ mail.carried delivered ∨ mail.dropRange n.sequence
  first : mail.firstDropped ≤ mail.sequence
  last : mail.lastDropped ≤ mail.sequence
  counted : mail.delivered = delivered.length
  enqueued : mail.enqueued = (mail.carried delivered).length
  bounded : mail.queued.length ≤ config.maxPendingNotifications

theorem Posted.init (config : RuntimeConfig) : Posted config {} [] [] := by
  constructor <;> simp [Mail.carried, NotifierPlace.inFlight, maxUInt64]

/-- A notification carries the next number. -/
theorem announcement_sequence {event : RuntimeEvent} {n : RuntimeNotification}
    (h : page.announcement event = some n) : n.sequence = page.mail.sequence := by
  cases event with
  | reserve handle =>
      obtain rfl := Option.some.inj h
      rfl
  | stop ref reason =>
      obtain ⟨p, -, hp⟩ := Option.bind_eq_some_iff.mp h
      split at hp <;> try contradiction
      obtain rfl := Option.some.inj hp
      rfl
  | start ref | retire ref =>
      obtain ⟨p, -, rfl⟩ := Option.map_eq_some_iff.mp h
      rfl
  | release ref | take | deliver => contradiction

/-- The next number is positive, and the one after it is not smaller. -/
theorem number_grows {number next length : Nat} (hnumber : number = min (length + 1) maxUInt64)
    (hnext : next = min (length + 2) maxUInt64) : 0 < number ∧ number ≤ next := by
  have hlimit : 0 < maxUInt64 := by decide
  generalize maxUInt64 = limit at hnumber hnext hlimit
  omega

/-- A number that is not queued is counted, and lies in the range after that. -/
theorem Posted.drop {mail' : Mail} {n : RuntimeNotification} (h : Posted config mail published delivered)
    (hsequence : n.sequence = mail.sequence)
    (hcarried : mail'.carried delivered = mail.carried delivered)
    (hnumber : mail'.sequence = min (published.length + 2) maxUInt64)
    (hdropped : mail'.dropped = mail.dropped + 1)
    (hfirst : mail'.firstDropped = if mail.firstDropped = 0 then n.sequence else mail.firstDropped)
    (hlast : mail'.lastDropped = n.sequence) (hqueued : mail'.queued = mail.queued)
    (hdelivered : mail'.delivered = mail.delivered) (henqueued : mail'.enqueued = mail.enqueued) :
    Posted config mail' (published ++ [n]) delivered := by
  obtain ⟨hpos, hgrows⟩ := number_grows h.number hnumber
  rw [← hsequence] at hpos
  have hfirstOld := h.first
  have hlastOld := h.last
  constructor
  · rw [List.length_append, List.length_singleton, hnumber]
  · intro m hm
    clear hnumber
    cases List.mem_append.mp hm with
    | inl hm =>
        have hnumbered := h.numbered m hm
        omega
    | inr hm =>
        rw [List.mem_singleton.mp hm]
        omega
  · rw [hcarried]
    exact h.kept.trans (List.sublist_append_left _ _)
  · rw [hcarried]
    exact h.increasing
  · intro m hm
    rw [hcarried] at hm
    exact Nat.lt_of_lt_of_le (h.below m hm) hgrows
  · rw [hcarried, List.length_append, List.length_singleton, hdropped, h.total]
    rfl
  · intro m hm
    clear hnumber
    rw [hcarried]
    cases List.mem_append.mp hm with
    | inl hm =>
        cases h.dropped m hm with
        | inl hkept => exact .inl hkept
        | inr hrange =>
            obtain ⟨hne, hle, hge⟩ := hrange
            rw [if_neg hne] at hfirst
            exact .inr ⟨by omega, by omega, by omega⟩
    | inr hm =>
        rw [List.mem_singleton.mp hm]
        refine .inr ⟨?_, ?_, Nat.le_of_eq hlast.symm⟩
        · rw [hfirst]
          split <;> omega
        · rw [hfirst]
          split <;> omega
  · clear hnumber
    rw [hfirst]
    split <;> omega
  · rw [hlast, hsequence]
    exact hgrows
  · rw [hdelivered]
    exact h.counted
  · rw [henqueued, hcarried]
    exact h.enqueued
  · rw [hqueued]
    exact h.bounded

/-- A number that is queued. -/
theorem Posted.enqueue {n : RuntimeNotification} (h : Posted config mail published delivered)
    (hsequence : n.sequence = mail.sequence) (hroom : mail.queued.length < config.maxPendingNotifications)
    (hlimit : mail.sequence ≠ maxUInt64) :
    Posted config { mail with
      sequence := mail.sequence + 1
      queued := mail.queued ++ [n]
      enqueued := mail.enqueued + 1 } (published ++ [n]) delivered := by
  have hnumber : mail.sequence + 1 = min (published.length + 2) maxUInt64 ∧ 0 < mail.sequence := by
    have hold := h.number
    have hpos : 0 < maxUInt64 := by decide
    generalize maxUInt64 = limit at hold hlimit hpos ⊢
    omega
  have hcarried : Mail.carried { mail with
      sequence := mail.sequence + 1
      queued := mail.queued ++ [n]
      enqueued := mail.enqueued + 1 } delivered = mail.carried delivered ++ [n] := by
    simp [Mail.carried]
  obtain ⟨hnumber, hpos⟩ := hnumber
  have henqueued := h.enqueued
  have htotal := h.total
  constructor
  · rw [List.length_append, List.length_singleton]
    exact hnumber
  · intro m hm
    show 0 < m.sequence ∧ m.sequence ≤ mail.sequence + 1
    clear hnumber hlimit
    cases List.mem_append.mp hm with
    | inl hm =>
        have hnumbered := h.numbered m hm
        omega
    | inr hm =>
        rw [List.mem_singleton.mp hm]
        omega
  · rw [hcarried]
    exact h.kept.append (List.Sublist.refl [n])
  · rw [hcarried, List.pairwise_append]
    refine ⟨h.increasing, List.pairwise_singleton _ _, fun m hm m' hm' => ?_⟩
    rw [List.mem_singleton.mp hm', hsequence]
    exact h.below m hm
  · intro m hm
    rw [hcarried] at hm
    show m.sequence < mail.sequence + 1
    cases List.mem_append.mp hm with
    | inl hold => exact Nat.lt_succ_of_lt (h.below m hold)
    | inr hnew =>
        rw [List.mem_singleton.mp hnew, hsequence]
        exact Nat.lt_succ_self _
  · rw [hcarried, List.length_append, List.length_append, List.length_singleton]
    show published.length + 1 = (mail.carried delivered).length + 1 + mail.dropped
    clear hnumber hlimit
    omega
  · intro m hm
    rw [hcarried]
    cases List.mem_append.mp hm with
    | inl hold =>
        cases h.dropped m hold with
        | inl hkept => exact .inl (List.mem_append_left _ hkept)
        | inr hrange => exact .inr hrange
    | inr hnew => exact .inl (List.mem_append_right _ hnew)
  · exact Nat.le_succ_of_le h.first
  · exact Nat.le_succ_of_le h.last
  · exact h.counted
  · rw [hcarried, List.length_append, List.length_singleton, ← henqueued]
  · show (mail.queued ++ [n]).length ≤ config.maxPendingNotifications
    rw [List.length_append, List.length_singleton]
    exact hroom

/-- `publish` keeps the books. -/
theorem Posted.post {n : RuntimeNotification} (h : Posted config mail published delivered)
    (hnotify : config.notify = true) (hsequence : n.sequence = mail.sequence) :
    Posted config (mail.post config n.type n.handle n.outcome) (published ++ [n]) delivered := by
  have hnumber := h.number
  rw [Mail.post, if_pos hnotify]
  split
  · next hlimit =>
    refine h.drop hsequence rfl ?_ rfl ?_ hsequence.symm rfl rfl rfl
    · show mail.sequence = _
      generalize maxUInt64 = limit at hnumber hlimit ⊢
      omega
    · rw [hsequence]
      rfl
  · next hlimit =>
    have hnext : mail.sequence + 1 = min (published.length + 2) maxUInt64 := by
      generalize maxUInt64 = limit at hnumber hlimit ⊢
      omega
    split
    · next hroom =>
      have hn : (⟨mail.sequence, n.type, n.handle, n.outcome⟩ : RuntimeNotification) = n := by
        rw [← hsequence]
      rw [hn]
      exact h.enqueue hsequence hroom.1 hlimit
    · refine h.drop hsequence rfl hnext rfl ?_ hsequence.symm rfl rfl rfl
      rw [hsequence]
      rfl

/-- A change of the dispatcher that carries the same notifications. -/
theorem Posted.forward {mail' : Mail} {delivered' : List RuntimeNotification}
    (h : Posted config mail published delivered)
    (hcarried : mail'.carried delivered' = mail.carried delivered)
    (hqueued : mail'.queued.length ≤ mail.queued.length)
    (hcounted : mail'.delivered = delivered'.length) (hsequence : mail'.sequence = mail.sequence)
    (henqueued : mail'.enqueued = mail.enqueued) (hdropped : mail'.dropped = mail.dropped)
    (hfirst : mail'.firstDropped = mail.firstDropped) (hlast : mail'.lastDropped = mail.lastDropped) :
    Posted config mail' published delivered' where
  number := by rw [hsequence]; exact h.number
  numbered := by rw [hsequence]; exact h.numbered
  kept := by rw [hcarried]; exact h.kept
  increasing := by rw [hcarried]; exact h.increasing
  below := by rw [hcarried, hsequence]; exact h.below
  total := by rw [hcarried, hdropped]; exact h.total
  dropped := by rw [hcarried]; simpa only [Mail.dropRange, hfirst, hlast] using h.dropped
  first := by rw [hfirst, hsequence]; exact h.first
  last := by rw [hlast, hsequence]; exact h.last
  counted := hcounted
  enqueued := by rw [hcarried, henqueued]; exact h.enqueued
  bounded := Nat.le_trans hqueued h.bounded

/-- **Step lemma**: every event keeps the books. -/
theorem Posted.perform {event : RuntimeEvent} (h : Posted config page.mail ledger.published ledger.delivered)
    (hlegal : page.Legal event) :
    Posted config (page.perform config event).mail (ledger.record config page event).published
      (ledger.record config page event).delivered := by
  by_cases htake : event = .take
  · subst htake
    have hplace : page.mail.notifier = .waiting := hlegal
    have hsame : (ledger.record config page .take).published = ledger.published := by
      simp [Ledger.record, RuntimePage.announcement]
    have hnone : (ledger.record config page .take).delivered = ledger.delivered := by
      simp [Ledger.record]
    rw [hsame, hnone, RuntimePage.perform]
    split
    · next notification rest hqueue =>
      refine h.forward ?_ ?_ h.counted rfl rfl rfl rfl rfl
      · simp [Mail.carried, hplace, hqueue, NotifierPlace.inFlight]
      · rw [hqueue]
        exact Nat.le_succ _
    · next hqueue =>
      refine h.forward ?_ (Nat.le_refl _) h.counted rfl rfl rfl rfl rfl
      simp [Mail.carried, hplace, NotifierPlace.inFlight]
  · by_cases hdeliver : event = .deliver
    · subst hdeliver
      obtain ⟨notification, hplace⟩ := hlegal
      have hsame : (ledger.record config page .deliver).published = ledger.published := by
        simp [Ledger.record, RuntimePage.announcement]
      have hnew : (ledger.record config page .deliver).delivered =
          ledger.delivered ++ [notification] := by
        simp [Ledger.record, hplace, NotifierPlace.inFlight]
      rw [hsame, hnew]
      refine h.forward ?_ (Nat.le_refl _) ?_ rfl rfl rfl rfl rfl
      · simp [Mail.carried, RuntimePage.perform, hplace, NotifierPlace.inFlight]
      · simp [RuntimePage.perform, h.counted]
    · have hsame : (ledger.record config page event).delivered = ledger.delivered := by
        simp [Ledger.record, hdeliver]
      rw [hsame, RuntimePage.perform_mail config page event htake hdeliver]
      cases hannounced : page.announcement event with
      | none =>
          have hnone : (ledger.record config page event).published = ledger.published := by
            simp [Ledger.record, hannounced]
          rw [hnone]
          exact h
      | some n =>
          by_cases hnotify : config.notify = true
          · have hnew : (ledger.record config page event).published = ledger.published ++ [n] := by
              simp [Ledger.record, hannounced, hnotify]
            rw [hnew]
            exact h.post hnotify (announcement_sequence hannounced)
          · have hnone : (ledger.record config page event).published = ledger.published := by
              simp [Ledger.record, hnotify]
            have hmail : page.mail.post config n.type n.handle n.outcome = page.mail := by
              rw [Mail.post, if_neg hnotify]
            simp only [hnone, hmail]
            exact h

theorem posted_of_reachable (h : (ledgeredRuntime config).Reachable (s, ledger)) :
    Posted config s.mail ledger.published ledger.delivered :=
  ledger_rec_inv
    (P := fun page ledger => Posted config page.mail ledger.published ledger.delivered)
    (Posted.init config) (fun _ _ _ hp hlegal => hp.perform hlegal) h

/-! ## stories -/

/-- What is to be told of an entry, in its order. -/
def EntryPage.story (p : EntryPage) : List RuntimeNotificationType :=
  [RuntimeNotificationType.reserved] ++
    (if p.started then [RuntimeNotificationType.started] else []) ++
    (if p.stopRequested then [RuntimeNotificationType.stopRequested] else []) ++
    (if p.retired ≠ [] then [RuntimeNotificationType.retired] else [])

/-- The types of what was published of a handle. -/
def Ledger.told (ledger : Ledger) (handle : SessionHandle) : List RuntimeNotificationType :=
  (ledger.published.filter (·.handle = handle)).map (·.type)

/-- What was published of every entry is its story so far. -/
structure Told (page : RuntimePage) (ledger : Ledger) : Prop where
  story : ∀ p ∈ page.entries, ledger.told p.handle = p.story
  distinct : (page.entries.map (·.handle)).Nodup
  known : ∀ n ∈ ledger.published, ∃ p ∈ page.entries, p.handle = n.handle

/-- What an event adds to what was told of a handle. -/
theorem record_told (hnotify : config.notify = true) (event : RuntimeEvent) (handle : SessionHandle) :
    (ledger.record config page event).told handle = ledger.told handle ++
      ((page.announcement event).toList.filter (·.handle = handle)).map (·.type) := by
  simp [Ledger.record, Ledger.told, hnotify]

/-- An event that rewrites one entry tells what it adds to its story. -/
theorem Told.rewrite {event : RuntimeEvent} {f : EntryPage → EntryPage} (h : Told page ledger)
    (ref : Nat) (hnotify : config.notify = true) (hentries : page.rewrite event = page.entries.modify ref f)
    (hhandle : ∀ p, (f p).handle = p.handle)
    (hannounced : ∀ n, page.announcement event = some n →
      ∃ p, page.entries[ref]? = some p ∧ n.handle = p.handle)
    (hstory : ∀ p, page.entries[ref]? = some p →
      (f p).story = p.story ++ (page.announcement event).toList.map (·.type)) :
    Told (page.perform config event) (ledger.record config page event) := by
  have hrewritten := RuntimePage.perform_entries config page event
  rw [hentries] at hrewritten
  have hhandles : (page.entries.modify ref f).map (·.handle) = page.entries.map (·.handle) := by
    refine List.ext_getElem? fun j => ?_
    rw [List.getElem?_map, List.getElem?_map]
    cases hp : page.entries[j]? with
    | none => rw [List.getElem?_modify, hp]; rfl
    | some p =>
        rw [modify_of hp]
        split <;> simp [hhandle]
  constructor
  · intro p hp
    rw [hrewritten] at hp
    obtain ⟨j, hj⟩ := List.getElem?_of_mem hp
    rw [record_told hnotify]
    cases modify_cases hj with
    | inl hother =>
        -- the announcement is about another handle
        have hnone : (page.announcement event).toList.filter (·.handle = p.handle) = [] := by
          rw [List.filter_eq_nil_iff]
          intro n hn
          obtain ⟨q, hq, hsame⟩ := hannounced n (by simpa using hn)
          have hne : q.handle ≠ p.handle := by
            intro heq
            have hplaces : ref = j := by
              refine (List.getElem?_inj ?_ h.distinct).mp ?_
              · rw [List.length_map]
                exact (List.getElem?_eq_some_iff.mp hq).1
              · rw [List.getElem?_map, List.getElem?_map, hq, hother.2, Option.map_some,
                  Option.map_some, heq]
            exact hother.1 hplaces.symm
          simp [hsame, hne]
        rw [hnone, List.map_nil, List.append_nil]
        exact h.story p (List.mem_of_getElem? hother.2)
    | inr hsame =>
        obtain ⟨rfl, q, hq, rfl⟩ := hsame
        have hall : (page.announcement event).toList.filter (·.handle = q.handle) =
            (page.announcement event).toList := by
          rw [List.filter_eq_self]
          intro n hn
          obtain ⟨q', hq', hname⟩ := hannounced n (by simpa using hn)
          obtain rfl := Option.some.inj (hq'.symm.trans hq)
          simp [hname]
        rw [hhandle, hall, h.story q (List.mem_of_getElem? hq), hstory q hq]
  · rw [hrewritten, hhandles]
    exact h.distinct
  · intro n hn
    rw [hrewritten]
    have hhandled : n.handle ∈ (page.entries.modify ref f).map (·.handle) := by
      rw [hhandles]
      cases record_published hn with
      | inl hold =>
          obtain ⟨p, hp, hname⟩ := h.known n hold
          exact List.mem_map.mpr ⟨p, hp, hname⟩
      | inr hnew =>
          obtain ⟨p, hp, hname⟩ := hannounced n hnew
          exact List.mem_map.mpr ⟨p, List.mem_of_getElem? hp, hname.symm⟩
    obtain ⟨p, hp, hname⟩ := List.mem_map.mp hhandled
    exact ⟨p, hp, hname⟩

theorem Told.reserve {handle : SessionHandle} (h : Told page ledger) (hnotify : config.notify = true)
    (hlegal : page.Legal (.reserve handle)) :
    Told (page.perform config (.reserve handle)) (ledger.record config page (.reserve handle)) := by
  have hentries := RuntimePage.perform_entries config page (.reserve handle)
  rw [RuntimePage.rewrite] at hentries
  have hfresh : handle ∉ page.entries.map (·.handle) := by
    intro hmem
    obtain ⟨p, hp, hname⟩ := List.mem_map.mp hmem
    exact hlegal p hp hname
  have hnew : ledger.told handle = [] := by
    rw [Ledger.told, List.map_eq_nil_iff, List.filter_eq_nil_iff]
    intro n hn
    obtain ⟨p, hp, hname⟩ := h.known n hn
    have hne : n.handle ≠ handle := fun heq => hlegal p hp (hname.trans heq)
    simpa using hne
  constructor
  · intro p hp
    rw [hentries] at hp
    rw [record_told hnotify]
    cases List.mem_append.mp hp with
    | inl hold =>
        have hne : handle ≠ p.handle := fun heq => hlegal p hold heq.symm
        simp [RuntimePage.announcement, hne, h.story p hold]
    | inr hadded =>
        rw [List.mem_singleton.mp hadded]
        simp [RuntimePage.announcement, hnew, EntryPage.story]
  · rw [hentries, List.map_append, List.nodup_append]
    refine ⟨h.distinct, by simp, fun a ha b hb => ?_⟩
    obtain rfl : b = handle := by simpa using hb
    exact fun heq => hfresh (heq ▸ ha)
  · intro n hn
    rw [hentries]
    cases record_published hn with
    | inl hold =>
        obtain ⟨p, hp, hname⟩ := h.known n hold
        exact ⟨p, List.mem_append_left _ hp, hname⟩
    | inr hadded =>
        obtain rfl := Option.some.inj hadded
        exact ⟨_, List.mem_append_right _ (List.mem_singleton_self _), rfl⟩

/-- **Step lemma**: every event tells what it adds to a story. -/
theorem Told.perform {event : RuntimeEvent} (h : Told page ledger) (hcaused : Caused page ledger)
    (hnotify : config.notify = true) (hlegal : page.Legal event) :
    Told (page.perform config event) (ledger.record config page event) := by
  have hmail (event : RuntimeEvent) (hentries : page.rewrite event = page.entries)
      (hnone : page.announcement event = none) :
      Told (page.perform config event) (ledger.record config page event) := by
    refine h.rewrite (f := id) 0 hnotify (by rw [modify_id, hentries]) (fun _ => rfl) ?_ ?_
    · simp [hnone]
    · simp [hnone]
  cases event with
  | reserve handle => exact h.reserve hnotify hlegal
  | stop ref reason =>
      refine h.rewrite ref hnotify rfl (fun p => p.stop_handle) ?_ ?_
      · intro n hn
        obtain ⟨p, hp, hn⟩ := Option.bind_eq_some_iff.mp hn
        split at hn <;> try contradiction
        obtain rfl := Option.some.inj hn
        exact ⟨p, hp, rfl⟩
      · intro p hp
        simp only [RuntimePage.announcement, hp, Option.bind_some]
        cases hreleased : p.released with
        | true => simp [EntryPage.stop_of_released hreleased]
        | false =>
            have hunset : p.retired = [] := by
              by_contra hset
              rw [hcaused.released p (List.mem_of_getElem? hp) hset] at hreleased
              contradiction
            cases hstop : p.stopRequested with
            | true =>
                have hstory : (p.stop reason).story = p.story := by
                  unfold EntryPage.stop
                  split
                  · simp [EntryPage.story, hstop]
                  · rfl
                simp [hstory]
            | false =>
                have haccepts : p.accepts reason = true := by
                  simp [EntryPage.accepts, hreleased, hstop]
                rw [EntryPage.stop, if_pos haccepts]
                simp [EntryPage.story, hstop, hunset]
  | start ref =>
      refine h.rewrite ref hnotify rfl (fun _ => rfl) ?_ ?_
      · intro n hn
        obtain ⟨p, hp, rfl⟩ := Option.map_eq_some_iff.mp hn
        exact ⟨p, hp, rfl⟩
      · intro p hp
        obtain ⟨hstarted, hstop, hunset⟩ := hlegal p hp
        simp [RuntimePage.announcement, hp, EntryPage.story, hstarted, hstop, hunset]
  | release ref =>
      refine h.rewrite ref hnotify rfl (fun _ => rfl) ?_ ?_
      · intro n hn
        contradiction
      · intro p _
        simp [RuntimePage.announcement, EntryPage.story]
  | retire ref =>
      refine h.rewrite ref hnotify rfl (fun _ => rfl) ?_ ?_
      · intro n hn
        obtain ⟨p, hp, rfl⟩ := Option.map_eq_some_iff.mp hn
        exact ⟨p, hp, rfl⟩
      · intro p hp
        obtain ⟨-, -, hunset⟩ := hlegal p hp
        simp [RuntimePage.announcement, hp, EntryPage.story, hunset]
  | take => exact hmail _ rfl rfl
  | deliver => exact hmail _ rfl rfl

theorem told_of_reachable (hnotify : config.notify = true)
    (h : (ledgeredRuntime config).Reachable (s, ledger)) : Told s.page ledger := by
  refine (ledger_rec_inv (P := fun page ledger => Told page ledger ∧ Caused page ledger) ?_ ?_ h).1
  · refine ⟨⟨by simp, by simp, by simp⟩, ?_⟩
    constructor <;> simp [failedCount]
  · intro page ledger event hp hlegal
    exact ⟨hp.1.perform hp.2 hnotify hlegal, hp.2.perform hlegal⟩

/-! ## the contract -/

/-- The types of what is to be published of an entry, as its tickets show it. -/
def Entry.story (e : Entry) : List RuntimeNotificationType :=
  [RuntimeNotificationType.reserved] ++
    (if .started ∈ e.started then [RuntimeNotificationType.started] else []) ++
    (if e.stopRequested then [RuntimeNotificationType.stopRequested] else []) ++
    (if e.retired ≠ [] then [RuntimeNotificationType.retired] else [])

theorem story_page {factory : Option Nat} (h : (machine e.handle factory).Reachable e) :
    e.page.story = e.story := by
  have hiff : .started ∈ e.started ↔ e.reachedRunning = true := by
    rcases (sound_of_reachable h).started_cases with ⟨hnone, hreached, -⟩ | ⟨outcome, hone, -, hiff⟩
    · simp [hnone, hreached]
    · rw [hone, List.mem_singleton, eq_comm]
      exact hiff
  have hstarted : (if .started ∈ e.started then [RuntimeNotificationType.started] else []) =
      if e.reachedRunning then [.started] else [] := by
    by_cases hreached : e.reachedRunning = true
    · rw [if_pos (hiff.mpr hreached), if_pos hreached]
    · rw [if_neg (mt hiff.mp hreached), if_neg hreached]
  rw [Entry.story, hstarted]
  rfl

/-- What a manager with an observer promises about its notifications. -/
structure NotificationContract (config : RuntimeConfig) (s : RuntimeState) (ledger : Ledger) :
    Prop where
  increasing : (ledger.delivered.map (·.sequence)).Pairwise (· < ·)
  /-- What is delivered, in flight and queued is part of what was published, in
  its order. -/
  kept : (ledger.delivered ++ s.notifier.inFlight ++ s.notifications).Sublist ledger.published
  delivered : s.delivered = ledger.delivered.length
  total : ledger.published.length = s.delivered + s.notifier.inFlight.length +
    s.notifications.length + s.counters.droppedNotifications
  dropped : ∀ n ∈ ledger.published,
    n ∈ ledger.delivered ++ s.notifier.inFlight ++ s.notifications ∨
      (s.counters.firstDroppedSequence ≤ n.sequence ∧ n.sequence ≤ s.counters.lastDroppedSequence)
  bounded : s.notifications.length ≤ config.maxPendingNotifications
  /-- Of every admission, in this order and once each: Reserved, Started if the
  started ticket says so, StopRequested and Retired as far as it has come. -/
  story : ∀ (ref : Nat) (e : Entry), s.entries[ref]? = some e → ledger.told e.handle = e.story
  known : ∀ n ∈ ledger.published, ∃ e ∈ s.entries, e.handle = n.handle
  /-- Dropped or not, a step does to the rest of the state what it does without
  an observer. -/
  unaltered : (runtimeManager config.mute).Reachable s.unheard ∧
    ∀ a t, runtimeStep config s a = some t →
      t.unheard = s.unheard ∨ runtimeStep config.mute s.unheard a = some t.unheard

/-- **Notifications**: an ordered log that says what it has lost. -/
theorem runtime_notifications (config : RuntimeConfig) (hnotify : config.notify = true)
    (s : RuntimeState) (ledger : Ledger) (h : (ledgeredRuntime config).Reachable (s, ledger)) :
    NotificationContract config s ledger := by
  have hreach : (runtimeManager config).Reachable s := h.of_observed
  have hposted := posted_of_reachable h
  have htold := told_of_reachable hnotify h
  have hcarried : s.mail.carried ledger.delivered =
      ledger.delivered ++ s.notifier.inFlight ++ s.notifications := rfl
  exact {
    increasing := by
      have hall := hposted.increasing
      rw [hcarried, List.append_assoc, List.pairwise_append] at hall
      exact List.pairwise_map.mpr hall.1
    kept := hposted.kept
    delivered := hposted.counted
    total := by
      have htotal := hposted.total
      have hcounted : s.delivered = ledger.delivered.length := hposted.counted
      rw [hcarried, List.length_append, List.length_append] at htotal
      rw [hcounted]
      exact htotal
    dropped := fun n hn => by
      cases hposted.dropped n hn with
      | inl hkept => exact .inl hkept
      | inr hrange => exact .inr ⟨hrange.2.1, hrange.2.2⟩
    bounded := hposted.bounded
    story := fun ref e he => by
      obtain ⟨factory, hlives⟩ := ((entriesPlaced_of_reachable hreach).live.each ref e he).reachable
      rw [← story_page hlives]
      exact htold.story e.page (List.mem_of_getElem? (page_entry he))
    known := fun n hn => by
      obtain ⟨p, hp, hname⟩ := htold.known n hn
      obtain ⟨e, he, rfl⟩ := List.mem_map.mp hp
      exact ⟨e, he, hname⟩
    unaltered := ⟨unheard_reachable hreach, fun _ _ hs => step_unheard hs⟩ }

/-- Room for one notification. -/
def narrowRuntime : RuntimeConfig := { tightRuntime with
  maxPendingNotifications := 1
  maxPendingNotifications_pos := Nat.one_pos }

/-- The observer is still busy with the first notification when the last one
finds the queue full. -/
def slowObserver : List RuntimeAction :=
  [.add (lit "a") (some 0) false, .notifier .take, .remove ⟨1, lit "a", 1⟩,
   .supervisor (.collect [0]), .supervisor .visit, .supervisor .check, .supervisor .destroy,
   .supervisor .releaseDependencies, .supervisor .finalize, .notifier (.notified true)]

theorem slowObserver_notifications :
    ∃ s ledger, (ledgeredRuntime narrowRuntime).run (ledgeredRuntime narrowRuntime).init
        slowObserver = some (s, ledger) ∧
      s.counters.droppedNotifications = 1 ∧ s.counters.firstDroppedSequence = 3 ∧
      s.counters.observerFailures = 1 ∧ ledger.delivered.length = 1 ∧
      NotificationContract narrowRuntime s ledger :=
  ⟨_, _, rfl, rfl, rfl, rfl, rfl,
    runtime_notifications narrowRuntime rfl _ _ ⟨slowObserver, rfl⟩⟩

end ByteTurn

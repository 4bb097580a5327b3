import ByteTurn.EventTimeline

/-!
# ByteTurn.EventTimeline.Admission

What `append` admits, what it writes, and what a second `append` of the same
event does.

`admitEvent` checks an event while it rewrites it: the session id is filled in
before the generation is looked at, and the trace id before the size.  The
specification here reads the event once: `Event.filled` is the event with its
blanks filled in, and `Accepts` compares it with the configuration.
-/

namespace ByteTurn

open TimelineState

/-! ## the event with its blanks filled in -/

/-- The session an event belongs to: its own, or the configured one. -/
def Event.filledSession (config : TimelineConfig) (event : Event) : Bytes :=
  if event.sessionId = [] then config.sessionId else event.sessionId

/-- The trace id of an event: its own, or the one derived from session and
turn when there are both. -/
def Event.filledTrace (config : TimelineConfig) (event : Event) : Bytes :=
  if event.traceId = [] ∧ event.filledSession config ≠ [] ∧ event.turnId ≠ [] then
    event.filledSession config ++ lit ":" ++ event.turnId
  else event.traceId

/-- `event` with session id and trace id filled in. -/
def Event.filled (config : TimelineConfig) (event : Event) : Event :=
  { event with sessionId := event.filledSession config, traceId := event.filledTrace config }

/-- What `append` accepts. -/
structure Accepts (config : TimelineConfig) (s : TimelineState) (event : Event) : Prop where
  open_ : s.closed = false
  session : config.sessionId = [] ∨ event.sessionId = [] ∨ event.sessionId = config.sessionId
  generation : event.generation = 0 ∨ event.generation = config.generation
  bytes : (event.filled config).stringBytes ≤ config.maxEventBytes

/-- What becomes of an accepted event: the blanks are filled in, and sequence,
generation and times are the timeline's.  A supplied timestamp is kept. -/
def Event.admitted (config : TimelineConfig) (s : TimelineState) (event : Event) (now : Int) :
    Event :=
  { event.filled config with
    generation := config.generation
    receivedAt := now
    timestamp := if event.timestamp = 0 then now else event.timestamp
    sequence := s.counters.accepted + 1 }

example : (Event.filled { sessionId := lit "s" } { type := .error, turnId := lit "t" }).traceId =
    lit "s:t" := by decide

/-! ## normalization -/

variable {config : TimelineConfig} {event e : Event}

/-- The metadata checks pass exactly for the session and generation, and the
rewriting done between them is the filling in of blanks. -/
theorem normalize_ok_iff :
    normalize config event = .ok e ↔
      (config.sessionId = [] ∨ event.sessionId = [] ∨ event.sessionId = config.sessionId) ∧
      (event.generation = 0 ∨ event.generation = config.generation) ∧
      e = { event.filled config with generation := config.generation } := by
  by_cases hsession : config.sessionId ≠ [] ∧ event.sessionId ≠ [] ∧
      event.sessionId ≠ config.sessionId
  · have hwrong : normalize config event = .error .wrongSession := if_pos hsession
    rw [hwrong]
    constructor
    · intro h
      contradiction
    · rintro ⟨h, -, -⟩
      grind
  have hfilled : (if config.sessionId ≠ [] then { event with sessionId := config.sessionId }
      else event) = { event with sessionId := event.filledSession config } := by
    have hown : event.filledSession config =
        if config.sessionId ≠ [] then config.sessionId else event.sessionId := by
      unfold Event.filledSession
      grind
    rw [hown]
    split <;> rfl
  rw [normalize, if_neg hsession]
  dsimp only
  rw [hfilled]
  dsimp only
  by_cases hgeneration : event.generation ≠ 0 ∧ event.generation ≠ config.generation
  · rw [if_pos hgeneration]
    constructor
    · intro h
      contradiction
    · rintro ⟨-, h, -⟩
      omega
  rw [if_neg hgeneration]
  have hsession' : config.sessionId = [] ∨ event.sessionId = [] ∨
      event.sessionId = config.sessionId := by
    grind
  have hgeneration' : event.generation = 0 ∨ event.generation = config.generation := by
    omega
  simp only [hsession', hgeneration', true_and]
  unfold Event.filled Event.filledTrace
  split
  · exact ⟨fun h => (Except.ok.inj h).symm, fun h => congrArg _ h.symm⟩
  · exact ⟨fun h => (Except.ok.inj h).symm, fun h => congrArg _ h.symm⟩

/-- A normalized event is left alone by a second normalization, whatever its
times and sequence. -/
theorem normalize_again (h : normalize config event = .ok e) (now : Int) (sequence : Nat) :
    normalize config (stamp e now sequence) = .ok (stamp e now sequence) := by
  obtain ⟨hsession, -, rfl⟩ := normalize_ok_iff.mp h
  have hown : config.sessionId = [] ∨ event.filledSession config = config.sessionId := by
    unfold Event.filledSession
    grind
  have hsame : (event.filled config).filledSession config = event.filledSession config := by
    unfold Event.filled Event.filledSession
    grind
  have htrace : (event.filled config).filledTrace config = event.filledTrace config := by
    rw [Event.filledTrace, hsame]
    unfold Event.filled Event.filledTrace
    grind
  refine normalize_ok_iff.mpr ⟨?_, .inr rfl, ?_⟩
  · cases hown with
    | inl hblank => exact .inl hblank
    | inr hown => exact .inr (.inr hown)
  · have hfilled : (event.filled config).filled config = event.filled config := by
      rw [Event.filled, hsame, htrace]
      rfl
    calc stamp { event.filled config with generation := config.generation } now sequence
        = stamp { (event.filled config).filled config with generation := config.generation }
            now sequence := by rw [hfilled]
      _ = _ := rfl

/-! ## the size test in machine words -/

/-- The scan of `fits` as the machine runs it, on `size_t`. -/
def fitsWords (limit : UInt64) : UInt64 → List UInt64 → Bool
  | _, [] => true
  | total, size :: sizes =>
      if size > limit - total then false else fitsWords limit (total + size) sizes

/-- No subtraction and no addition of the scan wraps around, whatever the
lengths are. -/
theorem fitsWords_eq (limit total : UInt64) (fields : List Bytes) (sizes : List UInt64)
    (h : total ≤ limit) (hsizes : sizes.map UInt64.toNat = fields.map List.length) :
    fitsWords limit total sizes = fitsFrom limit.toNat total.toNat fields := by
  induction sizes generalizing total fields with
  | nil =>
      obtain rfl : fields = [] := by simpa using hsizes.symm
      rfl
  | cons size sizes ih =>
      cases fields with
      | nil => contradiction
      | cons field fields =>
          simp only [List.map_cons, List.cons.injEq] at hsizes
          obtain ⟨hsize, hsizes⟩ := hsizes
          have hroom : (limit - total).toNat = limit.toNat - total.toNat :=
            UInt64.toNat_sub_of_le limit total h
          have hle : total.toNat ≤ limit.toNat := UInt64.le_iff_toNat_le.mp h
          rw [fitsWords, fitsFrom]
          by_cases hbig : size > limit - total
          · have hlong : field.length > limit.toNat - total.toNat := by
              have := UInt64.lt_iff_toNat_lt.mp hbig
              omega
            rw [if_pos hbig, if_pos hlong]
          · have hshort : field.length ≤ limit.toNat - total.toNat := by
              have := UInt64.le_iff_toNat_le.mp (UInt64.not_lt.mp hbig)
              omega
            have hbound := limit.toNat_lt
            have hsum : (total + size).toNat = total.toNat + field.length := by
              rw [UInt64.toNat_add, Nat.mod_eq_of_lt (by omega), hsize]
            rw [if_neg hbig, if_neg (by omega), ← hsum]
            exact ih (total + size) fields (UInt64.le_iff_toNat_le.mpr (by omega)) hsizes

/-! ## admission -/

/-- `append` admits `event` exactly when it should, and otherwise nothing but
the rejection is counted. -/
structure AdmissionExact (config : TimelineConfig) (s : TimelineState) (event : Event) (now : Int)
    (allocationFails : Bool) : Prop where
  /-- The status says whether the event was acceptable. -/
  accepts : (admitEvent config s event now allocationFails).2.1.status = .accepted ↔
    Accepts config s event
  /-- The size test does not depend on the width of `size_t`. -/
  exact_size : ∀ (limit : UInt64) (sizes : List UInt64), limit.toNat = config.maxEventBytes →
    sizes.map UInt64.toNat =
      [(event.filled config).sessionId, event.turnId, event.name, event.data,
        (event.filled config).traceId].map List.length →
    (fitsWords limit 0 sizes = true ↔
      (event.filled config).stringBytes ≤ config.maxEventBytes)
  /-- A rejection touches one counter and not `*normalized`. -/
  rejects : ¬ Accepts config s event →
    (admitEvent config s event now allocationFails).1 = s.reject ∧
    (admitEvent config s event now allocationFails).2.2 = none
  /-- An accepted event is what `*normalized` and the journal receive. -/
  keeps : Accepts config s event →
    (admitEvent config s event now allocationFails).2.2 = some (event.admitted config s now) ∧
    (admitEvent config s event now allocationFails).1.journal =
      s.journal ++ [event.admitted config s now]
  /-- Appended again, to this timeline in any open state, it differs in sequence
  and time of admission only. -/
  readmits : Accepts config s event → now ≠ 0 →
    ∀ (t : TimelineState) (later : Int) (allocationFails' : Bool), t.closed = false →
      (admitEvent config t (event.admitted config s now) later allocationFails').2.1.status =
        .accepted ∧
      (admitEvent config t (event.admitted config s now) later allocationFails').2.2 =
        some { event.admitted config s now with
          sequence := t.counters.accepted + 1
          receivedAt := later }

variable {s : TimelineState}

/-- A rejection, whatever its reason. -/
theorem admitEvent_rejected (now : Int) (allocationFails : Bool) (h : ¬ Accepts config s event) :
    (admitEvent config s event now allocationFails).2.1.status ≠ .accepted ∧
      (admitEvent config s event now allocationFails).1 = s.reject ∧
      (admitEvent config s event now allocationFails).2.2 = none := by
  unfold admitEvent
  split
  · exact ⟨nofun, rfl, rfl⟩
  next hopen =>
  split
  · next status hnormalize =>
    refine ⟨?_, rfl, rfl⟩
    rintro rfl
    unfold normalize at hnormalize
    grind
  next e hnormalize =>
  obtain ⟨hsession, hgeneration, rfl⟩ := normalize_ok_iff.mp hnormalize
  have hlarge : fits { event.filled config with generation := config.generation }
      config.maxEventBytes ≠ true := by
    intro hfits
    exact h ⟨by simpa using hopen, hsession, hgeneration, (fits_iff _ _).mp hfits⟩
  rw [if_neg hlarge]
  exact ⟨nofun, rfl, rfl⟩

/-- An open timeline takes a normalized event that fits. -/
theorem admitEvent_normalized (now : Int) (allocationFails : Bool) (hopen : s.closed = false)
    (hnormalize : normalize config event = .ok e) (hfits : fits e config.maxEventBytes = true) :
    (admitEvent config s event now allocationFails).2.1.status = .accepted ∧
      (admitEvent config s event now allocationFails).2.2 =
        some (stamp e now (s.counters.accepted + 1)) ∧
      (admitEvent config s event now allocationFails).1.journal =
        s.journal ++ [stamp e now (s.counters.accepted + 1)] := by
  simp only [admitEvent, hopen, hnormalize, hfits, Bool.false_eq_true, if_false, if_true]
  split
  · cases allocationFails <;> exact ⟨rfl, rfl, rfl⟩
  · exact ⟨rfl, rfl, rfl⟩

theorem Accepts.normalize (h : Accepts config s event) :
    normalize config event =
      .ok { event.filled config with generation := config.generation } :=
  normalize_ok_iff.mpr ⟨h.session, h.generation, rfl⟩

theorem Accepts.fits (h : Accepts config s event) :
    fits { event.filled config with generation := config.generation } config.maxEventBytes =
      true :=
  (fits_iff _ _).mpr h.bytes

theorem Accepts.admitEvent (h : Accepts config s event) (now : Int) (allocationFails : Bool) :
    (admitEvent config s event now allocationFails).2.1.status = .accepted ∧
      (admitEvent config s event now allocationFails).2.2 = some (event.admitted config s now) ∧
      (admitEvent config s event now allocationFails).1.journal =
        s.journal ++ [event.admitted config s now] :=
  admitEvent_normalized now allocationFails h.open_ h.normalize h.fits

/-- **Admission**: `append` accepts exactly the events of an open timeline's
session and generation that fit once their blanks are filled in, a rejection
is counted and leaves no other trace, and an admitted event is admitted again
unchanged. -/
theorem admission_exact (config : TimelineConfig) (s : TimelineState) (event : Event) (now : Int)
    (allocationFails : Bool) : AdmissionExact config s event now allocationFails where
  accepts := by
    constructor
    · intro haccepted
      by_contra h
      exact (admitEvent_rejected now allocationFails h).1 haccepted
    · intro h
      exact (h.admitEvent now allocationFails).1
  exact_size := by
    intro limit sizes hlimit hsizes
    have hwords := fitsWords_eq limit 0 _ sizes (UInt64.le_iff_toNat_le.mpr (Nat.zero_le _)) hsizes
    rw [hwords, ← hlimit]
    exact fits_iff (event.filled config) limit.toNat
  rejects := fun h => (admitEvent_rejected now allocationFails h).2
  keeps := fun h => (h.admitEvent now allocationFails).2
  readmits := by
    intro h hnow t later allocationFails' hopen
    have hagain := normalize_again h.normalize now (s.counters.accepted + 1)
    obtain ⟨haccepted, hwritten, -⟩ :=
      admitEvent_normalized later allocationFails' hopen hagain h.fits
    refine ⟨haccepted, hwritten.trans (congrArg some ?_)⟩
    -- the first admission left a timestamp, which the second one keeps
    have htimestamp : (event.admitted config s now).timestamp ≠ 0 := by
      unfold Event.admitted
      dsimp only
      split
      · exact hnow
      · assumption
    change stamp (event.admitted config s now) later (t.counters.accepted + 1) = _
    rw [stamp, if_neg htimestamp]

end ByteTurn

import Mathlib

/-!
# ByteTurn.Lib.Machine

Labelled machines: one initial state and a *partial, deterministic* step
function over labels.  Everything a scheduler, an environment or a fault may
choose is carried by the label, so "for every interleaving" is "for every list
of labels", a run is computed by folding `step`, and a concrete run is checked
by evaluation.

The rules the clients use:

* `Reachable.rec_inv` — the invariant rule, with reachability of the source
  state available in the step case;
* `Leads.rec_stable` — a fact that every step keeps stays true along a run
  (the rule behind "stable once observed");
* `Leads.exists_drained` — a run that lowers a measure to zero;
* `observed` — the machine with a history beside it that only takes notes;
* `guarded` — the machine restricted to the steps that meet a condition, for
  properties that hold of the runs avoiding a branch;
* `Simulation` — a relation between two machines carried along whole runs.

The module names no program; it is the vocabulary the models are written in.
-/

universe u v w

/-- A labelled machine over states `σ` and labels `α`. -/
structure Machine (σ : Type u) (α : Type v) where
  init : σ
  step : σ → α → Option σ

namespace Machine

variable {σ : Type u} {α : Type v} {τ : Type w} {β : Type v}

/-! ## runs -/

/-- The state after a list of labels; `none` as soon as a label is disabled. -/
def run (m : Machine σ α) : σ → List α → Option σ
  | s, [] => some s
  | s, a :: as => (m.step s a).bind fun t => m.run t as

@[simp] theorem run_nil (m : Machine σ α) (s : σ) : m.run s [] = some s := rfl

theorem run_cons (m : Machine σ α) (s : σ) (a : α) (as : List α) :
    m.run s (a :: as) = (m.step s a).bind fun t => m.run t as := rfl

theorem run_append (m : Machine σ α) (s : σ) (as bs : List α) :
    m.run s (as ++ bs) = (m.run s as).bind fun t => m.run t bs := by
  induction as generalizing s with
  | nil => rfl
  | cons a as ih =>
      rw [List.cons_append, run_cons, run_cons]
      cases m.step s a with
      | none => rfl
      | some t => exact ih t

/-- `s` leads to `t` by some run. -/
def Leads (m : Machine σ α) (s t : σ) : Prop := ∃ as, m.run s as = some t

/-- The states some run reaches from the initial one. -/
def Reachable (m : Machine σ α) (s : σ) : Prop := m.Leads m.init s

variable {m : Machine σ α} {s t r : σ}

theorem Leads.refl (m : Machine σ α) (s : σ) : m.Leads s s := ⟨[], rfl⟩

theorem Leads.trans (h₁ : m.Leads s t) (h₂ : m.Leads t r) : m.Leads s r := by
  obtain ⟨as, ha⟩ := h₁
  obtain ⟨bs, hb⟩ := h₂
  exact ⟨as ++ bs, by rw [run_append, ha]; exact hb⟩

theorem Leads.single {a : α} (h : m.step s a = some t) : m.Leads s t :=
  ⟨[a], by rw [run_cons, h]; rfl⟩

theorem Reachable.init (m : Machine σ α) : m.Reachable m.init := Leads.refl m m.init

theorem Reachable.leads (hs : m.Reachable s) (h : m.Leads s t) : m.Reachable t :=
  Leads.trans hs h

theorem Reachable.step {a : α} (hs : m.Reachable s) (h : m.step s a = some t) :
    m.Reachable t := hs.leads (Leads.single h)

/-- A computed run ends in a reachable state. -/
theorem Reachable.of_run {as : List α} (h : m.run m.init as = some s) : m.Reachable s := ⟨as, h⟩

/-! ## the invariant rules -/

/-- A fact every step from a reachable state keeps is kept along every run. -/
theorem Leads.rec_stable {P : σ → Prop}
    (hstep : ∀ s a t, m.Reachable s → P s → m.step s a = some t → P t)
    (hr : m.Reachable s) (hp : P s) (h : m.Leads s t) : P t := by
  obtain ⟨as, h⟩ := h
  induction as generalizing s with
  | nil =>
      obtain rfl : s = t := Option.some.inj h
      exact hp
  | cons a as ih =>
      rw [run_cons] at h
      cases hs : m.step s a with
      | none => rw [hs] at h; contradiction
      | some r =>
          rw [hs] at h
          exact ih (hr.step hs) (hstep s a r hr hp hs) h

/-- **Invariant rule**: what holds initially and is kept by every step from a
reachable state holds of every reachable state. -/
theorem Reachable.rec_inv {P : σ → Prop} (hinit : P m.init)
    (hstep : ∀ s a t, m.Reachable s → P s → m.step s a = some t → P t)
    (h : m.Reachable s) : P s :=
  Leads.rec_stable hstep (Reachable.init m) hinit h

/-- A reflexive and transitive relation that every step from a reachable state
respects relates the two ends of every run. -/
theorem Leads.rec_rel {R : σ → σ → Prop} (hrefl : ∀ s, R s s)
    (htrans : ∀ s t r, R s t → R t r → R s r)
    (hstep : ∀ s a t, m.Reachable s → m.step s a = some t → R s t)
    (hr : m.Reachable s) (h : m.Leads s t) : R s t :=
  Leads.rec_stable (P := fun r => R s r)
    (fun r a r' hr hp hs => htrans s r r' hp (hstep r a r' hr hs)) hr (hrefl s) h

/-- **Draining**: while the measure is positive some step lowers it and keeps
`P`, so some run lowers it to zero and keeps `P`. -/
theorem Leads.exists_drained {P : σ → Prop} {size : σ → Nat}
    (hstep : ∀ s, P s → size s ≠ 0 → ∃ a t, m.step s a = some t ∧ P t ∧ size t < size s)
    (hp : P s) : ∃ t, m.Leads s t ∧ P t ∧ size t = 0 := by
  induction hn : size s using Nat.strongRecOn generalizing s with
  | ind n ih =>
      by_cases hzero : size s = 0
      · exact ⟨s, Leads.refl m s, hp, hzero⟩
      · obtain ⟨a, t, hs, ht, hlt⟩ := hstep s hp hzero
        obtain ⟨r, hr, hpr, hsize⟩ := ih (size t) (hn ▸ hlt) ht rfl
        exact ⟨r, .trans (.single hs) hr, hpr, hsize⟩

/-! ## notes beside a run -/

/-- The machine with a history beside its state: every step may add a note, and
no step looks at the notes. -/
def observed {ω : Type w} (m : Machine σ α) (start : ω) (note : σ → α → ω → ω) :
    Machine (σ × ω) α where
  init := (m.init, start)
  step p a := (m.step p.1 a).map fun t => (t, note p.1 a p.2)

section Observed

variable {ω : Type w} {start : ω} {note : σ → α → ω → ω} {x y : ω}

theorem observed_step {a : α} : (m.observed start note).step (s, x) a = some (t, y) ↔
    m.step s a = some t ∧ note s a x = y := by
  simp only [observed, Option.map_eq_some_iff, Prod.mk.injEq]
  constructor
  · rintro ⟨r, hs, rfl, rfl⟩
    exact ⟨hs, rfl⟩
  · rintro ⟨hs, rfl⟩
    exact ⟨t, hs, rfl, rfl⟩

/-- An observed run is a run. -/
theorem Reachable.of_observed (h : (m.observed start note).Reachable (s, x)) : m.Reachable s := by
  refine Reachable.rec_inv (m := m.observed start note) (P := fun p => m.Reachable p.1)
    (Reachable.init m) ?_ h
  rintro ⟨s, x⟩ a ⟨t, y⟩ _ hp hs
  exact hp.step (observed_step.mp hs).1

/-- Every run can be observed. -/
theorem Reachable.observed (h : m.Reachable s) :
    ∃ x, (m.observed start note).Reachable (s, x) := by
  refine Reachable.rec_inv (P := fun s => ∃ x, (m.observed start note).Reachable (s, x))
    ⟨start, Reachable.init (m.observed start note)⟩ ?_ h
  rintro s a t _ ⟨x, hx⟩ hs
  exact ⟨note s a x, hx.step (observed_step.mpr ⟨hs, rfl⟩)⟩

end Observed

/-! ## runs that meet a condition at every step -/

/-- The machine whose steps are those of `m` taken where `g` holds. -/
def guarded (m : Machine σ α) (g : σ → α → Prop) [∀ s a, Decidable (g s a)] : Machine σ α where
  init := m.init
  step s a := if g s a then m.step s a else none

variable {g : σ → α → Prop} [∀ s a, Decidable (g s a)]

theorem guarded_step {a : α} : (m.guarded g).step s a = some t ↔ g s a ∧ m.step s a = some t := by
  simp only [guarded]
  split
  · next hg => simp [hg]
  · next hg => simp [hg]

/-- A guarded run is a run. -/
theorem Reachable.of_guarded (h : (m.guarded g).Reachable s) : m.Reachable s := by
  refine Reachable.rec_inv (m := m.guarded g) (P := m.Reachable) (Reachable.init m) ?_ h
  intro s a t _ hp hs
  exact hp.step (guarded_step.mp hs).2

/-- Guarding by a condition that always holds changes no run. -/
theorem Reachable.guarded (hg : ∀ s a t, m.Reachable s → m.step s a = some t → g s a)
    (h : m.Reachable s) : (m.guarded g).Reachable s := by
  refine Reachable.rec_inv (m := m) (P := (m.guarded g).Reachable)
    (Reachable.init (m.guarded g)) ?_ h
  intro s a t hr hp hs
  exact hp.step (guarded_step.mpr ⟨hg s a t hr hs, hs⟩)

/-! ## simulation -/

/-- `R` relates the initial states and follows every step of `m` from a
reachable state by some run of `n`. -/
structure Simulation (m : Machine σ α) (n : Machine τ β) (R : σ → τ → Prop) : Prop where
  init : R m.init n.init
  step : ∀ s t a s', m.Reachable s → R s t → m.step s a = some s' →
    ∃ t', n.Leads t t' ∧ R s' t'

/-- Every reachable state of the simulated machine is related to a reachable
state of the simulating one. -/
theorem Simulation.reachable {n : Machine τ β} {R : σ → τ → Prop} (hsim : Simulation m n R)
    (h : m.Reachable s) : ∃ t, n.Reachable t ∧ R s t := by
  refine Reachable.rec_inv (P := fun s => ∃ t, n.Reachable t ∧ R s t)
    ⟨n.init, Reachable.init n, hsim.init⟩ ?_ h
  rintro s a s' hr ⟨t, ht, hR⟩ hs
  obtain ⟨t', hl, hR'⟩ := hsim.step s t a s' hr hR hs
  exact ⟨t', ht.leads hl, hR'⟩

end Machine

import Mathlib

/-!
# ByteTurn.Lib.Programs

Programs that may throw and keep their state when they do (`EStateM`), taken
apart.

A program stays `Within` a relation of states when it leads from each state to a
related one, whether it returns or throws; `Within` is kept by sequencing and by
handling for every preorder.  It `Meets` a relation of a state, an outcome and the
state after it when each of its runs does, and there sequencing and handling put
two relations together.  A program that returned has made each of its steps
return (`ok_of_bind`).

The module names no program.
-/

namespace Programs

variable {ε σ α β : Type} {R : σ → σ → Prop}

/-- The state in which a program ends. -/
def finalState : EStateM.Result ε σ α → σ
  | .ok _ t => t
  | .error _ t => t

/-- What a program returns or throws. -/
def outcome : EStateM.Result ε σ α → Except ε α
  | .ok a _ => .ok a
  | .error e _ => .error e

/-- However the program ends, it leads from a state to a related one. -/
def Within (R : σ → σ → Prop) (x : EStateM ε σ α) : Prop :=
  ∀ s, R s (finalState (x.run s))

/-- The state, the outcome and the state after it are related. -/
def Meets (P : σ → Except ε α → σ → Prop) (x : EStateM ε σ α) : Prop :=
  ∀ s, P s (outcome (x.run s)) (finalState (x.run s))

/-! ## what stays within a relation -/

/-- A program that does nothing is within every reflexive relation. -/
theorem Within.pure (hrefl : ∀ s, R s s) (a : α) : Within R (pure a : EStateM ε σ α) := hrefl

/-- So is one that throws at once. -/
theorem Within.throw (hrefl : ∀ s, R s s) (e : ε) : Within R (throw e : EStateM ε σ α) := hrefl

/-- A change of the state is within a relation that every such change is in. -/
theorem Within.modify {f : σ → σ} (hf : ∀ s, R s (f s)) :
    Within R (modify f : EStateM ε σ PUnit) := hf

/-- A read and a write of the state, and what follows them. -/
theorem Within.update (htrans : ∀ s t u, R s t → R t u → R s u) {g : σ → σ}
    {f : σ → EStateM ε σ β} (hg : ∀ s, R s (g s)) (hf : ∀ s, Within R (f s)) :
    Within R (do let s ← get; set (g s); f s) :=
  fun s => htrans s (g s) _ (hg s) (hf s (g s))

/-- One program after the other is within a transitive relation that both are in. -/
theorem Within.bind (htrans : ∀ s t u, R s t → R t u → R s u) {x : EStateM ε σ α}
    {f : α → EStateM ε σ β} (hx : Within R x) (hf : ∀ a, Within R (f a)) :
    Within R (x >>= f) := by
  intro s
  have hfirst := hx s
  rw [EStateM.run_bind]
  cases hrun : x.run s with
  | ok a t =>
      rw [hrun] at hfirst
      exact htrans s t _ hfirst (hf a t)
  | error e t =>
      rw [hrun] at hfirst
      exact hfirst

/-! ## programs that returned -/

/-- A sequence that returns has returned at its first part. -/
theorem ok_of_bind {x : EStateM ε σ α} {f : α → EStateM ε σ β} {s u : σ} {b : β}
    (hrun : (x >>= f).run s = .ok b u) :
    ∃ a t, x.run s = .ok a t ∧ (f a).run t = .ok b u := by
  rw [EStateM.run_bind] at hrun
  cases hx : x.run s with
  | ok a t =>
      rw [hx] at hrun
      exact ⟨a, t, rfl, hrun⟩
  | error e t =>
      rw [hx] at hrun
      cases hrun

/-- The handler runs in the state in which the exception was thrown. -/
theorem run_tryCatch {x : EStateM ε σ α} {handle : ε → EStateM ε σ α} (s : σ) :
    (tryCatch x handle).run s = match x.run s with
      | .ok a t => .ok a t
      | .error e t => (handle e).run t := by
  show EStateM.tryCatch x handle s = _
  unfold EStateM.tryCatch EStateM.run
  cases x s <;> rfl

/-- A handled program is within a transitive relation that it and the handler are in. -/
theorem Within.tryCatch (htrans : ∀ s t u, R s t → R t u → R s u) {x : EStateM ε σ α}
    {handle : ε → EStateM ε σ α} (hx : Within R x) (hhandle : ∀ e, Within R (handle e)) :
    Within R (tryCatch x handle) := by
  intro s
  have hfirst := hx s
  rw [run_tryCatch]
  cases hrun : x.run s with
  | ok a t =>
      rw [hrun] at hfirst
      exact hfirst
  | error e t =>
      rw [hrun] at hfirst
      exact htrans s t _ hfirst (hhandle e t)

/-! ## what meets a relation -/

section Meets

variable {P : σ → Except ε α → σ → Prop}

/-- What stays within a relation meets it, whatever the outcome. -/
theorem Within.meets {x : EStateM ε σ α} (hx : Within R x) : Meets (fun s _ t => R s t) x := hx

/-- A weaker contract is met too. -/
theorem Meets.imp {Q : σ → Except ε α → σ → Prop} {x : EStateM ε σ α} (hx : Meets P x)
    (h : ∀ s r t, P s r t → Q s r t) : Meets Q x :=
  fun s => h _ _ _ (hx s)

/-- The contract of a sequence, from those of its parts. -/
theorem Meets.bind {Q : α → σ → Except ε β → σ → Prop} {N : σ → Except ε β → σ → Prop}
    {x : EStateM ε σ α} {f : α → EStateM ε σ β} (hx : Meets P x) (hf : ∀ a, Meets (Q a) (f a))
    (herror : ∀ s e t, P s (.error e) t → N s (.error e) t)
    (hok : ∀ s a t r u, P s (.ok a) t → Q a t r u → N s r u) : Meets N (x >>= f) := by
  intro s
  have hfirst := hx s
  rw [EStateM.run_bind]
  cases hrun : x.run s with
  | ok a t =>
      rw [hrun] at hfirst
      exact hok s a t _ _ hfirst (hf a t)
  | error e t =>
      rw [hrun] at hfirst
      exact herror s e t hfirst

/-- The contract of a handled program, from those of the program and its handler. -/
theorem Meets.tryCatch {Q : ε → σ → Except ε α → σ → Prop} {N : σ → Except ε α → σ → Prop}
    {x : EStateM ε σ α} {handle : ε → EStateM ε σ α} (hx : Meets P x)
    (hhandle : ∀ e, Meets (Q e) (handle e)) (hok : ∀ s a t, P s (.ok a) t → N s (.ok a) t)
    (herror : ∀ s e t r u, P s (.error e) t → Q e t r u → N s r u) :
    Meets N (tryCatch x handle) := by
  intro s
  have hfirst := hx s
  rw [run_tryCatch]
  cases hrun : x.run s with
  | ok a t =>
      rw [hrun] at hfirst
      exact hok s a t hfirst
  | error e t =>
      rw [hrun] at hfirst
      exact herror s e t _ _ hfirst (hhandle e t)

end Meets

/-! ## programs that returned, under a handler -/

/-- A program whose handler throws returned what its body returned. -/
theorem ok_of_tryCatch {x : EStateM ε σ α} {handle : ε → EStateM ε σ α} {s t : σ} {a : α}
    (hhandle : ∀ e s, ∀ b u, (handle e).run s ≠ .ok b u)
    (hrun : (tryCatch x handle).run s = .ok a t) : x.run s = .ok a t := by
  rw [run_tryCatch] at hrun
  cases hx : x.run s with
  | ok b u =>
      rw [hx] at hrun
      exact hrun
  | error e u =>
      rw [hx] at hrun
      exact absurd hrun (hhandle e u a t)

end Programs

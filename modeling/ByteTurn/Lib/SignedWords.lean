import Mathlib

/-!
# ByteTurn.Lib.SignedWords

Signed 64-bit arithmetic in a language that leaves overflow undefined.

A computation is written once over a monad, with `word` applied to the result
of every operation on 64-bit words.  It is then run in two ways:

* `checked` — an overflow ends the computation with `none`;
* `wrapped` — an overflow wraps around, which is what the machine does.

`wrapped_of_fits` and `checked_of_fits` are the rules for the results that fit;
where the checked run succeeds the two runs agree.  The module names no program.
-/

namespace SignedWords

/-- `n` is the value of a signed 64-bit word. -/
def Fits (n : Int) : Prop := -2 ^ 63 ≤ n ∧ n < 2 ^ 63

instance (n : Int) : Decidable (Fits n) := inferInstanceAs (Decidable (_ ∧ _))

/-- The word that is left of `n` when the high bits are cut off. -/
def wrap (n : Int) : Int := Int.bmod n (2 ^ 64)

/-- A result that overflows ends the computation. -/
def checked (n : Int) : Option Int := if Fits n then some n else none

/-- A result that overflows wraps around. -/
def wrapped (n : Int) : Id Int := wrap n

/-- A number that fits is not changed. -/
theorem wrap_of_fits {n : Int} (h : Fits n) : wrap n = n := by
  obtain ⟨hlow, hhigh⟩ := h
  rw [wrap, Int.bmod_eq_of_le]
  · omega
  · omega

/-- A result that fits is the result. -/
theorem checked_of_fits {n : Int} (h : Fits n) : checked n = some n := if_pos h

/-- One that does not ends the computation. -/
theorem checked_of_overflow {n : Int} (h : ¬ Fits n) : checked n = none := if_neg h

/-- No result that fits wraps around. -/
theorem wrapped_of_fits {n : Int} (h : Fits n) : wrapped n = pure n := wrap_of_fits h

end SignedWords

import ByteTurn.Json

/-!
# ByteTurn.Json.Errors

What the parser throws: its own report of a byte position, or the exception of
`std::stod`.
-/

namespace ByteTurn

/-- An exception of the parser. -/
def ParseError (e : Exception) : Prop := lit "invalid JSON near byte " <+: e ∨ e = lit "stod"

/-- Nothing but exceptions of the parser is thrown. -/
def Reports {α : Type} (f : Cursor → Except Exception α) : Prop :=
  ∀ c e, f c = .error e → ParseError e

/-- `fail` throws an error with a position. -/
theorem fail_reports {α : Type} {c : Cursor} {reason : String} {e : Exception}
    (h : c.fail reason = (.error e : Except Exception α)) : ParseError e := by
  obtain rfl := Except.error.inj h
  rw [ParseError, List.append_assoc, List.append_assoc]
  exact .inl (List.prefix_append _ _)

/-- The digits of an escape fail with a position. -/
theorem hexDigits_reports (n value : Nat) : Reports (hexDigits n value) := by
  intro c e h
  induction n generalizing value c with
  | zero => cases h
  | succ n ih =>
      rw [hexDigits] at h
      split at h
      · exact fail_reports h
      · split at h
        · exact ih _ _ h
        · exact fail_reports h

/-- So do the four digits together. -/
theorem hex4_reports : Reports hex4 := by
  intro c e h
  rw [hex4] at h
  split at h
  · exact fail_reports h
  · exact hexDigits_reports 4 0 c e h

/-- A bad surrogate is reported where it stands. -/
theorem codepoint_reports : Reports codepoint := by
  intro c e h
  rw [codepoint] at h
  obtain hhigh | ⟨⟨high, d⟩, -, h⟩ := bind_error h
  · exact hex4_reports _ _ hhigh
  dsimp only at h
  split at h
  · split at h
    · exact fail_reports h
    · obtain hlow | ⟨⟨low, d'⟩, -, h⟩ := bind_error h
      · exact hex4_reports _ _ hlow
      · dsimp only at h
        split at h
        · exact fail_reports h
        · cases h
  · split at h
    · exact fail_reports h
    · cases h

/-- Every way out of the loop over a string that throws names a position. -/
theorem stringLoop_reports (fuel : Nat) (result : Bytes) : Reports (stringLoop fuel result) := by
  intro c e h
  induction fuel generalizing result c with
  | zero => exact fail_reports h
  | succ fuel ih =>
      rw [stringLoop] at h
      split at h
      · exact fail_reports h
      · split at h
        · cases h
        · split at h
          · exact ih _ _ h
          · split at h
            · exact fail_reports h
            · split at h
              · exact ih _ _ h
              · split at h
                · obtain hpoint | ⟨⟨point, d⟩, -, h⟩ := bind_error h
                  · exact codepoint_reports _ _ hpoint
                  · exact ih _ _ h
                · exact fail_reports h

/-- A string that does not end, or holds a bad escape, is reported. -/
theorem string_reports : Reports string := fun c _ h => stringLoop_reports _ _ (c.advance 1) _ h

/-- A number that `stod` refuses is reported, whatever `stod` throws. -/
theorem number_reports : Reports number := by
  intro c e h
  rw [number] at h
  split at h
  · exact fail_reports h
  · split at h
    · cases h
    · exact .inr (Except.error.inj h).symm

/-- A misspelt literal is reported. -/
theorem literal_reports (text : Bytes) (result : Json) : Reports (literal · text result) := by
  intro c e h
  replace h : literal c text result = .error e := h
  rw [literal] at h
  split at h
  · cases h
  · exact fail_reports h

section Containers

variable {value : Cursor → Except Exception (Json × Cursor)}

/-- An array reports what is wrong with it when its items do. -/
theorem arrayLoop_reports (hvalue : Reports value) (fuel : Nat) (result : List Json) :
    Reports (arrayLoop value fuel result) := by
  intro c e h
  induction fuel generalizing result c with
  | zero => exact fail_reports h
  | succ fuel ih =>
      rw [arrayLoop] at h
      obtain hitem | ⟨⟨item, d⟩, -, h⟩ := bind_error h
      · exact hvalue _ _ hitem
      dsimp only at h
      split at h
      · cases h
      · split at h
        · exact ih _ _ h
        · exact fail_reports h

theorem array_reports (hvalue : Reports value) (fuel : Nat) : Reports (array value fuel) := by
  intro c e h
  rw [array] at h
  split at h
  · cases h
  · exact arrayLoop_reports hvalue _ _ _ _ h

/-- A field reports its key, its colon and its value. -/
theorem field_reports (hvalue : Reports value) : Reports (field value) := by
  intro c e h
  rw [field] at h
  dsimp only at h
  split at h
  · exact fail_reports h
  · obtain hkey | ⟨⟨key, d⟩, -, h⟩ := bind_error h
    · exact string_reports _ _ hkey
    dsimp only at h
    split at h
    · exact fail_reports h
    · obtain hitem | ⟨⟨item, d'⟩, -, h⟩ := bind_error h
      · exact hvalue _ _ hitem
      · cases h

/-- An object reports what is wrong with it when its values do. -/
theorem objectLoop_reports (hvalue : Reports value) (fuel : Nat) (result : List (Bytes × Json)) :
    Reports (objectLoop value fuel result) := by
  intro c e h
  induction fuel generalizing result c with
  | zero => exact fail_reports h
  | succ fuel ih =>
      rw [objectLoop] at h
      obtain hitem | ⟨⟨item, d⟩, -, h⟩ := bind_error h
      · exact field_reports hvalue _ _ hitem
      dsimp only at h
      split at h
      · cases h
      · split at h
        · exact ih _ _ h
        · exact fail_reports h

theorem object_reports (hvalue : Reports value) (fuel : Nat) : Reports (object value fuel) := by
  intro c e h
  rw [object] at h
  split at h
  · cases h
  · exact objectLoop_reports hvalue _ _ _ _ h

end Containers

/-- No text at all makes the parser throw anything else. -/
theorem value_reports (fuel : Nat) : Reports (value fuel) := by
  induction fuel with
  | zero => exact fun c e h => fail_reports h
  | succ fuel ih =>
      intro c e h
      rw [value] at h
      dsimp only at h
      split at h
      · exact fail_reports h
      · split at h
        · exact object_reports ih fuel _ _ h
        split at h
        · exact array_reports ih fuel _ _ h
        split at h
        · cases hstring : string c.space with
          | error e' =>
              rw [hstring] at h
              obtain rfl := Except.error.inj h
              exact string_reports _ _ hstring
          | ok r =>
              rw [hstring] at h
              cases h
        split at h
        · exact literal_reports _ _ _ _ h
        split at h
        · exact literal_reports _ _ _ _ h
        split at h
        · exact literal_reports _ _ _ _ h
        · exact number_reports _ _ h

/-- Every exception of `parse` is one of the parser. -/
theorem parseJson_reports {input : Bytes} {e : Exception} (h : parseJson input = .error e) :
    ParseError e := by
  rw [parseJson] at h
  obtain hvalue | ⟨⟨result, c⟩, -, h⟩ := bind_error h
  · exact value_reports _ _ _ hvalue
  dsimp only at h
  split at h
  · cases h
  · exact fail_reports h

end ByteTurn

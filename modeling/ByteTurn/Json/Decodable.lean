import ByteTurn.Json.Reading

/-!
# ByteTurn.Json.Decodable

The JSON texts that can be decoded.

A text of the JSON grammar may have a number no double can hold, or half of a
surrogate pair.  `decodableLexis` leaves these out, and nothing else: what it
derives is a JSON text (`jsonText_of_decodable`), and the parser reads it
(`parse_of_decodable`).  What the encoders print is decodable: integers and
numbers with a fixed number of digits.
-/

namespace ByteTurn

/-- The tokens of JSON, where a string stands for something. -/
def decodableLexis : JsonLexis where
  blank b := b = 0x20 ∨ b = 0x09 ∨ b = 0x0a ∨ b = 0x0d
  number := JsonNumber
  characters text s := JsonString text ∧ parserLexis.characters text s

/-! ## JSON texts -/

/-- What is decodable is a JSON text. -/
theorem jsonText_of_decodable {text : Bytes} {j : Json} (h : decodableLexis.Reads text j) :
    JsonText text := by
  induction h with
  | null => exact .null
  | true => exact .true
  | false => exact .false
  | number h _ => exact .number h
  | string h => exact .string h.1
  | emptyArray h => exact .emptyArray h
  | array hne _ ih =>
      refine .array (by simpa using hne) fun item hitem => ?_
      obtain ⟨pair, hpair, rfl⟩ := List.mem_map.mp hitem
      exact ih pair hpair
  | emptyObject h => exact .emptyObject h
  | @object fields hne hblanks hkeys _ ih =>
      have hobject : JsonText (objectJson ((fields.map (·.1)).map JsonField.text)) := by
        refine .object (by simpa using hne) ?_ ?_ ?_ <;>
          exact List.forall_mem_map.mpr fun f hf => by
            first | exact hblanks f hf | exact (hkeys f hf).1 | exact ih f hf
      rwa [List.map_map] at hobject
  | spaced hbefore hafter _ ih => exact .spaced hbefore hafter ih

/-! ## the parser reads them -/

/-- The blanks of the grammar are blanks of the parser. -/
theorem isSpace_of_jsonBlank {b : UInt8} (h : b = 0x20 ∨ b = 0x09 ∨ b = 0x0a ∨ b = 0x0d) :
    isSpace b = true := by
  rcases h with rfl | rfl | rfl | rfl <;> rfl

/-- Digits are number bytes. -/
theorem isNumberByte_of_digits {l : Bytes} (h : JsonDigits l) :
    ∀ b ∈ l, Double.isNumberByte b = true := by
  intro b hb
  rw [Double.isNumberByte, h.2 b hb]
  rfl

/-- So are the bytes of an exponent. -/
theorem isNumberByte_of_exponent {l : Bytes} (h : JsonExponent l) :
    ∀ b ∈ l, Double.isNumberByte b = true := by
  cases h with
  | none => nofun
  | some he hsign hdigits =>
      intro b hb
      rcases List.mem_cons.mp hb with rfl | hb
      · rcases he with rfl | rfl <;> rfl
      · rcases List.mem_append.mp hb with hb | hb
        · rcases hsign with rfl | rfl | rfl
          · contradiction
          · rw [List.mem_singleton.mp hb]
            rfl
          · rw [List.mem_singleton.mp hb]
            rfl
        · exact isNumberByte_of_digits hdigits b hb

/-- So are those of a fraction. -/
theorem isNumberByte_of_fraction {l : Bytes} (h : JsonFraction l) :
    ∀ b ∈ l, Double.isNumberByte b = true := by
  cases h with
  | none => nofun
  | some hdigits =>
      intro b hb
      rcases List.mem_cons.mp hb with rfl | hb
      · rfl
      · exact isNumberByte_of_digits hdigits b hb

/-- A number consists of number bytes. -/
theorem JsonNumber.numberBytes {text : Bytes} (h : JsonNumber text) : parserLexis.number text := by
  cases h with
  | @mk sign whole fraction exponent hsign hwhole hzero hfraction hexponent =>
      refine ⟨?_, ?_⟩
      · intro hnil
        exact hwhole.1 (List.append_eq_nil_iff.mp (List.append_eq_nil_iff.mp hnil).2).1
      · intro b hb
        simp only [List.mem_append] at hb
        rcases hb with hb | hb | hb | hb
        · rcases hsign with rfl | rfl
          · contradiction
          · rw [List.mem_singleton.mp hb]
            rfl
        · exact isNumberByte_of_digits hwhole b hb
        · exact isNumberByte_of_fraction hfraction b hb
        · exact isNumberByte_of_exponent hexponent b hb

/-- What is decodable is read. -/
theorem parse_of_decodable {text : Bytes} {j : Json} (h : decodableLexis.Reads text j) :
    parseJson text = .ok j :=
  parse_of_reads (h.mono (fun _ => isSpace_of_jsonBlank) (fun _ => JsonNumber.numberBytes)
    fun _ _ => And.right)

/-! ## numbers that are printed -/

/-- A natural number is printed with digits. -/
theorem jsonDigits_toDigits (n : Nat) : JsonDigits (Double.toDigits n) :=
  ⟨Double.toDigits_ne_nil n, fun _ => Double.isDigit_of_mem_toDigits⟩

theorem signBytes_cases (negative : Bool) :
    Double.signBytes negative = [] ∨ Double.signBytes negative = [0x2d] := by
  cases negative <;> simp [Double.signBytes]

/-- An integer is printed as a number. -/
theorem jsonNumber_toDecimal (n : Int) : JsonNumber (Double.toDecimal n) := by
  have hnumber : JsonNumber
      (Double.signBytes (n < 0) ++ (Double.toDigits n.natAbs ++ ([] ++ []))) :=
    .mk (signBytes_cases _) (jsonDigits_toDigits _) Double.toDigits_head .none .none
  rwa [List.append_nil, List.append_nil] at hnumber

/-- A finite number is printed as a number. -/
theorem jsonNumber_toFixed {d : Double} (h : d.IsFinite) : JsonNumber d.toFixed := by
  cases d with
  | finite negative magnitude =>
      let n := Double.roundHalfEven (magnitude * 10 ^ 6)
      have hfraction : JsonFraction (0x2e ::
          (List.replicate (6 - (Double.toDigits (n % 10 ^ 6)).length) 0x30 ++
            Double.toDigits (n % 10 ^ 6))) :=
        .some ⟨List.append_ne_nil_of_right_ne_nil _ (Double.toDigits_ne_nil _),
          fun _ => Double.isDigit_of_mem_padded⟩
      have hnumber := JsonNumber.mk (signBytes_cases negative) (jsonDigits_toDigits (n / 10 ^ 6))
        Double.toDigits_head hfraction .none
      rwa [List.append_nil] at hnumber
  | infinite negative | nan negative => exact h.elim

/-- What is printed of a finite number is decodable. -/
theorem decodable_toFixed {d : Double} (h : d.IsFinite) :
    ∃ j, decodableLexis.Reads d.toFixed j := by
  obtain ⟨d', hstod⟩ := Double.stod_toFixed h
  exact ⟨_, .number (jsonNumber_toFixed h) hstod⟩

/-- An integer of at most 64 bits is decodable. -/
theorem decodable_toDecimal {n : Int} (h : n.natAbs ≤ 2 ^ 64) :
    decodableLexis.Reads (Double.toDecimal n) (.number (Double.ofInt n)) := by
  have hrange : (n.natAbs : ℚ) < Double.overflow := by
    have hle : (n.natAbs : ℚ) ≤ 2 ^ 64 := by exact_mod_cast h
    have hpow : (2 : ℚ) ^ 64 < 2 ^ 970 := pow_lt_pow_right₀ (by norm_num) (by omega)
    exact lt_of_le_of_lt hle (lt_of_lt_of_le hpow Double.two_pow_le_overflow)
  exact .number (jsonNumber_toDecimal n) (Double.stod_toDecimal hrange)

/-! ## strings that are printed -/

/-- Four hexadecimal digits are what the grammar asks for. -/
theorem hexQuad_digits {text : Bytes} {value : Nat} (h : HexQuad text value) :
    text.length = 4 ∧ ∀ b ∈ text, (hexDigit b).isSome := by
  obtain ⟨hfour, digits, hdigits, -⟩ := h
  refine ⟨hfour, fun b hb => ?_⟩
  clear hfour
  induction hdigits with
  | nil => contradiction
  | cons hdigit _ ih =>
      rcases List.mem_cons.mp hb with rfl | hrest
      · rw [hdigit]
        rfl
      · exact ih hrest

/-- Units without a control byte make a JSON string. -/
theorem characters_of_units {texts ss : List Bytes} (h : List.Forall₂ StringUnit texts ss)
    (hplain : ∀ b ∈ texts.flatten, 0x20 ≤ b) :
    decodableLexis.characters texts.flatten ss.flatten := by
  refine ⟨?_, texts, ss, h, rfl, rfl⟩
  induction h with
  | nil => exact .nil
  | @cons text s texts ss hunit _ ih =>
      rw [List.flatten_cons] at hplain ⊢
      obtain ⟨hfirst, hrest⟩ := List.forall_mem_append.mp hplain
      cases hunit with
      | byte hquote hbackslash =>
          exact .plain (hfirst _ List.mem_cons_self) hquote hbackslash (ih hrest)
      | letter hletter => exact .letter (by rw [hletter]; rfl) (ih hrest)
      | unicode hquad _ =>
          obtain ⟨hfour, hdigits⟩ := hexQuad_digits hquad
          exact .unicode hfour hdigits (ih hrest)
      | @pair text text' high low hhigh hlow _ _ =>
          obtain ⟨hfour, hdigits⟩ := hexQuad_digits hhigh
          obtain ⟨hfour', hdigits'⟩ := hexQuad_digits hlow
          have hstring := JsonString.unicode hfour hdigits
            (.unicode hfour' hdigits' (ih hrest))
          simpa using hstring

end ByteTurn

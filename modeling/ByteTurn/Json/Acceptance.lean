import ByteTurn.Json.Rfc

/-!
# ByteTurn.Json.Acceptance

What the parser accepts beyond JSON.

`StrictLexemes` walks a text from lexeme to lexeme, without its structure: the
runs between delimiters, the delimiters, and the insides of strings.  A text the
parser accepts is JSON when its lexemes are JSON's, and not otherwise.
-/

namespace ByteTurn

/-! ## lexemes -/

/-- The bytes that end a run. -/
def isDelimiter (b : UInt8) : Bool :=
  isSpace b || b = quote || b = openBrace || b = closeBrace || b = openBracket ||
    b = closeBracket || b = colon || b = comma

/-- Where a walk over a text stands: outside the strings, with the run so far;
inside a string; or after a backslash. -/
inductive LexMode where
  | outside (run : Bytes)
  | inside
  | escaped
  deriving DecidableEq, Repr

/-- A run that begins as a number is a number of the grammar. -/
def StrictRun (run : Bytes) : Prop :=
  ∀ b ∈ run.head?, Double.isNumberByte b = true → JsonNumber run

/-- The lexemes of a text are JSON's: its numbers, its blanks and the bytes of
its strings. -/
def StrictLexemes : LexMode → Bytes → Prop
  | .outside run, [] => StrictRun run
  | .outside run, b :: rest =>
      if isDelimiter b then
        StrictRun run ∧ (b ≠ 0x0b ∧ b ≠ 0x0c) ∧
          StrictLexemes (if b = quote then .inside else .outside []) rest
      else StrictLexemes (.outside (run ++ [b])) rest
  | .inside, [] => True
  | .inside, b :: rest =>
      if b = quote then StrictLexemes (.outside []) rest
      else if b = backslash then StrictLexemes .escaped rest
      else 0x20 ≤ b ∧ StrictLexemes .inside rest
  | .escaped, [] => True
  | .escaped, _ :: rest => StrictLexemes .inside rest

section Walk

variable {run rest : Bytes} {b : UInt8}

theorem strict_outside_cons : StrictLexemes (.outside run) (b :: rest) =
    if isDelimiter b then
      StrictRun run ∧ (b ≠ 0x0b ∧ b ≠ 0x0c) ∧
        StrictLexemes (if b = quote then .inside else .outside []) rest
    else StrictLexemes (.outside (run ++ [b])) rest := rfl

theorem strict_inside_cons : StrictLexemes .inside (b :: rest) =
    if b = quote then StrictLexemes (.outside []) rest
    else if b = backslash then StrictLexemes .escaped rest
    else 0x20 ≤ b ∧ StrictLexemes .inside rest := rfl

theorem strict_escaped_cons : StrictLexemes .escaped (b :: rest) = StrictLexemes .inside rest := rfl

end Walk

/-- A text that ends the run before it. -/
def EndsRun (tail : Bytes) : Prop := ∀ b ∈ tail.head?, isDelimiter b = true

theorem EndsRun.nil : EndsRun [] := nofun

theorem EndsRun.cons {b : UInt8} {tail : Bytes} (h : isDelimiter b = true) :
    EndsRun (b :: tail) := by
  intro c hc
  rw [← Option.some.inj hc]
  exact h

theorem isDelimiter_of_isSpace {b : UInt8} (h : isSpace b = true) : isDelimiter b = true := by
  rw [isDelimiter, h]
  rfl

/-- Blanks before the end of a run end it too. -/
theorem EndsRun.blanks {blanks tail : Bytes} (hblank : Blank blanks) (h : EndsRun tail) :
    EndsRun (blanks ++ tail) := by
  cases blanks with
  | nil => exact h
  | cons b blanks => exact .cons (isDelimiter_of_isSpace (hblank b List.mem_cons_self))

/-- An empty run is no number. -/
theorem strictRun_nil : StrictRun [] := nofun

/-! ### the walk outside strings -/

/-- Bytes that delimit nothing extend the run. -/
theorem strict_run {l : Bytes} (hl : ∀ b ∈ l, isDelimiter b = false) (run tail : Bytes) :
    StrictLexemes (.outside run) (l ++ tail) ↔ StrictLexemes (.outside (run ++ l)) tail := by
  induction l generalizing run with
  | nil => rw [List.nil_append, List.append_nil]
  | cons b l ih =>
      rw [List.cons_append, strict_outside_cons, if_neg (by simp [hl b List.mem_cons_self]),
        ih fun b' hb' => hl b' (List.mem_cons_of_mem _ hb'), List.append_assoc]
      rfl

/-- A run that is over must be a number, if it begins like one. -/
theorem strict_ended {run tail : Bytes} (htail : EndsRun tail) :
    StrictLexemes (.outside run) tail ↔ StrictRun run ∧ StrictLexemes (.outside []) tail := by
  cases tail with
  | nil => exact (and_iff_left strictRun_nil).symm
  | cons b tail =>
      rw [strict_outside_cons, strict_outside_cons, if_pos (htail b rfl), if_pos (htail b rfl)]
      exact and_congr_right fun _ => (and_iff_right strictRun_nil).symm

/-- A run without delimiters. -/
theorem strict_lexeme {l tail : Bytes} (hl : ∀ b ∈ l, isDelimiter b = false)
    (htail : EndsRun tail) :
    StrictLexemes (.outside []) (l ++ tail) ↔ StrictRun l ∧ StrictLexemes (.outside []) tail := by
  rw [strict_run hl, List.nil_append, strict_ended htail]

/-- Punctuation between runs is no lexeme to check. -/
theorem strict_punctuation {b : UInt8} (hb : isDelimiter b = true) (hspace : isSpace b = false)
    (hquote : b ≠ quote) (tail : Bytes) :
    StrictLexemes (.outside []) (b :: tail) ↔ StrictLexemes (.outside []) tail := by
  have hplain : b ≠ 0x0b ∧ b ≠ 0x0c := by
    constructor
    · rintro rfl
      exact absurd hspace (by decide)
    · rintro rfl
      exact absurd hspace (by decide)
  rw [strict_outside_cons, if_pos hb, if_neg hquote]
  exact (and_iff_right strictRun_nil).trans (and_iff_right hplain)

/-- A quote opens a string. -/
theorem strict_quote (tail : Bytes) :
    StrictLexemes (.outside []) (quote :: tail) ↔ StrictLexemes .inside tail := by
  rw [strict_outside_cons, if_pos rfl, if_pos (by decide)]
  exact (and_iff_right strictRun_nil).trans (and_iff_right (by decide))

/-- Of the parser's blanks two are none of the grammar. -/
theorem isSpace_cases {b : UInt8} (h : isSpace b = true) :
    rfcLexis.blank b ↔ b ≠ 0x0b ∧ b ≠ 0x0c := by
  have hall : ∀ b : UInt8, isSpace b = true →
      ((b = 0x20 ∨ b = 0x09 ∨ b = 0x0a ∨ b = 0x0d) ↔ b ≠ 0x0b ∧ b ≠ 0x0c) := by decide +kernel
  exact hall b h

/-- Blanks must be those of the grammar. -/
theorem strict_blanks {blanks : Bytes} (hblank : Blank blanks) (tail : Bytes) :
    StrictLexemes (.outside []) (blanks ++ tail) ↔
      JsonBlank blanks ∧ StrictLexemes (.outside []) tail := by
  induction blanks with
  | nil => exact (and_iff_right (show JsonBlank [] from nofun)).symm
  | cons b blanks ih =>
      have hb := hblank b List.mem_cons_self
      have hquote : b ≠ quote := by
        rintro rfl
        exact absurd hb (by decide)
      rw [List.cons_append, strict_outside_cons, if_pos (isDelimiter_of_isSpace hb), if_neg hquote,
        ih fun b' hb' => hblank b' (List.mem_cons_of_mem _ hb'), ← isSpace_cases hb, JsonBlank,
        JsonBlank, List.forall_mem_cons, and_assoc]
      exact and_iff_right strictRun_nil

/-! ### the walk inside a string -/

/-- A hexadecimal digit is a plain byte of a string. -/
theorem plain_of_hexDigit {b : UInt8} (h : (hexDigit b).isSome) :
    b ≠ quote ∧ b ≠ backslash ∧ 0x20 ≤ b := by
  have hall : ∀ b : UInt8, (hexDigit b).isSome → b ≠ quote ∧ b ≠ backslash ∧ 0x20 ≤ b := by
    decide +kernel
  exact hall b h

/-- The digits of an escape are plain. -/
theorem strict_digits {digits : Bytes} (h : ∀ b ∈ digits, (hexDigit b).isSome) (tail : Bytes) :
    StrictLexemes .inside (digits ++ tail) ↔ StrictLexemes .inside tail := by
  induction digits with
  | nil => rfl
  | cons b digits ih =>
      obtain ⟨hquote, hbackslash, hcontrol⟩ := plain_of_hexDigit (h b List.mem_cons_self)
      rw [List.cons_append, strict_inside_cons, if_neg hquote, if_neg hbackslash,
        ih fun b' hb' => h b' (List.mem_cons_of_mem _ hb')]
      exact and_iff_right hcontrol

/-- An escaped byte is passed over. -/
theorem strict_escape (letter : UInt8) (tail : Bytes) :
    StrictLexemes .inside (backslash :: letter :: tail) ↔ StrictLexemes .inside tail := by
  rw [strict_inside_cons, if_neg (by decide), if_pos rfl, strict_escaped_cons]

/-- So is an escape with its digits. -/
theorem strict_escapeDigits {digits : Bytes} (h : ∀ b ∈ digits, (hexDigit b).isSome)
    (tail : Bytes) :
    StrictLexemes .inside (backslash :: 0x75 :: (digits ++ tail)) ↔ StrictLexemes .inside tail := by
  rw [strict_escape, strict_digits h]

/-- A quote closes the string. -/
theorem strict_close (tail : Bytes) :
    StrictLexemes .inside (quote :: tail) ↔ StrictLexemes (.outside []) tail := by
  rw [strict_inside_cons, if_pos rfl]

/-- The bytes of an escape are hexadecimal digits. -/
theorem HexQuad.digits {text : Bytes} {value : Nat} (h : HexQuad text value) :
    ∀ b ∈ text, (hexDigit b).isSome := by
  obtain ⟨-, digits, hdigits, -⟩ := h
  intro b hb
  obtain ⟨i, hi, rfl⟩ := List.getElem_of_mem hb
  obtain ⟨hlength, hget⟩ := List.forall₂_iff_get.mp hdigits
  have hdigit := hget i hi (hlength ▸ hi)
  simp only [List.get_eq_getElem] at hdigit
  rw [hdigit]
  rfl

/-- The string contents of JSON keep a walk strict. -/
theorem strict_of_jsonString {text : Bytes} (h : JsonString text) {tail : Bytes}
    (htail : StrictLexemes .inside tail) : StrictLexemes .inside (text ++ tail) := by
  induction h with
  | nil => exact htail
  | plain hcontrol hquote hbackslash _ ih =>
      rw [List.cons_append, strict_inside_cons, if_neg hquote, if_neg hbackslash]
      exact ⟨hcontrol, ih⟩
  | letter _ _ ih => exact (strict_escape _ _).mpr ih
  | unicode _ hdigits _ ih =>
      rw [List.cons_append, List.cons_append, List.append_assoc]
      exact (strict_escapeDigits hdigits _).mpr ih

/-- What a strict walk finds in a string of the parser's is JSON's. -/
theorem jsonString_of_strict {texts ss : List Bytes} (h : List.Forall₂ StringUnit texts ss)
    {tail : Bytes} (hstrict : StrictLexemes .inside (texts.flatten ++ tail)) :
    JsonString texts.flatten ∧ StrictLexemes .inside tail := by
  induction h with
  | nil => exact ⟨.nil, hstrict⟩
  | @cons text s texts ss hunit _ ih =>
      rw [List.flatten_cons, List.append_assoc] at hstrict
      rw [List.flatten_cons]
      cases hunit with
      | byte hquote hbackslash =>
          rw [List.singleton_append, strict_inside_cons, if_neg hquote, if_neg hbackslash] at hstrict
          obtain ⟨hcontrol, hrest⟩ := hstrict
          obtain ⟨hstring, htail⟩ := ih hrest
          exact ⟨.plain hcontrol hquote hbackslash hstring, htail⟩
      | letter hletter =>
          obtain ⟨hstring, htail⟩ := ih ((strict_escape _ _).mp hstrict)
          exact ⟨.letter (by rw [hletter]; rfl) hstring, htail⟩
      | unicode hquad _ =>
          obtain ⟨hstring, htail⟩ := ih ((strict_escapeDigits hquad.digits _).mp hstrict)
          exact ⟨.unicode hquad.1 hquad.digits hstring, htail⟩
      | @pair high low _ _ hhigh hlow _ _ =>
          rw [List.cons_append, List.cons_append, List.append_assoc, List.cons_append,
            List.cons_append, strict_escapeDigits hhigh.digits,
            strict_escapeDigits hlow.digits] at hstrict
          obtain ⟨hstring, htail⟩ := ih hstrict
          have hsecond := JsonString.unicode hlow.1 hlow.digits hstring
          have hfirst := JsonString.unicode hhigh.1 hhigh.digits hsecond
          refine ⟨?_, htail⟩
          rw [List.cons_append, List.cons_append, List.append_assoc]
          exact hfirst

/-- A string of the grammar has strict lexemes. -/
theorem strict_quoted {text tail : Bytes} (h : JsonString text)
    (htail : StrictLexemes (.outside []) tail) :
    StrictLexemes (.outside []) (quoted text ++ tail) := by
  rw [quoted_append, strict_quote]
  exact strict_of_jsonString h ((strict_close tail).mpr htail)

/-- A string with strict lexemes is one of the grammar. -/
theorem jsonString_of_quoted {text s tail : Bytes} (h : parserLexis.characters text s)
    (hstrict : StrictLexemes (.outside []) (quoted text ++ tail)) :
    JsonString text ∧ StrictLexemes (.outside []) tail := by
  obtain ⟨texts, ss, hunits, rfl, rfl⟩ := h
  rw [quoted_append, strict_quote] at hstrict
  obtain ⟨hstring, htail⟩ := jsonString_of_strict hunits hstrict
  exact ⟨hstring, (strict_close tail).mp htail⟩

/-! ## JSON is strict -/

/-- Number bytes delimit nothing. -/
theorem isDelimiter_of_numberByte {b : UInt8} (h : Double.isNumberByte b = true) :
    isDelimiter b = false := by
  have hall : ∀ b : UInt8, Double.isNumberByte b = true → isDelimiter b = false := by
    decide +kernel
  exact hall b h

/-- The grammar's blanks are the parser's. -/
theorem jsonBlank_blank {blanks : Bytes} (h : JsonBlank blanks) : Blank blanks :=
  fun b hb => isSpace_of_jsonBlank (h b hb)

/-- The letters of the three literals delimit nothing and begin no number. -/
theorem word_plain {text : Bytes}
    (h : text = lit "null" ∨ text = lit "true" ∨ text = lit "false") :
    (∀ b ∈ text, isDelimiter b = false) ∧ ∀ b ∈ text.head?, Double.isNumberByte b = false := by
  have hall : ∀ text ∈ [lit "null", lit "true", lit "false"],
      (∀ b ∈ text, isDelimiter b = false) ∧ ∀ b ∈ text.head?, Double.isNumberByte b = false := by
    decide +kernel
  exact hall text (by simpa using h)

/-- A literal is no lexeme to check. -/
theorem strict_word {text tail : Bytes}
    (h : text = lit "null" ∨ text = lit "true" ∨ text = lit "false") (hend : EndsRun tail) :
    StrictLexemes (.outside []) (text ++ tail) ↔ StrictLexemes (.outside []) tail := by
  obtain ⟨hplain, hhead⟩ := word_plain h
  refine (strict_lexeme hplain hend).trans (and_iff_right ?_)
  intro b hb hnumber
  rw [hhead b hb] at hnumber
  contradiction

/-- Texts between commas, each of which keeps a walk strict. -/
theorem strict_joined {texts : List Bytes} {tail : Bytes} (hend : EndsRun tail)
    (htexts : ∀ text ∈ texts, ∀ tail, EndsRun tail → StrictLexemes (.outside []) tail →
      StrictLexemes (.outside []) (text ++ tail))
    (htail : StrictLexemes (.outside []) tail) :
    StrictLexemes (.outside []) (joined texts ++ tail) := by
  induction texts with
  | nil => exact htail
  | cons text texts ih =>
      have hhead := htexts text List.mem_cons_self
      have hrest := ih fun t ht => htexts t (List.mem_cons_of_mem _ ht)
      cases texts with
      | nil => exact hhead tail hend htail
      | cons next texts =>
          rw [joined_cons, List.append_assoc, List.cons_append]
          refine hhead _ (.cons rfl) ?_
          rw [strict_punctuation rfl rfl (by decide)]
          exact hrest

/-- A text between two punctuation marks. -/
theorem strict_enclosed {b b' : UInt8} {text tail : Bytes}
    (hb : isDelimiter b = true ∧ isSpace b = false ∧ b ≠ quote) :
    StrictLexemes (.outside []) ((b :: (text ++ [b'])) ++ tail) ↔
      StrictLexemes (.outside []) (text ++ b' :: tail) := by
  rw [List.cons_append, List.append_assoc, List.singleton_append,
    strict_punctuation hb.1 hb.2.1 hb.2.2]

/-- A text of the grammar has strict lexemes. -/
theorem strict_of_json {text : Bytes} (h : JsonText text) (tail : Bytes) (hend : EndsRun tail)
    (htail : StrictLexemes (.outside []) tail) :
    StrictLexemes (.outside []) (text ++ tail) := by
  have hclose {b : UInt8} {tail : Bytes} (hb : isDelimiter b = true ∧ isSpace b = false ∧ b ≠ quote)
      (htail : StrictLexemes (.outside []) tail) : StrictLexemes (.outside []) (b :: tail) :=
    (strict_punctuation hb.1 hb.2.1 hb.2.2 tail).mpr htail
  have hblanks {blanks tail : Bytes} (hblank : JsonBlank blanks)
      (htail : StrictLexemes (.outside []) tail) :
      StrictLexemes (.outside []) (blanks ++ tail) :=
    (strict_blanks (jsonBlank_blank hblank) tail).mpr ⟨hblank, htail⟩
  induction h generalizing tail with
  | null => exact (strict_word (.inl rfl) hend).mpr htail
  | true => exact (strict_word (.inr (.inl rfl)) hend).mpr htail
  | false => exact (strict_word (.inr (.inr rfl)) hend).mpr htail
  | number h =>
      exact (strict_lexeme (fun b hb => isDelimiter_of_numberByte (h.numberBytes.2 b hb)) hend).mpr
        ⟨fun _ _ _ => h, htail⟩
  | string h => exact strict_quoted h htail
  | emptyArray h =>
      exact (strict_enclosed (by decide)).mpr (hblanks h (hclose (by decide) htail))
  | array _ _ ih =>
      exact (strict_enclosed (by decide)).mpr
        (strict_joined (.cons rfl) ih (hclose (by decide) htail))
  | emptyObject h =>
      exact (strict_enclosed (by decide)).mpr (hblanks h (hclose (by decide) htail))
  | @object fields _ hspaces hkeys _ ih =>
      refine (strict_enclosed (by decide)).mpr
        (strict_joined (.cons rfl) ?_ (hclose (by decide) htail))
      intro text htext tail hend htail
      obtain ⟨f, hf, rfl⟩ := List.mem_map.mp htext
      have hvalue := hclose (b := colon) (by decide) (ih f hf tail hend htail)
      have hkey := strict_quoted (hkeys f hf) (hblanks (hspaces f hf).2 hvalue)
      have htext : f.text ++ tail = f.before ++
          (quoted f.key ++ (f.after ++ colon :: (f.value ++ tail))) := by
        simp [JsonField.text]
      rw [htext]
      exact hblanks (hspaces f hf).1 hkey
  | @spaced before text after hbefore hafter _ ih =>
      rw [List.append_assoc, List.append_assoc]
      exact hblanks hbefore
        (ih _ (hend.blanks (jsonBlank_blank hafter)) (hblanks hafter htail))

/-! ## strict texts of the parser are JSON -/

/-- Texts between commas, each of which a strict walk shows to be JSON. -/
theorem json_of_strict_joined {α : Type} {l : List α} {text : α → Bytes} {P : α → Prop}
    {tail : Bytes} (hend : EndsRun tail)
    (htexts : ∀ a ∈ l, ∀ tail, EndsRun tail → StrictLexemes (.outside []) (text a ++ tail) →
      P a ∧ StrictLexemes (.outside []) tail)
    (hstrict : StrictLexemes (.outside []) (joined (l.map text) ++ tail)) :
    (∀ a ∈ l, P a) ∧ StrictLexemes (.outside []) tail := by
  induction l with
  | nil => exact ⟨nofun, hstrict⟩
  | cons a l ih =>
      have hhead := htexts a List.mem_cons_self
      have hrest := ih fun t ht => htexts t (List.mem_cons_of_mem _ ht)
      cases l with
      | nil =>
          obtain ⟨hp, htail⟩ := hhead tail hend hstrict
          exact ⟨List.forall_mem_singleton.mpr hp, htail⟩
      | cons next l =>
          rw [List.map_cons, List.map_cons, joined_cons, List.append_assoc,
            List.cons_append] at hstrict
          obtain ⟨hp, hafter⟩ := hhead _ (.cons rfl) hstrict
          rw [strict_punctuation rfl rfl (by decide)] at hafter
          obtain ⟨hall, htail⟩ := hrest hafter
          exact ⟨List.forall_mem_cons.mpr ⟨hp, hall⟩, htail⟩

/-- A text the parser reads is one of the grammar, if its lexemes are strict. -/
theorem json_of_strict {text : Bytes} {j : Json} (h : parserLexis.Reads text j) (tail : Bytes)
    (hend : EndsRun tail) (hstrict : StrictLexemes (.outside []) (text ++ tail)) :
    JsonText text ∧ StrictLexemes (.outside []) tail := by
  have hclose {b : UInt8} {tail : Bytes} (hb : isDelimiter b = true ∧ isSpace b = false ∧ b ≠ quote)
      (hstrict : StrictLexemes (.outside []) (b :: tail)) : StrictLexemes (.outside []) tail :=
    (strict_punctuation hb.1 hb.2.1 hb.2.2 tail).mp hstrict
  induction h generalizing tail with
  | null => exact ⟨.null, (strict_word (.inl rfl) hend).mp hstrict⟩
  | true => exact ⟨.true, (strict_word (.inr (.inl rfl)) hend).mp hstrict⟩
  | false => exact ⟨.false, (strict_word (.inr (.inr rfl)) hend).mp hstrict⟩
  | @number text d h hd =>
      obtain ⟨hrun, htail⟩ := (strict_lexeme
        (fun b hb => isDelimiter_of_numberByte (h.2 b hb)) hend).mp hstrict
      obtain ⟨b, rest, rfl⟩ := List.exists_cons_of_ne_nil h.1
      exact ⟨.number (hrun b rfl (h.2 b List.mem_cons_self)), htail⟩
  | string h =>
      obtain ⟨hstring, htail⟩ := jsonString_of_quoted h hstrict
      exact ⟨.string hstring, htail⟩
  | emptyArray h =>
      obtain ⟨hblank, htail⟩ := (strict_blanks h _).mp ((strict_enclosed (by decide)).mp hstrict)
      exact ⟨.emptyArray hblank, hclose (by decide) htail⟩
  | @array items hne _ ih =>
      obtain ⟨hall, htail⟩ :=
        json_of_strict_joined (.cons rfl) ih ((strict_enclosed (by decide)).mp hstrict)
      exact ⟨.array (by simpa using hne) (List.forall_mem_map.mpr hall), hclose (by decide) htail⟩
  | emptyObject h =>
      obtain ⟨hblank, htail⟩ := (strict_blanks h _).mp ((strict_enclosed (by decide)).mp hstrict)
      exact ⟨.emptyObject hblank, hclose (by decide) htail⟩
  | @object fields hne hspaces hkeys _ ih =>
      have hfield (f : JsonField × Bytes × Json) (hf : f ∈ fields) (tail : Bytes)
          (hend : EndsRun tail) (hstrict : StrictLexemes (.outside []) (f.1.text ++ tail)) :
          ((JsonBlank f.1.before ∧ JsonBlank f.1.after) ∧ JsonString f.1.key ∧
            JsonText f.1.value) ∧ StrictLexemes (.outside []) tail := by
        have htext : f.1.text ++ tail = f.1.before ++
            (quoted f.1.key ++ (f.1.after ++ colon :: (f.1.value ++ tail))) := by
          simp [JsonField.text]
        rw [htext] at hstrict
        obtain ⟨hbefore, hstrict⟩ := (strict_blanks (hspaces f hf).1 _).mp hstrict
        obtain ⟨hkey, hstrict⟩ := jsonString_of_quoted (hkeys f hf) hstrict
        obtain ⟨hafter, hstrict⟩ := (strict_blanks (hspaces f hf).2 _).mp hstrict
        obtain ⟨hvalue, htail⟩ := ih f hf tail hend (hclose (by decide) hstrict)
        exact ⟨⟨⟨hbefore, hafter⟩, hkey, hvalue⟩, htail⟩
      obtain ⟨hall, htail⟩ :=
        json_of_strict_joined (.cons rfl) hfield ((strict_enclosed (by decide)).mp hstrict)
      have hobject : JsonText (objectJson ((fields.map (·.1)).map JsonField.text)) :=
        .object (by simpa using hne) (List.forall_mem_map.mpr fun f hf => (hall f hf).1)
          (List.forall_mem_map.mpr fun f hf => (hall f hf).2.1)
          (List.forall_mem_map.mpr fun f hf => (hall f hf).2.2)
      rw [List.map_map] at hobject
      exact ⟨hobject, hclose (by decide) htail⟩
  | @spaced before text after j hbefore hafter _ ih =>
      rw [List.append_assoc, List.append_assoc] at hstrict
      obtain ⟨hblank, hstrict⟩ := (strict_blanks hbefore _).mp hstrict
      obtain ⟨htext, hstrict⟩ := ih _ (hend.blanks hafter) hstrict
      obtain ⟨hblank', htail⟩ := (strict_blanks hafter _).mp hstrict
      exact ⟨.spaced hblank hblank' htext, htail⟩

/-! ## acceptance -/

/-- A JSON text, in UTF-8. -/
def RfcText (text : Bytes) : Prop := JsonText text ∧ Utf8.Valid text

/-- **What is accepted is JSON exactly when its lexemes are**: for every input,
"if `parseJson` returns a document then the input is a JSON text" holds just when
the input, if the parser's grammar derives it, has only lexemes of JSON and is
valid UTF-8. -/
theorem accepts_json_iff (text : Bytes) :
    (∀ j, parseJson text = .ok j → RfcText text) ↔
      ∀ j, parserLexis.Reads text j → StrictLexemes (.outside []) text ∧ Utf8.Valid text := by
  have hstrict {j : Json} (h : parserLexis.Reads text j) :
      JsonText text ↔ StrictLexemes (.outside []) text := by
    constructor
    · intro hjson
      have hwalk := strict_of_json hjson [] .nil strictRun_nil
      rwa [List.append_nil] at hwalk
    · intro hwalk
      exact (json_of_strict h [] .nil (by rwa [List.append_nil])).1
  constructor
  · intro h j hread
    obtain ⟨hjson, hvalid⟩ := h j (parseJson_iff_reads.mpr hread)
    exact ⟨(hstrict hread).mp hjson, hvalid⟩
  · intro h j hparse
    have hread := parseJson_iff_reads.mp hparse
    obtain ⟨hwalk, hvalid⟩ := h j hread
    exact ⟨(hstrict hread).mpr hwalk, hvalid⟩

/-- In a number of the grammar the byte after a first digit is no minus sign. -/
theorem not_jsonNumber_minus {b : UInt8} {rest : Bytes} (hb : Double.isDigit b = true) :
    ¬JsonNumber (b :: 0x2d :: rest) := by
  intro h
  generalize htext : b :: 0x2d :: rest = text at h
  cases h with
  | @mk sign whole fraction exponent hsign hwhole _ hfraction hexponent =>
      rcases hsign with rfl | rfl
      · obtain ⟨c, whole, rfl⟩ := List.exists_cons_of_ne_nil hwhole.1
        cases whole with
        | cons c' whole =>
            have hc' : (0x2d : UInt8) = c' := (List.cons.inj (List.cons.inj htext).2).1
            exact absurd (hwhole.2 c' (by simp)) (by rw [← hc']; decide)
        | nil =>
            have hafter : 0x2d :: rest = fraction ++ exponent := (List.cons.inj htext).2
            cases hfraction with
            | some _ => exact absurd (List.cons.inj hafter).1 (by decide)
            | none =>
                cases hexponent with
                | none => contradiction
                | some he _ _ =>
                    rcases he with rfl | rfl <;> exact absurd (List.cons.inj hafter).1 (by decide)
      · have hminus : b = 0x2d := (List.cons.inj htext).1
        rw [hminus] at hb
        exact absurd hb (by decide)

/-- A number is read up to where it stops being one. -/
theorem accepts_trailing_minus :
    ∃ j, parseJson (lit "1-2") = .ok j ∧ ¬RfcText (lit "1-2") := by
  have hstod : (Double.stod (lit "1-2")).isSome = true := by decide +kernel
  have hbytes : ∀ b ∈ lit "1-2", Double.isNumberByte b = true := by decide +kernel
  obtain ⟨d, hd⟩ := Option.isSome_iff_exists.mp hstod
  refine ⟨.number d, parseJson_iff_reads.mpr (.number ⟨by decide, hbytes⟩ hd), ?_⟩
  rintro ⟨hjson, -⟩
  have hwalk := strict_of_json hjson [] .nil strictRun_nil
  have hplain (b : UInt8) (hb : b ∈ lit "1-2") : isDelimiter b = false :=
    isDelimiter_of_numberByte (hbytes b hb)
  exact not_jsonNumber_minus (b := 0x31) (by decide)
    (((strict_lexeme hplain .nil).mp hwalk).1 0x31 rfl (by decide))

end ByteTurn

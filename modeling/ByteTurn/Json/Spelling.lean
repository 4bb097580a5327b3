import ByteTurn.Json
import ByteTurn.Lib.Lists

/-!
# ByteTurn.Json.Spelling

What a text stands for, wherever it stands.

`Spells text j` says that the parser reads `text` as `j` in every context, before
a byte that cannot continue it (`Delimited`).  It is closed under the ways texts
are put together: strings, numbers, arrays and objects.
-/

namespace ByteTurn

/-! ## the position -/

/-- `fail` returns nothing. -/
theorem fail_ne_ok {α : Type} {c : Cursor} {reason : String} {a : α} : c.fail reason ≠ .ok a :=
  nofun

/-- A text that cannot continue a blank or a number. -/
def Delimited (tail : Bytes) : Prop :=
  ∀ b ∈ tail.head?, isSpace b = false ∧ Double.isNumberByte b = false

/-- The end of the text ends a number. -/
theorem Delimited.nil : Delimited [] := by simp [Delimited]

/-- So does a byte that is neither blank nor part of a number. -/
theorem Delimited.cons {b : UInt8} {tail : Bytes} (hspace : isSpace b = false)
    (hnumber : Double.isNumberByte b = false) : Delimited (b :: tail) := by
  intro c hc
  rw [← Option.some.inj hc]
  exact ⟨hspace, hnumber⟩

/-- A run of bytes ends where the text after it does not continue it. -/
theorem takeWhile_extends {ext : Bytes} {p : UInt8 → Bool} (hext : ∀ b ∈ ext.head?, p b = false)
    (l : Bytes) : (l ++ ext).takeWhile p = l.takeWhile p := by
  induction l with
  | nil =>
      cases ext with
      | nil => rfl
      | cons b ext => simp [hext b rfl]
  | cons b l ih =>
      rw [List.cons_append, List.takeWhile_cons, List.takeWhile_cons, ih]

/-- `consume` takes the byte it is given, and nothing else. -/
theorem consume_some {c d : Cursor} {b : UInt8} (h : c.consume b = some d) :
    c.rest.head? = some b ∧ d = c.advance 1 := by
  unfold Cursor.consume at h
  split at h
  · next hhead => exact ⟨hhead, (Option.some.inj h).symm⟩
  · contradiction

theorem length_pos_of_head {b : UInt8} {l : Bytes} (h : l.head? = some b) : 1 ≤ l.length := by
  cases l with
  | nil => contradiction
  | cons _ l => exact Nat.le_add_left 1 l.length

/-! ## blanks -/

/-- `space` skips the blanks. -/
theorem space_rest (c : Cursor) : c.space.rest = c.rest.dropWhile isSpace :=
  List.drop_takeWhile_length isSpace c.rest

/-- It skips exactly the blanks it finds. -/
theorem space_of_blank {c : Cursor} {blanks tail : Bytes} (hrest : c.rest = blanks ++ tail)
    (hblank : Blank blanks) (htail : ∀ b ∈ tail.head?, isSpace b = false) :
    c.space.rest = tail := by
  rw [space_rest, hrest, List.dropWhile_append_of_pos hblank]
  cases tail with
  | nil => rfl
  | cons b tail => simp [htail b rfl]

/-- It stays where no blank is. -/
theorem space_of_head {c : Cursor} {b : UInt8} {rest : Bytes} (hrest : c.rest = b :: rest)
    (hb : isSpace b = false) : c.space = c := by
  obtain ⟨position, l⟩ := c
  obtain rfl : l = b :: rest := hrest
  simp [Cursor.space, Cursor.advance, hb]

theorem blank_of_space_nil {c : Cursor} (h : c.space.rest = []) : Blank c.rest := by
  rw [space_rest] at h
  intro b hb
  exact List.dropWhile_eq_nil_iff.mp h b hb

/-- Skipping twice is skipping once. -/
theorem space_space (c : Cursor) : c.space.space = c.space := by
  cases hc : c.space.rest with
  | nil =>
      generalize c.space = e at hc ⊢
      obtain ⟨position, l⟩ := e
      obtain rfl : l = [] := hc
      rfl
  | cons b rest =>
      have hb : isSpace b = false := by
        rw [space_rest] at hc
        have hhead := List.head?_dropWhile_not isSpace c.rest
        rw [hc] at hhead
        simpa using hhead
      exact space_of_head hc hb

/-- `consume` moves past the byte that is there. -/
theorem consume_of_head {c : Cursor} {b : UInt8} {rest : Bytes} (hrest : c.rest = b :: rest) :
    ∃ d : Cursor, d.rest = rest ∧ c.consume b = some d := by
  refine ⟨c.advance 1, by rw [Cursor.advance, hrest]; rfl, ?_⟩
  rw [Cursor.consume, hrest, List.head?_cons, if_pos rfl]

/-- It moves past no other. -/
theorem consume_of_ne {c : Cursor} {b b' : UInt8} (hhead : c.rest.head? = some b)
    (hne : b ≠ b') : c.consume b' = none := by
  rw [Cursor.consume, hhead, if_neg (by simpa using hne)]

/-! ## spellings -/

/-- The parser reads `text` as `j`, up to blanks at its end. -/
def Spells (text : Bytes) (j : Json) : Prop :=
  ∃ blanks, Blank blanks ∧ ∀ (n : Nat) (c : Cursor) (tail : Bytes), c.rest = text ++ tail →
    Delimited tail → text.length < n →
    ∃ d, d.rest = blanks ++ tail ∧ value n c = .ok (j, d)

/-- A spelling is a text the parser reads. -/
theorem parse_of_spells {text : Bytes} {j : Json} (h : Spells text j) : parseJson text = .ok j := by
  obtain ⟨blanks, hblank, hread⟩ := h
  obtain ⟨d, hrest, hvalue⟩ := hread (text.length + 1) ⟨0, text⟩ [] (List.append_nil _).symm
    Delimited.nil (by omega)
  have hspace : d.space.rest = [] := space_of_blank hrest hblank (by simp)
  rw [parseJson, hvalue, ok_bind]
  dsimp only
  rw [if_pos hspace]

/-- The parser reads all of `text` as `j`, before anything that does not continue
a number. -/
def SpellsExactly (text : Bytes) (j : Json) : Prop :=
  ∀ (n : Nat) (c : Cursor) (tail : Bytes), c.rest = text ++ tail →
    (∀ b ∈ tail.head?, Double.isNumberByte b = false) → text.length < n →
    ∃ d, d.rest = tail ∧ value n c = .ok (j, d)

/-- A blank ends a number. -/
theorem isNumberByte_of_isSpace {b : UInt8} (h : isSpace b = true) :
    Double.isNumberByte b = false := by
  revert h
  revert b
  decide +kernel

/-- The blanks that follow are left. -/
theorem SpellsExactly.spaced {text blanks : Bytes} {j : Json} (h : SpellsExactly text j)
    (hblank : Blank blanks) : Spells (text ++ blanks) j := by
  refine ⟨blanks, hblank, ?_⟩
  intro n c tail hrest htail hn
  rw [List.append_assoc] at hrest
  rw [List.length_append] at hn
  refine h n c (blanks ++ tail) hrest ?_ (by omega)
  intro b hb
  cases blanks with
  | nil => exact (htail b hb).2
  | cons b' blanks =>
      rw [← Option.some.inj hb]
      exact isNumberByte_of_isSpace (hblank b' List.mem_cons_self)

/-! ## strings, numbers and literals -/

/-- A text between quotes. -/
def quoted (text : Bytes) : Bytes := quote :: (text ++ [quote])

/-- The parser reads the text between two quotes as the string `s`. -/
def SpellsString (text s : Bytes) : Prop :=
  ∀ (c : Cursor) (tail : Bytes), c.rest = quoted text ++ tail →
    ∃ d, d.rest = tail ∧ string c = .ok (s, d)

theorem quoted_append (text tail : Bytes) :
    quoted text ++ tail = quote :: (text ++ quote :: tail) := by
  simp [quoted]

/-- Inside a string, the parser reads `text` in one round, as the bytes `s`. -/
def SpellsUnit (text s : Bytes) : Prop :=
  text ≠ [] ∧ ∀ (n : Nat) (result : Bytes) (c : Cursor) (rest : Bytes), c.rest = text ++ rest →
    ∃ d : Cursor, d.rest = rest ∧ stringLoop (n + 1) result c = stringLoop n (result ++ s) d

/-- The loop over a string reads one unit in one round. -/
theorem stringLoop_units {texts ss : List Bytes} (h : List.Forall₂ SpellsUnit texts ss) {n : Nat}
    (hn : texts.length < n) (result : Bytes) {c : Cursor} {tail : Bytes}
    (hrest : c.rest = texts.flatten ++ quote :: tail) :
    ∃ d, d.rest = tail ∧ stringLoop n result c = .ok (result ++ ss.flatten, d) := by
  induction h generalizing n result c with
  | nil =>
      obtain ⟨n, rfl⟩ : ∃ k, n = k + 1 := ⟨n - 1, by omega⟩
      rw [List.flatten_nil, List.nil_append] at hrest
      refine ⟨c.advance 1, by rw [Cursor.advance, hrest]; rfl, ?_⟩
      rw [stringLoop, hrest, List.flatten_nil, List.append_nil]
      dsimp only
      rw [if_pos rfl]
  | @cons text s texts ss hunit _ ih =>
      rw [List.length_cons] at hn
      obtain ⟨n, rfl⟩ : ∃ k, n = k + 1 := ⟨n - 1, by omega⟩
      have hleft : texts.length < n := by omega
      rw [List.flatten_cons, List.append_assoc] at hrest
      obtain ⟨e, he, hstep⟩ := hunit.2 n result c _ hrest
      obtain ⟨d, hd, hloop⟩ := ih hleft (result ++ s) he
      exact ⟨d, hd, by rw [hstep, hloop, List.flatten_cons, List.append_assoc]⟩

/-- Each unit has a byte at least, so the length of the text is enough fuel. -/
theorem units_length_le {texts ss : List Bytes} (h : List.Forall₂ SpellsUnit texts ss) :
    texts.length ≤ texts.flatten.length := by
  induction h with
  | nil => exact Nat.le_refl _
  | @cons text s texts ss hunit _ ih =>
      have hhead := List.length_pos_iff.mpr hunit.1
      rw [List.length_cons, List.flatten_cons, List.length_append]
      omega

/-- A string is read round by round. -/
theorem spellsString_of_units {texts ss : List Bytes} (h : List.Forall₂ SpellsUnit texts ss) :
    SpellsString texts.flatten ss.flatten := by
  intro c tail hrest
  rw [quoted_append] at hrest
  have hadvance : (c.advance 1).rest = texts.flatten ++ quote :: tail := by
    rw [Cursor.advance, hrest]
    rfl
  have hlength := units_length_le h
  have hfuel : texts.length < c.rest.length + 1 := by
    rw [hrest]
    simp only [List.length_cons, List.length_append]
    omega
  exact stringLoop_units h hfuel [] hadvance

/-- A byte that needs no escape. -/
theorem spellsUnit_byte {b : UInt8} (hquote : b ≠ quote) (hbackslash : b ≠ backslash) :
    SpellsUnit [b] [b] := by
  refine ⟨List.cons_ne_nil _ _, ?_⟩
  intro n result c rest hrest
  refine ⟨c.advance 1, by rw [Cursor.advance, hrest]; rfl, ?_⟩
  rw [stringLoop, hrest]
  simp only [List.cons_append, List.nil_append]
  rw [if_neg hquote, if_pos hbackslash]

/-- An escape of one letter. -/
theorem spellsUnit_letter {letter b : UInt8} (h : letterEscape letter = some b) :
    SpellsUnit [backslash, letter] [b] := by
  refine ⟨List.cons_ne_nil _ _, ?_⟩
  intro n result c rest hrest
  refine ⟨c.advance 2, by rw [Cursor.advance, hrest]; rfl, ?_⟩
  rw [stringLoop, hrest]
  simp only [List.cons_append, List.nil_append]
  rw [if_neg (by decide), if_neg (by decide), List.drop_succ_cons, List.drop_zero]
  dsimp only
  rw [h]

/-! ## unicode escapes -/

/-- What hexadecimal digits stand for. -/
def hexValue (value : Nat) (digits : List Nat) : Nat := digits.foldl (fun v d => v * 16 + d) value

/-- Hexadecimal digits are read as the number they spell. -/
theorem hexDigits_spelled {text : Bytes} {digits : List Nat}
    (h : List.Forall₂ (fun b d => hexDigit b = some d) text digits) (value : Nat) {c : Cursor}
    {rest : Bytes} (hrest : c.rest = text ++ rest) :
    ∃ d : Cursor, d.rest = rest ∧ hexDigits text.length value c = .ok (hexValue value digits, d) := by
  induction h generalizing value c with
  | nil => exact ⟨c, hrest, rfl⟩
  | @cons b digit text digits hb _ ih =>
      have hnext : (c.advance 1).rest = text ++ rest := by
        rw [Cursor.advance, hrest]
        rfl
      obtain ⟨d, hd, hdigits⟩ := ih (value * 16 + digit) hnext
      refine ⟨d, hd, ?_⟩
      rw [List.length_cons, hexDigits, hrest]
      simp only [List.cons_append, hb]
      exact hdigits

/-- So are the four of an escape. -/
theorem hex4_spelled {text : Bytes} {digits : List Nat}
    (h : List.Forall₂ (fun b d => hexDigit b = some d) text digits) (hfour : text.length = 4)
    {c : Cursor} {rest : Bytes} (hrest : c.rest = text ++ rest) :
    ∃ d : Cursor, d.rest = rest ∧ hex4 c = .ok (hexValue 0 digits, d) := by
  obtain ⟨d, hd, hdigits⟩ := hexDigits_spelled h 0 hrest
  refine ⟨d, hd, ?_⟩
  have hlength : ¬ c.rest.length < 4 := by
    rw [hrest, List.length_append]
    omega
  rw [hex4, if_neg hlength, ← hfour]
  exact hdigits

/-- A unicode escape of one code unit. -/
theorem spellsUnit_unicode {text : Bytes} {digits : List Nat}
    (h : List.Forall₂ (fun b d => hexDigit b = some d) text digits) (hfour : text.length = 4)
    (hunit : hexValue 0 digits < 0xd800 ∨ 0xdfff < hexValue 0 digits) :
    SpellsUnit (backslash :: 0x75 :: text) (utf8 (hexValue 0 digits)) := by
  refine ⟨List.cons_ne_nil _ _, ?_⟩
  intro n result c rest hrest
  have hadvance : (c.advance 2).rest = text ++ rest := by
    rw [Cursor.advance, hrest]
    rfl
  obtain ⟨d, hd, hhex⟩ := hex4_spelled h hfour hadvance
  have hpoint : codepoint (c.advance 2) = .ok (hexValue 0 digits, d) := by
    rw [codepoint, hhex, ok_bind]
    dsimp only
    rw [if_neg (by omega), if_neg (by omega)]
  refine ⟨d, hd, ?_⟩
  rw [stringLoop, hrest]
  simp only [List.cons_append]
  rw [if_neg (by decide), if_neg (by decide), List.drop_succ_cons, List.drop_zero]
  dsimp only
  rw [show letterEscape 0x75 = none by decide]
  dsimp only
  rw [if_pos rfl, hpoint, ok_bind]

/-! ## the first step -/

/-- The parser's first step, at a byte that is no space. -/
theorem value_of_head {c : Cursor} {b : UInt8} {rest : Bytes} (hrest : c.rest = b :: rest)
    (hb : isSpace b = false) (n : Nat) :
    value (n + 1) c =
      if b = openBrace then object (fun c => value n c) n c
      else if b = openBracket then array (fun c => value n c) n c
      else if b = quote then (string c).map fun (text, c) => (.string text, c)
      else if b = 0x74 then literal c (lit "true") (.bool true)
      else if b = 0x66 then literal c (lit "false") (.bool false)
      else if b = 0x6e then literal c (lit "null") .null
      else number c := by
  rw [value]
  dsimp only
  rw [space_of_head hrest hb, hrest]

/-- A string is read up to its closing quote. -/
theorem spellsExactly_string {text s : Bytes} (h : SpellsString text s) :
    SpellsExactly (quoted text) (.string s) := by
  intro n c tail hrest _ hn
  obtain ⟨n, rfl⟩ : ∃ k, n = k + 1 := ⟨n - 1, by omega⟩
  obtain ⟨d, hd, hread⟩ := h c tail hrest
  rw [quoted_append] at hrest
  refine ⟨d, hd, ?_⟩
  rw [value_of_head hrest rfl, if_neg (by decide), if_neg (by decide), if_pos rfl, hread]
  rfl

/-- A number begins with no byte that another value begins with. -/
theorem isNumberByte_cases {b : UInt8} (h : Double.isNumberByte b = true) :
    isSpace b = false ∧ b ≠ openBrace ∧ b ≠ openBracket ∧ b ≠ quote ∧ b ≠ 0x74 ∧ b ≠ 0x66 ∧
      b ≠ 0x6e := by
  revert h
  revert b
  decide +kernel

/-- The text of a number. -/
theorem spellsExactly_numeral {text : Bytes} {number : Double}
    (hall : ∀ b ∈ text, Double.isNumberByte b = true) (hne : text ≠ [])
    (hstod : Double.stod text = some number) : SpellsExactly text (.number number) := by
  intro n c tail hrest htail hn
  obtain ⟨n, rfl⟩ : ∃ k, n = k + 1 := ⟨n - 1, by omega⟩
  have htake : c.rest.takeWhile Double.isNumberByte = text := by
    rw [hrest, takeWhile_extends htail]
    exact List.takeWhile_eq_self_iff.mpr hall
  obtain ⟨b, rest, hcons⟩ := List.exists_cons_of_ne_nil hne
  obtain ⟨hspace, hbrace, hbracket, hquote, htrue, hfalse, hnull⟩ :=
    isNumberByte_cases (hall b (by rw [hcons]; exact List.mem_cons_self))
  have hhead : c.rest = b :: (rest ++ tail) := by rw [hrest, hcons]; rfl
  refine ⟨c.advance text.length, ?_, ?_⟩
  · rw [Cursor.advance, hrest]
    exact List.drop_left
  · rw [value_of_head hhead hspace, if_neg hbrace, if_neg hbracket, if_neg hquote, if_neg htrue,
      if_neg hfalse, if_neg hnull, ByteTurn.number, htake, if_neg hne, hstod]

/-! ## arrays and objects -/

theorem joined_cons (text next : Bytes) (rest : List Bytes) :
    joined (text :: next :: rest) = text ++ comma :: joined (next :: rest) := rfl

/-- There are no more items than bytes in the text that joins them. -/
theorem length_le_joined (texts : List Bytes) : texts.length ≤ (joined texts).length + 1 := by
  induction texts with
  | nil => simp
  | cons text rest ih =>
      cases rest with
      | nil => simp
      | cons next rest =>
          rw [joined_cons, List.length_append, List.length_cons, List.length_cons]
          simp only [List.length_cons] at ih ⊢
          omega

/-- No item is longer than the text that joins them. -/
theorem length_le_joined_of_mem {text : Bytes} {texts : List Bytes} (h : text ∈ texts) :
    text.length ≤ (joined texts).length := by
  induction texts with
  | nil => contradiction
  | cons head rest ih =>
      cases rest with
      | nil => rw [List.mem_singleton.mp h, joined]
      | cons next rest =>
          rw [joined_cons, List.length_append, List.length_cons]
          cases List.mem_cons.mp h with
          | inl heq => rw [heq]; omega
          | inr hmem =>
              have hle := ih hmem
              omega

/-- The bytes that close or continue a list do not continue what is before them. -/
theorem delimited_of_punctuation {b : UInt8} {tail : Bytes}
    (h : b = comma ∨ b = closeBracket ∨ b = closeBrace) : Delimited (b :: tail) := by
  rcases h with rfl | rfl | rfl <;> exact Delimited.cons rfl rfl

/-- A value may stand behind blanks. -/
theorem value_space (n : Nat) (c : Cursor) : value (n + 1) c.space = value (n + 1) c := by
  rw [value, value, space_space]

/-- No value begins with a closing bracket. -/
theorem value_of_close {c : Cursor} {n : Nat} {r : Json × Cursor}
    (h : c.space.rest.head? = some closeBracket) : value n c ≠ .ok r := by
  cases n with
  | zero => exact fail_ne_ok
  | succ n =>
      obtain ⟨rest, hrest⟩ : ∃ rest, c.space.rest = closeBracket :: rest := by
        cases hc : c.space.rest with
        | nil => rw [hc] at h; contradiction
        | cons b rest =>
            rw [hc] at h
            exact ⟨rest, by rw [Option.some.inj h]⟩
      rw [← value_space, value_of_head hrest rfl, if_neg (by decide), if_neg (by decide),
        if_neg (by decide), if_neg (by decide), if_neg (by decide), if_neg (by decide), number,
        hrest, List.takeWhile_cons_of_neg (by decide)]
      exact fail_ne_ok

/-- The loop over an array reads one item in one round. -/
theorem arrayLoop_spelled {texts : List Bytes} {items : List Json}
    (h : List.Forall₂ Spells texts items) (hne : texts ≠ []) {k n : Nat}
    (hlength : ∀ text ∈ texts, text.length < k) (hn : texts.length ≤ n) (result : List Json)
    {c : Cursor} {tail : Bytes} (hrest : c.rest = joined texts ++ closeBracket :: tail) :
    ∃ d, d.rest = tail ∧
      arrayLoop (fun c => value k c) n result c = .ok (.array (result ++ items), d) := by
  induction h generalizing n result c with
  | nil => contradiction
  | @cons text item texts items hitem hitems ih =>
      obtain ⟨n, rfl⟩ : ∃ m, n = m + 1 := ⟨n - 1, by rw [List.length_cons] at hn; omega⟩
      obtain ⟨blanks, hblank, hread⟩ := hitem
      have hk := hlength text List.mem_cons_self
      cases hitems with
      | nil =>
          obtain ⟨e, he, hvalue⟩ := hread k c (closeBracket :: tail) hrest
            (delimited_of_punctuation (.inr (.inl rfl))) hk
          have hspace := space_of_blank he hblank fun b hb => by rw [← Option.some.inj hb]; rfl
          obtain ⟨d, hd, hclose⟩ := consume_of_head hspace
          refine ⟨d, hd, ?_⟩
          rw [arrayLoop, hvalue, ok_bind]
          dsimp only
          rw [hclose]
      | @cons next _ texts items hnext hitems =>
          rw [joined_cons, List.append_assoc, List.cons_append] at hrest
          obtain ⟨e, he, hvalue⟩ := hread k c _ hrest (delimited_of_punctuation (.inl rfl)) hk
          have hspace := space_of_blank he hblank fun b hb => by rw [← Option.some.inj hb]; rfl
          obtain ⟨e', he', hcomma⟩ := consume_of_head hspace
          have hcount : (next :: texts).length ≤ n := by
            simp only [List.length_cons] at hn ⊢
            omega
          obtain ⟨d, hd, hloop⟩ := ih (by simp) (fun t ht => hlength t (List.mem_cons_of_mem _ ht))
            hcount (result ++ [item]) he'
          refine ⟨d, hd, ?_⟩
          rw [arrayLoop, hvalue, ok_bind]
          dsimp only
          rw [consume_of_ne (b := comma) (by rw [hspace]; rfl) (by decide), hcomma]
          dsimp only
          rw [hloop, List.append_assoc]
          rfl

/-- An array is read up to its closing bracket. -/
theorem spellsExactly_array {texts : List Bytes} {items : List Json}
    (h : List.Forall₂ Spells texts items) :
    SpellsExactly (openBracket :: (joined texts ++ [closeBracket])) (.array items) := by
  intro n c tail hrest _ hn
  obtain ⟨n, rfl⟩ : ∃ m, n = m + 1 := ⟨n - 1, by omega⟩
  have hhead : c.rest = openBracket :: (joined texts ++ closeBracket :: tail) := by
    rw [hrest]
    simp
  have hadvance : (c.advance 1).rest = joined texts ++ closeBracket :: tail := by
    rw [Cursor.advance, hhead]
    rfl
  rw [value_of_head hhead rfl, if_neg (by decide), if_pos rfl, array]
  simp only [List.length_cons, List.length_append, List.length_nil] at hn
  cases h with
  | nil =>
      rw [space_of_head hadvance rfl]
      obtain ⟨d, hd, hclose⟩ := consume_of_head hadvance
      exact ⟨d, hd, by rw [hclose]⟩
  | @cons text item texts items hitem hitems =>
      have hcount := length_le_joined (text :: texts)
      obtain ⟨d, hd, hloop⟩ := arrayLoop_spelled (.cons hitem hitems) (by simp) (k := n) (n := n)
        (fun t ht => by have hle := length_le_joined_of_mem ht; omega) (by omega) [] hadvance
      obtain ⟨n, rfl⟩ : ∃ m, n = m + 1 := ⟨n - 1, by simp at hcount; omega⟩
      have hspaced : arrayLoop (fun c => value (n + 1) c) (n + 1) [] (c.advance 1).space =
          arrayLoop (fun c => value (n + 1) c) (n + 1) [] (c.advance 1) := by
        rw [arrayLoop, arrayLoop, value_space]
      have hnone : (c.advance 1).space.consume closeBracket = none := by
        rw [Cursor.consume]
        split
        · next hclose =>
            rw [arrayLoop] at hloop
            obtain ⟨r, hr, _⟩ := bind_ok hloop
            exact absurd hr (value_of_close hclose)
        · rfl
      rw [hnone]
      exact ⟨d, hd, by rw [hspaced]; exact hloop⟩

/-- The parser reads `text` as the field `item`, up to blanks at its end. -/
def ReadsField (text : Bytes) (item : Bytes × Json) : Prop :=
  ∀ (k : Nat) (c : Cursor) (tail : Bytes), text.length ≤ k → c.rest = text ++ tail →
    Delimited tail → ∃ d, d.space.rest = tail ∧ field (fun c => value k c) c = .ok (item, d)

/-- The loop over an object reads one field in one round. -/
theorem objectLoop_spelled {texts : List Bytes} {fields : List (Bytes × Json)}
    (h : List.Forall₂ ReadsField texts fields) (hne : texts ≠ []) {k n : Nat}
    (hlength : ∀ text ∈ texts, text.length ≤ k) (hn : texts.length ≤ n)
    (result : List (Bytes × Json)) {c : Cursor} {tail : Bytes}
    (hrest : c.rest = joined texts ++ closeBrace :: tail) :
    ∃ d, d.rest = tail ∧
      objectLoop (fun c => value k c) n result c = .ok (.object (result ++ fields), d) := by
  induction h generalizing n result c with
  | nil => contradiction
  | @cons text item texts fields hitem hitems ih =>
      obtain ⟨n, rfl⟩ : ∃ m, n = m + 1 := ⟨n - 1, by rw [List.length_cons] at hn; omega⟩
      have hk := hlength text List.mem_cons_self
      cases hitems with
      | nil =>
          obtain ⟨e, hspace, hfield⟩ :=
            hitem k c _ hk hrest (delimited_of_punctuation (.inr (.inr rfl)))
          obtain ⟨d, hd, hclose⟩ := consume_of_head hspace
          refine ⟨d, hd, ?_⟩
          rw [objectLoop, hfield, ok_bind]
          dsimp only
          rw [hclose]
      | @cons next _ texts fields hnext hitems =>
          rw [joined_cons, List.append_assoc, List.cons_append] at hrest
          obtain ⟨e, hspace, hfield⟩ :=
            hitem k c _ hk hrest (delimited_of_punctuation (.inl rfl))
          obtain ⟨e', he', hcomma⟩ := consume_of_head hspace
          have hcount : (next :: texts).length ≤ n := by
            simp only [List.length_cons] at hn ⊢
            omega
          obtain ⟨d, hd, hloop⟩ := ih (by simp) (fun t ht => hlength t (List.mem_cons_of_mem _ ht))
            hcount (result ++ [item]) he'
          refine ⟨d, hd, ?_⟩
          rw [objectLoop, hfield, ok_bind]
          dsimp only
          rw [consume_of_ne (b := comma) (by rw [hspace]; rfl) (by decide), hcomma]
          dsimp only
          rw [hloop, List.append_assoc]
          rfl

/-- A field may stand behind blanks. -/
theorem field_space (value : Cursor → Except Exception (Json × Cursor)) (c : Cursor) :
    field value c.space = field value c := by
  rw [field, field, space_space]

/-- The loop over the fields may begin behind blanks too. -/
theorem objectLoop_space (value : Cursor → Except Exception (Json × Cursor)) (n : Nat)
    (result : List (Bytes × Json)) (c : Cursor) :
    objectLoop value (n + 1) result c.space = objectLoop value (n + 1) result c := by
  rw [objectLoop, objectLoop, field_space]

/-- A field begins with a quote. -/
theorem field_head {value : Cursor → Except Exception (Json × Cursor)} {c d : Cursor}
    {item : Bytes × Json} (h : field value c = .ok (item, d)) :
    c.space.rest.head? = some quote := by
  rw [field] at h
  split at h
  · exact absurd h fail_ne_ok
  · next hhead => exact not_not.mp hhead

/-- An object is read up to its closing brace. -/
theorem spellsExactly_object {texts : List Bytes} {fields : List (Bytes × Json)}
    (h : List.Forall₂ ReadsField texts fields) :
    SpellsExactly (openBrace :: (joined texts ++ [closeBrace])) (.object fields) := by
  intro n c tail hrest _ hn
  obtain ⟨n, rfl⟩ : ∃ m, n = m + 1 := ⟨n - 1, by omega⟩
  have hhead : c.rest = openBrace :: (joined texts ++ closeBrace :: tail) := by
    rw [hrest]
    simp
  have hadvance : (c.advance 1).rest = joined texts ++ closeBrace :: tail := by
    rw [Cursor.advance, hhead]
    rfl
  rw [value_of_head hhead rfl, if_pos rfl, object]
  simp only [List.length_cons, List.length_append, List.length_nil] at hn
  by_cases hempty : texts = []
  · subst hempty
    obtain rfl := List.forall₂_nil_left_iff.mp h
    rw [space_of_head hadvance rfl]
    obtain ⟨d, hd, hclose⟩ := consume_of_head hadvance
    exact ⟨d, hd, by rw [hclose]⟩
  · have hcount := length_le_joined texts
    obtain ⟨d, hd, hloop⟩ := objectLoop_spelled h hempty (k := n) (n := n)
      (fun t ht => by have hle := length_le_joined_of_mem ht; omega) (by omega) [] hadvance
    obtain ⟨n, rfl⟩ : ∃ m, n = m + 1 :=
      ⟨n - 1, by have hpos := List.length_pos_iff.mpr hempty; omega⟩
    have hquote : (c.advance 1).space.rest.head? = some quote := by
      rw [objectLoop] at hloop
      obtain ⟨r, hr, _⟩ := bind_ok hloop
      exact field_head hr
    rw [consume_of_ne hquote (by decide)]
    exact ⟨d, hd, by rw [objectLoop_space]; exact hloop⟩

end ByteTurn

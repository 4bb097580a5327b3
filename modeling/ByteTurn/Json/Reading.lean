import ByteTurn.Json.Grammar

/-!
# ByteTurn.Json.Reading

The language of the parser, as a grammar.

With the parser's own choice of tokens (`parserLexis`) the grammar derives what
`parseJson` accepts and what it returns (`parseJson_iff_reads`).
-/

namespace ByteTurn

/-! ## the parser's tokens -/

/-- Four hexadecimal digits and their value. -/
def HexQuad (text : Bytes) (value : Nat) : Prop :=
  text.length = 4 ∧ ∃ digits, List.Forall₂ (fun b d => hexDigit b = some d) text digits ∧
    value = hexValue 0 digits

/-- The code point of a surrogate pair. -/
def pairPoint (high low : Nat) : Nat := 0x10000 + (high - 0xd800) * 0x400 + (low - 0xdc00)

/-- What one round of `string` reads: any byte but a quote or a backslash, or an
escape. -/
inductive StringUnit : Bytes → Bytes → Prop where
  | byte {b : UInt8} (hquote : b ≠ quote) (hbackslash : b ≠ backslash) : StringUnit [b] [b]
  | letter {letter b : UInt8} (h : letterEscape letter = some b) :
      StringUnit [backslash, letter] [b]
  | unicode {text : Bytes} {value : Nat} (h : HexQuad text value)
      (hunit : value < 0xd800 ∨ 0xdfff < value) :
      StringUnit (backslash :: 0x75 :: text) (utf8 value)
  | pair {text text' : Bytes} {high low : Nat} (hhigh : HexQuad text high)
      (hlow : HexQuad text' low) (hhighRange : 0xd800 ≤ high ∧ high ≤ 0xdbff)
      (hlowRange : 0xdc00 ≤ low ∧ low ≤ 0xdfff) :
      StringUnit (backslash :: 0x75 :: (text ++ backslash :: 0x75 :: text'))
        (utf8 (pairPoint high low))

/-- The tokens of `JsonParser`. -/
def parserLexis : JsonLexis where
  blank b := isSpace b = true
  number text := text ≠ [] ∧ ∀ b ∈ text, Double.isNumberByte b = true
  characters text s :=
    ∃ texts ss, List.Forall₂ StringUnit texts ss ∧ text = texts.flatten ∧ s = ss.flatten

/-! ## what the grammar derives is parsed -/

/-- Four hexadecimal digits are read as their value. -/
theorem hex4_of_quad {text : Bytes} {value : Nat} (h : HexQuad text value) {c : Cursor}
    {rest : Bytes} (hrest : c.rest = text ++ rest) :
    ∃ d : Cursor, d.rest = rest ∧ hex4 c = .ok (value, d) := by
  obtain ⟨hfour, digits, hdigits, rfl⟩ := h
  exact hex4_spelled hdigits hfour hrest

/-- A round of `string` at a unicode escape. -/
theorem stringLoop_unicode {c d : Cursor} {rest : Bytes} {point : Nat} {n : Nat} {result : Bytes}
    (hrest : c.rest = backslash :: 0x75 :: rest) (hpoint : codepoint (c.advance 2) = .ok (point, d)) :
    stringLoop (n + 1) result c = stringLoop n (result ++ utf8 point) d := by
  rw [stringLoop, hrest]
  dsimp only
  rw [if_neg (by decide), if_neg (by decide), List.drop_succ_cons, List.drop_zero]
  dsimp only
  rw [show letterEscape 0x75 = none by decide]
  dsimp only
  rw [if_pos rfl, hpoint, ok_bind]

/-- A surrogate pair is read as its code point. -/
theorem codepoint_pair {text text' : Bytes} {high low : Nat} (hhigh : HexQuad text high)
    (hlow : HexQuad text' low) (hhighRange : 0xd800 ≤ high ∧ high ≤ 0xdbff)
    (hlowRange : 0xdc00 ≤ low ∧ low ≤ 0xdfff) {c : Cursor} {rest : Bytes}
    (hrest : c.rest = text ++ (backslash :: 0x75 :: (text' ++ rest))) :
    ∃ d : Cursor, d.rest = rest ∧ codepoint c = .ok (pairPoint high low, d) := by
  obtain ⟨e, he, hread⟩ := hex4_of_quad hhigh hrest
  have hadvance : (e.advance 2).rest = text' ++ rest := by
    rw [Cursor.advance, he]
    rfl
  obtain ⟨d, hd, hread'⟩ := hex4_of_quad hlow hadvance
  refine ⟨d, hd, ?_⟩
  rw [codepoint, hread, ok_bind]
  dsimp only
  rw [if_pos hhighRange, if_neg (by rw [he]; simp), hread', ok_bind]
  dsimp only
  rw [if_neg (by omega)]
  rfl

/-- A unit of a string is read in one round. -/
theorem StringUnit.spells {text s : Bytes} (h : StringUnit text s) : SpellsUnit text s := by
  cases h with
  | byte hquote hbackslash => exact spellsUnit_byte hquote hbackslash
  | letter h => exact spellsUnit_letter h
  | unicode h hunit =>
      obtain ⟨hfour, digits, hdigits, rfl⟩ := h
      exact spellsUnit_unicode hdigits hfour hunit
  | @pair text text' high low hhigh hlow hhighRange hlowRange =>
      refine ⟨List.cons_ne_nil _ _, ?_⟩
      intro n result c rest hrest
      have hadvance : (c.advance 2).rest = text ++ (backslash :: 0x75 :: (text' ++ rest)) := by
        rw [Cursor.advance, hrest]
        simp
      obtain ⟨d, hd, hpoint⟩ := codepoint_pair hhigh hlow hhighRange hlowRange hadvance
      exact ⟨d, hd, stringLoop_unicode (by rw [hrest]; rfl) hpoint⟩

/-- What stands between quotes is read as what it stands for. -/
theorem spellsString_of_characters {text s : Bytes} (h : parserLexis.characters text s) :
    SpellsString text s := by
  obtain ⟨texts, ss, hunits, rfl, rfl⟩ := h
  exact spellsString_of_units (hunits.imp fun _ _ => StringUnit.spells)

/-- A literal is read where its text stands. -/
theorem literal_read {c : Cursor} {text tail : Bytes} (hrest : c.rest = text ++ tail) (j : Json) :
    ∃ d, d.rest = tail ∧ literal c text j = .ok (j, d) := by
  refine ⟨c.advance text.length, ?_, ?_⟩
  · rw [Cursor.advance, hrest]
    exact List.drop_left
  · rw [literal, if_pos (List.isPrefixOf_iff_prefix.mpr ⟨tail, hrest.symm⟩)]

/-- The three literals are read without looking further. -/
theorem spellsExactly_literal {text : Bytes} {j : Json}
    (h : (text, j) ∈ [(lit "true", Json.bool true), (lit "false", .bool false), (lit "null", .null)]) :
    SpellsExactly text j := by
  intro n c tail hrest _ hn
  obtain ⟨n, rfl⟩ : ∃ k, n = k + 1 := ⟨n - 1, by omega⟩
  obtain ⟨d, hd, hread⟩ := literal_read hrest j
  refine ⟨d, hd, ?_⟩
  simp only [List.mem_cons, Prod.mk.injEq, List.not_mem_nil, or_false] at h
  rcases h with ⟨rfl, rfl⟩ | ⟨rfl, rfl⟩ | ⟨rfl, rfl⟩
  · rw [value_of_head hrest rfl]
    exact hread
  · rw [value_of_head hrest rfl]
    exact hread
  · rw [value_of_head hrest rfl]
    exact hread

/-- Blanks that are skipped one by one are skipped all the same. -/
theorem space_advance {c : Cursor} {before rest : Bytes} (hrest : c.rest = before ++ rest)
    (hbefore : Blank before) : (c.advance before.length).space = c.space := by
  have hdrop : (c.advance before.length).rest = rest := by
    rw [Cursor.advance, hrest]
    exact List.drop_left
  rw [Cursor.space, hdrop, Cursor.space, hrest, List.takeWhile_append_of_pos hbefore,
    List.length_append]
  simp only [Cursor.advance, List.drop_drop, Nat.add_assoc]

/-- The blanks before are skipped. -/
theorem SpellsExactly.before {before text : Bytes} {j : Json} (hbefore : Blank before)
    (h : SpellsExactly text j) : SpellsExactly (before ++ text) j := by
  intro n c tail hrest htail hn
  obtain ⟨n, rfl⟩ : ∃ k, n = k + 1 := ⟨n - 1, by omega⟩
  rw [List.length_append] at hn
  rw [List.append_assoc] at hrest
  have hdrop : (c.advance before.length).rest = text ++ tail := by
    rw [Cursor.advance, hrest]
    exact List.drop_left
  obtain ⟨d, hd, hvalue⟩ := h (n + 1) _ tail hdrop htail (by omega)
  exact ⟨d, hd, by rw [← value_space, ← space_advance hrest hbefore, value_space, hvalue]⟩

/-- An array without items may hold blanks. -/
theorem spellsExactly_emptyArray {blanks : Bytes} (h : Blank blanks) :
    SpellsExactly (openBracket :: (blanks ++ [closeBracket])) (.array []) := by
  intro n c tail hrest _ hn
  obtain ⟨n, rfl⟩ : ∃ k, n = k + 1 := ⟨n - 1, by omega⟩
  have hadvance : (c.advance 1).rest = blanks ++ closeBracket :: tail := by
    rw [Cursor.advance, hrest]
    simp
  have hspace := space_of_blank hadvance h fun b hb => by rw [← Option.some.inj hb]; rfl
  obtain ⟨d, hd, hclose⟩ := consume_of_head hspace
  refine ⟨d, hd, ?_⟩
  rw [value_of_head hrest rfl, if_neg (by decide), if_pos rfl, array, hclose]

/-- So may an object without fields. -/
theorem spellsExactly_emptyObject {blanks : Bytes} (h : Blank blanks) :
    SpellsExactly (openBrace :: (blanks ++ [closeBrace])) (.object []) := by
  intro n c tail hrest _ hn
  obtain ⟨n, rfl⟩ : ∃ k, n = k + 1 := ⟨n - 1, by omega⟩
  have hadvance : (c.advance 1).rest = blanks ++ closeBrace :: tail := by
    rw [Cursor.advance, hrest]
    simp
  have hspace := space_of_blank hadvance h fun b hb => by rw [← Option.some.inj hb]; rfl
  obtain ⟨d, hd, hclose⟩ := consume_of_head hspace
  refine ⟨d, hd, ?_⟩
  rw [value_of_head hrest rfl, if_pos rfl, object, hclose]

/-- A field with blanks around its key. -/
theorem JsonField.reads {f : JsonField} {item : Bytes × Json} (hbefore : Blank f.before)
    (hafter : Blank f.after) (hkey : SpellsString f.key item.1) (hvalue : Spells f.value item.2) :
    ReadsField f.text item := by
  intro k c tail hk hrest htail
  obtain ⟨blanks, hblank, hread⟩ := hvalue
  have hspaced : c.rest = f.before ++ (quoted f.key ++ (f.after ++ colon :: (f.value ++ tail))) := by
    rw [hrest, JsonField.text]
    simp
  have hspace := space_of_blank hspaced hbefore fun b hb => by
    rw [quoted_append] at hb
    rw [← Option.some.inj hb]
    rfl
  obtain ⟨e, he, hstring⟩ := hkey c.space _ hspace
  have hcolon := space_of_blank he hafter fun b hb => by rw [← Option.some.inj hb]; rfl
  obtain ⟨e', he', hconsume⟩ := consume_of_head hcolon
  have hlength : f.value.length < k := by
    rw [JsonField.text] at hk
    simp only [List.length_append, List.length_cons] at hk
    omega
  obtain ⟨d, hd, hvalue⟩ := hread k e' tail he' htail hlength
  refine ⟨d, space_of_blank hd hblank fun b hb => (htail b hb).1, ?_⟩
  rw [field]
  dsimp only
  rw [if_neg (by rw [hspace, quoted_append]; simp), hstring, ok_bind]
  dsimp only
  rw [hconsume]
  dsimp only
  rw [hvalue, ok_bind]

/-- A text the grammar derives is read exactly, up to blanks at its end. -/
theorem reads_exactly {text : Bytes} {j : Json} (h : parserLexis.Reads text j) :
    ∃ core blanks, text = core ++ blanks ∧ Blank blanks ∧ SpellsExactly core j := by
  have hexact {text : Bytes} {j : Json} (h : SpellsExactly text j) :
      ∃ core blanks, text = core ++ blanks ∧ Blank blanks ∧ SpellsExactly core j :=
    ⟨text, [], (List.append_nil _).symm, nofun, h⟩
  induction h with
  | null => exact hexact (spellsExactly_literal (by simp))
  | true => exact hexact (spellsExactly_literal (by simp))
  | false => exact hexact (spellsExactly_literal (by simp))
  | number h hd => exact hexact (spellsExactly_numeral h.2 h.1 hd)
  | string h => exact hexact (spellsExactly_string (spellsString_of_characters h))
  | emptyArray h => exact hexact (spellsExactly_emptyArray h)
  | @array items _ _ ih =>
      refine hexact (spellsExactly_array ?_)
      rw [List.forall₂_map_left_iff, List.forall₂_map_right_iff, List.forall₂_same]
      intro item hitem
      obtain ⟨core, blanks, heq, hblank, hcore⟩ := ih item hitem
      rw [heq]
      exact hcore.spaced hblank
  | emptyObject h => exact hexact (spellsExactly_emptyObject h)
  | @object fields _ hblanks hkeys _ ih =>
      refine hexact (spellsExactly_object ?_)
      rw [List.forall₂_map_left_iff, List.forall₂_map_right_iff, List.forall₂_same]
      intro f hf
      obtain ⟨core, blanks, heq, hblank, hcore⟩ := ih f hf
      exact JsonField.reads (hblanks f hf).1 (hblanks f hf).2
        (spellsString_of_characters (hkeys f hf)) (heq ▸ hcore.spaced hblank)
  | @spaced before text after j hbefore hafter _ ih =>
      obtain ⟨core, blanks, rfl, hblank, hcore⟩ := ih
      refine ⟨before ++ core, blanks ++ after, by simp, ?_, hcore.before hbefore⟩
      intro b hb
      exact (List.mem_append.mp hb).elim (hblank b) (hafter b)

/-- What the parser's own grammar derives is read. -/
theorem parse_of_reads {text : Bytes} {j : Json} (h : parserLexis.Reads text j) :
    parseJson text = .ok j := by
  obtain ⟨core, blanks, rfl, hblank, hcore⟩ := reads_exactly h
  exact parse_of_spells (hcore.spaced hblank)

/-! ## what is parsed the grammar derives -/

/-- A parser that takes a text of the grammar off the front. -/
def ReadsFrom (f : Cursor → Except Exception (Json × Cursor)) : Prop :=
  ∀ c j d, f c = .ok (j, d) → ∃ text, c.rest = text ++ d.rest ∧ parserLexis.Reads text j

/-- `space` skips blanks. -/
theorem rest_of_space (c : Cursor) : ∃ blanks, Blank blanks ∧ c.rest = blanks ++ c.space.rest := by
  refine ⟨c.rest.takeWhile isSpace, fun b hb => List.mem_takeWhile_imp hb, ?_⟩
  rw [space_rest]
  exact (List.takeWhile_append_dropWhile).symm

/-- The first byte, and what follows it. -/
theorem rest_of_head {c : Cursor} {b : UInt8} (h : c.rest.head? = some b) :
    c.rest = b :: (c.advance 1).rest := by
  rw [Cursor.advance, List.drop_one]
  exact (List.cons_head?_tail h).symm

/-- `consume` takes the byte it names. -/
theorem rest_of_consume {c d : Cursor} {b : UInt8} (h : c.consume b = some d) :
    c.rest = b :: d.rest := by
  obtain ⟨hhead, rfl⟩ := consume_some h
  exact rest_of_head hhead

/-- What is read as digits are digits. -/
theorem hexDigits_reads {n value v : Nat} {c d : Cursor} (h : hexDigits n value c = .ok (v, d)) :
    ∃ text digits, c.rest = text ++ d.rest ∧ text.length = n ∧
      List.Forall₂ (fun b d => hexDigit b = some d) text digits ∧ v = hexValue value digits := by
  induction n generalizing value c with
  | zero =>
      obtain ⟨rfl, rfl⟩ := Prod.mk.inj (Except.ok.inj h)
      exact ⟨[], [], rfl, rfl, .nil, rfl⟩
  | succ n ih =>
      rw [hexDigits] at h
      split at h
      · exact absurd h fail_ne_ok
      · next b rest hrest =>
          split at h
          · next digit hdigit =>
              obtain ⟨text, digits, hsplit, rfl, hdigits, rfl⟩ := ih h
              refine ⟨b :: text, digit :: digits, ?_, rfl, .cons hdigit hdigits, rfl⟩
              rw [rest_of_head (by rw [hrest]; rfl), hsplit]
              rfl
          · exact absurd h fail_ne_ok

/-- What is read as an escape is four of them. -/
theorem hex4_reads {c d : Cursor} {v : Nat} (h : hex4 c = .ok (v, d)) :
    ∃ text, c.rest = text ++ d.rest ∧ HexQuad text v := by
  unfold hex4 at h
  split at h
  · exact absurd h fail_ne_ok
  · obtain ⟨text, digits, hsplit, hlength, hdigits, hvalue⟩ := hexDigits_reads h
    exact ⟨text, hsplit, hlength, digits, hdigits, hvalue⟩

/-- A unicode escape, from after the `u`. -/
theorem codepoint_reads {c d : Cursor} {point : Nat} (h : codepoint c = .ok (point, d)) :
    ∃ text, c.rest = text ++ d.rest ∧ StringUnit (backslash :: 0x75 :: text) (utf8 point) := by
  unfold codepoint at h
  obtain ⟨⟨high, e⟩, hhigh, h⟩ := bind_ok h
  obtain ⟨text, hsplit, hquad⟩ := hex4_reads hhigh
  dsimp only at h
  split at h
  · next hrange =>
      split at h
      · exact absurd h fail_ne_ok
      · next htake =>
          obtain ⟨⟨low, g⟩, hlow, h⟩ := bind_ok h
          obtain ⟨text', hsplit', hquad'⟩ := hex4_reads hlow
          dsimp only at h
          split at h
          · exact absurd h fail_ne_ok
          · next hlowRange =>
              obtain ⟨rfl, rfl⟩ := Prod.mk.inj (Except.ok.inj h)
              refine ⟨text ++ backslash :: 0x75 :: text', ?_,
                .pair hquad hquad' hrange (by omega)⟩
              have hrest := List.take_append_drop 2 e.rest
              rw [not_not.mp htake] at hrest
              rw [hsplit, ← hrest]
              simp only [Cursor.advance] at hsplit'
              rw [hsplit']
              simp
  · next hrange =>
      split at h
      · exact absurd h fail_ne_ok
      · obtain ⟨rfl, rfl⟩ := Prod.mk.inj (Except.ok.inj h)
        exact ⟨text, hsplit, .unicode hquad (by omega)⟩

/-- The loop over a string has read units up to the closing quote. -/
theorem stringLoop_reads {n : Nat} {result s : Bytes} {c d : Cursor}
    (h : stringLoop n result c = .ok (s, d)) :
    ∃ texts ss, c.rest = texts.flatten ++ quote :: d.rest ∧ s = result ++ ss.flatten ∧
      List.Forall₂ StringUnit texts ss := by
  induction n generalizing result c with
  | zero => exact absurd h fail_ne_ok
  | succ n ih =>
      -- what a round has read stands before what the next rounds read
      have hround {text s' : Bytes} {e : Cursor} (hunit : StringUnit text s')
          (hrest : c.rest = text ++ e.rest) (h : stringLoop n (result ++ s') e = .ok (s, d)) :
          ∃ texts ss, c.rest = texts.flatten ++ quote :: d.rest ∧ s = result ++ ss.flatten ∧
            List.Forall₂ StringUnit texts ss := by
        obtain ⟨texts, ss, hsplit, hs, hunits⟩ := ih h
        exact ⟨text :: texts, s' :: ss, by rw [hrest, hsplit]; simp, by rw [hs]; simp,
          .cons hunit hunits⟩
      rw [stringLoop] at h
      split at h
      · exact absurd h fail_ne_ok
      · next b rest hrest =>
          have hone : c.rest = b :: (c.advance 1).rest := rest_of_head (by rw [hrest]; rfl)
          by_cases hquote : b = quote
          · rw [if_pos hquote] at h
            obtain ⟨rfl, rfl⟩ := Prod.mk.inj (Except.ok.inj h)
            exact ⟨[], [], by rw [hone, hquote]; rfl, (List.append_nil _).symm, .nil⟩
          · rw [if_neg hquote] at h
            by_cases hbackslash : b = backslash
            · rw [if_neg (not_not.mpr hbackslash)] at h
              split at h
              · exact absurd h fail_ne_ok
              · next escaped rest' hdrop =>
                  have htwo : c.rest = backslash :: escaped :: (c.advance 2).rest := by
                    rw [hrest, hbackslash, Cursor.advance, hrest]
                    rw [hrest, List.drop_succ_cons, List.drop_zero] at hdrop
                    rw [hdrop]
                    rfl
                  split at h
                  · next b' hletter => exact hround (.letter hletter) htwo h
                  · split at h
                    · next hu =>
                        obtain ⟨⟨point, e⟩, hpoint, h⟩ := bind_ok h
                        obtain ⟨text, hsplit, hunit⟩ := codepoint_reads hpoint
                        refine hround hunit ?_ h
                        rw [htwo, hu, hsplit]
                        rfl
                    · exact absurd h fail_ne_ok
            · rw [if_pos hbackslash] at h
              exact hround (.byte hquote hbackslash) hone h

/-- What is read as a string stands between quotes. -/
theorem string_reads {c d : Cursor} {s : Bytes} (hhead : c.rest.head? = some quote)
    (h : string c = .ok (s, d)) :
    ∃ text, c.rest = quoted text ++ d.rest ∧ parserLexis.characters text s := by
  obtain ⟨texts, ss, hsplit, hs, hunits⟩ := stringLoop_reads h
  refine ⟨texts.flatten, ?_, texts, ss, hunits, rfl, hs⟩
  rw [rest_of_head hhead, hsplit, quoted_append]

/-- What is read as a literal is its text. -/
theorem literal_reads {c d : Cursor} {text : Bytes} {j result : Json}
    (h : literal c text result = .ok (j, d)) : c.rest = text ++ d.rest ∧ j = result := by
  unfold literal at h
  split at h
  · next hprefix =>
      obtain ⟨rfl, rfl⟩ := Prod.mk.inj (Except.ok.inj h)
      refine ⟨?_, rfl⟩
      obtain ⟨tail, htail⟩ := List.isPrefixOf_iff_prefix.mp hprefix
      rw [Cursor.advance, ← htail, List.drop_left]
  · exact absurd h fail_ne_ok

/-- What is read as a number is the longest run of number bytes, and `stod` takes it. -/
theorem number_reads : ReadsFrom number := by
  intro c j d h
  unfold number at h
  dsimp only at h
  split at h
  · exact absurd h fail_ne_ok
  · next hne =>
      split at h
      · next number hstod =>
          obtain ⟨rfl, rfl⟩ := Prod.mk.inj (Except.ok.inj h)
          refine ⟨_, ?_, .number ⟨hne, fun b hb => List.mem_takeWhile_imp hb⟩ hstod⟩
          rw [Cursor.advance, List.drop_takeWhile_length]
          exact (List.takeWhile_append_dropWhile).symm
      · contradiction

/-- A text and the blanks after it. -/
theorem JsonLexis.Reads.before_blanks {text blanks : Bytes} {j : Json}
    (h : parserLexis.Reads text j) (hblank : Blank blanks) :
    parserLexis.Reads (text ++ blanks) j :=
  have hnone : ∀ b ∈ ([] : Bytes), parserLexis.blank b := nofun
  .spaced hnone hblank h

/-- The loop over an array has read items with commas between them. -/
theorem arrayLoop_reads {value : Cursor → Except Exception (Json × Cursor)}
    (hvalue : ReadsFrom value) {n : Nat} {result : List Json} {c d : Cursor} {j : Json}
    (h : arrayLoop value n result c = .ok (j, d)) :
    ∃ items : List (Bytes × Json), items ≠ [] ∧
      (∀ item ∈ items, parserLexis.Reads item.1 item.2) ∧
      c.rest = joined (items.map (·.1)) ++ closeBracket :: d.rest ∧
      j = .array (result ++ items.map (·.2)) := by
  induction n generalizing result c with
  | zero => exact absurd h fail_ne_ok
  | succ n ih =>
      rw [arrayLoop] at h
      obtain ⟨⟨item, e⟩, hitem, h⟩ := bind_ok h
      obtain ⟨text, hsplit, hread⟩ := hvalue c item e hitem
      obtain ⟨blanks, hblank, hspace⟩ := rest_of_space e
      have hread := hread.before_blanks hblank
      dsimp only at h
      split at h
      · next e' hclose =>
          obtain ⟨rfl, rfl⟩ := Prod.mk.inj (Except.ok.inj h)
          refine ⟨[(text ++ blanks, item)], by simp, List.forall_mem_singleton.mpr hread, ?_, rfl⟩
          rw [hsplit, hspace, rest_of_consume hclose, ← List.append_assoc]
          rfl
      · split at h
        · next e' hcomma =>
            obtain ⟨items, hne, hreads, hrest, rfl⟩ := ih h
            refine ⟨(text ++ blanks, item) :: items, by simp,
              List.forall_mem_cons.mpr ⟨hread, hreads⟩, ?_, by simp⟩
            obtain ⟨next, items, rfl⟩ := List.exists_cons_of_ne_nil hne
            rw [hsplit, hspace, rest_of_consume hcomma, hrest]
            simp only [List.map_cons, joined_cons, List.append_assoc, List.cons_append]
        · exact absurd h fail_ne_ok

/-- What is read as an array is one. -/
theorem array_reads {value : Cursor → Except Exception (Json × Cursor)}
    (hvalue : ReadsFrom value) {n : Nat} {c d : Cursor} {j : Json}
    (hhead : c.rest.head? = some openBracket) (h : array value n c = .ok (j, d)) :
    ∃ text, c.rest = text ++ d.rest ∧ parserLexis.Reads text j := by
  unfold array at h
  obtain ⟨blanks, hblank, hspace⟩ := rest_of_space (c.advance 1)
  dsimp only at h
  rw [rest_of_head hhead, hspace]
  split at h
  · next e hclose =>
      obtain ⟨rfl, rfl⟩ := Prod.mk.inj (Except.ok.inj h)
      refine ⟨_, ?_, .emptyArray hblank⟩
      rw [rest_of_consume hclose]
      simp
  · obtain ⟨items, hne, hreads, hrest, rfl⟩ := arrayLoop_reads hvalue h
    obtain ⟨first, items, rfl⟩ := List.exists_cons_of_ne_nil hne
    have hfirst : parserLexis.Reads (blanks ++ first.1 ++ []) first.2 :=
      .spaced hblank nofun (hreads first List.mem_cons_self)
    have hall : ∀ item ∈ (blanks ++ first.1 ++ [], first.2) :: items,
        parserLexis.Reads item.1 item.2 :=
      List.forall_mem_cons.mpr ⟨hfirst, fun item hitem => hreads item (List.mem_cons_of_mem _ hitem)⟩
    have harray := JsonLexis.Reads.array (List.cons_ne_nil _ _) hall
    refine ⟨_, ?_, harray⟩
    rw [hrest, arrayJson]
    cases items with
    | nil => simp [joined]
    | cons next items => simp [joined_cons]

/-- What is read as a field has blanks around its key, and a colon. -/
theorem field_reads {value : Cursor → Except Exception (Json × Cursor)}
    (hvalue : ReadsFrom value) {c d : Cursor} {item : Bytes × Json}
    (h : field value c = .ok (item, d)) :
    ∃ f : JsonField, c.rest = f.text ++ d.rest ∧ Blank f.before ∧ Blank f.after ∧
      parserLexis.characters f.key item.1 ∧ parserLexis.Reads f.value item.2 := by
  have hhead := field_head h
  unfold field at h
  dsimp only at h
  rw [if_neg (not_not.mpr hhead)] at h
  obtain ⟨before, hbefore, hspace⟩ := rest_of_space c
  obtain ⟨⟨key, e⟩, hkey, h⟩ := bind_ok h
  obtain ⟨text, hsplit, hcharacters⟩ := string_reads hhead hkey
  obtain ⟨after, hafter, hspace'⟩ := rest_of_space e
  dsimp only at h
  split at h
  · exact absurd h fail_ne_ok
  · next e' hcolon =>
      obtain ⟨⟨j, g⟩, hitem, h⟩ := bind_ok h
      obtain ⟨text', hsplit', hread⟩ := hvalue e' j g hitem
      obtain ⟨rfl, rfl⟩ := Prod.mk.inj (Except.ok.inj h)
      refine ⟨⟨before, text, after, text'⟩, ?_, hbefore, hafter, hcharacters, hread⟩
      rw [hspace, hsplit, hspace', rest_of_consume hcolon, hsplit', JsonField.text]
      simp

/-- A field and the blanks after it. -/
theorem JsonField.text_append (f : JsonField) (blanks : Bytes) :
    f.text ++ blanks = { f with value := f.value ++ blanks }.text := by
  simp [JsonField.text]

/-- What an object reads: its fields, with the blanks around their keys. -/
def ReadsFields (fields : List (JsonField × Bytes × Json)) : Prop :=
  ∀ f ∈ fields, (Blank f.1.before ∧ Blank f.1.after) ∧ parserLexis.characters f.1.key f.2.1 ∧
    parserLexis.Reads f.1.value f.2.2

/-- The fields that were read make an object. -/
theorem ReadsFields.object {fields : List (JsonField × Bytes × Json)} (hne : fields ≠ [])
    (h : ReadsFields fields) :
    parserLexis.Reads (objectJson (fields.map (·.1.text))) (.object (fields.map (·.2))) :=
  .object hne (fun f hf => (h f hf).1) (fun f hf => (h f hf).2.1) (fun f hf => (h f hf).2.2)

/-- The loop over an object has read fields with commas between them. -/
theorem objectLoop_reads {value : Cursor → Except Exception (Json × Cursor)}
    (hvalue : ReadsFrom value) {n : Nat} {result : List (Bytes × Json)} {c d : Cursor} {j : Json}
    (h : objectLoop value n result c = .ok (j, d)) :
    ∃ fields, fields ≠ [] ∧ ReadsFields fields ∧
      c.rest = joined (fields.map (·.1.text)) ++ closeBrace :: d.rest ∧
      j = .object (result ++ fields.map (·.2)) := by
  induction n generalizing result c with
  | zero => exact absurd h fail_ne_ok
  | succ n ih =>
      rw [objectLoop] at h
      obtain ⟨⟨item, e⟩, hitem, h⟩ := bind_ok h
      obtain ⟨f, hsplit, hbefore, hafter, hcharacters, hread⟩ := field_reads hvalue hitem
      obtain ⟨blanks, hblank, hspace⟩ := rest_of_space e
      have hfield : (Blank f.before ∧ Blank f.after) ∧ parserLexis.characters f.key item.1 ∧
          parserLexis.Reads (f.value ++ blanks) item.2 :=
        ⟨⟨hbefore, hafter⟩, hcharacters, hread.before_blanks hblank⟩
      rw [hspace, ← List.append_assoc, f.text_append] at hsplit
      dsimp only at h
      split at h
      · next e' hclose =>
          obtain ⟨rfl, rfl⟩ := Prod.mk.inj (Except.ok.inj h)
          refine ⟨[({ f with value := f.value ++ blanks }, item)], by simp,
            List.forall_mem_singleton.mpr hfield, ?_, rfl⟩
          rw [hsplit, rest_of_consume hclose]
          rfl
      · split at h
        · next e' hcomma =>
            obtain ⟨fields, hne, hreads, hrest, rfl⟩ := ih h
            refine ⟨({ f with value := f.value ++ blanks }, item) :: fields, by simp,
              List.forall_mem_cons.mpr ⟨hfield, hreads⟩, ?_, by simp⟩
            obtain ⟨next, fields, rfl⟩ := List.exists_cons_of_ne_nil hne
            rw [hsplit, rest_of_consume hcomma, hrest]
            simp only [List.map_cons, joined_cons, List.append_assoc, List.cons_append]
        · exact absurd h fail_ne_ok

/-- What is read as an object is one. -/
theorem object_reads {value : Cursor → Except Exception (Json × Cursor)}
    (hvalue : ReadsFrom value) {n : Nat} {c d : Cursor} {j : Json}
    (hhead : c.rest.head? = some openBrace) (h : object value n c = .ok (j, d)) :
    ∃ text, c.rest = text ++ d.rest ∧ parserLexis.Reads text j := by
  unfold object at h
  obtain ⟨blanks, hblank, hspace⟩ := rest_of_space (c.advance 1)
  dsimp only at h
  rw [rest_of_head hhead, hspace]
  split at h
  · next e hclose =>
      obtain ⟨rfl, rfl⟩ := Prod.mk.inj (Except.ok.inj h)
      refine ⟨_, ?_, .emptyObject hblank⟩
      rw [rest_of_consume hclose]
      simp
  · obtain ⟨fields, hne, hreads, hrest, rfl⟩ := objectLoop_reads hvalue h
    obtain ⟨⟨f, item⟩, fields, rfl⟩ := List.exists_cons_of_ne_nil hne
    obtain ⟨⟨hbefore, hafter⟩, hcharacters, hread⟩ := hreads _ List.mem_cons_self
    have hbefore : Blank (blanks ++ f.before) := fun b hb =>
      (List.mem_append.mp hb).elim (hblank b) (hbefore b)
    have hall : ReadsFields (({ f with before := blanks ++ f.before }, item) :: fields) :=
      List.forall_mem_cons.mpr ⟨⟨⟨hbefore, hafter⟩, hcharacters, hread⟩,
        fun f hf => hreads f (List.mem_cons_of_mem _ hf)⟩
    have hobject := hall.object (List.cons_ne_nil _ _)
    refine ⟨_, ?_, hobject⟩
    rw [hrest, objectJson]
    cases fields with
    | nil => simp [joined, JsonField.text]
    | cons next fields => simp [joined_cons, JsonField.text]

/-- What is read as a value is derived by the parser's own grammar. -/
theorem value_reads (n : Nat) : ReadsFrom fun c => value n c := by
  induction n with
  | zero => exact fun c j d h => absurd h fail_ne_ok
  | succ n ih =>
      intro c j d h
      obtain ⟨blanks, hblank, hspace⟩ := rest_of_space c
      dsimp only [value] at h
      have hread : ∃ text, c.space.rest = text ++ d.rest ∧ parserLexis.Reads text j := by
        split at h
        · exact absurd h fail_ne_ok
        · next b rest hrest =>
            have hhead : c.space.rest.head? = some b := by rw [hrest]; rfl
            split at h
            · next hb => exact object_reads ih (hb ▸ hhead) h
            · split at h
              · next hb => exact array_reads ih (hb ▸ hhead) h
              · split at h
                · next hb =>
                    cases hs : string c.space with
                    | error e => rw [hs] at h; contradiction
                    | ok r =>
                        rw [hs] at h
                        obtain ⟨rfl, rfl⟩ := Prod.mk.inj (Except.ok.inj h)
                        obtain ⟨text, hsplit, hcharacters⟩ := string_reads (hb ▸ hhead) hs
                        exact ⟨_, hsplit, .string hcharacters⟩
                · split at h
                  · obtain ⟨hsplit, rfl⟩ := literal_reads h
                    exact ⟨_, hsplit, .true⟩
                  · split at h
                    · obtain ⟨hsplit, rfl⟩ := literal_reads h
                      exact ⟨_, hsplit, .false⟩
                    · split at h
                      · obtain ⟨hsplit, rfl⟩ := literal_reads h
                        exact ⟨_, hsplit, .null⟩
                      · exact number_reads _ _ _ h
      obtain ⟨text, hsplit, hread⟩ := hread
      refine ⟨blanks ++ text ++ [], ?_, .spaced hblank nofun hread⟩
      rw [hspace, hsplit]
      simp

/-- What the parser reads, its own grammar derives. -/
theorem reads_of_parse {text : Bytes} {j : Json} (h : parseJson text = .ok j) :
    parserLexis.Reads text j := by
  obtain ⟨⟨result, e⟩, hvalue, h⟩ := bind_ok h
  dsimp only at h
  split at h
  · next hspace =>
      obtain rfl := Except.ok.inj h
      obtain ⟨core, hsplit, hread⟩ := value_reads _ _ _ _ hvalue
      have hsplit : text = core ++ e.rest := hsplit
      rw [hsplit]
      exact hread.before_blanks (blank_of_space_nil hspace)
  · exact absurd h fail_ne_ok

/-- **The parser's language**: what `parseJson` accepts, and what it returns, is
what the grammar derives with the parser's tokens. -/
theorem parseJson_iff_reads {text : Bytes} {j : Json} :
    parseJson text = .ok j ↔ parserLexis.Reads text j :=
  ⟨reads_of_parse, parse_of_reads⟩

/-- `d` stands further on in what is left at `c`. -/
def Cursor.Reaches (c d : Cursor) : Prop := ∃ n ≤ c.rest.length, d = c.advance n

/-- A parser that stays within what is left. -/
def StaysWithin {α : Type} (f : Cursor → Except Exception (α × Cursor)) : Prop :=
  ∀ c a d, f c = .ok (a, d) → c.Reaches d

namespace Cursor.Reaches

theorem refl (c : Cursor) : c.Reaches c := ⟨0, Nat.zero_le _, rfl⟩

theorem trans {c d e : Cursor} (h : c.Reaches d) (h' : d.Reaches e) : c.Reaches e := by
  obtain ⟨n, hn, rfl⟩ := h
  obtain ⟨m, hm, rfl⟩ := h'
  rw [Cursor.advance, List.length_drop] at hm
  refine ⟨n + m, by omega, ?_⟩
  simp only [Cursor.advance, List.drop_drop, Nat.add_assoc]

theorem advance {c : Cursor} {n : Nat} (h : n ≤ c.rest.length) : c.Reaches (c.advance n) :=
  ⟨n, h, rfl⟩

theorem space (c : Cursor) : c.Reaches c.space :=
  advance (List.takeWhile_sublist _).length_le

theorem consume {c d : Cursor} {b : UInt8} (h : c.consume b = some d) : c.Reaches d := by
  obtain ⟨hhead, rfl⟩ := consume_some h
  exact advance (length_pos_of_head hhead)

end Cursor.Reaches

/-- The digits of an escape are within the text. -/
theorem hexDigits_within (n value : Nat) : StaysWithin (hexDigits n value) := by
  intro c v d h
  induction n generalizing value c with
  | zero =>
      obtain ⟨rfl, rfl⟩ := Prod.mk.inj (Except.ok.inj h)
      exact .refl c
  | succ n ih =>
      rw [hexDigits] at h
      split at h
      · exact absurd h fail_ne_ok
      · next b rest hrest =>
          split at h
          · exact (Cursor.Reaches.advance (by rw [hrest]; simp)).trans (ih _ _ h)
          · exact absurd h fail_ne_ok

theorem hex4_within : StaysWithin hex4 := by
  intro c v d h
  unfold hex4 at h
  split at h
  · exact absurd h fail_ne_ok
  · exact hexDigits_within 4 0 c v d h

/-- A code point stays within the text. -/
theorem codepoint_within : StaysWithin codepoint := by
  intro c point d h
  unfold codepoint at h
  obtain ⟨⟨high, e⟩, hhigh, h⟩ := bind_ok h
  have hfirst := hex4_within _ _ _ hhigh
  dsimp only at h
  split at h
  · split at h
    · exact absurd h fail_ne_ok
    · next htake =>
        have hlength : 2 ≤ e.rest.length := by
          have hlength := congrArg List.length (not_not.mp htake)
          simp only [List.length_take, List.length_cons, List.length_nil] at hlength
          omega
        obtain ⟨⟨low, g⟩, hlow, h⟩ := bind_ok h
        have hsecond := (Cursor.Reaches.advance hlength).trans (hex4_within _ _ _ hlow)
        dsimp only at h
        split at h
        · exact absurd h fail_ne_ok
        · obtain ⟨-, rfl⟩ := Prod.mk.inj (Except.ok.inj h)
          exact hfirst.trans hsecond
  · split at h
    · exact absurd h fail_ne_ok
    · obtain ⟨-, rfl⟩ := Prod.mk.inj (Except.ok.inj h)
      exact hfirst

/-- The loop over a string stays within the text. -/
theorem stringLoop_within (n : Nat) (result : Bytes) : StaysWithin (stringLoop n result) := by
  intro c s d h
  induction n generalizing result c with
  | zero => exact absurd h fail_ne_ok
  | succ n ih =>
      rw [stringLoop] at h
      split at h
      · exact absurd h fail_ne_ok
      · next b rest hrest =>
          have hone : c.Reaches (c.advance 1) := .advance (by rw [hrest]; simp)
          split at h
          · obtain ⟨-, rfl⟩ := Prod.mk.inj (Except.ok.inj h)
            exact hone
          · split at h
            · exact hone.trans (ih _ _ h)
            · split at h
              · exact absurd h fail_ne_ok
              · next escaped rest' hdrop =>
                  have htwo : c.Reaches (c.advance 2) := by
                    refine .advance ?_
                    have hlength := congrArg List.length hdrop
                    rw [List.length_drop, List.length_cons] at hlength
                    omega
                  split at h
                  · exact htwo.trans (ih _ _ h)
                  · split at h
                    · obtain ⟨⟨point, e⟩, hpoint, h⟩ := bind_ok h
                      exact htwo.trans ((codepoint_within _ _ _ hpoint).trans (ih _ _ h))
                    · exact absurd h fail_ne_ok

/-- So does a string. -/
theorem string_within {c d : Cursor} {s : Bytes} (hhead : c.rest.head? = some quote)
    (h : string c = .ok (s, d)) : c.Reaches d :=
  (Cursor.Reaches.advance (length_pos_of_head hhead)).trans (stringLoop_within _ _ _ _ _ h)

/-- So does a literal. -/
theorem literal_within (text : Bytes) (j : Json) : StaysWithin fun c => literal c text j := by
  intro c a d h
  dsimp only [literal] at h
  split at h
  · next hprefix =>
      obtain ⟨-, rfl⟩ := Prod.mk.inj (Except.ok.inj h)
      exact .advance (List.isPrefixOf_iff_prefix.mp hprefix).length_le
  · exact absurd h fail_ne_ok

/-- So does a number. -/
theorem number_within : StaysWithin number := by
  intro c a d h
  dsimp only [number] at h
  split at h
  · exact absurd h fail_ne_ok
  · split at h
    · obtain ⟨-, rfl⟩ := Prod.mk.inj (Except.ok.inj h)
      exact .advance (List.takeWhile_sublist _).length_le
    · contradiction

section Within

variable {value : Cursor → Except Exception (Json × Cursor)}

/-- The loop over an array stays within the text when its items do. -/
theorem arrayLoop_within (hvalue : StaysWithin value) (n : Nat) (result : List Json) :
    StaysWithin (arrayLoop value n result) := by
  intro c j d h
  induction n generalizing result c with
  | zero => exact absurd h fail_ne_ok
  | succ n ih =>
      rw [arrayLoop] at h
      obtain ⟨⟨item, e⟩, hitem, h⟩ := bind_ok h
      have hitem := (hvalue _ _ _ hitem).trans (.space e)
      dsimp only at h
      split at h
      · next hclose =>
          obtain ⟨-, rfl⟩ := Prod.mk.inj (Except.ok.inj h)
          exact hitem.trans (.consume hclose)
      · split at h
        · next hcomma => exact hitem.trans ((Cursor.Reaches.consume hcomma).trans (ih _ _ h))
        · exact absurd h fail_ne_ok

/-- So does an array. -/
theorem array_within (hvalue : StaysWithin value) {n : Nat} {c d : Cursor} {j : Json}
    (hhead : c.rest.head? = some openBracket) (h : array value n c = .ok (j, d)) : c.Reaches d := by
  have hopen := (Cursor.Reaches.advance (length_pos_of_head hhead)).trans (.space (c.advance 1))
  dsimp only [array] at h
  split at h
  · next hclose =>
      obtain ⟨-, rfl⟩ := Prod.mk.inj (Except.ok.inj h)
      exact hopen.trans (.consume hclose)
  · exact hopen.trans (arrayLoop_within hvalue _ _ _ _ _ h)

/-- So does a field. -/
theorem field_within (hvalue : StaysWithin value) : StaysWithin (field value) := by
  intro c item d h
  have hhead := field_head h
  dsimp only [field] at h
  rw [if_neg (not_not.mpr hhead)] at h
  obtain ⟨⟨key, e⟩, hkey, h⟩ := bind_ok h
  have hkey := (Cursor.Reaches.space c).trans ((string_within hhead hkey).trans (.space e))
  dsimp only at h
  split at h
  · exact absurd h fail_ne_ok
  · next hcolon =>
      obtain ⟨⟨j, g⟩, hitem, h⟩ := bind_ok h
      obtain ⟨-, rfl⟩ := Prod.mk.inj (Except.ok.inj h)
      exact hkey.trans ((Cursor.Reaches.consume hcolon).trans (hvalue _ _ _ hitem))

/-- So does the loop over an object. -/
theorem objectLoop_within (hvalue : StaysWithin value) (n : Nat) (result : List (Bytes × Json)) :
    StaysWithin (objectLoop value n result) := by
  intro c j d h
  induction n generalizing result c with
  | zero => exact absurd h fail_ne_ok
  | succ n ih =>
      rw [objectLoop] at h
      obtain ⟨⟨item, e⟩, hitem, h⟩ := bind_ok h
      have hitem := (field_within hvalue _ _ _ hitem).trans (.space e)
      dsimp only at h
      split at h
      · next hclose =>
          obtain ⟨-, rfl⟩ := Prod.mk.inj (Except.ok.inj h)
          exact hitem.trans (.consume hclose)
      · split at h
        · next hcomma => exact hitem.trans ((Cursor.Reaches.consume hcomma).trans (ih _ _ h))
        · exact absurd h fail_ne_ok

/-- So does an object. -/
theorem object_within (hvalue : StaysWithin value) {n : Nat} {c d : Cursor} {j : Json}
    (hhead : c.rest.head? = some openBrace) (h : object value n c = .ok (j, d)) : c.Reaches d := by
  have hopen := (Cursor.Reaches.advance (length_pos_of_head hhead)).trans (.space (c.advance 1))
  dsimp only [object] at h
  split at h
  · next hclose =>
      obtain ⟨-, rfl⟩ := Prod.mk.inj (Except.ok.inj h)
      exact hopen.trans (.consume hclose)
  · exact hopen.trans (objectLoop_within hvalue _ _ _ _ _ h)

end Within

/-- Every value stays within the text. -/
theorem value_within (n : Nat) : StaysWithin fun c => value n c := by
  induction n with
  | zero => exact fun c j d h => absurd h fail_ne_ok
  | succ n ih =>
      intro c j d h
      dsimp only [value] at h
      refine (Cursor.Reaches.space c).trans ?_
      split at h
      · exact absurd h fail_ne_ok
      · next b rest hrest =>
          have hhead : c.space.rest.head? = some b := by rw [hrest]; rfl
          split at h
          · next hb => exact object_within ih (hb ▸ hhead) h
          · split at h
            · next hb => exact array_within ih (hb ▸ hhead) h
            · split at h
              · next hb =>
                  cases hs : string c.space with
                  | error e => rw [hs] at h; contradiction
                  | ok r =>
                      rw [hs] at h
                      obtain ⟨-, rfl⟩ := Prod.mk.inj (Except.ok.inj h)
                      exact string_within (hb ▸ hhead) hs
              · split at h
                · exact literal_within _ _ _ _ _ h
                · split at h
                  · exact literal_within _ _ _ _ _ h
                  · split at h
                    · exact literal_within _ _ _ _ _ h
                    · exact number_within _ _ _ h

end ByteTurn

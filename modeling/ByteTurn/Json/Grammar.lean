import ByteTurn.Json.Spelling

/-!
# ByteTurn.Json.Grammar

JSON texts, and what they stand for.

`JsonText` is the grammar of JSON texts.  `JsonLexis.Reads` is the same grammar
with what each text stands for, over a choice of blanks, number tokens and string
contents; one choice is compared with another token by token
(`JsonLexis.Reads.mono`).  The ways an encoder puts texts together are derivations
of it (`JsonLexis.reads_array`, `JsonLexis.reads_object`).
-/

namespace ByteTurn

/-! ## texts that are put together -/

/-- A field's text. -/
def fieldJson (key text : Bytes) : Bytes := quoted key ++ colon :: text

/-- An object's text. -/
def objectJson (fields : List Bytes) : Bytes := openBrace :: (joined fields ++ [closeBrace])

/-- An array's text. -/
def arrayJson (items : List Bytes) : Bytes := openBracket :: (joined items ++ [closeBracket])

/-- All items but the first have a comma before them. -/
theorem joined_eq_flatMap (first : Bytes) (rest : List Bytes) :
    joined (first :: rest) = first ++ rest.flatMap (comma :: ·) := by
  induction rest generalizing first with
  | nil => simp [joined]
  | cons next rest ih => rw [joined_cons, ih next, List.flatMap_cons]; rfl

/-! ## the JSON grammar -/

/-- The blanks of the grammar. -/
def JsonBlank (l : Bytes) : Prop := ∀ b ∈ l, b = 0x20 ∨ b = 0x09 ∨ b = 0x0a ∨ b = 0x0d

/-- A non-empty run of digits. -/
def JsonDigits (l : Bytes) : Prop := l ≠ [] ∧ ∀ b ∈ l, Double.isDigit b = true

/-- The exponent of a number. -/
inductive JsonExponent : Bytes → Prop where
  | none : JsonExponent []
  | some {e : UInt8} {sign digits : Bytes} (he : e = 0x65 ∨ e = 0x45)
      (hsign : sign = [] ∨ sign = [0x2d] ∨ sign = [0x2b]) (hdigits : JsonDigits digits) :
      JsonExponent (e :: (sign ++ digits))

/-- The fraction of a number. -/
inductive JsonFraction : Bytes → Prop where
  | none : JsonFraction []
  | some {digits : Bytes} (hdigits : JsonDigits digits) : JsonFraction (0x2e :: digits)

/-- A number. -/
inductive JsonNumber : Bytes → Prop where
  | mk {sign whole fraction exponent : Bytes} (hsign : sign = [] ∨ sign = [0x2d])
      (hwhole : JsonDigits whole) (hzero : whole.head? = some 0x30 → whole = [0x30])
      (hfraction : JsonFraction fraction) (hexponent : JsonExponent exponent) :
      JsonNumber (sign ++ (whole ++ (fraction ++ exponent)))

/-- What stands between the quotes of a string; the encoding of its other
characters is left open. -/
inductive JsonString : Bytes → Prop where
  | nil : JsonString []
  | plain {b : UInt8} {rest : Bytes} (hcontrol : 0x20 ≤ b) (hquote : b ≠ quote)
      (hbackslash : b ≠ backslash) (hrest : JsonString rest) : JsonString (b :: rest)
  | letter {b : UInt8} {rest : Bytes} (hb : (letterEscape b).isSome) (hrest : JsonString rest) :
      JsonString (backslash :: b :: rest)
  | unicode {digits rest : Bytes} (hlength : digits.length = 4)
      (hdigits : ∀ b ∈ digits, (hexDigit b).isSome) (hrest : JsonString rest) :
      JsonString (backslash :: 0x75 :: (digits ++ rest))

/-- A field of an object: the blanks around its key, the key and the value. -/
structure JsonField where
  before : Bytes
  key : Bytes
  after : Bytes
  value : Bytes

/-- The text of a field. -/
def JsonField.text (f : JsonField) : Bytes :=
  f.before ++ (quoted f.key ++ (f.after ++ colon :: f.value))

/-- A JSON text. -/
inductive JsonText : Bytes → Prop where
  | null : JsonText (lit "null")
  | true : JsonText (lit "true")
  | false : JsonText (lit "false")
  | number {text : Bytes} (h : JsonNumber text) : JsonText text
  | string {text : Bytes} (h : JsonString text) : JsonText (quoted text)
  | emptyArray {blanks : Bytes} (h : JsonBlank blanks) :
      JsonText (openBracket :: (blanks ++ [closeBracket]))
  | array {items : List Bytes} (hne : items ≠ []) (h : ∀ item ∈ items, JsonText item) :
      JsonText (arrayJson items)
  | emptyObject {blanks : Bytes} (h : JsonBlank blanks) :
      JsonText (openBrace :: (blanks ++ [closeBrace]))
  | object {fields : List JsonField} (hne : fields ≠ [])
      (hblanks : ∀ f ∈ fields, JsonBlank f.before ∧ JsonBlank f.after)
      (hkeys : ∀ f ∈ fields, JsonString f.key) (h : ∀ f ∈ fields, JsonText f.value) :
      JsonText (objectJson (fields.map JsonField.text))
  | spaced {before text after : Bytes} (hbefore : JsonBlank before) (hafter : JsonBlank after)
      (h : JsonText text) : JsonText (before ++ text ++ after)

/-! ## what a text stands for -/

/-- What the grammar leaves to its tokens: the bytes between them, the number
tokens, and what a text between quotes stands for. -/
structure JsonLexis where
  blank : UInt8 → Prop
  number : Bytes → Prop
  characters : Bytes → Bytes → Prop

namespace JsonLexis

/-- A text, and the document it stands for. -/
inductive Reads (L : JsonLexis) : Bytes → Json → Prop where
  | null : Reads L (lit "null") .null
  | true : Reads L (lit "true") (.bool true)
  | false : Reads L (lit "false") (.bool false)
  | number {text : Bytes} {d : Double} (h : L.number text) (hd : Double.stod text = some d) :
      Reads L text (.number d)
  | string {text s : Bytes} (h : L.characters text s) : Reads L (quoted text) (.string s)
  | emptyArray {blanks : Bytes} (h : ∀ b ∈ blanks, L.blank b) :
      Reads L (openBracket :: (blanks ++ [closeBracket])) (.array [])
  | array {items : List (Bytes × Json)} (hne : items ≠ [])
      (h : ∀ item ∈ items, Reads L item.1 item.2) :
      Reads L (arrayJson (items.map (·.1))) (.array (items.map (·.2)))
  | emptyObject {blanks : Bytes} (h : ∀ b ∈ blanks, L.blank b) :
      Reads L (openBrace :: (blanks ++ [closeBrace])) (.object [])
  | object {fields : List (JsonField × Bytes × Json)} (hne : fields ≠ [])
      (hblanks : ∀ f ∈ fields, (∀ b ∈ f.1.before, L.blank b) ∧ ∀ b ∈ f.1.after, L.blank b)
      (hkeys : ∀ f ∈ fields, L.characters f.1.key f.2.1)
      (h : ∀ f ∈ fields, Reads L f.1.value f.2.2) :
      Reads L (objectJson (fields.map (·.1.text))) (.object (fields.map (·.2)))
  | spaced {before text after : Bytes} {j : Json} (hbefore : ∀ b ∈ before, L.blank b)
      (hafter : ∀ b ∈ after, L.blank b) (h : Reads L text j) :
      Reads L (before ++ text ++ after) j

/-- A lexis with fewer tokens reads fewer texts, and reads them alike. -/
theorem Reads.mono {L L' : JsonLexis} (hblank : ∀ b, L.blank b → L'.blank b)
    (hnumber : ∀ text, L.number text → L'.number text)
    (hcharacters : ∀ text s, L.characters text s → L'.characters text s) {text : Bytes} {j : Json}
    (h : L.Reads text j) : L'.Reads text j := by
  have hblanks {l : Bytes} (hl : ∀ b ∈ l, L.blank b) : ∀ b ∈ l, L'.blank b :=
    fun b hb => hblank b (hl b hb)
  induction h with
  | null => exact .null
  | true => exact .true
  | false => exact .false
  | number h hd => exact .number (hnumber _ h) hd
  | string h => exact .string (hcharacters _ _ h)
  | emptyArray h => exact .emptyArray (hblanks h)
  | array hne _ ih => exact .array hne ih
  | emptyObject h => exact .emptyObject (hblanks h)
  | object hne hspaces hkeys _ ih =>
      exact .object hne (fun f hf => ⟨hblanks (hspaces f hf).1, hblanks (hspaces f hf).2⟩)
        (fun f hf => hcharacters _ _ (hkeys f hf)) ih
  | spaced hbefore hafter _ ih => exact .spaced (hblanks hbefore) (hblanks hafter) ih

/-- The text of a field, and what it stands for. -/
def Field (L : JsonLexis) (text : Bytes) (field : Bytes × Json) : Prop :=
  ∃ f : JsonField, text = f.text ∧ ((∀ b ∈ f.before, L.blank b) ∧ ∀ b ∈ f.after, L.blank b) ∧
    L.characters f.key field.1 ∧ L.Reads f.value field.2

variable {L : JsonLexis}

/-- A field without blanks. -/
theorem field_mk {key k text : Bytes} {j : Json} (hkey : L.characters key k) (h : L.Reads text j) :
    L.Field (fieldJson key text) (k, j) :=
  ⟨⟨[], key, [], text⟩, rfl, ⟨nofun, nofun⟩, hkey, h⟩

/-- An array of texts that stand for its items. -/
theorem reads_array {texts : List Bytes} {items : List Json}
    (h : List.Forall₂ L.Reads texts items) :
    L.Reads (arrayJson texts) (.array items) := by
  obtain ⟨hlength, hall⟩ := List.forall₂_iff_zip.mp h
  cases h with
  | nil => exact @Reads.emptyArray L [] nofun
  | @cons text item texts items _ _ =>
      have hread := @Reads.array L ((text :: texts).zip (item :: items)) (by simp)
        fun pair hpair => hall hpair
      rwa [List.map_fst_zip hlength.le, List.map_snd_zip hlength.ge] at hread

/-- An object of texts that stand for its fields. -/
theorem reads_object {texts : List Bytes} {fields : List (Bytes × Json)}
    (h : List.Forall₂ L.Field texts fields) : L.Reads (objectJson texts) (.object fields) := by
  have hfields : ∃ all : List (JsonField × Bytes × Json), all.map (·.1.text) = texts ∧
      all.map (·.2) = fields ∧ ∀ f ∈ all,
        ((∀ b ∈ f.1.before, L.blank b) ∧ ∀ b ∈ f.1.after, L.blank b) ∧
          L.characters f.1.key f.2.1 ∧ L.Reads f.1.value f.2.2 := by
    induction h with
    | nil => exact ⟨[], rfl, rfl, nofun⟩
    | cons hfield _ ih =>
        obtain ⟨f, rfl, hf⟩ := hfield
        obtain ⟨all, rfl, rfl, hall⟩ := ih
        exact ⟨(f, _) :: all, rfl, rfl, List.forall_mem_cons.mpr ⟨hf, hall⟩⟩
  obtain ⟨all, rfl, rfl, hall⟩ := hfields
  cases all with
  | nil => exact @Reads.emptyObject L [] nofun
  | cons f all =>
      exact .object (List.cons_ne_nil f all) (fun f hf => (hall f hf).1)
        (fun f hf => (hall f hf).2.1) (fun f hf => (hall f hf).2.2)

end JsonLexis

end ByteTurn

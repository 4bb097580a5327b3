import Mathlib

/-!
# ByteTurn.Lib.Utf8

UTF-8 texts as lists of bytes.

A text is `Valid` when it encodes characters, and `Partial` when it is the
beginning of one that does.  The borders of a text are its characters' borders:
a valid text is cut into valid ones before any byte that is no continuation byte
(`Valid.take_of_lead`), and after the sequence that such a byte starts
(`Valid.take_of_width`); what follows a valid beginning is valid, or partial,
with the whole (`Valid.of_append`, `Partial.of_append`).

The module names no program.
-/

namespace Utf8

/-- The encoding of characters. -/
def encode (text : List Char) : List UInt8 := text.flatMap String.utf8EncodeChar

/-- A continuation byte. -/
def IsTrail (b : UInt8) : Prop := b &&& 0xc0 = 0x80

instance (b : UInt8) : Decidable (IsTrail b) := inferInstanceAs (Decidable (_ = _))

/-- The length of the sequence that a byte starts. -/
def width (lead : UInt8) : Nat :=
  if lead < 0x80 then 1 else if lead < 0xe0 then 2 else if lead < 0xf0 then 3 else 4

/-- A byte that starts a sequence. -/
def IsLead (b : UInt8) : Prop := b < 0x80 ∨ (0xc0 ≤ b ∧ b < 0xf8)

/-- The encoding of characters. -/
def Valid (bytes : List UInt8) : Prop := ∃ text, bytes = encode text

/-- The beginning of the encoding of characters. -/
def Partial (bytes : List UInt8) : Prop := ∃ text, bytes <+: encode text

/-- The beginning of the encoding of one character. -/
def Incomplete (bytes : List UInt8) : Prop :=
  ∃ c, bytes <+: String.utf8EncodeChar c ∧ bytes ≠ String.utf8EncodeChar c

/-! ## a character -/

theorem trail_ofNat (k : Nat) (hk : k < 0x40) : IsTrail (UInt8.ofNat (k + 0x80)) := by
  have hall : ∀ k : Fin 0x40, IsTrail (UInt8.ofNat (k + 0x80)) := by decide +kernel
  exact hall ⟨k, hk⟩

theorem lead_ofNat (k : Nat) (hlead : k < 0x80 ∨ (0xc0 ≤ k ∧ k < 0xf8)) :
    IsLead (UInt8.ofNat k) ∧
      width (UInt8.ofNat k) = if k < 0x80 then 1 else if k < 0xe0 then 2 else
        if k < 0xf0 then 3 else 4 := by
  have hk : k < 0xf8 := by omega
  have hlt (n : Nat) (hn : n < 256) : UInt8.ofNat k < UInt8.ofNat n ↔ k < n := by
    rw [UInt8.lt_iff_toNat_lt, UInt8.toNat_ofNat', UInt8.toNat_ofNat', Nat.mod_eq_of_lt (by omega),
      Nat.mod_eq_of_lt (by omega)]
  have hle (n : Nat) (hn : n < 256) : UInt8.ofNat n ≤ UInt8.ofNat k ↔ n ≤ k := by
    rw [UInt8.le_iff_toNat_le, UInt8.toNat_ofNat', UInt8.toNat_ofNat', Nat.mod_eq_of_lt (by omega),
      Nat.mod_eq_of_lt (by omega)]
  constructor
  · cases hlead with
    | inl h => exact .inl ((hlt 0x80 (by omega)).mpr h)
    | inr h => exact .inr ⟨(hle 0xc0 (by omega)).mpr h.1, (hlt 0xf8 (by omega)).mpr h.2⟩
  · have h1 := hlt 0x80 (by omega)
    have h2 := hlt 0xe0 (by omega)
    have h3 := hlt 0xf0 (by omega)
    rw [width]
    exact if_congr h1 rfl (if_congr h2 rfl (if_congr h3 rfl rfl))

/-- A character is a byte that starts a sequence, and the continuation bytes it
announces. -/
theorem encodeChar_shape (c : Char) : ∃ lead rest, String.utf8EncodeChar c = lead :: rest ∧
    IsLead lead ∧ width lead = rest.length + 1 ∧ ∀ b ∈ rest, IsTrail b := by
  have hv : c.val.toNat < 0x110000 := by
    have hvalid := c.valid
    unfold UInt32.isValidChar Nat.isValidChar at hvalid
    omega
  have htrail (n : Nat) : IsTrail (UInt8.ofNat (n % 0x40 + 0x80)) :=
    trail_ofNat _ (Nat.mod_lt _ (by omega))
  rw [String.utf8EncodeChar]
  generalize c.val.toNat = v at hv
  repeat' split
  · obtain ⟨hlead, hwidth⟩ := lead_ofNat v (by omega)
    exact ⟨_, [], rfl, hlead, by rw [hwidth, if_pos (by omega)]; rfl, nofun⟩
  · obtain ⟨hlead, hwidth⟩ := lead_ofNat (v / 64 % 0x20 + 0xc0) (by omega)
    refine ⟨_, _, rfl, hlead, ?_, ?_⟩
    · rw [hwidth, if_neg (by omega), if_pos (by omega)]
      rfl
    · exact List.forall_mem_singleton.mpr (htrail _)
  · obtain ⟨hlead, hwidth⟩ := lead_ofNat (v / 4096 % 0x10 + 0xe0) (by omega)
    refine ⟨_, _, rfl, hlead, ?_, ?_⟩
    · rw [hwidth, if_neg (by omega), if_neg (by omega), if_pos (by omega)]
      rfl
    · exact List.forall_mem_cons.mpr ⟨htrail _, List.forall_mem_singleton.mpr (htrail _)⟩
  · obtain ⟨hlead, hwidth⟩ := lead_ofNat (v / 262144 % 0x08 + 0xf0) (by omega)
    refine ⟨_, _, rfl, hlead, ?_, ?_⟩
    · rw [hwidth, if_neg (by omega), if_neg (by omega), if_neg (by omega)]
      rfl
    · exact List.forall_mem_cons.mpr ⟨htrail _, List.forall_mem_cons.mpr
        ⟨htrail _, List.forall_mem_singleton.mpr (htrail _)⟩⟩

theorem IsLead.not_trail {b : UInt8} (h : IsLead b) : ¬IsTrail b := by
  have hall : ∀ b : UInt8, b < 0x80 ∨ (0xc0 ≤ b ∧ b < 0xf8) → ¬(b &&& 0xc0 = 0x80) := by
    decide +kernel
  exact hall b h

/-- No encoding of a character is the beginning of another's. -/
theorem encodeChar_append_inj {c c' : Char} {x y : List UInt8}
    (h : String.utf8EncodeChar c ++ x = String.utf8EncodeChar c' ++ y) : c = c' ∧ x = y := by
  have hdecode (c : Char) (x : List UInt8) :
      (String.utf8EncodeChar c ++ x).toByteArray.utf8DecodeChar? 0 = some c := by
    rw [List.toByteArray_append]
    exact ByteArray.utf8DecodeChar?_utf8EncodeChar_append
  have hchar := hdecode c x
  rw [h, hdecode c' y] at hchar
  obtain rfl := Option.some.inj hchar
  exact ⟨rfl, List.append_cancel_left h⟩

/-- An ASCII character is one byte. -/
theorem encodeChar_ascii {c : Char} (h : c.toNat < 0x80) :
    String.utf8EncodeChar c = [UInt8.ofNat c.toNat] := by
  have hle : c.val.toNat ≤ 0x7f := Nat.le_of_lt_succ h
  rw [String.utf8EncodeChar, if_pos hle]
  rfl

/-- The other characters have no ASCII byte. -/
theorem high_of_mem_encodeChar {c : Char} (h : 0x80 ≤ c.toNat) {b : UInt8}
    (hb : b ∈ String.utf8EncodeChar c) : 0x80 ≤ b := by
  have hbyte (n : Nat) (hn : 0x80 ≤ n ∧ n < 0x100) : 0x80 ≤ UInt8.ofNat n := by
    rw [UInt8.le_iff_toNat_le, UInt8.toNat_ofNat', Nat.mod_eq_of_lt (by omega)]
    exact hn.1
  have hne : ¬c.val.toNat ≤ 0x7f := Nat.not_le.mpr h
  rw [String.utf8EncodeChar, if_neg hne] at hb
  generalize c.val.toNat = v at hb
  split at hb
  · simp only [List.mem_cons, List.not_mem_nil, or_false] at hb
    rcases hb with rfl | rfl <;> exact hbyte _ (by omega)
  · split at hb
    · simp only [List.mem_cons, List.not_mem_nil, or_false] at hb
      rcases hb with rfl | rfl | rfl <;> exact hbyte _ (by omega)
    · simp only [List.mem_cons, List.not_mem_nil, or_false] at hb
      rcases hb with rfl | rfl | rfl | rfl <;> exact hbyte _ (by omega)

/-! ## texts -/

theorem encode_cons (c : Char) (text : List Char) :
    encode (c :: text) = String.utf8EncodeChar c ++ encode text := List.flatMap_cons

theorem encode_append (x y : List Char) : encode (x ++ y) = encode x ++ encode y :=
  List.flatMap_append

theorem valid_nil : Valid [] := ⟨[], rfl⟩

theorem Valid.append {x y : List UInt8} (hx : Valid x) (hy : Valid y) : Valid (x ++ y) := by
  obtain ⟨s, rfl⟩ := hx
  obtain ⟨t, rfl⟩ := hy
  exact ⟨s ++ t, (encode_append s t).symm⟩

theorem Partial.of_prefix {x y : List UInt8} (hy : Partial y) (h : x <+: y) : Partial x := by
  obtain ⟨text, hy⟩ := hy
  exact ⟨text, h.trans hy⟩

/-- Of two encodings, the rests after a common beginning. -/
theorem encode_append_cancel {s t : List Char} {x : List UInt8} (h : encode s ++ x = encode t) :
    ∃ t', x = encode t' ∧ t = s ++ t' := by
  induction s generalizing t with
  | nil => exact ⟨t, h, rfl⟩
  | cons c s ih =>
      rw [encode_cons, List.append_assoc] at h
      cases t with
      | nil => exact absurd (List.append_eq_nil_iff.mp h).1 String.utf8EncodeChar_ne_nil
      | cons c' t =>
          rw [encode_cons] at h
          obtain ⟨rfl, hrest⟩ := encodeChar_append_inj h
          obtain ⟨t', hx, rfl⟩ := ih hrest
          exact ⟨t', hx, rfl⟩

theorem Valid.of_append {x y : List UInt8} (hx : Valid x) (h : Valid (x ++ y)) : Valid y := by
  obtain ⟨s, rfl⟩ := hx
  obtain ⟨t, h⟩ := h
  obtain ⟨t', hy, -⟩ := encode_append_cancel h
  exact ⟨t', hy⟩

theorem Partial.of_append {x y : List UInt8} (hx : Valid x) (h : Partial (x ++ y)) :
    Partial y := by
  obtain ⟨s, rfl⟩ := hx
  obtain ⟨t, z, h⟩ := h
  rw [List.append_assoc] at h
  obtain ⟨t', hy, -⟩ := encode_append_cancel h
  exact ⟨t', z, hy⟩

/-- ASCII texts are valid. -/
theorem valid_ascii {x : List UInt8} (h : ∀ b ∈ x, b < 0x80) : Valid x := by
  have hbyte : ∀ b : UInt8, b < 0x80 → [b] = String.utf8EncodeChar (Char.ofNat b.toNat) := by
    decide +kernel
  refine ⟨x.map fun b => Char.ofNat b.toNat, ?_⟩
  induction x with
  | nil => rfl
  | cons b x ih =>
      have hb := hbyte b (h b List.mem_cons_self)
      have hx := ih fun b' hb' => h b' (List.mem_cons_of_mem _ hb')
      rw [List.map_cons, encode_cons, ← hb, ← hx]
      rfl

/-! ## borders -/

/-- A cut before a byte that is no continuation byte, or at the end. -/
theorem Valid.take_of_lead {x : List UInt8} (h : Valid x) {i : Nat}
    (hi : ∀ b ∈ x[i]?, ¬IsTrail b) : Valid (x.take i) := by
  obtain ⟨text, rfl⟩ := h
  induction text generalizing i with
  | nil =>
      rw [encode, List.flatMap_nil, List.take_nil]
      exact valid_nil
  | cons c text ih =>
      obtain ⟨lead, rest, hc, hlead, -, htrail⟩ := encodeChar_shape c
      rw [encode_cons] at hi ⊢
      by_cases hshort : i < (String.utf8EncodeChar c).length
      · cases i with
        | zero =>
            rw [List.take_zero]
            exact valid_nil
        | succ i =>
            rw [hc, List.length_cons] at hshort
            have hlt : i < rest.length := by omega
            have hget : (String.utf8EncodeChar c ++ encode text)[i + 1]? = some rest[i] := by
              rw [hc, List.cons_append, List.getElem?_cons_succ, List.getElem?_append_left hlt,
                List.getElem?_eq_getElem hlt]
            exact absurd (htrail _ (List.getElem_mem hlt)) (hi _ hget)
      · have hle : (String.utf8EncodeChar c).length ≤ i := by omega
        rw [List.getElem?_append_right hle] at hi
        rw [List.take_append, List.take_of_length_le hle]
        have hvalid : Valid (String.utf8EncodeChar c) := ⟨[c], by simp [encode]⟩
        exact hvalid.append (ih hi)

/-- A byte that is no continuation byte starts a sequence that is all there. -/
theorem Valid.take_of_width {x : List UInt8} (h : Valid x) {i : Nat} {lead : UInt8}
    (hi : x[i]? = some lead) (hlead : ¬IsTrail lead) :
    i + width lead ≤ x.length ∧ Valid (x.take (i + width lead)) := by
  have hfront := h.take_of_lead (i := i) (by
    intro b hb
    rw [hi] at hb
    exact Option.some.inj hb ▸ hlead)
  have hlt : i < x.length := (List.getElem?_eq_some_iff.mp hi).1
  have hvalid : Valid (x.drop i) := hfront.of_append (by rw [List.take_append_drop]; exact h)
  obtain ⟨text, htext⟩ := hvalid
  have hhead : (x.drop i).head? = some lead := by rw [List.head?_drop, hi]
  cases text with
  | nil =>
      rw [htext] at hhead
      cases hhead
  | cons c text =>
      obtain ⟨lead', rest, hc, -, hwidth, -⟩ := encodeChar_shape c
      rw [encode_cons] at htext
      rw [htext, hc] at hhead
      obtain rfl := Option.some.inj hhead
      have hlength := congrArg List.length htext
      rw [hc, List.length_drop, List.length_append, List.length_cons] at hlength
      refine ⟨by omega, ?_⟩
      rw [List.take_add, htext, hwidth, List.take_left' (by rw [hc]; rfl)]
      exact hfront.append ⟨[c], by simp [encode]⟩

/-- A partial text is characters and the beginning of one more. -/
theorem Partial.split {x : List UInt8} (h : Partial x) :
    ∃ text tail, x = encode text ++ tail ∧ Incomplete tail := by
  obtain ⟨text, h⟩ := h
  have hnone : Incomplete [] :=
    ⟨'a', List.nil_prefix, fun h => String.utf8EncodeChar_ne_nil h.symm⟩
  induction text generalizing x with
  | nil =>
      obtain rfl := List.prefix_nil.mp h
      exact ⟨[], [], rfl, hnone⟩
  | cons c text ih =>
      rw [encode_cons] at h
      cases List.prefix_or_prefix_of_prefix h (List.prefix_append _ _) with
      | inl hinside =>
          by_cases hwhole : x = String.utf8EncodeChar c
          · exact ⟨[c], [], by simp [encode, hwhole], hnone⟩
          · exact ⟨[], x, rfl, c, hinside, hwhole⟩
      | inr hbeyond =>
          obtain ⟨y, rfl⟩ := hbeyond
          obtain ⟨text', tail, rfl, htail⟩ := ih ((List.prefix_append_right_inj _).mp h)
          exact ⟨c :: text', tail, by rw [encode_cons, List.append_assoc], htail⟩

end Utf8

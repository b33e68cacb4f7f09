import Hummingbird.Json.Agreement
import Hummingbird.Json.Complete

/-!
Renderings of a document, stated without the parser: integers in decimal, string bytes
raw or behind an escape, white space anywhere between tokens. Every rendering is a text
of the grammar, so the parser reads back the document that was written.
-/

namespace Hummingbird

def decimalNat (m : Nat) : List UInt8 := (Nat.toDigits 10 m).map byte

def decimal (n : Int) : List UInt8 :=
  if n < 0 then byte '-' :: decimalNat n.natAbs else decimalNat n.natAbs

def JsonValue.integer (n : Int) : JsonValue := .number (.finite (n < 0) n.natAbs)

/-- Largest magnitude up to which every integer is a double. -/
def integerLimit : Nat := 2 ^ 53

section Integers

theorem byte_of_isDigit {c : Char} (h : c.isDigit = true) :
    isDigit (byte c) = true ∧ (byte c).toNat = c.toNat := by
  have hrange : 48 ≤ c.toNat ∧ c.toNat ≤ 57 := by
    simpa [Char.isDigit, UInt32.le_iff_toNat_le] using h
  have hval : (byte c).toNat = c.toNat := by
    have hmod : (byte c).toNat = c.toNat % 256 := rfl
    omega
  have hzero : (byte '0').toNat = 48 := rfl
  have hnine : (byte '9').toNat = 57 := rfl
  refine ⟨?_, hval⟩
  simp only [isDigit, Bool.and_eq_true, decide_eq_true_eq, UInt8.le_iff_toNat_le]
  omega

theorem decimalNat_digits (m : Nat) : ∀ c ∈ decimalNat m, isDigit c = true := by
  intro c hc
  obtain ⟨d, hd, rfl⟩ := List.mem_map.mp hc
  exact (byte_of_isDigit (Nat.isDigit_of_mem_toDigits (by omega) (by omega) hd)).1

theorem decimalNat_ne_nil (m : Nat) : decimalNat m ≠ [] := by
  simp [decimalNat]

theorem decimalValue_map {l : List Char} (h : ∀ c ∈ l, c.isDigit = true) :
    decimalValue (l.map byte) = Nat.ofDigitChars 10 l 0 := by
  rw [Nat.ofDigitChars_eq_foldl]
  unfold decimalValue
  rw [List.foldl_map]
  apply List.foldl_ext
  intro n c hc
  rw [(byte_of_isDigit (h c hc)).2]
  rfl

theorem decimalValue_decimalNat (m : Nat) : decimalValue (decimalNat m) = m := by
  unfold decimalNat
  rw [decimalValue_map fun c hc => Nat.isDigit_of_mem_toDigits (by omega) (by omega) hc]
  exact Nat.ofDigitChars_ten_toDigits

theorem decimalNat_length_le {m : Nat} (h : m ≤ integerLimit) : (decimalNat m).length ≤ 16 := by
  unfold decimalNat
  rw [List.length_map, Nat.length_toDigits_le_iff (by omega) (by omega)]
  unfold integerLimit at h
  omega

/-- Behind its sign the scanner takes the digits of a whole number as one run. -/
theorem strtod_whole {sign s : List UInt8} (hsign : signLength (sign ++ s) = sign.length)
    (hdigits : ∀ c ∈ s, isDigit c = true) (hne : s ≠ []) :
    strtod (sign ++ s) = (Rounding.binary64.round (isNegative (sign ++ s)) (decimalValue s),
      (sign ++ s).length) := by
  have hwhole : s.takeWhile isDigit = s := List.takeWhile_eq_self_iff.mpr hdigits
  unfold strtod
  simp only [hsign, List.drop_left, hwhole]
  rw [← List.length_append, List.drop_length]
  simp [fractionPart, exponentPart, hne]

theorem signLength_digits {s : List UInt8} (hdigits : ∀ c ∈ s, isDigit c = true) :
    signLength s = 0 ∧ isNegative s = false := by
  cases s with
  | nil => exact ⟨rfl, rfl⟩
  | cons c s =>
      have hc := hdigits c (by simp)
      have hminus : c ≠ byte '-' := by
        rintro rfl
        exact absurd hc (by decide)
      have hplus : c ≠ byte '+' := by
        rintro rfl
        exact absurd hc (by decide)
      exact ⟨by simp [signLength, hminus, hplus], by simp [isNegative, hminus]⟩

/-- The conversion of an integer of a double's precision is exact. -/
theorem strtod_decimal {n : Int} (h : n.natAbs ≤ integerLimit) :
    strtod (decimal n) = (.finite (n < 0) n.natAbs, (decimal n).length) := by
  have hdigits := decimalNat_digits n.natAbs
  have hround : ∀ negative, Rounding.binary64.round negative (n.natAbs : ℚ) =
      .finite negative n.natAbs := by
    intro negative
    exact Rounding.binary64.round_natCast negative h (by decide) (by decide) (by decide)
  unfold decimal
  split
  · rename_i hneg
    have hread := @strtod_whole [byte '-'] (decimalNat n.natAbs) rfl hdigits
      (decimalNat_ne_nil _)
    rw [decimalValue_decimalNat, hround] at hread
    simpa [isNegative, hneg] using hread
  · rename_i hpos
    obtain ⟨hsign, hminus⟩ := signLength_digits hdigits
    have hread := @strtod_whole [] (decimalNat n.natAbs) hsign hdigits (decimalNat_ne_nil _)
    rw [decimalValue_decimalNat, hround] at hread
    simpa [hminus, hpos] using hread

theorem isNumber_decimal {n : Int} (h : n.natAbs ≤ integerLimit) :
    IsNumber (decimal n) (.finite (n < 0) n.natAbs) := by
  have hlength := decimalNat_length_le h
  refine ⟨?_, ?_, ?_, strtod_decimal h⟩
  · unfold decimal
    split
    · exact ⟨_, _, rfl, Or.inl rfl⟩
    · obtain ⟨c, t, hct⟩ := List.exists_cons_of_ne_nil (decimalNat_ne_nil n.natAbs)
      refine ⟨c, t, hct, Or.inr (decimalNat_digits n.natAbs c ?_)⟩
      simp [hct]
  · intro c hc
    have hcases : c = byte '-' ∨ isDigit c = true := by
      unfold decimal at hc
      split at hc
      · rcases List.mem_cons.mp hc with rfl | hc
        · exact Or.inl rfl
        · exact Or.inr (decimalNat_digits _ c hc)
      · exact Or.inr (decimalNat_digits _ c hc)
    rcases hcases with rfl | hdigit
    · decide
    · simp [isNumberByte, hdigit]
  · unfold decimal numberBuffer
    split
    · simp only [List.length_cons]
      omega
    · omega

end Integers

/-- The bytes with an escape of one letter, behind the letter. -/
def shortEscapes : List (UInt8 × UInt8) :=
  [(byte '"', byte '"'), (byte '\\', byte '\\'), (byte '/', byte '/'), (byte 'b', 8),
    (byte 'f', 12), (byte 'n', 10), (byte 'r', 13), (byte 't', 9)]

/-- A hexadecimal digit in either case. -/
inductive WritesDigit : Nat → UInt8 → Prop
  | lower {n : Nat} (h : n < 16) : WritesDigit n (byte n.digitChar)
  | upper {n : Nat} (h : n < 16) : WritesDigit n (byte n.digitChar.toUpper)

inductive WritesHex : Nat → List UInt8 → Prop
  | mk {n₀ n₁ n₂ n₃ : Nat} {c₀ c₁ c₂ c₃ : UInt8} (h₀ : WritesDigit n₀ c₀)
      (h₁ : WritesDigit n₁ c₁) (h₂ : WritesDigit n₂ c₂) (h₃ : WritesDigit n₃ c₃) :
      WritesHex (((n₀ * 16 + n₁) * 16 + n₂) * 16 + n₃) [c₀, c₁, c₂, c₃]

/-- What may stand behind a backslash for some bytes: a letter, the code point they
encode, or its two surrogates. -/
inductive WritesEscape : List UInt8 → List UInt8 → Prop
  | short {e c : UInt8} (h : (e, c) ∈ shortEscapes) : WritesEscape [c] [e]
  | unicode {c : Char} {ds : List UInt8} (hds : WritesHex c.toNat ds) :
      WritesEscape (String.utf8EncodeChar c) (byte 'u' :: ds)
  | pair {c : Char} {hi lo : List UInt8} (hc : 0x10000 ≤ c.toNat)
      (hhi : WritesHex (0xD800 + (c.toNat - 0x10000) / 0x400) hi)
      (hlo : WritesHex (0xDC00 + (c.toNat - 0x10000) % 0x400) lo) :
      WritesEscape (String.utf8EncodeChar c) (byte 'u' :: (hi ++ byte '\\' :: byte 'u' :: lo))

/-- The characters between the quotes for the bytes of a string. -/
inductive WritesBody : List UInt8 → List UInt8 → Prop
  | nil : WritesBody [] []
  | raw {c : UInt8} {s t : List UInt8} (hquote : c ≠ byte '"') (hslash : c ≠ byte '\\')
      (hctrl : ¬ c < 0x20) (h : WritesBody s t) : WritesBody (c :: s) (c :: t)
  | escape {encoded e s t : List UInt8} (he : WritesEscape encoded e) (h : WritesBody s t) :
      WritesBody (encoded ++ s) (byte '\\' :: (e ++ t))

section Strings

theorem simpleEscape_short {e c : UInt8} (h : (e, c) ∈ shortEscapes) :
    simpleEscape e = some c := by
  have hall : shortEscapes.all (fun p => simpleEscape p.1 == some p.2) = true := by decide
  exact eq_of_beq (List.all_eq_true.mp hall _ h)

theorem hexDigit_writes {n : Nat} {c : UInt8} (h : WritesDigit n c) : hexDigit c = some n := by
  have hlower : ∀ n < 16, hexDigit (byte n.digitChar) = some n := by decide +kernel
  have hupper : ∀ n < 16, hexDigit (byte n.digitChar.toUpper) = some n := by decide +kernel
  cases h with
  | lower h => exact hlower n h
  | upper h => exact hupper n h

theorem isHex4_writes {v : Nat} {ds : List UInt8} (h : WritesHex v ds) :
    IsHex4 ds ∧ hexValue ds = v := by
  cases h with
  | mk h₀ h₁ h₂ h₃ =>
      have h₀ := hexDigit_writes h₀
      have h₁ := hexDigit_writes h₁
      have h₂ := hexDigit_writes h₂
      have h₃ := hexDigit_writes h₃
      refine ⟨⟨rfl, ?_⟩, ?_⟩
      · simp [h₀, h₁, h₂, h₃]
      · simp [hexValue, h₀, h₁, h₂, h₃]

theorem or_mask {v : Nat} (i a : Nat) (h : v < 2 ^ i) :
    2 ^ i * a ||| v = v % 2 ^ i + 2 ^ i * a := by
  rw [← Nat.two_pow_add_eq_or_of_lt h, Nat.mod_eq_of_lt h, Nat.add_comm]

theorem tail_byte (v : Nat) : 0x80 ||| v &&& 0x3F = v % 0x40 + 0x80 := by
  rw [Nat.and_two_pow_sub_one_eq_mod v 6]
  have hor := or_mask 6 2 (Nat.mod_lt v (show 0 < 2 ^ 6 by omega))
  rwa [Nat.mod_mod] at hor

theorem char_range (c : Char) : c.toNat < 0xD800 ∨ 0xDFFF < c.toNat ∧ c.toNat < 0x110000 :=
  c.valid

/-- The encoder of the parser is UTF-8. -/
theorem utf8Emit_char (c : Char) : utf8Emit c.toNat = String.utf8EncodeChar c := by
  have hrange := char_range c
  have hval : c.val.toNat = c.toNat := rfl
  unfold utf8Emit String.utf8EncodeChar
  simp only [hval, tail_byte, Nat.shiftRight_eq_div_pow, Nat.reducePow]
  split
  · rfl
  · split
    · have hlead : 0xC0 ||| c.toNat / 64 = c.toNat / 64 % 32 + 0xC0 := or_mask 5 6 (by omega)
      rw [hlead]
    · split
      · have hlead : 0xE0 ||| c.toNat / 4096 = c.toNat / 4096 % 16 + 0xE0 :=
          or_mask 4 14 (by omega)
        rw [hlead]
      · have hlead : 0xF0 ||| c.toNat / 262144 = c.toNat / 262144 % 8 + 0xF0 :=
          or_mask 3 30 (by omega)
        rw [hlead]

theorem pairValue_halves {v : Nat} :
    pairValue (0xD800 + v / 0x400) (0xDC00 + v % 0x400) = 0x10000 + v := by
  unfold pairValue
  rw [Nat.add_sub_cancel_left, Nat.add_sub_cancel_left,
    ← Nat.shiftLeft_add_eq_or_of_lt (Nat.mod_lt v (by omega)), Nat.shiftLeft_eq]
  omega

theorem isEscape_writes {encoded e : List UInt8} (h : WritesEscape encoded e) :
    IsEscape e encoded := by
  cases h with
  | short h => exact .letter (simpleEscape_short h)
  | @unicode c ds hds =>
      obtain ⟨hhex, hval⟩ := isHex4_writes hds
      have hrange := char_range c
      rw [← utf8Emit_char, ← hval]
      apply IsEscape.unicode hhex
      · simp [isHighSurrogate, hval]
        omega
      · simp [isLowSurrogate, hval]
        omega
  | @pair c hi lo hc hhi hlo =>
      have hrange := char_range c
      obtain ⟨hhex, hval⟩ := isHex4_writes hhi
      obtain ⟨lhex, lval⟩ := isHex4_writes hlo
      have hcode : pairValue (hexValue hi) (hexValue lo) = c.toNat := by
        rw [hval, lval, pairValue_halves]
        omega
      rw [← utf8Emit_char, ← hcode]
      apply IsEscape.pair hhex lhex
      · simp [isHighSurrogate, hval]
        omega
      · simp [isLowSurrogate, lval]
        omega

theorem isStringBody_writes {s t : List UInt8} (h : WritesBody s t) : IsStringBody t s := by
  induction h with
  | nil => exact .nil
  | raw hquote hslash hctrl _ ih => exact .raw hquote hslash hctrl ih
  | escape he _ ih => exact .escape (isEscape_writes he) ih

end Strings

inductive WritesString : List UInt8 → List UInt8 → Prop
  | mk {s t : List UInt8} (h : WritesBody s t) : WritesString s (byte '"' :: (t ++ [byte '"']))

mutual

/-- The renderings of a document of null, booleans, integers, strings, arrays and
objects. -/
inductive Writes : JsonValue → List UInt8 → Prop
  | null : Writes .null (bytes "null")
  | true : Writes (.boolean true) (bytes "true")
  | false : Writes (.boolean false) (bytes "false")
  | integer {n : Int} (h : n.natAbs ≤ integerLimit) : Writes (.integer n) (decimal n)
  | string {s t : List UInt8} (h : WritesString s t) : Writes (.string s) t
  | emptyArray {w : List UInt8} (hw : Whitespace w) :
      Writes (.array []) (byte '[' :: (w ++ [byte ']']))
  | array {items : List JsonValue} {t : List UInt8} (h : WritesItems items t) :
      Writes (.array items) (byte '[' :: (t ++ [byte ']']))
  | emptyObject {w : List UInt8} (hw : Whitespace w) :
      Writes (.object []) (byte '\x7b' :: (w ++ [byte '\x7d']))
  | object {members : List (List UInt8 × JsonValue)} {t : List UInt8}
      (h : WritesMembers members t) :
      Writes (.object members) (byte '\x7b' :: (t ++ [byte '\x7d']))

inductive WritesItems : List JsonValue → List UInt8 → Prop
  | one {v : JsonValue} {w t w' : List UInt8} (hw : Whitespace w) (hv : Writes v t)
      (hw' : Whitespace w') : WritesItems [v] (w ++ t ++ w')
  | more {v : JsonValue} {items : List JsonValue} {w t w' t' : List UInt8}
      (hw : Whitespace w) (hv : Writes v t) (hw' : Whitespace w')
      (h : WritesItems items t') : WritesItems (v :: items) (w ++ t ++ w' ++ byte ',' :: t')

inductive WritesMember : List UInt8 × JsonValue → List UInt8 → Prop
  | mk {key : List UInt8} {v : JsonValue} {w k w' w'' t : List UInt8} (hw : Whitespace w)
      (hk : WritesString key k) (hw' : Whitespace w') (hw'' : Whitespace w'')
      (hv : Writes v t) : WritesMember (key, v) (w ++ k ++ w' ++ byte ':' :: (w'' ++ t))

inductive WritesMembers : List (List UInt8 × JsonValue) → List UInt8 → Prop
  | one {m : List UInt8 × JsonValue} {t w : List UInt8} (hm : WritesMember m t)
      (hw : Whitespace w) : WritesMembers [m] (t ++ w)
  | more {m : List UInt8 × JsonValue} {members : List (List UInt8 × JsonValue)}
      {t w t' : List UInt8} (hm : WritesMember m t) (hw : Whitespace w)
      (h : WritesMembers members t') : WritesMembers (m :: members) (t ++ w ++ byte ',' :: t')

end

/-- A whole text: a rendering between white space. -/
inductive WritesDocument : JsonValue → List UInt8 → Prop
  | mk {v : JsonValue} {w t w' : List UInt8} (hw : Whitespace w) (hv : Writes v t)
      (hw' : Whitespace w') : WritesDocument v (w ++ t ++ w')

theorem isString_writes {s t : List UInt8} (h : WritesString s t) : IsString t s := by
  cases h with
  | mk h => exact .mk (isStringBody_writes h)

mutual

theorem isValue_writes {v : JsonValue} {t : List UInt8} : Writes v t → IsValue t v
  | .null => .nullLit
  | .true => .trueLit
  | .false => .falseLit
  | .integer h => .number (isNumber_decimal h)
  | .string h => .string (isString_writes h)
  | .emptyArray hw => .emptyArray hw
  | .array h => .array (isItems_writes h)
  | .emptyObject hw => .emptyObject hw
  | .object h => .object (isMembers_writes h)

theorem isItems_writes {items : List JsonValue} {t : List UInt8} :
    WritesItems items t → IsItems t items
  | .one hw hv hw' => .one hw (isValue_writes hv) hw'
  | .more hw hv hw' h => .more hw (isValue_writes hv) hw' (isItems_writes h)

theorem isMember_writes {m : List UInt8 × JsonValue} {t : List UInt8} :
    WritesMember m t → IsMember t m
  | .mk hw hk hw' hw'' hv => .mk hw (isString_writes hk) hw' hw'' (isValue_writes hv)

theorem isMembers_writes {members : List (List UInt8 × JsonValue)} {t : List UInt8} :
    WritesMembers members t → IsMembers t members
  | .one hm hw => .one (isMember_writes hm) hw
  | .more hm hw h => .more (isMember_writes hm) hw (isMembers_writes h)

end

theorem isDocument_writes {v : JsonValue} {t : List UInt8} (h : WritesDocument v t) :
    IsDocument t v := by
  cases h with
  | mk hw hv hw' => exact .mk hw (isValue_writes hv) hw'

/-- The documents with a rendering. -/
inductive Printable : JsonValue → Prop
  | null : Printable .null
  | boolean (b : Bool) : Printable (.boolean b)
  | integer {n : Int} (h : n.natAbs ≤ integerLimit) : Printable (.integer n)
  | string (s : List UInt8) : Printable (.string s)
  | array {items : List JsonValue} (h : ∀ v ∈ items, Printable v) : Printable (.array items)
  | object {members : List (List UInt8 × JsonValue)} (h : ∀ m ∈ members, Printable m.2) :
      Printable (.object members)

theorem writesHex_control {n : Nat} (h : n < 0x20) : ∃ ds, WritesHex n ds := by
  have hsum : ((0 * 16 + 0) * 16 + n / 16) * 16 + n % 16 = n := by omega
  rw [← hsum]
  exact ⟨_, .mk (.lower (by omega)) (.lower (by omega)) (.lower (by omega))
    (.lower (by omega))⟩

theorem writesEscape_control {c : UInt8} (h : c < 0x20) : ∃ e, WritesEscape [c] e := by
  have hlt : c.toNat < 0x20 := UInt8.lt_iff_toNat_lt.mp h
  have hchar : ∀ n < 0x20, String.utf8EncodeChar (Char.ofNat n) = [UInt8.ofNat n] ∧
      (Char.ofNat n).toNat = n := by decide
  obtain ⟨hencode, hcode⟩ := hchar c.toNat hlt
  obtain ⟨ds, hds⟩ := writesHex_control hlt
  rw [UInt8.ofNat_toNat] at hencode
  rw [← hcode] at hds
  rw [← hencode]
  exact ⟨_, .unicode hds⟩

theorem exists_writesString (s : List UInt8) : ∃ t, WritesString s t := by
  have hbody : ∃ t, WritesBody s t := by
    induction s with
    | nil => exact ⟨_, .nil⟩
    | cons c s ih =>
        obtain ⟨t, ht⟩ := ih
        by_cases hescape : ∃ e, WritesEscape [c] e
        · obtain ⟨e, he⟩ := hescape
          exact ⟨_, .escape he ht⟩
        · refine ⟨_, .raw ?_ ?_ ?_ ht⟩
          · rintro rfl
            exact hescape ⟨_, .short (List.mem_cons_self ..)⟩
          · rintro rfl
            exact hescape ⟨_, .short (List.mem_cons_of_mem _ (List.mem_cons_self ..))⟩
          · intro hctrl
            exact hescape (writesEscape_control hctrl)
  obtain ⟨t, ht⟩ := hbody
  exact ⟨_, .mk ht⟩

theorem exists_writesItems {v : JsonValue} {items : List JsonValue}
    (h : ∀ u ∈ v :: items, ∃ t, Writes u t) : ∃ t, WritesItems (v :: items) t := by
  induction items generalizing v with
  | nil =>
      obtain ⟨t, ht⟩ := h v (by simp)
      exact ⟨_, .one .nil ht .nil⟩
  | cons u items ih =>
      obtain ⟨t, ht⟩ := h v (by simp)
      obtain ⟨t', ht'⟩ := ih fun w hw => h w (List.mem_cons_of_mem _ hw)
      exact ⟨_, .more .nil ht .nil ht'⟩

theorem exists_writesMembers {m : List UInt8 × JsonValue}
    {members : List (List UInt8 × JsonValue)} (h : ∀ u ∈ m :: members, ∃ t, Writes u.2 t) :
    ∃ t, WritesMembers (m :: members) t := by
  have hmember : ∀ u ∈ m :: members, ∃ t, WritesMember u t := by
    intro u hu
    obtain ⟨t, ht⟩ := h u hu
    obtain ⟨k, hk⟩ := exists_writesString u.1
    exact ⟨_, .mk .nil hk .nil .nil ht⟩
  clear h
  induction members generalizing m with
  | nil =>
      obtain ⟨t, ht⟩ := hmember m (by simp)
      exact ⟨_, .one ht .nil⟩
  | cons u members ih =>
      obtain ⟨t, ht⟩ := hmember m (by simp)
      obtain ⟨t', ht'⟩ := ih fun w hw => hmember w (List.mem_cons_of_mem _ hw)
      exact ⟨_, .more ht .nil ht'⟩

/-- A byte that may stand in a string as it is. -/
def isPlain (c : UInt8) : Bool := c ≠ byte '"' ∧ c ≠ byte '\\' ∧ ¬ c < 0x20

theorem writesString_plain {s : List UInt8} (h : s.all isPlain = true) :
    WritesString s (byte '"' :: (s ++ [byte '"'])) := by
  have hbody : WritesBody s s := by
    induction s with
    | nil => exact .nil
    | cons c s ih =>
        rw [List.all_cons, Bool.and_eq_true] at h
        have hc : c ≠ byte '"' ∧ c ≠ byte '\\' ∧ ¬ c < 0x20 := by simpa [isPlain] using h.1
        exact .raw hc.1 hc.2.1 hc.2.2 (ih h.2)
  exact .mk hbody

/-- No document is left without a text. -/
theorem Printable.writes {v : JsonValue} (h : Printable v) : ∃ t, Writes v t := by
  induction h with
  | null => exact ⟨_, .null⟩
  | boolean b =>
      cases b with
      | true => exact ⟨_, .true⟩
      | false => exact ⟨_, .false⟩
  | integer h => exact ⟨_, .integer h⟩
  | string s =>
      obtain ⟨t, ht⟩ := exists_writesString s
      exact ⟨_, .string ht⟩
  | @array items _ ih =>
      cases items with
      | nil => exact ⟨_, .emptyArray .nil⟩
      | cons v items =>
          obtain ⟨t, ht⟩ := exists_writesItems ih
          exact ⟨_, .array ht⟩
  | @object members _ ih =>
      cases members with
      | nil => exact ⟨_, .emptyObject .nil⟩
      | cons m members =>
          obtain ⟨t, ht⟩ := exists_writesMembers ih
          exact ⟨_, .object ht⟩

theorem isDocument_ne_nil {v : JsonValue} {t : List UInt8} (h : IsDocument t v) :
    1 ≤ t.length := by
  cases h with
  | mk hw hv hw' =>
      obtain ⟨c, t, rfl, _⟩ := hv.starts
      simp only [List.length_append, List.length_cons]
      omega

/-- Printing and parsing: whatever escapes and white space a rendering uses, the parser
answers with the document that was rendered. -/
theorem hbiJsonParse_writes {grant : Nat → Bool} {h : BlockHeap} {text : List UInt8}
    {v : JsonValue} (outRoot : Option JsonNode) (hw : WritesDocument v text)
    (hnest : v.nesting < hbiJsonMaxDepth) (hcap : text.length ≤ hbiJsonMaxBytes)
    (hgrant : ∀ n, grant n = true) :
    ∃ h' root, hbiJsonParseDom grant h text outRoot = (h', some ⟨.ok (), some root⟩) ∧
      root.value = v := by
  have hdoc := isDocument_writes hw
  have hpos := isDocument_ne_nil hdoc
  exact hbiJsonParseDom_granted hgrant hpos hcap (hbiJsonParse_of_document hpos hcap hdoc hnest)

/-- An array of a negative number and of a code point behind two surrogates, with blanks. -/
theorem writes_sample :
    WritesDocument (.array [.integer (-7), .string (String.utf8EncodeChar '😀')])
      (bytes "[ -7 , \"\\ud83d\\uDE00\"] ") := by
  have hhi : WritesHex (0xD800 + ('😀'.toNat - 0x10000) / 0x400) (bytes "d83d") :=
    @WritesHex.mk 13 8 3 13 _ _ _ _ (.lower (by decide)) (.lower (by decide))
      (.lower (by decide)) (.lower (by decide))
  have hlo : WritesHex (0xDC00 + ('😀'.toNat - 0x10000) % 0x400) (bytes "DE00") :=
    @WritesHex.mk 13 14 0 0 _ _ _ _ (.upper (by decide)) (.upper (by decide))
      (.lower (by decide)) (.lower (by decide))
  have hbody : WritesBody (String.utf8EncodeChar '😀') (bytes "\\ud83d\\uDE00") :=
    .escape (.pair (by decide) hhi hlo) .nil
  have hblank : Whitespace (bytes " ") := by
    unfold Whitespace
    decide +kernel
  have hnumber : Writes (.integer (-7)) (bytes "-7") := .integer (by decide)
  have hitems : WritesItems [.integer (-7), .string (String.utf8EncodeChar '😀')]
      (bytes " -7 , \"\\ud83d\\uDE00\"") :=
    .more hblank hnumber hblank (.one hblank (.string (.mk hbody)) .nil)
  exact .mk .nil (.array hitems) hblank

theorem hbiJsonParse_writes_sample :
    ∃ h' root, hbiJsonParseDom (fun _ => true) ⟨⟨[], 0⟩, 0⟩ (bytes "[ -7 , \"\\ud83d\\uDE00\"] ")
        none = (h', some ⟨.ok (), some root⟩) ∧
      root.value = .array [.integer (-7), .string (String.utf8EncodeChar '😀')] :=
  hbiJsonParse_writes none writes_sample (by decide) (by decide) fun _ => rfl

end Hummingbird

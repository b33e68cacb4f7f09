import Hummingbird.Json.Parser

/-!
The grammar of the header comment of the parser, over bytes and without a cursor.
White space may stand around every token; strings and numbers are given by what they
decode to. A text of the grammar carries the document it denotes, items and members
in the order they are written.
-/

namespace Hummingbird

def Whitespace (s : List UInt8) : Prop := ∀ c ∈ s, isWs c = true

/-- Four hexadecimal digits. -/
structure IsHex4 (s : List UInt8) : Prop where
  length_eq : s.length = 4
  digits : ∀ c ∈ s, (hexDigit c).isSome = true

/-- An escape behind its backslash, and the bytes it stands for. -/
inductive IsEscape : List UInt8 → List UInt8 → Prop
  | letter {e c : UInt8} (h : simpleEscape e = some c) : IsEscape [e] [c]
  | unicode {ds : List UInt8} (hds : IsHex4 ds)
      (hhigh : isHighSurrogate (hexValue ds) = false)
      (hlow : isLowSurrogate (hexValue ds) = false) :
      IsEscape (byte 'u' :: ds) (utf8Emit (hexValue ds))
  | pair {hi lo : List UInt8} (hhi : IsHex4 hi) (hlo : IsHex4 lo)
      (hhigh : isHighSurrogate (hexValue hi) = true)
      (hlow : isLowSurrogate (hexValue lo) = true) :
      IsEscape (byte 'u' :: (hi ++ byte '\\' :: byte 'u' :: lo))
        (utf8Emit (pairValue (hexValue hi) (hexValue lo)))

/-- The characters between the quotes, and the bytes they stand for. -/
inductive IsStringBody : List UInt8 → List UInt8 → Prop
  | nil : IsStringBody [] []
  | raw {c : UInt8} {s out : List UInt8} (hquote : c ≠ byte '"') (hslash : c ≠ byte '\\')
      (hctrl : ¬ c < 0x20) (h : IsStringBody s out) : IsStringBody (c :: s) (c :: out)
  | escape {e decoded s out : List UInt8} (he : IsEscape e decoded)
      (h : IsStringBody s out) : IsStringBody (byte '\\' :: (e ++ s)) (decoded ++ out)

inductive IsString : List UInt8 → List UInt8 → Prop
  | mk {body out : List UInt8} (h : IsStringBody body out) :
      IsString (byte '"' :: (body ++ [byte '"'])) out

/-- A number of the scanner: it starts with a minus or a digit, has only bytes of
numbers, fits the conversion buffer and is converted as a whole. -/
structure IsNumber (s : List UInt8) (d : Rounding.Number) : Prop where
  starts : ∃ c t, s = c :: t ∧ (c = byte '-' ∨ isDigit c = true)
  chars : ∀ c ∈ s, isNumberByte c = true
  length_lt : s.length < numberBuffer
  converted : strtod s = (d, s.length)

mutual

inductive IsValue : List UInt8 → JsonValue → Prop
  | nullLit : IsValue (bytes "null") .null
  | trueLit : IsValue (bytes "true") (.boolean true)
  | falseLit : IsValue (bytes "false") (.boolean false)
  | number {s : List UInt8} {d : Rounding.Number} (h : IsNumber s d) : IsValue s (.number d)
  | string {s out : List UInt8} (h : IsString s out) : IsValue s (.string out)
  | emptyArray {w : List UInt8} (hw : Whitespace w) :
      IsValue (byte '[' :: (w ++ [byte ']'])) (.array [])
  | array {s : List UInt8} {items : List JsonValue} (h : IsItems s items) :
      IsValue (byte '[' :: (s ++ [byte ']'])) (.array items)
  | emptyObject {w : List UInt8} (hw : Whitespace w) :
      IsValue (byte '\x7b' :: (w ++ [byte '\x7d'])) (.object [])
  | object {s : List UInt8} {members : List (List UInt8 × JsonValue)}
      (h : IsMembers s members) :
      IsValue (byte '\x7b' :: (s ++ [byte '\x7d'])) (.object members)

/-- One or more values with commas between them. -/
inductive IsItems : List UInt8 → List JsonValue → Prop
  | one {w s w' : List UInt8} {v : JsonValue} (hw : Whitespace w) (hv : IsValue s v)
      (hw' : Whitespace w') : IsItems (w ++ s ++ w') [v]
  | more {w s w' s' : List UInt8} {v : JsonValue} {items : List JsonValue}
      (hw : Whitespace w) (hv : IsValue s v) (hw' : Whitespace w') (h : IsItems s' items) :
      IsItems (w ++ s ++ w' ++ byte ',' :: s') (v :: items)

/-- A key and its value. -/
inductive IsMember : List UInt8 → List UInt8 × JsonValue → Prop
  | mk {w k key w' w'' s : List UInt8} {v : JsonValue} (hw : Whitespace w)
      (hk : IsString k key) (hw' : Whitespace w') (hw'' : Whitespace w'') (hv : IsValue s v) :
      IsMember (w ++ k ++ w' ++ byte ':' :: (w'' ++ s)) (key, v)

inductive IsMembers : List UInt8 → List (List UInt8 × JsonValue) → Prop
  | one {s w : List UInt8} {m : List UInt8 × JsonValue} (hm : IsMember s m)
      (hw : Whitespace w) : IsMembers (s ++ w) [m]
  | more {s w s' : List UInt8} {m : List UInt8 × JsonValue}
      {members : List (List UInt8 × JsonValue)} (hm : IsMember s m) (hw : Whitespace w)
      (h : IsMembers s' members) : IsMembers (s ++ w ++ byte ',' :: s') (m :: members)

end

/-- A whole text: a value between white space. -/
inductive IsDocument : List UInt8 → JsonValue → Prop
  | mk {w s w' : List UInt8} {v : JsonValue} (hw : Whitespace w) (hv : IsValue s v)
      (hw' : Whitespace w') : IsDocument (w ++ s ++ w') v

theorem Whitespace.nil : Whitespace [] := by
  simp [Whitespace]

theorem Whitespace.append {s t : List UInt8} (hs : Whitespace s) (ht : Whitespace t) :
    Whitespace (s ++ t) := by
  intro c hc
  rcases List.mem_append.mp hc with h | h
  · exact hs c h
  · exact ht c h

/-- White space in front of items belongs to the first of them. -/
theorem IsItems.pad {w s : List UInt8} {items : List JsonValue} (hw : Whitespace w)
    (h : IsItems s items) : IsItems (w ++ s) items := by
  cases h with
  | one hw₁ hv hw' =>
      simpa using IsItems.one (hw.append hw₁) hv hw'
  | more hw₁ hv hw' hrest =>
      simpa using IsItems.more (hw.append hw₁) hv hw' hrest

theorem IsMember.pad {w s : List UInt8} {m : List UInt8 × JsonValue} (hw : Whitespace w)
    (h : IsMember s m) : IsMember (w ++ s) m := by
  cases h with
  | mk hw₁ hk hw' hw'' hv =>
      simpa using IsMember.mk (hw.append hw₁) hk hw' hw'' hv

theorem IsMembers.pad {w s : List UInt8} {members : List (List UInt8 × JsonValue)}
    (hw : Whitespace w) (h : IsMembers s members) : IsMembers (w ++ s) members := by
  cases h with
  | one hm hw' =>
      simpa using IsMembers.one (hm.pad hw) hw'
  | more hm hw' hrest =>
      simpa using IsMembers.more (hm.pad hw) hw' hrest

theorem isWs_cases {c : UInt8} (h : isWs c = true) :
    c = byte ' ' ∨ c = byte '\t' ∨ c = byte '\n' ∨ c = byte '\r' := by
  simpa [isWs, or_assoc] using h

/-- No byte of a number is white space. -/
theorem isWs_of_isNumberByte {c : UInt8} (h : isNumberByte c = true) : isWs c = false := by
  by_contra hws
  rcases isWs_cases (by simpa using hws) with rfl | rfl | rfl | rfl
  · exact absurd h (by decide)
  · exact absurd h (by decide)
  · exact absurd h (by decide)
  · exact absurd h (by decide)

theorem IsNumber.first {s : List UInt8} {d : Rounding.Number} (h : IsNumber s d) :
    ∃ c t, s = c :: t ∧ isNumberByte c = true ∧ (c = byte '-' ∨ isDigit c = true) := by
  obtain ⟨c, t, hs, hc⟩ := h.starts
  exact ⟨c, t, hs, h.chars c (by simp [hs]), hc⟩

theorem IsString.starts {s out : List UInt8} (h : IsString s out) :
    ∃ t, s = byte '"' :: t := by
  cases h with
  | mk hbody => exact ⟨_, rfl⟩

/-- A value has a first byte. It is not white space and does not close an array. -/
theorem IsValue.starts {s : List UInt8} {v : JsonValue} (h : IsValue s v) :
    ∃ c t, s = c :: t ∧ isWs c = false ∧ c ≠ byte ']' := by
  cases h with
  | nullLit => exact ⟨_, _, rfl, by decide, by decide⟩
  | trueLit => exact ⟨_, _, rfl, by decide, by decide⟩
  | falseLit => exact ⟨_, _, rfl, by decide, by decide⟩
  | number h =>
      obtain ⟨c, t, hs, hc, _⟩ := h.first
      refine ⟨c, t, hs, isWs_of_isNumberByte hc, ?_⟩
      rintro rfl
      exact absurd hc (by decide)
  | string h =>
      obtain ⟨t, ht⟩ := h.starts
      exact ⟨_, t, ht, by decide, by decide⟩
  | emptyArray => exact ⟨_, _, rfl, by decide, by decide⟩
  | array => exact ⟨_, _, rfl, by decide, by decide⟩
  | emptyObject => exact ⟨_, _, rfl, by decide, by decide⟩
  | object => exact ⟨_, _, rfl, by decide, by decide⟩

end Hummingbird

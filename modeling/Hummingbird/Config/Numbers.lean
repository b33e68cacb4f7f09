import Hummingbird.Config.Store
import Hummingbird.Adapter.Numerals

/-!
The numbers of a configuration. A text for a number is one that the C library reads to its end,
and the C library answers the nearest number of its type to one that is too large for it, and
negates behind a minus sign what it reads as unsigned.
-/

namespace Hummingbird

/-- The number with a sign, as `strtoull` answers it. -/
def wrappedNumber (sign : NumeralSign) (magnitude : Nat) : Nat :=
  if magnitude ≥ sizeTSize then sizeTSize - 1
  else if sign = .minus then (sizeTSize - magnitude) % sizeTSize
  else magnitude

theorem strtoull_reads (s : List Char) (sign : NumeralSign) (body : List Char)
    (h : SignSplit (s.dropWhile isSpaceC) sign body) :
    strtoull s = readDigits 0 wrappedNumber s sign body := by
  unfold strtoull readDigits wrappedNumber
  simp only [Nat.ofDigitChars_eq_foldl, h.text_eq]
  cases sign with
  | minus => simp [NumeralSign.text]
  | plus => simp [NumeralSign.text]
  | none =>
      obtain ⟨hminus, hplus⟩ := h.unsigned rfl
      cases body with
      | nil => rfl
      | cons c cs =>
          simp only [List.head?_cons, ne_eq, Option.some.injEq] at hminus hplus
          simp [NumeralSign.text, hminus, hplus]

/-- `strtoull` reads a whole text exactly when that is a numeral. -/
theorem strtoull_whole_iff {s : List Char} {v : Nat} :
    strtoull s = (v, []) ∧ s ≠ [] ↔
      ∃ n : Numeral, n.text = s ∧ v = wrappedNumber n.sign n.magnitude :=
  reads_whole_iff strtoull_reads

/-- What is stored for a text is the number it is, and an `int64_t`. -/
def IntExact (text : List Char) (r : Result ConfigEntry) : Prop :=
  ∀ e, r = .ok e → ∃ n : Numeral, n.text = text ∧ (int64Min ≤ n.number ∧ n.number ≤ int64Max) ∧
    e.value = .int n.number

/-- What is stored for a text is the number it is, and a `uint64_t`. -/
def UintExact (text : List Char) (r : Result ConfigEntry) : Prop :=
  ∀ e, r = .ok e → ∃ n : Numeral, n.text = text ∧ (0 ≤ n.number ∧ n.number < sizeTSize) ∧
    e.value = .uint n.number.toNat

/-- The clamped value is the number only inside the range. -/
theorem Numeral.value_eq_number_iff (n : Numeral) :
    n.value = n.number ↔ int64Min ≤ n.number ∧ n.number ≤ int64Max := by
  rw [n.value_eq]
  unfold longMin longMax int64Min int64Max
  omega

/-- The wrapped one as well, but for zero behind a minus sign. -/
theorem Numeral.wrappedNumber_eq_iff (n : Numeral) :
    (wrappedNumber n.sign n.magnitude : Int) = n.number ↔ 0 ≤ n.number ∧ n.number < sizeTSize := by
  unfold wrappedNumber Numeral.number
  by_cases hsign : n.sign = .minus
  · rw [if_pos hsign, if_pos hsign]
    split
    · unfold sizeTSize at *
      omega
    · unfold sizeTSize at *
      omega
  · rw [if_neg hsign, if_neg hsign]
    split
    · unfold sizeTSize at *
      omega
    · unfold sizeTSize at *
      omega

/-- The end pointer stands at the end of a text that is not empty. -/
theorem whole_iff {text rest : List Char} :
    ¬ (rest = text ∨ rest ≠ []) ↔ rest = [] ∧ text ≠ [] := by
  constructor
  · intro h
    obtain rfl : rest = [] := by
      by_contra hne
      exact h (Or.inr hne)
    exact ⟨rfl, fun htext => h (Or.inl htext.symm)⟩
  · rintro ⟨rfl, htext⟩ (h | h)
    · exact htext h.symm
    · exact h rfl

section Assign

variable {e e' : ConfigEntry} {text : List Char} {src : ConfigSource} {allocated : Bool}

/-- An entry without bounds takes what `strtoll` reads from the whole text. -/
theorem assignFromText_int (htype : e.desc.type = .int) (hmin : e.desc.minInt = 0)
    (hmax : e.desc.maxInt = 0) : assignFromText e text src allocated = .ok e' ↔
      ∃ n : Numeral, n.text = text ∧ { e with value := .int n.value, source := src } = e' := by
  have hrange : ∀ v, ¬ e.desc.IntOutOfRange v := fun v h => h.1 ⟨hmin, hmax⟩
  unfold assignFromText setInt
  simp only [htype]
  cases hread : strtol text with
  | mk v rest =>
      rw [Result.ite_errSet_eq_ok, whole_iff, if_neg (hrange v), Except.ok.injEq]
      constructor
      · rintro ⟨⟨rfl, htext⟩, rfl⟩
        obtain ⟨n, hn, rfl⟩ := strtol_whole_iff.mp ⟨hread, htext⟩
        exact ⟨n, hn, rfl⟩
      · rintro ⟨n, hn, rfl⟩
        obtain ⟨hwhole, htext⟩ := strtol_whole_iff.mpr ⟨n, hn, rfl⟩
        rw [hread] at hwhole
        obtain ⟨rfl, rfl⟩ := Prod.mk.inj hwhole
        exact ⟨⟨rfl, htext⟩, rfl⟩

/-- An entry without bounds takes what `strtoull` reads from the whole text, unless that begins
with a minus sign. -/
theorem assignFromText_uint (htype : e.desc.type = .uint) (hmin : e.desc.minUint = 0)
    (hmax : e.desc.maxUint = 0) : assignFromText e text src allocated = .ok e' ↔
      text.head? ≠ some '-' ∧ ∃ n : Numeral, n.text = text ∧
        { e with value := .uint (wrappedNumber n.sign n.magnitude), source := src } = e' := by
  have hrange : ∀ v, ¬ e.desc.UintOutOfRange v := fun v h => h.1 ⟨hmin, hmax⟩
  unfold assignFromText setUint
  simp only [htype]
  cases hread : strtoull text with
  | mk v rest =>
      rw [Result.ite_errSet_eq_ok, Result.ite_errSet_eq_ok, whole_iff, if_neg (hrange v),
        Except.ok.injEq]
      refine and_congr_right fun _ => ?_
      constructor
      · rintro ⟨⟨rfl, htext⟩, rfl⟩
        obtain ⟨n, hn, rfl⟩ := strtoull_whole_iff.mp ⟨hread, htext⟩
        exact ⟨n, hn, rfl⟩
      · rintro ⟨n, hn, rfl⟩
        obtain ⟨hwhole, htext⟩ := strtoull_whole_iff.mpr ⟨n, hn, rfl⟩
        rw [hread] at hwhole
        obtain ⟨rfl, rfl⟩ := Prod.mk.inj hwhole
        exact ⟨⟨rfl, htext⟩, rfl⟩

theorem intExact_iff (htype : e.desc.type = .int) (hmin : e.desc.minInt = 0)
    (hmax : e.desc.maxInt = 0) : IntExact text (assignFromText e text src allocated) ↔
      ∀ n : Numeral, n.text = text → int64Min ≤ n.number ∧ n.number ≤ int64Max := by
  constructor
  · intro h n hn
    obtain ⟨m, hm, hrange, -⟩ := h _ ((assignFromText_int htype hmin hmax).mpr ⟨n, hn, rfl⟩)
    rwa [n.number_eq_of_text (hn.trans hm.symm)]
  · intro h e' he'
    obtain ⟨n, hn, rfl⟩ := (assignFromText_int htype hmin hmax).mp he'
    have hrange := h n hn
    exact ⟨n, hn, hrange, by rw [n.value_eq_number_iff.mpr hrange]⟩

theorem uintExact_iff (htype : e.desc.type = .uint) (hmin : e.desc.minUint = 0)
    (hmax : e.desc.maxUint = 0) : UintExact text (assignFromText e text src allocated) ↔
      text.head? = some '-' ∨
        ∀ n : Numeral, n.text = text → 0 ≤ n.number ∧ n.number < sizeTSize := by
  constructor
  · intro h
    by_cases hhead : text.head? = some '-'
    · exact Or.inl hhead
    · right
      intro n hn
      obtain ⟨m, hm, hrange, -⟩ :=
        h _ ((assignFromText_uint htype hmin hmax).mpr ⟨hhead, n, hn, rfl⟩)
      rwa [n.number_eq_of_text (hn.trans hm.symm)]
  · intro h e' he'
    obtain ⟨hhead, n, hn, rfl⟩ := (assignFromText_uint htype hmin hmax).mp he'
    have hrange := (h.resolve_left hhead) n hn
    refine ⟨n, hn, hrange, ?_⟩
    rw [← n.wrappedNumber_eq_iff.mpr hrange, Int.toNat_natCast]

end Assign

/-- What is stored for an entry without bounds is the number of the text exactly when that
number, if the text is one, is in the range of the type; an unsigned entry refuses the texts
that begin with a minus sign. -/
theorem config_numbers_exact_iff (e : ConfigEntry) (text : List Char) (src : ConfigSource)
    (allocated : Bool) :
    (e.desc.type = .int → e.desc.minInt = 0 → e.desc.maxInt = 0 →
      (IntExact text (assignFromText e text src allocated) ↔
        ∀ n : Numeral, n.text = text → int64Min ≤ n.number ∧ n.number ≤ int64Max)) ∧
    (e.desc.type = .uint → e.desc.minUint = 0 → e.desc.maxUint = 0 →
      (UintExact text (assignFromText e text src allocated) ↔
        text.head? = some '-' ∨
          ∀ n : Numeral, n.text = text → 0 ≤ n.number ∧ n.number < sizeTSize)) :=
  ⟨intExact_iff, uintExact_iff⟩

/-- An entry of either type without bounds. -/
def freeEntry (type : ConfigType) : ConfigEntry :=
  ⟨⟨"n".toList, type, none, false, 0, 0, none, 0, 0, 0, 0⟩, .default,
    ConfigDesc.initial ⟨"n".toList, type, none, false, 0, 0, none, 0, 0, 0, 0⟩⟩

def minusSeven : Numeral where
  spaces := []
  sign := .minus
  digits := ['7']
  spaces_isSpace := Numeral.noSpaces
  digits_ne_nil := List.ne_nil_of_length_pos (by decide)
  digits_isDigit := List.all_eq_true.mp (by decide)

theorem config_numbers_exact_seven :
    IntExact minusSeven.text (assignFromText (freeEntry .int) minusSeven.text .set true) ∧
    UintExact minusSeven.text (assignFromText (freeEntry .uint) minusSeven.text .set true) := by
  constructor
  · refine ((config_numbers_exact_iff (freeEntry .int) minusSeven.text .set true).1
      rfl rfl rfl).mpr ?_
    intro n hn
    rw [Numeral.number_eq_of_text hn]
    decide +kernel
  · exact ((config_numbers_exact_iff (freeEntry .uint) minusSeven.text .set true).2
      rfl rfl rfl).mpr (Or.inl (by decide))

/-- `-1` behind a space. -/
def spacedMinusOne : Numeral where
  spaces := [' ']
  sign := .minus
  digits := ['1']
  spaces_isSpace := List.all_eq_true.mp (by decide)
  digits_ne_nil := List.ne_nil_of_length_pos (by decide)
  digits_isDigit := List.all_eq_true.mp (by decide)

/-- `2 ^ 63`. -/
def pastInt64 : Numeral where
  spaces := []
  sign := .none
  digits := "9223372036854775808".toList
  spaces_isSpace := Numeral.noSpaces
  digits_ne_nil := List.ne_nil_of_length_pos (by decide)
  digits_isDigit := List.all_eq_true.mp (by decide)

/-- A number past the range is stored as the largest one, and `-1` behind a space as the largest
unsigned one. -/
theorem config_numbers_saturate :
    hbiConfigApplyKv ⟨[freeEntry .int]⟩ "n".toList pastInt64.text true =
        (⟨[{ freeEntry .int with value := .int int64Max, source := .set }]⟩, .ok ()) ∧
      ¬ IntExact pastInt64.text (assignFromText (freeEntry .int) pastInt64.text .set true) ∧
      hbiConfigApplyKv ⟨[freeEntry .uint]⟩ "n".toList spacedMinusOne.text true =
        (⟨[{ freeEntry .uint with value := .uint (sizeTSize - 1), source := .set }]⟩, .ok ()) ∧
      ¬ UintExact spacedMinusOne.text
        (assignFromText (freeEntry .uint) spacedMinusOne.text .set true) := by
  refine ⟨by decide +kernel, ?_, by decide +kernel, ?_⟩
  · rw [intExact_iff rfl rfl rfl]
    intro h
    exact absurd (h pastInt64 rfl).2 (by decide +kernel)
  · rw [uintExact_iff rfl rfl rfl]
    rintro (h | h)
    · exact absurd h (by decide)
    · exact absurd (h spacedMinusOne rfl).1 (by decide +kernel)

end Hummingbird

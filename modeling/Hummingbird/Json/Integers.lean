import Hummingbird.Json.Access
import Hummingbird.Json.Complete

/-!
Integer literals through the double they are stored as. The literal is rounded once, when it is
scanned; the accessor hands out the integer that the double is, when that is an `int64_t`.
-/

namespace Hummingbird

/-- A decimal literal: a minus or no sign, and digits. -/
structure IntegerLiteral where
  negative : Bool
  digits : List UInt8
  isDigit : ∀ c ∈ digits, isDigit c = true
  digits_ne : digits ≠ []

namespace IntegerLiteral

def text (l : IntegerLiteral) : List UInt8 := (if l.negative then [byte '-'] else []) ++ l.digits

def value (l : IntegerLiteral) : Int :=
  if l.negative then -(decimalValue l.digits : Int) else decimalValue l.digits

/-- The double nearest to the literal. -/
def nearest (l : IntegerLiteral) : Rounding.Number :=
  Rounding.binary64.round l.negative (decimalValue l.digits)

variable (l : IntegerLiteral)

theorem natAbs_value : l.value.natAbs = decimalValue l.digits := by
  unfold value
  split <;> simp

theorem strtod_text : strtod l.text = (l.nearest, l.text.length) := by
  unfold text nearest
  cases hneg : l.negative with
  | false =>
      obtain ⟨hsign, hminus⟩ := signLength_digits l.isDigit
      have hread := @strtod_whole [] l.digits hsign l.isDigit l.digits_ne
      rw [List.nil_append, hminus] at hread
      simpa using hread
  | true => exact @strtod_whole [byte '-'] l.digits rfl l.isDigit l.digits_ne

theorem isNumber (hlen : l.text.length ≤ 63) : IsNumber l.text l.nearest := by
  refine ⟨?_, ?_, by unfold numberBuffer; omega, l.strtod_text⟩
  · unfold text
    cases l.negative with
    | true => exact ⟨_, _, rfl, Or.inl rfl⟩
    | false =>
        obtain ⟨c, t, hct⟩ := List.exists_cons_of_ne_nil l.digits_ne
        exact ⟨c, t, by simpa using hct, Or.inr (l.isDigit c (by simp [hct]))⟩
  · intro c hc
    have hcases : c = byte '-' ∨ Hummingbird.isDigit c = true := by
      unfold text at hc
      rcases List.mem_append.mp hc with hc | hc
      · cases hneg : l.negative with
        | true => exact Or.inl (by simpa [hneg] using hc)
        | false => simp [hneg] at hc
      · exact Or.inr (l.isDigit c hc)
    rcases hcases with rfl | hdigit
    · decide
    · simp [isNumberByte, hdigit]

/-- The literal that `%d` and its relatives print. -/
def ofInt (n : Int) : IntegerLiteral :=
  ⟨n < 0, decimalNat n.natAbs, decimalNat_digits _, decimalNat_ne_nil _⟩

theorem ofInt_text (n : Int) : (ofInt n).text = decimal n := by
  unfold text ofInt decimal
  simp only [decide_eq_true_eq]
  split_ifs
  · rfl
  · rfl

/-- A number of 64 bits is scanned as a whole. -/
theorem isNumber_ofInt {n : Int} (h : n.natAbs < 2 ^ 64) :
    IsNumber (decimal n) (ofInt n).nearest := by
  have hdigits : (decimalNat n.natAbs).length ≤ 20 := by
    unfold decimalNat
    rw [List.length_map, Nat.length_toDigits_le_iff (by omega) (by omega)]
    omega
  have hlen : (ofInt n).text.length ≤ 63 := by
    rw [ofInt_text]
    unfold decimal
    split_ifs
    · rw [List.length_cons]
      omega
    · omega
  rw [← ofInt_text]
  exact (ofInt n).isNumber hlen

/-- Wherever the literal stands, the scanner stores the nearest double. -/
theorem parseNumber_text {buf : List UInt8} {p : JsonParser buf} {t : List UInt8}
    (hlen : l.text.length ≤ 63) (hrest : p.rest = l.text ++ t) (ht : EndsNumber t) :
    ∃ q, parseNumber p = .ok (.number l.nearest, q) ∧ p.Reads l.text q :=
  parseNumber_complete (l.isNumber hlen) ht hrest

/-- The accessor hands out the nearest double when it is an `int64_t`, and nothing else. -/
theorem hbiJsonAsInt_nearest {env : DoubleEnv} {m : Int} :
    hbiJsonAsInt env (some (.number l.nearest)) = .ok m ↔
      l.nearest.trunc = some m ∧ int64Min ≤ m ∧ m ≤ int64Max := by
  rcases Rounding.binary64.round_nat_cases l.negative (decimalValue l.digits) (by decide) with
    hover | ⟨y, hy, hround⟩
  · have hnearest : l.nearest = .infinite l.negative := hover
    rw [hnearest]
    constructor
    · intro h
      unfold hbiJsonAsInt at h
      rw [Result.ite_errSet_eq_ok, Result.ite_errSet_eq_ok] at h
      have hrange := h.2.1
      cases l.negative <;> simp [Rounding.Number.below] at hrange
    · rintro ⟨h, -⟩
      cases h
  · have hnearest : l.nearest = .finite l.negative y := hround
    rw [hnearest]
    exact hbiJsonAsInt_whole hy

/-- The nearest double of a literal is the literal when that is a double. -/
theorem trunc_nearest_iff (hrange : int64Min ≤ l.value ∧ l.value ≤ int64Max) :
    l.nearest.trunc = some l.value ↔ Rounding.binary64.Holds l.value.natAbs := by
  have habs := l.natAbs_value
  constructor
  · intro h
    rcases Rounding.binary64.round_nat_cases l.negative (decimalValue l.digits) (by decide) with
      hover | ⟨y, hy, hround⟩
    · have hnearest : l.nearest = .infinite l.negative := hover
      rw [hnearest] at h
      cases h
    · have hnearest : l.nearest = .finite l.negative y := hround
      rw [hnearest, Rounding.Number.trunc_natCast] at h
      have hvalue := congrArg Int.natAbs (Option.some.inj h)
      have hy' : l.value.natAbs = y := by
        rw [← hvalue]
        split <;> simp
      rwa [hy']
  · intro h
    rw [habs] at h
    have hbound : (decimalValue l.digits : ℚ) < 2 ^ Rounding.binary64.overflow := by
      have hle : decimalValue l.digits ≤ 9223372036854775808 := by
        unfold int64Min int64Max at hrange
        omega
      have hle : (decimalValue l.digits : ℚ) ≤ 2 ^ (63 : Int) := by
        norm_num
        exact_mod_cast hle
      exact lt_of_le_of_lt hle (zpow_lt_zpow_right₀ (by norm_num) (by decide))
    unfold nearest value
    rw [h.round l.negative (by decide) (by decide) hbound, Rounding.Number.trunc_natCast]

end IntegerLiteral

/-- The accessor on a parsed literal: it answers with an integer exactly when the double nearest
to the literal is that integer and an `int64_t`, and with the literal itself exactly when that is
an `int64_t` and a double. -/
theorem json_as_int_nearest {l : IntegerLiteral} (env : DoubleEnv) (hlen : l.text.length ≤ 63) :
    (∀ (buf : List UInt8) (p : JsonParser buf) (t : List UInt8), p.rest = l.text ++ t →
      EndsNumber t → ∃ q, parseNumber p = .ok (.number l.nearest, q)) ∧
    (∀ m, hbiJsonAsInt env (some (.number l.nearest)) = .ok m ↔
      l.nearest.trunc = some m ∧ int64Min ≤ m ∧ m ≤ int64Max) ∧
    (hbiJsonAsInt env (some (.number l.nearest)) = .ok l.value ↔
      (int64Min ≤ l.value ∧ l.value ≤ int64Max) ∧ Rounding.binary64.Holds l.value.natAbs) := by
  refine ⟨?_, fun m => l.hbiJsonAsInt_nearest, ?_⟩
  · intro buf p t hrest ht
    obtain ⟨q, hparse, -⟩ := l.parseNumber_text hlen hrest ht
    exact ⟨q, hparse⟩
  · rw [l.hbiJsonAsInt_nearest]
    constructor
    · rintro ⟨htrunc, hrange⟩
      exact ⟨hrange, (l.trunc_nearest_iff hrange).mp htrunc⟩
    · rintro ⟨hrange, hholds⟩
      exact ⟨(l.trunc_nearest_iff hrange).mpr hholds, hrange⟩

/-- A platform that converts what is out of range to the smallest number. -/
def indefiniteCast : DoubleEnv := ⟨fun _ => "", fun _ => int64Min⟩

/-- A power of two past the precision of a double. -/
def largeLiteral : IntegerLiteral :=
  ⟨true, bytes "4611686018427387904", List.all_eq_true.mp (by decide), by decide⟩

theorem json_as_int_nearest_large :
    largeLiteral.text.length ≤ 63 ∧
      hbiJsonAsInt indefiniteCast (some (.number largeLiteral.nearest)) =
        .ok (-4611686018427387904) := by
  have hlen : largeLiteral.text.length ≤ 63 := by decide
  have hread := (json_as_int_nearest indefiniteCast hlen).2.2
  have hvalue : largeLiteral.value = -4611686018427387904 := by decide
  rw [hvalue] at hread
  exact ⟨hlen, hread.mpr ⟨by decide, 1, 62, by decide, by decide⟩⟩

/-- The first integer that is no double, and the largest `int64_t`. -/
def oddLiteral : IntegerLiteral :=
  ⟨false, bytes "9007199254740993", List.all_eq_true.mp (by decide), by decide⟩

def lastLiteral : IntegerLiteral :=
  ⟨false, bytes "9223372036854775807", List.all_eq_true.mp (by decide), by decide⟩

/-- The first one is read as the integer before it, and for the other the double `2^63` is
converted. -/
theorem json_as_int_inexact :
    (∃ q, parseNumber (JsonParser.start oddLiteral.text) = .ok (.number oddLiteral.nearest, q)) ∧
      oddLiteral.value = 9007199254740993 ∧
      hbiJsonAsInt indefiniteCast (some (.number oddLiteral.nearest)) = .ok 9007199254740992 ∧
      lastLiteral.value = int64Max ∧ lastLiteral.nearest.trunc = some 9223372036854775808 := by
  have hparse := @IntegerLiteral.parseNumber_text oddLiteral _
    (JsonParser.start oddLiteral.text) [] (by decide) (List.append_nil _).symm (by
      intro c hc
      cases hc)
  obtain ⟨q, hq, -⟩ := hparse
  refine ⟨⟨q, hq⟩, by decide, ?_, by decide, by decide +kernel⟩
  exact oddLiteral.hbiJsonAsInt_nearest.mpr ⟨by decide +kernel, by decide, by decide⟩

end Hummingbird

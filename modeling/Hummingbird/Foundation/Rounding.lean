import Mathlib.Tactic
import Mathlib.Data.Int.Log
import Mathlib.Data.Rat.Floor

/-!
Binary floating-point formats as sets of rationals. A format is given by the digits
of its significand, the exponent of its smallest unit in the last place and the
first power of two it cannot hold; rounding is to the nearest number of the format,
ties to the even significand, and to infinity past the largest one.
-/

namespace Rounding

structure Format where
  precision : Nat
  minUlp : Int
  overflow : Int
  deriving DecidableEq, Repr

def binary64 : Format := ⟨53, -1074, 1024⟩

def binary32 : Format := ⟨24, -149, 128⟩

/-- A number of a format: its sign and its magnitude, or an infinity. -/
inductive Number where
  | finite (negative : Bool) (magnitude : ℚ)
  | infinite (negative : Bool)
  deriving DecidableEq

/-- The nearest natural number, the even one of two. -/
def halfEven (x : ℚ) : Nat :=
  let n := ⌊x⌋.toNat
  if x - n < 1 / 2 then n
  else if 1 / 2 < x - n then n + 1
  else n + n % 2

/-- Exponent of the unit in the last place at a positive magnitude. -/
def Format.ulp (f : Format) (x : ℚ) : Int :=
  max (Int.log 2 x + 1 - f.precision) f.minUlp

def Format.round (f : Format) (negative : Bool) (x : ℚ) : Number :=
  let unit : ℚ := 2 ^ f.ulp x
  let magnitude := halfEven (x / unit) * unit
  if 2 ^ f.overflow ≤ magnitude then .infinite negative else .finite negative magnitude

/-- The nearest number of the format to an integer. -/
def Format.ofInt (f : Format) (n : Int) : Number := f.round (n < 0) n.natAbs

def signed (negative : Bool) (x : ℚ) : ℚ := if negative then -x else x

/-- Comparison of values, where the zeros of both signs are equal. -/
def Number.equal : Number → Number → Bool
  | .finite a x, .finite b y => signed a x = signed b y
  | .infinite a, .infinite b => a = b
  | _, _ => false

def Number.below (d : Number) (bound : ℚ) : Bool :=
  match d with
  | .finite negative x => signed negative x < bound
  | .infinite negative => negative

/-- The integer part of a finite number. -/
def Number.trunc : Number → Option Int
  | .finite negative x =>
      let v := signed negative x
      some (if 0 ≤ v then ⌊v⌋ else ⌈v⌉)
  | .infinite _ => none

/-- The product of two numbers of a format. Zero times infinity is none. -/
def Format.mul (f : Format) : Number → Number → Option Number
  | .finite a x, .finite b y => some (f.round (a != b) (x * y))
  | .infinite a, .finite b y => if y = 0 then none else some (.infinite (a != b))
  | .finite a x, .infinite b => if x = 0 then none else some (.infinite (a != b))
  | .infinite a, .infinite b => some (.infinite (a != b))

/-- The number that 32 bits stand for, with eight of them for the exponent. A NaN is none. -/
def ofBits32 (bits : UInt32) : Option Number :=
  let negative : Bool := bits.toNat / 2 ^ 31 = 1
  let exponent : Nat := bits.toNat / 2 ^ 23 % 256
  let fraction : Nat := bits.toNat % 2 ^ 23
  if exponent = 255 then if fraction = 0 then some (.infinite negative) else none
  else if exponent = 0 then some (.finite negative (fraction * 2 ^ (-149 : Int)))
  else some (.finite negative (((2 ^ 23 + fraction : Nat) : ℚ) * 2 ^ ((exponent : Int) - 150)))

theorem halfEven_natCast (n : Nat) : halfEven n = n := by
  unfold halfEven
  simp

/-- A multiple of its own unit below the overflow threshold is its own rounding. -/
theorem Format.round_multiple (f : Format) (negative : Bool) {x : ℚ} {k : Nat}
    (hx : x = k * 2 ^ f.ulp x) (hover : x < 2 ^ f.overflow) :
    f.round negative x = .finite negative x := by
  have hunit : (2 : ℚ) ^ f.ulp x ≠ 0 := zpow_ne_zero _ (by norm_num)
  have hquot : x / 2 ^ f.ulp x = k := by
    rw [div_eq_iff hunit]
    exact hx
  unfold Format.round
  dsimp only
  rw [hquot, halfEven_natCast, ← hx]
  exact if_neg (not_le.mpr hover)

section Whole

variable {f : Format}

/-- The natural numbers that a significand and a power of two make up. -/
def Format.Holds (f : Format) (m : Nat) : Prop := ∃ c k : Nat, c ≤ 2 ^ f.precision ∧ m = c * 2 ^ k

theorem Format.ulp_natCast (m : Nat) :
    f.ulp m = max ((Nat.log 2 m : Int) + 1 - f.precision) f.minUlp := by
  unfold Format.ulp
  rw [Int.log_natCast]

/-- A natural number of the format is a multiple of its own unit. -/
theorem Format.Holds.multiple {m : Nat} (h : f.Holds m) (hprecision : 1 ≤ f.precision)
    (hmin : f.minUlp ≤ 0) : ∃ k : Nat, (m : ℚ) = k * 2 ^ f.ulp m := by
  obtain ⟨c, k, hc, hk⟩ : ∃ c k : Nat, c < 2 ^ f.precision ∧ m = c * 2 ^ k := by
    obtain ⟨c, k, hc, rfl⟩ := h
    rcases Nat.lt_or_eq_of_le hc with hlt | rfl
    · exact ⟨c, k, hlt, rfl⟩
    · refine ⟨2 ^ (f.precision - 1), k + 1, Nat.pow_lt_pow_right (by omega) (by omega), ?_⟩
      rw [← pow_add, ← pow_add]
      congr 1
      omega
  have hle : f.ulp m ≤ k := by
    rw [Format.ulp_natCast]
    rcases Nat.eq_zero_or_pos m with hzero | hpos
    · rw [hzero, Nat.log_zero_right]
      omega
    · have hlt : m < 2 ^ (f.precision + k) := by
        rw [hk, pow_add]
        exact Nat.mul_lt_mul_of_pos_right hc (by positivity)
      have hlog := Nat.log_lt_of_lt_pow (by omega) hlt
      omega
  refine ⟨c * 2 ^ (k - f.ulp m).toNat, ?_⟩
  have hpow : ((2 : ℚ) ^ (k - f.ulp m).toNat) * 2 ^ f.ulp m = 2 ^ k := by
    rw [← zpow_natCast, ← zpow_add₀ (by norm_num), Int.toNat_of_nonneg (by omega),
      Int.sub_add_cancel, zpow_natCast]
  push_cast
  rw [mul_assoc, hpow, hk]
  push_cast
  rfl

theorem Format.Holds.round {m : Nat} (h : f.Holds m) (negative : Bool)
    (hprecision : 1 ≤ f.precision) (hmin : f.minUlp ≤ 0) (hover : (m : ℚ) < 2 ^ f.overflow) :
    f.round negative m = .finite negative m := by
  obtain ⟨k, hk⟩ := h.multiple hprecision hmin
  exact f.round_multiple negative hk hover

/-- Every natural number up to the first power of two past the significand is a number
of the format. -/
theorem Format.round_natCast (f : Format) (negative : Bool) {m : Nat}
    (hm : m ≤ 2 ^ f.precision) (hprecision : 1 ≤ f.precision) (hmin : f.minUlp ≤ 0)
    (hover : (f.precision : Int) < f.overflow) :
    f.round negative m = .finite negative m := by
  have hbelow : (m : ℚ) < 2 ^ f.overflow := by
    have hm' : (m : ℚ) ≤ 2 ^ (f.precision : Int) := by exact_mod_cast hm
    exact lt_of_le_of_lt hm' (zpow_lt_zpow_right₀ (by norm_num) hover)
  exact Format.Holds.round ⟨m, 0, hm, by simp⟩ negative hprecision hmin hbelow

theorem halfEven_le {x : ℚ} {n : Nat} (hpos : 0 ≤ x) (h : x ≤ n) : halfEven x ≤ n := by
  have hfloor : (⌊x⌋.toNat : ℚ) ≤ x := by
    have hnonneg := Int.floor_nonneg.mpr hpos
    have hcast : ((⌊x⌋.toNat : Int) : ℚ) = ⌊x⌋ := by rw [Int.toNat_of_nonneg hnonneg]
    have hle := Int.floor_le x
    push_cast at hcast
    rw [hcast]
    exact hle
  have hbound : ⌊x⌋.toNat ≤ n := by exact_mod_cast hfloor.trans h
  unfold halfEven
  dsimp only
  rcases Nat.lt_or_eq_of_le hbound with hlt | heq
  · split_ifs <;> omega
  · have hzero : x - (⌊x⌋.toNat : ℚ) = 0 := by
      rw [heq] at hfloor ⊢
      linarith
    rw [hzero, if_pos (by norm_num)]
    exact hbound

/-- A natural number is rounded to one that the format holds, or past the last of them. -/
theorem Format.round_nat_cases (f : Format) (negative : Bool) (m : Nat)
    (hmin : f.minUlp ≤ 0) :
    f.round negative m = .infinite negative ∨
      ∃ y : Nat, f.Holds y ∧ f.round negative m = .finite negative y := by
  have hunit : (2 : ℚ) ^ f.ulp m ≠ 0 := zpow_ne_zero _ (by norm_num)
  have hlog := Nat.lt_pow_succ_log_self (b := 2) (by omega) m
  obtain ⟨y, hy, heq⟩ : ∃ y : Nat, f.Holds y ∧
      (halfEven ((m : ℚ) / 2 ^ f.ulp m) : ℚ) * 2 ^ f.ulp m = y := by
    rcases le_or_gt (f.ulp m) 0 with hle | hgt
    · have hpow : ((2 : ℚ) ^ (-f.ulp m).toNat) * 2 ^ f.ulp m = 1 := by
        rw [← zpow_natCast, ← zpow_add₀ (by norm_num)]
        simp [Int.toNat_of_nonneg (show 0 ≤ -f.ulp m by omega)]
      have hquot : (m : ℚ) / 2 ^ f.ulp m = (m * 2 ^ (-f.ulp m).toNat : Nat) := by
        rw [div_eq_iff hunit]
        push_cast
        rw [mul_assoc, hpow, mul_one]
      refine ⟨m, ⟨m, 0, ?_, by simp⟩, ?_⟩
      · rw [Format.ulp_natCast] at hle
        have hexp : Nat.log 2 m + 1 ≤ f.precision := by omega
        exact hlog.le.trans (Nat.pow_le_pow_right (by omega) hexp)
      · rw [hquot, halfEven_natCast, ← hquot, div_mul_cancel₀ _ hunit]
    · have hulp : f.ulp m = (Nat.log 2 m : Int) + 1 - f.precision := by
        rw [Format.ulp_natCast] at hgt ⊢
        omega
      have hle : (m : ℚ) / 2 ^ f.ulp m ≤ (2 ^ f.precision : Nat) := by
        rw [div_le_iff₀ (by positivity)]
        have hexp : (2 : ℚ) ^ f.precision * 2 ^ f.ulp m = 2 ^ (Nat.log 2 m + 1) := by
          rw [hulp, ← zpow_natCast, ← zpow_add₀ (by norm_num), ← zpow_natCast]
          congr 1
          push_cast
          ring
        push_cast
        rw [hexp]
        exact_mod_cast hlog.le
      refine ⟨halfEven ((m : ℚ) / 2 ^ f.ulp m) * 2 ^ (f.ulp m).toNat,
        ⟨_, _, halfEven_le (by positivity) hle, rfl⟩, ?_⟩
      push_cast
      rw [← zpow_natCast, Int.toNat_of_nonneg hgt.le]
  unfold Format.round
  dsimp only
  rw [heq]
  split_ifs
  · exact Or.inl rfl
  · exact Or.inr ⟨y, hy, rfl⟩

end Whole

theorem signed_natAbs (n : Int) : signed (n < 0) n.natAbs = n := by
  unfold signed
  rw [Nat.cast_natAbs]
  by_cases hneg : n < 0
  · rw [if_pos (by simpa using hneg), abs_of_neg hneg, Int.cast_neg, neg_neg]
  · rw [if_neg (by simpa using hneg), abs_of_nonneg (by omega)]

theorem signed_natCast (negative : Bool) (y : Nat) :
    signed negative y = ((if negative then -(y : Int) else y : Int) : ℚ) := by
  cases negative <;> simp [signed]

theorem Number.trunc_natCast (negative : Bool) (y : Nat) :
    (Number.finite negative y).trunc = some (if negative then -(y : Int) else y) := by
  unfold Number.trunc
  simp only [signed_natCast, Int.floor_intCast, Int.ceil_intCast, ite_self]

/-- Between two integers, the integer part stays between them. -/
theorem Number.trunc_bounds {d : Number} {n lo hi : Int} (h : d.trunc = some n) (hpos : 0 < hi)
    (hlo : d.below lo = false) (hhi : d.below hi = true) : lo ≤ n ∧ n < hi := by
  cases d with
  | infinite negative => cases h
  | finite negative x =>
      simp only [Number.below, decide_eq_false_iff_not, not_lt, decide_eq_true_eq] at hlo hhi
      simp only [Number.trunc, Option.some.injEq] at h
      split at h
      · subst h
        exact ⟨Int.le_floor.mpr hlo, Int.floor_lt.mpr hhi⟩
      · rename_i hneg
        subst h
        have hceil : ⌈signed negative x⌉ ≤ 0 := Int.ceil_le.mpr (by push_cast; linarith)
        exact ⟨by exact_mod_cast hlo.trans (Int.le_ceil _), by omega⟩

/-- Without a fraction the bits are those of a power of two. -/
theorem ofBits32_of_exponent {bits : UInt32} {e : Nat} (hbits : bits.toNat = e * 2 ^ 23)
    (hpos : 0 < e) (hlt : e < 255) :
    ofBits32 bits = some (.finite false (2 ^ ((e : Int) - 127))) := by
  have hsign : ¬ bits.toNat / 2 ^ 31 = 1 := by omega
  have hexponent : bits.toNat / 2 ^ 23 % 256 = e := by omega
  have hfraction : bits.toNat % 2 ^ 23 = 0 := by omega
  have hvalue : ((2 ^ 23 + 0 : Nat) : ℚ) * 2 ^ ((e : Int) - 150) = 2 ^ ((e : Int) - 127) := by
    rw [show (e : Int) - 127 = 23 + (e - 150) by ring, zpow_add₀ two_ne_zero]
    norm_num
  simp only [ofBits32, hsign, hexponent, hfraction]
  rw [if_neg (by omega), if_neg (by omega), hvalue, decide_false]

example : binary64.round false (1 / 10) =
    .finite false (3602879701896397 / 36028797018963968) := by
  decide +kernel

end Rounding

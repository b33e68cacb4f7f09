import Mathlib.Tactic

/-!
Rounding up to an alignment. The rounding itself is over natural numbers and has no
largest one; a mask that clears the low bits of a word is the same rounding as long as
the word holds the result.
-/

namespace Alignment

/-- The least multiple of `a` that is not below `n`. -/
def up (n a : Nat) : Nat := (n + (a - 1)) / a * a

theorem dvd_up (n a : Nat) : a ∣ up n a := Dvd.intro_left _ rfl

theorem le_up {a : Nat} (ha : 0 < a) (n : Nat) : n ≤ up n a := by
  have h := Nat.div_add_mod (n + (a - 1)) a
  have hmod := Nat.mod_lt (n + (a - 1)) ha
  rw [Nat.mul_comm] at h
  unfold up
  omega

theorem up_lt {a : Nat} (ha : 0 < a) (n : Nat) : up n a < n + a := by
  have h := Nat.div_mul_le_self (n + (a - 1)) a
  unfold up
  omega

/-- A multiple that is above `n` is above what `n` is rounded to. -/
theorem up_le {n a q : Nat} (hq : a ∣ q) (h : n ≤ q) : up n a ≤ q := by
  obtain ⟨m, rfl⟩ := hq
  rcases Nat.eq_zero_or_pos a with rfl | ha
  · simp [up]
  · have hlt := up_lt ha n
    have hdiv : (n + (a - 1)) / a < m + 1 := by
      apply Nat.lt_of_mul_lt_mul_right (a := a)
      calc (n + (a - 1)) / a * a < n + a := hlt
        _ ≤ a * m + a := by omega
        _ = (m + 1) * a := by ring
    calc up n a ≤ m * a := Nat.mul_le_mul_right a (by omega)
      _ = a * m := Nat.mul_comm m a

/-- The mask of the bits from `k` up to the width clears the bits below `k`. -/
theorem and_mask {x k w : Nat} (hx : x < 2 ^ w) (hk : k ≤ w) :
    x &&& (2 ^ w - 1 - (2 ^ k - 1)) = x / 2 ^ k * 2 ^ k := by
  have hpos : 0 < 2 ^ k := Nat.two_pow_pos k
  have hmask : 2 ^ w - 1 - (2 ^ k - 1) = 2 ^ w - (2 ^ k - 1 + 1) := by omega
  have hle : 2 ^ k ≤ 2 ^ w := Nat.pow_le_pow_right (by norm_num) hk
  have hshift : x / 2 ^ k * 2 ^ k = (x >>> k) <<< k := by
    rw [Nat.shiftLeft_eq, Nat.shiftRight_eq_div_pow]
  rw [hmask, hshift]
  apply Nat.eq_of_testBit_eq
  intro i
  rw [Nat.testBit_and, Nat.testBit_two_pow_sub_succ (by omega), Nat.testBit_shiftLeft,
    Nat.testBit_shiftRight, Nat.testBit_two_pow_sub_one]
  by_cases hi : k ≤ i
  · have hlt : ¬ i < k := by omega
    rw [Nat.add_sub_cancel' hi]
    by_cases hi' : i < w
    · simp [hi, hlt, hi']
    · have hbit : x.testBit i = false := by
        apply Nat.testBit_lt_two_pow
        exact hx.trans_le (Nat.pow_le_pow_right (by norm_num) (by omega))
      simp [hbit]
  · have hlt : i < k := by omega
    simp [hi, hlt]

end Alignment

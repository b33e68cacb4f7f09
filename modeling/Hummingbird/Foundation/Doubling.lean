import Mathlib.Tactic

/-!
A counter of `w` bits that a loop doubles until it reaches a bound. From a power of two the
loop returns exactly for the bounds up to the largest power the counter can hold; for every
other bound the counter runs into zero and stays there.
-/

namespace Hummingbird.Doubling

variable {w bound : Nat}

def step (w cap : Nat) : Nat := cap * 2 % 2 ^ w

/-- `while (cap < bound) cap *= 2`, for as many rounds as there is fuel. -/
def loop (w bound : Nat) : Nat → Nat → Option Nat
  | 0, _ => none
  | fuel + 1, cap => if cap < bound then loop w bound fuel (step w cap) else some cap

/-- The loop stops at the first of the doubled values that reaches the bound. -/
theorem loop_eq_some_iff {fuel cap c : Nat} : loop w bound fuel cap = some c ↔
    ∃ i < fuel, c = (step w)^[i] cap ∧ bound ≤ c ∧ ∀ k < i, (step w)^[k] cap < bound := by
  induction fuel generalizing cap with
  | zero => simp [loop]
  | succ fuel ih =>
      unfold loop
      by_cases hlt : cap < bound
      · rw [if_pos hlt, ih]
        constructor
        · rintro ⟨i, hi, hc, hbound, hbefore⟩
          refine ⟨i + 1, by omega, by rw [hc, Function.iterate_succ_apply], hbound, ?_⟩
          intro k hk
          cases k with
          | zero => exact hlt
          | succ k =>
              rw [Function.iterate_succ_apply]
              exact hbefore k (by omega)
        · rintro ⟨i, hi, hc, hbound, hbefore⟩
          cases i with
          | zero =>
              rw [Function.iterate_zero_apply] at hc
              omega
          | succ i =>
              refine ⟨i, by omega, by rw [hc, Function.iterate_succ_apply], hbound, ?_⟩
              intro k hk
              have hk' := hbefore (k + 1) (by omega)
              rwa [Function.iterate_succ_apply] at hk'
      · rw [if_neg hlt, Option.some.injEq]
        constructor
        · rintro rfl
          exact ⟨0, by omega, rfl, by omega, by simp⟩
        · rintro ⟨i, -, hc, -, hbefore⟩
          cases i with
          | zero => exact hc.symm
          | succ i => exact absurd (hbefore 0 (by omega)) hlt

theorem iterate_step {cap : Nat} (hcap : cap < 2 ^ w) (k : Nat) :
    (step w)^[k] cap = cap * 2 ^ k % 2 ^ w := by
  induction k with
  | zero => rw [Function.iterate_zero_apply, pow_zero, mul_one, Nat.mod_eq_of_lt hcap]
  | succ k ih =>
      rw [Function.iterate_succ_apply', ih, step, Nat.mod_mul_mod, pow_succ, mul_assoc]

theorem iterate_step_pow {j k : Nat} (hjk : j + k < w) : (step w)^[k] (2 ^ j) = 2 ^ (j + k) := by
  rw [iterate_step (Nat.pow_lt_pow_right (by decide) (by omega)), ← pow_add,
    Nat.mod_eq_of_lt (Nat.pow_lt_pow_right (by decide) hjk)]

/-- From a power of two the loop stops at the first power that reaches the bound. -/
theorem loop_some_pow {fuel j c : Nat} (hj : j < w) (hpos : 0 < bound)
    (h : loop w bound fuel (2 ^ j) = some c) :
    ∃ m, j ≤ m ∧ m < w ∧ c = 2 ^ m ∧ bound ≤ 2 ^ m ∧
      ∀ m', j ≤ m' → bound ≤ 2 ^ m' → m ≤ m' := by
  obtain ⟨i, -, hc, hreach, hbefore⟩ := loop_eq_some_iff.mp h
  have hi : j + i < w := by
    by_contra hge
    obtain ⟨d, hd⟩ := Nat.exists_eq_add_of_le (not_lt.mp hge)
    rw [hc, iterate_step (Nat.pow_lt_pow_right (by decide) hj), ← pow_add, hd, pow_add,
      Nat.mul_mod_right] at hreach
    exact absurd (hpos.trans_le hreach) (Nat.not_lt_zero _)
  rw [iterate_step_pow hi] at hc
  refine ⟨j + i, Nat.le_add_right j i, hi, hc, hc ▸ hreach, ?_⟩
  intro m' hle hbound
  by_contra hlt
  have hsmall := hbefore (m' - j) (by omega)
  rw [iterate_step_pow (by omega), Nat.add_sub_cancel' hle] at hsmall
  exact absurd hbound (not_le.mpr hsmall)

/-- The powers of two that the counter can hold. -/
theorem loop_pow {j : Nat} (hj : j < w) (hbound : bound ≤ 2 ^ (w - 1)) :
    ∃ m, j ≤ m ∧ m < w ∧ bound ≤ 2 ^ m ∧ loop w bound (w + 1) (2 ^ j) = some (2 ^ m) := by
  have hex : ∃ i, bound ≤ 2 ^ (j + i) := by
    refine ⟨w - 1 - j, ?_⟩
    rwa [show j + (w - 1 - j) = w - 1 by omega]
  have hfound : bound ≤ 2 ^ (j + Nat.find hex) := Nat.find_spec hex
  have hle : Nat.find hex ≤ w - 1 - j := by
    refine Nat.find_min' hex ?_
    rwa [show j + (w - 1 - j) = w - 1 by omega]
  refine ⟨j + Nat.find hex, by omega, by omega, hfound, loop_eq_some_iff.mpr
    ⟨Nat.find hex, by omega, (iterate_step_pow (by omega)).symm, hfound, ?_⟩⟩
  intro k hk
  rw [iterate_step_pow (by omega)]
  exact not_le.mp (Nat.find_min hex hk)

/-- Past the largest of them the loop never ends. -/
theorem loop_endless {j fuel : Nat} (hj : j < w) (hbound : 2 ^ (w - 1) < bound) :
    loop w bound fuel (2 ^ j) = none := by
  rw [Option.eq_none_iff_forall_not_mem]
  intro c hc
  obtain ⟨m, -, hm, -, hreach, -⟩ :=
    loop_some_pow hj (Nat.zero_lt_of_lt hbound) (Option.mem_def.mp hc)
  have hle : 2 ^ m ≤ 2 ^ (w - 1) := Nat.pow_le_pow_right (by decide) (by omega)
  omega

end Hummingbird.Doubling

import Mathlib.Algebra.BigOperators.Field
import Mathlib.Analysis.SpecialFunctions.Exp

/-!
The softmax of a row of real numbers, as weights that add up to one; and rows scaled to a mean
square of at most one.
-/

namespace Rows

open Finset

/-- The softmax of the first `n` numbers of a row. -/
noncomputable def softmax (n : Nat) (x : Nat → ℝ) (i : Nat) : ℝ :=
  Real.exp (x i) / ∑ j ∈ range n, Real.exp (x j)

section Softmax

variable {n : Nat} {x y : Nat → ℝ} {i j : Nat}

theorem exp_sum_pos (hn : 0 < n) (x : Nat → ℝ) : 0 < ∑ j ∈ range n, Real.exp (x j) :=
  sum_pos (fun j _ => Real.exp_pos (x j)) ⟨0, mem_range.mpr hn⟩

theorem softmax_pos (hn : 0 < n) : 0 < softmax n x i :=
  div_pos (Real.exp_pos _) (exp_sum_pos hn x)

theorem softmax_sum (hn : 0 < n) (x : Nat → ℝ) : ∑ i ∈ range n, softmax n x i = 1 := by
  unfold softmax
  rw [← sum_div]
  exact div_self (exp_sum_pos hn x).ne'

theorem softmax_congr (hi : i < n) (hxy : ∀ j < n, x j = y j) : softmax n x i = softmax n y i := by
  unfold softmax
  rw [hxy i hi, sum_congr rfl fun j hj => congrArg Real.exp (hxy j (mem_range.mp hj))]

/-- What all numbers have in common does not matter. -/
theorem softmax_sub (n : Nat) (x : Nat → ℝ) (m : ℝ) (i : Nat) :
    softmax n (fun j => x j - m) i = softmax n x i := by
  have hexp : ∀ j, Real.exp (x j - m) = Real.exp (x j) * Real.exp (-m) := fun j => by
    rw [sub_eq_add_neg, Real.exp_add]
  unfold softmax
  rw [hexp, sum_congr rfl fun j _ => hexp j, ← sum_mul]
  exact mul_div_mul_right _ _ (Real.exp_pos (-m)).ne'

theorem softmax_le_iff (hn : 0 < n) : softmax n x i ≤ softmax n x j ↔ x i ≤ x j := by
  unfold softmax
  rw [div_le_div_iff_of_pos_right (exp_sum_pos hn x), Real.exp_le_exp]

/-- An average by the weights of a softmax lies between bounds of what is averaged. -/
theorem softmax_average (hn : 0 < n) (x : Nat → ℝ) {v : Nat → ℝ} {lo hi : ℝ}
    (h : ∀ i < n, lo ≤ v i ∧ v i ≤ hi) :
    lo ≤ ∑ i ∈ range n, softmax n x i * v i ∧ ∑ i ∈ range n, softmax n x i * v i ≤ hi := by
  have hconst : ∀ c : ℝ, c = ∑ i ∈ range n, softmax n x i * c := fun c => by
    rw [← sum_mul, softmax_sum hn, one_mul]
  constructor
  · rw [hconst lo]
    exact sum_le_sum fun i hi =>
      mul_le_mul_of_nonneg_left (h i (mem_range.mp hi)).1 (softmax_pos hn).le
  · rw [hconst hi]
    exact sum_le_sum fun i hi =>
      mul_le_mul_of_nonneg_left (h i (mem_range.mp hi)).2 (softmax_pos hn).le

end Softmax

/-- The mean square of the first `n` numbers of a row. -/
noncomputable def meanSquare (n : Nat) (x : Nat → ℝ) : ℝ := (∑ j ∈ range n, x j * x j) / n

section MeanSquare

variable {n : Nat} {x : Nat → ℝ} {ε : ℝ}

theorem meanSquare_nonneg (n : Nat) (x : Nat → ℝ) : 0 ≤ meanSquare n x :=
  div_nonneg (sum_nonneg fun j _ => mul_self_nonneg (x j)) n.cast_nonneg

theorem meanSquare_congr {y : Nat → ℝ} (hxy : ∀ j < n, x j = y j) :
    meanSquare n x = meanSquare n y := by
  unfold meanSquare
  rw [sum_congr rfl fun j hj => by rw [hxy j (mem_range.mp hj)]]

/-- A row scaled by its mean square. -/
theorem meanSquare_div_sqrt (hε : 0 < ε) :
    meanSquare n (fun j => x j / √(meanSquare n x + ε)) =
      meanSquare n x / (meanSquare n x + ε) := by
  have hpos : 0 < meanSquare n x + ε := add_pos_of_nonneg_of_pos (meanSquare_nonneg n x) hε
  have hterm : ∀ j, x j / √(meanSquare n x + ε) * (x j / √(meanSquare n x + ε)) =
      x j * x j / (meanSquare n x + ε) := fun j => by
    rw [div_mul_div_comm, Real.mul_self_sqrt hpos.le]
  calc meanSquare n (fun j => x j / √(meanSquare n x + ε))
      = (∑ j ∈ range n, x j * x j / (meanSquare n x + ε)) / n := by
        rw [meanSquare, sum_congr rfl fun j _ => hterm j]
    _ = meanSquare n x / (meanSquare n x + ε) := by
        rw [← sum_div, div_right_comm, ← meanSquare]

theorem meanSquare_div_sqrt_lt (hε : 0 < ε) :
    meanSquare n (fun j => x j / √(meanSquare n x + ε)) < 1 := by
  rw [meanSquare_div_sqrt hε,
    div_lt_one (add_pos_of_nonneg_of_pos (meanSquare_nonneg n x) hε)]
  exact lt_add_of_pos_right _ hε

end MeanSquare

/-! The folds by which a loop gathers a row. -/

section Folds

variable {n : Nat}

theorem foldl_sum {R : Type} [AddCommMonoid R] (f : Nat → R) :
    (List.range n).foldl (fun acc k => acc + f k) 0 = ∑ k ∈ range n, f k := by
  induction n with
  | zero => rfl
  | succ n ih => rw [List.range_succ, List.foldl_append, ih, sum_range_succ]; rfl

/-- The running maximum, from the first number on, is the greatest. -/
theorem foldl_isGreatest {R : Type} [LinearOrder R] (f : Nat → R) :
    IsGreatest (f '' Set.Iic n)
      ((List.range n).foldl (fun m k => if m < f (k + 1) then f (k + 1) else m) (f 0)) := by
  induction n with
  | zero =>
      refine ⟨⟨0, Set.mem_Iic.mpr le_rfl, rfl⟩, ?_⟩
      rintro _ ⟨k, hk, rfl⟩
      rw [Nat.le_zero.mp hk]
      exact le_rfl
  | succ n ih =>
      rw [List.range_succ, List.foldl_append]
      generalize (List.range n).foldl _ _ = m at ih
      obtain ⟨⟨k₀, hk₀, rfl⟩, hup⟩ := ih
      have hle : ∀ k ≤ n, f k ≤ f k₀ := fun k hk => hup ⟨k, hk, rfl⟩
      show IsGreatest _ (if f k₀ < f (n + 1) then f (n + 1) else f k₀)
      split_ifs with hlt
      · refine ⟨⟨n + 1, Set.mem_Iic.mpr le_rfl, rfl⟩, ?_⟩
        rintro _ ⟨k, hk, rfl⟩
        rcases Nat.le_succ_iff.mp hk with hk | rfl
        · exact (hle k hk).trans hlt.le
        · exact le_rfl
      · refine ⟨⟨k₀, Set.mem_Iic.mpr (Nat.le_succ_of_le hk₀), rfl⟩, ?_⟩
        rintro _ ⟨k, hk, rfl⟩
        rcases Nat.le_succ_iff.mp hk with hk | rfl
        · exact hle k hk
        · exact not_lt.mp hlt

end Folds

end Rows

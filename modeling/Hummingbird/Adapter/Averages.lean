import Hummingbird.Adapter.Textbook
import Hummingbird.Foundation.Softmax

/-!
Attention over the real numbers: what `ref_attention` would compute if no operation rounded. The
constant from which it looks for the largest score drops out, and what is left is an average of
the values, weighed by the softmax of the scaled products.
-/

namespace Hummingbird

open Finset

/-- The real numbers in the place of `float`. What doubles are is left open. -/
noncomputable def FloatOps.overReal {D : Type} (base : FloatOps ℝ D) : FloatOps ℝ D :=
  { base with
    zero := 0
    one := 1
    add := (· + ·)
    sub := (· - ·)
    mul := (· * ·)
    div := (· / ·)
    neg := fun x => -x
    expf := Real.exp
    sqrtf := Real.sqrt
    ofUint32 := fun n => (n : ℝ)
    lt := fun x y => decide (x < y) }

section Averages

variable {D : Type} (base : FloatOps ℝ D)

theorem sumOf_overReal (n : Nat) (f : Nat → ℝ) :
    sumOf base.overReal (List.range n) f = ∑ t ∈ range n, f t := Rows.foldl_sum f

/-- Whatever score is taken for the largest, the weights are the softmax of the scores. -/
theorem weightOf_overReal (n : Nat) (f : Nat → ℝ) (t : Nat) :
    weightOf base.overReal (List.range n) f t = Rows.softmax n f t := by
  rw [← Rows.softmax_sub n f (bestOf base.overReal (List.range n) f), weightOf]
  dsimp only
  rw [sumOf_overReal]
  exact mul_one_div _ _

/-- The scaled product of a query head and a key. -/
noncomputable def scaledProduct (q : Nat → ℝ) (k : Nat → KvCell ℝ)
    (numQ numKv headDim qh t : Nat) : ℝ :=
  (∑ d ∈ range headDim, q (qh * headDim + d) *
    (k (cacheRowOffset numKv headDim t (qh / (numQ / numKv)) + d)).value) / √headDim

theorem readScore_overReal (q : Nat → ℝ) (k : Nat → KvCell ℝ) (numQ numKv headDim qh t : Nat) :
    readScore base.overReal q k numQ numKv headDim qh t =
      scaledProduct q k numQ numKv headDim qh t := by
  rw [scaledProduct, ← Rows.foldl_sum, ← mul_one_div]
  rfl

/-- Over the reals `ref_attention` leaves, in every component of every query head, the average of
that component of the values at the positions it reads, weighed by the softmax of the scaled
products of the head with the keys. So it stays between bounds of the values. -/
theorem attention_over_reals {q out scores : Nat → ℝ} {k v : Nat → KvCell ℝ}
    {numQ numKv headDim kvLen : Nat} (hkv : 0 < numKv) (hle : numKv ≤ numQ) (hlen : 0 < kvLen) :
    ∃ out' scores' reads, refAttention base.overReal q k v out numQ numKv headDim kvLen scores =
        some (out', scores', reads) ∧
      (∀ i, numQ * headDim ≤ i → out' i = out i) ∧
      ∀ qh < numQ, ∀ d < headDim,
        let value := fun t => readValue v numQ numKv headDim qh t d
        out' (qh * headDim + d) = ∑ t ∈ range kvLen,
            Rows.softmax kvLen (scaledProduct q k numQ numKv headDim qh) t * value t ∧
          ∀ lo hi, (∀ t < kvLen, lo ≤ value t ∧ value t ≤ hi) →
            lo ≤ out' (qh * headDim + d) ∧ out' (qh * headDim + d) ≤ hi := by
  refine ⟨_, _, _, refAttention_eq hkv hle, fun i hi => ?_, fun qh hqh d hd => ?_⟩
  · rw [attentionRounds_formula, if_neg (by omega)]
  intro value
  have haverage : ((List.range numQ).foldl
      (attentionRound base.overReal q k v numQ numKv headDim kvLen) (out, scores)).1
        (qh * headDim + d) = ∑ t ∈ range kvLen,
      Rows.softmax kvLen (scaledProduct q k numQ numKv headDim qh) t * value t := by
    rw [attentionRounds_formula, if_pos (lt_of_lt_of_le (by omega) (row_end_le hqh)),
      head_div hd, Nat.mul_add_mod_of_lt hd, sumOf_overReal]
    apply sum_congr rfl
    intro t _
    have hscore : readScore base.overReal q k numQ numKv headDim qh =
        scaledProduct q k numQ numKv headDim qh :=
      funext fun t => readScore_overReal base q k numQ numKv headDim qh t
    rw [hscore, weightOf_overReal]
    rfl
  refine ⟨haverage, fun lo hi hbounds => ?_⟩
  rw [haverage]
  exact Rows.softmax_average hlen _ hbounds

/-- A query of zero weighs the values 0 and 1 alike. -/
theorem attention_over_reals_zero_query :
    (1 : Nat) ≤ 1 ∧ ∀ base : FloatOps ℝ ℝ, ∃ out' scores' reads,
      refAttention base.overReal (fun _ => 0) (fun _ => ⟨0, none⟩) (fun a => ⟨a, none⟩)
        (fun _ => 7) 1 1 1 2 (fun _ => 7) = some (out', scores', reads) ∧ out' 0 = 1 / 2 := by
  refine ⟨le_rfl, fun base => ?_⟩
  obtain ⟨out', scores', reads, hrun, -, haverage⟩ := @attention_over_reals ℝ base (fun _ => 0)
    (fun _ => 7) (fun _ => 7) (fun _ => ⟨0, none⟩) (fun a => ⟨a, none⟩) 1 1 1 2 (by decide)
    le_rfl (by decide)
  refine ⟨out', scores', reads, hrun, (haverage 0 (by decide) 0 (by decide)).1.trans ?_⟩
  simp [sum_range_succ, Rows.softmax, scaledProduct, readValue, cacheRowOffset, uint32Size]

end Averages

end Hummingbird

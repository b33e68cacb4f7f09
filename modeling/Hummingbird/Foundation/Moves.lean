import Mathlib.Data.Int.Order.Basic
import Mathlib.Tactic.Common

/-!
Runs of block moves in a memory of numbered cells. As long as no move reads what a move
of the run writes, a cell ends up with what the last move over it brought there, and a
cell that no move covers keeps its contents.
-/

namespace Moves

variable {α : Type}

/-- A block that is copied from `src` to `dst`. -/
structure Move where
  dst : Int
  src : Int
  deriving DecidableEq, Repr

/-- The move of a block of `n` cells writes the cell. -/
def Move.Covers (n : Nat) (p : Move) (a : Int) : Prop := p.dst ≤ a ∧ a < p.dst + n

/-- The move of a block of `n` cells reads the cell. -/
def Move.Reads (n : Nat) (p : Move) (a : Int) : Prop := p.src ≤ a ∧ a < p.src + n

instance (n : Nat) (p : Move) (a : Int) : Decidable (p.Covers n a) :=
  inferInstanceAs (Decidable (_ ∧ _))

def Move.apply (n : Nat) (p : Move) (m : Int → α) : Int → α := fun a =>
  if p.Covers n a then m (p.src + (a - p.dst)) else m a

/-- The first `k` moves of a sequence, one after the other. -/
def run (n : Nat) (f : Nat → Move) : Nat → (Int → α) → Int → α
  | 0, m => m
  | k + 1, m => (f k).apply n (run n f k m)

/-- No move of the sequence writes what a move of it reads. -/
def Apart (n : Nat) (f : Nat → Move) (k : Nat) : Prop :=
  ∀ i < k, ∀ j < k, ∀ a, (f i).Reads n a → ¬ (f j).Covers n a

theorem Apart.of_le {n : Nat} {f : Nat → Move} {k l : Nat} (h : Apart n f l) (hle : k ≤ l) :
    Apart n f k := by
  intro i hi j hj
  exact h i (by omega) j (by omega)

theorem run_of_not_covers {n : Nat} {f : Nat → Move} {k : Nat} {m : Int → α} {a : Int}
    (h : ∀ i < k, ¬ (f i).Covers n a) : run n f k m a = m a := by
  induction k with
  | zero => rfl
  | succ k ih =>
      rw [run, Move.apply, if_neg (h k (by omega))]
      exact ih fun i hi => h i (by omega)

theorem Move.Covers.reads {n : Nat} {p : Move} {a : Int} (h : p.Covers n a) :
    p.Reads n (p.src + (a - p.dst)) := by
  have hlo := h.1
  have hhi := h.2
  exact ⟨by omega, by omega⟩

/-- A cell holds what the last move over it brought there. -/
theorem run_of_last {n : Nat} {f : Nat → Move} {k i : Nat} {m : Int → α} {a : Int}
    (hapart : Apart n f k) (hi : i < k) (hcovers : (f i).Covers n a)
    (hlast : ∀ j, i < j → j < k → ¬ (f j).Covers n a) :
    run n f k m a = m ((f i).src + (a - (f i).dst)) := by
  induction k with
  | zero => omega
  | succ k ih =>
      by_cases hik : i = k
      · subst hik
        rw [run, Move.apply, if_pos hcovers]
        apply run_of_not_covers
        intro j hj
        exact hapart i (by omega) j (by omega) _ hcovers.reads
      · rw [run, Move.apply, if_neg (hlast k (by omega) (by omega))]
        exact ih (hapart.of_le (by omega)) (by omega) fun j hij hj => hlast j hij (by omega)

/-- Either no move covers a cell, or one of them is the last that does. -/
theorem exists_last {n : Nat} (f : Nat → Move) (k : Nat) (a : Int) :
    (∀ i < k, ¬ (f i).Covers n a) ∨
      ∃ i < k, (f i).Covers n a ∧ ∀ j, i < j → j < k → ¬ (f j).Covers n a := by
  induction k with
  | zero => exact Or.inl fun i hi => absurd hi (by omega)
  | succ k ih =>
      by_cases hk : (f k).Covers n a
      · exact Or.inr ⟨k, by omega, hk, fun j hj hjk => absurd hj (by omega)⟩
      · rcases ih with hnone | ⟨i, hi, hcovers, hlast⟩
        · left
          intro i hi
          rcases Nat.lt_succ_iff_lt_or_eq.mp hi with hi | rfl
          · exact hnone i hi
          · exact hk
        · right
          refine ⟨i, by omega, hcovers, ?_⟩
          intro j hij hj
          rcases Nat.lt_succ_iff_lt_or_eq.mp hj with hj | rfl
          · exact hlast j hij hj
          · exact hk

end Moves

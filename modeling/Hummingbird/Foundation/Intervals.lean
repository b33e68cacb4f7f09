import Mathlib.Tactic

/-!
Half-open intervals of numbers, given by a start and a length. Intervals that are apart
and end below a bound have no more numbers together than there are below the bound.
-/

namespace Intervals

variable {β : Type} (base len : β → Nat)

/-- One of the two ends where the other begins, or before. -/
def Apart (b c : β) : Prop := base b + len b ≤ base c ∨ base c + len c ≤ base b

instance : DecidableRel (Apart base len) := fun _ _ => inferInstanceAs (Decidable (_ ∨ _))

variable {base len}

theorem Apart.symm {b c : β} (h : Apart base len b c) : Apart base len c b := Or.symm h

/-- The numbers of intervals that are apart, counted once. -/
theorem exists_card_eq_sum {l : List β} (h : l.Pairwise (Apart base len)) :
    ∃ s : Finset Nat, s.card = (l.map len).sum ∧
      ∀ n, n ∈ s ↔ ∃ b ∈ l, base b ≤ n ∧ n < base b + len b := by
  induction l with
  | nil => exact ⟨∅, by simp⟩
  | cons b l ih =>
      obtain ⟨hb, hl⟩ := List.pairwise_cons.mp h
      obtain ⟨s, hcard, hmem⟩ := ih hl
      have hdisj : Disjoint (Finset.Ico (base b) (base b + len b)) s := by
        rw [Finset.disjoint_left]
        intro n hn hs
        obtain ⟨c, hc, hlo, hhi⟩ := (hmem n).mp hs
        rw [Finset.mem_Ico] at hn
        rcases hb c hc with hbc | hcb
        · omega
        · omega
      refine ⟨Finset.Ico (base b) (base b + len b) ∪ s, ?_, ?_⟩
      · rw [Finset.card_union_of_disjoint hdisj, hcard, Nat.card_Ico]
        simp
      · intro n
        rw [Finset.mem_union, Finset.mem_Ico, hmem n]
        simp

theorem sum_le_of_apart {l : List β} {bound : Nat} (h : l.Pairwise (Apart base len))
    (hbound : ∀ b ∈ l, base b + len b ≤ bound) : (l.map len).sum ≤ bound := by
  obtain ⟨s, hcard, hmem⟩ := exists_card_eq_sum h
  have hsub : s ⊆ Finset.range bound := by
    intro n hn
    obtain ⟨b, hb, -, hlt⟩ := (hmem n).mp hn
    exact Finset.mem_range.mpr (hlt.trans_le (hbound b hb))
  have hle := Finset.card_le_card hsub
  rw [Finset.card_range] at hle
  omega

end Intervals

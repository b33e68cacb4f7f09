import Mathlib.Tactic
import Mathlib.Logic.Relation
import Mathlib.Order.WellFounded
import Mathlib.Order.Bounds.Basic
import Mathlib.Data.Fintype.EquivFin

/-!
Levels of a relation: lengths of the paths that end in an element, and what a
numbering by longest paths says about cycles.
-/

namespace Levels

variable {α : Type} {r : α → α → Prop}

/-- There is a path of `l` edges that ends in `v`. -/
inductive PathTo (r : α → α → Prop) : Nat → α → Prop
  | here (v : α) : PathTo r 0 v
  | step {l : Nat} {u v : α} (hpath : PathTo r l u) (hedge : r u v) : PathTo r (l + 1) v

/-- An element without predecessors is the end of the empty path only. -/
theorem isGreatest_zero {v : α} (h : ∀ u, ¬ r u v) : IsGreatest {l | PathTo r l v} 0 := by
  refine ⟨PathTo.here v, ?_⟩
  intro l hl
  cases hl with
  | here => exact le_rfl
  | step hpath hedge => exact absurd hedge (h _)

/-- One more than the longest path to a predecessor. -/
theorem isGreatest_succ {v : α} {k : Nat} {f : α → Nat}
    (hf : ∀ u, r u v → IsGreatest {l | PathTo r l u} (f u)) (hle : ∀ u, r u v → f u ≤ k)
    (hex : ∃ u, r u v ∧ f u = k) : IsGreatest {l | PathTo r l v} (k + 1) := by
  obtain ⟨u, hedge, rfl⟩ := hex
  refine ⟨PathTo.step (hf u hedge).1 hedge, ?_⟩
  intro l hl
  cases hl with
  | here => exact Nat.zero_le _
  | step hpath hedge' =>
      exact Nat.succ_le_succ (((hf _ hedge').2 hpath).trans (hle _ hedge'))

/-- A relation whose edges go up in some numbering has no cycle. -/
theorem acyclic_of_lt {f : α → Nat} (hf : ∀ u v, r u v → f u < f v) :
    ¬ ∃ v, Relation.TransGen r v v := by
  have hlt : ∀ u v, Relation.TransGen r u v → f u < f v := by
    intro u v h
    induction h with
    | single h => exact hf _ _ h
    | tail _ h ih => exact ih.trans (hf _ _ h)
  rintro ⟨v, hv⟩
  exact lt_irrefl _ (hlt v v hv)

/-- Without cycles, a set that contains every element of a finite universe whose
predecessors it contains is the whole universe. -/
theorem mem_of_acyclic {t : Finset α} {s : Set α} (hacyclic : ¬ ∃ v, Relation.TransGen r v v)
    (hback : ∀ u v, v ∈ t → r u v → u ∈ t)
    (hclosed : ∀ v ∈ t, (∀ u, r u v → u ∈ s) → v ∈ s) : ∀ v ∈ t, v ∈ s := by
  let q : t → t → Prop := fun u v => Relation.TransGen r u v
  have : IsTrans t q := ⟨fun _ _ _ => Relation.TransGen.trans⟩
  have : Std.Irrefl q := ⟨fun v hv => hacyclic ⟨v, hv⟩⟩
  have hwf : WellFounded q := Finite.wellFounded_of_trans_of_irrefl q
  have hall : ∀ v : t, (v : α) ∈ s := by
    intro v
    induction v using hwf.induction with
    | _ v ih =>
        apply hclosed v v.2
        intro u hedge
        exact ih ⟨u, hback u v v.2 hedge⟩ (Relation.TransGen.single hedge)
  exact fun v hv => hall ⟨v, hv⟩

end Levels

import Mathlib.Data.Set.Function
import Mathlib.Tactic

/-!
Two runs of the same loop over arrays that may differ outside of a set of cells. A store of
equal values extends the set, and a loop keeps the agreement that every round keeps.
-/

namespace Hummingbird.TwoRuns

variable {ι F α β : Type}

/-- A cell that both runs store is one on which they agree. -/
theorem update_eqOn [DecidableEq ι] {f g : ι → F} {S : Set ι} (h : Set.EqOn f g S) (a : ι) (x : F) :
    Set.EqOn (Function.update f a x) (Function.update g a x) (insert a S) := by
  intro i hi
  by_cases hia : i = a
  · rw [hia, Function.update_self, Function.update_self]
  · rw [Function.update_of_ne hia, Function.update_of_ne hia]
    exact h (hi.resolve_left hia)

/-- A loop whose rounds keep an agreement keeps it. -/
theorem foldl_eqOn {step step' : (ι → F) → α → ι → F} {xs : List α} {S : Set ι} {f g : ι → F}
    (h : Set.EqOn f g S)
    (hstep : ∀ x ∈ xs, ∀ f g, Set.EqOn f g S → Set.EqOn (step f x) (step' g x) S) :
    Set.EqOn (xs.foldl step f) (xs.foldl step' g) S := by
  induction xs generalizing f g with
  | nil => exact h
  | cons x xs ih =>
      exact ih (hstep x List.mem_cons_self f g h)
        fun y hy => hstep y (List.mem_cons_of_mem x hy)

/-- A loop with an accumulator keeps the agreement and ends with the same accumulator. -/
theorem foldl_pair_eqOn {step step' : (ι → F) × β → α → (ι → F) × β} {xs : List α} {S : Set ι}
    {f g : ι → F} {b : β} (h : Set.EqOn f g S)
    (hstep : ∀ x ∈ xs, ∀ f g b, Set.EqOn f g S →
      Set.EqOn (step (f, b) x).1 (step' (g, b) x).1 S ∧ (step (f, b) x).2 = (step' (g, b) x).2) :
    Set.EqOn (xs.foldl step (f, b)).1 (xs.foldl step' (g, b)).1 S ∧
      (xs.foldl step (f, b)).2 = (xs.foldl step' (g, b)).2 := by
  induction xs generalizing f g b with
  | nil => exact ⟨h, rfl⟩
  | cons x xs ih =>
      obtain ⟨hcells, hacc⟩ := hstep x List.mem_cons_self f g b h
      have hrest := @ih (step (f, b) x).1 (step' (g, b) x).1 (step (f, b) x).2 hcells
        fun y hy => hstep y (List.mem_cons_of_mem x hy)
      rw [List.foldl_cons, List.foldl_cons]
      have hpair : step' (g, b) x = ((step' (g, b) x).1, (step (f, b) x).2) := by rw [hacc]
      rw [hpair]
      exact hrest

/-- One round of a loop that stores a cell and does not read the array. -/
def store [DecidableEq ι] (key : α → ι) (val : β → α → F) (next : β → α → β)
    (s : (ι → F) × β) (x : α) : (ι → F) × β :=
  (Function.update s.1 (key x) (val s.2 x), next s.2 x)

/-- Such a loop agrees on the cells it stores and on what it accumulates. -/
theorem foldl_store_eqOn [DecidableEq ι] {key : α → ι} {val : β → α → F}
    {next : β → α → β} (xs : List α) {S : Set ι} {f g : ι → F} {b : β} (h : Set.EqOn f g S) :
    Set.EqOn (xs.foldl (store key val next) (f, b)).1 (xs.foldl (store key val next) (g, b)).1
        (S ∪ {i | ∃ x ∈ xs, key x = i}) ∧
      (xs.foldl (store key val next) (f, b)).2 = (xs.foldl (store key val next) (g, b)).2 := by
  induction xs generalizing S f g b with
  | nil => exact ⟨by simpa using h, rfl⟩
  | cons x xs ih =>
      obtain ⟨hcells, hacc⟩ := @ih (insert (key x) S) (Function.update f (key x) (val b x))
        (Function.update g (key x) (val b x)) (next b x) (update_eqOn h (key x) (val b x))
      refine ⟨hcells.mono ?_, hacc⟩
      rintro i (hi | ⟨y, hy, rfl⟩)
      · exact Or.inl (Or.inr hi)
      · rcases List.mem_cons.mp hy with rfl | hy
        · exact Or.inl (Or.inl rfl)
        · exact Or.inr ⟨y, hy, rfl⟩

end Hummingbird.TwoRuns

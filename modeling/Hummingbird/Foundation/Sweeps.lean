import Mathlib.Tactic

/-!
Loops that write every cell of a stretch of an array once, each from itself or from itself and a
partner, as one change of the whole array.
-/

namespace Sweeps

variable {F β R : Type}

/-- The cells of a stretch, each changed by itself. -/
def block (base n : Nat) (g : Nat → F → F) (f : Nat → F) (i : Nat) : F :=
  if base ≤ i ∧ i < base + n then g (i - base) (f i) else f i

theorem block_mem {base n : Nat} {g : Nat → F → F} {f : Nat → F} {d : Nat} (hd : d < n) :
    block base n g f (base + d) = g d (f (base + d)) := by
  rw [block, if_pos (by omega), Nat.add_sub_cancel_left]

theorem block_other {base n : Nat} {g : Nat → F → F} {f : Nat → F} {i : Nat}
    (hi : ¬ (base ≤ i ∧ i < base + n)) : block base n g f i = f i := if_neg hi

/-- One more cell. -/
theorem update_block (base n : Nat) (g : Nat → F → F) (f : Nat → F) :
    Function.update (block base n g f) (base + n) (g n (f (base + n))) =
      block base (n + 1) g f := by
  funext i
  rcases eq_or_ne i (base + n) with rfl | hi
  · rw [Function.update_self, block_mem (Nat.lt_succ_self n)]
  · rw [Function.update_of_ne hi]
    by_cases hin : base ≤ i ∧ i < base + n
    · rw [block, block, if_pos hin, if_pos (by omega)]
    · rw [block_other hin, block_other (by omega)]

/-- A loop that changes the cells in turn and gathers what it writes. -/
theorem foldl_update (base n : Nat) (g : Nat → F → F) (h : β → Nat → F → β) (f : Nat → F) (b : β) :
    (List.range n).foldl (fun s d => (Function.update s.1 (base + d) (g d (s.1 (base + d))),
        h s.2 d (g d (s.1 (base + d))))) (f, b) =
      (block base n g f, (List.range n).foldl (fun b d => h b d (g d (f (base + d)))) b) := by
  induction n with
  | zero =>
      have hblock : block base 0 g f = f := funext fun i => block_other (by omega)
      simp [hblock]
  | succ n ih =>
      rw [List.range_succ, List.foldl_append, List.foldl_append, ih]
      simp only [List.foldl_cons, List.foldl_nil]
      rw [block_other (by omega), update_block]

/-- The same without anything gathered. -/
theorem foldl_update_cells (base n : Nat) (g : Nat → F → F) (f : Nat → F) :
    (List.range n).foldl (fun f d => Function.update f (base + d) (g d (f (base + d)))) f =
      block base n g f := by
  induction n with
  | zero => exact funext fun i => (block_other (by omega)).symm
  | succ n ih =>
      rw [List.range_succ, List.foldl_append, ih]
      simp only [List.foldl_cons, List.foldl_nil]
      rw [block_other (by omega), update_block]

/-- Rounds that change every cell by itself are folded cell by cell. -/
theorem foldl_cells {α : Type} (g : α → Nat → F → F) (xs : List α) (f : Nat → F) (i : Nat) :
    xs.foldl (fun f x i => g x i (f i)) f i = xs.foldl (fun a x => g x i a) (f i) := by
  induction xs generalizing f with
  | nil => rfl
  | cons x xs ih => exact ih fun i => g x i (f i)

/-- The cells of a stretch and their partners, `half` further on, changed in pairs. -/
def pairs (base half n : Nat) (a b : Nat → F → F → F) (f : Nat → F) (i : Nat) : F :=
  if base ≤ i ∧ i < base + n then a (i - base) (f i) (f (i + half))
  else if base + half ≤ i ∧ i < base + half + n then
    b (i - base - half) (f (i - half)) (f i)
  else f i

section Pairs

variable {base half n i : Nat} {a b : Nat → F → F → F} {f : Nat → F}

theorem pairs_first (h : base ≤ i ∧ i < base + n) :
    pairs base half n a b f i = a (i - base) (f i) (f (i + half)) := if_pos h

theorem pairs_second (hn : n ≤ half) (h : base + half ≤ i ∧ i < base + half + n) :
    pairs base half n a b f i = b (i - base - half) (f (i - half)) (f i) := by
  rw [pairs, if_neg (by omega), if_pos h]

theorem pairs_other (h : ¬ (base ≤ i ∧ i < base + n))
    (h' : ¬ (base + half ≤ i ∧ i < base + half + n)) : pairs base half n a b f i = f i := by
  rw [pairs, if_neg h, if_neg h']

end Pairs

/-- A loop that changes the pairs in turn, as long as the two halves do not meet. -/
theorem foldl_pairs (base half : Nat) {n : Nat} (hn : n ≤ half) (a b : Nat → F → F → F)
    (f : Nat → F) :
    (List.range n).foldl (fun f i => Function.update
        (Function.update f (base + i) (a i (f (base + i)) (f (base + (i + half)))))
        (base + (i + half)) (b i (f (base + i)) (f (base + (i + half))))) f =
      pairs base half n a b f := by
  induction n with
  | zero =>
      funext i
      exact (pairs_other (by omega) (by omega)).symm
  | succ n ih =>
      have hfirst : pairs base half n a b f (base + n) = f (base + n) :=
        pairs_other (by omega) (by omega)
      have hsecond : pairs base half n a b f (base + (n + half)) = f (base + (n + half)) :=
        pairs_other (by omega) (by omega)
      rw [List.range_succ, List.foldl_append, ih (by omega)]
      simp only [List.foldl_cons, List.foldl_nil, hfirst, hsecond]
      funext i
      rcases eq_or_ne i (base + (n + half)) with rfl | hpartner
      · rw [Function.update_self, pairs_second hn (by omega)]
        congr 2 <;> omega
      · rw [Function.update_of_ne hpartner]
        rcases eq_or_ne i (base + n) with rfl | hcell
        · rw [Function.update_self, pairs_first (by omega)]
          congr 2 <;> omega
        · have hlower : (base ≤ i ∧ i < base + (n + 1)) ↔ (base ≤ i ∧ i < base + n) := by omega
          have hupper : (base + half ≤ i ∧ i < base + half + (n + 1)) ↔
              (base + half ≤ i ∧ i < base + half + n) := by omega
          rw [Function.update_of_ne hcell]
          simp only [pairs, hlower, hupper]

/-- A fold over a list is one over its indices. -/
theorem foldl_eq_range (rows : List R) (r₀ : R) (step : β → R → β) (b : β) :
    rows.foldl step b = (List.range rows.length).foldl (fun b t => step b (rows.getD t r₀)) b := by
  have hmap : rows = (List.range rows.length).map fun t => rows.getD t r₀ := by
    apply List.ext_getElem
    · simp
    · intro t ht _
      simp [List.getD_eq_getElem?_getD, ht]
  calc rows.foldl step b
      = ((List.range rows.length).map fun t => rows.getD t r₀).foldl step b := by rw [← hmap]
    _ = (List.range rows.length).foldl (fun b t => step b (rows.getD t r₀)) b := List.foldl_map

end Sweeps

import Hummingbird.Foundation.Accesses

/-!
Loops that fill a row of words. A turn stores one word and may carry a value on; the words it
loads are as they were at the start, if no turn before it has stored over them. So a loop may
fill the row that it reads, one word after the other.
-/

namespace Accesses

section Filling

variable {F σ α : Type} (M : Machine F σ)

/-- The words at the addresses have the values, and those apart from all of them are as they
were. -/
structure Machine.Fills (n : Nat) (dst : Nat → Int) (v : Nat → F) (s s' : σ) : Prop where
  filled : ∀ i < n, M.load s' (dst i) = v i
  kept : ∀ b, (∀ i < n, WordsApart (dst i) b) → M.load s' b = M.load s b

variable {M} {n : Nat} {dst : Nat → Int} {v w : Nat → F} {s s' s'' : σ}

/-- To fill a row again is to fill it once. -/
theorem Machine.Fills.again (h : M.Fills n dst v s s') (h' : M.Fills n dst w s' s'') :
    M.Fills n dst w s s'' where
  filled := h'.filled
  kept := fun b hb => (h'.kept b hb).trans (h.kept b hb)

/-- One more word. -/
theorem Machine.Fills.store (h : M.Fills n dst v s s')
    (hapart : ∀ i < n, WordsApart (dst n) (dst i)) :
    M.Fills (n + 1) dst v s (M.store s' (dst n) (v n)) where
  filled := by
    intro i hi
    rcases Nat.lt_succ_iff_lt_or_eq.mp hi with hlt | rfl
    · rw [M.load_store_apart s' _ _ _ (hapart i hlt)]
      exact h.filled i hlt
    · exact M.load_store s' _ _
  kept := by
    intro b hb
    rw [M.load_store_apart s' _ _ _ (hb n (by omega))]
    exact h.kept b fun i hi => hb i (by omega)

/-- A loop that only reads folds over what it reads. -/
theorem Machine.run_scan {a : α} {body : Nat → α → Prog F α} (f : Nat → α → α)
    (hturn : ∀ i < n, ∀ a, M.run (body i a) s = (f i a, s)) :
    M.run (loop n a body) s = ((List.range n).foldl (fun a i => f i a) a, s) := by
  induction n with
  | zero => rfl
  | succ n ih =>
      rw [Machine.run_loop_succ, ih fun i hi => hturn i (by omega), hturn n (by omega),
        List.range_succ, List.foldl_append]
      rfl

/-- A loop that fills a row. The values carried are known, `st i` before turn `i`; the turn may
rely on the words that no turn before it stores. -/
theorem Machine.fills_loop {body : Nat → α → Prog F α} (st : Nat → α)
    (hapart : ∀ i < n, ∀ j < i, WordsApart (dst i) (dst j))
    (hturn : ∀ i < n, ∀ s', (∀ b, (∀ j < i, WordsApart (dst j) b) → M.load s' b = M.load s b) →
      M.run (body i (st i)) s' = (st (i + 1), M.store s' (dst i) (v i))) :
    (M.run (loop n (st 0) body) s).1 = st n ∧
      M.Fills n dst v s (M.run (loop n (st 0) body) s).2 := by
  refine M.run_loop (fun i a s' => a = st i ∧ M.Fills i dst v s s') ⟨rfl, by simp, ?_⟩ ?_
  · exact fun _ _ => rfl
  · rintro i hi _ s' ⟨rfl, hs'⟩
    rw [hturn i hi s' hs'.kept]
    exact ⟨rfl, hs'.store (hapart i hi)⟩

/-- The same for a loop that carries nothing on. -/
theorem Machine.fills_each {body : Nat → Prog F Unit}
    (hapart : ∀ i < n, ∀ j < i, WordsApart (dst i) (dst j))
    (hturn : ∀ i < n, ∀ s', (∀ b, (∀ j < i, WordsApart (dst j) b) → M.load s' b = M.load s b) →
      (M.run (body i) s').2 = M.store s' (dst i) (v i)) :
    M.Fills n dst v s (M.run (each n body) s).2 :=
  (M.fills_loop (fun _ => ()) hapart fun i hi s' hs' =>
    Prod.ext rfl (hturn i hi s' hs')).2

end Filling

end Accesses

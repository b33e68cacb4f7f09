import Hummingbird.Foundation.Table

/-!
Threads and the locks between them. Where a thread stands says which lock it holds, one at
most. The table of owners agrees with the threads as long as every move takes a free lock,
gives back the one it holds, or leaves the table alone. Waiting without a cycle is shown by
a rank that falls from every thread to the ones it waits for.
-/

namespace Locking

variable {π lock : Type} [DecidableEq lock]

/-- A thread owns a lock exactly when it stands where it holds it. -/
def Agrees (holds : π → Option lock) (owner : lock → Option Nat) (threads : List π) : Prop :=
  ∀ l t, owner l = some t ↔ ∃ p, threads[t]? = some p ∧ holds p = some l

/-- What a move of a thread does to the owners, given the lock it holds before and after. -/
inductive Move (owner : lock → Option Nat) (t : Nat) (before : Option lock) :
    (lock → Option Nat) → Option lock → Prop
  | keep : Move owner t before owner before
  | take {l : lock} (hfree : owner l = none) (hbefore : before = none) :
      Move owner t before (Function.update owner l (some t)) (some l)
  | give {l : lock} (hbefore : before = some l) :
      Move owner t before (Function.update owner l none) none

variable {holds : π → Option lock} {owner owner' : lock → Option Nat} {threads : List π} {t : Nat}
  {p p' : π}

omit [DecidableEq lock] in
theorem exists_set_iff (hp : threads[t]? = some p) (u : Nat) (l : lock) :
    (∃ q, (threads.set t p')[u]? = some q ∧ holds q = some l) ↔
      t = u ∧ holds p' = some l ∨ t ≠ u ∧ ∃ q, threads[u]? = some q ∧ holds q = some l := by
  rw [Table.getElem?_set_of hp]
  by_cases htu : t = u
  · simp [htu]
  · simp [htu]

theorem Agrees.move (h : Agrees holds owner threads) (hp : threads[t]? = some p)
    (hmove : Move owner t (holds p) owner' (holds p')) :
    Agrees holds owner' (threads.set t p') := by
  have hself : ∀ l, owner l = some t ↔ holds p = some l := by
    intro l
    rw [h l t]
    simp [hp]
  intro l u
  rw [exists_set_iff hp]
  generalize holds p' = after at hmove
  cases hmove with
  | keep =>
      by_cases htu : t = u
      · subst htu
        simp [hself l]
      · simp [htu, h l u]
  | @take k hfree hbefore =>
      by_cases htu : t = u
      · subst htu
        by_cases hlk : l = k
        · simp [hlk]
        · simp [hlk, hself l, hbefore, Ne.symm hlk]
      · by_cases hlk : l = k
        · subst hlk
          simp [htu, ← h l u, hfree]
        · simp [htu, hlk, h l u]
  | @give k hbefore =>
      by_cases htu : t = u
      · subst htu
        by_cases hlk : l = k
        · simp [hlk]
        · simp [hlk, hself l, hbefore, Ne.symm hlk]
      · by_cases hlk : l = k
        · subst hlk
          have hown : owner l = some t := (hself l).mpr hbefore
          simp [htu, ← h l u, hown]
        · simp [htu, hlk, h l u]

/-- A relation along which a rank falls has no cycle. -/
theorem acyclic_of_rank {τ : Type} {waits : τ → τ → Prop} (rank : τ → Nat)
    (h : ∀ a b, waits a b → rank b < rank a) (a : τ) : ¬ Relation.TransGen waits a a := by
  have hfalls : ∀ b, Relation.TransGen waits a b → rank b < rank a := by
    intro b hab
    induction hab with
    | single hab => exact h _ _ hab
    | tail _ hbc ih => exact (h _ _ hbc).trans ih
  exact fun haa => lt_irrefl _ (hfalls a haa)

end Locking

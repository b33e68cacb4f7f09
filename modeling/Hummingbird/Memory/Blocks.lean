import Hummingbird.Foundation.Ownership

/-!
The heap as the callers of an allocator see it: the ledger of the blocks that were
obtained, each with the size that was asked for, and the number of requests so far. Which
requests are granted is fixed from outside.
-/

namespace Hummingbird

open Ownership

structure BlockHeap where
  ledger : Ledger Nat
  asked : Nat

namespace BlockHeap

def empty : BlockHeap := ⟨⟨[], 0⟩, 0⟩

/-- `hbi_free` of a block. -/
def free (h : BlockHeap) (block : Nat) : BlockHeap :=
  { h with ledger := h.ledger.destroy block }

variable (grant : Nat → Bool)

/-- `hbi_alloc`: a block of a size, when the request is granted. -/
def alloc (h : BlockHeap) (n : Nat) : BlockHeap × Option Nat :=
  if grant h.asked then
    (⟨h.ledger.create n, h.asked + 1⟩, some h.ledger.objects.length)
  else (⟨h.ledger, h.asked + 1⟩, none)

/-- `hbi_realloc` to a size that is not zero: a new block in place of the old one. -/
def realloc (h : BlockHeap) (block n : Nat) : BlockHeap × Option Nat :=
  match h.alloc grant n with
  | (h, none) => (h, none)
  | (h, some new) => (h.free block, some new)

variable {grant} {base : Ledger Nat} {h : BlockHeap} {ids : List Nat}

theorem free_since {block : Nat} (hs : base.Since h.ledger (block :: ids)) :
    base.Since (h.free block).ledger ids :=
  hs.destroy

theorem freeAll_since {blocks : List Nat} (hs : base.Since h.ledger (blocks ++ ids)) :
    base.Since (blocks.foldl free h).ledger ids := by
  induction blocks generalizing h with
  | nil => exact hs
  | cons block blocks ih => exact ih (free_since hs)

/-- A request: granted with a new block, or refused. -/
theorem alloc_since (hs : base.Since h.ledger ids) (n : Nat) :
    (∃ h', h.alloc grant n = (h', none) ∧ base.Since h'.ledger ids) ∨
    ∃ h' block, h.alloc grant n = (h', some block) ∧ base.Since h'.ledger (block :: ids) := by
  unfold alloc
  by_cases hgrant : grant h.asked = true
  · rw [if_pos hgrant]
    exact Or.inr ⟨_, _, rfl, hs.create n⟩
  · rw [if_neg hgrant]
    exact Or.inl ⟨_, rfl, hs⟩

theorem free_dangling {block : Nat} (hd : base.Dangling h.ledger (block :: ids)) :
    base.Dangling (h.free block).ledger ids :=
  hd.destroy

theorem freeAll_dangling {blocks : List Nat} (hd : base.Dangling h.ledger (blocks ++ ids)) :
    base.Dangling (blocks.foldl free h).ledger ids := by
  induction blocks generalizing h with
  | nil => exact hd
  | cons block blocks ih => exact ih (free_dangling hd)

/-- A block in place of another, or the old one as it was. -/
theorem realloc_since {block : Nat} (hs : base.Since h.ledger (block :: ids)) (n : Nat) :
    (∃ h', h.realloc grant block n = (h', none) ∧ base.Since h'.ledger (block :: ids)) ∨
    ∃ h' new, h.realloc grant block n = (h', some new) ∧ base.Since h'.ledger (new :: ids) := by
  unfold realloc
  obtain ⟨h', heq, hs'⟩ | ⟨h', new, heq, hs'⟩ := @alloc_since grant _ _ _ hs n
  · rw [heq]
    exact Or.inl ⟨h', rfl, hs'⟩
  · rw [heq]
    exact Or.inr ⟨h'.free block, new, rfl, free_since (hs'.perm (List.Perm.swap _ _ _))⟩

theorem realloc_dangling {block : Nat} (hd : base.Dangling h.ledger (block :: ids)) (n : Nat) :
    (∃ h', h.realloc grant block n = (h', none) ∧ base.Dangling h'.ledger (block :: ids)) ∨
    ∃ h' new, h.realloc grant block n = (h', some new) ∧ base.Dangling h'.ledger (new :: ids) := by
  unfold realloc alloc
  by_cases hgrant : grant h.asked = true
  · rw [if_pos hgrant]
    exact Or.inr ⟨_, _, rfl, ((hd.create n).destroy).mono (List.subset_cons_self _ _)⟩
  · rw [if_neg hgrant]
    exact Or.inl ⟨_, rfl, hd⟩

theorem alloc_refused {h' : BlockHeap} {n : Nat} (hres : h.alloc grant n = (h', none)) :
    ∃ n, grant n = false := by
  unfold alloc at hres
  by_cases hgrant : grant h.asked = true
  · rw [if_pos hgrant] at hres
    cases hres
  · exact ⟨h.asked, by simpa using hgrant⟩

theorem alloc_granted (hgrant : ∀ n, grant n = true) (n : Nat) :
    ∃ h' block, h.alloc grant n = (h', some block) := by
  unfold alloc
  rw [if_pos (hgrant _)]
  exact ⟨_, _, rfl⟩

theorem realloc_granted (hgrant : ∀ n, grant n = true) (block n : Nat) :
    ∃ h' new, h.realloc grant block n = (h', some new) := by
  obtain ⟨h', new, heq⟩ := @alloc_granted grant h hgrant n
  unfold realloc
  rw [heq]
  exact ⟨_, _, rfl⟩

end BlockHeap

end Hummingbird

import Mathlib.Tactic

/-!
A ring of slots read as a queue. The queue is the run of `count` slots that starts
at `head` and wraps around; pushing writes the slot behind the run and popping
moves the head. The default `d` stands for a slot that does not exist.
-/

namespace Ring

variable {α : Type} (d : α)

/-- The queued elements, oldest first. -/
def contents (slots : List α) (head count : Nat) : List α :=
  (List.range count).map fun i => slots.getD ((head + i) % slots.length) d

@[simp]
theorem length_contents (slots : List α) (head count : Nat) :
    (contents d slots head count).length = count := by
  simp [contents]

/-- Two positions of a run no longer than the ring are different slots. -/
theorem slot_ne {n head i j : Nat} (hij : i < j) (hj : j < n) :
    (head + j) % n ≠ (head + i) % n := by
  intro h
  have hmod : (head + j) ≡ (head + i) [MOD n] := h
  have hcancel : j ≡ i [MOD n] := Nat.ModEq.add_left_cancel' head hmod
  rw [Nat.ModEq, Nat.mod_eq_of_lt hj, Nat.mod_eq_of_lt (hij.trans hj)] at hcancel
  omega

/-- Writing the slot behind the run appends to the queue. -/
theorem contents_push {slots : List α} {head count : Nat} (a : α)
    (hroom : count < slots.length) :
    contents d (slots.set ((head + count) % slots.length) a) head (count + 1) =
      contents d slots head count ++ [a] := by
  have hpos : 0 < slots.length := by omega
  unfold contents
  rw [List.range_succ, List.map_append, List.length_set]
  congr 1
  · apply List.map_congr_left
    intro i hi
    have hne := @slot_ne slots.length head i count (List.mem_range.mp hi) hroom
    rw [List.getD_eq_getElem?_getD, List.getElem?_set_ne hne, ← List.getD_eq_getElem?_getD]
  · have hslot := Nat.mod_lt (head + count) hpos
    simp [List.getElem?_set_self hslot]

/-- The oldest element is the slot at the head, and moving the head drops it. -/
theorem contents_pop (slots : List α) (head count : Nat) :
    contents d slots head (count + 1) =
      slots.getD (head % slots.length) d ::
        contents d slots ((head + 1) % slots.length) count := by
  unfold contents
  rw [List.range_succ_eq_map, List.map_cons, List.map_map]
  congr 1
  apply List.map_congr_left
  intro i _
  have hmod : (head + (i + 1)) % slots.length =
      ((head + 1) % slots.length + i) % slots.length := by
    rw [Nat.mod_add_mod, Nat.add_assoc, Nat.add_comm 1 i]
  simp only [Function.comp_apply, Nat.succ_eq_add_one, hmod]

end Ring

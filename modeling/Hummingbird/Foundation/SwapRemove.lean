import Mathlib.Tactic

/-!
An array with a count, from which an entry is removed by moving the last one into its place.
Slots behind the count keep what they held. A sweep goes over the slots that were in use at
its start and removes what it finds in each, so its second half reads slots that are no longer
in use.
-/

namespace SwapRemove

variable {α : Type}

/-- The list without an entry, the last one in its place. -/
def removeFrom [DecidableEq α] (xs : List α) (x : α) : List α :=
  if x ∈ xs then ((xs.getLast?.map fun last => xs.set (xs.idxOf x) last).getD xs).dropLast else xs

theorem removeFrom_perm [DecidableEq α] {xs : List α} {x : α} (hx : x ∈ xs) :
    (removeFrom xs x).Perm (xs.erase x) := by
  have hne : xs ≠ [] := List.ne_nil_of_mem hx
  obtain ⟨ys, last, rfl⟩ : ∃ ys last, xs = ys ++ [last] :=
    ⟨_, _, (List.dropLast_append_getLast hne).symm⟩
  unfold removeFrom
  rw [if_pos hx, List.getLast?_append_of_ne_nil _ (List.cons_ne_nil last [])]
  simp only [List.getLast?_singleton, Option.map_some, Option.getD_some]
  by_cases hys : x ∈ ys
  · have hindex : ys.idxOf x < ys.length := List.idxOf_lt_length_of_mem hys
    rw [List.idxOf_append_of_mem hys, List.set_append_left _ _ hindex, List.dropLast_concat,
      List.erase_append_left _ hys, ← List.eraseIdx_idxOf_eq_erase]
    exact (List.set_perm_cons_eraseIdx hindex last).trans
      (List.perm_append_singleton last _).symm
  · have hlast : x = last := by simpa [hys] using hx
    rw [List.erase_append_right _ hys, List.idxOf_append_of_notMem hys, hlast]
    simp

structure Slots (α : Type) where
  slot : Nat → Option α
  count : Nat

namespace Slots

def empty : Slots α := ⟨fun _ => none, 0⟩

def push (a : Slots α) (x : α) : Slots α := ⟨Function.update a.slot a.count (some x), a.count + 1⟩

/-- The slots in use hold the entries of a list. -/
structure Holds (a : Slots α) (xs : List α) : Prop where
  count : a.count = xs.length
  slot : ∀ i < xs.length, a.slot i = xs[i]?

variable {a : Slots α} {xs : List α} {x : α}

theorem holds_empty : (empty : Slots α).Holds [] := ⟨rfl, by simp⟩

theorem Holds.push (h : a.Holds xs) (x : α) : (a.push x).Holds (xs ++ [x]) := by
  refine ⟨by simp [Slots.push, h.count], ?_⟩
  intro i hi
  rw [List.length_append, List.length_singleton] at hi
  change Function.update a.slot a.count (some x) i = _
  by_cases hlast : i = xs.length
  · simp [hlast, h.count]
  · have hne : i ≠ a.count := h.count ▸ hlast
    have hlt : i < xs.length := by omega
    rw [Function.update_of_ne hne, h.slot i hlt, List.getElem?_append_left hlt]

variable [DecidableEq α]

/-- The first slot in use that holds the entry gets what the last one holds. -/
def remove (a : Slots α) (x : α) : Slots α :=
  match (List.range a.count).find? fun i => a.slot i = some x with
  | none => a
  | some i => ⟨Function.update a.slot i (a.slot (a.count - 1)), a.count - 1⟩

/-- The sweep from a list of slots on: the array it leaves and what it removed, in order. -/
def sweepFrom (a : Slots α) : List Nat → Slots α × List α
  | [] => (a, [])
  | i :: is =>
      match a.slot i with
      | none => sweepFrom a is
      | some x => ((sweepFrom (a.remove x) is).1, x :: (sweepFrom (a.remove x) is).2)

def sweep (a : Slots α) : Slots α × List α := a.sweepFrom (List.range a.count)

/-- The first slot that holds an entry. -/
theorem remove_eq {i : Nat} (hi : i < a.count) (hslot : a.slot i = some x)
    (hfirst : ∀ j < i, a.slot j ≠ some x) :
    a.remove x = ⟨Function.update a.slot i (a.slot (a.count - 1)), a.count - 1⟩ := by
  have hfind : ((List.range a.count).find? fun i => a.slot i = some x) = some i := by
    rw [List.find?_range_eq_some]
    refine ⟨by simpa using hslot, List.mem_range.mpr hi, ?_⟩
    intro j hj
    simpa using hfirst j hj
  simp only [remove, hfind]

theorem remove_absent (h : ∀ i < a.count, a.slot i ≠ some x) : a.remove x = a := by
  have hfind : ((List.range a.count).find? fun i => a.slot i = some x) = none := by
    rw [List.find?_range_eq_none]
    intro i hi
    simpa using h i hi
  simp only [remove, hfind]

theorem Holds.remove (h : a.Holds xs) (x : α) : (a.remove x).Holds (removeFrom xs x) := by
  by_cases hx : x ∈ xs
  · have hindex : xs.idxOf x < xs.length := List.idxOf_lt_length_of_mem hx
    have hget : xs[xs.idxOf x]? = some x := List.getElem?_idxOf hx
    have hne : xs ≠ [] := List.ne_nil_of_mem hx
    have hpos := List.length_pos_of_mem hx
    have hcount := h.count
    rw [remove_eq (h.count ▸ hindex) ((h.slot _ hindex).trans hget)]
    · unfold removeFrom
      rw [if_pos hx, List.getLast?_eq_some_getLast hne]
      refine ⟨by simp [h.count], ?_⟩
      intro i hi
      simp only [Option.map_some, Option.getD_some, List.length_dropLast, List.length_set] at hi ⊢
      have hlt : i < xs.length := by omega
      rw [List.getElem?_dropLast, List.length_set, if_pos hi, List.getElem?_set]
      by_cases heq : i = xs.idxOf x
      · rw [heq, Function.update_self, if_pos rfl, if_pos hindex, h.slot _ (by omega), h.count,
          ← List.getLast?_eq_getElem?, List.getLast?_eq_some_getLast hne]
      · rw [Function.update_of_ne heq, if_neg (Ne.symm heq), h.slot i hlt]
    · intro j hj hslot
      have hlt := hj.trans hindex
      rw [h.slot j hlt, List.getElem?_eq_getElem hlt, Option.some.injEq] at hslot
      have hbefore := List.not_of_lt_findIdx hj
      simp [hslot] at hbefore
  · unfold removeFrom
    rw [if_neg hx, remove_absent]
    · exact h
    · intro i hi hslot
      rw [h.slot i (h.count ▸ hi)] at hslot
      exact hx (List.mem_of_getElem? hslot)

/-- The array after the first entries of the list were removed: the slots ahead are as they
were, and the last entries have moved to the slots behind. -/
structure Swept (a : Slots α) (xs : List α) (i : Nat) : Prop where
  count : a.count = xs.length - i
  ahead : ∀ j, i ≤ j → j < xs.length → a.slot j = xs[j]?
  behind : ∀ j < i, j < xs.length - i → a.slot j = xs[xs.length - 1 - j]?

omit [DecidableEq α] in
theorem Holds.swept (h : a.Holds xs) : a.Swept xs 0 :=
  ⟨h.count, fun j _ hj => h.slot j hj, fun j hj => absurd hj (Nat.not_lt_zero j)⟩

/-- Where an entry stands when its turn comes: in its own slot in the first half, and in the
last slot in use in the second. -/
theorem Swept.remove {i : Nat} (h : a.Swept xs i) (hnodup : xs.Nodup) (hi : i < xs.length) :
    (a.remove xs[i]).Swept xs (i + 1) := by
  have hcount := h.count
  have hne : ∀ j < xs.length, j ≠ i → xs[j]? ≠ some xs[i] := by
    intro j hj hji hget
    rw [List.getElem?_eq_getElem hj, Option.some.injEq] at hget
    exact hji ((hnodup.getElem_inj_iff).mp hget)
  by_cases hhalf : i < xs.length - i
  · have hown : a.slot i = some xs[i] :=
      (h.ahead i le_rfl hi).trans (List.getElem?_eq_getElem hi)
    have hfirst : ∀ j < i, a.slot j ≠ some xs[i] := by
      intro j hj
      rw [h.behind j hj (by omega)]
      exact hne _ (by omega) (by omega)
    rw [remove_eq (by omega) hown hfirst]
    refine ⟨by simp only [hcount]; omega, ?_, ?_⟩
    · intro j hij hj
      dsimp only
      rw [Function.update_of_ne (show j ≠ i by omega)]
      exact h.ahead j (by omega) hj
    · intro j hji hj
      dsimp only
      by_cases heq : j = i
      · rw [heq, Function.update_self, h.ahead _ (by omega) (by omega), hcount]
        congr 1
        omega
      · rw [Function.update_of_ne heq]
        exact h.behind j (by omega) (by omega)
  · have hlast : a.slot (xs.length - 1 - i) = some xs[i] := by
      rw [h.behind _ (by omega) (by omega),
        show xs.length - 1 - (xs.length - 1 - i) = i by omega]
      exact List.getElem?_eq_getElem hi
    have hfirst : ∀ j < xs.length - 1 - i, a.slot j ≠ some xs[i] := by
      intro j hj
      rw [h.behind j (by omega) (by omega)]
      exact hne _ (by omega) (by omega)
    have hsame : a.count - 1 = xs.length - 1 - i := by omega
    rw [remove_eq (by omega) hlast hfirst, hsame, Function.update_eq_self]
    refine ⟨by dsimp only; omega, ?_, ?_⟩
    · intro j hij hj
      exact h.ahead j (by omega) hj
    · intro j hji hj
      exact h.behind j (by omega) (by omega)

theorem Swept.sweepFrom {i k : Nat} (h : a.Swept xs i) (hnodup : xs.Nodup)
    (hk : i + k = xs.length) :
    (a.sweepFrom (List.range' i k)).2 = xs.drop i ∧
      (a.sweepFrom (List.range' i k)).1.count = 0 := by
  induction k generalizing a i with
  | zero =>
      have hend : xs.length ≤ i := by omega
      have hcount := h.count
      refine ⟨(List.drop_eq_nil_of_le hend).symm, ?_⟩
      change a.count = 0
      omega
  | succ k ih =>
      have hi : i < xs.length := by omega
      have hown : a.slot i = some xs[i] :=
        (h.ahead i le_rfl hi).trans (List.getElem?_eq_getElem hi)
      obtain ⟨hrest, hzero⟩ := ih (h.remove hnodup hi) (by omega)
      rw [List.range'_succ, Slots.sweepFrom, hown]
      dsimp only
      refine ⟨?_, hzero⟩
      rw [hrest, List.drop_eq_getElem_cons hi]

/-- A sweep removes every entry once, in order, and leaves no slot in use. -/
theorem Holds.sweep (h : a.Holds xs) (hnodup : xs.Nodup) :
    a.sweep.2 = xs ∧ a.sweep.1.count = 0 := by
  unfold Slots.sweep
  rw [List.range_eq_range', h.count]
  exact h.swept.sweepFrom hnodup (Nat.zero_add _)

end Slots

end SwapRemove

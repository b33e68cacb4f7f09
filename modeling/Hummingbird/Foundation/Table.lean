import Mathlib.Tactic
import Mathlib.Data.List.GetD

/-!
Lists used as tables: what a lookup with a default sees after an entry was set or
modified, and after a whole list of entries was folded in.
-/

namespace Table

variable {α ε : Type}

theorem getD_set {l : List α} {i j : Nat} {a d : α} :
    (l.set i a).getD j d = if i = j ∧ j < l.length then a else l.getD j d := by
  by_cases hij : i = j
  · subst hij
    by_cases hi : i < l.length
    · simp [hi]
    · simp [hi]
  · simp [hij, List.getD_eq_getElem?_getD, List.getElem?_set_ne hij]

theorem getD_modify {l : List α} {i j : Nat} {f : α → α} {d : α} (hj : j < l.length) :
    (l.modify i f).getD j d = if i = j then f (l.getD j d) else l.getD j d := by
  rw [List.getD_eq_getElem?_getD, List.getElem?_modify, List.getD_eq_getElem _ _ hj]
  by_cases hij : i = j
  · simp [hij, hj]
  · simp [hij, hj]

/-- Appending `x e` to the row `k e` for every `e` of a list. -/
theorem getD_foldl_append {k : ε → Nat} {x : ε → α} {es : List ε} {l : List (List α)} {j : Nat}
    (hj : j < l.length) :
    (es.foldl (fun l e => l.modify (k e) (· ++ [x e])) l).getD j [] =
      l.getD j [] ++ (es.filter (k · = j)).map x := by
  induction es generalizing l with
  | nil => simp
  | cons e es ih =>
      rw [List.foldl_cons, ih (by simpa using hj), getD_modify hj]
      by_cases he : k e = j
      · simp [he]
      · simp [he]

/-- Counting the entries of a list by row, in arithmetic modulo `m`. -/
theorem getD_foldl_count {k : ε → Nat} {es : List ε} {l : List Nat} {j m : Nat}
    (hj : j < l.length) (hm : l.getD j 0 + es.length < m) :
    (es.foldl (fun l e => l.modify (k e) fun n => (n + 1) % m) l).getD j 0 =
      l.getD j 0 + es.countP (k · = j) := by
  induction es generalizing l with
  | nil => simp
  | cons e es ih =>
      rw [List.length_cons] at hm
      have hrow : (l.modify (k e) fun n => (n + 1) % m).getD j 0 =
          l.getD j 0 + if k e = j then 1 else 0 := by
        rw [getD_modify hj]
        by_cases he : k e = j
        · rw [if_pos he, if_pos he, Nat.mod_eq_of_lt (by omega)]
        · simp [he]
      rw [List.foldl_cons, ih (by simpa using hj) (by rw [hrow]; split <;> omega), hrow,
        List.countP_cons]
      simp only [decide_eq_true_eq]
      omega

theorem length_foldl_modify {k : ε → Nat} {f : ε → α → α} {es : List ε} {l : List α} :
    (es.foldl (fun l e => l.modify (k e) (f e)) l).length = l.length := by
  induction es generalizing l with
  | nil => rfl
  | cons e es ih => rw [List.foldl_cons, ih, List.length_modify]

/-- An entry and the others: whatever the entry becomes, the others stay. -/
theorem exists_others {l : List α} {i : Nat} {a : α} (h : l[i]? = some a) :
    ∃ others, l.Perm (a :: others) ∧ ∀ a', (l.set i a').Perm (a' :: others) := by
  obtain ⟨hi, rfl⟩ := List.getElem?_eq_some_iff.mp h
  exact ⟨l.eraseIdx i, (List.getElem_cons_eraseIdx_perm hi).symm,
    fun a' => List.set_perm_cons_eraseIdx hi a'⟩

theorem countP_set {l : List α} {i : Nat} {a : α} (h : l[i]? = some a) (f : α → Bool) (a' : α) :
    (l.set i a').countP f + (f a).toNat = l.countP f + (f a').toNat := by
  obtain ⟨others, hbefore, hafter⟩ := exists_others h
  rw [hbefore.countP_eq, (hafter a').countP_eq, List.countP_cons, List.countP_cons]
  cases f a with
  | false =>
      cases f a' with
      | false => simp
      | true => simp
  | true =>
      cases f a' with
      | false => simp
      | true => simp

/-- What one entry contributes to a selection, beside what the others do. -/
theorem filterMap_set {β : Type} {l : List α} {i : Nat} {a : α} (h : l[i]? = some a)
    (f : α → Option β) :
    ∃ rest, (l.filterMap f).Perm ((f a).toList ++ rest) ∧
      ∀ a', ((l.set i a').filterMap f).Perm ((f a').toList ++ rest) := by
  obtain ⟨others, hbefore, hafter⟩ := exists_others h
  have hcons : ∀ a', (a' :: others).filterMap f = (f a').toList ++ others.filterMap f := by
    intro a'
    rw [List.filterMap_cons]
    cases f a' with
    | none => rfl
    | some b => rfl
  refine ⟨others.filterMap f, (hcons a) ▸ hbefore.filterMap f, ?_⟩
  intro a'
  exact (hcons a') ▸ (hafter a').filterMap f

theorem filterMap_set_perm {β : Type} {l : List α} {i : Nat} {a a' : α} (h : l[i]? = some a)
    {f : α → Option β} (hf : f a' = f a) : ((l.set i a').filterMap f).Perm (l.filterMap f) := by
  obtain ⟨rest, hbefore, hafter⟩ := filterMap_set h f
  exact (hafter a').trans (hf ▸ hbefore.symm)

/-- Selecting the positions of a table selects its entries. -/
theorem filter_range_map {β : Type} (f : α → Bool) (g : α → β) (d : β) (l : List α) :
    ((List.range l.length).filter fun i => l[i]?.any f).map (fun i => (l[i]?.map g).getD d) =
      (l.filter f).map g := by
  induction l with
  | nil => rfl
  | cons a l ih =>
      rw [List.length_cons, List.range_succ_eq_map, List.filter_cons, List.filter_cons]
      have hrest : (((List.range l.length).map Nat.succ).filter fun i => (a :: l)[i]?.any f).map
          (fun i => ((a :: l)[i]?.map g).getD d) = (l.filter f).map g := by
        rw [List.filter_map, List.map_map, ← ih]
        rfl
      cases ha : f a with
      | false => simpa [ha] using hrest
      | true => simpa [ha] using hrest

/-- Writing an entry that is already there. -/
theorem set_self {l : List α} {i : Nat} {a : α} (h : l[i]? = some a) : l.set i a = l := by
  obtain ⟨hi, rfl⟩ := List.getElem?_eq_some_iff.mp h
  exact List.set_getElem_self hi

theorem getElem?_set_of {l : List α} {i : Nat} {a : α} (h : l[i]? = some a) (a' : α) (j : Nat) :
    (l.set i a')[j]? = if i = j then some a' else l[j]? := by
  obtain ⟨hi, rfl⟩ := List.getElem?_eq_some_iff.mp h
  rw [List.getElem?_set]
  by_cases hij : i = j
  · subst hij
    simp [hi]
  · simp [hij]

theorem sum_map_set {l : List α} {i : Nat} {a : α} (h : l[i]? = some a) (f : α → Nat) (a' : α) :
    ((l.set i a').map f).sum + f a = (l.map f).sum + f a' := by
  obtain ⟨others, hbefore, hafter⟩ := exists_others h
  rw [((hafter a').map f).sum_eq, (hbefore.map f).sum_eq, List.map_cons, List.map_cons,
    List.sum_cons, List.sum_cons]
  omega

end Table

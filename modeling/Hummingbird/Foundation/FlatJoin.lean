import Mathlib.Order.Bounds.Basic

/-!
The partial join of a flat order: one element lies below all others, and no two others are
related. Two elements have a join when they are equal or one of them is the bottom.
-/

namespace FlatJoin

variable {α : Type} {e x y z : α}

/-- Only the bottom `e` lies below another element. -/
def Le (e x y : α) : Prop := x = e ∨ x = y

theorem Le.refl (e x : α) : Le e x x := Or.inr rfl

theorem Le.trans (hxy : Le e x y) (hyz : Le e y z) : Le e x z := by
  rcases hxy with rfl | rfl
  · exact Or.inl rfl
  · exact hyz

theorem Le.antisymm (hxy : Le e x y) (hyx : Le e y x) : x = y := by
  rcases hxy with rfl | rfl
  · rcases hyx with rfl | rfl <;> rfl
  · rfl

variable [DecidableEq α]

def join (e x y : α) : Option α :=
  if x = y then some x
  else if x = e then some y
  else if y = e then some x
  else none

@[simp]
theorem join_self (e x : α) : join e x x = some x := if_pos rfl

@[simp]
theorem bot_join (e x : α) : join e e x = some x := by
  by_cases h : e = x
  · simp [join, h]
  · simp [join, h]

@[simp]
theorem join_bot (e x : α) : join e x e = some x := by
  by_cases h : x = e
  · simp [join, h]
  · simp [join, h]

theorem join_of_ne (hx : x ≠ e) (hy : y ≠ e) : join e x y = if x = y then some x else none := by
  simp [join, hx, hy]

theorem join_eq_none_iff : join e x y = none ↔ x ≠ y ∧ x ≠ e ∧ y ≠ e := by
  by_cases hx : x = e
  · simp [hx]
  · by_cases hy : y = e
    · simp [hy]
    · simp [join_of_ne hx hy, hx, hy]

/-- A join is the least element above both. -/
theorem join_eq_some_iff :
    join e x y = some z ↔
      (Le e x z ∧ Le e y z) ∧ ∀ w, Le e x w → Le e y w → Le e z w := by
  constructor
  · intro h
    unfold join at h
    split at h
    · cases h
      rename_i hxy
      exact ⟨⟨Le.refl e x, Or.inr hxy.symm⟩, fun w hw _ => hw⟩
    · split at h
      · cases h
        rename_i hx
        exact ⟨⟨Or.inl hx, Le.refl e y⟩, fun w _ hw => hw⟩
      · split at h
        · cases h
          rename_i hy
          exact ⟨⟨Le.refl e x, Or.inl hy⟩, fun w hw _ => hw⟩
        · cases h
  · rintro ⟨⟨hx, hy⟩, hleast⟩
    rcases hx with rfl | rfl
    · rcases hy with rfl | rfl
      · have hz := hleast y (Le.refl y y) (Le.refl y y)
        rcases hz with rfl | rfl <;> exact join_self _ _
      · exact bot_join _ _
    · rcases hy with rfl | rfl
      · exact join_bot _ _
      · exact join_self _ _

/-- Two elements have a join as soon as something lies above both. -/
theorem exists_join_of_le {w : α} (hx : Le e x w) (hy : Le e y w) : ∃ z, join e x y = some z := by
  rw [← Option.ne_none_iff_exists']
  intro hnone
  obtain ⟨hxy, hxe, hye⟩ := join_eq_none_iff.mp hnone
  exact hxy ((hx.resolve_left hxe).trans (hy.resolve_left hye).symm)

end FlatJoin

import Mathlib.Tactic

/-!
Intrusive doubly linked lists. Nodes are names, the links are two maps from a node to a
neighbour or to nothing, and a list of nodes is threaded on the maps when each node points
to the one before it and to the one behind it. A segment of such a list also says what
stands at its two ends, so that a list can be cut and joined.
-/

namespace Linked

variable {ι : Type}

/-- The nodes of a segment, linked to each other; `p` stands before it and `n` behind. -/
def Segment (next prev : ι → Option ι) : Option ι → List ι → Option ι → Prop
  | _, [], _ => True
  | p, x :: xs, n => prev x = p ∧ next x = xs.head?.or n ∧ Segment next prev (some x) xs n

variable {next next' prev prev' : ι → Option ι} {p n : Option ι} {l l₁ l₂ : List ι} {x : ι}

theorem Segment.congr (h : Segment next prev p l n) (hnext : ∀ x ∈ l, next' x = next x)
    (hprev : ∀ x ∈ l, prev' x = prev x) : Segment next' prev' p l n := by
  induction l generalizing p with
  | nil => trivial
  | cons x xs ih =>
      obtain ⟨hp, hn, hrest⟩ := h
      refine ⟨?_, ?_, ?_⟩
      · rw [hprev x (by simp), hp]
      · rw [hnext x (by simp), hn]
      · exact ih hrest (fun y hy => hnext y (by simp [hy])) fun y hy => hprev y (by simp [hy])

/-- A list that is cut into two segments. -/
theorem segment_append : Segment next prev p (l₁ ++ l₂) n ↔
    Segment next prev p l₁ (l₂.head?.or n) ∧ Segment next prev (l₁.getLast?.or p) l₂ n := by
  induction l₁ generalizing p with
  | nil => simp [Segment]
  | cons x xs ih =>
      have hhead : (xs ++ l₂).head?.or n = xs.head?.or (l₂.head?.or n) := by
        cases xs with
        | nil => rfl
        | cons y ys => rfl
      have hlast : (x :: xs).getLast?.or p = xs.getLast?.or (some x) := by
        rw [List.getLast?_cons]
        cases xs.getLast? with
        | none => rfl
        | some y => rfl
      rw [hlast]
      simp only [List.cons_append, Segment, hhead, ih]
      tauto

/-- What the two links of a node in the middle of a list say. -/
theorem links_of_segment (h : Segment next prev none (l₁ ++ x :: l₂) none) :
    prev x = l₁.getLast? ∧ next x = l₂.head? := by
  obtain ⟨-, hp, hn, -⟩ := segment_append.mp h
  rw [Option.or_none] at hp hn
  exact ⟨hp, hn⟩

theorem getLast?_ne_of_notMem (h : x ∉ l) : l.getLast? ≠ some x := by
  intro hlast
  exact h (List.mem_of_getLast? hlast)

theorem head?_ne_of_notMem (h : x ∉ l) : l.head? ≠ some x := by
  intro hhead
  exact h (List.mem_of_head? hhead)

variable [DecidableEq ι]

/-- Writing through a pointer that may point nowhere. -/
def assign (f : ι → Option ι) : Option ι → Option ι → ι → Option ι
  | none, _ => f
  | some x, v => Function.update f x v

theorem assign_of_ne {f : ι → Option ι} {o v : Option ι} (h : o ≠ some x) :
    assign f o v x = f x := by
  cases o with
  | none => rfl
  | some y =>
      apply Function.update_of_ne
      rintro rfl
      exact h rfl

theorem assign_some (f : ι → Option ι) (v : Option ι) : assign f (some x) v x = v := by
  simp [assign]

/-- The last node of a segment is pointed to something else. -/
theorem Segment.setEnd (h : Segment next prev p l n) (hnodup : l.Nodup) (n' : Option ι) :
    Segment (assign next l.getLast? n') prev p l n' := by
  induction l generalizing p with
  | nil => trivial
  | cons x xs ih =>
      obtain ⟨hp, hn, hrest⟩ := h
      obtain ⟨hx, hxs⟩ := List.nodup_cons.mp hnodup
      cases xs with
      | nil => exact ⟨hp, assign_some next n', trivial⟩
      | cons y ys =>
          have hlast : (x :: y :: ys).getLast? = (y :: ys).getLast? := List.getLast?_cons_cons
          rw [hlast]
          refine ⟨hp, ?_, ih hrest hxs⟩
          rw [assign_of_ne (getLast?_ne_of_notMem hx), hn]
          rfl

/-- The first node of a segment is pointed back to something else. -/
theorem Segment.setStart (h : Segment next prev p l n) (hnodup : l.Nodup) (p' : Option ι) :
    Segment next (assign prev l.head? p') p' l n := by
  cases l with
  | nil => trivial
  | cons x xs =>
      obtain ⟨-, hn, hrest⟩ := h
      have hx := (List.nodup_cons.mp hnodup).1
      refine ⟨assign_some prev p', hn, hrest.congr (fun y _ => rfl) ?_⟩
      intro y hy
      apply assign_of_ne
      intro heq
      rw [Option.some.inj heq] at hx
      exact hx hy

/-- A node is put in front. -/
theorem segment_link (h : Segment next prev none l none) (hnodup : l.Nodup) (hx : x ∉ l) :
    Segment (Function.update next x l.head?) (assign (Function.update prev x none) l.head? (some x))
      none (x :: l) none := by
  have hne : ∀ y ∈ l, y ≠ x := by
    rintro y hy rfl
    exact hx hy
  have hold : Segment (Function.update next x l.head?) (Function.update prev x none) none l none :=
    h.congr (fun y hy => Function.update_of_ne (hne y hy) _ _)
      fun y hy => Function.update_of_ne (hne y hy) _ _
  refine ⟨?_, ?_, hold.setStart hnodup (some x)⟩
  · rw [assign_of_ne (head?_ne_of_notMem hx), Function.update_self]
  · rw [Function.update_self, Option.or_none]

/-- A node is taken out: its neighbours are pointed to each other. -/
theorem segment_unlink (h : Segment next prev none (l₁ ++ x :: l₂) none)
    (hnodup : (l₁ ++ x :: l₂).Nodup) :
    Segment (Function.update (assign next (prev x) (next x)) x none)
      (Function.update (assign prev (next x) (prev x)) x none) none (l₁ ++ l₂) none := by
  obtain ⟨hp, hn⟩ := links_of_segment h
  obtain ⟨hfront, -, -, hback⟩ := segment_append.mp h
  obtain ⟨hnodup₁, hnodup₂, hapart⟩ := List.nodup_append.mp hnodup
  obtain ⟨hx₂, hnodup₂⟩ := List.nodup_cons.mp hnodup₂
  have hx₁ : x ∉ l₁ := fun hmem => hapart x hmem x (by simp) rfl
  have hne₁ : ∀ y ∈ l₁, y ≠ x := by
    rintro y hy rfl
    exact hx₁ hy
  have hne₂ : ∀ y ∈ l₂, y ≠ x := by
    rintro y hy rfl
    exact hx₂ hy
  rw [hp, hn]
  refine segment_append.mpr ⟨?_, ?_⟩
  · rw [Option.or_none]
    refine (hfront.setEnd hnodup₁ l₂.head?).congr ?_ ?_
    · intro y hy
      exact Function.update_of_ne (hne₁ y hy) _ _
    · intro y hy
      rw [Function.update_of_ne (hne₁ y hy)]
      apply assign_of_ne
      intro heq
      exact hapart y hy y (by simp [List.mem_of_head? heq]) rfl
  · rw [Option.or_none]
    refine (hback.setStart hnodup₂ l₁.getLast?).congr ?_ ?_
    · intro y hy
      rw [Function.update_of_ne (hne₂ y hy)]
      apply assign_of_ne
      intro heq
      exact hapart y (List.mem_of_getLast? heq) y (by simp [hy]) rfl
    · intro y hy
      exact Function.update_of_ne (hne₂ y hy) _ _

end Linked

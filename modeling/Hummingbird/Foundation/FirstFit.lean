import Mathlib.Tactic

/-!
The search loop of a first-fit placement: round the candidate offset up, look for
the first block it clashes with, continue behind that block, and stop when there is
none. Rounding, clashing and the end of a block are parameters, so that the search
can be run in any arithmetic.
-/

namespace FirstFit

variable {β : Type} (align : Nat → Nat) (clash : Nat → β → Bool) (next : β → Nat)

def search (blocks : List β) : Nat → Nat → Option Nat
  | 0, _ => none
  | fuel + 1, off =>
      match blocks.find? (clash (align off)) with
      | none => some (align off)
      | some b => search blocks fuel (next b)

variable {align clash next} {blocks : List β}

/-- The offset found clashes with no block, and it is the rounded start or the
rounded end of a block. -/
theorem search_eq_some {fuel off r : Nat}
    (h : search align clash next blocks fuel off = some r) :
    (∀ b ∈ blocks, clash r b = false) ∧
      (r = align off ∨ ∃ b ∈ blocks, r = align (next b)) := by
  induction fuel generalizing off with
  | zero => simp [search] at h
  | succ fuel ih =>
      rw [search] at h
      cases hfind : blocks.find? (clash (align off)) with
      | none =>
          simp only [hfind, Option.some.injEq] at h
          subst h
          refine ⟨?_, Or.inl rfl⟩
          intro b hb
          simpa using List.find?_eq_none.mp hfind b hb
      | some b =>
          simp only [hfind] at h
          obtain ⟨hfree, hr⟩ := ih h
          refine ⟨hfree, Or.inr ?_⟩
          rcases hr with rfl | hr
          · exact ⟨b, List.mem_of_find?_eq_some hfind, rfl⟩
          · exact hr

/-- Blocks that still end behind an offset. -/
def ahead (next : β → Nat) (blocks : List β) (off : Nat) : Nat :=
  blocks.countP fun b => off < next b

theorem ahead_lt {off : Nat} {b : β} (hb : b ∈ blocks) (hlt : off < next b) :
    ahead next blocks (next b) < ahead next blocks off := by
  unfold ahead
  induction blocks with
  | nil => simp at hb
  | cons c cs ih =>
      have hmono : cs.countP (fun d => next b < next d) ≤ cs.countP (fun d => off < next d) := by
        apply List.countP_mono_left
        intro d _ hd
        simp only [decide_eq_true_eq] at hd ⊢
        omega
      rw [List.countP_cons, List.countP_cons]
      rcases List.mem_cons.mp hb with rfl | hb
      · simp only [lt_self_iff_false, decide_false, hlt, decide_true]
        simp only [Bool.false_eq_true, if_false, if_true]
        omega
      · have hrest := ih hb
        by_cases hc : next b < next c
        · have hc' : off < next c := hlt.trans hc
          simp only [hc, hc', decide_true, if_true]
          omega
        · simp only [hc, decide_false, Bool.false_eq_true, if_false]
          omega

/-- Every clash puts one more block behind the candidate for good, so the search
ends within one more step than there are blocks. -/
theorem search_total {off fuel : Nat}
    (halign : ∀ x, x = off ∨ (∃ b ∈ blocks, x = next b) → x ≤ align x)
    (hclash : ∀ x, ∀ b ∈ blocks, clash x b = true → x < next b)
    (hfuel : ahead next blocks off < fuel) :
    ∃ r, ∀ more, search align clash next blocks (fuel + more) off = some r := by
  induction fuel generalizing off with
  | zero => omega
  | succ fuel ih =>
      cases hfind : blocks.find? (clash (align off)) with
      | none =>
          refine ⟨align off, fun more => ?_⟩
          rw [Nat.add_right_comm, search, hfind]
      | some b =>
          have hb := List.mem_of_find?_eq_some hfind
          have hlt : off < next b :=
            lt_of_le_of_lt (halign off (Or.inl rfl)) (hclash _ b hb (List.find?_some hfind))
          have hless := ahead_lt hb hlt
          obtain ⟨r, hr⟩ := @ih (next b) (by
            rintro x (rfl | hx)
            · exact halign _ (Or.inr ⟨b, hb, rfl⟩)
            · exact halign _ (Or.inr hx)) (by omega)
          refine ⟨r, fun more => ?_⟩
          rw [Nat.add_right_comm, search, hfind]
          exact hr more

end FirstFit

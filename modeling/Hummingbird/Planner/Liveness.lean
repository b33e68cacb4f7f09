import Hummingbird.Planner.Plan

/-!
What the liveness analysis computes: a range that covers every position of the
execution order at which its value is read or written, and that is empty only for
values nothing touches.
-/

namespace Hummingbird

/-- The node at a position of the execution order reads or writes a value. -/
def Graph.Touches (g : Graph) (topoIdx vid : Nat) : Prop :=
  ∃ node, g.scheduled topoIdx = some node ∧ (vid ∈ node.inputs ∨ vid ∈ node.outputs)

/-- The ranges cover the touches `P` made so far, and start at one of them. -/
structure RangesCover (numValues : Nat) (P : Nat → Nat → Prop) (ranges : List LiveRange) :
    Prop where
  length_eq : ranges.length = numValues
  value_id : ∀ (vid : Nat) (r : LiveRange), ranges[vid]? = some r → r.valueId = vid
  covers : ∀ (vid : Nat) (r : LiveRange), ranges[vid]? = some r →
    ∀ i, P i vid → r.firstUse ≤ i ∧ i ≤ r.lastUse
  starts : ∀ (vid : Nat) (r : LiveRange), ranges[vid]? = some r →
    r.firstUse = uint32Max ∨ P r.firstUse vid

theorem resetRanges_cover (numValues : Nat) :
    RangesCover numValues (fun _ _ => False) (resetRanges numValues) := by
  have hget : ∀ (vid : Nat) (r : LiveRange), (resetRanges numValues)[vid]? = some r →
      r = ⟨vid, uint32Max, 0, 0, 0⟩ := by
    intro vid r hr
    have hlt : vid < numValues := by
      have := (List.getElem?_eq_some_iff.mp hr).1
      simpa [resetRanges] using this
    rw [resetRanges, List.getElem?_map, List.getElem?_range hlt, Option.map_some] at hr
    exact (Option.some.inj hr).symm
  refine ⟨by simp [resetRanges], ?_, ?_, ?_⟩
  · intro vid r hr
    rw [hget vid r hr]
  · intro vid r hr i hi
    exact hi.elim
  · intro vid r hr
    rw [hget vid r hr]
    exact Or.inl rfl

/-- A touch changes the range of one value. -/
theorem touchRange_get {j vid v : Nat} {ranges : List LiveRange} {r : LiveRange}
    (hr : (touchRange j ranges vid)[v]? = some r) :
    ∃ old : LiveRange, ranges[v]? = some old ∧
      (v ≠ vid ∧ r = old ∨ v = vid ∧ r = { old with
        firstUse := if old.firstUse = uint32Max then j else old.firstUse
        lastUse := if j > old.lastUse then j else old.lastUse }) := by
  rw [touchRange, List.getElem?_modify] at hr
  cases hold : ranges[v]? with
  | none => simp [hold] at hr
  | some old =>
      simp only [hold, Option.map_eq_map, Option.map_some, Option.some.injEq] at hr
      refine ⟨old, rfl, ?_⟩
      by_cases hv : vid = v
      · rw [if_pos hv] at hr
        exact Or.inr ⟨hv.symm, hr.symm⟩
      · rw [if_neg hv] at hr
        exact Or.inl ⟨Ne.symm hv, hr.symm⟩

/-- One touch, at a position not before any earlier one. -/
theorem RangesCover.touch {numValues j : Nat} {P : Nat → Nat → Prop}
    {ranges : List LiveRange} (h : RangesCover numValues P ranges) (vid : Nat)
    (hlast : ∀ i v, P i v → i ≤ j) (hj : j < uint32Max) :
    RangesCover numValues (fun i v => P i v ∨ (i = j ∧ v = vid)) (touchRange j ranges vid) := by
  refine ⟨by simpa [touchRange] using h.length_eq, ?_, ?_, ?_⟩
  · intro v r hr
    obtain ⟨old, hold, ⟨_, rfl⟩ | ⟨_, rfl⟩⟩ := touchRange_get hr
    · exact h.value_id v _ hold
    · exact h.value_id v old hold
  · intro v r hr i hi
    obtain ⟨old, hold, ⟨hv, rfl⟩ | ⟨rfl, rfl⟩⟩ := touchRange_get hr
    · exact h.covers v _ hold i (hi.resolve_right fun hnew => hv hnew.2)
    · have hstart := h.starts v old hold
      simp only
      rcases hi with hi | ⟨rfl, _⟩
      · obtain ⟨hfirst, hend⟩ := h.covers v old hold i hi
        have hij := hlast i v hi
        have hne : old.firstUse ≠ uint32Max := by omega
        rw [if_neg hne]
        exact ⟨hfirst, by split <;> omega⟩
      · rcases hstart with hmax | hp
        · rw [if_pos hmax]
          exact ⟨le_rfl, by split <;> omega⟩
        · have hle := hlast _ v hp
          exact ⟨by split <;> omega, by split <;> omega⟩
  · intro v r hr
    obtain ⟨old, hold, ⟨_, rfl⟩ | ⟨rfl, rfl⟩⟩ := touchRange_get hr
    · rcases h.starts v _ hold with hmax | hp
      · exact Or.inl hmax
      · exact Or.inr (Or.inl hp)
    · by_cases hmax : old.firstUse = uint32Max
      · exact Or.inr (Or.inr ⟨by simp [hmax], rfl⟩)
      · rcases h.starts v old hold with hmax' | hp
        · exact absurd hmax' hmax
        · refine Or.inr (Or.inl ?_)
          simpa [hmax] using hp

theorem RangesCover.congr {numValues : Nat} {P Q : Nat → Nat → Prop} {ranges : List LiveRange}
    (h : RangesCover numValues P ranges) (hpq : ∀ i v, P i v ↔ Q i v) :
    RangesCover numValues Q ranges := by
  have : P = Q := funext fun i => funext fun v => propext (hpq i v)
  exact this ▸ h

/-- All inputs or all outputs of one node. -/
theorem RangesCover.touch_all {numValues j : Nat} {P : Nat → Nat → Prop}
    {ranges : List LiveRange} (h : RangesCover numValues P ranges) (vids : List Nat)
    (hlast : ∀ i v, P i v → i ≤ j) (hj : j < uint32Max) :
    RangesCover numValues (fun i v => P i v ∨ (i = j ∧ v ∈ vids))
      (vids.foldl (touchRange j) ranges) := by
  induction vids generalizing P ranges with
  | nil => exact h.congr fun i v => by simp
  | cons vid vids ih =>
      have hstep := h.touch vid hlast hj
      have hrest := ih hstep (by
        rintro i v (hp | ⟨rfl, _⟩)
        · exact hlast i v hp
        · exact le_rfl)
      refine hrest.congr fun i v => ?_
      simp only [List.mem_cons]
      tauto

/-- All operands of one node. -/
theorem RangesCover.touch_node {numValues j : Nat} {P : Nat → Nat → Prop}
    {ranges : List LiveRange} (h : RangesCover numValues P ranges) (node : Node)
    (hlast : ∀ i v, P i v → i ≤ j) (hj : j < uint32Max) :
    RangesCover numValues
      (fun i v => P i v ∨ (i = j ∧ (v ∈ node.inputs ∨ v ∈ node.outputs)))
      (node.outputs.foldl (touchRange j) (node.inputs.foldl (touchRange j) ranges)) := by
  have hin := h.touch_all node.inputs hlast hj
  have hout := hin.touch_all node.outputs (by
    rintro i v (hp | ⟨rfl, _⟩)
    · exact hlast i v hp
    · exact le_rfl) hj
  refine hout.congr fun i v => ?_
  tauto

/-- The loop over the execution order from position `k`. -/
theorem livenessLoop_cover {g : Graph} {k m : Nat} {P : Nat → Nat → Prop}
    {ranges : List LiveRange} (h : RangesCover (hbiGraphNumValues g) P ranges)
    (hlast : ∀ i v, P i v → i ≤ k) (hkm : k + m ≤ uint32Max) :
    RangesCover (hbiGraphNumValues g)
      (fun i v => P i v ∨ (k ≤ i ∧ i < k + m ∧ g.Touches i v))
      (livenessLoop g (List.range' k m) ranges) := by
  induction m generalizing k P ranges with
  | zero =>
      refine h.congr fun i v => ?_
      constructor
      · exact Or.inl
      · rintro (hp | ⟨hle, hlt, _⟩)
        · exact hp
        · omega
  | succ m ih =>
      rw [List.range'_succ, livenessLoop]
      cases hnode : g.scheduled k with
      | none =>
          refine (ih h (fun i v hp => (hlast i v hp).trans (Nat.le_succ k)) (by omega)).congr
            fun i v => ?_
          constructor
          · rintro (hp | ⟨hle, hlt, ht⟩)
            · exact Or.inl hp
            · exact Or.inr ⟨by omega, by omega, ht⟩
          · rintro (hp | ⟨hle, hlt, ht⟩)
            · exact Or.inl hp
            · refine Or.inr ⟨?_, by omega, ht⟩
              by_contra hgt
              obtain ⟨node, hn, _⟩ := ht
              have hik : i = k := by omega
              rw [hik, hnode] at hn
              simp at hn
      | some node =>
          have hrest := ih (h.touch_node node hlast (by omega)) (by
            rintro i v (hp | ⟨rfl, _⟩)
            · exact (hlast i v hp).trans (Nat.le_succ k)
            · exact Nat.le_succ _) (by omega)
          refine hrest.congr fun i v => ?_
          have hiff : g.Touches k v ↔ v ∈ node.inputs ∨ v ∈ node.outputs := by
            simp [Graph.Touches, hnode]
          constructor
          · rintro ((hp | ⟨rfl, hv⟩) | ⟨hle, hlt, ht⟩)
            · exact Or.inl hp
            · exact Or.inr ⟨le_rfl, by omega, hiff.mpr hv⟩
            · exact Or.inr ⟨by omega, by omega, ht⟩
          · rintro (hp | ⟨hle, hlt, ht⟩)
            · exact Or.inl (Or.inl hp)
            · by_cases hik : i = k
              · subst hik
                exact Or.inl (Or.inr ⟨rfl, hiff.mp ht⟩)
              · exact Or.inr ⟨by omega, by omega, ht⟩

/-- The finished analysis covers every touch. -/
theorem liveRanges_cover {g : Graph} (hn : hbiGraphNumNodes g ≤ uint32Max) :
    RangesCover (hbiGraphNumValues g)
      (fun i v => i < hbiGraphNumNodes g ∧ g.Touches i v) (liveRanges g) := by
  have hloop := @livenessLoop_cover g 0 (hbiGraphNumNodes g) _ _ (resetRanges_cover _)
    (by simp) (by omega)
  rw [← List.range_eq_range'] at hloop
  exact hloop.congr fun i v => by simp

end Hummingbird

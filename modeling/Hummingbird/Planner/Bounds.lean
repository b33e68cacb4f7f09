import Hummingbird.Planner.Sound
import Hummingbird.Foundation.Intervals

/-!
How large the pool of a plan is. The pool ends where some block does, and every block ends
within the rounded sizes of the blocks placed up to it: reuse never costs more than giving every
value memory of its own. What is live at one position lies side by side in the pool.
-/

namespace Hummingbird

/-- The values that get memory from the pool. -/
def Graph.pooled (g : Graph) : List Value := g.values.filter fun val => !val.isExternal

/-- Sum of the sizes of these values. -/
def Graph.naiveBytes (g : Graph) : Nat := (g.pooled.map valueBytes).sum

/-- Sum of their sizes, each rounded up to the alignment. -/
def Graph.pooledBytes (g : Graph) : Nat := (g.pooled.map fun val => round64 (valueBytes val)).sum

def Graph.valueSize (g : Graph) (vid : Nat) : Nat := ((g.values[vid]?).map valueBytes).getD 0

open Classical in
/-- The values that are live at a position. -/
noncomputable def Graph.liveAt (g : Graph) (t : Nat) : List Nat :=
  (List.range (hbiGraphNumValues g)).filter fun vid => decide (g.LiveAt vid t)

/-- Sum of their sizes. -/
noncomputable def Graph.liveBytes (g : Graph) (t : Nat) : Nat := ((g.liveAt t).map g.valueSize).sum

/-- What a plan costs, between what is live at once and what all values need, and what it
reports. -/
structure MemoryPlan.Bounded (g : Graph) (plan : MemoryPlan) : Prop where
  upper : hbiMemoryPlanPoolSize plan 0 ≤ g.pooledBytes
  lower : ∀ t, g.liveBytes t ≤ hbiMemoryPlanPoolSize plan 0
  peak : plan.stats.peakMemoryBytes = hbiMemoryPlanPoolSize plan 0 + plan.workspaceSize
  temporary : plan.stats.temporaryMemoryBytes = hbiMemoryPlanPoolSize plan 0
  naive : plan.stats.naiveMemoryBytes = g.naiveBytes

/-- The pool ends where a block does, unless nothing reaches beyond what it was. -/
theorem placeAll_peak {fuel : Nat} {rs : List LiveRange} {placed placed' : List Placed}
    {peak peak' : Nat} (h : placeAll fuel rs placed peak = some (placed', peak')) :
    placed ⊆ placed' ∧ (peak' = peak ∨ ∃ p ∈ placed', peak' = p.prevEnd) := by
  induction rs generalizing placed peak with
  | nil =>
      cases h
      exact ⟨fun _ hp => hp, Or.inl rfl⟩
  | cons r rs ih =>
      unfold placeAll at h
      split at h
      · cases h
      · rename_i off hoff
        obtain ⟨hsub, hpeak⟩ := ih h
        have hnew := hsub (List.mem_append_right placed (List.mem_singleton_self _))
        refine ⟨fun p hp => hsub (List.mem_append_left _ hp), ?_⟩
        rcases hpeak with heq | hend
        · split at heq
          · exact Or.inr ⟨_, hnew, heq⟩
          · exact Or.inl heq
        · exact Or.inr hend

/-- A placement within its rounded sizes has its peak within them. -/
theorem PlacedInv.peak_le {fuel total peak : Nat} {rs : List LiveRange} {placed : List Placed}
    (h : PlacedInv total placed) (hplaced : placeAll fuel rs [] 0 = some (placed, peak)) :
    peak ≤ total := by
  rcases (placeAll_peak hplaced).2 with rfl | ⟨p, hp, rfl⟩
  · exact Nat.zero_le _
  · have hbound := h.bounded p hp
    have hsize := le_round64 p.2.sizeBytes
    exact (Nat.mod_le _ _).trans (by omega)

/-- The sizes of the active ranges are those of the values that get memory. -/
theorem Builder.WellFormed.activeRanges_sizes {b : Builder} (hb : b.WellFormed) {α : Type}
    (f : Nat → α) : (activeRanges b.finished).map (fun r => f r.sizeBytes) =
      b.finished.pooled.map fun val => f (valueBytes val) := by
  have hvalues : b.finished.pooled = ((List.range (hbiGraphNumValues b.finished)).filterMap
      fun vid => b.values[vid]?).filter fun val => !val.isExternal := by
    unfold Graph.pooled hbiGraphNumValues
    rw [Builder.finished_values, filterMap_getElem?_range]
  rw [hvalues, activeRanges, List.map_filterMap, List.filter_filterMap, List.map_filterMap]
  apply List.filterMap_congr
  intro vid hvid
  have hlt : vid < b.values.length := List.mem_range.mp hvid
  have hval := List.getElem?_eq_getElem hlt
  have hsome := hb.activeRange_isSome hval
  rw [hval]
  cases hactive : activeRange b.finished (liveRanges b.finished) vid with
  | none =>
      rw [hactive] at hsome
      have hext : b.values[vid].isExternal = true := by simpa using hsome
      simp [hext]
  | some r =>
      rw [hactive] at hsome
      obtain ⟨val, old, hval', -, -, -, rfl⟩ := activeRange_eq_some hactive
      rw [Builder.finished_values, hval] at hval'
      cases hval'
      have hext : b.values[vid].isExternal = false := by simpa using hsome
      simp [hext]

theorem sumBytes_eq {sizes : List Nat} (h : sizes.sum < sizeTSize) :
    sumBytes sizes = sizes.sum := by
  have hfold : ∀ (acc : Nat), acc + sizes.sum < sizeTSize →
      sizes.foldl (fun acc n => (acc + n) % sizeTSize) acc = acc + sizes.sum := by
    clear h
    induction sizes with
    | nil => exact fun _ _ => rfl
    | cons n sizes ih =>
        intro acc hacc
        rw [List.sum_cons] at hacc ⊢
        rw [List.foldl_cons, Nat.mod_eq_of_lt (by omega), ih (acc + n) (by omega), Nat.add_assoc]
  have hsum := hfold 0 (by omega)
  rwa [Nat.zero_add] at hsum

theorem Graph.naiveBytes_le (g : Graph) : g.naiveBytes ≤ g.pooledBytes :=
  List.sum_le_sum fun val _ => le_round64 (valueBytes val)

/-- A value that is live somewhere is one that gets memory. -/
theorem Builder.WellFormed.live_pooled {b : Builder} (hb : b.WellFormed) {vid t : Nat}
    (h : b.finished.LiveAt vid t) : ∃ val, b.values[vid]? = some val ∧ val.isExternal = false := by
  obtain ⟨i, p, hprod, -⟩ := h
  obtain ⟨val, hval, hnode⟩ := Option.bind_eq_some_iff.mp hprod
  rw [Builder.finished_values] at hval
  have hconst := hb.produced_internal vid val hval (by simp [hnode])
  exact ⟨val, hval, by simp [Value.isExternal, hconst, hnode]⟩

/-- Values that are live at one position have their blocks side by side in the pool. -/
theorem MemoryPlan.Sound.liveBytes_le {b : Builder} (hb : b.WellFormed) {plan : MemoryPlan}
    (h : plan.Sound b.finished) (t : Nat) :
    b.finished.liveBytes t ≤ hbiMemoryPlanPoolSize plan 0 := by
  classical
  have hnodup : (plan.allocations.map Allocation.valueId).Nodup := by
    rw [List.nodup_iff_count_le_one]
    intro vid
    by_cases hmem : vid ∈ plan.allocations.map Allocation.valueId
    · obtain ⟨a, ha, rfl⟩ := List.mem_map.mp hmem
      obtain ⟨val, hval, -⟩ := h.size_eq a ha
      rw [h.each_once _ _ hval]
      split
      · exact Nat.zero_le _
      · exact le_rfl
    · rw [List.count_eq_zero_of_not_mem hmem]
      exact Nat.zero_le _
  have hlive : (b.finished.liveAt t).Perm
      ((plan.allocations.filter fun a => decide (b.finished.LiveAt a.valueId t)).map
        Allocation.valueId) := by
    have hleft : (b.finished.liveAt t).Nodup := List.nodup_range.filter _
    apply (List.perm_ext_iff_of_nodup hleft ((List.filter_sublist.map _).nodup hnodup)).mpr
    intro vid
    simp only [Graph.liveAt, List.mem_filter, List.mem_range, List.mem_map, decide_eq_true_eq]
    constructor
    · rintro ⟨-, hvid⟩
      obtain ⟨val, hval, hext⟩ := hb.live_pooled hvid
      have hcount := h.each_once vid val hval
      rw [hext, if_neg Bool.false_ne_true] at hcount
      have hmem : vid ∈ plan.allocations.map Allocation.valueId :=
        List.count_pos_iff.mp (by omega)
      obtain ⟨a, ha, rfl⟩ := List.mem_map.mp hmem
      exact ⟨a, ⟨ha, hvid⟩, rfl⟩
    · rintro ⟨a, ⟨-, hvid⟩, rfl⟩
      obtain ⟨val, hval, -⟩ := hb.live_pooled hvid
      exact ⟨(List.getElem?_eq_some_iff.mp hval).1, hvid⟩
  have hsizes : ∀ a ∈ plan.allocations, b.finished.valueSize a.valueId = a.sizeBytes := by
    intro a ha
    obtain ⟨val, hval, hsize⟩ := h.size_eq a ha
    rw [Graph.valueSize, hval, Option.map_some, Option.getD_some, hsize]
  have hapart : (plan.allocations.filter fun a => decide (b.finished.LiveAt a.valueId t)).Pairwise
      (Intervals.Apart Allocation.offset Allocation.sizeBytes) := by
    have hne := (List.pairwise_map.mp hnodup).filter
      fun a => decide (b.finished.LiveAt a.valueId t)
    refine hne.imp_of_mem fun {a c} ha hc hac => ?_
    obtain ⟨ha, hta⟩ := List.mem_filter.mp ha
    obtain ⟨hc, htc⟩ := List.mem_filter.mp hc
    exact h.apart a ha c hc hac ⟨t, of_decide_eq_true hta, of_decide_eq_true htc⟩
  have hsum := Intervals.sum_le_of_apart hapart fun a ha =>
    (h.in_pool a (List.mem_filter.mp ha).1).2
  unfold Graph.liveBytes
  rw [(hlive.map _).sum_eq, List.map_map]
  refine (le_of_eq (congrArg List.sum (List.map_congr_left fun a ha => ?_))).trans hsum
  exact hsizes a (List.mem_filter.mp ha).1

/-- A built graph whose rounded sizes fit is planned within its bounds. -/
theorem memory_plan_bounds {g : Graph} (hg : g.Built) (hsize : g.pooledBytes < sizeTSize)
    (qsort : QSort) :
    ∃ plan, (∀ fuel, hbiGraphNumValues g < fuel →
      hbiMemoryPlannerPlan fuel qsort g = some (.ok plan)) ∧ plan.Bounded g := by
  obtain ⟨b, hb, rfl⟩ := hg.exists_builder
  have hpooled := hb.activeRanges_sizes round64
  have hnaive := hb.activeRanges_sizes id
  have hfits : ((activeRanges b.finished).map fun r => round64 r.sizeBytes).sum < sizeTSize := by
    rw [hpooled]
    exact hsize
  obtain ⟨placed, peak, hrun, hperm, hinv, hpeak⟩ := placed_of_fits hfits qsort
  have hsound := hb.sound_of_placed hperm hinv hpeak
  have hupper := hinv.peak_le (hrun _ (Nat.lt_succ_self _))
  rw [hpooled] at hupper
  refine ⟨finishMemoryPlan b.finished placed peak, fun fuel hfuel => ?_, ?_⟩
  · simp only [hbiMemoryPlannerPlan, hrun fuel hfuel]
  · refine ⟨hupper, hsound.liveBytes_le hb, rfl, rfl, ?_⟩
    have hsum : ((activeRanges b.finished).map LiveRange.sizeBytes).sum =
        b.finished.naiveBytes := congrArg List.sum hnaive
    have hlt : ((activeRanges b.finished).map LiveRange.sizeBytes).sum < sizeTSize := by
      rw [hsum]
      exact b.finished.naiveBytes_le.trans_lt hsize
    exact (sumBytes_eq hlt).trans hsum

/-- Three values of a chain share two blocks. -/
theorem memory_plan_bounds_copy_chain :
    ∃ plan, hbiMemoryPlannerPlan 4 insertionQSort copyChain.finished = some (.ok plan) ∧
      plan.Bounded copyChain.finished ∧ hbiMemoryPlanPoolSize plan 0 = 68 ∧
      copyChain.finished.pooledBytes = 192 := by
  obtain ⟨plan, hrun, hbounded⟩ :=
    memory_plan_bounds copyChain_reached.built (by decide) insertionQSort
  have hplan : hbiMemoryPlannerPlan 4 insertionQSort copyChain.finished = some (.ok _) := rfl
  have heq := Except.ok.inj (Option.some.inj ((hrun 4 (by decide)).symm.trans hplan))
  refine ⟨plan, hrun 4 (by decide), hbounded, ?_, by decide⟩
  rw [heq]
  decide

end Hummingbird

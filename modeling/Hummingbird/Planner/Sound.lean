import Hummingbird.Planner.Placement
import Mathlib.Data.List.Sort

/-!
The plan is sound for every finished graph and every outcome of the sort. Values
are live from the position of their producer to the position of their last reader.
-/

namespace Hummingbird

/-- A position between a value's producer and its last reader. -/
def Graph.LiveAt (g : Graph) (vid t : Nat) : Prop :=
  ∃ i p, producerOf g.values vid = some p ∧ g.executionOrder[i]? = some p ∧ i ≤ t ∧
    (t = i ∨ ∃ j node, g.scheduled j = some node ∧ vid ∈ node.inputs ∧ t ≤ j)

/-- Sum of all value sizes, each rounded up to the alignment. -/
def Graph.roundedBytes (g : Graph) : Nat := (g.values.map fun val => round64 (valueBytes val)).sum

/-- What a plan promises: one allocation for every produced value that is not a
constant and none for others, aligned and inside the pool, with values that are
live at the same position kept apart. -/
structure MemoryPlan.Sound (g : Graph) (plan : MemoryPlan) : Prop where
  each_once : ∀ (vid : Nat) (val : Value), g.values[vid]? = some val →
    (plan.allocations.map Allocation.valueId).count vid = if val.isExternal then 0 else 1
  size_eq : ∀ a ∈ plan.allocations, ∃ val, g.values[a.valueId]? = some val ∧
    a.sizeBytes = valueBytes val
  aligned : ∀ a ∈ plan.allocations, 64 ∣ a.offset
  in_pool : ∀ a ∈ plan.allocations, a.poolId = 0 ∧
    a.offset + a.sizeBytes ≤ hbiMemoryPlanPoolSize plan 0
  apart : ∀ a ∈ plan.allocations, ∀ b ∈ plan.allocations, a.valueId ≠ b.valueId →
    (∃ t, g.LiveAt a.valueId t ∧ g.LiveAt b.valueId t) → a.Apart b

theorem activeRange_eq_some {g : Graph} {ranges : List LiveRange} {vid : Nat} {r : LiveRange}
    (h : activeRange g ranges vid = some r) :
    ∃ val old, g.values[vid]? = some val ∧ ranges[vid]? = some old ∧ val.isExternal = false ∧
      old.firstUse ≠ uint32Max ∧
      r = { old with sizeBytes := valueBytes val, alignment := valueAlignment val } := by
  unfold activeRange at h
  split at h
  · rename_i val old hval hold
    split at h
    · simp at h
    · rename_i hext
      split at h
      · simp at h
      · rename_i hfirst
        exact ⟨val, old, hval, hold, by simpa using hext, hfirst, (Option.some.inj h).symm⟩
  · simp at h

private theorem map_filterMap_key {f : Nat → Option LiveRange} {l : List Nat}
    (hkey : ∀ v r, f v = some r → r.valueId = v) :
    (l.filterMap f).map LiveRange.valueId = l.filter fun v => (f v).isSome := by
  induction l with
  | nil => rfl
  | cons v l ih =>
      cases hv : f v with
      | none => simp [hv, ih]
      | some r => simp [hv, ih, hkey v r hv]

private theorem sum_filterMap_le {f : Nat → Option LiveRange} {size : Nat → Nat} {l : List Nat}
    (hsize : ∀ v r, f v = some r → round64 r.sizeBytes ≤ size v) :
    ((l.filterMap f).map fun r => round64 r.sizeBytes).sum ≤ (l.map size).sum := by
  induction l with
  | nil => simp
  | cons v l ih =>
      cases hv : f v with
      | none =>
          simp only [List.filterMap_cons, hv, List.map_cons, List.sum_cons]
          omega
      | some r =>
          have := hsize v r hv
          simp only [List.filterMap_cons, hv, List.map_cons, List.sum_cons]
          omega

/-- The active ranges need no more than the sum over all values. -/
theorem activeRanges_sum_le (g : Graph) :
    ((activeRanges g).map fun r => round64 r.sizeBytes).sum ≤ g.roundedBytes := by
  have hle := @sum_filterMap_le (activeRange g (liveRanges g))
    (fun v => ((g.values[v]?).map fun val => round64 (valueBytes val)).getD 0)
    (List.range (hbiGraphNumValues g)) (by
      intro v r hr
      obtain ⟨val, old, hval, _, _, _, rfl⟩ := activeRange_eq_some hr
      simp [hval])
  have hall : (List.range (hbiGraphNumValues g)).map
      (fun v => ((g.values[v]?).map fun val => round64 (valueBytes val)).getD 0) =
      g.values.map fun val => round64 (valueBytes val) := by
    apply List.ext_getElem
    · simp [hbiGraphNumValues]
    · intro v hv hv'
      have hlt : v < g.values.length := by simpa using hv'
      simp [hlt]
  rw [hall] at hle
  exact hle

theorem timeOverlap_comm (r s : LiveRange) : timeOverlap r s = timeOverlap s r := by
  unfold timeOverlap
  apply decide_eq_decide.mpr
  constructor
  · exact fun h => ⟨h.2, h.1⟩
  · exact fun h => ⟨h.2, h.1⟩

theorem Allocation.Apart.symm {a b : Allocation} (h : a.Apart b) : b.Apart a := Or.symm h

/-- In a finished graph the node scheduled at a position is the node with that
identifier. -/
theorem Builder.scheduled_finished (b : Builder) (i : Nat) :
    b.finished.scheduled i = b.nodes[i]? := by
  unfold Graph.scheduled hbiGraphNodeAt Builder.finished
  by_cases hi : i < b.nodes.length
  · simp [hi]
  · simp [hi]

/-- The range of a value covers the positions at which it is live. -/
theorem Builder.WellFormed.live_in_range {b : Builder} (hb : b.WellFormed) {vid t : Nat}
    {r : LiveRange} (hr : (liveRanges b.finished)[vid]? = some r)
    (hlive : b.finished.LiveAt vid t) :
    r.firstUse ≤ t ∧ t ≤ r.lastUse := by
  have hn : hbiGraphNumNodes b.finished ≤ uint32Max :=
    hb.nodes_le.trans (by decide)
  have hcover := (liveRanges_cover hn).covers vid r hr
  obtain ⟨i, p, hprod, horder, hit, hend⟩ := hlive
  obtain ⟨node, hnode, hout⟩ := (hb.producer_iff vid p).mp hprod
  have hplt : p < b.nodes.length := (List.getElem?_eq_some_iff.mp hnode).1
  have hip : i = p := by
    obtain ⟨_, hget⟩ := List.getElem?_eq_some_iff.mp horder
    simpa using hget
  subst hip
  have hwrite := hcover i ⟨hplt, node, by rw [b.scheduled_finished]; exact hnode, Or.inr hout⟩
  rcases hend with rfl | ⟨j, reader, hreader, hin, htj⟩
  · exact hwrite
  · have hjlt : j < b.nodes.length := by
      rw [b.scheduled_finished] at hreader
      exact (List.getElem?_eq_some_iff.mp hreader).1
    have hread := hcover j ⟨hjlt, reader, hreader, Or.inl hin⟩
    exact ⟨hwrite.1.trans hit, htj.trans hread.2⟩

/-- A value gets a range to allocate exactly when it is an intermediate value. -/
theorem Builder.WellFormed.activeRange_isSome {b : Builder} (hb : b.WellFormed) {vid : Nat}
    {val : Value} (hval : b.values[vid]? = some val) :
    (activeRange b.finished (liveRanges b.finished) vid).isSome = !val.isExternal := by
  have hn : hbiGraphNumNodes b.finished ≤ uint32Max := hb.nodes_le.trans (by decide)
  have hcover := liveRanges_cover hn
  have hvlt : vid < b.values.length := (List.getElem?_eq_some_iff.mp hval).1
  obtain ⟨r, hr⟩ : ∃ r, (liveRanges b.finished)[vid]? = some r := by
    refine ⟨_, List.getElem?_eq_getElem ?_⟩
    rw [hcover.length_eq]
    exact hvlt
  unfold activeRange hbiGraphValueAt
  simp only [Builder.finished_values, hval, hr]
  by_cases hext : val.isExternal = true
  · simp [hext]
  · have hprod : ∃ p, producerOf b.values vid = some p := by
      simp only [Value.isExternal, Bool.or_eq_true, not_or, Bool.not_eq_true,
        Option.isNone_eq_false_iff] at hext
      obtain ⟨p, hp⟩ := Option.isSome_iff_exists.mp hext.2
      exact ⟨p, by simp [producerOf, hval, hp]⟩
    obtain ⟨p, hp⟩ := hprod
    obtain ⟨node, hnode, hout⟩ := (hb.producer_iff vid p).mp hp
    have hplt : p < b.nodes.length := (List.getElem?_eq_some_iff.mp hnode).1
    have hfirst := hcover.covers vid r hr p
      ⟨hplt, node, by rw [b.scheduled_finished]; exact hnode, Or.inr hout⟩
    have hmax : b.nodes.length ≤ uint32Max := hn
    have hne : r.firstUse ≠ uint32Max := by omega
    simp [hext, hne]

/-- An active range names the value it was made for. -/
theorem Builder.WellFormed.activeRange_valueId {b : Builder} (hb : b.WellFormed) {v : Nat}
    {r : LiveRange} (hr : activeRange b.finished (liveRanges b.finished) v = some r) :
    r.valueId = v := by
  have hn : hbiGraphNumNodes b.finished ≤ uint32Max := hb.nodes_le.trans (by decide)
  obtain ⟨val, old, _, hold, _, _, rfl⟩ := activeRange_eq_some hr
  exact (liveRanges_cover hn).value_id v old hold

/-- A placed range is the live range of its value, with the value's size. -/
theorem Builder.WellFormed.placed_range {b : Builder} (hb : b.WellFormed) {placed : List Placed}
    {total : Nat} (hperm : (placed.map Prod.fst).Perm (activeRanges b.finished))
    (hinv : PlacedInv total placed) {p : Placed} (hp : p ∈ placed) :
    ∃ val old, b.values[p.2.valueId]? = some val ∧
      (liveRanges b.finished)[p.2.valueId]? = some old ∧
      p.1 = { old with sizeBytes := valueBytes val, alignment := valueAlignment val } := by
  have hactive := hperm.mem_iff.mp (List.mem_map_of_mem hp)
  obtain ⟨vid, _, hvid⟩ := List.mem_filterMap.mp hactive
  obtain ⟨val, old, hval, hold, _, _, heq⟩ := activeRange_eq_some hvid
  rw [(hinv.same_value p hp).1, hb.activeRange_valueId hvid]
  exact ⟨val, old, hval, hold, heq⟩

/-- Placed ranges of different values that overlap in time are apart. -/
theorem PlacedInv.apart_of_overlap {total : Nat} {placed : List Placed}
    (hinv : PlacedInv total placed) {p q : Placed} (hp : p ∈ placed) (hq : q ∈ placed)
    (hne : p.2.valueId ≠ q.2.valueId) (hov : timeOverlap q.1 p.1 = true) : p.2.Apart q.2 := by
  let rel : Placed → Placed → Prop := fun p q =>
    p.2.valueId ≠ q.2.valueId → timeOverlap q.1 p.1 = true → p.2.Apart q.2
  have : Std.Symm rel := ⟨fun p q h hne hov =>
    (h (Ne.symm hne) (timeOverlap_comm _ _ ▸ hov)).symm⟩
  have hapart : placed.Pairwise rel := by
    refine hinv.apart.imp ?_
    intro p q h _
    exact h
  exact hapart.forall_of_forall (fun p _ hself => absurd rfl hself) hp hq hne hov

/-- A placement of the active ranges, in whatever order, is a sound plan. -/
theorem Builder.WellFormed.sound_of_placed {b : Builder} (hb : b.WellFormed)
    {placed : List Placed} {total peak : Nat}
    (hperm : (placed.map Prod.fst).Perm (activeRanges b.finished))
    (hinv : PlacedInv total placed)
    (hpeak : ∀ p ∈ placed, p.2.offset + p.2.sizeBytes ≤ peak) :
    (finishMemoryPlan b.finished placed peak).Sound b.finished := by
  have hids : (placed.map Prod.snd).map Allocation.valueId =
      (placed.map Prod.fst).map LiveRange.valueId := by
    rw [List.map_map, List.map_map]
    apply List.map_congr_left
    intro p hp
    exact (hinv.same_value p hp).1
  refine ⟨?_, ?_, ?_, ?_, ?_⟩
  · intro vid val hval
    have hvlt : vid < b.values.length := (List.getElem?_eq_some_iff.mp hval).1
    have hmemv : vid ∈ List.range (hbiGraphNumValues b.finished) := List.mem_range.mpr hvlt
    have hsome := hb.activeRange_isSome hval
    rw [finishMemoryPlan, hids, (hperm.map _).count_eq, activeRanges,
      map_filterMap_key fun v r => hb.activeRange_valueId]
    by_cases hext : val.isExternal = true
    · rw [if_pos hext]
      apply List.count_eq_zero_of_not_mem
      simp [hsome, hext]
    · rw [if_neg hext, List.count_filter (by simp [hsome, hext])]
      exact List.count_eq_one_of_mem List.nodup_range hmemv
  · intro a ha
    obtain ⟨p, hp, rfl⟩ := List.mem_map.mp ha
    obtain ⟨val, old, hval, _, hp1⟩ := hb.placed_range hperm hinv hp
    refine ⟨val, hval, ?_⟩
    rw [(hinv.same_value p hp).2.1, hp1]
  · intro a ha
    obtain ⟨p, hp, rfl⟩ := List.mem_map.mp ha
    exact hinv.aligned p hp
  · intro a ha
    obtain ⟨p, hp, rfl⟩ := List.mem_map.mp ha
    refine ⟨(hinv.same_value p hp).2.2, ?_⟩
    simpa [hbiMemoryPlanPoolSize, finishMemoryPlan] using hpeak p hp
  · intro a ha c hc hne htime
    obtain ⟨p, hp, rfl⟩ := List.mem_map.mp ha
    obtain ⟨q, hq, rfl⟩ := List.mem_map.mp hc
    obtain ⟨t, hlive, hlive'⟩ := htime
    obtain ⟨_, old, _, hold, hp1⟩ := hb.placed_range hperm hinv hp
    obtain ⟨_, old', _, hold', hq1⟩ := hb.placed_range hperm hinv hq
    have hin := hb.live_in_range hold hlive
    have hin' := hb.live_in_range hold' hlive'
    have hoverlap : timeOverlap q.1 p.1 = true := by
      rw [hp1, hq1, timeOverlap, decide_eq_true_eq]
      exact ⟨hin'.1.trans hin.2, hin.1.trans hin'.2⟩
    exact hinv.apart_of_overlap hp hq hne hoverlap

/-- Placing the active ranges of a graph ends when their rounded sizes fit. -/
theorem placed_of_fits {g : Graph}
    (hfits : ((activeRanges g).map fun r => round64 r.sizeBytes).sum < sizeTSize)
    (qsort : QSort) :
    ∃ placed peak, (∀ fuel, hbiGraphNumValues g < fuel →
      placeAll fuel (qsort.sort (activeRanges g)) [] 0 = some (placed, peak)) ∧
      (placed.map Prod.fst).Perm (activeRanges g) ∧
      PlacedInv ((activeRanges g).map fun r => round64 r.sizeBytes).sum placed ∧
      ∀ p ∈ placed, p.2.offset + p.2.sizeBytes ≤ peak := by
  have hperm := qsort.perm (activeRanges g)
  have halign : ∀ r ∈ qsort.sort (activeRanges g), r.alignment = 64 := by
    intro r hr
    obtain ⟨vid, _, hvid⟩ := List.mem_filterMap.mp (hperm.mem_iff.mp hr)
    obtain ⟨val, old, _, _, _, _, rfl⟩ := activeRange_eq_some hvid
    exact valueAlignment_eq val
  have hsum : ((qsort.sort (activeRanges g)).map fun r => round64 r.sizeBytes).sum =
      ((activeRanges g).map fun r => round64 r.sizeBytes).sum := (hperm.map _).sum_eq
  have hroom : ((activeRanges g).map fun r => round64 r.sizeBytes).sum + 64 ≤
      sizeTSize := by
    have hdvd : 64 ∣ ((activeRanges g).map fun r => round64 r.sizeBytes).sum := by
      apply List.dvd_sum
      intro n hn
      obtain ⟨r, _, rfl⟩ := List.mem_map.mp hn
      exact dvd_round64 _
    unfold sizeTSize at hfits ⊢
    omega
  have hlen : (qsort.sort (activeRanges g)).length ≤ hbiGraphNumValues g := by
    rw [hperm.length_eq]
    exact (List.length_filterMap_le _ _).trans (by simp)
  obtain ⟨placed, peak, hrun, hfst, hinv, hpeak⟩ :=
    @placeAll_sound (qsort.sort (activeRanges g)) [] 0 0
      (hbiGraphNumValues g + 1)
      ⟨dvd_zero _, by simp, by simp, by simp, List.Pairwise.nil⟩ (by simp) halign
      (by omega) (by simpa using Nat.lt_succ_of_le hlen)
  rw [List.map_nil, List.nil_append] at hfst
  rw [Nat.zero_add, hsum] at hinv
  refine ⟨placed, peak, fun fuel hfuel => ?_, hfst ▸ hperm, hinv, hpeak⟩
  obtain ⟨more, rfl⟩ := Nat.exists_eq_add_of_le hfuel
  exact hrun more

/-- Planning a finished graph whose rounded sizes fit ends with a sound plan. -/
theorem Builder.WellFormed.plan_sound {b : Builder} (hb : b.WellFormed)
    (hsize : b.finished.roundedBytes < sizeTSize) (qsort : QSort) :
    ∃ plan, (∀ fuel, hbiGraphNumValues b.finished < fuel →
      hbiMemoryPlannerPlan fuel qsort b.finished = some (.ok plan)) ∧
      plan.Sound b.finished := by
  obtain ⟨placed, peak, hrun, hperm, hinv, hpeak⟩ :=
    placed_of_fits ((activeRanges_sum_le b.finished).trans_lt hsize) qsort
  refine ⟨_, fun fuel hfuel => ?_, hb.sound_of_placed hperm hinv hpeak⟩
  simp only [hbiMemoryPlannerPlan, hrun fuel hfuel]

/-- The plan that a call with enough fuel returns is sound. -/
theorem Builder.WellFormed.sound_of_plan {b : Builder} (hb : b.WellFormed)
    (hsize : b.finished.roundedBytes < sizeTSize) {qsort : QSort} {fuel : Nat}
    (hfuel : hbiGraphNumValues b.finished < fuel) {plan : MemoryPlan}
    (hplan : hbiMemoryPlannerPlan fuel qsort b.finished = some (.ok plan)) :
    plan.Sound b.finished := by
  obtain ⟨plan', hrun, hsound⟩ := hb.plan_sound hsize qsort
  rw [hrun fuel hfuel] at hplan
  obtain rfl := Except.ok.inj (Option.some.inj hplan)
  exact hsound

/-- For every graph the builder finishes whose rounded sizes fit, and for every
outcome of the sort, planning ends with a sound plan. -/
theorem memory_plan_sound {g : Graph} (hg : g.Built) (hsize : g.roundedBytes < sizeTSize)
    (qsort : QSort) :
    ∃ plan, (∀ fuel, hbiGraphNumValues g < fuel →
      hbiMemoryPlannerPlan fuel qsort g = some (.ok plan)) ∧ plan.Sound g := by
  obtain ⟨b, hb, rfl⟩ := hg.exists_builder
  exact hb.plan_sound hsize qsort

theorem compareLiveRanges_nonpos {a b : LiveRange} :
    compareLiveRanges a b ≤ 0 ↔
      a.firstUse < b.firstUse ∨ a.firstUse = b.firstUse ∧ b.sizeBytes ≤ a.sizeBytes := by
  unfold compareLiveRanges
  split_ifs <;> omega

/-- One admissible sort. -/
def insertionQSort : QSort where
  sort := List.insertionSort fun a b => compareLiveRanges a b ≤ 0
  perm := List.perm_insertionSort _
  sorted := by
    have : Std.Total fun a b : LiveRange => compareLiveRanges a b ≤ 0 := ⟨by
      intro a b
      rw [compareLiveRanges_nonpos, compareLiveRanges_nonpos]
      omega⟩
    have : IsTrans LiveRange fun a b => compareLiveRanges a b ≤ 0 := ⟨by
      intro a b c hab hbc
      rw [compareLiveRanges_nonpos] at hab hbc ⊢
      omega⟩
    exact List.pairwise_insertionSort _

/-- A fill and two copies in a row. -/
def copyChain : Builder :=
  let b := (hbiGraphAddNode .empty none .fill none [] 1).1
  let b := (hbiGraphAddNode b none .copy none [0] 1).1
  (hbiGraphAddNode b none .copy none [1] 1).1

theorem copyChain_reached : copyChain.Reached := by
  have hfill := @Builder.Reached.node _ _ none .fill none [] 1 _ .empty rfl
  have hcopy := @Builder.Reached.node _ _ none .copy none [0] 1 _ hfill rfl
  exact @Builder.Reached.node _ _ none .copy none [1] 1 _ hcopy rfl

theorem memory_plan_sound_copy_chain :
    ∃ plan, hbiMemoryPlannerPlan 4 insertionQSort copyChain.finished = some (.ok plan) ∧
      plan.Sound copyChain.finished ∧
      plan.allocations.map Allocation.offset = [0, 64, 0] := by
  obtain ⟨plan, hrun, hsound⟩ :=
    memory_plan_sound copyChain_reached.built (by decide) insertionQSort
  have hplan : hbiMemoryPlannerPlan 4 insertionQSort copyChain.finished = some (.ok _) := rfl
  have heq := Except.ok.inj (Option.some.inj ((hrun 4 (by decide)).symm.trans hplan))
  refine ⟨plan, hrun 4 (by decide), hsound, ?_⟩
  rw [heq]
  decide
end Hummingbird

import Hummingbird.Stream.Accounting

/-!
The RAM budget. A worker tests the budget before it allocates and evicts others while the
test fails. When nothing can be evicted it leaves the loop and allocates all the same; this
is the only way over the budget, apart from a sum that is no word.
-/

namespace Hummingbird

/-- A move that stays within the budget: an allocation inside the budget does not wrap the
counter, and one behind a failed eviction is refused. -/
def withinBudget (e : StreamEngine) (env : StreamEnv) : ThreadAt → Bool
  | .running i .budget => (e.blocks[i]?).all fun b => overBudget e b || allocFits e env b
  | .running i .gaveUp =>
      (e.blocks[i]?).all fun b =>
        (hbiAlloc e.heap env.os b.entry.byteSize b.entry.requiredAlignment .weights).2.isNone
  | _ => true

/-- The counter covers the buffers and is covered by the budget. -/
structure Cache.Within (c : Cache) : Prop where
  held_le : c.held TensorEntry.byteSize ≤ c.usage
  usage_le : c.usage ≤ c.capacity
  usage_lt : c.usage < sizeTSize

theorem Turn.capacity {e : StreamEngine} {env : StreamEnv} {p p' : ThreadAt} {c' : Cache}
    (h : Turn e env p c' p') : c'.capacity = e.ramCapacity := by
  cases h with
  | rest _ | register _ _ | pin _ _ _ | unpin _ _ _ | prefetch _ _ _ | refuse _ _ _ | accept _ _
  | take _ _ | find _ _ _ | deny _ _ _ _ | alloc _ _ _ _ | read _ _ | finish _ _ | evict _ _ _ _
  | evictLru _ _ _ => rfl

theorem Accounted.within {e : StreamEngine} {env : StreamEnv} {p : ThreadAt} {c' : Cache}
    (h : Accounted e env p c') (hcap : c'.capacity = e.ramCapacity) (hwithin : e.cache.Within)
    (hmeets : withinBudget e env p = true) : c'.Within := by
  obtain ⟨hheld, hle, hlt⟩ := hwithin
  change _ ≤ e.ramUsage at hheld
  change e.ramUsage ≤ e.ramCapacity at hle
  change e.ramUsage < _ at hlt
  cases h with
  | same husage hheap hsums hslot =>
      have hsum := hsums TensorEntry.byteSize
      exact ⟨by omega, by omega, by omega⟩
  | @alloc i ptr j b hb hp hj hempty halloc husage hsums hslot =>
      have hsum := hsums TensorEntry.byteSize
      have hnone : (hbiAlloc e.heap env.os b.entry.byteSize b.entry.requiredAlignment
          .weights).2.isNone = false := by
        rw [halloc]
        rfl
      rcases hj with ⟨rfl, hover⟩ | rfl
      · have hfits : e.ramUsage + b.entry.byteSize < sizeTSize := by
          simpa [hp, withinBudget, hb, hover, allocFits, hnone] using hmeets
        have hbudget : (e.ramUsage + b.entry.byteSize) % sizeTSize ≤ e.ramCapacity := by
          simpa [overBudget] using hover
        rw [Nat.mod_eq_of_lt hfits] at husage hbudget
        exact ⟨by omega, by omega, by omega⟩
      · rw [hp] at hmeets
        simp [withinBudget, hb, hnone] at hmeets
  | @evict i b hb hp hevict husage hheap hsums hslot =>
      have hsum := hsums TensorEntry.byteSize
      exact ⟨by omega, by omega, by omega⟩
  | @evictLru i b hb hevict husage hheap hsums hslot =>
      have hsum := hsums TensorEntry.byteSize
      have hshare : b.cached.share TensorEntry.byteSize =
        if b.ramPtr.isSome then b.entry.byteSize else 0 := rfl
      cases hptr : b.ramPtr.isSome with
      | false =>
          rw [hptr] at husage hshare
          simp only [Bool.false_eq_true, if_false] at husage hshare
          exact ⟨by omega, by omega, by omega⟩
      | true =>
          rw [hptr] at husage hshare
          simp only [if_true] at husage hshare
          rw [subWord_eq (by omega) hlt] at husage
          exact ⟨by omega, by omega, by omega⟩

/-- For every budget, every I/O pool or none, every number of callers and every run in which
no worker allocates behind a failed eviction and no allocation wraps the counter: the
counter is within the budget in the state reached. -/
theorem usage_within_budget (ramCapacity : Nat) (io : Option IoPoolSize) (heap : SysHeap)
    (numCallers : Nat) {run : List StreamAction}
    (hrun : Runs.Along streamStep (MoveMeets withinBudget)
      (.create ramCapacity io heap numCallers) run) :
    (StreamState.after ramCapacity io heap numCallers run).engine.ramUsage ≤
      (StreamState.after ramCapacity io heap numCallers run).engine.ramCapacity := by
  have hwithin : (StreamState.after ramCapacity io heap numCallers run).engine.cache.Within := by
    apply @StreamState.after_of_jobs (fun c _ => c.Within) withinBudget
    · exact ⟨le_refl 0, Nat.zero_le _, show 0 < sizeTSize by decide⟩
    · intro e env p c' p' loads t hjobs hwithin hl hmeets hturn
      exact (hturn.accounted hjobs hl).within hturn.capacity hwithin hmeets
    · exact hrun
  exact hwithin.usage_le

/-- A tensor of sixty bytes. -/
def sixtyDesc (tensorId : Nat) : StreamBlockDesc :=
  { sampleDesc with
    tensorId := tensorId
    entry := ⟨"w", ⟨[15]⟩, .fp32, 60, 64, .streamable⟩
    shape := ⟨[15]⟩ }

/-- Two tensors of sixty bytes are registered, and the first one is loaded. Another caller
holds its mutex while the worker looks for room for the second one, so that the scan does not
pass it over. -/
def makeRoomRun : List StreamAction :=
  callRun 0 (.register (sixtyDesc 0) (.ok ())) 2 ++
    callRun 0 (.register (sixtyDesc 1) (.ok ())) 2 ++
    callRun 0 (.block (.prefetch .ram) 0) 3 ++ List.replicate 9 (.move 2 sampleEnv) ++
    callRun 0 (.block (.prefetch .ram) 1) 3 ++ callRun 1 (.block .unpin 0) 1 ++
    List.replicate 10 (.move 2 sampleEnv)

/-- The two tensors do not fit a budget of a hundred bytes together: the first one is evicted
before the second one gets its buffer. -/
theorem usage_within_budget_eviction :
    let s := StreamState.after 100 (some ⟨2, 1⟩) (.fresh false) 2 makeRoomRun
    Runs.Along streamStep (MoveMeets withinBudget) (.create 100 (some ⟨2, 1⟩) (.fresh false) 2)
        makeRoomRun ∧
      s.engine.blocks.map StreamBlock.status = [.evicted, .inTransit] ∧
      s.engine.evictions = 1 ∧ s.engine.ramUsage = 60 ∧
      s.engine.ramUsage ≤ s.engine.ramCapacity := by
  have hrun : Runs.Along streamStep (MoveMeets withinBudget)
      (.create 100 (some ⟨2, 1⟩) (.fresh false) 2) makeRoomRun := by decide +kernel
  exact ⟨hrun, by decide +kernel, by decide +kernel, by decide +kernel,
    usage_within_budget 100 (some ⟨2, 1⟩) (.fresh false) 2 hrun⟩

/-- Two tensors of sixty bytes are requested and a worker loads them, up to the second
allocation. -/
def twoTensorsRun : List StreamAction :=
  callRun 0 (.register (sixtyDesc 0) (.ok ())) 2 ++
    callRun 0 (.register (sixtyDesc 1) (.ok ())) 2 ++
    callRun 0 (.block (.prefetch .ram) 0) 3 ++ callRun 0 (.block (.prefetch .ram) 1) 3 ++
    List.replicate 17 (.move 1 sampleEnv)

/-- Each of the two tensors fits the budget of a hundred bytes, the first one is resident,
unpinned and in RAM when the second one is loaded, and the counter ends at 120. -/
theorem usage_exceeds_budget :
    (∀ b ∈ (StreamState.after 100 (some ⟨2, 1⟩) (.fresh false) 1 twoTensorsRun).engine.blocks,
        b.entry.byteSize ≤ 100) ∧
      (StreamState.after 100 (some ⟨2, 1⟩) (.fresh false) 1 twoTensorsRun).engine.ramUsage = 120 ∧
      ¬ (StreamState.after 100 (some ⟨2, 1⟩) (.fresh false) 1 twoTensorsRun).engine.ramUsage ≤
        (StreamState.after 100 (some ⟨2, 1⟩) (.fresh false) 1
          twoTensorsRun).engine.ramCapacity := by
  decide +kernel

end Hummingbird

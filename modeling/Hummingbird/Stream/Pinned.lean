import Hummingbird.Stream.Buffers

/-!
Pinned blocks. An eviction looks at the pin count in the same section in which it frees the
buffer, and a worker stores a buffer only where there is none. So no step takes the buffer
of a pinned block away.
-/

namespace Hummingbird

theorem pinCount_of_evictable {b : StreamBlock} (h : b.evictable = true) : b.pinCount = 0 := by
  simp only [StreamBlock.evictable, decide_eq_true_eq] at h
  exact h.2

/-- A turn leaves a pinned block its buffer, and the buffer as it is. -/
theorem Buffered.keeps_pinned {e : StreamEngine} {c' : Cache} {start : SysHeap}
    (h : Buffered e c') (howned : e.cache.Owned start) {i ptr : Nat} {b : StreamBlock}
    (hb : e.blocks[i]? = some b) (hptr : b.ramPtr = some ptr) (hpin : 0 < b.pinCount) :
    c'.slot i = some (b.entry, ptr) ∧ c'.heap.buffers[ptr]? = e.heap.buffers[ptr]? := by
  have hi : e.cache.slot i = some (b.entry, ptr) := by
    rw [slot_of_block hb, hptr]
    rfl
  cases h with
  | same hheap hheld hslot =>
      rw [hslot, hheap]
      exact ⟨hi, rfl⟩
  | @alloc k ptr' alignment os entry halloc hempty hheld hslot =>
      have hki : k ≠ i := by
        rintro rfl
        rw [hempty] at hi
        cases hi
      obtain ⟨-, -, buf, hbuffers, -⟩ := hbiAlloc_granted halloc
      rw [hslot, if_neg hki, hbuffers]
      exact ⟨hi, List.getElem?_append_left (howned.lt_length hi)⟩
  | @free k ptr' b' hb' hevict hptr' hheap hheld hslot =>
      have hki : k ≠ i := by
        rintro rfl
        rw [hb, Option.some.injEq] at hb'
        rw [hb', pinCount_of_evictable hevict] at hpin
        exact absurd hpin (lt_irrefl 0)
      have hne : ptr' ≠ ptr := by
        rintro rfl
        have hk : e.cache.slot k = some (b'.entry, ptr') := by
          rw [slot_of_block hb', hptr']
          rfl
        exact hki (howned.alone k i _ _ ptr' hk hi)
      rw [hslot, if_neg hki, hheap]
      exact ⟨hi, hbiFree_getElem?_of_ne hne⟩

/-- What an action does to the buffers. -/
theorem streamStep_buffered {s : StreamState} (hfits : s.engine.PoolFits)
    (hjobs : s.engine.cache.Jobs s.loads) (a : StreamAction) :
    Buffered s.engine (streamStep s a).engine.cache := by
  cases stepped s a with
  | aside hcache hloads _ =>
      rw [hcache]
      exact .same rfl (fun _ => rfl) fun _ => rfl
  | @moved t env p _ hp hload _ hengine hloads =>
      rw [hengine]
      exact ((threadStep_turn hfits t p).accounted hjobs hload).buffered

theorem StreamState.after_poolFits (ramCapacity : Nat) (io : Option IoPoolSize) (heap : SysHeap)
    (numCallers : Nat) (run : List StreamAction) :
    (StreamState.after ramCapacity io heap numCallers run).engine.PoolFits := by
  apply @Runs.final_of_step StreamState StreamAction streamStep fun s => s.engine.PoolFits
  · exact fun s a hs => streamStep_poolFits hs a
  · exact create_poolFits ramCapacity io heap numCallers

/-- For every budget, every I/O pool or none, every number of callers, every run and every
action behind it: a block that has a buffer and is pinned still has it after the action,
and the buffer was not given back. -/
theorem pinned_buffer_kept (ramCapacity : Nat) (io : Option IoPoolSize) (heap : SysHeap)
    (numCallers : Nat) (run : List StreamAction) (a : StreamAction) {i ptr : Nat}
    {b : StreamBlock}
    (hb : (StreamState.after ramCapacity io heap numCallers run).engine.blocks[i]? = some b)
    (hptr : b.ramPtr = some ptr) (hpin : 0 < b.pinCount) :
    ∃ b', (streamStep (.after ramCapacity io heap numCallers run) a).engine.blocks[i]? = some b' ∧
      b'.ramPtr = some ptr ∧
      (streamStep (.after ramCapacity io heap numCallers run) a).engine.heap.buffers[ptr]? =
        (StreamState.after ramCapacity io heap numCallers run).engine.heap.buffers[ptr]? := by
  have hbuffered := streamStep_buffered
    (StreamState.after_poolFits ramCapacity io heap numCallers run)
    (StreamState.after_jobs ramCapacity io heap numCallers run) a
  have howned := @StreamState.after_owned ramCapacity io heap numCallers run
  obtain ⟨hslot, hbuffer⟩ := hbuffered.keeps_pinned howned hb hptr hpin
  obtain ⟨c, hc, hslot⟩ := Option.bind_eq_some_iff.mp hslot
  unfold StreamEngine.cache at hc
  rw [List.getElem?_map] at hc
  obtain ⟨b', hb', rfl⟩ := Option.map_eq_some_iff.mp hc
  obtain ⟨ptr', hptr', heq⟩ := Option.map_eq_some_iff.mp hslot
  have hsame : ptr' = ptr := congrArg Prod.snd heq
  exact ⟨b', hb', hsame ▸ hptr', hbuffer⟩

/-- A tensor is loaded and pinned, and a call that evicts it has taken its mutex. -/
def pinnedRun : List StreamAction :=
  loadRun .ram ++ callRun 0 (.block .pin 0) 2 ++ callRun 0 (.block .evict 0) 1

theorem pinned_buffer_kept_evict :
    ∃ b b', (StreamState.after 100 (some ⟨1, 1⟩) (.fresh false) 1 pinnedRun).engine.blocks[0]? =
        some b ∧ b.ramPtr = some 0 ∧ b.pinCount = 1 ∧
      (streamStep (.after 100 (some ⟨1, 1⟩) (.fresh false) 1 pinnedRun)
        (.move 0 sampleEnv)).engine.blocks[0]? = some b' ∧ b'.ramPtr = some 0 := by
  have hb : ∃ b, (StreamState.after 100 (some ⟨1, 1⟩) (.fresh false) 1
      pinnedRun).engine.blocks[0]? = some b ∧ b.ramPtr = some 0 ∧ b.pinCount = 1 := by
    refine ⟨_, rfl, ?_, ?_⟩
    · decide +kernel
    · decide +kernel
  obtain ⟨b, hb, hptr, hpin⟩ := hb
  obtain ⟨b', hb', hptr', -⟩ := pinned_buffer_kept 100 (some ⟨1, 1⟩) (.fresh false) 1 pinnedRun
    (.move 0 sampleEnv) hb hptr (by rw [hpin]; decide)
  exact ⟨b, b', hb, hptr, hpin, hb', hptr'⟩

end Hummingbird

import Hummingbird.Stream.Accounting

/-!
The buffers that the workers obtained from the system allocator. A buffer belongs to the
one block that points to it until an eviction gives it back through `hbi_free`. The
destruction of the engine gives back what is left through `hbi_aligned_free`, past the
header and the counters.
-/

namespace Hummingbird

/-- The header says what `hbi_alloc` was asked for, and the buffer was not given back. -/
structure SysBuffer.LiveFor (buf : SysBuffer) (entry : TensorEntry) : Prop where
  size : buf.header.size = userSize entry.byteSize
  tag : buf.header.tag = .weights
  released : buf.released = []

/-- Whose the buffers are that were handed out since the start: a block's own, or given back
once through `hbi_free`. -/
structure Cache.Owned (start : SysHeap) (c : Cache) : Prop where
  grown : start.buffers.length ≤ c.heap.buffers.length
  live : ∀ i entry ptr, c.slot i = some (entry, ptr) →
    start.buffers.length ≤ ptr ∧ ∃ buf, c.heap.buffers[ptr]? = some buf ∧ buf.LiveFor entry
  alone : ∀ i i' entry entry' ptr, c.slot i = some (entry, ptr) → c.slot i' = some (entry', ptr) →
    i = i'
  freed : ∀ ptr buf, start.buffers.length ≤ ptr → c.heap.buffers[ptr]? = some buf →
    buf.released = [.hbiFree] ∨ ∃ i entry, c.slot i = some (entry, ptr)

namespace Cache.Owned

variable {start : SysHeap} {c c' : Cache} {i ptr : Nat} {entry : TensorEntry}

theorem lt_length (h : c.Owned start) (hi : c.slot i = some (entry, ptr)) :
    ptr < c.heap.buffers.length := by
  obtain ⟨-, buf, hbuf, -⟩ := h.live i entry ptr hi
  exact (List.getElem?_eq_some_iff.mp hbuf).1

theorem congr (h : c.Owned start) (hheap : c'.heap = c.heap) (hslot : ∀ k, c'.slot k = c.slot k) :
    c'.Owned start := by
  obtain ⟨grown, live, alone, freed⟩ := h
  refine ⟨?_, ?_, ?_, ?_⟩
  · rw [hheap]
    exact grown
  · intro i entry ptr hi
    rw [hheap]
    exact live i entry ptr ((hslot i).symm.trans hi)
  · intro i i' entry entry' ptr hi hi'
    exact alone i i' entry entry' ptr ((hslot i).symm.trans hi) ((hslot i').symm.trans hi')
  · intro ptr buf hle hbuf
    rw [hheap] at hbuf
    rcases freed ptr buf hle hbuf with hfreed | ⟨i, entry, hi⟩
    · exact Or.inl hfreed
    · exact Or.inr ⟨i, entry, (hslot i).trans hi⟩

/-- A block without a buffer gets a new one. -/
theorem alloc (h : c.Owned start) {os : Memalign} {alignment : Nat}
    (halloc : hbiAlloc c.heap os entry.byteSize alignment .weights = (c'.heap, some ptr))
    (hempty : c.slot i = none)
    (hslot : ∀ k, c'.slot k = if i = k then some (entry, ptr) else c.slot k) : c'.Owned start := by
  obtain ⟨rfl, -, buf, hbuffers, hreleased, hsize, htag⟩ := hbiAlloc_granted halloc
  have hnew : c'.heap.buffers[c.heap.buffers.length]? = some buf := by
    rw [hbuffers]
    exact List.getElem?_concat_length
  have hold : ∀ k, k < c.heap.buffers.length → c'.heap.buffers[k]? = c.heap.buffers[k]? := by
    intro k hk
    rw [hbuffers]
    exact List.getElem?_append_left hk
  have hcases : ∀ k e p, c'.slot k = some (e, p) →
      i = k ∧ e = entry ∧ p = c.heap.buffers.length ∨ i ≠ k ∧ c.slot k = some (e, p) := by
    intro k e p hk
    rw [hslot] at hk
    by_cases hik : i = k
    · rw [if_pos hik] at hk
      cases hk
      exact Or.inl ⟨hik, rfl, rfl⟩
    · rw [if_neg hik] at hk
      exact Or.inr ⟨hik, hk⟩
  refine ⟨?_, ?_, ?_, ?_⟩
  · rw [hbuffers, List.length_append]
    exact Nat.le_add_right_of_le h.grown
  · intro k e p hk
    rcases hcases k e p hk with ⟨-, rfl, rfl⟩ | ⟨-, hk⟩
    · exact ⟨h.grown, buf, hnew, hsize, htag, hreleased⟩
    · rw [hold p (h.lt_length hk)]
      exact h.live k e p hk
  · intro k k' e e' p hk hk'
    rcases hcases k e p hk with ⟨rfl, -, rfl⟩ | ⟨-, hk⟩
    · rcases hcases k' e' _ hk' with ⟨rfl, -, -⟩ | ⟨-, hk'⟩
      · rfl
      · exact absurd (h.lt_length hk') (lt_irrefl _)
    · rcases hcases k' e' p hk' with ⟨-, -, rfl⟩ | ⟨-, hk'⟩
      · exact absurd (h.lt_length hk) (lt_irrefl _)
      · exact h.alone k k' e e' p hk hk'
  · intro p buf' hle hbuf'
    by_cases hp : p < c.heap.buffers.length
    · rw [hold p hp] at hbuf'
      rcases h.freed p buf' hle hbuf' with hfreed | ⟨k, e, hk⟩
      · exact Or.inl hfreed
      · have hik : i ≠ k := by
          rintro rfl
          rw [hempty] at hk
          cases hk
        exact Or.inr ⟨k, e, by rw [hslot, if_neg hik, hk]⟩
    · have hlt := (List.getElem?_eq_some_iff.mp hbuf').1
      rw [hbuffers, List.length_append, List.length_singleton] at hlt
      have hp : p = c.heap.buffers.length := by omega
      exact Or.inr ⟨i, entry, by rw [hslot, if_pos rfl, hp]⟩

/-- A block gives its buffer back. -/
theorem free (h : c.Owned start) (hheap : c'.heap = hbiFree c.heap ptr)
    (hi : c.slot i = some (entry, ptr))
    (hslot : ∀ k, c'.slot k = if i = k then none else c.slot k) : c'.Owned start := by
  obtain ⟨-, buf, hbuf, hlive⟩ := h.live i entry ptr hi
  have hcases : ∀ k e p, c'.slot k = some (e, p) → c.slot k = some (e, p) ∧ ptr ≠ p := by
    intro k e p hk
    rw [hslot] at hk
    by_cases hik : i = k
    · rw [if_pos hik] at hk
      cases hk
    · rw [if_neg hik] at hk
      refine ⟨hk, ?_⟩
      rintro rfl
      exact hik (h.alone i k entry e ptr hi hk)
  refine ⟨?_, ?_, ?_, ?_⟩
  · rw [hheap, hbiFree_length]
    exact h.grown
  · intro k e p hk
    obtain ⟨hk, hne⟩ := hcases k e p hk
    rw [hheap, hbiFree_getElem?_of_ne hne]
    exact h.live k e p hk
  · intro k k' e e' p hk hk'
    exact h.alone k k' e e' p (hcases k e p hk).1 (hcases k' e' p hk').1
  · intro p buf' hle hbuf'
    rw [hheap] at hbuf'
    by_cases hp : ptr = p
    · subst hp
      rw [hbiFree_getElem? hbuf, Option.some.injEq] at hbuf'
      refine Or.inl ?_
      rw [← hbuf', SysBuffer.release, hlive.released]
      rfl
    · rw [hbiFree_getElem?_of_ne hp] at hbuf'
      rcases h.freed p buf' hle hbuf' with hfreed | ⟨k, e, hk⟩
      · exact Or.inl hfreed
      · have hik : i ≠ k := by
          rintro rfl
          rw [hi] at hk
          cases hk
          exact hp rfl
        exact Or.inr ⟨k, e, by rw [hslot, if_neg hik, hk]⟩

end Cache.Owned

/-- What `hbi_alloc` charges for the buffer of an entry. -/
def TensorEntry.charge (entry : TensorEntry) : Nat := userSize entry.byteSize

/-- The counters of the allocator are those of the start and what the cache holds. -/
structure Cache.Tallied (start : MemStats) (c : Cache) : Prop where
  liveBytes : c.heap.stats.liveBytes = (start.liveBytes + c.held TensorEntry.charge) % sizeTSize
  liveBlocks : c.heap.stats.liveBlocks = (start.liveBlocks + c.held fun _ => 1) % sizeTSize
  weights : c.heap.stats.bytesByTag .weights =
    (start.bytesByTag .weights + c.held TensorEntry.charge) % sizeTSize

namespace Cache.Tallied

variable {start : MemStats} {c c' : Cache} {entry : TensorEntry}

theorem congr (h : c.Tallied start) (hheap : c'.heap = c.heap)
    (hheld : ∀ w, c'.held w = c.held w) : c'.Tallied start := by
  refine ⟨?_, ?_, ?_⟩
  · rw [hheap, hheld]
    exact h.liveBytes
  · rw [hheap, hheld]
    exact h.liveBlocks
  · rw [hheap, hheld]
    exact h.weights

theorem alloc (h : c.Tallied start)
    (hstats : c'.heap.stats = statsAdd c.heap.stats entry.charge .weights)
    (hheld : ∀ w, c'.held w = c.held w + w entry) : c'.Tallied start := by
  refine ⟨?_, ?_, ?_⟩
  · rw [hstats]
    exact fetchAdd_mod h.liveBytes (hheld _)
  · rw [hstats]
    exact fetchAdd_mod h.liveBlocks (hheld _)
  · rw [hstats]
    simp only [statsAdd, Function.update_self]
    exact fetchAdd_mod h.weights (hheld _)

theorem free (h : c.Tallied start)
    (hstats : c'.heap.stats = statsSub c.heap.stats entry.charge .weights)
    (hheld : ∀ w, c'.held w + w entry = c.held w) : c'.Tallied start := by
  refine ⟨?_, ?_, ?_⟩
  · rw [hstats]
    exact fetchSub_mod h.liveBytes (hheld _)
  · rw [hstats]
    exact fetchSub_mod h.liveBlocks (hheld _)
  · rw [hstats]
    simp only [statsSub, Function.update_self]
    exact fetchSub_mod h.weights (hheld _)

end Cache.Tallied

theorem slot_of_block {e : StreamEngine} {i : Nat} {b : StreamBlock}
    (hb : e.blocks[i]? = some b) : e.cache.slot i = b.ramPtr.map (b.entry, ·) := by
  unfold Cache.slot
  rw [cache_getElem? hb]
  rfl

/-- How a turn changes the buffers: not at all, by a new one for a block that had none, or
by one that an evictable block gives back. -/
inductive Buffered (e : StreamEngine) (c' : Cache) : Prop
  | same (hheap : c'.heap = e.heap) (hheld : ∀ w, c'.held w = e.cache.held w)
      (hslot : ∀ k, c'.slot k = e.cache.slot k)
  | alloc {i ptr alignment : Nat} {os : Memalign} {entry : TensorEntry}
      (halloc : hbiAlloc e.heap os entry.byteSize alignment .weights = (c'.heap, some ptr))
      (hempty : e.cache.slot i = none) (hheld : ∀ w, c'.held w = e.cache.held w + w entry)
      (hslot : ∀ k, c'.slot k = if i = k then some (entry, ptr) else e.cache.slot k)
  | free {i ptr : Nat} {b : StreamBlock} (hb : e.blocks[i]? = some b)
      (hevict : b.evictable = true) (hptr : b.ramPtr = some ptr)
      (hheap : c'.heap = hbiFree e.heap ptr)
      (hheld : ∀ w, c'.held w + w b.entry = e.cache.held w)
      (hslot : ∀ k, c'.slot k = if i = k then none else e.cache.slot k)

/-- An eviction gives back the buffer of the block, if it has one. -/
theorem buffered_of_evict {e : StreamEngine} {c' : Cache} {i : Nat} {b : StreamBlock}
    (hb : e.blocks[i]? = some b) (hevict : b.evictable = true)
    (hheap : c'.heap = freeBuffer e.heap b.ramPtr)
    (hheld : ∀ w, c'.held w + b.cached.share w = e.cache.held w)
    (hslot : ∀ k, c'.slot k = if i = k then none else e.cache.slot k) : Buffered e c' := by
  cases hptr : b.ramPtr with
  | none =>
      rw [hptr] at hheap
      refine .same hheap (fun w => ?_) fun k => ?_
      · have hshare : b.cached.share w = 0 := by simp [CacheBlock.share, StreamBlock.cached, hptr]
        have hw := hheld w
        omega
      · rw [hslot]
        split
        · rename_i hik
          rw [← hik, slot_of_block hb, hptr]
          rfl
        · rfl
  | some ptr =>
      rw [hptr] at hheap
      refine .free hb hevict hptr hheap (fun w => ?_) hslot
      have hshare : b.cached.share w = w b.entry := by
        simp [CacheBlock.share, StreamBlock.cached, hptr]
      rw [← hshare]
      exact hheld w

theorem Accounted.buffered {e : StreamEngine} {env : StreamEnv} {p : ThreadAt} {c' : Cache}
    (h : Accounted e env p c') : Buffered e c' := by
  cases h with
  | same husage hheap hheld hslot => exact .same hheap hheld hslot
  | @alloc i ptr j b hb hp hj hempty halloc husage hheld hslot =>
      refine .alloc halloc ?_ hheld hslot
      rw [slot_of_block hb, hempty]
      rfl
  | evict hb hp hevict husage hheap hheld hslot =>
      exact buffered_of_evict hb hevict hheap hheld hslot
  | evictLru hb hevict husage hheap hheld hslot =>
      exact buffered_of_evict hb hevict hheap hheld hslot

namespace Buffered

variable {e : StreamEngine} {c' : Cache} {start : SysHeap}

theorem owned (h : Buffered e c') (howned : e.cache.Owned start) : c'.Owned start := by
  cases h with
  | same hheap hheld hslot => exact howned.congr hheap hslot
  | alloc halloc hempty hheld hslot => exact howned.alloc halloc hempty hslot
  | free hb hevict hptr hheap hheld hslot =>
      exact howned.free hheap (by rw [slot_of_block hb, hptr]; rfl) hslot

theorem tallied (h : Buffered e c') (howned : e.cache.Owned start)
    (htallied : e.cache.Tallied start.stats) : c'.Tallied start.stats := by
  cases h with
  | same hheap hheld hslot => exact htallied.congr hheap hheld
  | alloc halloc hempty hheld hslot =>
      obtain ⟨-, hstats, -⟩ := hbiAlloc_granted halloc
      exact htallied.alloc hstats hheld
  | @free i ptr b hb hevict hptr hheap hheld hslot =>
      obtain ⟨-, buf, hbuf, hlive⟩ := howned.live i b.entry ptr
        (by rw [slot_of_block hb, hptr]; rfl)
      have hstats : c'.heap.stats = statsSub e.heap.stats b.entry.charge .weights := by
        rw [hheap]
        refine (hbiFree_stats hbuf).trans ?_
        rw [hlive.size, hlive.tag]
        rfl
      exact htallied.free hstats hheld

end Buffered

theorem create_owned (ramCapacity : Nat) (io : Option IoPoolSize) (heap : SysHeap)
    (numCallers : Nat) :
    (StreamState.create ramCapacity io heap numCallers).engine.cache.Owned heap := by
  have hnone : ∀ i, (StreamState.create ramCapacity io heap numCallers).engine.cache.slot i =
      none := fun _ => rfl
  refine ⟨le_refl _, ?_, ?_, ?_⟩
  · intro i entry ptr hi
    rw [hnone] at hi
    cases hi
  · intro i i' entry entry' ptr hi
    rw [hnone] at hi
    cases hi
  · intro ptr buf hle hbuf
    have hlt := (List.getElem?_eq_some_iff.mp hbuf).1
    exact absurd hlt (not_lt.mpr hle)

/-- The counters that a release touches are words. -/
structure MemStats.Words (stats : MemStats) : Prop where
  liveBytes : stats.liveBytes < sizeTSize
  liveBlocks : stats.liveBlocks < sizeTSize
  weights : stats.bytesByTag .weights < sizeTSize

theorem create_tallied (ramCapacity : Nat) (io : Option IoPoolSize) {heap : SysHeap}
    (numCallers : Nat) (h : heap.stats.Words) :
    (StreamState.create ramCapacity io heap numCallers).engine.cache.Tallied heap.stats :=
  ⟨(Nat.mod_eq_of_lt h.liveBytes).symm, (Nat.mod_eq_of_lt h.liveBlocks).symm,
    (Nat.mod_eq_of_lt h.weights).symm⟩

section Runs

variable (ramCapacity : Nat) (io : Option IoPoolSize) {heap : SysHeap} (numCallers : Nat)
  (run : List StreamAction)

/-- The buffers are accounted for over every run. -/
theorem StreamState.after_owned :
    (StreamState.after ramCapacity io heap numCallers run).engine.cache.Owned heap := by
  apply @StreamState.after_of_jobs (fun c _ => c.Owned heap) fun _ _ _ => true
  · exact create_owned ramCapacity io heap numCallers
  · intro e env p c' p' loads t hjobs howned hl _ hturn
    exact (hturn.accounted hjobs hl).buffered.owned howned
  · exact moveMeets_true _ run

/-- And so are the counters of the allocator. -/
theorem StreamState.after_tallied (h : heap.stats.Words) :
    (StreamState.after ramCapacity io heap numCallers run).engine.cache.Tallied heap.stats := by
  have hboth : (StreamState.after ramCapacity io heap numCallers run).engine.cache.Owned heap ∧
      (StreamState.after ramCapacity io heap numCallers run).engine.cache.Tallied heap.stats := by
    apply @StreamState.after_of_jobs (fun c _ => c.Owned heap ∧ c.Tallied heap.stats)
      fun _ _ _ => true
    · exact ⟨create_owned _ _ _ _, create_tallied _ _ _ h⟩
    · intro e env p c' p' loads t hjobs hs hl _ hturn
      have hbuffered := (hturn.accounted hjobs hl).buffered
      exact ⟨hbuffered.owned hs.1, hbuffered.tallied hs.1 hs.2⟩
    · exact moveMeets_true _ run
  exact hboth.2

end Runs

/-- The destruction adds one release to a buffer for every block that points to it. -/
theorem destroyBuffers_getElem? (h : SysHeap) (blocks : List StreamBlock) (k : Nat) :
    (destroyBuffers h blocks).buffers[k]? = (h.buffers[k]?).map fun buf =>
      { buf with
        released := buf.released ++
          List.replicate (blocks.countP (·.ramPtr == some k)) .hbiAlignedFree } := by
  induction blocks generalizing h with
  | nil => simp [destroyBuffers]
  | cons b rest ih =>
      simp only [destroyBuffers]
      split
      · rename_i hnone
        rw [ih, List.countP_cons_of_neg (by simp [hnone])]
      · rename_i ptr hptr
        rw [ih]
        by_cases hk : ptr = k
        · subst hk
          rw [List.countP_cons_of_pos (by simp [hptr])]
          simp only [hbiAlignedFree, List.getElem?_modify_eq]
          cases h.buffers[ptr]? with
          | none => rfl
          | some buf => simp [SysBuffer.release, List.replicate_succ]
        · have hsame : (hbiAlignedFree h ptr).buffers[k]? = h.buffers[k]? :=
            List.getElem?_modify_ne _ _ hk
          rw [List.countP_cons_of_neg (by simpa [hptr] using hk), hsame]

theorem destroyBuffers_stats (h : SysHeap) (blocks : List StreamBlock) :
    (destroyBuffers h blocks).stats = h.stats := by
  induction blocks generalizing h with
  | nil => rfl
  | cons b rest ih =>
      simp only [destroyBuffers]
      split
      · exact ih h
      · exact ih _

/-- Every buffer that was handed out since the start went back exactly once and through
`hbi_free`, and the counters are those of the start. -/
structure BuffersReturned (start h : SysHeap) : Prop where
  released : ∀ ptr buf, start.buffers.length ≤ ptr → h.buffers[ptr]? = some buf →
    buf.released = [.hbiFree]
  liveBytes : h.stats.liveBytes = start.stats.liveBytes
  liveBlocks : h.stats.liveBlocks = start.stats.liveBlocks
  weights : h.stats.bytesByTag .weights = start.stats.bytesByTag .weights

/-- No block has a buffer. -/
theorem held_eq_zero {e : StreamEngine} (h : ∀ b ∈ e.blocks, b.ramPtr = none)
    (w : TensorEntry → Nat) : e.cache.held w = 0 := by
  apply List.sum_eq_zero
  intro n hn
  obtain ⟨c, hc, rfl⟩ := List.mem_map.mp hn
  obtain ⟨b, hb, rfl⟩ := List.mem_map.mp hc
  simp [CacheBlock.share, StreamBlock.cached, h b hb]

/-- For every budget, every I/O pool or none, every allocator, every number of callers and
every run: when the engine is destroyed behind the run, all buffers went back to the
allocator they came from exactly when no block has a buffer at that time. -/
theorem buffers_returned_iff (ramCapacity : Nat) (io : Option IoPoolSize) {heap : SysHeap}
    (numCallers : Nat) (run : List StreamAction) (hwords : heap.stats.Words) :
    BuffersReturned heap
        (hbiStreamEngineDestroy (StreamState.after ramCapacity io heap numCallers run).engine) ↔
      ∀ b ∈ (StreamState.after ramCapacity io heap numCallers run).engine.blocks,
        b.ramPtr = none := by
  have howned := @StreamState.after_owned ramCapacity io heap numCallers run
  have htallied := StreamState.after_tallied ramCapacity io numCallers run hwords
  generalize (StreamState.after ramCapacity io heap numCallers run).engine = e at *
  unfold hbiStreamEngineDestroy
  constructor
  · intro hreturned b hb
    by_contra hsome
    obtain ⟨ptr, hptr⟩ := Option.ne_none_iff_exists'.mp hsome
    obtain ⟨i, hi⟩ := List.mem_iff_getElem?.mp hb
    have hslot : e.cache.slot i = some (b.entry, ptr) := by
      rw [slot_of_block hi, hptr]
      rfl
    obtain ⟨hle, buf, hbuf, hlive⟩ := howned.live i b.entry ptr hslot
    change e.heap.buffers[ptr]? = some buf at hbuf
    have hafter := destroyBuffers_getElem? e.heap e.blocks ptr
    rw [hbuf, Option.map_some] at hafter
    have hreleased : buf.released ++ List.replicate (e.blocks.countP (·.ramPtr == some ptr))
        Release.hbiAlignedFree = [.hbiFree] := hreturned.released ptr _ hle hafter
    rw [hlive.released, List.nil_append] at hreleased
    have hmem : Release.hbiFree ∈ List.replicate
        (e.blocks.countP (·.ramPtr == some ptr)) Release.hbiAlignedFree := by
      rw [hreleased]
      exact List.mem_singleton_self _
    exact absurd (List.eq_of_mem_replicate hmem) (by decide)
  · intro hnone
    have hzero := held_eq_zero hnone
    refine ⟨?_, ?_, ?_, ?_⟩
    · intro ptr buf hle hbuf
      have hcount : e.blocks.countP (·.ramPtr == some ptr) = 0 := by
        apply List.countP_eq_zero.mpr
        intro b hb
        rw [hnone b hb]
        simp
      rw [destroyBuffers_getElem?, hcount] at hbuf
      obtain ⟨buf', hbuf', rfl⟩ := Option.map_eq_some_iff.mp hbuf
      rcases howned.freed ptr buf' hle hbuf' with hfreed | ⟨i, entry, hi⟩
      · simpa using hfreed
      · obtain ⟨c, hc, hslot⟩ := Option.bind_eq_some_iff.mp hi
        obtain ⟨b, hb, rfl⟩ := List.mem_map.mp (List.mem_of_getElem? hc)
        simp [CacheBlock.slot, StreamBlock.cached, hnone b hb] at hslot
    · rw [destroyBuffers_stats]
      have hbytes := htallied.liveBytes
      rwa [hzero, Nat.add_zero, Nat.mod_eq_of_lt hwords.liveBytes] at hbytes
    · rw [destroyBuffers_stats]
      have hblocks := htallied.liveBlocks
      rwa [hzero, Nat.add_zero, Nat.mod_eq_of_lt hwords.liveBlocks] at hblocks
    · rw [destroyBuffers_stats]
      have hweights := htallied.weights
      rwa [hzero, Nat.add_zero, Nat.mod_eq_of_lt hwords.weights] at hweights

theorem fresh_words (debug : Bool) : (SysHeap.fresh debug).stats.Words := by
  refine ⟨?_, ?_, ?_⟩
  · exact show 0 < sizeTSize by decide
  · exact show 0 < sizeTSize by decide
  · exact show 0 < sizeTSize by decide

/-- A tensor is loaded and evicted, and then the engine is destroyed. -/
theorem buffers_returned_iff_evicted :
    (SysHeap.fresh true).stats.Words ∧
      BuffersReturned (.fresh true) (hbiStreamEngineDestroy
        (StreamState.after 100 (some ⟨1, 1⟩) (.fresh true) 1
          (loadRun .ram ++ callRun 0 (.block .evict 0) 2)).engine) := by
  refine ⟨fresh_words true, ?_⟩
  apply (buffers_returned_iff 100 (some ⟨1, 1⟩) 1 _ (fresh_words true)).mpr
  decide +kernel

/-- A tensor that is resident when the engine is destroyed: its buffer goes back through
`hbi_aligned_free`, and eight bytes stay on the books. -/
theorem destroy_bypasses_allocator :
    ((hbiStreamEngineDestroy (StreamState.after 100 (some ⟨1, 1⟩) (.fresh true) 1
        (loadRun .ram)).engine).buffers.map SysBuffer.released = [[.hbiAlignedFree]]) ∧
      (hbiStreamEngineDestroy (StreamState.after 100 (some ⟨1, 1⟩) (.fresh true) 1
        (loadRun .ram)).engine).stats.liveBytes = 8 ∧
      ¬ BuffersReturned (.fresh true) (hbiStreamEngineDestroy
        (StreamState.after 100 (some ⟨1, 1⟩) (.fresh true) 1 (loadRun .ram)).engine) := by
  have hbytes : (hbiStreamEngineDestroy (StreamState.after 100 (some ⟨1, 1⟩) (.fresh true) 1
      (loadRun .ram)).engine).stats.liveBytes = 8 := by decide +kernel
  refine ⟨by decide +kernel, hbytes, ?_⟩
  intro hreturned
  have hsame := hreturned.liveBytes
  rw [hbytes] at hsame
  exact absurd hsame (by decide)

end Hummingbird

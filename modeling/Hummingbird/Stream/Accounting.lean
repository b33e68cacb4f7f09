import Hummingbird.Stream.Jobs

/-!
What the cache counts against what it holds. A weight of a block counts while the block
has a buffer. Only an allocation and the two evictions change the sum, and of these
`hbi_stream_evict` does not touch the counter.
-/

namespace Hummingbird

/-- The weight of a block, while it has a buffer. -/
def CacheBlock.share (w : TensorEntry → Nat) (b : CacheBlock) : Nat :=
  if b.ramPtr.isSome then w b.entry else 0

/-- The weights of the blocks that have a buffer. -/
def Cache.held (c : Cache) (w : TensorEntry → Nat) : Nat := (c.blocks.map (·.share w)).sum

theorem Cache.held_setBlock {c : Cache} {i : Nat} {b : CacheBlock} (hb : c.blocks[i]? = some b)
    (b' : CacheBlock) (w : TensorEntry → Nat) :
    (c.setBlock i b').held w + b.share w = c.held w + b'.share w :=
  Table.sum_map_set hb _ b'

theorem Cache.held_setBlock_of_share {c : Cache} {i : Nat} {b b' : CacheBlock}
    (hb : c.blocks[i]? = some b) (w : TensorEntry → Nat) (h : b'.share w = b.share w) :
    (c.setBlock i b').held w = c.held w := by
  have hset := held_setBlock hb b' w
  omega

theorem Cache.share_le_held {c : Cache} {i : Nat} {b : CacheBlock} (hb : c.blocks[i]? = some b)
    (w : TensorEntry → Nat) : b.share w ≤ c.held w :=
  List.single_le_sum (fun _ _ => Nat.zero_le _) _
    (List.mem_map_of_mem (f := (·.share w)) (List.mem_of_getElem? hb))

/-- The buffer of a block, with the entry it is for. -/
def CacheBlock.slot (b : CacheBlock) : Option (TensorEntry × Nat) := b.ramPtr.map (b.entry, ·)

/-- The buffer of the block at a place of the table. -/
def Cache.slot (c : Cache) (i : Nat) : Option (TensorEntry × Nat) :=
  (c.blocks[i]?).bind CacheBlock.slot

theorem CacheBlock.share_of_slot {b b' : CacheBlock} (h : b'.slot = b.slot)
    (w : TensorEntry → Nat) : b'.share w = b.share w := by
  have hshare : ∀ b : CacheBlock, b.share w = (b.slot.map fun x => w x.1).getD 0 := by
    intro b
    unfold share slot
    cases b.ramPtr with
    | none => rfl
    | some ptr => rfl
  rw [hshare, hshare, h]

theorem Cache.slot_setBlock {c : Cache} {i : Nat} {b : CacheBlock} (hb : c.blocks[i]? = some b)
    (b' : CacheBlock) (j : Nat) :
    (c.setBlock i b').slot j = if i = j then b'.slot else c.slot j := by
  unfold slot setBlock
  rw [Table.getElem?_set_of hb]
  split
  · rfl
  · rfl

/-- How a turn changes the counter, the allocator, the sums and the buffers: not at all, by
a buffer for a block that had none, or by a buffer that is given back. -/
inductive Accounted (e : StreamEngine) (env : StreamEnv) (p : ThreadAt) (c' : Cache) : Prop
  | same (husage : c'.usage = e.ramUsage) (hheap : c'.heap = e.heap)
      (hheld : ∀ w, c'.held w = e.cache.held w) (hslot : ∀ k, c'.slot k = e.cache.slot k)
  | alloc {i ptr : Nat} {j : JobAt} {b : StreamBlock} (hb : e.blocks[i]? = some b)
      (hp : p = .running i j) (hj : j.Allocates e b) (hempty : b.ramPtr = none)
      (halloc : hbiAlloc e.heap env.os b.entry.byteSize b.entry.requiredAlignment .weights =
        (c'.heap, some ptr))
      (husage : c'.usage = (e.ramUsage + b.entry.byteSize) % sizeTSize)
      (hheld : ∀ w, c'.held w = e.cache.held w + w b.entry)
      (hslot : ∀ k, c'.slot k = if i = k then some (b.entry, ptr) else e.cache.slot k)
  | evict {i : Nat} {b : StreamBlock} (hb : e.blocks[i]? = some b)
      (hp : p = .caller (.inside .evict i)) (hevict : b.evictable = true)
      (husage : c'.usage = e.ramUsage) (hheap : c'.heap = freeBuffer e.heap b.ramPtr)
      (hheld : ∀ w, c'.held w + b.cached.share w = e.cache.held w)
      (hslot : ∀ k, c'.slot k = if i = k then none else e.cache.slot k)
  | evictLru {i : Nat} {b : StreamBlock} (hb : e.blocks[i]? = some b)
      (hevict : b.evictable = true)
      (husage : c'.usage =
        if b.ramPtr.isSome then subWord e.ramUsage b.entry.byteSize else e.ramUsage)
      (hheap : c'.heap = freeBuffer e.heap b.ramPtr)
      (hheld : ∀ w, c'.held w + b.cached.share w = e.cache.held w)
      (hslot : ∀ k, c'.slot k = if i = k then none else e.cache.slot k)

theorem Accounted.unchanged {e : StreamEngine} {env : StreamEnv} {p : ThreadAt} :
    Accounted e env p e.cache := .same rfl rfl (fun _ => rfl) fun _ => rfl

/-- A block that changes and keeps its buffer changes nothing that is accounted for. -/
theorem Accounted.of_slot {e : StreamEngine} {env : StreamEnv} {p : ThreadAt} {i : Nat}
    {b : StreamBlock} (hb : e.blocks[i]? = some b) (b' : CacheBlock)
    (h : b'.slot = b.cached.slot) : Accounted e env p (e.cache.setBlock i b') := by
  have hcached := cache_getElem? hb
  refine .same rfl rfl (fun w => ?_) fun k => ?_
  · exact Cache.held_setBlock_of_share hcached w (CacheBlock.share_of_slot h w)
  · rw [Cache.slot_setBlock hcached]
    by_cases hik : i = k
    · rw [if_pos hik, h, ← hik]
      unfold Cache.slot
      rw [hcached]
      rfl
    · rw [if_neg hik]

theorem unpin_entry (b : StreamBlock) : b.unpin.entry = b.entry := by
  unfold StreamBlock.unpin
  split
  · rfl
  · rfl

/-- Every turn is accounted for in one of these ways. -/
theorem Turn.accounted {e : StreamEngine} {env : StreamEnv} {p p' : ThreadAt} {c' : Cache}
    (h : Turn e env p c' p') {loads : List Load} {t : Nat} (hjobs : e.cache.Jobs loads)
    (hl : loads[t]? = some p.load) : Accounted e env p c' := by
  cases h with
  | rest hload => exact .unchanged
  | @register d p' hp hload =>
      refine .same rfl rfl (fun w => ?_) fun k => ?_
      · have hnew : (StreamBlock.ofDesc d).cached.share w = 0 := rfl
        unfold Cache.held
        rw [List.map_append, List.sum_append, List.map_singleton, List.sum_singleton, hnew,
          Nat.add_zero]
      · unfold Cache.slot
        rw [List.getElem?_append]
        split
        · rfl
        · rename_i hk
          rw [List.getElem?_eq_none (not_lt.mp hk)]
          cases k - e.cache.blocks.length with
          | zero => rfl
          | succ n => rfl
  | pin hb hload hload' => exact .of_slot hb _ rfl
  | @unpin i b p' hb hload hload' =>
      apply Accounted.of_slot hb
      unfold CacheBlock.slot StreamBlock.cached
      rw [unpin_ramPtr, unpin_entry]
  | prefetch hb hp hstatus => exact .of_slot hb _ rfl
  | refuse hp hpool hload => exact .unchanged
  | accept hp hload => exact .same rfl rfl (fun _ => rfl) fun _ => rfl
  | take hp hqueue => exact .same rfl rfl (fun _ => rfl) fun _ => rfl
  | find hb hload hfound => exact .unchanged
  | @deny i j b hb hp hj hnone =>
      have hempty := hjobs.empty_of_allocates (cache_getElem? hb) (hp ▸ hl) hj
      apply Accounted.of_slot hb
      unfold CacheBlock.slot
      rw [hempty]
  | @alloc i j b ptr hb hp hj hptr =>
      have hempty := hjobs.empty_of_allocates (cache_getElem? hb) (hp ▸ hl) hj
      refine .alloc hb hp hj hempty (Prod.ext rfl hptr) rfl (fun w => ?_) fun k => ?_
      · have hset := Cache.held_setBlock (cache_getElem? hb)
          { b.cached with ramPtr := some ptr, filled := false } w
        have hbefore : b.cached.share w = 0 := by
          unfold CacheBlock.share
          rw [hempty]
          rfl
        have hafter : CacheBlock.share w { b.cached with ramPtr := some ptr, filled := false } =
          w b.entry := rfl
        rw [hbefore, hafter] at hset
        exact hset
      · exact Cache.slot_setBlock (cache_getElem? hb) _ k
  | @read i b hb hp =>
      obtain ⟨filled, hread⟩ := readData_eq b env.readOk
      rw [hread]
      exact .of_slot hb _ rfl
  | finish hb hp => exact .of_slot hb _ rfl
  | @evict i b p' hb hp hevict hload =>
      refine .evict hb hp hevict rfl rfl (fun w => ?_) fun k => ?_
      · exact Cache.held_setBlock (cache_getElem? hb) b.evicted.cached w
      · exact Cache.slot_setBlock (cache_getElem? hb) b.evicted.cached k
  | @evictLru i b p' hb hevict hload =>
      refine .evictLru hb hevict rfl rfl (fun w => ?_) fun k => ?_
      · exact Cache.held_setBlock (cache_getElem? hb) b.evicted.cached w
      · exact Cache.slot_setBlock (cache_getElem? hb) b.evicted.cached k

/-- The bytes of the blocks whose `ram_ptr` is not `NULL`. -/
def bufferedBytes (e : StreamEngine) : Nat :=
  (e.blocks.map fun b => if b.ramPtr.isSome then b.entry.byteSize else 0).sum

theorem held_byteSize (e : StreamEngine) : e.cache.held TensorEntry.byteSize = bufferedBytes e := by
  unfold Cache.held StreamEngine.cache bufferedBytes
  rw [List.map_map]
  rfl

/-- The counter of the engine is the sum over the buffers. -/
def RamExact (s : StreamState) : Prop := s.engine.ramUsage = bufferedBytes s.engine

/-- An allocation is refused, or the counter holds the sum. -/
def allocFits (e : StreamEngine) (env : StreamEnv) (b : StreamBlock) : Bool :=
  (hbiAlloc e.heap env.os b.entry.byteSize b.entry.requiredAlignment .weights).2.isNone ||
    decide (e.ramUsage + b.entry.byteSize < sizeTSize)

/-- A move that the counter follows: `hbi_stream_evict` does not give back a buffer, and an
allocation does not wrap the counter. -/
def ramAccounted (e : StreamEngine) (env : StreamEnv) : ThreadAt → Bool
  | .caller (.inside .evict i) =>
      (e.blocks[i]?).all fun b => !(b.evictable && b.ramPtr.isSome && b.entry.byteSize != 0)
  | .running i .budget => (e.blocks[i]?).all fun b => overBudget e b || allocFits e env b
  | .running i .gaveUp => (e.blocks[i]?).all fun b => allocFits e env b
  | _ => true

/-- The counter as a word that is the sum over the buffers. -/
def Cache.Exact (c : Cache) : Prop :=
  c.usage = c.held TensorEntry.byteSize ∧ c.usage < sizeTSize

theorem subWord_eq {x n : Nat} (hn : n ≤ x) (hx : x < sizeTSize) : subWord x n = x - n := by
  unfold subWord
  rw [show x + (sizeTSize - n) = x - n + sizeTSize by omega, Nat.add_mod_right,
    Nat.mod_eq_of_lt (by omega)]

/-- An accounted allocation does not wrap the counter. -/
theorem lt_sizeTSize_of_ramAccounted {e : StreamEngine} {env : StreamEnv} {i : Nat} {j : JobAt}
    {b : StreamBlock} (hb : e.blocks[i]? = some b) (hj : j.Allocates e b)
    (hgranted : (hbiAlloc e.heap env.os b.entry.byteSize b.entry.requiredAlignment
      .weights).2.isSome = true) :
    ramAccounted e env (.running i j) = true ↔ e.ramUsage + b.entry.byteSize < sizeTSize := by
  have hnone : (hbiAlloc e.heap env.os b.entry.byteSize b.entry.requiredAlignment
      .weights).2.isNone = false := by
    rw [← Option.not_isSome, hgranted]
    rfl
  rcases hj with ⟨rfl, hover⟩ | rfl
  · simp [ramAccounted, hb, hover, allocFits, hnone]
  · simp [ramAccounted, hb, allocFits, hnone]

theorem Accounted.exact {e : StreamEngine} {env : StreamEnv} {p : ThreadAt} {c' : Cache}
    (h : Accounted e env p c') (hexact : e.cache.Exact) (hmeets : ramAccounted e env p = true) :
    c'.Exact := by
  obtain ⟨heq, hlt⟩ := hexact
  change e.ramUsage = _ at heq
  change e.ramUsage < _ at hlt
  cases h with
  | same husage hheap hheld hslot =>
      refine ⟨?_, by rw [husage]; exact hlt⟩
      rw [husage, hheld, heq]
  | alloc hb hp hj hempty halloc husage hheld hslot =>
      rw [hp, lt_sizeTSize_of_ramAccounted hb hj (by rw [halloc]; rfl)] at hmeets
      rw [Nat.mod_eq_of_lt hmeets] at husage
      refine ⟨?_, by rw [husage]; exact hmeets⟩
      rw [husage, hheld, heq]
  | @evict i b hb hp hevict husage hheap hheld hslot =>
      have hshare : b.cached.share TensorEntry.byteSize = 0 := by
        have hor : b.ramPtr = none ∨ b.entry.byteSize = 0 := by
          rw [hp] at hmeets
          simpa [ramAccounted, hb, hevict] using hmeets
        rcases hor with hnone | hzero
        · simp [CacheBlock.share, StreamBlock.cached, hnone]
        · simp [CacheBlock.share, StreamBlock.cached, hzero]
      have hsum := hheld TensorEntry.byteSize
      refine ⟨?_, by rw [husage]; exact hlt⟩
      omega
  | @evictLru i b hb hevict husage hheap hheld hslot =>
      have hsum := hheld TensorEntry.byteSize
      have hle := Cache.share_le_held (cache_getElem? hb) TensorEntry.byteSize
      have hshare : b.cached.share TensorEntry.byteSize =
        if b.ramPtr.isSome then b.entry.byteSize else 0 := rfl
      cases hptr : b.ramPtr.isSome with
      | false =>
          rw [hptr] at husage hshare
          simp only [Bool.false_eq_true, if_false] at husage hshare
          exact ⟨by omega, by omega⟩
      | true =>
          rw [hptr] at husage hshare
          simp only [if_true] at husage hshare
          rw [subWord_eq (by omega) hlt] at husage
          exact ⟨by omega, by omega⟩

/-- An eviction of a buffer by `hbi_stream_evict` leaves the counter behind. -/
theorem evict_not_exact {e : StreamEngine} {i : Nat} {b : StreamBlock} (hexact : e.cache.Exact)
    (hb : e.blocks[i]? = some b) (hevict : b.evictable = true) (hptr : b.ramPtr.isSome = true)
    (hsize : b.entry.byteSize ≠ 0) :
    (evictSection e i b.unlocked).ramUsage ≠ bufferedBytes (evictSection e i b.unlocked) := by
  have hcache : (evictSection e i b.unlocked).cache.held TensorEntry.byteSize =
      (e.cache.setBlock i b.evicted.cached).held TensorEntry.byteSize := by
    unfold evictSection
    rw [if_pos (show b.unlocked.evictable = true from hevict)]
    simp only [StreamEngine.cache, map_cached_setBlock]
    rfl
  have husage : (evictSection e i b.unlocked).ramUsage = e.ramUsage := by
    unfold evictSection
    split
    · rfl
    · rfl
  have hset := Cache.held_setBlock (cache_getElem? hb) b.evicted.cached TensorEntry.byteSize
  have hbefore : b.cached.share TensorEntry.byteSize = b.entry.byteSize := if_pos hptr
  have hafter : b.evicted.cached.share TensorEntry.byteSize = 0 := rfl
  have heq : e.ramUsage = e.cache.held TensorEntry.byteSize := hexact.1
  rw [← held_byteSize, hcache, husage]
  omega

/-- An allocation that wraps the counter leaves it behind. -/
theorem alloc_not_exact {e : StreamEngine} {os : Memalign} {i : Nat} {b : StreamBlock}
    (hexact : e.cache.Exact) (hb : e.blocks[i]? = some b) (hnone : b.ramPtr = none)
    (hgranted : (hbiAlloc e.heap os b.entry.byteSize b.entry.requiredAlignment
      .weights).2.isSome = true) (hwrap : sizeTSize ≤ e.ramUsage + b.entry.byteSize) :
    (allocSection e os i b).ramUsage ≠ bufferedBytes (allocSection e os i b) := by
  obtain ⟨ptr, hptr⟩ := Option.isSome_iff_exists.mp hgranted
  have halloc : hbiAlloc e.heap os b.entry.byteSize b.entry.requiredAlignment .weights =
      ((hbiAlloc e.heap os b.entry.byteSize b.entry.requiredAlignment .weights).1, some ptr) :=
    Prod.ext rfl hptr
  have hcache : (allocSection e os i b).cache.held TensorEntry.byteSize =
      (e.cache.setBlock i { b.cached with ramPtr := some ptr, filled := false }).held
        TensorEntry.byteSize := by
    unfold allocSection
    rw [halloc]
    simp only [StreamEngine.cache, map_cached_setBlock]
    rfl
  have husage : (allocSection e os i b).ramUsage =
      (e.ramUsage + b.entry.byteSize) % sizeTSize := by
    unfold allocSection
    rw [halloc]
  have hset := Cache.held_setBlock (cache_getElem? hb)
    { b.cached with ramPtr := some ptr, filled := false } TensorEntry.byteSize
  have hbefore : b.cached.share TensorEntry.byteSize = 0 := by
    simp [CacheBlock.share, StreamBlock.cached, hnone]
  have hafter : CacheBlock.share TensorEntry.byteSize
    { b.cached with ramPtr := some ptr, filled := false } = b.entry.byteSize := rfl
  have heq : e.ramUsage = e.cache.held TensorEntry.byteSize := hexact.1
  have hmod := Nat.mod_lt (e.ramUsage + b.entry.byteSize) (show 0 < sizeTSize by decide)
  rw [← held_byteSize, hcache, husage]
  omega

theorem not_ramAccounted {e : StreamEngine} {env : StreamEnv} {p : ThreadAt}
    (h : ramAccounted e env p = false) :
    (∃ i b, p = .caller (.inside .evict i) ∧ e.blocks[i]? = some b ∧ b.evictable = true ∧
      b.ramPtr.isSome = true ∧ b.entry.byteSize ≠ 0) ∨
    ∃ i j b, p = .running i j ∧ e.blocks[i]? = some b ∧ j.Allocates e b ∧
      (hbiAlloc e.heap env.os b.entry.byteSize b.entry.requiredAlignment
        .weights).2.isSome = true ∧ sizeTSize ≤ e.ramUsage + b.entry.byteSize := by
  unfold ramAccounted at h
  split at h
  · rename_i i
    cases hb : e.blocks[i]? with
    | none => simp [hb] at h
    | some b =>
        simp only [hb, Option.all_some, Bool.not_eq_false', Bool.and_eq_true, bne_iff_ne] at h
        exact Or.inl ⟨i, b, rfl, hb, h.1.1, h.1.2, h.2⟩
  · rename_i i
    cases hb : e.blocks[i]? with
    | none => simp [hb] at h
    | some b =>
        simp only [hb, Option.all_some, Bool.or_eq_false_iff, allocFits, Option.isNone_eq_false_iff,
          decide_eq_false_iff_not, not_lt] at h
        exact Or.inr ⟨i, .budget, b, rfl, hb, Or.inl ⟨rfl, h.1⟩, h.2.1, h.2.2⟩
  · rename_i i
    cases hb : e.blocks[i]? with
    | none => simp [hb] at h
    | some b =>
        simp only [hb, Option.all_some, Bool.or_eq_false_iff, allocFits, Option.isNone_eq_false_iff,
          decide_eq_false_iff_not, not_lt] at h
        exact Or.inr ⟨i, .gaveUp, b, rfl, hb, Or.inr rfl, h.1, h.2⟩
  · cases h

theorem threadStep_allocates {e : StreamEngine} {env : StreamEnv} {t i : Nat} {j : JobAt}
    {b : StreamBlock} (hb : e.blocks[i]? = some b) (hj : j.Allocates e b) :
    (threadStep e t env (.running i j)).1 = (allocSection e env.os i b).unlockGlobal := by
  simp only [threadStep, hb]
  rcases hj with ⟨rfl, hover⟩ | rfl
  · simp only [jobStep, hover, Bool.false_eq_true, if_false]
  · rfl

/-- A move that is not accounted for makes the counter wrong. -/
theorem not_exact_of_move {e : StreamEngine} {env : StreamEnv} {p : ThreadAt} {loads : List Load}
    {t : Nat} (hjobs : e.cache.Jobs loads) (hl : loads[t]? = some p.load) (hexact : e.cache.Exact)
    (h : ramAccounted e env p = false) :
    (threadStep e t env p).1.ramUsage ≠ bufferedBytes (threadStep e t env p).1 := by
  rcases not_ramAccounted h with ⟨i, b, rfl, hb, hevict, hptr, hsize⟩ |
    ⟨i, j, b, rfl, hb, hj, hgranted, hwrap⟩
  · simp only [threadStep, callerStep, hb, opSection]
    exact evict_not_exact hexact hb hevict hptr hsize
  · have hnone := hjobs.empty_of_allocates (cache_getElem? hb) hl hj
    rw [threadStep_allocates hb hj]
    exact alloc_not_exact hexact hb hnone hgranted hwrap

/-- What every action keeps while the counter is right. -/
structure StreamState.Counted (s : StreamState) : Prop where
  fits : s.engine.PoolFits
  jobs : s.engine.cache.Jobs s.loads
  exact : s.engine.cache.Exact

theorem StreamState.Counted.step {s : StreamState} (h : s.Counted) {a : StreamAction}
    (hmeets : MoveMeets ramAccounted s a) : (streamStep s a).Counted := by
  have hboth := @streamStep_of_turn (fun c loads => c.Jobs loads ∧ c.Exact) ramAccounted
    (fun e env p c' p' loads t hs hl hf hturn =>
      ⟨hturn.jobs hs.1 hl, (hturn.accounted hs.1 hl).exact hs.2 hf⟩)
    s h.fits ⟨h.jobs, h.exact⟩ a hmeets
  exact ⟨streamStep_poolFits h.fits a, hboth.1, hboth.2⟩

theorem StreamState.Counted.exact_iff {s : StreamState} (h : s.Counted) (a : StreamAction) :
    RamExact (streamStep s a) ↔ MoveMeets ramAccounted s a := by
  constructor
  · intro hexact
    cases stepped s a with
    | aside _ _ hmeets => exact hmeets _
    | @moved t env p _ hp hload hmeets hengine hloads =>
        rw [hmeets]
        by_contra hnot
        unfold RamExact at hexact
        rw [hengine] at hexact
        exact not_exact_of_move h.jobs hload h.exact (by simpa using hnot) hexact
  · intro hmeets
    have hafter := (h.step hmeets).exact.1
    rw [held_byteSize] at hafter
    exact hafter

theorem create_counted (ramCapacity : Nat) (io : Option IoPoolSize) (heap : SysHeap)
    (numCallers : Nat) : (StreamState.create ramCapacity io heap numCallers).Counted :=
  ⟨create_poolFits _ _ _ _, create_jobs _ _ _ _, rfl, show 0 < sizeTSize by decide⟩

/-- For every budget, every I/O pool or none, every number of callers and every run: the
counter is the sum over the buffers after every step exactly when `hbi_stream_evict` gives
back no buffer in it and no allocation wraps the counter. -/
theorem ram_exact_along_iff (ramCapacity : Nat) (io : Option IoPoolSize) (heap : SysHeap)
    (numCallers : Nat) (run : List StreamAction) :
    Runs.Along streamStep (fun s a => RamExact (streamStep s a))
        (.create ramCapacity io heap numCallers) run ↔
      Runs.Along streamStep (MoveMeets ramAccounted)
        (.create ramCapacity io heap numCallers) run := by
  apply @Runs.along_iff StreamState StreamAction streamStep StreamState.Counted _ _ fun _ _ => True
  · exact fun s a hs _ => hs.exact_iff a
  · exact fun s a hs _ hmeets => hs.step hmeets
  · exact create_counted ramCapacity io heap numCallers
  · exact Runs.along_of_mem fun _ _ => trivial

/-- A tensor of eight bytes is loaded and evicted again: no block has a buffer, and the
counter says eight. -/
theorem ram_exact_fails_after_evict :
    (StreamState.after 100 (some ⟨1, 1⟩) (.fresh false) 1
        (loadRun .ram ++ callRun 0 (.block .evict 0) 2)).engine.ramUsage = 8 ∧
      ¬ RamExact (.after 100 (some ⟨1, 1⟩) (.fresh false) 1
        (loadRun .ram ++ callRun 0 (.block .evict 0) 2)) := by
  have husage : (StreamState.after 100 (some ⟨1, 1⟩) (.fresh false) 1
      (loadRun .ram ++ callRun 0 (.block .evict 0) 2)).engine.ramUsage = 8 := by decide +kernel
  have hheld : bufferedBytes (StreamState.after 100 (some ⟨1, 1⟩) (.fresh false) 1
      (loadRun .ram ++ callRun 0 (.block .evict 0) 2)).engine = 0 := by decide +kernel
  refine ⟨husage, ?_⟩
  unfold RamExact
  rw [husage, hheld]
  decide

end Hummingbird

import Hummingbird.Stream.Accounting

/-!
What a resident block holds. A block becomes resident at the end of a read job, whatever
came of the allocation and of the read, or right at its registration. Where these three
go well, the buffer of a resident or pinned block is there and a read filled it.
-/

namespace Hummingbird

/-- The block has a buffer that a read of its entry filled. -/
structure CacheBlock.Full (b : CacheBlock) : Prop where
  buffer : b.ramPtr.isSome = true
  filled : b.filled = true

def ResidencyStatus.present : ResidencyStatus → Bool
  | .resident | .pinned => true
  | .evicted | .inTransit => false

/-- What a block owes to its status and to the load that is on its way. -/
structure CacheBlock.Kept (b : CacheBlock) (i : Nat) (loads : List Load) : Prop where
  present : b.status.present = true → b.Full
  loading : .loading i ∈ loads → b.ramPtr.isSome = true
  loaded : .loaded i ∈ loads → b.Full

def Cache.Kept (c : Cache) (loads : List Load) : Prop :=
  ∀ (i : Nat) (b : CacheBlock), c.blocks[i]? = some b → b.Kept i loads

theorem CacheBlock.Kept.congr {b b' : CacheBlock} {i : Nat} {loads : List Load}
    (h : b.Kept i loads) (hptr : b'.ramPtr = b.ramPtr) (hfilled : b'.filled = b.filled)
    (hstatus : b'.status.present = true → b.status.present = true) : b'.Kept i loads := by
  have hfull : b.Full → b'.Full := by
    intro hb
    exact ⟨by rw [hptr]; exact hb.buffer, by rw [hfilled]; exact hb.filled⟩
  refine ⟨?_, ?_, ?_⟩
  · exact fun hpresent => hfull (h.present (hstatus hpresent))
  · rw [hptr]
    exact h.loading
  · exact fun hmem => hfull (h.loaded hmem)

/-- A block with a load on its way is in transit. -/
theorem Cache.Jobs.inTransit_of_mem {c : Cache} {loads : List Load} (h : c.Jobs loads) {i : Nat}
    {m : Load} (hm : m ∈ loads) (hi : m.block? = some i) :
    ∃ b, c.blocks[i]? = some b ∧ b.status = .inTransit := by
  obtain ⟨k, hk⟩ := List.mem_iff_getElem?.mp hm
  exact h.transit i (Cache.pending_pos_of_load hk hi)

namespace Cache.Kept

variable {c : Cache} {loads : List Load} {t i : Nat} {b : CacheBlock}

/-- A thread goes on with the load of a block, and the block changes. -/
theorem set (h : c.Kept loads) (hb : c.blocks[i]? = some b) {l' : Load} (b' : CacheBlock)
    (hl' : l' = .away ∨ l'.block? = some i) (hkept : b'.Kept i (loads.set t l')) :
    (c.setBlock i b').Kept (loads.set t l') := by
  intro j bj hbj
  rcases setBlock_cases hb hbj with ⟨rfl, rfl⟩ | ⟨hij, hbj⟩
  · exact hkept
  · have hother : ∀ m : Load, m.block? = some j → m ∈ loads.set t l' → m ∈ loads := by
      intro m hm hmem
      rcases List.mem_or_eq_of_mem_set hmem with hmem | rfl
      · exact hmem
      · rcases hl' with rfl | hl'
        · cases hm
        · exact absurd (Option.some.inj (hl'.symm.trans hm)) hij
    have hj := h j bj hbj
    exact ⟨hj.present, fun hmem => hj.loading (hother _ rfl hmem),
      fun hmem => hj.loaded (hother _ rfl hmem)⟩

/-- A block changes, and no load moves. -/
theorem setBlock (h : c.Kept loads) (hb : c.blocks[i]? = some b) (b' : CacheBlock)
    (hkept : b'.Kept i loads) : (c.setBlock i b').Kept loads := by
  have hself : loads.set loads.length .away = loads := List.set_eq_of_length_le le_rfl
  have hset := @set c loads loads.length i b h hb .away b' (Or.inl rfl) (by rw [hself]; exact hkept)
  rwa [hself] at hset

/-- A load that asks nothing of its block yet. -/
theorem setLoad (h : c.Kept loads) (l' : Load) (hl' : l' = .away ∨ l' = .submitting i ∨
    l' = .fetched i) : c.Kept (loads.set t l') := by
  intro j bj hbj
  have hj := h j bj hbj
  refine ⟨hj.present, ?_, ?_⟩
  · intro hmem
    rcases List.mem_or_eq_of_mem_set hmem with hmem | rfl
    · exact hj.loading hmem
    · simp at hl'
  · intro hmem
    rcases List.mem_or_eq_of_mem_set hmem with hmem | rfl
    · exact hj.loaded hmem
    · simp at hl'

/-- The worker that carries the load of a block goes on with it, or ends it. -/
theorem carry (h : c.Kept loads) (hjobs : c.Jobs loads) {l : Load} (hl : loads[t]? = some l)
    (hi : l.block? = some i) (hb : c.blocks[i]? = some b) (b' : CacheBlock) (l' : Load)
    (hl' : l' = .away ∨ l'.block? = some i) (hpresent : b'.status.present = true → b'.Full)
    (hloading : l' = .loading i → b'.ramPtr.isSome = true) (hloaded : l' = .loaded i → b'.Full) :
    (c.setBlock i b').Kept (loads.set t l') := by
  have hself : ∀ m : Load, m.block? = some i → m ∈ loads.set t l' → l' = m := by
    intro m hm hmem
    by_contra hne
    exact hjobs.no_other hl hi hmem (fun heq => hne heq.symm) hm
  apply h.set hb b' hl'
  exact ⟨hpresent, fun hmem => hloading (hself _ rfl hmem), fun hmem => hloaded (hself _ rfl hmem)⟩

/-- A block whose status is not in transit carries no load, so it may lose its buffer when
it is evicted. -/
theorem evict (h : c.Kept loads) (hjobs : c.Jobs loads) (hb : c.blocks[i]? = some b)
    (hstatus : b.status = .resident) (b' : CacheBlock) (hevicted : b'.status = .evicted) :
    (c.setBlock i b').Kept loads := by
  have hnone : ∀ m : Load, m.block? = some i → m ∉ loads := by
    intro m hm hmem
    obtain ⟨bi, hbi, hin⟩ := hjobs.inTransit_of_mem hmem hm
    rw [hb, Option.some.injEq] at hbi
    rw [← hbi, hstatus] at hin
    cases hin
  apply h.setBlock hb
  refine ⟨?_, fun hmem => absurd hmem (hnone _ rfl), fun hmem => absurd hmem (hnone _ rfl)⟩
  intro hpresent
  rw [hevicted] at hpresent
  cases hpresent

end Cache.Kept

theorem present_of_pin {b : StreamBlock} (h : b.pin.status.present = true) :
    b.status.present = true := by
  by_cases hres : b.status = .resident
  · rw [hres]
    rfl
  · simpa [StreamBlock.pin, hres] using h

theorem present_of_unpin {b : StreamBlock} (h : b.unpin.status.present = true) :
    b.status.present = true := by
  unfold StreamBlock.unpin at h
  split at h
  · dsimp only at h
    split at h
    · rename_i hpinned
      rw [hpinned.2]
      rfl
    · exact h
  · exact h

theorem unpin_filled (b : StreamBlock) : b.unpin.filled = b.filled := by
  unfold StreamBlock.unpin
  split
  · rfl
  · rfl

/-- The allocation of a worker succeeds. -/
def allocGranted (e : StreamEngine) (env : StreamEnv) (b : StreamBlock) : Bool :=
  (hbiAlloc e.heap env.os b.entry.byteSize b.entry.requiredAlignment .weights).2.isSome

/-- A move on the way to a full buffer: no block is registered as if it were loaded, an
allocation succeeds, and a read has a handler and succeeds. -/
def dataRead (e : StreamEngine) (env : StreamEnv) : ThreadAt → Bool
  | .caller (.registering d) => !d.initialStatus.present
  | .running i .budget => (e.blocks[i]?).all fun b => overBudget e b || allocGranted e env b
  | .running i .gaveUp => (e.blocks[i]?).all fun b => allocGranted e env b
  | .running i .reading => (e.blocks[i]?).all fun b => b.handler && env.readOk
  | _ => true

/-- Such moves keep that blocks hold what their status says. -/
theorem Turn.kept {e : StreamEngine} {env : StreamEnv} {p p' : ThreadAt} {c' : Cache}
    (h : Turn e env p c' p') {loads : List Load} {t : Nat} (hjobs : e.cache.Jobs loads)
    (hkept : e.cache.Kept loads) (hl : loads[t]? = some p.load)
    (hmeets : dataRead e env p = true) : c'.Kept (loads.set t p'.load) := by
  cases h with
  | rest hload =>
      rw [hload, Table.set_self hl]
      exact hkept
  | @register d p' hp hload =>
      have haway : p.load = .away := by rw [hp]; rfl
      rw [hload, ← haway, Table.set_self hl]
      intro j bj hbj
      rcases getElem?_append_cases hbj with hbj | ⟨k, hk, hnew⟩
      · exact hkept j bj hbj
      · have hbj : bj = (StreamBlock.ofDesc d).cached := by simpa using List.mem_of_getElem? hnew
        have hnone : ∀ m : Load, m.block? = some j → m ∉ loads := by
          intro m hm hmem
          obtain ⟨b, hb, -⟩ := hjobs.inTransit_of_mem hmem hm
          obtain ⟨hlt, -⟩ := List.getElem?_eq_some_iff.mp hb
          omega
        refine ⟨?_, fun hmem => absurd hmem (hnone _ rfl), fun hmem => absurd hmem (hnone _ rfl)⟩
        intro hpresent
        rw [hbj] at hpresent
        rw [hp] at hmeets
        simp [dataRead, show d.initialStatus.present = true from hpresent] at hmeets
  | pin hb hload hload' =>
      rw [hload', ← hload, Table.set_self hl]
      apply hkept.setBlock (cache_getElem? hb)
      exact (hkept _ _ (cache_getElem? hb)).congr rfl rfl present_of_pin
  | unpin hb hload hload' =>
      rw [hload', ← hload, Table.set_self hl]
      apply hkept.setBlock (cache_getElem? hb)
      exact (hkept _ _ (cache_getElem? hb)).congr (unpin_ramPtr _) (unpin_filled _) present_of_unpin
  | @prefetch i tier b hb hp hstatus =>
      have hold := hkept i b.cached (cache_getElem? hb)
      have hset := hkept.setBlock (cache_getElem? hb) { b.cached with status := .inTransit }
        (hold.congr rfl rfl nofun)
      exact hset.setLoad (.submitting i) (Or.inr (Or.inl rfl))
  | refuse hp hpool hload =>
      rw [hload]
      exact hkept.setLoad (i := 0) .away (Or.inl rfl)
  | accept hp hload =>
      rw [hload]
      exact hkept.setLoad (i := 0) .away (Or.inl rfl)
  | @take i rest hp hqueue => exact hkept.setLoad (.fetched i) (Or.inr (Or.inr rfl))
  | @find i b p' hb hload hfound =>
      have hcarry := @Cache.Kept.carry e.cache loads t i b.cached hkept hjobs _ hl
        (by rw [hload]; rfl) (cache_getElem? hb) b.cached
      have hold := hkept i b.cached (cache_getElem? hb)
      rw [← cache_setBlock_of_cached hb b rfl, cache_setBlock]
      rcases hfound with ⟨-, hload'⟩ | ⟨hsome, hload'⟩
      · rw [hload']
        exact hcarry (.empty i) (Or.inr rfl) hold.present (by simp) (by simp)
      · rw [hload']
        exact hcarry (.loading i) (Or.inr rfl) hold.present (fun _ => hsome) (by simp)
  | @deny i j b hb hp hj hnone =>
      rw [hp] at hmeets
      rcases hj with ⟨rfl, hover⟩ | rfl
      · simp [dataRead, hb, hover, allocGranted, hnone] at hmeets
      · simp [dataRead, hb, allocGranted, hnone] at hmeets
  | @alloc i j b ptr hb hp hj hptr =>
      rw [hp, hj.load] at hl
      obtain ⟨bi, hbi, hin⟩ := hjobs.inTransit_of_mem (List.mem_of_getElem? hl) rfl
      rw [cache_getElem? hb, Option.some.injEq] at hbi
      have hset := hkept.carry hjobs hl rfl (cache_getElem? hb)
        { b.cached with ramPtr := some ptr, filled := false } (.loading i) (Or.inr rfl)
        (fun hpresent => by rw [hbi] at hpresent; simp [hin, ResidencyStatus.present] at hpresent)
        (fun _ => rfl) (by simp)
      exact hset
  | @read i b hb hp =>
      rw [hp] at hl hmeets
      have hsome := (hkept i b.cached (cache_getElem? hb)).loading (List.mem_of_getElem? hl)
      have hread : b.handler = true ∧ env.readOk = true := by simpa [dataRead, hb] using hmeets
      have hfull : (b.readData env.readOk).cached.Full := by
        unfold StreamBlock.readData
        rw [if_pos ⟨hsome, hread.1⟩]
        exact ⟨hsome, hread.2⟩
      exact hkept.carry hjobs hl rfl (cache_getElem? hb) _ (.loaded i) (Or.inr rfl)
        (fun _ => hfull) (by simp) (fun _ => hfull)
  | @finish i b hb hp =>
      rw [hp] at hl
      have hfull := (hkept i b.cached (cache_getElem? hb)).loaded (List.mem_of_getElem? hl)
      exact hkept.carry hjobs hl rfl (cache_getElem? hb) { b.cached with status := .resident } .away
        (Or.inl rfl) (fun _ => ⟨hfull.buffer, hfull.filled⟩) (by simp) (by simp)
  | @evict i b p' hb hp hevict hload =>
      have haway : p.load = .away := by rw [hp]; rfl
      rw [hload, ← haway, Table.set_self hl]
      exact hkept.evict hjobs (cache_getElem? hb) (status_of_evictable hevict) b.evicted.cached rfl
  | @evictLru i b p' hb hevict hload =>
      rw [hload, Table.set_self hl]
      exact hkept.evict hjobs (cache_getElem? hb) (status_of_evictable hevict) b.evicted.cached rfl

/-- A block that is resident or pinned has a buffer that a successful read of its entry
filled. -/
def ResidentHoldsData (s : StreamState) : Prop :=
  ∀ b ∈ s.engine.blocks, b.status = .resident ∨ b.status = .pinned →
    b.ramPtr.isSome = true ∧ b.filled = true

/-- For every budget, every I/O pool or none, every number of callers and every run whose
registrations, allocations and reads all go well: what is reported resident holds its data
in the state reached. -/
theorem resident_holds_data (ramCapacity : Nat) (io : Option IoPoolSize) (heap : SysHeap)
    (numCallers : Nat) {run : List StreamAction}
    (hrun : Runs.Along streamStep (MoveMeets dataRead)
      (.create ramCapacity io heap numCallers) run) :
    ResidentHoldsData (.after ramCapacity io heap numCallers run) := by
  have hkept : (StreamState.after ramCapacity io heap numCallers run).engine.cache.Kept
      (StreamState.after ramCapacity io heap numCallers run).loads := by
    apply @StreamState.after_of_jobs Cache.Kept dataRead
    · intro i b hb
      cases hb
    · intro e env p c' p' loads t hjobs hkept hl hmeets hturn
      exact hturn.kept hjobs hkept hl hmeets
    · exact hrun
  intro b hb hstatus
  obtain ⟨i, hi⟩ := List.mem_iff_getElem?.mp hb
  have hpresent : b.status.present = true := by
    rcases hstatus with hstatus | hstatus
    · rw [hstatus]
      rfl
    · rw [hstatus]
      rfl
  have hfull := (hkept i b.cached (cache_getElem? hi)).present hpresent
  exact ⟨hfull.buffer, hfull.filled⟩

theorem resident_holds_data_load :
    Runs.Along streamStep (MoveMeets dataRead) (.create 100 (some ⟨1, 1⟩) (.fresh false) 1)
        (loadRun .ram) ∧
      ResidentHoldsData (.after 100 (some ⟨1, 1⟩) (.fresh false) 1 (loadRun .ram)) := by
  have hrun : Runs.Along streamStep (MoveMeets dataRead)
      (.create 100 (some ⟨1, 1⟩) (.fresh false) 1) (loadRun .ram) := by decide +kernel
  exact ⟨hrun, resident_holds_data 100 (some ⟨1, 1⟩) (.fresh false) 1 hrun⟩

/-- An environment in which the file cannot be read. -/
def unreadableEnv : StreamEnv := { sampleEnv with readOk := false }

/-- A tensor is requested, and the read of its file fails. -/
def unreadableRun : List StreamAction :=
  prefetchRun .ram ++ List.replicate 7 (.move 1 unreadableEnv)

/-- An environment without memory. -/
def exhaustedEnv : StreamEnv := { sampleEnv with os := .exhausted }

/-- A tensor is requested, and its buffer cannot be allocated. -/
def exhaustedRun : List StreamAction :=
  prefetchRun .ram ++ List.replicate 7 (.move 1 exhaustedEnv)

/-- A session registers a tensor with the hint to keep it in memory as resident. -/
def residentDesc : StreamBlockDesc :=
  { sampleDesc with initialStatus := .resident, initialTier := .ram }

/-- A block registered as resident has no buffer, and neither has one whose allocation
failed; a block whose read failed has a buffer without its data. All three are reported
resident. -/
theorem resident_lacks_data :
    ¬ ResidentHoldsData (.after 4294967296 none (.fresh false) 1
        (callRun 0 (.register residentDesc (.ok ())) 2)) ∧
      ¬ ResidentHoldsData (.after 100 (some ⟨1, 1⟩) (.fresh false) 1 exhaustedRun) ∧
      ¬ ResidentHoldsData (.after 100 (some ⟨1, 1⟩) (.fresh false) 1 unreadableRun) := by
  unfold ResidentHoldsData
  decide +kernel

end Hummingbird

import Hummingbird.Stream.Cache

/-!
From the turns of one thread to runs of the whole system. The queue of the I/O pool stays
a run of its slots; a property of the cache and of the loads that every turn keeps holds
in every state that a run reaches.
-/

namespace Hummingbird

theorem StreamEngine.PoolFits.congr {e e' : StreamEngine} (h : e.PoolFits)
    (hpool : e'.ioPool = e.ioPool) : e'.PoolFits := by
  unfold StreamEngine.PoolFits
  rw [hpool]
  exact h

section PoolFits

variable {e : StreamEngine} {t i : Nat} {b : StreamBlock}

theorem lockBlock_ioPool (next stay : ThreadAt) :
    (e.lockBlock t i next stay).1.ioPool = e.ioPool := by
  unfold StreamEngine.lockBlock
  split
  · rfl
  · split
    · rfl
    · rfl

theorem lockGlobal_ioPool (next stay : ThreadAt) :
    (e.lockGlobal t next stay).1.ioPool = e.ioPool := by
  unfold StreamEngine.lockGlobal
  split
  · rfl
  · rfl

theorem evictSection_ioPool : (evictSection e i b).ioPool = e.ioPool := by
  unfold evictSection
  split
  · rfl
  · rfl

theorem victimSection_ioPool : (victimSection e i b).ioPool = e.ioPool := by
  unfold victimSection
  split
  · rfl
  · rfl

theorem registerSection_ioPool {grows : Bool} {d : StreamBlockDesc} :
    (registerSection e grows d).1.ioPool = e.ioPool := by
  unfold registerSection
  split
  · rfl
  · rfl

theorem allocSection_ioPool {os : Memalign} : (allocSection e os i b).ioPool = e.ioPool := by
  unfold allocSection
  split
  · rfl
  · rfl

theorem opSection_ioPool {op : BlockOp} : (opSection e i b op).1.ioPool = e.ioPool := by
  cases op with
  | pin => rfl
  | unpin => rfl
  | evict => exact evictSection_ioPool
  | prefetch tier =>
      simp only [opSection]
      split
      · rfl
      · rfl
  | await =>
      simp only [opSection]
      split
      · rfl
      · rfl
      · rfl
      · rfl

theorem lruStep_ioPool {tier : MemoryTier} {at_ : LruAt → ThreadAt}
    {done : Result Unit → ThreadAt} (l : LruAt) :
    (lruStep e t tier at_ done l).1.ioPool = e.ioPool := by
  cases l with
  | scan i lru =>
      simp only [lruStep]
      split
      · rfl
      · split
        · rfl
        · rfl
  | wants v => exact lockBlock_ioPool _ _
  | inside v =>
      simp only [lruStep]
      split
      · rfl
      · exact victimSection_ioPool

theorem wrapSection_ioPool : (wrapSection e i b).1.ioPool = e.ioPool := by
  unfold wrapSection
  split
  · rfl
  · rfl

theorem submitJob_poolFits {woken : Bool} (h : e.PoolFits) :
    (submitJob e i woken).1.PoolFits := by
  unfold submitJob
  split
  · exact h
  · rename_i pool hpool
    obtain ⟨hhead, hcount⟩ := h pool hpool
    unfold enqueueSection
    by_cases hdown : pool.shuttingDown = true
    · rw [if_pos hdown]
      exact h
    · rw [if_neg hdown]
      by_cases hroom : pool.count = pool.queue.length
      · rw [if_pos hroom]
        exact h
      · rw [if_neg hroom]
        intro pool' hpool'
        cases hpool'
        rw [List.length_set]
        exact ⟨hhead, by dsimp only; omega⟩

theorem idleStep_poolFits (h : e.PoolFits) : (idleStep e).1.PoolFits := by
  unfold idleStep
  split
  · exact h
  · rename_i pool hpool
    obtain ⟨hhead, hcount⟩ := h pool hpool
    split
    · exact h
    · exact h
    · rename_i job pool' htask
      unfold takeSection at htask
      split at htask
      · cases htask
      · split at htask
        · cases htask
        · cases htask
          intro pool' hpool'
          cases hpool'
          exact ⟨Nat.mod_lt _ (by omega), by dsimp only; omega⟩

theorem mapPool_poolFits {f : Pool Nat → Pool Nat} (h : e.PoolFits)
    (hqueue : ∀ pool, (f pool).queue = pool.queue) (hhead : ∀ pool, (f pool).head = pool.head)
    (hcount : ∀ pool, (f pool).count = pool.count) : (e.mapPool f).PoolFits := by
  intro pool' hpool'
  obtain ⟨pool, hpool, rfl⟩ := Option.map_eq_some_iff.mp hpool'
  rw [hqueue, hhead, hcount]
  exact h pool hpool

theorem callerStep_poolFits {env : StreamEnv} (h : e.PoolFits) (c : CallerAt) :
    (callerStep e t env c).1.PoolFits := by
  cases c with
  | outside => exact h
  | returned r => exact h
  | wantsTable d => exact h.congr (lockGlobal_ioPool _ _)
  | registering d => exact h.congr registerSection_ioPool
  | wants op i => exact h.congr (lockBlock_ioPool _ _)
  | inside op i =>
      simp only [callerStep]
      split
      · exact h
      · exact h.congr opSection_ioPool
  | submitting i woken => exact submitJob_poolFits h
  | wantsRecord i => exact h.congr (lockBlock_ioPool _ _)
  | recording i =>
      simp only [callerStep]
      split
      · exact h
      · exact h
  | wrapping i =>
      simp only [callerStep]
      split
      · exact h
      · exact h.congr wrapSection_ioPool
  | wantsHit tensor => exact h.congr (lockGlobal_ioPool _ _)
  | hitting tensor => exact h
  | evictingLru tier l => exact h.congr (lruStep_ioPool l)

theorem jobStep_poolFits {env : StreamEnv} (h : e.PoolFits) (j : JobAt) :
    (jobStep e t env i b j).1.PoolFits := by
  cases j with
  | start =>
      simp only [jobStep]
      split
      · exact h
      · exact h
  | wantsGlobal => exact h.congr (lockGlobal_ioPool _ _)
  | budget =>
      simp only [jobStep]
      split
      · exact h
      · exact h.congr allocSection_ioPool
  | evicting l => exact h.congr (lruStep_ioPool l)
  | gaveUp => exact h.congr allocSection_ioPool
  | reading => exact h
  | wantsBlock => exact h.congr (lockBlock_ioPool _ _)
  | finishing => exact h

theorem threadStep_poolFits {env : StreamEnv} (h : e.PoolFits) (p : ThreadAt) :
    (threadStep e t env p).1.PoolFits := by
  cases p with
  | caller c => exact callerStep_poolFits h c
  | idle => exact idleStep_poolFits h
  | running i j =>
      simp only [threadStep]
      split
      · exact h
      · exact jobStep_poolFits h j
  | ran =>
      apply mapPool_poolFits h
      · exact fun _ => rfl
      · exact fun _ => rfl
      · exact fun _ => rfl
  | counted =>
      apply mapPool_poolFits h
      · exact fun _ => rfl
      · exact fun _ => rfl
      · exact fun _ => rfl
  | exited => exact h

end PoolFits

/-- The stages of the loads that the threads carry. -/
def StreamState.loads (s : StreamState) : List Load := s.threads.map ThreadAt.load

theorem beginCall_load (e : StreamEngine) (op : StreamOp) : (beginCall e op).load = .away := by
  cases op with
  | register d created =>
      cases created with
      | error err => rfl
      | ok _ => rfl
  | block op i =>
      simp only [beginCall]
      split
      · rfl
      · rfl
  | evictLru tier => rfl

theorem load_of_free {p : ThreadAt} (h : p.free = true) : p.load = .away := by
  cases p with
  | caller c =>
      cases c with
      | outside => rfl
      | returned r => rfl
      | _ => cases h
  | _ => cases h

/-- A condition on the moves of threads: on the engine, the environment and the place where
the thread stands. -/
def MoveMeets (f : StreamEngine → StreamEnv → ThreadAt → Bool) (s : StreamState) :
    StreamAction → Prop
  | .move t env => (s.threads[t]?).all (f s.engine env) = true
  | .call _ _ | .shutdown => True

instance (f : StreamEngine → StreamEnv → ThreadAt → Bool) (s : StreamState) :
    (a : StreamAction) → Decidable (MoveMeets f s a)
  | .move _ _ => inferInstanceAs (Decidable (_ = true))
  | .call _ _ | .shutdown => inferInstanceAs (Decidable True)

/-- What an action does: it is the move of a thread, or it leaves the cache and the loads as
they are and meets every condition on moves. -/
inductive Stepped (s : StreamState) (a : StreamAction) : Prop
  | aside (hcache : (streamStep s a).engine.cache = s.engine.cache)
      (hloads : (streamStep s a).loads = s.loads) (hmeets : ∀ f, MoveMeets f s a)
  | moved {t : Nat} {env : StreamEnv} {p : ThreadAt} (ha : a = .move t env)
      (hp : s.threads[t]? = some p) (hload : s.loads[t]? = some p.load)
      (hmeets : ∀ f, MoveMeets f s a ↔ f s.engine env p = true)
      (hengine : (streamStep s a).engine = (threadStep s.engine t env p).1)
      (hloads : (streamStep s a).loads = s.loads.set t (threadStep s.engine t env p).2.load)

theorem stepped (s : StreamState) (a : StreamAction) : Stepped s a := by
  cases a with
  | call t op =>
      refine .aside ?_ ?_ fun _ => trivial
      · simp only [streamStep]
        split
        · rfl
        · split
          · rfl
          · rfl
      · simp only [streamStep]
        split
        · rfl
        · rename_i p hp
          split
          · rename_i hfree
            unfold StreamState.loads
            rw [List.map_set, beginCall_load, ← load_of_free hfree]
            exact Table.set_self (by rw [List.getElem?_map, hp]; rfl)
          · rfl
  | move t env =>
      cases hp : s.threads[t]? with
      | none =>
          have hstay : streamStep s (.move t env) = s := by simp only [streamStep, hp]
          exact .aside (by rw [hstay]) (by rw [hstay]) fun f => by simp [MoveMeets, hp]
      | some p =>
          refine .moved rfl hp ?_ (fun f => by simp [MoveMeets, hp]) ?_ ?_
          · unfold StreamState.loads
            rw [List.getElem?_map, hp]
            rfl
          · simp only [streamStep, hp]
          · simp only [streamStep, hp, StreamState.loads, List.map_set]
  | shutdown =>
      refine .aside ?_ rfl fun _ => trivial
      simp only [streamStep]
      apply cache_mapPool
      exact fun _ => rfl

theorem streamStep_poolFits {s : StreamState} (h : s.engine.PoolFits) (a : StreamAction) :
    (streamStep s a).engine.PoolFits := by
  cases a with
  | call t op =>
      simp only [streamStep]
      split
      · exact h
      · split
        · exact h
        · exact h
  | move t env =>
      simp only [streamStep]
      split
      · exact h
      · exact threadStep_poolFits h _
  | shutdown =>
      apply mapPool_poolFits h
      · exact fun _ => rfl
      · exact fun _ => rfl
      · exact fun _ => rfl

theorem create_poolFits (ramCapacity : Nat) (io : Option IoPoolSize) (heap : SysHeap)
    (numCallers : Nat) : (StreamState.create ramCapacity io heap numCallers).engine.PoolFits := by
  intro pool hpool
  obtain ⟨size, -, rfl⟩ := Option.map_eq_some_iff.mp hpool
  simp [ioPoolCreate]

theorem moveMeets_true (start : StreamState) (run : List StreamAction) :
    Runs.Along streamStep (MoveMeets fun _ _ _ => true) start run := by
  induction run generalizing start with
  | nil => trivial
  | cons a run ih =>
      refine ⟨?_, ih _⟩
      cases a with
      | move t env =>
          simp only [MoveMeets]
          cases start.threads[t]? with
          | none => rfl
          | some p => rfl
      | call t op => trivial
      | shutdown => trivial

/-- A property of the cache and of the loads that every turn under a condition keeps is kept
by every action that meets the condition. -/
theorem streamStep_of_turn {P : Cache → List Load → Prop}
    {f : StreamEngine → StreamEnv → ThreadAt → Bool}
    (hturn : ∀ (e : StreamEngine) (env : StreamEnv) (p : ThreadAt) (c' : Cache) (p' : ThreadAt)
      (loads : List Load) (t : Nat), P e.cache loads → loads[t]? = some p.load →
      f e env p = true → Turn e env p c' p' → P c' (loads.set t p'.load))
    {s : StreamState} (hfits : s.engine.PoolFits) (hs : P s.engine.cache s.loads)
    {a : StreamAction} (hmeets : MoveMeets f s a) :
    P (streamStep s a).engine.cache (streamStep s a).loads := by
  cases stepped s a with
  | aside hcache hloads _ =>
      rw [hcache, hloads]
      exact hs
  | @moved t env p _ hp hload hmeets' hengine hloads =>
      rw [hengine, hloads]
      exact hturn s.engine env p _ _ s.loads t hs hload ((hmeets' f).mp hmeets)
        (threadStep_turn hfits t p)

/-- A property of the cache and of the loads that is true at the start, and that every
turn under a condition keeps, holds after every run whose moves all meet the condition. -/
theorem StreamState.after_of_turn {P : Cache → List Load → Prop}
    {f : StreamEngine → StreamEnv → ThreadAt → Bool} {ramCapacity : Nat} {io : Option IoPoolSize}
    {heap : SysHeap} {numCallers : Nat}
    (hinit : P (StreamState.create ramCapacity io heap numCallers).engine.cache
      (StreamState.create ramCapacity io heap numCallers).loads)
    (hturn : ∀ (e : StreamEngine) (env : StreamEnv) (p : ThreadAt) (c' : Cache) (p' : ThreadAt)
      (loads : List Load) (t : Nat), P e.cache loads → loads[t]? = some p.load →
      f e env p = true → Turn e env p c' p' → P c' (loads.set t p'.load))
    {run : List StreamAction}
    (hrun : Runs.Along streamStep (MoveMeets f) (.create ramCapacity io heap numCallers) run) :
    P (StreamState.after ramCapacity io heap numCallers run).engine.cache
      (StreamState.after ramCapacity io heap numCallers run).loads := by
  have hstart := create_poolFits ramCapacity io heap numCallers
  have hrule := @Runs.final_of_along StreamState StreamAction streamStep
    (fun s => s.engine.PoolFits ∧ P s.engine.cache s.loads) (MoveMeets f)
    (fun s a hs hmeets =>
      ⟨streamStep_poolFits hs.1 a, streamStep_of_turn hturn hs.1 hs.2 hmeets⟩)
  exact (hrule ⟨hstart, hinit⟩ hrun).2

end Hummingbird

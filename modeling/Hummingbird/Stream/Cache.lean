import Hummingbird.Stream.System
import Hummingbird.ThreadPool.Invariant

/-!
The cache behind the locks: the engine without its mutexes, access times and telemetry,
and a thread as the stage of the load it carries. Every step of a thread is one of the
turns below. Most of them leave the cache as it is; the others say which block changes,
what becomes of the buffer and where the load goes.
-/

namespace Hummingbird

/-- A block without its mutex and access data. -/
structure CacheBlock where
  entry : TensorEntry
  handler : Bool
  status : ResidencyStatus
  ramPtr : Option Nat
  filled : Bool
  pinCount : Nat
  deriving DecidableEq, Repr

def StreamBlock.cached (b : StreamBlock) : CacheBlock :=
  ⟨b.entry, b.handler, b.status, b.ramPtr, b.filled, b.pinCount⟩

/-- The cache: its budget, its blocks, the allocator and the blocks whose read jobs are
queued. -/
structure Cache where
  capacity : Nat
  usage : Nat
  blocks : List CacheBlock
  heap : SysHeap
  queue : List Nat

def Pool.jobs (pool : Pool Nat) : List Nat := pool.queued.map PoolTask.fn

def StreamEngine.cache (e : StreamEngine) : Cache :=
  ⟨e.ramCapacity, e.ramUsage, e.blocks.map StreamBlock.cached, e.heap,
    (e.ioPool.map Pool.jobs).getD []⟩

def Cache.setBlock (c : Cache) (i : Nat) (b : CacheBlock) : Cache :=
  { c with blocks := c.blocks.set i b }

/-- How far a thread is with the load of a block: it hands the read job to the pool, took
it from there, found that there is no buffer, has passed the allocation, or has passed the
read. -/
inductive Load where
  | away
  | submitting (i : Nat)
  | fetched (i : Nat)
  | empty (i : Nat)
  | loading (i : Nat)
  | loaded (i : Nat)
  deriving DecidableEq, Repr

def Load.block? : Load → Option Nat
  | .away => none
  | .submitting i | .fetched i | .empty i | .loading i | .loaded i => some i

def JobAt.load (i : Nat) : JobAt → Load
  | .start => .fetched i
  | .wantsGlobal | .budget | .evicting _ | .gaveUp => .empty i
  | .reading => .loading i
  | .wantsBlock | .finishing => .loaded i

def ThreadAt.load : ThreadAt → Load
  | .caller (.submitting i _) => .submitting i
  | .running i j => j.load i
  | .caller _ | .idle | .ran | .counted | .exited => .away

/-- The I/O pool takes no job: it is absent or shuts down. -/
def StreamEngine.refuses (e : StreamEngine) : Bool := (e.ioPool.map Pool.shuttingDown).getD true

/-- The queue of the I/O pool is a run of its slots. -/
def StreamEngine.PoolFits (e : StreamEngine) : Prop :=
  ∀ pool, e.ioPool = some pool → pool.head < pool.queue.length ∧ pool.count ≤ pool.queue.length

/-- The worker stands in front of the allocation: its block fits the budget, or it gave
up on evicting others. -/
def JobAt.Allocates (j : JobAt) (e : StreamEngine) (b : StreamBlock) : Prop :=
  j = .budget ∧ overBudget e b = false ∨ j = .gaveUp

/-- What a step of a thread at `p` does: the cache after it, and where the thread stands
then. -/
inductive Turn (e : StreamEngine) (env : StreamEnv) (p : ThreadAt) : Cache → ThreadAt → Prop
  | rest {p' : ThreadAt} (hload : p'.load = p.load) : Turn e env p e.cache p'
  | register {d : StreamBlockDesc} {p' : ThreadAt} (hp : p = .caller (.registering d))
      (hload : p'.load = .away) :
      Turn e env p { e.cache with blocks := e.cache.blocks ++ [(StreamBlock.ofDesc d).cached] } p'
  | pin {i : Nat} {b : StreamBlock} {p' : ThreadAt} (hb : e.blocks[i]? = some b)
      (hload : p.load = .away) (hload' : p'.load = .away) :
      Turn e env p (e.cache.setBlock i b.pin.cached) p'
  | unpin {i : Nat} {b : StreamBlock} {p' : ThreadAt} (hb : e.blocks[i]? = some b)
      (hload : p.load = .away) (hload' : p'.load = .away) :
      Turn e env p (e.cache.setBlock i b.unpin.cached) p'
  | prefetch {i : Nat} {tier : MemoryTier} {b : StreamBlock} (hb : e.blocks[i]? = some b)
      (hp : p = .caller (.inside (.prefetch tier) i)) (hstatus : b.status = .evicted) :
      Turn e env p (e.cache.setBlock i { b.cached with status := .inTransit })
        (.caller (.submitting i false))
  | refuse {i : Nat} {woken : Bool} {p' : ThreadAt} (hp : p = .caller (.submitting i woken))
      (hpool : e.refuses = true) (hload : p'.load = .away) : Turn e env p e.cache p'
  | accept {i : Nat} {woken : Bool} {p' : ThreadAt} (hp : p = .caller (.submitting i woken))
      (hload : p'.load = .away) :
      Turn e env p { e.cache with queue := e.cache.queue ++ [i] } p'
  | take {i : Nat} {rest : List Nat} (hp : p = .idle) (hqueue : e.cache.queue = i :: rest) :
      Turn e env p { e.cache with queue := rest } (.running i .start)
  | find {i : Nat} {b : StreamBlock} {p' : ThreadAt} (hb : e.blocks[i]? = some b)
      (hload : p.load = .fetched i)
      (hfound : b.ramPtr = none ∧ p'.load = .empty i ∨
        b.ramPtr.isSome = true ∧ p'.load = .loading i) : Turn e env p e.cache p'
  | deny {i : Nat} {j : JobAt} {b : StreamBlock} (hb : e.blocks[i]? = some b)
      (hp : p = .running i j) (hj : j.Allocates e b)
      (hnone : (hbiAlloc e.heap env.os b.entry.byteSize b.entry.requiredAlignment .weights).2 =
        none) :
      Turn e env p (e.cache.setBlock i { b.cached with ramPtr := none, filled := false })
        (.running i .reading)
  | alloc {i : Nat} {j : JobAt} {b : StreamBlock} {ptr : Nat} (hb : e.blocks[i]? = some b)
      (hp : p = .running i j) (hj : j.Allocates e b)
      (hptr : (hbiAlloc e.heap env.os b.entry.byteSize b.entry.requiredAlignment .weights).2 =
        some ptr) :
      Turn e env p
        { e.cache.setBlock i { b.cached with ramPtr := some ptr, filled := false } with
          heap := (hbiAlloc e.heap env.os b.entry.byteSize b.entry.requiredAlignment
            .weights).1
          usage := (e.ramUsage + b.entry.byteSize) % sizeTSize } (.running i .reading)
  | read {i : Nat} {b : StreamBlock} (hb : e.blocks[i]? = some b) (hp : p = .running i .reading) :
      Turn e env p (e.cache.setBlock i (b.readData env.readOk).cached) (.running i .wantsBlock)
  | finish {i : Nat} {b : StreamBlock} (hb : e.blocks[i]? = some b)
      (hp : p = .running i .finishing) :
      Turn e env p (e.cache.setBlock i { b.cached with status := .resident }) .ran
  | evict {i : Nat} {b : StreamBlock} {p' : ThreadAt} (hb : e.blocks[i]? = some b)
      (hp : p = .caller (.inside .evict i)) (hevict : b.evictable = true)
      (hload : p'.load = .away) :
      Turn e env p { e.cache.setBlock i b.evicted.cached with
        heap := freeBuffer e.heap b.ramPtr } p'
  | evictLru {v : Nat} {b : StreamBlock} {p' : ThreadAt} (hb : e.blocks[v]? = some b)
      (hevict : b.evictable = true) (hload : p'.load = p.load) :
      Turn e env p { e.cache.setBlock v b.evicted.cached with
        heap := freeBuffer e.heap b.ramPtr
        usage := if b.ramPtr.isSome then subWord e.ramUsage b.entry.byteSize else e.ramUsage } p'

section Sections

variable {e : StreamEngine} {env : StreamEnv} {p : ThreadAt} {i : Nat} {b : StreamBlock}

@[simp]
theorem cache_setBlock (e : StreamEngine) (i : Nat) (b : StreamBlock) :
    (e.setBlock i b).cache = e.cache.setBlock i b.cached := by
  simp [StreamEngine.cache, StreamEngine.setBlock, Cache.setBlock, List.map_set]

/-- A block that changes in its mutex only leaves the cache as it is. -/
theorem cache_setBlock_of_cached (hb : e.blocks[i]? = some b) (b' : StreamBlock)
    (h : b'.cached = b.cached) : (e.setBlock i b').cache = e.cache := by
  have hset : (e.blocks.map StreamBlock.cached).set i b.cached =
      e.blocks.map StreamBlock.cached := Table.set_self (by rw [List.getElem?_map, hb]; rfl)
  rw [cache_setBlock, h]
  unfold Cache.setBlock
  simp only [StreamEngine.cache] at hset ⊢
  rw [hset]

@[simp]
theorem cache_unlockGlobal (e : StreamEngine) : e.unlockGlobal.cache = e.cache := rfl

@[simp]
theorem cache_unlockBlock (e : StreamEngine) (i : Nat) : (e.unlockBlock i).cache = e.cache := by
  have hmap : (e.blocks.modify i StreamBlock.unlocked).map StreamBlock.cached =
      e.blocks.map StreamBlock.cached := by
    apply List.ext_getElem?
    intro j
    rw [List.getElem?_map, List.getElem?_modify, List.getElem?_map]
    cases e.blocks[j]? with
    | none => rfl
    | some b => by_cases hij : i = j <;> simp [hij, StreamBlock.unlocked, StreamBlock.cached]
  simp only [StreamEngine.cache, StreamEngine.unlockBlock, hmap]

theorem lockBlock_turn {t : Nat} {next stay : ThreadAt} (hnext : next.load = p.load)
    (hstay : stay.load = p.load) :
    Turn e env p (e.lockBlock t i next stay).1.cache (e.lockBlock t i next stay).2 := by
  unfold StreamEngine.lockBlock
  split
  · exact .rest hstay
  · rename_i b hb
    split
    · rw [cache_setBlock_of_cached hb (b.lockedBy t) rfl]
      exact .rest hnext
    · exact .rest hstay

theorem lockGlobal_turn {t : Nat} {next stay : ThreadAt} (hnext : next.load = p.load)
    (hstay : stay.load = p.load) :
    Turn e env p (e.lockGlobal t next stay).1.cache (e.lockGlobal t next stay).2 := by
  unfold StreamEngine.lockGlobal
  split
  · exact .rest hnext
  · exact .rest hstay

theorem map_cached_setBlock (e : StreamEngine) (i : Nat) (b : StreamBlock) :
    (e.setBlock i b).blocks.map StreamBlock.cached =
      (e.blocks.map StreamBlock.cached).set i b.cached := List.map_set

theorem evictSection_turn (hb : e.blocks[i]? = some b) (hp : p = .caller (.inside .evict i))
    {p' : ThreadAt} (hload : p'.load = .away) :
    Turn e env p (evictSection e i b.unlocked).cache p' := by
  unfold evictSection
  by_cases hevict : b.evictable = true
  · rw [if_pos (show b.unlocked.evictable = true from hevict)]
    simp only [StreamEngine.cache, map_cached_setBlock]
    exact @Turn.evict e env p i b p' hb hp hevict hload
  · rw [if_neg (show ¬ b.unlocked.evictable = true from hevict),
      cache_setBlock_of_cached hb b.unlocked rfl]
    exact .rest (by rw [hload, hp]; rfl)

theorem victimSection_turn (hb : e.blocks[i]? = some b) {p' : ThreadAt}
    (hload : p'.load = p.load) : Turn e env p (victimSection e i b.unlocked).cache p' := by
  unfold victimSection
  by_cases hevict : b.evictable = true
  · rw [if_pos (show b.unlocked.evictable = true from hevict)]
    simp only [StreamEngine.cache, map_cached_setBlock]
    exact @Turn.evictLru e env p i b p' hb hevict hload
  · rw [if_neg (show ¬ b.unlocked.evictable = true from hevict),
      cache_setBlock_of_cached hb b.unlocked rfl]
    exact .rest hload

theorem scanBlock_cached (t : Nat) (tier : MemoryTier) (i : Nat) (b : StreamBlock)
    (lru : LruChoice) : (scanBlock t tier i b lru).1.cached = b.cached := by
  unfold scanBlock
  split
  · rfl
  · rfl

theorem lruStep_turn {t : Nat} {tier : MemoryTier} {at_ : LruAt → ThreadAt}
    {done : Result Unit → ThreadAt} (hat : ∀ l, (at_ l).load = p.load)
    (hdone : ∀ r, (done r).load = p.load) (l : LruAt) :
    Turn e env p (lruStep e t tier at_ done l).1.cache (lruStep e t tier at_ done l).2 := by
  cases l with
  | scan i lru =>
      simp only [lruStep]
      split
      · rename_i b hb
        rw [cache_setBlock_of_cached hb _ (scanBlock_cached t tier i b lru)]
        exact .rest (hat _)
      · split
        · exact .rest (hdone _)
        · exact .rest (hat _)
  | wants v => exact lockBlock_turn (hat _) (hat _)
  | inside v =>
      simp only [lruStep]
      split
      · exact .rest (hdone _)
      · rename_i b hb
        exact victimSection_turn hb (hdone _)

theorem opSection_turn {op : BlockOp} (hb : e.blocks[i]? = some b)
    (hp : p = .caller (.inside op i)) :
    Turn e env p (opSection e i b op).1.cache (opSection e i b op).2 := by
  have haway : p.load = .away := by rw [hp]; rfl
  have hunlock : (e.setBlock i b.unlocked).cache = e.cache :=
    cache_setBlock_of_cached hb b.unlocked rfl
  cases op with
  | pin =>
      simp only [opSection, cache_setBlock]
      exact .pin hb haway rfl
  | unpin =>
      simp only [opSection, cache_setBlock]
      exact .unpin hb haway rfl
  | evict => exact evictSection_turn hb hp rfl
  | prefetch tier =>
      simp only [opSection]
      split
      · rename_i hstatus
        simp only [cache_setBlock]
        exact .prefetch hb hp hstatus
      · rw [hunlock]
        exact .rest haway.symm
  | await =>
      simp only [opSection]
      split
      · rw [hunlock]
        exact .rest haway.symm
      · rw [hunlock]
        exact .rest haway.symm
      · exact .rest haway.symm
      · exact .rest haway.symm

/-- A job that the pool accepts goes behind the queued ones. -/
theorem jobs_accept {pool : Pool Nat} (hroom : pool.count < pool.queue.length) (task : PoolTask Nat)
    {pending : Nat} :
    Pool.jobs { pool with
      queue := pool.queue.set ((pool.head + pool.count) % pool.queue.length) task
      count := pool.count + 1
      pending := pending } = pool.jobs ++ [task.fn] := by
  unfold Pool.jobs Pool.queued
  simp only
  rw [Ring.contents_push default task hroom, List.map_append]
  rfl

theorem submitJob_turn {woken : Bool} (hfits : e.PoolFits)
    (hp : p = .caller (.submitting i woken)) :
    Turn e env p (submitJob e i woken).1.cache (submitJob e i woken).2 := by
  unfold submitJob
  split
  · rename_i hpool
    rw [cache_unlockBlock]
    exact .refuse hp (by simp [StreamEngine.refuses, hpool]) rfl
  · rename_i pool hpool
    unfold enqueueSection
    by_cases hdown : pool.shuttingDown = true
    · rw [if_pos hdown]
      simp only [cache_unlockBlock]
      exact .refuse hp (by simp [StreamEngine.refuses, hpool, hdown]) rfl
    · rw [if_neg hdown]
      by_cases hroom : pool.count = pool.queue.length
      · rw [if_pos hroom]
        exact .rest (by rw [hp]; rfl)
      · rw [if_neg hroom]
        have hlt : pool.count < pool.queue.length :=
          lt_of_le_of_ne (hfits pool hpool).2 hroom
        have hcache := cache_unlockBlock e i
        simp only [StreamEngine.cache, StreamEngine.unlockBlock, Cache.mk.injEq] at hcache
        simp only [StreamEngine.cache, StreamEngine.unlockBlock, hcache.2.2.1, Option.map_some,
          Option.getD_some, jobs_accept hlt]
        have haccept := @Turn.accept e env p i woken (.answered (.ok ())) hp rfl
        simpa only [StreamEngine.cache, hpool, Option.map_some, Option.getD_some] using haccept

theorem registerSection_turn {d : StreamBlockDesc} (hp : p = .caller (.registering d)) :
    Turn e env p (registerSection e env.grows d).1.unlockGlobal.cache
      (.answered (registerSection e env.grows d).2) := by
  have haway : p.load = .away := by rw [hp]; rfl
  rw [cache_unlockGlobal]
  unfold registerSection
  split
  · exact .rest haway.symm
  · simp only [StreamEngine.cache, List.map_append, List.map_cons, List.map_nil]
    exact .register hp rfl

theorem wrapSection_turn (hb : e.blocks[i]? = some b) (hp : p = .caller (.wrapping i)) :
    Turn e env p (wrapSection e i b).1.cache (wrapSection e i b).2 := by
  have haway : p.load = .away := by rw [hp]; rfl
  have hunlock : (e.setBlock i b.unlocked).cache = e.cache :=
    cache_setBlock_of_cached hb b.unlocked rfl
  unfold wrapSection
  split
  · rw [hunlock]
    exact .rest haway.symm
  · rw [hunlock]
    exact .rest haway.symm

theorem callerStep_turn (hfits : e.PoolFits) (t : Nat) (c : CallerAt) :
    Turn e env (.caller c) (callerStep e t env c).1.cache (callerStep e t env c).2 := by
  cases c with
  | outside => exact .rest rfl
  | returned r => exact .rest rfl
  | wantsTable d => exact lockGlobal_turn rfl rfl
  | registering d => exact registerSection_turn rfl
  | wants op i => exact lockBlock_turn rfl rfl
  | inside op i =>
      simp only [callerStep]
      split
      · exact .rest rfl
      · rename_i b hb
        exact opSection_turn hb rfl
  | submitting i woken => exact submitJob_turn hfits rfl
  | wantsRecord i => exact lockBlock_turn rfl rfl
  | recording i =>
      simp only [callerStep]
      split
      · exact .rest rfl
      · rename_i b hb
        rw [cache_setBlock_of_cached hb ((b.recordAccess env.now).unlocked) rfl]
        exact .rest rfl
  | wrapping i =>
      simp only [callerStep]
      split
      · exact .rest rfl
      · rename_i b hb
        exact wrapSection_turn hb rfl
  | wantsHit tensor => exact lockGlobal_turn rfl rfl
  | hitting tensor => exact .rest rfl
  | evictingLru tier l =>
      apply lruStep_turn
      · exact fun _ => rfl
      · exact fun _ => rfl

theorem allocSection_turn {j : JobAt} (hb : e.blocks[i]? = some b) (hp : p = .running i j)
    (hj : j.Allocates e b) :
    Turn e env p (allocSection e env.os i b).unlockGlobal.cache (.running i .reading) := by
  rw [cache_unlockGlobal]
  unfold allocSection
  split
  · rename_i heap hnone
    rw [cache_setBlock]
    exact .deny hb hp hj (by rw [hnone])
  · rename_i heap ptr hptr
    simp only [StreamEngine.cache, map_cached_setBlock]
    have halloc := @Turn.alloc e env p i j b ptr hb hp hj (by rw [hptr])
    rw [hptr] at halloc
    exact halloc

theorem jobStep_turn (hb : e.blocks[i]? = some b) (t : Nat) (j : JobAt) :
    Turn e env (.running i j) (jobStep e t env i b j).1.cache (jobStep e t env i b j).2 := by
  cases j with
  | start =>
      simp only [jobStep]
      split
      · rename_i hnone
        exact .find hb rfl (Or.inl ⟨hnone, rfl⟩)
      · rename_i hsome
        exact .find hb rfl (Or.inr ⟨Option.isSome_iff_ne_none.mpr hsome, rfl⟩)
  | wantsGlobal => exact lockGlobal_turn rfl rfl
  | budget =>
      simp only [jobStep]
      split
      · exact .rest rfl
      · rename_i hover
        exact allocSection_turn hb rfl (Or.inl ⟨rfl, by simpa using hover⟩)
  | evicting l =>
      apply lruStep_turn
      · exact fun _ => rfl
      · intro r
        cases r with
        | error err => rfl
        | ok _ => rfl
  | gaveUp => exact allocSection_turn hb rfl (Or.inr rfl)
  | reading =>
      simp only [jobStep, cache_setBlock]
      exact .read hb rfl
  | wantsBlock => exact lockBlock_turn rfl rfl
  | finishing =>
      simp only [jobStep, cache_setBlock]
      exact @Turn.finish e env _ i b hb rfl

theorem idleStep_turn (hfits : e.PoolFits) :
    Turn e env .idle (idleStep e).1.cache (idleStep e).2 := by
  unfold idleStep
  split
  · exact .rest rfl
  · rename_i pool hpool
    unfold takeSection
    split
    · exact .rest rfl
    · exact .rest rfl
    · rename_i job pool' htask
      split at htask
      · cases htask
      · split at htask
        · cases htask
        · rename_i hwait hexit
          cases htask
          have hcount : pool.count ≠ 0 := by
            intro hzero
            cases hdown : pool.shuttingDown with
            | false => exact hwait ⟨hzero, hdown⟩
            | true => exact hexit ⟨hzero, hdown⟩
          have hjobs : pool.jobs = (pool.queue.getD pool.head default).fn ::
              Pool.jobs { pool with
                head := (pool.head + 1) % pool.queue.length, count := pool.count - 1 } := by
            have hpop := Ring.contents_pop default pool.queue pool.head (pool.count - 1)
            rw [show pool.count - 1 + 1 = pool.count by omega,
              Nat.mod_eq_of_lt (hfits pool hpool).1] at hpop
            unfold Pool.jobs Pool.queued
            rw [hpop]
            rfl
          have hqueue : e.cache.queue = pool.jobs := by simp [StreamEngine.cache, hpool]
          exact .take rfl (hqueue.trans hjobs)

theorem cache_mapPool {f : Pool Nat → Pool Nat} (hf : ∀ pool, (f pool).jobs = pool.jobs) :
    (e.mapPool f).cache = e.cache := by
  unfold StreamEngine.mapPool StreamEngine.cache
  cases e.ioPool with
  | none => rfl
  | some pool => simp [hf]

/-- Every step of a thread is one of the turns. -/
theorem threadStep_turn (hfits : e.PoolFits) (t : Nat) (p : ThreadAt) :
    Turn e env p (threadStep e t env p).1.cache (threadStep e t env p).2 := by
  cases p with
  | caller c => exact callerStep_turn hfits t c
  | idle => exact idleStep_turn hfits
  | running i j =>
      simp only [threadStep]
      split
      · exact .rest rfl
      · rename_i b hb
        exact jobStep_turn hb t j
  | ran =>
      simp only [threadStep]
      rw [cache_mapPool]
      · exact .rest rfl
      · exact fun _ => rfl
  | counted =>
      simp only [threadStep]
      rw [cache_mapPool]
      · exact .rest rfl
      · exact fun _ => rfl
  | exited => exact .rest rfl

end Sections

end Hummingbird

import Hummingbird.Stream.Engine

/-!
The streaming engine as a system of threads: callers of its operations and the workers of
the I/O pool. An action names the thread that moves; what the thread does follows from
where it stands. A step is the taking of a mutex, or a section together with giving the
mutex back, or a piece of code between two sections. A thread in front of a mutex that is
held does not move. A thread that waits on a condition may move at any time and looks at
the condition again. The environment says how an allocation, a read and the clock answer.
-/

namespace Hummingbird

/-- The operations that are one section of the block's mutex. -/
inductive BlockOp where
  | prefetch (tier : MemoryTier)
  | await
  | pin
  | unpin
  | evict
  deriving DecidableEq, Repr

/-- A call of the engine. The answer with a registration says whether the new block and
its mutex and condition could be created. -/
inductive StreamOp where
  | register (desc : StreamBlockDesc) (created : Result Unit)
  | block (op : BlockOp) (i : Nat)
  | evictLru (tier : MemoryTier)

/-- Where a thread stands in `hbi_stream_evict_lru`: at a turn of the loop, in front of the
victim's mutex, or in the last section. -/
inductive LruAt where
  | scan (i : Nat) (lru : LruChoice)
  | wants (v : Nat)
  | inside (v : Nat)

/-- Where a caller stands. Behind the wait, `hbi_stream_await` stands in front of the mutex
of `hbi_stream_cache_record_access`, in its section, in front of its own end, and in front
of and in the section that counts the hit. -/
inductive CallerAt where
  | outside
  | returned (r : Result (Option Tensor))
  | wantsTable (desc : StreamBlockDesc)
  | registering (desc : StreamBlockDesc)
  | wants (op : BlockOp) (i : Nat)
  | inside (op : BlockOp) (i : Nat)
  | submitting (i : Nat) (woken : Bool)
  | wantsRecord (i : Nat)
  | recording (i : Nat)
  | wrapping (i : Nat)
  | wantsHit (tensor : Tensor)
  | hitting (tensor : Tensor)
  | evictingLru (tier : MemoryTier) (l : LruAt)

/-- Where a worker stands in `hbi_stream_io_worker_read`. -/
inductive JobAt where
  | start
  | wantsGlobal
  | budget
  | evicting (l : LruAt)
  | gaveUp
  | reading
  | wantsBlock
  | finishing

inductive ThreadAt where
  | caller (c : CallerAt)
  | idle
  | running (i : Nat) (j : JobAt)
  | ran
  | counted
  | exited

/-- The engine and its threads. -/
structure StreamState where
  engine : StreamEngine
  threads : List ThreadAt

/-- How the environment answers a step: the platform's allocation, whether the table can
grow, whether `read_tensor_data` succeeds, and the clock. -/
structure StreamEnv where
  os : Memalign
  grows : Bool
  readOk : Bool
  now : Nat

inductive StreamAction where
  | call (t : Nat) (op : StreamOp)
  | move (t : Nat) (env : StreamEnv)
  | shutdown

namespace StreamEngine

variable (e : StreamEngine)

/-- `hbi_mutex_lock` of a block: the mutex is taken, or the thread stays where it is. -/
def lockBlock (t i : Nat) (next stay : ThreadAt) : StreamEngine × ThreadAt :=
  match e.blocks[i]? with
  | none => (e, stay)
  | some b => if b.mutex = none then (e.setBlock i (b.lockedBy t), next) else (e, stay)

/-- `hbi_mutex_lock` of the engine. -/
def lockGlobal (t : Nat) (next stay : ThreadAt) : StreamEngine × ThreadAt :=
  if e.globalMutex = none then ({ e with globalMutex := some t }, next) else (e, stay)

def unlockGlobal : StreamEngine := { e with globalMutex := none }

/-- `hbi_mutex_unlock` of a block. -/
def unlockBlock (i : Nat) : StreamEngine :=
  { e with blocks := e.blocks.modify i StreamBlock.unlocked }

end StreamEngine

/-- A call that returned without a tensor. -/
def ThreadAt.answered (r : Result Unit) : ThreadAt := .caller (.returned (r.map fun _ => none))

/-- The section of an operation on a block. -/
def opSection (e : StreamEngine) (i : Nat) (b : StreamBlock) : BlockOp → StreamEngine × ThreadAt
  | .pin => (e.setBlock i b.pin.unlocked, .answered (.ok ()))
  | .unpin => (e.setBlock i b.unpin.unlocked, .answered (.ok ()))
  | .evict => (evictSection e i b.unlocked, .answered (.ok ()))
  | .prefetch tier =>
      if b.status = .evicted then
        (e.setBlock i { b with status := .inTransit, currentTier := tier },
          .caller (.submitting i false))
      else (e.setBlock i b.unlocked, .answered (.ok ()))
  | .await =>
      match b.status with
      | .inTransit => (e.setBlock i b.unlocked, .caller (.wants .await i))
      | .evicted => (e.setBlock i b.unlocked, .answered (.error ⟨.state, ""⟩))
      | .resident | .pinned => (e, .caller (.wantsRecord i))

/-- `hbi_threadpool_submit` of a read job inside `hbi_stream_prefetch`, which ignores the
status and gives the mutex back. -/
def submitJob (e : StreamEngine) (i : Nat) (woken : Bool) : StreamEngine × ThreadAt :=
  match e.ioPool with
  | none => (e.unlockBlock i, .answered (.ok ()))
  | some pool =>
      match enqueueSection pool ⟨e.submitted, i⟩ true woken with
      | .refused _ => (e.unlockBlock i, .answered (.ok ()))
      | .wait => (e, .caller (.submitting i true))
      | .accepted pool' =>
          ({ e.unlockBlock i with ioPool := some pool', submitted := e.submitted + 1 },
            .answered (.ok ()))

/-- The end of `hbi_stream_await`. -/
def wrapSection (e : StreamEngine) (i : Nat) (b : StreamBlock) : StreamEngine × ThreadAt :=
  match wrapBlock e b with
  | .error err => (e.setBlock i b.unlocked, .caller (.returned (.error err)))
  | .ok tensor => (e.setBlock i b.unlocked, .caller (.wantsHit tensor))

/-- A step of `hbi_stream_evict_lru`: `at_` says where the thread stands next in the loop or
at the victim, `done` where it stands when the call has returned. -/
def lruStep (e : StreamEngine) (t : Nat) (tier : MemoryTier) (at_ : LruAt → ThreadAt)
    (done : Result Unit → ThreadAt) : LruAt → StreamEngine × ThreadAt
  | .scan i lru =>
      match e.blocks[i]? with
      | some b =>
          (e.setBlock i (scanBlock t tier i b lru).1,
            at_ (.scan (i + 1) (scanBlock t tier i b lru).2))
      | none =>
          match lru with
          | none => (e, done (.error ⟨.oom, ""⟩))
          | some (v, _) => (e, at_ (.wants v))
  | .wants v => e.lockBlock t v (at_ (.inside v)) (at_ (.wants v))
  | .inside v =>
      match e.blocks[v]? with
      | none => (e, done (.ok ()))
      | some b => (victimSection e v b.unlocked, done (.ok ()))

def callerStep (e : StreamEngine) (t : Nat) (env : StreamEnv) :
    CallerAt → StreamEngine × ThreadAt
  | .outside => (e, .caller .outside)
  | .returned r => (e, .caller (.returned r))
  | .wantsTable d =>
      e.lockGlobal t (.caller (.registering d)) (.caller (.wantsTable d))
  | .registering d =>
      ((registerSection e env.grows d).1.unlockGlobal,
        .answered (registerSection e env.grows d).2)
  | .wants op i => e.lockBlock t i (.caller (.inside op i)) (.caller (.wants op i))
  | .inside op i =>
      match e.blocks[i]? with
      | none => (e, .caller (.inside op i))
      | some b => opSection e i b op
  | .submitting i woken => submitJob e i woken
  | .wantsRecord i =>
      e.lockBlock t i (.caller (.recording i)) (.caller (.wantsRecord i))
  | .recording i =>
      match e.blocks[i]? with
      | none => (e, .caller (.recording i))
      | some b => (e.setBlock i (b.recordAccess env.now).unlocked, .caller (.wrapping i))
  | .wrapping i =>
      match e.blocks[i]? with
      | none => (e, .caller (.wrapping i))
      | some b => wrapSection e i b
  | .wantsHit tensor =>
      e.lockGlobal t (.caller (.hitting tensor)) (.caller (.wantsHit tensor))
  | .hitting tensor =>
      ({ e.unlockGlobal with cacheHits := e.cacheHits + 1 },
        .caller (.returned (.ok (some tensor))))
  | .evictingLru tier l =>
      lruStep e t tier (fun l => .caller (.evictingLru tier l)) .answered l

/-- Where the worker stands when `hbi_stream_evict_lru` returned to its loop. -/
def afterEvictLru (i : Nat) : Result Unit → ThreadAt
  | .ok _ => .running i .budget
  | .error _ => .running i .gaveUp

/-- A step of `hbi_stream_io_worker_read` on a block. -/
def jobStep (e : StreamEngine) (t : Nat) (env : StreamEnv) (i : Nat) (b : StreamBlock) :
    JobAt → StreamEngine × ThreadAt
  | .start =>
      if b.ramPtr = none then (e, .running i .wantsGlobal) else (e, .running i .reading)
  | .wantsGlobal => e.lockGlobal t (.running i .budget) (.running i .wantsGlobal)
  | .budget =>
      if overBudget e b then (e, .running i (.evicting (.scan 0 none)))
      else ((allocSection e env.os i b).unlockGlobal, .running i .reading)
  | .evicting l =>
      lruStep e t .ram (fun l => .running i (.evicting l)) (afterEvictLru i) l
  | .gaveUp => ((allocSection e env.os i b).unlockGlobal, .running i .reading)
  | .reading => (e.setBlock i (b.readData env.readOk), .running i .wantsBlock)
  | .wantsBlock => e.lockBlock t i (.running i .finishing) (.running i .wantsBlock)
  | .finishing => (e.setBlock i { b.unlocked with status := .resident }, .ran)

/-- The loop of a worker of the I/O pool around its jobs. -/
def idleStep (e : StreamEngine) : StreamEngine × ThreadAt :=
  match e.ioPool with
  | none => (e, .idle)
  | some pool =>
      match takeSection pool with
      | .wait => (e, .idle)
      | .exit => (e, .exited)
      | .task job pool' => ({ e with ioPool := some pool' }, .running job.fn .start)

def StreamEngine.mapPool (e : StreamEngine) (f : Pool Nat → Pool Nat) : StreamEngine :=
  { e with ioPool := e.ioPool.map f }

def threadStep (e : StreamEngine) (t : Nat) (env : StreamEnv) : ThreadAt → StreamEngine × ThreadAt
  | .caller c => callerStep e t env c
  | .idle => idleStep e
  | .running i j =>
      match e.blocks[i]? with
      | none => (e, .running i j)
      | some b => jobStep e t env i b j
  | .ran => (e.mapPool fun p => { p with completed := p.completed + 1 }, .counted)
  | .counted => (e.mapPool doneSection, .idle)
  | .exited => (e, .exited)

/-- Where a call begins. A block that does not exist is a `NULL` argument. -/
def beginCall (e : StreamEngine) : StreamOp → ThreadAt
  | .register d created =>
      match created with
      | .error err => .answered (.error err)
      | .ok _ => .caller (.wantsTable d)
  | .block op i =>
      if i < e.blocks.length then .caller (.wants op i)
      else .answered (.error ⟨.invalidArg, ""⟩)
  | .evictLru tier => .caller (.evictingLru tier (.scan 0 none))

/-- A thread that can begin a call. -/
def ThreadAt.free : ThreadAt → Bool
  | .caller .outside | .caller (.returned _) => true
  | _ => false

def streamStep (s : StreamState) : StreamAction → StreamState
  | .call t op =>
      match s.threads[t]? with
      | none => s
      | some p =>
          if p.free then { s with threads := s.threads.set t (beginCall s.engine op) } else s
  | .move t env =>
      match s.threads[t]? with
      | none => s
      | some p =>
          ⟨(threadStep s.engine t env p).1, s.threads.set t (threadStep s.engine t env p).2⟩
  | .shutdown => { s with engine := s.engine.mapPool shutdownSection }

/-- A new I/O pool, as `hbi_threadpool_create` makes it. -/
def ioPoolCreate (queueCapacity : Nat) : Pool Nat :=
  ⟨List.replicate (max queueCapacity 1) default, 0, 0, 0, false, 0⟩

/-- The size of the I/O pool: the capacity of its queue and its workers. -/
structure IoPoolSize where
  queueCapacity : Nat
  numWorkers : Nat

/-- A new engine with any number of callers, and with an I/O pool or without one. -/
def StreamState.create (ramCapacity : Nat) (io : Option IoPoolSize) (heap : SysHeap)
    (numCallers : Nat) : StreamState where
  engine := hbiStreamEngineCreate ramCapacity (io.map fun p => ioPoolCreate p.queueCapacity) heap
  threads := List.replicate numCallers (.caller .outside) ++
    List.replicate ((io.map fun p => max p.numWorkers 1).getD 0) .idle

/-- The state after a run of a new engine. -/
def StreamState.after (ramCapacity : Nat) (io : Option IoPoolSize) (heap : SysHeap)
    (numCallers : Nat) (run : List StreamAction) : StreamState :=
  Runs.final streamStep (.create ramCapacity io heap numCallers) run

/-- A tensor of eight bytes that is streamed. -/
def sampleDesc : StreamBlockDesc :=
  ⟨0, true, ⟨"w", ⟨[2]⟩, .fp32, 8, 64, .streamable⟩, .fp32, ⟨[2]⟩, .evicted, .disk⟩

/-- An environment in which allocations and reads succeed. -/
def sampleEnv : StreamEnv := ⟨Memalign.at 4096, true, true, 1⟩

/-- A thread begins a call and makes the given number of steps. -/
def callRun (t : Nat) (op : StreamOp) (steps : Nat) : List StreamAction :=
  .call t op :: List.replicate steps (.move t sampleEnv)

/-- A thread registers a tensor, and then requests it. -/
def prefetchRun (tier : MemoryTier) : List StreamAction :=
  callRun 0 (.register sampleDesc (.ok ())) 2 ++ callRun 0 (.block (.prefetch tier) 0) 3

/-- A tensor is requested and loaded. -/
def loadRun (tier : MemoryTier) : List StreamAction :=
  prefetchRun tier ++ List.replicate 7 (.move 1 sampleEnv)

end Hummingbird

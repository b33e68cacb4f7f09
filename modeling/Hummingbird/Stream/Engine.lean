import Hummingbird.Memory.System
import Hummingbird.ThreadPool.Pool

/-!
The streaming engine and the sections of its operations. A section is what a call does
between taking a mutex and giving it back; each is a function on the engine here, and the
calls are put together from them elsewhere. A block is named by its place in the engine's
table. A mutex is the thread that holds it. The buffer of a block is a pointer of the
system allocator, whose buffers, like the tasks of the I/O pool, are part of the state.
-/

namespace Hummingbird

inductive MemoryTier where
  | vram
  | ram
  | disk
  deriving DecidableEq, Repr

inductive ResidencyStatus where
  | evicted
  | inTransit
  | resident
  | pinned
  deriving DecidableEq, Repr

inductive ResidencyHint where
  | default
  | resident
  | streamable
  | cold
  deriving DecidableEq, Repr

/-- A row of the manifest, with the fields that the runtime and the engine read. -/
structure TensorEntry where
  name : String
  shape : Shape
  dtype : Dtype
  byteSize : Nat
  requiredAlignment : Nat
  residency : ResidencyHint
  deriving DecidableEq, Repr

/-- `hbi_stream_block_desc`. The handler is there when it is not `NULL` and reads tensor
data. -/
structure StreamBlockDesc where
  tensorId : Nat
  handler : Bool
  entry : TensorEntry
  dtype : Dtype
  shape : Shape
  initialStatus : ResidencyStatus
  initialTier : MemoryTier
  deriving DecidableEq, Repr

/-- `hbi_stream_block`, and whether a read of its entry filled the buffer. -/
structure StreamBlock where
  tensorId : Nat
  handler : Bool
  entry : TensorEntry
  dtype : Dtype
  shape : Shape
  status : ResidencyStatus
  currentTier : MemoryTier
  ramPtr : Option Nat
  filled : Bool
  pinCount : Nat
  accessCount : Nat
  lastAccessTick : Nat
  mutex : Option Nat
  deriving DecidableEq, Repr

/-- `hbi_stream_engine` with the counters that are written, the system allocator and the
number of jobs that the I/O pool accepted. -/
structure StreamEngine where
  ramCapacity : Nat
  ramUsage : Nat
  blocks : List StreamBlock
  blocksCapacity : Nat
  ioPool : Option (Pool Nat)
  globalMutex : Option Nat
  diskBytesRead : Nat
  cacheHits : Nat
  evictions : Nat
  heap : SysHeap
  submitted : Nat

/-- What `hbi_stream_engine_create` leaves. -/
def hbiStreamEngineCreate (ramCapacity : Nat) (ioPool : Option (Pool Nat)) (heap : SysHeap) :
    StreamEngine where
  ramCapacity := ramCapacity
  ramUsage := 0
  blocks := []
  blocksCapacity := 64
  ioPool := ioPool
  globalMutex := none
  diskBytesRead := 0
  cacheHits := 0
  evictions := 0
  heap := heap
  submitted := 0

def StreamEngine.setBlock (e : StreamEngine) (i : Nat) (b : StreamBlock) : StreamEngine :=
  { e with blocks := e.blocks.set i b }

namespace StreamBlock

variable (b : StreamBlock)

def lockedBy (t : Nat) : StreamBlock := { b with mutex := some t }

/-- Giving the mutex back makes it free, whoever held it. -/
def unlocked : StreamBlock := { b with mutex := none }

/-- The section of `hbi_stream_pin`. -/
def pin : StreamBlock :=
  { b with
    status := if b.status = .resident then .pinned else b.status
    pinCount := (b.pinCount + 1) % uint32Size }

/-- The section of `hbi_stream_unpin`. -/
def unpin : StreamBlock :=
  if b.pinCount > 0 then
    { b with
      pinCount := b.pinCount - 1
      status := if b.pinCount - 1 = 0 ∧ b.status = .pinned then .resident else b.status }
  else b

/-- The section of `hbi_stream_cache_record_access`, at the time it reads. -/
def recordAccess (now : Nat) : StreamBlock :=
  { b with accessCount := (b.accessCount + 1) % uint32Size, lastAccessTick := now }

/-- A block that `hbi_stream_evict` and `hbi_stream_evict_lru` may evict. -/
def evictable : Bool := decide (b.status = .resident ∧ b.pinCount = 0)

def evicted : StreamBlock := { b with status := .evicted, ramPtr := none, filled := false }

end StreamBlock

def freeBuffer (h : SysHeap) : Option Nat → SysHeap
  | none => h
  | some ptr => hbiFree h ptr

/-- The section of `hbi_stream_evict`. -/
def evictSection (e : StreamEngine) (i : Nat) (b : StreamBlock) : StreamEngine :=
  if b.evictable then
    { e.setBlock i b.evicted with heap := freeBuffer e.heap b.ramPtr }
  else e.setBlock i b

/-- `size_t` subtraction. -/
def subWord (x n : Nat) : Nat := (x + (sizeTSize - n)) % sizeTSize

/-- The last section of `hbi_stream_evict_lru`. -/
def victimSection (e : StreamEngine) (i : Nat) (b : StreamBlock) : StreamEngine :=
  if b.evictable then
    { e.setBlock i b.evicted with
      heap := freeBuffer e.heap b.ramPtr
      ramUsage := if b.ramPtr.isSome then subWord e.ramUsage b.entry.byteSize else e.ramUsage
      evictions := e.evictions + 1 }
  else e.setBlock i b

/-- `HBI_OK` as the number it is compared as. -/
def hbiOk : Nat := 0

/-- `hbi_mutex_trylock`: what the mutex becomes, and whether it was acquired. -/
def hbiMutexTrylock (mutex : Option Nat) (t : Nat) : Option Nat × Bool :=
  match mutex with
  | none => (some t, true)
  | some owner => (some owner, false)

/-- The block that the scan of `hbi_stream_evict_lru` holds, with its tick. -/
abbrev LruChoice := Option (Nat × Nat)

def uint64Max : Nat := 18446744073709551615

def LruChoice.oldestTick (lru : LruChoice) : Nat := (lru.map Prod.snd).getD uint64Max

/-- The comparison inside the scan. -/
def considerVictim (tier : MemoryTier) (i : Nat) (b : StreamBlock) (lru : LruChoice) : LruChoice :=
  if b.evictable ∧ b.currentTier = tier ∧ b.lastAccessTick < lru.oldestTick then
    some (i, b.lastAccessTick)
  else lru

/-- One turn of the loop of `hbi_stream_evict_lru`. The answer of the try-lock is compared
with `HBI_OK`. -/
def scanBlock (t : Nat) (tier : MemoryTier) (i : Nat) (b : StreamBlock) (lru : LruChoice) :
    StreamBlock × LruChoice :=
  if (hbiMutexTrylock b.mutex t).2.toNat = hbiOk then
    (b.unlocked, considerVictim tier i b lru)
  else ({ b with mutex := (hbiMutexTrylock b.mutex t).1 }, lru)

/-- What `hbi_stream_register_block` fills in. -/
def StreamBlock.ofDesc (d : StreamBlockDesc) : StreamBlock where
  tensorId := d.tensorId
  handler := d.handler
  entry := d.entry
  dtype := d.dtype
  shape := d.shape
  status := d.initialStatus
  currentTier := d.initialTier
  ramPtr := none
  filled := false
  pinCount := 0
  accessCount := 0
  lastAccessTick := 0
  mutex := none

/-- The section of `hbi_stream_register_block`; the table doubles when it is full, if it
can be reallocated. -/
def registerSection (e : StreamEngine) (grows : Bool) (d : StreamBlockDesc) :
    StreamEngine × Result Unit :=
  if e.blocks.length ≥ e.blocksCapacity ∧ grows = false then
    (e, errSet .oom "failed to reallocate blocks array")
  else
    ({ e with
        blocks := e.blocks ++ [.ofDesc d]
        blocksCapacity :=
          if e.blocks.length ≥ e.blocksCapacity then e.blocksCapacity * 2
          else e.blocksCapacity }, .ok ())

def hbiStreamGetBlock (e : StreamEngine) (tensorId : Nat) : Option Nat :=
  e.blocks.findIdx? (·.tensorId == tensorId)

/-- The budget test of `hbi_stream_io_worker_read`. -/
def overBudget (e : StreamEngine) (b : StreamBlock) : Bool :=
  (e.ramUsage + b.entry.byteSize) % sizeTSize > e.ramCapacity

/-- The allocation of `hbi_stream_io_worker_read`. -/
def allocSection (e : StreamEngine) (os : Memalign) (i : Nat) (b : StreamBlock) : StreamEngine :=
  match hbiAlloc e.heap os b.entry.byteSize b.entry.requiredAlignment .weights with
  | (_, none) => e.setBlock i { b with ramPtr := none, filled := false }
  | (heap, some ptr) =>
      { e.setBlock i { b with ramPtr := some ptr, filled := false } with
        heap := heap
        ramUsage := (e.ramUsage + b.entry.byteSize) % sizeTSize
        diskBytesRead := (e.diskBytesRead + b.entry.byteSize) % sizeTSize }

/-- The call of `read_tensor_data`, whose status is not looked at. -/
def StreamBlock.readData (b : StreamBlock) (ok : Bool) : StreamBlock :=
  if b.ramPtr.isSome ∧ b.handler = true then { b with filled := ok } else b

/-- Where the bytes of a block are. -/
def StreamEngine.address (e : StreamEngine) (b : StreamBlock) : Nat :=
  ((b.ramPtr.bind (e.heap.buffers[·]?)).map SysBuffer.user).getD 0

/-- The descriptor that `hbi_stream_await` writes. -/
def wrapBlock (e : StreamEngine) (b : StreamBlock) : Result Tensor :=
  hbiTensorWrap b.dtype b.shape (e.address b) b.entry.byteSize

/-- The loop of `hbi_stream_engine_destroy` over the buffers. -/
def destroyBuffers : SysHeap → List StreamBlock → SysHeap
  | h, [] => h
  | h, b :: rest =>
      match b.ramPtr with
      | none => destroyBuffers h rest
      | some ptr => destroyBuffers (hbiAlignedFree h ptr) rest

/-- What `hbi_stream_engine_destroy` leaves of the allocator. -/
def hbiStreamEngineDestroy (e : StreamEngine) : SysHeap := destroyBuffers e.heap e.blocks

end Hummingbird

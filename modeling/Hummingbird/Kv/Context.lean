import Hummingbird.Tensor.Copy

/-!
The KV cache manager with its contiguous allocator. Handles live on a heap and are
named by their position; the manager's table holds the names of the live ones. Token
counters are `uint32_t` and byte counters `size_t`, and wrap as such. The answers of
the memory allocators are arguments, and so is what a failed slice leaves in a
descriptor on the stack. The manager's own part of a call names tensors only; the calls
over a memory also zero the tensors of the pages that are handed out.
-/

namespace Hummingbird

structure KvPage where
  kTensor : Tensor
  vTensor : Tensor
  capacity : Nat
  numTokens : Nat
  deriving DecidableEq, Repr

structure ContextState where
  totalTokens : Nat
  maxTokens : Nat
  numPages : Nat
  deriving DecidableEq, Repr

structure ContextHandle where
  state : ContextState
  pages : List KvPage
  dtype : Dtype
  kShape : Shape
  vShape : Shape
  deriving DecidableEq, Repr

structure KvStatistics where
  activeContexts : Nat
  peakContexts : Nat
  currentMemoryBytes : Nat
  peakMemoryBytes : Nat
  totalAllocations : Nat
  totalFrees : Nat
  deriving DecidableEq, Repr

def hbiKvMaxContexts : Nat := 1024

/-- The table of contexts, the heap its entries point into, and the statistics. -/
structure KvManager where
  contexts : List Nat
  heap : List (Option ContextHandle)
  stats : KvStatistics
  deriving DecidableEq, Repr

/-- `hbi_kv_manager_create`. -/
def KvManager.empty : KvManager := ⟨[], [], ⟨0, 0, 0, 0, 0, 0⟩⟩

/-- The live context of a handle. -/
def KvManager.live (mgr : KvManager) (h : Nat) : Option ContextHandle := (mgr.heap[h]?).join

def KvManager.store (mgr : KvManager) (h : Nat) (ctx : ContextHandle) : KvManager :=
  { mgr with heap := mgr.heap.set h (some ctx) }

/-- Answers of the allocators to a request for a page and its two tensors. -/
structure PageBlocks where
  page : Bool
  k : Option (AlignedBlock hbiTensorDefaultAlign)
  v : Option (AlignedBlock hbiTensorDefaultAlign)

/-- Answers to a request for a context. -/
structure ContextBlocks extends PageBlocks where
  handle : Bool

def hbiKvAllocatorContiguousAllocate (capacity : Nat) (dtype : Dtype) (kShape vShape : Shape)
    (blocks : PageBlocks) : Result (List KvPage) :=
  if blocks.page = false then errSet .oom "contiguous_allocator: page alloc failed"
  else do
    let k ← hbiTensorAllocAligned dtype kShape hbiTensorDefaultAlign blocks.k
    let v ← hbiTensorAllocAligned dtype vShape hbiTensorDefaultAlign blocks.v
    return [⟨k, v, capacity, 0⟩]

/-- What the allocator leaves in the two tensors of a page that it hands out. -/
def KvPage.zeroed (p : KvPage) (m : Memory) : Memory :=
  memzero (memzero m p.kTensor.data p.kTensor.nbytes) p.vTensor.data p.vTensor.nbytes

def zeroPages (pages : List KvPage) (m : Memory) : Memory :=
  pages.foldl (fun m p => p.zeroed m) m

/-- Bytes of a context as the statistics count them: the first page times the number of
pages. -/
def pagesBytes (pages : List KvPage) (numPages : Nat) : Nat :=
  match pages with
  | [] => 0
  | p :: _ => (p.kTensor.nbytes + p.vTensor.nbytes) % sizeTSize * numPages % sizeTSize

/-- A new current byte count, and the peak that follows from it. -/
def KvStatistics.setBytes (stats : KvStatistics) (bytes : Nat) : KvStatistics :=
  { stats with currentMemoryBytes := bytes, peakMemoryBytes := max stats.peakMemoryBytes bytes }

/-- A new context enters the table and the statistics. -/
def KvManager.register (mgr : KvManager) (ctx : ContextHandle) : KvManager :=
  let active := (mgr.stats.activeContexts + 1) % uint32Size
  let stats := { mgr.stats with
    activeContexts := active
    peakContexts := max mgr.stats.peakContexts active
    totalAllocations := (mgr.stats.totalAllocations + 1) % sizeTSize }
  { contexts := mgr.contexts ++ [mgr.heap.length]
    heap := mgr.heap ++ [some ctx]
    stats := stats.setBytes
      ((stats.currentMemoryBytes + pagesBytes ctx.pages ctx.state.numPages) % sizeTSize) }

def hbiKvContextCreate (mgr : KvManager) (maxTokens : Nat) (dtype : Dtype)
    (kShape vShape : Shape) (blocks : ContextBlocks) : Result (KvManager × Nat) :=
  if mgr.contexts.length ≥ hbiKvMaxContexts then
    errSet .oom "context create: max contexts reached"
  else if blocks.handle = false then errSet .oom "context create: alloc failed"
  else do
    let pages ← hbiKvAllocatorContiguousAllocate maxTokens dtype kShape vShape
      blocks.toPageBlocks
    let ctx : ContextHandle :=
      { state := ⟨0, maxTokens, pages.length⟩, pages := pages, dtype := dtype,
        kShape := kShape, vShape := vShape }
    return (mgr.register ctx, mgr.heap.length)

/-- The first entry that holds the handle is overwritten by the last one. -/
def dropContext (contexts : List Nat) (h : Nat) : List Nat :=
  if h ∈ contexts then
    (contexts.set (contexts.idxOf h) (contexts.getLastD 0)).dropLast
  else contexts

def hbiKvContextDestroy (mgr : KvManager) (h : Nat) (ctx : ContextHandle) : KvManager :=
  let bytes := pagesBytes ctx.pages ctx.state.numPages
  { contexts := dropContext mgr.contexts h
    heap := mgr.heap.set h none
    stats := { mgr.stats with
      currentMemoryBytes := (mgr.stats.currentMemoryBytes + sizeTSize - bytes) % sizeTSize
      activeContexts := (mgr.stats.activeContexts + uint32Size - 1) % uint32Size
      totalFrees := (mgr.stats.totalFrees + 1) % sizeTSize } }

def hbiKvContextReset (ctx : ContextHandle) : ContextHandle :=
  { ctx with
    state := { ctx.state with totalTokens := 0 }
    pages := ctx.pages.map fun p => { p with numTokens := 0 } }

/-- What failed slices leave in the four descriptors on the stack. -/
structure SliceStack where
  kSrc : Tensor
  kDst : Tensor
  vSrc : Tensor
  vDst : Tensor
  deriving DecidableEq, Repr

/-- Descriptors that no slice has written. -/
def blankStack : SliceStack :=
  let blank : Tensor :=
    { dtype := .invalid, shape := ⟨[]⟩, strides := [], data := 0, nbytes := 0, align := 0
      ownership := .owned, device := .cpu, readOnly := false, contiguous := false
      quant := QuantMeta.zero }
  ⟨blank, blank, blank, blank⟩

/-- Slices along the first axis and a copy between them, without a look at any status:
a failed slice leaves its descriptor as it was, a failed copy leaves the memory. -/
def copySlices (m : Memory) (src dst : Tensor) (numTokens : Nat) (srcLeft dstLeft : Tensor) :
    Memory :=
  let srcSlice := (hbiTensorSlice src 0 0 numTokens).toOption.getD srcLeft
  let dstSlice := (hbiTensorSlice dst 0 0 numTokens).toOption.getD dstLeft
  (hbiTensorCopyInto m srcSlice dstSlice).toOption.getD m

def copyPage (m : Memory) (src dst : KvPage) (stack : SliceStack) : Memory :=
  if src.numTokens > 0 then
    let m := copySlices m src.kTensor dst.kTensor src.numTokens stack.kSrc stack.kDst
    copySlices m src.vTensor dst.vTensor src.numTokens stack.vSrc stack.vDst
  else m

/-- The page loop that clone and resize share: counters are carried over and the stored
tokens copied. -/
def copyPages (stack : SliceStack) : List KvPage → List KvPage → Memory → List KvPage × Memory
  | src :: srcs, dst :: dsts, m =>
      let (rest, m) := copyPages stack srcs dsts (copyPage m src dst stack)
      ({ dst with numTokens := src.numTokens } :: rest, m)
  | _, dsts, m => (dsts, m)

/-- The manager and the memory its tensors live in. -/
structure KvWorld where
  manager : KvManager
  memory : Memory

def hbiKvContextClone (w : KvWorld) (src : ContextHandle) (blocks : ContextBlocks)
    (stack : SliceStack) : Result (KvWorld × Nat) := do
  let (mgr, h) ← hbiKvContextCreate w.manager src.state.maxTokens src.dtype src.kShape
    src.vShape blocks
  match mgr.live h with
  | none => return (⟨mgr, w.memory⟩, h)
  | some dst =>
      let (pages, m) := copyPages stack src.pages dst.pages (zeroPages dst.pages w.memory)
      let dst := { dst with
        state := { dst.state with totalTokens := src.state.totalTokens }, pages := pages }
      return (⟨mgr.store h dst, m⟩, h)

/-- The shrinking branch of `hbi_kv_context_resize`. -/
def shrinkContext (ctx : ContextHandle) (newMaxTokens : Nat) : ContextHandle :=
  { ctx with
    state := { ctx.state with
      maxTokens := newMaxTokens
      totalTokens := min ctx.state.totalTokens newMaxTokens }
    pages := ctx.pages.map fun p => { p with numTokens := min p.numTokens newMaxTokens } }

/-- The shape of a grown context: every axis as long as the old maximum is taken for
the token axis. -/
def grownShape (shape : Shape) (oldMax newMaxTokens : Nat) : Shape :=
  ⟨shape.dims.map fun d : Int => if d = (oldMax : Int) then (newMaxTokens : Int) else d⟩

def hbiKvContextResize (w : KvWorld) (h : Nat) (ctx : ContextHandle) (newMaxTokens : Nat)
    (blocks : PageBlocks) (stack : SliceStack) : Result KvWorld :=
  let oldMax := ctx.state.maxTokens
  if newMaxTokens = oldMax then .ok w
  else if newMaxTokens < oldMax then
    .ok { w with manager := w.manager.store h (shrinkContext ctx newMaxTokens) }
  else do
    let newK := grownShape ctx.kShape oldMax newMaxTokens
    let newV := grownShape ctx.vShape oldMax newMaxTokens
    let newPages ← hbiKvAllocatorContiguousAllocate newMaxTokens ctx.dtype newK newV blocks
    let (newPages, m) := copyPages stack ctx.pages newPages (zeroPages newPages w.memory)
    let bytes := w.manager.stats.currentMemoryBytes + sizeTSize -
      pagesBytes ctx.pages ctx.state.numPages
    let stats := w.manager.stats.setBytes
      ((bytes + pagesBytes newPages newPages.length) % sizeTSize)
    let ctx := { ctx with
      state := { ctx.state with maxTokens := newMaxTokens, numPages := newPages.length }
      pages := newPages, kShape := newK, vShape := newV }
    return { manager := { w.manager with stats := stats }.store h ctx, memory := m }

/-- The distribution loop of `hbi_kv_context_append_tokens`. -/
def distributeTokens (tokensToDistribute : Nat) : List KvPage → List KvPage
  | [] => []
  | p :: rest =>
      if tokensToDistribute = 0 then p :: rest
      else
        let pageAvail := (p.capacity + uint32Size - p.numTokens) % uint32Size
        let take := min pageAvail tokensToDistribute
        { p with numTokens := (p.numTokens + take) % uint32Size } ::
          distributeTokens (tokensToDistribute - take) rest

def hbiKvContextAppendTokens (ctx : ContextHandle) (numTokens : Nat) : Result ContextHandle :=
  let total := (ctx.state.totalTokens + numTokens) % uint32Size
  let old := ctx.state.totalTokens
  let limit := ctx.state.maxTokens
  if total > ctx.state.maxTokens then
    errSet .invalidArg
      s!"context append: exceeds max_tokens ({old} + {numTokens} > {limit})"
  else
    .ok { ctx with
      state := { ctx.state with totalTokens := total }
      pages := distributeTokens numTokens ctx.pages }

/-- The loop of `hbi_kv_context_truncate`, with the tokens counted so far. -/
def truncatePages (retainTokens total : Nat) : List KvPage → List KvPage
  | [] => []
  | p :: rest =>
      let p := if (total + p.numTokens) % uint32Size > retainTokens then
          { p with numTokens := (retainTokens + uint32Size - total) % uint32Size }
        else p
      p :: truncatePages retainTokens ((total + p.numTokens) % uint32Size) rest

def hbiKvContextTruncate (ctx : ContextHandle) (retainTokens : Nat) : ContextHandle :=
  if retainTokens ≥ ctx.state.totalTokens then ctx
  else
    { ctx with
      state := { ctx.state with totalTokens := retainTokens }
      pages := truncatePages retainTokens 0 ctx.pages }

/-- A call, with the answers of the allocators to it. -/
inductive KvOp where
  | create (maxTokens : UInt32) (dtype : Dtype) (kShape vShape : Shape) (blocks : ContextBlocks)
  | destroy (h : Nat)
  | reset (h : Nat)
  | clone (h : Nat) (blocks : ContextBlocks) (stack : SliceStack)
  | resize (h : Nat) (newMaxTokens : UInt32) (blocks : PageBlocks) (stack : SliceStack)
  | append (h : Nat) (numTokens : UInt32)
  | truncate (h : Nat) (retainTokens : UInt32)

/-- The state after a call and its status: a failed call leaves no trace. -/
def KvWorld.settle (w : KvWorld) : Result KvWorld → KvWorld × Result Unit
  | .ok w => (w, .ok ())
  | .error e => (w, .error e)

/-- A call on a live handle, or the answer to a missing one. -/
def KvWorld.withLive (w : KvWorld) (h : Nat) (what : String)
    (body : ContextHandle → Result KvWorld) : KvWorld × Result Unit :=
  match w.manager.live h with
  | none => (w, errSet .invalidArg what)
  | some ctx => w.settle (body ctx)

/-- Stores what a call made of its context. -/
def KvWorld.put (w : KvWorld) (h : Nat) (ctx : ContextHandle) : KvWorld :=
  { w with manager := w.manager.store h ctx }

def KvOp.call (w : KvWorld) : KvOp → KvWorld × Result Unit
  | .create maxTokens dtype kShape vShape blocks =>
      w.settle (do
        let (mgr, h) ← hbiKvContextCreate w.manager maxTokens.toNat dtype kShape vShape blocks
        let pages := ((mgr.live h).map ContextHandle.pages).getD []
        return ⟨mgr, zeroPages pages w.memory⟩)
  | .destroy h =>
      match w.manager.live h with
      | none => (w, .ok ())
      | some ctx => ({ w with manager := hbiKvContextDestroy w.manager h ctx }, .ok ())
  | .reset h => w.withLive h "context reset: NULL handle" fun ctx =>
      .ok (w.put h (hbiKvContextReset ctx))
  | .clone h blocks stack => w.withLive h "context clone: NULL args" fun ctx => do
      let (w, _) ← hbiKvContextClone w ctx blocks stack
      return w
  | .resize h newMaxTokens blocks stack => w.withLive h "context resize: NULL args" fun ctx =>
      hbiKvContextResize w h ctx newMaxTokens.toNat blocks stack
  | .append h numTokens => w.withLive h "context append: NULL handle" fun ctx => do
      let ctx ← hbiKvContextAppendTokens ctx numTokens.toNat
      return w.put h ctx
  | .truncate h retainTokens => w.withLive h "context truncate: NULL handle" fun ctx =>
      .ok (w.put h (hbiKvContextTruncate ctx retainTokens.toNat))

def KvOp.next (w : KvWorld) (op : KvOp) : KvWorld := (op.call w).1

end Hummingbird

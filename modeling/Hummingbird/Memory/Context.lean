import Hummingbird.Memory.System
import Hummingbird.Foundation.Linked
import Hummingbird.Foundation.Runs

/-!
The context of the system allocator: the heap with its counters, the user bytes of every
buffer, and the list that debug mode threads through the headers. A pointer to a buffer is
the number of the buffer and stands for its header too. The bytes of a new buffer are what
the platform left there. A sequence of calls is a run; what the platform answers during a
call comes with the call.
-/

namespace Hummingbird

/-- What the platform does during one call: its memory, whether `hbi_mutex_init` succeeds
when it is asked for a first and for a second time, and the bytes of a new block. -/
structure MemEnv where
  os : Memalign
  mutexInit : Bool
  mutexInitAgain : Bool
  garbage : Nat → UInt8

/-- `sys_ctx`, with the links of the headers and the user bytes of the buffers. -/
structure SysCtx where
  heap : SysHeap
  contents : Nat → Nat → UInt8
  mtxReady : Bool
  dbgHead : Option Nat
  dbgNext : Nat → Option Nat
  dbgPrev : Nat → Option Nat
  dbgLiveBlocks : Nat
  dbgLiveBytes : Nat

/-- The context at program start. -/
def SysCtx.fresh : SysCtx where
  heap := .fresh false
  contents _ _ := 0
  mtxReady := false
  dbgHead := none
  dbgNext _ := none
  dbgPrev _ := none
  dbgLiveBlocks := 0
  dbgLiveBytes := 0

/-- The mutex of the list is made when it is first needed; a failure is tried again the
next time. -/
def debugMutex (c : SysCtx) (mutexInit : Bool) : SysCtx :=
  { c with mtxReady := c.mtxReady || mutexInit }

/-- A header becomes the head of the list, when there is a mutex. -/
def debugLink (c : SysCtx) (mutexInit : Bool) (h size : Nat) : SysCtx :=
  let c := debugMutex c mutexInit
  if c.mtxReady then
    { c with
      dbgPrev := Linked.assign (Function.update c.dbgPrev h none) c.dbgHead (some h)
      dbgNext := Function.update c.dbgNext h c.dbgHead
      dbgHead := some h
      dbgLiveBlocks := fetchAdd c.dbgLiveBlocks 1
      dbgLiveBytes := fetchAdd c.dbgLiveBytes size }
  else c

/-- A header leaves the list, when there is a mutex. -/
def debugUnlink (c : SysCtx) (mutexInit : Bool) (h size : Nat) : SysCtx :=
  let c := debugMutex c mutexInit
  if c.mtxReady then
    { c with
      dbgHead :=
        if (c.dbgPrev h).isSome then c.dbgHead
        else if c.dbgHead = some h then c.dbgNext h
        else c.dbgHead
      dbgNext :=
        Function.update (Linked.assign c.dbgNext (c.dbgPrev h) (c.dbgNext h)) h none
      dbgPrev :=
        Function.update (Linked.assign c.dbgPrev (c.dbgNext h) (c.dbgPrev h)) h none
      dbgLiveBlocks := fetchSub c.dbgLiveBlocks 1
      dbgLiveBytes := fetchSub c.dbgLiveBytes size }
  else c

/-- A header that was just written, not linked yet. -/
def newBlock (c : SysCtx) (heap : SysHeap) (ptr : Nat) (garbage : Nat → UInt8) : SysCtx :=
  { c with
    heap
    contents := Function.update c.contents ptr garbage
    dbgNext := Function.update c.dbgNext ptr none
    dbgPrev := Function.update c.dbgPrev ptr none }

def sysAlloc (c : SysCtx) (env : MemEnv) (size alignment : Nat) (tag : MemTag) :
    SysCtx × Option Nat :=
  match hbiAlloc c.heap env.os size alignment tag with
  | (_, none) => (c, none)
  | (heap, some ptr) =>
      (if c.heap.debug then
        debugLink (newBlock c heap ptr env.garbage) env.mutexInit ptr (userSize size)
      else newBlock c heap ptr env.garbage, some ptr)

/-- A corrupt trailing canary is reported in the error record and changes nothing else. -/
def sysFree (c : SysCtx) (mutexInit : Bool) : Option Nat → SysCtx
  | none => c
  | some ptr =>
      match c.heap.buffers[ptr]? with
      | none => c
      | some buf =>
          let c :=
            if c.heap.debug && buf.header.canary = canaryHead then
              debugUnlink c mutexInit ptr buf.header.size
            else c
          { c with heap := hbiFree c.heap ptr }

/-- The size in the header of a buffer. -/
def SysHeap.sizeAt (h : SysHeap) (ptr : Nat) : Nat :=
  (h.buffers[ptr]?.map (·.header.size)).getD 0

def SysHeap.alignmentAt (h : SysHeap) (ptr : Nat) : Nat :=
  (h.buffers[ptr]?.map (·.header.alignment)).getD 0

/-- `memcpy` of the first bytes of a buffer to another one. -/
def copyBlock (c : SysCtx) (dst src n : Nat) : SysCtx :=
  { c with
    contents := Function.update c.contents dst fun k =>
      if k < n then c.contents src k else c.contents dst k }

/-- The alignment that `sys_realloc` asks for. -/
def reallocAlignment (c : SysCtx) (ptr alignment : Nat) : Nat :=
  if alignment ≠ 0 then alignment else c.heap.alignmentAt ptr

def sysRealloc (c : SysCtx) (env : MemEnv) (ptr : Option Nat) (newSize alignment : Nat)
    (tag : MemTag) : SysCtx × Option Nat :=
  match ptr with
  | none => sysAlloc c env newSize alignment tag
  | some ptr =>
      if newSize = 0 then (sysFree c env.mutexInit (some ptr), none)
      else
        match sysAlloc c env newSize (reallocAlignment c ptr alignment) tag with
        | (c, none) => (c, none)
        | (c, some fresh) =>
            (sysFree (copyBlock c fresh ptr (min (c.heap.sizeAt ptr) newSize))
              env.mutexInitAgain (some ptr), some fresh)

def hbiMemDebugSetEnabled (c : SysCtx) (mutexInit enabled : Bool) : SysCtx :=
  let c := if enabled then debugMutex c mutexInit else c
  { c with heap := { c.heap with debug := enabled } }

def hbiMemCheckLeaks (c : SysCtx) : Result Unit :=
  let live := c.dbgLiveBlocks
  if live = 0 then .ok ()
  else errSet .state s!"memory leak: {live} debug-tracked block(s) outstanding"

/-- A call of the allocator, or a byte that its caller writes into a buffer. -/
inductive MemCall where
  | alloc (size alignment : Nat) (tag : MemTag)
  | realloc (ptr : Option Nat) (newSize alignment : Nat) (tag : MemTag)
  | free (ptr : Option Nat)
  | setDebug (enabled : Bool)
  | write (ptr offset : Nat) (value : UInt8)
  deriving DecidableEq, Repr

def memStep (c : SysCtx) : MemEnv × MemCall → SysCtx
  | (env, .alloc size alignment tag) => (sysAlloc c env size alignment tag).1
  | (env, .realloc ptr newSize alignment tag) => (sysRealloc c env ptr newSize alignment tag).1
  | (env, .free ptr) => sysFree c env.mutexInit ptr
  | (env, .setDebug enabled) => hbiMemDebugSetEnabled c env.mutexInit enabled
  | (_, .write ptr offset value) =>
      { c with contents :=
          Function.update c.contents ptr (Function.update (c.contents ptr) offset value) }

/-- A buffer that was handed out and not given back. -/
def SysHeap.live (h : SysHeap) (ptr : Nat) : Bool :=
  h.buffers[ptr]?.any (·.released = [])

/-- A pointer that may be given back: none, or one to a live buffer. -/
def SysHeap.owns (h : SysHeap) (ptr : Option Nat) : Bool := ptr.all h.live

/-- Sizes and alignments are words, pointers are live, and writes stay inside the buffer. -/
def MemCall.Legal (c : SysCtx) : MemCall → Prop
  | .alloc size alignment _ => size < sizeTSize ∧ alignment < sizeTSize
  | .realloc ptr newSize alignment _ =>
      newSize < sizeTSize ∧ alignment < sizeTSize ∧ c.heap.owns ptr = true
  | .free ptr => c.heap.owns ptr = true
  | .setDebug _ => True
  | .write ptr offset _ => c.heap.live ptr = true ∧ offset < c.heap.sizeAt ptr

instance (c : SysCtx) : (call : MemCall) → Decidable (call.Legal c)
  | .alloc _ _ _ => inferInstanceAs (Decidable (_ ∧ _))
  | .realloc _ _ _ _ => inferInstanceAs (Decidable (_ ∧ _ ∧ _))
  | .free _ => inferInstanceAs (Decidable (_ = _))
  | .setDebug _ => inferInstanceAs (Decidable True)
  | .write _ _ _ => inferInstanceAs (Decidable (_ ∧ _))

/-- Every call of a run is legal in the state that it meets. -/
def LegalRun (ops : List (MemEnv × MemCall)) : Prop :=
  Runs.Along memStep (fun c op => op.2.Legal c) .fresh ops

end Hummingbird

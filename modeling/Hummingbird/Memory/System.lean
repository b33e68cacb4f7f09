import Hummingbird.Tensor.Tensor
import Hummingbird.Foundation.Alignment

/-!
The system allocator. A buffer is laid out as padding, header, user bytes and, in debug
mode, a trailing canary, inside a block of the platform's aligned allocation. Memory is
seen as the list of buffers that were ever handed out: a pointer is the number of its
buffer, so that no address is reused here, and each buffer remembers through which
functions it was given back. Counters are words that wrap. The list that debug mode
keeps for leak reports is not part of this.
-/

namespace Hummingbird

/-- `sizeof(sys_header)`: a pointer, two sizes, the tag, the canary and two links. -/
def sizeofSysHeader : Nat := 48

def sizeofCanary : Nat := 4

def canaryHead : Nat := 0xA10CA71E

def canaryTail : Nat := 0x5AFEF00D

/-- `HBI_MEM_NATURAL_ALIGN`. -/
def memNaturalAlign : Nat := 2 * sizeofPtr

inductive MemTag where
  | general
  | weights
  | kv
  | scratch
  | tagCount
  deriving DecidableEq, Repr

/-- `posix_memalign` at one moment. It answers with the address of a block of the size
that was asked for, which is a multiple of the alignment, or with nothing when memory
does not suffice. -/
structure Memalign where
  answer : Nat → Nat → Option Nat
  aligned : ∀ a n base, answer a n = some base → a ∣ base
  fits : ∀ a n base, answer a n = some base → base + n ≤ sizeTSize

/-- A platform that has no memory left. -/
def Memalign.exhausted : Memalign where
  answer _ _ := none
  aligned := by simp
  fits := by simp

/-- A platform that gives the same address for every block that fits behind it. -/
def Memalign.at (base : Nat) : Memalign where
  answer a n := if a ∣ base ∧ base + n ≤ sizeTSize then some base else none
  aligned := by
    intro a n base' h
    obtain ⟨h, hbase⟩ := Option.ite_none_right_eq_some.mp h
    exact Option.some.inj hbase ▸ h.1
  fits := by
    intro a n base' h
    obtain ⟨h, hbase⟩ := Option.ite_none_right_eq_some.mp h
    exact Option.some.inj hbase ▸ h.2

/-- A block of the platform. -/
structure Backing where
  base : Nat
  bytes : Nat
  deriving DecidableEq, Repr

def hbiAlignedAlloc (os : Memalign) (alignment size : Nat) : Option Backing :=
  if hbiIsPow2 alignment = false ∨ alignment < sizeofPtr then none
  else
    (os.answer alignment (if size = 0 then 1 else size)).map
      (⟨·, if size = 0 then 1 else size⟩)

/-- `(x + (align - 1)) & ~(align - 1)` on `size_t`. -/
def alignRounded (x align : Nat) : Nat :=
  (x + (align - 1)) % sizeTSize &&& (sizeTSize - 1 - (align - 1))

/-- Rounds up to a power of two and answers an overflow with 0. -/
def hbiAlignUp (x align : Nat) : Nat :=
  if hbiIsPow2 align = false then 0
  else if alignRounded x align < x then 0
  else alignRounded x align

def normalizeAlignment (alignment : Nat) : Nat :=
  if alignment = 0 then memNaturalAlign else alignment

/-- Space in front of the user bytes. -/
def sysOverhead (alignment : Nat) : Nat :=
  hbiAlignUp (if alignment > sizeofSysHeader then alignment else sizeofSysHeader) alignment

structure SysHeader where
  base : Nat
  size : Nat
  alignment : Nat
  tag : MemTag
  canary : Nat
  deriving DecidableEq, Repr

/-- Which function gave a buffer back. -/
inductive Release where
  | hbiFree
  | hbiAlignedFree
  deriving DecidableEq, Repr

/-- A buffer of the system allocator: the block behind it, the pointer the caller got,
the header in front of that, the canary behind the user bytes, and the releases. -/
structure SysBuffer where
  backing : Backing
  user : Nat
  header : SysHeader
  tailCanary : Option Nat
  released : List Release
  deriving DecidableEq, Repr

def canaryBytes (debug : Bool) : Nat := if debug then sizeofCanary else 0

def userSize (size : Nat) : Nat := if size = 0 then 1 else size

/-- `overhead + size + canary_bytes` on `size_t`. -/
def sysTotal (debug : Bool) (size alignment : Nat) : Nat :=
  (sysOverhead alignment + userSize size + canaryBytes debug) % sizeTSize

def sysBuffer (debug : Bool) (size alignment : Nat) (tag : MemTag) (b : Backing) : SysBuffer where
  backing := b
  user := b.base + sysOverhead alignment
  header := ⟨b.base, userSize size, alignment, tag, if debug then canaryHead else 0⟩
  tailCanary := if debug then some canaryTail else none
  released := []

/-- `sys_alloc` up to the statistics. -/
def sysLayout (os : Memalign) (debug : Bool) (size alignment : Nat) (tag : MemTag) :
    Result SysBuffer :=
  if tag = .tagCount then errSet .invalidArg "sys_alloc: bad tag"
  else if hbiIsPow2 (normalizeAlignment alignment) = false then
    errSet .invalidArg
      s!"sys_alloc: alignment {normalizeAlignment alignment} not a power of two"
  else if sysTotal debug size (normalizeAlignment alignment) < userSize size then
    errSet .oom "sys_alloc: size overflow"
  else
    match hbiAlignedAlloc os (normalizeAlignment alignment)
      (hbiAlignUp (sysTotal debug size (normalizeAlignment alignment))
        (normalizeAlignment alignment)) with
    | none =>
        errSet .oom
          s!"sys_alloc: {userSize size} bytes (align {normalizeAlignment alignment}) failed"
    | some b => .ok (sysBuffer debug size (normalizeAlignment alignment) tag b)

/-- The counters of the allocator. -/
structure MemStats where
  liveBytes : Nat
  peakBytes : Nat
  totalAllocCalls : Nat
  totalFreeCalls : Nat
  liveBlocks : Nat
  bytesByTag : MemTag → Nat

def fetchAdd (x n : Nat) : Nat := (x + n) % sizeTSize

def fetchSub (x n : Nat) : Nat := (x + (sizeTSize - n % sizeTSize)) % sizeTSize

def statsAdd (c : MemStats) (size : Nat) (tag : MemTag) : MemStats where
  liveBytes := fetchAdd c.liveBytes size
  peakBytes := max c.peakBytes (fetchAdd c.liveBytes size)
  totalAllocCalls := fetchAdd c.totalAllocCalls 1
  totalFreeCalls := c.totalFreeCalls
  liveBlocks := fetchAdd c.liveBlocks 1
  bytesByTag := Function.update c.bytesByTag tag (fetchAdd (c.bytesByTag tag) size)

def statsSub (c : MemStats) (size : Nat) (tag : MemTag) : MemStats where
  liveBytes := fetchSub c.liveBytes size
  peakBytes := c.peakBytes
  totalAllocCalls := c.totalAllocCalls
  totalFreeCalls := fetchAdd c.totalFreeCalls 1
  liveBlocks := fetchSub c.liveBlocks 1
  bytesByTag := Function.update c.bytesByTag tag (fetchSub (c.bytesByTag tag) size)

/-- The allocator: its counters, its mode and the buffers it handed out. -/
structure SysHeap where
  stats : MemStats
  debug : Bool
  buffers : List SysBuffer

/-- An allocator that was not used yet. -/
def SysHeap.fresh (debug : Bool) : SysHeap := ⟨⟨0, 0, 0, 0, 0, fun _ => 0⟩, debug, []⟩

/-- `hbi_alloc` on the system allocator. -/
def hbiAlloc (h : SysHeap) (os : Memalign) (size alignment : Nat) (tag : MemTag) :
    SysHeap × Option Nat :=
  match sysLayout os h.debug size alignment tag with
  | .error _ => (h, none)
  | .ok buf =>
      ({ h with
          stats := statsAdd h.stats buf.header.size tag
          buffers := h.buffers ++ [buf] }, some h.buffers.length)

def SysBuffer.release (r : Release) (buf : SysBuffer) : SysBuffer :=
  { buf with released := buf.released ++ [r] }

/-- `hbi_free` on the system allocator: the header says what to subtract. -/
def hbiFree (h : SysHeap) (ptr : Nat) : SysHeap :=
  match h.buffers[ptr]? with
  | none => h
  | some buf =>
      { h with
        stats := statsSub h.stats buf.header.size buf.header.tag
        buffers := h.buffers.modify ptr (SysBuffer.release .hbiFree) }

/-- `hbi_aligned_free` of a pointer of the system allocator: the platform's `free`, which
knows nothing of headers and counters. -/
def hbiAlignedFree (h : SysHeap) (ptr : Nat) : SysHeap :=
  { h with buffers := h.buffers.modify ptr (SysBuffer.release .hbiAlignedFree) }

theorem fetchAdd_mod {x s n k m : Nat} (hx : x = (s + n) % sizeTSize) (hm : m = n + k) :
    fetchAdd x k = (s + m) % sizeTSize := by
  unfold fetchAdd sizeTSize at *
  omega

theorem fetchSub_mod {x s n k m : Nat} (hx : x = (s + n) % sizeTSize) (hm : m + k = n) :
    fetchSub x k = (s + m) % sizeTSize := by
  unfold fetchSub sizeTSize at *
  omega

section Heap

variable {h h' : SysHeap} {os : Memalign} {size alignment ptr k : Nat} {tag : MemTag}

/-- A buffer that is granted is a new one behind the others. -/
theorem hbiAlloc_granted (halloc : hbiAlloc h os size alignment tag = (h', some ptr)) :
    ptr = h.buffers.length ∧ h'.stats = statsAdd h.stats (userSize size) tag ∧
      ∃ buf, h'.buffers = h.buffers ++ [buf] ∧ buf.released = [] ∧
        buf.header.size = userSize size ∧ buf.header.tag = tag := by
  unfold hbiAlloc at halloc
  split at halloc
  · cases halloc
  · rename_i buf hlayout
    cases halloc
    have hbuf : ∃ alignment b, buf = sysBuffer h.debug size alignment tag b := by
      unfold sysLayout at hlayout
      split at hlayout
      · cases hlayout
      · split at hlayout
        · cases hlayout
        · split at hlayout
          · cases hlayout
          · split at hlayout
            · cases hlayout
            · cases hlayout
              exact ⟨_, _, rfl⟩
    obtain ⟨alignment', b, rfl⟩ := hbuf
    exact ⟨rfl, rfl, _, rfl, rfl, rfl, rfl⟩

theorem hbiFree_getElem?_of_ne (hne : ptr ≠ k) :
    (hbiFree h ptr).buffers[k]? = h.buffers[k]? := by
  unfold hbiFree
  split
  · rfl
  · exact List.getElem?_modify_ne _ _ hne

theorem hbiFree_getElem? {buf : SysBuffer} (hbuf : h.buffers[ptr]? = some buf) :
    (hbiFree h ptr).buffers[ptr]? = some (buf.release .hbiFree) := by
  unfold hbiFree
  rw [hbuf]
  simp only [List.getElem?_modify_eq, hbuf]
  rfl

theorem hbiFree_stats {buf : SysBuffer} (hbuf : h.buffers[ptr]? = some buf) :
    (hbiFree h ptr).stats = statsSub h.stats buf.header.size buf.header.tag := by
  unfold hbiFree
  rw [hbuf]

theorem hbiFree_length : (hbiFree h ptr).buffers.length = h.buffers.length := by
  unfold hbiFree
  split
  · rfl
  · exact List.length_modify _ _ _

end Heap

end Hummingbird

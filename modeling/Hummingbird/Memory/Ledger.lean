import Hummingbird.Memory.Context
import Hummingbird.Memory.Layout
import Hummingbird.Foundation.Intervals
import Hummingbird.Foundation.Table

/-!
The counters of the allocator as a ledger of its live buffers. The counters are words; that
none of them wraps is a fact about the address space: the blocks of the platform that are
live do not overlap, and every one of them is larger than the buffer in it, unless the
rounding of its size left the word.
-/

namespace Hummingbird

/-- The buffers that were not given back, in the order in which they were handed out. -/
def SysHeap.liveBuffers (h : SysHeap) : List SysBuffer := h.buffers.filter (·.released = [])

/-- What the counters say is what is live. The two totals are words that may have wrapped,
and so is their difference. -/
structure SysHeap.Exact (h : SysHeap) : Prop where
  liveBytes : h.stats.liveBytes = (h.liveBuffers.map (·.header.size)).sum
  liveBlocks : h.stats.liveBlocks = h.liveBuffers.length
  bytesByTag : ∀ tag, h.stats.bytesByTag tag =
    ((h.liveBuffers.filter (·.header.tag = tag)).map (·.header.size)).sum
  calls : fetchSub h.stats.totalAllocCalls h.stats.totalFreeCalls = h.stats.liveBlocks

/-- The platform gives no block that overlaps a live one. -/
def Memalign.ApartFrom (os : Memalign) (h : SysHeap) : Prop :=
  ∀ a n base, os.answer a n = some base → ∀ b ∈ h.liveBuffers,
    base + n ≤ b.backing.base ∨ b.backing.base + b.backing.bytes ≤ base

/-- A size that is a word behind its header stays one when it is rounded. -/
def RoundingFits (debug : Bool) (size alignment : Nat) : Prop :=
  sysNeed debug size (normalizeAlignment alignment) < sizeTSize →
    Alignment.up (sysNeed debug size (normalizeAlignment alignment))
      (normalizeAlignment alignment) < sizeTSize

instance (debug : Bool) (size alignment : Nat) : Decidable (RoundingFits debug size alignment) :=
  inferInstanceAs (Decidable (_ → _))

/-- A condition on every allocation and on every release that a call makes. -/
def MemCall.Each (A : SysCtx → MemEnv → Nat → Nat → MemTag → Prop) (F : SysCtx → Nat → Prop)
    (c : SysCtx) : MemEnv × MemCall → Prop
  | (env, .alloc size alignment tag) => A c env size alignment tag
  | (env, .realloc none newSize alignment tag) => A c env newSize alignment tag
  | (env, .realloc (some ptr) newSize alignment tag) =>
      if newSize = 0 then F c ptr
      else
        A c env newSize (reallocAlignment c ptr alignment) tag ∧
          ((sysAlloc c env newSize (reallocAlignment c ptr alignment) tag).2 ≠ none → F c ptr)
  | (_, .free (some ptr)) => F c ptr
  | _ => True

/-- No allocation of the call is one whose rounding leaves the word. -/
def MemCall.Fits (c : SysCtx) (op : MemEnv × MemCall) : Prop :=
  MemCall.Each (fun c _ size alignment _ => RoundingFits c.heap.debug size alignment)
    (fun _ _ => True) c op

/-- The states that a call passes through inside of itself: a reallocation has the new
buffer before it gives the old one back. -/
def between (c : SysCtx) : MemEnv × MemCall → List SysCtx
  | (env, .realloc (some ptr) newSize alignment tag) =>
      if newSize = 0 then []
      else [(sysAlloc c env newSize (reallocAlignment c ptr alignment) tag).1]
  | _ => []

/-- All states of a run, those inside of its calls included. -/
def states : SysCtx → List (MemEnv × MemCall) → List SysCtx
  | c, [] => [c]
  | c, op :: ops => c :: (between c op ++ states (memStep c op) ops)

/-- A reallocation that fails leaves everything as it was. -/
def FailedReallocKeeps (c : SysCtx) : MemEnv × MemCall → Prop
  | (env, .realloc ptr newSize alignment tag) =>
      (ptr = none ∨ newSize ≠ 0) → (sysRealloc c env ptr newSize alignment tag).2 = none →
        memStep c (env, .realloc ptr newSize alignment tag) = c
  | _ => True

section Alloc

variable {h h' : SysHeap} {os : Memalign} {size alignment ptr : Nat} {tag : MemTag}

theorem sysLayout_normalize {debug : Bool} :
    sysLayout os debug size (normalizeAlignment alignment) tag =
      sysLayout os debug size alignment tag := by
  have hidem : normalizeAlignment (normalizeAlignment alignment) =
      normalizeAlignment alignment := by
    unfold normalizeAlignment
    by_cases h : alignment = 0
    · rw [if_pos h]
      rfl
    · rw [if_neg h, if_neg h]
  unfold sysLayout
  rw [hidem]

/-- A buffer whose rounding fits lies in a block of the platform that is larger than it. -/
theorem sysLayout_ok {debug : Bool} {buf : SysBuffer}
    (hok : sysLayout os debug size alignment tag = .ok buf) (hsize : size < sizeTSize)
    (halign : alignment < sizeTSize) (hfits : RoundingFits debug size alignment) :
    ∃ b, buf = sysBuffer debug size (normalizeAlignment alignment) tag b ∧
      os.answer (normalizeAlignment alignment) b.bytes = some b.base ∧
      userSize size + sizeofSysHeader ≤ b.bytes ∧ normalizeAlignment alignment < sizeTSize := by
  have htag : tag ≠ .tagCount := by
    rintro rfl
    simp [sysLayout] at hok
  have hpow : hbiIsPow2 (normalizeAlignment alignment) = true := by
    by_contra hnot
    rw [Bool.not_eq_true] at hnot
    simp [sysLayout, hnot, htag] at hok
  have ha : normalizeAlignment alignment < sizeTSize := by
    unfold normalizeAlignment
    split
    · decide
    · exact halign
  rw [← sysLayout_normalize] at hok
  rcases @sysLayout_cases os debug size _ tag hpow ha hsize htag with
    ⟨-, hlayout⟩ | ⟨hneed, ⟨e, -, hlayout⟩ | ⟨base, -, hbase, hlayout⟩⟩
  · rw [hlayout] at hok
    cases hok
  · rw [hlayout] at hok
    cases hok
  · rw [hlayout] at hok
    cases hok
    have hround := hfits hneed
    have hle := Alignment.le_up (pos_of_hbiIsPow2 hpow)
      (sysNeed debug size (normalizeAlignment alignment))
    have hhead := (sysOverhead_spec hpow ha).1
    refine ⟨_, rfl, hbase, ?_, ha⟩
    dsimp only
    rw [platformRequest, if_pos hround]
    unfold sysNeed at hle ⊢
    omega

end Alloc

/-- What a served allocation does to the heap. -/
def SysHeap.push (h : SysHeap) (buf : SysBuffer) : SysHeap :=
  { h with
    stats := statsAdd h.stats buf.header.size buf.header.tag
    buffers := h.buffers ++ [buf] }

@[simp]
theorem debugLink_heap (c : SysCtx) (mutexInit : Bool) (ptr size : Nat) :
    (debugLink c mutexInit ptr size).heap = c.heap := by
  unfold debugLink debugMutex
  dsimp only
  split <;> rfl

@[simp]
theorem debugUnlink_heap (c : SysCtx) (mutexInit : Bool) (ptr size : Nat) :
    (debugUnlink c mutexInit ptr size).heap = c.heap := by
  unfold debugUnlink debugMutex
  dsimp only
  split <;> rfl

/-- An allocation is refused and changes nothing, or it pushes a buffer. -/
theorem sysAlloc_cases (c : SysCtx) (env : MemEnv) (size alignment : Nat) (tag : MemTag) :
    sysAlloc c env size alignment tag = (c, none) ∨
    ∃ buf, sysLayout env.os c.heap.debug size alignment tag = .ok buf ∧
      buf.header.tag = tag ∧ buf.header.size = userSize size ∧
      sysAlloc c env size alignment tag =
        (if c.heap.debug then
          debugLink (newBlock c (c.heap.push buf) c.heap.buffers.length env.garbage) env.mutexInit
            c.heap.buffers.length buf.header.size
        else newBlock c (c.heap.push buf) c.heap.buffers.length env.garbage,
          some c.heap.buffers.length) := by
  cases halloc : hbiAlloc c.heap env.os size alignment tag with
  | mk heap ptr =>
      unfold sysAlloc
      rw [halloc]
      cases ptr with
      | none => exact Or.inl rfl
      | some ptr =>
          obtain ⟨hptr, hstats, buf, hbuffers, -, hsize, htag⟩ := hbiAlloc_granted halloc
          unfold hbiAlloc at halloc
          cases hlayout : sysLayout env.os c.heap.debug size alignment tag with
          | error e => simp [hlayout] at halloc
          | ok buf' =>
              rw [hlayout] at halloc
              cases halloc
              have hbuf : buf' = buf := by simpa using hbuffers
              subst hbuf
              refine Or.inr ⟨buf', rfl, htag, hsize, ?_⟩
              dsimp only
              rw [← hsize, SysHeap.push, htag]

theorem sysAlloc_heap {c : SysCtx} {env : MemEnv} {size alignment : Nat} {tag : MemTag} :
    (sysAlloc c env size alignment tag).1.heap = c.heap ∨
    ∃ buf, sysLayout env.os c.heap.debug size alignment tag = .ok buf ∧
      (sysAlloc c env size alignment tag).1.heap = c.heap.push buf := by
  rcases sysAlloc_cases c env size alignment tag with heq | ⟨buf, hok, -, -, heq⟩
  · rw [heq]
    exact Or.inl rfl
  · rw [heq]
    refine Or.inr ⟨buf, hok, ?_⟩
    dsimp only
    split
    · rw [debugLink_heap]
      rfl
    · rfl

theorem sysFree_heap (c : SysCtx) (mutexInit : Bool) (ptr : Nat) :
    (sysFree c mutexInit (some ptr)).heap = hbiFree c.heap ptr := by
  unfold sysFree
  dsimp only
  cases hbuf : c.heap.buffers[ptr]? with
  | none => simp [hbiFree, hbuf]
  | some buf =>
      dsimp only
      split
      · rw [debugUnlink_heap]
      · rfl

/-- A reallocation of a buffer to a size that is not 0 is refused with the allocation, or it
copies into the new buffer and gives the old one back. -/
theorem sysRealloc_cases (c : SysCtx) (env : MemEnv) (ptr : Nat) {newSize : Nat}
    (hsize : newSize ≠ 0) (alignment : Nat) (tag : MemTag) :
    ((sysAlloc c env newSize (reallocAlignment c ptr alignment) tag).2 = none ∧
      sysRealloc c env (some ptr) newSize alignment tag =
        ((sysAlloc c env newSize (reallocAlignment c ptr alignment) tag).1, none)) ∨
    ∃ fresh n, (sysAlloc c env newSize (reallocAlignment c ptr alignment) tag).2 = some fresh ∧
      sysRealloc c env (some ptr) newSize alignment tag =
        (sysFree (copyBlock (sysAlloc c env newSize (reallocAlignment c ptr alignment) tag).1
          fresh ptr n) env.mutexInitAgain (some ptr), some fresh) := by
  unfold sysRealloc
  dsimp only
  rw [if_neg hsize]
  cases sysAlloc c env newSize (reallocAlignment c ptr alignment) tag with
  | mk c' fresh =>
      cases fresh with
      | none => exact Or.inl ⟨rfl, rfl⟩
      | some fresh => exact Or.inr ⟨fresh, _, rfl, rfl⟩

theorem SysHeap.live_iff {h : SysHeap} {ptr : Nat} :
    h.live ptr = true ↔ ∃ buf, h.buffers[ptr]? = some buf ∧ buf.released = [] := by
  unfold SysHeap.live
  cases h.buffers[ptr]? with
  | none => simp
  | some buf => simp

theorem SysHeap.liveBuffers_push {h : SysHeap} {buf : SysBuffer} (hbuf : buf.released = []) :
    (h.push buf).liveBuffers = h.liveBuffers ++ [buf] := by
  simp [liveBuffers, push, hbuf]

/-- A buffer that is given back leaves the live ones. -/
theorem SysHeap.liveBuffers_hbiFree {h : SysHeap} {ptr : Nat} {buf : SysBuffer}
    (hbuf : h.buffers[ptr]? = some buf) (hlive : buf.released = []) :
    h.liveBuffers.Perm (buf :: (hbiFree h ptr).liveBuffers) := by
  obtain ⟨others, hbefore, hafter⟩ := Table.exists_others hbuf
  have hset : (hbiFree h ptr).buffers = h.buffers.set ptr (buf.release .hbiFree) := by
    unfold hbiFree
    rw [hbuf]
    dsimp only
    rw [List.modify_eq_set_getElem?, hbuf]
    rfl
  have hreleased : (buf.release .hbiFree).released ≠ [] := by simp [SysBuffer.release]
  have hlives := (hafter (buf.release .hbiFree)).filter (·.released = [])
  have hold := hbefore.filter (·.released = [])
  rw [List.filter_cons_of_neg (by simpa using hreleased)] at hlives
  rw [List.filter_cons_of_pos (by simpa using hlive)] at hold
  unfold liveBuffers
  rw [hset]
  exact hold.trans (hlives.symm.cons buf)

/-- How the buffers lie in the address space: the blocks of live ones are apart, and each
is larger than what it serves. -/
structure SysHeap.Placed (h : SysHeap) : Prop where
  apart : h.liveBuffers.Pairwise
    (Intervals.Apart (fun b => b.backing.base) fun b => b.backing.bytes)
  inside : ∀ b ∈ h.liveBuffers, b.backing.base + b.backing.bytes ≤ sizeTSize ∧
    b.header.size + sizeofSysHeader ≤ b.backing.bytes
  alignment_lt : ∀ ptr, h.alignmentAt ptr < sizeTSize

theorem SysHeap.Placed.sum_lt {h : SysHeap} (hplaced : h.Placed) :
    (h.liveBuffers.map (·.header.size)).sum < sizeTSize ∧ h.liveBuffers.length < sizeTSize := by
  have hbytes := Intervals.sum_le_of_apart hplaced.apart fun b hb => (hplaced.inside b hb).1
  have hsum : ∀ l : List SysBuffer,
      (∀ b ∈ l, b.header.size + sizeofSysHeader ≤ b.backing.bytes) →
      (l.map (·.header.size)).sum + sizeofSysHeader * l.length ≤
        (l.map fun b => b.backing.bytes).sum := by
    intro l hl
    induction l with
    | nil => simp
    | cons b l ih =>
        have hb := hl b (by simp)
        have hrest := ih fun b' hb' => hl b' (by simp [hb'])
        simp only [List.map_cons, List.sum_cons, List.length_cons]
        rw [Nat.mul_add]
        omega
  have hlive := hsum h.liveBuffers fun b hb => (hplaced.inside b hb).2
  cases hl : h.liveBuffers with
  | nil => simp [sizeTSize]
  | cons b l =>
      rw [hl] at hlive hbytes
      unfold sizeofSysHeader at hlive
      simp only [List.length_cons] at hlive ⊢
      constructor <;> omega

namespace SysHeap.Placed

variable {h : SysHeap} {ptr : Nat}

theorem fresh : (SysHeap.fresh false).Placed := by
  refine ⟨List.Pairwise.nil, ?_, ?_⟩
  · intro b hb
    cases hb
  · intro ptr
    simp [alignmentAt, SysHeap.fresh, sizeTSize]

theorem congr {h' : SysHeap} (hplaced : h.Placed) (hbuffers : h'.buffers = h.buffers) :
    h'.Placed := by
  have hlive : h'.liveBuffers = h.liveBuffers := by
    unfold liveBuffers
    rw [hbuffers]
  refine ⟨?_, ?_, ?_⟩
  · rw [hlive]
    exact hplaced.apart
  · rw [hlive]
    exact hplaced.inside
  · intro ptr
    unfold alignmentAt
    rw [hbuffers]
    exact hplaced.alignment_lt ptr

theorem push (hplaced : h.Placed) {os : Memalign} {size alignment : Nat} {tag : MemTag}
    {buf : SysBuffer} (hok : sysLayout os h.debug size alignment tag = .ok buf)
    (hsize : size < sizeTSize) (halign : alignment < sizeTSize)
    (hfits : RoundingFits h.debug size alignment) (hos : os.ApartFrom h) :
    (h.push buf).Placed := by
  obtain ⟨b, rfl, hanswer, hlarge, ha⟩ := sysLayout_ok hok hsize halign hfits
  have hlive : (h.push (sysBuffer h.debug size (normalizeAlignment alignment) tag b)).liveBuffers =
      h.liveBuffers ++ [sysBuffer h.debug size (normalizeAlignment alignment) tag b] :=
    liveBuffers_push rfl
  refine ⟨?_, ?_, ?_⟩
  · rw [hlive, List.pairwise_append]
    refine ⟨hplaced.apart, List.pairwise_singleton _ _, ?_⟩
    intro b' hb' new hnew
    rw [List.mem_singleton.mp hnew]
    exact (hos _ _ _ hanswer b' hb').symm
  · intro b' hb'
    rw [hlive, List.mem_append] at hb'
    rcases hb' with hb' | hb'
    · exact hplaced.inside b' hb'
    · rw [List.mem_singleton.mp hb']
      exact ⟨os.fits _ _ _ hanswer, hlarge⟩
  · intro ptr
    have hold := hplaced.alignment_lt ptr
    unfold alignmentAt SysHeap.push at *
    dsimp only
    rw [List.getElem?_append]
    split
    · exact hold
    · rename_i hlen
      cases hk : ptr - h.buffers.length with
      | zero => simpa [sysBuffer] using ha
      | succ k => simp [sizeTSize]

theorem free (hplaced : h.Placed) (hlive : h.live ptr = true) : (hbiFree h ptr).Placed := by
  obtain ⟨buf, hbuf, hreleased⟩ := live_iff.mp hlive
  have hperm := liveBuffers_hbiFree hbuf hreleased
  have hsymm : ∀ b c : SysBuffer, Intervals.Apart (fun b => b.backing.base)
      (fun b => b.backing.bytes) b c → Intervals.Apart (fun b => b.backing.base)
      (fun b => b.backing.bytes) c b := fun _ _ => Intervals.Apart.symm
  refine ⟨?_, ?_, ?_⟩
  · have hall := hperm.pairwise hplaced.apart (fun {b c} => hsymm b c)
    exact (List.pairwise_cons.mp hall).2
  · intro b hb
    exact hplaced.inside b (hperm.mem_iff.mpr (by simp [hb]))
  · intro k
    have hold := hplaced.alignment_lt k
    unfold alignmentAt at *
    by_cases hk : ptr = k
    · subst hk
      rw [hbiFree_getElem? hbuf]
      rw [hbuf] at hold
      exact hold
    · rw [hbiFree_getElem?_of_ne hk]
      exact hold

end SysHeap.Placed

theorem fetchAdd_of_lt {x n : Nat} (h : x + n < sizeTSize) : fetchAdd x n = x + n :=
  Nat.mod_eq_of_lt h

theorem fetchSub_of_le {x n m : Nat} (hx : x < sizeTSize) (h : x = m + n) : fetchSub x n = m := by
  unfold fetchSub sizeTSize at *
  omega

namespace SysHeap.Exact

variable {h : SysHeap} {ptr : Nat}

theorem fresh : (SysHeap.fresh false).Exact := by
  refine ⟨rfl, rfl, fun _ => rfl, ?_⟩
  decide

theorem congr {h' : SysHeap} (hexact : h.Exact) (hbuffers : h'.buffers = h.buffers)
    (hstats : h'.stats = h.stats) : h'.Exact := by
  obtain ⟨stats', debug', buffers'⟩ := h'
  subst hbuffers
  subst hstats
  exact ⟨hexact.liveBytes, hexact.liveBlocks, hexact.bytesByTag, hexact.calls⟩

/-- The counters take a new buffer in, which fits the address space beside the others. -/
theorem push (hexact : h.Exact) {buf : SysBuffer} (hlive : buf.released = [])
    (hplaced : (h.push buf).Placed) : (h.push buf).Exact := by
  obtain ⟨hbytes, hblocks⟩ := hplaced.sum_lt
  have hlives := @liveBuffers_push h buf hlive
  rw [hlives] at hbytes hblocks
  simp only [List.map_append, List.map_cons, List.map_nil, List.sum_append, List.sum_cons,
    List.sum_nil, List.length_append, List.length_cons, List.length_nil] at hbytes hblocks
  refine ⟨?_, ?_, ?_, ?_⟩
  · rw [hlives]
    simp only [SysHeap.push, statsAdd, hexact.liveBytes]
    rw [fetchAdd_of_lt (by omega)]
    simp
  · rw [hlives]
    simp only [SysHeap.push, statsAdd, hexact.liveBlocks]
    rw [fetchAdd_of_lt (by omega)]
    simp
  · intro tag
    rw [hlives, List.filter_append]
    simp only [SysHeap.push, statsAdd]
    by_cases htag : tag = buf.header.tag
    · subst htag
      have hle : ((h.liveBuffers.filter (·.header.tag = buf.header.tag)).map
          (·.header.size)).sum ≤ (h.liveBuffers.map (·.header.size)).sum :=
        (List.filter_sublist.map _).sum_le_sum (by simp)
      rw [Function.update_self, hexact.bytesByTag, fetchAdd_of_lt (by omega)]
      simp
    · rw [Function.update_of_ne htag, hexact.bytesByTag]
      simp [Ne.symm htag]
  · have hcalls := hexact.calls
    simp only [SysHeap.push, statsAdd]
    unfold fetchSub fetchAdd sizeTSize at *
    omega

theorem free (hexact : h.Exact) (hplaced : h.Placed) (hlive : h.live ptr = true) :
    (hbiFree h ptr).Exact := by
  obtain ⟨buf, hbuf, hreleased⟩ := live_iff.mp hlive
  have hperm := liveBuffers_hbiFree hbuf hreleased
  have hstats := hbiFree_stats hbuf
  obtain ⟨hbytes, hblocks⟩ := hplaced.sum_lt
  refine ⟨?_, ?_, ?_, ?_⟩
  · rw [hstats]
    apply fetchSub_of_le
    · rw [hexact.liveBytes]
      exact hbytes
    · rw [hexact.liveBytes, (hperm.map _).sum_eq, List.map_cons, List.sum_cons, Nat.add_comm]
  · rw [hstats]
    apply fetchSub_of_le
    · rw [hexact.liveBlocks]
      exact hblocks
    · rw [hexact.liveBlocks, hperm.length_eq, List.length_cons]
  · intro tag
    rw [hstats]
    simp only [statsSub]
    have hfilter := (hperm.filter (·.header.tag = tag)).map (·.header.size)
    have hold : h.stats.bytesByTag tag < sizeTSize := by
      rw [hexact.bytesByTag]
      exact lt_of_le_of_lt ((List.filter_sublist.map _).sum_le_sum (by simp)) hbytes
    by_cases htag : tag = buf.header.tag
    · subst htag
      rw [Function.update_self]
      apply fetchSub_of_le hold
      rw [hexact.bytesByTag, hfilter.sum_eq, List.filter_cons_of_pos (by simp), List.map_cons,
        List.sum_cons, Nat.add_comm]
    · rw [Function.update_of_ne htag, hexact.bytesByTag, hfilter.sum_eq,
        List.filter_cons_of_neg (by simpa using Ne.symm htag)]
  · have hcalls := hexact.calls
    have hpos : h.stats.liveBlocks = (hbiFree h ptr).liveBuffers.length + 1 := by
      rw [hexact.liveBlocks, hperm.length_eq, List.length_cons]
    have hword : h.stats.liveBlocks < sizeTSize := by
      rw [hexact.liveBlocks]
      exact hblocks
    rw [hstats]
    simp only [statsSub]
    unfold fetchSub fetchAdd sizeTSize at *
    omega

end SysHeap.Exact

section Step

variable {inv : SysCtx → Prop} {A : SysCtx → MemEnv → Nat → Nat → MemTag → Prop}
  {F : SysCtx → Nat → Prop}

/-- An allocation leaves the older headers alone. -/
theorem sysAlloc_getElem? {c : SysCtx} {env : MemEnv} {size alignment ptr : Nat} {tag : MemTag}
    {buf : SysBuffer} (hbuf : c.heap.buffers[ptr]? = some buf) :
    (sysAlloc c env size alignment tag).1.heap.buffers[ptr]? = some buf ∧
      (sysAlloc c env size alignment tag).1.heap.debug = c.heap.debug := by
  rcases @sysAlloc_heap c env size alignment tag with heq | ⟨new, -, heq⟩
  · rw [heq]
    exact ⟨hbuf, rfl⟩
  · rw [heq]
    refine ⟨?_, rfl⟩
    have hlt := (List.getElem?_eq_some_iff.mp hbuf).1
    rw [SysHeap.push, List.getElem?_append_left hlt]
    exact hbuf

/-- What allocations, releases, the switch of the mode and stores of the caller keep is
kept by every legal call. The condition on releases must not depend on more than the mode
and the header. -/
theorem memStep_keeps
    (halloc : ∀ c env size a tag, inv c → size < sizeTSize → a < sizeTSize →
      A c env size a tag → inv (sysAlloc c env size a tag).1)
    (hfree : ∀ c mutexInit ptr, inv c → c.heap.live ptr = true → F c ptr →
      inv (sysFree c mutexInit (some ptr)))
    (hdebug : ∀ c mutexInit enabled, inv c → inv (hbiMemDebugSetEnabled c mutexInit enabled))
    (hcontents : ∀ c contents, inv c → inv { c with contents })
    (halign : ∀ c ptr, inv c → c.heap.alignmentAt ptr < sizeTSize)
    (hF : ∀ c c' ptr, c'.heap.buffers[ptr]? = c.heap.buffers[ptr]? →
      c'.heap.debug = c.heap.debug → F c ptr → F c' ptr)
    {c : SysCtx} {op : MemEnv × MemCall} (hc : inv c) (hlegal : op.2.Legal c)
    (hop : MemCall.Each A F c op) : inv (memStep c op) := by
  obtain ⟨env, call⟩ := op
  cases call with
  | alloc size alignment tag => exact halloc c env size alignment tag hc hlegal.1 hlegal.2 hop
  | free ptr =>
      cases ptr with
      | none => exact hc
      | some ptr => exact hfree c env.mutexInit ptr hc hlegal hop
  | setDebug enabled => exact hdebug c env.mutexInit enabled hc
  | write ptr offset value => exact hcontents c _ hc
  | realloc ptr newSize alignment tag =>
      obtain ⟨hsize, ha, howns⟩ := hlegal
      cases ptr with
      | none => exact halloc c env newSize alignment tag hc hsize ha hop
      | some ptr =>
          have hlive : c.heap.live ptr = true := howns
          simp only [MemCall.Each] at hop
          by_cases hzero : newSize = 0
          · rw [if_pos hzero] at hop
            simp only [memStep, sysRealloc, if_pos hzero]
            exact hfree c env.mutexInit ptr hc hlive hop
          · rw [if_neg hzero] at hop
            obtain ⟨hA, hfreed⟩ := hop
            have haword : reallocAlignment c ptr alignment < sizeTSize := by
              unfold reallocAlignment
              split
              · exact ha
              · exact halign c ptr hc
            have hnew := halloc c env newSize _ tag hc hsize haword hA
            obtain ⟨buf, hbuf, hreleased⟩ := SysHeap.live_iff.mp hlive
            obtain ⟨hbuf', hmode⟩ := @sysAlloc_getElem? c env newSize
              (reallocAlignment c ptr alignment) ptr tag buf hbuf
            rcases sysRealloc_cases c env ptr hzero alignment tag with
              ⟨-, heq⟩ | ⟨fresh, n, hserved, heq⟩
            · simp only [memStep, heq]
              exact hnew
            · simp only [memStep, heq]
              apply hfree
              · exact hcontents _ _ hnew
              · exact SysHeap.live_iff.mpr ⟨buf, hbuf', hreleased⟩
              · exact hF c _ ptr (hbuf'.trans hbuf.symm) hmode (hfreed (by simp [hserved]))

end Step

theorem MemCall.Each.imp {A A' : SysCtx → MemEnv → Nat → Nat → MemTag → Prop}
    {F F' : SysCtx → Nat → Prop} {c : SysCtx} {op : MemEnv × MemCall}
    (h : MemCall.Each A F c op)
    (hA : ∀ size alignment tag, A c op.1 size alignment tag → A' c op.1 size alignment tag)
    (hF : ∀ ptr, F c ptr → F' c ptr) : MemCall.Each A' F' c op := by
  obtain ⟨env, call⟩ := op
  cases call with
  | alloc size alignment tag => exact hA _ _ _ h
  | free ptr =>
      cases ptr with
      | none => trivial
      | some ptr => exact hF ptr h
  | setDebug enabled => trivial
  | write ptr offset value => trivial
  | realloc ptr newSize alignment tag =>
      cases ptr with
      | none => exact hA _ _ _ h
      | some ptr =>
          simp only [MemCall.Each] at h ⊢
          split at h
          · rw [if_pos ‹_›]
            exact hF ptr h
          · rw [if_neg ‹_›]
            exact ⟨hA _ _ _ h.1, fun hnew => hF ptr (h.2 hnew)⟩

theorem MemCall.Each.and {A A' : SysCtx → MemEnv → Nat → Nat → MemTag → Prop}
    {F F' : SysCtx → Nat → Prop} {c : SysCtx} {op : MemEnv × MemCall}
    (h : MemCall.Each A F c op) (h' : MemCall.Each A' F' c op) :
    MemCall.Each (fun c env size alignment tag => A c env size alignment tag ∧
      A' c env size alignment tag) (fun c ptr => F c ptr ∧ F' c ptr) c op := by
  obtain ⟨env, call⟩ := op
  cases call with
  | alloc size alignment tag => exact ⟨h, h'⟩
  | free ptr =>
      cases ptr with
      | none => trivial
      | some ptr => exact ⟨h, h'⟩
  | setDebug enabled => trivial
  | write ptr offset value => trivial
  | realloc ptr newSize alignment tag =>
      cases ptr with
      | none => exact ⟨h, h'⟩
      | some ptr =>
          simp only [MemCall.Each] at h h' ⊢
          split at h
          · rw [if_pos ‹_›] at h' ⊢
            exact ⟨h, h'⟩
          · rw [if_neg ‹_›] at h' ⊢
            exact ⟨⟨h.1, h'.1⟩, fun hnew => ⟨h.2 hnew, h'.2 hnew⟩⟩

/-- The ledger is exact and its buffers have their places. -/
structure SysCtx.Balanced (c : SysCtx) : Prop where
  ledger : c.heap.Exact
  placed : c.heap.Placed

/-- What is asked of a call: it is legal, the platform gives no block twice, and no rounding
leaves the word. -/
structure FairCall (c : SysCtx) (op : MemEnv × MemCall) : Prop where
  legal : op.2.Legal c
  apart : op.1.os.ApartFrom c.heap
  fits : MemCall.Fits c op

namespace SysCtx.Balanced

variable {c : SysCtx} {env : MemEnv} {size alignment ptr : Nat} {tag : MemTag}

theorem alloc (hc : c.Balanced) (hsize : size < sizeTSize) (halign : alignment < sizeTSize)
    (hos : env.os.ApartFrom c.heap) (hfits : RoundingFits c.heap.debug size alignment) :
    (sysAlloc c env size alignment tag).1.Balanced := by
  rcases @sysAlloc_heap c env size alignment tag with heq | ⟨buf, hok, heq⟩
  · refine ⟨?_, ?_⟩
    · rw [heq]
      exact hc.ledger
    · rw [heq]
      exact hc.placed
  · have hplaced := hc.placed.push hok hsize halign hfits hos
    have hlive : buf.released = [] := by
      obtain ⟨b, rfl, -⟩ := sysLayout_ok hok hsize halign hfits
      rfl
    refine ⟨?_, ?_⟩
    · rw [heq]
      exact hc.ledger.push hlive hplaced
    · rw [heq]
      exact hplaced

theorem free (hc : c.Balanced) (mutexInit : Bool) (hlive : c.heap.live ptr = true) :
    (sysFree c mutexInit (some ptr)).Balanced := by
  refine ⟨?_, ?_⟩
  · rw [sysFree_heap]
    exact hc.ledger.free hc.placed hlive
  · rw [sysFree_heap]
    exact hc.placed.free hlive

theorem setDebug (hc : c.Balanced) (mutexInit enabled : Bool) :
    (hbiMemDebugSetEnabled c mutexInit enabled).Balanced := by
  have hbuffers : (hbiMemDebugSetEnabled c mutexInit enabled).heap.buffers = c.heap.buffers := by
    unfold hbiMemDebugSetEnabled debugMutex
    dsimp only
    split <;> rfl
  have hstats : (hbiMemDebugSetEnabled c mutexInit enabled).heap.stats = c.heap.stats := by
    unfold hbiMemDebugSetEnabled debugMutex
    dsimp only
    split <;> rfl
  exact ⟨hc.ledger.congr hbuffers hstats, hc.placed.congr hbuffers⟩

theorem step {op : MemEnv × MemCall} (hc : c.Balanced) (hop : FairCall c op) :
    (memStep c op).Balanced := by
  have heach : MemCall.Each
      (fun c env size alignment _ =>
        env.os.ApartFrom c.heap ∧ RoundingFits c.heap.debug size alignment)
      (fun _ _ => True) c op :=
    hop.fits.imp (fun _ _ _ hfits => ⟨hop.apart, hfits⟩) fun _ hF => hF
  refine memStep_keeps ?_ ?_ ?_ ?_ ?_ ?_ hc hop.legal heach
  · intro c env size a tag hc hsize ha hA
    exact hc.alloc hsize ha hA.1 hA.2
  · intro c mutexInit ptr hc hlive _
    exact hc.free mutexInit hlive
  · intro c mutexInit enabled hc
    exact hc.setDebug mutexInit enabled
  · intro c contents hc
    exact ⟨hc.ledger, hc.placed⟩
  · intro c ptr hc
    exact hc.placed.alignment_lt ptr
  · intro c c' ptr _ _ hF
    exact hF

end SysCtx.Balanced

def SysCtx.liveBytes (c : SysCtx) : Nat := c.heap.stats.liveBytes

def SysCtx.peakBytes (c : SysCtx) : Nat := c.heap.stats.peakBytes

/-- How the high-water mark moves from one state to a later one that has been through the
given states: it covers them all, and it was reached in one of them if it moved. -/
structure Peaked (c : SysCtx) (visited : List SysCtx) (c' : SysCtx) : Prop where
  mono : c.peakBytes ≤ c'.peakBytes
  covers : ∀ s ∈ visited, s.liveBytes ≤ c'.peakBytes
  reached : c'.peakBytes = c.peakBytes ∨ ∃ s ∈ visited, s.liveBytes = c'.peakBytes

theorem Peaked.trans {c c' c'' : SysCtx} {visited visited' : List SysCtx}
    (h : Peaked c visited c') (h' : Peaked c' visited' c'') :
    Peaked c (visited ++ visited') c'' := by
  refine ⟨h.mono.trans h'.mono, ?_, ?_⟩
  · intro s hs
    rcases List.mem_append.mp hs with hs | hs
    · exact (h.covers s hs).trans h'.mono
    · exact h'.covers s hs
  · rcases h'.reached with heq | ⟨s, hs, heq⟩
    · rcases h.reached with heq' | ⟨s, hs, heq'⟩
      · exact Or.inl (heq.trans heq')
      · exact Or.inr ⟨s, by simp [hs], heq'.trans heq.symm⟩
    · exact Or.inr ⟨s, by simp [hs], heq⟩

/-- Nothing moves where the mark stays and the bytes do not grow. -/
theorem Peaked.of_le {c c' : SysCtx} (hc : c.liveBytes ≤ c.peakBytes)
    (hpeak : c'.peakBytes = c.peakBytes) (hlive : c'.liveBytes ≤ c.liveBytes) :
    Peaked c [c'] c' := by
  refine ⟨hpeak.ge, ?_, Or.inl hpeak⟩
  intro s hs
  rw [List.mem_singleton.mp hs, hpeak]
  exact hlive.trans hc

theorem peaked_sysAlloc {c : SysCtx} (hc : c.liveBytes ≤ c.peakBytes) (env : MemEnv)
    (size alignment : Nat) (tag : MemTag) :
    Peaked c [(sysAlloc c env size alignment tag).1] (sysAlloc c env size alignment tag).1 := by
  rcases @sysAlloc_heap c env size alignment tag with heq | ⟨buf, -, heq⟩
  · refine Peaked.of_le hc ?_ ?_
    · unfold SysCtx.peakBytes
      rw [heq]
    · unfold SysCtx.liveBytes
      rw [heq]
  · have hpeak : (sysAlloc c env size alignment tag).1.peakBytes =
        max c.peakBytes (sysAlloc c env size alignment tag).1.liveBytes := by
      unfold SysCtx.peakBytes SysCtx.liveBytes
      rw [heq]
      rfl
    refine ⟨by rw [hpeak]; exact le_max_left _ _, ?_, ?_⟩
    · intro s hs
      rw [List.mem_singleton.mp hs, hpeak]
      exact le_max_right _ _
    · rcases max_choice c.peakBytes (sysAlloc c env size alignment tag).1.liveBytes with h | h
      · exact Or.inl (hpeak.trans h)
      · exact Or.inr ⟨_, List.mem_singleton_self _, (hpeak.trans h).symm⟩

/-- A release takes bytes away, by the ledger. -/
theorem peaked_sysFree {c : SysCtx} (hbalanced : c.Balanced) (hc : c.liveBytes ≤ c.peakBytes)
    (mutexInit : Bool) {ptr : Nat} (hlive : c.heap.live ptr = true) :
    Peaked c [sysFree c mutexInit (some ptr)] (sysFree c mutexInit (some ptr)) := by
  obtain ⟨buf, hbuf, hreleased⟩ := SysHeap.live_iff.mp hlive
  have hperm := (SysHeap.liveBuffers_hbiFree hbuf hreleased).map (·.header.size)
  refine Peaked.of_le hc ?_ ?_
  · unfold SysCtx.peakBytes
    rw [sysFree_heap, hbiFree_stats hbuf]
    rfl
  · unfold SysCtx.liveBytes
    rw [(hbalanced.free mutexInit hlive).ledger.liveBytes, hbalanced.ledger.liveBytes,
      sysFree_heap, hperm.sum_eq, List.map_cons, List.sum_cons]
    exact Nat.le_add_left _ _

theorem Peaked.refl {c : SysCtx} (hc : c.liveBytes ≤ c.peakBytes) : Peaked c [c] c :=
  Peaked.of_le hc rfl le_rfl

theorem Peaked.congr {c c' : SysCtx} {visited visited' : List SysCtx} (h : Peaked c visited c')
    (hmem : ∀ s, s ∈ visited ↔ s ∈ visited') : Peaked c visited' c' := by
  refine ⟨h.mono, fun s hs => h.covers s ((hmem s).mpr hs), ?_⟩
  rcases h.reached with heq | ⟨s, hs, heq⟩
  · exact Or.inl heq
  · exact Or.inr ⟨s, (hmem s).mp hs, heq⟩

theorem peaked_memStep {c : SysCtx} {op : MemEnv × MemCall} (hbalanced : c.Balanced)
    (hc : c.liveBytes ≤ c.peakBytes) (hop : FairCall c op) :
    Peaked c (between c op ++ [memStep c op]) (memStep c op) := by
  obtain ⟨env, call⟩ := op
  obtain ⟨hlegal, hos, hfits⟩ := hop
  cases call with
  | alloc size alignment tag => exact peaked_sysAlloc hc env size alignment tag
  | free ptr =>
      cases ptr with
      | none => exact Peaked.refl hc
      | some ptr => exact peaked_sysFree hbalanced hc env.mutexInit hlegal
  | setDebug enabled =>
      have hstats : (hbiMemDebugSetEnabled c env.mutexInit enabled).heap.stats = c.heap.stats := by
        unfold hbiMemDebugSetEnabled debugMutex
        dsimp only
        split <;> rfl
      refine Peaked.of_le hc ?_ ?_
      · simp only [SysCtx.peakBytes, memStep, hstats]
      · simp only [SysCtx.liveBytes, memStep, hstats, le_refl]
  | write ptr offset value => exact Peaked.of_le hc rfl le_rfl
  | realloc ptr newSize alignment tag =>
      obtain ⟨hsize, ha, howns⟩ := hlegal
      cases ptr with
      | none => exact peaked_sysAlloc hc env newSize alignment tag
      | some ptr =>
          have hlive : c.heap.live ptr = true := howns
          by_cases hzero : newSize = 0
          · simp only [memStep, sysRealloc, between, if_pos hzero]
            exact peaked_sysFree hbalanced hc env.mutexInit hlive
          · have haword : reallocAlignment c ptr alignment < sizeTSize := by
              unfold reallocAlignment
              split
              · exact ha
              · exact hbalanced.placed.alignment_lt ptr
            simp only [MemCall.Fits, MemCall.Each, if_neg hzero] at hfits
            have hbalanced' := @SysCtx.Balanced.alloc c env newSize
              (reallocAlignment c ptr alignment) tag hbalanced hsize haword hos hfits.1
            have hpeaked := peaked_sysAlloc hc env newSize (reallocAlignment c ptr alignment) tag
            obtain ⟨buf, hbuf, hreleased⟩ := SysHeap.live_iff.mp hlive
            obtain ⟨hbuf', -⟩ := @sysAlloc_getElem? c env newSize
              (reallocAlignment c ptr alignment) ptr tag buf hbuf
            have hc' := hpeaked.covers _ (List.mem_singleton_self _)
            rcases sysRealloc_cases c env ptr hzero alignment tag with
              ⟨-, heq⟩ | ⟨fresh, n, -, heq⟩
            · simp only [memStep, between, if_neg hzero, heq]
              exact hpeaked.trans (Peaked.refl hc')
            · simp only [memStep, between, if_neg hzero, heq]
              refine hpeaked.trans ?_
              have hcopied : (copyBlock (sysAlloc c env newSize
                  (reallocAlignment c ptr alignment) tag).1 fresh ptr n).Balanced :=
                ⟨hbalanced'.ledger, hbalanced'.placed⟩
              obtain ⟨hmono, hcovers, hreached⟩ := peaked_sysFree hcopied hc'
                env.mutexInitAgain (SysHeap.live_iff.mpr ⟨buf, hbuf', hreleased⟩)
              exact ⟨hmono, hcovers, hreached⟩

/-- The mark of a whole run, and the states it went through. -/
theorem peaked_states {c : SysCtx} {ops : List (MemEnv × MemCall)} (hbalanced : c.Balanced)
    (hc : c.liveBytes ≤ c.peakBytes) (hops : Runs.Along memStep FairCall c ops) :
    Peaked c (states c ops) (Runs.final memStep c ops) := by
  induction ops generalizing c with
  | nil => exact Peaked.refl hc
  | cons op ops ih =>
      obtain ⟨hop, hrest⟩ := hops
      have hstep := peaked_memStep hbalanced hc hop
      have hc' := hstep.covers (memStep c op) (by simp)
      have hrun := ih (hbalanced.step hop) hc' hrest
      have hall := (Peaked.refl hc).trans (hstep.trans hrun)
      refine hall.congr fun s => ?_
      have hself : memStep c op ∈ states (memStep c op) ops := by
        cases ops with
        | nil => simp [states]
        | cons op' ops' => simp [states]
      simp only [states, List.mem_append, List.mem_cons, List.not_mem_nil, or_false]
      constructor
      · rintro (hs | (hs | rfl) | hs)
        · exact Or.inl hs
        · exact Or.inr (Or.inl hs)
        · exact Or.inr (Or.inr hself)
        · exact Or.inr (Or.inr hs)
      · rintro (hs | hs | hs)
        · exact Or.inl hs
        · exact Or.inr (Or.inl (Or.inl hs))
        · exact Or.inr (Or.inr hs)

theorem failedReallocKeeps (c : SysCtx) (op : MemEnv × MemCall) : FailedReallocKeeps c op := by
  have hrefused : ∀ env size alignment tag,
      (sysAlloc c env size alignment tag).2 = none → (sysAlloc c env size alignment tag).1 = c := by
    intro env size alignment tag hnone
    rcases sysAlloc_cases c env size alignment tag with heq | ⟨buf, -, -, -, heq⟩
    · rw [heq]
    · rw [heq] at hnone
      cases hnone
  obtain ⟨env, call⟩ := op
  cases call with
  | alloc size alignment tag => trivial
  | free ptr => trivial
  | setDebug enabled => trivial
  | write ptr offset value => trivial
  | realloc ptr newSize alignment tag =>
      intro hwhy hnone
      cases ptr with
      | none => exact hrefused env newSize alignment tag hnone
      | some ptr =>
          have hzero : newSize ≠ 0 := by
            rcases hwhy with hptr | hzero
            · cases hptr
            · exact hzero
          rcases sysRealloc_cases c env ptr hzero alignment tag with
            ⟨hrefusal, heq⟩ | ⟨fresh, n, -, heq⟩
          · simp only [memStep, heq]
            exact hrefused env newSize _ tag hrefusal
          · rw [heq] at hnone
            cases hnone

theorem fairRun {ops : List (MemEnv × MemCall)} (hlegal : LegalRun ops)
    (hapart : Runs.Along memStep (fun c op => op.1.os.ApartFrom c.heap) .fresh ops)
    (hfits : Runs.Along memStep MemCall.Fits .fresh ops) :
    Runs.Along memStep FairCall .fresh ops := by
  refine ((hlegal.and hapart).and hfits).imp ?_
  rintro c op ⟨⟨hl, ha⟩, hf⟩
  exact ⟨hl, ha, hf⟩

/-- After every run from program start whose allocations all have a rounding that fits, the
counters are exact, the peak is the largest number of live bytes of any state of the run,
and every reallocation that failed on the way changed nothing. -/
theorem stats_exact {ops : List (MemEnv × MemCall)} (hlegal : LegalRun ops)
    (hapart : Runs.Along memStep (fun c op => op.1.os.ApartFrom c.heap) .fresh ops)
    (hfits : Runs.Along memStep MemCall.Fits .fresh ops) :
    (Runs.final memStep .fresh ops).heap.Exact ∧
    IsGreatest {b | ∃ s ∈ states .fresh ops, s.heap.stats.liveBytes = b}
      (Runs.final memStep .fresh ops).heap.stats.peakBytes ∧
    Runs.Along memStep FailedReallocKeeps .fresh ops := by
  have hfair : Runs.Along memStep FairCall .fresh ops := fairRun hlegal hapart hfits
  have hfresh : SysCtx.fresh.Balanced := ⟨SysHeap.Exact.fresh, SysHeap.Placed.fresh⟩
  have hpeaked := peaked_states hfresh le_rfl hfair
  refine ⟨?_, ⟨?_, ?_⟩, ?_⟩
  · exact (Runs.final_of_along (fun c op hc hop => hc.step hop) hfresh hfair).ledger
  · rcases hpeaked.reached with hzero | ⟨s, hs, heq⟩
    · refine ⟨.fresh, ?_, hzero.symm⟩
      cases ops with
      | nil => simp [states]
      | cons op ops => simp [states]
    · exact ⟨s, hs, heq⟩
  · rintro b ⟨s, hs, rfl⟩
    exact hpeaked.covers s hs
  · exact Runs.along_of_forall failedReallocKeeps ops

theorem apartFrom_at {base : Nat} {h : SysHeap}
    (hbelow : ∀ b ∈ h.liveBuffers, b.backing.base + b.backing.bytes ≤ base) :
    (Memalign.at base).ApartFrom h := by
  intro a n base' hanswer b hb
  obtain ⟨-, hbase⟩ := Option.ite_none_right_eq_some.mp hanswer
  rw [← Option.some.inj hbase]
  exact Or.inr (hbelow b hb)

theorem apartFrom_exhausted (h : SysHeap) : Memalign.exhausted.ApartFrom h := by
  intro a n base hanswer
  cases hanswer

/-- A call during which the platform has the block at the address. -/
def envAt (base : Nat) : MemEnv := ⟨Memalign.at base, true, true, fun _ => 0⟩

/-- A call during which the platform has no memory. -/
def envExhausted : MemEnv := ⟨Memalign.exhausted, true, true, fun _ => 0⟩

/-- A buffer that is enlarged under another tag, then not enlarged once more, then freed. -/
def reallocRun : List (MemEnv × MemCall) :=
  [(envAt 4096, .alloc 100 16 .kv), (envAt 8192, .realloc (some 0) 200 0 .weights),
    (envExhausted, .realloc (some 1) 300 64 .kv), (envExhausted, .free (some 1))]

theorem stats_exact_reallocRun :
    LegalRun reallocRun ∧
    Runs.Along memStep (fun c op => op.1.os.ApartFrom c.heap) .fresh reallocRun ∧
    Runs.Along memStep MemCall.Fits .fresh reallocRun ∧
    (Runs.final memStep .fresh reallocRun).heap.Exact ∧
    IsGreatest {b | ∃ s ∈ states .fresh reallocRun, s.heap.stats.liveBytes = b} 300 := by
  have hlegal : LegalRun reallocRun := by
    unfold LegalRun
    decide +kernel
  have hapart : Runs.Along memStep (fun c op => op.1.os.ApartFrom c.heap) .fresh reallocRun := by
    refine ⟨apartFrom_at (by decide +kernel), apartFrom_at (by decide +kernel),
      apartFrom_exhausted _, apartFrom_exhausted _, trivial⟩
  have hfits : Runs.Along memStep MemCall.Fits .fresh reallocRun := by
    refine ⟨?_, ⟨?_, fun _ => trivial⟩, ⟨?_, fun _ => trivial⟩, trivial, trivial⟩
    · show RoundingFits _ _ _
      decide +kernel
    · show RoundingFits _ _ _
      decide +kernel
    · show RoundingFits _ _ _
      decide +kernel
  obtain ⟨hexact, hpeak, -⟩ := stats_exact hlegal hapart hfits
  have hmark : (Runs.final memStep .fresh reallocRun).heap.stats.peakBytes = 300 := by
    decide +kernel
  rw [hmark] at hpeak
  exact ⟨hlegal, hapart, hfits, hexact, hpeak⟩

/-- Two buffers of a size whose rounding leaves the word: each gets one byte, and the
counter of the live bytes wraps. -/
def wrappingRun : List (MemEnv × MemCall) :=
  [(envAt 4096, .alloc 18446744073709551560 16 .weights),
    (envAt 8192, .alloc 18446744073709551560 16 .weights)]

theorem stats_wrap :
    LegalRun wrappingRun ∧
    Runs.Along memStep (fun c op => op.1.os.ApartFrom c.heap) .fresh wrappingRun ∧
    (Runs.final memStep .fresh wrappingRun).heap.stats.liveBytes = 18446744073709551504 ∧
    ((Runs.final memStep .fresh wrappingRun).heap.liveBuffers.map (·.header.size)).sum =
      36893488147419103120 ∧
    ¬ (Runs.final memStep .fresh wrappingRun).heap.Exact := by
  have hlegal : LegalRun wrappingRun := by
    unfold LegalRun
    decide +kernel
  have hapart : Runs.Along memStep (fun c op => op.1.os.ApartFrom c.heap) .fresh wrappingRun :=
    ⟨apartFrom_at (by decide +kernel), apartFrom_at (by decide +kernel), trivial⟩
  have hbytes : (Runs.final memStep .fresh wrappingRun).heap.stats.liveBytes =
      18446744073709551504 := by decide +kernel
  have hsum : ((Runs.final memStep .fresh wrappingRun).heap.liveBuffers.map
      (·.header.size)).sum = 36893488147419103120 := by decide +kernel
  refine ⟨hlegal, hapart, hbytes, hsum, ?_⟩
  intro hexact
  have hledger := hexact.liveBytes
  rw [hbytes, hsum] at hledger
  exact absurd hledger (by decide)

end Hummingbird

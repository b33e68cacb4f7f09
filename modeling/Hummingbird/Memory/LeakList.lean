import Hummingbird.Memory.Ledger

/-!
The list of debug mode. A header is linked at its allocation when the mode is on then, and
unlinked at its release when the mode is on at that time; the two need not agree. The list,
its two counters and the leak check are right as long as no header that was linked is given
back while the mode is off, and the mutex of the list can be made when it is needed.
-/

namespace Hummingbird

/-- The head canary, which an allocation writes in debug mode only. -/
def SysBuffer.marked (buf : SysBuffer) : Bool := buf.header.canary = canaryHead

/-- A live buffer that was allocated in debug mode. -/
def SysHeap.tracked (h : SysHeap) (ptr : Nat) : Bool :=
  h.buffers[ptr]?.any fun buf => buf.released = [] ∧ buf.marked = true

/-- The list from the head has these nodes in this order, linked both ways, and they are
the tracked buffers; the counters are their number and their size. -/
structure SysCtx.LeakList (c : SysCtx) (l : List Nat) : Prop where
  head : c.dbgHead = l.head?
  linked : Linked.Segment c.dbgNext c.dbgPrev none l none
  nodup : l.Nodup
  mem : ∀ ptr, ptr ∈ l ↔ c.heap.tracked ptr = true
  blocks : c.dbgLiveBlocks = l.length
  bytes : c.dbgLiveBytes = (l.map c.heap.sizeAt).sum

/-- The list is right, and the leak check finds nothing exactly when it is empty. -/
def SysCtx.LeaksExact (c : SysCtx) : Prop :=
  ∃ l, c.LeakList l ∧ (hbiMemCheckLeaks c = .ok () ↔ l = [])

/-- An allocation that links its header has the mutex, or can make it. -/
def MutexServes (c : SysCtx) (env : MemEnv) (size alignment : Nat) (tag : MemTag) : Prop :=
  c.heap.debug = true → (sysAlloc c env size alignment tag).2 ≠ none →
    (c.mtxReady || env.mutexInit) = true

/-- The mode is on for a release of a marked header. -/
def ModeServes (c : SysCtx) (ptr : Nat) : Prop :=
  c.heap.buffers[ptr]?.any SysBuffer.marked = true → c.heap.debug = true

def MemCall.Tracks (c : SysCtx) (op : MemEnv × MemCall) : Prop :=
  MemCall.Each MutexServes ModeServes c op

def SysHeap.trackedBuffers (h : SysHeap) : List SysBuffer := h.liveBuffers.filter SysBuffer.marked

section Tracked

variable {h : SysHeap} {buf : SysBuffer} {ptr k : Nat}

theorem SysHeap.lt_of_tracked (htracked : h.tracked ptr = true) : ptr < h.buffers.length := by
  unfold tracked at htracked
  cases hbuf : h.buffers[ptr]? with
  | none => simp [hbuf] at htracked
  | some buf => exact (List.getElem?_eq_some_iff.mp hbuf).1

theorem SysHeap.tracked_push (hlive : buf.released = []) :
    (h.push buf).tracked k = if k = h.buffers.length then buf.marked else h.tracked k := by
  unfold tracked push
  dsimp only
  by_cases hk : k = h.buffers.length
  · subst hk
    simp [hlive]
  · rw [if_neg hk]
    by_cases hlt : k < h.buffers.length
    · rw [List.getElem?_append_left hlt]
    · have hge : h.buffers.length < k := by omega
      rw [List.getElem?_eq_none (by simp; omega), List.getElem?_eq_none (by omega)]

theorem SysHeap.tracked_hbiFree (hbuf : h.buffers[ptr]? = some buf) :
    (hbiFree h ptr).tracked k = if k = ptr then false else h.tracked k := by
  unfold tracked
  by_cases hk : k = ptr
  · subst hk
    rw [hbiFree_getElem? hbuf, if_pos rfl]
    simp [SysBuffer.release]
  · rw [hbiFree_getElem?_of_ne (Ne.symm hk), if_neg hk]

theorem SysHeap.trackedBuffers_push (hlive : buf.released = []) :
    (h.push buf).trackedBuffers = h.trackedBuffers ++ if buf.marked then [buf] else [] := by
  unfold trackedBuffers
  rw [liveBuffers_push hlive, List.filter_append]
  congr 1
  cases hmarked : buf.marked with
  | false => simp [hmarked]
  | true => simp [hmarked]

theorem SysHeap.trackedBuffers_hbiFree (hbuf : h.buffers[ptr]? = some buf)
    (hlive : buf.released = []) :
    h.trackedBuffers.Perm
      ((if buf.marked then [buf] else []) ++ (hbiFree h ptr).trackedBuffers) := by
  have hperm := (liveBuffers_hbiFree hbuf hlive).filter SysBuffer.marked
  rw [List.filter_cons] at hperm
  unfold trackedBuffers
  cases hmarked : buf.marked with
  | false => simpa [hmarked] using hperm
  | true => simpa [hmarked] using hperm

/-- The tracked pointers stand for the tracked buffers. -/
theorem SysHeap.map_tracked {β : Type} {l : List Nat} (hnodup : l.Nodup)
    (hmem : ∀ ptr, ptr ∈ l ↔ h.tracked ptr = true) (g : SysBuffer → β) (d : β) :
    (l.map fun ptr => (h.buffers[ptr]?.map g).getD d).Perm (h.trackedBuffers.map g) := by
  have hperm : l.Perm ((List.range h.buffers.length).filter h.tracked) := by
    apply (List.perm_ext_iff_of_nodup hnodup (List.nodup_range.filter _)).mpr
    intro ptr
    rw [hmem, List.mem_filter, List.mem_range]
    exact ⟨fun htracked => ⟨lt_of_tracked htracked, htracked⟩, fun h => h.2⟩
  have htable := @Table.filter_range_map SysBuffer β
    (fun buf => decide (buf.released = [] ∧ buf.marked = true)) g d h.buffers
  refine (hperm.map _).trans (List.Perm.of_eq ?_)
  rw [trackedBuffers, liveBuffers, List.filter_filter]
  refine htable.trans ?_
  congr 1
  apply List.filter_congr
  intro buf _
  simp [Bool.and_comm]

end Tracked

/-- The counters of the list agree with the tracked buffers, and the mutex exists when there
is one. -/
structure SysCtx.Counted (c : SysCtx) : Prop where
  blocks : c.dbgLiveBlocks = c.heap.trackedBuffers.length
  bytes : c.dbgLiveBytes = (c.heap.trackedBuffers.map (·.header.size)).sum
  ready : c.heap.trackedBuffers ≠ [] → c.mtxReady = true

/-- The list without its counters. -/
structure SysCtx.Threaded (c : SysCtx) (l : List Nat) : Prop where
  head : c.dbgHead = l.head?
  linked : Linked.Segment c.dbgNext c.dbgPrev none l none
  nodup : l.Nodup
  mem : ∀ ptr, ptr ∈ l ↔ c.heap.tracked ptr = true

theorem SysCtx.Threaded.length_eq {c : SysCtx} {l : List Nat} (h : c.Threaded l) :
    l.length = c.heap.trackedBuffers.length := by
  have hperm := (SysHeap.map_tracked h.nodup h.mem (fun _ => ()) ()).length_eq
  simpa using hperm

theorem SysCtx.leakList_iff {c : SysCtx} {l : List Nat} :
    c.LeakList l ↔ c.Threaded l ∧ c.dbgLiveBlocks = c.heap.trackedBuffers.length ∧
      c.dbgLiveBytes = (c.heap.trackedBuffers.map (·.header.size)).sum := by
  have hsum : ∀ ht : c.Threaded l, (l.map c.heap.sizeAt).sum =
      (c.heap.trackedBuffers.map (·.header.size)).sum :=
    fun ht => (SysHeap.map_tracked ht.nodup ht.mem (·.header.size) 0).sum_eq
  constructor
  · rintro ⟨head, linked, nodup, mem, blocks, bytes⟩
    have ht : c.Threaded l := ⟨head, linked, nodup, mem⟩
    exact ⟨ht, blocks.trans ht.length_eq, bytes.trans (hsum ht)⟩
  · rintro ⟨ht, blocks, bytes⟩
    exact ⟨ht.head, ht.linked, ht.nodup, ht.mem, blocks.trans ht.length_eq.symm,
      bytes.trans (hsum ht).symm⟩

theorem hbiMemCheckLeaks_eq_ok {c : SysCtx} :
    hbiMemCheckLeaks c = .ok () ↔ c.dbgLiveBlocks = 0 := by
  unfold hbiMemCheckLeaks
  dsimp only
  by_cases h : c.dbgLiveBlocks = 0
  · simp [h]
  · simp [h, errSet]

theorem SysCtx.leaksExact_iff {c : SysCtx} : c.LeaksExact ↔ ∃ l, c.LeakList l := by
  constructor
  · rintro ⟨l, hl, -⟩
    exact ⟨l, hl⟩
  · rintro ⟨l, hl⟩
    refine ⟨l, hl, ?_⟩
    rw [hbiMemCheckLeaks_eq_ok, hl.blocks, List.length_eq_zero_iff]

/-- What holds between calls while the list is right. -/
structure SysCtx.Tracking (c : SysCtx) : Prop where
  balanced : c.Balanced
  counted : c.Counted
  threaded : ∃ l, c.Threaded l

theorem SysCtx.Tracking.leaksExact {c : SysCtx} (h : c.Tracking) : c.LeaksExact := by
  obtain ⟨l, hl⟩ := h.threaded
  exact SysCtx.leaksExact_iff.mpr
    ⟨l, SysCtx.leakList_iff.mpr ⟨hl, h.counted.blocks, h.counted.bytes⟩⟩

theorem SysHeap.Placed.tracked_lt {h : SysHeap} (hplaced : h.Placed) :
    (h.trackedBuffers.map (·.header.size)).sum < sizeTSize ∧
      h.trackedBuffers.length < sizeTSize := by
  obtain ⟨hbytes, hblocks⟩ := hplaced.sum_lt
  have hsub : h.trackedBuffers.Sublist h.liveBuffers := List.filter_sublist
  exact ⟨lt_of_le_of_lt ((hsub.map _).sum_le_sum (by simp)) hbytes,
    lt_of_le_of_lt hsub.length_le hblocks⟩

/-- The canary of a new header tells the mode of its allocation. -/
theorem marked_of_sysLayout {os : Memalign} {debug : Bool} {size alignment : Nat} {tag : MemTag}
    {buf : SysBuffer} (hok : sysLayout os debug size alignment tag = .ok buf) :
    buf.released = [] ∧ buf.marked = debug := by
  have hbuf : ∃ alignment b, buf = sysBuffer debug size alignment tag b := by
    unfold sysLayout at hok
    split at hok
    · cases hok
    · split at hok
      · cases hok
      · split at hok
        · cases hok
        · split at hok
          · cases hok
          · cases hok
            exact ⟨_, _, rfl⟩
  obtain ⟨alignment', b, rfl⟩ := hbuf
  refine ⟨rfl, ?_⟩
  cases debug with
  | false => rfl
  | true => rfl

namespace SysCtx

variable {c : SysCtx} {env : MemEnv} {size alignment ptr : Nat} {tag : MemTag} {l : List Nat}
  {buf : SysBuffer}

theorem Threaded.notMem (h : c.Threaded l) : c.heap.buffers.length ∉ l := by
  intro hmem
  exact absurd (SysHeap.lt_of_tracked ((h.mem _).mp hmem)) (lt_irrefl _)

/-- A new header is nobody's neighbour. -/
theorem Threaded.newBlock (h : c.Threaded l) (heap : SysHeap) (garbage : Nat → UInt8) :
    Linked.Segment (newBlock c heap c.heap.buffers.length garbage).dbgNext
      (newBlock c heap c.heap.buffers.length garbage).dbgPrev none l none := by
  have hne : ∀ ptr ∈ l, ptr ≠ c.heap.buffers.length := by
    rintro ptr hmem rfl
    exact h.notMem hmem
  apply h.linked.congr
  · intro ptr hmem
    exact Function.update_of_ne (hne ptr hmem) _ _
  · intro ptr hmem
    exact Function.update_of_ne (hne ptr hmem) _ _

theorem Threaded.mem_push (h : c.Threaded l) (hlive : buf.released = []) (k : Nat) :
    (if buf.marked then k ∈ c.heap.buffers.length :: l else k ∈ l) ↔
      (c.heap.push buf).tracked k = true := by
  rw [SysHeap.tracked_push hlive]
  have hnot := h.notMem
  cases hmarked : buf.marked with
  | false =>
      by_cases hk : k = c.heap.buffers.length
      · subst hk
        simp [hnot]
      · simp [hk, h.mem]
  | true =>
      by_cases hk : k = c.heap.buffers.length
      · subst hk
        simp
      · simp [hk, h.mem]

/-- Outside of debug mode a new buffer is not tracked. -/
theorem tracking_unlinked (garbage : Nat → UInt8) (hcounted : c.Counted) (hthreaded : c.Threaded l)
    (hlive : buf.released = []) (hmarked : buf.marked = false) :
    (newBlock c (c.heap.push buf) c.heap.buffers.length garbage).Counted ∧
      (newBlock c (c.heap.push buf) c.heap.buffers.length garbage).Threaded l := by
  have htracked : (c.heap.push buf).trackedBuffers = c.heap.trackedBuffers := by
    rw [SysHeap.trackedBuffers_push hlive, hmarked]
    simp
  have hmem := hthreaded.mem_push hlive
  simp only [hmarked, Bool.false_eq_true, if_false] at hmem
  constructor
  · refine ⟨?_, ?_, ?_⟩
    · exact hcounted.blocks.trans (congrArg _ htracked.symm)
    · exact hcounted.bytes.trans (by rw [← htracked]; rfl)
    · intro hne
      exact hcounted.ready (htracked ▸ hne)
  · exact ⟨hthreaded.head, hthreaded.newBlock _ _, hthreaded.nodup, hmem⟩

/-- In debug mode it becomes the head of the list. -/
theorem tracking_linked (garbage : Nat → UInt8) (hcounted : c.Counted) (hthreaded : c.Threaded l)
    (hlive : buf.released = []) (hmarked : buf.marked = true) {mutexInit : Bool}
    (hmutex : (c.mtxReady || mutexInit) = true) (hplaced : (c.heap.push buf).Placed) :
    (debugLink (newBlock c (c.heap.push buf) c.heap.buffers.length garbage) mutexInit
        c.heap.buffers.length buf.header.size).Counted ∧
      (debugLink (newBlock c (c.heap.push buf) c.heap.buffers.length garbage) mutexInit
        c.heap.buffers.length buf.header.size).Threaded (c.heap.buffers.length :: l) := by
  have htracked : (c.heap.push buf).trackedBuffers = c.heap.trackedBuffers ++ [buf] := by
    rw [SysHeap.trackedBuffers_push hlive, hmarked]
    simp
  obtain ⟨hbytes, hblocks⟩ := hplaced.tracked_lt
  rw [htracked] at hbytes hblocks
  simp only [List.map_append, List.map_cons, List.map_nil, List.sum_append, List.sum_cons,
    List.sum_nil, List.length_append, List.length_cons, List.length_nil] at hbytes hblocks
  have hmem := hthreaded.mem_push hlive
  simp only [hmarked, if_true] at hmem
  have hseg := Linked.segment_link (hthreaded.newBlock (c.heap.push buf) garbage)
    hthreaded.nodup hthreaded.notMem
  rw [← hthreaded.head] at hseg
  unfold debugLink debugMutex
  dsimp only
  rw [if_pos (by exact hmutex)]
  constructor
  · refine ⟨?_, ?_, ?_⟩
    · dsimp only [Hummingbird.newBlock]
      rw [htracked, hcounted.blocks, fetchAdd_of_lt (by omega)]
      simp
    · dsimp only [Hummingbird.newBlock]
      rw [htracked, hcounted.bytes, fetchAdd_of_lt (by omega)]
      simp
    · intro _
      exact hmutex
  · exact ⟨rfl, hseg, List.nodup_cons.mpr ⟨hthreaded.notMem, hthreaded.nodup⟩,
      hmem⟩

theorem Tracking.alloc (h : c.Tracking) (hsize : size < sizeTSize) (halign : alignment < sizeTSize)
    (hos : env.os.ApartFrom c.heap) (hfits : RoundingFits c.heap.debug size alignment)
    (hmutex : MutexServes c env size alignment tag) :
    (sysAlloc c env size alignment tag).1.Tracking := by
  have hbalanced := @Balanced.alloc c env size alignment tag h.balanced hsize halign hos hfits
  obtain ⟨l, hl⟩ := h.threaded
  rcases sysAlloc_cases c env size alignment tag with heq | ⟨buf, hok, -, -, heq⟩
  · rw [heq]
    exact h
  · obtain ⟨hlive, hmarked⟩ := marked_of_sysLayout hok
    have hplaced := h.balanced.placed.push hok hsize halign hfits hos
    unfold MutexServes at hmutex
    rw [heq] at hbalanced hmutex ⊢
    cases hdebug : c.heap.debug with
    | false =>
        rw [hdebug] at hmarked hbalanced
        obtain ⟨hcounted, hthreaded⟩ := tracking_unlinked env.garbage h.counted hl
          hlive hmarked
        exact ⟨hbalanced, hcounted, l, hthreaded⟩
    | true =>
        rw [hdebug] at hmarked hbalanced
        obtain ⟨hcounted, hthreaded⟩ := tracking_linked env.garbage h.counted hl
          hlive hmarked (hmutex hdebug (by simp)) hplaced
        exact ⟨hbalanced, hcounted, _, hthreaded⟩

/-- A release that is not made in debug mode of a marked buffer does not touch the list. -/
theorem sysFree_unlinked (hbuf : c.heap.buffers[ptr]? = some buf)
    (hnot : ¬ (c.heap.debug = true ∧ buf.marked = true)) (mutexInit : Bool) :
    sysFree c mutexInit (some ptr) = { c with heap := hbiFree c.heap ptr } := by
  have hguard : (c.heap.debug && decide (buf.header.canary = canaryHead)) = false := by
    unfold SysBuffer.marked at hnot
    rw [← Bool.and_eq_true, Bool.not_eq_true] at hnot
    exact hnot
  simp [sysFree, hbuf, hguard]

/-- A release of an unmarked buffer does not touch the list. -/
theorem tracking_free_unmarked (hcounted : c.Counted) (hthreaded : c.Threaded l)
    (hbuf : c.heap.buffers[ptr]? = some buf) (hlive : buf.released = [])
    (hmarked : buf.marked = false) (mutexInit : Bool) :
    (sysFree c mutexInit (some ptr)).Counted ∧ (sysFree c mutexInit (some ptr)).Threaded l := by
  have hperm := SysHeap.trackedBuffers_hbiFree hbuf hlive
  rw [hmarked] at hperm
  simp only [Bool.false_eq_true, if_false, List.nil_append] at hperm
  rw [sysFree_unlinked hbuf (by simp [hmarked])]
  constructor
  · refine ⟨hcounted.blocks.trans hperm.length_eq, hcounted.bytes.trans (hperm.map _).sum_eq, ?_⟩
    intro hne
    apply hcounted.ready
    intro hnil
    rw [hnil] at hperm
    exact hne hperm.nil_eq.symm
  · refine ⟨hthreaded.head, hthreaded.linked, hthreaded.nodup, ?_⟩
    intro k
    rw [hthreaded.mem, SysHeap.tracked_hbiFree hbuf]
    by_cases hk : k = ptr
    · subst hk
      simp [SysHeap.tracked, hbuf, hmarked]
    · rw [if_neg hk]

theorem tracked_of_marked (hbuf : c.heap.buffers[ptr]? = some buf) (hlive : buf.released = [])
    (hmarked : buf.marked = true) : c.heap.tracked ptr = true := by
  simp [SysHeap.tracked, hbuf, hlive, hmarked]

/-- A release of a marked buffer in debug mode takes its header out of the list. -/
theorem tracking_free_marked (hbalanced : c.Balanced) (hcounted : c.Counted)
    (hthreaded : c.Threaded l) (hbuf : c.heap.buffers[ptr]? = some buf)
    (hlive : buf.released = []) (hmarked : buf.marked = true) (hdebug : c.heap.debug = true)
    (mutexInit : Bool) :
    (sysFree c mutexInit (some ptr)).Counted ∧
      ∃ l', (sysFree c mutexInit (some ptr)).Threaded l' := by
  have hperm := SysHeap.trackedBuffers_hbiFree hbuf hlive
  rw [hmarked, if_pos rfl, List.singleton_append] at hperm
  obtain ⟨hbytes, hblocks⟩ := hbalanced.placed.tracked_lt
  have hready : c.mtxReady = true := by
    apply hcounted.ready
    intro hnil
    rw [hnil] at hperm
    exact absurd hperm.nil_eq (by simp)
  have heq : sysFree c mutexInit (some ptr) =
      { debugUnlink c mutexInit ptr buf.header.size with heap := hbiFree c.heap ptr } := by
    unfold SysBuffer.marked at hmarked
    have hheap := debugUnlink_heap c mutexInit ptr buf.header.size
    simp only [sysFree, hbuf, hdebug, hmarked, Bool.and_self, if_true, hheap]
  have hmem := (hthreaded.mem ptr).mpr (tracked_of_marked hbuf hlive hmarked)
  obtain ⟨l₁, l₂, rfl⟩ := List.append_of_mem hmem
  obtain ⟨hprev, hnext⟩ := Linked.links_of_segment hthreaded.linked
  have hseg := Linked.segment_unlink hthreaded.linked hthreaded.nodup
  have hnodup := hthreaded.nodup
  rw [List.nodup_middle] at hnodup
  obtain ⟨hnot, hnodup⟩ := List.nodup_cons.mp hnodup
  rw [heq]
  unfold debugUnlink debugMutex
  simp only [hready, Bool.true_or, if_true]
  constructor
  · refine ⟨?_, ?_, ?_⟩
    · apply fetchSub_of_le
      · rw [hcounted.blocks]
        exact hblocks
      · rw [hcounted.blocks, hperm.length_eq, List.length_cons]
    · apply fetchSub_of_le
      · rw [hcounted.bytes]
        exact hbytes
      · rw [hcounted.bytes, (hperm.map _).sum_eq, List.map_cons, List.sum_cons, Nat.add_comm]
    · intro _
      rfl
  · refine ⟨l₁ ++ l₂, ?_, hseg, hnodup, ?_⟩
    · dsimp only
      rw [hprev, hnext, hthreaded.head]
      cases l₁ with
      | nil => simp
      | cons x xs => simp [List.getLast?_cons]
    · intro k
      dsimp only
      rw [SysHeap.tracked_hbiFree hbuf]
      have hall := hthreaded.mem k
      rw [List.mem_append, List.mem_cons] at hall
      by_cases hk : k = ptr
      · subst hk
        simpa using hnot
      · rw [if_neg hk, ← hall, List.mem_append]
        tauto

theorem Tracking.free (h : c.Tracking) (mutexInit : Bool) (hlive : c.heap.live ptr = true)
    (hmode : ModeServes c ptr) :
    (sysFree c mutexInit (some ptr)).Tracking := by
  have hbalanced := h.balanced.free mutexInit hlive
  obtain ⟨buf, hbuf, hreleased⟩ := SysHeap.live_iff.mp hlive
  obtain ⟨l, hl⟩ := h.threaded
  cases hmarked : buf.marked with
  | false =>
      obtain ⟨hcounted, hthreaded⟩ := tracking_free_unmarked h.counted hl hbuf hreleased hmarked
        mutexInit
      exact ⟨hbalanced, hcounted, l, hthreaded⟩
  | true =>
      have hdebug := hmode (by simp [hbuf, hmarked])
      obtain ⟨hcounted, hthreaded⟩ := tracking_free_marked h.balanced h.counted hl hbuf hreleased
        hmarked hdebug mutexInit
      exact ⟨hbalanced, hcounted, hthreaded⟩

theorem Tracking.setDebug (h : c.Tracking) (mutexInit enabled : Bool) :
    (hbiMemDebugSetEnabled c mutexInit enabled).Tracking := by
  have hbalanced := h.balanced.setDebug mutexInit enabled
  obtain ⟨l, hl⟩ := h.threaded
  refine ⟨hbalanced, ?_, l, ?_⟩
  · cases enabled with
    | false => exact ⟨h.counted.blocks, h.counted.bytes, h.counted.ready⟩
    | true =>
        refine ⟨h.counted.blocks, h.counted.bytes, fun hne => ?_⟩
        have hready := h.counted.ready hne
        simp [hbiMemDebugSetEnabled, debugMutex, hready]
  · cases enabled with
    | false => exact ⟨hl.head, hl.linked, hl.nodup, hl.mem⟩
    | true => exact ⟨hl.head, hl.linked, hl.nodup, hl.mem⟩

theorem Tracking.step {op : MemEnv × MemCall} (h : c.Tracking) (hop : FairCall c op)
    (htracks : MemCall.Tracks c op) : (memStep c op).Tracking := by
  have heach : MemCall.Each (fun c env size alignment tag => env.os.ApartFrom c.heap ∧
      RoundingFits c.heap.debug size alignment ∧ MutexServes c env size alignment tag)
      ModeServes c op :=
    (hop.fits.and htracks).imp (fun _ _ _ hA => ⟨hop.apart, hA⟩) fun _ hF => hF.2
  refine memStep_keeps ?_ ?_ ?_ ?_ ?_ ?_ h hop.legal heach
  · intro c env size a tag hc hsize ha hA
    exact hc.alloc hsize ha hA.1 hA.2.1 hA.2.2
  · intro c mutexInit ptr hc hlive hF
    exact hc.free mutexInit hlive hF
  · intro c mutexInit enabled hc
    exact hc.setDebug mutexInit enabled
  · intro c contents hc
    obtain ⟨l, hl⟩ := hc.threaded
    exact ⟨⟨hc.balanced.ledger, hc.balanced.placed⟩,
      ⟨hc.counted.blocks, hc.counted.bytes, hc.counted.ready⟩,
      l, ⟨hl.head, hl.linked, hl.nodup, hl.mem⟩⟩
  · intro c ptr hc
    exact hc.balanced.placed.alignment_lt ptr
  · intro c c' ptr hbuf hdebug hF
    unfold ModeServes
    rw [hbuf, hdebug]
    exact hF

theorem LeaksExact.blocks (h : c.LeaksExact) :
    c.dbgLiveBlocks = c.heap.trackedBuffers.length := by
  obtain ⟨l, hl⟩ := leaksExact_iff.mp h
  exact (leakList_iff.mp hl).2.1

/-- A header that finds no mutex is tracked by nobody. -/
theorem alloc_uncounted (hnot : ¬ MutexServes c env size alignment tag) :
    c.heap.debug = true ∧ c.mtxReady = false ∧
    (sysAlloc c env size alignment tag).1.dbgLiveBlocks = c.dbgLiveBlocks ∧
    (sysAlloc c env size alignment tag).1.heap.trackedBuffers.length =
      c.heap.trackedBuffers.length + 1 := by
  unfold MutexServes at hnot
  push Not at hnot
  obtain ⟨hdebug, hserved, hmutex⟩ := hnot
  have hmutex : (c.mtxReady || env.mutexInit) = false := by simpa using hmutex
  have hready : c.mtxReady = false := (Bool.or_eq_false_iff.mp hmutex).1
  rcases sysAlloc_cases c env size alignment tag with heq | ⟨buf, hok, -, -, heq⟩
  · rw [heq] at hserved
    exact absurd rfl hserved
  · obtain ⟨hlive, hmarked⟩ := marked_of_sysLayout hok
    have hlink : ∀ ptr size garbage, debugLink (Hummingbird.newBlock c (c.heap.push buf)
        c.heap.buffers.length garbage) env.mutexInit ptr size =
        debugMutex (Hummingbird.newBlock c (c.heap.push buf) c.heap.buffers.length garbage)
          env.mutexInit := by
      intro ptr size garbage
      unfold debugLink
      have hno : (debugMutex (Hummingbird.newBlock c (c.heap.push buf) c.heap.buffers.length
          garbage) env.mutexInit).mtxReady = false := hmutex
      dsimp only
      rw [hno]
      simp
    rw [heq, if_pos hdebug, hlink]
    refine ⟨hdebug, hready, rfl, ?_⟩
    show (c.heap.push buf).trackedBuffers.length = _
    rw [SysHeap.trackedBuffers_push hlive, hmarked, hdebug]
    simp

/-- Outside of debug mode an allocation changes nothing about the list. -/
theorem alloc_untracked (hdebug : c.heap.debug = false) :
    (sysAlloc c env size alignment tag).1.dbgLiveBlocks = c.dbgLiveBlocks ∧
    (sysAlloc c env size alignment tag).1.heap.trackedBuffers = c.heap.trackedBuffers := by
  rcases sysAlloc_cases c env size alignment tag with heq | ⟨buf, hok, -, -, heq⟩
  · rw [heq]
    exact ⟨rfl, rfl⟩
  · obtain ⟨hlive, hmarked⟩ := marked_of_sysLayout hok
    rw [heq, hdebug, if_neg Bool.false_ne_true]
    refine ⟨rfl, ?_⟩
    show (c.heap.push buf).trackedBuffers = _
    rw [SysHeap.trackedBuffers_push hlive, hmarked, hdebug]
    simp

/-- A marked header that is given back outside of debug mode stays counted. -/
theorem free_uncounted (hlive : c.heap.live ptr = true) (hnot : ¬ ModeServes c ptr)
    (mutexInit : Bool) :
    (sysFree c mutexInit (some ptr)).dbgLiveBlocks = c.dbgLiveBlocks ∧
    c.heap.trackedBuffers.length =
      (sysFree c mutexInit (some ptr)).heap.trackedBuffers.length + 1 := by
  obtain ⟨buf, hbuf, hreleased⟩ := SysHeap.live_iff.mp hlive
  unfold ModeServes at hnot
  push Not at hnot
  obtain ⟨hmarked, hdebug⟩ := hnot
  have hmarked : buf.marked = true := by simpa [hbuf] using hmarked
  have hperm := SysHeap.trackedBuffers_hbiFree hbuf hreleased
  rw [hmarked, if_pos rfl, List.singleton_append] at hperm
  rw [sysFree_unlinked hbuf (fun h => hdebug h.1)]
  exact ⟨rfl, hperm.length_eq⟩

theorem free_untracked (hbuf : c.heap.buffers[ptr]? = some buf) (hlive : buf.released = [])
    (hmarked : buf.marked = false) (mutexInit : Bool) :
    (sysFree c mutexInit (some ptr)).dbgLiveBlocks = c.dbgLiveBlocks ∧
    (sysFree c mutexInit (some ptr)).heap.trackedBuffers.length =
      c.heap.trackedBuffers.length := by
  have hperm := SysHeap.trackedBuffers_hbiFree hbuf hlive
  rw [hmarked] at hperm
  simp only [Bool.false_eq_true, if_false, List.nil_append] at hperm
  rw [sysFree_unlinked hbuf (by simp [hmarked])]
  exact ⟨rfl, hperm.length_eq.symm⟩

/-- The same for a reallocation that gives a marked header back, after an allocation that
marks nothing. -/
theorem realloc_uncounted_free {newSize n fresh : Nat} (hlive : c.heap.live ptr = true)
    (hF : ¬ ModeServes c ptr) (mutexInit : Bool) :
    (sysFree (copyBlock (sysAlloc c env newSize alignment tag).1 fresh ptr n) mutexInit
      (some ptr)).dbgLiveBlocks = c.dbgLiveBlocks ∧
    c.heap.trackedBuffers.length =
      (sysFree (copyBlock (sysAlloc c env newSize alignment tag).1 fresh ptr n) mutexInit
        (some ptr)).heap.trackedBuffers.length + 1 := by
  obtain ⟨buf, hbuf, hreleased⟩ := SysHeap.live_iff.mp hlive
  obtain ⟨hbuf', hmode⟩ := @sysAlloc_getElem? c env newSize alignment ptr tag buf hbuf
  have hdebug : c.heap.debug = false := by
    unfold ModeServes at hF
    push Not at hF
    simpa using hF.2
  obtain ⟨hblocks, htracked⟩ := @alloc_untracked c env newSize alignment tag hdebug
  have hF' : ¬ ModeServes (copyBlock (sysAlloc c env newSize alignment tag).1 fresh ptr n) ptr := by
    unfold ModeServes at hF ⊢
    simp only [copyBlock]
    rw [hbuf', hmode, ← hbuf]
    exact hF
  have hlive' : (copyBlock (sysAlloc c env newSize alignment tag).1 fresh ptr n).heap.live ptr =
      true := SysHeap.live_iff.mpr ⟨buf, hbuf', hreleased⟩
  obtain ⟨hblocks', hlen⟩ := free_uncounted hlive' hF' mutexInit
  refine ⟨hblocks'.trans hblocks, ?_⟩
  rw [← htracked]
  exact hlen

/-- A reallocation that finds no mutex has no marked header to give back. -/
theorem Tracking.realloc_uncounted_alloc (h : c.Tracking) {newSize n fresh : Nat}
    (hlive : c.heap.live ptr = true) (hnot : ¬ MutexServes c env newSize alignment tag)
    (mutexInit : Bool) :
    (sysFree (copyBlock (sysAlloc c env newSize alignment tag).1 fresh ptr n) mutexInit
      (some ptr)).dbgLiveBlocks = c.dbgLiveBlocks ∧
    (sysFree (copyBlock (sysAlloc c env newSize alignment tag).1 fresh ptr n) mutexInit
      (some ptr)).heap.trackedBuffers.length = c.heap.trackedBuffers.length + 1 := by
  obtain ⟨-, hready, hblocks, hlen⟩ := alloc_uncounted hnot
  obtain ⟨buf, hbuf, hreleased⟩ := SysHeap.live_iff.mp hlive
  obtain ⟨hbuf', -⟩ := @sysAlloc_getElem? c env newSize alignment ptr tag buf hbuf
  have hunmarked : buf.marked = false := by
    by_contra hmarked
    rw [Bool.not_eq_false] at hmarked
    have hmem : buf ∈ c.heap.trackedBuffers := by
      have hin := List.mem_of_getElem? hbuf
      simp [SysHeap.trackedBuffers, SysHeap.liveBuffers, hin, hreleased, hmarked]
    have hmutex := h.counted.ready (List.ne_nil_of_mem hmem)
    rw [hready] at hmutex
    cases hmutex
  have hcopied : (copyBlock (sysAlloc c env newSize alignment tag).1 fresh ptr
      n).heap.buffers[ptr]? = some buf := hbuf'
  obtain ⟨hblocks', hlen'⟩ := free_untracked hcopied hreleased hunmarked mutexInit
  exact ⟨hblocks'.trans hblocks, hlen'.trans hlen⟩

/-- A call that breaks the condition leaves a wrong count behind. -/
theorem Tracking.uncounted {op : MemEnv × MemCall} (h : c.Tracking) (hlegal : op.2.Legal c)
    (hnot : ¬ MemCall.Tracks c op) :
    (memStep c op).dbgLiveBlocks ≠ (memStep c op).heap.trackedBuffers.length := by
  have hcount := h.counted.blocks
  obtain ⟨env, call⟩ := op
  cases call with
  | alloc size alignment tag =>
      obtain ⟨-, -, hblocks, hlen⟩ := alloc_uncounted hnot
      simp only [memStep]
      omega
  | free ptr =>
      cases ptr with
      | none => exact absurd trivial hnot
      | some ptr =>
          obtain ⟨hblocks, hlen⟩ := free_uncounted hlegal hnot env.mutexInit
          simp only [memStep]
          omega
  | setDebug enabled => exact absurd trivial hnot
  | write ptr offset value => exact absurd trivial hnot
  | realloc ptr newSize alignment tag =>
      cases ptr with
      | none =>
          obtain ⟨-, -, hblocks, hlen⟩ := alloc_uncounted hnot
          simp only [memStep, sysRealloc]
          omega
      | some ptr =>
          have hlive : c.heap.live ptr = true := hlegal.2.2
          simp only [MemCall.Tracks, MemCall.Each] at hnot
          by_cases hzero : newSize = 0
          · rw [if_pos hzero] at hnot
            obtain ⟨hblocks, hlen⟩ := free_uncounted hlive hnot env.mutexInit
            simp only [memStep, sysRealloc, if_pos hzero]
            omega
          · rw [if_neg hzero, not_and_or, Classical.not_imp] at hnot
            rcases sysRealloc_cases c env ptr hzero alignment tag with
              ⟨hrefused, -⟩ | ⟨fresh, n, -, heq⟩
            · rcases hnot with hmutex | ⟨hserved, -⟩
              · exact absurd (fun _ hserved => absurd hrefused hserved) hmutex
              · exact absurd hrefused hserved
            · simp only [memStep, heq]
              rcases hnot with hmutex | ⟨-, hF⟩
              · obtain ⟨hblocks, hlen⟩ := @realloc_uncounted_alloc c env _ ptr tag h newSize n
                  fresh hlive hmutex env.mutexInitAgain
                omega
              · obtain ⟨hblocks, hlen⟩ := @realloc_uncounted_free c env
                  (reallocAlignment c ptr alignment) ptr tag newSize n fresh hlive hF
                  env.mutexInitAgain
                omega

theorem Tracking.fresh : SysCtx.fresh.Tracking :=
  ⟨⟨SysHeap.Exact.fresh, SysHeap.Placed.fresh⟩, ⟨rfl, rfl, fun hne => absurd rfl hne⟩,
    [], ⟨rfl, trivial, List.nodup_nil, fun ptr => by simp [SysHeap.tracked, SysCtx.fresh,
      SysHeap.fresh]⟩⟩

end SysCtx

/-- In every run from program start whose roundings fit: the list of debug mode, its counters
and the leak check are right after every call exactly when every call finds the mutex for
the header it links and the mode on for the marked header it gives back. -/
theorem leak_list_iff {ops : List (MemEnv × MemCall)} (hlegal : LegalRun ops)
    (hapart : Runs.Along memStep (fun c op => op.1.os.ApartFrom c.heap) .fresh ops)
    (hfits : Runs.Along memStep MemCall.Fits .fresh ops) :
    Runs.Along memStep (fun c op => (memStep c op).LeaksExact) .fresh ops ↔
      Runs.Along memStep MemCall.Tracks .fresh ops := by
  have hfair : Runs.Along memStep FairCall .fresh ops := fairRun hlegal hapart hfits
  refine Runs.along_iff (fun c op h hop => ?_) (fun c op h hop htracks => h.step hop htracks)
    SysCtx.Tracking.fresh hfair
  constructor
  · intro hexact
    by_contra hnot
    exact h.uncounted hop.legal hnot hexact.blocks
  · intro htracks
    exact (h.step hop htracks).leaksExact

/-- A buffer that is tracked, one that is not, and the tracked one given back. -/
def trackedRun : List (MemEnv × MemCall) :=
  [(envExhausted, .setDebug true), (envAt 4096, .alloc 100 16 .kv),
    (envExhausted, .setDebug false), (envAt 8192, .alloc 50 16 .kv),
    (envExhausted, .setDebug true), (envExhausted, .free (some 0))]

theorem leak_list_iff_trackedRun :
    LegalRun trackedRun ∧
    Runs.Along memStep (fun c op => op.1.os.ApartFrom c.heap) .fresh trackedRun ∧
    Runs.Along memStep MemCall.Fits .fresh trackedRun ∧
    Runs.Along memStep (fun c op => (memStep c op).LeaksExact) .fresh trackedRun := by
  have hlegal : LegalRun trackedRun := by
    unfold LegalRun
    decide +kernel
  have hapart : Runs.Along memStep (fun c op => op.1.os.ApartFrom c.heap) .fresh trackedRun :=
    ⟨apartFrom_exhausted _, apartFrom_at (by decide +kernel), apartFrom_exhausted _,
      apartFrom_at (by decide +kernel), apartFrom_exhausted _, apartFrom_exhausted _, trivial⟩
  have hfits : Runs.Along memStep MemCall.Fits .fresh trackedRun := by
    refine ⟨trivial, ?_, trivial, ?_, trivial, trivial, trivial⟩
    · show RoundingFits _ _ _
      decide +kernel
    · show RoundingFits _ _ _
      decide +kernel
  have htracks : Runs.Along memStep MemCall.Tracks .fresh trackedRun :=
    ⟨trivial, fun _ _ => Bool.or_true _, trivial, fun _ _ => Bool.or_true _, trivial,
      fun _ => rfl, trivial⟩
  exact ⟨hlegal, hapart, hfits, (leak_list_iff hlegal hapart hfits).mpr htracks⟩

/-- A buffer that is tracked and given back after the mode was switched off. -/
def danglingRun : List (MemEnv × MemCall) :=
  [(envExhausted, .setDebug true), (envAt 4096, .alloc 100 16 .kv),
    (envExhausted, .setDebug false), (envExhausted, .free (some 0))]

/-- A buffer that is allocated in debug mode without a mutex. -/
def unlinkedRun : List (MemEnv × MemCall) :=
  [(⟨Memalign.exhausted, false, false, fun _ => 0⟩, .setDebug true),
    (⟨Memalign.at 4096, false, false, fun _ => 0⟩, .alloc 100 16 .kv)]

/-- In the first run the list keeps a freed header and a leak is reported where nothing is
live; in the second nothing is reported although the buffer is live. -/
theorem leak_list_dangles :
    LegalRun danglingRun ∧
    (Runs.final memStep .fresh danglingRun).dbgHead = some 0 ∧
    (Runs.final memStep .fresh danglingRun).heap.live 0 = false ∧
    hbiMemCheckLeaks (Runs.final memStep .fresh danglingRun) ≠ .ok () ∧
    ¬ (Runs.final memStep .fresh danglingRun).LeaksExact ∧
    LegalRun unlinkedRun ∧
    hbiMemCheckLeaks (Runs.final memStep .fresh unlinkedRun) = .ok () ∧
    ¬ (Runs.final memStep .fresh unlinkedRun).LeaksExact := by
  refine ⟨?_, ?_, ?_, ?_, ?_, ?_, ?_, ?_⟩
  · unfold LegalRun
    decide +kernel
  · decide +kernel
  · decide +kernel
  · rw [ne_eq, hbiMemCheckLeaks_eq_ok]
    decide +kernel
  · intro hexact
    exact absurd hexact.blocks (by decide +kernel)
  · unfold LegalRun
    decide +kernel
  · rw [hbiMemCheckLeaks_eq_ok]
    decide +kernel
  · intro hexact
    exact absurd hexact.blocks (by decide +kernel)

end Hummingbird

import Hummingbird.Foundation.Intervals
import Hummingbird.Foundation.Table
import Hummingbird.Kv.Accounting
import Hummingbird.Kv.Table

/-!
The statistics against what the manager holds. Bytes are counted modulo the size of a
`size_t`; the tensors of the live contexts lie apart in one address space, so that the sum
itself is what is counted.
-/

namespace Hummingbird

open SwapRemove

/-- The bytes of the tensors of a page. -/
def KvPage.nbytes (p : KvPage) : Nat := p.kTensor.nbytes + p.vTensor.nbytes

def ContextHandle.nbytes (ctx : ContextHandle) : Nat := (ctx.pages.map KvPage.nbytes).sum

/-- The bytes of the context behind a handle, if it is live. -/
def heldBytes (slot : Option ContextHandle) : Nat := slot.elim 0 ContextHandle.nbytes

/-- The bytes of the tensors of all live contexts. -/
def KvManager.memoryBytes (mgr : KvManager) : Nat := (mgr.heap.map heldBytes).sum

def KvPage.tensorList (p : KvPage) : List Tensor := [p.kTensor, p.vTensor]

def ContextHandle.tensorList (ctx : ContextHandle) : List Tensor :=
  ctx.pages.flatMap KvPage.tensorList

/-- The tensors of all live contexts. -/
def KvManager.tensorList (mgr : KvManager) : List Tensor :=
  mgr.heap.flatMap fun slot => slot.elim [] ContextHandle.tensorList

/-- The tensors of the live contexts lie apart, each within the address space. -/
structure KvManager.Placed (mgr : KvManager) : Prop where
  apart : mgr.tensorList.Pairwise (Intervals.Apart (fun t => t.data.toNat) Tensor.nbytes)
  fits : ∀ t ∈ mgr.tensorList, t.data.toNat + t.nbytes < sizeTSize

instance (mgr : KvManager) : Decidable mgr.Placed :=
  decidable_of_iff
    (mgr.tensorList.Pairwise (Intervals.Apart (fun t => t.data.toNat) Tensor.nbytes) ∧
      ∀ t ∈ mgr.tensorList, t.data.toNat + t.nbytes < sizeTSize)
    ⟨fun h => ⟨h.1, h.2⟩, fun h => ⟨h.apart, h.fits⟩⟩

theorem KvManager.sum_tensorList (mgr : KvManager) :
    (mgr.tensorList.map Tensor.nbytes).sum = mgr.memoryBytes := by
  have hpages : ∀ pages : List KvPage,
      ((pages.flatMap KvPage.tensorList).map Tensor.nbytes).sum =
        (pages.map KvPage.nbytes).sum := by
    intro pages
    induction pages with
    | nil => rfl
    | cons p pages ih =>
        rw [List.flatMap_cons, List.map_append, List.sum_append, ih, List.map_cons, List.sum_cons]
        simp [KvPage.tensorList, KvPage.nbytes]
  unfold KvManager.tensorList KvManager.memoryBytes
  induction mgr.heap with
  | nil => rfl
  | cons slot slots ih =>
      rw [List.flatMap_cons, List.map_append, List.sum_append, ih, List.map_cons, List.sum_cons]
      congr 1
      cases slot with
      | none => rfl
      | some ctx => exact hpages ctx.pages

theorem KvManager.Placed.memoryBytes_lt {mgr : KvManager} (h : mgr.Placed) :
    mgr.memoryBytes < sizeTSize := by
  have hpos : 0 < sizeTSize := by decide
  have hle := Intervals.sum_le_of_apart h.apart fun t ht => Nat.le_sub_one_of_lt (h.fits t ht)
  rw [mgr.sum_tensorList] at hle
  omega

theorem ContextHandle.SinglePage.pagesBytes_eq {ctx : ContextHandle} (h : ctx.SinglePage) :
    pagesBytes ctx.pages ctx.state.numPages = ctx.nbytes % sizeTSize := by
  obtain ⟨p, hp⟩ := List.length_eq_one_iff.mp h.pages
  unfold ContextHandle.nbytes pagesBytes
  rw [hp, h.numPages]
  simp [KvPage.nbytes]

theorem ContextHandle.SameSpace.nbytes_eq {ctx ctx' : ContextHandle} (h : ctx.SameSpace ctx') :
    ctx'.nbytes = ctx.nbytes := by
  have hmap : ∀ pages : List KvPage, pages.map KvPage.nbytes =
      (pages.map KvPage.tensors).map fun ts => ts.1.nbytes + ts.2.nbytes := by
    intro pages
    rw [List.map_map]
    rfl
  unfold ContextHandle.nbytes
  rw [hmap, hmap, h.tensors]

theorem ContextHandle.SameSpace.singlePage {ctx ctx' : ContextHandle} (h : ctx.SameSpace ctx')
    (hsingle : ctx.SinglePage) : ctx'.SinglePage := by
  have hlength := congrArg List.length h.tensors
  rw [List.length_map, List.length_map] at hlength
  exact ⟨h.numPages.trans hsingle.numPages, hlength.trans hsingle.pages⟩

theorem KvManager.live_eq_some {mgr : KvManager} {h : Nat} {ctx : ContextHandle} :
    mgr.live h = some ctx ↔ mgr.heap[h]? = some (some ctx) := by
  simp [KvManager.live, Option.join_eq_some_iff]

theorem KvManager.memoryBytes_register (mgr : KvManager) (ctx : ContextHandle) :
    (mgr.register ctx).memoryBytes = mgr.memoryBytes + ctx.nbytes := by
  simp [KvManager.memoryBytes, KvManager.register, heldBytes]

theorem KvManager.memoryBytes_store {mgr : KvManager} {h : Nat} {ctx : ContextHandle}
    (hlive : mgr.live h = some ctx) (stats : KvStatistics) (ctx' : ContextHandle) :
    ({ mgr with stats := stats }.store h ctx').memoryBytes + ctx.nbytes =
      mgr.memoryBytes + ctx'.nbytes :=
  Table.sum_map_set (KvManager.live_eq_some.mp hlive) heldBytes (some ctx')

theorem KvManager.memoryBytes_destroy {mgr : KvManager} {h : Nat} {ctx : ContextHandle}
    (hlive : mgr.live h = some ctx) :
    (hbiKvContextDestroy mgr h ctx).memoryBytes + ctx.nbytes = mgr.memoryBytes :=
  Table.sum_map_set (KvManager.live_eq_some.mp hlive) heldBytes none

/-- The statistics are those of the live contexts, each of which has one page. -/
structure KvManager.Balanced (mgr : KvManager) : Prop where
  registered : ∃ table, mgr.Registered table
  single : ∀ h ctx, mgr.live h = some ctx → ctx.SinglePage
  active : mgr.stats.activeContexts = mgr.contexts.length
  frees_lt : mgr.stats.totalFrees < sizeTSize
  ledger : (mgr.stats.totalAllocations + sizeTSize - mgr.stats.totalFrees) % sizeTSize =
    mgr.contexts.length
  bytes : mgr.stats.currentMemoryBytes = mgr.memoryBytes
  fits : mgr.memoryBytes < sizeTSize
  active_le : mgr.stats.activeContexts ≤ mgr.stats.peakContexts
  bytes_le : mgr.stats.currentMemoryBytes ≤ mgr.stats.peakMemoryBytes

theorem KvManager.balanced_empty : KvManager.empty.Balanced where
  registered := ⟨_, KvManager.registered_empty⟩
  single := by simp [KvManager.empty, KvManager.live]
  active := rfl
  frees_lt := by decide
  ledger := by decide
  bytes := rfl
  fits := by decide
  active_le := le_rfl
  bytes_le := le_rfl

theorem hbiKvContextDestroy_stats (mgr : KvManager) (h : Nat) (ctx : ContextHandle) :
    (hbiKvContextDestroy mgr h ctx).stats =
      { mgr.stats with
        currentMemoryBytes := (mgr.stats.currentMemoryBytes + sizeTSize -
          pagesBytes ctx.pages ctx.state.numPages) % sizeTSize
        activeContexts := (mgr.stats.activeContexts + uint32Size - 1) % uint32Size
        totalFrees := (mgr.stats.totalFrees + 1) % sizeTSize } := rfl

/-- A store over a live context that brings its own bytes into the account. -/
theorem KvManager.Balanced.stored {mgr : KvManager} (hbal : mgr.Balanced) {h : Nat}
    {ctx ctx' : ContextHandle} (hlive : mgr.live h = some ctx) (hsingle : ctx'.SinglePage)
    {stats : KvStatistics} (hactive : stats.activeContexts = mgr.stats.activeContexts)
    (hallocs : stats.totalAllocations = mgr.stats.totalAllocations)
    (hfrees : stats.totalFrees = mgr.stats.totalFrees)
    (hpeak : stats.peakContexts = mgr.stats.peakContexts)
    (hbytes : stats.currentMemoryBytes = ({ mgr with stats := stats }.store h ctx').memoryBytes)
    (hfits : ({ mgr with stats := stats }.store h ctx').memoryBytes < sizeTSize)
    (hle : stats.currentMemoryBytes ≤ stats.peakMemoryBytes) :
    ({ mgr with stats := stats }.store h ctx').Balanced where
  registered := by
    obtain ⟨table, hreg⟩ := hbal.registered
    exact ⟨table, hreg.stored hlive stats ctx'⟩
  single := by
    intro k c hk
    obtain ⟨-, rfl⟩ | ⟨-, hold⟩ := KvManager.live_store hk
    · exact hsingle
    · exact hbal.single k c hold
  active := hactive.trans hbal.active
  frees_lt := lt_of_eq_of_lt hfrees hbal.frees_lt
  ledger := by
    change (stats.totalAllocations + sizeTSize - stats.totalFrees) % sizeTSize = _
    rw [hallocs, hfrees]
    exact hbal.ledger
  bytes := hbytes
  fits := hfits
  active_le := by
    change stats.activeContexts ≤ stats.peakContexts
    rw [hactive, hpeak]
    exact hbal.active_le
  bytes_le := hle

theorem KvManager.Balanced.register {mgr : KvManager} (hbal : mgr.Balanced)
    (hroom : mgr.contexts.length < hbiKvMaxContexts) {ctx : ContextHandle}
    (hsingle : ctx.SinglePage) (hfits : (mgr.register ctx).memoryBytes < sizeTSize) :
    (mgr.register ctx).Balanced := by
  have hactive := hbal.active
  have hfrees := hbal.frees_lt
  have hledger := hbal.ledger
  have hbytes := hbal.bytes
  have hmem := mgr.memoryBytes_register ctx
  have hlength : (mgr.register ctx).contexts.length = mgr.contexts.length + 1 := by
    simp [KvManager.register]
  obtain ⟨table, hreg⟩ := hbal.registered
  refine ⟨⟨_, hreg.register hroom ctx⟩, ?_, ?_, hfrees, ?_, ?_, hfits, le_max_right _ _,
    le_max_right _ _⟩
  · intro k c hk
    obtain ⟨-, rfl⟩ | hold := KvManager.live_register hk
    · exact hsingle
    · exact hbal.single k c hold
  · rw [hlength]
    change (mgr.stats.activeContexts + 1) % uint32Size = _
    unfold hbiKvMaxContexts at hroom
    unfold uint32Size
    omega
  · rw [hlength]
    change ((mgr.stats.totalAllocations + 1) % sizeTSize + sizeTSize - mgr.stats.totalFrees) %
      sizeTSize = _
    unfold hbiKvMaxContexts at hroom
    unfold sizeTSize at *
    omega
  · change (mgr.stats.currentMemoryBytes + pagesBytes ctx.pages ctx.state.numPages) % sizeTSize = _
    rw [hsingle.pagesBytes_eq, hbytes, Nat.add_mod_mod, ← hmem]
    exact Nat.mod_eq_of_lt hfits

theorem KvManager.Balanced.destroy {mgr : KvManager} (hbal : mgr.Balanced) {h : Nat}
    {ctx : ContextHandle} (hlive : mgr.live h = some ctx) :
    (hbiKvContextDestroy mgr h ctx).Balanced := by
  have hactive := hbal.active
  have hfrees := hbal.frees_lt
  have hledger := hbal.ledger
  have hbytes := hbal.bytes
  have hfits := hbal.fits
  have hmem := KvManager.memoryBytes_destroy hlive
  obtain ⟨table, hreg⟩ := hbal.registered
  have hmember : h ∈ mgr.contexts := (hreg.mem h).mpr (by rw [hlive]; rfl)
  have hpos := List.length_pos_of_mem hmember
  have hroom := hreg.room
  have hcurrent : (hbiKvContextDestroy mgr h ctx).stats.currentMemoryBytes =
      (hbiKvContextDestroy mgr h ctx).memoryBytes := by
    rw [hbiKvContextDestroy_stats]
    dsimp only
    rw [(hbal.single h ctx hlive).pagesBytes_eq, hbytes,
      Nat.mod_eq_of_lt (show ctx.nbytes < sizeTSize by omega)]
    unfold sizeTSize at *
    omega
  have hlength : (hbiKvContextDestroy mgr h ctx).contexts.length = mgr.contexts.length - 1 := by
    change (dropContext mgr.contexts h).length = _
    rw [dropContext_eq, (removeFrom_perm hmember).length_eq, List.length_erase_of_mem hmember]
  have hcount : (hbiKvContextDestroy mgr h ctx).stats.activeContexts =
      mgr.contexts.length - 1 := by
    rw [hbiKvContextDestroy_stats]
    dsimp only
    unfold hbiKvMaxContexts at hroom
    unfold uint32Size
    omega
  have hfreed : (hbiKvContextDestroy mgr h ctx).stats.totalFrees < sizeTSize := by
    rw [hbiKvContextDestroy_stats]
    exact Nat.mod_lt _ (by decide)
  refine ⟨⟨_, hreg.destroy hlive⟩, ?_, hcount.trans hlength.symm, hfreed, ?_, hcurrent, by omega,
    ?_, ?_⟩
  · intro k c hk
    exact hbal.single k c (KvManager.live_of_destroy hk)
  · rw [hlength]
    rw [hbiKvContextDestroy_stats]
    dsimp only
    unfold hbiKvMaxContexts at hroom
    unfold sizeTSize at *
    omega
  · have hpeak := hbal.active_le
    have hkept : (hbiKvContextDestroy mgr h ctx).stats.peakContexts =
        mgr.stats.peakContexts := by rw [hbiKvContextDestroy_stats]
    omega
  · have hpeak := hbal.bytes_le
    have hkept : (hbiKvContextDestroy mgr h ctx).stats.peakMemoryBytes =
        mgr.stats.peakMemoryBytes := by rw [hbiKvContextDestroy_stats]
    omega

/-- A store that keeps the tensors of the context. -/
theorem KvManager.Balanced.stored_same {mgr : KvManager} (hbal : mgr.Balanced) {h : Nat}
    {ctx ctx' : ContextHandle} (hlive : mgr.live h = some ctx) (hspace : ctx.SameSpace ctx') :
    (mgr.store h ctx').Balanced := by
  have hmem := KvManager.memoryBytes_store hlive mgr.stats ctx'
  have hsame := hspace.nbytes_eq
  have hbytes : (mgr.store h ctx').memoryBytes = mgr.memoryBytes := by
    change (mgr.store h ctx').memoryBytes + _ = _ at hmem
    omega
  have hsingle := hspace.singlePage (hbal.single h ctx hlive)
  exact @KvManager.Balanced.stored mgr hbal h ctx ctx' hlive hsingle mgr.stats rfl rfl rfl rfl
    (hbal.bytes.trans hbytes.symm) (lt_of_eq_of_lt hbytes hbal.fits) hbal.bytes_le

/-- A new byte count leaves the other counters as they were. -/
theorem KvStatistics.setBytes_counters (stats : KvStatistics) (bytes : Nat) :
    (stats.setBytes bytes).activeContexts = stats.activeContexts ∧
      (stats.setBytes bytes).peakContexts = stats.peakContexts ∧
      (stats.setBytes bytes).totalAllocations = stats.totalAllocations ∧
      (stats.setBytes bytes).totalFrees = stats.totalFrees := ⟨rfl, rfl, rfl, rfl⟩

/-- Taking a part off a sum and putting another in its place, as a `size_t` computes it. -/
theorem sizeT_replace {sum sum' old new : Nat} (hle : old ≤ sum) (hsum : sum' + old = sum + new)
    (hfits : sum' < sizeTSize) : (sum + sizeTSize - old + new) % sizeTSize = sum' := by
  have hwrap : sum + sizeTSize - old + new = sum' + sizeTSize := by omega
  rw [hwrap, Nat.add_mod_right, Nat.mod_eq_of_lt hfits]

theorem KvManager.Balanced.grown {mgr : KvManager} (hbal : mgr.Balanced) {h : Nat}
    {ctx ctx' : ContextHandle} (hlive : mgr.live h = some ctx) (hsingle : ctx'.SinglePage)
    (hfits : ({ mgr with stats := mgr.stats.replacePages ctx ctx' }.store h ctx').memoryBytes <
      sizeTSize) :
    ({ mgr with stats := mgr.stats.replacePages ctx ctx' }.store h ctx').Balanced := by
  have hmem := KvManager.memoryBytes_store hlive (mgr.stats.replacePages ctx ctx') ctx'
  have hold := hbal.fits
  have hdestroy := KvManager.memoryBytes_destroy hlive
  have hcurrent : (mgr.stats.replacePages ctx ctx').currentMemoryBytes =
      (mgr.memoryBytes + sizeTSize - ctx.nbytes + ctx'.nbytes) % sizeTSize := by
    unfold KvStatistics.replacePages KvStatistics.setBytes
    dsimp only
    rw [(hbal.single h ctx hlive).pagesBytes_eq, hsingle.pagesBytes_eq, hbal.bytes,
      Nat.add_mod_mod, Nat.mod_eq_of_lt (show ctx.nbytes < sizeTSize by omega)]
  have hle : ctx.nbytes ≤ mgr.memoryBytes := hdestroy ▸ Nat.le_add_left _ _
  obtain ⟨hactive, hpeak, hallocs, hfrees⟩ := KvStatistics.setBytes_counters mgr.stats _
  exact hbal.stored hlive hsingle hactive hallocs hfrees hpeak
    (hcurrent.trans (sizeT_replace hle hmem hfits)) hfits (le_max_right _ _)

theorem ManagerStep.balanced {mgr mgr' : KvManager} {table table' : Slots Nat}
    (hstep : ManagerStep mgr table mgr' table') (hbal : mgr.Balanced)
    (hfits : mgr'.memoryBytes < sizeTSize) : mgr'.Balanced := by
  cases hstep with
  | same => exact hbal
  | @registered ctx ctx' hroom hsingle hspace =>
      have hnew := KvManager.live_register_new mgr ctx
      have hmem := KvManager.memoryBytes_store hnew (mgr.register ctx).stats ctx'
      have hsame := hspace.nbytes_eq
      change ((mgr.register ctx).store mgr.heap.length ctx').memoryBytes + _ = _ at hmem
      have hbytes : (mgr.register ctx).memoryBytes < sizeTSize := by omega
      exact (hbal.register hroom hsingle hbytes).stored_same hnew hspace
  | destroyed hlive => exact hbal.destroy hlive
  | stored hlive hspace => exact hbal.stored_same hlive hspace
  | grown hlive hsingle => exact hbal.grown hlive hsingle hfits

theorem KvStatistics.setBytes_raises (stats : KvStatistics) (bytes : Nat) :
    (stats.setBytes bytes).peakMemoryBytes =
      max stats.peakMemoryBytes (stats.setBytes bytes).currentMemoryBytes := rfl

/-- Every call raises the two peaks to the values it leads to. -/
theorem ManagerStep.raises {mgr mgr' : KvManager} {table table' : Slots Nat}
    (hstep : ManagerStep mgr table mgr' table') (hbal : mgr.Balanced) (hbal' : mgr'.Balanced) :
    mgr'.stats.peakMemoryBytes = max mgr.stats.peakMemoryBytes mgr'.stats.currentMemoryBytes ∧
      mgr'.stats.peakContexts = max mgr.stats.peakContexts mgr'.stats.activeContexts := by
  have hbytesLe := hbal'.bytes_le
  have hcontextsLe := hbal'.active_le
  cases hstep with
  | same => exact ⟨(max_eq_left hbytesLe).symm, (max_eq_left hcontextsLe).symm⟩
  | registered hroom hsingle hspace => exact ⟨KvStatistics.setBytes_raises _ _, rfl⟩
  | @destroyed h ctx hlive =>
      have hbytes : (hbiKvContextDestroy mgr h ctx).stats.peakMemoryBytes =
          mgr.stats.peakMemoryBytes := by rw [hbiKvContextDestroy_stats]
      have hcontexts : (hbiKvContextDestroy mgr h ctx).stats.peakContexts =
          mgr.stats.peakContexts := by rw [hbiKvContextDestroy_stats]
      rw [hbytes] at hbytesLe ⊢
      rw [hcontexts] at hcontextsLe ⊢
      exact ⟨(max_eq_left hbytesLe).symm, (max_eq_left hcontextsLe).symm⟩
  | stored hlive hspace => exact ⟨(max_eq_left hbytesLe).symm, (max_eq_left hcontextsLe).symm⟩
  | @grown h ctx ctx' hlive hsingle =>
      obtain ⟨hactive, hpeak, -, -⟩ := KvStatistics.setBytes_counters mgr.stats _
      exact ⟨KvStatistics.setBytes_raises _ _,
        hpeak.trans ((max_eq_left hbal.active_le).symm.trans (congrArg _ hactive.symm))⟩

/-- For every sequence of calls on a fresh manager whose live tensors lie apart in the address
space: the current bytes are the bytes of the tensors of the live contexts; the number of
contexts is the length of the table, which lists the live ones, and the allocations less the
frees; the peaks are the largest values along the run; and a failed call changes nothing. -/
theorem kv_statistics_exact (m : Memory) (ops : List KvOp)
    (hplaced : Runs.Along KvOp.next (fun w op => (op.next w).manager.Placed)
      ⟨KvManager.empty, m⟩ ops) :
    let w := Runs.final KvOp.next ⟨KvManager.empty, m⟩ ops
    let stats := w.manager.stats
    stats.currentMemoryBytes = w.manager.memoryBytes ∧
      stats.activeContexts = w.manager.contexts.length ∧
      (w.manager.contexts.Nodup ∧ ∀ h, h ∈ w.manager.contexts ↔ (w.manager.live h).isSome) ∧
      stats.activeContexts =
        (stats.totalAllocations + sizeTSize - stats.totalFrees) % sizeTSize ∧
      Runs.Greatest KvOp.next (fun w => w.manager.stats.currentMemoryBytes)
        ⟨KvManager.empty, m⟩ ops stats.peakMemoryBytes ∧
      Runs.Greatest KvOp.next (fun w => w.manager.stats.activeContexts)
        ⟨KvManager.empty, m⟩ ops stats.peakContexts ∧
      ∀ (op : KvOp) (e : Failure), (op.call w).2 = .error e → op.next w = w := by
  intro w stats
  have hstep : ∀ (w : KvWorld) (op : KvOp), w.manager.Balanced →
      (op.next w).manager.Placed → (op.next w).manager.Balanced := fun w op hbal hnext =>
    (op.managerStep w Slots.empty).balanced hbal hnext.memoryBytes_lt
  have hbal : w.manager.Balanced :=
    Runs.final_of_along hstep (s := (⟨KvManager.empty, m⟩ : KvWorld)) KvManager.balanced_empty
      hplaced
  have hraises : ∀ (w : KvWorld) (op : KvOp), w.manager.Balanced → (op.next w).manager.Placed →
      (op.next w).manager.stats.peakMemoryBytes = max w.manager.stats.peakMemoryBytes
        (op.next w).manager.stats.currentMemoryBytes ∧
      (op.next w).manager.stats.peakContexts = max w.manager.stats.peakContexts
        (op.next w).manager.stats.activeContexts := fun w op hw hnext =>
    (op.managerStep w Slots.empty).raises hw (hstep w op hw hnext)
  obtain ⟨table, hreg⟩ := hbal.registered
  refine ⟨hbal.bytes, hbal.active, ⟨hreg.nodup, hreg.mem⟩, hbal.active.trans hbal.ledger.symm,
    ?_, ?_, ?_⟩
  · exact Runs.greatest_of_along hstep (fun w op hw hnext => (hraises w op hw hnext).1)
      (fun w hw => hw.bytes_le) KvManager.balanced_empty rfl hplaced
  · exact Runs.greatest_of_along hstep (fun w op hw hnext => (hraises w op hw hnext).2)
      (fun w hw => hw.active_le) KvManager.balanced_empty rfl hplaced
  · intro op e herror
    exact KvOp.next_of_error herror

/-- A context and its clone, of which the first grows and the second goes. -/
def countedOps : List KvOp :=
  [.create 8 .int8 ⟨[8]⟩ ⟨[8]⟩ smallBlocks, .clone 0 moreBlocks blankStack,
    .resize 0 16 ⟨true, some (.line 5), some (.line 6)⟩ blankStack, .destroy 1]

theorem kv_statistics_exact_counted :
    let w := Runs.final KvOp.next ⟨KvManager.empty, fun _ => 0⟩ countedOps
    w.manager.stats.currentMemoryBytes = w.manager.memoryBytes ∧
      w.manager.memoryBytes = 32 ∧ w.manager.stats.peakMemoryBytes = 48 :=
  ⟨(kv_statistics_exact (fun _ => 0) countedOps (by decide +kernel)).1, by decide +kernel,
    by decide +kernel⟩

end Hummingbird

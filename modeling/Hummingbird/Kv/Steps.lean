import Hummingbird.Kv.Context

/-!
What one call can do to a live context, said once for all calls. A context that is
live after a call was live before and is the same, or is the outcome of the one
operation that the call performs.
-/

namespace Hummingbird

/-- A context as the allocator returns it. -/
def freshContext (maxTokens : Nat) (dtype : Dtype) (kShape vShape : Shape)
    (pages : List KvPage) : ContextHandle :=
  { state := ⟨0, maxTokens, pages.length⟩, pages := pages, dtype := dtype, kShape := kShape,
    vShape := vShape }

/-- The clone of a context over new pages. -/
def clonedContext (src : ContextHandle) (pages : List KvPage) (stack : SliceStack) (m : Memory) :
    ContextHandle :=
  { state := ⟨src.state.totalTokens, src.state.maxTokens, pages.length⟩
    pages := (copyPages stack src.pages pages m).1, dtype := src.dtype, kShape := src.kShape,
    vShape := src.vShape }

/-- A context moved to larger pages. -/
def grownContext (ctx : ContextHandle) (newMaxTokens : Nat) (pages : List KvPage)
    (stack : SliceStack) (m : Memory) : ContextHandle :=
  { state := ⟨ctx.state.totalTokens, newMaxTokens, (copyPages stack ctx.pages pages m).1.length⟩
    pages := (copyPages stack ctx.pages pages m).1
    dtype := ctx.dtype
    kShape := grownShape ctx.kShape ctx.state.maxTokens newMaxTokens
    vShape := grownShape ctx.vShape ctx.state.maxTokens newMaxTokens }

/-- The pages that a growing resize asks the allocator for. -/
def growPages (ctx : ContextHandle) (newMaxTokens : Nat) (blocks : PageBlocks) :
    Result (List KvPage) :=
  hbiKvAllocatorContiguousAllocate newMaxTokens ctx.dtype
    (grownShape ctx.kShape ctx.state.maxTokens newMaxTokens)
    (grownShape ctx.vShape ctx.state.maxTokens newMaxTokens) blocks

/-- The ways in which a call can change one context in its place. -/
inductive ContextUpdate (ctx : ContextHandle) (h : Nat) : KvOp → ContextHandle → Prop
  | wasReset : ContextUpdate ctx h (.reset h) (hbiKvContextReset ctx)
  | shrunk {newMaxTokens blocks stack} (hlt : newMaxTokens.toNat < ctx.state.maxTokens) :
      ContextUpdate ctx h (.resize h newMaxTokens blocks stack)
        (shrinkContext ctx newMaxTokens.toNat)
  | appended {numTokens ctx'}
      (happend : hbiKvContextAppendTokens ctx numTokens.toNat = .ok ctx') :
      ContextUpdate ctx h (.append h numTokens) ctx'
  | truncated {retainTokens} :
      ContextUpdate ctx h (.truncate h retainTokens) (hbiKvContextTruncate ctx retainTokens.toNat)

/-- The ways in which a context can be live after a call. -/
inductive ContextStep (w : KvWorld) : KvOp → Nat → ContextHandle → Prop
  | kept {op h ctx} (hlive : w.manager.live h = some ctx) : ContextStep w op h ctx
  | created {maxTokens dtype kShape vShape blocks pages}
      (halloc : hbiKvAllocatorContiguousAllocate maxTokens.toNat dtype kShape vShape
        blocks.toPageBlocks = .ok pages) :
      ContextStep w (.create maxTokens dtype kShape vShape blocks) w.manager.heap.length
        (freshContext maxTokens.toNat dtype kShape vShape pages)
  | cloned {h blocks stack src pages} (hlive : w.manager.live h = some src)
      (halloc : hbiKvAllocatorContiguousAllocate src.state.maxTokens src.dtype src.kShape
        src.vShape blocks.toPageBlocks = .ok pages) :
      ContextStep w (.clone h blocks stack) w.manager.heap.length
        (clonedContext src pages stack (zeroPages pages w.memory))
  | updated {op h ctx ctx'} (hlive : w.manager.live h = some ctx)
      (hupdate : ContextUpdate ctx h op ctx') : ContextStep w op h ctx'
  | grown {h newMaxTokens blocks stack ctx pages} (hlive : w.manager.live h = some ctx)
      (hlt : ctx.state.maxTokens < newMaxTokens.toNat)
      (halloc : growPages ctx newMaxTokens.toNat blocks = .ok pages) :
      ContextStep w (.resize h newMaxTokens blocks stack) h
        (grownContext ctx newMaxTokens.toNat pages stack (zeroPages pages w.memory))

theorem KvManager.live_lt {mgr : KvManager} {h : Nat} {ctx : ContextHandle}
    (hlive : mgr.live h = some ctx) : h < mgr.heap.length := by
  by_contra hge
  simp [KvManager.live, List.getElem?_eq_none (not_lt.mp hge)] at hlive

@[simp]
theorem KvManager.live_store_self {mgr : KvManager} {h : Nat} {ctx : ContextHandle}
    (hlt : h < mgr.heap.length) : (mgr.store h ctx).live h = some ctx := by
  simp [KvManager.live, KvManager.store, hlt]

theorem KvManager.live_store_ne {mgr : KvManager} {h h' : Nat} {ctx : ContextHandle}
    (hne : h ≠ h') : (mgr.store h ctx).live h' = mgr.live h' := by
  simp [KvManager.live, KvManager.store, List.getElem?_set_ne hne]

theorem KvManager.live_store {mgr : KvManager} {h h' : Nat} {ctx ctx' : ContextHandle}
    (hlive : (mgr.store h ctx).live h' = some ctx') :
    h' = h ∧ ctx' = ctx ∨ h' ≠ h ∧ mgr.live h' = some ctx' := by
  by_cases hne : h = h'
  · subst hne
    have hlt := KvManager.live_lt hlive
    rw [KvManager.live_store_self (by simpa [KvManager.store] using hlt)] at hlive
    exact Or.inl ⟨rfl, (Option.some.inj hlive).symm⟩
  · exact Or.inr ⟨Ne.symm hne, KvManager.live_store_ne hne ▸ hlive⟩

@[simp]
theorem KvManager.live_register_new (mgr : KvManager) (ctx : ContextHandle) :
    (mgr.register ctx).live mgr.heap.length = some ctx := by
  simp [KvManager.live, KvManager.register]

theorem KvManager.live_register {mgr : KvManager} {ctx ctx' : ContextHandle} {h : Nat}
    (hlive : (mgr.register ctx).live h = some ctx') :
    h = mgr.heap.length ∧ ctx' = ctx ∨ mgr.live h = some ctx' := by
  have hlt := KvManager.live_lt hlive
  simp only [KvManager.register, List.length_append, List.length_singleton] at hlt
  by_cases hnew : h = mgr.heap.length
  · subst hnew
    rw [KvManager.live_register_new] at hlive
    exact Or.inl ⟨rfl, (Option.some.inj hlive).symm⟩
  · refine Or.inr ?_
    have hold : h < mgr.heap.length := by omega
    simpa [KvManager.live, KvManager.register, List.getElem?_append_left hold] using hlive

theorem KvManager.live_of_destroy {mgr : KvManager} {h k : Nat} {c ctx : ContextHandle}
    (hlive : (hbiKvContextDestroy mgr k c).live h = some ctx) : mgr.live h = some ctx := by
  simp only [KvManager.live, hbiKvContextDestroy] at hlive
  by_cases hne : k = h
  · subst hne
    by_cases hlt : k < mgr.heap.length
    · simp [hlt] at hlive
    · simp [hlt] at hlive
  · rwa [List.getElem?_set_ne hne] at hlive

/-- The allocator answers with one empty page over the two tensors. -/
theorem allocate_eq_ok {capacity : Nat} {dtype : Dtype} {kShape vShape : Shape}
    {blocks : PageBlocks} {pages : List KvPage}
    (h : hbiKvAllocatorContiguousAllocate capacity dtype kShape vShape blocks = .ok pages) :
    ∃ k v, pages = [⟨k, v, capacity, 0⟩] ∧
      hbiTensorAllocAligned dtype kShape hbiTensorDefaultAlign blocks.k = .ok k ∧
      hbiTensorAllocAligned dtype vShape hbiTensorDefaultAlign blocks.v = .ok v := by
  simp only [hbiKvAllocatorContiguousAllocate, Result.ite_errSet_eq_ok, Result.bind_eq_ok, pure,
    Except.pure, Except.ok.injEq] at h
  obtain ⟨-, k, hk, v, hv, rfl⟩ := h
  exact ⟨k, v, rfl, hk, hv⟩

theorem hbiKvContextCreate_eq_ok {mgr mgr' : KvManager} {maxTokens h : Nat} {dtype : Dtype}
    {kShape vShape : Shape} {blocks : ContextBlocks}
    (hcreate : hbiKvContextCreate mgr maxTokens dtype kShape vShape blocks = .ok (mgr', h)) :
    ∃ pages, hbiKvAllocatorContiguousAllocate maxTokens dtype kShape vShape
        blocks.toPageBlocks = .ok pages ∧
      h = mgr.heap.length ∧
      mgr' = mgr.register (freshContext maxTokens dtype kShape vShape pages) := by
  simp only [hbiKvContextCreate, Result.ite_errSet_eq_ok, Result.bind_eq_ok, pure, Except.pure,
    Except.ok.injEq, Prod.mk.injEq] at hcreate
  obtain ⟨-, -, pages, halloc, rfl, rfl⟩ := hcreate
  exact ⟨pages, halloc, rfl, rfl⟩

theorem hbiKvContextClone_eq_ok {w w' : KvWorld} {src : ContextHandle} {blocks : ContextBlocks}
    {stack : SliceStack} {h : Nat} (hclone : hbiKvContextClone w src blocks stack = .ok (w', h)) :
    ∃ pages, hbiKvAllocatorContiguousAllocate src.state.maxTokens src.dtype src.kShape
        src.vShape blocks.toPageBlocks = .ok pages ∧
      h = w.manager.heap.length ∧
      w' = ⟨(w.manager.register (freshContext src.state.maxTokens src.dtype src.kShape src.vShape
          pages)).store h (clonedContext src pages stack (zeroPages pages w.memory)),
        (copyPages stack src.pages pages (zeroPages pages w.memory)).2⟩ := by
  simp only [hbiKvContextClone, Result.bind_eq_ok, Prod.exists] at hclone
  obtain ⟨mgr, k, hcreate, hclone⟩ := hclone
  obtain ⟨pages, halloc, rfl, rfl⟩ := hbiKvContextCreate_eq_ok hcreate
  rw [KvManager.live_register_new] at hclone
  simp only [pure, Except.pure, Except.ok.injEq, Prod.mk.injEq] at hclone
  obtain ⟨rfl, rfl⟩ := hclone
  exact ⟨pages, halloc, rfl, rfl⟩

/-- The statistics after the pages of a context are replaced. -/
def KvStatistics.replacePages (stats : KvStatistics) (old new : ContextHandle) : KvStatistics :=
  stats.setBytes
    ((stats.currentMemoryBytes + sizeTSize - pagesBytes old.pages old.state.numPages +
      pagesBytes new.pages new.state.numPages) % sizeTSize)

theorem hbiKvContextResize_eq_ok {w w' : KvWorld} {h : Nat} {ctx : ContextHandle}
    {newMaxTokens : Nat} {blocks : PageBlocks} {stack : SliceStack}
    (hresize : hbiKvContextResize w h ctx newMaxTokens blocks stack = .ok w') :
    newMaxTokens = ctx.state.maxTokens ∧ w' = w ∨
      newMaxTokens < ctx.state.maxTokens ∧ w' = w.put h (shrinkContext ctx newMaxTokens) ∨
      ctx.state.maxTokens < newMaxTokens ∧ ∃ pages,
        growPages ctx newMaxTokens blocks = .ok pages ∧
        w' = ⟨{ w.manager with
            stats := w.manager.stats.replacePages ctx
              (grownContext ctx newMaxTokens pages stack (zeroPages pages w.memory)) }.store h
            (grownContext ctx newMaxTokens pages stack (zeroPages pages w.memory)),
          (copyPages stack ctx.pages pages (zeroPages pages w.memory)).2⟩ := by
  unfold hbiKvContextResize at hresize
  by_cases heq : newMaxTokens = ctx.state.maxTokens
  · simp only [heq, if_true, Except.ok.injEq] at hresize
    exact Or.inl ⟨heq, hresize.symm⟩
  · by_cases hlt : newMaxTokens < ctx.state.maxTokens
    · simp only [heq, hlt, if_true, if_false, Except.ok.injEq] at hresize
      exact Or.inr (Or.inl ⟨hlt, hresize.symm⟩)
    · simp only [heq, hlt, if_false, Result.bind_eq_ok, pure, Except.pure,
        Except.ok.injEq] at hresize
      obtain ⟨pages, halloc, rfl⟩ := hresize
      exact Or.inr (Or.inr ⟨by omega, pages, halloc, rfl⟩)

/-- A call on a handle leaves the world as it was, or the handle is live and the body of
the call succeeds on its context. -/
theorem KvWorld.withLive_cases {w : KvWorld} {h : Nat} {what : String}
    {body : ContextHandle → Result KvWorld} {P : KvWorld → Prop} (hsame : P w)
    (hbody : ∀ ctx w', w.manager.live h = some ctx → body ctx = .ok w' → P w') :
    P (w.withLive h what body).1 := by
  unfold KvWorld.withLive
  cases hlive : w.manager.live h with
  | none => exact hsame
  | some ctx =>
      cases hres : body ctx with
      | error e => simpa only [hres, KvWorld.settle] using hsame
      | ok w' => simpa only [hres, KvWorld.settle] using hbody ctx w' hlive hres

/-- The ways in which a call can change the world. -/
inductive KvStep (w : KvWorld) : KvOp → KvWorld → Prop
  | same {op} : KvStep w op w
  | created {maxTokens dtype kShape vShape blocks pages}
      (halloc : hbiKvAllocatorContiguousAllocate maxTokens.toNat dtype kShape vShape
        blocks.toPageBlocks = .ok pages) :
      KvStep w (.create maxTokens dtype kShape vShape blocks)
        ⟨w.manager.register (freshContext maxTokens.toNat dtype kShape vShape pages),
          zeroPages pages w.memory⟩
  | destroyed {h ctx} (hlive : w.manager.live h = some ctx) :
      KvStep w (.destroy h) ⟨hbiKvContextDestroy w.manager h ctx, w.memory⟩
  | updated {op h ctx ctx'} (hlive : w.manager.live h = some ctx)
      (hupdate : ContextUpdate ctx h op ctx') : KvStep w op (w.put h ctx')
  | cloned {h blocks stack src pages} (hlive : w.manager.live h = some src)
      (halloc : hbiKvAllocatorContiguousAllocate src.state.maxTokens src.dtype src.kShape
        src.vShape blocks.toPageBlocks = .ok pages) :
      KvStep w (.clone h blocks stack)
        ⟨(w.manager.register (freshContext src.state.maxTokens src.dtype src.kShape src.vShape
            pages)).store w.manager.heap.length
              (clonedContext src pages stack (zeroPages pages w.memory)),
          (copyPages stack src.pages pages (zeroPages pages w.memory)).2⟩
  | grown {h newMaxTokens blocks stack ctx pages stats} (hlive : w.manager.live h = some ctx)
      (hlt : ctx.state.maxTokens < newMaxTokens.toNat)
      (halloc : growPages ctx newMaxTokens.toNat blocks = .ok pages) :
      KvStep w (.resize h newMaxTokens blocks stack)
        ⟨{ w.manager with stats := stats }.store h
            (grownContext ctx newMaxTokens.toNat pages stack (zeroPages pages w.memory)),
          (copyPages stack ctx.pages pages (zeroPages pages w.memory)).2⟩

/-- Every call changes the world in one of the listed ways. -/
theorem KvOp.step (w : KvWorld) (op : KvOp) : KvStep w op (op.next w) := by
  cases op with
  | create maxTokens dtype kShape vShape blocks =>
      cases hcreate : hbiKvContextCreate w.manager maxTokens.toNat dtype kShape vShape blocks with
      | error e =>
          simp only [KvOp.next, KvOp.call, hcreate, bind, Except.bind, KvWorld.settle]
          exact .same
      | ok res =>
          simp only [KvOp.next, KvOp.call, hcreate, bind, Except.bind, pure, Except.pure,
            KvWorld.settle]
          obtain ⟨pages, halloc, hnew, hmgr⟩ := hbiKvContextCreate_eq_ok hcreate
          rw [hmgr, hnew, KvManager.live_register_new]
          exact .created halloc
  | destroy k =>
      cases hk : w.manager.live k with
      | none =>
          simp only [KvOp.next, KvOp.call, hk]
          exact .same
      | some c =>
          simp only [KvOp.next, KvOp.call, hk]
          exact .destroyed hk
  | reset k =>
      refine @KvWorld.withLive_cases w k _ _ (KvStep w (.reset k)) .same ?_
      intro c w' hc hbody
      rw [← Except.ok.inj hbody]
      exact .updated hc .wasReset
  | clone k blocks stack =>
      refine @KvWorld.withLive_cases w k _ _ (KvStep w (.clone k blocks stack)) .same ?_
      intro c w' hc hbody
      obtain ⟨⟨w'', j⟩, hclone, hw⟩ := Result.bind_eq_ok.mp hbody
      obtain ⟨pages, halloc, rfl, rfl⟩ := hbiKvContextClone_eq_ok hclone
      rw [← Except.ok.inj hw]
      exact .cloned hc halloc
  | resize k newMaxTokens blocks stack =>
      refine @KvWorld.withLive_cases w k _ _ (KvStep w (.resize k newMaxTokens blocks stack))
        .same ?_
      intro c w' hc hbody
      obtain ⟨-, rfl⟩ | ⟨hlt, rfl⟩ | ⟨hlt, pages, halloc, rfl⟩ :=
        hbiKvContextResize_eq_ok hbody
      · exact .same
      · exact .updated hc (.shrunk hlt)
      · exact .grown hc hlt halloc
  | append k numTokens =>
      refine @KvWorld.withLive_cases w k _ _ (KvStep w (.append k numTokens)) .same ?_
      intro c w' hc hbody
      obtain ⟨c', happend, hw⟩ := Result.bind_eq_ok.mp hbody
      rw [← Except.ok.inj hw]
      exact .updated hc (.appended happend)
  | truncate k retainTokens =>
      refine @KvWorld.withLive_cases w k _ _ (KvStep w (.truncate k retainTokens)) .same ?_
      intro c w' hc hbody
      rw [← Except.ok.inj hbody]
      exact .updated hc .truncated

/-- Every context that is live after a call comes about in one of the listed ways. -/
theorem KvOp.next_live {w : KvWorld} {op : KvOp} {h : Nat} {ctx : ContextHandle}
    (hlive : (op.next w).manager.live h = some ctx) : ContextStep w op h ctx := by
  have hstep := op.step w
  generalize op.next w = w' at hlive hstep
  cases hstep with
  | same => exact .kept hlive
  | created halloc =>
      obtain ⟨rfl, rfl⟩ | hold := KvManager.live_register hlive
      · exact .created halloc
      · exact .kept hold
  | destroyed hc => exact .kept (KvManager.live_of_destroy hlive)
  | updated hc hupdate =>
      obtain ⟨rfl, rfl⟩ | ⟨-, hold⟩ := KvManager.live_store hlive
      · exact .updated hc hupdate
      · exact .kept hold
  | cloned hc halloc =>
      obtain ⟨rfl, rfl⟩ | ⟨hne, hold⟩ := KvManager.live_store hlive
      · exact .cloned hc halloc
      · exact .kept ((KvManager.live_register hold).resolve_left fun h => hne h.1)
  | grown hc hlt halloc =>
      obtain ⟨rfl, rfl⟩ | ⟨-, hold⟩ := KvManager.live_store hlive
      · exact .grown hc hlt halloc
      · exact .kept hold

/-- A call leaves the heap as long as it was, or adds one handle to it. -/
theorem KvOp.next_heap_length (w : KvWorld) (op : KvOp) :
    (op.next w).manager.heap.length = w.manager.heap.length ∨
      (op.next w).manager.heap.length = w.manager.heap.length + 1 := by
  have hstep := op.step w
  generalize op.next w = w' at hstep
  cases hstep with
  | same => exact Or.inl rfl
  | created halloc => exact Or.inr (by simp [KvManager.register])
  | destroyed hc => exact Or.inl (by simp [hbiKvContextDestroy])
  | updated hc hupdate => exact Or.inl (by simp [KvWorld.put, KvManager.store])
  | cloned hc halloc => exact Or.inr (by simp [KvManager.store, KvManager.register])
  | grown hc hlt halloc => exact Or.inl (by simp [KvManager.store])

/-- Blocks for a context whose tensors fit 64 bytes each. -/
def smallBlocks : ContextBlocks :=
  { page := true, k := some (.line 0), v := some (.line 1), handle := true }

/-- Blocks for two more tensors, apart from the first ones. -/
def moreBlocks : ContextBlocks :=
  { page := true, k := some (.line 3), v := some (.line 4), handle := true }

end Hummingbird

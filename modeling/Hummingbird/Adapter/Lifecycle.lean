import Hummingbird.Adapter.Context
import Hummingbird.Foundation.Ownership
import Hummingbird.Foundation.SwapRemove
import Mathlib.Data.List.ReduceOption

/-!
The blocks behind a model context. A model context, its private context and what hangs on it
come from the allocator of the framework; the mutex of the manager and the buffers of the two
tensors come from the platform. Every request has its answer; every pointer is a number of a
block, or absent. The same path releases a half built context and a complete one.
-/

namespace Hummingbird

open Ownership SwapRemove

/-- What a block is for. -/
inductive BlockUse where
  | modelContext | gptOssContext | scratch | layers | kvManager | contextHandle | page
  | mutex | tensorData
  deriving DecidableEq, Repr

/-- The blocks of the allocator of the framework, and those of the platform. -/
structure HostHeap where
  framework : Ledger BlockUse
  platform : Ledger BlockUse

/-- The blocks of a live context: its handle, its page, and the buffers of the two tensors. -/
structure HandlePtr where
  handle : Nat
  page : Nat
  kData : Nat
  vData : Nat
  deriving DecidableEq, Repr

structure ManagerPtr where
  block : Nat
  mutex : Nat
  contexts : List HandlePtr

/-- The pointers of `gpt_oss_context`. -/
structure GptOssPointers where
  scratch : List (Option Nat)
  layers : Option Nat
  kvManager : Option ManagerPtr
  kvHandle : Option HandlePtr

/-- `memset` to zero. -/
def GptOssPointers.zero : GptOssPointers := ⟨List.replicate 9 none, none, none, none⟩

structure ModelContextPtr where
  block : Nat
  privateData : Option (Nat × GptOssPointers)

namespace HostHeap

/-- `hbi_alloc`, with its answer. -/
def hbiAlloc (h : HostHeap) (use : BlockUse) (granted : Bool) : HostHeap × Option Nat :=
  if granted then
    ({ h with framework := h.framework.create use }, some h.framework.objects.length)
  else (h, none)

/-- `hbi_free`, to which a NULL pointer is nothing. -/
def hbiFree (h : HostHeap) : Option Nat → HostHeap
  | none => h
  | some block => { h with framework := h.framework.destroy block }

/-- `calloc` and `hbi_aligned_alloc`. -/
def platformAlloc (h : HostHeap) (use : BlockUse) (granted : Bool) : HostHeap × Option Nat :=
  if granted then ({ h with platform := h.platform.create use }, some h.platform.objects.length)
  else (h, none)

/-- `free` and `hbi_aligned_free`. -/
def platformFree (h : HostHeap) (block : Nat) : HostHeap :=
  { h with platform := h.platform.destroy block }

def hbiMutexInit (h : HostHeap) (alloc init : Bool) : HostHeap × Option Nat :=
  match h.platformAlloc .mutex alloc with
  | (h, none) => (h, none)
  | (h, some m) => if init then (h, some m) else (h.platformFree m, none)

/-- `hbi_tensor_alloc_aligned`: the buffer is the last thing that can fail. -/
def hbiTensorAllocAligned (h : HostHeap) (dtype : Dtype) (shape : Shape)
    (block : Option (AlignedBlock hbiTensorDefaultAlign)) : HostHeap × Result Nat :=
  match Hummingbird.hbiTensorAllocAligned dtype shape hbiTensorDefaultAlign block with
  | .error e => (h, .error e)
  | .ok _ => ({ h with platform := h.platform.create .tensorData },
      .ok h.platform.objects.length)

/-- `hbi_kv_allocator_contiguous_allocate`: the page and the two buffers. -/
def hbiKvAllocatorContiguousAllocate (h : HostHeap) (dtype : Dtype) (kShape vShape : Shape)
    (blocks : PageBlocks) : HostHeap × Result (Nat × Nat × Nat) :=
  match h.hbiAlloc .page blocks.page with
  | (h, none) => (h, errSet .oom "contiguous_allocator: page alloc failed")
  | (h, some page) =>
      match h.hbiTensorAllocAligned dtype kShape blocks.k with
      | (h, .error e) => (h.hbiFree page, .error e)
      | (h, .ok k) =>
          match h.hbiTensorAllocAligned dtype vShape blocks.v with
          | (h, .error e) => ((h.platformFree k).hbiFree page, .error e)
          | (h, .ok v) => (h, .ok (page, k, v))

/-- `hbi_kv_manager_create`, with the answer to the request of the mutex and what initialising
it returns. -/
def hbiKvManagerCreate (h : HostHeap) (alloc mutex init : Bool) : HostHeap × Result ManagerPtr :=
  match h.hbiAlloc .kvManager alloc with
  | (h, none) => (h, errSet .oom "manager create: alloc failed")
  | (h, some mgr) =>
      match h.hbiMutexInit mutex init with
      | (h, none) => (h.hbiFree mgr, errSet .oom "manager create: mutex init failed")
      | (h, some m) => (h, .ok ⟨mgr, m, []⟩)

def hbiKvContextCreate (h : HostHeap) (mgr : ManagerPtr) (dtype : Dtype) (kShape vShape : Shape)
    (blocks : ContextBlocks) : HostHeap × Result (ManagerPtr × HandlePtr) :=
  if mgr.contexts.length ≥ hbiKvMaxContexts then
    (h, errSet .oom "context create: max contexts reached")
  else
    match h.hbiAlloc .contextHandle blocks.handle with
    | (h, none) => (h, errSet .oom "context create: alloc failed")
    | (h, some handle) =>
        match h.hbiKvAllocatorContiguousAllocate dtype kShape vShape blocks.toPageBlocks with
        | (h, .error e) => (h.hbiFree handle, .error e)
        | (h, .ok (page, k, v)) =>
            let ctx : HandlePtr := ⟨handle, page, k, v⟩
            (h, .ok ({ mgr with contexts := mgr.contexts ++ [ctx] }, ctx))

/-- The releases of `hbi_kv_context_destroy`. -/
def freeHandle (h : HostHeap) (ctx : HandlePtr) : HostHeap :=
  (((h.platformFree ctx.kData).platformFree ctx.vData).hbiFree ctx.page).hbiFree ctx.handle

def hbiKvContextDestroy (h : HostHeap) (mgr : ManagerPtr) (ctx : HandlePtr) :
    HostHeap × ManagerPtr :=
  (h.freeHandle ctx, { mgr with contexts := removeFrom mgr.contexts ctx })

def hbiKvManagerDestroy (h : HostHeap) (mgr : ManagerPtr) : HostHeap :=
  ((mgr.contexts.foldl freeHandle h).platformFree mgr.mutex).hbiFree mgr.block

/-- The scratch requests one after the other, up to the first that is refused: the pointers,
and whether all are there. -/
def allocScratch (h : HostHeap) : List Bool → HostHeap × List (Option Nat) × Bool
  | [] => (h, [], true)
  | granted :: rest =>
      match h.hbiAlloc .scratch granted with
      | (h, none) => (h, none :: rest.map fun _ => none, false)
      | (h, some block) =>
          let (h, blocks, all) := allocScratch h rest
          (h, some block :: blocks, all)

/-- What `gpt_oss_create_context` hangs on the private context, up to the first failure. -/
def fillContext (h : HostHeap) (desc : ModelDescriptor) (blocks : GptOssBlocks)
    (mutexInit : Bool) : HostHeap × GptOssPointers × Result Unit :=
  match h.allocScratch (List.ofFn blocks.scratch) with
  | (h, scratch, false) =>
      (h, { GptOssPointers.zero with scratch := scratch },
        errSet .oom "gpt_oss create_context: scratch alloc")
  | (h, scratch, true) =>
      match h.hbiAlloc .layers blocks.layers with
      | (h, none) =>
          (h, { GptOssPointers.zero with scratch := scratch },
            errSet .oom "gpt_oss create_context: scratch alloc")
      | (h, some layers) =>
          match h.hbiKvManagerCreate blocks.manager blocks.mutex mutexInit with
          | (h, .error e) => (h, ⟨scratch, some layers, none, none⟩, .error e)
          | (h, .ok mgr) =>
              let shape := kvShape desc (desc.hiddenSize / desc.numAttentionHeads)
              match h.hbiKvContextCreate mgr .fp32 shape shape blocks.kv with
              | (h, .error e) => (h, ⟨scratch, some layers, some mgr, none⟩, .error e)
              | (h, .ok (mgr, handle)) =>
                  (h, ⟨scratch, some layers, some mgr, some handle⟩, .ok ())

/-- The releases that the cleanup of `gpt_oss_create_context` and `gpt_oss_destroy_context`
make for a private context. -/
def freeGptOss (h : HostHeap) (ctx : Nat) (p : GptOssPointers) : HostHeap :=
  let h := (p.scratch.foldl hbiFree h).hbiFree p.layers
  match p.kvManager with
  | none => h.hbiFree ctx
  | some mgr =>
      match p.kvHandle with
      | none => (h.hbiKvManagerDestroy mgr).hbiFree ctx
      | some handle =>
          let (h, mgr) := h.hbiKvContextDestroy mgr handle
          (h.hbiKvManagerDestroy mgr).hbiFree ctx

end HostHeap

/-- What `gpt_oss_create_context` leaves: the heap, `*out_ctx`, and the status. -/
structure CreatedContext where
  heap : HostHeap
  outCtx : Option ModelContextPtr
  status : Result Unit

/-- What follows the division in `gpt_oss_create_context`. -/
def finishBlocks (desc : ModelDescriptor) (blocks : GptOssBlocks) (mutexInit : Bool)
    (fctx ctx : Nat) (h : HostHeap) : CreatedContext :=
  match h.fillContext desc blocks mutexInit with
  | (h, p, .ok ()) => ⟨h, some ⟨fctx, some (ctx, p)⟩, .ok ()⟩
  | (h, p, .error e) => ⟨(h.freeGptOss ctx p).hbiFree fctx, none, .error e⟩

/-- `gpt_oss_create_context` on the blocks. Between the second request and the third it divides
by the number of attention heads, and does not get past that if there are none. -/
def gptOssCreateBlocks (desc : ModelDescriptor) (blocks : GptOssBlocks) (mutexInit : Bool)
    (h : HostHeap) : Option CreatedContext :=
  match h.hbiAlloc .modelContext blocks.outer with
  | (h, none) => some ⟨h, none, errSet .oom "gpt_oss create_context: outer alloc"⟩
  | (h, some fctx) =>
      match h.hbiAlloc .gptOssContext blocks.inner with
      | (h, none) =>
          some ⟨h.hbiFree fctx, none, errSet .oom "gpt_oss create_context: private alloc"⟩
      | (h, some ctx) =>
          if desc.numAttentionHeads = 0 then none
          else some (finishBlocks desc blocks mutexInit fctx ctx h)

def gptOssDestroyContext (h : HostHeap) (fctx : ModelContextPtr) : HostHeap :=
  match fctx.privateData with
  | none => h.hbiFree fctx.block
  | some (ctx, p) => (h.freeGptOss ctx p).hbiFree fctx.block

/-- Of the blocks since an earlier heap those in the two lists are alive, and nothing went
wrong. -/
structure HostHeap.Holds (base h : HostHeap) (fs ps : List Nat) : Prop where
  framework : base.framework.Since h.framework fs
  platform : base.platform.Since h.platform ps

namespace HostHeap

variable {base h : HostHeap} {fs fs' ps ps' : List Nat}

theorem holds_refl (h : HostHeap) : h.Holds h [] [] := ⟨.refl _, .refl _⟩

theorem Holds.perm (hs : base.Holds h fs ps) (hf : fs.Perm fs') (hp : ps.Perm ps') :
    base.Holds h fs' ps' :=
  ⟨hs.framework.perm hf, hs.platform.perm hp⟩

theorem Holds.hbiFree {o : Option Nat} (hs : base.Holds h (o.toList ++ fs) ps) :
    base.Holds (h.hbiFree o) fs ps := by
  cases o with
  | none => exact hs
  | some block => exact ⟨hs.framework.destroy, hs.platform⟩

theorem Holds.hbiFreeAll {blocks : List (Option Nat)}
    (hs : base.Holds h (blocks.reduceOption ++ fs) ps) :
    base.Holds (blocks.foldl HostHeap.hbiFree h) fs ps := by
  induction blocks generalizing h with
  | nil => exact hs
  | cons o blocks ih =>
      refine ih (Holds.hbiFree ?_)
      cases o with
      | none => exact hs
      | some block => exact hs

theorem Holds.platformFree {block : Nat} (hs : base.Holds h fs (block :: ps)) :
    base.Holds (h.platformFree block) fs ps :=
  ⟨hs.framework, hs.platform.destroy⟩

theorem hbiAlloc_holds (hs : base.Holds h fs ps) (use : BlockUse) (granted : Bool) :
    h.hbiAlloc use granted = (h, none) ∨
      ∃ h' block, h.hbiAlloc use granted = (h', some block) ∧ base.Holds h' (block :: fs) ps := by
  unfold hbiAlloc
  cases granted with
  | false => exact Or.inl rfl
  | true => exact Or.inr ⟨_, _, rfl, hs.framework.create use, hs.platform⟩

theorem hbiMutexInit_holds (hs : base.Holds h fs ps) (alloc init : Bool) :
    ∃ h', h.hbiMutexInit alloc init = (h', none) ∧ base.Holds h' fs ps ∨
      ∃ m, h.hbiMutexInit alloc init = (h', some m) ∧ base.Holds h' fs (m :: ps) := by
  have hnew := hs.platform.create BlockUse.mutex
  unfold hbiMutexInit platformAlloc
  cases alloc with
  | false => exact ⟨h, Or.inl ⟨rfl, hs⟩⟩
  | true =>
      cases init with
      | false => exact ⟨_, Or.inl ⟨rfl, hs.framework, hnew.destroy⟩⟩
      | true => exact ⟨_, Or.inr ⟨_, rfl, hs.framework, hnew⟩⟩

theorem hbiTensorAllocAligned_holds (hs : base.Holds h fs ps) (dtype : Dtype) (shape : Shape)
    (block : Option (AlignedBlock hbiTensorDefaultAlign)) :
    (∃ e, h.hbiTensorAllocAligned dtype shape block = (h, .error e)) ∨
      ∃ h' data, h.hbiTensorAllocAligned dtype shape block = (h', .ok data) ∧
        base.Holds h' fs (data :: ps) := by
  unfold hbiTensorAllocAligned
  cases Hummingbird.hbiTensorAllocAligned dtype shape hbiTensorDefaultAlign block with
  | error e => exact Or.inl ⟨e, rfl⟩
  | ok t => exact Or.inr ⟨_, _, rfl, hs.framework, hs.platform.create .tensorData⟩

theorem hbiKvAllocatorContiguousAllocate_holds (hs : base.Holds h fs ps) (dtype : Dtype)
    (kShape vShape : Shape) (blocks : PageBlocks) :
    (∃ h' e, h.hbiKvAllocatorContiguousAllocate dtype kShape vShape blocks = (h', .error e) ∧
        base.Holds h' fs ps) ∨
      ∃ h' page k v, h.hbiKvAllocatorContiguousAllocate dtype kShape vShape blocks =
          (h', .ok (page, k, v)) ∧ base.Holds h' (page :: fs) (k :: v :: ps) := by
  unfold hbiKvAllocatorContiguousAllocate
  rcases hbiAlloc_holds hs .page blocks.page with hres | ⟨h₁, page, hres, hs₁⟩
  · rw [hres]
    exact Or.inl ⟨_, _, rfl, hs⟩
  · rw [hres]
    dsimp only
    rcases hbiTensorAllocAligned_holds hs₁ dtype kShape blocks.k with ⟨e, hk⟩ | ⟨h₂, k, hk, hs₂⟩
    · rw [hk]
      exact Or.inl ⟨_, _, rfl, Holds.hbiFree hs₁⟩
    · rw [hk]
      dsimp only
      rcases hbiTensorAllocAligned_holds hs₂ dtype vShape blocks.v with
        ⟨e, hv⟩ | ⟨h₃, v, hv, hs₃⟩
      · rw [hv]
        exact Or.inl ⟨_, _, rfl, Holds.hbiFree hs₂.platformFree⟩
      · rw [hv]
        exact Or.inr ⟨_, _, _, _, rfl, hs₃.perm (List.Perm.refl _) (List.Perm.swap _ _ _)⟩

theorem hbiKvManagerCreate_holds (hs : base.Holds h fs ps) (alloc mutex init : Bool) :
    (∃ h' e, h.hbiKvManagerCreate alloc mutex init = (h', .error e) ∧ base.Holds h' fs ps) ∨
      ∃ h' block m, h.hbiKvManagerCreate alloc mutex init = (h', .ok ⟨block, m, []⟩) ∧
        base.Holds h' (block :: fs) (m :: ps) := by
  unfold hbiKvManagerCreate
  rcases hbiAlloc_holds hs .kvManager alloc with hres | ⟨h₁, block, hres, hs₁⟩
  · rw [hres]
    exact Or.inl ⟨_, _, rfl, hs⟩
  · rw [hres]
    dsimp only
    obtain ⟨h₂, ⟨hm, hs₂⟩ | ⟨m, hm, hs₂⟩⟩ := hbiMutexInit_holds hs₁ mutex init
    · rw [hm]
      exact Or.inl ⟨_, _, rfl, Holds.hbiFree hs₂⟩
    · rw [hm]
      exact Or.inr ⟨_, _, _, rfl, hs₂⟩

theorem hbiKvContextCreate_holds (hs : base.Holds h fs ps) (mgr : ManagerPtr) (dtype : Dtype)
    (kShape vShape : Shape) (blocks : ContextBlocks) :
    (∃ h' e, h.hbiKvContextCreate mgr dtype kShape vShape blocks = (h', .error e) ∧
        base.Holds h' fs ps) ∨
      ∃ h' ctx, h.hbiKvContextCreate mgr dtype kShape vShape blocks =
          (h', .ok ({ mgr with contexts := mgr.contexts ++ [ctx] }, ctx)) ∧
        base.Holds h' (ctx.page :: ctx.handle :: fs) (ctx.kData :: ctx.vData :: ps) := by
  unfold hbiKvContextCreate
  by_cases hfull : mgr.contexts.length ≥ hbiKvMaxContexts
  · rw [if_pos hfull]
    exact Or.inl ⟨_, _, rfl, hs⟩
  · rw [if_neg hfull]
    rcases hbiAlloc_holds hs .contextHandle blocks.handle with hres | ⟨h₁, handle, hres, hs₁⟩
    · rw [hres]
      exact Or.inl ⟨_, _, rfl, hs⟩
    · rw [hres]
      dsimp only
      rcases hbiKvAllocatorContiguousAllocate_holds hs₁ dtype kShape vShape blocks.toPageBlocks
        with ⟨h₂, e, hpages, hs₂⟩ | ⟨h₂, page, k, v, hpages, hs₂⟩
      · rw [hpages]
        exact Or.inl ⟨_, _, rfl, Holds.hbiFree hs₂⟩
      · rw [hpages]
        exact Or.inr ⟨_, ⟨handle, page, k, v⟩, rfl, hs₂⟩

theorem allocScratch_holds (hs : base.Holds h fs ps) (answers : List Bool) :
    base.Holds (h.allocScratch answers).1
      ((h.allocScratch answers).2.1.reduceOption ++ fs) ps := by
  induction answers generalizing h fs with
  | nil => exact hs
  | cons granted answers ih =>
      unfold allocScratch
      rcases hbiAlloc_holds hs .scratch granted with hres | ⟨h', block, hres, hs'⟩
      · rw [hres]
        simpa [List.reduceOption_replicate_none] using hs
      · rw [hres]
        exact (ih hs').perm List.perm_middle (List.Perm.refl _)

theorem Holds.freeHandle {ctx : HandlePtr}
    (hs : base.Holds h (ctx.page :: ctx.handle :: fs) (ctx.kData :: ctx.vData :: ps)) :
    base.Holds (h.freeHandle ctx) fs ps := by
  have hbuffers := hs.platformFree.platformFree
  exact Holds.hbiFree (o := some ctx.handle) (Holds.hbiFree (o := some ctx.page) hbuffers)

end HostHeap

/-- The blocks of the framework behind a manager. -/
def ManagerPtr.frameworkBlocks (mgr : ManagerPtr) : List Nat :=
  (mgr.contexts.flatMap fun ctx => [ctx.page, ctx.handle]) ++ [mgr.block]

/-- The blocks of the platform behind a manager. -/
def ManagerPtr.platformBlocks (mgr : ManagerPtr) : List Nat :=
  (mgr.contexts.flatMap fun ctx => [ctx.kData, ctx.vData]) ++ [mgr.mutex]

def GptOssPointers.frameworkBlocks (p : GptOssPointers) : List Nat :=
  p.kvManager.elim [] ManagerPtr.frameworkBlocks ++ (p.layers.toList ++ p.scratch.reduceOption)

def GptOssPointers.platformBlocks (p : GptOssPointers) : List Nat :=
  p.kvManager.elim [] ManagerPtr.platformBlocks

/-- The handle of a private context is one of its manager. -/
def GptOssPointers.Linked (p : GptOssPointers) : Prop :=
  ∀ handle mgr, p.kvHandle = some handle → p.kvManager = some mgr → handle ∈ mgr.contexts

namespace HostHeap

variable {base h : HostHeap} {fs ps : List Nat}

theorem Holds.hbiKvContextDestroy {mgr : ManagerPtr} {ctx : HandlePtr} (hctx : ctx ∈ mgr.contexts)
    (hs : base.Holds h (mgr.frameworkBlocks ++ fs) (mgr.platformBlocks ++ ps)) :
    base.Holds (h.hbiKvContextDestroy mgr ctx).1
      ((h.hbiKvContextDestroy mgr ctx).2.frameworkBlocks ++ fs)
      ((h.hbiKvContextDestroy mgr ctx).2.platformBlocks ++ ps) := by
  have hperm : mgr.contexts.Perm (ctx :: removeFrom mgr.contexts ctx) :=
    (List.perm_cons_erase hctx).trans ((removeFrom_perm hctx).symm.cons ctx)
  refine Holds.freeHandle (hs.perm ?_ ?_)
  · have hblocks := hperm.flatMap_right fun ctx => [ctx.page, ctx.handle]
    exact (hblocks.append_right [mgr.block]).append_right fs
  · have hblocks := hperm.flatMap_right fun ctx => [ctx.kData, ctx.vData]
    exact (hblocks.append_right [mgr.mutex]).append_right ps

theorem Holds.hbiKvManagerDestroy {mgr : ManagerPtr}
    (hs : base.Holds h (mgr.frameworkBlocks ++ fs) (mgr.platformBlocks ++ ps)) :
    base.Holds (h.hbiKvManagerDestroy mgr) fs ps := by
  obtain ⟨block, mutex, contexts⟩ := mgr
  unfold HostHeap.hbiKvManagerDestroy
  dsimp only
  have hcontexts :
      base.Holds (contexts.foldl HostHeap.freeHandle h) (block :: fs) (mutex :: ps) := by
    unfold ManagerPtr.frameworkBlocks ManagerPtr.platformBlocks at hs
    dsimp only at hs
    induction contexts generalizing h with
    | nil => exact hs
    | cons ctx contexts ih => exact ih (Holds.freeHandle hs)
  exact Holds.hbiFree (o := some block) hcontexts.platformFree

/-- From the order of the requests to that of the releases. -/
theorem release_order (mgr layers scratch rest : List Nat) :
    (mgr ++ (layers ++ scratch) ++ rest).Perm (scratch ++ (layers ++ (mgr ++ rest))) := by
  rw [← Multiset.coe_eq_coe]
  simp only [← Multiset.coe_add]
  abel

/-- The common path releases everything that hangs on a private context, and the private
context. -/
theorem Holds.freeGptOss {p : GptOssPointers} {ctx : Nat} (hlinked : p.Linked)
    (hs : base.Holds h (p.frameworkBlocks ++ ctx :: fs) (p.platformBlocks ++ ps)) :
    base.Holds (h.freeGptOss ctx p) fs ps := by
  obtain ⟨scratch, layers, kvManager, kvHandle⟩ := p
  unfold GptOssPointers.frameworkBlocks GptOssPointers.platformBlocks at hs
  dsimp only at hs
  have hbuffers := Holds.hbiFree (Holds.hbiFreeAll
    (hs.perm (release_order _ _ _ _) (List.Perm.refl _)))
  unfold HostHeap.freeGptOss
  dsimp only
  cases kvManager with
  | none => exact Holds.hbiFree (o := some ctx) hbuffers
  | some mgr =>
      cases kvHandle with
      | none => exact Holds.hbiFree (o := some ctx) (Holds.hbiKvManagerDestroy hbuffers)
      | some handle =>
          have hmem : handle ∈ mgr.contexts := hlinked handle mgr rfl rfl
          exact Holds.hbiFree (o := some ctx)
            (Holds.hbiKvManagerDestroy (Holds.hbiKvContextDestroy hmem hbuffers))

/-- Whatever step fails, what the pointers of the private context lead to is alive. -/
theorem fillContext_holds (hs : base.Holds h fs ps) (desc : ModelDescriptor)
    (blocks : GptOssBlocks) (mutexInit : Bool) :
    (h.fillContext desc blocks mutexInit).2.1.Linked ∧
      base.Holds (h.fillContext desc blocks mutexInit).1
        ((h.fillContext desc blocks mutexInit).2.1.frameworkBlocks ++ fs)
        ((h.fillContext desc blocks mutexInit).2.1.platformBlocks ++ ps) := by
  have hscratch := allocScratch_holds hs (List.ofFn blocks.scratch)
  unfold fillContext
  generalize h.allocScratch (List.ofFn blocks.scratch) = res at hscratch
  obtain ⟨h₁, scratch, all⟩ := res
  have hunlinked : ∀ layers kvManager, GptOssPointers.Linked ⟨scratch, layers, kvManager, none⟩ :=
    fun _ _ _ _ hnone => nomatch hnone
  cases all with
  | false => exact ⟨hunlinked _ _, hscratch⟩
  | true =>
      dsimp only
      rcases hbiAlloc_holds hscratch .layers blocks.layers with hres | ⟨h₂, layers, hres, hs₂⟩
      · rw [hres]
        exact ⟨hunlinked _ _, hscratch⟩
      · rw [hres]
        dsimp only
        rcases hbiKvManagerCreate_holds hs₂ blocks.manager blocks.mutex mutexInit with
          ⟨h₃, e, hres₃, hs₃⟩ | ⟨h₃, block, m, hres₃, hs₃⟩
        · rw [hres₃]
          exact ⟨hunlinked _ _, hs₃⟩
        · rw [hres₃]
          dsimp only
          rcases hbiKvContextCreate_holds hs₃ ⟨block, m, []⟩ .fp32
              (kvShape desc (desc.hiddenSize / desc.numAttentionHeads))
              (kvShape desc (desc.hiddenSize / desc.numAttentionHeads)) blocks.kv with
            ⟨h₄, e, hres₄, hs₄⟩ | ⟨h₄, ctx, hres₄, hs₄⟩
          · rw [hres₄]
            exact ⟨hunlinked _ _, hs₄⟩
          · rw [hres₄]
            refine ⟨?_, hs₄⟩
            intro handle mgr hhandle hmgr
            obtain rfl := Option.some.inj hhandle
            obtain rfl := Option.some.inj hmgr
            simp

end HostHeap

/-- The status of an answer. -/
def Result.status {α : Type} (r : Result α) : Result Unit := r.map fun _ => ()

namespace HostHeap

theorem hbiAlloc_eq (h : HostHeap) (use : BlockUse) (granted : Bool) :
    granted = false ∧ h.hbiAlloc use granted = (h, none) ∨
      granted = true ∧ ∃ h' block, h.hbiAlloc use granted = (h', some block) := by
  cases granted with
  | false => exact Or.inl ⟨rfl, rfl⟩
  | true => exact Or.inr ⟨rfl, _, _, rfl⟩

theorem hbiKvAllocatorContiguousAllocate_status (h : HostHeap) (capacity : Nat) (dtype : Dtype)
    (kShape vShape : Shape) (blocks : PageBlocks) :
    (h.hbiKvAllocatorContiguousAllocate dtype kShape vShape blocks).2.status =
      (Hummingbird.hbiKvAllocatorContiguousAllocate capacity dtype kShape vShape
        blocks).status := by
  unfold hbiKvAllocatorContiguousAllocate Hummingbird.hbiKvAllocatorContiguousAllocate
  rcases hbiAlloc_eq h .page blocks.page with ⟨hpage, hres⟩ | ⟨hpage, h₁, page, hres⟩
  · rw [hres, if_pos hpage]
    rfl
  · rw [hres, if_neg (by simp [hpage])]
    dsimp only
    unfold hbiTensorAllocAligned
    cases Hummingbird.hbiTensorAllocAligned dtype kShape hbiTensorDefaultAlign blocks.k with
    | error e => rfl
    | ok k =>
        cases Hummingbird.hbiTensorAllocAligned dtype vShape hbiTensorDefaultAlign blocks.v with
        | error e => rfl
        | ok v => rfl

theorem hbiKvContextCreate_status (h : HostHeap) (block m capacity : Nat) (dtype : Dtype)
    (kShape vShape : Shape) (blocks : ContextBlocks) :
    (h.hbiKvContextCreate ⟨block, m, []⟩ dtype kShape vShape blocks).2.status =
      (Hummingbird.hbiKvContextCreate KvManager.empty capacity dtype kShape vShape
        blocks).status := by
  have hempty : ¬([] : List HandlePtr).length ≥ hbiKvMaxContexts := by decide
  have hnone : ¬KvManager.empty.contexts.length ≥ hbiKvMaxContexts := by decide
  unfold hbiKvContextCreate Hummingbird.hbiKvContextCreate
  dsimp only
  rw [if_neg hempty, if_neg hnone]
  rcases hbiAlloc_eq h .contextHandle blocks.handle with ⟨hhandle, hres⟩ | ⟨hhandle, h₁, b, hres⟩
  · rw [hres, if_pos hhandle]
    rfl
  · rw [hres, if_neg (by simp [hhandle])]
    dsimp only
    have hpages := hbiKvAllocatorContiguousAllocate_status h₁ capacity dtype kShape vShape
      blocks.toPageBlocks
    generalize h₁.hbiKvAllocatorContiguousAllocate dtype kShape vShape blocks.toPageBlocks = res
      at hpages
    generalize Hummingbird.hbiKvAllocatorContiguousAllocate capacity dtype kShape vShape
      blocks.toPageBlocks = pages at hpages
    obtain ⟨h₂, answer⟩ := res
    cases answer with
    | error e =>
        cases pages with
        | error e' => exact hpages
        | ok pages => cases hpages
    | ok answer =>
        cases pages with
        | error e' => cases hpages
        | ok pages => rfl

theorem allocScratch_all (h : HostHeap) (answers : List Bool) :
    (h.allocScratch answers).2.2 = answers.all id := by
  induction answers generalizing h with
  | nil => rfl
  | cons granted answers ih =>
      unfold allocScratch
      rcases hbiAlloc_eq h .scratch granted with ⟨rfl, hres⟩ | ⟨rfl, h', block, hres⟩
      · rw [hres]
        rfl
      · rw [hres]
        exact ih h'

theorem hbiKvManagerCreate_eq (h : HostHeap) (alloc mutex init : Bool) :
    (∃ e h', h.hbiKvManagerCreate alloc mutex init = (h', .error e) ∧
        Hummingbird.hbiKvManagerCreate alloc (mutex && init) = .error e) ∨
      ∃ h' block m, h.hbiKvManagerCreate alloc mutex init = (h', .ok ⟨block, m, []⟩) ∧
        Hummingbird.hbiKvManagerCreate alloc (mutex && init) = .ok KvManager.empty := by
  cases alloc with
  | false => exact Or.inl ⟨_, _, rfl, rfl⟩
  | true =>
      cases mutex with
      | false => exact Or.inl ⟨_, _, rfl, rfl⟩
      | true =>
          cases init with
          | false => exact Or.inl ⟨_, _, rfl, rfl⟩
          | true => exact Or.inr ⟨_, _, _, rfl, rfl⟩

theorem fillContext_status (h : HostHeap) (desc : ModelDescriptor) (blocks : GptOssBlocks)
    (mutexInit : Bool) :
    (h.fillContext desc blocks mutexInit).2.2 =
      if (∃ i, blocks.scratch i = false) ∨ blocks.layers = false then
        errSet .oom "gpt_oss create_context: scratch alloc"
      else do
        let mgr ← Hummingbird.hbiKvManagerCreate blocks.manager (blocks.mutex && mutexInit)
        let shape := kvShape desc (desc.hiddenSize / desc.numAttentionHeads)
        let _ ← Hummingbird.hbiKvContextCreate mgr desc.maxSeqLength .fp32 shape shape blocks.kv
        return () := by
  have hgranted : (h.allocScratch (List.ofFn blocks.scratch)).2.2 = true ↔
      ∀ i, blocks.scratch i = true := by
    rw [allocScratch_all, List.all_eq_true]
    exact List.forall_mem_ofFn_iff
  unfold fillContext
  generalize h.allocScratch (List.ofFn blocks.scratch) = res at hgranted
  obtain ⟨h₁, scratch, all⟩ := res
  cases all with
  | false =>
      have hrefused : ∃ i, blocks.scratch i = false := by simpa using hgranted
      rw [if_pos (Or.inl hrefused)]
  | true =>
      have hnone : ¬∃ i, blocks.scratch i = false := by simpa using hgranted
      dsimp only
      rcases hbiAlloc_eq h₁ .layers blocks.layers with ⟨hlayers, hres⟩ | ⟨hlayers, h₂, b, hres⟩
      · rw [hres, if_pos (Or.inr hlayers)]
      · rw [hres, if_neg (by simp [hnone, hlayers])]
        dsimp only
        rcases hbiKvManagerCreate_eq h₂ blocks.manager blocks.mutex mutexInit with
          ⟨e, h₃, hmgr, hval⟩ | ⟨h₃, block, m, hmgr, hval⟩
        · rw [hmgr, hval]
          rfl
        · rw [hmgr, hval]
          dsimp only [bind, Except.bind]
          have hstatus := hbiKvContextCreate_status h₃ block m desc.maxSeqLength .fp32
            (kvShape desc (desc.hiddenSize / desc.numAttentionHeads))
            (kvShape desc (desc.hiddenSize / desc.numAttentionHeads)) blocks.kv
          generalize h₃.hbiKvContextCreate ⟨block, m, []⟩ .fp32
            (kvShape desc (desc.hiddenSize / desc.numAttentionHeads))
            (kvShape desc (desc.hiddenSize / desc.numAttentionHeads)) blocks.kv = res at hstatus
          generalize Hummingbird.hbiKvContextCreate KvManager.empty desc.maxSeqLength .fp32
            (kvShape desc (desc.hiddenSize / desc.numAttentionHeads))
            (kvShape desc (desc.hiddenSize / desc.numAttentionHeads)) blocks.kv = value at hstatus
          obtain ⟨h₄, answer⟩ := res
          cases answer with
          | error e =>
              cases value with
              | error e' => exact hstatus
              | ok value => cases hstatus
          | ok answer =>
              cases value with
              | error e' => cases hstatus
              | ok value => rfl

end HostHeap

theorem finishBlocks_status {F : Type} (desc : ModelDescriptor) (eps theta : F)
    (blocks : GptOssBlocks) (mutexInit : Bool) (fctx ctx : Nat) (h : HostHeap) :
    (finishBlocks desc blocks mutexInit fctx ctx h).status =
      (fillGptOssContext desc eps theta
        { blocks with mutex := blocks.mutex && mutexInit }).status := by
  have hfilled := h.fillContext_status desc blocks mutexInit
  unfold finishBlocks fillGptOssContext
  generalize h.fillContext desc blocks mutexInit = res at hfilled
  obtain ⟨h₁, p, answer⟩ := res
  change (match (h₁, p, answer) with
      | (h, p, .ok ()) => (⟨h, some ⟨fctx, some (ctx, p)⟩, .ok ()⟩ : CreatedContext)
      | (h, p, .error e) => ⟨(h.freeGptOss ctx p).hbiFree fctx, none, .error e⟩).status = _
  dsimp only
  by_cases hrefused : (∃ i, blocks.scratch i = false) ∨ blocks.layers = false
  · rw [if_pos hrefused] at hfilled ⊢
    change answer = _ at hfilled
    rw [hfilled]
    rfl
  · rw [if_neg hrefused] at hfilled ⊢
    change answer = _ at hfilled
    rw [hfilled]
    cases hbiKvManagerCreate blocks.manager (blocks.mutex && mutexInit) with
    | error e => rfl
    | ok mgr =>
        dsimp only [bind, Except.bind]
        cases hbiKvContextCreate mgr desc.maxSeqLength .fp32
          (kvShape desc (desc.hiddenSize / desc.numAttentionHeads))
          (kvShape desc (desc.hiddenSize / desc.numAttentionHeads)) blocks.kv with
        | error e => rfl
        | ok value => rfl

/-- The creation on blocks has the status of the creation on values. -/
theorem gptOssCreateBlocks_status {F : Type} (desc : ModelDescriptor) (eps theta : F)
    (blocks : GptOssBlocks) (mutexInit : Bool) (h : HostHeap) :
    (gptOssCreateBlocks desc blocks mutexInit h).map CreatedContext.status =
      (gptOssCreateContext desc eps theta
        { blocks with mutex := blocks.mutex && mutexInit }).map Result.status := by
  unfold gptOssCreateBlocks gptOssCreateContext
  dsimp only
  rcases h.hbiAlloc_eq .modelContext blocks.outer with ⟨houter, hres⟩ | ⟨houter, h₁, fctx, hres⟩
  · rw [hres, if_pos houter]
    rfl
  · rw [hres, if_neg (by simp [houter])]
    dsimp only
    rcases h₁.hbiAlloc_eq .gptOssContext blocks.inner with
      ⟨hinner, hres₁⟩ | ⟨hinner, h₂, ctx, hres₁⟩
    · rw [hres₁, if_pos hinner]
      rfl
    · rw [hres₁, if_neg (by simp [hinner])]
      dsimp only
      by_cases hheads : desc.numAttentionHeads = 0
      · rw [if_pos hheads, if_pos hheads]
        rfl
      · rw [if_neg hheads, if_neg hheads, Option.map_some, Option.map_some,
          finishBlocks_status desc eps theta]

/-- The creation ends. If it is refused it leaves no block and no context; if it is granted the
matching destruction releases every block of it once. -/
def CreatedAllOrNothing (desc : ModelDescriptor) (blocks : GptOssBlocks) (mutexInit : Bool)
    (h : HostHeap) : Prop :=
  ∃ r, gptOssCreateBlocks desc blocks mutexInit h = some r ∧
    ((∃ fctx, r.status = .ok () ∧ r.outCtx = some fctx ∧
        h.Holds (gptOssDestroyContext r.heap fctx) [] []) ∨
      ∃ e, r.status = .error e ∧ r.outCtx = none ∧ h.Holds r.heap [] [])

theorem finishBlocks_allOrNothing {base h : HostHeap} {fctx ctx : Nat}
    (hs : base.Holds h [ctx, fctx] []) (desc : ModelDescriptor) (blocks : GptOssBlocks)
    (mutexInit : Bool) :
    (∃ outer, (finishBlocks desc blocks mutexInit fctx ctx h).status = .ok () ∧
      (finishBlocks desc blocks mutexInit fctx ctx h).outCtx = some outer ∧
      base.Holds (gptOssDestroyContext
        (finishBlocks desc blocks mutexInit fctx ctx h).heap outer) [] []) ∨
    ∃ e, (finishBlocks desc blocks mutexInit fctx ctx h).status = .error e ∧
      (finishBlocks desc blocks mutexInit fctx ctx h).outCtx = none ∧
      base.Holds (finishBlocks desc blocks mutexInit fctx ctx h).heap [] [] := by
  obtain ⟨hlinked, hfilled⟩ := HostHeap.fillContext_holds hs desc blocks mutexInit
  unfold finishBlocks
  generalize h.fillContext desc blocks mutexInit = res at hlinked hfilled
  obtain ⟨h₁, p, status⟩ := res
  have hfreed : base.Holds ((h₁.freeGptOss ctx p).hbiFree fctx) [] [] :=
    HostHeap.Holds.hbiFree (o := some fctx) (HostHeap.Holds.freeGptOss hlinked hfilled)
  cases status with
  | ok _ => exact Or.inl ⟨_, rfl, rfl, hfreed⟩
  | error e => exact Or.inr ⟨e, rfl, rfl, hfreed⟩

/-- Whatever requests are refused, a context is created as a whole or not at all exactly when the
descriptor has attention heads, or the creation ends before it divides by them. -/
theorem gpt_oss_create_context_all_or_nothing (desc : ModelDescriptor) (blocks : GptOssBlocks)
    (mutexInit : Bool) (h : HostHeap) :
    CreatedAllOrNothing desc blocks mutexInit h ↔
      (desc.numAttentionHeads = 0 → blocks.outer = false ∨ blocks.inner = false) := by
  have hs := HostHeap.holds_refl h
  unfold CreatedAllOrNothing gptOssCreateBlocks
  cases houter : blocks.outer with
  | false => exact iff_of_true ⟨_, rfl, Or.inr ⟨_, rfl, rfl, hs⟩⟩ fun _ => Or.inl rfl
  | true =>
      rcases HostHeap.hbiAlloc_holds hs .modelContext true with hres | ⟨h₁, fctx, hres, hs₁⟩
      · cases congrArg Prod.snd hres
      · rw [hres]
        dsimp only
        cases hinner : blocks.inner with
        | false =>
            refine iff_of_true ⟨_, rfl, Or.inr ⟨_, rfl, rfl, ?_⟩⟩ fun _ => Or.inr rfl
            exact HostHeap.Holds.hbiFree (o := some fctx) hs₁
        | true =>
            rcases HostHeap.hbiAlloc_holds hs₁ .gptOssContext true with
              hres₁ | ⟨h₂, ctx, hres₁, hs₂⟩
            · cases congrArg Prod.snd hres₁
            · rw [hres₁]
              dsimp only
              by_cases hheads : desc.numAttentionHeads = 0
              · rw [if_pos hheads]
                refine iff_of_false ?_ fun hrefused => ?_
                · rintro ⟨r, hr, -⟩
                  cases hr
                · rcases hrefused hheads with hno | hno <;> cases hno
              · rw [if_neg hheads]
                exact iff_of_true ⟨_, rfl, finishBlocks_allOrNothing hs₂ desc blocks mutexInit⟩
                  fun hzero => absurd hzero hheads

/-- A descriptor without attention heads, with all requests granted: the creation has no result,
neither a context nor an error. -/
theorem gpt_oss_create_context_no_heads :
    let blocks : GptOssBlocks :=
      ⟨true, true, fun _ => true, true, true, true, ⟨⟨true, none, none⟩, true⟩⟩
    let heap : HostHeap := ⟨⟨[], 0⟩, ⟨[], 0⟩⟩
    gptOssCreateBlocks ⟨2, 1, 0, 1, 1, 1, 2⟩ blocks true heap = none ∧
      ¬ CreatedAllOrNothing ⟨2, 1, 0, 1, 1, 1, 2⟩ blocks true heap := by
  refine ⟨rfl, ?_⟩
  rintro ⟨r, hr, -⟩
  cases hr

end Hummingbird

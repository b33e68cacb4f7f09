import Hummingbird.Adapter.Descriptor
import Hummingbird.Kv.Steps

/-!
The private context of a GPT-OSS model: the geometry copied from the descriptor, the
weight tensors and the KV context with its single page. A weight that was not bound has
a null data pointer, which is `none` here. The answers of the allocator are arguments.
-/

namespace Hummingbird

/-- The nine slots of a layer. -/
structure LayerWeights (α : Type) where
  qProj : α
  kProj : α
  vProj : α
  oProj : α
  inputNorm : α
  postNorm : α
  gateProj : α
  upProj : α
  downProj : α

def LayerWeights.map {α β : Type} (f : α → β) (lw : LayerWeights α) : LayerWeights β :=
  ⟨f lw.qProj, f lw.kProj, f lw.vProj, f lw.oProj, f lw.inputNorm, f lw.postNorm,
    f lw.gateProj, f lw.upProj, f lw.downProj⟩

/-- The data of a layer, if none of its slots is null. -/
def LayerWeights.cdata {α : Type} (lw : LayerWeights (Option α)) : Option (LayerWeights α) := do
  let inputNorm ← lw.inputNorm
  let postNorm ← lw.postNorm
  let qProj ← lw.qProj
  let kProj ← lw.kProj
  let vProj ← lw.vProj
  let oProj ← lw.oProj
  let gateProj ← lw.gateProj
  let upProj ← lw.upProj
  let downProj ← lw.downProj
  return ⟨qProj, kProj, vProj, oProj, inputNorm, postNorm, gateProj, upProj, downProj⟩

/-- A zeroed entry of the layer array. -/
def LayerWeights.zero (α : Type) : LayerWeights (Option α) :=
  ⟨none, none, none, none, none, none, none, none, none⟩

structure GptOssContext (F : Type) where
  embedTokens : Option (Nat → F)
  finalNorm : Option (Nat → F)
  lmHead : Option (Nat → F)
  layers : List (LayerWeights (Option (Nat → F)))
  numLayers : Nat
  hiddenSize : Nat
  numQHeads : Nat
  numKvHeads : Nat
  headDim : Nat
  intermediateSize : Nat
  vocabSize : Nat
  rmsNormEps : F
  ropeTheta : F
  kvManager : KvManager
  kvHandle : Nat
  initialized : Bool

/-- Answers to the requests of `gpt_oss_create_context`: the framework context, the
private context, the nine scratch buffers in order, the layer array, the KV manager with
its mutex, and the KV context. -/
structure GptOssBlocks where
  outer : Bool
  inner : Bool
  scratch : Fin 9 → Bool
  layers : Bool
  manager : Bool
  mutex : Bool
  kv : ContextBlocks

/-- `hbi_kv_manager_create` with the answers to its two requests. -/
def hbiKvManagerCreate (alloc mutex : Bool) : Result KvManager :=
  if alloc = false then errSet .oom "manager create: alloc failed"
  else if mutex = false then errSet .oom "manager create: mutex init failed"
  else .ok KvManager.empty

/-- `num_pages` is the length of the page array. -/
def hbiKvContextGetPage (mgr : KvManager) (h pageIndex : Nat) : Result KvPage :=
  match mgr.live h with
  | none => errSet .invalidArg "context get_page: NULL args"
  | some ctx =>
      match ctx.pages[pageIndex]? with
      | none => errSet .invalidArg s!"context get_page: index {pageIndex} out of bounds"
      | some page => .ok page

/-- The shape of the K and of the V tensor: no axis stands for the layer. -/
def kvShape (desc : ModelDescriptor) (headDim : Nat) : Shape :=
  ⟨[(desc.maxSeqLength : Int), (desc.numKvHeads : Int), (headDim : Int)]⟩

/-- What `gpt_oss_create_context` does behind its division: the scratch buffers, the layers, the
manager, and the context of the cache. -/
def fillGptOssContext {F : Type} (desc : ModelDescriptor) (rmsNormEps ropeTheta : F)
    (blocks : GptOssBlocks) : Result (GptOssContext F) :=
  if (∃ i, blocks.scratch i = false) ∨ blocks.layers = false then
    errSet .oom "gpt_oss create_context: scratch alloc"
  else do
    let headDim := desc.hiddenSize / desc.numAttentionHeads
    let manager ← hbiKvManagerCreate blocks.manager blocks.mutex
    let (manager, handle) ← hbiKvContextCreate manager desc.maxSeqLength .fp32
      (kvShape desc headDim) (kvShape desc headDim) blocks.kv
    return {
      embedTokens := none, finalNorm := none, lmHead := none
      layers := List.replicate desc.numLayers (LayerWeights.zero (Nat → F))
      numLayers := desc.numLayers, hiddenSize := desc.hiddenSize
      numQHeads := desc.numAttentionHeads, numKvHeads := desc.numKvHeads
      headDim := headDim, intermediateSize := desc.intermediateSize
      vocabSize := desc.vocabSize, rmsNormEps := rmsNormEps, ropeTheta := ropeTheta
      kvManager := manager, kvHandle := handle, initialized := true }

/-- `gpt_oss_create_context`, with the two numbers that `gpt_oss_init` has stored. There is no
result where `hidden_size` is divided by no attention heads. -/
def gptOssCreateContext {F : Type} (desc : ModelDescriptor) (rmsNormEps ropeTheta : F)
    (blocks : GptOssBlocks) : Option (Result (GptOssContext F)) :=
  if blocks.outer = false then some (errSet .oom "gpt_oss create_context: outer alloc")
  else if blocks.inner = false then some (errSet .oom "gpt_oss create_context: private alloc")
  else if desc.numAttentionHeads = 0 then none
  else some (fillGptOssContext desc rmsNormEps ropeTheta blocks)

/-- A context that was created. -/
theorem gptOssCreateContext_eq_ok {F : Type} {desc : ModelDescriptor} {eps theta : F}
    {blocks : GptOssBlocks} {ctx : GptOssContext F}
    (h : gptOssCreateContext desc eps theta blocks = some (.ok ctx)) :
    desc.numAttentionHeads ≠ 0 ∧ fillGptOssContext desc eps theta blocks = .ok ctx := by
  unfold gptOssCreateContext at h
  split at h
  · cases h
  · split at h
    · cases h
    · split at h
      · cases h
      · rename_i hheads
        exact ⟨hheads, Option.some.inj h⟩

/-- Arrays for every weight slot of a model. -/
structure GptOssWeights (F : Type) where
  embedTokens : Nat → F
  finalNorm : Nat → F
  lmHead : Nat → F
  layer : Nat → LayerWeights (Nat → F)

/-- The context after every slot has been bound. -/
def GptOssContext.bindAll {F : Type} (ctx : GptOssContext F) (w : GptOssWeights F) :
    GptOssContext F :=
  { ctx with
    embedTokens := some w.embedTokens, finalNorm := some w.finalNorm, lmHead := some w.lmHead
    layers := (List.range ctx.numLayers).map fun l => (w.layer l).map some }

@[simp]
theorem LayerWeights.cdata_map_some {α : Type} (lw : LayerWeights α) :
    (lw.map some).cdata = some lw := rfl

/-- What a model context brings along for the cache: positive sizes, numbers of heads
that are `uint32_t`, and a page whose float offsets stay far below `SIZE_MAX`. -/
structure GptOssContext.Geometry {F : Type} (ctx : GptOssContext F) (maxSeq : Nat) : Prop where
  numLayers_pos : 0 < ctx.numLayers
  numQHeads_pos : 0 < ctx.numQHeads
  numQHeads_lt : ctx.numQHeads < uint32Size
  numKvHeads_pos : 0 < ctx.numKvHeads
  numKvHeads_lt : ctx.numKvHeads < uint32Size
  headDim_pos : 0 < ctx.headDim
  maxSeq_lt : maxSeq < uint32Size
  page_le : maxSeq * (ctx.numKvHeads * ctx.headDim) * 4 < sizeTSize
  page : ∃ page, hbiKvContextGetPage ctx.kvManager ctx.kvHandle 0 = .ok page
  initialized : ctx.initialized = true

/-- The shape of the page was accepted, so it has no empty axis and fits. -/
theorem kvShape_valid_of_alloc {desc : ModelDescriptor} {headDim : Nat}
    {block : Option (AlignedBlock hbiTensorDefaultAlign)} {t : Tensor}
    (h : hbiTensorAllocAligned .fp32 (kvShape desc headDim) hbiTensorDefaultAlign block = .ok t) :
    0 < headDim ∧ desc.maxSeqLength * (desc.numKvHeads * headDim) * 4 < sizeTSize := by
  have hpacked := tensorAllocImpl_packed h
  obtain ⟨hdtype, hshape, -⟩ := tensorAllocImpl_fields h
  have hvalid := hpacked.shape_valid
  have hbits := hpacked.bits_le
  rw [hshape] at hvalid
  rw [hshape, hdtype] at hbits
  have hpos := hvalid.dims_pos headDim (by simp [kvShape])
  simp only [kvShape, List.prod_cons, List.prod_nil, mul_one, hbiDtypeBits, int64Max] at hbits
  refine ⟨by exact_mod_cast hpos, ?_⟩
  unfold sizeTSize
  zify
  omega

/-- A context created from an accepted descriptor has a sound geometry, also after its
weights are bound. -/
theorem gptOssCreateContext_geometry {F : Type} {desc : ModelDescriptor} {eps theta : F}
    {blocks : GptOssBlocks} {ctx : GptOssContext F} (hdesc : desc.Accepted)
    (h : gptOssCreateContext desc eps theta blocks = some (.ok ctx)) (w : GptOssWeights F) :
    (ctx.bindAll w).Geometry desc.maxSeqLength ∧ ctx.numLayers = desc.numLayers ∧
      ctx.numQHeads = desc.numAttentionHeads ∧ ctx.numKvHeads = desc.numKvHeads ∧
      ctx.vocabSize = desc.vocabSize := by
  have hfill := (gptOssCreateContext_eq_ok h).2
  simp only [fillGptOssContext, Result.ite_errSet_eq_ok, Result.bind_eq_ok] at hfill
  obtain ⟨-, mgr, hmgr, ⟨mgr', handle⟩, hcreate, hctx⟩ := hfill
  simp only [pure, Except.pure, Except.ok.injEq] at hctx
  obtain ⟨pages, halloc, rfl, rfl⟩ := hbiKvContextCreate_eq_ok hcreate
  obtain ⟨k, v, rfl, hk, -⟩ := allocate_eq_ok halloc
  obtain ⟨hdim, hpage⟩ := kvShape_valid_of_alloc hk
  subst hctx
  refine ⟨⟨hdesc.layers.1, hdesc.attentionHeads.1, hdesc.attentionHeads.2, hdesc.kvHeads.1,
    hdesc.kvHeads.2, hdim, hdesc.seqLength.2, hpage, ?_, rfl⟩, rfl, rfl, rfl, rfl⟩
  exact ⟨⟨k, v, desc.maxSeqLength, 0⟩, by
    simp [GptOssContext.bindAll, hbiKvContextGetPage, KvManager.live, KvManager.register,
      freshContext]⟩

end Hummingbird

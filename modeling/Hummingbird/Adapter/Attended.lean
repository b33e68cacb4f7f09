import Hummingbird.Adapter.Binding
import Hummingbird.Adapter.Isolation

/-!
The rows that the attention calls of one forward pass read, whatever weights are bound and
whatever its result is. Each of them reads one row for every query head and every position up
to its own, and which row that is depends on the numbers of heads alone.
-/

namespace Hummingbird

section Safe

variable {F D : Type} {ops : FloatOps F D}

/-- Attention at a position, with any weights bound: no call divides by zero, every query
head selects a key head that exists, and every row read is a row of a position up to this
one. -/
structure AttentionSafe (ops : FloatOps F D) (ctx : GptOssContext F) (pos : Nat) : Prop where
  defined : ∀ slots call s, hbiAdapterGptOssForward ops (ctx.withSlots slots) call pos s ≠ none
  heads : ∀ qh < ctx.numQHeads, qh / (ctx.numQHeads / ctx.numKvHeads) < ctx.numKvHeads
  rows : ∀ slots call s s' status,
    hbiAdapterGptOssForward ops (ctx.withSlots slots) call pos s = some (s', status) →
    ∀ e ∈ attendedBy s s', ∀ r ∈ e.reads,
      cacheRowOffset ctx.numKvHeads ctx.headDim r.t
        (r.queryHead / (ctx.numQHeads / ctx.numKvHeads)) + ctx.headDim ≤
      (pos + 1) * (ctx.numKvHeads * ctx.headDim)

/-- A row with a head that exists ends within the rows of its position. -/
theorem cacheRowOffset_le {numKv headDim t kvh : Nat} (hkvh : kvh < numKv) :
    cacheRowOffset numKv headDim t kvh + headDim ≤ (t + 1) * (numKv * headDim) := by
  have hmod : (t * numKv + kvh) % uint32Size ≤ t * numKv + kvh := Nat.mod_le _ _
  have hrow := @row_end_le numKv t (t + 1) (Nat.lt_succ_self t)
  calc
    cacheRowOffset numKv headDim t kvh + headDim ≤ (t * numKv + kvh) * headDim + headDim :=
      Nat.add_le_add_right (Nat.mul_le_mul_right _ hmod) _
    _ = (t * numKv + kvh + 1) * headDim := by ring
    _ ≤ (t + 1) * numKv * headDim := Nat.mul_le_mul_right _ (by omega)
    _ = (t + 1) * (numKv * headDim) := by ring

/-- Attention is safe in a context whose key heads divide its query heads. -/
theorem attentionSafe_of_dvd {ctx : GptOssContext F} (hq : 0 < ctx.numQHeads)
    (hkv : 0 < ctx.numKvHeads) (hdvd : ctx.numKvHeads ∣ ctx.numQHeads) (pos : Nat) :
    AttentionSafe ops ctx pos := by
  have hle := Nat.le_of_dvd hq hdvd
  have hheads := (selected_head_lt_iff hkv hle).mpr hdvd
  refine ⟨?_, hheads, ?_⟩
  · intro slots call s hnone
    obtain ⟨res, hres⟩ := @hbiAdapterGptOssForward_defined F D ops (ctx.withSlots slots)
      ⟨hkv, hle⟩ call pos s
    rw [hnone] at hres
    cases hres
  · intro slots call s s' status hrun e he r hr
    obtain ⟨log, hlog, -⟩ := hbiAdapterGptOssForward_attends hrun
    rw [hlog.attendedBy_eq] at he
    obtain ⟨k, v, hreads⟩ := hlog.reads e he
    rw [hreads] at hr
    obtain ⟨hqh, ht, -⟩ := mem_attentionReads.mp hr
    have hmod := Nat.mod_le (pos + 1) uint32Size
    calc
      _ ≤ (r.t + 1) * (ctx.numKvHeads * ctx.headDim) := cacheRowOffset_le (hheads _ hqh)
      _ ≤ (pos + 1) * (ctx.numKvHeads * ctx.headDim) := Nat.mul_le_mul_right _ (by omega)

/-- With more key heads than query heads the first layer of a bound model has no result. -/
theorem not_attentionSafe_of_lt {ctx : GptOssContext F} {maxSeq : Nat} {w : GptOssWeights F}
    (hgeom : (ctx.bindAll w).Geometry maxSeq) (hvocab : 0 < ctx.vocabSize)
    (hlt : ctx.numQHeads < ctx.numKvHeads) (t : Tensor) (s : ForwardState F) (pos : Nat) :
    ¬ AttentionSafe ops ctx pos := by
  intro hsafe
  apply hsafe.defined (WeightSlots.ofWeights t w ctx.numLayers) ⟨0, some fun _ => ops.zero⟩ s
  have hbound := ctx.bindAll_bound w
  obtain ⟨bufs, hforward⟩ := @hbiAdapterGptOssForward_eq F D ops (ctx.bindAll w) maxSeq hgeom
    hbound pos ⟨0, some fun _ => ops.zero⟩ s hvocab rfl
  obtain ⟨n, hn⟩ := Nat.exists_eq_succ_of_ne_zero hgeom.numLayers_pos.ne'
  rw [ctx.withSlots_ofWeights, hforward, List.range_eq_range', hn, List.range'_succ,
    forwardLayers, forwardLayer_undefined hgeom hbound hlt hgeom.numLayers_pos]
  rfl

/-- The same number everywhere. -/
def GptOssWeights.const (a : F) : GptOssWeights F :=
  { embedTokens := fun _ => a, finalNorm := fun _ => a, lmHead := fun _ => a
    layer := fun _ => ⟨fun _ => a, fun _ => a, fun _ => a, fun _ => a, fun _ => a, fun _ => a,
      fun _ => a, fun _ => a, fun _ => a⟩ }

def ScratchBuffers.const (a : F) : ScratchBuffers F :=
  ⟨fun _ => a, fun _ => a, fun _ => a, fun _ => a, fun _ => a, fun _ => a, fun _ => a,
    fun _ => a, fun _ => a, fun _ => a⟩

/-- The numbers of heads of an accepted model are those of its metadata. -/
theorem gptOssBuildDescriptor_heads {md : ModelMetadata} {desc : ModelDescriptor}
    (hvalid : gptOssValidateMetadata md = .ok ()) (hbuild : gptOssBuildDescriptor md = .ok desc) :
    desc.numAttentionHeads = metadataUint32 md "num_attention_heads" ∧
      desc.numKvHeads = metadataUint32 md "num_key_value_heads" := by
  simp only [gptOssValidateMetadata, Result.ite_errSet_eq_ok] at hvalid
  have hkv := forM_checkRequired hvalid.2 "num_key_value_heads" (by simp [requiredKeys])
  simp only [gptOssBuildDescriptor, Result.ite_errSet_eq_ok, Except.ok.injEq] at hbuild
  obtain ⟨-, rfl⟩ := hbuild
  exact ⟨rfl, if_pos hkv.1⟩

/-- For every model that the framework initializes with the adapter and whose context can be
created: attention is safe at every position exactly when the number of key heads in the
metadata divides the number of query heads. -/
theorem gpt_oss_attention_safe_iff (ops : FloatOps F D) {md : ModelMetadata} {m : Manifest}
    {desc : ModelDescriptor} {eps theta : F} {blocks : GptOssBlocks} {ctx : GptOssContext F}
    (hinit : hbiAdapterInitModel md m = .ok desc)
    (hcreate : gptOssCreateContext desc eps theta blocks = some (.ok ctx)) :
    (∀ pos < uint32Size, AttentionSafe ops ctx pos) ↔
      metadataUint32 md "num_key_value_heads" ∣ metadataUint32 md "num_attention_heads" := by
  obtain ⟨hvalid, hbuild, -⟩ := hbiAdapterInitModel_eq_ok.mp hinit
  have haccepted := gptOssBuildDescriptor_accepted hvalid hbuild
  obtain ⟨hq, hkv⟩ := gptOssBuildDescriptor_heads hvalid hbuild
  obtain ⟨hgeom, -, hctxq, hctxkv, hvocab⟩ := gptOssCreateContext_geometry haccepted hcreate
    (GptOssWeights.const ops.zero)
  change ctx.numQHeads = _ at hctxq
  change ctx.numKvHeads = _ at hctxkv
  change ctx.vocabSize = _ at hvocab
  rw [← hq, ← hkv, ← hctxq, ← hctxkv]
  have hqpos : 0 < ctx.numQHeads := hctxq ▸ haccepted.attentionHeads.1
  have hkvpos : 0 < ctx.numKvHeads := hctxkv ▸ haccepted.kvHeads.1
  constructor
  · intro hall
    have hsafe := hall 0 (by decide)
    apply (selected_head_lt_iff hkvpos ?_).mp hsafe.heads
    by_contra hlt
    obtain ⟨page, -⟩ := hgeom.page
    exact not_attentionSafe_of_lt hgeom (hvocab ▸ haccepted.vocab.1) (not_le.mp hlt) page.kTensor
      (ForwardState.start (ScratchBuffers.const ops.zero) (fun _ => ops.zero) fun _ => ops.zero)
      0 hsafe
  · intro hdvd pos _
    exact attentionSafe_of_dvd hqpos hkvpos hdvd pos

end Safe

section Instances

/-- The entry of a tensor in a manifest, with four bytes for each element. -/
def declaredEntry (desc : ModelDescriptor) (t : ModelTensor) : ModelTensorEntry :=
  { name := t.name, shape := ⟨(t.dims desc).map Int.ofNat⟩, dtype := .fp32, fileOffset := 0
    byteSize := 4 * (t.dims desc).prod, requiredAlignment := 64, shardIndex := 0
    residency := .default }

/-- The tensors of a model of one layer. -/
def singleLayerTensors : List ModelTensor :=
  [.embedTokens, .finalNorm, .lmHead, .layer 0 .inputNorm, .layer 0 .postNorm, .layer 0 .qProj,
    .layer 0 .kProj, .layer 0 .vProj, .layer 0 .oProj, .layer 0 .gateProj, .layer 0 .upProj,
    .layer 0 .downProj]

def declaredManifest (desc : ModelDescriptor) : Manifest :=
  { block := 0, entriesBlock := 1, entries := singleLayerTensors.map (declaredEntry desc)
    capacity := 64 }

theorem find?_singleLayerTensors :
    ∀ t ∈ singleLayerTensors, singleLayerTensors.find? (fun u => u.name = t.name) = some t := by
  decide +kernel

/-- A manifest that declares all tensors of a model of one layer is registered. -/
theorem declaredManifest_registered {desc : ModelDescriptor} (hlayers : desc.numLayers = 1) :
    gptOssRegisterTensors (declaredManifest desc) desc = .ok () := by
  rw [gptOssRegisterTensors_eq_ok, hlayers]
  intro t ht
  have hmem : t ∈ singleLayerTensors := by
    cases t with
    | embedTokens => simp [singleLayerTensors]
    | finalNorm => simp [singleLayerTensors]
    | lmHead => simp [singleLayerTensors]
    | layer index tensor =>
        obtain rfl : index = 0 := Nat.lt_one_iff.mp ht
        cases tensor <;> simp [singleLayerTensors]
  refine ⟨declaredEntry desc t, ?_, rfl⟩
  change (singleLayerTensors.map (declaredEntry desc)).find? (fun e => e.name = t.name) = _
  rw [List.find?_map]
  exact congrArg (Option.map (declaredEntry desc)) (find?_singleLayerTensors t hmem)

/-- Metadata of a model of one layer with heads of one float and room for two positions. -/
def headsMetadata (qHeads kvHeads : String) : ModelMetadata :=
  [("architecture", "gpt_oss"), ("hidden_size", qHeads), ("intermediate_size", "1"),
    ("num_attention_heads", qHeads), ("num_key_value_heads", kvHeads),
    ("num_hidden_layers", "1"), ("vocab_size", "1"), ("max_position_embeddings", "2")]

/-- Two query heads share a key head. -/
theorem gpt_oss_attention_safe_shared :
    hbiAdapterInitModel (headsMetadata "2" "1") (declaredManifest ⟨2, 1, 2, 1, 1, 1, 2⟩) =
      .ok ⟨2, 1, 2, 1, 1, 1, 2⟩ ∧
    ∃ ctx, gptOssCreateContext ⟨2, 1, 2, 1, 1, 1, 2⟩ (0 : Int) 1 freeBlocks = some (.ok ctx) ∧
      ∀ pos < uint32Size, AttentionSafe intOps ctx pos := by
  have hinit : hbiAdapterInitModel (headsMetadata "2" "1")
      (declaredManifest ⟨2, 1, 2, 1, 1, 1, 2⟩) = .ok ⟨2, 1, 2, 1, 1, 1, 2⟩ :=
    hbiAdapterInitModel_eq_ok.mpr ⟨rfl, rfl, declaredManifest_registered rfl⟩
  obtain ⟨ctx, hcreate⟩ : ∃ ctx,
      gptOssCreateContext ⟨2, 1, 2, 1, 1, 1, 2⟩ (0 : Int) 1 freeBlocks = some (.ok ctx) := ⟨_, rfl⟩
  refine ⟨hinit, ctx, hcreate, ?_⟩
  exact (gpt_oss_attention_safe_iff intOps hinit hcreate).mpr (by decide)

/-- Three query heads and two key heads are accepted, and the last query head selects a third
key head. -/
theorem gpt_oss_attention_uneven_heads :
    hbiAdapterInitModel (headsMetadata "3" "2") (declaredManifest ⟨3, 1, 3, 2, 1, 1, 2⟩) =
      .ok ⟨3, 1, 3, 2, 1, 1, 2⟩ ∧
    ∃ ctx, gptOssCreateContext ⟨3, 1, 3, 2, 1, 1, 2⟩ (0 : Int) 1 freeBlocks = some (.ok ctx) ∧
      ¬ ∀ pos < uint32Size, AttentionSafe intOps ctx pos := by
  obtain ⟨ctx, hcreate⟩ : ∃ ctx,
      gptOssCreateContext ⟨3, 1, 3, 2, 1, 1, 2⟩ (0 : Int) 1 freeBlocks = some (.ok ctx) := ⟨_, rfl⟩
  refine ⟨hbiAdapterInitModel_eq_ok.mpr ⟨rfl, rfl, declaredManifest_registered rfl⟩, ctx,
    hcreate, ?_⟩
  intro hall
  have hlast := (hall 0 (by decide)).heads
  cases hcreate
  exact absurd (hlast 2 (by decide)) (by decide)

end Instances

end Hummingbird

import Hummingbird.Adapter.Descriptor
import Hummingbird.Json.Value
import Hummingbird.Model.Manifest

/-!
The check of the tensors of a GPT-OSS model against its descriptor, and the framework call
that runs the steps before a context is created. A product of two `uint32_t` wraps before it
is compared with a dimension.
-/

namespace Hummingbird

/-- `layer_tensor_name`; the longest name is far shorter than the buffer. -/
def layerTensorName (layer : Nat) (suffix : String) : List UInt8 :=
  bytes s!"model.layers.{layer}.{suffix}"

def requireTensor (m : Manifest) (name : List UInt8) : Result ModelTensorEntry :=
  match hbiModelManifestFind m name with
  | none => errSet .notFound s!"gpt_oss: missing tensor '{asText name}'"
  | some e => .ok e

def checkShape2d (e : ModelTensorEntry) (rows cols : Int) : Result Unit :=
  let d := e.shape.dims
  if e.shape.rank ≠ 2 then
    errSet .corrupt s!"gpt_oss: tensor '{asText e.name}' expected rank 2, got {e.shape.rank}"
  else if d.getD 0 0 ≠ rows ∨ d.getD 1 0 ≠ cols then
    errSet .corrupt (s!"gpt_oss: tensor '{asText e.name}' shape [{d.getD 0 0},{d.getD 1 0}]" ++
      s!" != expected [{rows},{cols}]")
  else .ok ()

def checkShape1d (e : ModelTensorEntry) (n : Int) : Result Unit :=
  let d := e.shape.dims
  if e.shape.rank ≠ 1 then
    errSet .corrupt s!"gpt_oss: tensor '{asText e.name}' expected rank 1, got {e.shape.rank}"
  else if d.getD 0 0 ≠ n then
    errSet .corrupt s!"gpt_oss: tensor '{asText e.name}' dim[0]={d.getD 0 0} != expected {n}"
  else .ok ()

/-- `require_tensor` and `check_shape_2d` with their two early returns. -/
def requireShape2d (m : Manifest) (name : List UInt8) (rows cols : Nat) : Result Unit := do
  let e ← requireTensor m name
  checkShape2d e rows cols

def requireShape1d (m : Manifest) (name : List UInt8) (n : Nat) : Result Unit := do
  let e ← requireTensor m name
  checkShape1d e n

/-- One round of the loop over the layers. The source divides by the number of heads, which
`gpt_oss_validate_metadata` has found to be positive. -/
def registerLayer (m : Manifest) (desc : ModelDescriptor) (layer : Nat) : Result Unit := do
  let h := desc.hiddenSize
  let headDim := desc.hiddenSize / desc.numAttentionHeads
  let qDim := desc.numAttentionHeads * headDim % uint32Size
  let kvDim := desc.numKvHeads * headDim % uint32Size
  let is := desc.intermediateSize
  requireShape1d m (layerTensorName layer "input_layernorm.weight") h
  requireShape1d m (layerTensorName layer "post_attention_layernorm.weight") h
  requireShape2d m (layerTensorName layer "self_attn.q_proj.weight") qDim h
  requireShape2d m (layerTensorName layer "self_attn.k_proj.weight") kvDim h
  requireShape2d m (layerTensorName layer "self_attn.v_proj.weight") kvDim h
  requireShape2d m (layerTensorName layer "self_attn.o_proj.weight") h qDim
  requireShape2d m (layerTensorName layer "mlp.gate_proj.weight") is h
  requireShape2d m (layerTensorName layer "mlp.up_proj.weight") is h
  requireShape2d m (layerTensorName layer "mlp.down_proj.weight") h is

def gptOssRegisterTensors (m : Manifest) (desc : ModelDescriptor) : Result Unit := do
  let h := desc.hiddenSize
  let v := desc.vocabSize
  requireShape2d m (bytes "model.embed_tokens.weight") v h
  requireShape1d m (bytes "model.norm.weight") h
  requireShape2d m (bytes "lm_head.weight") v h
  (List.range desc.numLayers).forM (registerLayer m desc)

/-- `hbi_adapter_init_model` with the GPT-OSS adapter, whose `init` accepts every session:
the descriptor that is left when all steps succeed. -/
def hbiAdapterInitModel (md : ModelMetadata) (m : Manifest) : Result ModelDescriptor := do
  gptOssValidateMetadata md
  let desc ← gptOssBuildDescriptor md
  gptOssRegisterTensors m desc
  return desc

/-- The nine tensors of a layer. -/
inductive LayerTensor where
  | inputNorm
  | postNorm
  | qProj
  | kProj
  | vProj
  | oProj
  | gateProj
  | upProj
  | downProj
  deriving DecidableEq, Repr

/-- The tensors of a model: three of its own and nine for every layer. -/
inductive ModelTensor where
  | embedTokens
  | finalNorm
  | lmHead
  | layer (index : Nat) (tensor : LayerTensor)
  deriving DecidableEq, Repr

def LayerTensor.suffix : LayerTensor → String
  | .inputNorm => "input_layernorm.weight"
  | .postNorm => "post_attention_layernorm.weight"
  | .qProj => "self_attn.q_proj.weight"
  | .kProj => "self_attn.k_proj.weight"
  | .vProj => "self_attn.v_proj.weight"
  | .oProj => "self_attn.o_proj.weight"
  | .gateProj => "mlp.gate_proj.weight"
  | .upProj => "mlp.up_proj.weight"
  | .downProj => "mlp.down_proj.weight"

/-- The name a tensor has in the manifest. -/
def ModelTensor.name : ModelTensor → List UInt8
  | .embedTokens => bytes "model.embed_tokens.weight"
  | .finalNorm => bytes "model.norm.weight"
  | .lmHead => bytes "lm_head.weight"
  | .layer index tensor => layerTensorName index tensor.suffix

/-- The dimensions that registration demands of a tensor of a layer. -/
def LayerTensor.dims (desc : ModelDescriptor) : LayerTensor → List Nat :=
  let h := desc.hiddenSize
  let headDim := desc.hiddenSize / desc.numAttentionHeads
  let qDim := desc.numAttentionHeads * headDim % uint32Size
  let kvDim := desc.numKvHeads * headDim % uint32Size
  let is := desc.intermediateSize
  fun
  | .inputNorm | .postNorm => [h]
  | .qProj => [qDim, h]
  | .kProj | .vProj => [kvDim, h]
  | .oProj => [h, qDim]
  | .gateProj | .upProj => [is, h]
  | .downProj => [h, is]

def ModelTensor.dims (desc : ModelDescriptor) : ModelTensor → List Nat
  | .embedTokens | .lmHead => [desc.vocabSize, desc.hiddenSize]
  | .finalNorm => [desc.hiddenSize]
  | .layer _ tensor => tensor.dims desc

/-- The tensor belongs to a model with so many layers. -/
def ModelTensor.Within (numLayers : Nat) : ModelTensor → Prop
  | .embedTokens | .finalNorm | .lmHead => True
  | .layer index _ => index < numLayers

/-- The manifest has a tensor of the name and of exactly these dimensions. -/
def Manifest.Has (m : Manifest) (name : List UInt8) (dims : List Nat) : Prop :=
  ∃ e, hbiModelManifestFind m name = some e ∧ e.shape.dims = dims.map Int.ofNat

/-- Two steps of which the first gives nothing. -/
theorem Result.seq_eq_ok {α : Type} {x : Result Unit} {y : Result α} {a : α} :
    (x >>= fun _ => y) = .ok a ↔ x = .ok () ∧ y = .ok a := by
  rw [Result.bind_eq_ok]
  exact ⟨fun ⟨⟨⟩, hx, hy⟩ => ⟨hx, hy⟩, fun ⟨hx, hy⟩ => ⟨(), hx, hy⟩⟩

theorem Result.forM_eq_ok {α : Type} {f : α → Result Unit} {xs : List α} :
    xs.forM f = .ok () ↔ ∀ x ∈ xs, f x = .ok () := by
  induction xs with
  | nil => exact ⟨fun _ => by simp, fun _ => rfl⟩
  | cons x xs ih =>
      change (f x >>= fun _ => xs.forM f) = .ok () ↔ _
      rw [Result.seq_eq_ok, List.forall_mem_cons, ih]

theorem requireTensor_eq_ok {m : Manifest} {name : List UInt8} {e : ModelTensorEntry} :
    requireTensor m name = .ok e ↔ hbiModelManifestFind m name = some e := by
  unfold requireTensor
  cases hbiModelManifestFind m name with
  | none => simp
  | some found => simp

theorem checkShape2d_eq_ok {e : ModelTensorEntry} {rows cols : Int} :
    checkShape2d e rows cols = .ok () ↔ e.shape.dims = [rows, cols] := by
  unfold checkShape2d
  simp only [Result.ite_errSet_eq_ok, not_not, not_or, and_true]
  unfold Shape.rank
  constructor
  · rintro ⟨hrank, hrows, hcols⟩
    obtain ⟨a, b, hdims⟩ := List.length_eq_two.mp hrank
    rw [hdims] at hrows hcols ⊢
    simpa using ⟨hrows, hcols⟩
  · intro hdims
    rw [hdims]
    exact ⟨rfl, rfl, rfl⟩

theorem checkShape1d_eq_ok {e : ModelTensorEntry} {n : Int} :
    checkShape1d e n = .ok () ↔ e.shape.dims = [n] := by
  unfold checkShape1d
  simp only [Result.ite_errSet_eq_ok, not_not, and_true]
  unfold Shape.rank
  constructor
  · rintro ⟨hrank, hn⟩
    obtain ⟨a, hdims⟩ := List.length_eq_one_iff.mp hrank
    rw [hdims] at hn ⊢
    simpa using hn
  · intro hdims
    rw [hdims]
    exact ⟨rfl, rfl⟩

theorem requireShape2d_eq_ok {m : Manifest} {name : List UInt8} {rows cols : Nat} :
    requireShape2d m name rows cols = .ok () ↔ m.Has name [rows, cols] := by
  simp only [requireShape2d, Result.bind_eq_ok, requireTensor_eq_ok, checkShape2d_eq_ok]
  rfl

theorem requireShape1d_eq_ok {m : Manifest} {name : List UInt8} {n : Nat} :
    requireShape1d m name n = .ok () ↔ m.Has name [n] := by
  simp only [requireShape1d, Result.bind_eq_ok, requireTensor_eq_ok, checkShape1d_eq_ok]
  rfl

/-- A layer is registered when its nine tensors are there with their dimensions. -/
theorem registerLayer_eq_ok {m : Manifest} {desc : ModelDescriptor} {layer : Nat} :
    registerLayer m desc layer = .ok () ↔
      ∀ t : LayerTensor, m.Has (layerTensorName layer t.suffix) (t.dims desc) := by
  simp only [registerLayer, Result.seq_eq_ok, requireShape2d_eq_ok, requireShape1d_eq_ok]
  constructor
  · rintro ⟨hin, hpost, hq, hk, hv, ho, hgate, hup, hdown⟩ t
    cases t with
    | inputNorm => exact hin
    | postNorm => exact hpost
    | qProj => exact hq
    | kProj => exact hk
    | vProj => exact hv
    | oProj => exact ho
    | gateProj => exact hgate
    | upProj => exact hup
    | downProj => exact hdown
  · intro h
    exact ⟨h .inputNorm, h .postNorm, h .qProj, h .kProj, h .vProj, h .oProj, h .gateProj,
      h .upProj, h .downProj⟩

/-- Registration accepts exactly the manifests that have every tensor of the model with the
dimensions that follow from the descriptor. -/
theorem gptOssRegisterTensors_eq_ok {m : Manifest} {desc : ModelDescriptor} :
    gptOssRegisterTensors m desc = .ok () ↔
      ∀ t : ModelTensor, t.Within desc.numLayers → m.Has t.name (t.dims desc) := by
  simp only [gptOssRegisterTensors, Result.seq_eq_ok, requireShape2d_eq_ok,
    requireShape1d_eq_ok, Result.forM_eq_ok, registerLayer_eq_ok, List.mem_range]
  constructor
  · rintro ⟨hembed, hnorm, hhead, hlayers⟩ t ht
    cases t with
    | embedTokens => exact hembed
    | finalNorm => exact hnorm
    | lmHead => exact hhead
    | layer index tensor => exact hlayers index ht tensor
  · intro h
    exact ⟨h .embedTokens trivial, h .finalNorm trivial, h .lmHead trivial,
      fun layer hlayer t => h (.layer layer t) hlayer⟩

/-- The look that `gpt_oss_register_tensors` takes at the entry of a tensor of a layer. -/
def LayerTensor.check (desc : ModelDescriptor) (e : ModelTensorEntry) : LayerTensor → Result Unit :=
  let h := desc.hiddenSize
  let headDim := desc.hiddenSize / desc.numAttentionHeads
  let qDim := desc.numAttentionHeads * headDim % uint32Size
  let kvDim := desc.numKvHeads * headDim % uint32Size
  let is := desc.intermediateSize
  fun
  | .inputNorm | .postNorm => checkShape1d e h
  | .qProj => checkShape2d e qDim h
  | .kProj | .vProj => checkShape2d e kvDim h
  | .oProj => checkShape2d e h qDim
  | .gateProj | .upProj => checkShape2d e is h
  | .downProj => checkShape2d e h is

/-- The same for all tensors. -/
def ModelTensor.check (desc : ModelDescriptor) (e : ModelTensorEntry) : ModelTensor → Result Unit
  | .embedTokens | .lmHead => checkShape2d e desc.vocabSize desc.hiddenSize
  | .finalNorm => checkShape1d e desc.hiddenSize
  | .layer _ tensor => tensor.check desc e

theorem ModelTensor.check_eq_ok {desc : ModelDescriptor} {e : ModelTensorEntry} {t : ModelTensor} :
    t.check desc e = .ok () ↔ e.shape.dims = (t.dims desc).map Int.ofNat := by
  cases t with
  | embedTokens | lmHead => exact checkShape2d_eq_ok
  | finalNorm => exact checkShape1d_eq_ok
  | layer index tensor =>
      cases tensor with
      | inputNorm | postNorm => exact checkShape1d_eq_ok
      | qProj | kProj | vProj | oProj | gateProj | upProj | downProj => exact checkShape2d_eq_ok

/-- Registration looks at every tensor of the model, and at nothing else. -/
theorem gptOssRegisterTensors_iff_check {m : Manifest} {desc : ModelDescriptor} :
    gptOssRegisterTensors m desc = .ok () ↔ ∀ t : ModelTensor, t.Within desc.numLayers →
      ∃ e, hbiModelManifestFind m t.name = some e ∧ t.check desc e = .ok () := by
  rw [gptOssRegisterTensors_eq_ok]
  simp only [Manifest.Has, ModelTensor.check_eq_ok]

/-- The steps that led to a descriptor. -/
theorem hbiAdapterInitModel_eq_ok {md : ModelMetadata} {m : Manifest} {desc : ModelDescriptor} :
    hbiAdapterInitModel md m = .ok desc ↔
      gptOssValidateMetadata md = .ok () ∧ gptOssBuildDescriptor md = .ok desc ∧
        gptOssRegisterTensors m desc = .ok () := by
  simp only [hbiAdapterInitModel, Result.bind_eq_ok, pure, Except.pure, Except.ok.injEq]
  constructor
  · rintro ⟨⟨⟩, hvalid, d, hbuild, ⟨⟩, hreg, rfl⟩
    exact ⟨hvalid, hbuild, hreg⟩
  · rintro ⟨hvalid, hbuild, hreg⟩
    exact ⟨(), hvalid, desc, hbuild, (), hreg, rfl⟩

end Hummingbird

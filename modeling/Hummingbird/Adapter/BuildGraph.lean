import Hummingbird.Adapter.Attended
import Hummingbird.Graph.Build

/-!
The structural graph of a GPT-OSS model: the calls that `gpt_oss_build_graph` makes to the
graph builder. The adapter gives an operation the values that flow into it and no weights; the
builder infers the shape of every output from the operation and these values.
-/

namespace Hummingbird

/-- Calls that share a builder; the first one that fails ends them. -/
abbrev BuildM (α : Type) := ExceptT Failure (StateM Builder) α

def addInput (name : String) (shape : Shape) (dtype : Dtype) : BuildM Nat := fun b =>
  match hbiGraphAddInput b (some name) shape dtype with
  | .error e => (.error e, b)
  | .ok (b, id) => (.ok id, b)

/-- A node with one output, of which the identifier is returned. -/
def addNode (name : String) (op : KernelOp) (params : KernelParams) (inputs : List Nat) :
    BuildM Nat := fun b =>
  match hbiGraphAddNode b (some name) op (some params) inputs 1 with
  | (b, .error e) => (.error e, b)
  | (b, .ok outputs) => (.ok (outputs.headD 0), b)

/-- The parameter union after the first or the second kind of an enumeration was stored in
it. -/
def KernelParams.ofKind : (second : Bool) → KernelParams
  | false => .zero
  | true => ⟨.fp32, 1, 0⟩

/-- `HBI_ELEMENTWISE_ADD`. -/
def elementwiseAdd : KernelParams := .ofKind false

/-- `HBI_ELEMENTWISE_MUL`. -/
def elementwiseMul : KernelParams := .ofKind true

/-- `HBI_ACTIVATION_SILU`. -/
def activationSilu : KernelParams := .ofKind true

def buildLayerGraph (layer inId : Nat) : BuildM Nat := do
  let p := KernelParams.zero
  let norm ← addNode s!"l{layer}.pre_norm" .rmsnorm p [inId]
  let qOut ← addNode s!"l{layer}.q_proj" .matmul p [norm]
  let kOut ← addNode s!"l{layer}.k_proj" .matmul p [norm]
  let vOut ← addNode s!"l{layer}.v_proj" .matmul p [norm]
  let qRope ← addNode s!"l{layer}.rope_q" .rope p [qOut]
  let kRope ← addNode s!"l{layer}.rope_k" .rope p [kOut]
  let attnOut ← addNode s!"l{layer}.attn" .attention p [qRope, kRope, vOut]
  let oOut ← addNode s!"l{layer}.o_proj" .matmul p [attnOut]
  let res1Out ← addNode s!"l{layer}.res1" .elementwise elementwiseAdd [inId, oOut]
  let pnormOut ← addNode s!"l{layer}.post_norm" .rmsnorm p [res1Out]
  let gateOut ← addNode s!"l{layer}.gate_proj" .matmul p [pnormOut]
  let upOut ← addNode s!"l{layer}.up_proj" .matmul p [pnormOut]
  let siluOut ← addNode s!"l{layer}.silu" .activation activationSilu [gateOut]
  let swigluOut ← addNode s!"l{layer}.swiglu" .elementwise elementwiseMul [siluOut, upOut]
  let downOut ← addNode s!"l{layer}.down_proj" .matmul p [swigluOut]
  addNode s!"l{layer}.res2" .elementwise elementwiseAdd [res1Out, downOut]

def gptOssBuildGraph (desc : ModelDescriptor) : BuildM Unit := do
  let _ ← addInput "token_ids" ⟨[1]⟩ .int8
  let embedOut ← addInput "hidden" ⟨[desc.hiddenSize]⟩ .fp32
  let cur ← (List.range desc.numLayers).foldlM (fun cur layer => buildLayerGraph layer cur)
    embedOut
  let fnormOut ← addNode "final_norm" .rmsnorm .zero [cur]
  let _ ← addNode "lm_head" .matmul .zero [fnormOut]

/-- The nodes that the adapter lists for a layer. -/
def layerNodes : List (String × KernelOp) :=
  [("pre_norm", .rmsnorm), ("q_proj", .matmul), ("k_proj", .matmul), ("v_proj", .matmul),
    ("rope_q", .rope), ("rope_k", .rope), ("attn", .attention), ("o_proj", .matmul),
    ("res1", .elementwise), ("post_norm", .rmsnorm), ("gate_proj", .matmul),
    ("up_proj", .matmul), ("silu", .activation), ("swiglu", .elementwise),
    ("down_proj", .matmul), ("res2", .elementwise)]

/-- The nodes of a model of so many layers. -/
def documentedNodes (numLayers : Nat) : List (String × KernelOp) :=
  ((List.range numLayers).flatMap fun layer =>
    layerNodes.map fun node => (s!"l{layer}.{node.1}", node.2)) ++
  [("final_norm", .rmsnorm), ("lm_head", .matmul)]

/-- A fresh builder takes all the nodes and becomes a graph of exactly these. -/
def HasGraph (desc : ModelDescriptor) : Prop :=
  ∃ (memory : GraphMemory) (b : Builder) (fuel : Nat) (g : Graph),
    gptOssBuildGraph desc (Builder.create memory) = (.ok (), b) ∧
    hbiGraphBuild fuel b = some (.ok g) ∧
    g.nodes.map (fun n => (n.name, n.op)) = documentedNodes desc.numLayers

/-- The shape of no output of an RMS norm is ever inferred. -/
theorem inferOutputShape_rmsnorm (params : KernelParams) (inputs : List Value) :
    inferOutputShape .rmsnorm params inputs =
      errSet .unsupported s!"shape inference for op {KernelOp.rmsnorm.ctorIdx} unsupported" :=
  rfl

theorem addOutputs_rmsnorm {node : Node} (hop : node.op = .rmsnorm) (vals : List Value)
    (b : Builder) :
    addOutputs node vals b 0 1 =
      (b, errSet .unsupported s!"shape inference failed for node {node.name}") := by
  unfold addOutputs
  rw [hop, inferOutputShape_rmsnorm]
  rfl

/-- An RMS norm is refused by every builder that has room for its node. -/
theorem addNode_rmsnorm {b : Builder} (name : String) (params : KernelParams) {input : Nat}
    (hroom : b.nodes.length < hbiGraphMaxNodes) (hinput : input < b.values.length) :
    ∃ b', addNode name .rmsnorm params [input] b =
      (errSet .unsupported s!"shape inference failed for node {truncName hbiGraphNameMax name}",
        b') := by
  have hcount : ¬ ([input].length > hbiKernelMaxInputs ∨ 1 > hbiKernelMaxOutputs) := by
    simp [hbiKernelMaxInputs, hbiKernelMaxOutputs]
  have hvalid : ([input].any fun i => decide (i ≥ b.values.length)) = false := by
    simpa using hinput
  unfold addNode hbiGraphAddNode
  rw [if_neg hcount, if_neg (not_le.mpr hroom)]
  simp only [hvalid, Bool.false_eq_true, if_false]
  rw [addOutputs_rmsnorm rfl]
  exact ⟨_, rfl⟩

/-- What follows a call that failed is not reached. -/
theorem BuildM.bind_error {α β : Type} {x : BuildM α} {b b' : Builder} {e : Failure}
    (h : x b = (.error e, b')) (f : α → BuildM β) : (x >>= f) b = (.error e, b') := by
  simp only [bind, ExceptT.bind, ExceptT.mk, StateT.bind, h]
  rfl

/-- What follows a call that succeeded runs on the builder it leaves. -/
theorem BuildM.bind_ok {α β : Type} {x : BuildM α} {b b' : Builder} {a : α}
    (h : x b = (.ok a, b')) (f : α → BuildM β) : (x >>= f) b = f a b' := by
  simp only [bind, ExceptT.bind, ExceptT.mk, StateT.bind, h]
  rfl

theorem addInput_room {b : Builder} (name : String) (shape : Shape) {dtype : Dtype}
    (hdtype : hbiDtypeIsValid dtype = true) (hroom : b.values.length < hbiGraphMaxValues) :
    ∃ v : Value, addInput name shape dtype b =
      (.ok b.values.length, { b with values := b.values ++ [v] }) := by
  unfold addInput hbiGraphAddInput addValue
  simp only [hdtype, not_le.mpr hroom, Bool.true_eq_false, if_false]
  exact ⟨_, rfl⟩

/-- The first node of a layer fails on every builder that has room for it. -/
theorem buildLayerGraph_fails {b : Builder} {layer inId : Nat}
    (hroom : b.nodes.length < hbiGraphMaxNodes) (hinput : inId < b.values.length) :
    ∃ b', buildLayerGraph layer inId b =
      (errSet .unsupported (s!"shape inference failed for node " ++
        truncName hbiGraphNameMax s!"l{layer}.pre_norm"), b') := by
  obtain ⟨b', hnode⟩ := addNode_rmsnorm s!"l{layer}.pre_norm" KernelParams.zero hroom hinput
  exact ⟨b', BuildM.bind_error hnode _⟩

/-- The graph of no model with a layer is built. -/
theorem gptOssBuildGraph_fails {desc : ModelDescriptor} (hlayers : 0 < desc.numLayers)
    (memory : GraphMemory) :
    ∃ b, gptOssBuildGraph desc (Builder.create memory) =
      (errSet .unsupported "shape inference failed for node l0.pre_norm", b) := by
  obtain ⟨tok, htok⟩ := @addInput_room (Builder.create memory) "token_ids" ⟨[1]⟩ .int8 rfl
    (by simp [Builder.create, hbiGraphMaxValues])
  obtain ⟨hidden, hhidden⟩ := @addInput_room ⟨[], [tok], memory⟩ "hidden" ⟨[desc.hiddenSize]⟩
    .fp32 rfl (by simp [hbiGraphMaxValues])
  obtain ⟨b, hlayer⟩ := @buildLayerGraph_fails ⟨[], [tok, hidden], memory⟩ 0 1
    (by simp [hbiGraphMaxNodes]) (by simp)
  obtain ⟨rest, hrange⟩ : ∃ rest, List.range desc.numLayers = 0 :: rest := by
    obtain ⟨n, hn⟩ := Nat.exists_eq_succ_of_ne_zero hlayers.ne'
    rw [hn, List.range_succ_eq_map]
    exact ⟨_, rfl⟩
  have hfirst : ({ Builder.create memory with
      values := (Builder.create memory).values ++ [tok] } : Builder) = ⟨[], [tok], memory⟩ := rfl
  refine ⟨b, ?_⟩
  unfold gptOssBuildGraph
  rw [BuildM.bind_ok htok, hfirst, BuildM.bind_ok hhidden, hrange, List.foldlM_cons]
  apply BuildM.bind_error
  apply BuildM.bind_error
  exact hlayer

/-- For every descriptor that is built from accepted metadata, whether its graph would fit or
not: the builder refuses the first norm of the first layer, so there is no graph. -/
theorem gpt_oss_build_graph_never {md : ModelMetadata} {desc : ModelDescriptor}
    (hvalid : gptOssValidateMetadata md = .ok ()) (hbuild : gptOssBuildDescriptor md = .ok desc) :
    (∀ memory, ∃ b, gptOssBuildGraph desc (Builder.create memory) =
      (errSet .unsupported "shape inference failed for node l0.pre_norm", b)) ∧
    ¬ HasGraph desc := by
  have haccepted := gptOssBuildDescriptor_accepted hvalid hbuild
  refine ⟨gptOssBuildGraph_fails haccepted.layers.1, ?_⟩
  rintro ⟨memory, b', fuel, g, hbuilds, -⟩
  obtain ⟨b, hfails⟩ := gptOssBuildGraph_fails haccepted.layers.1 memory
  rw [hfails] at hbuilds
  cases hbuilds

/-- The model of one layer, with eighteen nodes and as many values and two inputs. -/
theorem gpt_oss_build_graph_never_small :
    gptOssValidateMetadata (headsMetadata "2" "1") = .ok () ∧
    gptOssBuildDescriptor (headsMetadata "2" "1") = .ok ⟨2, 1, 2, 1, 1, 1, 2⟩ ∧
    ¬ HasGraph ⟨2, 1, 2, 1, 1, 1, 2⟩ :=
  ⟨rfl, rfl, (@gpt_oss_build_graph_never (headsMetadata "2" "1") ⟨2, 1, 2, 1, 1, 1, 2⟩ rfl rfl).2⟩

/-- It is accepted, its nodes and values are far below the limits, and it has no graph. -/
theorem gpt_oss_build_graph_one_layer :
    gptOssValidateMetadata (headsMetadata "2" "1") = .ok () ∧
    gptOssBuildDescriptor (headsMetadata "2" "1") = .ok ⟨2, 1, 2, 1, 1, 1, 2⟩ ∧
    (documentedNodes 1).length ≤ hbiGraphMaxNodes ∧
    (documentedNodes 1).length + 2 ≤ hbiGraphMaxValues ∧
    (gptOssBuildGraph ⟨2, 1, 2, 1, 1, 1, 2⟩ Builder.empty).1 =
      errSet .unsupported "shape inference failed for node l0.pre_norm" ∧
    ¬ HasGraph ⟨2, 1, 2, 1, 1, 1, 2⟩ := by
  have hfails : (gptOssBuildGraph ⟨2, 1, 2, 1, 1, 1, 2⟩ Builder.empty).1 =
      errSet .unsupported "shape inference failed for node l0.pre_norm" := by decide +kernel
  refine ⟨rfl, rfl, by decide, by decide, hfails, ?_⟩
  rintro ⟨memory, b, fuel, g, hbuilds, -⟩
  obtain ⟨b', hnone⟩ := @gptOssBuildGraph_fails ⟨2, 1, 2, 1, 1, 1, 2⟩ (by decide) memory
  rw [hnone] at hbuilds
  cases hbuilds

end Hummingbird

import Hummingbird.Adapter.Forward
import Hummingbird.Adapter.Register

/-!
How weights get into the context of a GPT-OSS model: a call names a tensor and hands over a
buffer with a shape, and the slot of that name becomes a borrowed view of the buffer. The
slots are kept beside the context here, each with its view and the floats behind it.
-/

namespace Hummingbird

/-- The buffer of a call: its address and the floats from there on. -/
structure WeightBuffer (F : Type) where
  addr : Nat
  cells : Nat → F

/-- A slot that was bound. -/
structure BoundTensor (F : Type) where
  tensor : Tensor
  cells : Nat → F

/-- The weight slots of a context. -/
structure WeightSlots (F : Type) where
  embedTokens : Option (BoundTensor F)
  finalNorm : Option (BoundTensor F)
  lmHead : Option (BoundTensor F)
  layers : List (LayerWeights (Option (BoundTensor F)))

/-- The slots of a new context. -/
def WeightSlots.empty (F : Type) (numLayers : Nat) : WeightSlots F :=
  ⟨none, none, none, List.replicate numLayers (LayerWeights.zero (BoundTensor F))⟩

def LayerWeights.get {α : Type} (lw : LayerWeights α) : LayerTensor → α
  | .inputNorm => lw.inputNorm
  | .postNorm => lw.postNorm
  | .qProj => lw.qProj
  | .kProj => lw.kProj
  | .vProj => lw.vProj
  | .oProj => lw.oProj
  | .gateProj => lw.gateProj
  | .upProj => lw.upProj
  | .downProj => lw.downProj

def LayerWeights.set {α : Type} (lw : LayerWeights α) (a : α) : LayerTensor → LayerWeights α
  | .inputNorm => { lw with inputNorm := a }
  | .postNorm => { lw with postNorm := a }
  | .qProj => { lw with qProj := a }
  | .kProj => { lw with kProj := a }
  | .vProj => { lw with vProj := a }
  | .oProj => { lw with oProj := a }
  | .gateProj => { lw with gateProj := a }
  | .upProj => { lw with upProj := a }
  | .downProj => { lw with downProj := a }

def WeightSlots.get {F : Type} (slots : WeightSlots F) : ModelTensor → Option (BoundTensor F)
  | .embedTokens => slots.embedTokens
  | .finalNorm => slots.finalNorm
  | .lmHead => slots.lmHead
  | .layer index tensor => slots.layers[index]?.bind fun lw => lw.get tensor

def WeightSlots.set {F : Type} (slots : WeightSlots F) (b : BoundTensor F) :
    ModelTensor → WeightSlots F
  | .embedTokens => { slots with embedTokens := some b }
  | .finalNorm => { slots with finalNorm := some b }
  | .lmHead => { slots with lmHead := some b }
  | .layer index tensor =>
      { slots with layers := slots.layers.modify index fun lw => lw.set (some b) tensor }

/-- The context as the forward pass sees it. -/
def GptOssContext.withSlots {F : Type} (ctx : GptOssContext F) (slots : WeightSlots F) :
    GptOssContext F :=
  { ctx with
    embedTokens := slots.embedTokens.map BoundTensor.cells
    finalNorm := slots.finalNorm.map BoundTensor.cells
    lmHead := slots.lmHead.map BoundTensor.cells
    layers := slots.layers.map (LayerWeights.map (Option.map BoundTensor.cells)) }

def bindWeightTensor {F : Type} (buf : WeightBuffer F) (dtype : Dtype) (shape : Shape) :
    Result (BoundTensor F) := do
  let count ← hbiShapeElemCount shape
  let nbytes := (count % sizeTSize).toNat * (hbiDtypeBits dtype / 8) % sizeTSize
  let t ← hbiTensorWrapReadonly dtype shape buf.addr nbytes
  return ⟨t, buf.cells⟩

/-- The characters of a C string. -/
def chars (s : List UInt8) : List Char := s.map fun c => Char.ofNat c.toNat

/-- The comparisons with the nine suffixes. -/
def suffixTensor (suffix : List Char) : Option LayerTensor :=
  if suffix = "input_layernorm.weight".toList then some .inputNorm
  else if suffix = "post_attention_layernorm.weight".toList then some .postNorm
  else if suffix = "self_attn.q_proj.weight".toList then some .qProj
  else if suffix = "self_attn.k_proj.weight".toList then some .kProj
  else if suffix = "self_attn.v_proj.weight".toList then some .vProj
  else if suffix = "self_attn.o_proj.weight".toList then some .oProj
  else if suffix = "mlp.gate_proj.weight".toList then some .gateProj
  else if suffix = "mlp.up_proj.weight".toList then some .upProj
  else if suffix = "mlp.down_proj.weight".toList then some .downProj
  else none

/-- The part of `hbi_adapter_gpt_oss_bind_weights` that looks at the name: the slot to bind.
The number of the layer loses its high bits before it is compared. -/
def bindTarget (numLayers : Nat) (name : List UInt8) : Result ModelTensor :=
  let layersPrefix := bytes "model.layers."
  if name = bytes "model.embed_tokens.weight" then .ok .embedTokens
  else if name = bytes "model.norm.weight" then .ok .finalNorm
  else if name = bytes "lm_head.weight" then .ok .lmHead
  else if layersPrefix.isPrefixOf name = false then
    errSet .notFound s!"gpt_oss bind_weights: unrecognized tensor '{asText name}'"
  else
    let (layerNum, rest) := strtol (chars (name.drop layersPrefix.length))
    if rest.head? ≠ some '.' ∨ layerNum < 0 then
      errSet .corrupt s!"gpt_oss bind_weights: bad layer index in '{asText name}'"
    else
      let layerIdx := layerNum.toNat % uint32Size
      let suffix := rest.tail
      if layerIdx ≥ numLayers then
        errSet .invalidArg s!"gpt_oss bind_weights: layer {layerIdx} >= num_layers {numLayers}"
      else
        match suffixTensor suffix with
        | none =>
            errSet .notFound (s!"gpt_oss bind_weights: unrecognized suffix" ++
              s!" '{String.ofList suffix}' in '{asText name}'")
        | some tensor => .ok (.layer layerIdx tensor)

/-- The arguments of a call. -/
structure BindCall (F : Type) where
  name : List UInt8
  buf : WeightBuffer F
  shape : Shape

def hbiAdapterGptOssBindWeights {F : Type} (ctx : GptOssContext F) (slots : WeightSlots F)
    (call : BindCall F) : WeightSlots F × Result Unit :=
  if call.buf.addr = 0 then (slots, errSet .invalidArg "gpt_oss bind_weights: NULL arg")
  else if ctx.initialized = false then
    (slots, errSet .state "gpt_oss bind_weights: context not initialized")
  else
    match bindTarget ctx.numLayers call.name with
    | .error e => (slots, .error e)
    | .ok target =>
        match bindWeightTensor call.buf .fp32 call.shape with
        | .error e => (slots, .error e)
        | .ok b => (slots.set b target, .ok ())

/-- The slots after a sequence of calls. -/
def bindRun {F : Type} (ctx : GptOssContext F) (calls : List (BindCall F))
    (slots : WeightSlots F) : WeightSlots F :=
  calls.foldl (fun slots call => (hbiAdapterGptOssBindWeights ctx slots call).1) slots

theorem LayerWeights.get_set {α : Type} (lw : LayerWeights α) (a : α) (t u : LayerTensor) :
    (lw.set a t).get u = if u = t then a else lw.get u := by
  cases t <;> cases u <;> rfl

@[simp]
theorem WeightSlots.layers_length_set {F : Type} (slots : WeightSlots F) (b : BoundTensor F)
    (t : ModelTensor) : (slots.set b t).layers.length = slots.layers.length := by
  cases t with
  | embedTokens | finalNorm | lmHead => rfl
  | layer index tensor => simp [WeightSlots.set]

/-- A slot of the model holds what was bound to it last, the others keep what they have. -/
theorem WeightSlots.get_set {F : Type} (slots : WeightSlots F) (b : BoundTensor F)
    {t : ModelTensor} (ht : t.Within slots.layers.length) (u : ModelTensor) :
    (slots.set b t).get u = if u = t then some b else slots.get u := by
  cases t with
  | embedTokens => cases u <;> rfl
  | finalNorm => cases u <;> rfl
  | lmHead => cases u <;> rfl
  | layer index tensor =>
      cases u with
      | embedTokens | finalNorm | lmHead => rfl
      | layer index' tensor' =>
          have hindex : slots.layers[index]? = some slots.layers[index] :=
            List.getElem?_eq_getElem ht
          simp only [WeightSlots.set, WeightSlots.get, List.getElem?_modify, Option.map_eq_map,
            ModelTensor.layer.injEq]
          by_cases hi : index' = index
          · subst hi
            simp only [hindex, if_true, Option.map_some, Option.bind_some, LayerWeights.get_set,
              true_and]
          · have hne : index ≠ index' := fun h => hi h.symm
            simp only [hne, hi, if_false, false_and, Option.map_id']

theorem WeightSlots.get_empty {F : Type} (numLayers : Nat) (t : ModelTensor) :
    (WeightSlots.empty F numLayers).get t = none := by
  cases t with
  | embedTokens | finalNorm | lmHead => rfl
  | layer index tensor =>
      by_cases hi : index < numLayers
      · cases tensor <;>
          simp [WeightSlots.empty, WeightSlots.get, LayerWeights.zero, LayerWeights.get, hi]
      · simp [WeightSlots.empty, WeightSlots.get, hi]

/-- A name selects a slot that the model has. -/
theorem bindTarget_within {numLayers : Nat} {name : List UInt8} {t : ModelTensor}
    (h : bindTarget numLayers name = .ok t) : t.Within numLayers := by
  unfold bindTarget at h
  split at h
  · cases h
    trivial
  · split at h
    · cases h
      trivial
    · split at h
      · cases h
        trivial
      · simp only [Result.ite_errSet_eq_ok] at h
        obtain ⟨-, -, hlt, h⟩ := h
        split at h
        · cases h
        · cases h
          exact not_le.mp hlt

/-- The buffer is one that `hbi_tensor_wrap_readonly` takes for floats of a shape. -/
structure WeightBuffer.Wraps {F : Type} (buf : WeightBuffer F) (shape : Shape) : Prop where
  addr_pos : 0 < buf.addr
  aligned : buf.addr % sizeofFloat = 0
  valid : shape.Valid
  bits_le : shape.dims.prod * 32 ≤ int64Max - 7

theorem bindWeightTensor_eq_ok {F : Type} {buf : WeightBuffer F} {shape : Shape}
    {b : BoundTensor F} (h : bindWeightTensor buf .fp32 shape = .ok b) :
    buf.Wraps shape ∧ b.tensor.shape = shape ∧ b.cells = buf.cells := by
  simp only [bindWeightTensor, Result.bind_eq_ok, pure, Except.pure, Except.ok.injEq] at h
  obtain ⟨count, -, t, hwrap, rfl⟩ := h
  have hpacked := tensorWrapImpl_packed hwrap
  obtain ⟨hdtype, hshape, hdata, -⟩ := tensorWrapImpl_fields hwrap
  have hvalid := hpacked.shape_valid
  have hbits := hpacked.bits_le
  have hpos := hpacked.data_pos
  have halign := hpacked.dtype_align
  rw [hshape] at hvalid hbits
  rw [hdtype] at hbits halign
  rw [hdata] at hpos halign
  refine ⟨⟨Int.natCast_pos.mp hpos, ?_, hvalid, hbits⟩, hshape, rfl⟩
  exact Nat.mod_eq_zero_of_dvd (Int.natCast_dvd_natCast.mp halign)

/-- Such a buffer is bound. -/
theorem WeightBuffer.Wraps.bind {F : Type} {buf : WeightBuffer F} {shape : Shape}
    (h : buf.Wraps shape) : ∃ b, bindWeightTensor buf .fp32 shape = .ok b := by
  have hprod := h.valid.prod_pos
  have hbits := h.bits_le
  have hneed : hbiDtypePackedNbytes .fp32 shape.dims.prod = .ok (shape.dims.prod.toNat * 4) := by
    apply (hbiDtypePackedNbytes_eq_ok rfl hprod.le).mpr
    simp only [hbiDtypeBits]
    omega
  have hmod : (shape.dims.prod % (sizeTSize : Int)).toNat = shape.dims.prod.toNat := by
    rw [Int.emod_eq_of_lt hprod.le]
    unfold int64Max at hbits
    unfold sizeTSize
    omega
  have hbytes : shape.dims.prod.toNat * 4 % sizeTSize = shape.dims.prod.toNat * 4 := by
    apply Nat.mod_eq_of_lt
    unfold int64Max at hbits
    unfold sizeTSize
    omega
  have hstrides := h.valid.stridesInit
  have hwrap : ∃ t, hbiTensorWrapReadonly .fp32 shape buf.addr (shape.dims.prod.toNat * 4) =
      .ok t := by
    simp only [hbiTensorWrapReadonly, tensorWrapImpl, Result.ite_errSet_eq_ok, Result.bind_eq_ok]
    refine ⟨_, h.addr_pos.ne', by decide, (), hbiShapeValidate_eq_ok.mpr h.valid,
      fun hne => hne.2 h.aligned, _, h.valid.elemCount, _, hneed, lt_irrefl _, _, hstrides, rfl⟩
  obtain ⟨t, hwrap⟩ := hwrap
  refine ⟨⟨t, buf.cells⟩, ?_⟩
  simp only [bindWeightTensor, Result.bind_eq_ok]
  refine ⟨_, h.valid.elemCount, t, ?_, rfl⟩
  rw [hmod]
  change hbiTensorWrapReadonly .fp32 shape buf.addr (shape.dims.prod.toNat * 4 % sizeTSize) = _
  rw [hbytes]
  exact hwrap

/-- Slots with an array each, behind the same view. -/
def WeightSlots.ofWeights {F : Type} (t : Tensor) (w : GptOssWeights F) (numLayers : Nat) :
    WeightSlots F :=
  { embedTokens := some ⟨t, w.embedTokens⟩, finalNorm := some ⟨t, w.finalNorm⟩
    lmHead := some ⟨t, w.lmHead⟩
    layers := (List.range numLayers).map fun l => (w.layer l).map fun cells => some ⟨t, cells⟩ }

/-- A context with all its arrays is one with all its slots bound. -/
theorem GptOssContext.withSlots_ofWeights {F : Type} (ctx : GptOssContext F) (t : Tensor)
    (w : GptOssWeights F) :
    ctx.withSlots (WeightSlots.ofWeights t w ctx.numLayers) = ctx.bindAll w := by
  simp [GptOssContext.withSlots, WeightSlots.ofWeights, GptOssContext.bindAll, LayerWeights.map]

end Hummingbird

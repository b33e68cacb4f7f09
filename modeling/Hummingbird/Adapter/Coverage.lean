import Hummingbird.Adapter.Page
import Mathlib.Data.List.GetD

/-!
How many floats of a weight the forward pass reads, and which bindings provide them. The
number is the product of the dimensions that registration demands of the tensor; the call
that binds a weight looks at none of them. A shape with enough elements is enough for the
forward pass; only the shape that registration demands is one that registration accepts.
-/

namespace Hummingbird

section Reads

variable {F D : Type}

/-- The number of floats that the forward pass reads from the weights of a layer: `n` for a
norm, `M * K` for a projection. -/
def LayerTensor.reads (ctx : GptOssContext F) : LayerTensor → Nat
  | .inputNorm | .postNorm => ctx.hiddenSize
  | .qProj => (ctx.numQHeads * ctx.headDim % uint32Size) * ctx.hiddenSize
  | .kProj | .vProj => (ctx.numKvHeads * ctx.headDim % uint32Size) * ctx.hiddenSize
  | .oProj => ctx.hiddenSize * (ctx.numQHeads * ctx.headDim % uint32Size)
  | .gateProj | .upProj => ctx.intermediateSize * ctx.hiddenSize
  | .downProj => ctx.hiddenSize * ctx.intermediateSize

/-- The same for all weights; a call reads the row of its token from the embeddings. -/
def ModelTensor.reads (ctx : GptOssContext F) : ModelTensor → Nat
  | .embedTokens | .lmHead => ctx.vocabSize * ctx.hiddenSize
  | .finalNorm => ctx.hiddenSize
  | .layer _ tensor => tensor.reads ctx

/-- The number of elements of a bound tensor. -/
def BoundTensor.count (b : BoundTensor F) : Nat := b.tensor.shape.dims.prod.toNat

/-- Every slot that is bound has all the elements that the forward pass reads from it. -/
def WeightSlots.Covered (ctx : GptOssContext F) (slots : WeightSlots F) : Prop :=
  ∀ t b, slots.get t = some b → t.reads ctx ≤ b.count

/-- Every slot that is bound has a shape that registration accepts for its tensor. -/
def WeightSlots.Registered (desc : ModelDescriptor) (slots : WeightSlots F) : Prop :=
  ∀ t b, slots.get t = some b →
    ∀ e : ModelTensorEntry, e.shape = b.tensor.shape → t.check desc e = .ok ()

/-- The tensor with another value behind its last element. -/
def BoundTensor.clip (z : F) (b : BoundTensor F) : BoundTensor F :=
  { b with cells := fill (fun _ => z) b.count b.cells }

def WeightSlots.clip (z : F) (slots : WeightSlots F) : WeightSlots F :=
  { embedTokens := slots.embedTokens.map (BoundTensor.clip z)
    finalNorm := slots.finalNorm.map (BoundTensor.clip z)
    lmHead := slots.lmHead.map (BoundTensor.clip z)
    layers := slots.layers.map (LayerWeights.map (Option.map (BoundTensor.clip z))) }

theorem BoundTensor.clip_cells {z : F} {b : BoundTensor F} {n : Nat} (hn : n ≤ b.count) {i : Nat}
    (hi : i < n) : (b.clip z).cells i = b.cells i :=
  if_pos (lt_of_lt_of_le hi hn)

variable {ops : FloatOps F D}

theorem refRmsnorm_congr {x w w' out : Nat → F} {n : Nat} {eps : F} (h : ∀ i < n, w i = w' i) :
    refRmsnorm ops x w out n eps = refRmsnorm ops x w' out n eps := by
  funext i
  simp only [refRmsnorm, fill]
  by_cases hi : i < n
  · rw [if_pos hi, if_pos hi, h i hi]
  · rw [if_neg hi, if_neg hi]

/-- A projection reads the first `m * k` floats of its weights. -/
theorem refLinear_congr {x w w' out : Nat → F} {m k : Nat} (h : ∀ i < m * k, w i = w' i) :
    refLinear ops x w out m k = refLinear ops x w' out m k := by
  funext i
  simp only [refLinear, fill]
  by_cases hi : i < m
  · rw [if_pos hi, if_pos hi]
    apply List.foldl_ext
    intro acc j hj
    have hrow := @row_end_le k i m hi
    rw [h (i * k + j) (by have := List.mem_range.mp hj; omega)]
  · rw [if_neg hi, if_neg hi]

variable {ctx : GptOssContext F} {lw lw' : LayerWeights (Nat → F)}

/-- Two sets of layer weights with the same floats where the forward pass reads. -/
def LayerWeights.SameReads (ctx : GptOssContext F) (lw lw' : LayerWeights (Nat → F)) : Prop :=
  ∀ t : LayerTensor, ∀ i < t.reads ctx, lw.get t i = lw'.get t i

theorem LayerWeights.SameReads.project (h : lw.SameReads ctx lw') (pos : Nat)
    (b : ScratchBuffers F) : layerProject ops ctx lw pos b = layerProject ops ctx lw' pos b := by
  have hnorm : ∀ x out, refRmsnorm ops x lw.inputNorm out ctx.hiddenSize ctx.rmsNormEps =
      refRmsnorm ops x lw'.inputNorm out ctx.hiddenSize ctx.rmsNormEps :=
    fun _ _ => refRmsnorm_congr (h .inputNorm)
  have hq : ∀ x out, refLinear ops x lw.qProj out (ctx.numQHeads * ctx.headDim % uint32Size)
      ctx.hiddenSize = refLinear ops x lw'.qProj out _ _ := fun _ _ => refLinear_congr (h .qProj)
  have hk : ∀ x out, refLinear ops x lw.kProj out (ctx.numKvHeads * ctx.headDim % uint32Size)
      ctx.hiddenSize = refLinear ops x lw'.kProj out _ _ := fun _ _ => refLinear_congr (h .kProj)
  have hv : ∀ x out, refLinear ops x lw.vProj out (ctx.numKvHeads * ctx.headDim % uint32Size)
      ctx.hiddenSize = refLinear ops x lw'.vProj out _ _ := fun _ _ => refLinear_congr (h .vProj)
  simp only [layerProject, hnorm, hq, hk, hv]

theorem LayerWeights.SameReads.finish (h : lw.SameReads ctx lw') (b : ScratchBuffers F) :
    layerFinish ops ctx lw b = layerFinish ops ctx lw' b := by
  have hnorm : ∀ x out, refRmsnorm ops x lw.postNorm out ctx.hiddenSize ctx.rmsNormEps =
      refRmsnorm ops x lw'.postNorm out ctx.hiddenSize ctx.rmsNormEps :=
    fun _ _ => refRmsnorm_congr (h .postNorm)
  have ho : ∀ x out, refLinear ops x lw.oProj out ctx.hiddenSize
      (ctx.numQHeads * ctx.headDim % uint32Size) = refLinear ops x lw'.oProj out _ _ :=
    fun _ _ => refLinear_congr (h .oProj)
  have hgate : ∀ x out, refLinear ops x lw.gateProj out ctx.intermediateSize ctx.hiddenSize =
      refLinear ops x lw'.gateProj out _ _ := fun _ _ => refLinear_congr (h .gateProj)
  have hup : ∀ x out, refLinear ops x lw.upProj out ctx.intermediateSize ctx.hiddenSize =
      refLinear ops x lw'.upProj out _ _ := fun _ _ => refLinear_congr (h .upProj)
  have hdown : ∀ x out, refLinear ops x lw.downProj out ctx.hiddenSize ctx.intermediateSize =
      refLinear ops x lw'.downProj out _ _ := fun _ _ => refLinear_congr (h .downProj)
  simp only [layerFinish, hnorm, ho, hgate, hup, hdown]

/-- The data of a layer, taken through a map of its slots. -/
theorem LayerWeights.cdata_map {α β : Type} (f : α → β) (lw : LayerWeights (Option α)) :
    (lw.map (Option.map f)).cdata = lw.cdata.map (LayerWeights.map f) := by
  simp only [LayerWeights.cdata, LayerWeights.map, Option.bind_eq_bind, Option.bind_map,
    Option.map_bind, Function.comp_def, pure, Option.map_some]

theorem LayerWeights.get_map {α β : Type} (f : α → β) (lw : LayerWeights α) (t : LayerTensor) :
    (lw.map f).get t = f (lw.get t) := by
  cases t <;> rfl

/-- A layer has data when every slot has. -/
theorem LayerWeights.get_of_cdata {α : Type} {lw : LayerWeights (Option α)} {d : LayerWeights α}
    (h : lw.cdata = some d) (t : LayerTensor) : lw.get t = some (d.get t) := by
  simp only [LayerWeights.cdata, Option.bind_eq_bind, Option.bind_eq_some_iff, pure,
    Option.some.injEq] at h
  obtain ⟨_, hin, _, hpost, _, hq, _, hk, _, hv, _, ho, _, hgate, _, hup, _, hdown, rfl⟩ := h
  cases t with
  | inputNorm => exact hin
  | postNorm => exact hpost
  | qProj => exact hq
  | kProj => exact hk
  | vProj => exact hv
  | oProj => exact ho
  | gateProj => exact hgate
  | upProj => exact hup
  | downProj => exact hdown

end Reads

section Clip

variable {F D : Type} {ops : FloatOps F D} {ctx : GptOssContext F} {slots : WeightSlots F} {z : F}

/-- The bound tensors of a layer, if none of its slots is empty. -/
def WeightSlots.layer (slots : WeightSlots F) (layer : Nat) :
    Option (LayerWeights (BoundTensor F)) :=
  (slots.layers.getD layer (LayerWeights.zero (BoundTensor F))).cdata

theorem GptOssContext.withSlots_cdata (ctx : GptOssContext F) (slots : WeightSlots F)
    (layer : Nat) :
    ((ctx.withSlots slots).layers.getD layer (LayerWeights.zero (Nat → F))).cdata =
      (slots.layer layer).map (LayerWeights.map BoundTensor.cells) := by
  have hmap := List.getD_map slots.layers (LayerWeights.zero (BoundTensor F)) (n := layer)
    (LayerWeights.map (Option.map BoundTensor.cells))
  rw [WeightSlots.layer, ← LayerWeights.cdata_map, ← hmap]
  rfl

theorem WeightSlots.clip_layer (layer : Nat) :
    (slots.clip z).layer layer =
      (slots.layer layer).map (LayerWeights.map (BoundTensor.clip z)) := by
  have hmap := List.getD_map slots.layers (LayerWeights.zero (BoundTensor F)) (n := layer)
    (LayerWeights.map (Option.map (BoundTensor.clip z)))
  rw [WeightSlots.layer, WeightSlots.layer, ← LayerWeights.cdata_map, ← hmap]
  rfl

theorem WeightSlots.get_of_layer {layer : Nat} {lb : LayerWeights (BoundTensor F)}
    (h : slots.layer layer = some lb) (t : LayerTensor) :
    slots.get (.layer layer t) = some (lb.get t) := by
  have hget := LayerWeights.get_of_cdata h t
  rw [List.getD_eq_getElem?_getD] at hget
  change (slots.layers[layer]?.bind fun lw => lw.get t) = _
  cases hlayer : slots.layers[layer]? with
  | none =>
      rw [hlayer] at hget
      cases t <;> cases hget
  | some lw =>
      rw [hlayer] at hget
      exact hget

/-- Behind the elements of covering tensors nothing is read. -/
theorem WeightSlots.Covered.sameReads (h : slots.Covered ctx) {layer : Nat}
    {lb : LayerWeights (BoundTensor F)} (hlayer : slots.layer layer = some lb) :
    ((lb.map (BoundTensor.clip z)).map BoundTensor.cells).SameReads ctx
      (lb.map BoundTensor.cells) := by
  intro t i hi
  rw [LayerWeights.get_map, LayerWeights.get_map, LayerWeights.get_map]
  exact BoundTensor.clip_cells (h _ _ (WeightSlots.get_of_layer hlayer t)) hi

theorem forwardLayer_clip (h : slots.Covered ctx) (pos kvLen : Nat) (s : ForwardState F)
    (layer : Nat) :
    forwardLayer ops (ctx.withSlots (slots.clip z)) pos kvLen s layer =
      forwardLayer ops (ctx.withSlots slots) pos kvLen s layer := by
  unfold forwardLayer
  rw [ctx.withSlots_cdata, ctx.withSlots_cdata, WeightSlots.clip_layer]
  cases hlayer : slots.layer layer with
  | none => rfl
  | some lb =>
      let clipped := (lb.map (BoundTensor.clip z)).map BoundTensor.cells
      let whole := lb.map BoundTensor.cells
      have hsame : clipped.SameReads ctx whole := h.sameReads hlayer
      have hproject : layerProject ops (ctx.withSlots (slots.clip z)) clipped pos s.bufs =
          layerProject ops (ctx.withSlots slots) whole pos s.bufs := hsame.project pos s.bufs
      have hfinish : ∀ b, layerFinish ops (ctx.withSlots (slots.clip z)) clipped b =
          layerFinish ops (ctx.withSlots slots) whole b := hsame.finish
      simp only [Option.map_some]
      rw [hproject]
      simp only [clipped] at hfinish
      simp only [hfinish]
      rfl

theorem forwardLayers_clip (h : slots.Covered ctx) (pos kvLen : Nat) (layers : List Nat)
    (s : ForwardState F) :
    forwardLayers ops (ctx.withSlots (slots.clip z)) pos kvLen layers s =
      forwardLayers ops (ctx.withSlots slots) pos kvLen layers s := by
  induction layers generalizing s with
  | nil => rfl
  | cons layer layers ih => simp only [forwardLayers, forwardLayer_clip h, ih]

theorem forwardFinish_clip (h : slots.Covered ctx) (s : ForwardState F) :
    forwardFinish ops (ctx.withSlots (slots.clip z)) s =
      forwardFinish ops (ctx.withSlots slots) s := by
  unfold forwardFinish
  cases hnorm : slots.finalNorm with
  | none => simp [GptOssContext.withSlots, WeightSlots.clip, hnorm]
  | some norm =>
      have hrms : ∀ x out, refRmsnorm ops x (norm.clip z).cells out ctx.hiddenSize
          ctx.rmsNormEps = refRmsnorm ops x norm.cells out ctx.hiddenSize ctx.rmsNormEps :=
        fun _ _ => refRmsnorm_congr fun _ => BoundTensor.clip_cells (h .finalNorm norm hnorm)
      cases hhead : slots.lmHead with
      | none => simp [GptOssContext.withSlots, WeightSlots.clip, hnorm, hhead, hrms]
      | some head =>
          have hlinear : ∀ x out, refLinear ops x (head.clip z).cells out ctx.vocabSize
              ctx.hiddenSize = refLinear ops x head.cells out ctx.vocabSize ctx.hiddenSize :=
            fun _ _ => refLinear_congr fun _ => BoundTensor.clip_cells (h .lmHead head hhead)
          simp [GptOssContext.withSlots, WeightSlots.clip, hnorm, hhead, hrms, hlinear]

/-- With covering tensors a call reads nothing but their elements: what lies behind them in
memory changes neither its result nor the state it leaves. -/
theorem hbiAdapterGptOssForward_clip (h : slots.Covered ctx) (call : ForwardCall F) (pos : Nat)
    (s : ForwardState F) :
    hbiAdapterGptOssForward ops (ctx.withSlots (slots.clip z)) call pos s =
      hbiAdapterGptOssForward ops (ctx.withSlots slots) call pos s := by
  unfold hbiAdapterGptOssForward
  by_cases htoken : call.tokenId < ctx.vocabSize
  · cases hemb : slots.embedTokens with
    | none => simp [GptOssContext.withSlots, WeightSlots.clip, hemb]
    | some emb =>
        have hrow : fill s.bufs.scratchA (ctx.withSlots (slots.clip z)).hiddenSize
            (fun i => (emb.clip z).cells (call.tokenId * (ctx.withSlots (slots.clip z)).hiddenSize
              + i)) = fill s.bufs.scratchA (ctx.withSlots slots).hiddenSize
              fun i => emb.cells (call.tokenId * (ctx.withSlots slots).hiddenSize + i) := by
          funext i
          change fill _ ctx.hiddenSize _ i = fill _ ctx.hiddenSize _ i
          by_cases hi : i < ctx.hiddenSize
          · have hend := @row_end_le ctx.hiddenSize call.tokenId ctx.vocabSize htoken
            rw [fill, fill, if_pos hi, if_pos hi]
            apply BoundTensor.clip_cells (h .embedTokens emb hemb)
            change call.tokenId * ctx.hiddenSize + i < ctx.vocabSize * ctx.hiddenSize
            omega
          · rw [fill, fill, if_neg hi, if_neg hi]
        have hclip : (ctx.withSlots (slots.clip z)).embedTokens = some (emb.clip z).cells := by
          simp [GptOssContext.withSlots, WeightSlots.clip, hemb]
        have hwhole : (ctx.withSlots slots).embedTokens = some emb.cells := by
          simp [GptOssContext.withSlots, hemb]
        simp only [hclip, hwhole, hrow, forwardLayers_clip h, forwardFinish_clip h]
        rfl
  · have hge : call.tokenId ≥ ctx.vocabSize := not_lt.mp htoken
    simp [GptOssContext.withSlots, hge]

end Clip

section Bind

variable {F : Type} {desc : ModelDescriptor} {ctx : GptOssContext F} {page : KvPage}
  {slots : WeightSlots F}

/-- The forward pass reads as many floats as registration demands elements. -/
theorem ModelTensor.reads_eq_prod (hsized : ctx.Sized desc page) (t : ModelTensor) :
    t.reads ctx = (t.dims desc).prod := by
  cases t with
  | embedTokens | finalNorm | lmHead =>
      simp [ModelTensor.reads, ModelTensor.dims, hsized.hiddenSize, hsized.vocabSize]
  | layer index tensor =>
      cases tensor <;> simp [ModelTensor.reads, ModelTensor.dims, LayerTensor.reads,
        LayerTensor.dims, hsized.hiddenSize, hsized.intermediateSize, hsized.numQHeads,
        hsized.numKvHeads, hsized.headDim]

/-- A call hands over at least as many elements as registration demands of the tensor that
its name selects, if the call is one that binds anything. -/
def BindCall.Fits (desc : ModelDescriptor) (call : BindCall F) : Prop :=
  ∀ t, bindTarget desc.numLayers call.name = .ok t → call.buf.Wraps call.shape →
    (((t.dims desc).prod : Nat) : Int) ≤ call.shape.dims.prod

/-- A call hands over the shape that registration demands of the tensor that its name selects,
if the call is one that binds anything. -/
def BindCall.Declares (desc : ModelDescriptor) (call : BindCall F) : Prop :=
  ∀ t, bindTarget desc.numLayers call.name = .ok t → call.buf.Wraps call.shape →
    call.shape.dims = (t.dims desc).map Int.ofNat

theorem prod_map_ofNat (dims : List Nat) :
    (dims.map Int.ofNat).prod = ((dims.prod : Nat) : Int) := by
  induction dims with
  | nil => rfl
  | cons d dims ih =>
      rw [List.map_cons, List.prod_cons, List.prod_cons, ih, Nat.cast_mul]
      rfl

theorem BindCall.Declares.fits {call : BindCall F} (h : call.Declares desc) : call.Fits desc := by
  intro t ht hwraps
  rw [h t ht hwraps, prod_map_ofNat]

/-- A call binds the slot of its name, or it changes nothing. -/
theorem hbiAdapterGptOssBindWeights_cases (hinit : ctx.initialized = true) (call : BindCall F) :
    (∃ t b, bindTarget ctx.numLayers call.name = .ok t ∧ call.buf.Wraps call.shape ∧
      b.tensor.shape = call.shape ∧ b.cells = call.buf.cells ∧
      hbiAdapterGptOssBindWeights ctx slots call = (slots.set b t, .ok ())) ∨
    (¬ ∃ t, bindTarget ctx.numLayers call.name = .ok t ∧ call.buf.Wraps call.shape) ∧
      ∃ f, hbiAdapterGptOssBindWeights ctx slots call = (slots, .error f) := by
  unfold hbiAdapterGptOssBindWeights
  by_cases haddr : call.buf.addr = 0
  · rw [if_pos haddr]
    exact Or.inr ⟨fun ⟨t, _, hwraps⟩ => hwraps.addr_pos.ne' haddr, _, rfl⟩
  · rw [if_neg haddr, if_neg (by simp [hinit])]
    cases htarget : bindTarget ctx.numLayers call.name with
    | error e =>
        refine Or.inr ⟨?_, e, rfl⟩
        rintro ⟨t, ht, -⟩
        cases ht
    | ok target =>
        dsimp only
        cases hbind : bindWeightTensor call.buf .fp32 call.shape with
        | error e =>
            refine Or.inr ⟨?_, e, rfl⟩
            rintro ⟨t, -, hwraps⟩
            obtain ⟨b, hb⟩ := hwraps.bind
            rw [hbind] at hb
            cases hb
        | ok b =>
            obtain ⟨hwraps, hshape, hcells⟩ := bindWeightTensor_eq_ok hbind
            exact Or.inl ⟨target, b, rfl, hwraps, hshape, hcells, rfl⟩

/-- The slots have an entry for each layer. -/
def WeightSlots.Shaped (ctx : GptOssContext F) (slots : WeightSlots F) : Prop :=
  slots.layers.length = ctx.numLayers

theorem hbiAdapterGptOssBindWeights_shaped (hsized : ctx.Sized desc page)
    (hshaped : slots.Shaped ctx) (call : BindCall F) :
    (hbiAdapterGptOssBindWeights ctx slots call).1.Shaped ctx := by
  rcases hbiAdapterGptOssBindWeights_cases hsized.initialized call with
    ⟨t, b, -, -, -, -, heq⟩ | ⟨-, f, heq⟩
  · rw [heq]
    exact (slots.layers_length_set b t).trans hshaped
  · rw [heq]
    exact hshaped

/-- From covering slots a call leads to covering slots exactly when it fits. -/
theorem hbiAdapterGptOssBindWeights_covered_iff (hsized : ctx.Sized desc page)
    (hshaped : slots.Shaped ctx) (hcovered : slots.Covered ctx) (call : BindCall F) :
    (hbiAdapterGptOssBindWeights ctx slots call).1.Covered ctx ↔ call.Fits desc := by
  rcases hbiAdapterGptOssBindWeights_cases hsized.initialized call with
    ⟨t, b, htarget, hwraps, hshape, -, heq⟩ | ⟨hnone, f, heq⟩
  · have hwithin : t.Within slots.layers.length := hshaped ▸ bindTarget_within htarget
    rw [heq]
    constructor
    · intro hset t' ht' _
      rw [← hsized.numLayers, htarget] at ht'
      obtain rfl := Except.ok.inj ht'
      have hget := slots.get_set b hwithin t
      rw [if_pos rfl] at hget
      have hreads := hset t b hget
      rw [ModelTensor.reads_eq_prod hsized, BoundTensor.count, hshape] at hreads
      have hpos := hwraps.valid.prod_pos
      omega
    · intro hfits u c hget
      rw [slots.get_set b hwithin] at hget
      by_cases hut : u = t
      · rw [if_pos hut] at hget
        obtain rfl := Option.some.inj hget
        have hle := hfits t (hsized.numLayers ▸ htarget) hwraps
        rw [hut, ModelTensor.reads_eq_prod hsized, BoundTensor.count, hshape]
        omega
      · rw [if_neg hut] at hget
        exact hcovered u c hget
  · rw [heq]
    constructor
    · intro _ t ht hwraps
      exact absurd ⟨t, hsized.numLayers ▸ ht, hwraps⟩ hnone
    · intro _
      exact hcovered

/-- Along a run the slots stay covering exactly when every call fits. -/
theorem bindRun_covered_iff (hsized : ctx.Sized desc page) (hshaped : slots.Shaped ctx)
    (hcovered : slots.Covered ctx) (calls : List (BindCall F)) :
    (∀ n, (bindRun ctx (calls.take n) slots).Covered ctx) ↔ ∀ call ∈ calls, call.Fits desc := by
  induction calls generalizing slots with
  | nil => simp [bindRun, hcovered]
  | cons call calls ih =>
      have hnext := hbiAdapterGptOssBindWeights_shaped hsized hshaped call
      have hstep := hbiAdapterGptOssBindWeights_covered_iff hsized hshaped hcovered call
      rw [List.forall_mem_cons]
      constructor
      · intro hall
        have hone := hall 1
        have hfits := hstep.mp hone
        exact ⟨hfits, (ih hnext (hstep.mpr hfits)).mp fun n => hall (n + 1)⟩
      · rintro ⟨hfits, hrest⟩ n
        cases n with
        | zero => exact hcovered
        | succ n => exact (ih hnext (hstep.mpr hfits)).mpr hrest n

/-- From slots with accepted shapes a call leads to such slots exactly when it hands over the
declared shape. -/
theorem hbiAdapterGptOssBindWeights_registered_iff (hsized : ctx.Sized desc page)
    (hshaped : slots.Shaped ctx) (hregistered : slots.Registered desc) (call : BindCall F) :
    (hbiAdapterGptOssBindWeights ctx slots call).1.Registered desc ↔ call.Declares desc := by
  rcases hbiAdapterGptOssBindWeights_cases hsized.initialized call with
    ⟨t, b, htarget, hwraps, hshape, -, heq⟩ | ⟨hnone, f, heq⟩
  · have hwithin : t.Within slots.layers.length := hshaped ▸ bindTarget_within htarget
    rw [heq]
    constructor
    · intro hset t' ht' _
      rw [← hsized.numLayers, htarget] at ht'
      obtain rfl := Except.ok.inj ht'
      have hget := slots.get_set b hwithin t
      rw [if_pos rfl] at hget
      have hcheck := hset t b hget ⟨[], b.tensor.shape, .fp32, 0, 0, 0, 0, .default⟩ rfl
      rw [ModelTensor.check_eq_ok, hshape] at hcheck
      exact hcheck
    · intro hdeclares u c hget e he
      rw [slots.get_set b hwithin] at hget
      by_cases hut : u = t
      · rw [if_pos hut] at hget
        obtain rfl := Option.some.inj hget
        rw [ModelTensor.check_eq_ok, he, hshape, hut]
        exact hdeclares t (hsized.numLayers ▸ htarget) hwraps
      · rw [if_neg hut] at hget
        exact hregistered u c hget e he
  · rw [heq]
    constructor
    · intro _ t ht hwraps
      exact absurd ⟨t, hsized.numLayers ▸ ht, hwraps⟩ hnone
    · intro _
      exact hregistered

/-- Along a run the shapes stay accepted exactly when every call hands over the declared one. -/
theorem bindRun_registered_iff (hsized : ctx.Sized desc page) (hshaped : slots.Shaped ctx)
    (hregistered : slots.Registered desc) (calls : List (BindCall F)) :
    (∀ n, (bindRun ctx (calls.take n) slots).Registered desc) ↔
      ∀ call ∈ calls, call.Declares desc := by
  induction calls generalizing slots with
  | nil => simp [bindRun, hregistered]
  | cons call calls ih =>
      have hnext := hbiAdapterGptOssBindWeights_shaped hsized hshaped call
      have hstep := hbiAdapterGptOssBindWeights_registered_iff hsized hshaped hregistered call
      rw [List.forall_mem_cons]
      constructor
      · intro hall
        have hdeclares := hstep.mp (hall 1)
        exact ⟨hdeclares, (ih hnext (hstep.mpr hdeclares)).mp fun n => hall (n + 1)⟩
      · rintro ⟨hdeclares, hrest⟩ n
        cases n with
        | zero => exact hregistered
        | succ n => exact (ih hnext (hstep.mpr hdeclares)).mpr hrest n

theorem WeightSlots.empty_shaped (ctx : GptOssContext F) :
    (WeightSlots.empty F ctx.numLayers).Shaped ctx :=
  List.length_replicate

theorem WeightSlots.empty_covered (ctx : GptOssContext F) :
    (WeightSlots.empty F ctx.numLayers).Covered ctx := by
  intro t b hget
  rw [WeightSlots.get_empty] at hget
  cases hget

theorem WeightSlots.empty_registered (desc : ModelDescriptor) (numLayers : Nat) :
    (WeightSlots.empty F numLayers).Registered desc := by
  intro t b hget
  rw [WeightSlots.get_empty] at hget
  cases hget

/-- For every context that was created and every sequence of calls that bind weights: in
every state on the way each bound tensor has all the elements that the forward pass reads
from it and a shape that registration accepts for it, exactly when each call that binds a slot
hands over the shape that registration demands of the tensor of that slot. The elements alone
are there exactly when each such call hands over at least as many. -/
theorem gpt_oss_bind_weights_covered_iff {eps theta : F} {blocks : GptOssBlocks}
    (hcreate : gptOssCreateContext desc eps theta blocks = some (.ok ctx))
    (calls : List (BindCall F)) :
    ((∀ n, (bindRun ctx (calls.take n) (WeightSlots.empty F ctx.numLayers)).Covered ctx ∧
        (bindRun ctx (calls.take n) (WeightSlots.empty F ctx.numLayers)).Registered desc) ↔
      ∀ call ∈ calls, call.Declares desc) ∧
    ((∀ n, (bindRun ctx (calls.take n) (WeightSlots.empty F ctx.numLayers)).Covered ctx) ↔
      ∀ call ∈ calls, call.Fits desc) := by
  obtain ⟨page, -, hsized⟩ := gptOssCreateContext_sized hcreate
  have hcovered := bindRun_covered_iff hsized (WeightSlots.empty_shaped ctx)
    (WeightSlots.empty_covered ctx) calls
  have hregistered := bindRun_registered_iff hsized (WeightSlots.empty_shaped ctx)
    (WeightSlots.empty_registered desc ctx.numLayers) calls
  refine ⟨?_, hcovered⟩
  constructor
  · exact fun hall => hregistered.mp fun n => (hall n).2
  · intro hdeclares n
    have hfits : ∀ call ∈ calls, call.Fits desc := fun call hcall => (hdeclares call hcall).fits
    exact ⟨hcovered.mpr hfits n, hregistered.mpr hdeclares n⟩

/-- A call with the shape that a registered manifest has for the tensor declares it. -/
theorem BindCall.declares_of_registered {m : Manifest} {call : BindCall F} {e : ModelTensorEntry}
    {t : ModelTensor} (hreg : gptOssRegisterTensors m desc = .ok ())
    (htarget : bindTarget desc.numLayers call.name = .ok t)
    (hfind : hbiModelManifestFind m t.name = some e) (hshape : call.shape = e.shape) :
    call.Declares desc := by
  intro t' ht' _
  rw [htarget] at ht'
  obtain rfl := Except.ok.inj ht'
  obtain ⟨e', hfind', hcheck⟩ :=
    gptOssRegisterTensors_iff_check.mp hreg t (bindTarget_within htarget)
  rw [hfind] at hfind'
  obtain rfl := Option.some.inj hfind'
  rw [hshape]
  exact ModelTensor.check_eq_ok.mp hcheck

end Bind

section Instances

/-- A buffer at an aligned address. -/
def bindFloats (name : String) (dims : List Int) (cells : Nat → Int) : BindCall Int :=
  ⟨bytes name, ⟨64, cells⟩, ⟨dims⟩⟩

/-- The embeddings and the norm of the small model, with the shapes it declares. -/
def declaredCalls : List (BindCall Int) :=
  [bindFloats "model.embed_tokens.weight" [1, 2] fun _ => 1,
    bindFloats "model.norm.weight" [2] fun _ => 1]

theorem gpt_oss_bind_weights_declared :
    ∃ ctx, gptOssCreateContext sharedDescriptor (0 : Int) 1 freeBlocks = some (.ok ctx) ∧
      ∀ n, (bindRun ctx (declaredCalls.take n) (WeightSlots.empty Int ctx.numLayers)).Covered
          ctx ∧
        (bindRun ctx (declaredCalls.take n) (WeightSlots.empty Int ctx.numLayers)).Registered
          sharedDescriptor := by
  obtain ⟨ctx, hcreate⟩ : ∃ ctx,
      gptOssCreateContext sharedDescriptor (0 : Int) 1 freeBlocks = some (.ok ctx) := ⟨_, rfl⟩
  refine ⟨ctx, hcreate, (gpt_oss_bind_weights_covered_iff hcreate declaredCalls).1.mpr ?_⟩
  have hembed : bindTarget 1 (bytes "model.embed_tokens.weight") = .ok .embedTokens := by
    decide +kernel
  have hnorm : bindTarget 1 (bytes "model.norm.weight") = .ok .finalNorm := by decide +kernel
  intro call hcall t ht _
  rcases List.mem_cons.mp hcall with rfl | hcall
  · obtain rfl := Except.ok.inj (hembed.symm.trans ht)
    decide
  · obtain rfl := List.mem_singleton.mp hcall
    obtain rfl := Except.ok.inj (hnorm.symm.trans ht)
    decide

/-- Embeddings of one element, where the small model has two. -/
def shortEmbedding (cells : Nat → Int) : BindCall Int :=
  bindFloats "model.embed_tokens.weight" [1] cells

/-- Embeddings with both elements, in one dimension instead of two. -/
def flatEmbedding : BindCall Int := bindFloats "model.embed_tokens.weight" [2] fun _ => 1

/-- The keys of the first attention call after the short embeddings have been bound. -/
def keysAfterShort (cells : Nat → Int) : Option (List (Int × List Int)) :=
  match gptOssCreateContext sharedDescriptor (0 : Int) 1 freeBlocks with
  | none | some (.error _) => none
  | some (.ok ctx) =>
      let slots := (hbiAdapterGptOssBindWeights ctx countingSlots (shortEmbedding cells)).1
      (hbiAdapterGptOssForward intOps (ctx.withSlots slots) zeroCall 0 zeroState).map
        fun run => keysSeen run.1.attended

theorem bindEmbedding_ok {ctx : GptOssContext Int} {page : KvPage}
    (hsized : ctx.Sized sharedDescriptor page) {dims : List Int} {cells : Nat → Int}
    (hvalid : hbiShapeValidate ⟨dims⟩ = .ok ()) (hbits : dims.prod * 32 ≤ int64Max - 7) :
    (hbiAdapterGptOssBindWeights ctx (WeightSlots.empty Int ctx.numLayers)
      (bindFloats "model.embed_tokens.weight" dims cells)).2 = .ok () := by
  have htarget : bindTarget 1 (bytes "model.embed_tokens.weight") = .ok .embedTokens := by
    decide +kernel
  have hwraps : (⟨64, cells⟩ : WeightBuffer Int).Wraps ⟨dims⟩ :=
    ⟨Nat.succ_pos 63, (by decide : 64 % sizeofFloat = 0), hbiShapeValidate_eq_ok.mp hvalid, hbits⟩
  rcases @hbiAdapterGptOssBindWeights_cases Int ctx (WeightSlots.empty Int ctx.numLayers)
    hsized.initialized (bindFloats "model.embed_tokens.weight" dims cells) with
    ⟨_, _, -, -, -, -, heq⟩ | ⟨hnone, -⟩
  · rw [heq]
  · exact absurd ⟨_, by rw [hsized.numLayers]; exact htarget, hwraps⟩ hnone

/-- The short embeddings are bound, and the key that the forward pass computes depends on the
float behind their only element. The flat ones have all elements, are bound as well, and
registration rejects their shape. -/
theorem gpt_oss_bind_weights_short :
    ∃ ctx, gptOssCreateContext sharedDescriptor (0 : Int) 1 freeBlocks = some (.ok ctx) ∧
      (hbiAdapterGptOssBindWeights ctx (WeightSlots.empty Int ctx.numLayers)
        (shortEmbedding fun _ => 1)).2 = .ok () ∧
      ¬ (∀ n, (bindRun ctx ([shortEmbedding fun _ => 1].take n)
        (WeightSlots.empty Int ctx.numLayers)).Covered ctx) ∧
      keysAfterShort (fun _ => 1) = some [(2, [2, 2])] ∧
      keysAfterShort (fun i => if i = 0 then 1 else 0) = some [(0, [0, 0])] ∧
      (hbiAdapterGptOssBindWeights ctx (WeightSlots.empty Int ctx.numLayers)
        flatEmbedding).2 = .ok () ∧
      ∀ e : ModelTensorEntry, e.shape = flatEmbedding.shape →
        ModelTensor.embedTokens.check sharedDescriptor e ≠ .ok () := by
  obtain ⟨ctx, hcreate⟩ : ∃ ctx,
      gptOssCreateContext sharedDescriptor (0 : Int) 1 freeBlocks = some (.ok ctx) := ⟨_, rfl⟩
  obtain ⟨page, -, hsized⟩ := gptOssCreateContext_sized hcreate
  have htarget : bindTarget 1 (bytes "model.embed_tokens.weight") = .ok .embedTokens := by
    decide +kernel
  have hwraps : (shortEmbedding fun _ => 1).buf.Wraps (shortEmbedding fun _ => 1).shape :=
    ⟨by decide, by decide, hbiShapeValidate_eq_ok.mp rfl, by decide⟩
  refine ⟨ctx, hcreate, bindEmbedding_ok hsized rfl (by decide), ?_, by decide +kernel,
    by decide +kernel, bindEmbedding_ok hsized rfl (by decide), ?_⟩
  · intro hall
    have hfits := (bindRun_covered_iff hsized (WeightSlots.empty_shaped ctx)
      (WeightSlots.empty_covered ctx) _).mp hall _ List.mem_cons_self
    exact absurd (hfits .embedTokens htarget hwraps) (by decide)
  · intro e he hcheck
    rw [ModelTensor.check_eq_ok, he] at hcheck
    exact absurd hcheck (by decide)

end Instances

end Hummingbird

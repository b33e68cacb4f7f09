import Hummingbird.Adapter.Formulas
import Hummingbird.Foundation.Decoding

/-!
The forward pass as a decoder without buffers. A layer is a block: at a position it has a row,
the rotated key and the value, and takes the hidden vector on by attention over the rows up to
that position and by its feed-forward part. The page of the context holds the rows of the last
layer, whichever layer reads it. Every call returns the token of that decoder.
-/

namespace Hummingbird

open Decoding

section Blocks

variable {F D : Type} (ops : FloatOps F D) (ctx : GptOssContext F)

def layerNorm (lw : LayerWeights (Nat → F)) (x : Nat → F) : Nat → F :=
  normed ops x lw.inputNorm ctx.hiddenSize ctx.rmsNormEps

def layerRow (lw : LayerWeights (Nat → F)) (pos : Nat) (x : Nat → F) : KvRow F where
  k := rotated ops (linear ops (layerNorm ops ctx lw x) lw.kProj ctx.hiddenSize) ctx.headDim pos
    ctx.ropeTheta
  v := linear ops (layerNorm ops ctx lw x) lw.vProj ctx.hiddenSize

def layerQuery (lw : LayerWeights (Nat → F)) (pos : Nat) (x : Nat → F) : Nat → F :=
  rotated ops (linear ops (layerNorm ops ctx lw x) lw.qProj ctx.hiddenSize) ctx.headDim pos
    ctx.ropeTheta

/-- The hidden vector with the attention output added. -/
def afterAttention (lw : LayerWeights (Nat → F)) (x a : Nat → F) (i : Nat) : F :=
  ops.add (x i) (linear ops a lw.oProj (ctx.numQHeads * ctx.headDim) i)

/-- The gated middle of the feed-forward part. -/
def gatedHidden (lw : LayerWeights (Nat → F)) (x : Nat → F) (i : Nat) : F :=
  let h := normed ops x lw.postNorm ctx.hiddenSize ctx.rmsNormEps
  ops.mul (refSilu ops (linear ops h lw.gateProj ctx.hiddenSize i))
    (linear ops h lw.upProj ctx.hiddenSize i)

def afterFeedForward (lw : LayerWeights (Nat → F)) (x : Nat → F) (i : Nat) : F :=
  ops.add (x i) (linear ops (gatedHidden ops ctx lw x) lw.downProj ctx.intermediateSize i)

/-- A layer of the model. -/
def layerBlock (lw : LayerWeights (Nat → F)) : Block (Nat → F) (KvRow F) where
  row := layerRow ops ctx lw
  next pos rows x := afterFeedForward ops ctx lw (afterAttention ops ctx lw x
    (attended ops (layerQuery ops ctx lw pos x) ctx.numQHeads ctx.numKvHeads ctx.headDim rows))

/-- The model of a context with all its weights. -/
def modelBlocks (w : GptOssWeights F) : List (Block (Nat → F) (KvRow F)) :=
  (List.range ctx.numLayers).map fun l => layerBlock ops ctx (w.layer l)

def embedded (w : GptOssWeights F) (token i : Nat) : F :=
  w.embedTokens (token * ctx.hiddenSize + i)

/-- The token chosen from a hidden vector. -/
def chosenToken (w : GptOssWeights F) (x : Nat → F) : Nat :=
  refArgmax ops (linear ops (normed ops x w.finalNorm ctx.hiddenSize ctx.rmsNormEps) w.lmHead
    ctx.hiddenSize) ctx.vocabSize

/-- The tokens of the decoder. -/
def decodedTokens (w : GptOssWeights F) (tokens : List Nat) : List Nat :=
  decode (embedded ctx w) (chosenToken ops ctx w) (modelBlocks ops ctx w) [] tokens

end Blocks

section Refinement

variable {F D : Type} {ops : FloatOps F D} {ctx : GptOssContext F}

/-- The slots of a context hold the arrays of a model. -/
structure GptOssContext.BoundTo (ctx : GptOssContext F) (w : GptOssWeights F) : Prop where
  embedTokens : ctx.embedTokens = some w.embedTokens
  finalNorm : ctx.finalNorm = some w.finalNorm
  lmHead : ctx.lmHead = some w.lmHead
  layers : ∀ l < ctx.numLayers,
    (ctx.layers.getD l (LayerWeights.zero (Nat → F))).cdata = some (w.layer l)

theorem GptOssContext.bindAll_boundTo (ctx : GptOssContext F) (w : GptOssWeights F) :
    (ctx.bindAll w).BoundTo w := by
  refine ⟨rfl, rfl, rfl, fun l hl => ?_⟩
  change l < ctx.numLayers at hl
  simp [GptOssContext.bindAll, List.getD_eq_getElem?_getD, hl]

/-- The page holds the rows of the decoder. -/
def ForwardState.Holds (ctx : GptOssContext F) (s : ForwardState F) (rows : List (KvRow F)) :
    Prop :=
  HoldsRows s.kCache s.vCache ctx.rowLen rows

theorem ropeHeads_rotated {x x' : Nat → F} {heads headDim pos : Nat} {theta : F}
    (hx : Set.EqOn x x' (Set.Iio (heads * headDim))) :
    Set.EqOn
      ((List.range heads).foldl (fun x h => refRopeHead ops x (h * headDim) headDim pos theta) x)
      (rotated ops x' headDim pos theta) (Set.Iio (heads * headDim)) := by
  intro i hi
  rw [@ropeHeads_eqOn F D ops x x' heads headDim pos theta hx i hi, ropeHeads_formula]
  exact if_pos hi

theorem layerProject_formula (h : ctx.Divides) (lw : LayerWeights (Nat → F)) (pos : Nat)
    {b : ScratchBuffers F} {x : Nat → F} (hx : Set.EqOn b.scratchA x (Set.Iio ctx.hiddenSize)) :
    Set.EqOn (layerProject ops ctx lw pos b).attnQ (layerQuery ops ctx lw pos x)
        (Set.Iio (ctx.numQHeads * ctx.headDim)) ∧
      Set.EqOn (layerProject ops ctx lw pos b).attnK (layerRow ops ctx lw pos x).k
        (Set.Iio ctx.rowLen) ∧
      Set.EqOn (layerProject ops ctx lw pos b).attnV (layerRow ops ctx lw pos x).v
        (Set.Iio ctx.rowLen) := by
  have hnorm := @refRmsnorm_formula F D ops b.scratchA x lw.inputNorm b.scratchB ctx.hiddenSize
    ctx.rmsNormEps hx
  simp only [layerProject, h.query, h.row]
  exact ⟨ropeHeads_rotated (refLinear_formula hnorm), ropeHeads_rotated (refLinear_formula hnorm),
    refLinear_formula hnorm⟩

theorem layerFinish_formula (h : ctx.Divides) (lw : LayerWeights (Nat → F))
    {b : ScratchBuffers F} {x a : Nat → F}
    (hx : Set.EqOn b.scratchA x (Set.Iio ctx.hiddenSize))
    (ha : Set.EqOn b.attnOut a (Set.Iio (ctx.numQHeads * ctx.headDim))) :
    Set.EqOn (layerFinish ops ctx lw b).scratchA
      (afterFeedForward ops ctx lw (afterAttention ops ctx lw x a)) (Set.Iio ctx.hiddenSize) := by
  have hadd : ∀ {x x' y y' : Nat → F}, Set.EqOn x x' (Set.Iio ctx.hiddenSize) →
      Set.EqOn y y' (Set.Iio ctx.hiddenSize) →
      Set.EqOn (fill x ctx.hiddenSize fun i => ops.add (x i) (y i))
        (fun i => ops.add (x' i) (y' i)) (Set.Iio ctx.hiddenSize) := by
    intro x x' y y' hx hy i hi
    rw [fill, if_pos (show i < ctx.hiddenSize from hi), hx hi, hy hi]
  simp only [layerFinish, h.query]
  have hmid := hadd hx (@refLinear_formula F D ops _ _ lw.oProj b.scratchB ctx.hiddenSize _ ha)
  have hnorm := @refRmsnorm_formula F D ops _ _ lw.postNorm
    (refLinear ops b.attnOut lw.oProj b.scratchB ctx.hiddenSize (ctx.numQHeads * ctx.headDim))
    ctx.hiddenSize ctx.rmsNormEps hmid
  apply hadd hmid
  apply refLinear_formula
  intro i hi
  rw [fill, if_pos (show i < ctx.intermediateSize from hi),
    @refLinear_formula F D ops _ _ lw.gateProj b.scratchC ctx.intermediateSize _ hnorm i hi,
    @refLinear_formula F D ops _ _ lw.upProj b.scratchD ctx.intermediateSize _ hnorm i hi]
  rfl

/-- A store at the next position adds its row to those that are held. -/
theorem HoldsRows.store {k v : Nat → KvCell F} {rowLen layer : Nat} {past : List (KvRow F)}
    {rowK rowV : Nat → F} {r : KvRow F} (h : HoldsRows k v rowLen past)
    (hk : Set.EqOn rowK r.k (Set.Iio rowLen)) (hv : Set.EqOn rowV r.v (Set.Iio rowLen)) :
    HoldsRows (storeRow k (past.length * rowLen) rowLen layer past.length rowK)
      (storeRow v (past.length * rowLen) rowLen layer past.length rowV) rowLen (past ++ [r]) := by
  have hcases : ∀ {t r'}, (past ++ [r])[t]? = some r' →
      t ≠ past.length ∧ past[t]? = some r' ∨ t = past.length ∧ r' = r := by
    intro t r' ht
    rcases Nat.lt_trichotomy t past.length with hlt | rfl | hgt
    · rw [List.getElem?_append_left hlt] at ht
      exact Or.inl ⟨by omega, ht⟩
    · simp only [List.getElem?_concat_length, Option.some.injEq] at ht
      exact Or.inr ⟨rfl, ht.symm⟩
    · rw [List.getElem?_eq_none (by simp; omega)] at ht
      cases ht
  constructor
  · intro t r' ht i hi
    rcases hcases ht with ⟨hne, hpast⟩ | ⟨rfl, rfl⟩
    · rw [storeRow_other hne hi]
      exact h.key t r' hpast i hi
    · rw [storeRow_own hi]
      exact hk hi
  · intro t r' ht i hi
    rcases hcases ht with ⟨hne, hpast⟩ | ⟨rfl, rfl⟩
    · rw [storeRow_other hne hi]
      exact h.value t r' hpast i hi
    · rw [storeRow_own hi]
      exact hv hi

theorem HoldsRows.left {k v : Nat → KvCell F} {rowLen : Nat} {past more : List (KvRow F)}
    (h : HoldsRows k v rowLen (past ++ more)) : HoldsRows k v rowLen past := by
  have hget : ∀ {t r}, past[t]? = some r → (past ++ more)[t]? = some r := fun ht => by
    rw [List.getElem?_append_left (List.getElem?_eq_some_iff.mp ht).1, ht]
  exact ⟨fun t r ht => h.key t r (hget ht), fun t r ht => h.value t r (hget ht)⟩

/-- A layer does what its block does. -/
theorem forwardLayer_refines (h : ctx.Divides) {past : List (KvRow F)} {layer : Nat}
    {lw : LayerWeights (Nat → F)}
    (hlw : (ctx.layers.getD layer (LayerWeights.zero (Nat → F))).cdata = some lw)
    (hpos : past.length < uint32Size)
    (hwrap : (past.length + 1) * ctx.numKvHeads ≤ uint32Size) {s : ForwardState F} {x : Nat → F}
    (hs : s.Holds ctx past) (hx : Set.EqOn s.bufs.scratchA x (Set.Iio ctx.hiddenSize)) :
    ∃ s', forwardLayer ops ctx past.length (past.length + 1) s layer = some (s', .ok ()) ∧
      s'.Holds ctx ((layerBlock ops ctx lw).rows past x) ∧
      Set.EqOn s'.bufs.scratchA ((layerBlock ops ctx lw).apply past x)
        (Set.Iio ctx.hiddenSize) := by
  obtain ⟨hoffset, hcount⟩ := kvOffsets_eq h.row_lt hpos
  obtain ⟨hq, hk, hv⟩ := @layerProject_formula F D ops ctx h lw past.length s.bufs x hx
  have hrows := @HoldsRows.store F _ _ _ layer _ _ _ _ hs hk hv
  obtain ⟨out, scores, hrun, hout⟩ := @refAttention_formula F D ops _
    (layerProject ops ctx lw past.length s.bufs).attnOut
    (layerProject ops ctx lw past.length s.bufs).scores _ _ ctx.numQHeads ctx.numKvHeads
    ctx.headDim _ _ h.kv_pos h.q_pos h.dvd (by simpa using hwrap) hq hrows
  rw [List.length_append, List.length_singleton] at hrun
  unfold forwardLayer
  rw [hlw]
  dsimp only
  rw [hoffset, hcount, hrun]
  exact ⟨_, rfl, hrows, layerFinish_formula h lw hx hout⟩

/-- The loop over some layers is the pass of their blocks. -/
theorem forwardLayers_refines (h : ctx.Divides) {w : GptOssWeights F} {past : List (KvRow F)}
    {layers : List Nat}
    (hlw : ∀ l ∈ layers,
      (ctx.layers.getD l (LayerWeights.zero (Nat → F))).cdata = some (w.layer l))
    (hpos : past.length < uint32Size)
    (hwrap : (past.length + 1) * ctx.numKvHeads ≤ uint32Size) {s : ForwardState F} {x : Nat → F}
    {page : List (KvRow F)} (hpast : s.Holds ctx past) (hpage : s.Holds ctx page)
    (hx : Set.EqOn s.bufs.scratchA x (Set.Iio ctx.hiddenSize)) :
    let res := pass past (layers.map fun l => layerBlock ops ctx (w.layer l)) x page
    ∃ s', forwardLayers ops ctx past.length (past.length + 1) layers s = some (s', .ok ()) ∧
      s'.Holds ctx res.2 ∧ Set.EqOn s'.bufs.scratchA res.1 (Set.Iio ctx.hiddenSize) := by
  induction layers generalizing s x page with
  | nil => exact ⟨s, rfl, hpage, hx⟩
  | cons l layers ih =>
      obtain ⟨s₁, hrun, hs₁, hx₁⟩ := @forwardLayer_refines F D ops ctx h past l _
        (hlw l List.mem_cons_self) hpos hwrap s x hpast hx
      obtain ⟨s₂, hrest, hres⟩ := ih (fun l' hl' => hlw l' (List.mem_cons_of_mem l hl'))
        hs₁.left hs₁ hx₁
      refine ⟨s₂, ?_, hres⟩
      simp only [forwardLayers, hrun, Option.bind_eq_bind, Option.bind_some]
      exact hrest

/-- Norm, head and choice of the token. -/
theorem forwardFinish_refines {w : GptOssWeights F} (hw : ctx.BoundTo w)
    (hvocab : 0 < ctx.vocabSize)
    {s : ForwardState F} {x : Nat → F} {page : List (KvRow F)} (hpage : s.Holds ctx page)
    (hx : Set.EqOn s.bufs.scratchA x (Set.Iio ctx.hiddenSize)) :
    ∃ s', forwardFinish ops ctx s = (s', .ok (chosenToken ops ctx w x)) ∧ s'.Holds ctx page := by
  have hlogits := @refLinear_formula F D ops _ _ w.lmHead s.bufs.logits ctx.vocabSize _
    (@refRmsnorm_formula F D ops _ _ w.finalNorm s.bufs.scratchB ctx.hiddenSize ctx.rmsNormEps hx)
  simp only [forwardFinish, hw.finalNorm, hw.lmHead]
  rw [refArgmax_congr hvocab hlogits]
  exact ⟨_, rfl, hpage⟩

end Refinement

section Run

variable {F D : Type} {ops : FloatOps F D} {ctx : GptOssContext F} {maxSeq : Nat}

/-- The call of a token is the pass of its embedding, and its choice. -/
theorem hbiAdapterGptOssForward_refines (h : ctx.Divides) (hgeom : ctx.Geometry maxSeq)
    {w : GptOssWeights F} (hw : ctx.BoundTo w) {past : List (KvRow F)}
    (hpos : past.length + 1 < uint32Size)
    (hwrap : (past.length + 1) * ctx.numKvHeads ≤ uint32Size) {call : ForwardCall F}
    (htoken : call.tokenId < ctx.vocabSize) (hscores : call.scores.isSome) {s : ForwardState F}
    (hs : s.Holds ctx past) :
    let res := pass past (modelBlocks ops ctx w) (embedded ctx w call.tokenId) past
    ∃ s', hbiAdapterGptOssForward ops ctx call past.length s =
        some (s', .ok (chosenToken ops ctx w res.1)) ∧ s'.Holds ctx res.2 := by
  intro res
  obtain ⟨page, hpage⟩ := hgeom.page
  obtain ⟨scores, hscores⟩ := Option.isSome_iff_exists.mp hscores
  have hlen : (past.length + 1) % uint32Size = past.length + 1 := Nat.mod_eq_of_lt hpos
  have hembed : Set.EqOn (fill s.bufs.scratchA ctx.hiddenSize fun i =>
      w.embedTokens (call.tokenId * ctx.hiddenSize + i)) (embedded ctx w call.tokenId)
      (Set.Iio ctx.hiddenSize) := fun i hi => if_pos hi
  obtain ⟨s₁, hrun, hs₁, hx₁⟩ := @forwardLayers_refines F D ops ctx h w past
    (List.range ctx.numLayers) (fun l hl => hw.layers l (List.mem_range.mp hl)) (by omega) hwrap
    { s with bufs := { s.bufs with
      scratchA := fill s.bufs.scratchA ctx.hiddenSize fun i =>
        w.embedTokens (call.tokenId * ctx.hiddenSize + i)
      scores := scores } } _ past hs hs hembed
  obtain ⟨s₂, hfinish, hs₂⟩ := @forwardFinish_refines F D ops ctx w hw (by omega) s₁ _ _ hs₁ hx₁
  refine ⟨s₂, ?_, hs₂⟩
  simp only [hbiAdapterGptOssForward, hgeom.initialized, Bool.true_eq_false, if_false,
    not_le.mpr htoken, hw.embedTokens, hpage, hscores, hlen, hrun, Option.bind_eq_bind,
    Option.bind_some]
  exact congrArg some hfinish

/-- Every call within the page returns the token of the decoder. -/
theorem forwardCalls_refines (h : ctx.Divides) (hgeom : ctx.Geometry maxSeq)
    {w : GptOssWeights F} (hw : ctx.BoundTo w) {calls : List (ForwardCall F)}
    (hcalls : ∀ call ∈ calls, call.tokenId < ctx.vocabSize ∧ call.scores.isSome)
    {past : List (KvRow F)} (hlen : past.length + calls.length ≤ maxSeq)
    (hwrap : (past.length + calls.length) * ctx.numKvHeads ≤ uint32Size) {s : ForwardState F}
    (hs : s.Holds ctx past) :
    ∃ s', forwardCalls ops ctx past.length calls s = some (s',
      (decode (embedded ctx w) (chosenToken ops ctx w) (modelBlocks ops ctx w) past
        (calls.map ForwardCall.tokenId)).map .ok) := by
  induction calls generalizing past s with
  | nil => exact ⟨s, rfl⟩
  | cons call calls ih =>
      rw [List.length_cons] at hlen hwrap
      obtain ⟨htoken, hscores⟩ := hcalls call List.mem_cons_self
      have hmax := hgeom.maxSeq_lt
      have hmul : (past.length + 1) * ctx.numKvHeads ≤
          (past.length + (calls.length + 1)) * ctx.numKvHeads :=
        Nat.mul_le_mul_right _ (by omega)
      obtain ⟨s₁, hrun, hs₁⟩ := @hbiAdapterGptOssForward_refines F D ops ctx maxSeq h hgeom w hw
        past (by omega) (hmul.trans hwrap) call htoken hscores s hs
      have hblocks : modelBlocks ops ctx w ≠ [] := by
        have := hgeom.numLayers_pos
        simp only [modelBlocks, ne_eq, List.map_eq_nil_iff, List.range_eq_nil]
        omega
      have hnext := @pass_length _ _ past past _ (embedded ctx w call.tokenId) hblocks
      obtain ⟨s₂, hrest⟩ := ih (fun c hc => hcalls c (List.mem_cons_of_mem call hc))
        (by rw [hnext]; omega)
        (by rwa [hnext, show past.length + 1 + calls.length = past.length + (calls.length + 1)
          by omega]) hs₁
      rw [hnext] at hrest
      refine ⟨s₂, ?_⟩
      simp only [forwardCalls, hrun, Option.bind_eq_bind, Option.bind_some, hrest]
      rfl

theorem holds_start (bufs : ScratchBuffers F) (k v : Nat → F) :
    (ForwardState.start bufs k v).Holds ctx [] :=
  ⟨fun t r ht => by simp at ht, fun t r ht => by simp at ht⟩

end Run

section Models

variable {F D : Type} {md : ModelMetadata} {desc : ModelDescriptor} {eps theta : F}
  {blocks : GptOssBlocks} {ctx : GptOssContext F}

theorem ModelDescriptor.Accepted.fits (h : desc.Accepted) : desc.Fits where
  hidden := h.hidden.2
  intermediate := h.intermediate.2
  attentionHeads := h.attentionHeads.2
  kvHeads := h.kvHeads.2
  layers := lt_of_le_of_lt h.layers.2 (by decide)
  vocab := h.vocab.2
  seqLength := h.seqLength.2

/-- What a run of calls needs of a context whose weights are bound. -/
structure GptOssContext.Ready (ctx : GptOssContext F) (desc : ModelDescriptor) : Prop where
  divides : ctx.Divides
  geometry : ctx.Geometry desc.maxSeqLength
  numLayers : ctx.numLayers = desc.numLayers
  numKvHeads : ctx.numKvHeads = desc.numKvHeads
  vocabSize : ctx.vocabSize = desc.vocabSize

theorem gptOssCreateContext_ready (hvalid : gptOssValidateMetadata md = .ok ())
    (hbuild : gptOssBuildDescriptor md = .ok desc)
    (hcreate : gptOssCreateContext desc eps theta blocks = some (.ok ctx))
    (hdvd : desc.numKvHeads ∣ desc.numAttentionHeads) (w : GptOssWeights F) :
    (ctx.bindAll w).Ready desc := by
  have hdesc := gptOssBuildDescriptor_accepted hvalid hbuild
  obtain ⟨hgeom, hlayers, -, hkv, hvocab⟩ := gptOssCreateContext_geometry hdesc hcreate w
  have hempty := gptOssCreateContext_divides hdesc.fits hdvd hcreate (WeightSlots.empty F 0)
  exact ⟨⟨hempty.kv_pos, hempty.q_pos, hempty.dvd, hempty.heads_le, hempty.hidden_lt⟩, hgeom,
    hlayers, hkv, hvocab⟩

/-- The calls of a context that is ready, from the first position on. -/
theorem GptOssContext.Ready.decodes (ops : FloatOps F D) {w : GptOssWeights F}
    (h : (ctx.bindAll w).Ready desc) {calls : List (ForwardCall F)}
    (hlen : calls.length ≤ desc.maxSeqLength)
    (hwrap : calls.length * desc.numKvHeads ≤ uint32Size)
    (hcalls : ∀ call ∈ calls, call.tokenId < desc.vocabSize ∧ call.scores.isSome)
    (bufs : ScratchBuffers F) (k v : Nat → F) :
    ∃ s, forwardCalls ops (ctx.bindAll w) 0 calls (ForwardState.start bufs k v) =
      some (s, (decode (embedded ctx w) (chosenToken ops ctx w) (modelBlocks ops ctx w) []
        (calls.map ForwardCall.tokenId)).map .ok) := by
  have hkv := h.numKvHeads
  exact @forwardCalls_refines F D ops _ _ h.divides h.geometry w (ctx.bindAll_boundTo w) calls
    (by rwa [h.vocabSize]) [] (by simpa using hlen) (by simpa [hkv] using hwrap) _
    (holds_start bufs k v)

/-- For every accepted model whose key heads divide its query heads, all weights, all contents of
the buffers and of the page, and every sequence of tokens that fits the page and whose row
numbers do not wrap: the calls return the tokens of the decoder that has no buffers, bit for bit.
Its one page of rows is what the context's page comes down to: what attention reads of earlier
positions are the rows of the last layer. -/
theorem gpt_oss_forward_decodes (ops : FloatOps F D) (hvalid : gptOssValidateMetadata md = .ok ())
    (hbuild : gptOssBuildDescriptor md = .ok desc)
    (hcreate : gptOssCreateContext desc eps theta blocks = some (.ok ctx))
    (hdvd : desc.numKvHeads ∣ desc.numAttentionHeads) (w : GptOssWeights F)
    {calls : List (ForwardCall F)} (hlen : calls.length ≤ desc.maxSeqLength)
    (hwrap : calls.length * desc.numKvHeads ≤ uint32Size)
    (hcalls : ∀ call ∈ calls, call.tokenId < desc.vocabSize ∧ call.scores.isSome)
    (bufs : ScratchBuffers F) (k v : Nat → F) :
    ∃ s, forwardCalls ops (ctx.bindAll w) 0 calls (ForwardState.start bufs k v) =
      some (s, (decodedTokens ops ctx w (calls.map ForwardCall.tokenId)).map .ok) :=
  (gptOssCreateContext_ready hvalid hbuild hcreate hdvd w).decodes ops hlen hwrap hcalls bufs k v

/-- With a single layer nothing shows that the rows were kept: for every accepted model whose key
heads divide its query heads, the calls, one token at a time over the page, return what one pass
over the whole sequence gives at every position, where position `t` attends to the rows of the
positions up to `t`. -/
theorem gpt_oss_single_layer_is_full_pass (ops : FloatOps F D)
    (hvalid : gptOssValidateMetadata md = .ok ())
    (hbuild : gptOssBuildDescriptor md = .ok desc)
    (hcreate : gptOssCreateContext desc eps theta blocks = some (.ok ctx))
    (hdvd : desc.numKvHeads ∣ desc.numAttentionHeads) (hlayer : desc.numLayers = 1)
    (w : GptOssWeights F) {calls : List (ForwardCall F)} (hlen : calls.length ≤ desc.maxSeqLength)
    (hwrap : calls.length * desc.numKvHeads ≤ uint32Size)
    (hcalls : ∀ call ∈ calls, call.tokenId < desc.vocabSize ∧ call.scores.isSome)
    (bufs : ScratchBuffers F) (k v : Nat → F) :
    ∃ s, forwardCalls ops (ctx.bindAll w) 0 calls (ForwardState.start bufs k v) =
      some (s, ((layerBlock ops ctx (w.layer 0)).sequence
        (calls.map fun call => embedded ctx w call.tokenId)).map
          fun x => .ok (chosenToken ops ctx w x)) := by
  have hready := gptOssCreateContext_ready hvalid hbuild hcreate hdvd w
  obtain ⟨s, hrun⟩ := hready.decodes ops hlen hwrap hcalls bufs k v
  have hblocks : modelBlocks ops ctx w = [layerBlock ops ctx (w.layer 0)] := by
    rw [modelBlocks, show ctx.numLayers = 1 from hready.numLayers.trans hlayer]
    rfl
  refine ⟨s, ?_⟩
  rw [hrun, hblocks, decode_single, List.map_map, List.map_map]
  rfl

end Models

section Instances

/-- Two tokens on a model of two layers. -/
theorem gpt_oss_forward_decodes_two_layers :
    ∃ ctx, gptOssCreateContext ⟨1, 1, 1, 1, 2, 1, 2⟩ (0 : Int) 1 freeBlocks = some (.ok ctx) ∧
      ∃ s, forwardCalls intOps (ctx.bindAll countingWeights) 0 twoCalls zeroState =
        some (s, (decodedTokens intOps ctx countingWeights [0, 0]).map .ok) := by
  have hvalid : gptOssValidateMetadata (smallMetadata "1" "1" "2") = .ok () := rfl
  have hbuild : gptOssBuildDescriptor (smallMetadata "1" "1" "2") =
      .ok ⟨1, 1, 1, 1, 2, 1, 2⟩ := rfl
  obtain ⟨ctx, hcreate⟩ : ∃ ctx,
      gptOssCreateContext ⟨1, 1, 1, 1, 2, 1, 2⟩ (0 : Int) 1 freeBlocks = some (.ok ctx) := ⟨_, rfl⟩
  have hlen : twoCalls.length ≤ 2 := by decide
  exact ⟨ctx, hcreate, gpt_oss_forward_decodes intOps hvalid hbuild hcreate (by decide)
    countingWeights hlen (by decide) (by simp [twoCalls]) zeroBuffers _ _⟩

/-- Two tokens on a model of one layer. -/
theorem gpt_oss_single_layer_is_full_pass_small :
    ∃ ctx, gptOssCreateContext ⟨2, 1, 2, 1, 1, 1, 2⟩ (0 : Int) 1 freeBlocks = some (.ok ctx) ∧
      ∃ s, forwardCalls intOps (ctx.bindAll countingWeights) 0 twoCalls zeroState =
        some (s, ((layerBlock intOps ctx (countingWeights.layer 0)).sequence
          [embedded ctx countingWeights 0, embedded ctx countingWeights 0]).map
            fun x => .ok (chosenToken intOps ctx countingWeights x)) := by
  have hvalid : gptOssValidateMetadata (smallMetadata "2" "2" "1") = .ok () := rfl
  have hbuild : gptOssBuildDescriptor (smallMetadata "2" "2" "1") =
      .ok ⟨2, 1, 2, 1, 1, 1, 2⟩ := rfl
  obtain ⟨ctx, hcreate⟩ : ∃ ctx,
      gptOssCreateContext ⟨2, 1, 2, 1, 1, 1, 2⟩ (0 : Int) 1 freeBlocks = some (.ok ctx) := ⟨_, rfl⟩
  have hlen : twoCalls.length ≤ 2 := by decide
  exact ⟨ctx, hcreate, gpt_oss_single_layer_is_full_pass intOps hvalid hbuild hcreate (by decide)
    rfl countingWeights hlen (by decide) (by simp [twoCalls]) zeroBuffers _ _⟩

end Instances

end Hummingbird

import Hummingbird.Adapter.Compute
import Hummingbird.Adapter.Context

/-!
The forward pass of the GPT-OSS adapter for one token, and the calls that decode a
sequence. The state holds the scratch buffers of the context, with the scores that a call
allocates for itself, and the two float arrays of the KV page. Beside the state runs a
log of the attention calls: the rows each of them put into the cache just before and the
rows it read. There is no result where the source divides by zero.
-/

namespace Hummingbird

def sizeofFloat : Nat := 4

/-- An attention call of a layer at a position. -/
structure Attention (F : Type) where
  layer : Nat
  pos : Nat
  k : Nat → F
  v : Nat → F
  reads : List (KvRead F)

structure ScratchBuffers (F : Type) where
  scratchA : Nat → F
  scratchB : Nat → F
  scratchC : Nat → F
  scratchD : Nat → F
  attnQ : Nat → F
  attnK : Nat → F
  attnV : Nat → F
  attnOut : Nat → F
  logits : Nat → F
  scores : Nat → F

structure ForwardState (F : Type) where
  bufs : ScratchBuffers F
  kCache : Nat → KvCell F
  vCache : Nat → KvCell F
  attended : List (Attention F)

/-- The state of a new context: the buffers and the page hold anything, and nobody has written
to the page. -/
def ForwardState.start {F : Type} (bufs : ScratchBuffers F) (k v : Nat → F) : ForwardState F :=
  { bufs := bufs, kCache := fun a => ⟨k a, none⟩, vCache := fun a => ⟨v a, none⟩, attended := [] }

/-- `memcpy` of a row into the cache. -/
def storeRow {F : Type} (cache : Nat → KvCell F) (offset count layer pos : Nat) (row : Nat → F) :
    Nat → KvCell F := fun a =>
  if offset ≤ a ∧ a < offset + count then ⟨row (a - offset), some ⟨layer, pos, a - offset⟩⟩
  else cache a

section Forward

variable {F D : Type} (ops : FloatOps F D) (ctx : GptOssContext F)

/-- Norm, projections and rotation: what a layer does before it touches the cache. -/
def layerProject (lw : LayerWeights (Nat → F)) (pos : Nat) (b : ScratchBuffers F) :
    ScratchBuffers F :=
  let H := ctx.hiddenSize
  let QH := ctx.numQHeads
  let KH := ctx.numKvHeads
  let HD := ctx.headDim
  let scratchB := refRmsnorm ops b.scratchA lw.inputNorm b.scratchB H ctx.rmsNormEps
  let attnQ := refLinear ops scratchB lw.qProj b.attnQ (QH * HD % uint32Size) H
  let attnK := refLinear ops scratchB lw.kProj b.attnK (KH * HD % uint32Size) H
  let attnV := refLinear ops scratchB lw.vProj b.attnV (KH * HD % uint32Size) H
  let attnQ := (List.range QH).foldl
    (fun x h => refRopeHead ops x (h * HD) HD pos ctx.ropeTheta) attnQ
  let attnK := (List.range KH).foldl
    (fun x h => refRopeHead ops x (h * HD) HD pos ctx.ropeTheta) attnK
  { b with scratchB := scratchB, attnQ := attnQ, attnK := attnK, attnV := attnV }

/-- Output projection, residuals and the feed-forward block. -/
def layerFinish (lw : LayerWeights (Nat → F)) (b : ScratchBuffers F) : ScratchBuffers F :=
  let H := ctx.hiddenSize
  let QH := ctx.numQHeads
  let HD := ctx.headDim
  let IS := ctx.intermediateSize
  let scratchB := refLinear ops b.attnOut lw.oProj b.scratchB H (QH * HD % uint32Size)
  let scratchA := fill b.scratchA H fun i => ops.add (b.scratchA i) (scratchB i)
  let scratchB := refRmsnorm ops scratchA lw.postNorm scratchB H ctx.rmsNormEps
  let scratchC := refLinear ops scratchB lw.gateProj b.scratchC IS H
  let scratchD := refLinear ops scratchB lw.upProj b.scratchD IS H
  let scratchC := fill scratchC IS fun i => ops.mul (refSilu ops (scratchC i)) (scratchD i)
  let scratchB := refLinear ops scratchC lw.downProj scratchB H IS
  let scratchA := fill scratchA H fun i => ops.add (scratchA i) (scratchB i)
  { b with scratchA := scratchA, scratchB := scratchB, scratchC := scratchC, scratchD := scratchD }

/-- `kv_pos_offset`. -/
def kvPosOffset (pos : Nat) : Nat := pos * ctx.numKvHeads * ctx.headDim % sizeTSize

/-- The number of floats in one `memcpy` to the cache. -/
def kvRowCount : Nat := ctx.numKvHeads * ctx.headDim * sizeofFloat % sizeTSize / sizeofFloat

/-- One round of the loop over the transformer blocks. -/
def forwardLayer (pos kvLen : Nat) (s : ForwardState F) (layer : Nat) :
    Option (ForwardState F × Result Unit) :=
  match (ctx.layers.getD layer (LayerWeights.zero (Nat → F))).cdata with
  | none => some (s, errSet .state s!"gpt_oss forward: layer {layer} has unbound weights")
  | some lw => do
      let b := layerProject ops ctx lw pos s.bufs
      let offset := kvPosOffset ctx pos
      let count := kvRowCount ctx
      let kCache := storeRow s.kCache offset count layer pos b.attnK
      let vCache := storeRow s.vCache offset count layer pos b.attnV
      let (attnOut, scores, reads) ← refAttention ops b.attnQ kCache vCache b.attnOut
        ctx.numQHeads ctx.numKvHeads ctx.headDim kvLen b.scores
      return (
        { bufs := layerFinish ops ctx lw { b with attnOut := attnOut, scores := scores }
          kCache := kCache
          vCache := vCache
          attended := s.attended ++ [⟨layer, pos, b.attnK, b.attnV, reads⟩] }, .ok ())

/-- The loop itself; a layer with unbound weights ends it. -/
def forwardLayers (pos kvLen : Nat) : List Nat → ForwardState F →
    Option (ForwardState F × Result Unit)
  | [], s => some (s, .ok ())
  | layer :: rest, s => do
      let (s, status) ← forwardLayer ops ctx pos kvLen s layer
      match status with
      | .error e => return (s, .error e)
      | .ok () => forwardLayers pos kvLen rest s

/-- Final norm, language head and the choice of the token. -/
def forwardFinish (s : ForwardState F) : ForwardState F × Result Nat :=
  match ctx.finalNorm with
  | none => (s, errSet .state "gpt_oss forward: final_norm not bound")
  | some finalNorm =>
      let scratchB := refRmsnorm ops s.bufs.scratchA finalNorm s.bufs.scratchB ctx.hiddenSize
        ctx.rmsNormEps
      let s := { s with bufs := { s.bufs with scratchB := scratchB } }
      match ctx.lmHead with
      | none => (s, errSet .state "gpt_oss forward: lm_head not bound")
      | some lmHead =>
          let logits := refLinear ops scratchB lmHead s.bufs.logits ctx.vocabSize ctx.hiddenSize
          ({ s with bufs := { s.bufs with logits := logits } },
            .ok (refArgmax ops logits ctx.vocabSize))

/-- A call: the token, and the block for the scores if the allocator has one. -/
structure ForwardCall (F : Type) where
  tokenId : Nat
  scores : Option (Nat → F)

def hbiAdapterGptOssForward (call : ForwardCall F) (pos : Nat) (s : ForwardState F) :
    Option (ForwardState F × Result Nat) :=
  if ctx.initialized = false then
    some (s, errSet .invalidArg "gpt_oss forward: NULL/uninit args")
  else if call.tokenId ≥ ctx.vocabSize then
    some (s, errSet .invalidArg
      s!"gpt_oss forward: token_id {call.tokenId} >= vocab_size {ctx.vocabSize}")
  else
    match ctx.embedTokens with
    | none => some (s, errSet .state "gpt_oss forward: embed_tokens not bound")
    | some emb =>
        let H := ctx.hiddenSize
        let scratchA := fill s.bufs.scratchA H fun i => emb (call.tokenId * H + i)
        let s := { s with bufs := { s.bufs with scratchA := scratchA } }
        match hbiKvContextGetPage ctx.kvManager ctx.kvHandle 0 with
        | .error e => some (s, .error e)
        | .ok _ =>
            let kvLen := (pos + 1) % uint32Size
            match call.scores with
            | none => some (s, errSet .oom "gpt_oss forward: scores alloc")
            | some scores => do
                let s := { s with bufs := { s.bufs with scores := scores } }
                let (s, status) ← forwardLayers ops ctx pos kvLen (List.range ctx.numLayers) s
                match status with
                | .error e => return (s, .error e)
                | .ok () => return forwardFinish ops ctx s

/-- Calls at consecutive positions, with their statuses. -/
def forwardCalls : Nat → List (ForwardCall F) → ForwardState F →
    Option (ForwardState F × List (Result Nat))
  | _, [], s => some (s, [])
  | pos, call :: calls, s => do
      let (s, status) ← hbiAdapterGptOssForward ops ctx call pos s
      let (s, statuses) ← forwardCalls (pos + 1) calls s
      return (s, status :: statuses)

end Forward

end Hummingbird

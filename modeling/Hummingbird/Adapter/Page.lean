import Hummingbird.Adapter.Attended

/-!
Where the attention calls of a forward pass touch memory: the row they store and the rows
they read in the two tensors of the KV page, and the entries of the buffer for the scores.
The position is a `uint32_t` that no caller has to keep below the length of the page.
-/

namespace Hummingbird

/-- The fields of a descriptor are `uint32_t`. -/
structure ModelDescriptor.Fits (desc : ModelDescriptor) : Prop where
  hidden : desc.hiddenSize < uint32Size
  intermediate : desc.intermediateSize < uint32Size
  attentionHeads : desc.numAttentionHeads < uint32Size
  kvHeads : desc.numKvHeads < uint32Size
  layers : desc.numLayers < uint32Size
  vocab : desc.vocabSize < uint32Size
  seqLength : desc.maxSeqLength < uint32Size

/-- The size of the block for the scores, in bytes. -/
def scoresBytes (pos : Nat) : Nat := (pos + 1) % uint32Size * sizeofFloat % sizeTSize

/-- A stretch of floats lies inside the K and the V tensor of a page. -/
def KvPage.Covers (page : KvPage) (offset count : Nat) : Prop :=
  (offset + count) * sizeofFloat ≤ page.kTensor.nbytes ∧
    (offset + count) * sizeofFloat ≤ page.vTensor.nbytes

/-- The row that an attention call stores, every row that it reads and every score that it
writes lie inside their blocks. -/
structure Attention.Inside {F : Type} (ctx : GptOssContext F) (page : KvPage) (e : Attention F) :
    Prop where
  stores : page.Covers (kvPosOffset ctx e.pos) (kvRowCount ctx)
  reads : ∀ r ∈ e.reads, page.Covers (cacheRowOffset ctx.numKvHeads ctx.headDim r.t
    (r.queryHead / (ctx.numQHeads / ctx.numKvHeads))) ctx.headDim
  scores : ∀ r ∈ e.reads, (r.t + 1) * sizeofFloat ≤ scoresBytes e.pos

section Heads

variable {numQ numKv pos maxSeq : Nat}

/-- A query head selects less than twice as many key heads as there are. -/
theorem selected_head_lt_twice (hkv : 0 < numKv) (hle : numKv ≤ numQ) {qh : Nat}
    (hqh : qh < numQ) : qh / (numQ / numKv) < 2 * numKv := by
  have hgroup : 0 < numQ / numKv := Nat.div_pos hle hkv
  rw [Nat.div_lt_iff_lt_mul hgroup]
  have hmod := Nat.div_add_mod numQ numKv
  have hrest := Nat.mod_lt numQ hkv
  have hone : numKv * 1 ≤ numKv * (numQ / numKv) := Nat.mul_le_mul_left _ hgroup
  calc
    qh < numQ := hqh
    _ ≤ numKv * (numQ / numKv) + numKv * (numQ / numKv) := by omega
    _ = 2 * numKv * (numQ / numKv) := by ring

/-- When the numbers do not divide, some query head selects the first head beyond the last. -/
theorem exists_selected_head_eq (hkv : 0 < numKv) (hle : numKv ≤ numQ) (hdvd : ¬ numKv ∣ numQ) :
    ∃ qh < numQ, qh / (numQ / numKv) = numKv := by
  have hgroup : 0 < numQ / numKv := Nat.div_pos hle hkv
  rw [← selected_head_lt_iff hkv hle] at hdvd
  push Not at hdvd
  obtain ⟨qh, hqh, hbeyond⟩ := hdvd
  rw [Nat.le_div_iff_mul_le hgroup] at hbeyond
  exact ⟨numKv * (numQ / numKv), by omega, Nat.mul_div_cancel _ hgroup⟩

/-- Below the length of the page the row numbers stay inside it, unless the heads do not
divide, the position is the last one and no row number wraps. -/
theorem cache_rows_inside_iff (hkv : 0 < numKv) (hle : numKv ≤ numQ) (hpos : pos < maxSeq) :
    (∀ qh < numQ, ∀ t ≤ pos,
      (t * numKv + qh / (numQ / numKv)) % uint32Size < maxSeq * numKv) ↔
    numKv ∣ numQ ∨ pos + 1 < maxSeq ∨ uint32Size ≤ maxSeq * numKv := by
  constructor
  · intro hall
    by_contra hnone
    push Not at hnone
    obtain ⟨hdvd, hlast, hwrap⟩ := hnone
    obtain ⟨qh, hqh, hselect⟩ := exists_selected_head_eq hkv hle hdvd
    have hrow := hall qh hqh pos (le_refl pos)
    have hend : pos * numKv + numKv = maxSeq * numKv := by
      rw [← Nat.succ_mul]
      congr 1
      omega
    rw [hselect, hend, Nat.mod_eq_of_lt hwrap] at hrow
    exact lt_irrefl _ hrow
  · rintro (hdvd | hbefore | hwrap) qh hqh t ht
    · have hkvh := (selected_head_lt_iff hkv hle).mpr hdvd qh hqh
      have hmod := Nat.mod_le (t * numKv + qh / (numQ / numKv)) uint32Size
      have hrow := @row_end_le numKv t maxSeq (by omega)
      omega
    · have hkvh := selected_head_lt_twice hkv hle hqh
      have hmod := Nat.mod_le (t * numKv + qh / (numQ / numKv)) uint32Size
      have hrow := @row_end_le numKv t (t + 1) (Nat.lt_succ_self t)
      have hnext := @row_end_le numKv (t + 1) maxSeq (by omega)
      omega
    · exact lt_of_lt_of_le (Nat.mod_lt _ (by decide)) hwrap

end Heads

section Page

variable {F D : Type} {ops : FloatOps F D} {desc : ModelDescriptor} {eps theta : F}
  {blocks : GptOssBlocks} {ctx : GptOssContext F}

/-- The sizes of a context, which are those of its descriptor, and of its page. -/
structure GptOssContext.Sized (ctx : GptOssContext F) (desc : ModelDescriptor) (page : KvPage) :
    Prop where
  numLayers : ctx.numLayers = desc.numLayers
  numQHeads : ctx.numQHeads = desc.numAttentionHeads
  numKvHeads : ctx.numKvHeads = desc.numKvHeads
  headDim : ctx.headDim = desc.hiddenSize / desc.numAttentionHeads
  hiddenSize : ctx.hiddenSize = desc.hiddenSize
  intermediateSize : ctx.intermediateSize = desc.intermediateSize
  vocabSize : ctx.vocabSize = desc.vocabSize
  initialized : ctx.initialized = true
  headDim_pos : 0 < ctx.headDim
  kBytes : page.kTensor.nbytes = desc.maxSeqLength * ctx.rowLen * sizeofFloat
  vBytes : page.vTensor.nbytes = desc.maxSeqLength * ctx.rowLen * sizeofFloat

/-- A tensor of the page has four bytes for each of its floats. -/
theorem kvShape_nbytes {headDim : Nat} {block : Option (AlignedBlock hbiTensorDefaultAlign)}
    {t : Tensor}
    (h : hbiTensorAllocAligned .fp32 (kvShape desc headDim) hbiTensorDefaultAlign block = .ok t) :
    t.nbytes = desc.maxSeqLength * (desc.numKvHeads * headDim) * sizeofFloat := by
  obtain ⟨hdtype, hshape, -, -, hbytes⟩ := tensorAllocImpl_fields h
  simp only [Tensor.packedBytes, hshape, hdtype, kvShape, List.prod_cons, List.prod_nil, mul_one,
    hbiDtypeBits] at hbytes
  unfold sizeofFloat
  zify
  omega

theorem gptOssCreateContext_sized (h : gptOssCreateContext desc eps theta blocks = some (.ok ctx)) :
    ∃ page, hbiKvContextGetPage ctx.kvManager ctx.kvHandle 0 = .ok page ∧
      ctx.Sized desc page := by
  have hfill := (gptOssCreateContext_eq_ok h).2
  simp only [fillGptOssContext, Result.ite_errSet_eq_ok, Result.bind_eq_ok] at hfill
  obtain ⟨-, mgr, -, ⟨mgr', handle⟩, hcreate, hctx⟩ := hfill
  simp only [pure, Except.pure, Except.ok.injEq] at hctx
  obtain ⟨pages, halloc, rfl, rfl⟩ := hbiKvContextCreate_eq_ok hcreate
  obtain ⟨k, v, rfl, hk, hv⟩ := allocate_eq_ok halloc
  subst hctx
  refine ⟨⟨k, v, desc.maxSeqLength, 0⟩, ?_, rfl, rfl, rfl, rfl, rfl, rfl, rfl, rfl,
    (kvShape_valid_of_alloc hk).1, kvShape_nbytes hk, kvShape_nbytes hv⟩
  simp [hbiKvContextGetPage, KvManager.live, KvManager.register, freshContext]

/-- With rows of fewer than 2^32 floats neither the offset nor the length of a row wraps. -/
theorem kvOffsets_eq (hrow : ctx.rowLen < uint32Size) {pos : Nat} (hpos : pos < uint32Size) :
    kvPosOffset ctx pos = pos * ctx.rowLen ∧ kvRowCount ctx = ctx.rowLen := by
  have hmul : pos * ctx.rowLen ≤ (uint32Size - 1) * (uint32Size - 1) :=
    Nat.mul_le_mul (by omega) (by omega)
  constructor
  · rw [kvPosOffset, Nat.mul_assoc]
    apply Nat.mod_eq_of_lt
    change pos * ctx.rowLen < sizeTSize
    exact lt_of_le_of_lt hmul (by decide)
  · have hbytes : ctx.rowLen * sizeofFloat < sizeTSize := by
      unfold sizeofFloat sizeTSize
      unfold uint32Size at hrow
      omega
    change ctx.rowLen * sizeofFloat % sizeTSize / sizeofFloat = ctx.rowLen
    rw [Nat.mod_eq_of_lt hbytes]
    exact Nat.mul_div_cancel _ (by decide)

/-- A row of a context that fits: neither its offset nor its length wraps. -/
theorem GptOssContext.Sized.offsets {page : KvPage} (hsized : ctx.Sized desc page)
    (hfits : desc.Fits) (hle : ctx.numKvHeads ≤ ctx.numQHeads) {pos : Nat}
    (hpos : pos < uint32Size) :
    kvPosOffset ctx pos = pos * ctx.rowLen ∧ kvRowCount ctx = ctx.rowLen := by
  have hrow : ctx.rowLen < uint32Size := by
    calc
      ctx.rowLen ≤ ctx.numQHeads * ctx.headDim := Nat.mul_le_mul_right _ hle
      _ = desc.numAttentionHeads * (desc.hiddenSize / desc.numAttentionHeads) := by
        rw [hsized.numQHeads, hsized.headDim]
      _ ≤ desc.hiddenSize := Nat.mul_div_le _ _
      _ < uint32Size := hfits.hidden
  exact kvOffsets_eq hrow hpos

/-- A stretch at a multiple of some length lies inside the page when its number is below
that of the stretches of the page. -/
theorem GptOssContext.Sized.covers_iff {page : KvPage} (hsized : ctx.Sized desc page)
    {n len rows : Nat} (hlen : 0 < len) (hpage : desc.maxSeqLength * ctx.rowLen = rows * len) :
    page.Covers (n * len) len ↔ n < rows := by
  have hfloat : 0 < sizeofFloat := by decide
  unfold KvPage.Covers
  rw [hsized.kBytes, hsized.vBytes, hpage, and_self, Nat.mul_le_mul_right_iff hfloat,
    ← Nat.succ_mul, Nat.mul_le_mul_right_iff hlen]
  exact Nat.succ_le_iff

/-- The scores of a call are written inside their buffer. -/
theorem score_inside {pos t : Nat} (ht : t < (pos + 1) % uint32Size) :
    (t + 1) * sizeofFloat ≤ scoresBytes pos := by
  have hmod := Nat.mod_lt (pos + 1) (show 0 < uint32Size by decide)
  unfold scoresBytes
  rw [Nat.mod_eq_of_lt]
  · exact Nat.mul_le_mul_right _ ht
  · unfold sizeofFloat sizeTSize
    unfold uint32Size at *
    omega

/-- Every row of a page is a multiple of the length of a head, and so is the page. -/
theorem GptOssContext.rowLen_mul (ctx : GptOssContext F) (n : Nat) :
    n * ctx.rowLen = n * ctx.numKvHeads * ctx.headDim := by
  rw [GptOssContext.rowLen, Nat.mul_assoc]

/-- When one attention call stays inside the page. -/
theorem Attention.inside_iff {page : KvPage} (hsized : ctx.Sized desc page) (hfits : desc.Fits)
    (hgroup : ctx.Grouped) {e : Attention F} {k v : Nat → KvCell F} (hpos : e.pos < uint32Size)
    (hreads : e.reads = attentionReads k v ctx.numQHeads ctx.numKvHeads ctx.headDim
      ((e.pos + 1) % uint32Size)) :
    e.Inside ctx page ↔ e.pos < desc.maxSeqLength ∧
      (desc.numKvHeads ∣ desc.numAttentionHeads ∨ e.pos + 1 < desc.maxSeqLength ∨
        uint32Size ≤ desc.maxSeqLength * desc.numKvHeads) := by
  obtain ⟨hkv, hle⟩ := hgroup
  obtain ⟨hoffset, hcount⟩ := hsized.offsets hfits hle hpos
  have hrow : 0 < ctx.rowLen := Nat.mul_pos hkv hsized.headDim_pos
  have hstores : page.Covers (kvPosOffset ctx e.pos) (kvRowCount ctx) ↔
      e.pos < desc.maxSeqLength := by
    rw [hoffset, hcount]
    exact hsized.covers_iff hrow rfl
  have hread : ∀ t kvh, page.Covers (cacheRowOffset ctx.numKvHeads ctx.headDim t kvh)
      ctx.headDim ↔ (t * ctx.numKvHeads + kvh) % uint32Size < desc.maxSeqLength * ctx.numKvHeads :=
    fun t kvh => hsized.covers_iff hsized.headDim_pos (ctx.rowLen_mul desc.maxSeqLength)
  rw [← hsized.numKvHeads, ← hsized.numQHeads]
  constructor
  · intro hinside
    have hlt := hstores.mp hinside.stores
    have hseq := hfits.seqLength
    refine ⟨hlt, (cache_rows_inside_iff hkv hle hlt).mp ?_⟩
    intro qh hqh t ht
    have hmem : t < (e.pos + 1) % uint32Size := by
      rw [Nat.mod_eq_of_lt (by omega)]
      omega
    have hread' : (⟨qh, t,
        readCacheRow k ctx.numKvHeads ctx.headDim t (qh / (ctx.numQHeads / ctx.numKvHeads)),
        readCacheRow v ctx.numKvHeads ctx.headDim t (qh / (ctx.numQHeads / ctx.numKvHeads))⟩ :
        KvRead F) ∈ e.reads := by
      rw [hreads]
      exact mem_attentionReads.mpr ⟨hqh, hmem, rfl, rfl⟩
    have hcovers := hinside.reads _ hread'
    rw [← hread]
    exact hcovers
  · rintro ⟨hlt, hrows⟩
    refine ⟨hstores.mpr hlt, ?_, ?_⟩
    · intro r hr
      rw [hreads] at hr
      obtain ⟨hqh, ht, -⟩ := mem_attentionReads.mp hr
      have hmod := Nat.mod_le (e.pos + 1) uint32Size
      rw [hread]
      exact (cache_rows_inside_iff hkv hle hlt).mpr hrows _ hqh r.t (by omega)
    · intro r hr
      rw [hreads] at hr
      exact score_inside (mem_attentionReads.mp hr).2.1

/-- For every context that was created, whatever is bound to its slots, and every call that
returns a token: all its stores, reads and scores lie inside the page and the buffer for the
scores exactly when the model has no layer, or the position is one of the page and the heads
divide, or another position follows, or the numbers of the rows cover 32 bits. -/
theorem gpt_oss_forward_inside_iff (ops : FloatOps F D) (hfits : desc.Fits)
    (hcreate : gptOssCreateContext desc eps theta blocks = some (.ok ctx)) (slots : WeightSlots F)
    {page : KvPage} (hpage : hbiKvContextGetPage ctx.kvManager ctx.kvHandle 0 = .ok page)
    {call : ForwardCall F} {pos token : Nat} {s s' : ForwardState F} (hpos : pos < uint32Size)
    (hok : hbiAdapterGptOssForward ops (ctx.withSlots slots) call pos s =
      some (s', .ok token)) :
    (∀ e ∈ attendedBy s s', e.Inside ctx page) ↔
      desc.numLayers = 0 ∨ pos < desc.maxSeqLength ∧
        (desc.numKvHeads ∣ desc.numAttentionHeads ∨ pos + 1 < desc.maxSeqLength ∨
          uint32Size ≤ desc.maxSeqLength * desc.numKvHeads) := by
  obtain ⟨page', hpage', hsized⟩ := gptOssCreateContext_sized hcreate
  obtain rfl : page' = page := by
    rw [hpage] at hpage'
    exact (Except.ok.inj hpage').symm
  obtain ⟨log, hlog, hlayers⟩ := hbiAdapterGptOssForward_attends hok
  have hmap : log.map Attention.layer = List.range desc.numLayers := by
    rw [← hsized.numLayers]
    exact hlayers token rfl
  rw [hlog.attendedBy_eq]
  cases log with
  | nil =>
      have hzero := congrArg List.length hmap
      rw [List.length_map, List.length_nil, List.length_range] at hzero
      simp [← hzero]
  | cons e rest =>
      have hne : desc.numLayers ≠ 0 := by
        intro hzero
        simp [hzero] at hmap
      have hq : 0 < ctx.numQHeads := by
        apply Nat.pos_of_ne_zero
        intro hzero
        have hdim := hsized.headDim_pos
        rw [hsized.headDim, ← hsized.numQHeads, hzero, Nat.div_zero] at hdim
        exact lt_irrefl _ hdim
      obtain ⟨hkv, hle⟩ := hlog.heads (List.cons_ne_nil e rest)
      have hentry : ∀ a ∈ e :: rest, a.Inside ctx page' ↔ pos < desc.maxSeqLength ∧
          (desc.numKvHeads ∣ desc.numAttentionHeads ∨ pos + 1 < desc.maxSeqLength ∨
            uint32Size ≤ desc.maxSeqLength * desc.numKvHeads) := by
        intro a ha
        obtain ⟨k, v, hreads⟩ := hlog.reads a ha
        obtain rfl := hlog.pos_eq a ha
        exact Attention.inside_iff hsized hfits ⟨hkv, hle hq⟩ hpos hreads
      rw [or_iff_right hne]
      constructor
      · intro hall
        exact (hentry e List.mem_cons_self).mp (hall e List.mem_cons_self)
      · intro hcond a ha
        exact (hentry a ha).mpr hcond

end Page

section Instances

/-- A borrowed view of one float. -/
def unitView : Tensor where
  dtype := .fp32
  shape := ⟨[1]⟩
  strides := [1]
  data := 64
  nbytes := 4
  align := 4
  ownership := .borrowed
  device := .cpu
  readOnly := true
  contiguous := true
  quant := QuantMeta.zero

/-- One layer, two query heads that share a key head, and a page of two positions. -/
def sharedDescriptor : ModelDescriptor := ⟨2, 1, 2, 1, 1, 1, 2⟩

theorem sharedDescriptor_fits : sharedDescriptor.Fits := by
  constructor <;> decide

/-- Every weight is an array of numbers. -/
def countingSlots : WeightSlots Int := WeightSlots.ofWeights unitView countingWeights 1

def zeroCall : ForwardCall Int := ⟨0, some fun _ => 0⟩

/-- The small model returns a token at every position. -/
theorem sharedDescriptor_returns {ctx : GptOssContext Int}
    (hcreate : gptOssCreateContext sharedDescriptor 0 1 freeBlocks = some (.ok ctx)) (pos : Nat) :
    ∃ s' token, hbiAdapterGptOssForward intOps (ctx.withSlots countingSlots) zeroCall pos
      zeroState = some (s', .ok token) := by
  have haccepted : sharedDescriptor.Accepted := by constructor <;> decide
  obtain ⟨hgeom, hlayers, hq, hkv, hvocab⟩ := gptOssCreateContext_geometry haccepted hcreate
    countingWeights
  have hgroup : (ctx.bindAll countingWeights).Grouped := by
    refine ⟨?_, ?_⟩
    · change 0 < ctx.numKvHeads
      rw [hkv]
      decide
    · change ctx.numKvHeads ≤ ctx.numQHeads
      rw [hkv, hq]
      decide
  have htoken : zeroCall.tokenId < (ctx.bindAll countingWeights).vocabSize := by
    change 0 < ctx.vocabSize
    rw [hvocab]
    decide
  have hslots := ctx.withSlots_ofWeights unitView countingWeights
  rw [hlayers] at hslots
  change ctx.withSlots countingSlots = _ at hslots
  rw [hslots]
  exact hbiAdapterGptOssForward_returns hgeom hgroup (ctx.bindAll_bound countingWeights) htoken
    rfl pos zeroState

/-- The second and last position of the page. -/
theorem gpt_oss_forward_inside_last :
    ∃ ctx page s' token,
      gptOssCreateContext sharedDescriptor (0 : Int) 1 freeBlocks = some (.ok ctx) ∧
      hbiKvContextGetPage ctx.kvManager ctx.kvHandle 0 = .ok page ∧
      hbiAdapterGptOssForward intOps (ctx.withSlots countingSlots) zeroCall 1 zeroState =
        some (s', .ok token) ∧
      ∀ e ∈ attendedBy zeroState s', e.Inside ctx page := by
  obtain ⟨ctx, hcreate⟩ : ∃ ctx,
      gptOssCreateContext sharedDescriptor (0 : Int) 1 freeBlocks = some (.ok ctx) := ⟨_, rfl⟩
  obtain ⟨page, hpage, -⟩ := gptOssCreateContext_sized hcreate
  obtain ⟨s', token, hok⟩ := sharedDescriptor_returns hcreate 1
  refine ⟨ctx, page, s', token, hcreate, hpage, hok, ?_⟩
  exact (gpt_oss_forward_inside_iff intOps sharedDescriptor_fits hcreate countingSlots hpage
    (by decide) hok).mpr (Or.inr ⟨by decide, Or.inl (by decide)⟩)

/-- The position behind the page is served as well: its row is stored behind both tensors. -/
theorem gpt_oss_forward_past_page :
    ∃ ctx page s' token,
      gptOssCreateContext sharedDescriptor (0 : Int) 1 freeBlocks = some (.ok ctx) ∧
      hbiKvContextGetPage ctx.kvManager ctx.kvHandle 0 = .ok page ∧
      hbiAdapterGptOssForward intOps (ctx.withSlots countingSlots) zeroCall 2 zeroState =
        some (s', .ok token) ∧
      ¬ ∀ e ∈ attendedBy zeroState s', e.Inside ctx page := by
  obtain ⟨ctx, hcreate⟩ : ∃ ctx,
      gptOssCreateContext sharedDescriptor (0 : Int) 1 freeBlocks = some (.ok ctx) := ⟨_, rfl⟩
  obtain ⟨page, hpage, hsized⟩ := gptOssCreateContext_sized hcreate
  obtain ⟨s', token, hok⟩ := sharedDescriptor_returns hcreate 2
  refine ⟨ctx, page, s', token, hcreate, hpage, hok, ?_⟩
  obtain ⟨log, hlog, hlayers⟩ := hbiAdapterGptOssForward_attends hok
  have hmap : log.map Attention.layer = [0] := by
    rw [hlayers token rfl]
    change List.range ctx.numLayers = _
    rw [hsized.numLayers]
    rfl
  obtain ⟨e, rest, rfl, -, -⟩ := List.map_eq_cons_iff.mp hmap
  rw [hlog.attendedBy_eq]
  intro hall
  have hstores := (hall e List.mem_cons_self).stores
  have hle : ctx.numKvHeads ≤ ctx.numQHeads := by
    rw [hsized.numKvHeads, hsized.numQHeads]
    decide
  have hrow : 0 < ctx.rowLen := by
    rw [GptOssContext.rowLen, hsized.numKvHeads]
    exact Nat.mul_pos (by decide) hsized.headDim_pos
  obtain ⟨hoffset, hcount⟩ := @GptOssContext.Sized.offsets Int sharedDescriptor ctx page hsized
    sharedDescriptor_fits hle 2 (by decide)
  rw [hlog.pos_eq e List.mem_cons_self, hoffset, hcount, hsized.covers_iff hrow rfl] at hstores
  exact absurd hstores (by decide)

end Instances

end Hummingbird

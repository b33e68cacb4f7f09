import Hummingbird.Adapter.Forward

/-!
What the forward pass does to the cache. A layer stores its rows at the position of the
call and attention reads afterwards; the rows of earlier positions are what the last
layer of the earlier calls left there. The invariant is kept by a layer, and so by a call
and by a sequence of calls.
-/

namespace Hummingbird

section Rows

variable {F : Type}

/-- Every written cell lies where the row of its writer starts, plus its index. -/
def Tagged (rowLen : Nat) (cache : Nat → KvCell F) : Prop :=
  ∀ a w, (cache a).writer = some w → a = w.pos * rowLen + w.index ∧ w.index < rowLen

/-- The rows an attention call has put into the cache are still there. -/
def Attention.Stored (rowLen : Nat) (k v : Nat → KvCell F) (w : Attention F) : Prop :=
  ∀ i < rowLen, k (w.pos * rowLen + i) = ⟨w.k i, some ⟨w.layer, w.pos, i⟩⟩ ∧
    v (w.pos * rowLen + i) = ⟨w.v i, some ⟨w.layer, w.pos, i⟩⟩

variable {cache k v : Nat → KvCell F} {rowLen layer pos : Nat} {row : Nat → F}

/-- A row ends where a later one has not yet begun. -/
theorem row_end_le {n t u : Nat} (h : t < u) : t * n + n ≤ u * n := by
  rw [← Nat.succ_mul]
  exact Nat.mul_le_mul_right n h

theorem storeRow_own {i : Nat} (hi : i < rowLen) :
    storeRow cache (pos * rowLen) rowLen layer pos row (pos * rowLen + i) =
      ⟨row i, some ⟨layer, pos, i⟩⟩ := by
  have hmem : pos * rowLen ≤ pos * rowLen + i ∧ pos * rowLen + i < pos * rowLen + rowLen := by
    omega
  rw [storeRow, if_pos hmem, Nat.add_sub_cancel_left]

theorem storeRow_other {t i : Nat} (ht : t ≠ pos) (hi : i < rowLen) :
    storeRow cache (pos * rowLen) rowLen layer pos row (t * rowLen + i) =
      cache (t * rowLen + i) := by
  have hout : ¬ (pos * rowLen ≤ t * rowLen + i ∧ t * rowLen + i < pos * rowLen + rowLen) := by
    rintro ⟨hlo, hhi⟩
    rcases Nat.lt_or_gt_of_ne ht with hlt | hlt
    · have hrow := @row_end_le rowLen t pos hlt
      omega
    · have hrow := @row_end_le rowLen pos t hlt
      omega
  rw [storeRow, if_neg hout]

theorem storeRow_tagged (h : Tagged rowLen cache) :
    Tagged rowLen (storeRow cache (pos * rowLen) rowLen layer pos row) := by
  intro a w hw
  unfold storeRow at hw
  by_cases hin : pos * rowLen ≤ a ∧ a < pos * rowLen + rowLen
  · rw [if_pos hin] at hw
    cases hw
    refine ⟨?_, ?_⟩ <;> dsimp only <;> omega
  · rw [if_neg hin] at hw
    exact h a w hw

/-- A store at another position leaves a row in place. -/
theorem Attention.Stored.store {w : Attention F} {rowK rowV : Nat → F}
    (h : w.Stored rowLen k v) (hne : w.pos ≠ pos) :
    w.Stored rowLen (storeRow k (pos * rowLen) rowLen layer pos rowK)
      (storeRow v (pos * rowLen) rowLen layer pos rowV) := by
  intro i hi
  rw [storeRow_other hne hi, storeRow_other hne hi]
  exact h i hi

end Rows

section Layer

variable {F D : Type} {ops : FloatOps F D} {ctx : GptOssContext F} {maxSeq : Nat}

/-- The floats of one position. -/
def GptOssContext.rowLen (ctx : GptOssContext F) : Nat := ctx.numKvHeads * ctx.headDim

/-- Every weight slot has data. -/
structure GptOssContext.Bound (ctx : GptOssContext F) : Prop where
  embedTokens : ∃ x, ctx.embedTokens = some x
  finalNorm : ∃ x, ctx.finalNorm = some x
  lmHead : ∃ x, ctx.lmHead = some x
  layers : ∀ l < ctx.numLayers,
    ∃ lw, (ctx.layers.getD l (LayerWeights.zero (Nat → F))).cdata = some lw

theorem GptOssContext.bindAll_bound (ctx : GptOssContext F) (w : GptOssWeights F) :
    (ctx.bindAll w).Bound := by
  refine ⟨⟨_, rfl⟩, ⟨_, rfl⟩, ⟨_, rfl⟩, ?_⟩
  intro l hl
  change l < ctx.numLayers at hl
  exact ⟨w.layer l, by simp [GptOssContext.bindAll, List.getD_eq_getElem?_getD, hl]⟩

/-- Below the length of the page neither offset of a layer wraps. -/
theorem GptOssContext.Geometry.offsets (hgeom : ctx.Geometry maxSeq) {pos : Nat}
    (hpos : pos < maxSeq) :
    kvPosOffset ctx pos = pos * ctx.rowLen ∧ kvRowCount ctx = ctx.rowLen := by
  have hpage := hgeom.page_le
  have hrow := @row_end_le ctx.rowLen pos maxSeq hpos
  change maxSeq * ctx.rowLen * 4 < sizeTSize at hpage
  constructor
  · rw [kvPosOffset, Nat.mul_assoc]
    exact Nat.mod_eq_of_lt (by change pos * ctx.rowLen < sizeTSize; omega)
  · rw [kvRowCount, Nat.mod_eq_of_lt (by change ctx.rowLen * 4 < sizeTSize; omega)]
    exact Nat.mul_div_cancel _ (by decide)

/-- What a layer does: it stores its rows, and attention reads the cache after that. -/
structure LayerStep (ctx : GptOssContext F) (pos layer : Nat) (s s' : ForwardState F)
    (e : Attention F) : Prop where
  layer_eq : e.layer = layer
  pos_eq : e.pos = pos
  kCache : s'.kCache = storeRow s.kCache (pos * ctx.rowLen) ctx.rowLen layer pos e.k
  vCache : s'.vCache = storeRow s.vCache (pos * ctx.rowLen) ctx.rowLen layer pos e.v
  attended : s'.attended = s.attended ++ [e]
  reads : e.reads = attentionReads s'.kCache s'.vCache ctx.numQHeads ctx.numKvHeads ctx.headDim
    (pos + 1)

/-- A bound layer with a query head for every key head runs to its end. -/
theorem forwardLayer_step (hgeom : ctx.Geometry maxSeq) (hbound : ctx.Bound)
    (hheads : ctx.numKvHeads ≤ ctx.numQHeads) {pos layer : Nat} (hpos : pos < maxSeq)
    (hlayer : layer < ctx.numLayers) (s : ForwardState F) :
    ∃ s' e, forwardLayer ops ctx pos (pos + 1) s layer = some (s', .ok ()) ∧
      LayerStep ctx pos layer s s' e := by
  obtain ⟨lw, hlw⟩ := hbound.layers layer hlayer
  obtain ⟨hoffset, hcount⟩ := hgeom.offsets hpos
  simp only [forwardLayer, hlw, hoffset, hcount]
  generalize layerProject ops ctx lw pos s.bufs = b
  obtain ⟨out, scores, hres⟩ := @refAttention_defined F D ops b.attnQ
    (storeRow s.kCache (pos * ctx.rowLen) ctx.rowLen layer pos b.attnK)
    (storeRow s.vCache (pos * ctx.rowLen) ctx.rowLen layer pos b.attnV) b.attnOut b.scores
    ctx.numQHeads ctx.numKvHeads ctx.headDim (pos + 1) hgeom.numKvHeads_pos hheads
  rw [hres]
  exact ⟨_, _, rfl, rfl, rfl, rfl, rfl, rfl, rfl⟩

/-- With more key heads than query heads a bound layer divides by zero. -/
theorem forwardLayer_undefined (hgeom : ctx.Geometry maxSeq) (hbound : ctx.Bound)
    (hheads : ctx.numQHeads < ctx.numKvHeads) {pos layer kvLen : Nat}
    (hlayer : layer < ctx.numLayers) (s : ForwardState F) :
    forwardLayer ops ctx pos kvLen s layer = none := by
  obtain ⟨lw, hlw⟩ := hbound.layers layer hlayer
  simp only [forwardLayer, hlw]
  rw [refAttention_undefined hgeom.numQHeads_pos hheads]
  rfl

/-- What an attention call saw: its own rows, and at every earlier position the rows of
the last layer. -/
def Attention.Saw (ctx : GptOssContext F) (log : List (Attention F)) (e : Attention F) : Prop :=
  ∃ k v, e.reads = attentionReads k v ctx.numQHeads ctx.numKvHeads ctx.headDim (e.pos + 1) ∧
    Tagged ctx.rowLen k ∧ Tagged ctx.rowLen v ∧ e.Stored ctx.rowLen k v ∧
    ∀ t < e.pos, ∃ w ∈ log, w.pos = t ∧ w.layer = ctx.numLayers - 1 ∧ w.Stored ctx.rowLen k v

/-- The cache and the log after some layers of the call at a position: which attention
calls were made and what each saw, and whose rows the cache holds. -/
structure Progress (ctx : GptOssContext F) (pos layers : Nat) (s : ForwardState F) : Prop where
  made : ∀ e ∈ s.attended,
    e.layer < ctx.numLayers ∧ (e.pos < pos ∨ e.pos = pos ∧ e.layer < layers)
  covers : ∀ t l, (t < pos ∧ l < ctx.numLayers ∨ t = pos ∧ l < layers) →
    ∃ e ∈ s.attended, e.pos = t ∧ e.layer = l
  kTagged : Tagged ctx.rowLen s.kCache
  vTagged : Tagged ctx.rowLen s.vCache
  earlier : ∀ t < pos, ∃ w ∈ s.attended, w.pos = t ∧ w.layer = ctx.numLayers - 1 ∧
    w.Stored ctx.rowLen s.kCache s.vCache
  current : 0 < layers → ∃ w ∈ s.attended, w.pos = pos ∧ w.layer = layers - 1 ∧
    w.Stored ctx.rowLen s.kCache s.vCache
  saw : ∀ e ∈ s.attended, e.Saw ctx s.attended

theorem progress_start (bufs : ScratchBuffers F) (k v : Nat → F) :
    Progress ctx 0 0 (ForwardState.start bufs k v) where
  made := by simp [ForwardState.start]
  covers := by omega
  kTagged := fun a w hw => by simp [ForwardState.start] at hw
  vTagged := fun a w hw => by simp [ForwardState.start] at hw
  earlier := by omega
  current := by omega
  saw := by simp [ForwardState.start]

/-- Only the cache and the log matter. -/
theorem Progress.bufs {pos layers : Nat} {s : ForwardState F} (h : Progress ctx pos layers s)
    (bufs : ScratchBuffers F) : Progress ctx pos layers { s with bufs := bufs } :=
  ⟨h.made, h.covers, h.kTagged, h.vTagged, h.earlier, h.current, h.saw⟩

theorem Attention.Saw.mono {log : List (Attention F)} {e : Attention F} (h : e.Saw ctx log)
    (more : List (Attention F)) : e.Saw ctx (log ++ more) := by
  obtain ⟨k, v, hreads, hk, hv, hown, hrows⟩ := h
  refine ⟨k, v, hreads, hk, hv, hown, ?_⟩
  intro t ht
  obtain ⟨w, hw, hrest⟩ := hrows t ht
  exact ⟨w, List.mem_append_left _ hw, hrest⟩

/-- A layer keeps the invariant. -/
theorem Progress.layer {pos layer : Nat} {s s' : ForwardState F} {e : Attention F}
    (h : Progress ctx pos layer s) (hlayer : layer < ctx.numLayers)
    (hstep : LayerStep ctx pos layer s s' e) : Progress ctx pos (layer + 1) s' := by
  obtain ⟨hl, hp, hk, hv, hlog, hreads⟩ := hstep
  have hkTagged : Tagged ctx.rowLen s'.kCache := hk ▸ storeRow_tagged h.kTagged
  have hvTagged : Tagged ctx.rowLen s'.vCache := hv ▸ storeRow_tagged h.vTagged
  have hown : e.Stored ctx.rowLen s'.kCache s'.vCache := by
    intro i hi
    rw [hk, hv, hp, hl]
    exact ⟨storeRow_own hi, storeRow_own hi⟩
  have hearlier : ∀ t < pos, ∃ w ∈ s'.attended, w.pos = t ∧ w.layer = ctx.numLayers - 1 ∧
      w.Stored ctx.rowLen s'.kCache s'.vCache := by
    intro t ht
    obtain ⟨w, hw, hwpos, hwlayer, hstored⟩ := h.earlier t ht
    refine ⟨w, ?_, hwpos, hwlayer, ?_⟩
    · rw [hlog]
      exact List.mem_append_left _ hw
    · rw [hk, hv]
      exact hstored.store (by omega)
  have hself : e ∈ s'.attended := by simp [hlog]
  refine ⟨?_, ?_, hkTagged, hvTagged, hearlier, ?_, ?_⟩
  · intro a ha
    rw [hlog] at ha
    rcases List.mem_append.mp ha with ha | ha
    · have hmade := h.made a ha
      omega
    · obtain rfl := List.mem_singleton.mp ha
      omega
  · intro t l htl
    by_cases hnew : t = pos ∧ l = layer
    · exact ⟨e, hself, by omega, by omega⟩
    · obtain ⟨a, ha, hrest⟩ := h.covers t l (by omega)
      refine ⟨a, ?_, hrest⟩
      rw [hlog]
      exact List.mem_append_left _ ha
  · intro _
    exact ⟨e, hself, hp, by omega, hown⟩
  · intro a ha
    rw [hlog] at ha
    rcases List.mem_append.mp ha with ha | ha
    · rw [hlog]
      exact (h.saw a ha).mono [e]
    · obtain rfl := List.mem_singleton.mp ha
      refine ⟨s'.kCache, s'.vCache, by rw [hp]; exact hreads, hkTagged, hvTagged, hown, ?_⟩
      rw [hp]
      exact hearlier

/-- After the last layer the next position begins. -/
theorem Progress.next {pos : Nat} {s : ForwardState F} (h : Progress ctx pos ctx.numLayers s)
    (hpos : 0 < ctx.numLayers) : Progress ctx (pos + 1) 0 s := by
  refine ⟨?_, ?_, h.kTagged, h.vTagged, ?_, by omega, h.saw⟩
  · intro e he
    have hmade := h.made e he
    omega
  · intro t l htl
    exact h.covers t l (by omega)
  · intro t ht
    by_cases hlast : t = pos
    · subst hlast
      exact h.current hpos
    · exact h.earlier t (by omega)

end Layer

section Run

variable {F D : Type} {ops : FloatOps F D} {ctx : GptOssContext F} {maxSeq : Nat}

theorem forwardLayers_progress (hgeom : ctx.Geometry maxSeq) (hbound : ctx.Bound)
    (hheads : ctx.numKvHeads ≤ ctx.numQHeads) {pos : Nat} (hpos : pos < maxSeq) {n layer : Nat}
    {s : ForwardState F} (hn : layer + n ≤ ctx.numLayers) (h : Progress ctx pos layer s) :
    ∃ s', forwardLayers ops ctx pos (pos + 1) (List.range' layer n) s = some (s', .ok ()) ∧
      Progress ctx pos (layer + n) s' := by
  induction n generalizing layer s with
  | zero => exact ⟨s, rfl, h⟩
  | succ n ih =>
      have hlayer : layer < ctx.numLayers := by omega
      obtain ⟨s₁, e, hrun, hstep⟩ := @forwardLayer_step F D ops ctx maxSeq hgeom hbound hheads
        pos layer hpos hlayer s
      obtain ⟨s₂, hrest, hprogress⟩ := ih (by omega) (h.layer hlayer hstep)
      refine ⟨s₂, ?_, ?_⟩
      · rw [List.range'_succ, forwardLayers, hrun]
        exact hrest
      · rwa [show layer + (n + 1) = layer + 1 + n by omega]

/-- With a norm and a head the end of a call finds a token and touches only buffers. -/
theorem forwardFinish_progress (hbound : ctx.Bound) {pos layers : Nat} {s : ForwardState F}
    (h : Progress ctx pos layers s) :
    ∃ s' token, forwardFinish ops ctx s = (s', .ok token) ∧ Progress ctx pos layers s' := by
  obtain ⟨norm, hnorm⟩ := hbound.finalNorm
  obtain ⟨head, hhead⟩ := hbound.lmHead
  simp only [forwardFinish, hnorm, hhead]
  exact ⟨_, _, rfl, h.bufs _⟩

/-- A call that passes its checks prepares its buffers, runs the layers and finishes. -/
theorem hbiAdapterGptOssForward_eq (hgeom : ctx.Geometry maxSeq) (hbound : ctx.Bound) {pos : Nat}
    {call : ForwardCall F} {s : ForwardState F} (htoken : call.tokenId < ctx.vocabSize)
    (hscores : call.scores.isSome) :
    ∃ bufs, hbiAdapterGptOssForward ops ctx call pos s =
      (forwardLayers ops ctx pos ((pos + 1) % uint32Size) (List.range ctx.numLayers)
        { s with bufs := bufs }).bind fun (s, status) =>
          match status with
          | .error e => some (s, .error e)
          | .ok () => some (forwardFinish ops ctx s) := by
  obtain ⟨emb, hemb⟩ := hbound.embedTokens
  obtain ⟨page, hpage⟩ := hgeom.page
  obtain ⟨scores, hscores⟩ := Option.isSome_iff_exists.mp hscores
  simp only [hbiAdapterGptOssForward, hgeom.initialized, Bool.true_eq_false, if_false,
    not_le.mpr htoken, hemb, hpage, hscores]
  exact ⟨_, rfl⟩

/-- A call that passes its checks returns a token and completes its position. -/
theorem hbiAdapterGptOssForward_progress (hgeom : ctx.Geometry maxSeq) (hbound : ctx.Bound)
    (hheads : ctx.numKvHeads ≤ ctx.numQHeads) {pos : Nat} (hpos : pos < maxSeq)
    {call : ForwardCall F} {s : ForwardState F} (htoken : call.tokenId < ctx.vocabSize)
    (hscores : call.scores.isSome) (h : Progress ctx pos 0 s) :
    ∃ s' token, hbiAdapterGptOssForward ops ctx call pos s = some (s', .ok token) ∧
      Progress ctx (pos + 1) 0 s' := by
  obtain ⟨bufs, hforward⟩ := @hbiAdapterGptOssForward_eq F D ops ctx maxSeq hgeom hbound pos call
    s htoken hscores
  have hlen : (pos + 1) % uint32Size = pos + 1 := by
    have := hgeom.maxSeq_lt
    exact Nat.mod_eq_of_lt (by omega)
  obtain ⟨s₁, hrun, hprogress⟩ := @forwardLayers_progress F D ops ctx maxSeq hgeom hbound hheads
    pos hpos ctx.numLayers 0 _ (by omega) (h.bufs bufs)
  rw [← List.range_eq_range'] at hrun
  rw [Nat.zero_add] at hprogress
  obtain ⟨s₂, token, hfinish, hdone⟩ := @forwardFinish_progress F D ops ctx hbound _ _ _
    (hprogress.next hgeom.numLayers_pos)
  refine ⟨s₂, token, ?_, hdone⟩
  rw [hforward, hlen, hrun]
  exact congrArg some hfinish

/-- Every call of a sequence within the page returns a token. -/
theorem forwardCalls_progress (hgeom : ctx.Geometry maxSeq) (hbound : ctx.Bound)
    (hheads : ctx.numKvHeads ≤ ctx.numQHeads) {calls : List (ForwardCall F)} {pos : Nat}
    {s : ForwardState F} (hlen : pos + calls.length ≤ maxSeq)
    (hcalls : ∀ call ∈ calls, call.tokenId < ctx.vocabSize ∧ call.scores.isSome)
    (h : Progress ctx pos 0 s) :
    ∃ s' statuses, forwardCalls ops ctx pos calls s = some (s', statuses) ∧
      (∀ status ∈ statuses, ∃ token, status = .ok token) ∧
      Progress ctx (pos + calls.length) 0 s' := by
  induction calls generalizing pos s with
  | nil => exact ⟨s, [], rfl, by simp, h⟩
  | cons call calls ih =>
      rw [List.length_cons] at hlen
      obtain ⟨htoken, hscores⟩ := hcalls call (by simp)
      obtain ⟨s₁, token, hcall, hnext⟩ := @hbiAdapterGptOssForward_progress F D ops ctx maxSeq
        hgeom hbound hheads pos (by omega) call s htoken hscores h
      obtain ⟨s₂, statuses, hrest, hok, hdone⟩ := ih (by omega)
        (fun call hcall => hcalls call (by simp [hcall])) hnext
      refine ⟨s₂, .ok token :: statuses, ?_, ?_, ?_⟩
      · rw [forwardCalls, hcall]
        simp [hrest]
      · intro status hstatus
        rcases List.mem_cons.mp hstatus with rfl | hstatus
        · exact ⟨token, rfl⟩
        · exact hok status hstatus
      · rwa [List.length_cons, show pos + (calls.length + 1) = pos + 1 + calls.length by omega]

/-- With more key heads than query heads the first call divides by zero. -/
theorem forwardCalls_undefined (hgeom : ctx.Geometry maxSeq) (hbound : ctx.Bound)
    (hheads : ctx.numQHeads < ctx.numKvHeads) {call : ForwardCall F}
    {calls : List (ForwardCall F)} {pos : Nat} {s : ForwardState F}
    (htoken : call.tokenId < ctx.vocabSize) (hscores : call.scores.isSome) :
    forwardCalls ops ctx pos (call :: calls) s = none := by
  obtain ⟨bufs, hforward⟩ := @hbiAdapterGptOssForward_eq F D ops ctx maxSeq hgeom hbound pos call
    s htoken hscores
  obtain ⟨n, hn⟩ := Nat.exists_eq_succ_of_ne_zero hgeom.numLayers_pos.ne'
  rw [forwardCalls, hforward, List.range_eq_range', hn, List.range'_succ, forwardLayers,
    forwardLayer_undefined hgeom hbound hheads hgeom.numLayers_pos]
  rfl

end Run

end Hummingbird

import Hummingbird.Adapter.AttentionLog
import Mathlib.Data.List.TakeWhile

/-!
Which rows attention gets to see. The cache has one row for a position and none for a
layer, so a layer finds its own rows of earlier positions only when it is the only layer.
A row number is a `uint32_t` and the head it selects comes from a division, so the
geometry of the model has a part in it, too.
-/

namespace Hummingbird

section Rows

variable {F : Type} {ctx : GptOssContext F} {k v : Nat → KvCell F} {e w : Attention F}

/-- The cells a call has written for one key head, out of its K or V row. -/
def Attention.headCells (e : Attention F) (row : Nat → F) (headDim h : Nat) : List (KvCell F) :=
  (List.range headDim).map fun d =>
    ⟨row (h * headDim + d), some ⟨e.layer, e.pos, h * headDim + d⟩⟩

/-- Every query head of an attention call reads, for every position up to its own, the
key and value vectors that its layer wrote there, and at its own position those that the
call has just written. -/
structure Attention.ReadsOwn (ctx : GptOssContext F) (log : List (Attention F))
    (e : Attention F) : Prop where
  every : ∀ qh < ctx.numQHeads, ∀ t ≤ e.pos, ∃ r ∈ e.reads, r.queryHead = qh ∧ r.t = t
  own : ∀ r ∈ e.reads, r.t ≤ e.pos ∧
    ∃ w ∈ log, w.layer = e.layer ∧ w.pos = r.t ∧ (r.t = e.pos → w = e) ∧
      let kvh := r.queryHead / (ctx.numQHeads / ctx.numKvHeads)
      kvh < ctx.numKvHeads ∧ r.key = w.headCells w.k ctx.headDim kvh ∧
        r.value = w.headCells w.v ctx.headDim kvh

/-- The calls run, those that pass the checks return a token after every layer has attended at
their position, and every attention call reads what its own layer wrote. -/
def KvIsolated {D : Type} (ops : FloatOps F D) (ctx : GptOssContext F)
    (calls : List (ForwardCall F)) (s : ForwardState F) : Prop :=
  ∃ s' statuses, forwardCalls ops ctx 0 calls s = some (s', statuses) ∧
    (∀ p call, calls[p]? = some call → call.Accepted ctx.vocabSize →
      (∃ token, statuses[p]? = some (.ok token)) ∧
        ∀ l < ctx.numLayers, ∃ e ∈ s'.attended, e.layer = l ∧ e.pos = p) ∧
    ∀ e ∈ s'.attended, e.ReadsOwn ctx s'.attended

/-- A row that is stored is read as it was written, if its number fits. -/
theorem readCacheRow_of_stored (hstored : w.Stored ctx.rowLen k v) {kvh : Nat}
    (hkvh : kvh < ctx.numKvHeads) (hfits : w.pos * ctx.numKvHeads + kvh < uint32Size) :
    readCacheRow k ctx.numKvHeads ctx.headDim w.pos kvh = w.headCells w.k ctx.headDim kvh ∧
      readCacheRow v ctx.numKvHeads ctx.headDim w.pos kvh = w.headCells w.v ctx.headDim kvh := by
  have haddr : ∀ d, cacheRowOffset ctx.numKvHeads ctx.headDim w.pos kvh + d =
      w.pos * ctx.rowLen + (kvh * ctx.headDim + d) := by
    intro d
    rw [cacheRowOffset, Nat.mod_eq_of_lt hfits, GptOssContext.rowLen]
    ring
  have hindex : ∀ d < ctx.headDim, kvh * ctx.headDim + d < ctx.rowLen := by
    intro d hd
    have hrow := @row_end_le ctx.headDim kvh ctx.numKvHeads hkvh
    unfold GptOssContext.rowLen
    omega
  constructor
  · apply List.map_congr_left
    intro d hd
    rw [haddr]
    exact (hstored _ (hindex d (List.mem_range.mp hd))).1
  · apply List.map_congr_left
    intro d hd
    rw [haddr]
    exact (hstored _ (hindex d (List.mem_range.mp hd))).2

/-- A read that returns what a call wrote for a head was made at the place of that head. -/
theorem readCacheRow_place (htagged : Tagged ctx.rowLen k) (hdim : 0 < ctx.headDim) {t kvh h : Nat}
    {row : Nat → F}
    (hread : readCacheRow k ctx.numKvHeads ctx.headDim t kvh = w.headCells row ctx.headDim h) :
    (t * ctx.numKvHeads + kvh) % uint32Size = w.pos * ctx.numKvHeads + h ∧
      (k (w.pos * ctx.rowLen + h * ctx.headDim)).writer =
        some ⟨w.layer, w.pos, h * ctx.headDim⟩ := by
  have hcell := List.map_inj_left.mp hread 0 (List.mem_range.mpr hdim)
  simp only [Nat.add_zero] at hcell
  have hwriter := congrArg KvCell.writer hcell
  have hplace := (htagged _ _ hwriter).1
  dsimp only at hplace
  have hrow : (t * ctx.numKvHeads + kvh) % uint32Size * ctx.headDim =
      (w.pos * ctx.numKvHeads + h) * ctx.headDim := by
    rw [cacheRowOffset] at hplace
    rw [hplace, GptOssContext.rowLen]
    ring
  rw [hplace] at hwriter
  exact ⟨Nat.eq_of_mul_eq_mul_right hdim hrow, hwriter⟩

end Rows

section Heads

/-- The head that a query head selects always exists exactly when the numbers divide. -/
theorem selected_head_lt_iff {numQ numKv : Nat} (hkv : 0 < numKv) (hle : numKv ≤ numQ) :
    (∀ qh < numQ, qh / (numQ / numKv) < numKv) ↔ numKv ∣ numQ := by
  have hgroup : 0 < numQ / numKv := Nat.div_pos hle hkv
  constructor
  · intro hall
    have hlast := hall (numQ - 1) (by omega)
    rw [Nat.div_lt_iff_lt_mul hgroup] at hlast
    have hmul := Nat.mul_div_le numQ numKv
    exact ⟨numQ / numKv, by omega⟩
  · intro hdvd qh hqh
    rw [Nat.div_lt_iff_lt_mul hgroup, Nat.mul_div_cancel' hdvd]
    exact hqh

/-- The last query head selects the last key head. -/
theorem selected_head_last {numQ numKv : Nat} (hkv : 0 < numKv) (hq : 0 < numQ)
    (hdvd : numKv ∣ numQ) : (numQ - 1) / (numQ / numKv) = numKv - 1 := by
  obtain ⟨g, rfl⟩ := hdvd
  have hg : 0 < g := Nat.pos_of_mul_pos_left hq
  rw [Nat.mul_div_cancel_left g hkv]
  apply Nat.div_eq_of_lt_le
  · rw [Nat.sub_mul, Nat.one_mul]
    omega
  · rw [Nat.sub_add_cancel hkv]
    omega

end Heads

section Isolation

variable {F D : Type} {ops : FloatOps F D} {ctx : GptOssContext F} {maxSeq : Nat}
  {log : List (Attention F)} {e : Attention F}

/-- With a fitting geometry a call reads its own layer, if that is the only layer or no
position came before. -/
theorem Attention.Saw.readsOwn (hsaw : e.Saw ctx log) (he : e ∈ log)
    (hgeom : ctx.Geometry maxSeq) (hdvd : ctx.numKvHeads ∣ ctx.numQHeads)
    (hfits : (e.pos + 1) * ctx.numKvHeads ≤ uint32Size)
    (hlayer : e.layer = ctx.numLayers - 1 ∨ e.pos = 0) : e.ReadsOwn ctx log := by
  obtain ⟨k, v, hreads, -, -, hown, hearlier⟩ := hsaw
  have hheads := Nat.le_of_dvd hgeom.numQHeads_pos hdvd
  refine ⟨?_, ?_⟩
  · intro qh hqh t ht
    rw [hreads]
    let kvh := qh / (ctx.numQHeads / ctx.numKvHeads)
    exact ⟨⟨qh, t, readCacheRow k ctx.numKvHeads ctx.headDim t kvh,
      readCacheRow v ctx.numKvHeads ctx.headDim t kvh⟩,
      mem_attentionReads.mpr ⟨hqh, Nat.lt_succ_of_le ht, rfl, rfl⟩, rfl, rfl⟩
  · intro r hr
    rw [hreads] at hr
    obtain ⟨hqh, ht, hkey, hvalue⟩ := mem_attentionReads.mp hr
    have hkvh := (selected_head_lt_iff hgeom.numKvHeads_pos hheads).mpr hdvd _ hqh
    have hsource : ∃ w ∈ log, w.layer = e.layer ∧ w.pos = r.t ∧ (r.t = e.pos → w = e) ∧
        w.Stored ctx.rowLen k v := by
      by_cases hcurrent : r.t = e.pos
      · exact ⟨e, he, rfl, hcurrent.symm, fun _ => rfl, hown⟩
      · obtain ⟨w, hw, hpos, hlast, hstored⟩ := hearlier r.t (by omega)
        exact ⟨w, hw, by omega, hpos, fun h => absurd h hcurrent, hstored⟩
    obtain ⟨w, hw, hwl, hwp, hself, hstored⟩ := hsource
    have hrow := @row_end_le ctx.numKvHeads w.pos (e.pos + 1) (by omega)
    obtain ⟨hk, hv⟩ := readCacheRow_of_stored hstored hkvh (by omega)
    rw [hwp] at hk hv
    exact ⟨by omega, w, hw, hwl, hwp, hself, hkvh, hkey.trans hk, hvalue.trans hv⟩

/-- A call that reads its own layer at a position reads the very row of that position,
and what it finds there was put there by its layer. -/
theorem Attention.Saw.own_place (hsaw : e.Saw ctx log) (hgeom : ctx.Geometry maxSeq)
    (hown : e.ReadsOwn ctx log) {qh t : Nat} (hqh : qh < ctx.numQHeads) (ht : t ≤ e.pos) :
    qh / (ctx.numQHeads / ctx.numKvHeads) < ctx.numKvHeads ∧
      t * ctx.numKvHeads + qh / (ctx.numQHeads / ctx.numKvHeads) < uint32Size ∧
      (t < e.pos → e.layer = ctx.numLayers - 1) := by
  obtain ⟨k, v, hreads, hk, -, -, hearlier⟩ := hsaw
  obtain ⟨r, hr, rfl, rfl⟩ := hown.every qh hqh t ht
  obtain ⟨-, w, -, hwl, hwp, -, hkvh, hkey, -⟩ := hown.own r hr
  rw [hreads] at hr
  rw [(mem_attentionReads.mp hr).2.2.1] at hkey
  obtain ⟨hplace, hwriter⟩ := readCacheRow_place hk hgeom.headDim_pos hkey
  refine ⟨hkvh, ?_, ?_⟩
  · have hmod := Nat.mod_lt (r.t * ctx.numKvHeads +
      r.queryHead / (ctx.numQHeads / ctx.numKvHeads)) (show 0 < uint32Size by decide)
    rw [hwp] at hplace
    omega
  · intro hbefore
    obtain ⟨last, -, hpos, hlayer, hstored⟩ := hearlier r.t hbefore
    have hindex : r.queryHead / (ctx.numQHeads / ctx.numKvHeads) * ctx.headDim < ctx.rowLen :=
      Nat.mul_lt_mul_of_pos_right hkvh hgeom.headDim_pos
    have hcell := congrArg KvCell.writer (hstored _ hindex).1
    rw [hpos, ← hwp, hwriter] at hcell
    simp only [Option.some.injEq, KvWriter.mk.injEq] at hcell
    omega

/-- The condition under which attention stays within its layer: the key heads divide the
query heads, no row number wraps, and no other layer has written before. -/
theorem progress_readsOwn_iff (hgeom : ctx.Geometry maxSeq) {n : Nat} {s : ForwardState F}
    (h : Progress ctx n 0 s) (hn : 0 < n) (hheads : ctx.numKvHeads ≤ ctx.numQHeads) :
    (∀ e ∈ s.attended, e.ReadsOwn ctx s.attended) ↔
      ctx.numKvHeads ∣ ctx.numQHeads ∧ n * ctx.numKvHeads ≤ uint32Size ∧
        (ctx.numLayers = 1 ∨ n = 1) := by
  have hlayers := hgeom.numLayers_pos
  have hq := hgeom.numQHeads_pos
  have hkv := hgeom.numKvHeads_pos
  constructor
  · intro hall
    obtain ⟨e, he, hpos, hlayer⟩ := h.covers (n - 1) 0 (by omega)
    have hown := hall e he
    have hplace := fun qh (hqh : qh < ctx.numQHeads) =>
      (h.saw e he).own_place hgeom hown hqh (le_refl e.pos)
    have hdvd := (selected_head_lt_iff hkv hheads).mp fun qh hqh => (hplace qh hqh).1
    refine ⟨hdvd, ?_, ?_⟩
    · have hlast := (hplace (ctx.numQHeads - 1) (by omega)).2.1
      rw [selected_head_last hkv hq hdvd, hpos] at hlast
      have hrow : n * ctx.numKvHeads = (n - 1) * ctx.numKvHeads + ctx.numKvHeads := by
        rw [← Nat.succ_mul, Nat.succ_eq_add_one, Nat.sub_add_cancel hn]
      omega
    · by_cases hone : n = 1
      · exact Or.inr hone
      · have hlast := ((h.saw e he).own_place hgeom hown hq (Nat.zero_le _)).2.2 (by omega)
        omega
  · rintro ⟨hdvd, hfits, hsingle⟩ e he
    have hmade := h.made e he
    have hrow : (e.pos + 1) * ctx.numKvHeads ≤ n * ctx.numKvHeads :=
      Nat.mul_le_mul_right _ (by omega)
    exact (h.saw e he).readsOwn he hgeom hdvd (by omega) (by omega)

/-- Isolation for a context with all its weights bound, when all calls pass the checks. -/
theorem kvIsolated_iff_of_accepted (hgeom : ctx.Geometry maxSeq) (hbound : ctx.Bound)
    {calls : List (ForwardCall F)} (hlen : calls.length ≤ maxSeq)
    (hcalls : ∀ call ∈ calls, call.Accepted ctx.vocabSize)
    (bufs : ScratchBuffers F) (k v : Nat → F) :
    KvIsolated ops ctx calls (ForwardState.start bufs k v) ↔
      calls = [] ∨ ctx.numKvHeads ∣ ctx.numQHeads ∧
        calls.length * ctx.numKvHeads ≤ uint32Size ∧ (ctx.numLayers = 1 ∨ calls.length = 1) := by
  cases hcase : calls with
  | nil =>
      simp only [true_or, iff_true]
      exact ⟨_, [], rfl, by simp, by simp [ForwardState.start]⟩
  | cons call rest =>
      rw [← hcase]
      have hne : calls ≠ [] := by simp [hcase]
      have hpos := List.length_pos_iff.mpr hne
      simp only [hne, false_or]
      by_cases hheads : ctx.numKvHeads ≤ ctx.numQHeads
      · obtain ⟨s', statuses, hrun, hok, hprogress⟩ := @forwardCalls_progress F D ops ctx maxSeq
          hgeom hbound hheads calls 0 _ (by omega) hcalls (progress_start bufs k v)
        rw [Nat.zero_add] at hprogress
        rw [← progress_readsOwn_iff hgeom hprogress hpos hheads]
        constructor
        · rintro ⟨s'', statuses', hrun', -, hall⟩
          rw [hrun] at hrun'
          cases hrun'
          exact hall
        · intro hall
          refine ⟨s', statuses, hrun, ?_, hall⟩
          intro p call hp _
          obtain ⟨hplt, -⟩ := List.getElem?_eq_some_iff.mp hp
          have hstatus : p < statuses.length := (forwardCalls_logged hrun).1 ▸ hplt
          refine ⟨?_, ?_⟩
          · obtain ⟨token, htoken⟩ := hok _ (List.getElem_mem hstatus)
            exact ⟨token, htoken ▸ List.getElem?_eq_getElem hstatus⟩
          · intro l hl
            obtain ⟨e, he, hep, hel⟩ := hprogress.covers p l (Or.inl ⟨hplt, hl⟩)
            exact ⟨e, he, hel, hep⟩
      · have hcall := hcalls call (by simp [hcase])
        constructor
        · rintro ⟨s', statuses, hrun, -⟩
          rw [hcase, forwardCalls_undefined hgeom hbound (not_le.mp hheads) hcall.1 hcall.2]
            at hrun
          cases hrun
        · rintro ⟨hdvd, -⟩
          exact absurd (Nat.le_of_dvd hgeom.numQHeads_pos hdvd) hheads

/-- Refused calls at the end change nothing about the calls before them. -/
theorem kvIsolated_append_refused {first rest : List (ForwardCall F)} {s : ForwardState F}
    (hrest : ∀ call ∈ rest, ¬ call.Accepted ctx.vocabSize) :
    KvIsolated ops ctx (first ++ rest) s ↔ KvIsolated ops ctx first s := by
  unfold KvIsolated
  cases hfirst : forwardCalls ops ctx 0 first s with
  | none => simp [forwardCalls_append_none hfirst rest]
  | some res =>
      obtain ⟨s₁, statuses₁⟩ := res
      obtain ⟨s₂, statuses₂, hrefused, hattended⟩ :=
        @forwardCalls_refused F D ops ctx rest hrest (0 + first.length) s₁
      have hlen := (forwardCalls_logged hfirst).1
      rw [forwardCalls_append hfirst hrefused]
      simp only [Option.some.injEq, Prod.mk.injEq, existsAndEq, true_and,
        hattended]
      refine and_congr_left fun _ => ?_
      constructor
      · intro hall p call hp hpass
        obtain ⟨hplt, -⟩ := List.getElem?_eq_some_iff.mp hp
        have hboth := hall p call (by rwa [List.getElem?_append_left hplt]) hpass
        rwa [List.getElem?_append_left (hlen ▸ hplt)] at hboth
      · intro hall p call hp hpass
        by_cases hplt : p < first.length
        · rw [List.getElem?_append_left hplt] at hp
          rw [List.getElem?_append_left (hlen ▸ hplt)]
          exact hall p call hp hpass
        · rw [List.getElem?_append_right (not_lt.mp hplt)] at hp
          exact absurd hpass (hrest call (List.mem_of_getElem? hp))

/-- The calls that pass the checks come before those that do not. -/
theorem accepted_first_of_isolated (hgeom : ctx.Geometry maxSeq) {calls : List (ForwardCall F)}
    {bufs : ScratchBuffers F} {k v : Nat → F}
    (h : KvIsolated ops ctx calls (ForwardState.start bufs k v)) {t p : Nat}
    {refused passed : ForwardCall F} (ht : calls[t]? = some refused) (hp : calls[p]? = some passed)
    (hpass : passed.Accepted ctx.vocabSize) (htp : t ≤ p) : refused.Accepted ctx.vocabSize := by
  obtain ⟨s', statuses, hrun, hlayers, hreads⟩ := h
  obtain ⟨e, he, -, hpos⟩ := (hlayers p passed hp hpass).2 0 hgeom.numLayers_pos
  have hown := hreads e he
  -- what is read at the refused position must have been logged there
  obtain ⟨r, hr, -, hrt⟩ := hown.every 0 hgeom.numQHeads_pos t (hpos ▸ htp)
  obtain ⟨-, w, hw, -, hwpos, -⟩ := hown.own r hr
  obtain hold | ⟨i, call, hcall, haccepted, hi⟩ := (forwardCalls_logged hrun).2 w hw
  · cases hold
  · obtain rfl : i = t := by omega
    rw [ht] at hcall
    cases hcall
    exact haccepted

/-- Isolation for a context with all its weights bound. -/
theorem kvIsolated_iff (hgeom : ctx.Geometry maxSeq) (hbound : ctx.Bound)
    {calls : List (ForwardCall F)} (hlen : calls.length ≤ maxSeq) (bufs : ScratchBuffers F)
    (k v : Nat → F) :
    KvIsolated ops ctx calls (ForwardState.start bufs k v) ↔
      ∃ first rest, calls = first ++ rest ∧ (∀ call ∈ first, call.Accepted ctx.vocabSize) ∧
        (∀ call ∈ rest, ¬ call.Accepted ctx.vocabSize) ∧
        (first = [] ∨ ctx.numKvHeads ∣ ctx.numQHeads ∧
          first.length * ctx.numKvHeads ≤ uint32Size ∧
          (ctx.numLayers = 1 ∨ first.length = 1)) := by
  constructor
  · intro h
    let passes : ForwardCall F → Bool := fun call => call.Accepted ctx.vocabSize
    let first := calls.takeWhile passes
    let rest := calls.dropWhile passes
    have hsplit : calls = first ++ rest := List.takeWhile_append_dropWhile.symm
    have hfirst : ∀ call ∈ first, call.Accepted ctx.vocabSize := by
      intro call hcall
      have hpasses : passes call = true := List.mem_takeWhile_imp hcall
      exact of_decide_eq_true hpasses
    have hrest : ∀ call ∈ rest, ¬ call.Accepted ctx.vocabSize := by
      intro call hcall hpass
      obtain ⟨i, hi, rfl⟩ := List.mem_iff_getElem.mp hcall
      have hhead : 0 < rest.length := Nat.lt_of_le_of_lt (Nat.zero_le i) hi
      have hat : ∀ j (hj : j < rest.length), calls[first.length + j]? = some rest[j] := by
        intro j hj
        rw [hsplit, List.getElem?_append_right (Nat.le_add_right _ _), Nat.add_sub_cancel_left,
          List.getElem?_eq_getElem hj]
      exact List.dropWhile_get_zero_not passes calls hhead (decide_eq_true
        (accepted_first_of_isolated hgeom h (hat 0 hhead) (hat i hi) hpass (by omega)))
    refine ⟨first, rest, hsplit, hfirst, hrest, ?_⟩
    have hshort : first.length ≤ maxSeq := by
      have := congrArg List.length hsplit
      rw [List.length_append] at this
      omega
    rw [hsplit, kvIsolated_append_refused hrest] at h
    exact (kvIsolated_iff_of_accepted hgeom hbound hshort hfirst bufs k v).mp h
  · rintro ⟨first, rest, rfl, hfirst, hrest, hcond⟩
    rw [List.length_append] at hlen
    rw [kvIsolated_append_refused hrest]
    exact (kvIsolated_iff_of_accepted hgeom hbound (by omega) hfirst bufs k v).mpr hcond

/-- For every model that metadata validation and descriptor construction accept, whose
context could be created and whose weights are bound, and for every sequence of calls at
positions that fit the cache: attention reads the rows of its own layer at every position
exactly when no call that passes the checks of the forward pass comes behind one that does
not, and, if any passes, the key heads divide the query heads, no row number leaves 32 bits,
and the model has one layer or only one call passes. -/
theorem gpt_oss_kv_isolation_iff (ops : FloatOps F D) {md : ModelMetadata}
    {desc : ModelDescriptor} {eps theta : F} {blocks : GptOssBlocks} {ctx : GptOssContext F}
    (hvalid : gptOssValidateMetadata md = .ok ()) (hbuild : gptOssBuildDescriptor md = .ok desc)
    (hcreate : gptOssCreateContext desc eps theta blocks = some (.ok ctx))
    (weights : GptOssWeights F) (bufs : ScratchBuffers F) (k v : Nat → F)
    {calls : List (ForwardCall F)} (hlen : calls.length ≤ desc.maxSeqLength) :
    KvIsolated ops (ctx.bindAll weights) calls (ForwardState.start bufs k v) ↔
      ∃ first rest, calls = first ++ rest ∧ (∀ call ∈ first, call.Accepted desc.vocabSize) ∧
        (∀ call ∈ rest, ¬ call.Accepted desc.vocabSize) ∧
        (first = [] ∨ desc.numKvHeads ∣ desc.numAttentionHeads ∧
          first.length * desc.numKvHeads ≤ uint32Size ∧
          (desc.numLayers = 1 ∨ first.length = 1)) := by
  obtain ⟨hgeom, hlayers, hq, hkv, hvocab⟩ := gptOssCreateContext_geometry
    (gptOssBuildDescriptor_accepted hvalid hbuild) hcreate weights
  rw [← hlayers, ← hq, ← hkv, ← hvocab]
  exact kvIsolated_iff hgeom (ctx.bindAll_bound weights) hlen bufs k v

end Isolation

section Instances

/-- Integer arithmetic with the identity for the transcendental functions. -/
def intOps : FloatOps Int Int where
  zero := 0
  one := 1
  lowest := -1000
  add := fun a b => a + b
  sub := fun a b => a - b
  mul := fun a b => a * b
  div := fun a b => a / b
  neg := fun a => -a
  expf := id
  sqrtf := id
  cosf := id
  sinf := id
  powf := fun a _ => a
  ofUint32 := fun n => n
  lt := fun a b => a < b
  toDouble := id
  ofDouble := id
  dzero := 0
  dadd := fun a b => a + b
  dmul := fun a b => a * b
  ddiv := fun a b => a / b
  dsqrt := id
  dofUint32 := fun n => n

/-- Every allocation succeeds. -/
def freeBlocks : GptOssBlocks :=
  { outer := true, inner := true, scratch := fun _ => true, layers := true, manager := true
    mutex := true, kv := smallBlocks }

/-- Unit weights, with the number of the layer in its K and V projections. -/
def countingWeights : GptOssWeights Int :=
  { embedTokens := fun _ => 1, finalNorm := fun _ => 1, lmHead := fun _ => 1
    layer := fun l =>
      { qProj := fun _ => 1, kProj := fun _ => l + 1, vProj := fun _ => l + 1
        oProj := fun _ => 1, inputNorm := fun _ => 1, postNorm := fun _ => 1
        gateProj := fun _ => 1, upProj := fun _ => 1, downProj := fun _ => 1 } }

def zeroBuffers : ScratchBuffers Int :=
  ⟨fun _ => 0, fun _ => 0, fun _ => 0, fun _ => 0, fun _ => 0, fun _ => 0, fun _ => 0,
    fun _ => 0, fun _ => 0, fun _ => 0⟩

def zeroState : ForwardState Int := ForwardState.start zeroBuffers (fun _ => 0) fun _ => 0

def twoCalls : List (ForwardCall Int) := [⟨0, some fun _ => 0⟩, ⟨0, some fun _ => 0⟩]

/-- Small metadata with a given number of layers and query heads, for two positions. -/
def smallMetadata (hidden qHeads layers : String) : ModelMetadata :=
  [("architecture", "gpt_oss"), ("hidden_size", hidden), ("intermediate_size", "1"),
    ("num_attention_heads", qHeads), ("num_key_value_heads", "1"),
    ("num_hidden_layers", layers), ("vocab_size", "1"), ("max_position_embeddings", "2")]

/-- A call outside the vocabulary and one inside it. -/
def lateCalls : List (ForwardCall Int) := [⟨1, some fun _ => 0⟩, ⟨0, some fun _ => 0⟩]

/-- Two query heads share a key head, one layer decodes two positions. When the first call is
refused, the second one reads a row that nobody wrote. -/
theorem gpt_oss_kv_isolation_iff_single_layer :
    gptOssValidateMetadata (smallMetadata "2" "2" "1") = .ok () ∧
    gptOssBuildDescriptor (smallMetadata "2" "2" "1") = .ok ⟨2, 1, 2, 1, 1, 1, 2⟩ ∧
    ∃ ctx, gptOssCreateContext ⟨2, 1, 2, 1, 1, 1, 2⟩ (0 : Int) 1 freeBlocks = some (.ok ctx) ∧
      KvIsolated intOps (ctx.bindAll countingWeights) twoCalls zeroState ∧
      ¬ KvIsolated intOps (ctx.bindAll countingWeights) lateCalls zeroState := by
  have hvalid : gptOssValidateMetadata (smallMetadata "2" "2" "1") = .ok () := rfl
  have hbuild : gptOssBuildDescriptor (smallMetadata "2" "2" "1") =
      .ok ⟨2, 1, 2, 1, 1, 1, 2⟩ := rfl
  obtain ⟨ctx, hcreate⟩ : ∃ ctx,
      gptOssCreateContext ⟨2, 1, 2, 1, 1, 1, 2⟩ (0 : Int) 1 freeBlocks = some (.ok ctx) := ⟨_, rfl⟩
  have hiff := fun calls => @gpt_oss_kv_isolation_iff Int Int intOps _ _ _ _ _ _ hvalid hbuild
    hcreate countingWeights zeroBuffers (fun _ => 0) (fun _ => 0) calls
  refine ⟨hvalid, hbuild, ctx, hcreate, ?_, ?_⟩
  · refine (hiff twoCalls (by decide)).mpr ⟨twoCalls, [], rfl, ?_, by simp, ?_⟩
    · simp [twoCalls, ForwardCall.Accepted]
    · exact Or.inr ⟨by decide, by decide, Or.inl rfl⟩
  · intro hisolated
    obtain ⟨first, rest, hsplit, hfirst, hrest, -⟩ := (hiff lateCalls (by decide)).mp hisolated
    cases first with
    | nil =>
        have hpassed : (⟨0, some fun _ => 0⟩ : ForwardCall Int) ∈ rest := by
          rw [← List.nil_append rest, ← hsplit]
          simp [lateCalls]
        exact hrest _ hpassed ⟨by decide, rfl⟩
    | cons call first =>
        obtain ⟨rfl, -⟩ := List.cons.inj hsplit
        exact absurd (hfirst _ List.mem_cons_self).1 (by decide)

/-- For every attention call the key it put into the cache and the keys it read. -/
def keysSeen (log : List (Attention Int)) : List (Int × List Int) :=
  log.map fun e => (e.k 0, e.reads.flatMap fun r => r.key.map KvCell.value)

/-- The keys of a run of two calls on a model created from a descriptor. -/
def decodedKeys (desc : ModelDescriptor) : Option (List (Int × List Int)) :=
  match gptOssCreateContext desc (0 : Int) 1 freeBlocks with
  | none | some (.error _) => none
  | some (.ok ctx) =>
      (forwardCalls intOps (ctx.bindAll countingWeights) 0 twoCalls zeroState).map
        fun run => keysSeen run.1.attended

/-- Two layers decode two positions. The third attention call is that of the first layer
at the second position: the layer wrote the key 1 at the first position and reads the
key 2 there, which the second layer wrote. -/
theorem gpt_oss_kv_layers_collide :
    gptOssValidateMetadata (smallMetadata "1" "1" "2") = .ok () ∧
    gptOssBuildDescriptor (smallMetadata "1" "1" "2") = .ok ⟨1, 1, 1, 1, 2, 1, 2⟩ ∧
    decodedKeys ⟨1, 1, 1, 1, 2, 1, 2⟩ =
      some [(1, [1]), (2, [2]), (1, [2, 1]), (0, [2, 0])] ∧
    ∃ ctx, gptOssCreateContext ⟨1, 1, 1, 1, 2, 1, 2⟩ (0 : Int) 1 freeBlocks = some (.ok ctx) ∧
      ¬ KvIsolated intOps (ctx.bindAll countingWeights) twoCalls zeroState := by
  have hvalid : gptOssValidateMetadata (smallMetadata "1" "1" "2") = .ok () := rfl
  have hbuild : gptOssBuildDescriptor (smallMetadata "1" "1" "2") =
      .ok ⟨1, 1, 1, 1, 2, 1, 2⟩ := rfl
  obtain ⟨ctx, hcreate⟩ : ∃ ctx,
      gptOssCreateContext ⟨1, 1, 1, 1, 2, 1, 2⟩ (0 : Int) 1 freeBlocks = some (.ok ctx) := ⟨_, rfl⟩
  obtain ⟨hgeom, hlayers, -, -, hvocab⟩ := gptOssCreateContext_geometry
    (gptOssBuildDescriptor_accepted hvalid hbuild) hcreate countingWeights
  refine ⟨hvalid, hbuild, by decide +kernel, ctx, hcreate, ?_⟩
  intro hisolated
  have hcond := (kvIsolated_iff_of_accepted hgeom (ctx.bindAll_bound countingWeights) (by decide)
    (by simp [twoCalls, GptOssContext.bindAll, ForwardCall.Accepted, hvocab]) zeroBuffers _ _).mp
    hisolated
  simp [GptOssContext.bindAll, hlayers, twoCalls] at hcond

end Instances

end Hummingbird

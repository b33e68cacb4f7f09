import Hummingbird.Adapter.Coverage
import Hummingbird.Foundation.TwoRuns

/-!
Two runs of the forward pass over different contents of the scratch buffers and of the KV
page. Every kernel reads cells on which the runs agree, so what it writes agrees as well; the
cache agrees on the rows of the positions that were written.
-/

namespace Hummingbird

open TwoRuns

section Kernels

variable {F D : Type} {ops : FloatOps F D}

theorem fill_eqOn {out out' f f' : Nat → F} {n : Nat} (h : ∀ i < n, f i = f' i) :
    Set.EqOn (fill out n f) (fill out' n f') (Set.Iio n) := by
  intro i hi
  have hlt : i < n := hi
  rw [fill, fill, if_pos hlt, if_pos hlt, h i hlt]

theorem refRmsnorm_eqOn {x x' w out out' : Nat → F} {n : Nat} {eps : F}
    (hx : Set.EqOn x x' (Set.Iio n)) :
    Set.EqOn (refRmsnorm ops x w out n eps) (refRmsnorm ops x' w out' n eps) (Set.Iio n) := by
  have hsum : (List.range n).foldl
      (fun ss i => ops.dadd ss (ops.dmul (ops.toDouble (x i)) (ops.toDouble (x i)))) ops.dzero =
      (List.range n).foldl
      (fun ss i => ops.dadd ss (ops.dmul (ops.toDouble (x' i)) (ops.toDouble (x' i))))
        ops.dzero := by
    apply List.foldl_ext
    intro ss i hi
    rw [hx (List.mem_range.mp hi)]
  unfold refRmsnorm
  rw [hsum]
  apply fill_eqOn
  intro i hi
  rw [hx hi]

theorem refLinear_eqOn {x x' w out out' : Nat → F} {m k : Nat}
    (hx : Set.EqOn x x' (Set.Iio k)) :
    Set.EqOn (refLinear ops x w out m k) (refLinear ops x' w out' m k) (Set.Iio m) := by
  apply fill_eqOn
  intro i _
  apply List.foldl_ext
  intro acc j hj
  rw [hx (List.mem_range.mp hj)]

/-- The rotation of a head reads and writes cells of that head. -/
theorem refRopeHead_eqOn {x x' : Nat → F} {S : Set Nat} {base headDim pos : Nat} {theta : F}
    (hbase : Set.Ico base (base + headDim) ⊆ S) (hx : Set.EqOn x x' S) :
    Set.EqOn (refRopeHead ops x base headDim pos theta) (refRopeHead ops x' base headDim pos theta)
      S := by
  apply foldl_eqOn hx
  intro i hi f g hfg
  have hlt := List.mem_range.mp hi
  have hlo : base + i ∈ S := hbase ⟨by omega, by omega⟩
  have hhi : base + (i + headDim / 2) ∈ S := hbase ⟨by omega, by omega⟩
  dsimp only
  rw [hfg hlo, hfg hhi]
  refine (update_eqOn ((update_eqOn hfg _ _).mono (Set.subset_insert _ _)) _ _).mono ?_
  exact Set.subset_insert _ _

theorem ropeHeads_eqOn {x x' : Nat → F} {heads headDim pos : Nat} {theta : F}
    (hx : Set.EqOn x x' (Set.Iio (heads * headDim))) :
    Set.EqOn
      ((List.range heads).foldl (fun x h => refRopeHead ops x (h * headDim) headDim pos theta) x)
      ((List.range heads).foldl (fun x h => refRopeHead ops x (h * headDim) headDim pos theta) x')
      (Set.Iio (heads * headDim)) := by
  apply foldl_eqOn hx
  intro h hh f g hfg
  have hrow := @row_end_le headDim h heads (List.mem_range.mp hh)
  apply refRopeHead_eqOn _ hfg
  intro i hi
  exact lt_of_lt_of_le hi.2 hrow

/-- The rows that are read are rows of heads. -/
def HeadRows (headDim : Nat) (reads : List (KvRead F)) : Prop :=
  ∀ r ∈ reads, r.key.length = headDim ∧ r.value.length = headDim

/-- The position of every row that is read. -/
def readTimes (reads : List (KvRead F)) : Set Nat := {t | ∃ r ∈ reads, r.t = t}

/-- The score of a row. -/
def rowScore (ops : FloatOps F D) (q : Nat → F) (headDim qh : Nat) (r : KvRead F) : F :=
  ops.mul (r.key.zipIdx.foldl
    (fun s (c, d) => ops.add s (ops.mul (q (qh * headDim + d)) c.value)) ops.zero)
    (ops.div ops.one (ops.sqrtf (ops.ofUint32 headDim)))

theorem attentionScores_eq_store (q : Nat → F) (headDim qh : Nat) (reads : List (KvRead F))
    (scores : Nat → F) :
    attentionScores ops q headDim qh reads scores =
      reads.foldl (store KvRead.t (fun _ r => rowScore ops q headDim qh r) fun best r =>
        if ops.lt best (rowScore ops q headDim qh r) then rowScore ops q headDim qh r else best)
        (scores, ops.lowest) := rfl

/-- The scores of a head depend on its own part of the query, and on no score before. -/
theorem attentionScores_eqOn {q q' : Nat → F} {headDim qh : Nat} {reads : List (KvRead F)}
    (hrows : HeadRows headDim reads)
    (hq : Set.EqOn q q' (Set.Ico (qh * headDim) (qh * headDim + headDim)))
    (scores scores' : Nat → F) :
    Set.EqOn (attentionScores ops q headDim qh reads scores).1
        (attentionScores ops q' headDim qh reads scores').1 (readTimes reads) ∧
      (attentionScores ops q headDim qh reads scores).2 =
        (attentionScores ops q' headDim qh reads scores').2 := by
  have hrow : ∀ r ∈ reads, rowScore ops q headDim qh r = rowScore ops q' headDim qh r := by
    intro r hr
    have hlen := (hrows r hr).1
    unfold rowScore
    congr 1
    apply List.foldl_ext
    rintro s ⟨c, d⟩ hcd
    have hd := List.snd_lt_of_mem_zipIdx hcd
    dsimp only
    rw [hq ⟨by omega, by omega⟩]
  have hcongr : attentionScores ops q headDim qh reads scores =
      attentionScores ops q' headDim qh reads scores := by
    rw [attentionScores_eq_store, attentionScores_eq_store]
    apply List.foldl_ext
    intro s r hr
    simp only [store, hrow r hr]
  have hstore := @foldl_store_eqOn Nat F (KvRead F) F _ KvRead.t
    (fun _ r => rowScore ops q' headDim qh r)
    (fun best r => if ops.lt best (rowScore ops q' headDim qh r) then
      rowScore ops q' headDim qh r else best)
    reads ∅ scores scores' ops.lowest (Set.eqOn_empty _ _)
  rw [Set.empty_union, ← attentionScores_eq_store, ← attentionScores_eq_store] at hstore
  rw [hcongr]
  exact hstore

/-- One round of the first pass of the softmax. -/
def expRound (ops : FloatOps F D) (best : F) (s : (Nat → F) × F) (r : KvRead F) :
    (Nat → F) × F :=
  (Function.update s.1 r.t (ops.expf (ops.sub (s.1 r.t) best)),
    ops.add s.2 (ops.expf (ops.sub (s.1 r.t) best)))

theorem attentionSoftmax_eq (reads : List (KvRead F)) (scores : Nat → F) (best : F) :
    attentionSoftmax ops reads scores best =
      reads.foldl (fun acc r => Function.update acc r.t (ops.mul (acc r.t)
        (ops.div ops.one (reads.foldl (expRound ops best) (scores, ops.zero)).2)))
        (reads.foldl (expRound ops best) (scores, ops.zero)).1 := rfl

/-- The softmax reads and writes scores of the rows that are read. -/
theorem attentionSoftmax_eqOn {reads : List (KvRead F)} {scores scores' : Nat → F} {best : F}
    (h : Set.EqOn scores scores' (readTimes reads)) :
    Set.EqOn (attentionSoftmax ops reads scores best) (attentionSoftmax ops reads scores' best)
      (readTimes reads) := by
  obtain ⟨hexp, hsum⟩ := @foldl_pair_eqOn Nat F (KvRead F) F (expRound ops best)
    (expRound ops best) reads (readTimes reads) scores scores' ops.zero h (by
      intro r hr f g sum hfg
      have ht : r.t ∈ readTimes reads := ⟨r, hr, rfl⟩
      unfold expRound
      dsimp only
      rw [hfg ht]
      exact ⟨(update_eqOn hfg _ _).mono (Set.subset_insert _ _), rfl⟩)
  rw [attentionSoftmax_eq, attentionSoftmax_eq]
  rw [hsum]
  apply foldl_eqOn hexp
  intro r hr f g hfg
  have ht : r.t ∈ readTimes reads := ⟨r, hr, rfl⟩
  rw [hfg ht]
  exact (update_eqOn hfg _ _).mono (Set.subset_insert _ _)

/-- The output of a head is written from the start. -/
theorem attentionOutput_eqOn {out out' : Nat → F} {headDim qh : Nat} {reads : List (KvRead F)}
    {scores scores' : Nat → F} {S : Set Nat} (hrows : HeadRows headDim reads)
    (hout : Set.EqOn out out' S) (hscores : Set.EqOn scores scores' (readTimes reads)) :
    Set.EqOn (attentionOutput ops out headDim qh reads scores)
      (attentionOutput ops out' headDim qh reads scores')
      (S ∪ Set.Ico (qh * headDim) (qh * headDim + headDim)) := by
  unfold attentionOutput
  apply foldl_eqOn
  · intro i hi
    dsimp only
    by_cases hhead : qh * headDim ≤ i ∧ i < qh * headDim + headDim
    · rw [if_pos hhead, if_pos hhead]
    · rw [if_neg hhead, if_neg hhead]
      exact hout (hi.resolve_right hhead)
  · intro r hr f g hfg
    apply foldl_eqOn hfg
    rintro ⟨c, d⟩ hcd f g hfg
    have hd := List.snd_lt_of_mem_zipIdx hcd
    have hlen := (hrows r hr).2
    have hcell : qh * headDim + d ∈ S ∪ Set.Ico (qh * headDim) (qh * headDim + headDim) :=
      Or.inr ⟨by omega, by omega⟩
    dsimp only
    rw [hfg hcell, hscores ⟨r, hr, rfl⟩]
    refine (update_eqOn hfg _ _).mono (Set.subset_insert _ _)

theorem attentionHead_eqOn {q q' out out' scores scores' : Nat → F} {headDim qh : Nat}
    {reads : List (KvRead F)} {S : Set Nat} (hrows : HeadRows headDim reads)
    (hq : Set.EqOn q q' (Set.Ico (qh * headDim) (qh * headDim + headDim)))
    (hout : Set.EqOn out out' S) :
    Set.EqOn (attentionHead ops q headDim qh reads out scores).1
      (attentionHead ops q' headDim qh reads out' scores').1
      (S ∪ Set.Ico (qh * headDim) (qh * headDim + headDim)) := by
  obtain ⟨hscores, hbest⟩ := @attentionScores_eqOn F D ops q q' headDim qh reads hrows hq scores
    scores'
  unfold attentionHead
  dsimp only
  rw [hbest]
  exact attentionOutput_eqOn hrows hout (attentionSoftmax_eqOn hscores)

/-- One round of the search for the largest entry. -/
def argmaxRound (ops : FloatOps F D) (x : Nat → F) (s : Nat × F) (i : Nat) : Nat × F :=
  if ops.lt s.2 (x (i + 1)) then (i + 1, x (i + 1)) else s

theorem refArgmax_eq (x : Nat → F) (vocabSize : Nat) :
    refArgmax ops x vocabSize =
      ((List.range (vocabSize - 1)).foldl (argmaxRound ops x) (0, x 0)).1 := rfl

theorem refArgmax_congr {x x' : Nat → F} {vocabSize : Nat} (hvocab : 0 < vocabSize)
    (hx : Set.EqOn x x' (Set.Iio vocabSize)) :
    refArgmax ops x vocabSize = refArgmax ops x' vocabSize := by
  have hround : ∀ s : Nat × F, (List.range (vocabSize - 1)).foldl (argmaxRound ops x) s =
      (List.range (vocabSize - 1)).foldl (argmaxRound ops x') s := by
    intro s
    apply List.foldl_ext
    intro s i hi
    have hlt := List.mem_range.mp hi
    have hcell : x (i + 1) = x' (i + 1) := hx (show i + 1 < vocabSize by omega)
    unfold argmaxRound
    rw [hcell]
  rw [refArgmax_eq, refArgmax_eq, hround, hx hvocab]

variable {cache cache' k v k' v' : Nat → KvCell F} {numQ numKv headDim kvLen : Nat}

/-- The row that is read for a position and a head lies in the rows up to that position. -/
theorem cacheRowOffset_lt {t kvh d rows : Nat} (ht : t < rows) (hkvh : kvh < numKv)
    (hd : d < headDim) : cacheRowOffset numKv headDim t kvh + d < rows * (numKv * headDim) := by
  have hmod := Nat.mod_le (t * numKv + kvh) uint32Size
  have hrow := @row_end_le numKv t rows ht
  have hle : (t * numKv + kvh) % uint32Size * headDim + headDim ≤ rows * numKv * headDim :=
    row_end_le (by omega)
  rw [Nat.mul_assoc] at hle
  unfold cacheRowOffset
  omega

theorem readCacheRow_congr {t kvh rows : Nat}
    (h : Set.EqOn cache cache' (Set.Iio (rows * (numKv * headDim)))) (ht : t < rows)
    (hkvh : kvh < numKv) :
    readCacheRow cache numKv headDim t kvh = readCacheRow cache' numKv headDim t kvh := by
  apply List.map_congr_left
  intro d hd
  exact h (cacheRowOffset_lt ht hkvh (List.mem_range.mp hd))

theorem headReads_congr {qh : Nat}
    (hk : Set.EqOn k k' (Set.Iio (kvLen * (numKv * headDim))))
    (hv : Set.EqOn v v' (Set.Iio (kvLen * (numKv * headDim))))
    (hhead : qh / (numQ / numKv) < numKv) :
    headReads k v numQ numKv headDim kvLen qh = headReads k' v' numQ numKv headDim kvLen qh := by
  apply List.map_congr_left
  intro t ht
  have hlt := List.mem_range.mp ht
  rw [readCacheRow_congr hk hlt hhead, readCacheRow_congr hv hlt hhead]

theorem headReads_rows (qh : Nat) :
    HeadRows headDim (headReads k v numQ numKv headDim kvLen qh) := by
  intro r hr
  obtain ⟨t, -, rfl⟩ := List.mem_map.mp hr
  simp [readCacheRow]

/-- One head of an attention call. -/
def attentionRound (ops : FloatOps F D) (q : Nat → F) (k v : Nat → KvCell F)
    (numQ numKv headDim kvLen : Nat) (s : (Nat → F) × (Nat → F)) (qh : Nat) :
    (Nat → F) × (Nat → F) :=
  attentionHead ops q headDim qh (headReads k v numQ numKv headDim kvLen qh) s.1 s.2

theorem refAttention_eq {q out scores : Nat → F} (hkv : 0 < numKv) (hle : numKv ≤ numQ) :
    refAttention ops q k v out numQ numKv headDim kvLen scores =
      let s := (List.range numQ).foldl (attentionRound ops q k v numQ numKv headDim kvLen)
        (out, scores)
      some (s.1, s.2, attentionReads k v numQ numKv headDim kvLen) := by
  have hdiv := Nat.div_pos hle hkv
  unfold refAttention
  rw [if_neg (by omega), if_neg (by omega)]
  rfl

/-- After some heads the outputs agree on these heads. -/
theorem attentionRounds_eqOn {q q' out out' scores scores' : Nat → F}
    (hheads : ∀ qh < numQ, qh / (numQ / numKv) < numKv)
    (hqs : Set.EqOn q q' (Set.Iio (numQ * headDim)))
    (hk : Set.EqOn k k' (Set.Iio (kvLen * (numKv * headDim))))
    (hv : Set.EqOn v v' (Set.Iio (kvLen * (numKv * headDim)))) {n : Nat} (hn : n ≤ numQ) :
    Set.EqOn
      ((List.range n).foldl (attentionRound ops q k v numQ numKv headDim kvLen) (out, scores)).1
      ((List.range n).foldl (attentionRound ops q' k' v' numQ numKv headDim kvLen)
        (out', scores')).1 (Set.Iio (n * headDim)) := by
  induction n with
  | zero =>
      intro i hi
      simp at hi
  | succ n ih =>
      have hend := @row_end_le headDim n numQ hn
      have hsame := @headReads_congr F k v k' v' numQ numKv headDim kvLen n hk hv (hheads n hn)
      rw [List.range_succ, List.foldl_append, List.foldl_append]
      simp only [List.foldl_cons, List.foldl_nil]
      rw [attentionRound, attentionRound, ← hsame]
      refine (attentionHead_eqOn (headReads_rows n)
        (hqs.mono fun i hi => lt_of_lt_of_le hi.2 hend) (ih (by omega))).mono ?_
      intro i hi
      have hlt : i < (n + 1) * headDim := hi
      rw [Nat.succ_mul] at hlt
      by_cases hin : i < n * headDim
      · exact Or.inl hin
      · exact Or.inr ⟨by omega, hlt⟩

/-- Attention over caches that agree on the rows up to its position reads the same rows and
leaves outputs that agree on all heads. -/
theorem refAttention_eqOn {q q' out out' scores scores' : Nat → F} (hkv : 0 < numKv)
    (hq : 0 < numQ) (hdvd : numKv ∣ numQ) (hqs : Set.EqOn q q' (Set.Iio (numQ * headDim)))
    (hk : Set.EqOn k k' (Set.Iio (kvLen * (numKv * headDim))))
    (hv : Set.EqOn v v' (Set.Iio (kvLen * (numKv * headDim)))) :
    ∃ o o' w w',
      refAttention ops q k v out numQ numKv headDim kvLen scores =
        some (o, w, attentionReads k v numQ numKv headDim kvLen) ∧
      refAttention ops q' k' v' out' numQ numKv headDim kvLen scores' =
        some (o', w', attentionReads k v numQ numKv headDim kvLen) ∧
      Set.EqOn o o' (Set.Iio (numQ * headDim)) := by
  have hle := Nat.le_of_dvd hq hdvd
  have hheads := (selected_head_lt_iff hkv hle).mpr hdvd
  have hreads : attentionReads k v numQ numKv headDim kvLen =
      attentionReads k' v' numQ numKv headDim kvLen := by
    apply List.flatMap_congr
    intro qh hqh
    exact headReads_congr hk hv (hheads qh (List.mem_range.mp hqh))
  have hall := @attentionRounds_eqOn F D ops k v k' v' numQ numKv headDim kvLen q q' out out'
    scores scores' hheads hqs hk hv numQ le_rfl
  have hrun := @refAttention_eq F D ops k' v' numQ numKv headDim kvLen q' out' scores' hkv hle
  rw [← hreads] at hrun
  exact ⟨_, _, _, _, refAttention_eq hkv hle, hrun, hall⟩

end Kernels

section Layer

variable {F D : Type} {ops : FloatOps F D} {ctx : GptOssContext F}

/-- The geometry of a context whose key heads divide its query heads: no product of two of its
sizes wraps. -/
structure GptOssContext.Divides (ctx : GptOssContext F) : Prop where
  kv_pos : 0 < ctx.numKvHeads
  q_pos : 0 < ctx.numQHeads
  dvd : ctx.numKvHeads ∣ ctx.numQHeads
  heads_le : ctx.numQHeads * ctx.headDim ≤ ctx.hiddenSize
  hidden_lt : ctx.hiddenSize < uint32Size

theorem GptOssContext.Divides.query (h : ctx.Divides) :
    ctx.numQHeads * ctx.headDim % uint32Size = ctx.numQHeads * ctx.headDim :=
  Nat.mod_eq_of_lt (lt_of_le_of_lt h.heads_le h.hidden_lt)

theorem GptOssContext.Divides.row_lt (h : ctx.Divides) : ctx.rowLen < uint32Size := by
  have hle : ctx.rowLen ≤ ctx.numQHeads * ctx.headDim :=
    Nat.mul_le_mul_right _ (Nat.le_of_dvd h.q_pos h.dvd)
  exact lt_of_le_of_lt (hle.trans h.heads_le) h.hidden_lt

theorem GptOssContext.Divides.row (h : ctx.Divides) :
    ctx.numKvHeads * ctx.headDim % uint32Size = ctx.rowLen := Nat.mod_eq_of_lt h.row_lt

/-- The runs agree on the rows of so many positions, and each cell of them was written. -/
structure SameRows (ctx : GptOssContext F) (rows : Nat) (s s' : ForwardState F) : Prop where
  kCache : Set.EqOn s.kCache s'.kCache (Set.Iio (rows * ctx.rowLen))
  vCache : Set.EqOn s.vCache s'.vCache (Set.Iio (rows * ctx.rowLen))
  kWritten : ∀ a < rows * ctx.rowLen, (s.kCache a).writer.isSome
  vWritten : ∀ a < rows * ctx.rowLen, (s.vCache a).writer.isSome

/-- Every cell that attention has read was written before. -/
def AllWritten (log : List (Attention F)) : Prop :=
  ∀ e ∈ log, ∀ r ∈ e.reads, ∀ c ∈ r.key ++ r.value, c.writer.isSome

/-- A row of which the runs agree adds to the rows on which they agree. -/
theorem storeRow_eqOn {cache cache' : Nat → KvCell F} {row row' : Nat → F} {rowLen layer pos : Nat}
    (h : Set.EqOn cache cache' (Set.Iio (pos * rowLen)))
    (hrow : Set.EqOn row row' (Set.Iio rowLen)) :
    Set.EqOn (storeRow cache (pos * rowLen) rowLen layer pos row)
      (storeRow cache' (pos * rowLen) rowLen layer pos row') (Set.Iio ((pos + 1) * rowLen)) := by
  intro a ha
  have hlt : a < (pos + 1) * rowLen := ha
  rw [Nat.succ_mul] at hlt
  unfold storeRow
  by_cases hin : pos * rowLen ≤ a ∧ a < pos * rowLen + rowLen
  · have hindex : a - pos * rowLen < rowLen := by omega
    rw [if_pos hin, if_pos hin, hrow hindex]
  · have hbefore : a < pos * rowLen := by omega
    rw [if_neg hin, if_neg hin, h hbefore]

theorem layerProject_eqOn (h : ctx.Divides) (lw : LayerWeights (Nat → F)) (pos : Nat)
    {b b' : ScratchBuffers F}
    (hb : Set.EqOn b.scratchA b'.scratchA (Set.Iio ctx.hiddenSize)) :
    Set.EqOn (layerProject ops ctx lw pos b).attnQ (layerProject ops ctx lw pos b').attnQ
        (Set.Iio (ctx.numQHeads * ctx.headDim)) ∧
      Set.EqOn (layerProject ops ctx lw pos b).attnK (layerProject ops ctx lw pos b').attnK
        (Set.Iio ctx.rowLen) ∧
      Set.EqOn (layerProject ops ctx lw pos b).attnV (layerProject ops ctx lw pos b').attnV
        (Set.Iio ctx.rowLen) := by
  have hnorm := @refRmsnorm_eqOn F D ops b.scratchA b'.scratchA lw.inputNorm b.scratchB b'.scratchB
    ctx.hiddenSize ctx.rmsNormEps hb
  simp only [layerProject, h.query, h.row]
  exact ⟨ropeHeads_eqOn (refLinear_eqOn hnorm), ropeHeads_eqOn (refLinear_eqOn hnorm),
    refLinear_eqOn hnorm⟩

theorem layerFinish_eqOn (h : ctx.Divides) (lw : LayerWeights (Nat → F))
    {b b' : ScratchBuffers F}
    (hb : Set.EqOn b.scratchA b'.scratchA (Set.Iio ctx.hiddenSize))
    (hattn : Set.EqOn b.attnOut b'.attnOut (Set.Iio (ctx.numQHeads * ctx.headDim))) :
    Set.EqOn (layerFinish ops ctx lw b).scratchA (layerFinish ops ctx lw b').scratchA
      (Set.Iio ctx.hiddenSize) := by
  simp only [layerFinish, h.query]
  have hadd : ∀ {x x' y y' : Nat → F}, Set.EqOn x x' (Set.Iio ctx.hiddenSize) →
      Set.EqOn y y' (Set.Iio ctx.hiddenSize) →
      Set.EqOn (fill x ctx.hiddenSize fun i => ops.add (x i) (y i))
        (fill x' ctx.hiddenSize fun i => ops.add (x' i) (y' i)) (Set.Iio ctx.hiddenSize) := by
    intro x x' y y' hx hy
    apply fill_eqOn
    intro i hi
    rw [hx hi, hy hi]
  have hmid := hadd hb (@refLinear_eqOn F D ops _ _ lw.oProj b.scratchB b'.scratchB ctx.hiddenSize
    _ hattn)
  apply hadd hmid
  apply refLinear_eqOn
  apply fill_eqOn
  intro i hi
  have hnorm := @refRmsnorm_eqOn F D ops _ _ lw.postNorm
    (refLinear ops b.attnOut lw.oProj b.scratchB ctx.hiddenSize (ctx.numQHeads * ctx.headDim))
    (refLinear ops b'.attnOut lw.oProj b'.scratchB ctx.hiddenSize (ctx.numQHeads * ctx.headDim))
    ctx.hiddenSize ctx.rmsNormEps hmid
  have hgate := @refLinear_eqOn F D ops _ _ lw.gateProj b.scratchC b'.scratchC
    ctx.intermediateSize _ hnorm
  have hup := @refLinear_eqOn F D ops _ _ lw.upProj b.scratchD b'.scratchD
    ctx.intermediateSize _ hnorm
  rw [hgate hi, hup hi]

theorem storeRow_written {cache : Nat → KvCell F} {row : Nat → F} {rowLen layer pos : Nat}
    (h : ∀ a < pos * rowLen, (cache a).writer.isSome) :
    ∀ a < (pos + 1) * rowLen,
      (storeRow cache (pos * rowLen) rowLen layer pos row a).writer.isSome := by
  intro a ha
  rw [Nat.succ_mul] at ha
  unfold storeRow
  by_cases hin : pos * rowLen ≤ a ∧ a < pos * rowLen + rowLen
  · rw [if_pos hin]
    rfl
  · rw [if_neg hin]
    exact h a (by omega)

/-- What is read from rows that were written was written. -/
theorem attentionReads_written {k v : Nat → KvCell F} {kvLen : Nat} (h : ctx.Divides)
    (hk : ∀ a < kvLen * ctx.rowLen, (k a).writer.isSome)
    (hv : ∀ a < kvLen * ctx.rowLen, (v a).writer.isSome) :
    ∀ r ∈ attentionReads k v ctx.numQHeads ctx.numKvHeads ctx.headDim kvLen,
      ∀ c ∈ r.key ++ r.value, c.writer.isSome := by
  intro r hr c hc
  obtain ⟨hqh, ht, hkey, hvalue⟩ := mem_attentionReads.mp hr
  have hle := Nat.le_of_dvd h.q_pos h.dvd
  have hhead := (selected_head_lt_iff h.kv_pos hle).mpr h.dvd _ hqh
  rcases List.mem_append.mp hc with hc | hc
  · rw [hkey] at hc
    obtain ⟨d, hd, rfl⟩ := List.mem_map.mp hc
    exact hk _ (cacheRowOffset_lt ht hhead (List.mem_range.mp hd))
  · rw [hvalue] at hc
    obtain ⟨d, hd, rfl⟩ := List.mem_map.mp hc
    exact hv _ (cacheRowOffset_lt ht hhead (List.mem_range.mp hd))

theorem SameRows.mono {rows rows' : Nat} {s s' : ForwardState F} (h : SameRows ctx rows s s')
    (hle : rows' ≤ rows) : SameRows ctx rows' s s' := by
  have hmul : rows' * ctx.rowLen ≤ rows * ctx.rowLen := Nat.mul_le_mul_right _ hle
  refine ⟨h.kCache.mono ?_, h.vCache.mono ?_, ?_, ?_⟩
  · exact Set.Iio_subset_Iio hmul
  · exact Set.Iio_subset_Iio hmul
  · exact fun a ha => h.kWritten a (by omega)
  · exact fun a ha => h.vWritten a (by omega)

/-- The runs agree on the hidden vector. -/
def SameHidden (ctx : GptOssContext F) (s s' : ForwardState F) : Prop :=
  Set.EqOn s.bufs.scratchA s'.bufs.scratchA (Set.Iio ctx.hiddenSize)

/-- A layer ends in the same way in both runs. When it ends well the runs agree on the row of
the position too, and it has read nothing that was not written. -/
theorem forwardLayer_agrees (h : ctx.Divides) {pos : Nat}
    (hpos : pos < uint32Size) (layer : Nat) {s s' : ForwardState F} (hs : SameRows ctx pos s s')
    (hx : SameHidden ctx s s') :
    (∃ f, forwardLayer ops ctx pos (pos + 1) s layer = some (s, .error f) ∧
      forwardLayer ops ctx pos (pos + 1) s' layer = some (s', .error f)) ∨
    ∃ t t', forwardLayer ops ctx pos (pos + 1) s layer = some (t, .ok ()) ∧
      forwardLayer ops ctx pos (pos + 1) s' layer = some (t', .ok ()) ∧
      SameRows ctx (pos + 1) t t' ∧ SameHidden ctx t t' ∧
      (AllWritten s.attended → AllWritten t.attended) := by
  obtain ⟨hoffset, hcount⟩ := kvOffsets_eq h.row_lt hpos
  unfold forwardLayer
  cases (ctx.layers.getD layer (LayerWeights.zero (Nat → F))).cdata with
  | none => exact Or.inl ⟨_, rfl, rfl⟩
  | some lw =>
      right
      obtain ⟨hq, hk, hv⟩ := @layerProject_eqOn F D ops ctx h lw pos s.bufs s'.bufs hx
      have hkCache := @storeRow_eqOn F _ _ _ _ _ layer pos hs.kCache hk
      have hvCache := @storeRow_eqOn F _ _ _ _ _ layer pos hs.vCache hv
      obtain ⟨o, o', w, w', hrun, hrun', ho⟩ := @refAttention_eqOn F D ops _ _ _ _ ctx.numQHeads
        ctx.numKvHeads ctx.headDim (pos + 1) _ _ (layerProject ops ctx lw pos s.bufs).attnOut
        (layerProject ops ctx lw pos s'.bufs).attnOut (layerProject ops ctx lw pos s.bufs).scores
        (layerProject ops ctx lw pos s'.bufs).scores h.kv_pos h.q_pos h.dvd hq hkCache hvCache
      have hkWritten := @storeRow_written F s.kCache
        (layerProject ops ctx lw pos s.bufs).attnK ctx.rowLen layer pos hs.kWritten
      have hvWritten := @storeRow_written F s.vCache
        (layerProject ops ctx lw pos s.bufs).attnV ctx.rowLen layer pos hs.vWritten
      dsimp only
      rw [hoffset, hcount, hrun, hrun']
      refine ⟨_, _, rfl, rfl, ⟨hkCache, hvCache, hkWritten, hvWritten⟩, ?_, ?_⟩
      · exact layerFinish_eqOn h lw hx ho
      · intro hlog e he
        rcases List.mem_append.mp he with he | he
        · exact hlog e he
        · obtain rfl := List.mem_singleton.mp he
          exact attentionReads_written h hkWritten hvWritten

/-- The rows that a list of layers leaves. -/
def rowsAfter (layers : List Nat) (pos rows : Nat) : Nat := if layers = [] then rows else pos + 1

/-- The loop over the layers ends in the same way in both runs. -/
theorem forwardLayers_agrees (h : ctx.Divides) {pos : Nat} (hpos : pos < uint32Size)
    (layers : List Nat) {rows : Nat} {s s' : ForwardState F} (hs : SameRows ctx rows s s')
    (hrows : layers = [] ∨ pos ≤ rows) (hx : SameHidden ctx s s') :
    ∃ t t' r, forwardLayers ops ctx pos (pos + 1) layers s = some (t, r) ∧
      forwardLayers ops ctx pos (pos + 1) layers s' = some (t', r) ∧
      (AllWritten s.attended → AllWritten t.attended) ∧
      (r = .ok () → SameRows ctx (rowsAfter layers pos rows) t t' ∧ SameHidden ctx t t') := by
  induction layers generalizing rows s s' with
  | nil => exact ⟨s, s', .ok (), rfl, rfl, id, fun _ => ⟨hs, hx⟩⟩
  | cons layer layers ih =>
      have hle := hrows.resolve_left (List.cons_ne_nil layer layers)
      rcases @forwardLayer_agrees F D ops ctx h pos hpos layer s s' (hs.mono hle) hx with
        ⟨f, hrun, hrun'⟩ | ⟨t, t', hrun, hrun', ht, hxt, hlog⟩
      · refine ⟨s, s', .error f, ?_, ?_, id, fun hok => by cases hok⟩
        · simp [forwardLayers, hrun]
        · simp [forwardLayers, hrun']
      · obtain ⟨u, u', r, hu, hu', hulog, hagree⟩ := ih ht (Or.inr (Nat.le_succ pos)) hxt
        refine ⟨u, u', r, ?_, ?_, fun hw => hulog (hlog hw), ?_⟩
        · simp [forwardLayers, hrun, hu]
        · simp [forwardLayers, hrun', hu']
        · intro hok
          have hsame : rowsAfter layers pos (pos + 1) = pos + 1 := by simp [rowsAfter]
          rw [hsame] at hagree
          exact hagree hok

/-- Norm, head and choice of the token look at the hidden vector alone. -/
theorem forwardFinish_agrees {rows : Nat} (hvocab : 0 < ctx.vocabSize) {s s' : ForwardState F}
    (hs : SameRows ctx rows s s') (hx : SameHidden ctx s s') :
    ∃ t t' r, forwardFinish ops ctx s = (t, r) ∧ forwardFinish ops ctx s' = (t', r) ∧
      t.attended = s.attended ∧ SameRows ctx rows t t' := by
  unfold forwardFinish
  cases ctx.finalNorm with
  | none => exact ⟨_, _, _, rfl, rfl, rfl, hs⟩
  | some norm =>
      cases ctx.lmHead with
      | none => exact ⟨_, _, _, rfl, rfl, rfl, ⟨hs.kCache, hs.vCache, hs.kWritten, hs.vWritten⟩⟩
      | some head =>
          have hlogits := @refLinear_eqOn F D ops _ _ head s.bufs.logits s'.bufs.logits
            ctx.vocabSize _ (@refRmsnorm_eqOn F D ops _ _ norm s.bufs.scratchB s'.bufs.scratchB
              ctx.hiddenSize ctx.rmsNormEps hx)
          have hsame := @refArgmax_congr F D ops _ _ _ hvocab hlogits
          dsimp only
          rw [hsame]
          exact ⟨_, _, _, rfl, rfl, rfl, ⟨hs.kCache, hs.vCache, hs.kWritten, hs.vWritten⟩⟩

/-- The same token, with a block for the scores in both calls or in none. -/
structure ForwardCall.Alike (call call' : ForwardCall F) : Prop where
  tokenId : call.tokenId = call'.tokenId
  scores : call.scores.isSome = call'.scores.isSome

/-- The rows that are in the cache before a position. -/
def rowsAt (ctx : GptOssContext F) (pos : Nat) : Nat := if ctx.numLayers = 0 then 0 else pos

theorem rowsAfter_range (ctx : GptOssContext F) (pos : Nat) :
    rowsAfter (List.range ctx.numLayers) pos (rowsAt ctx pos) = rowsAt ctx (pos + 1) := by
  unfold rowsAfter rowsAt
  by_cases hzero : ctx.numLayers = 0
  · simp [hzero]
  · simp [hzero, List.range_eq_nil]

/-- The layers of a call and what follows them. -/
def forwardBody (ops : FloatOps F D) (ctx : GptOssContext F) (pos : Nat) (s : ForwardState F) :
    Option (ForwardState F × Result Nat) := do
  let (s, status) ← forwardLayers ops ctx pos (pos + 1) (List.range ctx.numLayers) s
  match status with
  | .error e => return (s, .error e)
  | .ok () => return forwardFinish ops ctx s

theorem forwardBody_agrees (h : ctx.Divides) {pos : Nat} (hpos : pos < uint32Size)
    (hvocab : 0 < ctx.vocabSize) {s s' : ForwardState F} (hs : SameRows ctx (rowsAt ctx pos) s s')
    (hx : SameHidden ctx s s') :
    ∃ t t' r, forwardBody ops ctx pos s = some (t, r) ∧ forwardBody ops ctx pos s' = some (t', r) ∧
      (AllWritten s.attended → AllWritten t.attended) ∧
      (∀ token, r = .ok token → SameRows ctx (rowsAt ctx (pos + 1)) t t') := by
  have hrows : List.range ctx.numLayers = [] ∨ pos ≤ rowsAt ctx pos := by
    unfold rowsAt
    by_cases hzero : ctx.numLayers = 0
    · simp [hzero]
    · simp [hzero]
  obtain ⟨t, t', r, hrun, hrun', hlog, hagree⟩ := @forwardLayers_agrees F D ops ctx h pos hpos
    (List.range ctx.numLayers) (rowsAt ctx pos) s s' hs hrows hx
  rw [rowsAfter_range] at hagree
  simp only [forwardBody, hrun, hrun', Option.bind_eq_bind, Option.bind_some]
  cases r with
  | error e => exact ⟨t, t', .error e, rfl, rfl, hlog, fun token hok => by cases hok⟩
  | ok done =>
      obtain ⟨ht, hxt⟩ := hagree rfl
      obtain ⟨u, u', r, hu, hu', hattended, hagree'⟩ := @forwardFinish_agrees F D ops ctx _ hvocab
        t t' ht hxt
      refine ⟨u, u', r, congrArg some hu, congrArg some hu', ?_, fun _ _ => hagree'⟩
      rw [hattended]
      exact hlog

/-- A call fails without a look at the state, or it is its body on a row of the embeddings. -/
theorem hbiAdapterGptOssForward_body (ops : FloatOps F D) (ctx : GptOssContext F) {pos : Nat}
    (hpos : pos + 1 < uint32Size) {call call' : ForwardCall F} (hcall : call.Alike call') :
    (∃ e, ∀ s, (∃ t, hbiAdapterGptOssForward ops ctx call pos s = some (t, .error e) ∧
        t.attended = s.attended) ∧
      ∃ t, hbiAdapterGptOssForward ops ctx call' pos s = some (t, .error e)) ∨
    0 < ctx.vocabSize ∧ ∃ (row : Nat → F) (scores scores' : Nat → F), ∀ s : ForwardState F,
      hbiAdapterGptOssForward ops ctx call pos s = forwardBody ops ctx pos
        { s with bufs := { s.bufs with
          scratchA := fill s.bufs.scratchA ctx.hiddenSize row, scores := scores } } ∧
      hbiAdapterGptOssForward ops ctx call' pos s = forwardBody ops ctx pos
        { s with bufs := { s.bufs with
          scratchA := fill s.bufs.scratchA ctx.hiddenSize row, scores := scores' } } := by
  have hkvLen : (pos + 1) % uint32Size = pos + 1 := Nat.mod_eq_of_lt hpos
  unfold hbiAdapterGptOssForward forwardBody
  rw [hkvLen, ← hcall.tokenId]
  by_cases hinit : ctx.initialized = false
  · simp only [if_pos hinit]
    exact Or.inl ⟨_, fun s => ⟨⟨s, rfl, rfl⟩, s, rfl⟩⟩
  simp only [if_neg hinit]
  by_cases htoken : call.tokenId ≥ ctx.vocabSize
  · simp only [if_pos htoken]
    exact Or.inl ⟨_, fun s => ⟨⟨s, rfl, rfl⟩, s, rfl⟩⟩
  simp only [if_neg htoken]
  cases ctx.embedTokens with
  | none => exact Or.inl ⟨_, fun s => ⟨⟨s, rfl, rfl⟩, s, rfl⟩⟩
  | some emb =>
      dsimp only
      cases hbiKvContextGetPage ctx.kvManager ctx.kvHandle 0 with
      | error e => exact Or.inl ⟨_, fun s => ⟨⟨_, rfl, rfl⟩, _, rfl⟩⟩
      | ok page =>
          have hsame := hcall.scores
          cases hscores : call.scores with
          | none =>
              rw [hscores] at hsame
              rw [Option.not_isSome_iff_eq_none.mp (Bool.eq_false_iff.mp hsame.symm)]
              exact Or.inl ⟨_, fun s => ⟨⟨_, rfl, rfl⟩, _, rfl⟩⟩
          | some scores =>
              rw [hscores] at hsame
              obtain ⟨scores', hsome⟩ := Option.isSome_iff_exists.mp hsame.symm
              rw [hsome]
              exact Or.inr ⟨by omega, _, scores, scores', fun s => ⟨rfl, rfl⟩⟩

/-- A call ends in the same way in both runs, with the same token if it returns one. -/
theorem hbiAdapterGptOssForward_agrees (h : ctx.Divides) {pos : Nat} (hpos : pos + 1 < uint32Size)
    {call call' : ForwardCall F} (hcall : call.Alike call') {s s' : ForwardState F}
    (hs : SameRows ctx (rowsAt ctx pos) s s') :
    ∃ t t' r, hbiAdapterGptOssForward ops ctx call pos s = some (t, r) ∧
      hbiAdapterGptOssForward ops ctx call' pos s' = some (t', r) ∧
      (AllWritten s.attended → AllWritten t.attended) ∧
      (∀ token, r = .ok token → SameRows ctx (rowsAt ctx (pos + 1)) t t') := by
  rcases @hbiAdapterGptOssForward_body F D ops ctx pos hpos call call' hcall with
    ⟨e, hfail⟩ | ⟨hvocab, row, scores, scores', hbody⟩
  · obtain ⟨⟨t, hrun, hattended⟩, -⟩ := hfail s
    obtain ⟨-, t', hrun'⟩ := hfail s'
    refine ⟨t, t', .error e, hrun, hrun', ?_, fun token hok => by cases hok⟩
    rw [hattended]
    exact id
  · rw [(hbody s).1, (hbody s').2]
    apply forwardBody_agrees h (by omega) hvocab
    · exact ⟨hs.kCache, hs.vCache, hs.kWritten, hs.vWritten⟩
    · exact fill_eqOn fun _ _ => rfl

/-- The statuses of the calls, up to the first one that fails. -/
def untilFailure : List (Result Nat) → List (Result Nat)
  | [] => []
  | .ok token :: rest => .ok token :: untilFailure rest
  | .error e :: _ => [.error e]

/-- Without a failure before its end the list is the whole one. -/
theorem untilFailure_of_ok {statuses : List (Result Nat)}
    (h : ∀ r ∈ untilFailure statuses, ∃ token, r = .ok token) :
    untilFailure statuses = statuses := by
  induction statuses with
  | nil => rfl
  | cons r rest ih =>
      cases r with
      | ok token =>
          rw [untilFailure] at h ⊢
          rw [ih fun r hr => h r (List.mem_cons_of_mem _ hr)]
      | error e =>
          obtain ⟨token, htoken⟩ := h (.error e) List.mem_cons_self
          cases htoken

theorem mem_of_mem_untilFailure {statuses : List (Result Nat)} {r : Result Nat}
    (h : r ∈ untilFailure statuses) : r ∈ statuses := by
  induction statuses with
  | nil => cases h
  | cons r' rest ih =>
      cases r' with
      | ok token =>
          rcases List.mem_cons.mp h with rfl | h
          · exact List.mem_cons_self
          · exact List.mem_cons_of_mem _ (ih h)
      | error e =>
          obtain rfl := List.mem_singleton.mp h
          exact List.mem_cons_self

theorem forwardCalls_defined (h : ctx.Divides) (pos : Nat) (calls : List (ForwardCall F))
    (s : ForwardState F) : ∃ res, forwardCalls ops ctx pos calls s = some res := by
  induction calls generalizing pos s with
  | nil => exact ⟨_, rfl⟩
  | cons call calls ih =>
      obtain ⟨⟨t, r⟩, hrun⟩ := @hbiAdapterGptOssForward_defined F D ops ctx
        ⟨h.kv_pos, Nat.le_of_dvd h.q_pos h.dvd⟩ call pos s
      obtain ⟨res, hrest⟩ := ih (pos + 1) t
      simp [forwardCalls, hrun, hrest]

theorem forwardCalls_ne_nil {pos : Nat} {call : ForwardCall F} {calls : List (ForwardCall F)}
    {s t : ForwardState F} {statuses : List (Result Nat)}
    (h : forwardCalls ops ctx pos (call :: calls) s = some (t, statuses)) : statuses ≠ [] := by
  simp only [forwardCalls, Option.bind_eq_bind, Option.bind_eq_some_iff, Prod.exists, pure,
    Option.some.injEq, Prod.mk.injEq] at h
  obtain ⟨_, r, -, _, rest, -, -, rfl⟩ := h
  exact List.cons_ne_nil r rest

/-- Two runs of the same calls, over rows on which they agree. -/
theorem forwardCalls_agrees (h : ctx.Divides) {pos : Nat} {calls calls' : List (ForwardCall F)}
    (hcalls : List.Forall₂ ForwardCall.Alike calls calls')
    (hlen : pos + calls.length < uint32Size) {s s' : ForwardState F}
    (hs : SameRows ctx (rowsAt ctx pos) s s') :
    ∃ t t' rs rs', forwardCalls ops ctx pos calls s = some (t, rs) ∧
      forwardCalls ops ctx pos calls' s' = some (t', rs') ∧ untilFailure rs = untilFailure rs' ∧
      (AllWritten s.attended → (∀ r ∈ rs.dropLast, ∃ token, r = .ok token) →
        AllWritten t.attended) := by
  induction hcalls generalizing pos s s' with
  | nil => exact ⟨s, s', [], [], rfl, rfl, rfl, fun hw _ => hw⟩
  | @cons call call' calls calls' hcall _ ih =>
      rw [List.length_cons] at hlen
      obtain ⟨t, t', r, hrun, hrun', hlog, hagree⟩ := @hbiAdapterGptOssForward_agrees F D ops ctx h
        pos (by omega) call call' hcall s s' hs
      cases r with
      | ok token =>
          obtain ⟨u, u', rs, rs', hu, hu', hsame, hulog⟩ := ih (by omega) (hagree token rfl)
          refine ⟨u, u', .ok token :: rs, .ok token :: rs', ?_, ?_, ?_, ?_⟩
          · simp [forwardCalls, hrun, hu]
          · simp [forwardCalls, hrun', hu']
          · rw [untilFailure, untilFailure, hsame]
          · intro hw hok
            apply hulog (hlog hw)
            intro r hr
            apply hok
            cases rs with
            | nil => cases hr
            | cons r' rs => exact List.mem_cons_of_mem _ hr
      | error e =>
          obtain ⟨⟨u, rs⟩, hu⟩ := @forwardCalls_defined F D ops ctx h (pos + 1) calls t
          obtain ⟨⟨u', rs'⟩, hu'⟩ := @forwardCalls_defined F D ops ctx h (pos + 1) calls' t'
          refine ⟨u, u', .error e :: rs, .error e :: rs', ?_, ?_, rfl, ?_⟩
          · simp [forwardCalls, hrun, hu]
          · simp [forwardCalls, hrun', hu']
          · intro hw hok
            cases calls with
            | nil =>
                cases hu
                exact hlog hw
            | cons next calls =>
                obtain ⟨r, rest, rfl⟩ := List.exists_cons_of_ne_nil (forwardCalls_ne_nil hu)
                obtain ⟨token, htoken⟩ := hok (.error e) List.mem_cons_self
                cases htoken

theorem sameRows_start (bufs bufs' : ScratchBuffers F) (k v k' v' : Nat → F) :
    SameRows ctx (rowsAt ctx 0) (ForwardState.start bufs k v) (ForwardState.start bufs' k' v') := by
  have hzero : rowsAt ctx 0 * ctx.rowLen = 0 := by simp [rowsAt]
  constructor
  · rw [hzero]
    exact fun a ha => absurd ha (Nat.not_lt_zero a)
  · rw [hzero]
    exact fun a ha => absurd ha (Nat.not_lt_zero a)
  · rw [hzero]
    exact fun a ha => absurd ha (Nat.not_lt_zero a)
  · rw [hzero]
    exact fun a ha => absurd ha (Nat.not_lt_zero a)

/-- The geometry of a new context, whatever weights are bound to it. -/
theorem gptOssCreateContext_divides {desc : ModelDescriptor} {eps theta : F}
    {blocks : GptOssBlocks} (hfits : desc.Fits)
    (hdvd : desc.numKvHeads ∣ desc.numAttentionHeads)
    (hcreate : gptOssCreateContext desc eps theta blocks = some (.ok ctx)) (slots : WeightSlots F) :
    (ctx.withSlots slots).Divides := by
  obtain ⟨page, -, hsized⟩ := gptOssCreateContext_sized hcreate
  have hq : 0 < desc.numAttentionHeads := by
    apply Nat.pos_of_ne_zero
    intro hzero
    have hdim := hsized.headDim_pos
    rw [hsized.headDim, hzero, Nat.div_zero] at hdim
    exact lt_irrefl 0 hdim
  constructor
  · change 0 < ctx.numKvHeads
    rw [hsized.numKvHeads]
    exact Nat.pos_of_dvd_of_pos hdvd hq
  · change 0 < ctx.numQHeads
    rw [hsized.numQHeads]
    exact hq
  · change ctx.numKvHeads ∣ ctx.numQHeads
    rw [hsized.numKvHeads, hsized.numQHeads]
    exact hdvd
  · change ctx.numQHeads * ctx.headDim ≤ ctx.hiddenSize
    rw [hsized.numQHeads, hsized.headDim, hsized.hiddenSize]
    exact Nat.mul_div_le _ _
  · change ctx.hiddenSize < uint32Size
    rw [hsized.hiddenSize]
    exact hfits.hidden

/-- For every context whose key heads divide its query heads, every weights and every sequence
of calls that fits the cache: two runs over different contents of the page, the buffers and the
blocks for the scores return the same, up to and with the first call that fails. When no call
fails they return the same throughout. Until a call has failed, attention has read no cell that
the run has not written. -/
theorem gpt_oss_forward_two_runs (ops : FloatOps F D) {desc : ModelDescriptor} {eps theta : F}
    {blocks : GptOssBlocks} (hfits : desc.Fits)
    (hdvd : desc.numKvHeads ∣ desc.numAttentionHeads)
    (hcreate : gptOssCreateContext desc eps theta blocks = some (.ok ctx)) (slots : WeightSlots F)
    {calls calls' : List (ForwardCall F)} (hcalls : List.Forall₂ ForwardCall.Alike calls calls')
    (hlen : calls.length ≤ desc.maxSeqLength) (bufs bufs' : ScratchBuffers F)
    (k v k' v' : Nat → F) :
    ∃ s s' rs rs',
      forwardCalls ops (ctx.withSlots slots) 0 calls (ForwardState.start bufs k v) =
        some (s, rs) ∧
      forwardCalls ops (ctx.withSlots slots) 0 calls' (ForwardState.start bufs' k' v') =
        some (s', rs') ∧
      untilFailure rs = untilFailure rs' ∧
      ((∀ r ∈ rs, ∃ token, r = .ok token) → rs = rs') ∧
      ((∀ r ∈ rs.dropLast, ∃ token, r = .ok token) → AllWritten s.attended) := by
  have hdivides := gptOssCreateContext_divides hfits hdvd hcreate slots
  have hseq := hfits.seqLength
  obtain ⟨s, s', rs, rs', hrun, hrun', hsame, hlog⟩ := @forwardCalls_agrees F D ops _ hdivides 0
    calls calls' hcalls (by omega) _ _ (sameRows_start bufs bufs' k v k' v')
  refine ⟨s, s', rs, rs', hrun, hrun', hsame, ?_, hlog ?_⟩
  · intro hok
    have hfirst : ∀ r ∈ untilFailure rs, ∃ token, r = .ok token :=
      fun r hr => hok r (mem_of_mem_untilFailure hr)
    have hsecond : ∀ r ∈ untilFailure rs', ∃ token, r = .ok token := hsame ▸ hfirst
    rw [untilFailure_of_ok hfirst, untilFailure_of_ok hsecond] at hsame
    exact hsame
  · intro e he
    cases he

end Layer

section Instances

theorem gpt_oss_forward_two_runs_small :
    ∃ ctx, gptOssCreateContext sharedDescriptor (0 : Int) 1 freeBlocks = some (.ok ctx) ∧
      ∃ s s' rs rs',
        forwardCalls intOps (ctx.withSlots countingSlots) 0 twoCalls zeroState = some (s, rs) ∧
        forwardCalls intOps (ctx.withSlots countingSlots) 0 twoCalls
          (ForwardState.start zeroBuffers (fun _ => 7) fun _ => 7) = some (s', rs') ∧
        untilFailure rs = untilFailure rs' := by
  obtain ⟨ctx, hcreate⟩ : ∃ ctx,
      gptOssCreateContext sharedDescriptor (0 : Int) 1 freeBlocks = some (.ok ctx) := ⟨_, rfl⟩
  have hcalls : List.Forall₂ ForwardCall.Alike twoCalls twoCalls :=
    .cons ⟨rfl, rfl⟩ (.cons ⟨rfl, rfl⟩ .nil)
  obtain ⟨s, s', rs, rs', hrun, hrun', hsame, -⟩ := gpt_oss_forward_two_runs intOps
    sharedDescriptor_fits (by decide) hcreate countingSlots hcalls (by decide) zeroBuffers
    zeroBuffers (fun _ => 0) (fun _ => 0) (fun _ => 7) fun _ => 7
  exact ⟨ctx, hcreate, s, s', rs, rs', hrun, hrun', hsame⟩

/-- Arithmetic under which attention adds up the values it reads. -/
def sumOps : FloatOps Int Int := { intOps with div := fun a _ => a, expf := fun _ => 1 }

/-- Weights that keep the hidden vector and tell by its sign which of two tokens is chosen. -/
def signSlots : WeightSlots Int :=
  WeightSlots.ofWeights unitView
    { embedTokens := fun _ => 0, finalNorm := fun _ => 1, lmHead := fun i => i
      layer := fun _ =>
        { qProj := fun _ => 1, kProj := fun _ => 1, vProj := fun _ => 1, oProj := fun _ => 1
          inputNorm := fun _ => 1, postNorm := fun _ => 1, gateProj := fun _ => 0
          upProj := fun _ => 0, downProj := fun _ => 0 } } 1

/-- A token that is not in the vocabulary, and one that is. -/
def refusedCalls : List (ForwardCall Int) := [⟨2, some fun _ => 0⟩, ⟨0, some fun _ => 0⟩]

/-- The tokens of a run over a page that holds one value everywhere. -/
def tokensOver (stale : Int) : Option (List (Option Nat)) :=
  match gptOssCreateContext ⟨1, 1, 1, 1, 1, 2, 2⟩ (0 : Int) 1 freeBlocks with
  | none | some (.error _) => none
  | some (.ok ctx) =>
      (forwardCalls sumOps (ctx.withSlots signSlots) 0 refusedCalls
        (ForwardState.start zeroBuffers (fun _ => stale) fun _ => stale)).map
          fun run => run.2.map Except.toOption

/-- The first call is refused and leaves its row as it was; the second one reads that row, and
its token depends on what the page held before. -/
theorem gpt_oss_forward_refused_token :
    (1 : Nat) ∣ 1 ∧ tokensOver 0 = some [none, some 0] ∧ tokensOver 1 = some [none, some 1] := by
  refine ⟨dvd_rfl, by decide +kernel, by decide +kernel⟩

end Instances

end Hummingbird

import Hummingbird.Adapter.Stale
import Hummingbird.Foundation.Sweeps

/-!
What the scalar kernels of the adapter compute, as functions of their arguments alone: every
component by its own formula, with the operations in the order of the loops. Attention is said of
a list of rows, one for each position, in the place of the page.
-/

namespace Hummingbird

open Sweeps

section Formulas

variable {F D : Type} (ops : FloatOps F D)

/-- The normalised vector. -/
def normed (x w : Nat → F) (n : Nat) (eps : F) (i : Nat) : F :=
  let ss := (List.range n).foldl
    (fun ss i => ops.dadd ss (ops.dmul (ops.toDouble (x i)) (ops.toDouble (x i)))) ops.dzero
  let rms := ops.ofDouble
    (ops.dsqrt (ops.dadd (ops.ddiv ss (ops.dofUint32 n)) (ops.toDouble eps)))
  ops.mul (ops.mul (x i) (ops.div ops.one rms)) (w i)

/-- A matrix with rows of `k` entries, applied to a vector. -/
def linear (x w : Nat → F) (k i : Nat) : F :=
  (List.range k).foldl (fun acc j => ops.add acc (ops.mul (x j) (w (i * k + j)))) ops.zero

/-- The angle of the `p`-th pair of a head. -/
def rotaryAngle (headDim pos : Nat) (theta : F) (p : Nat) : F :=
  ops.div (ops.ofUint32 pos)
    (ops.powf theta (ops.div (ops.ofUint32 (2 * p)) (ops.ofUint32 headDim)))

def turnFirst (headDim pos : Nat) (theta : F) (p : Nat) (x0 x1 : F) : F :=
  ops.sub (ops.mul x0 (ops.cosf (rotaryAngle ops headDim pos theta p)))
    (ops.mul x1 (ops.sinf (rotaryAngle ops headDim pos theta p)))

def turnSecond (headDim pos : Nat) (theta : F) (p : Nat) (x0 x1 : F) : F :=
  ops.add (ops.mul x0 (ops.sinf (rotaryAngle ops headDim pos theta p)))
    (ops.mul x1 (ops.cosf (rotaryAngle ops headDim pos theta p)))

/-- All heads turned by the angles of a position. -/
def rotated (x : Nat → F) (headDim pos : Nat) (theta : F) (i : Nat) : F :=
  let half := headDim / 2
  let j := i % headDim
  if j < half then turnFirst ops headDim pos theta j (x i) (x (i + half))
  else if j < 2 * half then turnSecond ops headDim pos theta (j - half) (x (i - half)) (x i)
  else x i

/-- The key and the value row of a position. -/
structure KvRow (F : Type) where
  k : Nat → F
  v : Nat → F

/-- The score of a row for a query head. -/
def score (q : Nat → F) (headDim qh kvh : Nat) (r : KvRow F) : F :=
  ops.mul ((List.range headDim).foldl (fun s d =>
      ops.add s (ops.mul (q (qh * headDim + d)) (r.k (kvh * headDim + d)))) ops.zero)
    (ops.div ops.one (ops.sqrtf (ops.ofUint32 headDim)))

/-- The largest of the scores and of the constant the search starts from. -/
def bestOf {R : Type} (rows : List R) (f : R → F) : F :=
  rows.foldl (fun best r => if ops.lt best (f r) then f r else best) ops.lowest

def sumOf {R : Type} (rows : List R) (f : R → F) : F :=
  rows.foldl (fun sum r => ops.add sum (f r)) ops.zero

/-- The weight of a row among all rows that are attended to. -/
def weightOf {R : Type} (rows : List R) (f : R → F) (r : R) : F :=
  let e := fun r => ops.expf (ops.sub (f r) (bestOf ops rows f))
  ops.mul (e r) (ops.div ops.one (sumOf ops rows e))

/-- The attention output over the rows of some positions. -/
def attended (q : Nat → F) (numQ numKv headDim : Nat) (rows : List (KvRow F)) (i : Nat) : F :=
  let qh := i / headDim
  let kvh := qh / (numQ / numKv)
  sumOf ops rows fun r => ops.mul (weightOf ops rows (score ops q headDim qh kvh) r)
    (r.v (kvh * headDim + i % headDim))

end Formulas

section Kernels

variable {F D : Type} {ops : FloatOps F D}

theorem refRmsnorm_formula {x x' w out : Nat → F} {n : Nat} {eps : F}
    (hx : Set.EqOn x x' (Set.Iio n)) :
    Set.EqOn (refRmsnorm ops x w out n eps) (normed ops x' w n eps) (Set.Iio n) := by
  intro i hi
  rw [@refRmsnorm_eqOn F D ops x x' w out out n eps hx i hi]
  exact if_pos hi

theorem refLinear_formula {x x' w out : Nat → F} {m k : Nat} (hx : Set.EqOn x x' (Set.Iio k)) :
    Set.EqOn (refLinear ops x w out m k) (linear ops x' w k) (Set.Iio m) := by
  intro i hi
  rw [@refLinear_eqOn F D ops x x' w out out m k hx i hi]
  exact if_pos hi

/-- The rotation of a head works on the pairs of its two halves. -/
theorem refRopeHead_eq_pairs (x : Nat → F) (base headDim pos : Nat) (theta : F) :
    refRopeHead ops x base headDim pos theta =
      pairs base (headDim / 2) (headDim / 2) (turnFirst ops headDim pos theta)
        (turnSecond ops headDim pos theta) x :=
  foldl_pairs base (headDim / 2) le_rfl (turnFirst ops headDim pos theta)
    (turnSecond ops headDim pos theta) x

/-- After some heads, these are turned and the rest of the array is as it was. -/
theorem ropeHeads_formula (x : Nat → F) (heads headDim pos : Nat) (theta : F) :
    (List.range heads).foldl (fun x h => refRopeHead ops x (h * headDim) headDim pos theta) x =
      fun i => if i < heads * headDim then rotated ops x headDim pos theta i else x i := by
  induction heads with
  | zero => simp
  | succ h ih =>
      rw [List.range_succ, List.foldl_append, ih]
      simp only [List.foldl_cons, List.foldl_nil]
      have hhalf : 2 * (headDim / 2) ≤ headDim := Nat.mul_div_le headDim 2
      rw [refRopeHead_eq_pairs]
      generalize hf : (fun i => if i < h * headDim then rotated ops x headDim pos theta i
        else x i) = f
      have hdone : ∀ i < h * headDim, f i = rotated ops x headDim pos theta i := by
        subst hf
        exact fun i hi => if_pos hi
      have hrest : ∀ i ≥ h * headDim, f i = x i := by
        subst hf
        exact fun i hi => if_neg (by omega)
      funext i
      rw [Nat.succ_mul]
      rcases Nat.lt_or_ge i (h * headDim) with hbefore | hge
      · rw [pairs_other (by omega) (by omega), if_pos (by omega), hdone i hbefore]
      rcases Nat.lt_or_ge i (h * headDim + headDim) with hlt | hafter
      · -- the head itself: the pairs of the loop are those of the place in the head
        have hmod : i % headDim = i - h * headDim := by
          obtain ⟨j, rfl⟩ := Nat.exists_eq_add_of_le hge
          rw [Nat.mul_add_mod_of_lt (by omega), Nat.add_sub_cancel_left]
        rw [if_pos hlt, rotated, hmod]
        rcases Nat.lt_or_ge (i - h * headDim) (headDim / 2) with hfirst | hsecond
        · rw [pairs_first (by omega), hrest i hge, hrest _ (by omega), if_pos hfirst]
        rcases Nat.lt_or_ge (i - h * headDim) (2 * (headDim / 2)) with hpair | hodd
        · rw [pairs_second le_rfl (by omega), hrest i hge, hrest _ (by omega),
            if_neg (by omega), if_pos hpair]
        · rw [pairs_other (by omega) (by omega), hrest i hge, if_neg (by omega),
            if_neg (by omega)]
      · rw [pairs_other (by omega) (by omega), hrest i hge, if_neg (by omega)]

/-! Attention. -/

theorem head_div {h headDim d : Nat} (hd : d < headDim) : (h * headDim + d) / headDim = h := by
  rw [Nat.mul_comm, Nat.mul_add_div (by omega), Nat.div_eq_of_lt hd, Nat.add_zero]

theorem zipIdx_map_range {α : Type} (f : Nat → α) (n : Nat) :
    ((List.range n).map f).zipIdx = (List.range n).map fun d => (f d, d) := by
  apply List.ext_getElem
  · simp
  · simp

variable {q out scores : Nat → F} {k v : Nat → KvCell F} {numQ numKv headDim kvLen qh : Nat}

/-- The score of a position for a query head. -/
def readScore (ops : FloatOps F D) (q : Nat → F) (k : Nat → KvCell F)
    (numQ numKv headDim qh t : Nat) : F :=
  ops.mul ((List.range headDim).foldl (fun s d => ops.add s (ops.mul (q (qh * headDim + d))
      (k (cacheRowOffset numKv headDim t (qh / (numQ / numKv)) + d)).value)) ops.zero)
    (ops.div ops.one (ops.sqrtf (ops.ofUint32 headDim)))

/-- The values that a head weighs. -/
def readValue (v : Nat → KvCell F) (numQ numKv headDim qh t d : Nat) : F :=
  (v (cacheRowOffset numKv headDim t (qh / (numQ / numKv)) + d)).value

theorem attentionScores_formula :
    attentionScores ops q headDim qh (headReads k v numQ numKv headDim kvLen qh) scores =
      (block 0 kvLen (fun t _ => readScore ops q k numQ numKv headDim qh t) scores,
        bestOf ops (List.range kvLen) (readScore ops q k numQ numKv headDim qh)) := by
  have hrow : ∀ t, rowScore ops q headDim qh
      { queryHead := qh, t := t, key := readCacheRow k numKv headDim t (qh / (numQ / numKv))
        value := readCacheRow v numKv headDim t (qh / (numQ / numKv)) } =
      readScore ops q k numQ numKv headDim qh t := by
    intro t
    rw [rowScore, readCacheRow, zipIdx_map_range, List.foldl_map]
    rfl
  have hloop := foldl_update 0 kvLen (fun t _ => readScore ops q k numQ numKv headDim qh t)
    (fun best _ s => if ops.lt best s then s else best) scores ops.lowest
  simp only [Nat.zero_add] at hloop
  rw [attentionScores_eq_store, headReads, List.foldl_map]
  simp only [TwoRuns.store, hrow]
  exact hloop

theorem attentionSoftmax_formula (sc scores : Nat → F) :
    attentionSoftmax ops (headReads k v numQ numKv headDim kvLen qh)
        (block 0 kvLen (fun t _ => sc t) scores) (bestOf ops (List.range kvLen) sc) =
      block 0 kvLen (fun t _ => weightOf ops (List.range kvLen) sc t) scores := by
  generalize hbest : bestOf ops (List.range kvLen) sc = best
  have hexp := foldl_update 0 kvLen (fun _ x => ops.expf (ops.sub x best))
    (fun sum _ e => ops.add sum e) (block 0 kvLen (fun t _ => sc t) scores) ops.zero
  have hsum : (List.range kvLen).foldl (fun sum t => ops.add sum (ops.expf (ops.sub
      (block 0 kvLen (fun t _ => sc t) scores (0 + t)) best))) ops.zero =
      sumOf ops (List.range kvLen) fun t => ops.expf (ops.sub (sc t) best) := by
    apply List.foldl_ext
    intro sum t ht
    rw [block_mem (List.mem_range.mp ht)]
  rw [hsum] at hexp
  have hmul := foldl_update_cells 0 kvLen (fun _ x => ops.mul x (ops.div ops.one
    (sumOf ops (List.range kvLen) fun t => ops.expf (ops.sub (sc t) best))))
    (block 0 kvLen (fun _ x => ops.expf (ops.sub x best)) (block 0 kvLen (fun t _ => sc t) scores))
  simp only [Nat.zero_add] at hexp hmul
  rw [attentionSoftmax_eq, headReads, List.foldl_map, List.foldl_map]
  simp only [expRound, hexp]
  refine hmul.trans ?_
  funext t
  by_cases ht : 0 ≤ t ∧ t < 0 + kvLen
  · simp only [block, if_pos ht, weightOf, hbest]
  · simp only [block, if_neg ht]

/-- The output of a head: in its own components the weighted values, elsewhere what was there. -/
theorem attentionOutput_formula (w : Nat → F) (i : Nat) :
    attentionOutput ops out headDim qh (headReads k v numQ numKv headDim kvLen qh)
        (block 0 kvLen (fun t _ => w t) scores) i =
      if qh * headDim ≤ i ∧ i < qh * headDim + headDim then
        sumOf ops (List.range kvLen) fun t => ops.mul (w t)
          (readValue v numQ numKv headDim qh t (i - qh * headDim))
      else out i := by
  unfold attentionOutput
  rw [headReads, List.foldl_map]
  have hround : ∀ f, ∀ t ∈ List.range kvLen,
      (readCacheRow v numKv headDim t (qh / (numQ / numKv))).zipIdx.foldl (fun out c =>
        Function.update out (qh * headDim + c.2) (ops.add (out (qh * headDim + c.2))
          (ops.mul (block 0 kvLen (fun t _ => w t) scores t) c.1.value))) f =
      block (qh * headDim) headDim (fun d x => ops.add x (ops.mul (w t)
        (readValue v numQ numKv headDim qh t d))) f := by
    intro f t ht
    have hw : block 0 kvLen (fun t _ => w t) scores t = w t := by
      have hmem := @block_mem F 0 kvLen (fun t _ => w t) scores t (List.mem_range.mp ht)
      rwa [Nat.zero_add] at hmem
    rw [readCacheRow, zipIdx_map_range, List.foldl_map, hw]
    exact foldl_update_cells (qh * headDim) headDim (fun d x => ops.add x (ops.mul (w t)
      (readValue v numQ numKv headDim qh t d))) f
  refine (congrFun (List.foldl_ext _ _ _ hround) i).trans ?_
  refine (foldl_cells (fun t i x => if qh * headDim ≤ i ∧ i < qh * headDim + headDim then
    ops.add x (ops.mul (w t) (readValue v numQ numKv headDim qh t (i - qh * headDim))) else x)
    (List.range kvLen) _ i).trans ?_
  by_cases hi : qh * headDim ≤ i ∧ i < qh * headDim + headDim
  · simp only [if_pos hi]
    rfl
  · simp only [if_neg hi, List.foldl_fixed]

/-- A round over a head. -/
theorem attentionHead_formula (i : Nat) :
    (attentionHead ops q headDim qh (headReads k v numQ numKv headDim kvLen qh) out scores).1 i =
      if qh * headDim ≤ i ∧ i < qh * headDim + headDim then
        sumOf ops (List.range kvLen) fun t => ops.mul
          (weightOf ops (List.range kvLen) (readScore ops q k numQ numKv headDim qh) t)
          (readValue v numQ numKv headDim qh t (i - qh * headDim))
      else out i := by
  unfold attentionHead
  rw [attentionScores_formula]
  dsimp only
  rw [attentionSoftmax_formula]
  exact attentionOutput_formula _ i

/-- After some heads, their components of the output hold the weighted values. -/
theorem attentionRounds_formula (n : Nat) (s : (Nat → F) × (Nat → F)) (i : Nat) :
    ((List.range n).foldl (attentionRound ops q k v numQ numKv headDim kvLen) s).1 i =
      if i < n * headDim then
        sumOf ops (List.range kvLen) fun t => ops.mul
          (weightOf ops (List.range kvLen)
            (readScore ops q k numQ numKv headDim (i / headDim)) t)
          (readValue v numQ numKv headDim (i / headDim) t (i % headDim))
      else s.1 i := by
  induction n with
  | zero => simp
  | succ n ih =>
      rw [List.range_succ, List.foldl_append]
      simp only [List.foldl_cons, List.foldl_nil]
      rw [attentionRound, attentionHead_formula, ih, Nat.succ_mul]
      by_cases hin : n * headDim ≤ i ∧ i < n * headDim + headDim
      · obtain ⟨j, rfl⟩ := Nat.exists_eq_add_of_le hin.1
        have hj : j < headDim := by omega
        rw [if_pos hin, if_pos hin.2, head_div hj, Nat.mul_add_mod_of_lt hj,
          Nat.add_sub_cancel_left]
      · rw [if_neg hin]
        by_cases hbefore : i < n * headDim
        · rw [if_pos hbefore, if_pos (by omega)]
        · rw [if_neg hbefore, if_neg (by omega)]

/-! Rows in the place of the page. -/

/-- The page holds the rows of the first positions. -/
structure HoldsRows (k v : Nat → KvCell F) (rowLen : Nat) (rows : List (KvRow F)) : Prop where
  key : ∀ t r, rows[t]? = some r → ∀ i < rowLen, (k (t * rowLen + i)).value = r.k i
  value : ∀ t r, rows[t]? = some r → ∀ i < rowLen, (v (t * rowLen + i)).value = r.v i

/-- Where the number of the row does not wrap, the part of a head is read from its row. -/
theorem cacheRowOffset_eq {t kvh : Nat} (ht : t < kvLen) (hkvh : kvh < numKv)
    (hrows : kvLen * numKv ≤ uint32Size) (d : Nat) :
    cacheRowOffset numKv headDim t kvh + d = t * (numKv * headDim) + (kvh * headDim + d) := by
  have hrow := @row_end_le numKv t kvLen ht
  rw [cacheRowOffset, Nat.mod_eq_of_lt (by omega), Nat.add_mul, Nat.mul_assoc, Nat.add_assoc]

section Folds

variable {R : Type} {rows : List R} {f g : R → F}

theorem bestOf_congr (h : ∀ r ∈ rows, f r = g r) : bestOf ops rows f = bestOf ops rows g := by
  apply List.foldl_ext
  intro best r hr
  rw [h r hr]

theorem sumOf_congr (h : ∀ r ∈ rows, f r = g r) : sumOf ops rows f = sumOf ops rows g := by
  apply List.foldl_ext
  intro sum r hr
  rw [h r hr]

theorem weightOf_congr (h : ∀ r ∈ rows, f r = g r) {r : R} (hr : r ∈ rows) :
    weightOf ops rows f r = weightOf ops rows g r := by
  simp only [weightOf, bestOf_congr h, h r hr]
  rw [sumOf_congr fun r hr => by rw [h r hr]]

/-- The rows of a list are weighed by their places as by themselves. -/
theorem weightOf_getD (r₀ : R) (t : Nat) :
    weightOf ops (List.range rows.length) (fun t => f (rows.getD t r₀)) t =
      weightOf ops rows f (rows.getD t r₀) := by
  have hbest : bestOf ops rows f =
      bestOf ops (List.range rows.length) fun t => f (rows.getD t r₀) :=
    foldl_eq_range rows r₀ _ _
  have hsum : ∀ e : R → F, sumOf ops rows e =
      sumOf ops (List.range rows.length) fun t => e (rows.getD t r₀) :=
    fun e => foldl_eq_range rows r₀ _ _
  simp only [weightOf, hbest, hsum]

end Folds

/-- Attention over a page that holds the rows of its positions. -/
theorem refAttention_formula {q' : Nat → F} {rows : List (KvRow F)} (hkv : 0 < numKv)
    (hq : 0 < numQ) (hdvd : numKv ∣ numQ) (hwrap : rows.length * numKv ≤ uint32Size)
    (hqs : Set.EqOn q q' (Set.Iio (numQ * headDim)))
    (hrows : HoldsRows k v (numKv * headDim) rows) :
    ∃ out' scores', refAttention ops q k v out numQ numKv headDim rows.length scores =
        some (out', scores', attentionReads k v numQ numKv headDim rows.length) ∧
      Set.EqOn out' (attended ops q' numQ numKv headDim rows) (Set.Iio (numQ * headDim)) := by
  have hle := Nat.le_of_dvd hq hdvd
  refine ⟨_, _, refAttention_eq hkv hle, fun i hi => ?_⟩
  have hlt : i < numQ * headDim := hi
  have hpos : 0 < headDim := Nat.pos_of_ne_zero fun hzero => by simp [hzero] at hlt
  have hhead : i / headDim < numQ := Nat.div_lt_of_lt_mul (by rwa [Nat.mul_comm])
  have hkvh := (selected_head_lt_iff hkv hle).mpr hdvd _ hhead
  have hd := Nat.mod_lt i hpos
  let r₀ : KvRow F := ⟨q, q⟩
  have hget : ∀ t < rows.length, rows[t]? = some (rows.getD t r₀) := fun t ht => by
    simp [List.getD_eq_getElem?_getD, ht]
  have hcell : ∀ d < headDim, i / headDim / (numQ / numKv) * headDim + d < numKv * headDim :=
    fun d hd => lt_of_lt_of_le (by omega) (row_end_le hkvh)
  have hscore : ∀ t ∈ List.range rows.length,
      readScore ops q k numQ numKv headDim (i / headDim) t =
        score ops q' headDim (i / headDim) (i / headDim / (numQ / numKv)) (rows.getD t r₀) := by
    intro t ht
    have hlt := List.mem_range.mp ht
    unfold readScore score
    congr 1
    apply List.foldl_ext
    intro sum d hd
    have hd := List.mem_range.mp hd
    rw [cacheRowOffset_eq hlt hkvh hwrap, hrows.key t _ (hget t hlt) _ (hcell d hd),
      hqs (show i / headDim * headDim + d < numQ * headDim from
        lt_of_lt_of_le (by omega) (row_end_le hhead))]
  rw [attentionRounds_formula, if_pos hlt, attended]
  rw [show sumOf ops rows _ = _ from foldl_eq_range rows r₀ _ _]
  apply sumOf_congr
  intro t ht
  have hlt := List.mem_range.mp ht
  rw [weightOf_congr hscore ht, weightOf_getD, readValue, cacheRowOffset_eq hlt hkvh hwrap,
    hrows.value t _ (hget t hlt) _ (hcell _ hd)]

end Kernels

end Hummingbird

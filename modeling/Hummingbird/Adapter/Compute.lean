import Hummingbird.Common

/-!
The scalar reference kernels of the GPT-OSS adapter. Float and double arithmetic is a
parameter: no kernel relies on any law of it. Arrays are functions from indices, and a
loop leaves the cells it does not write as they were. The cells of the KV cache also
carry who wrote them last; no computation looks at that.
-/

namespace Hummingbird

/-- The `float` and `double` operations the kernels call. -/
structure FloatOps (F D : Type) where
  zero : F
  one : F
  lowest : F
  add : F → F → F
  sub : F → F → F
  mul : F → F → F
  div : F → F → F
  neg : F → F
  expf : F → F
  sqrtf : F → F
  cosf : F → F
  sinf : F → F
  powf : F → F → F
  ofUint32 : Nat → F
  lt : F → F → Bool
  toDouble : F → D
  ofDouble : D → F
  dzero : D
  dadd : D → D → D
  dmul : D → D → D
  ddiv : D → D → D
  dsqrt : D → D
  dofUint32 : Nat → D

/-- The layer and position that wrote a cell of the cache, and its index in the row. -/
structure KvWriter where
  layer : Nat
  pos : Nat
  index : Nat
  deriving DecidableEq, Repr

structure KvCell (F : Type) where
  value : F
  writer : Option KvWriter
  deriving DecidableEq, Repr

section Kernels

variable {F D : Type} (ops : FloatOps F D)

/-- A loop that writes the first `n` cells. -/
def fill (out : Nat → F) (n : Nat) (f : Nat → F) : Nat → F := fun i => if i < n then f i else out i

def refRmsnorm (x w out : Nat → F) (n : Nat) (eps : F) : Nat → F :=
  let ss := (List.range n).foldl
    (fun ss i => ops.dadd ss (ops.dmul (ops.toDouble (x i)) (ops.toDouble (x i)))) ops.dzero
  let rms := ops.ofDouble
    (ops.dsqrt (ops.dadd (ops.ddiv ss (ops.dofUint32 n)) (ops.toDouble eps)))
  let invRms := ops.div ops.one rms
  fill out n fun i => ops.mul (ops.mul (x i) invRms) (w i)

def refSilu (x : F) : F := ops.div x (ops.add ops.one (ops.expf (ops.neg x)))

/-- `ref_rope_head` on the head that starts at `base`. -/
def refRopeHead (x : Nat → F) (base headDim pos : Nat) (theta : F) : Nat → F :=
  (List.range (headDim / 2)).foldl (fun x i =>
    let freq := ops.div (ops.ofUint32 pos)
      (ops.powf theta (ops.div (ops.ofUint32 (2 * i)) (ops.ofUint32 headDim)))
    let cosF := ops.cosf freq
    let sinF := ops.sinf freq
    let x0 := x (base + i)
    let x1 := x (base + (i + headDim / 2))
    let x := Function.update x (base + i) (ops.sub (ops.mul x0 cosF) (ops.mul x1 sinF))
    Function.update x (base + (i + headDim / 2))
      (ops.add (ops.mul x0 sinF) (ops.mul x1 cosF))) x

def refLinear (x w out : Nat → F) (m k : Nat) : Nat → F :=
  fill out m fun i =>
    (List.range k).foldl (fun acc j => ops.add acc (ops.mul (x j) (w (i * k + j)))) ops.zero

/-- The key and value rows that one query head reads for one position. -/
structure KvRead (F : Type) where
  queryHead : Nat
  t : Nat
  key : List (KvCell F)
  value : List (KvCell F)
  deriving DecidableEq, Repr

/-- `(size_t)(t * num_kv + kvh) * head_dim`: the row number is a `uint32_t`. -/
def cacheRowOffset (numKv headDim t kvh : Nat) : Nat := (t * numKv + kvh) % uint32Size * headDim

def readCacheRow (cache : Nat → KvCell F) (numKv headDim t kvh : Nat) : List (KvCell F) :=
  (List.range headDim).map fun d => cache (cacheRowOffset numKv headDim t kvh + d)

/-- The rows one query head reads, in order of the positions. -/
def headReads (k v : Nat → KvCell F) (numQ numKv headDim kvLen qh : Nat) : List (KvRead F) :=
  let kvh := qh / (numQ / numKv)
  (List.range kvLen).map fun t =>
    { queryHead := qh, t := t, key := readCacheRow k numKv headDim t kvh
      value := readCacheRow v numKv headDim t kvh }

/-- The score loop: the scaled product with every key, and the running maximum. -/
def attentionScores (q : Nat → F) (headDim qh : Nat) (reads : List (KvRead F))
    (scores : Nat → F) : (Nat → F) × F :=
  let scale := ops.div ops.one (ops.sqrtf (ops.ofUint32 headDim))
  reads.foldl (fun (scores, maxScore) r =>
    let s := r.key.zipIdx.foldl
      (fun s (c, d) => ops.add s (ops.mul (q (qh * headDim + d)) c.value)) ops.zero
    let s := ops.mul s scale
    (Function.update scores r.t s, if ops.lt maxScore s then s else maxScore))
    (scores, ops.lowest)

/-- The softmax loops over the scores. -/
def attentionSoftmax (reads : List (KvRead F)) (scores : Nat → F) (maxScore : F) : Nat → F :=
  let (scores, sum) := reads.foldl (fun (scores, sum) r =>
    let e := ops.expf (ops.sub (scores r.t) maxScore)
    (Function.update scores r.t e, ops.add sum e)) (scores, ops.zero)
  let invSum := ops.div ops.one sum
  reads.foldl (fun scores r => Function.update scores r.t (ops.mul (scores r.t) invSum)) scores

/-- The weighted sum of the values, from a cleared output head. -/
def attentionOutput (out : Nat → F) (headDim qh : Nat) (reads : List (KvRead F))
    (scores : Nat → F) : Nat → F :=
  let cleared := fun i =>
    if qh * headDim ≤ i ∧ i < qh * headDim + headDim then ops.zero else out i
  reads.foldl (fun out r =>
    r.value.zipIdx.foldl (fun out (c, d) =>
      Function.update out (qh * headDim + d)
        (ops.add (out (qh * headDim + d)) (ops.mul (scores r.t) c.value))) out) cleared

/-- One round of the loop over the query heads. -/
def attentionHead (q : Nat → F) (headDim qh : Nat) (reads : List (KvRead F))
    (out scores : Nat → F) : (Nat → F) × (Nat → F) :=
  let (scores, maxScore) := attentionScores ops q headDim qh reads scores
  let scores := attentionSoftmax ops reads scores maxScore
  (attentionOutput ops out headDim qh reads scores, scores)

/-- Everything an attention call reads from the cache. -/
def attentionReads (k v : Nat → KvCell F) (numQ numKv headDim kvLen : Nat) : List (KvRead F) :=
  (List.range numQ).flatMap (headReads k v numQ numKv headDim kvLen)

/-- `ref_attention`: the output, the scores it leaves and what it read. There is no
result where it divides by zero. -/
def refAttention (q : Nat → F) (k v : Nat → KvCell F) (out : Nat → F)
    (numQ numKv headDim kvLen : Nat) (scores : Nat → F) :
    Option ((Nat → F) × (Nat → F) × List (KvRead F)) :=
  if numKv = 0 then none
  else if 0 < numQ ∧ numQ / numKv = 0 then none
  else
    let (out, scores) := (List.range numQ).foldl (fun (out, scores) qh =>
      attentionHead ops q headDim qh (headReads k v numQ numKv headDim kvLen qh) out scores)
      (out, scores)
    some (out, scores, attentionReads k v numQ numKv headDim kvLen)

def refArgmax (logits : Nat → F) (vocabSize : Nat) : Nat :=
  ((List.range (vocabSize - 1)).foldl (fun (best, bestVal) i =>
    if ops.lt bestVal (logits (i + 1)) then (i + 1, logits (i + 1)) else (best, bestVal))
    (0, logits 0)).1

variable {ops}

theorem mem_attentionReads {k v : Nat → KvCell F} {numQ numKv headDim kvLen : Nat}
    {r : KvRead F} :
    r ∈ attentionReads k v numQ numKv headDim kvLen ↔
      r.queryHead < numQ ∧ r.t < kvLen ∧
        r.key = readCacheRow k numKv headDim r.t (r.queryHead / (numQ / numKv)) ∧
        r.value = readCacheRow v numKv headDim r.t (r.queryHead / (numQ / numKv)) := by
  simp only [attentionReads, headReads, List.mem_flatMap, List.mem_map, List.mem_range]
  constructor
  · rintro ⟨qh, hqh, t, ht, rfl⟩
    exact ⟨hqh, ht, rfl, rfl⟩
  · rintro ⟨hqh, ht, hk, hv⟩
    refine ⟨r.queryHead, hqh, r.t, ht, ?_⟩
    rw [← hk, ← hv]

/-- An attention call with no more key heads than query heads has a result. -/
theorem refAttention_defined {q : Nat → F} {k v : Nat → KvCell F} {out scores : Nat → F}
    {numQ numKv headDim kvLen : Nat} (hkv : 0 < numKv) (hle : numKv ≤ numQ) :
    ∃ out' scores', refAttention ops q k v out numQ numKv headDim kvLen scores =
      some (out', scores', attentionReads k v numQ numKv headDim kvLen) := by
  have hdiv := Nat.div_pos hle hkv
  unfold refAttention
  rw [if_neg (by omega), if_neg (by omega)]
  exact ⟨_, _, rfl⟩

/-- With more key heads than query heads it divides by zero. -/
theorem refAttention_undefined {q : Nat → F} {k v : Nat → KvCell F} {out scores : Nat → F}
    {numQ numKv headDim kvLen : Nat} (hq : 0 < numQ) (hlt : numQ < numKv) :
    refAttention ops q k v out numQ numKv headDim kvLen scores = none := by
  unfold refAttention
  rw [if_neg (by omega), if_pos ⟨hq, Nat.div_eq_of_lt hlt⟩]

end Kernels

end Hummingbird

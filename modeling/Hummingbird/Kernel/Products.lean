import Hummingbird.Kernel.Transposed
import Hummingbird.Tensor.UnitAxes
import Mathlib.Data.Matrix.Mul

/-!
The matrix kernels over a commutative semiring: the product they compute, the batched kernel as
a run of the plain one on every pair of slices, and the product of the transposes.
-/

namespace Hummingbird

open Accesses

/-- The arithmetic of a semiring in the place of `float`. -/
def KernelFloat.overSemiring {R : Type} [CommSemiring R] (base : KernelFloat R) :
    KernelFloat R :=
  { base with
    lit := fun q => if q = 0 then 0 else base.lit q
    add := (· + ·)
    mul := (· * ·) }

section Ranks

variable {n i j i' : Nat}

theorem rank_lt (hj : j < n) (hi : i < i') : i * n + j < i' * n := by
  calc i * n + j < (i + 1) * n := by rw [Nat.succ_mul]; omega
    _ ≤ i' * n := Nat.mul_le_mul_right n hi

theorem rank_div (hj : j < n) : (i * n + j) / n = i := by
  rw [Nat.mul_comm, Nat.mul_add_div (by omega), Nat.div_eq_of_lt hj, Nat.add_zero]

end Ranks

/-- The address of an entry of a matrix with rows of `n` words. -/
def entryAt (p : Int) (n i j : Nat) : Int := p + 4 * (i * n + j : Nat)

theorem entryAt_apart {p : Int} {n i j i' j' : Nat} (hj : j < n) (hj' : j' < n)
    (hne : i ≠ i' ∨ j ≠ j') : WordsApart (entryAt p n i j) (entryAt p n i' j') := by
  have hrank : i * n + j ≠ i' * n + j' := by
    rcases lt_trichotomy i i' with hlt | rfl | hlt
    · have := rank_lt hj hlt
      omega
    · omega
    · have := rank_lt hj' hlt
      omega
  unfold WordsApart entryAt
  omega

/-- Values for consecutive words, as a function of the address. -/
theorem exists_words {F : Type} (p : Int) (x : Nat → F) :
    ∃ v : Int → F, ∀ r : Nat, v (p + 4 * r) = x r := by
  refine ⟨fun a => x ((a - p) / 4).toNat, fun r => congrArg x ?_⟩
  omega

section Loops

variable {R σ : Type} [CommSemiring R] (base : KernelFloat R) (M : Machine R σ)

/-- The inner loop reads a row and a column and changes nothing. -/
theorem run_dot (p q : Nat → Int) (k : Nat) (s : σ) :
    M.run (loop k (base.overSemiring.lit 0) fun l acc => do
      let x ← load (p l)
      let y ← load (q l)
      return base.overSemiring.add acc (base.overSemiring.mul x y)) s =
      (∑ l ∈ Finset.range k, M.load s (p l) * M.load s (q l), s) := by
  induction k with
  | zero => simp [KernelFloat.overSemiring]
  | succ k ih =>
      rw [Prod.ext_iff] at ih
      rw [Prod.ext_iff, M.run_loop_succ, Finset.sum_range_succ]
      simp only [M.run_bind, M.run_load, M.run_pure, ih.1, ih.2]
      exact ⟨rfl, trivial⟩

/-- The loops put the product's entries in their words, if none of these lies over a factor. -/
theorem puts_matmulLoops {pa pb pc : Int} {m k n : Nat} {v : Int → R} {s : σ}
    (hA : ∀ i < m, ∀ j < n, ∀ i' < m, ∀ l < k, WordsApart (entryAt pc n i j) (entryAt pa k i' l))
    (hB : ∀ i < m, ∀ j < n, ∀ l < k, ∀ j' < n, WordsApart (entryAt pc n i j) (entryAt pb n l j'))
    (hv : ∀ i < m, ∀ j < n, v (entryAt pc n i j) =
      ∑ l ∈ Finset.range k, M.load s (entryAt pa k i l) * M.load s (entryAt pb n l j)) :
    M.Puts {a | ∃ i < m, ∃ j < n, a = entryAt pc n i j} v s
      (M.run (matmulLoops base.overSemiring pa pb pc m k n) s).2 := by
  apply M.puts_each (T := fun i => {a | ∃ j < n, a = entryAt pc n i j})
  · rintro i hi i' hi' a ⟨j, hj, rfl⟩ b ⟨j', hj', rfl⟩
    exact entryAt_apart hj' hj (Or.inl (by omega))
  · intro i hi s' hs'
    have hrows : ∀ b, (∀ i < m, ∀ j < n, WordsApart (entryAt pc n i j) b) →
        M.load s' b = M.load s b := by
      intro b hb
      apply hs'.kept
      rintro a ⟨i', hi', j, hj, rfl⟩
      exact hb i' (by omega) j hj
    apply M.puts_gather
    · intro j hj j' hj'
      exact entryAt_apart hj (by omega) (Or.inr (by omega))
    · intro j hj s'' hs''
      rw [hv i hi j hj]
      refine (run_dot base M _ _ k s'').trans (Prod.ext ?_ rfl)
      dsimp only
      apply Finset.sum_congr rfl
      intro l hl
      have hlk := Finset.mem_range.mp hl
      have hword : ∀ b, (∀ i < m, ∀ j < n, WordsApart (entryAt pc n i j) b) →
          M.load s'' b = M.load s b := by
        intro b hb
        rw [hs'' b fun j' hj' => hb i hi j' hj', hrows b hb]
      exact congrArg₂ (· * ·) (hword _ fun i' hi' j' hj' => hA i' hi' j' hj' i hi l hlk)
        (hword _ fun i' hi' j' hj' => hB i' hi' j' hj' l hlk j hj)

end Loops

/-- A contiguous float operand with two axes. -/
structure Tensor.IsMatrix (t : Tensor) (m n : Nat) : Prop where
  array : t.F32Array
  shape_eq : t.shape = ⟨[(m : Int), (n : Int)]⟩

section Matrices

variable {t u : Tensor} {m n m' n' : Nat}

theorem Tensor.IsMatrix.elemAddr_eq (h : t.IsMatrix m n) (i j : Nat) :
    t.elemAddr [(i : Int), (j : Int)] = entryAt t.data n i j := by
  rw [h.array.elemAddr_eq, h.shape_eq, f32At, entryAt]
  simp [Strided.linear, Strided.rowMajor]

theorem Tensor.IsMatrix.inBounds (h : t.IsMatrix m n) {i j : Nat} (hi : i < m) (hj : j < n) :
    Strided.InBounds t.shape.dims [(i : Int), (j : Int)] := by
  rw [h.shape_eq]
  exact ⟨⟨by omega, by omega⟩, ⟨by omega, by omega⟩, trivial⟩

theorem Tensor.IsMatrix.rank_range (h : t.IsMatrix m n) {i j : Nat} (hi : i < m) (hj : j < n) :
    (0 : Int) ≤ (i * n + j : Nat) ∧ ((i * n + j : Nat) : Int) < t.shape.dims.prod := by
  have hlt := rank_lt hj hi
  rw [h.shape_eq]
  refine ⟨by omega, ?_⟩
  rw [List.prod_cons, List.prod_singleton, ← Nat.cast_mul]
  exact Int.ofNat_lt.mpr hlt

/-- Entries of matrices in buffers that do not overlap are apart. -/
theorem Tensor.IsMatrix.entry_apart (ht : t.IsMatrix m n) (hu : u.IsMatrix m' n')
    (h : t.Apart u) {i j i' j' : Nat} (hi : i < m) (hj : j < n) (hi' : i' < m') (hj' : j' < n') :
    WordsApart (entryAt t.data n i j) (entryAt u.data n' i' j') :=
  h.words ht.array hu.array (ht.rank_range hi hj) (hu.rank_range hi' hj')

end Matrices

section Reads

variable {R σ : Type}

/-- The matrix that a tensor shows. -/
def matrixAt (M : Machine R σ) (s : σ) (t : Tensor) (m n : Nat) : Matrix (Fin m) (Fin n) R :=
  fun i j => M.load s (t.elemAddr [((i : Nat) : Int), ((j : Nat) : Int)])

/-- A step that only puts words of one tensor keeps the matrix in another. -/
theorem matrixAt_kept {M : Machine R σ} {s s' : σ} {t out : Tensor} {m n : Nat} {A : Set Int}
    {v : Int → R} (ht : t.IsMatrix m n) (hout : out.F32Array)
    (hput : M.Puts A v s s') (hA : ∀ a ∈ A, ∃ r : Int, (0 ≤ r ∧ r < out.shape.dims.prod) ∧
      a = f32At out r) (hapart : t.Apart out) : matrixAt M s' t m n = matrixAt M s t m n := by
  ext i j
  unfold matrixAt
  rw [ht.elemAddr_eq]
  apply hput.kept
  intro a ha
  obtain ⟨r, hr, rfl⟩ := hA a ha
  exact (hapart.words ht.array hout (ht.rank_range i.isLt j.isLt) hr).symm

end Reads

/-- What the matrix kernel asks of its operands. -/
structure MatmulCall (a b c : Tensor) (m k n : Nat) : Prop where
  left : a.IsMatrix m k
  right : b.IsMatrix k n
  result : c.IsMatrix m n
  writable : c.readOnly = false

/-- The entry of the matrix kernel in the table of the backend. -/
def cpuMatmul : Kernel := cpuKernel .matmul "cpu.matmul.fp32" kFp32Only cpuMatmulRun

section Matmul

variable {a b c : Tensor} {m k n : Nat} (h : MatmulCall a b c m k n)

include h

theorem MatmulCall.run_eq (params : KernelParams) (ws : KernelWorkspace) :
    cpuMatmulRun ⟨[some a, some b], [some c], params⟩ ws = .ok () := by
  simp [cpuMatmulRun, requireArity, requireInputs, requireOutputs, requireContiguous,
    KernelArgs.input, KernelArgs.output, h.writable, h.left.array.contiguous_eq,
    h.right.array.contiguous_eq, h.result.array.contiguous_eq, h.left.array.valid.data_ne,
    h.right.array.valid.data_ne, h.result.array.valid.data_ne, h.left.array.dtype_eq,
    h.right.array.dtype_eq, h.result.array.dtype_eq, h.left.shape_eq, h.right.shape_eq,
    h.result.shape_eq, Shape.rank, bind, Except.bind]

theorem MatmulCall.body_eq {F : Type} (ops : KernelFloat F) :
    cpuMatmulBody ops a b c = matmulLoops ops a.data b.data c.data m k n := by
  simp [cpuMatmulBody, Tensor.dim, h.left.shape_eq, h.right.shape_eq]

theorem MatmulCall.cpuRun_eq {F σ : Type} (ops : KernelFloat F) (M : Machine F σ)
    (params : KernelParams) (ws : KernelWorkspace) (s : σ) :
    cpuRun ops M cpuMatmul ⟨[some a, some b], [some c], params⟩ ws s =
      (.ok (), (M.run (matmulLoops ops a.data b.data c.data m k n) s).2) := by
  have hrun : cpuMatmul.run ⟨[some a, some b], [some c], params⟩ ws = .ok () := h.run_eq params ws
  rw [cpuRun, hrun, ← h.body_eq]
  rfl

variable {R σ : Type} [CommSemiring R] (base : KernelFloat R) (M : Machine R σ)

/-- A result whose entries are sums over rows and columns is the product. -/
theorem MatmulCall.matrixAt_eq {s s' : σ} (hload : ∀ i < m, ∀ j < n,
    M.load s' (entryAt c.data n i j) = ∑ l ∈ Finset.range k,
      M.load s (entryAt a.data k i l) * M.load s (entryAt b.data n l j)) :
    matrixAt M s' c m n = matrixAt M s a m k * matrixAt M s b k n := by
  ext i j
  rw [Matrix.mul_apply]
  unfold matrixAt
  rw [← Finset.sum_range fun l : Nat =>
    M.load s (a.elemAddr [((i : Nat) : Int), (l : Int)]) *
      M.load s (b.elemAddr [(l : Int), ((j : Nat) : Int)]), h.result.elemAddr_eq,
    hload i i.isLt j j.isLt]
  simp only [h.left.elemAddr_eq, h.right.elemAddr_eq]

theorem MatmulCall.puts (ha : a.Apart c) (hb : b.Apart c) {v : Int → R} {s : σ}
    (hv : ∀ i < m, ∀ j < n, v (entryAt c.data n i j) = ∑ l ∈ Finset.range k,
      M.load s (entryAt a.data k i l) * M.load s (entryAt b.data n l j)) :
    M.Puts {a | ∃ i < m, ∃ j < n, a = entryAt c.data n i j} v s
      (M.run (matmulLoops base.overSemiring a.data b.data c.data m k n) s).2 := by
  apply puts_matmulLoops base M _ _ hv
  · intro i hi j hj i' hi' l hl
    exact (h.left.entry_apart h.result ha hi' hl hi hj).symm
  · intro i hi j hj l hl j' hj'
    exact (h.right.entry_apart h.result hb hl hj' hi hj).symm

theorem MatmulCall.product (ha : a.Apart c) (hb : b.Apart c) (s : σ) :
    matrixAt M (M.run (matmulLoops base.overSemiring a.data b.data c.data m k n) s).2 c m n =
      matrixAt M s a m k * matrixAt M s b k n := by
  obtain ⟨v, hv⟩ := exists_words c.data fun r => ∑ l ∈ Finset.range k,
    M.load s (entryAt a.data k (r / n) l) * M.load s (entryAt b.data n l (r % n))
  have hvalue : ∀ i < m, ∀ j < n, v (entryAt c.data n i j) = ∑ l ∈ Finset.range k,
      M.load s (entryAt a.data k i l) * M.load s (entryAt b.data n l j) := by
    intro i hi j hj
    rw [entryAt, hv, rank_div hj, Nat.mul_add_mod_of_lt hj]
  apply h.matrixAt_eq M
  intro i hi j hj
  rw [(h.puts base M ha hb hvalue).put _ ⟨i, hi, j, hj, rfl⟩, hvalue i hi j hj]

end Matmul

/-- A contiguous float operand with three axes. -/
structure Tensor.IsBatch (t : Tensor) (nb m n : Nat) : Prop where
  array : t.F32Array
  shape_eq : t.shape = ⟨[(nb : Int), (m : Int), (n : Int)]⟩
  data_pos : 0 < t.data

/-- The matrix of a batch index: a slice of length one, then its first axis dropped. -/
def batchMatrix (t : Tensor) (i : Nat) : Result Tensor := do
  let plane ← hbiTensorSlice t 0 i 1
  hbiTensorReshape plane ⟨t.shape.dims.drop 1⟩

section Batch

variable {t : Tensor} {nb m n : Nat} (h : t.IsBatch nb m n)

include h

/-- The slice of a batch index is contiguous, and starts where the matrix does. -/
theorem Tensor.IsBatch.slice_exists {i : Nat} (hi : i < nb) :
    ∃ w, hbiTensorSlice t 0 i 1 = .ok w ∧ w.Laid ∧ w.contiguous = true ∧
      w.dtype = .fp32 ∧ w.readOnly = t.readOnly ∧ w.data = f32At t ((i * m * n : Nat) : Int) ∧
      w.shape = ⟨[1, (m : Int), (n : Int)]⟩ := by
  have hlaid := h.array.valid.laid
  have haxis : 0 < t.shape.rank := by
    rw [h.shape_eq]
    exact Nat.succ_pos 2
  have hdim : t.shape.dims.getD 0 0 = nb := by
    rw [h.shape_eq]
    rfl
  have hstride : t.strides = [((m : Int) * n), (n : Int), 1] := by
    rw [h.array.strides_eq, h.shape_eq]
    simp [Strided.rowMajor]
  have hwithin : (sliceRange t 0 i 1).Within := by
    refine ⟨Int.natCast_nonneg i, one_pos, ?_⟩
    show (i : Int) + 1 ≤ t.shape.dims.getD 0 0
    omega
  have hmax := (hlaid.getD_dim haxis).2
  have hbyte : t.dtype.ByteAddressable := by
    rw [h.array.dtype_eq]
    decide
  obtain ⟨w, hw⟩ := (hbiTensorSlice_iff hlaid hbyte haxis (by omega) (by decide)).mpr
    ⟨Or.inl hwithin, hbiTensorSlice_packs hlaid haxis hwithin⟩
  obtain ⟨hstep, -, hshape⟩ := hbiTensorSlice_step hlaid (by omega) hw
  have hwshape : w.shape = ⟨[1, (m : Int), (n : Int)]⟩ := by
    rw [hshape, h.shape_eq]
    rfl
  have hkept : w.strides = t.strides ∧ w.readOnly = t.readOnly := by
    simp only [hbiTensorSlice, sliceAt, Result.ite_errSet_eq_ok] at hw
    have hkept := refreshLayout_kept hw.2.2.2
    exact hkept
  refine ⟨w, hw, hstep.laid, ?_, hstep.dtype_eq.trans h.array.dtype_eq, hkept.2, ?_, hwshape⟩
  · rw [hstep.laid.contiguous_eq, hbiStridesIsContiguous_iff, hkept.1, hstride, hwshape]
    simp [Strided.rowMajor]
  · rw [hstep.data_eq, h.array.bits_eq, hstride, f32At]
    have hoff : (i : Int) * ([((m : Int) * n), (n : Int), 1] : List Int).getD 0 0 *
        ((8 * 4 : Nat) : Int) = 4 * ((i * m * n : Nat) : Int) * 8 := by
      rw [List.getD_cons_zero]
      push_cast
      ring
    rw [hoff, Int.mul_tdiv_cancel _ (by norm_num)]

/-- The matrix of a batch index is there, in the batch's buffer. -/
theorem Tensor.IsBatch.matrix_exists {i : Nat} (hi : i < nb) :
    ∃ v, batchMatrix t i = .ok v ∧ v.IsMatrix m n ∧ v.readOnly = t.readOnly ∧
      v.data = f32At t ((i * m * n : Nat) : Int) ∧ ∀ a, v.Covers a → t.Covers a := by
  obtain ⟨w, hw, hlaid, hcontig, hdtype, hread, hdata, hshape⟩ := h.slice_exists hi
  have hdims : t.shape.dims.drop 1 = [(m : Int), (n : Int)] := by
    rw [h.shape_eq]
    rfl
  have hvalid := h.array.valid.laid.shape_valid
  have hpos : ∀ d ∈ [(m : Int), (n : Int)], 0 < d := by
    rw [← hdims]
    exact fun d hd => hvalid.dims_pos d (List.mem_of_mem_drop hd)
  have hnew : Shape.Valid ⟨[(m : Int), (n : Int)]⟩ := by
    refine ⟨by simp [Shape.rank, hbiTensorMaxRank], hpos, ?_⟩
    have := hlaid.shape_valid.prod_le
    rw [hshape] at this
    simpa using this
  obtain ⟨v, hv, hvcontig, hvread⟩ := hbiTensorReshape_exists hlaid hcontig hnew
    (by rw [hshape]; simp)
  obtain ⟨hstep, hspan, hvshape⟩ := hbiTensorReshape_step hlaid hv
  have hvdtype : v.dtype = .fp32 := hstep.dtype_eq.trans hdtype
  have hvdata : v.data = f32At t ((i * m * n : Nat) : Int) := by
    rw [hstep.data_eq, hdata]
    simp
  have hvrow : v.strides = Strided.rowMajor v.shape.dims := by
    apply hbiStridesIsContiguous_iff.mp
    rw [← hstep.laid.contiguous_eq, hvcontig]
  have hbits : hbiDtypeBits v.dtype = 32 := by
    rw [hvdtype]
    rfl
  unfold Tensor.SpanExact at hspan
  rw [hvrow, Strided.extent_rowMajor, sub_add_cancel] at hspan
  have hprod := hstep.laid.shape_valid.prod_pos
  have hbytes := ((hbiDtypePackedNbytes_eq_ok hstep.laid.dtype_valid hprod.le).mp hspan).2
  have hdata_ne : v.data ≠ 0 := by
    have := h.data_pos
    rw [hvdata, f32At]
    omega
  refine ⟨v, by simp [batchMatrix, hw, hdims, hv, bind, Except.bind],
    ⟨⟨⟨hstep.laid, hdata_ne, ?_⟩, hvcontig, hvdtype⟩, hvshape⟩, hvread.trans hread, hvdata, ?_⟩
  · rw [hvrow, Strided.extent_rowMajor, sub_add_cancel, hbytes]
  · rintro a ⟨hlo, hhi⟩
    rw [hbits] at hbytes
    obtain ⟨bytes, -, hmul, hle⟩ := h.array.valid.packed_bytes h.array.contiguous_eq h.array.bits_eq
    rw [h.shape_eq] at hmul
    rw [hvshape] at hbytes
    have hlast : i * m * n + m * n ≤ nb * (m * n) := by
      calc i * m * n + m * n = (i + 1) * (m * n) := by ring
        _ ≤ nb * (m * n) := Nat.mul_le_mul_right _ hi
    have hwhole : ([(nb : Int), (m : Int), (n : Int)] : List Int).prod =
        ((nb * (m * n) : Nat) : Int) := by simp
    have hpart : ([(m : Int), (n : Int)] : List Int).prod = ((m * n : Nat) : Int) := by simp
    rw [hwhole] at hmul
    rw [hpart] at hbytes
    rw [hvdata, f32At] at hlo hhi
    exact ⟨by omega, by omega⟩

end Batch

/-- The matrix of a batch index, once it is there. -/
def batchPart (t : Tensor) (i : Nat) : Tensor :=
  match batchMatrix t i with
  | .ok v => v
  | .error _ => t

theorem Tensor.IsBatch.part {t : Tensor} {nb m n : Nat} (h : t.IsBatch nb m n) {i : Nat}
    (hi : i < nb) :
    batchMatrix t i = .ok (batchPart t i) ∧ (batchPart t i).IsMatrix m n ∧
      (batchPart t i).readOnly = t.readOnly ∧
      (batchPart t i).data = f32At t ((i * m * n : Nat) : Int) ∧
      ∀ a, (batchPart t i).Covers a → t.Covers a := by
  obtain ⟨v, hv, hrest⟩ := h.matrix_exists hi
  have hpart : batchPart t i = v := by rw [batchPart, hv]
  rw [hpart]
  exact ⟨hv, hrest⟩

/-- Slices of buffers that do not overlap do not overlap. -/
theorem Tensor.IsBatch.part_apart {t u : Tensor} {nb m n nb' m' n' : Nat} (ht : t.IsBatch nb m n)
    (hu : u.IsBatch nb' m' n') (hapart : t.Apart u) {i j : Nat} (hi : i < nb) (hj : j < nb') :
    (batchPart t i).Apart (batchPart u j) :=
  fun a ha => hapart a ⟨(ht.part hi).2.2.2.2 a ha.1, (hu.part hj).2.2.2.2 a ha.2⟩

/-- An entry of a slice as a word of the whole. -/
theorem entryAt_part (t : Tensor) {m n i p q : Nat} :
    entryAt (f32At t ((i * m * n : Nat) : Int)) n p q =
      t.data + 4 * ((i * (m * n) + (p * n + q) : Nat) : Int) := by
  unfold entryAt f32At
  push_cast
  ring

/-- What the batched kernel asks of its operands. -/
structure BatchedCall (a b c : Tensor) (nb m k n : Nat) : Prop where
  left : a.IsBatch nb m k
  right : b.IsBatch nb k n
  result : c.IsBatch nb m n
  writable : c.readOnly = false

/-- The entry of the batched kernel in the table of the backend. -/
def cpuBatchedMatmul : Kernel :=
  cpuKernel .batchedMatmul "cpu.batched_matmul.fp32" kFp32Only cpuBatchedMatmulRun

section Batched

variable {a b c : Tensor} {nb m k n : Nat} (h : BatchedCall a b c nb m k n)

include h

theorem BatchedCall.run_eq (params : KernelParams) (ws : KernelWorkspace) :
    cpuBatchedMatmulRun ⟨[some a, some b], [some c], params⟩ ws = .ok () := by
  simp [cpuBatchedMatmulRun, requireArity, requireInputs, requireOutputs, requireContiguous,
    KernelArgs.input, KernelArgs.output, h.writable, h.left.array.contiguous_eq,
    h.right.array.contiguous_eq, h.result.array.contiguous_eq, h.left.array.valid.data_ne,
    h.right.array.valid.data_ne, h.result.array.valid.data_ne, h.left.array.dtype_eq,
    h.right.array.dtype_eq, h.result.array.dtype_eq, h.left.shape_eq, h.right.shape_eq,
    h.result.shape_eq, Shape.rank, bind, Except.bind]

/-- Every pair of slices with its slice of the result is a call of the plain kernel. -/
theorem BatchedCall.part {i : Nat} (hi : i < nb) :
    MatmulCall (batchPart a i) (batchPart b i) (batchPart c i) m k n where
  left := (h.left.part hi).2.1
  right := (h.right.part hi).2.1
  result := (h.result.part hi).2.1
  writable := (h.result.part hi).2.2.1.trans h.writable

theorem BatchedCall.body_eq {F : Type} (ops : KernelFloat F) :
    cpuBatchedMatmulBody ops a b c = each nb fun i =>
      matmulLoops ops (f32At a ((i * m * k : Nat) : Int)) (f32At b ((i * k * n : Nat) : Int))
        (f32At c ((i * m * n : Nat) : Int)) m k n := by
  simp [cpuBatchedMatmulBody, Tensor.dim, h.left.shape_eq, h.right.shape_eq, f32At]

/-- One run over the batch is a run of the plain kernel on every pair of slices in turn. -/
theorem BatchedCall.cpuRun_eq {F σ : Type} (ops : KernelFloat F) (M : Machine F σ)
    (params : KernelParams) (ws : KernelWorkspace) (s : σ) :
    cpuRun ops M cpuBatchedMatmul ⟨[some a, some b], [some c], params⟩ ws s =
      (.ok (), (List.range nb).foldl (fun s i => (cpuRun ops M cpuMatmul
        ⟨[some (batchPart a i), some (batchPart b i)], [some (batchPart c i)], params⟩ ws s).2)
        s) := by
  have hrun : cpuBatchedMatmul.run ⟨[some a, some b], [some c], params⟩ ws = .ok () :=
    h.run_eq params ws
  have hbody : cpuBody ops ⟨[some a, some b], [some c], params⟩ cpuBatchedMatmul.op =
      cpuBatchedMatmulBody ops a b c := rfl
  rw [cpuRun, hrun, hbody, h.body_eq, M.run_each]
  refine congrArg _ (List.foldl_ext _ _ _ fun s i hi => ?_)
  have hlt := List.mem_range.mp hi
  rw [(h.part hlt).cpuRun_eq, (h.left.part hlt).2.2.2.1, (h.right.part hlt).2.2.2.1,
    (h.result.part hlt).2.2.2.1]

variable {R σ : Type} [CommSemiring R] (base : KernelFloat R) (M : Machine R σ)

/-- Every slice of the result is the product of the slices. -/
theorem BatchedCall.product (ha : a.Apart c) (hb : b.Apart c) (s : σ) {i : Nat} (hi : i < nb) :
    matrixAt M (M.run (cpuBatchedMatmulBody base.overSemiring a b c) s).2 (batchPart c i) m n =
      matrixAt M s (batchPart a i) m k * matrixAt M s (batchPart b i) k n := by
  obtain ⟨v, hv⟩ := exists_words c.data fun r => ∑ l ∈ Finset.range k,
    M.load s (entryAt (batchPart a (r / (m * n))).data k (r % (m * n) / n) l) *
      M.load s (entryAt (batchPart b (r / (m * n))).data n l (r % (m * n) % n))
  have hvalue : ∀ i < nb, ∀ p < m, ∀ q < n, v (entryAt (batchPart c i).data n p q) =
      ∑ l ∈ Finset.range k, M.load s (entryAt (batchPart a i).data k p l) *
        M.load s (entryAt (batchPart b i).data n l q) := by
    intro i hi p hp q hq
    have hlt := rank_lt hq hp
    rw [(h.result.part hi).2.2.2.1, entryAt_part, hv, rank_div hlt, Nat.mul_add_mod_of_lt hlt,
      rank_div hq, Nat.mul_add_mod_of_lt hq]
  have hputs : M.Puts {x | ∃ i < nb, x ∈ {x | ∃ p < m, ∃ q < n,
      x = entryAt (batchPart c i).data n p q}} v s
      (M.run (cpuBatchedMatmulBody base.overSemiring a b c) s).2 := by
    rw [h.body_eq]
    apply M.puts_each
    · rintro i hi j hj x ⟨p, hp, q, hq, rfl⟩ y ⟨p', hp', q', hq', rfl⟩
      rw [(h.result.part hi).2.2.2.1, (h.result.part (hj.trans hi)).2.2.2.1, entryAt_part,
        entryAt_part]
      have hrank := rank_lt hq hp
      have hrank' := rank_lt (rank_lt hq hp) hj
      unfold WordsApart
      omega
    · intro i hi s' hs'
      have hkept : ∀ y, (∀ j < nb, ∀ p < m, ∀ q < n,
          WordsApart (entryAt (batchPart c j).data n p q) y) → M.load s' y = M.load s y := by
        intro y hy
        apply hs'.kept
        rintro x ⟨j, hj, p, hp, q, hq, rfl⟩
        exact hy j (hj.trans hi) p hp q hq
      have hsum : ∀ p < m, ∀ q < n, v (entryAt (batchPart c i).data n p q) =
          ∑ l ∈ Finset.range k, M.load s' (entryAt (batchPart a i).data k p l) *
            M.load s' (entryAt (batchPart b i).data n l q) := by
        intro p hp q hq
        rw [hvalue i hi p hp q hq]
        apply Finset.sum_congr rfl
        intro l hl
        have hlk := Finset.mem_range.mp hl
        rw [hkept _ fun j hj p' hp' q' hq' => ((h.part hi).left.entry_apart (h.part hj).result
            (h.left.part_apart h.result ha hi hj) hp hlk hp' hq').symm,
          hkept _ fun j hj p' hp' q' hq' => ((h.part hi).right.entry_apart (h.part hj).result
            (h.right.part_apart h.result hb hi hj) hlk hq hp' hq').symm]
      have hturn := (h.part hi).puts base M (h.left.part_apart h.result ha hi hi)
        (h.right.part_apart h.result hb hi hi) hsum
      rw [(h.left.part hi).2.2.2.1, (h.right.part hi).2.2.2.1, (h.result.part hi).2.2.2.1] at hturn
      exact (h.result.part hi).2.2.2.1 ▸ hturn
  apply (h.part hi).matrixAt_eq M
  intro p hp q hq
  rw [hputs.put _ ⟨i, hi, p, hp, q, hq, rfl⟩, hvalue i hi p hp q hq]

end Batched

section Transposes

variable {t out : Tensor} {m n : Nat}

/-- The exchange of the two axes of a matrix is a call of the transpose kernel. -/
theorem Tensor.IsMatrix.transposeCall (ht : t.IsMatrix m n) (hout : out.IsMatrix n m)
    (hwrite : out.readOnly = false) : TransposeCall ⟨.invalid, 0, 1⟩ t out where
  array := ht.array
  outArray := hout.array
  axisA_lt := by simp [ht.shape_eq, Shape.rank]
  axisB_lt := by simp [ht.shape_eq, Shape.rank]
  shape_eq := by
    rw [hout.shape_eq, ht.shape_eq]
    rfl
  writable := hwrite

variable {R σ : Type} (M : Machine R σ)

theorem matrixAt_transpose (ht : t.IsMatrix m n) (hout : out.IsMatrix n m)
    (hwrite : out.readOnly = false) (hapart : t.Apart out) (s : σ) :
    matrixAt M (M.run (cpuTransposeBody ⟨.invalid, 0, 1⟩ t out) s).2 out n m =
      (matrixAt M s t m n).transpose := by
  ext i j
  exact (ht.transposeCall hout hwrite).load_eq M hapart s (hout.inBounds i.isLt j.isLt)

/-- The kernel keeps the matrices of the other operands. -/
theorem matrixAt_transpose_kept {u : Tensor} {m' n' : Nat} (ht : t.IsMatrix m n)
    (hout : out.IsMatrix n m) (hwrite : out.readOnly = false) (hapart : t.Apart out)
    (hu : u.IsMatrix m' n') (hkeep : u.Apart out) (s : σ) :
    matrixAt M (M.run (cpuTransposeBody ⟨.invalid, 0, 1⟩ t out) s).2 u m' n' =
      matrixAt M s u m' n' := by
  have hcall := ht.transposeCall hout hwrite
  apply matrixAt_kept hu hout.array (hcall.puts M hapart s) _ hkeep
  rintro a ⟨k, hk, rfl⟩
  exact ⟨_, hcall.rank_range hk, rfl⟩

end Transposes

/-- The buffers of a product, of its transpose, of the transposes of its factors and of their
product in the reverse order. -/
structure ReversedProduct (a b c tc ta tb d : Tensor) (m k n : Nat) : Prop where
  product : MatmulCall a b c m k n
  transposed : tc.IsMatrix n m
  transposed_writable : tc.readOnly = false
  reversed : MatmulCall tb ta d n k m
  left_writable : ta.readOnly = false
  right_writable : tb.readOnly = false
  left_apart : a.Apart c
  right_apart : b.Apart c
  transposed_apart : c.Apart tc
  left_transposed : a.Apart ta
  right_transposed : b.Apart tb
  right_kept : b.Apart ta
  left_kept : ta.Apart tb
  reversed_left : tb.Apart d
  reversed_right : ta.Apart d

/-- Over every commutative semiring: the matrix kernel leaves the product; the batched kernel
leaves on every slice what the matrix kernel leaves there, and is a run of it on the slices in
turn; and the transpose of a product is the product of the transposes in the reverse order. -/
theorem matrix_kernels_compute_products {R σ : Type} [CommSemiring R] (base : KernelFloat R)
    (M : Machine R σ) (params : KernelParams) (ws : KernelWorkspace) (s : σ) :
    let matmul := fun (a b c : Tensor) (s : σ) =>
      cpuRun base.overSemiring M cpuMatmul ⟨[some a, some b], [some c], params⟩ ws s
    let batched := fun (a b c : Tensor) (s : σ) =>
      cpuRun base.overSemiring M cpuBatchedMatmul ⟨[some a, some b], [some c], params⟩ ws s
    let transpose := fun (t out : Tensor) (s : σ) =>
      cpuRun base.overSemiring M cpuTranspose ⟨[some t], [some out], ⟨.invalid, 0, 1⟩⟩ ws s
    (∀ a b c m k n, MatmulCall a b c m k n → a.Apart c → b.Apart c →
      (matmul a b c s).1 = .ok () ∧
        matrixAt M (matmul a b c s).2 c m n = matrixAt M s a m k * matrixAt M s b k n) ∧
    (∀ a b c nb m k n, BatchedCall a b c nb m k n →
      (∀ i < nb, batchMatrix a i = .ok (batchPart a i) ∧ batchMatrix b i = .ok (batchPart b i) ∧
        batchMatrix c i = .ok (batchPart c i)) ∧
      batched a b c s = (.ok (), (List.range nb).foldl (fun s i =>
        (matmul (batchPart a i) (batchPart b i) (batchPart c i) s).2) s) ∧
      (a.Apart c → b.Apart c → ∀ i < nb,
        matrixAt M (batched a b c s).2 (batchPart c i) m n =
          matrixAt M (matmul (batchPart a i) (batchPart b i) (batchPart c i) s).2
            (batchPart c i) m n)) ∧
    ∀ a b c tc ta tb d m k n, ReversedProduct a b c tc ta tb d m k n →
      matrixAt M (transpose c tc (matmul a b c s).2).2 tc n m =
        matrixAt M (matmul tb ta d (transpose b tb (transpose a ta s).2).2).2 d n m := by
  intro matmul batched transpose
  refine ⟨?_, ?_, ?_⟩
  · intro a b c m k n h ha hb
    have hrun : matmul a b c s = _ := h.cpuRun_eq base.overSemiring M params ws s
    rw [hrun]
    exact ⟨rfl, h.product base M ha hb s⟩
  · intro a b c nb m k n h
    refine ⟨fun i hi => ⟨(h.left.part hi).1, (h.right.part hi).1, (h.result.part hi).1⟩,
      h.cpuRun_eq base.overSemiring M params ws s, fun ha hb i hi => ?_⟩
    have hrun : matmul (batchPart a i) (batchPart b i) (batchPart c i) s = _ :=
      (h.part hi).cpuRun_eq base.overSemiring M params ws s
    have hbatched : (batched a b c s).2 =
        (M.run (cpuBatchedMatmulBody base.overSemiring a b c) s).2 := by
      have hok : cpuBatchedMatmul.run ⟨[some a, some b], [some c], params⟩ ws = .ok () :=
        h.run_eq params ws
      show (cpuRun _ M _ _ _ s).2 = _
      rw [cpuRun, hok]
      rfl
    rw [hrun, hbatched, h.product base M ha hb s hi,
      (h.part hi).product base M (h.left.part_apart h.result ha hi hi)
        (h.right.part_apart h.result hb hi hi) s]
  · intro a b c tc ta tb d m k n h
    have hproduct : matmul a b c s = _ := h.product.cpuRun_eq base.overSemiring M params ws s
    have htc := h.product.result.transposeCall h.transposed h.transposed_writable
    have hta := h.product.left.transposeCall h.reversed.right h.left_writable
    have htb := h.product.right.transposeCall h.reversed.left h.right_writable
    have hc : ∀ s, transpose c tc s = _ := htc.cpuRun_eq base.overSemiring M ws
    have ha : ∀ s, transpose a ta s = _ := hta.cpuRun_eq base.overSemiring M ws
    have hb : ∀ s, transpose b tb s = _ := htb.cpuRun_eq base.overSemiring M ws
    have hreversed : ∀ s, matmul tb ta d s = _ :=
      h.reversed.cpuRun_eq base.overSemiring M params ws
    rw [hproduct, hc, matrixAt_transpose M h.product.result h.transposed h.transposed_writable
      h.transposed_apart, h.product.product base M h.left_apart h.right_apart,
      Matrix.transpose_mul, ha, hb, hreversed,
      h.reversed.product base M h.reversed_left h.reversed_right,
      matrixAt_transpose M h.product.right h.reversed.left h.right_writable h.right_transposed,
      matrixAt_transpose_kept M h.product.left h.reversed.right h.left_writable h.left_transposed
        h.product.right h.right_kept,
      matrixAt_transpose_kept M h.product.right h.reversed.left h.right_writable
        h.right_transposed h.reversed.right h.left_kept,
      matrixAt_transpose M h.product.left h.reversed.right h.left_writable h.left_transposed]

/-- A matrix with two rows and two columns at an address. -/
def squareAt (p : Int) : Tensor :=
  { dtype := .fp32, shape := ⟨[2, 2]⟩, strides := [2, 1], data := p, nbytes := 16, align := 4,
    ownership := .borrowed, device := .cpu, readOnly := false, contiguous := true,
    quant := QuantMeta.zero }

/-- Two such matrices in a row. -/
def squaresAt (p : Int) : Tensor :=
  { squareAt p with shape := ⟨[2, 2, 2]⟩, strides := [4, 2, 1], nbytes := 32 }

theorem squareAt_isMatrix {p : Int} (h : hbiTensorValidate (squareAt p) = .ok ()) :
    (squareAt p).IsMatrix 2 2 :=
  ⟨⟨Tensor.valid_of_validate h, rfl, rfl⟩, rfl⟩

theorem squaresAt_isBatch {p : Int} (h : hbiTensorValidate (squaresAt p) = .ok ()) (hp : 0 < p) :
    (squaresAt p).IsBatch 2 2 2 :=
  ⟨⟨Tensor.valid_of_validate h, rfl, rfl⟩, rfl, hp⟩

theorem squareAt_apart {p q : Int} (h : p + 16 ≤ q ∨ q + 16 ≤ p) :
    (squareAt p).Apart (squareAt q) := by
  rintro x ⟨⟨hpx, hxp⟩, hqx, hxq⟩
  simp only [squareAt, Nat.cast_ofNat] at hpx hxp hqx hxq
  omega

theorem squaresAt_apart {p q : Int} (h : p + 32 ≤ q) : (squaresAt p).Apart (squaresAt q) := by
  rintro x ⟨⟨hpx, hxp⟩, hqx, hxq⟩
  simp only [squaresAt, squareAt, Nat.cast_ofNat] at hpx hxp hqx hxq
  omega

/-- The addresses of the operands. -/
def squarePlaces : List Int := [64, 128, 192, 256, 320, 384, 448]

/-- Every word holds its place behind address 64. -/
def countingWords (p : Int) : Nat := (p / 4 - 16).toNat

theorem matrix_kernels_compute_products_squares :
    hbiTensorWrap .fp32 ⟨[2, 2]⟩ 64 16 = .ok (squareAt 64) ∧
      hbiTensorWrap .fp32 ⟨[2, 2, 2]⟩ 64 32 = .ok (squaresAt 64) ∧
      ∀ base : KernelFloat Nat,
        let run := fun (k : Kernel) (inputs : List (Option Tensor)) (out : Tensor)
            (params : KernelParams) (s : Int → Nat) =>
          (cpuRun base.overSemiring (cellMachine Nat) k ⟨inputs, [some out], params⟩
            KernelWorkspace.empty s).2
        let product := run cpuMatmul [some (squareAt 64), some (squareAt 128)] (squareAt 192)
          KernelParams.zero countingWords
        let products := run cpuBatchedMatmul [some (squaresAt 64), some (squaresAt 128)]
          (squaresAt 192) KernelParams.zero countingWords
        let transposed := run cpuTranspose [some (squareAt 192)] (squareAt 256) ⟨.invalid, 0, 1⟩
          product
        let factors := run cpuTranspose [some (squareAt 128)] (squareAt 384) ⟨.invalid, 0, 1⟩
          (run cpuTranspose [some (squareAt 64)] (squareAt 320) ⟨.invalid, 0, 1⟩ countingWords)
        let reversed := run cpuMatmul [some (squareAt 384), some (squareAt 320)] (squareAt 448)
          KernelParams.zero factors
        matrixAt (cellMachine Nat) product (squareAt 192) 2 2 = !![18, 19; 86, 91] ∧
          matrixAt (cellMachine Nat) products (batchPart (squaresAt 192) 1) 2 2 =
            !![190, 199; 274, 287] ∧
          matrixAt (cellMachine Nat) transposed (squareAt 256) 2 2 =
            matrixAt (cellMachine Nat) reversed (squareAt 448) 2 2 := by
  refine ⟨by decide +kernel, by decide +kernel, fun base => ?_⟩
  have hvalid : ∀ p ∈ squarePlaces, hbiTensorValidate (squareAt p) = .ok () := by decide +kernel
  have hvalids : ∀ p ∈ [64, 128, 192], hbiTensorValidate (squaresAt p) = .ok () := by
    decide +kernel
  have hmatrix : ∀ p ∈ squarePlaces, (squareAt p).IsMatrix 2 2 :=
    fun p hp => squareAt_isMatrix (hvalid p hp)
  have hcall : ∀ p ∈ squarePlaces, ∀ q ∈ squarePlaces, ∀ r ∈ squarePlaces,
      MatmulCall (squareAt p) (squareAt q) (squareAt r) 2 2 2 :=
    fun p hp q hq r hr => ⟨hmatrix p hp, hmatrix q hq, hmatrix r hr, rfl⟩
  have hbatch : BatchedCall (squaresAt 64) (squaresAt 128) (squaresAt 192) 2 2 2 2 :=
    ⟨squaresAt_isBatch (hvalids 64 (by decide)) (by decide),
      squaresAt_isBatch (hvalids 128 (by decide)) (by decide),
      squaresAt_isBatch (hvalids 192 (by decide)) (by decide), rfl⟩
  obtain ⟨hproduct, hbatched, hreversed⟩ := matrix_kernels_compute_products base (cellMachine Nat)
    KernelParams.zero KernelWorkspace.empty countingWords
  refine ⟨?_, ?_, ?_⟩
  · refine (hproduct _ _ _ 2 2 2 (hcall 64 (by decide) 128 (by decide) 192 (by decide))
      (squareAt_apart (by decide)) (squareAt_apart (by decide))).2.trans ?_
    decide +kernel
  · have hslice := (hbatched _ _ _ 2 2 2 2 hbatch).2.2 (squaresAt_apart (by decide))
      (squaresAt_apart (by decide)) 1 (by decide)
    refine hslice.trans ((hproduct _ _ _ 2 2 2 (hbatch.part (by decide)) ?_ ?_).2.trans ?_)
    · exact hbatch.left.part_apart hbatch.result (squaresAt_apart (by decide)) (by decide)
        (by decide)
    · exact hbatch.right.part_apart hbatch.result (squaresAt_apart (by decide)) (by decide)
        (by decide)
    · decide +kernel
  · refine hreversed (squareAt 64) (squareAt 128) (squareAt 192) (squareAt 256) (squareAt 320)
      (squareAt 384) (squareAt 448) 2 2 2 ⟨hcall 64 (by decide) 128 (by decide) 192 (by decide),
        hmatrix 256 (by decide), rfl, hcall 384 (by decide) 320 (by decide) 448 (by decide), rfl,
        rfl, ?_, ?_, ?_, ?_, ?_, ?_, ?_, ?_, ?_⟩
    all_goals exact squareAt_apart (by decide)

end Hummingbird

import Hummingbird.Kernel.Bodies
import Hummingbird.Tensor.Copied
import Hummingbird.Tensor.Ranges

/-!
The transpose kernel and the transpose view. The kernel walks over the input in row-major
order and scatters; a clone of the view walks over the output and gathers. Both are read as
one value for every index of the output.
-/

namespace Strided

theorem swapAt_swapAt {xs : List Int} {a b : Nat} (ha : a < xs.length) (hb : b < xs.length) :
    swapAt (swapAt xs a b) a b = xs := by
  have hlen := length_swapAt xs a b
  apply List.ext_getElem (by rw [length_swapAt, hlen])
  intro k hk hk'
  have hget := getD_swapAt (k := k) (hlen.symm ▸ ha) (hlen.symm ▸ hb)
  rw [getD_swapAt ha hb, Equiv.swap_apply_self] at hget
  simpa [List.getD_eq_getElem?_getD, hk, hk'] using hget

theorem foldl_offset {n : Nat} (f : Nat → Int) :
    (List.range n).foldl (fun acc k => acc + f k) 0 = ∑ k ∈ Finset.range n, f k := by
  induction n with
  | zero => rfl
  | succ n ih =>
      rw [List.range_succ, List.foldl_append, ih, Finset.sum_range_succ]
      rfl

end Strided

namespace Hummingbird

open Accesses

/-- The destination offset is that of the index with the two axes exchanged. -/
theorem transposeOffset_eq {axa axb rank : Nat} {ostr idx : List Int} (hA : axa < rank)
    (hB : axb < rank) (hidx : idx.length = rank) (hostr : ostr.length = rank) :
    transposeOffset axa axb rank ostr idx = Strided.offset (Strided.swapAt idx axa axb) ostr := by
  rw [Strided.offset_eq_sum (by rw [Strided.length_swapAt, hidx]) hostr, transposeOffset,
    Strided.foldl_offset]
  apply Finset.sum_congr rfl
  intro k _
  rw [Strided.getD_swapAt (hidx.symm ▸ hA) (hidx.symm ▸ hB), Equiv.swap_apply_def]

/-- A contiguous float operand. -/
structure Tensor.F32Array (t : Tensor) : Prop where
  valid : t.Valid
  contiguous_eq : t.contiguous = true
  dtype_eq : t.dtype = .fp32

section Array

variable {t : Tensor} (h : t.F32Array)

include h

theorem Tensor.F32Array.bits_eq : hbiDtypeBits t.dtype = 8 * 4 := by
  rw [h.dtype_eq]
  rfl

theorem Tensor.F32Array.strides_eq : t.strides = Strided.rowMajor t.shape.dims :=
  h.valid.strides_rowMajor h.contiguous_eq

theorem Tensor.F32Array.elemCount_eq : elemCount t = t.shape.dims.prod.toNat := by
  rw [elemCount, h.valid.laid.shape_valid.elemCount]

theorem Tensor.F32Array.prod_pos : 0 < t.shape.dims.prod := h.valid.laid.shape_valid.prod_pos

/-- The element at an index lies at its row-major rank. -/
theorem Tensor.F32Array.elemAddr_eq (idx : List Int) :
    t.elemAddr idx = f32At t (Strided.linear t.shape.dims idx) := by
  rw [Tensor.elemAddr_rowMajor h.bits_eq h.strides_eq, f32At]
  push_cast
  ring

/-- The words of the elements lie in the buffer. -/
theorem Tensor.F32Array.covers {i a : Int} (hlo : 0 ≤ i) (hhi : i < t.shape.dims.prod)
    (ha : f32At t i ≤ a ∧ a < f32At t i + 4) : t.Covers a := by
  obtain ⟨bytes, -, hmul, hle⟩ := h.valid.packed_bytes h.contiguous_eq h.bits_eq
  unfold f32At at ha
  exact ⟨by omega, by push_cast at hmul; omega⟩

theorem Tensor.F32Array.count_lt {i : Nat} (hi : i < elemCount t) :
    (i : Int) < t.shape.dims.prod := by
  rw [h.elemCount_eq] at hi
  omega

end Array

theorem f32At_apart (t : Tensor) {i j : Int} (h : i ≠ j) :
    WordsApart (f32At t i) (f32At t j) := by
  unfold WordsApart f32At
  omega

/-- Words in buffers that do not overlap are apart. -/
theorem Tensor.Apart.words {t u : Tensor} (h : t.Apart u) (ht : t.F32Array) (hu : u.F32Array)
    {i j : Int} (hi : 0 ≤ i ∧ i < t.shape.dims.prod) (hj : 0 ≤ j ∧ j < u.shape.dims.prod) :
    WordsApart (f32At t i) (f32At u j) := by
  by_contra hnot
  unfold WordsApart at hnot
  rcases le_total (f32At t i) (f32At u j) with hle | hle
  · exact h (f32At u j)
      ⟨ht.covers hi.1 hi.2 ⟨hle, by omega⟩, hu.covers hj.1 hj.2 ⟨le_rfl, by omega⟩⟩
  · exact h (f32At t i)
      ⟨ht.covers hi.1 hi.2 ⟨le_rfl, by omega⟩, hu.covers hj.1 hj.2 ⟨hle, by omega⟩⟩

/-- What the transpose kernel asks of its operands. -/
structure TransposeCall (params : KernelParams) (input out : Tensor) : Prop where
  array : input.F32Array
  outArray : out.F32Array
  axisA_lt : params.axisA < input.shape.rank
  axisB_lt : params.axisB < input.shape.rank
  shape_eq : out.shape = ⟨Strided.swapAt input.shape.dims params.axisA params.axisB⟩
  writable : out.readOnly = false

theorem TransposeCall.run_eq {params : KernelParams} {input out : Tensor}
    (h : TransposeCall params input out) (ws : KernelWorkspace) :
    cpuTransposeRun ⟨[some input], [some out], params⟩ ws = .ok () := by
  have haxes : ¬ (input.shape.rank ≤ params.axisA ∨ input.shape.rank ≤ params.axisB) := by
    have := h.axisA_lt
    have := h.axisB_lt
    omega
  simp [cpuTransposeRun, requireArity, requireInputs, requireOutputs, requireContiguous,
    KernelArgs.input, KernelArgs.output, h.writable, h.array.contiguous_eq,
    h.outArray.contiguous_eq, h.array.valid.data_ne, h.outArray.valid.data_ne, h.array.dtype_eq,
    h.outArray.dtype_eq, haxes, h.shape_eq, hbiShapeEqual,
    h.array.valid.laid.shape_valid.elemCount, bind, Except.bind, pure, Except.pure]

section Call

variable {params : KernelParams} {input out : Tensor} (h : TransposeCall params input out)

/-- The rank in the output of the input's element of rank `k`. -/
def transposeRank (params : KernelParams) (input out : Tensor) (k : Nat) : Int :=
  Strided.linear out.shape.dims
    (Strided.swapAt (Strided.unravel input.shape.dims k) params.axisA params.axisB)

include h

/-- Exchanging the axes takes the indices of either shape to those of the other. -/
theorem TransposeCall.swap_inBounds {idx : List Int} :
    (Strided.InBounds input.shape.dims idx →
      Strided.InBounds out.shape.dims (Strided.swapAt idx params.axisA params.axisB)) ∧
    (Strided.InBounds out.shape.dims idx →
      Strided.InBounds input.shape.dims (Strided.swapAt idx params.axisA params.axisB)) := by
  have hA : params.axisA < input.shape.dims.length := h.axisA_lt
  have hB : params.axisB < input.shape.dims.length := h.axisB_lt
  have hlen := Strided.length_swapAt input.shape.dims params.axisA params.axisB
  have hback := Strided.swapAt_swapAt hA hB
  rw [h.shape_eq]
  refine ⟨fun hidx => ?_, fun hidx => ?_⟩
  · exact (Strided.transpose_embeds (hlen.symm ▸ hA) (hlen.symm ▸ hB)
      (Strided.length_rowMajor _)).inBounds idx (by rwa [hback])
  · exact (Strided.transpose_embeds hA hB (Strided.length_rowMajor _)).inBounds idx hidx

theorem TransposeCall.unravel_inBounds {k : Nat} (hk : k < elemCount input) :
    Strided.InBounds input.shape.dims (Strided.unravel input.shape.dims k) :=
  Strided.unravel_inBounds h.array.valid.laid.shape_valid.dims_pos (by omega)
    (h.array.count_lt hk)

theorem TransposeCall.rank_range {k : Nat} (hk : k < elemCount input) :
    0 ≤ transposeRank params input out k ∧
      transposeRank params input out k < out.shape.dims.prod := by
  have hin := h.swap_inBounds.1 (h.unravel_inBounds hk)
  exact ⟨Strided.linear_nonneg hin, Strided.linear_lt_prod hin⟩

/-- Different elements go to different places. -/
theorem TransposeCall.rank_ne {i j : Nat} (hi : i < elemCount input) (hj : j < elemCount input)
    (hne : i ≠ j) : transposeRank params input out i ≠ transposeRank params input out j := by
  intro heq
  have hin := h.unravel_inBounds hi
  have hjn := h.unravel_inBounds hj
  have hswap := Strided.linear_injOn (h.swap_inBounds.1 hin) (h.swap_inBounds.1 hjn) heq
  have hlen : ∀ {idx}, Strided.InBounds input.shape.dims idx → params.axisA < idx.length ∧
      params.axisB < idx.length := by
    intro idx hidx
    rw [hidx.length_eq]
    exact ⟨h.axisA_lt, h.axisB_lt⟩
  have hsame := congrArg (fun idx => Strided.swapAt idx params.axisA params.axisB) hswap
  simp only [Strided.swapAt_swapAt (hlen hin).1 (hlen hin).2,
    Strided.swapAt_swapAt (hlen hjn).1 (hlen hjn).2] at hsame
  have hrank := congrArg (Strided.linear input.shape.dims) hsame
  have hpos := h.array.valid.laid.shape_valid.dims_pos
  rw [Strided.linear_unravel hpos (by omega) (h.array.count_lt hi),
    Strided.linear_unravel hpos (by omega) (h.array.count_lt hj)] at hrank
  omega

/-- The element of the output at an index comes from the input's at the exchanged one. -/
theorem TransposeCall.exists_rank {idx : List Int} (hidx : Strided.InBounds out.shape.dims idx) :
    ∃ k < elemCount input,
      f32At out (transposeRank params input out k) = out.elemAddr idx ∧
        f32At input k = input.elemAddr (Strided.swapAt idx params.axisA params.axisB) := by
  have hin := h.swap_inBounds.2 hidx
  obtain ⟨k, hk, hunravel, hlinear⟩ := Strided.exists_rank hin
  have hA : params.axisA < idx.length := by
    rw [hidx.length_eq, h.shape_eq, Strided.length_swapAt]
    exact h.axisA_lt
  have hB : params.axisB < idx.length := by
    rw [hidx.length_eq, h.shape_eq, Strided.length_swapAt]
    exact h.axisB_lt
  refine ⟨k, by rwa [h.array.elemCount_eq], ?_, ?_⟩
  · rw [h.outArray.elemAddr_eq, transposeRank, hunravel, Strided.swapAt_swapAt hA hB]
  · rw [h.array.elemAddr_eq, ← hlinear]

/-- The odometer's state is the index of the turn, so the body is a loop that stores every
element of the input at its new rank. -/
theorem TransposeCall.body_eq {F : Type} :
    (cpuTransposeBody params input out : Prog F Unit) =
      each (elemCount input) fun k =>
        load (f32At input k) >>= store (f32At out (transposeRank params input out k)) := by
  have hpos := h.array.valid.laid.shape_valid.dims_pos
  have hprod := h.array.prod_pos
  have hzero : List.replicate input.shape.rank 0 =
      Strided.unravel input.shape.dims (((0 : Nat) : Int) % input.shape.dims.prod) := by
    rw [Nat.cast_zero, Int.zero_emod, Strided.unravel_zero]
    rfl
  unfold cpuTransposeBody
  dsimp only
  rw [hzero, @loop_eq_each F _ _ (fun k => Strided.unravel input.shape.dims
    ((k : Int) % input.shape.dims.prod)) _ fun k => load (f32At input k) >>=
      store (f32At out (transposeRank params input out k))]
  · rw [Prog.bind_assoc]
    exact Prog.bind_pure _
  · intro k hk
    have hlt := h.array.count_lt hk
    have hmod : (k : Int) % input.shape.dims.prod = k := Int.emod_eq_of_lt (by omega) hlt
    have hlen := (h.unravel_inBounds hk).length_eq
    have hout : out.strides.length = input.shape.rank := by
      rw [h.outArray.valid.laid.strides_len, h.shape_eq]
      exact Strided.length_swapAt _ _ _
    rw [hmod, transposeOffset_eq h.axisA_lt h.axisB_lt hlen hout, h.outArray.strides_eq,
      odometerStep_unravel hpos (by omega) hlt, Nat.cast_add_one, Prog.bind_assoc]
    rfl

/-- Where a word of the output comes from. -/
def transposeSource (params : KernelParams) (input out : Tensor) (a : Int) : Int :=
  input.elemAddr (Strided.swapAt (Strided.unravel out.shape.dims ((a - out.data) / 4))
    params.axisA params.axisB)

theorem TransposeCall.source_eq {k : Nat} (hk : k < elemCount input) :
    transposeSource params input out (f32At out (transposeRank params input out k)) =
      f32At input k := by
  have hidx := h.unravel_inBounds hk
  have hpos := h.array.valid.laid.shape_valid.dims_pos
  have hA : params.axisA < (Strided.unravel input.shape.dims k).length := by
    rw [hidx.length_eq]
    exact h.axisA_lt
  have hB : params.axisB < (Strided.unravel input.shape.dims k).length := by
    rw [hidx.length_eq]
    exact h.axisB_lt
  have hrank : (f32At out (transposeRank params input out k) - out.data) / 4 =
      transposeRank params input out k := by
    unfold f32At
    omega
  rw [transposeSource, hrank, transposeRank, Strided.unravel_linear (h.swap_inBounds.1 hidx),
    Strided.swapAt_swapAt hA hB, h.array.elemAddr_eq,
    Strided.linear_unravel hpos (by omega) (h.array.count_lt hk)]

/-- What the kernel leaves in memory, on any machine. -/
theorem TransposeCall.puts {F σ : Type} (M : Machine F σ) (hapart : input.Apart out) (s : σ) :
    M.Puts {a | ∃ k < elemCount input, a = f32At out (transposeRank params input out k)}
      (fun a => M.load s (transposeSource params input out a)) s
      (M.run (cpuTransposeBody params input out) s).2 := by
  rw [h.body_eq]
  apply M.puts_gather
  · intro i hi j hj
    exact f32At_apart out (h.rank_ne hi (by omega) (by omega))
  · intro k hk s' hkept
    rw [M.run_load, h.source_eq hk, hkept]
    intro j hj
    have := hapart.words h.array h.outArray ⟨by omega, h.array.count_lt hk⟩ (h.rank_range hj)
    exact this.symm

/-- Every element of the output is the input's at the exchanged index. -/
theorem TransposeCall.load_eq {F σ : Type} (M : Machine F σ) (hapart : input.Apart out) (s : σ)
    {idx : List Int} (hidx : Strided.InBounds out.shape.dims idx) :
    M.load (M.run (cpuTransposeBody params input out) s).2 (out.elemAddr idx) =
      M.load s (input.elemAddr (Strided.swapAt idx params.axisA params.axisB)) := by
  obtain ⟨k, hk, hdst, hsrc⟩ := h.exists_rank hidx
  rw [← hdst, ← hsrc, ← h.source_eq hk]
  exact (h.puts M hapart s).put _ ⟨k, hk, rfl⟩

/-- The accesses of the body: each element is loaded and stored in turn. -/
theorem TransposeCall.trace_eq {F σ : Type} (M : Machine F σ) (s : σ) :
    M.trace (cpuTransposeBody params input out) s =
      (List.range (elemCount input)).flatMap fun k =>
        [.read (f32At input k) 4, .write (f32At out (transposeRank params input out k)) 4] := by
  rw [h.body_eq]
  exact M.trace_each fun k _ s => rfl

/-- No other word is written, and none of these twice. -/
theorem TransposeCall.writes_once {F σ : Type} (M : Machine F σ) (s : σ) :
    (∀ idx, Strided.InBounds out.shape.dims idx →
      (M.trace (cpuTransposeBody params input out) s).count (.write (out.elemAddr idx) 4) = 1) ∧
    ∀ a n, Access.write a n ∈ M.trace (cpuTransposeBody params input out) s →
      n = 4 ∧ ∃ idx, Strided.InBounds out.shape.dims idx ∧ a = out.elemAddr idx := by
  rw [h.trace_eq]
  refine ⟨fun idx hidx => ?_, ?_⟩
  · obtain ⟨k, hk, hdst, -⟩ := h.exists_rank hidx
    rw [← hdst, List.count_flatMap]
    have hcount : ∀ i ∈ List.range (elemCount input),
        ([Access.read (f32At input i) 4, .write (f32At out (transposeRank params input out i)) 4]
          : List Access).count (.write (f32At out (transposeRank params input out k)) 4) =
        if i = k then 1 else 0 := by
      intro i hi
      by_cases hik : i = k
      · subst hik
        simp
      · have hne := h.rank_ne (List.mem_range.mp hi) hk hik
        have haddr : f32At out (transposeRank params input out i) ≠
            f32At out (transposeRank params input out k) := by
          unfold f32At
          omega
        simp [hik, haddr]
    rw [Function.comp_def, List.map_congr_left hcount, ← List.sum_toFinset _ List.nodup_range,
      List.toFinset_range, Finset.sum_ite_eq', if_pos (Finset.mem_range.mpr hk)]
  · intro a n hmem
    obtain ⟨k, hk, hk'⟩ := List.mem_flatMap.mp hmem
    have hlt := List.mem_range.mp hk
    simp only [List.mem_cons, List.not_mem_nil, or_false, reduceCtorEq, false_or,
      Access.write.injEq] at hk'
    refine ⟨hk'.2, _, h.swap_inBounds.1 (h.unravel_inBounds hlt), ?_⟩
    rw [hk'.1, h.outArray.elemAddr_eq]
    rfl

end Call

/-- The entry of the transpose kernel in the table of the backend. -/
def cpuTranspose : Kernel := cpuKernel .transpose "cpu.transpose.fp32" kFp32Only cpuTransposeRun

theorem TransposeCall.cpuRun_eq {params : KernelParams} {input out : Tensor}
    (h : TransposeCall params input out) {F σ : Type} (ops : KernelFloat F) (M : Machine F σ)
    (ws : KernelWorkspace) (s : σ) :
    cpuRun ops M cpuTranspose ⟨[some input], [some out], params⟩ ws s =
      (.ok (), (M.run (cpuTransposeBody params input out) s).2) := by
  have hrun : cpuTranspose.run ⟨[some input], [some out], params⟩ ws = .ok () := h.run_eq ws
  rw [cpuRun, hrun]
  rfl

theorem TransposeCall.cpuTrace_eq {params : KernelParams} {input out : Tensor}
    (h : TransposeCall params input out) {F σ : Type} (ops : KernelFloat F) (M : Machine F σ)
    (ws : KernelWorkspace) (s : σ) :
    cpuTrace ops M cpuTranspose ⟨[some input], [some out], params⟩ ws s =
      M.trace (cpuTransposeBody params input out) s := by
  have hrun : cpuTranspose.run ⟨[some input], [some out], params⟩ ws = .ok () := h.run_eq ws
  rw [cpuTrace, hrun]
  rfl

/-- A word that is moved takes its bytes along, so that the elements are the same. -/
theorem elem_eq_of_load {t u : Tensor} {m m' : Memory} {idx idx' : List Int}
    (ht : hbiDtypeBits t.dtype = 8 * 4) (hu : hbiDtypeBits u.dtype = 8 * 4)
    (h : byteMachine.load m' (t.elemAddr idx) = byteMachine.load m (u.elemAddr idx')) :
    t.elem m' idx = u.elem m idx' := by
  apply Tensor.elem_congr ht hu
  intro j hj
  exact congrFun h ⟨j, hj⟩

section View

variable {params : KernelParams} {input out : Tensor} (h : TransposeCall params input out)

include h

/-- The transpose view is there, and shows the input's elements at the exchanged indices. -/
theorem TransposeCall.view_exists :
    ∃ v, hbiTensorTranspose input params.axisA params.axisB = .ok v ∧ v.Valid ∧
      v.dtype = .fp32 ∧ v.shape = out.shape ∧ (∀ a, v.Covers a → input.Covers a) ∧
      ∀ idx, Strided.InBounds out.shape.dims idx →
        v.elemAddr idx = input.elemAddr (Strided.swapAt idx params.axisA params.axisB) := by
  have hlaid := h.array.valid.laid
  have hA : params.axisA < input.shape.dims.length := h.axisA_lt
  have hB : params.axisB < input.shape.dims.length := h.axisB_lt
  have hdims := swapAt_perm hA hB
  have hstr := swapAt_perm (hlaid.strides_len ▸ h.axisA_lt) (hlaid.strides_len ▸ h.axisB_lt)
  have hpos : ∀ d ∈ Strided.swapAt input.shape.dims params.axisA params.axisB, 0 < d :=
    fun d hd => hlaid.shape_valid.dims_pos d (hdims.mem_iff.mp hd)
  have hnonneg : ∀ r ∈ Strided.swapAt input.strides params.axisA params.axisB, 0 ≤ r :=
    fun r hr => hlaid.strides_nonneg r (hstr.mem_iff.mp hr)
  have hpacks := hlaid.packs hpos hnonneg (Strided.transpose_embeds hA hB hlaid.strides_len)
  obtain ⟨v, hv⟩ := (@refreshLayout_iff { viewSeed input with
    shape := ⟨Strided.swapAt input.shape.dims params.axisA params.axisB⟩
    strides := Strided.swapAt input.strides params.axisA params.axisB } hlaid.dtype_valid hpos
    hnonneg).mpr hpacks
  have hview : hbiTensorTranspose input params.axisA params.axisB = .ok v := by
    have haxes : ¬ (params.axisA ≥ input.shape.rank ∨ params.axisB ≥ input.shape.rank) := by
      have := h.axisA_lt
      have := h.axisB_lt
      omega
    have hsub : hbiDtypeIsSubByte input.dtype = false := by
      rw [h.array.dtype_eq]
      rfl
    rw [hbiTensorTranspose, if_neg haxes, if_neg (by simp [hsub])]
    exact hv
  obtain ⟨hstep, hspan, hshape⟩ := hbiTensorTranspose_step hlaid hview
  have hdata : v.data = input.data := by
    rw [hstep.data_eq]
    simp
  have hbyte : input.dtype.ByteAddressable := by
    rw [h.array.dtype_eq]
    decide
  have hdtype : v.dtype = .fp32 := hstep.dtype_eq.trans h.array.dtype_eq
  have hextent := hstep.embeds.extent_le hstep.laid.shape_valid.dims_pos hlaid.strides_nonneg
  have hzero := Strided.extent_nonneg hstep.laid.shape_valid.dims_pos hstep.laid.strides_nonneg
  have hbytes := ((hbiDtypePackedNbytes_eq_ok hstep.laid.dtype_valid (by omega)).mp hspan).2
  have hin := h.array.valid.span_le
  rw [h.array.bits_eq] at hin
  rw [hdtype] at hbytes
  have hbits : hbiDtypeBits .fp32 = 32 := rfl
  rw [hbits] at hbytes
  refine ⟨v, hview, ⟨hstep.laid, ?_, ?_⟩, hdtype, hshape.trans h.shape_eq.symm, ?_, ?_⟩
  · rw [hdata]
    exact h.array.valid.data_ne
  · rw [hdtype, hbits, hbytes]
  · rintro a ⟨hlo, hhi⟩
    rw [hdata] at hlo hhi
    exact ⟨hlo, by push_cast at hin hbytes; omega⟩
  · intro idx hidx
    apply hstep.elemAddr_eq hbyte
    rw [hshape]
    rwa [h.shape_eq] at hidx

end View

/-- On any memory, the kernel succeeds; every element of its output is that of the clone of the
transpose view, in whatever fresh buffer the clone is; each element is written once and nothing
else is; and the same call on the output, into any other buffer, gives back the input. -/
theorem transpose_kernel_is_clone {params : KernelParams} {input out : Tensor}
    (h : TransposeCall params input out) (hapart : input.Apart out) (ops : KernelFloat F32)
    (ws : KernelWorkspace) (m : Memory) :
    let run := cpuRun ops byteMachine cpuTranspose ⟨[some input], [some out], params⟩ ws m
    let trace := cpuTrace ops byteMachine cpuTranspose ⟨[some input], [some out], params⟩ ws m
    run.1 = .ok () ∧
      (∃ v, hbiTensorTranspose input params.axisA params.axisB = .ok v ∧
        ∀ block clone, hbiTensorAlloc v.dtype v.shape block = .ok clone → input.Apart clone →
          ∃ m', hbiTensorClone m v block = .ok (m', { clone with quant := v.quant }) ∧
            clone.shape = out.shape ∧
            ∀ idx, Strided.InBounds out.shape.dims idx →
              out.elem run.2 idx = clone.elem m' idx) ∧
      ((∀ idx, Strided.InBounds out.shape.dims idx →
          trace.count (.write (out.elemAddr idx) 4) = 1) ∧
        ∀ a n, .write a n ∈ trace →
          n = 4 ∧ ∃ idx, Strided.InBounds out.shape.dims idx ∧ a = out.elemAddr idx) ∧
      ∀ back, TransposeCall params out back → out.Apart back →
        back.shape = input.shape ∧
          ∀ idx, Strided.InBounds input.shape.dims idx →
            back.elem (cpuRun ops byteMachine cpuTranspose ⟨[some out], [some back], params⟩ ws
              run.2).2 idx = input.elem m idx := by
  intro run trace
  have hrun : run = (.ok (), (byteMachine.run (cpuTransposeBody params input out) m).2) :=
    h.cpuRun_eq ops byteMachine ws m
  have htrace : trace = byteMachine.trace (cpuTransposeBody params input out) m :=
    h.cpuTrace_eq ops byteMachine ws m
  refine ⟨by rw [hrun], ?_, by rw [htrace]; exact h.writes_once byteMachine m, ?_⟩
  · obtain ⟨v, hview, hvalid, hdtype, hshape, hcovers, haddr⟩ := h.view_exists
    refine ⟨v, hview, fun block clone halloc hfresh => ?_⟩
    have hbits : hbiDtypeBits v.dtype = 8 * 4 := by
      rw [hdtype]
      rfl
    have hbyte : v.dtype.ByteAddressable := by
      rw [hdtype]
      decide
    obtain ⟨hcdtype, hcshape, -⟩ := tensorAllocImpl_fields halloc
    obtain ⟨m', hclone, helem, -⟩ := hbiTensorClone_copies (m := m) hvalid hbits (by norm_num)
      hbyte halloc fun a ha => hfresh a ⟨hcovers a ha.1, ha.2⟩
    refine ⟨m', hclone, hcshape.trans hshape, fun idx hidx => ?_⟩
    rw [helem idx (by rwa [hshape])]
    apply elem_eq_of_load h.outArray.bits_eq hbits
    rw [hrun, h.load_eq byteMachine hapart m hidx, haddr idx hidx]
  · intro back hback hapart'
    have hA : params.axisA < input.shape.dims.length := h.axisA_lt
    have hB : params.axisB < input.shape.dims.length := h.axisB_lt
    have hshape : back.shape = input.shape := by
      rw [hback.shape_eq, h.shape_eq]
      simp only [Strided.swapAt_swapAt hA hB]
    refine ⟨hshape, fun idx hidx => ?_⟩
    have hback' := hidx
    rw [← hshape] at hback'
    apply elem_eq_of_load hback.outArray.bits_eq h.array.bits_eq
    rw [hback.cpuRun_eq, hback.load_eq byteMachine hapart' _ hback', hrun,
      h.load_eq byteMachine hapart m (h.swap_inBounds.1 hidx),
      Strided.swapAt_swapAt (hidx.length_eq ▸ hA) (hidx.length_eq ▸ hB)]

theorem transpose_kernel_is_clone_of_matrix :
    ∃ input out : Tensor, hbiTensorWrap .fp32 ⟨[2, 3]⟩ 64 24 = .ok input ∧
      hbiTensorWrap .fp32 ⟨[3, 2]⟩ 128 24 = .ok out ∧
      ∀ (ops : KernelFloat F32) (m : Memory),
        (cpuTrace ops byteMachine cpuTranspose ⟨[some input], [some out], ⟨.invalid, 0, 1⟩⟩
          KernelWorkspace.empty m).count (.write (out.elemAddr [2, 1]) 4) = 1 := by
  refine ⟨_, _, rfl, rfl, fun ops m => ?_⟩
  refine (transpose_kernel_is_clone ⟨⟨Tensor.valid_of_validate ?_, ?_, ?_⟩,
    ⟨Tensor.valid_of_validate ?_, ?_, ?_⟩, ?_, ?_, ?_, ?_⟩ ?_ ops _ m).2.2.1.1 [2, 1] ?_
  case refine_11 =>
    rintro a ⟨hin, hout⟩
    have hhi : a < 64 + 24 := hin.2
    have hlo : 128 ≤ a := hout.1
    omega
  all_goals decide +kernel

end Hummingbird

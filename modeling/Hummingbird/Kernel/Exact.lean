import Hummingbird.Foundation.Softmax
import Hummingbird.Kernel.Rows

/-!
The row kernels and the reductions over the real numbers: what they would compute if no
operation rounded.
-/

namespace Hummingbird

open Accesses Finset

/-- The real numbers in the place of `float`. What a byte or a double stands for is left open. -/
noncomputable def KernelFloat.overReal (base : KernelFloat ℝ) : KernelFloat ℝ :=
  { base with
    lit := fun q => (q : ℝ)
    ofInt := fun i => (i : ℝ)
    add := (· + ·)
    sub := (· - ·)
    mul := (· * ·)
    div := (· / ·)
    neg := fun x => -x
    lt := fun x y => decide (x < y)
    expf := Real.exp
    sqrtf := Real.sqrt }

/-- The constant that the normalisation adds to the mean square. -/
noncomputable def rmsnormEps : ℝ := 1 / 100000

theorem rmsnormEps_pos : 0 < rmsnormEps := by
  unfold rmsnormEps
  positivity

section Values

variable (base : KernelFloat ℝ) {n : Nat} {x w : Nat → ℝ} {i : Nat}

theorem rowSum_overReal (n : Nat) (x : Nat → ℝ) :
    rowSum base.overReal n x = ∑ i ∈ range n, x i := by
  rw [← Rows.foldl_sum, rowSum]
  congr 1
  exact Rat.cast_zero

/-- Whatever was taken off before the exponentials, the result is the softmax. -/
theorem softmaxRow_overReal : softmaxRow base.overReal n x i = Rows.softmax n x i := by
  rw [← Rows.softmax_sub n x (rowMax base.overReal (n - 1) x), softmaxRow, rowSum_overReal]
  rfl

theorem rmsnormRow_overReal : rmsnormRow base.overReal n x w i =
    x i / √(Rows.meanSquare n x + rmsnormEps) * w i := by
  have hscale : rmsnormScale base.overReal n x = 1 / √(Rows.meanSquare n x + rmsnormEps) := by
    rw [rmsnormScale, rowSum_overReal, Rows.meanSquare, rmsnormEps]
    simp [KernelFloat.overReal]
  rw [rmsnormRow, hscale, ← mul_one_div (x i)]
  rfl

theorem rowMax_overReal (n : Nat) (x : Nat → ℝ) :
    IsGreatest (x '' Set.Iic n) (rowMax base.overReal n x) := by
  have hfold := @Rows.foldl_isGreatest n ℝ _ x
  unfold rowMax KernelFloat.overReal
  simpa only [decide_eq_true_eq] using hfold

end Values

section Calls

variable {σ : Type} (base : KernelFloat ℝ) (M : Machine ℝ σ) {args : KernelArgs}
  {ws : KernelWorkspace}

/-- Over the reals, the softmax kernel leaves in its output the softmax of its input, which it
may lie over: positive weights that add up to one, in the order of the numbers they belong to.
A number added to the whole input changes nothing, and the words outside are as they were. -/
theorem softmax_kernel_over_reals (hvalid : args.Valid) (hbeside : args.Alongside)
    (h : cpuSoftmax.run args ws = .ok ()) (s : σ) :
    ∃ x out, args.input 0 = some x ∧ args.output 0 = some out ∧
      let run := fun s => (cpuRun base.overReal M cpuSoftmax args ws s).2
      let y := fun s i => M.load (run s) (f32At out (i : Nat))
      (∀ i < elemCount x, y s i = Rows.softmax (elemCount x) (rowOf M s x) i ∧ 0 < y s i) ∧
        ∑ i ∈ range (elemCount x), y s i = 1 ∧
        (∀ i < elemCount x, ∀ j < elemCount x,
          y s i ≤ y s j ↔ M.load s (f32At x i) ≤ M.load s (f32At x j)) ∧
        (∀ s' m, (∀ i < elemCount x, rowOf M s' x i = rowOf M s x i + m) →
          ∀ i < elemCount x, y s' i = y s i) ∧
        ∀ b, (∀ i < elemCount x, WordsApart (f32At out i) b) →
          M.load (run s) b = M.load s b := by
  have hfilled : ∀ s, ∃ out, RowFilled base.overReal M args .softmax out s
      (cpuRun base.overReal M cpuSoftmax args ws s).2 :=
    rowKernel_filled base.overReal M ws hvalid hbeside (k := cpuSoftmax) (by simp [rowKernels]) h
  obtain ⟨out, hfill⟩ := hfilled s
  obtain ⟨x, hx, hshape⟩ := hfill.input_eq
  refine ⟨x, out, hx, hfill.output_eq, ?_⟩
  intro run y
  have hcount : elemCount x = elemCount out := by rw [elemCount, elemCount, hshape]
  have hpos : 0 < elemCount x := by
    have := hfill.array.count_pos
    omega
  have hvalue : ∀ s, ∀ i < elemCount x, y s i = Rows.softmax (elemCount x) (rowOf M s x) i := by
    intro s i hi
    obtain ⟨out', hfill'⟩ := hfilled s
    obtain rfl := Option.some.inj (hfill'.output_eq.symm.trans hfill.output_eq)
    rw [hcount] at hi ⊢
    rw [← softmaxRow_overReal base, ← KernelArgs.row_eq hx]
    exact hfill'.fills.filled i hi
  refine ⟨fun i hi => ⟨hvalue s i hi, ?_⟩, ?_, fun i hi j hj => ?_, fun s' m hm i hi => ?_, ?_⟩
  · rw [hvalue s i hi]
    exact Rows.softmax_pos hpos
  · rw [sum_congr rfl fun i hi => hvalue s i (mem_range.mp hi)]
    exact Rows.softmax_sum hpos _
  · rw [hvalue s i hi, hvalue s j hj]
    exact Rows.softmax_le_iff hpos
  · rw [hvalue s' i hi, hvalue s i hi, ← Rows.softmax_sub _ (rowOf M s' x) m]
    apply Rows.softmax_congr hi
    intro j hj
    rw [hm j hj, add_sub_cancel_right]
  · rw [hcount]
    exact hfill.fills.kept

/-- Two equal numbers, in place. -/
theorem softmax_kernel_over_reals_pair :
    ∃ x : Tensor, hbiTensorWrap .fp32 ⟨[2]⟩ 64 8 = .ok x ∧
      ∀ base : KernelFloat ℝ, (cellMachine ℝ).load (cpuRun base.overReal (cellMachine ℝ) cpuSoftmax
        ⟨[some x], [some x], KernelParams.zero⟩ KernelWorkspace.empty fun _ => 0).2
          (f32At x 0) = 1 / 2 := by
  obtain ⟨x, hx, hvalid, hcount, hrun⟩ : ∃ x, hbiTensorWrap .fp32 ⟨[2]⟩ 64 8 = .ok x ∧
      hbiTensorValidate x = .ok () ∧ elemCount x = 2 ∧
      cpuSoftmax.run ⟨[some x], [some x], KernelParams.zero⟩ KernelWorkspace.empty = .ok () :=
    ⟨_, rfl, by decide +kernel, rfl, rfl⟩
  refine ⟨x, hx, fun base => ?_⟩
  obtain ⟨y, out, hy, hout, hvalue, -⟩ := softmax_kernel_over_reals base (cellMachine ℝ)
    (unaryArgs_valid _ hvalid hvalid) (unaryArgs_alongside _ (Or.inl rfl)) hrun fun _ => 0
  cases hy
  cases hout
  refine (hvalue 0 (by omega)).1.trans ?_
  rw [hcount, Rows.softmax, sum_range_succ, sum_range_one]
  simp only [rowOf, cellMachine, Real.exp_zero]
  norm_num

/-- Over the reals, the normalisation divides its input by the root of its mean square, to which
it adds a constant first, and scales by the weights; before that, the mean square of the result
is less than one. The output may lie over the input or over the weights. -/
theorem rmsnorm_kernel_over_reals (hvalid : args.Valid) (hbeside : args.Alongside)
    (h : cpuRmsnorm.run args ws = .ok ()) (s : σ) :
    ∃ x w out, args.input 0 = some x ∧ args.input 1 = some w ∧ args.output 0 = some out ∧
      let s' := (cpuRun base.overReal M cpuRmsnorm args ws s).2
      let ms := Rows.meanSquare (elemCount x) (rowOf M s x)
      (∀ i < elemCount x, M.load s' (f32At out i) =
          M.load s (f32At x i) / √(ms + rmsnormEps) * M.load s (f32At w i)) ∧
        ((∀ i < elemCount x, M.load s (f32At w i) = 1) →
          Rows.meanSquare (elemCount x) (rowOf M s' out) = ms / (ms + rmsnormEps) ∧
            Rows.meanSquare (elemCount x) (rowOf M s' out) < 1) ∧
        ∀ b, (∀ i < elemCount x, WordsApart (f32At out i) b) → M.load s' b = M.load s b := by
  obtain ⟨out, hfill⟩ : ∃ out, RowFilled base.overReal M args .rmsnorm out s
      (cpuRun base.overReal M cpuRmsnorm args ws s).2 :=
    rowKernel_filled base.overReal M ws hvalid hbeside (k := cpuRmsnorm) (by simp [rowKernels]) h s
  obtain ⟨x, hx, hshape⟩ := hfill.input_eq
  obtain ⟨w, hw⟩ := cpuRmsnormRun_weight ws h
  refine ⟨x, w, out, hx, hw, hfill.output_eq, ?_⟩
  intro s' ms
  have hcount : elemCount x = elemCount out := by rw [elemCount, elemCount, hshape]
  have hvalue : ∀ i < elemCount x, M.load s' (f32At out i) =
      rowOf M s x i / √(ms + rmsnormEps) * rowOf M s w i := by
    intro i hi
    rw [hcount] at hi
    rw [hfill.fills.filled i hi]
    show rmsnormRow base.overReal _ (args.row M s 0) (args.row M s 1) i = _
    rw [KernelArgs.row_eq hx, KernelArgs.row_eq hw, rmsnormRow_overReal, ← hcount]
  refine ⟨hvalue, fun hone => ?_, by rw [hcount]; exact hfill.fills.kept⟩
  have hscaled : Rows.meanSquare (elemCount x) (rowOf M s' out) =
      Rows.meanSquare (elemCount x) fun i => rowOf M s x i / √(ms + rmsnormEps) :=
    Rows.meanSquare_congr fun i hi => by
      rw [rowOf, hvalue i hi, show rowOf M s w i = 1 from hone i hi, mul_one]
  rw [hscaled]
  exact ⟨Rows.meanSquare_div_sqrt rmsnormEps_pos, Rows.meanSquare_div_sqrt_lt rmsnormEps_pos⟩

end Calls

/-- Two ones, over themselves, with weights of one. -/
theorem rmsnorm_kernel_over_reals_pair :
    ∃ x w : Tensor, hbiTensorWrap .fp32 ⟨[2]⟩ 64 8 = .ok x ∧
      hbiTensorWrap .fp32 ⟨[2]⟩ 128 8 = .ok w ∧
      ∀ base : KernelFloat ℝ, Rows.meanSquare 2 (rowOf (cellMachine ℝ) (cpuRun base.overReal
        (cellMachine ℝ) cpuRmsnorm ⟨[some x, some w], [some x], KernelParams.zero⟩
          KernelWorkspace.empty fun _ => 1).2 x) < 1 := by
  obtain ⟨x, w, hx, hw, hvx, hvw, hhi, hlo, hcount, hrun⟩ : ∃ x w : Tensor,
      hbiTensorWrap .fp32 ⟨[2]⟩ 64 8 = .ok x ∧ hbiTensorWrap .fp32 ⟨[2]⟩ 128 8 = .ok w ∧
      hbiTensorValidate x = .ok () ∧ hbiTensorValidate w = .ok () ∧ x.data + x.nbytes = 72 ∧
      w.data = 128 ∧ elemCount x = 2 ∧
      cpuRmsnorm.run ⟨[some x, some w], [some x], KernelParams.zero⟩ KernelWorkspace.empty =
        .ok () :=
    ⟨_, _, rfl, rfl, by decide +kernel, by decide +kernel, rfl, rfl, rfl, rfl⟩
  have hvalid : KernelArgs.Valid ⟨[some x, some w], [some x], KernelParams.zero⟩ := by
    rintro t (ht | ht)
    all_goals
      simp only [List.mem_cons, List.not_mem_nil, Option.some.injEq, or_false] at ht
      rcases ht with rfl | rfl <;> assumption
  have hbeside : KernelArgs.Alongside ⟨[some x, some w], [some x], KernelParams.zero⟩ := by
    intro t out ht hout
    simp only [List.mem_cons, List.not_mem_nil, Option.some.injEq, or_false] at ht hout
    subst hout
    rcases ht with rfl | rfl
    · exact Or.inl rfl
    · refine Or.inr ?_
      rintro a ⟨⟨hle, -⟩, -, hlt⟩
      omega
  refine ⟨x, w, hx, hw, fun base => ?_⟩
  obtain ⟨y, v, out, hy, hv, hout, -, hscaled, -⟩ := rmsnorm_kernel_over_reals base
    (cellMachine ℝ) hvalid hbeside hrun fun _ => 1
  cases hy
  cases hv
  cases hout
  rw [← hcount]
  exact (hscaled fun i _ => rfl).2

/-- Over the reals, a reduction leaves in its scalar the sum of all numbers of its input, or the
greatest of them, and changes no other word, wherever the scalar lies. -/
theorem reduce_kernel_over_reals {σ : Type} (base : KernelFloat ℝ) (M : Machine ℝ σ)
    {args : KernelArgs} {ws : KernelWorkspace} (hvalid : args.Valid)
    (h : cpuReduce.run args ws = .ok ()) (s : σ) :
    ∃ x out, args.input 0 = some x ∧ args.output 0 = some out ∧
      let s' := (cpuRun base.overReal M cpuReduce args ws s).2
      (args.params.reduce = 0 →
          M.load s' (f32At out 0) = ∑ i ∈ range (elemCount x), M.load s (f32At x (i : Nat))) ∧
        (args.params.reduce ≠ 0 →
          IsGreatest {v | ∃ i < elemCount x, v = M.load s (f32At x (i : Nat))}
            (M.load s' (f32At out 0))) ∧
        ∀ b, WordsApart (f32At out 0) b → M.load s' b = M.load s b := by
  obtain ⟨x, out, hx, hout, hpos, hstore⟩ := cpuReduce_stores base.overReal M ws hvalid h s
  have hrun : (cpuRun base.overReal M cpuReduce args ws s).2 =
      (M.run (cpuBody base.overReal args .reduce) s).2 := by
    rw [cpuRun, h]
    rfl
  refine ⟨x, out, hx, hout, ?_⟩
  rw [hrun, hstore]
  intro s'
  rw [show M.load s' (f32At out 0) = _ from M.load_store s _ _]
  refine ⟨fun hkind => ?_, fun hkind => ?_, fun b hb => M.load_store_apart s _ _ _ hb⟩
  · rw [hkind, reduceValue, rowSum_overReal]
    rfl
  · have hset : {v | ∃ i < elemCount x, v = M.load s (f32At x (i : Nat))} =
        rowOf M s x '' Set.Iic (elemCount x - 1) := by
      ext v
      constructor
      · rintro ⟨i, hi, rfl⟩
        exact ⟨i, Set.mem_Iic.mpr (by omega), rfl⟩
      · rintro ⟨i, hi, rfl⟩
        have := Set.mem_Iic.mp hi
        exact ⟨i, by omega, rfl⟩
    rw [reduceValue_max base.overReal hkind, hset]
    exact rowMax_overReal base _ _

/-- The sum of two ones. -/
theorem reduce_kernel_over_reals_pair :
    ∃ x out : Tensor, hbiTensorWrap .fp32 ⟨[2]⟩ 64 8 = .ok x ∧
      hbiTensorWrap .fp32 ⟨[1]⟩ 128 4 = .ok out ∧
      ∀ base : KernelFloat ℝ, (cellMachine ℝ).load (cpuRun base.overReal (cellMachine ℝ) cpuReduce
        ⟨[some x], [some out], KernelParams.zero⟩ KernelWorkspace.empty fun _ => 1).2
          (f32At out 0) = 2 := by
  obtain ⟨x, out, hx, hout, hvx, hvout, hcount, hrun⟩ : ∃ x out : Tensor,
      hbiTensorWrap .fp32 ⟨[2]⟩ 64 8 = .ok x ∧ hbiTensorWrap .fp32 ⟨[1]⟩ 128 4 = .ok out ∧
      hbiTensorValidate x = .ok () ∧ hbiTensorValidate out = .ok () ∧ elemCount x = 2 ∧
      cpuReduce.run ⟨[some x], [some out], KernelParams.zero⟩ KernelWorkspace.empty = .ok () :=
    ⟨_, _, rfl, rfl, by decide +kernel, by decide +kernel, rfl, rfl⟩
  refine ⟨x, out, hx, hout, fun base => ?_⟩
  obtain ⟨y, o, hy, ho, hsum, -⟩ := reduce_kernel_over_reals base (cellMachine ℝ)
    (unaryArgs_valid _ hvx hvout) hrun fun _ => 1
  cases hy
  cases ho
  rw [hsum rfl, hcount]
  simp [cellMachine]

end Hummingbird

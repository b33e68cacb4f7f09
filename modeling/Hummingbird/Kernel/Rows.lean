import Hummingbird.Foundation.Filling
import Hummingbird.Kernel.Inside

/-!
The kernels that fill their output with one value for each element of their inputs: the
elementwise kernel, the activations, the softmax and the normalisation. The output may be the
buffer of an input. What they leave there is said for any `float` operations.
-/

namespace Hummingbird

open Accesses

/-- The same buffer, or buffers that do not overlap. -/
def Tensor.Alongside (t out : Tensor) : Prop := t.data = out.data ∨ t.Apart out

def KernelArgs.Alongside (args : KernelArgs) : Prop :=
  ∀ t out, some t ∈ args.inputs → some out ∈ args.outputs → t.Alongside out

section Rows

variable {F : Type} (ops : KernelFloat F)

def elementwiseOp : Nat → F → F → F
  | 0 => ops.add
  | _ => ops.mul

def activationFn : Nat → F → F
  | 0 => fun x =>
      let inner := ops.mul (ops.lit (7978845608 / 10000000000))
        (ops.add x (ops.mul (ops.mul (ops.mul (ops.lit (44715 / 1000000)) x) x) x))
      ops.mul x (ops.mul (ops.lit (1 / 2)) (ops.add (ops.lit 1) (ops.tanhf inner)))
  | 1 => fun x => ops.div x (ops.add (ops.lit 1) (ops.expf (ops.neg x)))
  | _ => fun x => if ops.lt (ops.lit 0) x then x else ops.lit 0

/-- The sum of the first `n` numbers of a row, in their order. -/
def rowSum (n : Nat) (x : Nat → F) : F :=
  (List.range n).foldl (fun sum i => ops.add sum (x i)) (ops.lit 0)

/-- The running maximum over the numbers up to the `n`-th. -/
def rowMax (n : Nat) (x : Nat → F) : F :=
  (List.range n).foldl (fun m i => if ops.lt m (x (i + 1)) then x (i + 1) else m) (x 0)

/-- The exponentials that the softmax adds up and stores first. -/
def softmaxExp (n : Nat) (x : Nat → F) (i : Nat) : F :=
  ops.expf (ops.sub (x i) (rowMax ops (n - 1) x))

def softmaxRow (n : Nat) (x : Nat → F) (i : Nat) : F :=
  ops.div (softmaxExp ops n x i) (rowSum ops n (softmaxExp ops n x))

def rmsnormScale (n : Nat) (x : Nat → F) : F :=
  let meanSq := ops.div (rowSum ops n fun i => ops.mul (x i) (x i)) (ops.ofInt n)
  ops.div (ops.lit 1) (ops.sqrtf (ops.add meanSq (ops.lit (1 / 100000))))

def rmsnormRow (n : Nat) (x w : Nat → F) (i : Nat) : F :=
  ops.mul (ops.mul (x i) (rmsnormScale ops n x)) (w i)

/-- What a reduction of a kind leaves in its scalar. -/
def reduceValue (kind n : Nat) (x : Nat → F) : F :=
  match kind with
  | 0 => rowSum ops n x
  | _ => rowMax ops (n - 1) x

theorem reduceValue_max {kind n : Nat} {x : Nat → F} (h : kind ≠ 0) :
    reduceValue ops kind n x = rowMax ops (n - 1) x := by
  cases kind with
  | zero => exact absurd rfl h
  | succ kind => rfl

/-- What a call leaves in its output; `x k` is the row of its `k`-th input. -/
def rowValue (params : KernelParams) (op : KernelOp) (n : Nat) (x : Nat → Nat → F) : Nat → F :=
  match op with
  | .elementwise => fun i => elementwiseOp ops params.elementwise (x 0 i) (x 1 i)
  | .activation => fun i => activationFn ops params.activation (x 0 i)
  | .softmax => softmaxRow ops n (x 0)
  | _ => rmsnormRow ops n (x 0) (x 1)

end Rows

/-- A float operand of a call whose output may lie over it. -/
structure RowOperand (t out : Tensor) : Prop where
  array : t.F32Array
  shape_eq : t.shape = out.shape
  alongside : t.Alongside out

section Operands

variable {t out : Tensor}

theorem RowOperand.count_eq (h : RowOperand t out) : elemCount t = elemCount out := by
  rw [elemCount, elemCount, h.shape_eq]

theorem Tensor.F32Array.count_pos (h : t.F32Array) : elemCount t ≠ 0 := by
  have := h.prod_pos
  rw [h.elemCount_eq]
  omega

/-- Storing another element does not change the one that is loaded. -/
theorem RowOperand.words (h : RowOperand t out) (hout : out.F32Array) {i j : Nat}
    (hi : i < elemCount out) (hj : j < elemCount out) (hne : i ≠ j) :
    WordsApart (f32At out j) (f32At t i) := by
  rcases h.alongside with hdata | hapart
  · unfold WordsApart f32At
    rw [hdata]
    omega
  · have hlt := h.array.count_lt (h.count_eq.symm ▸ hi)
    exact (hapart.words h.array hout ⟨by omega, hlt⟩ ⟨by omega, hout.count_lt hj⟩).symm

variable {F σ : Type} {M : Machine F σ} {s : σ}

/-- The element that a turn loads is still that of the start. -/
theorem RowOperand.load_kept (h : RowOperand t out) (hout : out.F32Array) {i : Nat}
    (hi : i < elemCount out) {s' : σ}
    (hkept : ∀ b, (∀ j < i, WordsApart (f32At out (j : Nat)) b) → M.load s' b = M.load s b) :
    M.load s' (f32At t i) = M.load s (f32At t i) :=
  hkept _ fun j hj => h.words hout hi (by omega) (by omega)

theorem rows_apart (out : Tensor) {n : Nat} :
    ∀ i < n, ∀ j < i, WordsApart (f32At out (i : Nat)) (f32At out (j : Nat)) :=
  fun i _ j hj => f32At_apart out (by omega)

/-- The row of an operand. -/
def rowOf (M : Machine F σ) (s : σ) (t : Tensor) (i : Nat) : F := M.load s (f32At t i)

end Operands

section Loops

variable {F σ : Type} (ops : KernelFloat F) (M : Machine F σ) {x w out : Tensor}

theorem elementwiseLoop_fills (op : F → F → F) (hx : RowOperand x out) (hw : RowOperand w out)
    (hout : out.F32Array) (s : σ) :
    M.Fills (elemCount out) (fun i => f32At out i) (fun i => op (rowOf M s x i) (rowOf M s w i)) s
      (M.run (elementwiseLoop op x w out) s).2 := by
  unfold elementwiseLoop
  rw [hx.count_eq]
  apply M.fills_each (rows_apart out)
  intro i hi s' hkept
  simp only [M.run_bind, M.run_load, M.run_store]
  rw [hx.load_kept hout hi hkept, hw.load_kept hout hi hkept]
  rfl

theorem activationLoop_fills (act : F → F) (hx : RowOperand x out) (hout : out.F32Array) (s : σ) :
    M.Fills (elemCount out) (fun i => f32At out i) (fun i => act (rowOf M s x i)) s
      (M.run (activationLoop act x out) s).2 := by
  unfold activationLoop
  rw [hx.count_eq]
  apply M.fills_each (rows_apart out)
  intro i hi s' hkept
  simp only [M.run_bind, M.run_load, M.run_store]
  rw [hx.load_kept hout hi hkept]
  rfl

/-- The loop that looks for the maximum. -/
theorem run_maxLoop (t : Tensor) (n : Nat) (s : σ) :
    M.run (loop n (M.load s (f32At t 0)) fun i m => do
        let v ← load (f32At t (i + 1))
        return if ops.lt m v then v else m) s = (rowMax ops n (rowOf M s t), s) :=
  M.run_scan (fun i m => if ops.lt m (rowOf M s t (i + 1)) then rowOf M s t (i + 1) else m)
    fun i _ m => by
      simp only [M.run_bind, M.run_load, M.run_pure]
      rfl

/-- The loop that adds up what a function makes of the elements. -/
theorem run_sumLoop (g : F → F) (t : Tensor) (n : Nat) (s : σ) :
    M.run (loop n (ops.lit 0) fun i sum => do
        let v ← load (f32At t i)
        return ops.add sum (g v)) s = (rowSum ops n fun i => g (rowOf M s t i), s) :=
  M.run_scan (fun i sum => ops.add sum (g (rowOf M s t i))) fun i _ sum => by
    simp only [M.run_bind, M.run_load, M.run_pure]
    rfl

/-- The loop that stores the exponentials and adds them up. -/
theorem expLoop_fills (hx : RowOperand x out) (hout : out.F32Array) (maxVal : F) (s : σ) :
    let e := fun i => ops.expf (ops.sub (rowOf M s x i) maxVal)
    let run := M.run (loop (elemCount out) (ops.lit 0) fun i sum => do
      let v ← load (f32At x i)
      let e := ops.expf (ops.sub v maxVal)
      store (f32At out i) e
      return ops.add sum e) s
    run.1 = rowSum ops (elemCount out) e ∧
      M.Fills (elemCount out) (fun i => f32At out i) e s run.2 := by
  intro e run
  apply M.fills_loop (fun i => rowSum ops i e) (rows_apart out)
  intro i hi s' hkept
  simp only [M.run_bind, M.run_load, M.run_store, M.run_pure]
  rw [hx.load_kept hout hi hkept, rowSum, rowSum, List.range_succ, List.foldl_append]
  rfl

/-- The softmax divides the exponentials it has stored by their sum. -/
theorem cpuSoftmaxBody_fills (hx : RowOperand x out) (hout : out.F32Array) (s : σ) :
    M.Fills (elemCount out) (fun i => f32At out i)
      (softmaxRow ops (elemCount out) (rowOf M s x)) s
      (M.run (cpuSoftmaxBody ops x out) s).2 := by
  obtain ⟨hsum, hexp⟩ := expLoop_fills ops M hx hout
    (rowMax ops (elemCount out - 1) (rowOf M s x)) s
  unfold cpuSoftmaxBody
  dsimp only
  rw [hx.count_eq, if_neg hout.count_pos]
  simp only [M.run_bind, M.run_load, run_maxLoop]
  rw [hsum]
  apply hexp.again
  apply M.fills_each (rows_apart out)
  intro i hi s' hkept
  simp only [M.run_bind, M.run_load, M.run_store]
  rw [hkept _ fun j hj => f32At_apart out (by omega), hexp.filled i hi]
  rfl

theorem cpuRmsnormBody_fills (hx : RowOperand x out) (hw : RowOperand w out) (hout : out.F32Array)
    (s : σ) :
    M.Fills (elemCount out) (fun i => f32At out i)
      (rmsnormRow ops (elemCount out) (rowOf M s x) (rowOf M s w)) s
      (M.run (cpuRmsnormBody ops x w out) s).2 := by
  unfold cpuRmsnormBody
  dsimp only
  rw [hx.count_eq, if_neg hout.count_pos]
  simp only [M.run_bind, run_sumLoop ops M fun v => ops.mul v v]
  apply M.fills_each (rows_apart out)
  intro i hi s' hkept
  simp only [M.run_bind, M.run_load, M.run_store]
  rw [hx.load_kept hout hi hkept, hw.load_kept hout hi hkept]
  rfl

end Loops

def cpuElementwise : Kernel :=
  cpuKernel .elementwise "cpu.elementwise.fp32" kFp32Only cpuElementwiseRun

def cpuSoftmax : Kernel := cpuKernel .softmax "cpu.softmax.fp32" kFp32Only cpuSoftmaxRun

def cpuRmsnorm : Kernel := cpuKernel .rmsnorm "cpu.rmsnorm.fp32" kFp32Only cpuRmsnormRun

def cpuActivation : Kernel :=
  cpuKernel .activation "cpu.activation.fp32" kFp32Only cpuActivationRun

def cpuReduce : Kernel := cpuKernel .reduce "cpu.reduce.fp32" kFp32Only cpuReduceRun

/-- The kernels that fill a row. -/
def rowKernels : List Kernel := [cpuElementwise, cpuSoftmax, cpuRmsnorm, cpuActivation]

/-- The element of an input's row. -/
def KernelArgs.row {F σ : Type} (args : KernelArgs) (M : Machine F σ) (s : σ) (k i : Nat) : F :=
  M.load s (((args.input k).map fun t => f32At t i).getD 0)

theorem KernelArgs.row_eq {F σ : Type} {args : KernelArgs} {M : Machine F σ} {s : σ} {k : Nat}
    {t : Tensor} (h : args.input k = some t) : args.row M s k = rowOf M s t := by
  unfold KernelArgs.row
  rw [h]
  rfl

/-- What a call leaves in its output: a value for every element, and nothing elsewhere. -/
structure RowFilled {F σ : Type} (ops : KernelFloat F) (M : Machine F σ) (args : KernelArgs)
    (op : KernelOp) (out : Tensor) (s s' : σ) : Prop where
  output_eq : args.output 0 = some out
  array : out.F32Array
  input_eq : ∃ t, args.input 0 = some t ∧ t.shape = out.shape
  fills : M.Fills (elemCount out) (fun i => f32At out i)
    (rowValue ops args.params op (elemCount out) (args.row M s)) s s'

section Calls

variable {F σ : Type} (ops : KernelFloat F) (M : Machine F σ) {args : KernelArgs}
  (ws : KernelWorkspace) (hvalid : args.Valid) (hbeside : args.Alongside)

include hvalid hbeside

theorem KernelArgs.Valid.rowOperand {i : Nat} {t out : Tensor}
    (ht : args.input i = some t) (hc : t.contiguous = true) (hd : t.dtype = .fp32)
    (hout : args.output 0 = some out) (hshape : t.shape = out.shape) : RowOperand t out where
  array := (hvalid.operand_input ht hc).f32Array hd
  shape_eq := hshape
  alongside := hbeside t out (KernelArgs.mem_of_input ht) (KernelArgs.mem_of_output hout)

theorem cpuElementwise_filled (h : cpuElementwiseRun args ws = .ok ()) (s : σ) :
    ∃ out, RowFilled ops M args .elementwise out s
      (M.run (cpuBody ops args .elementwise) s).2 := by
  simp only [cpuElementwiseRun, Result.bind_eq_ok, Result.ite_errSet_eq_ok,
    requireContiguous_eq_ok, not_or, not_not, Bool.not_eq_false, hbiShapeEqual_eq_true] at h
  obtain ⟨⟨⟩, -, a, ⟨ha, hac, -⟩, b, ⟨hb, hbc, -⟩, c, ⟨hc, hcc, -⟩, ⟨hda, hdb, hdc⟩,
    ⟨hsb, hsc⟩, _, -, hkind⟩ := h
  have harray := (hvalid.operand_output hc hcc).f32Array hdc
  have hopa := hvalid.rowOperand hbeside ha hac hda hc hsc
  have hopb := hvalid.rowOperand hbeside hb hbc hdb hc (hsb.symm.trans hsc)
  refine ⟨c, hc, harray, ⟨a, ha, hsc⟩, ?_⟩
  have hbody : cpuBody ops args .elementwise =
      elementwiseLoop (elementwiseOp ops args.params.elementwise) a b c := by
    simp only [cpuBody, binaryBody, ha, hb, hc, cpuElementwiseBody]
    rcases (by have := elementwiseSwitch_eq_ok.mp hkind; omega :
      args.params.elementwise = 0 ∨ args.params.elementwise = 1) with hk | hk
    all_goals rw [hk]; rfl
  rw [hbody, rowValue, KernelArgs.row_eq ha, KernelArgs.row_eq hb]
  exact elementwiseLoop_fills M _ hopa hopb harray s

theorem cpuActivation_filled (h : cpuActivationRun args ws = .ok ()) (s : σ) :
    ∃ out, RowFilled ops M args .activation out s (M.run (cpuBody ops args .activation) s).2 := by
  simp only [cpuActivationRun, Result.bind_eq_ok, Result.ite_errSet_eq_ok,
    requireContiguous_eq_ok, not_or, not_not, Bool.not_eq_false, hbiShapeEqual_eq_true] at h
  obtain ⟨⟨⟩, -, x, ⟨hx, hxc, -⟩, out, ⟨hout, houtc, -⟩, ⟨hdx, hdout⟩, hshape, _, -, hkind⟩ := h
  have harray := (hvalid.operand_output hout houtc).f32Array hdout
  have hopx := hvalid.rowOperand hbeside hx hxc hdx hout hshape
  refine ⟨out, hout, harray, ⟨x, hx, hshape⟩, ?_⟩
  have hbody : cpuBody ops args .activation =
      activationLoop (activationFn ops args.params.activation) x out := by
    simp only [cpuBody, unaryBody, hx, hout, cpuActivationBody]
    split at hkind
    case h_1 hk => rw [hk]; rfl
    case h_2 hk => rw [hk]; rfl
    case h_3 hk => rw [hk]; rfl
    case h_4 => exact absurd hkind (errSet_ne_ok _ _ _)
  rw [hbody, rowValue, KernelArgs.row_eq hx]
  exact activationLoop_fills M _ hopx harray s

theorem cpuSoftmax_filled (h : cpuSoftmaxRun args ws = .ok ()) (s : σ) :
    ∃ out, RowFilled ops M args .softmax out s (M.run (cpuBody ops args .softmax) s).2 := by
  simp only [cpuSoftmaxRun, Result.bind_eq_ok, Result.ite_errSet_eq_ok,
    requireContiguous_eq_ok, not_or, not_not, Bool.not_eq_false, hbiShapeEqual_eq_true] at h
  obtain ⟨⟨⟩, -, x, ⟨hx, hxc, -⟩, out, ⟨hout, houtc, -⟩, ⟨hdx, hdout⟩, hshape, -⟩ := h
  have harray := (hvalid.operand_output hout houtc).f32Array hdout
  refine ⟨out, hout, harray, ⟨x, hx, hshape⟩, ?_⟩
  simp only [cpuBody, unaryBody, hx, hout, rowValue, KernelArgs.row_eq hx]
  exact cpuSoftmaxBody_fills ops M (hvalid.rowOperand hbeside hx hxc hdx hout hshape) harray s

theorem cpuRmsnorm_filled (h : cpuRmsnormRun args ws = .ok ()) (s : σ) :
    ∃ out, RowFilled ops M args .rmsnorm out s (M.run (cpuBody ops args .rmsnorm) s).2 := by
  simp only [cpuRmsnormRun, Result.bind_eq_ok, Result.ite_errSet_eq_ok,
    requireContiguous_eq_ok, not_or, not_not, Bool.not_eq_false, hbiShapeEqual_eq_true] at h
  obtain ⟨⟨⟩, -, x, ⟨hx, hxc, -⟩, w, ⟨hw, hwc, -⟩, out, ⟨hout, houtc, -⟩, ⟨hdx, hdw, hdout⟩,
    ⟨hsw, hsout⟩, -⟩ := h
  have harray := (hvalid.operand_output hout houtc).f32Array hdout
  refine ⟨out, hout, harray, ⟨x, hx, hsout⟩, ?_⟩
  simp only [cpuBody, binaryBody, hx, hw, hout, rowValue, KernelArgs.row_eq hx,
    KernelArgs.row_eq hw]
  exact cpuRmsnormBody_fills ops M (hvalid.rowOperand hbeside hx hxc hdx hout hsout)
    (hvalid.rowOperand hbeside hw hwc hdw hout (hsw.symm.trans hsout)) harray s

omit hvalid hbeside in
theorem cpuRmsnormRun_weight (h : cpuRmsnormRun args ws = .ok ()) : ∃ w, args.input 1 = some w := by
  simp only [cpuRmsnormRun, Result.bind_eq_ok, requireContiguous_eq_ok] at h
  obtain ⟨⟨⟩, -, x, -, w, ⟨hw, -⟩, -⟩ := h
  exact ⟨w, hw⟩

omit hbeside in
/-- A reduction that succeeds stores one word, after it has read all of its input. -/
theorem cpuReduce_stores (h : cpuReduceRun args ws = .ok ()) (s : σ) :
    ∃ x out, args.input 0 = some x ∧ args.output 0 = some out ∧ elemCount x ≠ 0 ∧
      (M.run (cpuBody ops args .reduce) s).2 = M.store s (f32At out 0)
        (reduceValue ops args.params.reduce (elemCount x) (rowOf M s x)) := by
  simp only [cpuReduceRun, Result.bind_eq_ok, Result.ite_errSet_eq_ok, requireContiguous_eq_ok,
    not_or, not_not] at h
  obtain ⟨⟨⟩, -, x, ⟨hx, hxc, -⟩, out, ⟨hout, -⟩, ⟨hdx, -⟩, n, hn, m, -, -, hkind⟩ := h
  have hcount := ((hvalid.operand_input hx hxc).f32Array hdx).count_pos
  refine ⟨x, out, hx, hout, hcount, ?_⟩
  have hne : n ≠ 0 := by
    rintro rfl
    exact hcount (by rw [elemCount, hn]; rfl)
  rw [if_neg hne] at hkind
  simp only [cpuBody, unaryBody, hx, hout, cpuReduceBody, if_neg hcount]
  split at hkind
  case h_1 hk =>
    simp only [hk, M.run_bind, run_sumLoop ops M fun v => v]
    rfl
  case h_2 hk =>
    simp only [hk, M.run_bind, M.run_load, run_maxLoop]
    rfl
  case h_3 => exact absurd hkind (errSet_ne_ok _ _ _)

/-- A row kernel that succeeds fills its output. -/
theorem rowKernel_filled {k : Kernel} (hk : k ∈ rowKernels) (h : k.run args ws = .ok ()) (s : σ) :
    ∃ out, RowFilled ops M args k.op out s (cpuRun ops M k args ws s).2 := by
  have hrun : (cpuRun ops M k args ws s).2 = (M.run (cpuBody ops args k.op) s).2 := by
    rw [cpuRun, h]
  rw [hrun]
  simp only [rowKernels, List.mem_cons, List.not_mem_nil, or_false] at hk
  rcases hk with rfl | rfl | rfl | rfl
  · exact cpuElementwise_filled ops M ws hvalid hbeside h s
  · exact cpuSoftmax_filled ops M ws hvalid hbeside h s
  · exact cpuRmsnorm_filled ops M ws hvalid hbeside h s
  · exact cpuActivation_filled ops M ws hvalid hbeside h s

end Calls

/-- In place or not, bit for bit the same: a call that succeeds leaves in its output what the
call with any other output leaves there, and every word apart from its output is as it was. -/
theorem row_kernel_in_place {F σ : Type} (ops : KernelFloat F) (M : Machine F σ) {k : Kernel}
    (hk : k ∈ rowKernels) {args args' : KernelArgs} {ws : KernelWorkspace}
    (hinputs : args'.inputs = args.inputs) (hparams : args'.params = args.params)
    (hvalid : args.Valid) (hvalid' : args'.Valid) (hbeside : args.Alongside)
    (hbeside' : args'.Alongside) (h : k.run args ws = .ok ()) (h' : k.run args' ws = .ok ())
    (s : σ) :
    ∃ out out', args.output 0 = some out ∧ args'.output 0 = some out' ∧
      out'.shape = out.shape ∧
      (∀ i < elemCount out,
        M.load (cpuRun ops M k args' ws s).2 (f32At out' i) =
          M.load (cpuRun ops M k args ws s).2 (f32At out i)) ∧
      ∀ b, (∀ i < elemCount out, WordsApart (f32At out i) b) →
        M.load (cpuRun ops M k args ws s).2 b = M.load s b := by
  obtain ⟨out, hfill⟩ := rowKernel_filled ops M ws hvalid hbeside hk h s
  obtain ⟨out', hfill'⟩ := rowKernel_filled ops M ws hvalid' hbeside' hk h' s
  have hinput : ∀ i, args'.input i = args.input i := fun i => by
    rw [KernelArgs.input, KernelArgs.input, hinputs]
  have hshape : out'.shape = out.shape := by
    obtain ⟨t, ht, hshape⟩ := hfill.input_eq
    obtain ⟨t', ht', hshape'⟩ := hfill'.input_eq
    obtain rfl := Option.some.inj (((hinput 0).symm.trans ht').symm.trans ht)
    rw [← hshape, hshape']
  have hcount : elemCount out' = elemCount out := by rw [elemCount, elemCount, hshape]
  have hrow : args'.row M s = args.row M s := by
    funext i j
    rw [KernelArgs.row, KernelArgs.row, hinput]
  refine ⟨out, out', hfill.output_eq, hfill'.output_eq, hshape, fun i hi => ?_, hfill.fills.kept⟩
  rw [hfill.fills.filled i hi, hfill'.fills.filled i (hcount.symm ▸ hi), hrow, hparams, hcount]

/-- Checks of a call with one input and one output. -/
theorem unaryArgs_valid {x out : Tensor} (params : KernelParams)
    (hx : hbiTensorValidate x = .ok ()) (hout : hbiTensorValidate out = .ok ()) :
    KernelArgs.Valid ⟨[some x], [some out], params⟩ := by
  rintro t (ht | ht)
  all_goals
    rw [List.mem_singleton, Option.some.injEq] at ht
    subst ht
    assumption

theorem unaryArgs_alongside {x out : Tensor} (params : KernelParams) (h : x.Alongside out) :
    KernelArgs.Alongside ⟨[some x], [some out], params⟩ := by
  intro t u ht hu
  rw [List.mem_singleton, Option.some.injEq] at ht hu
  subst ht hu
  exact h

/-- The softmax of a buffer of two numbers, over itself and into a buffer of its own. -/
theorem row_kernel_in_place_softmax :
    ∃ x fresh : Tensor, hbiTensorWrap .fp32 ⟨[2]⟩ 64 8 = .ok x ∧
      hbiTensorWrap .fp32 ⟨[2]⟩ 128 8 = .ok fresh ∧
      ∀ (ops : KernelFloat F32) (m : Memory), ∀ i < 2,
        byteMachine.load (cpuRun ops byteMachine cpuSoftmax
            ⟨[some x], [some fresh], KernelParams.zero⟩ KernelWorkspace.empty m).2
              (f32At fresh (i : Nat)) =
          byteMachine.load (cpuRun ops byteMachine cpuSoftmax
            ⟨[some x], [some x], KernelParams.zero⟩ KernelWorkspace.empty m).2
              (f32At x (i : Nat)) := by
  obtain ⟨x, y, hx, hy, hvx, hvy, hhi, hlo, hcount, hrun, hrun'⟩ : ∃ x y : Tensor,
      hbiTensorWrap .fp32 ⟨[2]⟩ 64 8 = .ok x ∧ hbiTensorWrap .fp32 ⟨[2]⟩ 128 8 = .ok y ∧
      hbiTensorValidate x = .ok () ∧ hbiTensorValidate y = .ok () ∧ x.data + x.nbytes = 72 ∧
      y.data = 128 ∧ elemCount x = 2 ∧
      cpuSoftmax.run ⟨[some x], [some x], KernelParams.zero⟩ KernelWorkspace.empty = .ok () ∧
      cpuSoftmax.run ⟨[some x], [some y], KernelParams.zero⟩ KernelWorkspace.empty = .ok () :=
    ⟨_, _, rfl, rfl, by decide +kernel, by decide +kernel, rfl, rfl, rfl, rfl, rfl⟩
  have hapart : x.Apart y := by
    rintro a ⟨⟨-, hlt⟩, hle, -⟩
    omega
  refine ⟨x, y, hx, hy, fun ops m i hi => ?_⟩
  obtain ⟨out, out', hout, hout', -, heq, -⟩ := @row_kernel_in_place _ _ ops byteMachine cpuSoftmax
    (by simp [rowKernels]) ⟨[some x], [some x], KernelParams.zero⟩
    ⟨[some x], [some y], KernelParams.zero⟩ KernelWorkspace.empty rfl rfl
    (unaryArgs_valid _ hvx hvx) (unaryArgs_valid _ hvx hvy) (unaryArgs_alongside _ (Or.inl rfl))
    (unaryArgs_alongside _ (Or.inr hapart)) hrun hrun' m
  cases hout
  cases hout'
  exact heq i (hcount ▸ hi)

end Hummingbird

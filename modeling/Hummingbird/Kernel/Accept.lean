import Hummingbird.Graph.Inferred
import Hummingbird.Kernel.Dispatch
import Hummingbird.Kernel.Reference
import Hummingbird.Tensor.Broadcast

/-!
Graphs that the builder accepts, run with the reference kernels. Shapes and dtypes are
checked twice: once by inference when a node is added, once by the kernel when it runs.
Over tensors that were freshly allocated for every value, a run succeeds exactly when
every node passes the checks that only its kernel makes.
-/

namespace Hummingbird

/-- The kernels of an executor over a context, with what they compute and the workspace
they are handed left open. -/
def Executor.kernels (ex : Executor) (ctx : ExecContext) (ws : Node → KernelWorkspace)
    (compute : Node → List (Option Bytes) → List Bytes) : Kernels where
  resolve := fun op dt => do
    let _ ← hbiKernelResolve ex.nodeKernels ⟨op, .cpu, dt, kernelLayoutAny⟩
    return ()
  workspaceSize := fun n =>
    match ex.nodeKernels[n.id]? with
    | none => .ok 0
    | some k => k.reportedSize (nodeArgs ctx n)
  run := fun n read =>
    match ex.nodeKernels[n.id]? with
    | none => errSet .internal ""
    | some k => do
        k.run (nodeArgs ctx n) (ws n)
        return compute n read

/-- Every value is bound to a tensor that was allocated for its shape and dtype. -/
def ExecContext.Fresh (ctx : ExecContext) (g : Graph) : Prop :=
  ctx.graph = g ∧ ∀ (v : Nat) (val : Value), g.values[v]? = some val →
    ∃ block t, hbiTensorAlloc val.dtype val.shape (some block) = .ok t ∧ ctx.tensorOf v = some t

/-- What the checks of the kernels ask of a tensor beyond its dtype and shape. -/
structure Tensor.Operand (t : Tensor) (val : Value) : Prop where
  dtype_eq : t.dtype = val.dtype
  shape_eq : t.shape = val.shape
  shape_valid : t.shape.Valid
  contiguous_eq : t.contiguous = true
  data_ne : t.data ≠ 0
  writable : t.readOnly = false
  nbytes_eq : (t.nbytes : Int) = t.packedBytes

theorem ExecContext.Fresh.operand {ctx : ExecContext} {g : Graph} (h : ctx.Fresh g) {v : Nat}
    {val : Value} (hval : g.values[v]? = some val) :
    ∃ t, ctx.tensorOf v = some t ∧ t.Operand val := by
  obtain ⟨block, t, halloc, ht⟩ := h.2 v val hval
  obtain ⟨hdtype, hshape, hreadOnly, -, hnbytes⟩ := tensorAllocImpl_fields halloc
  have hpacked := tensorAllocImpl_packed halloc
  exact ⟨t, ht, hdtype, hshape, hpacked.shape_valid, hpacked.contiguous_eq, hpacked.data_pos.ne',
    hreadOnly, hnbytes⟩

theorem Tensor.Operand.elemCount {t : Tensor} {val : Value} (h : t.Operand val) :
    hbiShapeElemCount t.shape = .ok t.shape.dims.prod := h.shape_valid.elemCount

theorem Tensor.Operand.requireContiguous_eq {t : Tensor} {val : Value} (h : t.Operand val)
    (what : String) : requireContiguous (some t) what = .ok t := by
  simp [requireContiguous, h.contiguous_eq, h.data_ne]

theorem requireArity_zero_one {c : Tensor} {vc : Value} (hc : c.Operand vc)
    (params : KernelParams) (what : String) :
    requireArity ⟨[], [some c], params⟩ 0 1 what = .ok () := by
  simp [requireArity, requireInputs, requireOutputs, hc.writable, bind, Except.bind]

theorem requireArity_one_one (a : Tensor) {c : Tensor} {vc : Value} (hc : c.Operand vc)
    (params : KernelParams) (what : String) :
    requireArity ⟨[some a], [some c], params⟩ 1 1 what = .ok () := by
  simp [requireArity, requireInputs, requireOutputs, hc.writable, bind, Except.bind]

theorem requireArity_two_one (a b : Tensor) {c : Tensor} {vc : Value} (hc : c.Operand vc)
    (params : KernelParams) (what : String) :
    requireArity ⟨[some a, some b], [some c], params⟩ 2 1 what = .ok () := by
  simp [requireArity, requireInputs, requireOutputs, hc.writable, bind, Except.bind]

/-- Every reference kernel asks for exactly one output. -/
theorem kCpuKernels_outputs {k : Kernel} (hk : k ∈ kCpuKernels) {args : KernelArgs}
    {ws : KernelWorkspace} (hrun : k.run args ws = .ok ()) : args.outputs.length = 1 := by
  have harity : ∀ (ni : Nat) (what : String) (rest : Result Unit),
      (do requireArity args ni 1 what; rest) = .ok () → args.outputs.length = 1 := by
    intro ni what rest h
    obtain ⟨_, h, -⟩ := Result.bind_eq_ok.mp h
    simp only [requireArity, Result.ite_errSet_eq_ok, not_or, not_not] at h
    exact h.1.2
  simp only [kCpuKernels, List.mem_cons, List.not_mem_nil, or_false] at hk
  rcases hk with rfl | rfl | rfl | rfl | rfl | rfl | rfl | rfl | rfl | rfl | rfl | rfl <;>
    exact harity _ _ _ hrun

section Kernels

variable {a b c : Tensor} {va vb vc : Value} (ha : a.Operand va) (hb : b.Operand vb)
  (hc : c.Operand vc) (params : KernelParams) (ws : KernelWorkspace)

include ha hc in
theorem cpuCopyRun_succeeds (hshape : vc.shape = va.shape) (hdtype : vc.dtype = va.dtype) :
    cpuCopyRun ⟨[some a], [some c], params⟩ ws = .ok () := by
  have hd : c.dtype = a.dtype := by rw [hc.dtype_eq, hdtype, ha.dtype_eq]
  have hs : c.shape = a.shape := by rw [hc.shape_eq, hshape, ha.shape_eq]
  have hn : c.nbytes = a.nbytes := by
    have := hc.nbytes_eq
    rw [Tensor.packedBytes, hs, hd] at this
    exact Int.ofNat_inj.mp (this.trans ha.nbytes_eq.symm)
  simp [cpuCopyRun, requireArity_one_one a hc, KernelArgs.input, KernelArgs.output,
    ha.requireContiguous_eq, hc.requireContiguous_eq, hd, hs, hn, hbiShapeEqual, bind, Except.bind]

include hc in
theorem cpuFillRun_succeeds (hdtype : vc.dtype = .fp32) :
    cpuFillRun ⟨[], [some c], params⟩ ws = .ok () := by
  simp [cpuFillRun, requireArity_zero_one hc, KernelArgs.output, hc.requireContiguous_eq,
    hc.elemCount, hc.dtype_eq, hdtype, bind, Except.bind]

include ha hc in
theorem cpuCastRun_succeeds_iff (hshape : vc.shape = va.shape)
    (hdtype : vc.dtype = params.castTarget) (hin : va.dtype = .fp32 ∨ va.dtype = .int8) :
    cpuCastRun ⟨[some a], [some c], params⟩ ws = .ok () ↔
      params.castTarget = .fp32 ∨ params.castTarget = .int8 := by
  have hd : c.dtype = params.castTarget := hc.dtype_eq.trans hdtype
  have hs : c.shape = a.shape := by rw [hc.shape_eq, hshape, ha.shape_eq]
  have hda : a.dtype = va.dtype := ha.dtype_eq
  simp only [cpuCastRun, requireArity_one_one a hc, KernelArgs.input, KernelArgs.output,
    List.getElem?_cons_zero, Option.join_some, ha.requireContiguous_eq, hc.requireContiguous_eq,
    hd, hs, ha.elemCount, hbiShapeEqual, bind, Except.bind, hda]
  rcases hin with h | h <;> cases params.castTarget <;> simp [h]

include ha hb hc in
theorem cpuElementwiseRun_succeeds_iff
    (hshape : hbiShapeBroadcast va.shape vb.shape = .ok vc.shape) (hin : va.dtype = .fp32)
    (hdtype : vc.dtype = va.dtype) :
    cpuElementwiseRun ⟨[some a, some b], [some c], params⟩ ws = .ok () ↔
      va.shape = vb.shape ∧ vb.dtype = .fp32 ∧ params.elementwise < 2 := by
  simp only [cpuElementwiseRun, requireArity_two_one a b hc, KernelArgs.input, KernelArgs.output,
    List.getElem?_cons_zero, List.getElem?_cons_succ, Option.join_some, ha.requireContiguous_eq,
    hb.requireContiguous_eq, hc.requireContiguous_eq, ha.elemCount, hbiShapeEqual, bind,
    Except.bind, ha.dtype_eq, hb.dtype_eq, hc.dtype_eq, hin, hdtype, Result.ite_errSet_eq_ok,
    ne_eq, not_true_eq_false, false_or, or_false, not_not, not_or, beq_eq_false_iff_ne,
    elementwiseSwitch_eq_ok]
  constructor
  · rintro ⟨hfp32, ⟨hab, -⟩, hkind⟩
    refine ⟨?_, hfp32, hkind⟩
    rw [← ha.shape_eq, ← hb.shape_eq]
    exact congrArg Shape.mk hab
  · rintro ⟨hab, hfp32, hkind⟩
    rw [hab, hbiShapeBroadcast_self, Except.ok.injEq] at hshape
    refine ⟨hfp32, ⟨?_, ?_⟩, hkind⟩
    · rw [ha.shape_eq, hb.shape_eq, hab]
    · rw [ha.shape_eq, hc.shape_eq, hab, hshape]

include ha hc in
theorem cpuTransposeRun_succeeds (hA : params.axisA < va.shape.rank)
    (hB : params.axisB < va.shape.rank)
    (hshape : vc.shape = ⟨Strided.swapAt va.shape.dims params.axisA params.axisB⟩)
    (hin : va.dtype = .fp32) (hdtype : vc.dtype = va.dtype) :
    cpuTransposeRun ⟨[some a], [some c], params⟩ ws = .ok () := by
  have hcount := ha.elemCount
  rw [ha.shape_eq] at hcount
  have haxes : ¬ (va.shape.rank ≤ params.axisA ∨ va.shape.rank ≤ params.axisB) := by omega
  simp [cpuTransposeRun, requireArity_one_one a hc, KernelArgs.input, KernelArgs.output,
    ha.requireContiguous_eq, hc.requireContiguous_eq, ha.dtype_eq, hc.dtype_eq, hin, hdtype,
    hcount, ha.shape_eq, hc.shape_eq, hshape, hbiShapeEqual, haxes, bind, Except.bind, pure,
    Except.pure]

include ha hb hc in
theorem cpuMatmulRun_succeeds_iff (hA : va.shape.rank = 2) (hB : vb.shape.rank = 2)
    (hinner : va.shape.dims.getD 1 0 = vb.shape.dims.getD 0 0)
    (hshape : vc.shape = ⟨[va.shape.dims.getD 0 0, vb.shape.dims.getD 1 0]⟩)
    (hin : va.dtype = .fp32) (hdtype : vc.dtype = va.dtype) :
    cpuMatmulRun ⟨[some a, some b], [some c], params⟩ ws = .ok () ↔ vb.dtype = .fp32 := by
  simp only [cpuMatmulRun, requireArity_two_one a b hc, KernelArgs.input, KernelArgs.output,
    List.getElem?_cons_zero, List.getElem?_cons_succ, Option.join_some, ha.requireContiguous_eq,
    hb.requireContiguous_eq, hc.requireContiguous_eq, bind, Except.bind, ha.dtype_eq, hb.dtype_eq,
    hc.dtype_eq, hin, hdtype, Result.ite_errSet_eq_ok, ha.shape_eq, hb.shape_eq, hc.shape_eq, hA,
    hB, hshape, hinner]
  simp [Shape.rank]

end Kernels

/-- The reference kernels all serve single precision on the CPU, under any layout. -/
theorem kCpuKernels_servesOp {k : Kernel} (hk : k ∈ kCpuKernels) :
    k.servesOp k.op ∧ hbiKernelSupportsDtype k .fp32 = true ∧ k.workspaceSize = none := by
  simp only [kCpuKernels, List.mem_cons, List.not_mem_nil, or_false] at hk
  rcases hk with rfl | rfl | rfl | rfl | rfl | rfl | rfl | rfl | rfl | rfl | rfl | rfl <;>
    exact ⟨⟨rfl, rfl, rfl⟩, rfl, rfl⟩

/-- There is one reference kernel for an operation. -/
theorem eq_of_mem_kCpuKernels {e k : Kernel} (he : e ∈ kCpuKernels) (hk : k ∈ kCpuKernels)
    (hop : e.op = k.op) : e = k := by
  obtain ⟨⟨-, hdevice, hflags⟩, hsupports, -⟩ := kCpuKernels_servesOp he
  obtain ⟨⟨-, hdevice', hflags'⟩, hsupports', -⟩ := kCpuKernels_servesOp hk
  refine kCpuKernels_registered.eq_of_overlaps he hk ⟨hop, hdevice.trans hdevice'.symm,
    hflags.trans hflags'.symm, .fp32, ?_, hsupports⟩
  simpa [hbiKernelSupportsDtype] using hsupports'

/-- The checks that a kernel makes on its own, beyond what inference has accepted. -/
def kernelOnlyChecks (op : KernelOp) (params : KernelParams) (inputs : List Value) : Bool :=
  match op, inputs with
  | .elementwise, [a, b] => a.shape = b.shape ∧ b.dtype = .fp32 ∧ params.elementwise < 2
  | .matmul, [_, b] => b.dtype = .fp32
  | .cast, _ => params.castTarget = .fp32 ∨ params.castTarget = .int8
  | _, _ => true

/-- A reference kernel on operands that inference has accepted, with the dtype that selects
it among the ones it supports. -/
theorem kCpuKernels_run_iff {k : Kernel} (hk : k ∈ kCpuKernels) {params : KernelParams}
    {vals : List Value} {vc : Value} {op : KernelOp} {shape : Shape} {dtype : Dtype}
    (hop : k.op = op) (hinfer : Infers params op vals shape dtype) (hshape : vc.shape = shape)
    (hdtype : vc.dtype = dtype) {ins : List Tensor}
    (hins : List.Forall₂ Tensor.Operand ins vals) {c : Tensor} (hc : c.Operand vc)
    (hsupports : hbiKernelSupportsDtype k ((vals.head?.map Value.dtype).getD vc.dtype) = true)
    (ws : KernelWorkspace) :
    k.run ⟨ins.map some, [some c], params⟩ ws = .ok () ↔
      kernelOnlyChecks op params vals = true := by
  have hthis : ∀ e : Kernel, e ∈ kCpuKernels → e.op = op → k = e :=
    fun e he heop => eq_of_mem_kCpuKernels hk he (hop.trans heop.symm)
  cases hinfer with
  | copy va =>
      obtain rfl := hthis (cpuKernel .copy "cpu.copy" kByteDtypes cpuCopyRun)
        (by simp [kCpuKernels]) rfl
      obtain _ | ⟨ha, _ | _⟩ := hins
      exact iff_of_true (cpuCopyRun_succeeds ha hc params ws hshape hdtype) rfl
  | cast va =>
      obtain rfl := hthis (cpuKernel .cast "cpu.cast" kByteDtypes cpuCastRun)
        (by simp [kCpuKernels]) rfl
      obtain _ | ⟨ha, _ | _⟩ := hins
      have hin : va.dtype = .fp32 ∨ va.dtype = .int8 := by
        simpa [hbiKernelSupportsDtype, cpuKernel, kByteDtypes] using hsupports
      rw [kernelOnlyChecks, decide_eq_true_iff]
      exact cpuCastRun_succeeds_iff ha hc params ws hshape hdtype hin
  | fill =>
      obtain rfl := hthis (cpuKernel .fill "cpu.fill" kByteDtypes cpuFillRun)
        (by simp [kCpuKernels]) rfl
      obtain _ | _ := hins
      exact iff_of_true (cpuFillRun_succeeds hc params ws hdtype) rfl
  | @elementwise va vb shape hbroadcast =>
      obtain rfl := hthis (cpuKernel .elementwise "cpu.elementwise.fp32" kFp32Only
        cpuElementwiseRun) (by simp [kCpuKernels]) rfl
      obtain _ | ⟨ha, _ | ⟨hb, _ | _⟩⟩ := hins
      have hin : va.dtype = .fp32 := by
        simpa [hbiKernelSupportsDtype, cpuKernel, kFp32Only] using hsupports
      rw [kernelOnlyChecks, decide_eq_true_iff]
      exact cpuElementwiseRun_succeeds_iff ha hb hc params ws (hshape ▸ hbroadcast) hin hdtype
  | @transpose va hA hB =>
      obtain rfl := hthis (cpuKernel .transpose "cpu.transpose.fp32" kFp32Only cpuTransposeRun)
        (by simp [kCpuKernels]) rfl
      obtain _ | ⟨ha, _ | _⟩ := hins
      have hin : va.dtype = .fp32 := by
        simpa [hbiKernelSupportsDtype, cpuKernel, kFp32Only] using hsupports
      exact iff_of_true (cpuTransposeRun_succeeds ha hc params ws hA hB hshape hin hdtype) rfl
  | @matmul va vb hA hB hinner =>
      obtain rfl := hthis (cpuKernel .matmul "cpu.matmul.fp32" kFp32Only cpuMatmulRun)
        (by simp [kCpuKernels]) rfl
      obtain _ | ⟨ha, _ | ⟨hb, _ | _⟩⟩ := hins
      have hin : va.dtype = .fp32 := by
        simpa [hbiKernelSupportsDtype, cpuKernel, kFp32Only] using hsupports
      rw [kernelOnlyChecks, decide_eq_true_iff]
      exact cpuMatmulRun_succeeds_iff ha hb hc params ws hA hB hinner hshape hin hdtype

/-- A node that its reference kernel runs: it has one output, and it passes the checks
that inference does not make. -/
def Graph.Runnable (g : Graph) (n : Node) : Prop :=
  n.outputs.length = 1 ∧ kernelOnlyChecks n.op n.params (readValues g.values n.inputs) = true

section Node

variable {b : Builder} (hb : b.WellFormed) (hinferred : b.Inferred) {ctx : ExecContext}
  (hctx : ctx.Fresh b.finished)

include hctx in
/-- The inputs of a node are bound to operands of the values it reads. -/
theorem ExecContext.Fresh.inputs {inputs : List Nat} (hlt : ∀ v ∈ inputs, v < b.values.length) :
    ∃ ins, inputs.map ctx.tensorOf = ins.map some ∧
      List.Forall₂ Tensor.Operand ins (readValues b.values inputs) := by
  induction inputs with
  | nil => exact ⟨[], rfl, .nil⟩
  | cons v inputs ih =>
      have hv : v < b.values.length := hlt v (by simp)
      obtain ⟨ins, hmap, hoperands⟩ := ih fun w hw => hlt w (by simp [hw])
      have hval : b.values[v]? = some b.values[v] := List.getElem?_eq_getElem hv
      obtain ⟨t, ht, hoperand⟩ := hctx.operand hval
      refine ⟨t :: ins, by simp [ht, hmap], ?_⟩
      rw [readValues, List.filterMap_cons, hval]
      exact .cons hoperand hoperands

include hb hinferred hctx in
/-- A reference kernel runs the node it was resolved for exactly when the node is
runnable. -/
theorem kernel_run_iff_runnable {i : Nat} {n : Node} (hn : b.nodes[i]? = some n) {k : Kernel}
    (hk : executorKernel kCpuKernels b.finished n = .ok k) (ws : KernelWorkspace) :
    k.run (nodeArgs ctx n) ws = .ok () ↔ b.finished.Runnable n := by
  rw [executorKernel_eq_ok, kCpuKernels_registered.resolve_eq_ok] at hk
  obtain ⟨hmem, hserves, hsupports⟩ := hk
  by_cases hlen : n.outputs.length = 1
  · obtain ⟨v, hv⟩ := List.length_eq_one_iff.mp hlen
    obtain ⟨vc, hvc, hinfer⟩ := hinferred n (List.mem_of_getElem? hn) v (by simp [hv])
    obtain ⟨ins, hins, hoperands⟩ := hctx.inputs (hb.inputs_lt i n hn)
    obtain ⟨c, hc, hout⟩ := hctx.operand hvc
    have hargs : nodeArgs ctx n = ⟨ins.map some, [some c], n.params⟩ := by
      rw [nodeArgs, hins, hv, List.map_singleton, hc]
    have hdtype : executorDtype b.finished n =
        ((readValues b.values n.inputs).head?.map Value.dtype).getD vc.dtype := by
      unfold executorDtype Graph.valueDtype hbiGraphValueAt
      cases hin : n.inputs with
      | nil => simp [hv, hvc, readValues]
      | cons w rest =>
          have hw : w < b.values.length := hb.inputs_lt i n hn w (by simp [hin])
          have hval : b.values[w]? = some b.values[w] := List.getElem?_eq_getElem hw
          simp [readValues, hval]
    rw [hdtype] at hsupports
    rw [hargs, kCpuKernels_run_iff hmem hserves.1 (infers_of_inferOutputShape hinfer) rfl rfl
      hoperands hout hsupports ws]
    exact ⟨fun h => ⟨hlen, h⟩, fun h => h.2⟩
  · refine iff_of_false ?_ fun h => hlen h.1
    intro hrun
    have := kCpuKernels_outputs hmem hrun
    rw [nodeArgs, List.length_map] at this
    exact hlen this

end Node

/-- For every graph that successful builder calls gave, every executor of it over the
reference kernels and every context of freshly allocated tensors: a run succeeds, from
any memory and whatever the kernels compute, exactly when every node is runnable. -/
theorem executor_run_succeeds_iff {g : Graph} (hg : g.Built) {ex : Executor}
    (hex : hbiExecutorCreate kCpuKernels g = .ok ex) {ctx : ExecContext} (hctx : ctx.Fresh g)
    (ws : Node → KernelWorkspace) (compute : Node → List (Option Bytes) → List Bytes)
    (m : Memory) :
    (∃ m', (hbiExecutorRun (ex.kernels ctx ws compute) ctx m).2 = .ok m') ↔
      ∀ n ∈ g.nodes, g.Runnable n := by
  obtain ⟨b, hreached, hfinished⟩ := hg.exists_reached
  subst hfinished
  have hb := hreached.wellFormed
  have hnodes : ctx.graph.orderedNodes = b.nodes := by
    rw [hctx.1, b.orderedNodes_finished]
  unfold hbiExecutorRun
  rw [hnodes]
  apply BufferReuse.run_succeeds_iff
  intro n hn read
  obtain ⟨i, hi⟩ := List.mem_iff_getElem?.mp hn
  obtain ⟨k, hk, hkernel⟩ := hbiExecutorCreate_kernel hex hi
  have hid : n.id = i := hb.node_id i n hi
  have hbound : ∀ v, v < b.values.length → (ctx.tensorOf v).isNone = false := by
    intro v hv
    obtain ⟨t, ht, -⟩ := hctx.operand (List.getElem?_eq_getElem hv)
    simp [ht]
  have hins : n.inputs.find? (fun v => (ctx.tensorOf v).isNone) = none := by
    apply List.find?_eq_none.mpr
    intro v hv
    simp [hbound v (hb.inputs_lt i n hi v hv)]
  have houts : n.outputs.find? (fun v => (ctx.tensorOf v).isNone) = none := by
    apply List.find?_eq_none.mpr
    intro v hv
    have hprod := (hb.producer_iff v i).mpr ⟨n, hi, hv⟩
    simp [hbound v (producerOf_lt hprod)]
  have hsize : (ex.kernels ctx ws compute).workspaceSize n = .ok 0 := by
    have hmem := (kCpuKernels_registered.resolve_eq_ok.mp (executorKernel_eq_ok.mp hkernel)).1
    simp [Executor.kernels, hid, hk, Kernel.reportedSize, (kCpuKernels_servesOp hmem).2.2]
  have hrun : (ex.kernels ctx ws compute).run n read = do
      k.run (nodeArgs ctx n) (ws n)
      return compute n read := by
    simp [Executor.kernels, hid, hk]
  rw [← kernel_run_iff_runnable hb hreached.inferred hctx hi hkernel (ws n)]
  simp only [executorNode, hins, houts, hsize, hrun]
  cases k.run (nodeArgs ctx n) (ws n) with
  | error e => simp [bind, Except.bind]
  | ok u => simp [bind, Except.bind, pure, Except.pure]

theorem castContext_int8_fresh : (castContext .int8).Fresh (castTo .int8).finished := by
  refine ⟨rfl, ?_⟩
  intro v val hval
  match v with
  | 0 =>
      cases hval
      exact ⟨AlignedBlock.line 0, _, rfl, rfl⟩
  | 1 =>
      cases hval
      exact ⟨AlignedBlock.line 1, _, rfl, rfl⟩
  | n + 2 => cases hval

theorem executor_run_succeeds_iff_cast_int8 :
    ∃ ex, hbiExecutorCreate kCpuKernels (castTo .int8).finished = .ok ex ∧
      ∃ m', (hbiExecutorRun (ex.kernels (castContext .int8) (fun _ => .empty) fun _ _ => [])
        (castContext .int8) fun _ => 0).2 = .ok m' := by
  have hex : hbiExecutorCreate kCpuKernels (castTo .int8).finished = .ok _ := rfl
  refine ⟨_, hex, ?_⟩
  apply (executor_run_succeeds_iff (castTo_reached .int8).built hex castContext_int8_fresh _ _
    _).mpr
  intro n hn
  rcases List.mem_cons.mp hn with rfl | hn
  · exact ⟨rfl, rfl⟩
  · rw [List.mem_singleton.mp hn]
    exact ⟨rfl, rfl⟩

/-- Two numbers, to which one number is added. -/
def broadcastSum : Builder :=
  let b := (hbiGraphAddNode .empty none .fill none [] 1).1
  let b := ((hbiGraphAddInput b none ⟨[2]⟩ .fp32).toOption.getD (b, 0)).1
  (hbiGraphAddNode b none .elementwise none [1, 0] 1).1

theorem broadcastSum_reached : broadcastSum.Reached := by
  have hfill := @Builder.Reached.node _ _ none .fill none [] 1 _ .empty rfl
  have hinput := @Builder.Reached.input _ _ none ⟨[2]⟩ .fp32 _ hfill rfl
  exact @Builder.Reached.node _ _ none .elementwise none [1, 0] 1 _ hinput rfl

def broadcastSumContext : ExecContext where
  graph := broadcastSum.finished
  values := [⟨(hbiTensorAlloc .fp32 ⟨[1]⟩ (some (AlignedBlock.line 0))).toOption, false⟩,
    ⟨(hbiTensorAlloc .fp32 ⟨[2]⟩ (some (AlignedBlock.line 1))).toOption, false⟩,
    ⟨(hbiTensorAlloc .fp32 ⟨[2]⟩ (some (AlignedBlock.line 2))).toOption, false⟩]
  pools := []

theorem broadcastSumContext_fresh : broadcastSumContext.Fresh broadcastSum.finished := by
  refine ⟨rfl, ?_⟩
  intro v val hval
  match v with
  | 0 =>
      cases hval
      exact ⟨AlignedBlock.line 0, _, rfl, rfl⟩
  | 1 =>
      cases hval
      exact ⟨AlignedBlock.line 1, _, rfl, rfl⟩
  | 2 =>
      cases hval
      exact ⟨AlignedBlock.line 2, _, rfl, rfl⟩
  | n + 3 => cases hval

/-- The builder broadcasts the operands of a sum, and the kernel refuses them. -/
theorem executor_run_refuses_broadcast :
    broadcastSum.finished.Built ∧ broadcastSumContext.Fresh broadcastSum.finished ∧
      (∀ val ∈ broadcastSum.finished.values, hbiShapeValidate val.shape = .ok ()) ∧
      (∀ n ∈ broadcastSum.finished.nodes, n.outputs.length ≤ 1) ∧
      ∃ ex, hbiExecutorCreate kCpuKernels broadcastSum.finished = .ok ex ∧
        ∃ e, (hbiExecutorRun (ex.kernels broadcastSumContext (fun _ => .empty) fun _ _ => [])
          broadcastSumContext fun _ => 0).2 = .error e := by
  refine ⟨broadcastSum_reached.built, broadcastSumContext_fresh, ?_, ?_, _, rfl, _, rfl⟩
  · intro val hval
    rcases hval with _ | ⟨_, _ | ⟨_, _ | ⟨_, ⟨⟩⟩⟩⟩ <;> rfl
  · intro n hn
    rcases hn with _ | ⟨_, _ | ⟨_, ⟨⟩⟩⟩ <;> exact le_refl 1

end Hummingbird

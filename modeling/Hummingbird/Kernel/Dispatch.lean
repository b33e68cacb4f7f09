import Hummingbird.Kernel.Registry
import Hummingbird.Runtime.Executor

/-!
How the two executors come to a kernel and to its scratch buffer. The ahead-of-time
executor resolves by the dtype of the first input, or of the first output when there is
no input, and reserves what the kernel asks for. The runtime's executor resolves by the
dtype of the first output and forwards the buffer it finds, with the size that the task
records.
-/

namespace Hummingbird

/-- Dtype of a value of the graph. -/
def Graph.valueDtype (g : Graph) (v : Nat) : Dtype :=
  ((hbiGraphValueAt g v).map Value.dtype).getD .fp32

/-- The dtype by which `hbi_executor_create` resolves the kernel of a node. -/
def executorDtype (g : Graph) (n : Node) : Dtype :=
  match n.inputs.head? with
  | some v => g.valueDtype v
  | none =>
    match n.outputs.head? with
    | some v => g.valueDtype v
    | none => .fp32

/-- One turn of the resolution loop in `hbi_executor_create`. -/
def executorKernel (kernels : List Kernel) (g : Graph) (n : Node) : Result Kernel :=
  match hbiKernelResolve kernels ⟨n.op, .cpu, executorDtype g n, kernelLayoutAny⟩ with
  | .error _ => errSet .notFound (s!"no kernel found for node {n.name} " ++
      s!"(op {hbiKernelOpStr n.op}, dtype {hbiDtypeStr (executorDtype g n)})")
  | .ok k => .ok k

structure Executor where
  graph : Graph
  nodeKernels : List Kernel

def hbiExecutorCreate (kernels : List Kernel) (g : Graph) : Result Executor := do
  let nodeKernels ← g.nodes.mapM (executorKernel kernels g)
  return ⟨g, nodeKernels⟩

/-- The resolution in `hbi_runtime_executor_run`. -/
def runtimeKernel (kernels : List Kernel) (ctx : ExecContext) (n : Node) : Result Kernel :=
  match hbiKernelResolve kernels ⟨n.op, .cpu, kernelDtype ctx n, kernelLayoutAny⟩ with
  | .error e =>
      errSet e.status s!"executor_run: failed to resolve kernel for op {n.op.ctorIdx}"
  | .ok k => .ok k

/-- The operands of a node as both executors hand them over. -/
def nodeArgs (ctx : ExecContext) (n : Node) : KernelArgs :=
  ⟨n.inputs.map ctx.tensorOf, n.outputs.map ctx.tensorOf, n.params⟩

/-- The size that the callback of a kernel reports; none is reported as zero. -/
def Kernel.reportedSize (k : Kernel) (args : KernelArgs) : Result Nat :=
  match k.workspaceSize with
  | none => .ok 0
  | some workspaceSize => workspaceSize args

/-- What `hbi_executor_run` does with the workspace of its context before a kernel runs. -/
def executorWorkspace (k : Kernel) (args : KernelArgs) (ws : KernelWorkspace)
    (fresh : Option Int) (name : String) : Result KernelWorkspace :=
  match k.workspaceSize with
  | none => .ok ws
  | some workspaceSize =>
    match workspaceSize args with
    | .error e => errSet e.status s!"workspace query failed on {name}"
    | .ok wsBytes =>
      if wsBytes > 0 then
        match hbiKernelWorkspaceReserve ws wsBytes hbiTensorDefaultAlign fresh with
        | .error e => errSet e.status s!"workspace reserve failed on {name}"
        | .ok ws => .ok ws
      else .ok ws

/-- Scratch that a task records: the tasks of a plan are cleared, and nothing sets it. -/
def Task.requiredWorkspace (_ : Task) : Nat := 0

/-- The workspace that `cpu_execute` makes of a dispatch command. -/
def dispatchWorkspace (workspace : Int) (workspaceSize : Nat) : KernelWorkspace :=
  if workspaceSize > 0 ∧ workspace ≠ 0 then { KernelWorkspace.empty with
    buffer := workspace, capacity := workspaceSize }
  else KernelWorkspace.empty

/-- What the runtime's executor hands a kernel: the buffer of its context under the size
of the task. -/
def runtimeWorkspace (task : Task) (ws : KernelWorkspace) : KernelWorkspace :=
  dispatchWorkspace ws.buffer task.requiredWorkspace

/-- The bound tensors have the dtypes of their values. -/
def ExecContext.Typed (ctx : ExecContext) (g : Graph) : Prop :=
  ∀ (v : Nat) (val : Value) (t : Tensor), g.values[v]? = some val → ctx.tensorOf v = some t →
    t.dtype = val.dtype

/-- The two executors agree on a node: they resolve the same kernel or both none, and each
hands its kernel at least the scratch that the kernel reports. -/
structure DispatchAgrees (kernels : List Kernel) (g : Graph) (ctx : ExecContext) (task : Task)
    (n : Node) : Prop where
  same_kernel : (executorKernel kernels g n).toOption = (runtimeKernel kernels ctx n).toOption
  executor_scratch : ∀ k, executorKernel kernels g n = .ok k →
    ∀ ws fresh ws', executorWorkspace k (nodeArgs ctx n) ws fresh n.name = .ok ws' →
      ∀ bytes, k.reportedSize (nodeArgs ctx n) = .ok bytes → bytes ≤ ws'.capacity
  runtime_scratch : ∀ k, runtimeKernel kernels ctx n = .ok k → ∀ ws bytes,
    k.reportedSize (nodeArgs ctx n) = .ok bytes → bytes ≤ (runtimeWorkspace task ws).capacity

/-- A kernel that a key without layout constraints can select for an operation. -/
def Kernel.servesOp (k : Kernel) (op : KernelOp) : Prop :=
  k.op = op ∧ k.device = .cpu ∧ k.layoutFlags = kernelLayoutAny

theorem matchedBy_any {k : Kernel} {op : KernelOp} {dt : Dtype} :
    KernelKey.matchedBy ⟨op, .cpu, dt, kernelLayoutAny⟩ k = true ↔
      k.servesOp op ∧ hbiKernelSupportsDtype k dt = true := by
  have hflags : k.layoutFlags &&& ~~~kernelLayoutAny = k.layoutFlags :=
    BitVec.and_allOnes
  rw [KernelKey.matchedBy, decide_eq_true_iff, hflags]
  exact ⟨fun ⟨hop, hdevice, hdt, hflags⟩ => ⟨⟨hop, hdevice, hflags⟩, hdt⟩,
    fun ⟨⟨hop, hdevice, hflags⟩, hdt⟩ => ⟨hop, hdevice, hdt, hflags⟩⟩

/-- Resolution without layout constraints, over a registry. -/
theorem Registered.resolve_eq_ok {kernels : List Kernel} (h : Registered kernels) {op : KernelOp}
    {dt : Dtype} {k : Kernel} :
    hbiKernelResolve kernels ⟨op, .cpu, dt, kernelLayoutAny⟩ = .ok k ↔
      k ∈ kernels ∧ k.servesOp op ∧ hbiKernelSupportsDtype k dt = true := by
  constructor
  · intro hres
    simp only [hbiKernelResolve, Result.ite_errSet_eq_ok] at hres
    obtain ⟨-, hres⟩ := hres
    split at hres
    · rename_i k' hfind
      cases hres
      exact ⟨List.mem_of_find?_eq_some hfind, matchedBy_any.mp (List.find?_some hfind)⟩
    · simp at hres
  · rintro ⟨hmem, hserves, hdt⟩
    have hvalid : hbiKernelOpIsValid op = true := hserves.1 ▸ h.sound.1 k hmem
    cases hfind : kernels.find? (KernelKey.matchedBy ⟨op, .cpu, dt, kernelLayoutAny⟩) with
    | none =>
        exact absurd (matchedBy_any.mpr ⟨hserves, hdt⟩) (List.find?_eq_none.mp hfind k hmem)
    | some k' =>
        obtain ⟨hserves', hdt'⟩ := matchedBy_any.mp (List.find?_some hfind)
        have hover : k'.Overlaps k :=
          ⟨hserves'.1.trans hserves.1.symm, hserves'.2.1.trans hserves.2.1.symm,
            hserves'.2.2.trans hserves.2.2.symm, dt, by simpa [hbiKernelSupportsDtype] using hdt,
            hdt'⟩
        have heq := h.eq_of_overlaps (List.mem_of_find?_eq_some hfind) hmem hover
        simp [hbiKernelResolve, hvalid, hfind, heq]

/-- The loop of `hbi_executor_create` only changes the error of a resolution. -/
theorem executorKernel_eq_ok {kernels : List Kernel} {g : Graph} {n : Node} {k : Kernel} :
    executorKernel kernels g n = .ok k ↔
      hbiKernelResolve kernels ⟨n.op, .cpu, executorDtype g n, kernelLayoutAny⟩ = .ok k := by
  unfold executorKernel
  split <;> simp_all

theorem runtimeKernel_eq_ok {kernels : List Kernel} {ctx : ExecContext} {n : Node} {k : Kernel} :
    runtimeKernel kernels ctx n = .ok k ↔
      hbiKernelResolve kernels ⟨n.op, .cpu, kernelDtype ctx n, kernelLayoutAny⟩ = .ok k := by
  unfold runtimeKernel
  split <;> simp_all

/-- The executor holds the kernel that the loop resolved for each node. -/
theorem hbiExecutorCreate_kernel {kernels : List Kernel} {g : Graph} {ex : Executor}
    (h : hbiExecutorCreate kernels g = .ok ex) {i : Nat} {n : Node} (hn : g.nodes[i]? = some n) :
    ∃ k, ex.nodeKernels[i]? = some k ∧ executorKernel kernels g n = .ok k := by
  obtain ⟨ks, hks, hex⟩ := Result.bind_eq_ok.mp h
  cases hex
  have hloop : ∀ {nodes : List Node} {ks : List Kernel} {i : Nat},
      nodes.mapM (executorKernel kernels g) = .ok ks → nodes[i]? = some n →
        ∃ k, ks[i]? = some k ∧ executorKernel kernels g n = .ok k := by
    intro nodes
    induction nodes with
    | nil => simp
    | cons x nodes ih =>
        intro ks i hmap hget
        rw [List.mapM_cons, Result.bind_eq_ok] at hmap
        obtain ⟨k, hk, hmap⟩ := hmap
        obtain ⟨rest, hrest, hmap⟩ := Result.bind_eq_ok.mp hmap
        cases hmap
        cases i with
        | zero =>
            cases hget
            exact ⟨k, rfl, hk⟩
        | succ i =>
            obtain ⟨k', hk', hres⟩ := ih hrest hget
            exact ⟨k', hk', hres⟩
  exact hloop hks hn

/-- The ahead-of-time executor reserves at least what a kernel reports. -/
theorem le_capacity_of_executorWorkspace {k : Kernel} {args : KernelArgs}
    {ws ws' : KernelWorkspace} {fresh : Option Int} {name : String} {bytes : Nat}
    (h : executorWorkspace k args ws fresh name = .ok ws')
    (hsize : k.reportedSize args = .ok bytes) : bytes ≤ ws'.capacity := by
  unfold executorWorkspace at h
  unfold Kernel.reportedSize at hsize
  cases hcallback : k.workspaceSize with
  | none =>
      simp only [hcallback, Except.ok.injEq] at hsize
      omega
  | some workspaceSize =>
      simp only [hcallback] at h hsize
      simp only [hsize] at h
      split at h
      · split at h
        · simp at h
        · rename_i ws₁ hreserve
          cases h
          exact le_capacity_of_reserve hreserve
      · omega

@[simp]
theorem runtimeWorkspace_capacity (task : Task) (ws : KernelWorkspace) :
    (runtimeWorkspace task ws).capacity = 0 := by
  simp [runtimeWorkspace, dispatchWorkspace, Task.requiredWorkspace, KernelWorkspace.empty]

/-- Two dtypes resolve to the same kernel, or both to none, exactly when no kernel that
serves the operation tells them apart. -/
theorem Registered.resolve_congr_iff {kernels : List Kernel} (h : Registered kernels)
    {op : KernelOp} {a b : Dtype} :
    (hbiKernelResolve kernels ⟨op, .cpu, a, kernelLayoutAny⟩).toOption =
      (hbiKernelResolve kernels ⟨op, .cpu, b, kernelLayoutAny⟩).toOption ↔
      ∀ k ∈ kernels, k.servesOp op →
        (hbiKernelSupportsDtype k a = true ↔ hbiKernelSupportsDtype k b = true) := by
  have hmem : ∀ (dt : Dtype) (k : Kernel),
      k ∈ (hbiKernelResolve kernels ⟨op, .cpu, dt, kernelLayoutAny⟩).toOption ↔
        k ∈ kernels ∧ k.servesOp op ∧ hbiKernelSupportsDtype k dt = true := by
    intro dt k
    rw [← h.resolve_eq_ok]
    cases hbiKernelResolve kernels ⟨op, .cpu, dt, kernelLayoutAny⟩ <;> simp [Except.toOption]
  constructor
  · intro heq k hk hserves
    have ha := hmem a k
    have hb := hmem b k
    rw [heq] at ha
    constructor
    · intro hsupports
      exact (hb.mp (ha.mpr ⟨hk, hserves, hsupports⟩)).2.2
    · intro hsupports
      exact (ha.mp (hb.mpr ⟨hk, hserves, hsupports⟩)).2.2
  · intro hall
    apply Option.ext
    intro k
    rw [← Option.mem_def, ← Option.mem_def, hmem, hmem]
    exact ⟨fun ⟨hk, hserves, hdt⟩ => ⟨hk, hserves, (hall k hk hserves).mp hdt⟩,
      fun ⟨hk, hserves, hdt⟩ => ⟨hk, hserves, (hall k hk hserves).mpr hdt⟩⟩

/-- Dtype of the first output of a node, when it has one that is bound. -/
def boundOutputDtype (g : Graph) (ctx : ExecContext) (n : Node) : Dtype :=
  match n.outputs.head? with
  | some v => if (ctx.tensorOf v).isSome then g.valueDtype v else .fp32
  | none => .fp32

theorem kernelDtype_eq_boundOutputDtype {b : Builder} (hb : b.WellFormed) {ctx : ExecContext}
    (hctx : ctx.Typed b.finished) {n : Node} (hn : n ∈ b.nodes) :
    kernelDtype ctx n = boundOutputDtype b.finished ctx n := by
  unfold kernelDtype boundOutputDtype
  cases hout : n.outputs.head? with
  | none => rfl
  | some v =>
      obtain ⟨i, hi⟩ := List.mem_iff_getElem?.mp hn
      have hprod := (hb.producer_iff v i).mpr ⟨n, hi, List.mem_of_head? hout⟩
      have hlt := producerOf_lt hprod
      have hval : b.finished.values[v]? = some b.values[v] := List.getElem?_eq_getElem hlt
      cases ht : ctx.tensorOf v with
      | none => simp [ht]
      | some t =>
          have hdtype := hctx v _ t hval ht
          have hvalue : b.finished.valueDtype v = t.dtype := by
            rw [Graph.valueDtype, hbiGraphValueAt, hval, hdtype]
            rfl
          simp [ht, hvalue]

/-- No kernel that serves the operation of a node tells the two dtypes apart that the
executors resolve by, and none that serves them reports scratch for the operands. -/
structure DispatchSafe (kernels : List Kernel) (g : Graph) (ctx : ExecContext) (n : Node) :
    Prop where
  dtypes_alike : ∀ k ∈ kernels, k.servesOp n.op →
    (hbiKernelSupportsDtype k (executorDtype g n) = true ↔
      hbiKernelSupportsDtype k (boundOutputDtype g ctx n) = true)
  no_scratch : ∀ k ∈ kernels, k.servesOp n.op →
    hbiKernelSupportsDtype k (boundOutputDtype g ctx n) = true →
    ∀ bytes, k.reportedSize (nodeArgs ctx n) = .ok bytes → bytes = 0

/-- For every node of a built graph, every registry and every context whose tensors have
the dtypes of their values: the two executors agree on the kernel and on its scratch
exactly when the registered kernels treat the two dtypes alike and need no scratch. -/
theorem dispatch_agrees_iff {g : Graph} (hg : g.Built) {kernels : List Kernel}
    (hkernels : Registered kernels) {ctx : ExecContext} (hctx : ctx.Typed g) (task : Task)
    {n : Node} (hn : n ∈ g.nodes) :
    DispatchAgrees kernels g ctx task n ↔ DispatchSafe kernels g ctx n := by
  obtain ⟨b, hb, rfl⟩ := hg.exists_builder
  have hdtype := kernelDtype_eq_boundOutputDtype hb hctx hn
  have hsame : (executorKernel kernels b.finished n).toOption =
      (runtimeKernel kernels ctx n).toOption ↔ ∀ k ∈ kernels, k.servesOp n.op →
        (hbiKernelSupportsDtype k (executorDtype b.finished n) = true ↔
          hbiKernelSupportsDtype k (boundOutputDtype b.finished ctx n) = true) := by
    rw [← hkernels.resolve_congr_iff, ← hdtype, Option.ext_iff, Option.ext_iff]
    refine forall_congr' fun k => ?_
    have hok : ∀ r : Result Kernel, r.toOption = some k ↔ r = .ok k := by
      intro r
      cases r <;> simp [Except.toOption]
    rw [hok, hok, hok, hok, executorKernel_eq_ok, runtimeKernel_eq_ok]
  have hruntime : ∀ k, runtimeKernel kernels ctx n = .ok k ↔ k ∈ kernels ∧ k.servesOp n.op ∧
      hbiKernelSupportsDtype k (boundOutputDtype b.finished ctx n) = true := by
    intro k
    rw [runtimeKernel_eq_ok, hdtype, hkernels.resolve_eq_ok]
  constructor
  · intro h
    refine ⟨hsame.mp h.same_kernel, ?_⟩
    intro k hk hserves hsupports bytes hbytes
    have hle := h.runtime_scratch k ((hruntime k).mpr ⟨hk, hserves, hsupports⟩) .empty bytes hbytes
    rw [runtimeWorkspace_capacity] at hle
    omega
  · intro h
    refine ⟨hsame.mpr h.dtypes_alike, ?_, ?_⟩
    · intro k _ ws fresh ws' hws bytes hbytes
      exact le_capacity_of_executorWorkspace hws hbytes
    · intro k hk ws bytes hbytes
      obtain ⟨hmem, hserves, hsupports⟩ := (hruntime k).mp hk
      rw [h.no_scratch k hmem hserves hsupports bytes hbytes]
      exact Nat.zero_le _

/-- A fill whose result is cast to the given dtype. -/
def castTo (dt : Dtype) : Builder :=
  let b := (hbiGraphAddNode .empty none .fill none [] 1).1
  (hbiGraphAddNode b none .cast (some ⟨dt, 0, 0⟩) [0] 1).1

theorem castTo_reached (dt : Dtype) : (castTo dt).Reached := by
  have hfill := @Builder.Reached.node _ _ none .fill none [] 1 _ .empty rfl
  exact @Builder.Reached.node _ _ none .cast (some ⟨dt, 0, 0⟩) [0] 1 _ hfill rfl

/-- Its two values bound to allocated tensors. -/
def castContext (dt : Dtype) : ExecContext where
  graph := (castTo dt).finished
  values := [⟨(hbiTensorAlloc .fp32 ⟨[1]⟩ (some (AlignedBlock.line 0))).toOption, false⟩,
    ⟨(hbiTensorAlloc dt ⟨[1]⟩ (some (AlignedBlock.line 1))).toOption, false⟩]
  pools := []

theorem castContext_typed (dt : Dtype) : (castContext dt).Typed (castTo dt).finished := by
  have htyped : ∀ (dt : Dtype) (line : Nat) (t : Tensor),
      (hbiTensorAlloc dt ⟨[1]⟩ (some (AlignedBlock.line line))).toOption = some t →
        t.dtype = dt := by
    intro dt line t ht
    cases hres : hbiTensorAlloc dt ⟨[1]⟩ (some (AlignedBlock.line line)) with
    | error e => simp [hres, Except.toOption] at ht
    | ok t' =>
        simp only [hres, Except.toOption, Option.some.injEq] at ht
        exact ht ▸ (tensorAllocImpl_fields hres).1
  intro v val t hval ht
  match v with
  | 0 =>
      cases hval
      exact htyped .fp32 0 t ht
  | 1 =>
      cases hval
      exact htyped dt 1 t ht
  | n + 2 => cases hval

/-- A cast kernel that reports the given scratch. -/
def castKernel (bytes : Nat) : Kernel where
  op := .cast
  name := "cast"
  device := .cpu
  supportedDtypes := [.fp32, .int8]
  layoutFlags := kernelLayoutAny
  workspaceSize := some fun _ => .ok bytes
  run := fun _ _ => .ok ()

theorem castKernel_registered (bytes : Nat) : Registered [castKernel bytes] :=
  @Registered.register [] _ (castKernel bytes) false .empty rfl

theorem dispatch_agrees_iff_cast_int8 :
    ∃ n ∈ (castTo .int8).finished.nodes, n.op = .cast ∧
      DispatchAgrees [castKernel 0] (castTo .int8).finished (castContext .int8)
        ⟨1, some n, [0], 1⟩ n := by
  have hmem : ∃ n ∈ (castTo .int8).finished.nodes, n.op = .cast ∧ n.inputs = [0] ∧
      n.outputs = [1] := ⟨_, List.mem_cons_of_mem _ (List.mem_singleton_self _), rfl, rfl, rfl⟩
  obtain ⟨n, hn, hop, hins, houts⟩ := hmem
  refine ⟨n, hn, hop, ?_⟩
  apply (dispatch_agrees_iff (castTo_reached .int8).built (castKernel_registered 0)
    (castContext_typed .int8) _ hn).mpr
  refine ⟨?_, ?_⟩
  · intro k hk _
    rw [List.mem_singleton.mp hk, executorDtype, boundOutputDtype, hins, houts]
    decide
  · intro k hk _ _ bytes hbytes
    rw [List.mem_singleton.mp hk] at hbytes
    cases hbytes
    rfl

def fillKernel : Kernel where
  op := .fill
  name := "fill"
  device := .cpu
  supportedDtypes := [.fp32]
  layoutFlags := kernelLayoutAny
  workspaceSize := none
  run := fun _ _ => .ok ()

/-- A cast to half precision has a kernel ahead of time and none at run time; a cast
whose kernel asks for eight bytes is given none of them at run time. -/
theorem dispatch_disagrees_cast :
    (∀ bytes, Registered [fillKernel, castKernel bytes]) ∧
    ((hbiExecutorCreate [fillKernel, castKernel 0] (castTo .fp16).finished).isOk = true ∧
      ¬ ∀ n ∈ (castTo .fp16).finished.nodes, DispatchAgrees [fillKernel, castKernel 0]
        (castTo .fp16).finished (castContext .fp16) ⟨1, some n, [0], 1⟩ n) ∧
    (hbiExecutorCreate [fillKernel, castKernel 8] (castTo .int8).finished).isOk = true ∧
      ¬ ∀ n ∈ (castTo .int8).finished.nodes, DispatchAgrees [fillKernel, castKernel 8]
        (castTo .int8).finished (castContext .int8) ⟨1, some n, [0], 1⟩ n := by
  refine ⟨?_, ⟨rfl, ?_⟩, rfl, ?_⟩
  · intro bytes
    have hfill : Registered [fillKernel] := @Registered.register [] _ fillKernel false .empty rfl
    exact @Registered.register [fillKernel] _ (castKernel bytes) false hfill rfl
  · intro h
    have hcast := h _ (List.mem_cons_of_mem _ (List.mem_singleton_self _))
    cases hcast.same_kernel
  · intro h
    have hcast := h _ (List.mem_cons_of_mem _ (List.mem_singleton_self _))
    have hle := hcast.runtime_scratch (castKernel 8) rfl .empty 8 rfl
    rw [runtimeWorkspace_capacity] at hle
    omega

end Hummingbird

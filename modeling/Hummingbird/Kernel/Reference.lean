import Hummingbird.Kernel.Registry

/-!
The CPU reference kernels: what each checks before its loops, and with which status it
returns. The loops that follow the checks always end in success; what they do to memory is a
matter of its own. The members of the parameter union share their storage: the kind of an
elementwise, activation or reduction call is read from the bytes of the first transpose axis.
-/

namespace Hummingbird

def KernelParams.elementwise (params : KernelParams) : Nat := params.axisA

def KernelParams.activation (params : KernelParams) : Nat := params.axisA

def KernelParams.reduce (params : KernelParams) : Nat := params.axisA

/-- `args->inputs[i]`; the array is cleared before it is filled. -/
def KernelArgs.input (args : KernelArgs) (i : Nat) : Option Tensor := (args.inputs[i]?).join

/-- `args->outputs[i]`. -/
def KernelArgs.output (args : KernelArgs) (i : Nat) : Option Tensor := (args.outputs[i]?).join

def requireContiguous (t : Option Tensor) (what : String) : Result Tensor :=
  match t with
  | none => errSet .invalidArg s!"{what}: NULL tensor"
  | some t =>
    if t.contiguous = false then
      errSet .unsupported s!"{what}: non-contiguous (reference kernel)"
    else if t.data = 0 then errSet .invalidArg s!"{what}: NULL data"
    else .ok t

/-- The loop over the inputs in `require_arity`. -/
def requireInputs (what : String) (i : Nat) : List (Option Tensor) → Result Unit
  | [] => .ok ()
  | none :: _ => errSet .invalidArg s!"{what}: NULL input {i}"
  | some _ :: rest => requireInputs what (i + 1) rest

/-- The loop over the outputs in `require_arity`. -/
def requireOutputs (what : String) (i : Nat) : List (Option Tensor) → Result Unit
  | [] => .ok ()
  | none :: _ => errSet .invalidArg s!"{what}: NULL output {i}"
  | some t :: rest =>
      if t.readOnly = true then errSet .state s!"{what}: output {i} is read-only"
      else requireOutputs what (i + 1) rest

def requireArity (args : KernelArgs) (ni no : Nat) (what : String) : Result Unit :=
  if args.inputs.length ≠ ni ∨ args.outputs.length ≠ no then
    errSet .invalidArg (s!"{what}: expected {ni} in / {no} out, " ++
      s!"got {args.inputs.length} / {args.outputs.length}")
  else do
    requireInputs what 0 args.inputs
    requireOutputs what 0 args.outputs

def cpuCopyRun (args : KernelArgs) (_ : KernelWorkspace) : Result Unit := do
  requireArity args 1 1 "copy"
  let input ← requireContiguous (args.input 0) "copy.in"
  let out ← requireContiguous (args.output 0) "copy.out"
  if input.dtype ≠ out.dtype then errSet .invalidArg "copy: dtype mismatch"
  else if hbiShapeEqual input.shape out.shape = false then
    errSet .invalidArg "copy: shape mismatch"
  else if out.nbytes < input.nbytes then errSet .invalidArg "copy: output too small"
  else .ok ()

def cpuFillRun (args : KernelArgs) (_ : KernelWorkspace) : Result Unit := do
  requireArity args 0 1 "fill"
  let out ← requireContiguous (args.output 0) "fill.out"
  let _ ← hbiShapeElemCount out.shape
  match out.dtype with
  | .fp32 | .int8 => .ok ()
  | dt => errSet .unsupported s!"fill: dtype {hbiDtypeStr dt} (reference kernel)"

def cpuCastRun (args : KernelArgs) (_ : KernelWorkspace) : Result Unit := do
  requireArity args 1 1 "cast"
  let input ← requireContiguous (args.input 0) "cast.in"
  let out ← requireContiguous (args.output 0) "cast.out"
  if out.dtype ≠ args.params.castTarget then
    errSet .invalidArg "cast: output dtype != cast_target"
  else if hbiShapeEqual input.shape out.shape = false then
    errSet .invalidArg "cast: shape mismatch"
  else do
    let _ ← hbiShapeElemCount input.shape
    if input.dtype = .fp32 ∧ out.dtype = .int8 then .ok ()
    else if input.dtype = .int8 ∧ out.dtype = .fp32 then .ok ()
    else if input.dtype = out.dtype ∧ (input.dtype = .fp32 ∨ input.dtype = .int8) then .ok ()
    else errSet .unsupported (s!"cast: {hbiDtypeStr input.dtype} -> " ++
      s!"{hbiDtypeStr out.dtype} (reference kernel)")

/-- The switch over the kind of an elementwise call: addition or multiplication. -/
def elementwiseSwitch : Nat → Result Unit
  | 0 | 1 => .ok ()
  | kind => errSet .invalidArg s!"elementwise: bad kind {kind}"

theorem elementwiseSwitch_eq_ok {kind : Nat} : elementwiseSwitch kind = .ok () ↔ kind < 2 := by
  match kind with
  | 0 | 1 => simp [elementwiseSwitch]
  | kind + 2 => simp [elementwiseSwitch]

def cpuElementwiseRun (args : KernelArgs) (_ : KernelWorkspace) : Result Unit := do
  requireArity args 2 1 "elementwise"
  let a ← requireContiguous (args.input 0) "elementwise.a"
  let b ← requireContiguous (args.input 1) "elementwise.b"
  let c ← requireContiguous (args.output 0) "elementwise.out"
  if a.dtype ≠ .fp32 ∨ b.dtype ≠ .fp32 ∨ c.dtype ≠ .fp32 then
    errSet .unsupported "elementwise: fp32 only (reference kernel)"
  else if hbiShapeEqual a.shape b.shape = false ∨ hbiShapeEqual a.shape c.shape = false then
    errSet .invalidArg "elementwise: shape mismatch (no broadcast)"
  else do
    let _ ← hbiShapeElemCount a.shape
    elementwiseSwitch args.params.elementwise

def cpuTransposeRun (args : KernelArgs) (_ : KernelWorkspace) : Result Unit := do
  requireArity args 1 1 "transpose"
  let input ← requireContiguous (args.input 0) "transpose.in"
  let out ← requireContiguous (args.output 0) "transpose.out"
  let rank := input.shape.rank
  let axa := args.params.axisA
  let axb := args.params.axisB
  if input.dtype ≠ .fp32 ∨ out.dtype ≠ .fp32 then
    errSet .unsupported "transpose: fp32 only (reference kernel)"
  else if axa ≥ rank ∨ axb ≥ rank then
    errSet .invalidArg s!"transpose: axis ({axa},{axb}) out of rank {rank}"
  else if hbiShapeEqual ⟨Strided.swapAt input.shape.dims axa axb⟩ out.shape = false then
    errSet .invalidArg "transpose: output shape not the swapped input"
  else do
    let _ ← hbiShapeElemCount input.shape
    return ()

def cpuMatmulRun (args : KernelArgs) (_ : KernelWorkspace) : Result Unit := do
  requireArity args 2 1 "matmul"
  let a ← requireContiguous (args.input 0) "matmul.A"
  let b ← requireContiguous (args.input 1) "matmul.B"
  let c ← requireContiguous (args.output 0) "matmul.C"
  let m := a.shape.dims.getD 0 0
  let k := a.shape.dims.getD 1 0
  let n := b.shape.dims.getD 1 0
  let inner := b.shape.dims.getD 0 0
  let cRows := c.shape.dims.getD 0 0
  let cCols := c.shape.dims.getD 1 0
  if a.dtype ≠ .fp32 ∨ b.dtype ≠ .fp32 ∨ c.dtype ≠ .fp32 then
    errSet .unsupported "matmul: fp32 only (reference kernel)"
  else if a.shape.rank ≠ 2 ∨ b.shape.rank ≠ 2 ∨ c.shape.rank ≠ 2 then
    errSet .invalidArg "matmul: operands must be rank-2"
  else if inner ≠ k then errSet .invalidArg s!"matmul: inner dims {k} != {inner}"
  else if cRows ≠ m ∨ cCols ≠ n then
    errSet .invalidArg s!"matmul: C is [{cRows},{cCols}], expected [{m},{n}]"
  else .ok ()

def cpuSoftmaxRun (args : KernelArgs) (_ : KernelWorkspace) : Result Unit := do
  requireArity args 1 1 "softmax"
  let input ← requireContiguous (args.input 0) "softmax.in"
  let out ← requireContiguous (args.output 0) "softmax.out"
  if input.dtype ≠ .fp32 ∨ out.dtype ≠ .fp32 then
    errSet .unsupported "softmax: fp32 only (reference kernel)"
  else if hbiShapeEqual input.shape out.shape = false then
    errSet .invalidArg "softmax: shape mismatch"
  else do
    let _ ← hbiShapeElemCount input.shape
    return ()

def cpuRmsnormRun (args : KernelArgs) (_ : KernelWorkspace) : Result Unit := do
  requireArity args 2 1 "rmsnorm"
  let x ← requireContiguous (args.input 0) "rmsnorm.x"
  let weight ← requireContiguous (args.input 1) "rmsnorm.weight"
  let out ← requireContiguous (args.output 0) "rmsnorm.out"
  if x.dtype ≠ .fp32 ∨ weight.dtype ≠ .fp32 ∨ out.dtype ≠ .fp32 then
    errSet .unsupported "rmsnorm: fp32 only (reference kernel)"
  else if hbiShapeEqual x.shape weight.shape = false ∨ hbiShapeEqual x.shape out.shape = false then
    errSet .invalidArg "rmsnorm: shape mismatch"
  else do
    let _ ← hbiShapeElemCount x.shape
    return ()

def cpuRopeRun (args : KernelArgs) (_ : KernelWorkspace) : Result Unit := do
  requireArity args 1 1 "rope"
  let input ← requireContiguous (args.input 0) "rope.in"
  let out ← requireContiguous (args.output 0) "rope.out"
  if input.dtype ≠ .fp32 ∨ out.dtype ≠ .fp32 then
    errSet .unsupported "rope: fp32 only (reference kernel)"
  else if hbiShapeEqual input.shape out.shape = false then
    errSet .invalidArg "rope: shape mismatch"
  else if input.shape.rank ≠ 3 then
    errSet .invalidArg "rope: expected rank-3 tensor [seq_len, num_heads, head_dim]"
  else if input.shape.dims.getD 2 0 % 2 ≠ 0 then
    errSet .invalidArg "rope: head_dim must be even"
  else .ok ()

def cpuActivationRun (args : KernelArgs) (_ : KernelWorkspace) : Result Unit := do
  requireArity args 1 1 "activation"
  let input ← requireContiguous (args.input 0) "activation.in"
  let out ← requireContiguous (args.output 0) "activation.out"
  if input.dtype ≠ .fp32 ∨ out.dtype ≠ .fp32 then
    errSet .unsupported "activation: fp32 only"
  else if hbiShapeEqual input.shape out.shape = false then
    errSet .invalidArg "activation: shape mismatch"
  else do
    let _ ← hbiShapeElemCount input.shape
    match args.params.activation with
    | 0 | 1 | 2 => .ok ()
    | kind => errSet .invalidArg s!"activation: unknown kind {kind}"

def cpuBatchedMatmulRun (args : KernelArgs) (_ : KernelWorkspace) : Result Unit := do
  requireArity args 2 1 "batched_matmul"
  let a ← requireContiguous (args.input 0) "batched_matmul.A"
  let b ← requireContiguous (args.input 1) "batched_matmul.B"
  let c ← requireContiguous (args.output 0) "batched_matmul.C"
  let dim (t : Tensor) (i : Nat) : Int := t.shape.dims.getD i 0
  if a.dtype ≠ .fp32 ∨ b.dtype ≠ .fp32 ∨ c.dtype ≠ .fp32 then
    errSet .unsupported "batched_matmul: fp32 only"
  else if a.shape.rank ≠ 3 ∨ b.shape.rank ≠ 3 ∨ c.shape.rank ≠ 3 then
    errSet .invalidArg "batched_matmul: operands must be rank-3"
  else if dim b 0 ≠ dim a 0 ∨ dim c 0 ≠ dim a 0 then
    errSet .invalidArg "batched_matmul: batch size mismatch"
  else if dim b 1 ≠ dim a 2 then errSet .invalidArg "batched_matmul: inner dim mismatch"
  else if dim c 1 ≠ dim a 1 ∨ dim c 2 ≠ dim b 2 then
    errSet .invalidArg "batched_matmul: output shape mismatch"
  else .ok ()

def cpuReduceRun (args : KernelArgs) (_ : KernelWorkspace) : Result Unit := do
  requireArity args 1 1 "reduce"
  let input ← requireContiguous (args.input 0) "reduce.in"
  let out ← requireContiguous (args.output 0) "reduce.out"
  if input.dtype ≠ .fp32 ∨ out.dtype ≠ .fp32 then errSet .unsupported "reduce: fp32 only"
  else do
    let n ← hbiShapeElemCount input.shape
    let outN ← hbiShapeElemCount out.shape
    if outN ≠ 1 then errSet .invalidArg "reduce: output must be scalar (1 element)"
    else if n = 0 then .ok ()
    else
      match args.params.reduce with
      | 0 | 1 => .ok ()
      | kind => errSet .invalidArg s!"reduce: unknown kind {kind}"

/-- What the descriptors of the reference kernels have in common. -/
def cpuKernel (op : KernelOp) (name : String) (dtypes : List Dtype)
    (run : KernelArgs → KernelWorkspace → Result Unit) : Kernel where
  op := op
  name := name
  device := .cpu
  supportedDtypes := dtypes
  layoutFlags := kernelLayoutAny
  workspaceSize := none
  run := run

def kByteDtypes : List Dtype := [.fp32, .int8]

def kFp32Only : List Dtype := [.fp32]

def kCpuKernels : List Kernel :=
  [cpuKernel .copy "cpu.copy" kByteDtypes cpuCopyRun,
    cpuKernel .fill "cpu.fill" kByteDtypes cpuFillRun,
    cpuKernel .cast "cpu.cast" kByteDtypes cpuCastRun,
    cpuKernel .elementwise "cpu.elementwise.fp32" kFp32Only cpuElementwiseRun,
    cpuKernel .transpose "cpu.transpose.fp32" kFp32Only cpuTransposeRun,
    cpuKernel .matmul "cpu.matmul.fp32" kFp32Only cpuMatmulRun,
    cpuKernel .softmax "cpu.softmax.fp32" kFp32Only cpuSoftmaxRun,
    cpuKernel .rmsnorm "cpu.rmsnorm.fp32" kFp32Only cpuRmsnormRun,
    cpuKernel .rope "cpu.rope.fp32" kFp32Only cpuRopeRun,
    cpuKernel .activation "cpu.activation.fp32" kFp32Only cpuActivationRun,
    cpuKernel .batchedMatmul "cpu.batched_matmul.fp32" kFp32Only cpuBatchedMatmulRun,
    cpuKernel .reduce "cpu.reduce.fp32" kFp32Only cpuReduceRun]

def hbBackendCpuRegisterKernels (dispatched : Bool) (kernels : List Kernel) :
    Result (List Kernel) :=
  kCpuKernels.foldlM (hbiKernelRegister dispatched) kernels

/-- Registering the reference kernels in an empty registry leaves exactly them. -/
theorem hbBackendCpuRegisterKernels_empty :
    hbBackendCpuRegisterKernels false [] = .ok kCpuKernels := rfl

theorem Registered.foldlM {dispatched : Bool} {kernels kernels' : List Kernel}
    (h : Registered kernels) (added : List Kernel)
    (hadd : added.foldlM (hbiKernelRegister dispatched) kernels = .ok kernels') :
    Registered kernels' := by
  induction added generalizing kernels with
  | nil =>
      cases hadd
      exact h
  | cons k added ih =>
      rw [List.foldlM_cons, Result.bind_eq_ok] at hadd
      obtain ⟨kernels₁, hk, hrest⟩ := hadd
      exact ih (.register h hk) hrest

theorem kCpuKernels_registered : Registered kCpuKernels :=
  Registered.empty.foldlM kCpuKernels hbBackendCpuRegisterKernels_empty

end Hummingbird

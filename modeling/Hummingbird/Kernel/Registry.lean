import Hummingbird.Graph.Builder

/-!
The kernel registry: descriptors that backends register at start, the key that selects
one, and the scratch buffer a kernel may ask for. A descriptor has its name and its run
function; the checks for a missing one do not appear. The contents that a run computes
are not part of it: `run` is the status it returns.
-/

namespace Hummingbird

def hbiKernelRegistryMax : Nat := 64

/-- `HBI_KERNEL_LAYOUT_ANY`. -/
def kernelLayoutAny : BitVec 32 := 0

def hbiKernelOpStr : KernelOp → String
  | .copy => "copy"
  | .fill => "fill"
  | .cast => "cast"
  | .transpose => "transpose"
  | .elementwise => "elementwise"
  | .matmul => "matmul"
  | .reshape => "reshape"
  | .reduce => "reduce"
  | .batchedMatmul => "batched_matmul"
  | .softmax => "softmax"
  | .rmsnorm => "rmsnorm"
  | .layernorm => "layernorm"
  | .rope => "rope"
  | .activation => "activation"
  | .moeRouting => "moe_routing"
  | .attention => "attention"
  | .invalid | .count => "invalid"

def hbiKernelOpIsValid (op : KernelOp) : Bool := op ≠ .invalid ∧ op ≠ .count

/-- The operands of a call; a missing tensor is a null pointer. -/
structure KernelArgs where
  inputs : List (Option Tensor)
  outputs : List (Option Tensor)
  params : KernelParams
  deriving DecidableEq, Repr

/-- A scratch buffer that is bound to an allocator. -/
structure KernelWorkspace where
  buffer : Int
  capacity : Nat
  alignment : Nat
  deriving DecidableEq, Repr

/-- A workspace without a buffer. -/
def KernelWorkspace.empty : KernelWorkspace := ⟨0, 0, 0⟩

/-- `fresh` is what the allocator answers when it is asked. -/
def hbiKernelWorkspaceReserve (ws : KernelWorkspace) (bytes alignment : Nat)
    (fresh : Option Int) : Result KernelWorkspace :=
  if alignment ≠ 0 ∧ hbiIsPow2 alignment = false then
    errSet .invalidArg s!"workspace_reserve: bad alignment {alignment}"
  else if bytes = 0 then .ok ws
  else if ws.buffer ≠ 0 ∧ ws.capacity ≥ bytes ∧
      (alignment = 0 ∨ ws.buffer % alignment = 0) then .ok ws
  else
    match fresh with
    | none => errSet .oom s!"workspace_reserve: {bytes} bytes failed"
    | some buffer => .ok ⟨buffer, bytes, if alignment = 0 then 1 else alignment⟩

/-- A reservation that succeeds leaves at least the bytes that were asked for. -/
theorem le_capacity_of_reserve {ws ws' : KernelWorkspace} {bytes alignment : Nat}
    {fresh : Option Int}
    (h : hbiKernelWorkspaceReserve ws bytes alignment fresh = .ok ws') : bytes ≤ ws'.capacity := by
  simp only [hbiKernelWorkspaceReserve, Result.ite_errSet_eq_ok] at h
  obtain ⟨-, h⟩ := h
  split at h
  · omega
  · split at h
    · rename_i hfits
      cases h
      exact hfits.2.1
    · cases fresh with
      | none => simp at h
      | some buffer =>
          cases h
          exact le_refl bytes

structure Kernel where
  op : KernelOp
  name : String
  device : TensorDevice
  supportedDtypes : List Dtype
  layoutFlags : BitVec 32
  workspaceSize : Option (KernelArgs → Result Nat)
  run : KernelArgs → KernelWorkspace → Result Unit

def hbiKernelSupportsDtype (k : Kernel) (dt : Dtype) : Bool := k.supportedDtypes.contains dt

/-- Does a registered kernel claim an operation, device and dtype of `k` under the same
layout flags? -/
def collides (kernels : List Kernel) (k : Kernel) : Bool :=
  kernels.any fun e => e.op = k.op ∧ e.device = k.device ∧
    k.supportedDtypes.any fun dt => hbiKernelSupportsDtype e dt ∧ e.layoutFlags = k.layoutFlags

/-- `dispatched` tells whether dispatch has started. -/
def hbiKernelRegister (dispatched : Bool) (kernels : List Kernel) (k : Kernel) :
    Result (List Kernel) :=
  if dispatched = true then
    errSet .state "kernel_register: cannot register after dispatch has started"
  else if hbiKernelOpIsValid k.op = false then
    errSet .invalidArg s!"kernel_register: invalid op {k.op.ctorIdx} for '{k.name}'"
  else if k.supportedDtypes = [] then
    errSet .invalidArg s!"kernel_register: '{k.name}' has empty dtype set"
  else if kernels.length ≥ hbiKernelRegistryMax then
    errSet .state s!"kernel_register: registry full ({hbiKernelRegistryMax})"
  else if collides kernels k = true then
    errSet .state s!"kernel_register: '{k.name}' collides with an existing (op,device,dtype)"
  else .ok (kernels ++ [k])

structure KernelKey where
  op : KernelOp
  device : TensorDevice
  dtype : Dtype
  layoutFlags : BitVec 32
  deriving DecidableEq, Repr

/-- The three tests of the loop in `hbi_kernel_resolve`. -/
def KernelKey.matchedBy (key : KernelKey) (k : Kernel) : Bool :=
  k.op = key.op ∧ k.device = key.device ∧ hbiKernelSupportsDtype k key.dtype ∧
    k.layoutFlags &&& ~~~key.layoutFlags = 0

def hbiKernelResolve (kernels : List Kernel) (key : KernelKey) : Result Kernel :=
  if hbiKernelOpIsValid key.op = false then
    errSet .invalidArg s!"kernel_resolve: invalid op {key.op.ctorIdx}"
  else
    match kernels.find? key.matchedBy with
    | some k => .ok k
    | none => errSet .notFound (s!"kernel_resolve: no kernel for op={hbiKernelOpStr key.op} " ++
        s!"device={key.device.ctorIdx} dtype={hbiDtypeStr key.dtype}")

/-- The contents a registry can have: those of registrations that succeeded. -/
inductive Registered : List Kernel → Prop
  | empty : Registered []
  | register {kernels kernels' k dispatched} (h : Registered kernels)
      (hk : hbiKernelRegister dispatched kernels k = .ok kernels') : Registered kernels'

/-- Two kernels claim one dtype for the same operation, device and layout flags. -/
def Kernel.Overlaps (e k : Kernel) : Prop :=
  e.op = k.op ∧ e.device = k.device ∧ e.layoutFlags = k.layoutFlags ∧
    ∃ dt ∈ k.supportedDtypes, hbiKernelSupportsDtype e dt = true

theorem Kernel.Overlaps.symm {e k : Kernel} (h : e.Overlaps k) : k.Overlaps e := by
  obtain ⟨hop, hdevice, hflags, dt, hdt, hsupports⟩ := h
  refine ⟨hop.symm, hdevice.symm, hflags.symm, dt, ?_, ?_⟩
  · simpa [hbiKernelSupportsDtype] using hsupports
  · simpa [hbiKernelSupportsDtype] using hdt

theorem collides_eq_true {kernels : List Kernel} {k : Kernel} :
    collides kernels k = true ↔ ∃ e ∈ kernels, e.Overlaps k := by
  unfold collides Kernel.Overlaps
  simp only [List.any_eq_true, decide_eq_true_eq]
  refine exists_congr fun e => and_congr_right fun _ => ?_
  constructor
  · rintro ⟨hop, hdevice, dt, hdt, hsupports, hflags⟩
    exact ⟨hop, hdevice, hflags, dt, hdt, hsupports⟩
  · rintro ⟨hop, hdevice, hflags, dt, hdt, hsupports⟩
    exact ⟨hop, hdevice, dt, hdt, hsupports, hflags⟩

/-- What a successful registration has checked. -/
theorem hbiKernelRegister_eq_ok {dispatched : Bool} {kernels kernels' : List Kernel} {k : Kernel} :
    hbiKernelRegister dispatched kernels k = .ok kernels' ↔
      dispatched = false ∧ hbiKernelOpIsValid k.op = true ∧ k.supportedDtypes ≠ [] ∧
        kernels.length < hbiKernelRegistryMax ∧ (∀ e ∈ kernels, ¬ e.Overlaps k) ∧
        kernels ++ [k] = kernels' := by
  simp only [hbiKernelRegister, Result.ite_errSet_eq_ok, collides_eq_true, Bool.not_eq_true,
    Bool.not_eq_false, not_exists, not_and, not_le, Except.ok.injEq, ne_eq, ge_iff_le]

/-- What every registry keeps: valid operations, and no two kernels that overlap. -/
theorem Registered.sound {kernels : List Kernel} (h : Registered kernels) :
    (∀ k ∈ kernels, hbiKernelOpIsValid k.op = true) ∧
      kernels.Pairwise fun e k => ¬ e.Overlaps k := by
  induction h with
  | empty => exact ⟨by simp, List.Pairwise.nil⟩
  | @register kernels kernels' k dispatched _ hk ih =>
      obtain ⟨-, hop, -, -, hnew, rfl⟩ := hbiKernelRegister_eq_ok.mp hk
      refine ⟨?_, ?_⟩
      · intro e he
        rcases List.mem_append.mp he with he | he
        · exact ih.1 e he
        · rw [List.mem_singleton.mp he]
          exact hop
      · refine List.pairwise_append.mpr ⟨ih.2, List.pairwise_singleton _ _, ?_⟩
        intro e he k' hk'
        rw [List.mem_singleton.mp hk']
        exact hnew e he

/-- Two registered kernels that overlap are one. -/
theorem Registered.eq_of_overlaps {kernels : List Kernel} (h : Registered kernels) {e k : Kernel}
    (he : e ∈ kernels) (hk : k ∈ kernels) (hover : e.Overlaps k) : e = k := by
  by_contra hne
  have hsymm : Std.Symm fun e k : Kernel => ¬ e.Overlaps k :=
    ⟨fun _ _ hnot hback => hnot hback.symm⟩
  exact h.sound.2.forall he hk hne hover

end Hummingbird

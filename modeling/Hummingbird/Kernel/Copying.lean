import Hummingbird.Kernel.Bodies
import Hummingbird.Tensor.Copied

/-!
The copy kernel beside `hbi_tensor_copy_into`. The kernel moves as many bytes as the source's
buffer has, the other one as many as its elements fill; the difference shows on wrapped
buffers.
-/

namespace Hummingbird

open Accesses

/-- The entry of the copy kernel in the table of the backend. -/
def cpuCopy : Kernel := cpuKernel .copy "cpu.copy" kByteDtypes cpuCopyRun

/-- What two tensors that can be copied have in common. -/
structure CopyPair (input out : Tensor) : Prop where
  input_valid : input.Valid
  out_valid : out.Valid
  input_contiguous : input.contiguous = true
  out_contiguous : out.contiguous = true
  dtype_eq : out.dtype = input.dtype
  dtype_mem : input.dtype = .fp32 ∨ input.dtype = .int8
  shape_eq : out.shape = input.shape
  writable : out.readOnly = false

/-- Both ways of copying succeed alike; after a success of both, the elements of the output are
the same, and neither has changed a byte of the output behind its elements. -/
def CopiesAgree {F : Type} (ops : KernelFloat F) (M : Machine F Memory) (params : KernelParams)
    (ws : KernelWorkspace) (input out : Tensor) : Prop :=
  ∀ m : Memory,
    let run := cpuRun ops M cpuCopy ⟨[some input], [some out], params⟩ ws m
    (run.1 = .ok () ↔ ∃ m', hbiTensorCopyInto m input out = .ok m') ∧
      ∀ m', hbiTensorCopyInto m input out = .ok m' →
        (run.1 = .ok () → ∀ idx, Strided.InBounds out.shape.dims idx →
          out.elem run.2 idx = out.elem m' idx) ∧
        ∀ a, out.Covers a → out.data + out.packedBytes ≤ a → run.2 a = m a ∧ m' a = m a

section Pair

variable {input out : Tensor} (h : CopyPair input out)

include h

theorem CopyPair.cpuCopyRun_iff (params : KernelParams) (ws : KernelWorkspace) :
    cpuCopyRun ⟨[some input], [some out], params⟩ ws = .ok () ↔ input.nbytes ≤ out.nbytes := by
  simp [cpuCopyRun, requireArity, requireInputs, requireOutputs, requireContiguous,
    KernelArgs.input, KernelArgs.output, h.writable, h.input_contiguous, h.out_contiguous,
    h.input_valid.data_ne, h.out_valid.data_ne, h.dtype_eq, h.shape_eq, hbiShapeEqual, bind,
    Except.bind]

/-- The elements of either fill the same number of bytes, which both buffers hold. -/
theorem CopyPair.packed : ∃ bytes : Nat,
    hbiDtypePackedNbytes input.dtype input.shape.dims.prod = .ok bytes ∧
      (bytes : Int) = input.packedBytes ∧ (bytes : Int) = out.packedBytes ∧
      bytes ≤ input.nbytes ∧ bytes ≤ out.nbytes := by
  obtain ⟨n, hn⟩ : ∃ n : Nat, hbiDtypeBits input.dtype = 8 * n := by
    rcases h.dtype_mem with hd | hd <;> rw [hd]
    · exact ⟨4, rfl⟩
    · exact ⟨1, rfl⟩
  obtain ⟨bytes, hbytes, hmul, hle⟩ := h.input_valid.packed_bytes h.input_contiguous hn
  obtain ⟨bytes', hbytes', -, hle'⟩ := h.out_valid.packed_bytes h.out_contiguous (h.dtype_eq ▸ hn)
  rw [h.dtype_eq, h.shape_eq, hbytes, Except.ok.injEq] at hbytes'
  subst hbytes'
  have hpacked : (bytes : Int) = input.packedBytes := by
    unfold Tensor.packedBytes
    rw [hn, hmul, show input.shape.dims.prod * ((8 * n : Nat) : Int) =
      8 * (input.shape.dims.prod * n) by push_cast; ring]
    omega
  refine ⟨bytes, hbytes, hpacked, ?_, hle, hle'⟩
  rw [hpacked, Tensor.packedBytes, Tensor.packedBytes, h.dtype_eq, h.shape_eq]

theorem CopyPair.copyInto_eq (m : Memory) : ∃ bytes : Nat,
    (bytes : Int) = input.packedBytes ∧
      hbiTensorCopyInto m input out = .ok (memcpy m out.data input.data bytes) := by
  obtain ⟨bytes, hbytes, hpacked, -, -, hle⟩ := h.packed
  refine ⟨bytes, hpacked, ?_⟩
  simp [hbiTensorCopyInto, h.input_valid.data_ne, h.out_valid.data_ne, h.writable, h.dtype_eq,
    h.shape_eq, hbiShapeEqual, h.input_contiguous, h.out_contiguous,
    h.input_valid.laid.shape_valid.elemCount, hbytes, not_lt.mpr hle, bind, Except.bind, pure,
    Except.pure]

theorem CopyPair.cpuRun_eq (hle : input.nbytes ≤ out.nbytes) (ops : KernelFloat F32)
    (params : KernelParams) (ws : KernelWorkspace) (m : Memory) :
    cpuRun ops byteMachine cpuCopy ⟨[some input], [some out], params⟩ ws m =
      (.ok (), memcpy m out.data input.data input.nbytes) := by
  have hok : cpuCopy.run ⟨[some input], [some out], params⟩ ws = .ok () :=
    (h.cpuCopyRun_iff params ws).mpr hle
  rw [cpuRun, hok]
  rfl

/-- A kernel that copies like `hbi_tensor_copy_into` does not refuse, and moves no byte behind
the elements. -/
theorem CopyPair.ends_of_agree {ops : KernelFloat F32} {params : KernelParams}
    {ws : KernelWorkspace} (hagree : CopiesAgree ops byteMachine params ws input out) :
    (input.nbytes : Int) = input.packedBytes ∨
      input.data = out.data ∧ input.nbytes ≤ out.nbytes := by
  obtain ⟨bytes, -, hpacked, hpacked', hin, hout⟩ := h.packed
  have hle : input.nbytes ≤ out.nbytes := by
    obtain ⟨_, -, hcopy⟩ := h.copyInto_eq fun _ => 0
    have hok := (hagree fun _ => 0).1.mpr ⟨_, hcopy⟩
    unfold cpuRun at hok
    cases hcase : cpuCopy.run ⟨[some input], [some out], params⟩ ws with
    | error e =>
        rw [hcase] at hok
        cases hok
    | ok u => exact (h.cpuCopyRun_iff params ws).mp hcase
  by_contra hnot
  rw [not_or, not_and] at hnot
  have hdata : input.data ≠ out.data := fun heq => hnot.2 heq hle
  have hlt : bytes < input.nbytes := by
    have := hnot.1
    omega
  obtain ⟨_, -, hcopy⟩ := h.copyInto_eq fun a => if a = input.data + bytes then 1 else 0
  have hkept := (((hagree _).2 _ hcopy).2 (out.data + bytes) ⟨by omega, by omega⟩
    (by omega)).1
  rw [h.cpuRun_eq hle] at hkept
  dsimp only at hkept
  rw [memcpy_inside (by omega) (by omega)] at hkept
  have hne : out.data + (bytes : Int) ≠ input.data + bytes := by omega
  rw [if_pos (by omega), if_neg hne] at hkept
  exact absurd hkept (by decide)

end Pair

theorem memcpy_self (m : Memory) (a : Int) (n : Nat) : memcpy m a a n = m := by
  funext c
  unfold memcpy
  rw [add_sub_cancel, ite_self]

/-- The two ways of copying agree, on every memory, exactly when the source's buffer ends with its
elements, or source and output are the same place and the output's buffer is long enough. -/
theorem copy_kernel_agrees_iff {input out : Tensor} (h : CopyPair input out)
    (ops : KernelFloat F32) (params : KernelParams) (ws : KernelWorkspace) :
    CopiesAgree ops byteMachine params ws input out ↔
      (input.nbytes : Int) = input.packedBytes ∨
        input.data = out.data ∧ input.nbytes ≤ out.nbytes := by
  obtain ⟨bytes, -, hpacked, hpacked', hin, hout⟩ := h.packed
  refine ⟨h.ends_of_agree, fun hcond m => ?_⟩
  have hle : input.nbytes ≤ out.nbytes := by
    rcases hcond with heq | ⟨-, hle⟩
    · omega
    · exact hle
  obtain ⟨bytes', hbytes', hcopy⟩ := h.copyInto_eq m
  rw [h.cpuRun_eq hle]
  have hsame : memcpy m out.data input.data input.nbytes =
      memcpy m out.data input.data bytes' := by
    rcases hcond with heq | ⟨hdata, -⟩
    · congr 1
      omega
    · rw [hdata, memcpy_self, memcpy_self]
  refine ⟨⟨fun _ => ⟨_, hcopy⟩, fun _ => rfl⟩, ?_⟩
  intro m' hm'
  rw [hcopy, Except.ok.injEq] at hm'
  subst hm'
  refine ⟨fun _ idx _ => by rw [hsame], fun a _ ha => ?_⟩
  rw [hsame]
  have hoff := @memcpy_outside m out.data input.data a bytes' (by omega)
  exact ⟨hoff, hoff⟩

/-- Two wraps that end with their elements. -/
theorem copy_kernel_agrees_on_bytes :
    ∃ input out : Tensor, hbiTensorWrap .int8 ⟨[2]⟩ 64 2 = .ok input ∧
      hbiTensorWrap .int8 ⟨[2]⟩ 128 2 = .ok out ∧
      ∀ ops : KernelFloat F32,
        CopiesAgree ops byteMachine KernelParams.zero KernelWorkspace.empty input out := by
  refine ⟨_, _, rfl, rfl, fun ops => (copy_kernel_agrees_iff ⟨Tensor.valid_of_validate ?_,
    Tensor.valid_of_validate ?_, ?_, ?_, ?_, ?_, ?_, ?_⟩ ops _ _).mpr (Or.inl ?_)⟩
  all_goals decide +kernel

/-- A source wrapped with two bytes of slack: the kernel moves the slack too. -/
theorem copy_kernel_moves_slack :
    ∃ input out : Tensor, hbiTensorWrap .int8 ⟨[2]⟩ 64 4 = .ok input ∧
      hbiTensorWrap .int8 ⟨[2]⟩ 128 4 = .ok out ∧
      ∀ ops : KernelFloat F32,
        ¬ CopiesAgree ops byteMachine KernelParams.zero KernelWorkspace.empty input out := by
  refine ⟨_, _, rfl, rfl, fun ops hagree => absurd (CopyPair.ends_of_agree ⟨
    Tensor.valid_of_validate ?_, Tensor.valid_of_validate ?_, ?_, ?_, ?_, ?_, ?_, ?_⟩ hagree) ?_⟩
  all_goals decide +kernel

end Hummingbird

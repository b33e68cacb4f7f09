import Hummingbird.Foundation.Accesses
import Hummingbird.Kernel.Reference
import Hummingbird.Tensor.Copy

/-!
What the CPU reference kernels do once their checks have passed: the loops, as programs of
loads and stores. Float arithmetic and the conversions are parameters. All errors come out of
the checks, so a run is either an error and nothing else, or the body.
-/

namespace Hummingbird

open Accesses

/-- The `float` operations of the kernels. A literal comes as its decimal value, an `int8_t` as
its byte and a `double` as its bits. -/
structure KernelFloat (F : Type) where
  lit : Rat → F
  ofInt : Int → F
  ofInt8 : UInt8 → F
  toInt8 : F → UInt8
  ofDouble : Nat → F
  doubleToUint32 : Nat → Nat
  add : F → F → F
  sub : F → F → F
  mul : F → F → F
  div : F → F → F
  neg : F → F
  lt : F → F → Bool
  roundf : F → F
  expf : F → F
  sqrtf : F → F
  tanhf : F → F
  cosf : F → F
  sinf : F → F
  powf : F → F → F

/-- The bits of the double that shares its storage with the two transpose axes. -/
def KernelParams.fillValue (params : KernelParams) : Nat :=
  params.axisA + params.axisB * uint32Size

/-- The address of `((float *)t->data)[i]`. -/
def f32At (t : Tensor) (i : Int) : Int := t.data + 4 * i

/-- The address of `((int8_t *)t->data)[i]`. -/
def i8At (t : Tensor) (i : Int) : Int := t.data + i

/-- The loop bound that `elem_count` gives. -/
def elemCount (t : Tensor) : Nat :=
  match hbiShapeElemCount t.shape with
  | .ok n => n.toNat
  | .error _ => 0

section Bodies

variable {F : Type} (ops : KernelFloat F)

def f32ToI8 (v : F) : UInt8 :=
  let r := ops.roundf v
  let r :=
    if ops.lt (ops.lit 127) r then ops.lit 127
    else if ops.lt r (ops.lit (-128)) then ops.lit (-128)
    else r
  ops.toInt8 r

def cpuCopyBody (input out : Tensor) : Prog F Unit :=
  copy out.data input.data input.nbytes

def cpuFillBody (params : KernelParams) (out : Tensor) : Prog F Unit :=
  match out.dtype with
  | .fp32 =>
      let fv := ops.ofDouble params.fillValue
      each (elemCount out) fun i => store (f32At out i) fv
  | .int8 =>
      let iv := f32ToI8 ops (ops.ofDouble params.fillValue)
      each (elemCount out) fun i => storeByte (i8At out i) iv
  | _ => pure ()

def cpuCastBody (input out : Tensor) : Prog F Unit :=
  if input.dtype = .fp32 ∧ out.dtype = .int8 then
    each (elemCount input) fun i => do
      let x ← load (f32At input i)
      storeByte (i8At out i) (f32ToI8 ops x)
  else if input.dtype = .int8 ∧ out.dtype = .fp32 then
    each (elemCount input) fun i => do
      let b ← loadByte (i8At input i)
      store (f32At out i) (ops.ofInt8 b)
  else copy out.data input.data input.nbytes

/-- The loops of an elementwise call with one operation. -/
def elementwiseLoop (op : F → F → F) (a b c : Tensor) : Prog F Unit :=
  each (elemCount a) fun i => do
    let x ← load (f32At a i)
    let y ← load (f32At b i)
    store (f32At c i) (op x y)

def cpuElementwiseBody (params : KernelParams) (a b c : Tensor) : Prog F Unit :=
  match params.elementwise with
  | 0 => elementwiseLoop ops.add a b c
  | 1 => elementwiseLoop ops.mul a b c
  | _ => pure ()

/-- The loop over the axes in `cpu_transpose_run`: the offset of an input index in the output. -/
def transposeOffset (axa axb rank : Nat) (ostr idx : List Int) : Int :=
  (List.range rank).foldl (fun doff ax =>
    let sa := if ax = axa then axb else if ax = axb then axa else ax
    doff + idx.getD sa 0 * ostr.getD ax 0) 0

def cpuTransposeBody (params : KernelParams) (input out : Tensor) : Prog F Unit := do
  let rank := input.shape.rank
  let _ ← loop (elemCount input) (List.replicate rank 0) fun flat idx => do
    let doff := transposeOffset params.axisA params.axisB rank out.strides idx
    let x ← load (f32At input flat)
    store (f32At out doff) x
    return (odometerStep input.shape.dims idx).2

/-- The loops over rows, columns and the inner dimension, which both matrix kernels have. -/
def matmulLoops (pa pb pc : Int) (m k n : Nat) : Prog F Unit :=
  each m fun i => each n fun j => do
    let acc ← loop k (ops.lit 0) fun l acc => do
      let x ← load (pa + 4 * (i * k + l : Nat))
      let y ← load (pb + 4 * (l * n + j : Nat))
      return ops.add acc (ops.mul x y)
    store (pc + 4 * (i * n + j : Nat)) acc

/-- A dimension of a tensor as a loop bound. -/
def Tensor.dim (t : Tensor) (i : Nat) : Nat := (t.shape.dims.getD i 0).toNat

def cpuMatmulBody (a b c : Tensor) : Prog F Unit :=
  matmulLoops ops a.data b.data c.data (a.dim 0) (a.dim 1) (b.dim 1)

def cpuSoftmaxBody (input out : Tensor) : Prog F Unit :=
  let n := elemCount input
  if n = 0 then pure ()
  else do
    let first ← load (f32At input 0)
    let maxVal ← loop (n - 1) first fun i maxVal => do
      let x ← load (f32At input (i + 1))
      return if ops.lt maxVal x then x else maxVal
    let sum ← loop n (ops.lit 0) fun i sum => do
      let x ← load (f32At input i)
      let e := ops.expf (ops.sub x maxVal)
      store (f32At out i) e
      return ops.add sum e
    each n fun i => do
      let y ← load (f32At out i)
      store (f32At out i) (ops.div y sum)

def cpuRmsnormBody (x weight out : Tensor) : Prog F Unit :=
  let n := elemCount x
  if n = 0 then pure ()
  else do
    let sumSq ← loop n (ops.lit 0) fun i sumSq => do
      let v ← load (f32At x i)
      return ops.add sumSq (ops.mul v v)
    let meanSq := ops.div sumSq (ops.ofInt n)
    let rmsInv := ops.div (ops.lit 1) (ops.sqrtf (ops.add meanSq (ops.lit (1 / 100000))))
    each n fun i => do
      let v ← load (f32At x i)
      let w ← load (f32At weight i)
      store (f32At out i) (ops.mul (ops.mul v rmsInv) w)

/-- The loop over the pairs of one head; both pointers are to its first component. -/
def ropeHeadLoop (hin hout : Int) (headDim : Nat) (pos : F) : Prog F Unit :=
  each ((headDim + 1) / 2) fun i => do
    let d := 2 * i
    let freq := ops.div pos
      (ops.powf (ops.lit 10000) (ops.div (ops.ofInt d) (ops.ofInt headDim)))
    let cosF := ops.cosf freq
    let sinF := ops.sinf freq
    let x0 ← load (hin + 4 * d)
    let x1 ← load (hin + 4 * (d + 1))
    store (hout + 4 * d) (ops.sub (ops.mul x0 cosF) (ops.mul x1 sinF))
    store (hout + 4 * (d + 1)) (ops.add (ops.mul x0 sinF) (ops.mul x1 cosF))

def cpuRopeBody (params : KernelParams) (input out : Tensor) : Prog F Unit :=
  let numHeads := input.dim 1
  let headDim := input.dim 2
  let posOffset := ops.doubleToUint32 params.fillValue
  each (input.dim 0) fun s => each numHeads fun h =>
    let base := s * (numHeads * headDim) + h * headDim
    ropeHeadLoop ops (f32At input base) (f32At out base) headDim (ops.ofInt (s + posOffset))

/-- The loop of an activation with one function. -/
def activationLoop (act : F → F) (input out : Tensor) : Prog F Unit :=
  each (elemCount input) fun i => do
    let x ← load (f32At input i)
    store (f32At out i) (act x)

def cpuActivationBody (params : KernelParams) (input out : Tensor) : Prog F Unit :=
  match params.activation with
  | 0 => activationLoop (fun x =>
      let inner := ops.mul (ops.lit (7978845608 / 10000000000))
        (ops.add x (ops.mul (ops.mul (ops.mul (ops.lit (44715 / 1000000)) x) x) x))
      ops.mul x (ops.mul (ops.lit (1 / 2)) (ops.add (ops.lit 1) (ops.tanhf inner)))) input out
  | 1 => activationLoop (fun x =>
      ops.div x (ops.add (ops.lit 1) (ops.expf (ops.neg x)))) input out
  | 2 => activationLoop (fun x => if ops.lt (ops.lit 0) x then x else ops.lit 0) input out
  | _ => pure ()

def cpuBatchedMatmulBody (a b c : Tensor) : Prog F Unit :=
  let m := a.dim 1
  let k := a.dim 2
  let n := b.dim 2
  each (a.dim 0) fun i =>
    matmulLoops ops (a.data + 4 * (i * m * k : Nat)) (b.data + 4 * (i * k * n : Nat))
      (c.data + 4 * (i * m * n : Nat)) m k n

def cpuReduceBody (params : KernelParams) (input out : Tensor) : Prog F Unit :=
  let n := elemCount input
  if n = 0 then store (f32At out 0) (ops.lit 0)
  else
    match params.reduce with
    | 0 => do
        let sum ← loop n (ops.lit 0) fun i sum => do
          let x ← load (f32At input i)
          return ops.add sum x
        store (f32At out 0) sum
    | 1 => do
        let first ← load (f32At input 0)
        let maxVal ← loop (n - 1) first fun i maxVal => do
          let x ← load (f32At input (i + 1))
          return if ops.lt maxVal x then x else maxVal
        store (f32At out 0) maxVal
    | _ => pure ()

/-- The body of a kernel with one input, where both operands are there. -/
def unaryBody (args : KernelArgs) (body : Tensor → Tensor → Prog F Unit) : Prog F Unit :=
  match args.input 0, args.output 0 with
  | some input, some out => body input out
  | _, _ => pure ()

/-- The body of a kernel with two inputs, where the operands are there. -/
def binaryBody (args : KernelArgs) (body : Tensor → Tensor → Tensor → Prog F Unit) :
    Prog F Unit :=
  match args.input 0, args.input 1, args.output 0 with
  | some a, some b, some c => body a b c
  | _, _, _ => pure ()

/-- What follows the checks of the reference kernel for an operation. -/
def cpuBody (args : KernelArgs) : KernelOp → Prog F Unit
  | .copy => unaryBody args cpuCopyBody
  | .fill =>
      match args.output 0 with
      | some out => cpuFillBody ops args.params out
      | none => pure ()
  | .cast => unaryBody args (cpuCastBody ops)
  | .elementwise => binaryBody args (cpuElementwiseBody ops args.params)
  | .transpose => unaryBody args (cpuTransposeBody args.params)
  | .matmul => binaryBody args (cpuMatmulBody ops)
  | .softmax => unaryBody args (cpuSoftmaxBody ops)
  | .rmsnorm => binaryBody args (cpuRmsnormBody ops)
  | .rope => unaryBody args (cpuRopeBody ops args.params)
  | .activation => unaryBody args (cpuActivationBody ops args.params)
  | .batchedMatmul => binaryBody args (cpuBatchedMatmulBody ops)
  | .reduce => unaryBody args (cpuReduceBody ops args.params)
  | _ => pure ()

variable {σ : Type} (M : Machine F σ)

/-- A call of a reference kernel: the status, and the memory it leaves. -/
def cpuRun (k : Kernel) (args : KernelArgs) (ws : KernelWorkspace) (s : σ) : Result Unit × σ :=
  match k.run args ws with
  | .error e => (.error e, s)
  | .ok () => (.ok (), (M.run (cpuBody ops args k.op) s).2)

/-- The accesses a call makes. -/
def cpuTrace (k : Kernel) (args : KernelArgs) (ws : KernelWorkspace) (s : σ) : List Access :=
  match k.run args ws with
  | .error _ => []
  | .ok () => M.trace (cpuBody ops args k.op) s

end Bodies

/-- The bits of a `float`. -/
abbrev F32 := Fin 4 → UInt8

/-- Memory as bytes, where a float is its four bytes. -/
def byteMachine : Machine F32 Memory where
  load m a := fun i => m (a + (i : Nat))
  store m a x := fun c =>
    if h : a ≤ c ∧ c < a + 4 then x ⟨(c - a).toNat, by omega⟩ else m c
  loadByte m a := m a
  storeByte m a b := Function.update m a b
  copy := memcpy
  load_store := by
    intro m a x
    funext i
    have hi := i.isLt
    have hcell : (⟨(a + ((i : Nat) : Int) - a).toNat, by omega⟩ : Fin 4) = i := by
      apply Fin.ext
      show (a + ((i : Nat) : Int) - a).toNat = i
      omega
    dsimp only
    rw [dif_pos ⟨by omega, by omega⟩, hcell]
  load_store_apart := by
    intro m a b x h
    funext i
    have hi := i.isLt
    exact dif_neg (by omega)

end Hummingbird

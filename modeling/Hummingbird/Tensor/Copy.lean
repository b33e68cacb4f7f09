import Hummingbird.Tensor.View
import Hummingbird.Tensor.Memory

/-!
Element copies between tensors of one shape, into a tensor at hand or a fresh one: one
block move when both sides are contiguous, and otherwise element by element along an
odometer over the row-major index space.
-/

namespace Hummingbird

/-- One turn of the odometer over the axes from the right: whether the count ran over,
and the next index. -/
def odometerStep : List Int → List Int → Bool × List Int
  | d :: ds, i :: is =>
      let (carry, is) := odometerStep ds is
      if carry = false then (false, i :: is)
      else if i + 1 < d then (false, (i + 1) :: is)
      else (true, 0 :: is)
  | _, _ => (true, [])

/-- The loop of `strided_copy_bytes`, with the number of elements still to copy. -/
def stridedCopyLoop (src dst : Tensor) (elemBytes : Nat) : Nat → List Int → Memory → Memory
  | 0, _, m => m
  | k + 1, idx, m =>
      let so := elemByteOffset src.strides idx (elemBytes * 8)
      let doff := elemByteOffset dst.strides idx (elemBytes * 8)
      stridedCopyLoop src dst elemBytes k (odometerStep src.shape.dims idx).2
        (memcpy m (dst.data + doff) (src.data + so) elemBytes)

def stridedCopyBytes (m : Memory) (src dst : Tensor) (elemBytes : Nat) : Memory :=
  stridedCopyLoop src dst elemBytes src.shape.dims.prod.toNat
    (List.replicate src.shape.rank 0) m

def hbiTensorCopyInto (m : Memory) (src dst : Tensor) : Result Memory :=
  if src.data = 0 ∨ dst.data = 0 then errSet .invalidArg "tensor_copy_into: NULL arg"
  else if dst.readOnly = true then errSet .state "tensor_copy_into: dst is read-only"
  else if src.dtype ≠ dst.dtype ∨ hbiShapeEqual src.shape dst.shape = false then
    errSet .invalidArg "tensor_copy_into: dtype/shape mismatch"
  else if src.contiguous = true ∧ dst.contiguous = true then do
    let count ← hbiShapeElemCount src.shape
    let bytes ← hbiDtypePackedNbytes src.dtype count
    if dst.nbytes < bytes then
      errSet .invalidArg "tensor_copy_into: dst capacity too small"
    else return memcpy m dst.data src.data bytes
  else if hbiDtypeIsSubByte src.dtype = true then
    errSet .unsupported "tensor_copy_into: non-contiguous sub-byte copy"
  else .ok (stridedCopyBytes m src dst (hbiDtypeBits src.dtype / 8))

/-- `memset` to zero. -/
def memzero (m : Memory) (dst : Int) (n : Nat) : Memory := fun a =>
  if dst ≤ a ∧ a < dst + n then 0 else m a

/-- `block` is the allocator's answer; the allocation zeroes it before the copy. -/
def hbiTensorClone (m : Memory) (src : Tensor)
    (block : Option (AlignedBlock hbiTensorDefaultAlign)) : Result (Memory × Tensor) :=
  if src.data = 0 then errSet .invalidArg "tensor_clone: NULL arg"
  else do
    let out ← hbiTensorAlloc src.dtype src.shape block
    let m := memzero m out.data out.nbytes
    if src.contiguous = true then
      return (memcpy m out.data src.data out.nbytes, { out with quant := src.quant })
    else if hbiDtypeIsSubByte src.dtype = true then
      errSet .unsupported "tensor_clone: non-contiguous sub-byte source"
    else
      return (stridedCopyBytes m src out (hbiDtypeBits src.dtype / 8),
        { out with quant := src.quant })

/-- A bit of a tensor's buffer, counted from its start. -/
def Tensor.bitAt (t : Tensor) (m : Memory) (k : Int) : Bool :=
  (m (t.data + k / 8)).toNat.testBit (k % 8).toNat

/-- The element at a multi-index, as the bits it occupies. -/
def Tensor.elem (t : Tensor) (m : Memory) (idx : List Int) : List Bool :=
  (List.range (hbiDtypeBits t.dtype)).map fun k : Nat =>
    t.bitAt m (Strided.offset idx t.strides * hbiDtypeBits t.dtype + (k : Int))

end Hummingbird

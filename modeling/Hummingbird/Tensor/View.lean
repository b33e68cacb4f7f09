import Hummingbird.Tensor.Tensor

/-!
Zero-copy views. Every operation seeds its result from the parent, changes shape,
strides, address and alignment, and lets `refresh_layout` recompute the contiguity
flag and the reachable byte span. The seven operations that recompute a layout and
the plain alias are also given as one type of requests, so that a chain of views is
a list.
-/

namespace Hummingbird

/-- Recompute the contiguity flag and the reachable span. -/
def refreshLayout (t : Tensor) : Result Tensor := do
  let span ← spanElems t.shape t.strides
  let nbytes ← hbiDtypePackedNbytes t.dtype span
  return { t with contiguous := hbiStridesIsContiguous t.strides t.shape, nbytes := nbytes }

def viewSeed (parent : Tensor) : Tensor := { parent with ownership := .view }

def hbiTensorView (parent : Tensor) : Result Tensor := .ok (viewSeed parent)

def hbiTensorReshape (parent : Tensor) (newShape : Shape) : Result Tensor :=
  if parent.contiguous = false then
    errSet .unsupported "tensor_reshape: parent not contiguous"
  else do
    hbiShapeValidate newShape
    let oldN ← hbiShapeElemCount parent.shape
    let newN ← hbiShapeElemCount newShape
    if oldN ≠ newN then
      errSet .invalidArg s!"tensor_reshape: {oldN} != {newN} elements"
    else do
      let strides ← hbiStridesInitContiguous newShape
      refreshLayout { viewSeed parent with shape := newShape, strides := strides }

/-- Alignment of a view that starts at an arbitrary element. -/
def sliceAlign (dt : Dtype) : Nat := if hbiDtypeAlign dt = 0 then 1 else hbiDtypeAlign dt

/-- The common tail of `hbi_tensor_slice` and `hbi_tensor_subtensor`: sub-byte
elements must start on a byte, then the view is moved and its dimensions are
replaced. -/
def sliceAt (what : String) (parent : Tensor) (dims : List Int) (elemOff : Int) :
    Result Tensor :=
  let bitOff := wrapI64 (elemOff * hbiDtypeBits parent.dtype)
  if hbiDtypeIsSubByte parent.dtype = true ∧ bitOff.tmod 8 ≠ 0 then
    errSet .unsupported what
  else
    refreshLayout { viewSeed parent with
      shape := ⟨dims⟩
      data := parent.data + bitOff.tdiv 8
      align := sliceAlign parent.dtype }

def hbiTensorSlice (parent : Tensor) (axis : Nat) (start count : Int) : Result Tensor :=
  if axis ≥ parent.shape.rank then
    errSet .invalidArg s!"tensor_slice: axis {axis} >= rank {parent.shape.rank}"
  else
    let dim := parent.shape.dims.getD axis 0
    let stop := wrapI64 (start + count)
    if start < 0 ∨ count ≤ 0 ∨ stop > dim then
      errSet .invalidArg s!"tensor_slice: [{start},{stop}) out of [0,{dim})"
    else
      sliceAt "tensor_slice: sub-byte start not byte-aligned" parent
        (parent.shape.dims.set axis count) (wrapI64 (start * parent.strides.getD axis 0))

/-- The range check of `hbi_tensor_subtensor`, with the element offset so far. -/
def subtensorLoop (parent : Tensor) (i : Nat) (elemOff : Int) :
    List (Int × Int) → Result Int
  | [] => .ok elemOff
  | (start, count) :: rest =>
      let dim := parent.shape.dims.getD i 0
      let stop := wrapI64 (start + count)
      if start < 0 ∨ count ≤ 0 ∨ stop > dim then
        errSet .invalidArg s!"tensor_subtensor: axis {i} [{start},{stop}) out of [0,{dim})"
      else
        let term := wrapI64 (start * parent.strides.getD i 0)
        subtensorLoop parent (i + 1) (wrapI64 (elemOff + term)) rest

/-- The starts and counts of the leading axes come as one list of pairs. -/
def hbiTensorSubtensor (parent : Tensor) (ranges : List (Int × Int)) : Result Tensor :=
  if ranges.length > parent.shape.rank then
    errSet .invalidArg s!"tensor_subtensor: n {ranges.length} > rank {parent.shape.rank}"
  else do
    let elemOff ← subtensorLoop parent 0 0 ranges
    sliceAt "tensor_subtensor: sub-byte offset not byte-aligned" parent
      (ranges.map Prod.snd ++ parent.shape.dims.drop ranges.length) elemOff

def hbiTensorTranspose (parent : Tensor) (axisA axisB : Nat) : Result Tensor :=
  if axisA ≥ parent.shape.rank ∨ axisB ≥ parent.shape.rank then
    errSet .invalidArg "tensor_transpose: axis out of range"
  else if hbiDtypeIsSubByte parent.dtype = true ∧ axisA ≠ axisB then
    errSet .unsupported "tensor_transpose: sub-byte dtype"
  else
    refreshLayout { viewSeed parent with
      shape := ⟨Strided.swapAt parent.shape.dims axisA axisB⟩
      strides := Strided.swapAt parent.strides axisA axisB }

/-- The bijection check of `hbi_tensor_permute`: the entries met so far, and
whether all of them were fixed points. -/
def permuteLoop (n i : Nat) (seen : List Nat) (identity : Bool) : List Nat → Result Bool
  | [] => .ok identity
  | p :: rest =>
      if p ≥ n ∨ p ∈ seen then
        errSet .invalidArg "tensor_permute: perm not a bijection"
      else permuteLoop n (i + 1) (p :: seen) (identity && p == i) rest

def hbiTensorPermute (parent : Tensor) (perm : List Nat) : Result Tensor :=
  if perm.length ≠ parent.shape.rank then
    errSet .invalidArg s!"tensor_permute: n {perm.length} != rank {parent.shape.rank}"
  else do
    let identity ← permuteLoop perm.length 0 [] true perm
    if hbiDtypeIsSubByte parent.dtype = true ∧ identity = false then
      errSet .unsupported "tensor_permute: sub-byte non-identity"
    else
      refreshLayout { viewSeed parent with
        shape := ⟨Strided.gather perm parent.shape.dims⟩
        strides := Strided.gather perm parent.strides }

def hbiTensorSqueeze (parent : Tensor) : Result Tensor :=
  refreshLayout { viewSeed parent with
    shape := ⟨parent.shape.dims.filter (· ≠ 1)⟩
    strides := Strided.squeezeStrides parent.shape.dims parent.strides }

def hbiTensorUnsqueeze (parent : Tensor) (axis : Nat) : Result Tensor :=
  if axis > parent.shape.rank then
    errSet .invalidArg s!"tensor_unsqueeze: axis {axis} > rank {parent.shape.rank}"
  else if parent.shape.rank + 1 > hbiTensorMaxRank then
    errSet .invalidArg "tensor_unsqueeze: rank would exceed max"
  else
    let s := if axis < parent.shape.rank then parent.strides.getD axis 0 else 1
    refreshLayout { viewSeed parent with
      shape := ⟨parent.shape.dims.insertIdx axis 1⟩
      strides := parent.strides.insertIdx axis s }

/-- A request for a view. -/
inductive ViewOp where
  | view
  | reshape (newShape : Shape)
  | slice (axis : Nat) (start count : Int)
  | subtensor (ranges : List (Int × Int))
  | transpose (axisA axisB : Nat)
  | permute (perm : List Nat)
  | squeeze
  | unsqueeze (axis : Nat)
  deriving DecidableEq, Repr

def ViewOp.apply (parent : Tensor) : ViewOp → Result Tensor
  | .view => hbiTensorView parent
  | .reshape newShape => hbiTensorReshape parent newShape
  | .slice axis start count => hbiTensorSlice parent axis start count
  | .subtensor ranges => hbiTensorSubtensor parent ranges
  | .transpose axisA axisB => hbiTensorTranspose parent axisA axisB
  | .permute perm => hbiTensorPermute parent perm
  | .squeeze => hbiTensorSqueeze parent
  | .unsqueeze axis => hbiTensorUnsqueeze parent axis

/-- Applies a chain of requests, each to the view before it. -/
def ViewOp.applyAll (parent : Tensor) : List ViewOp → Result Tensor
  | [] => .ok parent
  | op :: ops => do
      let view ← op.apply parent
      ViewOp.applyAll view ops

/-- No `start + count` of the request leaves `int64_t`. -/
def ViewOp.NoOverflow : ViewOp → Prop
  | .slice _ start count => start + count ≤ int64Max
  | .subtensor ranges => ∀ r ∈ ranges, r.1 + r.2 ≤ int64Max
  | _ => True

instance : (op : ViewOp) → Decidable op.NoOverflow
  | .slice _ _ _ => inferInstanceAs (Decidable (_ ≤ _))
  | .subtensor _ => inferInstanceAs (Decidable (∀ r ∈ _, _ ≤ _))
  | .view | .reshape _ | .transpose _ _ | .permute _ | .squeeze | .unsqueeze _ =>
      inferInstanceAs (Decidable True)

/-- The dimensions a request defines for its result. -/
def ViewOp.resultDims (dims : List Int) : ViewOp → List Int
  | .view => dims
  | .reshape newShape => newShape.dims
  | .slice axis _ count => dims.set axis count
  | .subtensor ranges => ranges.map Prod.snd ++ dims.drop ranges.length
  | .transpose axisA axisB => Strided.swapAt dims axisA axisB
  | .permute perm => Strided.gather perm dims
  | .squeeze => dims.filter (· ≠ 1)
  | .unsqueeze axis => dims.insertIdx axis 1

/-- The index of the parent's element that a view shows at an index: shifted by
the starts, with the axes put back, of the same row-major rank, or with the unit
axes inserted or removed. -/
def ViewOp.parentIndex (dims : List Int) : ViewOp → List Int → List Int
  | .view => id
  | .reshape newShape => fun idx => Strided.unravel dims (Strided.linear newShape.dims idx)
  | .slice axis start _ => fun idx => idx.modify axis (· + start)
  | .subtensor ranges => Strided.shift (ranges.map Prod.fst)
  | .transpose axisA axisB => fun idx => Strided.swapAt idx axisA axisB
  | .permute perm => Strided.scatter perm
  | .squeeze => Strided.unsqueezeIndex dims
  | .unsqueeze axis => fun idx => idx.eraseIdx axis

/-- The layout invariant of every tensor the module hands out. -/
structure Tensor.Laid (t : Tensor) : Prop where
  dtype_valid : hbiDtypeIsValid t.dtype = true
  shape_valid : t.shape.Valid
  strides_len : t.strides.length = t.shape.rank
  strides_nonneg : ∀ s ∈ t.strides, 0 ≤ s
  bits_le : (Strided.extent t.shape.dims t.strides + 1) * hbiDtypeBits t.dtype ≤ int64Max - 7
  contiguous_eq : t.contiguous = hbiStridesIsContiguous t.strides t.shape

/-- What one successful request does to a laid-out parent: the result is laid out
again, `off` elements into the parent's buffer, and embedded in it by `map`. -/
structure ViewStep (t v : Tensor) (off : Int) (map : List Int → List Int) : Prop where
  laid : v.Laid
  embeds : Strided.Embeds t.shape.dims t.strides v.shape.dims v.strides off map
  dtype_eq : v.dtype = t.dtype
  quant_eq : v.quant = t.quant
  prod_le : v.shape.dims.prod ≤ t.shape.dims.prod
  off_bits : 8 ∣ off * hbiDtypeBits t.dtype
  data_eq : v.data = t.data + (off * hbiDtypeBits t.dtype).tdiv 8
  align_eq : (v.align = t.align ∧ off = 0) ∨ v.align = hbiDtypeAlign t.dtype

/-- The reachable span a request records. -/
def Tensor.SpanExact (v : Tensor) : Prop :=
  hbiDtypePackedNbytes v.dtype (Strided.extent v.shape.dims v.strides + 1) = .ok v.nbytes

/-- The farthest element of a layout is a 64-bit offset, and so is the one after it. -/
theorem Tensor.Laid.extent_lt {t : Tensor} (h : t.Laid) :
    Strided.extent t.shape.dims t.strides < int64Max := by
  have hzero := Strided.extent_nonneg h.shape_valid.dims_pos h.strides_nonneg
  have hbits : (1 : Int) ≤ hbiDtypeBits t.dtype :=
    Int.natCast_pos.mpr (hbiDtypeBits_pos h.dtype_valid)
  have hmul : Strided.extent t.shape.dims t.strides + 1 ≤
      (Strided.extent t.shape.dims t.strides + 1) * hbiDtypeBits t.dtype :=
    le_mul_of_one_le_right (by omega) hbits
  have := h.bits_le
  omega

theorem Tensor.Packed.laid {t : Tensor} (h : t.Packed) : t.Laid where
  dtype_valid := h.dtype_valid
  shape_valid := h.shape_valid
  strides_len := by simp [h.strides_eq, Shape.rank]
  strides_nonneg := by
    rw [h.strides_eq]
    exact Strided.rowMajor_nonneg h.shape_valid.dims_pos
  bits_le := by
    rw [h.strides_eq, Strided.extent_rowMajor, Int.sub_add_cancel]
    exact h.bits_le
  contiguous_eq := by
    rw [h.contiguous_eq, eq_comm]
    exact hbiStridesIsContiguous_iff.mpr h.strides_eq

end Hummingbird

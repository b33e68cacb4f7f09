import Hummingbird.Tensor.Layout

/-!
The tensor descriptor with its lifecycle: allocation, wrapping of a caller
buffer, and the full invariant sweep. Addresses are integers and `NULL` is zero.
The platform's aligned allocator is outside the model: a call that needs a
buffer receives the allocator's answer, which is either nothing or a block that
meets the alignment that was asked for.
-/

namespace Hummingbird

def hbiTensorDefaultAlign : Nat := 64

/-- `sizeof(void *)`, the least alignment the platform allocator takes. -/
def sizeofPtr : Nat := 8

inductive TensorOwnership where
  | owned
  | borrowed
  | view
  | mmap
  deriving DecidableEq, Repr

inductive TensorDevice where
  | cpu
  | reserved1
  deriving DecidableEq, Repr

inductive QuantScheme where
  | none
  | affineAsym
  | affineSym
  | reserved1
  deriving DecidableEq, Repr

inductive NibbleOrder where
  | lowFirst
  | highFirst
  deriving DecidableEq, Repr

structure QuantMeta where
  scheme : QuantScheme
  groupSize : Int
  groupAxis : Nat
  scales : Int
  scaleDtype : Dtype
  numScales : Nat
  zeroPoints : Int
  zpDtype : Dtype
  numZeroPoints : Nat
  offsetBinary : Bool
  nibbleOrder : NibbleOrder
  deriving DecidableEq, Repr

/-- The metadata of a zeroed descriptor. -/
def QuantMeta.zero : QuantMeta where
  scheme := .none
  groupSize := 0
  groupAxis := 0
  scales := 0
  scaleDtype := .invalid
  numScales := 0
  zeroPoints := 0
  zpDtype := .invalid
  numZeroPoints := 0
  offsetBinary := false
  nibbleOrder := .lowFirst

structure Tensor where
  dtype : Dtype
  shape : Shape
  strides : List Int
  data : Int
  nbytes : Nat
  align : Nat
  ownership : TensorOwnership
  device : TensorDevice
  readOnly : Bool
  contiguous : Bool
  quant : QuantMeta
  deriving DecidableEq, Repr

/-- An answer of `hbi_aligned_alloc`: a non-null address with the requested
alignment. -/
structure AlignedBlock (alignment : Nat) where
  addr : Int
  pos : 0 < addr
  aligned : addr % alignment = 0

/-- The block at a multiple of the default alignment, counted from the first nonzero one. -/
def AlignedBlock.line (n : Nat) : AlignedBlock hbiTensorDefaultAlign where
  addr := hbiTensorDefaultAlign * (n + 1)
  pos := by
    unfold hbiTensorDefaultAlign
    omega
  aligned := Int.mul_emod_right _ _

/-- Shared body of the two allocators. -/
def tensorAllocImpl (dt : Dtype) (shape : Shape) (alignment : Nat)
    (block : Option (AlignedBlock alignment)) : Result Tensor :=
  if hbiDtypeIsValid dt = false then
    errSet .invalidArg s!"tensor_alloc: invalid dtype {dt.ctorIdx}"
  else if hbiDtypeIsReserved dt = true then
    errSet .unsupported s!"tensor_alloc: dtype {hbiDtypeStr dt} not yet allocatable"
  else do
    hbiShapeValidate shape
    if hbiIsPow2 alignment = false ∨ alignment < sizeofPtr ∨ alignment < hbiDtypeAlign dt then
      errSet .invalidArg s!"tensor_alloc: bad alignment {alignment}"
    else do
      let count ← hbiShapeElemCount shape
      let bytes ← hbiDtypePackedNbytes dt count
      let strides ← hbiStridesInitContiguous shape
      match block with
      | none => errSet .oom s!"tensor_alloc: {bytes} bytes failed"
      | some buf =>
        return { dtype := dt, shape := shape, strides := strides, data := buf.addr,
                 nbytes := bytes, align := alignment, ownership := .owned, device := .cpu,
                 readOnly := false, contiguous := true, quant := QuantMeta.zero }

def hbiTensorAlloc (dt : Dtype) (shape : Shape)
    (block : Option (AlignedBlock hbiTensorDefaultAlign)) : Result Tensor :=
  tensorAllocImpl dt shape hbiTensorDefaultAlign block

def hbiTensorAllocAligned (dt : Dtype) (shape : Shape) (alignment : Nat)
    (block : Option (AlignedBlock alignment)) : Result Tensor :=
  tensorAllocImpl dt shape alignment block

/-- Shared body of the two wrappers. -/
def tensorWrapImpl (dt : Dtype) (shape : Shape) (data nbytes : Nat)
    (readOnly : Bool) : Result Tensor :=
  if data = 0 then errSet .invalidArg "tensor_wrap: NULL arg"
  else if hbiDtypeIsValid dt = false ∨ hbiDtypeIsReserved dt = true then
    errSet .invalidArg s!"tensor_wrap: bad dtype {dt.ctorIdx}"
  else do
    hbiShapeValidate shape
    let align := hbiDtypeAlign dt
    if align ≠ 0 ∧ data % align ≠ 0 then
      errSet .invalidArg s!"tensor_wrap: data not {align}-aligned"
    else do
      let count ← hbiShapeElemCount shape
      let need ← hbiDtypePackedNbytes dt count
      if nbytes < need then
        errSet .invalidArg s!"tensor_wrap: nbytes {nbytes} < needed {need}"
      else do
        let strides ← hbiStridesInitContiguous shape
        return { dtype := dt, shape := shape, strides := strides, data := data,
                 nbytes := nbytes, align := if align = 0 then 1 else align,
                 ownership := .borrowed, device := .cpu, readOnly := readOnly,
                 contiguous := true, quant := QuantMeta.zero }

def hbiTensorWrap (dt : Dtype) (shape : Shape) (data nbytes : Nat) : Result Tensor :=
  tensorWrapImpl dt shape data nbytes false

def hbiTensorWrapReadonly (dt : Dtype) (shape : Shape) (data nbytes : Nat) :
    Result Tensor :=
  tensorWrapImpl dt shape data nbytes true

def hbiQuantMetaValidate (m : QuantMeta) (t : Tensor) : Result Unit :=
  let dim := t.shape.dims.getD m.groupAxis 0
  if m.scheme = .none then .ok ()
  else if t.dtype ≠ .int8 ∧ t.dtype ≠ .int4 ∧ t.dtype ≠ .int2 ∧ t.dtype ≠ .nf4 ∧
      t.dtype ≠ .mxfp4 then
    errSet .invalidArg s!"quant_meta_validate: dtype {hbiDtypeStr t.dtype} not quantizable"
  else if m.groupAxis ≥ t.shape.rank ∧ t.shape.rank ≠ 0 then
    errSet .invalidArg
      s!"quant_meta_validate: group_axis {m.groupAxis} >= rank {t.shape.rank}"
  else if m.groupSize > 0 ∧ t.shape.rank ≠ 0 ∧
      dim.tmod m.groupSize ≠ 0 then
    errSet .invalidArg
      s!"quant_meta_validate: group_size {m.groupSize} does not divide dim {dim}"
  else if m.scheme = .affineAsym ∧ m.zeroPoints = 0 then
    errSet .invalidArg "quant_meta_validate: asym scheme needs zp"
  else if m.scheme = .affineSym ∧ m.zeroPoints ≠ 0 then
    errSet .invalidArg "quant_meta_validate: sym scheme carries zp"
  else .ok ()

def hbiTensorIsAligned (t : Tensor) (alignment : Nat) : Bool :=
  if hbiIsPow2 alignment = false then false else t.data % alignment = 0

def hbiTensorValidate (t : Tensor) : Result Unit :=
  if hbiDtypeIsValid t.dtype = false then
    errSet .invalidArg s!"tensor_validate: bad dtype {t.dtype.ctorIdx}"
  else do
    hbiShapeValidate t.shape
    hbiStridesValidate t.strides t.shape
    if t.data = 0 then errSet .invalidArg "tensor_validate: NULL data"
    else do
      let span ← spanElems t.shape t.strides
      let need ← hbiDtypePackedNbytes t.dtype span
      if t.nbytes < need then
        errSet .corrupt s!"tensor_validate: nbytes {t.nbytes} < needed {need}"
      else if t.align ≠ 0 ∧ hbiTensorIsAligned t t.align = false then
        errSet .corrupt s!"tensor_validate: data not {t.align}-aligned"
      else if t.contiguous ≠ hbiStridesIsContiguous t.strides t.shape then
        errSet .internal "tensor_validate: contiguous flag stale"
      else hbiQuantMetaValidate t.quant t

/-- Address of the element at a multi-index. -/
def Tensor.elemAddr (t : Tensor) (idx : List Int) : Int :=
  t.data + elemByteOffset t.strides idx (hbiDtypeBits t.dtype)

/-- What both constructors establish: a row-major layout of a valid shape at a
non-null, suitably aligned address, without quantization. -/
structure Tensor.Packed (t : Tensor) : Prop where
  dtype_valid : hbiDtypeIsValid t.dtype = true
  shape_valid : t.shape.Valid
  strides_eq : t.strides = Strided.rowMajor t.shape.dims
  bits_le : t.shape.dims.prod * hbiDtypeBits t.dtype ≤ int64Max - 7
  data_pos : 0 < t.data
  align_pow2 : hbiIsPow2 t.align = true
  data_aligned : t.data % t.align = 0
  dtype_align : (hbiDtypeAlign t.dtype : Int) ∣ t.data
  contiguous_eq : t.contiguous = true
  quant_none : t.quant.scheme = .none

/-- The packed size of all elements, in bytes. -/
def Tensor.packedBytes (t : Tensor) : Int :=
  (t.shape.dims.prod * hbiDtypeBits t.dtype + 7) / 8

private theorem pow2_align_dvd {dt : Dtype} {alignment : Nat}
    (hdt : hbiDtypeIsValid dt = true) (hge : sizeofPtr ≤ alignment)
    (hpow : hbiIsPow2 alignment = true) :
    hbiDtypeAlign dt ∣ alignment := by
  have hland : alignment &&& (alignment - 1) = 0 := by
    have h := hpow
    simp only [hbiIsPow2, Bool.and_eq_true, beq_iff_eq] at h
    exact h.2
  have hne : alignment ≠ 0 := by
    unfold sizeofPtr at hge
    omega
  obtain ⟨k, rfl⟩ : ∃ k, alignment = 2 ^ k := by
    exact (Nat.and_sub_one_eq_zero_iff_isPowerOfTwo hne).mp hland
  have hk : 3 ≤ k := by
    by_contra hlt
    have : 2 ^ k ≤ 2 ^ 2 := Nat.pow_le_pow_right (by norm_num) (by omega)
    unfold sizeofPtr at hge
    omega
  have hfour : 4 ∣ 2 ^ k := by
    have : 2 ^ 2 ∣ 2 ^ k := pow_dvd_pow 2 (by omega)
    simpa using this
  cases dt with
  | invalid | count => simp [hbiDtypeIsValid] at hdt
  | fp32 => exact hfour
  | fp16 | bf16 => exact Dvd.dvd.trans (by decide) hfour
  | int8 | int4 | int2 | fp8 | nf4 | mxfp4 => exact one_dvd _

theorem tensorAllocImpl_packed {dt : Dtype} {shape : Shape} {alignment : Nat}
    {block : Option (AlignedBlock alignment)} {t : Tensor}
    (h : tensorAllocImpl dt shape alignment block = .ok t) : t.Packed := by
  simp only [tensorAllocImpl, Result.ite_errSet_eq_ok, Result.bind_eq_ok] at h
  obtain ⟨hdt, hres, ⟨⟩, hshape, halign, count, hcount, bytes, hbytes, strides, hstr, h⟩ := h
  have hvalid := hbiShapeValidate_eq_ok.mp hshape
  have hdt' : hbiDtypeIsValid dt = true := by simpa using hdt
  rw [hvalid.elemCount] at hcount
  rw [hvalid.stridesInit] at hstr
  cases hcount
  cases hstr
  have hbits := (hbiDtypePackedNbytes_eq_ok hdt' hvalid.prod_pos.le).mp hbytes
  cases block with
  | none => simp at h
  | some buf =>
      simp only [pure, Except.pure, Except.ok.injEq] at h
      subst h
      simp only [not_or, Bool.not_eq_false, not_lt] at halign
      refine ⟨hdt', hvalid, rfl, hbits.1, buf.pos, halign.1, buf.aligned, ?_, rfl, rfl⟩
      have hdvd : (hbiDtypeAlign dt : Int) ∣ alignment :=
        Int.natCast_dvd_natCast.mpr (pow2_align_dvd hdt' halign.2.1 halign.1)
      exact hdvd.trans (Int.dvd_of_emod_eq_zero buf.aligned)

theorem tensorWrapImpl_packed {dt : Dtype} {shape : Shape} {data nbytes : Nat}
    {readOnly : Bool} {t : Tensor}
    (h : tensorWrapImpl dt shape data nbytes readOnly = .ok t) : t.Packed := by
  simp only [tensorWrapImpl, Result.ite_errSet_eq_ok, Result.bind_eq_ok] at h
  obtain ⟨hdata, hdt, ⟨⟩, hshape, halign, count, hcount, need, hneed, hle, strides, hstr, h⟩ := h
  have hvalid := hbiShapeValidate_eq_ok.mp hshape
  have hdt' : hbiDtypeIsValid dt = true := by
    simp only [not_or, Bool.not_eq_false] at hdt
    exact hdt.1
  rw [hvalid.elemCount] at hcount
  rw [hvalid.stridesInit] at hstr
  cases hcount
  cases hstr
  have hbits := (hbiDtypePackedNbytes_eq_ok hdt' hvalid.prod_pos.le).mp hneed
  have hpos := hbiDtypeAlign_pos hdt'
  have hmod : data % hbiDtypeAlign dt = 0 := by
    by_contra hne
    exact halign ⟨by omega, hne⟩
  have hdvd : (hbiDtypeAlign dt : Int) ∣ (data : Int) :=
    Int.natCast_dvd_natCast.mpr (Nat.dvd_of_mod_eq_zero hmod)
  simp only [pure, Except.pure, Except.ok.injEq] at h
  subst h
  have hself : (if hbiDtypeAlign dt = 0 then 1 else hbiDtypeAlign dt) = hbiDtypeAlign dt :=
    if_neg (by omega)
  refine ⟨hdt', hvalid, rfl, hbits.1, Int.natCast_pos.mpr (Nat.pos_of_ne_zero hdata),
    ?_, ?_, hdvd, rfl, rfl⟩
  · simpa only [hself] using hbiDtypeAlign_isPow2 hdt'
  · simpa only [hself] using Int.emod_eq_zero_of_dvd hdvd

/-- A buffer that is large enough and aligned is wrapped. -/
theorem tensorWrapImpl_eq_ok {dt : Dtype} {shape : Shape} {data nbytes need : Nat}
    (readOnly : Bool) (hdata : data ≠ 0) (hdt : hbiDtypeIsValid dt = true)
    (hreserved : hbiDtypeIsReserved dt = false) (hshape : shape.Valid)
    (halign : hbiDtypeAlign dt ∣ data)
    (hneed : hbiDtypePackedNbytes dt shape.dims.prod = .ok need) (hle : need ≤ nbytes) :
    ∃ t, tensorWrapImpl dt shape data nbytes readOnly = .ok t := by
  simp only [tensorWrapImpl, Result.ite_errSet_eq_ok, Result.bind_eq_ok]
  refine ⟨_, hdata, by simp [hdt, hreserved], (), hbiShapeValidate_eq_ok.mpr hshape, ?_, _,
    hshape.elemCount, need, hneed, not_lt.mpr hle, _, hshape.stridesInit, rfl⟩
  rintro ⟨-, hmod⟩
  exact hmod (Nat.mod_eq_zero_of_dvd halign)

/-- A wrapped tensor covers the buffer it was given. -/
theorem tensorWrapImpl_fields {dt : Dtype} {shape : Shape} {data nbytes : Nat}
    {readOnly : Bool} {t : Tensor}
    (h : tensorWrapImpl dt shape data nbytes readOnly = .ok t) :
    t.dtype = dt ∧ t.shape = shape ∧ t.data = data ∧ t.nbytes = nbytes := by
  simp only [tensorWrapImpl, Result.ite_errSet_eq_ok, Result.bind_eq_ok] at h
  obtain ⟨-, -, ⟨⟩, -, -, count, -, need, -, -, strides, -, h⟩ := h
  simp only [pure, Except.pure, Except.ok.injEq] at h
  subst h
  exact ⟨rfl, rfl, rfl, rfl⟩

/-- An allocated tensor lies in the block it was given. -/
theorem tensorAllocImpl_fields {dt : Dtype} {shape : Shape} {alignment : Nat}
    {block : Option (AlignedBlock alignment)} {t : Tensor}
    (h : tensorAllocImpl dt shape alignment block = .ok t) :
    t.dtype = dt ∧ t.shape = shape ∧ t.readOnly = false ∧
      (∃ buf, block = some buf ∧ t.data = buf.addr) ∧ (t.nbytes : Int) = t.packedBytes := by
  simp only [tensorAllocImpl, Result.ite_errSet_eq_ok, Result.bind_eq_ok] at h
  obtain ⟨hdt, -, ⟨⟩, hshape, -, count, hcount, bytes, hbytes, strides, -, h⟩ := h
  have hvalid := hbiShapeValidate_eq_ok.mp hshape
  rw [hvalid.elemCount] at hcount
  cases hcount
  have hbits := (hbiDtypePackedNbytes_eq_ok (by simpa using hdt) hvalid.prod_pos.le).mp hbytes
  cases block with
  | none => simp at h
  | some buf =>
      simp only [pure, Except.pure, Except.ok.injEq] at h
      subst h
      exact ⟨rfl, rfl, rfl, ⟨buf, rfl, rfl⟩, hbits.2⟩

end Hummingbird

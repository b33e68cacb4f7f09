import Hummingbird.Kv.Steps

/-!
The copy of leading rows between two allocated tensors, as clone and resize make it.
When both sides have the rows and equal trailing dimensions it is one block move from
the start of the buffers; with other trailing dimensions the copy is refused, and without
the rows both slices are.
-/

namespace Hummingbird

/-- A tensor as the allocator returns it. -/
structure Tensor.Allocated (t : Tensor) : Prop where
  packed : t.Packed
  nbytes_eq : (t.nbytes : Int) = t.packedBytes
  writable : t.readOnly = false

theorem Tensor.Allocated.of_alloc {dt : Dtype} {shape : Shape} {alignment : Nat}
    {block : Option (AlignedBlock alignment)} {t : Tensor}
    (h : hbiTensorAllocAligned dt shape alignment block = .ok t) : t.Allocated :=
  ⟨tensorAllocImpl_packed h, (tensorAllocImpl_fields h).2.2.2.2, (tensorAllocImpl_fields h).2.2.1⟩

/-- Bytes that rows of trailing size `P` occupy. -/
def rowBytes (bits : Nat) (rows P : Int) : Int := (rows * P * bits + 7) / 8

/-- Leading rows of a valid shape: they are counted within the limits of the whole. -/
theorem Tensor.Packed.rows_fit {t : Tensor} (h : t.Packed) {d : Int} {ds : List Int}
    (hdims : t.shape.dims = d :: ds) {rows : Int} (hpos : 0 < rows) (hle : rows ≤ d) :
    0 < ds.prod ∧ d ≤ int64Max ∧ rows * ds.prod ≤ int64Max ∧
      rows * ds.prod * hbiDtypeBits t.dtype ≤ int64Max - 7 := by
  have hall := h.shape_valid.dims_pos
  have hprod := h.shape_valid.prod_le
  have hbits := h.bits_le
  rw [hdims] at hall hprod hbits
  rw [List.prod_cons] at hprod hbits
  have hP : 0 < ds.prod := Strided.prod_pos fun e he => hall e (by simp [he])
  have hd : d ≤ d * ds.prod := le_mul_of_one_le_right (by omega) hP
  have hrows : rows * ds.prod ≤ d * ds.prod := mul_le_mul_of_nonneg_right hle hP.le
  have hbits' : rows * ds.prod * (hbiDtypeBits t.dtype : Int) ≤
      d * ds.prod * (hbiDtypeBits t.dtype : Int) :=
    mul_le_mul_of_nonneg_right hrows (Int.natCast_nonneg _)
  exact ⟨hP, hd.trans hprod, hrows.trans hprod, hbits'.trans hbits⟩

/-- The slice of the leading rows of an allocated tensor. -/
theorem Tensor.Packed.slice_rows {t : Tensor} (h : t.Packed) {d : Int} {ds : List Int}
    (hdims : t.shape.dims = d :: ds) {rows : Nat} (hpos : 0 < rows) (hle : (rows : Int) ≤ d) :
    ∃ s, hbiTensorSlice t 0 0 rows = .ok s ∧ s.data = t.data ∧ s.dtype = t.dtype ∧
      s.shape = ⟨rows :: ds⟩ ∧ s.contiguous = true ∧ s.readOnly = t.readOnly ∧
      (s.nbytes : Int) = rowBytes (hbiDtypeBits t.dtype) rows ds.prod := by
  have hrows : (0 : Int) < rows := Int.natCast_pos.mpr hpos
  obtain ⟨hP, hd, hcount, hbits⟩ := h.rows_fit hdims hrows hle
  have hstop : wrapI64 (0 + (rows : Int)) = rows := by
    rw [Int.zero_add]
    exact wrapI64_of_fits (by unfold int64Min; omega) (hle.trans hd)
  have hstrides : t.strides = Strided.rowMajor (rows :: ds) := by
    rw [h.strides_eq, hdims]
    rfl
  have hspan : spanElems ⟨rows :: ds⟩ t.strides = .ok (rows * ds.prod) := by
    have hdspos : ∀ e ∈ ((rows : Int) :: ds), 0 < e := by
      intro e he
      rcases List.mem_cons.mp he with rfl | he
      · exact hrows
      · exact h.shape_valid.dims_pos e (by simp [hdims, he])
    have hextent := @Strided.extent_rowMajor (rows :: ds)
    rw [List.prod_cons] at hextent
    have hlt : Strided.extent (rows :: ds) (Strided.rowMajor (rows :: ds)) < int64Max := by
      rw [hextent]
      omega
    rw [hstrides, @spanElems_of_lt ⟨rows :: ds⟩ _ hdspos (Strided.rowMajor_nonneg hdspos) hlt,
      hextent, Int.sub_add_cancel]
  have hnonneg : 0 ≤ (rows : Int) * ds.prod := (mul_pos hrows hP).le
  have hbitsnonneg := mul_nonneg hnonneg (Int.natCast_nonneg (hbiDtypeBits t.dtype))
  obtain ⟨n, hn⟩ : ∃ n : Nat, (n : Int) = (rows * ds.prod * hbiDtypeBits t.dtype + 7) / 8 :=
    ⟨_, Int.toNat_of_nonneg (Int.ediv_nonneg (by omega) (by decide))⟩
  have hbytes : hbiDtypePackedNbytes t.dtype (rows * ds.prod) = .ok n :=
    (hbiDtypePackedNbytes_eq_ok h.dtype_valid hnonneg).mpr ⟨hbits, hn⟩
  have hcont : hbiStridesIsContiguous t.strides ⟨rows :: ds⟩ = true :=
    hbiStridesIsContiguous_iff.mpr hstrides
  refine ⟨{ viewSeed t with
    shape := ⟨rows :: ds⟩, data := t.data, align := sliceAlign t.dtype, contiguous := true
    nbytes := n }, ?_, rfl, rfl, rfl, rfl, rfl, hn⟩
  have hguard : ¬ ((0 : Int) < 0 ∨ (rows : Int) ≤ 0 ∨ (rows : Int) > d) := by omega
  have hzero : wrapI64 0 = 0 := rfl
  simp only [hbiTensorSlice, Shape.rank, hdims, List.length_cons, ge_iff_le, Nat.le_zero_eq,
    Nat.add_eq_zero_iff, one_ne_zero, and_false, if_false, List.getD_cons_zero, hstop, hguard,
    sliceAt, Int.zero_mul, hzero, Int.zero_tmod, ne_eq, not_true_eq_false, List.set_cons_zero,
    Int.zero_tdiv, Int.add_zero, refreshLayout, viewSeed, hspan, hbytes, hcont, bind, Except.bind,
    pure, Except.pure]

/-- Rows that a tensor does not have cannot be sliced off. -/
theorem slice_rows_error {t : Tensor} {d : Int} {ds : List Int} (hdims : t.shape.dims = d :: ds)
    {rows : Nat} (hlt : d < rows) (hrows : rows < uint32Size) :
    ∃ e, hbiTensorSlice t 0 0 rows = .error e := by
  have hstop : wrapI64 (0 + (rows : Int)) = rows := by
    rw [Int.zero_add]
    unfold uint32Size at hrows
    exact wrapI64_of_fits (by unfold int64Min; omega) (by unfold int64Max; omega)
  have hguard : (0 : Int) < 0 ∨ (rows : Int) ≤ 0 ∨ (rows : Int) > d := by omega
  simp only [hbiTensorSlice, Shape.rank, hdims, List.length_cons, ge_iff_le, Nat.le_zero_eq,
    Nat.add_eq_zero_iff, one_ne_zero, and_false, if_false, List.getD_cons_zero, hstop, hguard,
    if_true, errSet]
  exact ⟨_, rfl⟩

/-- A copy between contiguous tensors of one shape is one block move. -/
theorem hbiTensorCopyInto_contiguous {m : Memory} {s t : Tensor} {count : Int} {bytes : Nat}
    (hs : s.data ≠ 0) (ht : t.data ≠ 0) (hwrite : t.readOnly = false) (hdtype : s.dtype = t.dtype)
    (hshape : s.shape = t.shape) (hsc : s.contiguous = true) (htc : t.contiguous = true)
    (hcount : hbiShapeElemCount s.shape = .ok count)
    (hbytes : hbiDtypePackedNbytes s.dtype count = .ok bytes) (hle : bytes ≤ t.nbytes) :
    hbiTensorCopyInto m s t = .ok (memcpy m t.data s.data bytes) := by
  have hequal : hbiShapeEqual s.shape t.shape = true := by simp [hbiShapeEqual, hshape]
  rw [hdtype] at hbytes
  simp only [hbiTensorCopyInto, hs, ht, or_self, if_false, hwrite, Bool.false_eq_true, hdtype,
    ne_eq, not_true_eq_false, hequal, Bool.true_eq_false, hsc, htc, and_self, if_true, hcount,
    bind, Except.bind, pure, Except.pure, hbytes, not_lt.mpr hle]

/-- Bytes of the leading rows that arrive when both tensors have them: none where the rows
differ in shape. -/
def movedBytes (src dst : Tensor) (rows : Nat) : Int :=
  if src.shape.dims.tail = dst.shape.dims.tail then
    rowBytes (hbiDtypeBits src.dtype) rows src.shape.dims.tail.prod
  else 0

theorem memcpy_zero (m : Memory) (dst src : Int) : memcpy m dst src 0 = m := by
  funext a
  exact memcpy_outside (by omega)

/-- Between rows of different shapes the copy is refused. -/
theorem hbiTensorCopyInto_shape {m : Memory} {s t : Tensor} (hne : s.shape.dims ≠ t.shape.dims) :
    ∃ e, hbiTensorCopyInto m s t = .error e := by
  have hequal : hbiShapeEqual s.shape t.shape = false := by simp [hbiShapeEqual, hne]
  simp only [hbiTensorCopyInto, hequal, or_true, if_true, errSet]
  split_ifs
  · exact ⟨_, rfl⟩
  · exact ⟨_, rfl⟩
  · exact ⟨_, rfl⟩

section Copy

variable {src dst : Tensor} (hsrc : src.Packed) (hdst : dst.Allocated)
  (hsne : src.shape.dims ≠ []) (hdne : dst.shape.dims ≠ []) {rows : Nat}

include hsrc hdst hsne hdne

/-- Rows that both tensors have are moved as one block, or not at all. -/
theorem copySlices_of_rows (hpos : 0 < rows) (hdtype : src.dtype = dst.dtype)
    (hle : (rows : Int) ≤ src.shape.dims.getD 0 0) (hle' : (rows : Int) ≤ dst.shape.dims.getD 0 0)
    (m : Memory) (srcLeft dstLeft : Tensor) :
    copySlices m src dst rows srcLeft dstLeft =
      memcpy m dst.data src.data (movedBytes src dst rows).toNat := by
  obtain ⟨d, ds, hsdims⟩ := List.exists_cons_of_ne_nil hsne
  obtain ⟨d', ds', hddims⟩ := List.exists_cons_of_ne_nil hdne
  rw [hsdims, List.getD_cons_zero] at hle
  rw [hddims, List.getD_cons_zero] at hle'
  have hrows : (0 : Int) < rows := Int.natCast_pos.mpr hpos
  obtain ⟨hP, -, hcount, hbits⟩ := hsrc.rows_fit hsdims hrows hle
  obtain ⟨s, hs, hsdata, hsdt, hsshape, hscont, -, hsbytes⟩ := hsrc.slice_rows hsdims hpos hle
  obtain ⟨t, ht, htdata, htdt, htshape, htcont, htro, htbytes⟩ :=
    hdst.packed.slice_rows hddims hpos hle'
  simp only [copySlices, hs, ht, Except.toOption, Option.getD_some, movedBytes, hsdims, hddims,
    List.tail_cons]
  by_cases htail : ds = ds'
  · subst htail
    have helems : hbiShapeElemCount s.shape = .ok (rows * ds.prod) := by
      have hall : ∀ e ∈ ((rows : Int) :: ds), 0 < e := by
        intro e he
        rcases List.mem_cons.mp he with rfl | he
        · exact hrows
        · exact hsrc.shape_valid.dims_pos e (by simp [hsdims, he])
      have hloop := elemCountLoop_of_pos one_pos hall (by simpa using hcount)
      rw [hsshape]
      simpa [hbiShapeElemCount] using hloop
    have hpacked : hbiDtypePackedNbytes s.dtype (rows * ds.prod) = .ok s.nbytes := by
      rw [hsdt]
      exact (hbiDtypePackedNbytes_eq_ok hsrc.dtype_valid (mul_pos hrows hP).le).mpr
        ⟨hbits, hsbytes⟩
    have hsame : s.nbytes = t.nbytes := by
      rw [hdtype] at hsbytes
      omega
    have hcopy := @hbiTensorCopyInto_contiguous m s t _ _
      (by rw [hsdata]; exact hsrc.data_pos.ne') (by rw [htdata]; exact hdst.packed.data_pos.ne')
      (htro.trans hdst.writable) (by rw [hsdt, htdt, hdtype]) (hsshape.trans htshape.symm) hscont
      htcont helems hpacked hsame.le
    simp only [hcopy, hsdata, htdata, if_true, Option.getD_some]
    rw [← hsbytes, Int.toNat_natCast]
  · obtain ⟨e, he⟩ := @hbiTensorCopyInto_shape m s t (by simp [hsshape, htshape, htail])
    simp only [he, if_neg htail, Option.getD_none, Int.toNat_zero, memcpy_zero]

omit hsrc hdst in
/-- Rows that neither tensor has: the copy runs on what the failed slices left. -/
theorem copySlices_of_no_rows (hlt : src.shape.dims.getD 0 0 < (rows : Int))
    (hlt' : dst.shape.dims.getD 0 0 < (rows : Int)) (hrows : rows < uint32Size) (m : Memory)
    (srcLeft dstLeft : Tensor) :
    copySlices m src dst rows srcLeft dstLeft =
      (hbiTensorCopyInto m srcLeft dstLeft).toOption.getD m := by
  obtain ⟨d, ds, hsdims⟩ := List.exists_cons_of_ne_nil hsne
  obtain ⟨d', ds', hddims⟩ := List.exists_cons_of_ne_nil hdne
  rw [hsdims, List.getD_cons_zero] at hlt
  rw [hddims, List.getD_cons_zero] at hlt'
  obtain ⟨e, he⟩ := slice_rows_error hsdims hlt hrows
  obtain ⟨e', he'⟩ := slice_rows_error hddims hlt' hrows
  simp only [copySlices, he, he', Except.toOption, Option.getD_none]

end Copy

end Hummingbird

import Hummingbird.Tensor.Ranges

/-!
Unit axes and contiguity. A unit axis that is dropped takes its stride with it, and the
strides that remain are those of the smaller shape. A unit axis that is inserted gets the
stride of the axis behind it, which is row-major only before another unit axis or at the
end.
-/

namespace Hummingbird

theorem refreshLayout_contiguous {c v : Tensor} (h : refreshLayout c = .ok v) :
    v.contiguous = hbiStridesIsContiguous c.strides c.shape := by
  simp only [refreshLayout, Result.bind_eq_ok, pure, Except.pure, Except.ok.injEq] at h
  obtain ⟨_, -, _, -, rfl⟩ := h
  rfl

theorem refreshLayout_kept {c v : Tensor} (h : refreshLayout c = .ok v) :
    v.strides = c.strides ∧ v.readOnly = c.readOnly := by
  simp only [refreshLayout, Result.bind_eq_ok, pure, Except.pure, Except.ok.injEq] at h
  obtain ⟨_, -, _, -, rfl⟩ := h
  exact ⟨rfl, rfl⟩

/-- A contiguous parent takes every valid shape with as many elements. -/
theorem hbiTensorReshape_exists {t : Tensor} {newShape : Shape} (ht : t.Laid)
    (hcontig : t.contiguous = true) (hnew : newShape.Valid)
    (hprod : newShape.dims.prod = t.shape.dims.prod) :
    ∃ v, hbiTensorReshape t newShape = .ok v ∧ v.contiguous = true ∧
      v.readOnly = t.readOnly := by
  have hrow : t.strides = Strided.rowMajor t.shape.dims := by
    apply hbiStridesIsContiguous_iff.mp
    rw [← ht.contiguous_eq, hcontig]
  have hemb := Strided.reshape_embeds ht.shape_valid.dims_pos hprod
  rw [← hrow] at hemb
  have hnonneg := Strided.rowMajor_nonneg hnew.dims_pos
  have hpacks := ht.packs hnew.dims_pos hnonneg hemb
  obtain ⟨v, hv⟩ := (@refreshLayout_iff { viewSeed t with
    shape := newShape
    strides := Strided.rowMajor newShape.dims } ht.dtype_valid hnew.dims_pos hnonneg).mpr hpacks
  refine ⟨v, ?_, ?_, (refreshLayout_kept hv).2⟩
  · simpa [hbiTensorReshape, hcontig, hbiShapeValidate_eq_ok.mpr hnew, ht.shape_valid.elemCount,
      hnew.elemCount, hprod, hnew.stridesInit, bind, Except.bind] using hv
  · rw [refreshLayout_contiguous hv]
    exact hbiStridesIsContiguous_iff.mpr rfl

/-- The stride that `hbi_tensor_unsqueeze` gives the inserted axis. -/
def unsqueezeStride (t : Tensor) (axis : Nat) : Int :=
  if axis < t.shape.rank then t.strides.getD axis 0 else 1

section Unit

variable {t : Tensor} {axis : Nat} (ht : t.Laid)

include ht in
theorem hbiTensorSqueeze_exists : ∃ s, hbiTensorSqueeze t = .ok s := by
  have hspec := squeezeStrides_spec ht.strides_len
  have hpos : ∀ d ∈ t.shape.dims.filter (· ≠ 1), 0 < d := fun d hd =>
    ht.shape_valid.dims_pos d (List.mem_of_mem_filter hd)
  have hs : ∀ s ∈ Strided.squeezeStrides t.shape.dims t.strides, 0 ≤ s := fun s hs =>
    ht.strides_nonneg s (hspec.2 s hs)
  have hpacks := ht.packs hpos hs (Strided.squeeze_embeds ht.strides_len)
  exact (refreshLayout_iff (c := { viewSeed t with
    shape := ⟨t.shape.dims.filter (· ≠ 1)⟩
    strides := Strided.squeezeStrides t.shape.dims t.strides }) ht.dtype_valid hpos hs).mpr hpacks

theorem hbiTensorUnsqueeze_eq (haxis : axis ≤ t.shape.rank)
    (hrank : t.shape.rank < hbiTensorMaxRank) :
    hbiTensorUnsqueeze t axis = refreshLayout { viewSeed t with
      shape := ⟨t.shape.dims.insertIdx axis 1⟩
      strides := t.strides.insertIdx axis (unsqueezeStride t axis) } := by
  rw [hbiTensorUnsqueeze, if_neg (by omega), if_neg (by omega)]
  rfl

include ht in
theorem hbiTensorUnsqueeze_exists (haxis : axis ≤ t.shape.rank)
    (hrank : t.shape.rank < hbiTensorMaxRank) : ∃ v, hbiTensorUnsqueeze t axis = .ok v := by
  have hpos : ∀ d ∈ t.shape.dims.insertIdx axis 1, 0 < d := by
    intro d hd
    rcases List.mem_cons.mp ((List.perm_insertIdx 1 t.shape.dims haxis).mem_iff.mp hd) with
      rfl | hd
    · exact one_pos
    · exact ht.shape_valid.dims_pos d hd
  have hs : ∀ s ∈ t.strides.insertIdx axis (unsqueezeStride t axis), 0 ≤ s := by
    intro s hs
    rcases List.mem_cons.mp ((List.perm_insertIdx _ t.strides
      (ht.strides_len ▸ haxis)).mem_iff.mp hs) with rfl | hs
    · unfold unsqueezeStride
      split
      · rename_i hlt
        have hlt' : axis < t.strides.length := ht.strides_len ▸ hlt
        rw [List.getD_eq_getElem _ _ hlt']
        exact ht.strides_nonneg _ (List.getElem_mem hlt')
      · exact zero_le_one
    · exact ht.strides_nonneg s hs
  have hpacks := ht.packs hpos hs (Strided.unsqueeze_embeds haxis ht.strides_len)
  rw [hbiTensorUnsqueeze_eq haxis hrank]
  exact (refreshLayout_iff (c := { viewSeed t with
    shape := ⟨t.shape.dims.insertIdx axis 1⟩
    strides := t.strides.insertIdx axis (unsqueezeStride t axis) })
    ht.dtype_valid hpos hs).mpr hpacks

/-- Only the shape and the strides count for what refreshing a layout answers. -/
theorem refreshLayout_congr {c d : Tensor}
    (h : { c with contiguous := d.contiguous, nbytes := d.nbytes } = d) :
    refreshLayout c = refreshLayout d := by
  rw [← h]
  rfl

include ht in
/-- Dropping unit axes after one was inserted is dropping them at once. -/
theorem squeeze_unsqueeze {v : Tensor} (haxis : axis ≤ t.shape.rank)
    (hrank : t.shape.rank < hbiTensorMaxRank) (hv : hbiTensorUnsqueeze t axis = .ok v) :
    hbiTensorSqueeze v = hbiTensorSqueeze t := by
  rw [hbiTensorUnsqueeze_eq haxis hrank, refreshLayout] at hv
  simp only [Result.bind_eq_ok, pure, Except.pure, Except.ok.injEq] at hv
  obtain ⟨_, -, _, -, rfl⟩ := hv
  apply refreshLayout_congr
  simp only [viewSeed, Strided.filter_insertIdx_one haxis,
    Strided.squeezeStrides_insertIdx_one ht.strides_len haxis]

include ht in
/-- Dropping unit axes keeps a contiguous tensor contiguous. -/
theorem squeeze_contiguous {s : Tensor} (hc : t.contiguous = true)
    (hs : hbiTensorSqueeze t = .ok s) : s.contiguous = true := by
  have hrow : t.strides = Strided.rowMajor t.shape.dims := by
    apply hbiStridesIsContiguous_iff.mp
    rw [← ht.contiguous_eq, hc]
  rw [refreshLayout_contiguous hs, hbiStridesIsContiguous_iff]
  simp only [hrow, Strided.squeezeStrides_rowMajor]

include ht in
/-- The stride of the axis behind is row-major for the inserted one only if that axis is a
unit axis too. -/
theorem unsqueeze_contiguous {v : Tensor} (hc : t.contiguous = true)
    (haxis : axis ≤ t.shape.rank) (hrank : t.shape.rank < hbiTensorMaxRank)
    (hv : hbiTensorUnsqueeze t axis = .ok v) :
    v.contiguous = true ↔ axis = t.shape.rank ∨ t.shape.dims.getD axis 0 = 1 := by
  have hrow : t.strides = Strided.rowMajor t.shape.dims := by
    apply hbiStridesIsContiguous_iff.mp
    rw [← ht.contiguous_eq, hc]
  rw [hbiTensorUnsqueeze_eq haxis hrank] at hv
  have hlen : axis ≤ (Strided.rowMajor t.shape.dims).length := by
    rw [Strided.length_rowMajor]
    exact haxis
  rw [refreshLayout_contiguous hv, hbiStridesIsContiguous_iff,
    Strided.rowMajor_insertIdx_one haxis, hrow]
  have hinsert : ∀ x y : Int, (Strided.rowMajor t.shape.dims).insertIdx axis x =
      (Strided.rowMajor t.shape.dims).insertIdx axis y ↔ x = y := by
    intro x y
    constructor
    · intro h
      have hat := congrArg (·[axis]?) h
      have hle : axis ≤ t.shape.dims.length := haxis
      simpa [List.getElem?_insertIdx_self, hle] using hat
    · rintro rfl
      rfl
  rw [hinsert]
  by_cases hlt : axis < t.shape.rank
  · have hpos : 0 < (t.shape.dims.drop (axis + 1)).prod := Strided.prod_pos fun d hd =>
      ht.shape_valid.dims_pos d (List.mem_of_mem_drop hd)
    have hdrop : t.shape.dims.drop axis =
        t.shape.dims.getD axis 0 :: t.shape.dims.drop (axis + 1) := by
      rw [List.drop_eq_getElem_cons hlt, List.getD_eq_getElem _ _ hlt]
    rw [unsqueezeStride, if_pos hlt, hrow, Strided.getD_rowMajor hlt, hdrop, List.prod_cons]
    constructor
    · intro h
      right
      have hone : (t.shape.dims.getD axis 0 - 1) * (t.shape.dims.drop (axis + 1)).prod = 0 := by
        rw [sub_mul, one_mul, ← h, sub_self]
      rcases mul_eq_zero.mp hone with hd | hp
      · omega
      · omega
    · rintro (h | h)
      · omega
      · rw [h, one_mul]
  · have hrank' : axis = t.shape.rank := by omega
    have hdrop : t.shape.dims.drop axis = [] :=
      List.drop_eq_nil_of_le (by rw [hrank']; exact le_rfl)
    rw [unsqueezeStride, if_neg hlt, hdrop]
    simp [hrank']

end Unit

/-- Inserting a unit axis into a contiguous tensor leaves it contiguous, dropping the unit
axes does so too, and dropping undoes inserting. -/
def UnitAxisKept (t : Tensor) (axis : Nat) : Prop :=
  ∃ v s, hbiTensorUnsqueeze t axis = .ok v ∧ v.contiguous = true ∧
    hbiTensorSqueeze t = .ok s ∧ s.contiguous = true ∧ hbiTensorSqueeze v = .ok s

theorem unit_axis_kept_iff {t : Tensor} {axis : Nat} (ht : hbiTensorValidate t = .ok ())
    (hc : t.contiguous = true) (haxis : axis ≤ t.shape.rank)
    (hrank : t.shape.rank < hbiTensorMaxRank) :
    UnitAxisKept t axis ↔ axis = t.shape.rank ∨ t.shape.dims.getD axis 0 = 1 := by
  have hlaid := (Tensor.valid_of_validate ht).laid
  obtain ⟨v, hv⟩ := hbiTensorUnsqueeze_exists hlaid haxis hrank
  obtain ⟨s, hs⟩ := hbiTensorSqueeze_exists hlaid
  rw [← unsqueeze_contiguous hlaid hc haxis hrank hv]
  constructor
  · rintro ⟨v', -, hv', hkept, -⟩
    rw [hv, Except.ok.injEq] at hv'
    rwa [hv']
  · intro hkept
    refine ⟨v, s, hv, hkept, hs, squeeze_contiguous hlaid hc hs, ?_⟩
    rw [squeeze_unsqueeze hlaid haxis hrank hv, hs]

theorem unit_axis_kept_last :
    ∃ t : Tensor, hbiTensorWrap .fp32 ⟨[3, 4]⟩ 64 48 = .ok t ∧ UnitAxisKept t 2 := by
  refine ⟨_, rfl, (unit_axis_kept_iff ?_ rfl ?_ ?_).mpr (Or.inl rfl)⟩
  all_goals decide +kernel

/-- A leading unit axis gets the stride of the first axis, not the element count. -/
theorem unsqueeze_loses_contiguity :
    ∃ t v : Tensor, hbiTensorWrap .fp32 ⟨[3, 4]⟩ 64 48 = .ok t ∧
      hbiTensorValidate t = .ok () ∧ t.contiguous = true ∧
      hbiTensorUnsqueeze t 0 = .ok v ∧ v.strides = [4, 4, 1] ∧ v.contiguous = false := by
  refine ⟨_, _, rfl, by decide +kernel, rfl, rfl, ?_⟩
  decide +kernel

end Hummingbird

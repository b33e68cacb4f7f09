import Hummingbird.Tensor.View

/-!
What the validator knows of a tensor that it accepts: its layout is sound, its buffer is there,
and the buffer holds every element that the layout reaches.
-/

namespace Hummingbird

/-- A tensor that `hbi_tensor_validate` accepts. -/
structure Tensor.Valid (t : Tensor) : Prop where
  laid : t.Laid
  data_ne : t.data ≠ 0
  span_le : ((Strided.extent t.shape.dims t.strides + 1) * hbiDtypeBits t.dtype + 7) / 8 ≤ t.nbytes

theorem stridesValidateLoop_ok {i : Nat} {maxOff : Int} {dims strides : List Int}
    (hlen : strides.length = dims.length) (hpos : ∀ d ∈ dims, 0 < d) (hmax : maxOff ≤ int64Max)
    (h : stridesValidateLoop i maxOff strides dims = .ok ()) :
    (∀ s ∈ strides, 0 ≤ s) ∧ maxOff + Strided.extent dims strides ≤ int64Max := by
  induction dims generalizing i maxOff strides with
  | nil =>
      rw [List.length_eq_zero_iff.mp hlen]
      simpa [Strided.extent] using hmax
  | cons d ds ih =>
      obtain ⟨s, ss, rfl⟩ := List.exists_cons_of_length_eq_add_one hlen
      rw [stridesValidateLoop, Result.ite_errSet_eq_ok, not_lt] at h
      obtain ⟨hs, h⟩ := h
      cases hmul : mulOvfI64 (d - 1) s with
      | none =>
          rw [hmul] at h
          cases h
      | some term =>
          rw [hmul] at h
          simp only [Result.ite_errSet_eq_ok, not_lt] at h
          obtain ⟨hle, h⟩ := h
          obtain ⟨-, rfl⟩ := mulOvfI64_eq_some.mp hmul
          have htail : ∀ e ∈ ds, 0 < e := fun e he => hpos e (by simp [he])
          obtain ⟨hss, hext⟩ := ih (by simpa using hlen) htail (by omega) h
          refine ⟨?_, ?_⟩
          · intro r hr
            rcases List.mem_cons.mp hr with rfl | hr
            · exact hs
            · exact hss r hr
          · unfold Strided.extent at hext ⊢
            rw [List.map_cons, Strided.offset_cons]
            omega

/-- A span that has a packed size did not run past the largest 64-bit offset. -/
theorem extent_lt_of_packed {dt : Dtype} {s : Shape} {strides : List Int} {span : Int} {n : Nat}
    (hpos : ∀ d ∈ s.dims, 0 < d) (hs : ∀ t ∈ strides, 0 ≤ t)
    (hle : Strided.extent s.dims strides ≤ int64Max) (hspan : spanElems s strides = .ok span)
    (hpacked : hbiDtypePackedNbytes dt span = .ok n) :
    Strided.extent s.dims strides < int64Max := by
  obtain ⟨-, rfl⟩ := (spanElems_eq_ok hpos hs).mp hspan
  refine lt_of_le_of_ne hle fun heq => ?_
  have hwrap : wrapI64 (Strided.extent s.dims strides + 1) = int64Min := by
    rw [heq]
    rfl
  rw [hwrap, hbiDtypePackedNbytes, if_pos (Or.inr (by decide))] at hpacked
  exact absurd hpacked (errSet_ne_ok _ _ _)

/-- The invariant sweep finds out all that a layout needs. -/
theorem Tensor.valid_of_validate {t : Tensor} (h : hbiTensorValidate t = .ok ()) : t.Valid := by
  simp only [hbiTensorValidate, Result.ite_errSet_eq_ok, Result.bind_eq_ok] at h
  obtain ⟨hdtype, ⟨⟩, hshape, ⟨⟩, hstrides, hdata, span, hspan, need, hneed, hcap, -, hcontig, -⟩ :=
    h
  have hvalid := hbiShapeValidate_eq_ok.mp hshape
  have hpos := hvalid.dims_pos
  unfold hbiStridesValidate at hstrides
  rw [Result.ite_errSet_eq_ok, not_not] at hstrides
  obtain ⟨hlen, hloop⟩ := hstrides
  obtain ⟨hnonneg, hext⟩ := stridesValidateLoop_ok hlen hpos (by decide) hloop
  rw [zero_add] at hext
  have hdt : hbiDtypeIsValid t.dtype = true := by simpa using hdtype
  have hzero := Strided.extent_nonneg hpos hnonneg
  have hlt := extent_lt_of_packed hpos hnonneg hext hspan hneed
  rw [spanElems_of_lt hpos hnonneg hlt] at hspan
  cases hspan
  obtain ⟨hbits, hbytes⟩ := (hbiDtypePackedNbytes_eq_ok hdt (by omega)).mp hneed
  refine ⟨⟨hdt, hvalid, hlen, hnonneg, hbits, ?_⟩, hdata, ?_⟩
  · rwa [not_not] at hcontig
  · rw [← hbytes]
    exact Int.ofNat_le.mpr (not_lt.mp hcap)

theorem Tensor.aligned_of_validate {t : Tensor} (h : hbiTensorValidate t = .ok ()) :
    t.align = 0 ∨ hbiTensorIsAligned t t.align = true := by
  simp only [hbiTensorValidate, Result.ite_errSet_eq_ok, Result.bind_eq_ok] at h
  obtain ⟨-, ⟨⟩, -, ⟨⟩, -, -, span, -, need, -, -, halign, -⟩ := h
  rw [not_and_or, not_not, Bool.not_eq_false] at halign
  exact halign

theorem Tensor.quant_of_validate {t : Tensor} (h : hbiTensorValidate t = .ok ()) :
    hbiQuantMetaValidate t.quant t = .ok () := by
  simp only [hbiTensorValidate, Result.ite_errSet_eq_ok, Result.bind_eq_ok] at h
  obtain ⟨-, ⟨⟩, -, ⟨⟩, -, -, span, -, need, -, -, -, -, hquant⟩ := h
  exact hquant

/-- Of a sound layout that records its span, the sweep only has the metadata to judge. -/
theorem Tensor.Laid.validate {t : Tensor} (ht : t.Laid) (hdata : t.data ≠ 0) (hspan : t.SpanExact)
    (halign : t.align = 0 ∨ hbiTensorIsAligned t t.align = true) :
    hbiTensorValidate t = hbiQuantMetaValidate t.quant t := by
  unfold Tensor.SpanExact at hspan
  have hpow : ¬ (t.align ≠ 0 ∧ hbiTensorIsAligned t t.align = false) := by
    rw [not_and_or, not_not, Bool.not_eq_false]
    exact halign
  simp [hbiTensorValidate, ht.dtype_valid, hbiShapeValidate_eq_ok.mpr ht.shape_valid,
    hbiStridesValidate_of_le ht.strides_len ht.shape_valid.dims_pos ht.strides_nonneg
      ht.extent_lt.le,
    spanElems_of_lt ht.shape_valid.dims_pos ht.strides_nonneg ht.extent_lt, hspan, hdata, hpow,
    ht.contiguous_eq, bind, Except.bind]

end Hummingbird

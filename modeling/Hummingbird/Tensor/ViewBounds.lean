import Hummingbird.Tensor.Valid
import Hummingbird.Tensor.ViewAddress

/-!
Views stay inside their root. The invariant records how many elements into the
root's buffer a view starts; one step of a chain moves that start and keeps the
rest, and the validator's answer follows from the invariant alone.
-/

namespace Hummingbird

/-- `t` starts `base` elements into the packed buffer of `root`, ends inside it,
and has the alignment it records. -/
structure Tensor.Within (root t : Tensor) (base : Int) : Prop where
  laid : t.Laid
  dtype_eq : t.dtype = root.dtype
  base_nonneg : 0 ≤ base
  data_eq : 8 * t.data = 8 * root.data + base * hbiDtypeBits root.dtype
  extent_le : base + Strided.extent t.shape.dims t.strides + 1 ≤ root.shape.dims.prod
  align_pow2 : hbiIsPow2 t.align = true
  data_aligned : t.data % t.align = 0
  dtype_align : (hbiDtypeAlign root.dtype : Int) ∣ t.data
  quant_none : t.quant.scheme = .none

theorem Tensor.Packed.within {t : Tensor} (h : t.Packed) : t.Within t 0 where
  laid := h.laid
  dtype_eq := rfl
  base_nonneg := le_rfl
  data_eq := by simp
  extent_le := by
    rw [h.strides_eq, Strided.extent_rowMajor]
    omega
  align_pow2 := h.align_pow2
  data_aligned := h.data_aligned
  dtype_align := h.dtype_align
  quant_none := h.quant_none

/-- Moving by a whole number of bytes that holds a whole number of elements keeps
the natural alignment of the dtype. -/
theorem hbiDtypeAlign_dvd_off {dt : Dtype} {off bytes : Int}
    (hdt : hbiDtypeIsValid dt = true) (hbytes : 8 * bytes = off * hbiDtypeBits dt) :
    (hbiDtypeAlign dt : Int) ∣ bytes := by
  by_cases hsub : hbiDtypeIsSubByte dt = true
  · rw [hbiDtypeAlign_of_subByte hsub]
    exact one_dvd _
  · obtain ⟨n, _, hn, hdvd⟩ := hbiDtypeBits_bytes ⟨hdt, by simpa using hsub⟩
    have hmul : bytes = off * n := by
      rw [hn] at hbytes
      push_cast at hbytes
      linarith
    rw [hmul]
    exact Dvd.dvd.mul_left (Int.natCast_dvd_natCast.mpr hdvd) off

/-- A step keeps a view inside the root. -/
theorem Tensor.Within.step {root t v : Tensor} {base off : Int}
    {map : List Int → List Int} (ht : root.Within t base) (h : ViewStep t v off map) :
    root.Within v (base + off) := by
  have hoff := h.embeds.base_nonneg h.laid.shape_valid.dims_pos ht.laid.strides_nonneg
  have hext := h.embeds.extent_le h.laid.shape_valid.dims_pos ht.laid.strides_nonneg
  have hbits : 8 * (off * hbiDtypeBits t.dtype).tdiv 8 = off * hbiDtypeBits t.dtype :=
    Int.mul_tdiv_cancel_of_dvd h.off_bits
  have hdvd : (hbiDtypeAlign root.dtype : Int) ∣ v.data := by
    rw [h.data_eq]
    have hmove := hbiDtypeAlign_dvd_off ht.laid.dtype_valid hbits
    rw [ht.dtype_eq] at hmove ⊢
    exact dvd_add ht.dtype_align hmove
  have halign : hbiIsPow2 v.align = true ∧ v.data % v.align = 0 := by
    rcases h.align_eq with ⟨hsame, hzero⟩ | hnat
    · have hdata : v.data = t.data := by
        rw [h.data_eq, hzero]
        simp
      rw [hsame, hdata]
      exact ⟨ht.align_pow2, ht.data_aligned⟩
    · rw [hnat]
      refine ⟨hbiDtypeAlign_isPow2 ht.laid.dtype_valid, ?_⟩
      rw [ht.dtype_eq]
      exact Int.emod_eq_zero_of_dvd hdvd
  refine ⟨h.laid, h.dtype_eq.trans ht.dtype_eq, ?_, ?_, ?_, halign.1, halign.2, hdvd, ?_⟩
  · exact add_nonneg ht.base_nonneg hoff
  · rw [h.data_eq, mul_add, hbits, ht.data_eq, ht.dtype_eq]
    ring
  · have := ht.extent_le
    omega
  · rw [h.quant_eq]
    exact ht.quant_none

/-- A whole chain keeps its last view inside the root, and that view records its
exact span unless the chain is empty. -/
theorem ViewOp.applyAll_within {ops : List ViewOp} {root t v : Tensor} {base : Int}
    (ht : root.Within t base) (hops : ∀ op ∈ ops, op ≠ .view ∧ op.NoOverflow)
    (h : ViewOp.applyAll t ops = .ok v) :
    (∃ base', root.Within v base') ∧ (ops ≠ [] ∨ t.SpanExact → v.SpanExact) := by
  induction ops generalizing t base with
  | nil =>
      cases h
      exact ⟨⟨base, ht⟩, fun hspan => hspan.resolve_left (by simp)⟩
  | cons op ops ih =>
      simp only [ViewOp.applyAll, Result.bind_eq_ok] at h
      obtain ⟨u, hu, h⟩ := h
      obtain ⟨hview, hov⟩ := hops op (by simp)
      obtain ⟨⟨off, hstep⟩, _, hspan⟩ := ViewOp.apply_step ht.laid hov hu
      obtain ⟨hwithin, hlast⟩ := ih (ht.step hstep) (fun o ho => hops o (by simp [ho])) h
      exact ⟨hwithin, fun _ => hlast (Or.inr (hspan hview))⟩

/-- A view inside its root that records its exact span passes the validator. -/
theorem Tensor.Within.validate {root t : Tensor} {base : Int} (hroot : 0 < root.data)
    (ht : root.Within t base) (hspan : t.SpanExact) : hbiTensorValidate t = .ok () := by
  have hdata : t.data ≠ 0 := by
    have hnonneg := mul_nonneg ht.base_nonneg (Int.natCast_nonneg (hbiDtypeBits root.dtype))
    have := ht.data_eq
    omega
  have haligned : hbiTensorIsAligned t t.align = true := by
    simp [hbiTensorIsAligned, ht.align_pow2, ht.data_aligned]
  rw [ht.laid.validate hdata hspan (Or.inr haligned)]
  simp [hbiQuantMetaValidate, ht.quant_none]

/-- Every view a chain of requests makes from a freshly constructed tensor is
valid; its recorded size is the packed span from its first element up to the end
of its farthest one; and those bytes are bytes of the root. -/
theorem view_chain_within_root {root v : Tensor} {ops : List ViewOp} (hroot : root.Root)
    (hne : ops ≠ []) (hops : ∀ op ∈ ops, op ≠ .view ∧ op.NoOverflow)
    (h : ViewOp.applyAll root ops = .ok v) :
    hbiTensorValidate v = .ok () ∧
      (∃ last, Strided.InBounds v.shape.dims last ∧
        (∀ idx, Strided.InBounds v.shape.dims idx →
          0 ≤ Strided.offset idx v.strides ∧
          Strided.offset idx v.strides ≤ Strided.offset last v.strides) ∧
        (v.nbytes : Int) =
          ((Strided.offset last v.strides + 1) * hbiDtypeBits v.dtype + 7) / 8) ∧
      root.data ≤ v.data ∧ v.data + v.nbytes ≤ root.data + root.packedBytes := by
  have hpacked := hroot.packed
  obtain ⟨⟨base, hwithin⟩, hspan⟩ := ViewOp.applyAll_within hpacked.within hops h
  have hexact := hspan (Or.inl hne)
  have hlaid := hwithin.laid
  have hpos := hlaid.shape_valid.dims_pos
  have hext := Strided.extent_nonneg hpos hlaid.strides_nonneg
  have hnbytes := ((hbiDtypePackedNbytes_eq_ok hlaid.dtype_valid (by omega)).mp hexact).2
  have hbase : 0 ≤ base * (hbiDtypeBits root.dtype : Int) :=
    mul_nonneg hwithin.base_nonneg (Int.natCast_nonneg _)
  have hdata := hwithin.data_eq
  refine ⟨hwithin.validate hpacked.data_pos hexact,
    ⟨_, Strided.last_inBounds hpos, ?_, hnbytes⟩, by omega, ?_⟩
  · intro idx hidx
    exact ⟨Strided.offset_nonneg hidx hlaid.strides_nonneg,
      Strided.offset_le_extent hidx hlaid.strides_nonneg⟩
  · have hbits : base * (hbiDtypeBits root.dtype : Int) +
        (Strided.extent v.shape.dims v.strides + 1) * hbiDtypeBits root.dtype ≤
          root.shape.dims.prod * hbiDtypeBits root.dtype := by
      rw [← add_mul, ← add_assoc]
      exact mul_le_mul_of_nonneg_right hwithin.extent_le (Int.natCast_nonneg _)
    rw [hwithin.dtype_eq] at hnbytes
    unfold Tensor.packedBytes
    omega

theorem view_chain_within_root_sub_byte :
    ∃ root v : Tensor, hbiTensorWrap .int4 ⟨[3, 4]⟩ 64 8 = .ok root ∧
      ViewOp.applyAll root [.slice 0 1 2, .unsqueeze 0] = .ok v ∧
      hbiTensorValidate v = .ok () ∧ v.data + v.nbytes ≤ root.data + root.packedBytes := by
  refine ⟨_, _, rfl, rfl, ?_⟩
  have hroot := @Tensor.Root.wrap .int4 ⟨[3, 4]⟩ 64 8 _ rfl
  have h := @view_chain_within_root _ _ [.slice 0 1 2, .unsqueeze 0] hroot (by decide)
    (by decide) rfl
  exact ⟨h.1, h.2.2.2⟩

end Hummingbird

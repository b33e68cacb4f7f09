import Hummingbird.Tensor.View
import Mathlib.Data.List.GetD

/-!
Every view shows the element it should. Each operation is reduced once to a
`ViewStep`: the new layout embedded in the old one by an index map. The address
theorem for arbitrary chains of views then needs nothing about the single
operations.
-/

namespace Hummingbird

/-- Common tail of the operations: once the new shape and strides embed in the
parent's, refreshing the layout completes a step. -/
theorem refreshLayout_step {t c v : Tensor} {off : Int} {map : List Int → List Int}
    (ht : t.Laid) (hrank : c.shape.rank ≤ hbiTensorMaxRank)
    (hpos : ∀ d ∈ c.shape.dims, 0 < d) (hprod : c.shape.dims.prod ≤ t.shape.dims.prod)
    (hlen : c.strides.length = c.shape.rank) (hnonneg : ∀ s ∈ c.strides, 0 ≤ s)
    (hemb : Strided.Embeds t.shape.dims t.strides c.shape.dims c.strides off map)
    (hdtype : c.dtype = t.dtype) (hquant : c.quant = t.quant)
    (hbits : 8 ∣ off * hbiDtypeBits t.dtype)
    (hdata : c.data = t.data + (off * hbiDtypeBits t.dtype).tdiv 8)
    (halign : (c.align = t.align ∧ off = 0) ∨ c.align = hbiDtypeAlign t.dtype)
    (h : refreshLayout c = .ok v) :
    ViewStep t v off map ∧ v.SpanExact ∧ v.shape = c.shape := by
  have hoff := hemb.base_nonneg hpos ht.strides_nonneg
  have hext := hemb.extent_le hpos ht.strides_nonneg
  have hle : (Strided.extent c.shape.dims c.strides + 1) * hbiDtypeBits t.dtype ≤
      int64Max - 7 := by
    refine le_trans ?_ ht.bits_le
    exact mul_le_mul_of_nonneg_right (by omega) (Int.natCast_nonneg _)
  have hlt : Strided.extent c.shape.dims c.strides < int64Max := by
    have := ht.extent_lt
    omega
  have hspan := spanElems_of_lt hpos hnonneg hlt
  simp only [refreshLayout, hspan, Result.bind_eq_ok, pure, Except.pure, Except.ok.injEq] at h
  obtain ⟨span, rfl, nbytes, hbytes, rfl⟩ := h
  refine ⟨⟨⟨?_, ⟨hrank, hpos, hprod.trans ht.shape_valid.prod_le⟩, hlen, hnonneg, ?_,
    rfl⟩, hemb, hdtype, hquant, hprod, hbits, hdata, halign⟩, hbytes, rfl⟩
  · simpa only [hdtype] using ht.dtype_valid
  · simpa only [hdtype] using hle

/-- A byte-addressable element is a whole number of bytes, so every element
offset lands on a byte; a sub-byte view is only made where it does. -/
theorem off_bits_dvd {dt : Dtype} {off : Int} (hdt : hbiDtypeIsValid dt = true)
    (hguard : ¬ (hbiDtypeIsSubByte dt = true ∧ (off * hbiDtypeBits dt).tmod 8 ≠ 0)) :
    8 ∣ off * hbiDtypeBits dt := by
  by_cases hsub : hbiDtypeIsSubByte dt = true
  · have hmod : (off * hbiDtypeBits dt).tmod 8 = 0 := by
      by_contra hne
      exact hguard ⟨hsub, hne⟩
    exact Int.dvd_of_tmod_eq_zero hmod
  · obtain ⟨n, _, hn, _⟩ := hbiDtypeBits_bytes ⟨hdt, by simpa using hsub⟩
    rw [hn]
    exact ⟨off * n, by push_cast; ring⟩

theorem sliceAlign_eq {dt : Dtype} (hdt : hbiDtypeIsValid dt = true) :
    sliceAlign dt = hbiDtypeAlign dt := by
  have := hbiDtypeAlign_pos hdt
  exact if_neg (by omega)

/-- The offset of an embedded layout is an `int64_t`, in elements and in bits. -/
theorem Tensor.Laid.wrapI64_base {t : Tensor} {dims strides : List Int} {off : Int}
    {map : List Int → List Int} (ht : t.Laid) (hpos : ∀ d ∈ dims, 0 < d)
    (hnonneg : ∀ s ∈ strides, 0 ≤ s)
    (hemb : Strided.Embeds t.shape.dims t.strides dims strides off map) :
    wrapI64 off = off ∧ wrapI64 (off * hbiDtypeBits t.dtype) = off * hbiDtypeBits t.dtype := by
  have hoff := hemb.base_nonneg hpos ht.strides_nonneg
  have hext := hemb.extent_le hpos ht.strides_nonneg
  have hzero := Strided.extent_nonneg hpos hnonneg
  have hlt := ht.extent_lt
  have hbits : 0 ≤ off * (hbiDtypeBits t.dtype : Int) :=
    mul_nonneg hoff (Int.natCast_nonneg _)
  have hle : off * (hbiDtypeBits t.dtype : Int) ≤ int64Max - 7 := by
    refine le_trans ?_ ht.bits_le
    exact mul_le_mul_of_nonneg_right (by omega) (Int.natCast_nonneg _)
  refine ⟨wrapI64_of_fits ?_ (by omega), wrapI64_of_fits ?_ (by omega)⟩
  · unfold int64Min
    omega
  · unfold int64Min
    omega

/-- Narrowing keeps the strides, so an embedding is all a slice has to show. -/
theorem sliceAt_step {what : String} {t v : Tensor} {dims : List Int} {off : Int}
    {map : List Int → List Int} (ht : t.Laid) (hlen : dims.length = t.shape.rank)
    (hpos : ∀ d ∈ dims, 0 < d) (hprod : dims.prod ≤ t.shape.dims.prod)
    (hemb : Strided.Embeds t.shape.dims t.strides dims t.strides off map)
    (h : sliceAt what t dims (wrapI64 off) = .ok v) :
    ViewStep t v off map ∧ v.SpanExact ∧ v.shape = ⟨dims⟩ := by
  obtain ⟨hoff, hbits⟩ := ht.wrapI64_base hpos ht.strides_nonneg hemb
  simp only [sliceAt, Result.ite_errSet_eq_ok, hoff, hbits] at h
  apply refreshLayout_step ht (c := { viewSeed t with
    shape := ⟨dims⟩
    data := t.data + (off * hbiDtypeBits t.dtype).tdiv 8
    align := sliceAlign t.dtype }) _ hpos hprod _ ht.strides_nonneg hemb rfl rfl
    (off_bits_dvd ht.dtype_valid h.1) rfl (Or.inr (sliceAlign_eq ht.dtype_valid)) h.2
  · change dims.length ≤ hbiTensorMaxRank
    rw [hlen]
    exact ht.shape_valid.rank_le
  · exact ht.strides_len.trans hlen.symm

private theorem prod_set_le {dims : List Int} {axis : Nat} {count : Int}
    (hpos : ∀ d ∈ dims, 0 < d) (hle : count ≤ dims.getD axis 0) :
    (dims.set axis count).prod ≤ dims.prod := by
  induction dims generalizing axis with
  | nil => simp
  | cons d ds ih =>
      have hrest : ∀ e ∈ ds, 0 < e := fun e he => hpos e (by simp [he])
      cases axis with
      | zero =>
          simp only [List.set_cons_zero, List.prod_cons]
          exact mul_le_mul_of_nonneg_right (by simpa using hle) (Strided.prod_pos hrest).le
      | succ axis =>
          simp only [List.set_cons_succ, List.prod_cons]
          exact mul_le_mul_of_nonneg_left (ih hrest (by simpa using hle)) (hpos d (by simp)).le

private theorem wrap_sum {start count : Int} (h0 : 0 ≤ start) (hc : 0 < count)
    (hle : start + count ≤ int64Max) : wrapI64 (start + count) = start + count := by
  apply wrapI64_of_fits _ hle
  unfold int64Min
  omega

theorem hbiTensorSlice_step {t v : Tensor} {axis : Nat} {start count : Int} (ht : t.Laid)
    (hov : start + count ≤ int64Max) (h : hbiTensorSlice t axis start count = .ok v) :
    ViewStep t v (start * t.strides.getD axis 0) (fun idx => idx.modify axis (· + start)) ∧
      v.SpanExact ∧ v.shape = ⟨t.shape.dims.set axis count⟩ := by
  simp only [hbiTensorSlice, Result.ite_errSet_eq_ok, not_or, not_lt, not_le] at h
  obtain ⟨haxis, ⟨hstart, hcount, hend⟩, h⟩ := h
  rw [wrap_sum hstart hcount hov] at hend
  have hlt : axis < t.shape.dims.length := by
    unfold Shape.rank at haxis
    omega
  apply sliceAt_step ht (by simp [Shape.rank]) _ _
    (Strided.slice_embeds hlt ht.strides_len hstart (by omega)) h
  · intro d hd
    rcases List.mem_or_eq_of_mem_set hd with hd | rfl
    · exact ht.shape_valid.dims_pos d hd
    · exact hcount
  · exact prod_set_le ht.shape_valid.dims_pos (by omega)

/-- The range check passes when every range does, and it adds up the starts' offsets. -/
theorem subtensorLoop_eq_ok {t : Tensor} {i : Nat} {acc off : Int} {ranges : List (Int × Int)}
    (hacc : wrapI64 acc = acc) :
    subtensorLoop t i acc ranges = .ok off ↔
      off = wrapI64 (acc + Strided.offset (ranges.map Prod.fst) (t.strides.drop i)) ∧
        ∀ k < ranges.length, 0 ≤ (ranges.map Prod.fst).getD k 0 ∧
          0 < (ranges.map Prod.snd).getD k 0 ∧
          wrapI64 ((ranges.map Prod.fst).getD k 0 + (ranges.map Prod.snd).getD k 0) ≤
            t.shape.dims.getD (i + k) 0 := by
  induction ranges generalizing i acc with
  | nil => simp [subtensorLoop, hacc, eq_comm]
  | cons r ranges ih =>
      obtain ⟨start, count⟩ := r
      have hoff : Strided.offset (start :: ranges.map Prod.fst) (t.strides.drop i) =
          start * t.strides.getD i 0 +
            Strided.offset (ranges.map Prod.fst) (t.strides.drop (i + 1)) := by
        by_cases hi : i < t.strides.length
        · rw [List.drop_eq_getElem_cons hi, Strided.offset_cons, List.getD_eq_getElem _ _ hi]
        · rw [List.drop_eq_nil_of_le (by omega), List.drop_eq_nil_of_le (by omega),
            List.getD_eq_default _ _ (by omega)]
          simp
      have hindex : ∀ k, t.shape.dims.getD (i + (k + 1)) 0 = t.shape.dims.getD (i + 1 + k) 0 :=
        fun k => congrArg (t.shape.dims.getD · 0) (by omega)
      simp only [subtensorLoop, Result.ite_errSet_eq_ok, not_or, not_lt, not_le]
      rw [ih (wrapI64_wrapI64 _), wrapI64_add_left, add_right_comm, wrapI64_add_right,
        add_right_comm, add_assoc, ← hoff]
      simp only [List.length_cons, List.map_cons, Nat.forall_lt_succ_left, List.getD_cons_zero,
        List.getD_cons_succ, add_zero, hindex]
      exact and_left_comm

private theorem prod_take_le {dims counts : List Int} (hrank : counts.length ≤ dims.length)
    (hpos : ∀ d ∈ dims, 0 < d)
    (hcounts : ∀ k < counts.length,
      0 < counts.getD k 0 ∧ counts.getD k 0 ≤ dims.getD k 0) :
    (counts ++ dims.drop counts.length).prod ≤ dims.prod := by
  induction counts generalizing dims with
  | nil => simp
  | cons c counts ih =>
      obtain ⟨d, ds, rfl⟩ := List.exists_cons_of_length_pos
        (l := dims) (by simp at hrank; omega)
      have hrest : ∀ e ∈ ds, 0 < e := fun e he => hpos e (by simp [he])
      have hhead := hcounts 0 (by simp)
      simp only [List.getD_cons_zero] at hhead
      have hds : counts.length ≤ ds.length := by simpa using hrank
      have htail := ih hds hrest (fun k hk => by
        simpa using hcounts (k + 1) (by simpa using hk))
      simp only [List.cons_append, List.length_cons, List.drop_succ_cons, List.prod_cons]
      calc
        c * (counts ++ ds.drop counts.length).prod ≤ c * ds.prod :=
          mul_le_mul_of_nonneg_left htail hhead.1.le
        _ ≤ d * ds.prod := mul_le_mul_of_nonneg_right hhead.2 (Strided.prod_pos hrest).le

private theorem getD_sum_le {ranges : List (Int × Int)}
    (hov : ∀ r ∈ ranges, r.1 + r.2 ≤ int64Max) {k : Nat} (hk : k < ranges.length) :
    (ranges.map Prod.fst).getD k 0 + (ranges.map Prod.snd).getD k 0 ≤ int64Max := by
  rw [List.getD_eq_getElem _ _ (by simpa using hk), List.getD_eq_getElem _ _ (by simpa using hk),
    List.getElem_map, List.getElem_map]
  exact hov _ (List.getElem_mem hk)

theorem hbiTensorSubtensor_step {t v : Tensor} {ranges : List (Int × Int)} (ht : t.Laid)
    (hov : ∀ r ∈ ranges, r.1 + r.2 ≤ int64Max)
    (h : hbiTensorSubtensor t ranges = .ok v) :
    ViewStep t v (Strided.offset (ranges.map Prod.fst) t.strides)
        (Strided.shift (ranges.map Prod.fst)) ∧
      v.SpanExact ∧
      v.shape = ⟨ranges.map Prod.snd ++ t.shape.dims.drop ranges.length⟩ := by
  simp only [hbiTensorSubtensor, Result.ite_errSet_eq_ok, Result.bind_eq_ok, not_lt] at h
  obtain ⟨hrank, off, hloop, h⟩ := h
  obtain ⟨rfl, hwrapped⟩ := (subtensorLoop_eq_ok rfl).mp hloop
  simp only [List.drop_zero, zero_add] at h hwrapped
  have hall : ∀ k < ranges.length, 0 ≤ (ranges.map Prod.fst).getD k 0 ∧
      0 < (ranges.map Prod.snd).getD k 0 ∧
      (ranges.map Prod.fst).getD k 0 + (ranges.map Prod.snd).getD k 0 ≤
        t.shape.dims.getD k 0 := by
    intro k hk
    obtain ⟨hstart, hcount, hend⟩ := hwrapped k hk
    rw [wrap_sum hstart hcount (getD_sum_le hov hk)] at hend
    exact ⟨hstart, hcount, hend⟩
  have hlen : (ranges.map Prod.snd).length ≤ t.shape.dims.length := by
    simpa [Shape.rank] using hrank
  have hdims : ranges.map Prod.snd ++ t.shape.dims.drop ranges.length =
      ranges.map Prod.snd ++ t.shape.dims.drop (ranges.map Prod.snd).length := by simp
  rw [hdims] at h ⊢
  apply sliceAt_step ht _ _ _ (Strided.subtensor_embeds (by simp) hlen _) h
  · simp only [Shape.rank, List.length_append, List.length_drop] at hlen ⊢
    omega
  · intro d hd
    rcases List.mem_append.mp hd with hd | hd
    · obtain ⟨k, hk, rfl⟩ := List.getElem_of_mem hd
      have := (hall k (by simpa using hk)).2.1
      rwa [List.getD_eq_getElem _ _ hk] at this
    · exact ht.shape_valid.dims_pos d (List.mem_of_mem_drop hd)
  · apply prod_take_le hlen ht.shape_valid.dims_pos
    intro k hk
    have := hall k (by simpa using hk)
    exact ⟨this.2.1, by omega⟩
  · intro k hk
    have := hall k (by simpa using hk)
    exact ⟨this.1, this.2.2⟩

/-- A transpose or a permutation leaves the address alone, so the step has offset
zero. -/
theorem relayout_step {t v : Tensor} {dims strides : List Int} {map : List Int → List Int}
    (ht : t.Laid) (hrank : dims.length ≤ hbiTensorMaxRank) (hpos : ∀ d ∈ dims, 0 < d)
    (hprod : dims.prod ≤ t.shape.dims.prod) (hlen : strides.length = dims.length)
    (hnonneg : ∀ s ∈ strides, 0 ≤ s)
    (hemb : Strided.Embeds t.shape.dims t.strides dims strides 0 map)
    (h : refreshLayout { viewSeed t with shape := ⟨dims⟩, strides := strides } = .ok v) :
    ViewStep t v 0 map ∧ v.SpanExact ∧ v.shape = ⟨dims⟩ :=
  refreshLayout_step ht (c := { viewSeed t with shape := ⟨dims⟩, strides := strides })
    hrank hpos hprod hlen hnonneg hemb rfl rfl (by simp) (by simp [viewSeed])
    (Or.inl ⟨rfl, rfl⟩) h

theorem swapAt_perm {xs : List Int} {a b : Nat} (ha : a < xs.length)
    (hb : b < xs.length) : (Strided.swapAt xs a b).Perm xs := by
  unfold Strided.swapAt
  rw [List.getD_eq_getElem _ _ ha, List.getD_eq_getElem _ _ hb]
  exact List.set_set_perm ha hb

theorem hbiTensorTranspose_step {t v : Tensor} {a b : Nat} (ht : t.Laid)
    (h : hbiTensorTranspose t a b = .ok v) :
    ViewStep t v 0 (fun idx => Strided.swapAt idx a b) ∧ v.SpanExact ∧
      v.shape = ⟨Strided.swapAt t.shape.dims a b⟩ := by
  simp only [hbiTensorTranspose, Result.ite_errSet_eq_ok, not_or, not_le] at h
  obtain ⟨⟨ha, hb⟩, hsub, h⟩ := h
  have hdims : (Strided.swapAt t.shape.dims a b).Perm t.shape.dims := swapAt_perm ha hb
  have hstr : (Strided.swapAt t.strides a b).Perm t.strides :=
    swapAt_perm (ht.strides_len ▸ ha) (ht.strides_len ▸ hb)
  apply relayout_step ht _ _ _ _ _ (Strided.transpose_embeds ha hb ht.strides_len) h
  · rw [Strided.length_swapAt]
    exact ht.shape_valid.rank_le
  · intro d hd
    exact ht.shape_valid.dims_pos d (hdims.mem_iff.mp hd)
  · exact hdims.prod_eq.le
  · rw [Strided.length_swapAt, Strided.length_swapAt]
    exact ht.strides_len
  · intro s hs
    exact ht.strides_nonneg s (hstr.mem_iff.mp hs)

private theorem permuteLoop_eq_ok {n i : Nat} {seen : List Nat} {identity r : Bool}
    {perm : List Nat} (h : permuteLoop n i seen identity perm = .ok r) :
    (∀ p ∈ perm, p < n ∧ p ∉ seen) ∧ perm.Nodup := by
  induction perm generalizing i seen identity with
  | nil => simp
  | cons p perm ih =>
      simp only [permuteLoop, Result.ite_errSet_eq_ok, not_or, not_le] at h
      obtain ⟨⟨hlt, hseen⟩, h⟩ := h
      obtain ⟨hall, hnodup⟩ := ih h
      refine ⟨?_, ?_⟩
      · intro q hq
        rcases List.mem_cons.mp hq with rfl | hq
        · exact ⟨hlt, hseen⟩
        · have hq' := hall q hq
          exact ⟨hq'.1, fun hmem => hq'.2 (by simp [hmem])⟩
      · rw [List.nodup_cons]
        exact ⟨fun hmem => (hall p hmem).2 (by simp), hnodup⟩

/-- What passes the bijection check is a rearrangement of all axes. -/
theorem permuteLoop_perm {perm : List Nat} {r : Bool}
    (h : permuteLoop perm.length 0 [] true perm = .ok r) :
    perm.Perm (List.range perm.length) := by
  obtain ⟨hall, hnodup⟩ := permuteLoop_eq_ok h
  have hsub : perm ⊆ List.range perm.length := fun p hp =>
    List.mem_range.mpr (hall p hp).1
  exact (hnodup.subperm hsub).perm_of_length_le (by simp)

private theorem gather_perm {xs : List Int} {perm : List Nat}
    (h : perm.Perm (List.range xs.length)) : (Strided.gather perm xs).Perm xs := by
  have hself : (List.range xs.length).map (xs.getD · 0) = xs := by
    apply List.ext_getElem
    · simp
    · intro k hk hk'
      simp [List.getD_eq_getElem?_getD, hk']
  calc
    (Strided.gather perm xs).Perm ((List.range xs.length).map (xs.getD · 0)) := h.map _
    _ = xs := hself

theorem hbiTensorPermute_step {t v : Tensor} {perm : List Nat} (ht : t.Laid)
    (h : hbiTensorPermute t perm = .ok v) :
    ViewStep t v 0 (Strided.scatter perm) ∧ v.SpanExact ∧
      v.shape = ⟨Strided.gather perm t.shape.dims⟩ := by
  simp only [hbiTensorPermute, Result.ite_errSet_eq_ok, Result.bind_eq_ok, not_not] at h
  obtain ⟨hlen, identity, hloop, hsub, h⟩ := h
  have hperm := permuteLoop_perm hloop
  rw [hlen] at hperm
  have hdims : (Strided.gather perm t.shape.dims).Perm t.shape.dims := gather_perm hperm
  have hstr : (Strided.gather perm t.strides).Perm t.strides :=
    gather_perm (ht.strides_len ▸ hperm)
  apply relayout_step ht _ _ _ _ _ (Strided.permute_embeds hperm ht.strides_len) h
  · rw [hdims.length_eq]
    exact ht.shape_valid.rank_le
  · intro d hd
    exact ht.shape_valid.dims_pos d (hdims.mem_iff.mp hd)
  · exact hdims.prod_eq.le
  · simp [Strided.gather]
  · intro s hs
    exact ht.strides_nonneg s (hstr.mem_iff.mp hs)

theorem squeezeStrides_spec {dims strides : List Int}
    (hlen : strides.length = dims.length) :
    (Strided.squeezeStrides dims strides).length = (dims.filter (· ≠ 1)).length ∧
      ∀ s ∈ Strided.squeezeStrides dims strides, s ∈ strides := by
  induction dims generalizing strides with
  | nil => simp [Strided.squeezeStrides]
  | cons d ds ih =>
      obtain ⟨s, ss, rfl⟩ := List.exists_cons_of_length_eq_add_one hlen
      have hss : ss.length = ds.length := by simpa using hlen
      obtain ⟨ihlen, ihmem⟩ := ih hss
      by_cases hd : d = 1
      · subst hd
        refine ⟨by simpa [Strided.squeezeStrides] using ihlen, ?_⟩
        intro r hr
        simp only [Strided.squeezeStrides, if_true] at hr
        exact List.mem_cons_of_mem s (ihmem r hr)
      · refine ⟨by simpa [Strided.squeezeStrides, hd] using ihlen, ?_⟩
        intro r hr
        simp only [Strided.squeezeStrides, hd, if_false, List.mem_cons] at hr
        rcases hr with rfl | hr
        · simp
        · exact List.mem_cons_of_mem s (ihmem r hr)

theorem hbiTensorSqueeze_step {t v : Tensor} (ht : t.Laid)
    (h : hbiTensorSqueeze t = .ok v) :
    ViewStep t v 0 (Strided.unsqueezeIndex t.shape.dims) ∧ v.SpanExact ∧
      v.shape = ⟨t.shape.dims.filter (· ≠ 1)⟩ := by
  have hspec := squeezeStrides_spec ht.strides_len
  apply relayout_step ht _ _ (Strided.prod_filter_ne_one _).le hspec.1 _
    (Strided.squeeze_embeds ht.strides_len) h
  · exact (List.length_filter_le _ _).trans ht.shape_valid.rank_le
  · intro d hd
    exact ht.shape_valid.dims_pos d (List.mem_of_mem_filter hd)
  · intro s hs
    exact ht.strides_nonneg s (hspec.2 s hs)

theorem hbiTensorUnsqueeze_step {t v : Tensor} {axis : Nat} (ht : t.Laid)
    (h : hbiTensorUnsqueeze t axis = .ok v) :
    ViewStep t v 0 (fun idx => idx.eraseIdx axis) ∧ v.SpanExact ∧
      v.shape = ⟨t.shape.dims.insertIdx axis 1⟩ := by
  simp only [hbiTensorUnsqueeze, Result.ite_errSet_eq_ok, not_lt] at h
  obtain ⟨haxis, hrank, h⟩ := h
  have hdims : (t.shape.dims.insertIdx axis 1).Perm (1 :: t.shape.dims) :=
    List.perm_insertIdx 1 t.shape.dims haxis
  have hstr := List.perm_insertIdx
    (if axis < t.shape.rank then t.strides.getD axis 0 else 1) t.strides
    (ht.strides_len ▸ haxis)
  apply relayout_step ht _ _ _ _ _ (Strided.unsqueeze_embeds haxis ht.strides_len) h
  · rw [hdims.length_eq]
    exact hrank
  · intro d hd
    rcases List.mem_cons.mp (hdims.mem_iff.mp hd) with rfl | hd
    · exact one_pos
    · exact ht.shape_valid.dims_pos d hd
  · rw [hdims.prod_eq, List.prod_cons, one_mul]
  · rw [hdims.length_eq, hstr.length_eq, List.length_cons, List.length_cons, ht.strides_len]
    rfl
  · intro s hs
    rcases List.mem_cons.mp (hstr.mem_iff.mp hs) with rfl | hs
    · split
      · rename_i hlt
        have hlt' : axis < t.strides.length := ht.strides_len ▸ hlt
        rw [List.getD_eq_getElem _ _ hlt']
        exact ht.strides_nonneg _ (List.getElem_mem hlt')
      · exact zero_le_one
    · exact ht.strides_nonneg s hs

theorem hbiTensorReshape_step {t v : Tensor} {newShape : Shape} (ht : t.Laid)
    (h : hbiTensorReshape t newShape = .ok v) :
    ViewStep t v 0 (fun idx =>
        Strided.unravel t.shape.dims (Strided.linear newShape.dims idx)) ∧
      v.SpanExact ∧ v.shape = newShape := by
  simp only [hbiTensorReshape, Result.ite_errSet_eq_ok, Result.bind_eq_ok, not_not] at h
  obtain ⟨hcontig, ⟨⟩, hnew, oldN, hold, newN, hcount, rfl, strides, hstr, h⟩ := h
  have hvalid := hbiShapeValidate_eq_ok.mp hnew
  have hprod : newShape.dims.prod = t.shape.dims.prod := by
    rw [hvalid.elemCount] at hcount
    rw [ht.shape_valid.elemCount] at hold
    exact Except.ok.inj (hcount.trans hold.symm)
  have hrow : t.strides = Strided.rowMajor t.shape.dims := by
    apply hbiStridesIsContiguous_iff.mp
    rw [← ht.contiguous_eq]
    simpa using hcontig
  rw [hvalid.stridesInit] at hstr
  cases hstr
  have hemb := Strided.reshape_embeds ht.shape_valid.dims_pos hprod
  rw [← hrow] at hemb
  exact relayout_step ht hvalid.rank_le hvalid.dims_pos hprod.le (by simp)
    (Strided.rowMajor_nonneg hvalid.dims_pos) hemb h

theorem hbiTensorView_step {t v : Tensor} (ht : t.Laid) (h : hbiTensorView t = .ok v) :
    ViewStep t v 0 id ∧ v.shape = t.shape := by
  simp only [hbiTensorView, Except.ok.injEq] at h
  subst h
  refine ⟨⟨⟨ht.dtype_valid, ht.shape_valid, ht.strides_len, ht.strides_nonneg, ht.bits_le,
    ht.contiguous_eq⟩, ⟨fun idx hidx => hidx, fun idx hidx => by simp [viewSeed]⟩,
    rfl, rfl, le_rfl, by simp, by simp [viewSeed], Or.inl ⟨rfl, rfl⟩⟩, rfl⟩

/-- One lemma for all requests: a successful request is a step whose index map is
the one the request defines, and its shape is the one the request defines. -/
theorem ViewOp.apply_step {op : ViewOp} {t v : Tensor} (ht : t.Laid)
    (hov : op.NoOverflow) (h : op.apply t = .ok v) :
    (∃ off, ViewStep t v off (op.parentIndex t.shape.dims)) ∧
      v.shape.dims = op.resultDims t.shape.dims ∧ (op ≠ .view → v.SpanExact) := by
  cases op with
  | view =>
      obtain ⟨hstep, hshape⟩ := hbiTensorView_step ht h
      exact ⟨⟨_, hstep⟩, by rw [hshape]; rfl, fun hne => absurd rfl hne⟩
  | reshape newShape =>
      obtain ⟨hstep, hspan, hshape⟩ := hbiTensorReshape_step ht h
      exact ⟨⟨_, hstep⟩, by rw [hshape]; rfl, fun _ => hspan⟩
  | slice axis start count =>
      obtain ⟨hstep, hspan, hshape⟩ := hbiTensorSlice_step ht hov h
      exact ⟨⟨_, hstep⟩, by rw [hshape]; rfl, fun _ => hspan⟩
  | subtensor ranges =>
      obtain ⟨hstep, hspan, hshape⟩ := hbiTensorSubtensor_step ht hov h
      exact ⟨⟨_, hstep⟩, by rw [hshape]; rfl, fun _ => hspan⟩
  | transpose axisA axisB =>
      obtain ⟨hstep, hspan, hshape⟩ := hbiTensorTranspose_step ht h
      exact ⟨⟨_, hstep⟩, by rw [hshape]; rfl, fun _ => hspan⟩
  | permute perm =>
      obtain ⟨hstep, hspan, hshape⟩ := hbiTensorPermute_step ht h
      exact ⟨⟨_, hstep⟩, by rw [hshape]; rfl, fun _ => hspan⟩
  | squeeze =>
      obtain ⟨hstep, hspan, hshape⟩ := hbiTensorSqueeze_step ht h
      exact ⟨⟨_, hstep⟩, by rw [hshape]; rfl, fun _ => hspan⟩
  | unsqueeze axis =>
      obtain ⟨hstep, hspan, hshape⟩ := hbiTensorUnsqueeze_step ht h
      exact ⟨⟨_, hstep⟩, by rw [hshape]; rfl, fun _ => hspan⟩

/-- A step shows, at every index, the parent's element at the mapped index. -/
theorem ViewStep.elemAddr_eq {t v : Tensor} {off : Int} {map : List Int → List Int}
    (h : ViewStep t v off map) (hbyte : t.dtype.ByteAddressable) {idx : List Int}
    (hidx : Strided.InBounds v.shape.dims idx) : v.elemAddr idx = t.elemAddr (map idx) := by
  obtain ⟨n, _, hn, _⟩ := hbiDtypeBits_bytes hbyte
  have hbytes : ∀ e : Int, (e * ((8 * n : Nat) : Int)).tdiv 8 = e * n := by
    intro e
    rw [show e * ((8 * n : Nat) : Int) = e * n * 8 by push_cast; ring]
    exact Int.mul_tdiv_cancel _ (by norm_num)
  unfold Tensor.elemAddr elemByteOffset
  rw [h.dtype_eq, h.data_eq, hn, hbytes, hbytes, hbytes, h.embeds.offset_map idx hidx]
  ring

/-- Whatever chain of views leads from a laid-out tensor is laid out. -/
theorem ViewOp.applyAll_laid {ops : List ViewOp} {t v : Tensor} (ht : t.Laid)
    (hov : ∀ op ∈ ops, op.NoOverflow) (h : ViewOp.applyAll t ops = .ok v) :
    v.Laid ∧ v.dtype = t.dtype := by
  induction ops generalizing t with
  | nil =>
      cases h
      exact ⟨ht, rfl⟩
  | cons op ops ih =>
      simp only [ViewOp.applyAll, Result.bind_eq_ok] at h
      obtain ⟨u, hu, h⟩ := h
      obtain ⟨⟨off, hstep⟩, _, _⟩ := ViewOp.apply_step ht (hov op (by simp)) hu
      obtain ⟨hlaid, hdtype⟩ := ih hstep.laid (fun o ho => hov o (by simp [ho])) h
      exact ⟨hlaid, hdtype.trans hstep.dtype_eq⟩

/-- A tensor fresh from one of the constructors. -/
inductive Tensor.Root : Tensor → Prop
  | alloc {dt shape block t} (h : hbiTensorAlloc dt shape block = .ok t) : Tensor.Root t
  | wrap {dt shape data nbytes t} (h : hbiTensorWrap dt shape data nbytes = .ok t) :
      Tensor.Root t
  | wrapReadonly {dt shape data nbytes t}
      (h : hbiTensorWrapReadonly dt shape data nbytes = .ok t) : Tensor.Root t

theorem Tensor.Root.packed {t : Tensor} (h : t.Root) : t.Packed := by
  cases h with
  | alloc h => exact tensorAllocImpl_packed h
  | wrap h => exact tensorWrapImpl_packed h
  | wrapReadonly h => exact tensorWrapImpl_packed h

/-- For every tensor reached from a constructor by any chain of views and every
further successful request, the result has the dimensions the request defines and
its element at each index lies at the address of the parent's element at the
mapped index, which is an index of the parent. -/
theorem view_element_address {root t v : Tensor} {ops : List ViewOp} {op : ViewOp}
    (hroot : root.Root) (hbyte : root.dtype.ByteAddressable)
    (hops : ∀ o ∈ ops, o.NoOverflow) (hchain : ViewOp.applyAll root ops = .ok t)
    (hov : op.NoOverflow) (h : op.apply t = .ok v) :
    v.shape.dims = op.resultDims t.shape.dims ∧
      ∀ idx, Strided.InBounds v.shape.dims idx →
        Strided.InBounds t.shape.dims (op.parentIndex t.shape.dims idx) ∧
        v.elemAddr idx = t.elemAddr (op.parentIndex t.shape.dims idx) := by
  obtain ⟨hlaid, hdtype⟩ := ViewOp.applyAll_laid hroot.packed.laid hops hchain
  obtain ⟨⟨off, hstep⟩, hshape, _⟩ := ViewOp.apply_step hlaid hov h
  refine ⟨hshape, ?_⟩
  intro idx hidx
  exact ⟨hstep.embeds.inBounds idx hidx, hstep.elemAddr_eq (hdtype ▸ hbyte) hidx⟩

theorem view_element_address_transposed_slice :
    ∃ root t v : Tensor, hbiTensorWrap .fp32 ⟨[2, 3]⟩ 64 24 = .ok root ∧
      ViewOp.applyAll root [.transpose 0 1] = .ok t ∧
      (ViewOp.slice 0 1 2).apply t = .ok v ∧
      v.shape.dims = [2, 2] ∧ v.elemAddr [1, 1] = t.elemAddr [2, 1] := by
  refine ⟨_, _, _, rfl, rfl, rfl, ?_⟩
  have hroot := @Tensor.Root.wrap .fp32 ⟨[2, 3]⟩ 64 24 _ rfl
  have h := @view_element_address _ _ _ [.transpose 0 1] (.slice 0 1 2) hroot (by decide)
    (by decide) rfl (by decide) rfl
  exact ⟨h.1, (h.2 [1, 1] (by decide)).2⟩

end Hummingbird

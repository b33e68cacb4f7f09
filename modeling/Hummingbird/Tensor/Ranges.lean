import Hummingbird.Tensor.ViewAddress
import Hummingbird.Tensor.Valid

/-!
The ranges a slice or a sub-tensor is asked for. A start and a count are added as 64-bit
values, so a sum that leaves `int64_t` comes out negative and passes for one that fits;
every other range that is accepted lies in the parent.
-/

namespace Hummingbird

/-- The part `[start, start + count)` of an axis of `dim` elements. -/
structure AxisRange where
  dim : Int
  start : Int
  count : Int
  deriving DecidableEq, Repr

def AxisRange.Within (r : AxisRange) : Prop :=
  0 ≤ r.start ∧ 0 < r.count ∧ r.start + r.count ≤ r.dim

def AxisRange.Wraps (r : AxisRange) : Prop :=
  0 ≤ r.start ∧ 0 < r.count ∧ int64Max < r.start + r.count

instance (r : AxisRange) : Decidable r.Within := inferInstanceAs (Decidable (_ ∧ _ ∧ _))

instance (r : AxisRange) : Decidable r.Wraps := inferInstanceAs (Decidable (_ ∧ _ ∧ _))

/-- The check both operations make on a range. -/
theorem AxisRange.check_iff {r : AxisRange} (hdim : 0 ≤ r.dim ∧ r.dim ≤ int64Max)
    (hstart : r.start ≤ int64Max) (hcount : r.count ≤ int64Max) :
    (0 ≤ r.start ∧ 0 < r.count ∧ wrapI64 (r.start + r.count) ≤ r.dim) ↔
      r.Within ∨ r.Wraps := by
  unfold AxisRange.Within AxisRange.Wraps
  rw [← and_or_left, ← and_or_left]
  refine and_congr_right fun hs => and_congr_right fun hc => ?_
  by_cases hfits : r.start + r.count ≤ int64Max
  · rw [wrapI64_of_fits (by unfold int64Min; omega) hfits]
    omega
  · rw [wrapI64_of_gt (by omega) (by omega)]
    unfold int64Max at *
    omega

theorem AxisRange.Within.not_wraps {r : AxisRange} (hdim : r.dim ≤ int64Max) (h : r.Within) :
    ¬ r.Wraps := by
  intro hw
  have hend := h.2.2
  have hover := hw.2.2
  omega

/-- The span of a layout, as 64-bit arithmetic counts it, has a packed size. -/
def Packs (dt : Dtype) (dims strides : List Int) : Prop :=
  (∀ p ∈ dims.zip strides, (p.1 - 1) * p.2 ≤ int64Max) ∧
    0 ≤ wrapI64 (Strided.extent dims strides + 1) ∧
    wrapI64 (Strided.extent dims strides + 1) * hbiDtypeBits dt ≤ int64Max - 7

instance (dt : Dtype) (dims strides : List Int) : Decidable (Packs dt dims strides) :=
  inferInstanceAs (Decidable (_ ∧ _ ∧ _))

theorem refreshLayout_iff {c : Tensor} (hdt : hbiDtypeIsValid c.dtype = true)
    (hpos : ∀ d ∈ c.shape.dims, 0 < d) (hs : ∀ s ∈ c.strides, 0 ≤ s) :
    (∃ v, refreshLayout c = .ok v) ↔ Packs c.dtype c.shape.dims c.strides := by
  simp only [refreshLayout, Result.bind_eq_ok, pure, Except.pure, Except.ok.injEq,
    spanElems_eq_ok hpos hs]
  constructor
  · rintro ⟨v, span, ⟨hterms, rfl⟩, nbytes, hbytes, -⟩
    have hnonneg := hbiDtypePackedNbytes_nonneg hbytes
    exact ⟨hterms, hnonneg, ((hbiDtypePackedNbytes_eq_ok hdt hnonneg).mp hbytes).1⟩
  · rintro ⟨hterms, hnonneg, hbits⟩
    obtain ⟨nbytes, hbytes⟩ := hbiDtypePackedNbytes_exists hdt hnonneg hbits
    exact ⟨_, _, ⟨hterms, rfl⟩, nbytes, hbytes, rfl⟩

/-- Elements of whole bytes start on a byte, so only the layout can be refused. -/
theorem sliceAt_iff {what : String} {t : Tensor} {dims : List Int} {off : Int} (ht : t.Laid)
    (hbyte : t.dtype.ByteAddressable) (hpos : ∀ d ∈ dims, 0 < d) :
    (∃ v, sliceAt what t dims off = .ok v) ↔ Packs t.dtype dims t.strides := by
  have hsub : ¬ (hbiDtypeIsSubByte t.dtype = true ∧
      (wrapI64 (off * hbiDtypeBits t.dtype)).tmod 8 ≠ 0) := by
    simp [hbyte.2]
  unfold sliceAt
  rw [if_neg hsub]
  exact refreshLayout_iff (c := { viewSeed t with
    shape := ⟨dims⟩
    data := t.data + (wrapI64 (off * hbiDtypeBits t.dtype)).tdiv 8
    align := sliceAlign t.dtype }) ht.dtype_valid hpos ht.strides_nonneg

/-- A layout embedded in one that has a packed size has one too. -/
theorem Tensor.Laid.packs {t : Tensor} (ht : t.Laid) {dims strides : List Int} {off : Int}
    {map : List Int → List Int} (hpos : ∀ d ∈ dims, 0 < d) (hs : ∀ s ∈ strides, 0 ≤ s)
    (hemb : Strided.Embeds t.shape.dims t.strides dims strides off map) :
    Packs t.dtype dims strides := by
  have hbase := hemb.base_nonneg hpos ht.strides_nonneg
  have hext := hemb.extent_le hpos ht.strides_nonneg
  have hzero := Strided.extent_nonneg hpos hs
  have hlt := ht.extent_lt
  have hwrap : wrapI64 (Strided.extent dims strides + 1) = Strided.extent dims strides + 1 :=
    wrapI64_of_fits (by unfold int64Min; omega) (by omega)
  refine ⟨?_, ?_, ?_⟩
  · intro p hp
    have := zip_term_le_extent hpos hs hp
    omega
  · omega
  · rw [hwrap]
    refine le_trans ?_ ht.bits_le
    exact mul_le_mul_of_nonneg_right (by omega) (Int.natCast_nonneg _)

/-- Every element of the view is an element of the parent. -/
def Tensor.Inside (v t : Tensor) : Prop :=
  ∀ idx, Strided.InBounds v.shape.dims idx →
    ∃ p, Strided.InBounds t.shape.dims p ∧ v.elemAddr idx = t.elemAddr p

theorem ViewStep.inside {t v : Tensor} {off : Int} {map : List Int → List Int}
    (h : ViewStep t v off map) (hbyte : t.dtype.ByteAddressable) : v.Inside t := by
  intro idx hidx
  exact ⟨map idx, h.embeds.inBounds idx hidx, h.elemAddr_eq hbyte hidx⟩

/-- An answer is given exactly when all ranges lie in their axes, and it stays inside. -/
def RangesExact (t : Tensor) (rs : List AxisRange) (answer : Result Tensor) : Prop :=
  ((∃ v, answer = .ok v) ↔ ∀ r ∈ rs, r.Within) ∧ ∀ v, answer = .ok v → v.Inside t

/-- No range is refused, at least one passes because its sum wraps, and the dimensions asked
for have a packed size with the parent's strides. -/
def RangesWrap (t : Tensor) (rs : List AxisRange) (dims : List Int) : Prop :=
  (∀ r ∈ rs, r.Within ∨ r.Wraps) ∧ (∃ r ∈ rs, r.Wraps) ∧ Packs t.dtype dims t.strides

instance (t : Tensor) (rs : List AxisRange) (dims : List Int) :
    Decidable (RangesWrap t rs dims) :=
  inferInstanceAs (Decidable (_ ∧ _ ∧ _))

section Exact

variable {t : Tensor} {rs : List AxisRange} {dims : List Int} {answer : Result Tensor}

/-- What is accepted beyond the ranges that lie in their axes are the sums that wrap. -/
theorem ranges_exact_iff (hdim : ∀ r ∈ rs, r.dim ≤ int64Max)
    (haccept : (∃ v, answer = .ok v) ↔
      (∀ r ∈ rs, r.Within ∨ r.Wraps) ∧ Packs t.dtype dims t.strides)
    (hpacks : (∀ r ∈ rs, r.Within) → Packs t.dtype dims t.strides)
    (hinside : (∀ r ∈ rs, r.Within) → ∀ v, answer = .ok v → v.Inside t) :
    RangesExact t rs answer ↔ ¬ RangesWrap t rs dims := by
  constructor
  · rintro ⟨hiff, -⟩ ⟨hall, ⟨r, hr, hwraps⟩, hpack⟩
    have hwithin := hiff.mp (haccept.mpr ⟨hall, hpack⟩)
    exact (hwithin r hr).not_wraps (hdim r hr) hwraps
  · intro hno
    have hall : (∃ v, answer = .ok v) → ∀ r ∈ rs, r.Within := by
      intro hok r hr
      obtain ⟨hchecked, hpack⟩ := haccept.mp hok
      rcases hchecked r hr with hwithin | hwraps
      · exact hwithin
      · exact absurd ⟨hchecked, ⟨r, hr, hwraps⟩, hpack⟩ hno
    refine ⟨⟨hall, ?_⟩, ?_⟩
    · intro hwithin
      exact haccept.mpr ⟨fun r hr => Or.inl (hwithin r hr), hpacks hwithin⟩
    · intro v hv
      exact hinside (hall ⟨v, hv⟩) v hv

end Exact

/-- The range `hbi_tensor_slice` is asked for. -/
def sliceRange (t : Tensor) (axis : Nat) (start count : Int) : AxisRange :=
  ⟨t.shape.dims.getD axis 0, start, count⟩

/-- The ranges `hbi_tensor_subtensor` is asked for, on the leading axes. -/
def subtensorRanges (t : Tensor) (ranges : List (Int × Int)) : List AxisRange :=
  List.zipWith (fun dim r => ⟨dim, r.1, r.2⟩) t.shape.dims ranges

theorem Tensor.Laid.getD_dim {t : Tensor} (ht : t.Laid) {axis : Nat} (h : axis < t.shape.rank) :
    0 ≤ t.shape.dims.getD axis 0 ∧ t.shape.dims.getD axis 0 ≤ int64Max := by
  have hpos := ht.shape_valid.dims_pos
  have hmem : t.shape.dims.getD axis 0 ∈ t.shape.dims := by
    rw [List.getD_eq_getElem _ _ h]
    exact List.getElem_mem h
  exact ⟨(hpos _ hmem).le, (Strided.le_prod_of_mem hpos hmem).trans ht.shape_valid.prod_le⟩

theorem hbiTensorSlice_iff {t : Tensor} {axis : Nat} {start count : Int} (ht : t.Laid)
    (hbyte : t.dtype.ByteAddressable) (haxis : axis < t.shape.rank) (hstart : start ≤ int64Max)
    (hcount : count ≤ int64Max) :
    (∃ v, hbiTensorSlice t axis start count = .ok v) ↔
      ((sliceRange t axis start count).Within ∨ (sliceRange t axis start count).Wraps) ∧
        Packs t.dtype (t.shape.dims.set axis count) t.strides := by
  have hcheck := @AxisRange.check_iff (sliceRange t axis start count) (ht.getD_dim haxis) hstart
    hcount
  simp only [hbiTensorSlice, Result.ite_errSet_eq_ok, not_or, not_lt, not_le, exists_and_left,
    haxis, true_and]
  rw [← hcheck]
  refine and_congr_right fun hrange => ?_
  apply sliceAt_iff ht hbyte
  intro d hd
  rcases List.mem_or_eq_of_mem_set hd with hd | rfl
  · exact ht.shape_valid.dims_pos d hd
  · exact hrange.2.1

theorem hbiTensorSlice_packs {t : Tensor} {axis : Nat} {start count : Int} (ht : t.Laid)
    (haxis : axis < t.shape.rank) (h : (sliceRange t axis start count).Within) :
    Packs t.dtype (t.shape.dims.set axis count) t.strides := by
  apply ht.packs _ ht.strides_nonneg (Strided.slice_embeds haxis ht.strides_len h.1 h.2.2)
  intro d hd
  rcases List.mem_or_eq_of_mem_set hd with hd | rfl
  · exact ht.shape_valid.dims_pos d hd
  · exact h.2.1

theorem forall_subtensorRanges {t : Tensor} {ranges : List (Int × Int)}
    (hlen : ranges.length ≤ t.shape.rank) {P : AxisRange → Prop} :
    (∀ r ∈ subtensorRanges t ranges, P r) ↔
      ∀ k < ranges.length, P ⟨t.shape.dims.getD k 0, (ranges.map Prod.fst).getD k 0,
        (ranges.map Prod.snd).getD k 0⟩ := by
  have hentry : ∀ k (hk : k < (subtensorRanges t ranges).length) (hr : k < ranges.length),
      (subtensorRanges t ranges).get ⟨k, hk⟩ = ⟨t.shape.dims.getD k 0,
        (ranges.map Prod.fst).getD k 0, (ranges.map Prod.snd).getD k 0⟩ := by
    intro k hk hr
    have hd : k < t.shape.dims.length := lt_of_lt_of_le hr hlen
    rw [List.getD_eq_getElem _ _ hd, List.getD_eq_getElem _ _ (by simpa using hr),
      List.getD_eq_getElem _ _ (by simpa using hr)]
    simp [subtensorRanges]
  have hcount : (subtensorRanges t ranges).length = ranges.length := by
    unfold Shape.rank at hlen
    simp [subtensorRanges, hlen]
  rw [List.forall_mem_iff_get]
  constructor
  · intro h k hk
    have := h ⟨k, hcount ▸ hk⟩
    rwa [hentry k (hcount ▸ hk) hk] at this
  · intro h k
    have hk : k.val < ranges.length := hcount ▸ k.isLt
    have := h k.val hk
    rwa [← hentry k.val k.isLt hk] at this

theorem subtensorDims_pos {t : Tensor} {ranges : List (Int × Int)} (ht : t.Laid)
    (hcounts : ∀ k < ranges.length, 0 < (ranges.map Prod.snd).getD k 0) :
    ∀ d ∈ ranges.map Prod.snd ++ t.shape.dims.drop ranges.length, 0 < d := by
  intro d hd
  rcases List.mem_append.mp hd with hd | hd
  · obtain ⟨k, hk, rfl⟩ := List.getElem_of_mem hd
    have := hcounts k (by simpa using hk)
    rwa [List.getD_eq_getElem _ _ hk] at this
  · exact ht.shape_valid.dims_pos d (List.mem_of_mem_drop hd)

theorem hbiTensorSubtensor_iff {t : Tensor} {ranges : List (Int × Int)} (ht : t.Laid)
    (hbyte : t.dtype.ByteAddressable) (hlen : ranges.length ≤ t.shape.rank)
    (hfits : ∀ r ∈ ranges, r.1 ≤ int64Max ∧ r.2 ≤ int64Max) :
    (∃ v, hbiTensorSubtensor t ranges = .ok v) ↔
      (∀ r ∈ subtensorRanges t ranges, r.Within ∨ r.Wraps) ∧
        Packs t.dtype (ranges.map Prod.snd ++ t.shape.dims.drop ranges.length) t.strides := by
  have hcheck : (∀ r ∈ subtensorRanges t ranges, r.Within ∨ r.Wraps) ↔
      ∀ r ∈ subtensorRanges t ranges,
        0 ≤ r.start ∧ 0 < r.count ∧ wrapI64 (r.start + r.count) ≤ r.dim := by
    refine forall₂_congr fun r hr => ?_
    obtain ⟨k, hk, rfl⟩ := List.getElem_of_mem hr
    simp only [subtensorRanges, List.length_zipWith, lt_min_iff] at hk
    have hdim := ht.getD_dim hk.1
    rw [List.getD_eq_getElem _ _ hk.1] at hdim
    have hr := hfits _ (List.getElem_mem hk.2)
    simp only [subtensorRanges, List.getElem_zipWith]
    exact (AxisRange.check_iff hdim hr.1 hr.2).symm
  rw [hcheck, forall_subtensorRanges hlen]
  simp only [hbiTensorSubtensor, Result.ite_errSet_eq_ok, Result.bind_eq_ok, not_lt, hlen, true_and,
    @subtensorLoop_eq_ok t 0 0 _ ranges rfl, zero_add]
  constructor
  · rintro ⟨v, off, ⟨-, hall⟩, hv⟩
    have hpos := subtensorDims_pos ht fun k hk => (hall k hk).2.1
    exact ⟨hall, (sliceAt_iff ht hbyte hpos).mp ⟨v, hv⟩⟩
  · rintro ⟨hall, hpacks⟩
    have hpos := subtensorDims_pos ht fun k hk => (hall k hk).2.1
    obtain ⟨v, hv⟩ := (sliceAt_iff ht hbyte hpos).mpr hpacks
    exact ⟨v, _, ⟨rfl, hall⟩, hv⟩

theorem hbiTensorSubtensor_packs {t : Tensor} {ranges : List (Int × Int)} (ht : t.Laid)
    (hlen : ranges.length ≤ t.shape.rank) (h : ∀ r ∈ subtensorRanges t ranges, r.Within) :
    Packs t.dtype (ranges.map Prod.snd ++ t.shape.dims.drop ranges.length) t.strides := by
  rw [forall_subtensorRanges hlen] at h
  have hpos := subtensorDims_pos ht fun k hk => (h k hk).2.1
  have hdims : t.shape.dims.drop ranges.length =
      t.shape.dims.drop (ranges.map Prod.snd).length := by simp
  rw [hdims] at hpos ⊢
  have hrank : (ranges.map Prod.snd).length ≤ t.shape.dims.length := by
    rw [List.length_map]
    exact hlen
  have hrange : ∀ k < (ranges.map Prod.snd).length, 0 ≤ (ranges.map Prod.fst).getD k 0 ∧
      (ranges.map Prod.fst).getD k 0 + (ranges.map Prod.snd).getD k 0 ≤
        t.shape.dims.getD k 0 := by
    intro k hk
    have := h k (by simpa using hk)
    exact ⟨this.1, this.2.2⟩
  exact ht.packs hpos ht.strides_nonneg
    (Strided.subtensor_embeds (by simp) hrank hrange)

/-- Slices and sub-tensors of a valid tensor are accepted exactly when their ranges lie in
their axes, and then show elements of the parent alone, unless a sum of start and count wraps
where nothing else is refused. -/
theorem slice_ranges_exact_iff {t : Tensor} (ht : hbiTensorValidate t = .ok ())
    (hbyte : t.dtype.ByteAddressable) :
    (∀ axis start count, axis < t.shape.rank → start ≤ int64Max → count ≤ int64Max →
      (RangesExact t [sliceRange t axis start count] (hbiTensorSlice t axis start count) ↔
        ¬ RangesWrap t [sliceRange t axis start count] (t.shape.dims.set axis count))) ∧
      ∀ ranges : List (Int × Int), ranges.length ≤ t.shape.rank →
        (∀ r ∈ ranges, r.1 ≤ int64Max ∧ r.2 ≤ int64Max) →
        (RangesExact t (subtensorRanges t ranges) (hbiTensorSubtensor t ranges) ↔
          ¬ RangesWrap t (subtensorRanges t ranges)
            (ranges.map Prod.snd ++ t.shape.dims.drop ranges.length)) := by
  have hlaid := (Tensor.valid_of_validate ht).laid
  refine ⟨?_, ?_⟩
  · intro axis start count haxis hstart hcount
    have hdim := hlaid.getD_dim haxis
    apply ranges_exact_iff
    · rw [List.forall_mem_singleton]
      exact hdim.2
    · simpa using hbiTensorSlice_iff hlaid hbyte haxis hstart hcount
    · rw [List.forall_mem_singleton]
      exact hbiTensorSlice_packs hlaid haxis
    · rw [List.forall_mem_singleton]
      intro h v hv
      have hend := h.2.2
      exact (hbiTensorSlice_step hlaid (hend.trans hdim.2) hv).1.inside hbyte
  · intro ranges hlen hfits
    have hdims : ∀ r ∈ subtensorRanges t ranges, r.dim ≤ int64Max := by
      rw [forall_subtensorRanges hlen]
      intro k hk
      exact (hlaid.getD_dim (lt_of_lt_of_le hk hlen)).2
    apply ranges_exact_iff hdims (hbiTensorSubtensor_iff hlaid hbyte hlen hfits)
      (hbiTensorSubtensor_packs hlaid hlen)
    intro h v hv
    have hsum : ∀ r ∈ ranges, r.1 + r.2 ≤ int64Max := by
      intro r hr
      obtain ⟨k, hk, rfl⟩ := List.getElem_of_mem hr
      have hrange := (forall_subtensorRanges hlen).mp h k hk
      have hle := hrange.2.2.trans (hlaid.getD_dim (lt_of_lt_of_le hk hlen)).2
      simpa [List.getD_eq_getElem?_getD, hk] using hle
    exact (hbiTensorSubtensor_step hlaid hsum hv).1.inside hbyte

theorem slice_ranges_exact_inner :
    ∃ t : Tensor, hbiTensorWrap .fp32 ⟨[3, 4]⟩ 64 48 = .ok t ∧
      RangesExact t [sliceRange t 0 1 2] (hbiTensorSlice t 0 1 2) ∧
      RangesExact t (subtensorRanges t [(1, 2), (0, 3)])
        (hbiTensorSubtensor t [(1, 2), (0, 3)]) := by
  refine ⟨_, rfl, ?_⟩
  have hexact := fun t ht hbyte => @slice_ranges_exact_iff t ht hbyte
  refine ⟨((hexact _ ?_ ?_).1 0 1 2 ?_ ?_ ?_).mpr ?_, ((hexact _ ?_ ?_).2 _ ?_ ?_).mpr ?_⟩
  all_goals decide +kernel

/-- A start of `INT64_MAX` makes the sum wrap, and the slice lies before its parent. -/
theorem slice_accepts_wrapped_range :
    ∃ t v w : Tensor, hbiTensorWrap .int8 ⟨[4]⟩ 64 4 = .ok t ∧ hbiTensorValidate t = .ok () ∧
      t.dtype.ByteAddressable ∧ hbiTensorSlice t 0 int64Max 1 = .ok v ∧
      hbiTensorSubtensor t [(int64Max, 1)] = .ok w ∧ ¬ (sliceRange t 0 int64Max 1).Within ∧
      Strided.InBounds v.shape.dims [0] ∧ v.elemAddr [0] < t.data := by
  refine ⟨_, _, _, rfl, by decide +kernel, by decide, rfl, rfl, ?_⟩
  decide +kernel

end Hummingbird

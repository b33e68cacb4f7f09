import Hummingbird.Tensor.Quant
import Hummingbird.Tensor.UnitAxes

/-!
Views of quantized tensors. A view copies the metadata as it stands, while its axes are
moved, dropped, inserted, narrowed or merged, so the group axis and the group size may
come to say something else about the same elements. When they do not is worked out for
every operation.
-/

namespace Hummingbird

/-- The step from a group to the next one along each axis. -/
def QuantMeta.groupStrides (m : QuantMeta) (dims : List Int) : List Int :=
  Strided.rowMajor (Strided.coarse m.groupAxis m.groupSize dims)

/-- Along every axis with more than one group, the groups of `vdims` are numbered in the given
steps. -/
def QuantMeta.SameNumbers (m : QuantMeta) (vdims strides : List Int) : Prop :=
  Strided.SameSteps (Strided.coarse m.groupAxis m.groupSize vdims) (m.groupStrides vdims) strides

instance (m : QuantMeta) (vdims strides : List Int) : Decidable (m.SameNumbers vdims strides) :=
  inferInstanceAs (Decidable (Strided.SameSteps _ _ _))

/-- The metadata of a tensor of dimensions `dims` says of the view's elements what it said of
them there. -/
def ViewOp.KeepsGroups (m : QuantMeta) (dims : List Int) : ViewOp → Prop
  | .view => True
  | .reshape newShape =>
      m.groupSize = 1 ∨
        Strided.behind m.groupAxis newShape.dims = Strided.behind m.groupAxis dims
  | .slice axis start count =>
      start = 0 ∧ m.SameNumbers (dims.set axis count) (m.groupStrides dims)
  | .subtensor ranges =>
      (∀ r ∈ ranges, r.1 = 0) ∧
        m.SameNumbers (ranges.map Prod.snd ++ dims.drop ranges.length) (m.groupStrides dims)
  | .transpose axisA axisB =>
      (m.groupSize = 1 ∨ Equiv.swap axisA axisB m.groupAxis = m.groupAxis) ∧
        m.SameNumbers (Strided.swapAt dims axisA axisB)
          (Strided.swapAt (m.groupStrides dims) axisA axisB)
  | .permute perm =>
      (m.groupSize = 1 ∨ perm.getD m.groupAxis m.groupAxis = m.groupAxis) ∧
        m.SameNumbers (Strided.gather perm dims) (Strided.gather perm (m.groupStrides dims))
  | .squeeze =>
      m.groupSize = 1 ∨
        Strided.behind m.groupAxis (dims.filter (· ≠ 1)) = Strided.behind m.groupAxis dims
  | .unsqueeze axis =>
      m.groupSize = 1 ∨
        Strided.behind m.groupAxis (dims.insertIdx axis 1) = Strided.behind m.groupAxis dims

instance (m : QuantMeta) (dims : List Int) : (op : ViewOp) → Decidable (op.KeepsGroups m dims)
  | .view => inferInstanceAs (Decidable True)
  | .reshape _ | .squeeze | .unsqueeze _ => inferInstanceAs (Decidable (_ ∨ _))
  | .slice _ _ _ => inferInstanceAs (Decidable (_ ∧ QuantMeta.SameNumbers _ _ _))
  | .subtensor _ => inferInstanceAs (Decidable ((∀ r ∈ _, _) ∧ QuantMeta.SameNumbers _ _ _))
  | .transpose _ _ | .permute _ =>
      inferInstanceAs (Decidable ((_ ∨ _) ∧ QuantMeta.SameNumbers _ _ _))

section Groups

variable {t v : Tensor} {m : QuantMeta} (ht : t.Laid) (hg : 0 < m.groupSize)
variable (hfit : m.Fits t.shape.dims)

/-- The groups of the elements of a box, seen from another one. -/
def QuantMeta.SameGroups (m : QuantMeta) (dims vdims : List Int)
    (map : List Int → List Int) : Prop :=
  ∀ idx, Strided.InBounds vdims idx →
    Strided.groupRank m.groupAxis m.groupSize vdims idx =
      Strided.groupRank m.groupAxis m.groupSize dims (map idx)

include ht hg hfit

theorem reshape_keeps_groups_iff {newShape : Shape} (h : hbiTensorReshape t newShape = .ok v)
    (hvfit : m.Fits newShape.dims) :
    m.SameGroups t.shape.dims newShape.dims
        ((ViewOp.reshape newShape).parentIndex t.shape.dims) ↔
      (ViewOp.reshape newShape).KeepsGroups m t.shape.dims := by
  simp only [hbiTensorReshape, Result.ite_errSet_eq_ok, Result.bind_eq_ok, not_not] at h
  obtain ⟨-, ⟨⟩, hnew, oldN, hold, newN, hcount, rfl, -, -, -⟩ := h
  have hvalid := hbiShapeValidate_eq_ok.mp hnew
  have hprod : newShape.dims.prod = t.shape.dims.prod := by
    rw [hvalid.elemCount] at hcount
    rw [ht.shape_valid.elemCount] at hold
    exact Except.ok.inj (hcount.trans hold.symm)
  exact Strided.groupRank_regroup_iff hg ht.shape_valid.dims_pos hvalid.dims_pos (hfit.2 hg)
    (hvfit.2 hg) hfit.1 hvfit.1 hprod (Strided.reshape_embeds ht.shape_valid.dims_pos hprod)

theorem squeeze_keeps_groups_iff (hvfit : m.Fits (t.shape.dims.filter (· ≠ 1))) :
    m.SameGroups t.shape.dims (t.shape.dims.filter (· ≠ 1))
        (ViewOp.squeeze.parentIndex t.shape.dims) ↔
      ViewOp.squeeze.KeepsGroups m t.shape.dims := by
  have hvpos : ∀ d ∈ t.shape.dims.filter (· ≠ 1), 0 < d := fun d hd =>
    ht.shape_valid.dims_pos d (List.mem_of_mem_filter hd)
  have hemb := Strided.squeeze_embeds (Strided.length_rowMajor t.shape.dims)
  rw [Strided.squeezeStrides_rowMajor] at hemb
  exact Strided.groupRank_regroup_iff hg ht.shape_valid.dims_pos hvpos (hfit.2 hg) (hvfit.2 hg)
    hfit.1 hvfit.1 (Strided.prod_filter_ne_one _) hemb

theorem unsqueeze_keeps_groups_iff {axis : Nat} (haxis : axis ≤ t.shape.dims.length)
    (hvfit : m.Fits (t.shape.dims.insertIdx axis 1)) :
    m.SameGroups t.shape.dims (t.shape.dims.insertIdx axis 1)
        ((ViewOp.unsqueeze axis).parentIndex t.shape.dims) ↔
      (ViewOp.unsqueeze axis).KeepsGroups m t.shape.dims := by
  have hperm := List.perm_insertIdx 1 t.shape.dims haxis
  have hvpos : ∀ d ∈ t.shape.dims.insertIdx axis 1, 0 < d := by
    intro d hd
    rcases List.mem_cons.mp (hperm.mem_iff.mp hd) with rfl | hd
    · exact one_pos
    · exact ht.shape_valid.dims_pos d hd
  have hprod : (t.shape.dims.insertIdx axis 1).prod = t.shape.dims.prod := by
    rw [hperm.prod_eq, List.prod_cons, one_mul]
  have hemb := @Strided.unsqueeze_embeds _ _ axis (t.shape.dims.drop axis).prod haxis
    (Strided.length_rowMajor t.shape.dims)
  rw [← Strided.rowMajor_insertIdx_one haxis] at hemb
  exact Strided.groupRank_regroup_iff hg ht.shape_valid.dims_pos hvpos (hfit.2 hg) (hvfit.2 hg)
    hfit.1 hvfit.1 hprod hemb

theorem transpose_keeps_groups_iff {a b : Nat} (h : hbiTensorTranspose t a b = .ok v)
    (hvfit : m.Fits (Strided.swapAt t.shape.dims a b)) :
    m.SameGroups t.shape.dims (Strided.swapAt t.shape.dims a b)
        ((ViewOp.transpose a b).parentIndex t.shape.dims) ↔
      (ViewOp.transpose a b).KeepsGroups m t.shape.dims := by
  obtain ⟨hstep, -, hshape⟩ := hbiTensorTranspose_step ht h
  simp only [hbiTensorTranspose, Result.ite_errSet_eq_ok, not_or, not_le] at h
  obtain ⟨⟨ha, hb⟩, -, -⟩ := h
  have hvpos := hstep.laid.shape_valid.dims_pos
  rw [hshape] at hvpos
  exact Strided.groupRank_reorder_iff (Strided.swap_reorders ha hb) rfl hg hvpos (hfit.2 hg)
    (hvfit.2 hg)

theorem permute_keeps_groups_iff {perm : List Nat} (h : hbiTensorPermute t perm = .ok v)
    (hvfit : m.Fits (Strided.gather perm t.shape.dims)) :
    m.SameGroups t.shape.dims (Strided.gather perm t.shape.dims)
        ((ViewOp.permute perm).parentIndex t.shape.dims) ↔
      (ViewOp.permute perm).KeepsGroups m t.shape.dims := by
  obtain ⟨hstep, -, hshape⟩ := hbiTensorPermute_step ht h
  simp only [hbiTensorPermute, Result.ite_errSet_eq_ok, Result.bind_eq_ok, not_not] at h
  obtain ⟨hlen, identity, hloop, -, -⟩ := h
  have hperm := permuteLoop_perm hloop
  rw [hlen] at hperm
  have hvpos := hstep.laid.shape_valid.dims_pos
  rw [hshape] at hvpos
  exact Strided.groupRank_reorder_iff (Strided.permute_reorders hperm) rfl hg hvpos (hfit.2 hg)
    (hvfit.2 hg)

theorem slice_keeps_groups_iff {axis : Nat} {start count : Int} (hov : start + count ≤ int64Max)
    (h : hbiTensorSlice t axis start count = .ok v)
    (hvfit : m.Fits (t.shape.dims.set axis count)) :
    m.SameGroups t.shape.dims (t.shape.dims.set axis count)
        ((ViewOp.slice axis start count).parentIndex t.shape.dims) ↔
      (ViewOp.slice axis start count).KeepsGroups m t.shape.dims := by
  obtain ⟨hstep, -, hshape⟩ := hbiTensorSlice_step ht hov h
  simp only [hbiTensorSlice, Result.ite_errSet_eq_ok, not_or, not_lt, not_le] at h
  obtain ⟨haxis, ⟨hstart, -, -⟩, -⟩ := h
  have hlt : axis < t.shape.dims.length := haxis
  have hmap : ∀ idx, Strided.InBounds (t.shape.dims.set axis count) idx →
      idx.modify axis (· + start) = Strided.shift (List.replicate axis 0 ++ [start]) idx := by
    intro idx hidx
    apply Strided.modify_eq_shift
    rw [hidx.length_eq, List.length_set]
    exact hlt
  have hvpos := hstep.laid.shape_valid.dims_pos
  rw [hshape] at hvpos
  have hin : ∀ idx, Strided.InBounds (t.shape.dims.set axis count) idx →
      Strided.InBounds t.shape.dims (Strided.shift (List.replicate axis 0 ++ [start]) idx) := by
    intro idx hidx
    have hbounds := hstep.embeds.inBounds idx (by rwa [hshape])
    rwa [hmap idx hidx] at hbounds
  have hlen : (List.replicate axis 0 ++ [start]).length ≤
      (t.shape.dims.set axis count).length := by
    rw [List.length_append, List.length_replicate, List.length_set]
    exact hlt
  have hstarts : ∀ a ∈ List.replicate axis 0 ++ [start], 0 ≤ a := by
    rw [List.forall_mem_append, List.forall_mem_singleton]
    exact ⟨fun a ha => (List.eq_of_mem_replicate ha).ge, hstart⟩
  have hzero : (∀ a ∈ List.replicate axis 0 ++ [start], a = 0) ↔ start = 0 := by
    rw [List.forall_mem_append, List.forall_mem_singleton]
    exact and_iff_right fun a ha => List.eq_of_mem_replicate ha
  have hnarrow := Strided.groupRank_narrow_iff hg hvpos (hfit.2 hg) (hvfit.2 hg)
    (List.length_set ..) hlen hstarts hin
  rw [hzero] at hnarrow
  refine Iff.trans (forall₂_congr fun idx hidx => ?_) hnarrow
  rw [← hmap idx hidx]
  rfl

theorem subtensor_keeps_groups_iff {ranges : List (Int × Int)}
    (hov : ∀ r ∈ ranges, r.1 + r.2 ≤ int64Max) (h : hbiTensorSubtensor t ranges = .ok v)
    (hvfit : m.Fits (ranges.map Prod.snd ++ t.shape.dims.drop ranges.length)) :
    m.SameGroups t.shape.dims (ranges.map Prod.snd ++ t.shape.dims.drop ranges.length)
        ((ViewOp.subtensor ranges).parentIndex t.shape.dims) ↔
      (ViewOp.subtensor ranges).KeepsGroups m t.shape.dims := by
  obtain ⟨hstep, -, hshape⟩ := hbiTensorSubtensor_step ht hov h
  simp only [hbiTensorSubtensor, Result.ite_errSet_eq_ok, Result.bind_eq_ok, not_lt] at h
  obtain ⟨hrank, off, hloop, -⟩ := h
  obtain ⟨-, hranges⟩ := (subtensorLoop_eq_ok rfl).mp hloop
  have hvpos := hstep.laid.shape_valid.dims_pos
  have hin := hstep.embeds.inBounds
  rw [hshape] at hvpos hin
  have hlen : (ranges.map Prod.snd ++ t.shape.dims.drop ranges.length).length =
      t.shape.dims.length := by
    have : ranges.length ≤ t.shape.dims.length := hrank
    rw [List.length_append, List.length_map, List.length_drop]
    omega
  have hstarts : ∀ a ∈ ranges.map Prod.fst, 0 ≤ a := by
    intro a ha
    obtain ⟨k, hk, rfl⟩ := List.getElem_of_mem ha
    have := (hranges k (by simpa using hk)).1
    rwa [List.getD_eq_getElem _ _ hk] at this
  have hnarrow := Strided.groupRank_narrow_iff hg hvpos (hfit.2 hg) (hvfit.2 hg) hlen
    (by rw [List.length_append]; simp) hstarts hin
  rw [List.forall_mem_map] at hnarrow
  exact hnarrow

/-- For every operation, the view's elements keep their groups exactly as the operation's own
condition says. -/
theorem ViewOp.keeps_groups_iff {op : ViewOp} (hov : op.NoOverflow) (h : op.apply t = .ok v)
    (hvfit : m.Fits (op.resultDims t.shape.dims)) :
    m.SameGroups t.shape.dims (op.resultDims t.shape.dims) (op.parentIndex t.shape.dims) ↔
      op.KeepsGroups m t.shape.dims := by
  cases op with
  | view => exact ⟨fun _ => trivial, fun _ idx _ => rfl⟩
  | reshape newShape => exact reshape_keeps_groups_iff ht hg hfit h hvfit
  | slice axis start count => exact slice_keeps_groups_iff ht hg hfit hov h hvfit
  | subtensor ranges => exact subtensor_keeps_groups_iff ht hg hfit hov h hvfit
  | transpose axisA axisB => exact transpose_keeps_groups_iff ht hg hfit h hvfit
  | permute perm => exact permute_keeps_groups_iff ht hg hfit h hvfit
  | squeeze => exact squeeze_keeps_groups_iff ht hg hfit hvfit
  | unsqueeze axis =>
      refine unsqueeze_keeps_groups_iff ht hg hfit ?_ hvfit
      simp only [ViewOp.apply, hbiTensorUnsqueeze, Result.ite_errSet_eq_ok, not_lt] at h
      exact h.1

end Groups

theorem sliceAt_shape {what : String} {t v : Tensor} {dims : List Int} {off : Int}
    (h : sliceAt what t dims off = .ok v) : v.shape = ⟨dims⟩ := by
  simp only [sliceAt, refreshLayout, Result.ite_errSet_eq_ok, Result.bind_eq_ok, pure, Except.pure,
    Except.ok.injEq] at h
  obtain ⟨-, _, -, _, -, rfl⟩ := h
  rfl

/-- A view whose elements all are elements of its parent was not made by a sum that wraps. -/
theorem ViewOp.noOverflow_of_inBounds {op : ViewOp} {t v : Tensor} (ht : t.Laid)
    (h : op.apply t = .ok v)
    (hin : ∀ idx, Strided.InBounds v.shape.dims idx →
      Strided.InBounds t.shape.dims (op.parentIndex t.shape.dims idx)) : op.NoOverflow := by
  cases op with
  | view | reshape _ | transpose _ _ | permute _ | squeeze | unsqueeze _ => trivial
  | slice axis start count =>
      simp only [ViewOp.apply, hbiTensorSlice, Result.ite_errSet_eq_ok, not_or, not_lt,
        not_le] at h
      obtain ⟨haxis, ⟨hstart, hcount, -⟩, h⟩ := h
      have hlt : axis < t.shape.dims.length := haxis
      have hpos : ∀ d ∈ t.shape.dims.set axis count, 0 < d := by
        intro d hd
        rcases List.mem_or_eq_of_mem_set hd with hd | rfl
        · exact ht.shape_valid.dims_pos d hd
        · exact hcount
      have hlast := hin _ (by rw [sliceAt_shape h]; exact Strided.last_inBounds hpos)
      have hbound := ((Strided.inBounds_iff_getD.mp hlast).2 axis hlt).2
      have hdim := (ht.getD_dim haxis).2
      have hval : (((t.shape.dims.set axis count).map (· - 1)).modify axis
          (· + start)).getD axis 0 = count - 1 + start := by
        simp [List.getD_eq_getElem?_getD, hlt]
      simp only [ViewOp.parentIndex, hval] at hbound
      unfold ViewOp.NoOverflow
      omega
  | subtensor ranges =>
      simp only [ViewOp.apply, hbiTensorSubtensor, Result.ite_errSet_eq_ok, Result.bind_eq_ok,
        not_lt] at h
      obtain ⟨hrank, off, hloop, h⟩ := h
      obtain ⟨-, hranges⟩ := (subtensorLoop_eq_ok rfl).mp hloop
      have hpos := subtensorDims_pos ht fun k hk => (hranges k hk).2.1
      have hlast := hin _ (by rw [sliceAt_shape h]; exact Strided.last_inBounds hpos)
      intro r hr
      obtain ⟨k, hk, rfl⟩ := List.getElem_of_mem hr
      have hlt : k < t.shape.dims.length := lt_of_lt_of_le hk hrank
      have hbound := ((Strided.inBounds_iff_getD.mp hlast).2 k hlt).2
      have hdim := (ht.getD_dim hlt).2
      rw [ViewOp.parentIndex, Strided.getD_shift (by simp)] at hbound
      have hval : ((ranges.map Prod.snd ++ t.shape.dims.drop ranges.length).map
          (· - 1)).getD k 0 = ranges[k].2 - 1 := by
        have hk' : k < ((ranges.map Prod.snd).map (· - 1)).length := by simpa using hk
        rw [List.map_append, List.getD_append _ _ _ _ hk', List.getD_eq_getElem _ _ hk']
        simp
      have hfst : (ranges.map Prod.fst).getD k 0 = ranges[k].1 := by
        simp [List.getD_eq_getElem?_getD, hk]
      rw [hval, hfst] at hbound
      omega

/-- Of a view of a valid quantized tensor, the validator only has the metadata to judge. -/
theorem ViewOp.validate_iff {op : ViewOp} {t v : Tensor} (ht : hbiTensorValidate t = .ok ())
    (hs : t.quant.scheme ≠ .none) (hdata : 0 ≤ t.data) (hov : op.NoOverflow)
    (h : op.apply t = .ok v) :
    hbiTensorValidate v = .ok () ↔ t.quant.Fits (op.resultDims t.shape.dims) := by
  have hvalid := Tensor.valid_of_validate ht
  obtain ⟨⟨off, hstep⟩, hdims, hspan⟩ := ViewOp.apply_step hvalid.laid hov h
  obtain ⟨hquantizable, hfit, hpoints⟩ :=
    (hbiQuantMetaValidate_eq_ok hs).mp (Tensor.quant_of_validate ht)
  by_cases hview : op = .view
  · subst hview
    cases h
    exact ⟨fun _ => hfit, fun _ => ht⟩
  · have hbase := hstep.embeds.base_nonneg hstep.laid.shape_valid.dims_pos
      hvalid.laid.strides_nonneg
    have hvdata : v.data ≠ 0 := by
      have hbits : 0 ≤ off * (hbiDtypeBits t.dtype : Int) :=
        mul_nonneg hbase (Int.natCast_nonneg _)
      have hmove := Int.tdiv_nonneg hbits (by norm_num : (0 : Int) ≤ 8)
      have hne := hvalid.data_ne
      rw [hstep.data_eq]
      omega
    have halign : v.align = 0 ∨ hbiTensorIsAligned v v.align = true := by
      rcases hstep.align_eq with ⟨hsame, rfl⟩ | hdtype
      · have hvd : v.data = t.data := by
          rw [hstep.data_eq]
          simp
        have := Tensor.aligned_of_validate ht
        unfold hbiTensorIsAligned at this ⊢
        rwa [hsame, hvd]
      · right
        have hone : hbiDtypeAlign t.dtype = 1 := by
          rcases hquantizable with h | h | h | h | h <;> rw [h] <;> rfl
        rw [hbiTensorIsAligned, hdtype, hone]
        simp [hbiIsPow2]
    have hvs : v.quant.scheme ≠ .none := by rwa [hstep.quant_eq]
    rw [hstep.laid.validate hvdata (hspan hview) halign, hbiQuantMetaValidate_eq_ok hvs,
      hstep.quant_eq, hstep.dtype_eq, hdims]
    exact ⟨fun hok => hok.2.1, fun hok => ⟨hquantizable, hok, hpoints⟩⟩

/-- A view is valid, and each of its elements is one of the parent, in the same group. -/
def QuantKept (t v : Tensor) (map : List Int → List Int) : Prop :=
  hbiTensorValidate v = .ok () ∧
    ∀ idx, Strided.InBounds v.shape.dims idx →
      Strided.InBounds t.shape.dims (map idx) ∧
        v.quant.groupOf v.shape.dims idx = t.quant.groupOf t.shape.dims (map idx)

/-- Metadata stays meaningful under a view exactly when no sum of start and count wraps, the
copied group axis and size fit the view's dimensions, and groups of a positive size keep their
elements and their numbers. -/
theorem quant_kept_iff {t v : Tensor} {op : ViewOp} (ht : hbiTensorValidate t = .ok ())
    (hs : t.quant.scheme ≠ .none) (hdata : 0 ≤ t.data) (h : op.apply t = .ok v) :
    QuantKept t v (op.parentIndex t.shape.dims) ↔
      op.NoOverflow ∧ t.quant.Fits (op.resultDims t.shape.dims) ∧
        (0 < t.quant.groupSize → op.KeepsGroups t.quant t.shape.dims) := by
  have hlaid := (Tensor.valid_of_validate ht).laid
  have hfit := ((hbiQuantMetaValidate_eq_ok hs).mp (Tensor.quant_of_validate ht)).2.1
  constructor
  · rintro ⟨hvalid, helems⟩
    have hov := ViewOp.noOverflow_of_inBounds hlaid h fun idx hidx => (helems idx hidx).1
    obtain ⟨⟨off, hstep⟩, hdims, -⟩ := ViewOp.apply_step hlaid hov h
    have hvfit := (ViewOp.validate_iff ht hs hdata hov h).mp hvalid
    refine ⟨hov, hvfit, fun hg => (ViewOp.keeps_groups_iff hlaid hg hfit hov h hvfit).mp ?_⟩
    intro idx hidx
    have hgroup := (helems idx (by rwa [hdims])).2
    rw [hstep.quant_eq, hdims] at hgroup
    simpa [QuantMeta.groupOf, not_le.mpr hg] using hgroup
  · rintro ⟨hov, hvfit, hkeep⟩
    obtain ⟨⟨off, hstep⟩, hdims, -⟩ := ViewOp.apply_step hlaid hov h
    refine ⟨(ViewOp.validate_iff ht hs hdata hov h).mpr hvfit, fun idx hidx => ?_⟩
    refine ⟨hstep.embeds.inBounds idx hidx, ?_⟩
    rw [hstep.quant_eq]
    unfold QuantMeta.groupOf
    by_cases hg : t.quant.groupSize ≤ 0
    · rw [if_pos hg, if_pos hg]
    · rw [if_neg hg, if_neg hg]
      rw [hdims] at hidx ⊢
      have hpos := not_le.mp hg
      exact (ViewOp.keeps_groups_iff hlaid hpos hfit hov h hvfit).mpr (hkeep hpos) idx hidx

theorem quant_kept_first_rows :
    ∃ t u v : Tensor, hbiTensorWrap .int8 ⟨[4, 8]⟩ 64 32 = .ok t ∧
      hbiTensorAttachQuant t
        (hbiQuantMetaSetScales (hbiQuantMetaInit .affineSym 4 1) 256 .fp32 8) = .ok u ∧
      hbiTensorSlice u 0 0 2 = .ok v ∧
      QuantKept u v ((ViewOp.slice 0 0 2).parentIndex u.shape.dims) := by
  refine ⟨_, _, _, rfl, rfl, rfl, (quant_kept_iff ?_ ?_ ?_ rfl).mpr ?_⟩
  all_goals decide +kernel

/-- Transposing moves elements to other groups of the copied metadata, and a slice of half a
group does not pass the validator. -/
theorem view_loses_groups :
    ∃ t u v w : Tensor, hbiTensorWrap .int8 ⟨[2, 4]⟩ 64 8 = .ok t ∧
      hbiTensorAttachQuant t
        (hbiQuantMetaSetScales (hbiQuantMetaInit .affineSym 2 1) 256 .fp32 4) = .ok u ∧
      hbiTensorValidate u = .ok () ∧ u.quant.scheme ≠ .none ∧
      hbiTensorTranspose u 0 1 = .ok v ∧ hbiTensorValidate v = .ok () ∧
      Strided.InBounds v.shape.dims [0, 1] ∧ v.quant.groupOf v.shape.dims [0, 1] = 0 ∧
      u.quant.groupOf u.shape.dims ((ViewOp.transpose 0 1).parentIndex u.shape.dims [0, 1]) = 2 ∧
      hbiTensorSlice u 1 0 1 = .ok w ∧ hbiTensorValidate w ≠ .ok () := by
  refine ⟨_, _, _, _, rfl, rfl, ?_, ?_, rfl, ?_, ?_, ?_, ?_, rfl, ?_⟩
  all_goals decide +kernel

end Hummingbird

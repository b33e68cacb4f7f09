import Hummingbird.Foundation.Grouped
import Hummingbird.Tensor.Valid
import Hummingbird.Tensor.ViewAddress

/-!
Quantization metadata: how it is put together and attached, which group an element of the
tensor lies in, and what a view makes of metadata it copies. Grouping runs along one axis;
the groups are numbered in row-major order of the grid they form, and a size that is not
positive makes one group of the whole tensor.
-/

namespace Hummingbird

def hbiQuantMetaInit (scheme : QuantScheme) (groupSize : Int) (groupAxis : Nat) : QuantMeta :=
  { QuantMeta.zero with
    scheme := scheme
    groupSize := groupSize
    groupAxis := groupAxis
    scaleDtype := .fp32
    zpDtype := .int8
    nibbleOrder := .lowFirst }

def hbiQuantMetaSetScales (m : QuantMeta) (scales : Int) (dt : Dtype) (n : Nat) : QuantMeta :=
  { m with scales := scales, scaleDtype := dt, numScales := n }

def hbiQuantMetaSetZeroPoints (m : QuantMeta) (zp : Int) (dt : Dtype) (n : Nat) : QuantMeta :=
  { m with zeroPoints := zp, zpDtype := dt, numZeroPoints := n }

def hbiTensorAttachQuant (t : Tensor) (m : QuantMeta) : Result Tensor := do
  hbiQuantMetaValidate m t
  return { t with quant := m }

/-- The dtypes that take metadata. -/
def Dtype.Quantizable (dt : Dtype) : Prop :=
  dt = .int8 ∨ dt = .int4 ∨ dt = .int2 ∨ dt = .nf4 ∨ dt = .mxfp4

instance (dt : Dtype) : Decidable dt.Quantizable :=
  inferInstanceAs (Decidable (_ ∨ _ ∨ _ ∨ _ ∨ _))

/-- The group axis is an axis of the tensor, and the groups along it come out even. -/
def QuantMeta.Fits (m : QuantMeta) (dims : List Int) : Prop :=
  (dims ≠ [] → m.groupAxis < dims.length) ∧
    (0 < m.groupSize → m.groupSize ∣ dims.getD m.groupAxis 0)

/-- Zero points are there for the asymmetric scheme and absent for the symmetric one. -/
def QuantMeta.PointsFit (m : QuantMeta) : Prop :=
  (m.scheme = .affineAsym → m.zeroPoints ≠ 0) ∧ (m.scheme = .affineSym → m.zeroPoints = 0)

instance (m : QuantMeta) (dims : List Int) : Decidable (m.Fits dims) :=
  inferInstanceAs (Decidable ((_ → _) ∧ (_ → _)))

instance (m : QuantMeta) : Decidable m.PointsFit :=
  inferInstanceAs (Decidable ((_ → _) ∧ (_ → _)))

/-- What the validation of metadata finds out. -/
theorem hbiQuantMetaValidate_eq_ok {m : QuantMeta} {t : Tensor} (hs : m.scheme ≠ .none) :
    hbiQuantMetaValidate m t = .ok () ↔
      t.dtype.Quantizable ∧ m.Fits t.shape.dims ∧ m.PointsFit := by
  have hdtype : ¬ (t.dtype ≠ .int8 ∧ t.dtype ≠ .int4 ∧ t.dtype ≠ .int2 ∧ t.dtype ≠ .nf4 ∧
      t.dtype ≠ .mxfp4) ↔ t.dtype.Quantizable := by
    unfold Dtype.Quantizable
    simp only [not_and_or, not_not]
  have haxis : ¬ (m.groupAxis ≥ t.shape.rank ∧ t.shape.rank ≠ 0) ↔
      (t.shape.dims ≠ [] → m.groupAxis < t.shape.dims.length) := by
    rw [← List.length_pos_iff]
    unfold Shape.rank
    omega
  have hsize : ¬ (m.groupSize > 0 ∧ t.shape.rank ≠ 0 ∧
      (t.shape.dims.getD m.groupAxis 0).tmod m.groupSize ≠ 0) ↔
      (0 < m.groupSize → m.groupSize ∣ t.shape.dims.getD m.groupAxis 0) := by
    rw [Int.dvd_iff_tmod_eq_zero]
    by_cases hrank : t.shape.dims = []
    · simp [Shape.rank, hrank]
    · simp [Shape.rank, hrank]
  have hpoints : (¬ (m.scheme = .affineAsym ∧ m.zeroPoints = 0) ∧
      ¬ (m.scheme = .affineSym ∧ m.zeroPoints ≠ 0)) ↔ m.PointsFit := by
    unfold QuantMeta.PointsFit
    rw [not_and, not_and, not_not]
  simp only [hbiQuantMetaValidate, if_neg hs, Result.ite_errSet_eq_ok, hdtype, haxis, hsize,
    and_true]
  rw [hpoints]
  unfold QuantMeta.Fits
  rw [and_assoc]

/-- One group in all, or one for every `group_size` elements along the group axis. -/
def QuantMeta.groupCount (m : QuantMeta) (dims : List Int) : Int :=
  if m.groupSize ≤ 0 ∨ dims = [] then 1 else dims.prod / m.groupSize

/-- The group of the element at an index. -/
def QuantMeta.groupOf (m : QuantMeta) (dims idx : List Int) : Int :=
  if m.groupSize ≤ 0 then 0 else Strided.groupRank m.groupAxis m.groupSize dims idx

/-- Groups are numbered from zero up to their count. -/
theorem QuantMeta.Fits.groupOf_range {m : QuantMeta} {dims idx : List Int} (h : m.Fits dims)
    (hidx : Strided.InBounds dims idx) :
    0 ≤ m.groupOf dims idx ∧ m.groupOf dims idx < m.groupCount dims := by
  unfold QuantMeta.groupOf QuantMeta.groupCount
  by_cases hg : m.groupSize ≤ 0
  · simp [hg]
  · have hpos : 0 < m.groupSize := not_le.mp hg
    rw [if_neg hg]
    by_cases hnil : dims = []
    · subst hnil
      simp [Strided.groupRank, Strided.linear, Strided.coarse, Strided.rowMajor]
    · have hcoarse := Strided.coarse_inBounds hpos (h.2 hpos) hidx
      have hprod := Strided.prod_coarse (h.2 hpos) (h.1 hnil)
      rw [if_neg (by simp [hg, hnil]), ← hprod, Int.mul_ediv_cancel _ hpos.ne']
      exact ⟨Strided.linear_nonneg hcoarse, Strided.linear_lt_prod hcoarse⟩

/-- There is a scale for every group, and where the scheme asks for one, a zero point. -/
def QuantMeta.Covers (m : QuantMeta) (dims : List Int) : Prop :=
  m.scales ≠ 0 ∧ (m.numScales : Int) = m.groupCount dims ∧
    (m.scheme = .affineAsym → (m.numZeroPoints : Int) = m.groupCount dims)

instance QuantMeta.decidableCovers (m : QuantMeta) (dims : List Int) :
    Decidable (m.Covers dims) :=
  inferInstanceAs (Decidable (_ ∧ _ ∧ (_ → _)))

/-- Whatever element is dequantized, both arrays are read inside. -/
def QuantMeta.InRange (m : QuantMeta) (dims : List Int) : Prop :=
  ∀ idx, Strided.InBounds dims idx →
    0 ≤ m.groupOf dims idx ∧ m.groupOf dims idx < m.numScales ∧
      (m.scheme = .affineAsym → m.groupOf dims idx < m.numZeroPoints)

theorem QuantMeta.Fits.inRange {m : QuantMeta} {dims : List Int} (h : m.Fits dims)
    (hc : m.Covers dims) : m.InRange dims := by
  intro idx hidx
  obtain ⟨hlo, hhi⟩ := h.groupOf_range hidx
  refine ⟨hlo, ?_, fun hasym => ?_⟩
  · rw [hc.2.1]
    exact hhi
  · rw [hc.2.2 hasym]
    exact hhi

/-- Attached metadata covers its tensor exactly when one of the checks that are made refuses
it, or it came in with the right counts: the arrays themselves are not checked. -/
theorem attach_quant_covers_iff {t : Tensor} {m : QuantMeta} (hs : m.scheme ≠ .none) :
    (∀ u, hbiTensorAttachQuant t m = .ok u →
        u.quant.Covers u.shape.dims ∧ u.quant.InRange u.shape.dims) ↔
      ¬ (t.dtype.Quantizable ∧ m.Fits t.shape.dims ∧ m.PointsFit) ∨ m.Covers t.shape.dims := by
  have hattach : ∀ u, hbiTensorAttachQuant t m = .ok u ↔
      (t.dtype.Quantizable ∧ m.Fits t.shape.dims ∧ m.PointsFit) ∧ u = { t with quant := m } := by
    intro u
    simp only [hbiTensorAttachQuant, Result.bind_eq_ok, pure, Except.pure, Except.ok.injEq,
      ← hbiQuantMetaValidate_eq_ok hs]
    constructor
    · rintro ⟨⟨⟩, hok, rfl⟩
      exact ⟨hok, rfl⟩
    · rintro ⟨hok, rfl⟩
      exact ⟨(), hok, rfl⟩
  constructor
  · intro h
    by_cases hok : t.dtype.Quantizable ∧ m.Fits t.shape.dims ∧ m.PointsFit
    · exact Or.inr (h _ ((hattach _).mpr ⟨hok, rfl⟩)).1
    · exact Or.inl hok
  · intro h u hu
    obtain ⟨hok, rfl⟩ := (hattach u).mp hu
    rcases h with h | h
    · exact absurd hok h
    · exact ⟨h, hok.2.1.inRange h⟩

/-- Rows of eight in groups of four along them, with a scale for each group. -/
def groupedRows : QuantMeta :=
  hbiQuantMetaSetScales (hbiQuantMetaInit .affineSym 4 1) 256 .fp32 8

def rowsTensor (quant : QuantMeta) : Tensor where
  dtype := .int8
  shape := ⟨[4, 8]⟩
  strides := [8, 1]
  data := 64
  nbytes := 32
  align := 1
  ownership := .borrowed
  device := .cpu
  readOnly := false
  contiguous := true
  quant := quant

theorem attach_quant_covers_rows :
    hbiTensorAttachQuant (rowsTensor QuantMeta.zero) groupedRows =
        .ok (rowsTensor groupedRows) ∧
      groupedRows.Covers [4, 8] ∧ groupedRows.InRange [4, 8] :=
  ⟨rfl, (@attach_quant_covers_iff (rowsTensor QuantMeta.zero) groupedRows (by decide)).mpr
    (Or.inr (by decide)) _ rfl⟩

/-- Metadata without scales is attached to a tensor of two groups. -/
theorem attach_quant_without_scales :
    ∃ t u : Tensor, hbiTensorWrap .int8 ⟨[4]⟩ 64 4 = .ok t ∧
      hbiTensorAttachQuant t (hbiQuantMetaInit .affineSym 2 0) = .ok u ∧
      u.quant.scheme ≠ .none ∧ u.quant.scales = 0 ∧ u.quant.numScales = 0 ∧
      u.quant.groupCount u.shape.dims = 2 ∧ u.quant.groupOf u.shape.dims [3] = 1 :=
  ⟨_, _, rfl, rfl, by decide, by decide, by decide, by decide, by decide⟩

end Hummingbird

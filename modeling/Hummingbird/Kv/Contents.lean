import Hummingbird.Kv.Rows

/-!
Contents of a context across clone and grow. Both copy leading rows of the first axis,
whichever axis counts the tokens, so what arrives in the zeroed buffer is a prefix of the
source's, or nothing: the stored tokens are there afterwards exactly when what is stored
behind that prefix is zero. They are there for all contents when the prefix reaches the last
element of the tokens.
-/

namespace Hummingbird

/-- Two tensors agree on the elements of the first tokens along an axis. -/
def Tensor.AgreesOn (src : Tensor) (m : Memory) (dst : Tensor) (m' : Memory)
    (axis tokens : Nat) : Prop :=
  ∀ idx, Strided.InBounds src.shape.dims idx → idx.getD axis 0 < (tokens : Int) →
    dst.elem m' idx = src.elem m idx

/-- Row-major position of the last element of the first tokens. -/
def lastStored (dims : List Int) (axis tokens : Nat) : Int :=
  Strided.extent (dims.set axis (tokens : Int)) (Strided.rowMajor dims)

/-- The bytes of as many leading rows as there are tokens reach the last element of the
tokens. -/
def RowsCover (dtype : Dtype) (shape : Shape) (axis tokens : Nat) : Prop :=
  (lastStored shape.dims axis tokens + 1) * hbiDtypeBits dtype ≤
    8 * rowBytes (hbiDtypeBits dtype) tokens shape.dims.tail.prod

theorem InBounds.set {dims idx : List Int} {axis : Nat} {n : Int}
    (h : Strided.InBounds dims idx) (hlt : idx.getD axis 0 < n) :
    Strided.InBounds (dims.set axis n) idx := by
  obtain ⟨hlen, hall⟩ := Strided.inBounds_iff_getD.mp h
  refine Strided.inBounds_iff_getD.mpr ⟨by simpa using hlen, ?_⟩
  intro k hk
  rw [List.length_set] at hk
  by_cases hka : axis = k
  · subst hka
    simpa [List.getD_eq_getElem?_getD, hk] using ⟨(hall axis hk).1, hlt⟩
  · simpa [List.getD_eq_getElem?_getD, List.getElem?_set_ne hka] using hall k hk

/-- The index of the last element of the first tokens. -/
theorem lastStored_inBounds {dims : List Int} (hdims : ∀ d ∈ dims, 0 < d) {axis tokens : Nat}
    (haxis : axis < dims.length) (hle : (tokens : Int) ≤ dims.getD axis 0) (hpos : 0 < tokens) :
    Strided.InBounds dims ((dims.set axis (tokens : Int)).map (· - 1)) ∧
      ((dims.set axis (tokens : Int)).map (· - 1)).getD axis 0 < (tokens : Int) := by
  have hset : ∀ d ∈ dims.set axis (tokens : Int), 0 < d := by
    intro d hd
    rcases List.mem_or_eq_of_mem_set hd with hd | rfl
    · exact hdims d hd
    · exact Int.natCast_pos.mpr hpos
  obtain ⟨hlen, hall⟩ := Strided.inBounds_iff_getD.mp (Strided.last_inBounds hset)
  rw [List.length_set] at hlen hall
  have hself : (dims.set axis (tokens : Int)).getD axis 0 = tokens := by
    simp [List.getD_eq_getElem?_getD, haxis]
  refine ⟨Strided.inBounds_iff_getD.mpr ⟨hlen, ?_⟩, ?_⟩
  · intro k hk
    have hbound := hall k hk
    by_cases hka : axis = k
    · subst hka
      rw [hself] at hbound
      exact ⟨hbound.1, hbound.2.trans_le hle⟩
    · have hother : (dims.set axis (tokens : Int)).getD k 0 = dims.getD k 0 := by
        simp [List.getD_eq_getElem?_getD, List.getElem?_set_ne hka]
      rw [hother] at hbound
      exact hbound
  · have hbound := hall axis haxis
    rw [hself] at hbound
    exact hbound.2

/-- Position of a bit of an element in the buffer. -/
def Tensor.bitPos (t : Tensor) (idx : List Int) (k : Nat) : Int :=
  Strided.offset idx t.strides * hbiDtypeBits t.dtype + (k : Int)

/-- The bits of an element lie in the tensor's buffer. -/
theorem Tensor.Allocated.covers_bit {t : Tensor} (ht : t.Allocated) {idx : List Int}
    (hidx : Strided.InBounds t.shape.dims idx) {k : Nat} (hk : k < hbiDtypeBits t.dtype) :
    0 ≤ t.bitPos idx k ∧ t.Covers (t.data + t.bitPos idx k / 8) := by
  have hstrides := ht.packed.strides_eq
  have hnonneg := Strided.linear_nonneg hidx
  have hlt := Strided.linear_lt_prod hidx
  have hbytes := ht.nbytes_eq
  unfold Strided.linear at hnonneg hlt
  rw [← hstrides] at hnonneg hlt
  have hpos : 0 ≤ Strided.offset idx t.strides * (hbiDtypeBits t.dtype : Int) :=
    mul_nonneg hnonneg (Int.natCast_nonneg _)
  have hroom : Strided.offset idx t.strides * (hbiDtypeBits t.dtype : Int) + hbiDtypeBits t.dtype ≤
      t.shape.dims.prod * hbiDtypeBits t.dtype := by
    calc
      Strided.offset idx t.strides * (hbiDtypeBits t.dtype : Int) + hbiDtypeBits t.dtype =
          (Strided.offset idx t.strides + 1) * hbiDtypeBits t.dtype := by ring
      _ ≤ t.shape.dims.prod * hbiDtypeBits t.dtype :=
          mul_le_mul_of_nonneg_right hlt (Int.natCast_nonneg _)
  unfold Tensor.packedBytes at hbytes
  unfold Tensor.bitPos Tensor.Covers
  omega

/-- An element depends on the bytes of its tensor only. -/
theorem Tensor.Allocated.elem_congr {t : Tensor} (ht : t.Allocated) {m m' : Memory}
    (hsame : ∀ a, t.Covers a → m a = m' a) {idx : List Int}
    (hidx : Strided.InBounds t.shape.dims idx) : t.elem m idx = t.elem m' idx := by
  unfold Tensor.elem
  apply List.map_congr_left
  intro k hk
  have hcovers := (ht.covers_bit hidx (List.mem_range.mp hk)).2
  unfold Tensor.bitPos at hcovers
  rw [Tensor.bitAt, Tensor.bitAt, hsame _ hcovers]

theorem Tensor.Allocated.agreesOn_congr {src dst : Tensor} (hsrc : src.Allocated)
    {m₁ m₂ m' : Memory} {axis tokens : Nat} (hsame : ∀ a, src.Covers a → m₁ a = m₂ a)
    (h : src.AgreesOn m₁ dst m' axis tokens) : src.AgreesOn m₂ dst m' axis tokens := by
  intro idx hidx htoken
  rw [h idx hidx htoken]
  exact hsrc.elem_congr hsame hidx

/-- Every bit of the first tokens that lies behind so many bytes is zero. -/
def Tensor.BlankFrom (t : Tensor) (m : Memory) (axis tokens : Nat) (bytes : Int) : Prop :=
  ∀ idx, Strided.InBounds t.shape.dims idx → idx.getD axis 0 < (tokens : Int) →
    ∀ k < hbiDtypeBits t.dtype, 8 * bytes ≤ t.bitPos idx k → t.bitAt m (t.bitPos idx k) = false

theorem Tensor.Allocated.blankFrom_congr {t : Tensor} (ht : t.Allocated) {m m' : Memory}
    (hsame : ∀ a, t.Covers a → m a = m' a) {axis tokens : Nat} {bytes : Int} :
    t.BlankFrom m axis tokens bytes ↔ t.BlankFrom m' axis tokens bytes := by
  refine forall₂_congr fun idx hidx => forall₂_congr fun _ k => forall₂_congr fun hk _ => ?_
  rw [Tensor.bitAt, Tensor.bitAt, hsame _ (ht.covers_bit hidx hk).2]

/-- The bytes of leading rows are bytes of the tensor. -/
theorem Tensor.Allocated.rowBytes_le {t : Tensor} (ht : t.Allocated) (hne : t.shape.dims ≠ [])
    {rows : Nat} (hle : (rows : Int) ≤ t.shape.dims.getD 0 0) :
    rowBytes (hbiDtypeBits t.dtype) rows t.shape.dims.tail.prod ≤ t.nbytes := by
  obtain ⟨d, ds, hdims⟩ := List.exists_cons_of_ne_nil hne
  have hprod : 0 < ds.prod :=
    Strided.prod_pos fun e he => ht.packed.shape_valid.dims_pos e (by simp [hdims, he])
  rw [hdims, List.getD_cons_zero] at hle
  rw [ht.nbytes_eq, Tensor.packedBytes, hdims, List.tail_cons, List.prod_cons]
  have hrows : (rows : Int) * ds.prod * hbiDtypeBits t.dtype ≤ d * ds.prod * hbiDtypeBits t.dtype :=
    mul_le_mul_of_nonneg_right (mul_le_mul_of_nonneg_right hle hprod.le) (Int.natCast_nonneg _)
  unfold rowBytes
  omega

section Stored

variable {t : Tensor} (ht : t.Allocated) {axis tokens : Nat}

include ht

/-- The bits of the first tokens lie up to their last element. -/
theorem Tensor.Allocated.bitPos_lt_lastStored {idx : List Int}
    (hidx : Strided.InBounds t.shape.dims idx) (htoken : idx.getD axis 0 < (tokens : Int)) {k : Nat}
    (hk : k < hbiDtypeBits t.dtype) :
    t.bitPos idx k < (lastStored t.shape.dims axis tokens + 1) * hbiDtypeBits t.dtype := by
  have hstrides := ht.packed.strides_eq
  have hpos : ∀ s ∈ t.strides, 0 ≤ s := by
    rw [hstrides]
    exact Strided.rowMajor_nonneg ht.packed.shape_valid.dims_pos
  have hle := Strided.offset_le_extent (InBounds.set hidx htoken) hpos
  calc
    t.bitPos idx k < Strided.offset idx t.strides * (hbiDtypeBits t.dtype : Int) +
        hbiDtypeBits t.dtype := by
      unfold Tensor.bitPos
      omega
    _ = (Strided.offset idx t.strides + 1) * hbiDtypeBits t.dtype := by ring
    _ ≤ (lastStored t.shape.dims axis tokens + 1) * hbiDtypeBits t.dtype := by
      apply mul_le_mul_of_nonneg_right _ (Int.natCast_nonneg _)
      unfold lastStored
      rw [← hstrides]
      omega

/-- Rows that reach the last element leave nothing behind. -/
theorem Tensor.Allocated.blankFrom_of_cover (hcover : RowsCover t.dtype t.shape axis tokens)
    (m : Memory) : t.BlankFrom m axis tokens
      (rowBytes (hbiDtypeBits t.dtype) tokens t.shape.dims.tail.prod) := by
  intro idx hidx htoken k hk hle
  have hlt := ht.bitPos_lt_lastStored hidx htoken hk
  unfold RowsCover at hcover
  omega

/-- The memory that is ones under one tensor and zeros elsewhere. -/
def onesUnder (t : Tensor) : Memory := fun a => if t.Covers a then 255 else 0

omit ht in
theorem testBit_ones {k : Nat} (hk : k < 8) : (255 : UInt8).toNat.testBit k = true := by
  interval_cases k <;> rfl

/-- Of tokens full of ones nothing is zero, up to the last bit. -/
theorem Tensor.Allocated.lastStored_le_of_blank (haxis : axis < t.shape.dims.length)
    (htokens : (tokens : Int) ≤ t.shape.dims.getD axis 0) (hpos : 0 < tokens) {bytes : Int}
    (hblank : t.BlankFrom (onesUnder t) axis tokens bytes) :
    (lastStored t.shape.dims axis tokens + 1) * hbiDtypeBits t.dtype ≤ 8 * bytes := by
  have hbits := hbiDtypeBits_pos ht.packed.dtype_valid
  obtain ⟨hidx, htoken⟩ :=
    lastStored_inBounds ht.packed.shape_valid.dims_pos haxis htokens hpos
  have hk : hbiDtypeBits t.dtype - 1 < hbiDtypeBits t.dtype := by omega
  have hlast : t.bitPos ((t.shape.dims.set axis (tokens : Int)).map (· - 1))
      (hbiDtypeBits t.dtype - 1) + 1 =
      (lastStored t.shape.dims axis tokens + 1) * hbiDtypeBits t.dtype := by
    rw [Tensor.bitPos, ht.packed.strides_eq, lastStored, Strided.extent, Nat.cast_sub hbits]
    ring
  by_contra hlt
  have hzero := hblank _ hidx htoken _ hk (by omega)
  obtain ⟨hnonneg, hcovers⟩ := ht.covers_bit hidx hk
  rw [Tensor.bitAt, onesUnder, if_pos hcovers, testBit_ones (by omega)] at hzero
  cases hzero

end Stored

/-- A source and a new tensor for its tokens, which has as many of the rows as the source. -/
structure TensorPair (src dst : Tensor) (axis tokens : Nat) : Prop where
  src_alloc : src.Allocated
  dst_alloc : dst.Allocated
  dtype_eq : src.dtype = dst.dtype
  axis_lt : axis < src.shape.dims.length
  tokens_le : (tokens : Int) ≤ src.shape.dims.getD axis 0
  tokens_lt : tokens < uint32Size
  inBounds : ∀ idx, Strided.InBounds src.shape.dims idx → Strided.InBounds dst.shape.dims idx
  rows_iff : (tokens : Int) ≤ src.shape.dims.getD 0 0 ↔ (tokens : Int) ≤ dst.shape.dims.getD 0 0
  apart : src.Apart dst

/-- One byte in a descriptor that nobody wrote. -/
def strayByte (addr : Int) : Tensor :=
  { dtype := .int8, shape := ⟨[1]⟩, strides := [1], data := addr, nbytes := 1, align := 1,
    ownership := .borrowed, device := .cpu, readOnly := false, contiguous := true,
    quant := QuantMeta.zero }

theorem hbiTensorCopyInto_stray {m : Memory} {a b : Int} (ha : a ≠ 0) (hb : b ≠ 0) :
    hbiTensorCopyInto m (strayByte a) (strayByte b) = .ok (memcpy m b a 1) :=
  @hbiTensorCopyInto_contiguous m (strayByte a) (strayByte b) 1 1 ha hb rfl rfl rfl rfl rfl rfl
    (show hbiDtypePackedNbytes .int8 1 = .ok 1 by decide) le_rfl

/-- The tokens of a tensor are all in the copy: none are stored, or the first axis has as many
rows as there are tokens and what is stored behind the moved bytes is zero. -/
def TokensArrive (src dst : Tensor) (m : Memory) (axis tokens : Nat) : Prop :=
  tokens = 0 ∨ (tokens : Int) ≤ src.shape.dims.getD 0 0 ∧
    src.BlankFrom m axis tokens (movedBytes src dst tokens)

namespace TensorPair

variable {src dst : Tensor} {axis tokens : Nat} (h : TensorPair src dst axis tokens)

include h

theorem src_ne : src.shape.dims ≠ [] := by
  intro hnil
  have := h.axis_lt
  simp [hnil] at this

theorem dst_ne : dst.shape.dims ≠ [] := by
  have hzero := Strided.zero_inBounds h.src_alloc.packed.shape_valid.dims_pos
  have hlen := (h.inBounds _ hzero).length_eq
  intro hnil
  have hlt := h.axis_lt
  simp only [hnil, List.length_map, List.length_nil] at hlen
  omega

theorem bitPos_eq (htail : src.shape.dims.tail = dst.shape.dims.tail) (idx : List Int) (k : Nat) :
    dst.bitPos idx k = src.bitPos idx k := by
  obtain ⟨d, ds, hsdims⟩ := List.exists_cons_of_ne_nil h.src_ne
  obtain ⟨d', ds', hddims⟩ := List.exists_cons_of_ne_nil h.dst_ne
  have hstrides : dst.strides = src.strides := by
    rw [hsdims, hddims] at htail
    rw [h.src_alloc.packed.strides_eq, h.dst_alloc.packed.strides_eq, hsdims, hddims]
    simp only [List.tail_cons] at htail
    simp only [Strided.rowMajor, htail]
  rw [Tensor.bitPos, Tensor.bitPos, hstrides, h.dtype_eq]

theorem movedBytes_nonneg : 0 ≤ movedBytes src dst tokens := by
  have hprod : 0 < src.shape.dims.tail.prod :=
    Strided.prod_pos fun d hd => h.src_alloc.packed.shape_valid.dims_pos d (List.mem_of_mem_tail hd)
  have hbits := mul_nonneg (mul_nonneg (Int.natCast_nonneg tokens) hprod.le)
    (Int.natCast_nonneg (hbiDtypeBits src.dtype))
  unfold movedBytes rowBytes
  split_ifs
  · omega
  · exact le_rfl

/-- What is moved fits the new tensor. -/
theorem movedBytes_le (hrows : (tokens : Int) ≤ src.shape.dims.getD 0 0) :
    movedBytes src dst tokens ≤ dst.nbytes := by
  unfold movedBytes
  split_ifs with htail
  · rw [htail, h.dtype_eq]
    exact h.dst_alloc.rowBytes_le h.dst_ne (h.rows_iff.mp hrows)
  · exact Int.natCast_nonneg _

/-- Elements agree bit by bit. -/
theorem agreesOn_iff_bits {m m' : Memory} :
    src.AgreesOn m dst m' axis tokens ↔
      ∀ idx, Strided.InBounds src.shape.dims idx → idx.getD axis 0 < (tokens : Int) →
        ∀ k < hbiDtypeBits src.dtype,
          dst.bitAt m' (dst.bitPos idx k) = src.bitAt m (src.bitPos idx k) := by
  unfold Tensor.AgreesOn Tensor.elem
  rw [← h.dtype_eq]
  simp only [List.map_inj_left, List.mem_range, Tensor.bitPos, ← h.dtype_eq]

/-- A bit of the new tensor when the first bytes of the source were moved there. -/
theorem bitAt_moved {m₀ m m' : Memory} (hsrc : ∀ a, src.Covers a → m₀ a = m a)
    (hzero : ∀ a, dst.Covers a → m₀ a = 0)
    (hmoved : ∀ a, dst.Covers a →
      m' a = memcpy m₀ dst.data src.data (movedBytes src dst tokens).toNat a)
    {idx : List Int} (hidx : Strided.InBounds src.shape.dims idx) {k : Nat}
    (hk : k < hbiDtypeBits src.dtype) :
    dst.bitAt m' (dst.bitPos idx k) =
      if 8 * movedBytes src dst tokens ≤ src.bitPos idx k then false
      else src.bitAt m (src.bitPos idx k) := by
  have hnonneg := h.movedBytes_nonneg
  obtain ⟨hpos, hcovers⟩ := h.src_alloc.covers_bit hidx hk
  have hcovers' := (h.dst_alloc.covers_bit (h.inBounds _ hidx) (h.dtype_eq ▸ hk)).2
  have hblank : memcpy m₀ dst.data src.data (movedBytes src dst tokens).toNat
      (dst.data + dst.bitPos idx k / 8) = 0 → dst.bitAt m' (dst.bitPos idx k) = false := by
    intro hbyte
    rw [Tensor.bitAt, hmoved _ hcovers', hbyte]
    simp
  by_cases htail : src.shape.dims.tail = dst.shape.dims.tail
  · have heq := h.bitPos_eq htail idx k
    rw [heq] at hcovers'
    split_ifs with hle
    · apply hblank
      rw [heq, memcpy_outside (by omega), hzero _ hcovers']
    · rw [heq, Tensor.bitAt, hmoved _ hcovers', memcpy_inside (by omega) (by omega),
        add_sub_cancel_left, hsrc _ hcovers, Tensor.bitAt]
  · have hnone : movedBytes src dst tokens = 0 := if_neg htail
    rw [if_pos (by omega)]
    apply hblank
    rw [hnone, Int.toNat_zero, memcpy_zero, hzero _ hcovers']

/-- What arrives in a zeroed tensor is right exactly when the rest is zero. -/
theorem agreesOn_iff {m₀ m m' : Memory} (hsrc : ∀ a, src.Covers a → m₀ a = m a)
    (hzero : ∀ a, dst.Covers a → m₀ a = 0)
    (hmoved : ∀ a, dst.Covers a →
      m' a = memcpy m₀ dst.data src.data (movedBytes src dst tokens).toNat a) :
    src.AgreesOn m dst m' axis tokens ↔
      src.BlankFrom m axis tokens (movedBytes src dst tokens) := by
  rw [h.agreesOn_iff_bits]
  refine forall₂_congr fun idx hidx => forall₂_congr fun _ k => forall_congr' fun hk => ?_
  rw [h.bitAt_moved hsrc hzero hmoved hidx hk]
  split_ifs with hle
  · exact ⟨fun heq _ => heq.symm, fun hblank => (hblank hle).symm⟩
  · exact ⟨fun _ hge => absurd hge hle, fun _ => rfl⟩

/-- Rows that are there are copied whatever failed slices leave. -/
theorem copySlices_rows (hpos : 0 < tokens) (hrows : (tokens : Int) ≤ src.shape.dims.getD 0 0)
    (m : Memory) (srcLeft dstLeft : Tensor) :
    copySlices m src dst tokens srcLeft dstLeft =
      memcpy m dst.data src.data (movedBytes src dst tokens).toNat :=
  copySlices_of_rows h.src_alloc.packed h.dst_alloc h.src_ne h.dst_ne hpos h.dtype_eq hrows
    (h.rows_iff.mp hrows) m srcLeft dstLeft

theorem copySlices_no_rows (hrows : ¬ (tokens : Int) ≤ src.shape.dims.getD 0 0) (m : Memory)
    (srcLeft dstLeft : Tensor) :
    copySlices m src dst tokens srcLeft dstLeft =
      (hbiTensorCopyInto m srcLeft dstLeft).toOption.getD m :=
  copySlices_of_no_rows h.src_ne h.dst_ne (not_le.mp hrows)
    (not_le.mp fun hle => hrows (h.rows_iff.mpr hle)) h.tokens_lt m srcLeft dstLeft

/-- What the copy leaves alone, with rows or with empty descriptors. -/
theorem copySlices_frame (hpos : 0 < tokens) {srcLeft dstLeft : Tensor}
    (hcase : (tokens : Int) ≤ src.shape.dims.getD 0 0 ∨ srcLeft.data = 0)
    {m : Memory} {a : Int} (ha : ¬ dst.Covers a) :
    copySlices m src dst tokens srcLeft dstLeft a = m a := by
  by_cases hrows : (tokens : Int) ≤ src.shape.dims.getD 0 0
  · rw [h.copySlices_rows hpos hrows]
    have hle := h.movedBytes_le hrows
    have hnonneg := h.movedBytes_nonneg
    apply memcpy_outside
    rintro ⟨hlo, hhi⟩
    exact ha ⟨hlo, by omega⟩
  · rw [h.copySlices_no_rows hrows]
    simp [hbiTensorCopyInto, hcase.resolve_left hrows, errSet, Except.toOption]

/-- Without the rows a stray byte can go over the first element of the tokens. -/
theorem not_agreesOn_of_stray (hpos : 0 < tokens)
    (hrows : ¬ (tokens : Int) ≤ src.shape.dims.getD 0 0) {m₀ m m' : Memory} {addr : Int}
    (haddr : addr ≠ 0) (hbyte : m₀ addr = if src.bitAt m 0 = true then 0 else 255)
    (hcopied : ∀ a, dst.Covers a → m' a =
      copySlices m₀ src dst tokens (strayByte addr) (strayByte dst.data) a) :
    ¬ src.AgreesOn m dst m' axis tokens := by
  rw [h.agreesOn_iff_bits]
  intro hagree
  have hidx := Strided.zero_inBounds h.src_alloc.packed.shape_valid.dims_pos
  have hbits := hbiDtypeBits_pos h.src_alloc.packed.dtype_valid
  have hfirst : ∀ t : Tensor, t.bitPos (src.shape.dims.map fun _ => 0) 0 = 0 := by
    intro t
    rw [Tensor.bitPos, Strided.offset_zero, Int.zero_mul, Nat.cast_zero, Int.zero_add]
  have hbit := hagree _ hidx (by simpa [List.getD_eq_getElem?_getD, h.axis_lt] using hpos) 0 hbits
  have hcovers := (h.dst_alloc.covers_bit (h.inBounds _ hidx) (h.dtype_eq ▸ hbits)).2
  rw [hfirst] at hcovers
  rw [hfirst, hfirst, Tensor.bitAt, hcopied _ hcovers, h.copySlices_no_rows hrows,
    hbiTensorCopyInto_stray haddr h.dst_alloc.packed.data_pos.ne'] at hbit
  simp only [Except.toOption, Option.getD_some] at hbit
  rw [memcpy_inside (by omega) (by omega)] at hbit
  simp only [Int.zero_ediv, add_zero, sub_self, hbyte] at hbit
  cases hsrc : src.bitAt m 0 <;> simp [hsrc] at hbit

/-- Tokens that are right whatever a byte elsewhere is and whatever failed slices leave have
arrived. -/
theorem arrives_of_agreesOn (hpos : 0 < tokens) {m : Memory} {addr : Int} (haddr : addr ≠ 0)
    {before : UInt8 → Memory} (hbyte : ∀ c, before c addr = c)
    (hsrc : ∀ c a, src.Covers a → before c a = m a) (hzero : ∀ c a, dst.Covers a → before c a = 0)
    (hagree : ∀ c srcLeft dstLeft, ∃ m', src.AgreesOn m dst m' axis tokens ∧
      ∀ a, dst.Covers a → m' a = copySlices (before c) src dst tokens srcLeft dstLeft a) :
    TokensArrive src dst m axis tokens := by
  refine Or.inr ?_
  by_cases hrows : (tokens : Int) ≤ src.shape.dims.getD 0 0
  · obtain ⟨m', hright, hcopied⟩ := hagree 0 src dst
    refine ⟨hrows, (h.agreesOn_iff (hsrc 0) (hzero 0) ?_).mp hright⟩
    intro a ha
    rw [hcopied a ha, h.copySlices_rows hpos hrows]
  · exfalso
    obtain ⟨m', hright, hcopied⟩ := hagree (if src.bitAt m 0 = true then 0 else 255)
      (strayByte addr) (strayByte dst.data)
    exact h.not_agreesOn_of_stray hpos hrows haddr (hbyte _) hcopied hright

/-- No element belongs to no tokens. -/
theorem agreesOn_zero (hzero : tokens = 0) (m m' : Memory) :
    src.AgreesOn m dst m' axis tokens := by
  intro idx hidx htoken
  have hbound := (Strided.inBounds_iff_getD.mp hidx).2 axis h.axis_lt
  rw [hzero] at htoken
  omega

end TensorPair
theorem KvPage.zeroed_of_covers {q : KvPage} {m : Memory} {a : Int}
    (h : q.kTensor.Covers a ∨ q.vTensor.Covers a) : q.zeroed m a = 0 := by
  unfold Tensor.Covers at h
  unfold KvPage.zeroed memzero
  split_ifs with hv hk
  · rfl
  · rfl
  · exact absurd h (not_or.mpr ⟨hk, hv⟩)

theorem KvPage.zeroed_of_not {q : KvPage} {m : Memory} {a : Int} (hk : ¬ q.kTensor.Covers a)
    (hv : ¬ q.vTensor.Covers a) : q.zeroed m a = m a :=
  (if_neg hv).trans (if_neg hk)

/-- A byte that none of four tensors covers, and that is not at the null address. -/
theorem exists_uncovered {t u v w : Tensor} (ht : 0 < t.data) (hu : 0 < u.data) (hv : 0 < v.data)
    (hw : 0 < w.data) : ∃ a : Int, a ≠ 0 ∧ ¬ t.Covers a ∧ ¬ u.Covers a ∧ ¬ v.Covers a ∧
      ¬ w.Covers a := by
  refine ⟨t.data + t.nbytes + (u.data + u.nbytes) + (v.data + v.nbytes) + (w.data + w.nbytes), ?_⟩
  unfold Tensor.Covers
  omega

section Page

variable {p q : KvPage} {kAxis vAxis : Nat}
  (hk : TensorPair p.kTensor q.kTensor kAxis p.numTokens)
  (hv : TensorPair p.vTensor q.vTensor vAxis p.numTokens)
  (hnew : q.kTensor.Apart q.vTensor) (hcross : p.vTensor.Apart q.kTensor)
  (hcross' : p.kTensor.Apart q.vTensor) {m : Memory}

include hk hv hnew hcross hcross'

/-- The tokens of a page are in the zeroed new page, whatever lies elsewhere in memory and
whatever failed slices leave behind, exactly when they arrive in both tensors. -/
theorem copyPage_agreesOn_iff :
    (∀ (m' : Memory) (stack : SliceStack),
      (∀ a, p.kTensor.Covers a ∨ p.vTensor.Covers a → m' a = m a) →
      p.kTensor.AgreesOn m' q.kTensor (copyPage (q.zeroed m') p q stack) kAxis p.numTokens ∧
        p.vTensor.AgreesOn m' q.vTensor (copyPage (q.zeroed m') p q stack) vAxis p.numTokens) ↔
      TokensArrive p.kTensor q.kTensor m kAxis p.numTokens ∧
        TokensArrive p.vTensor q.vTensor m vAxis p.numTokens := by
  by_cases hzero : p.numTokens = 0
  · refine ⟨fun _ => ⟨Or.inl hzero, Or.inl hzero⟩, fun _ m' stack _ => ?_⟩
    exact ⟨hk.agreesOn_zero hzero _ _, hv.agreesOn_zero hzero _ _⟩
  have hpos : 0 < p.numTokens := Nat.pos_of_ne_zero hzero
  have hcopy : ∀ m stack, copyPage m p q stack =
      copySlices (copySlices m p.kTensor q.kTensor p.numTokens stack.kSrc stack.kDst) p.vTensor
        q.vTensor p.numTokens stack.vSrc stack.vDst := by
    intro m stack
    rw [copyPage, if_pos hpos]
  have hkSrc : ∀ m' a, p.kTensor.Covers a → q.zeroed m' a = m' a := fun m' a ha =>
    KvPage.zeroed_of_not (fun hq => hk.apart a ⟨ha, hq⟩) fun hq => hcross' a ⟨ha, hq⟩
  have hvSrc : ∀ m' a, p.vTensor.Covers a → q.zeroed m' a = m' a := fun m' a ha =>
    KvPage.zeroed_of_not (fun hq => hcross a ⟨ha, hq⟩) fun hq => hv.apart a ⟨ha, hq⟩
  have hkNew : ∀ m' a, q.kTensor.Covers a → q.zeroed m' a = 0 :=
    fun _ _ ha => KvPage.zeroed_of_covers (Or.inl ha)
  have hvNew : ∀ m' a, q.vTensor.Covers a → q.zeroed m' a = 0 :=
    fun _ _ ha => KvPage.zeroed_of_covers (Or.inr ha)
  constructor
  · intro hall
    obtain ⟨addr, haddr, hpk, hpv, hqk, hqv⟩ := exists_uncovered hk.src_alloc.packed.data_pos
      hv.src_alloc.packed.data_pos hk.dst_alloc.packed.data_pos hv.dst_alloc.packed.data_pos
    let stray : UInt8 → Memory := Function.update m addr
    have hstray : ∀ c a, a ≠ addr → stray c a = m a := fun c a ha => Function.update_of_ne ha c m
    have hkSame : ∀ c a, p.kTensor.Covers a → stray c a = m a :=
      fun c a ha => hstray c a fun heq => hpk (heq ▸ ha)
    have hvSame : ∀ c a, p.vTensor.Covers a → stray c a = m a :=
      fun c a ha => hstray c a fun heq => hpv (heq ▸ ha)
    have hsame : ∀ c a, p.kTensor.Covers a ∨ p.vTensor.Covers a → stray c a = m a :=
      fun c a ha => ha.elim (hkSame c a) (hvSame c a)
    have hbyte : ∀ c, q.zeroed (stray c) addr = c := fun c =>
      (KvPage.zeroed_of_not hqk hqv).trans (Function.update_self addr c m)
    constructor
    · refine hk.arrives_of_agreesOn hpos haddr hbyte
        (fun c a ha => (hkSrc _ a ha).trans (hkSame c a ha)) (fun c => hkNew _) ?_
      intro c srcLeft dstLeft
      let stack : SliceStack := { blankStack with kSrc := srcLeft, kDst := dstLeft }
      refine ⟨copyPage (q.zeroed (stray c)) p q stack,
        hk.src_alloc.agreesOn_congr (hkSame c) (hall _ stack (hsame c)).1, ?_⟩
      intro a ha
      rw [hcopy]
      exact hv.copySlices_frame hpos (Or.inr rfl) fun hva => hnew a ⟨ha, hva⟩
    · have hframe : ∀ c a, ¬ q.kTensor.Covers a → copySlices (q.zeroed (stray c)) p.kTensor
          q.kTensor p.numTokens blankStack.kSrc blankStack.kDst a = q.zeroed (stray c) a :=
        fun c a ha => hk.copySlices_frame hpos (Or.inr rfl) ha
      refine hv.arrives_of_agreesOn hpos haddr
        (fun c => (hframe c addr hqk).trans (hbyte c)) ?_ ?_ ?_
      · intro c a ha
        rw [hframe c a fun hqa => hcross a ⟨ha, hqa⟩, hvSrc _ a ha, hvSame c a ha]
      · intro c a ha
        rw [hframe c a fun hqa => hnew a ⟨hqa, ha⟩, hvNew _ a ha]
      · intro c srcLeft dstLeft
        let stack : SliceStack := { blankStack with vSrc := srcLeft, vDst := dstLeft }
        refine ⟨copyPage (q.zeroed (stray c)) p q stack,
          hv.src_alloc.agreesOn_congr (hvSame c) (hall _ stack (hsame c)).2, ?_⟩
        intro a _
        rw [hcopy]
  · rintro ⟨harrive, harrive'⟩ m' stack hsame
    obtain ⟨hrows, hblank⟩ := harrive.resolve_left hzero
    obtain ⟨hrows', hblank'⟩ := harrive'.resolve_left hzero
    let mid := copySlices (q.zeroed m') p.kTensor q.kTensor p.numTokens stack.kSrc stack.kDst
    have hframe : ∀ a, ¬ q.kTensor.Covers a → mid a = q.zeroed m' a :=
      fun a ha => hk.copySlices_frame hpos (Or.inl hrows) ha
    rw [hcopy]
    constructor
    · refine (hk.agreesOn_iff (hkSrc m') (hkNew m') ?_).mpr
        ((hk.src_alloc.blankFrom_congr fun a ha => hsame a (Or.inl ha)).mpr hblank)
      intro a ha
      rw [hv.copySlices_frame hpos (Or.inl hrows') fun hva => hnew a ⟨ha, hva⟩,
        hk.copySlices_rows hpos hrows]
    · have hmidSrc : ∀ a, p.vTensor.Covers a → mid a = m' a := fun a ha =>
        (hframe a fun hqa => hcross a ⟨ha, hqa⟩).trans (hvSrc m' a ha)
      have hmidNew : ∀ a, q.vTensor.Covers a → mid a = 0 := fun a ha =>
        (hframe a fun hqa => hnew a ⟨hqa, ha⟩).trans (hvNew m' a ha)
      refine (hv.agreesOn_iff hmidSrc hmidNew fun a _ => ?_).mpr
        ((hv.src_alloc.blankFrom_congr fun a ha => hsame a (Or.inr ha)).mpr hblank')
      rw [hv.copySlices_rows hpos hrows']

end Page

end Hummingbird

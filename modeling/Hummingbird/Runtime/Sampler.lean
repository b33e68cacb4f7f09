import Hummingbird.Tensor.Valid

/-!
Greedy sampling. The sampler looks for the first largest entry of the last row of the logits.
It finds the row by counting elements from the end of a packed buffer, whatever the strides of
the tensor are.
-/

namespace Hummingbird

section Scan

variable {F : Type} [LinearOrder F]

/-- The loop of the sampler: the largest entry so far, and the index that it was found at. -/
def greedyLoop (row : Nat → F) : (remaining i : Nat) → F → UInt32 → UInt32
  | 0, _, _, maxIdx => maxIdx
  | remaining + 1, i, maxVal, maxIdx =>
      if row i > maxVal then greedyLoop row remaining (i + 1) (row i) (UInt32.ofNat i)
      else greedyLoop row remaining (i + 1) maxVal maxIdx

/-- The least index of a largest entry among the first `n`. -/
structure IsFirstMax (row : Nat → F) (n i : Nat) : Prop where
  lt : i < n
  max : ∀ j, j < n → row j ≤ row i
  first : ∀ j, j < i → row j < row i

theorem IsFirstMax.unique {row : Nat → F} {n i j : Nat} (hi : IsFirstMax row n i)
    (hj : IsFirstMax row n j) : i = j := by
  rcases lt_trichotomy i j with hlt | heq | hgt
  · exact absurd (hi.max j hj.lt) (not_le.mpr (hj.first i hlt))
  · exact heq
  · exact absurd (hj.max i hi.lt) (not_le.mpr (hi.first j hgt))

/-- One entry more: it takes over when it is larger than all before. -/
theorem IsFirstMax.step {row : Nat → F} {n i : Nat} (h : IsFirstMax row n i) :
    if row n > row i then IsFirstMax row (n + 1) n else IsFirstMax row (n + 1) i := by
  split
  · rename_i hgt
    have hbelow : ∀ j, j < n → row j < row n := fun j hj => (h.max j hj).trans_lt hgt
    refine ⟨Nat.lt_succ_self n, ?_, hbelow⟩
    intro j hj
    rcases Nat.lt_succ_iff_lt_or_eq.mp hj with hj | rfl
    · exact (hbelow j hj).le
    · exact le_rfl
  · rename_i hle
    refine ⟨h.lt.trans (Nat.lt_succ_self n), ?_, h.first⟩
    intro j hj
    rcases Nat.lt_succ_iff_lt_or_eq.mp hj with hj | rfl
    · exact h.max j hj
    · exact not_lt.mp hle

/-- As long as the indices fit the token, the loop ends with the first largest entry. -/
theorem greedyLoop_isFirstMax {row : Nat → F} {remaining i : Nat} {maxIdx : UInt32}
    (h : IsFirstMax row i maxIdx.toNat) (hsize : i + remaining ≤ uint32Size) :
    IsFirstMax row (i + remaining)
      (greedyLoop row remaining i (row maxIdx.toNat) maxIdx).toNat := by
  induction remaining generalizing i maxIdx with
  | zero => exact h
  | succ remaining ih =>
      have hstep := h.step
      have hsum : i + (remaining + 1) = i + 1 + remaining := by omega
      rw [hsum] at hsize ⊢
      unfold greedyLoop
      split
      · rename_i hgt
        rw [if_pos hgt] at hstep
        have hidx : (UInt32.ofNat i).toNat = i := by
          apply UInt32.toNat_ofNat_of_lt'
          have hwidth : UInt32.size = uint32Size := rfl
          omega
        have hnext := @ih (i + 1) (UInt32.ofNat i)
        rw [hidx] at hnext
        exact hnext hstep hsize
      · rename_i hle
        rw [if_neg hle] at hstep
        exact ih hstep hsize

end Scan

/-- `vocab_size`: the last dimension, and all elements for want of two dimensions. -/
def samplerVocab (shape : Shape) (numElements : Int) : Int :=
  if shape.rank = 2 then shape.dims.getD 1 0
  else if shape.rank > 2 then shape.dims.getD (shape.rank - 1) 0
  else numElements

/-- `hbi_sampler_greedy`; the contents of the memory are scalars by their addresses. -/
def hbiSamplerGreedy {F : Type} [LinearOrder F] (load : Int → F) :
    Option Tensor → Result UInt32
  | none => errSet .invalidArg ""
  | some logits => do
      let numElements ← hbiShapeElemCount logits.shape
      if numElements = 0 then errSet .invalidArg ""
      else if logits.dtype ≠ .fp32 then errSet .unsupported ""
      else if logits.data = 0 then errSet .invalidArg ""
      else
        let vocabSize := samplerVocab logits.shape numElements
        let lastRow := fun i : Nat => load (logits.data + 4 * (numElements - vocabSize + i))
        return greedyLoop lastRow (vocabSize - 1).toNat 1 (lastRow 0) 0

/-- The number of entries in a row. -/
def Tensor.lastDim (t : Tensor) : Int := t.shape.dims.getLast?.getD 0

/-- The index of an entry of the last row. -/
def Tensor.lastRowIndex (t : Tensor) (i : Nat) : List Int :=
  (t.shape.dims.map (· - 1)).dropLast ++ [(i : Int)]

/-- The entry of the last row, where the strides put it. -/
def Tensor.lastRow {F : Type} (t : Tensor) (load : Int → F) (i : Nat) : F :=
  load (t.elemAddr (t.lastRowIndex i))

/-- The entry that the sampler reads. -/
def Tensor.packedRow {F : Type} (t : Tensor) (load : Int → F) (i : Nat) : F :=
  load (t.data + 4 * (t.shape.dims.prod - t.lastDim + i))

/-- The last row lies where it would in a packed buffer, unless it has a single entry. -/
def Tensor.LastRowPacked (t : Tensor) : Prop :=
  t.lastDim = 1 ∨ t.strides.getLast?.getD 0 = 1 ∧
    Strided.offset (t.shape.dims.map (· - 1)).dropLast t.strides = t.shape.dims.prod - t.lastDim

theorem offset_concat {is ss : List Int} (hlen : is.length = ss.length) (i s : Int) :
    Strided.offset (is ++ [i]) (ss ++ [s]) = Strided.offset is ss + i * s := by
  induction is generalizing ss with
  | nil =>
      rw [List.length_eq_zero_iff.mp hlen.symm]
      simp
  | cons j is ih =>
      obtain ⟨r, ss, rfl⟩ := List.exists_cons_of_length_eq_add_one hlen.symm
      rw [List.cons_append, List.cons_append, Strided.offset_cons, Strided.offset_cons,
        ih (by simpa using hlen), add_assoc]

/-- Axes beyond the index do not count. -/
theorem offset_append_of_length {is ss : List Int} (hlen : is.length = ss.length)
    (rest : List Int) : Strided.offset is (ss ++ rest) = Strided.offset is ss := by
  induction is generalizing ss with
  | nil => simp
  | cons j is ih =>
      obtain ⟨r, ss, rfl⟩ := List.exists_cons_of_length_eq_add_one hlen.symm
      rw [List.cons_append, Strided.offset_cons, Strided.offset_cons, ih (by simpa using hlen)]

section Row

variable {F : Type} [LinearOrder F] {t : Tensor} (ht : t.Valid) (hdtype : t.dtype = .fp32)
  (hrank : 1 ≤ t.shape.rank)

include ht hrank

/-- The axes before the last one, and the last one. -/
theorem Tensor.Valid.lastAxis : ∃ ds v ss s, t.shape.dims = ds ++ [v] ∧ t.strides = ss ++ [s] ∧
    ds.length = ss.length := by
  have hdims : t.shape.dims ≠ [] := by
    intro hnil
    unfold Shape.rank at hrank
    rw [hnil] at hrank
    exact absurd hrank (by decide)
  have hlen := ht.laid.strides_len
  have hstrides : t.strides ≠ [] := by
    intro hnil
    rw [hnil] at hlen
    have hzero : t.shape.rank = 0 := hlen.symm
    omega
  refine ⟨_, _, _, _, (List.dropLast_append_getLast hdims).symm,
    (List.dropLast_append_getLast hstrides).symm, ?_⟩
  rw [List.length_dropLast, List.length_dropLast]
  exact congrArg (· - 1) hlen.symm

theorem Tensor.Valid.lastDim_pos : 0 < t.lastDim := by
  obtain ⟨ds, v, ss, s, hdims, -, -⟩ := ht.lastAxis hrank
  have hv := ht.laid.shape_valid.dims_pos v (by simp [hdims])
  simpa [Tensor.lastDim, hdims] using hv

/-- The number of columns that the sampler uses. -/
theorem Tensor.Valid.samplerVocab_eq :
    samplerVocab t.shape t.shape.dims.prod = t.lastDim := by
  obtain ⟨ds, v, ss, s, hdims, -, -⟩ := ht.lastAxis hrank
  have hlen : t.shape.rank = ds.length + 1 := by simp [Shape.rank, hdims]
  unfold samplerVocab Tensor.lastDim
  rw [hlen, hdims]
  rcases ds with _ | ⟨d, _ | ⟨e, ds⟩⟩
  · simp
  · simp
  · have hlast : (d :: e :: ds ++ [v]).getLast?.getD 0 = v := by
      rw [List.getLast?_concat, Option.getD_some]
    rw [hlast]
    simp

include hdtype

/-- Where the strides put an entry of the last row. -/
theorem Tensor.Valid.lastRow_addr (i : Nat) : t.elemAddr (t.lastRowIndex i) = t.data +
    4 * (Strided.offset (t.shape.dims.map (· - 1)).dropLast t.strides +
      i * t.strides.getLast?.getD 0) := by
  obtain ⟨ds, v, ss, s, hdims, hstrides, hlen⟩ := ht.lastAxis hrank
  have hmap : (ds.map (· - 1)).length = ss.length := by rw [List.length_map, hlen]
  have hdrop : (t.shape.dims.map (· - 1)).dropLast = ds.map (· - 1) := by
    rw [hdims, List.map_append]
    exact List.dropLast_concat
  unfold Tensor.elemAddr Tensor.lastRowIndex elemByteOffset
  rw [hdrop, hstrides, offset_concat hmap, offset_append_of_length hmap, hdtype]
  have hbits : ((hbiDtypeBits .fp32 : Nat) : Int) = 4 * 8 := rfl
  rw [hbits, ← mul_assoc, Int.mul_tdiv_cancel _ (by decide)]
  simp only [List.getLast?_concat, Option.getD_some]
  ring

/-- What the sampler returns: the first largest entry of the row that ends the buffer. -/
theorem Tensor.Valid.greedy_isFirstMax (hsize : t.lastDim ≤ uint32Size) (load : Int → F) :
    ∃ idx, hbiSamplerGreedy load (some t) = .ok idx ∧
      IsFirstMax (t.packedRow load) t.lastDim.toNat idx.toNat := by
  have hprod := ht.laid.shape_valid.prod_pos
  have hpos := ht.lastDim_pos hrank
  have hresult : hbiSamplerGreedy load (some t) =
      .ok (greedyLoop (t.packedRow load) (t.lastDim - 1).toNat 1 (t.packedRow load 0) 0) := by
    unfold hbiSamplerGreedy
    simp only [ht.laid.shape_valid.elemCount, bind, Except.bind, ht.samplerVocab_eq hrank]
    rw [if_neg hprod.ne', if_neg (by simp [hdtype]), if_neg ht.data_ne]
    rfl
  have hfirst : IsFirstMax (t.packedRow load) 1 (0 : UInt32).toNat := by
    refine ⟨Nat.one_pos, ?_, ?_⟩
    · intro j hj
      obtain rfl : j = 0 := by omega
      exact le_rfl
    · intro j hj
      cases hj
  have hwidth : 1 + (t.lastDim - 1).toNat ≤ uint32Size := by
    unfold uint32Size at *
    omega
  have hloop := greedyLoop_isFirstMax hfirst hwidth
  have hall : 1 + (t.lastDim - 1).toNat = t.lastDim.toNat := by omega
  rw [hall] at hloop
  exact ⟨_, hresult, hloop⟩

end Row

/-- Where the two rows are the same, entry by entry. -/
theorem Tensor.Valid.rows_eq {F : Type} {t : Tensor} (ht : t.Valid) (hdtype : t.dtype = .fp32)
    (hrank : 1 ≤ t.shape.rank) (h : t.strides.getLast?.getD 0 = 1 ∧
      Strided.offset (t.shape.dims.map (· - 1)).dropLast t.strides =
        t.shape.dims.prod - t.lastDim) (load : Int → F) : t.lastRow load = t.packedRow load := by
  funext i
  unfold Tensor.lastRow Tensor.packedRow
  rw [ht.lastRow_addr hdtype hrank, h.1, h.2, mul_one]

/-- Contents that tell two rows apart: the entry that one of them has at a different place is the
only large one, or the only small one. -/
theorem exists_rows_differ {F : Type} [LinearOrder F] [Nontrivial F] {p q : Nat → Int}
    (hp : p 0 ≠ p 1) (h : p 0 ≠ q 0 ∨ p 1 ≠ q 1) :
    ∃ load : Int → F, (∀ a, load a ≤ load (p 1)) ∧ load (p 0) < load (p 1) ∧
      ¬ load (q 0) < load (q 1) := by
  obtain ⟨lo, hi, hlt⟩ : ∃ lo hi : F, lo < hi := by
    obtain ⟨x, y, hne⟩ := exists_pair_ne F
    rcases lt_or_gt_of_ne hne with hlt | hgt
    · exact ⟨x, y, hlt⟩
    · exact ⟨y, x, hgt⟩
  by_cases h₁ : p 1 = q 1
  · have h₀ : p 0 ≠ q 0 := h.resolve_right fun hne => hne h₁
    have hle : ∀ a, (if a = p 0 then lo else hi) ≤ hi := by
      intro a
      split
      · exact hlt.le
      · exact le_rfl
    refine ⟨fun a => if a = p 0 then lo else hi, ?_, ?_, ?_⟩
    · simpa [hp.symm] using hle
    · simpa [hp.symm] using hlt
    · simpa [h₀.symm] using hle (q 1)
  · have hq : q 1 ≠ p 1 := fun heq => h₁ heq.symm
    have hle : ∀ a, (if a = p 1 then hi else lo) ≤ hi := by
      intro a
      split
      · exact le_rfl
      · exact hlt.le
    refine ⟨fun a => if a = p 1 then hi else lo, ?_, ?_, ?_⟩
    · simpa using hle
    · simpa [hp] using hlt
    · simp only [hq, if_false, not_lt]
      split
      · exact hlt.le
      · exact le_rfl

/-- For every valid tensor of single-precision scalars, whichever linear order they have: the
sampler finds the first largest entry of the last row, for all contents, exactly when that row
has a single entry or lies as in a packed buffer. -/
theorem hbi_sampler_greedy_argmax_iff {F : Type} [LinearOrder F] [Nontrivial F] {t : Tensor}
    (hvalid : hbiTensorValidate t = .ok ()) (hdtype : t.dtype = .fp32)
    (hrank : 1 ≤ t.shape.rank) (hsize : t.lastDim ≤ uint32Size) :
    (∀ load : Int → F, ∃ idx, hbiSamplerGreedy load (some t) = .ok idx ∧
      IsFirstMax (t.lastRow load) t.lastDim.toNat idx.toNat) ↔ t.LastRowPacked := by
  have ht := Tensor.valid_of_validate hvalid
  have hpos := ht.lastDim_pos hrank
  constructor
  · intro hall
    by_contra hnot
    unfold Tensor.LastRowPacked at hnot
    rw [not_or] at hnot
    obtain ⟨hone, hplace⟩ := hnot
    have hp : t.data + 4 * (t.shape.dims.prod - t.lastDim + ((0 : Nat) : Int)) ≠
        t.data + 4 * (t.shape.dims.prod - t.lastDim + ((1 : Nat) : Int)) := by
      push_cast
      omega
    have hdiff : t.data + 4 * (t.shape.dims.prod - t.lastDim + ((0 : Nat) : Int)) ≠
          t.elemAddr (t.lastRowIndex 0) ∨
        t.data + 4 * (t.shape.dims.prod - t.lastDim + ((1 : Nat) : Int)) ≠
          t.elemAddr (t.lastRowIndex 1) := by
      by_contra hsame
      rw [not_or, not_not, not_not] at hsame
      apply hplace
      rw [ht.lastRow_addr hdtype hrank, ht.lastRow_addr hdtype hrank] at hsame
      push_cast at hsame
      constructor <;> omega
    obtain ⟨load, hmax, hlt, hnot⟩ := @exists_rows_differ F _ _
      (fun i => t.data + 4 * (t.shape.dims.prod - t.lastDim + (i : Int)))
      (fun i => t.elemAddr (t.lastRowIndex i)) hp hdiff
    have hcode : IsFirstMax (t.packedRow load) t.lastDim.toNat 1 := by
      refine ⟨by omega, fun j _ => hmax _, ?_⟩
      intro j hj
      obtain rfl : j = 0 := by omega
      exact hlt
    obtain ⟨idx, hok, hlast⟩ := hall load
    obtain ⟨idx', hok', hpacked⟩ := ht.greedy_isFirstMax hdtype hrank hsize load
    rw [hok] at hok'
    cases hok'
    rw [hpacked.unique hcode] at hlast
    exact hnot (hlast.first 0 Nat.one_pos)
  · rintro (hone | hplace) load
    · obtain ⟨idx, hok, hmax⟩ := ht.greedy_isFirstMax hdtype hrank hsize load
      have hzero : idx.toNat = 0 := by
        have := hmax.lt
        omega
      refine ⟨idx, hok, ?_, ?_, ?_⟩
      · exact hmax.lt
      · intro j hj
        obtain rfl : j = 0 := by omega
        rw [hzero]
      · intro j hj
        omega
    · rw [ht.rows_eq hdtype hrank hplace]
      exact ht.greedy_isFirstMax hdtype hrank hsize load

/-- A row of three scalars. -/
def threeScalars : Tensor where
  dtype := .fp32
  shape := ⟨[3]⟩
  strides := [1]
  data := 64
  nbytes := 12
  align := 64
  ownership := .owned
  device := .cpu
  readOnly := false
  contiguous := true
  quant := QuantMeta.zero

/-- The scalars 0, 5, 0, 3 from the start of the buffer. -/
def pairContents : Int → Int
  | 68 => 5
  | 76 => 3
  | _ => 0

theorem hbi_sampler_greedy_argmax_three :
    ∃ idx, hbiSamplerGreedy pairContents (some threeScalars) = .ok idx ∧
      IsFirstMax (threeScalars.lastRow pairContents) 3 idx.toNat :=
  (hbi_sampler_greedy_argmax_iff (by decide) rfl (by decide) (by decide)).mpr
    (Or.inr ⟨rfl, rfl⟩) pairContents

/-- The transpose of two rows of two: its last row is their last column. -/
def transposedPair : Tensor :=
  { threeScalars with
    shape := ⟨[2, 2]⟩, strides := [1, 2], nbytes := 16, ownership := .view, contiguous := false }

/-- The last row of the transpose is 5, 3, and the sampler reads 0, 3. -/
theorem hbi_sampler_greedy_skips_strides :
    (∃ root, hbiTensorAlloc .fp32 ⟨[2, 2]⟩ (some (.line 0)) = .ok root ∧
      hbiTensorTranspose root 0 1 = .ok transposedPair) ∧
    hbiTensorValidate transposedPair = .ok () ∧ transposedPair.lastDim = 2 ∧
    transposedPair.lastRow pairContents 0 = 5 ∧ transposedPair.lastRow pairContents 1 = 3 ∧
    hbiSamplerGreedy pairContents (some transposedPair) = .ok 1 ∧
    ¬ ∃ idx, hbiSamplerGreedy pairContents (some transposedPair) = .ok idx ∧
      IsFirstMax (transposedPair.lastRow pairContents) 2 idx.toNat := by
  have hcode : hbiSamplerGreedy pairContents (some transposedPair) = .ok 1 := by decide
  refine ⟨⟨_, rfl, by decide⟩, by decide, by decide, by decide, by decide, hcode, ?_⟩
  rintro ⟨idx, hok, hmax⟩
  rw [hcode] at hok
  cases hok
  have hlt := hmax.first 0 (by decide)
  revert hlt
  decide

end Hummingbird

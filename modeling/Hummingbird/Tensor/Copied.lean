import Hummingbird.Foundation.Moves
import Hummingbird.Tensor.Copy
import Hummingbird.Tensor.Valid

/-!
Copies bring over every element. The odometer steps through the indices in row-major
order, so the strided copy is a run of block moves numbered by row-major rank; the block
move of the contiguous path is the same run when both strides are row-major.
-/

namespace Hummingbird

/-- One turn of the odometer is one step in row-major rank. -/
theorem odometerStep_unravel {dims : List Int} (hpos : ∀ d ∈ dims, 0 < d) {n : Int}
    (h0 : 0 ≤ n) (hn : n < dims.prod) :
    odometerStep dims (Strided.unravel dims n) =
      (decide (n + 1 = dims.prod), Strided.unravel dims ((n + 1) % dims.prod)) := by
  induction dims generalizing n with
  | nil =>
      rw [List.prod_nil] at hn
      obtain rfl : n = 0 := by omega
      rfl
  | cons d ds ih =>
      have hd : 0 < d := hpos d (by simp)
      have hrest : ∀ e ∈ ds, 0 < e := fun e he => hpos e (by simp [he])
      have hprod := Strided.prod_pos hrest
      have hlo := Int.emod_nonneg n hprod.ne'
      have hhi := Int.emod_lt_of_pos n hprod
      have hsplit := Int.mul_ediv_add_emod n ds.prod
      have hq : n / ds.prod < d := by
        rw [List.prod_cons] at hn
        exact Int.ediv_lt_of_lt_mul hprod hn
      have hq0 : 0 ≤ n / ds.prod := Int.ediv_nonneg h0 hprod.le
      rw [Strided.unravel, odometerStep, ih hrest hlo hhi, List.prod_cons]
      generalize n / ds.prod = q at *
      generalize n % ds.prod = r at *
      by_cases hcarry : r + 1 = ds.prod
      · have hnext : n + 1 = ds.prod * (q + 1) := by
          rw [← hsplit, mul_add, mul_one, add_assoc, hcarry]
        by_cases hlast : q + 1 = d
        · have hwhole : n + 1 = d * ds.prod := by
            rw [hnext, hlast, mul_comm]
          simp [hcarry, hlast, hwhole, Strided.unravel]
        · have hlt : q + 1 < d := by omega
          have hne : n + 1 ≠ d * ds.prod := by
            rw [hnext, mul_comm]
            exact fun h => hlast (mul_right_cancel₀ hprod.ne' h)
          have hmod : (n + 1) % (d * ds.prod) = n + 1 := by
            apply Int.emod_eq_of_lt (by omega)
            rw [List.prod_cons] at hn
            omega
          have hdiv : (n + 1) / ds.prod = q + 1 := by
            rw [hnext, Int.mul_ediv_cancel_left _ hprod.ne']
          have hzero : (n + 1) % ds.prod = 0 := by
            rw [hnext, Int.mul_emod_right]
          simp [hcarry, hlt, hne, hmod, Strided.unravel, hdiv, hzero]
      · have hdiv : (n + 1) / ds.prod = q := by
          rw [← hsplit, add_assoc, add_comm, Int.add_mul_ediv_left _ _ hprod.ne',
            Int.ediv_eq_zero_of_lt (by omega) (by omega), zero_add]
        have hmod : (n + 1) % ds.prod = r + 1 := by
          rw [← hsplit, add_assoc, Int.mul_add_emod_self_left]
          exact Int.emod_eq_of_lt (by omega) (by omega)
        have hlt : n + 1 < d * ds.prod := by
          have hle : ds.prod * q + ds.prod ≤ ds.prod * d := by
            rw [← mul_add_one]
            exact mul_le_mul_of_nonneg_left (by omega) hprod.le
          rw [mul_comm d]
          omega
        have hwhole : (n + 1) % (d * ds.prod) = n + 1 :=
          Int.emod_eq_of_lt (by omega) hlt
        simp [hcarry, hlt.ne, hwhole, Strided.unravel, hdiv, hmod,
          Int.emod_eq_of_lt (show 0 ≤ r + 1 by omega) (show r + 1 < ds.prod by omega)]

/-- The block an index occupies, as the strided copy moves it. -/
def copyMove (src dst : Tensor) (k : Nat) : Moves.Move where
  dst := dst.elemAddr (Strided.unravel src.shape.dims k)
  src := src.elemAddr (Strided.unravel src.shape.dims k)

theorem stridedCopyLoop_eq {src dst : Tensor} {n k : Nat} {m : Memory}
    (hpos : ∀ d ∈ src.shape.dims, 0 < d) {elemBytes : Nat}
    (hsrc : hbiDtypeBits src.dtype = elemBytes * 8) (hdst : hbiDtypeBits dst.dtype = elemBytes * 8)
    (hle : ((n + k : Nat) : Int) ≤ src.shape.dims.prod) :
    stridedCopyLoop src dst elemBytes k (Strided.unravel src.shape.dims n)
        (Moves.run elemBytes (copyMove src dst) n m) =
      Moves.run elemBytes (copyMove src dst) (n + k) m := by
  induction k generalizing n with
  | zero => rfl
  | succ k ih =>
      have hn : (n : Int) < src.shape.dims.prod := by omega
      have hmove : memcpy (Moves.run elemBytes (copyMove src dst) n m)
          (dst.data + elemByteOffset dst.strides (Strided.unravel src.shape.dims n)
            (elemBytes * 8))
          (src.data + elemByteOffset src.strides (Strided.unravel src.shape.dims n)
            (elemBytes * 8)) elemBytes =
          Moves.run elemBytes (copyMove src dst) (n + 1) m := by
        simp only [Moves.run, copyMove, Tensor.elemAddr, hsrc, hdst]
        rfl
      simp only [stridedCopyLoop]
      rw [hmove, odometerStep_unravel hpos (by omega) hn]
      cases k with
      | zero => rfl
      | succ k =>
          have hmod : ((n : Int) + 1) % src.shape.dims.prod = ((n + 1 : Nat) : Int) := by
            rw [Int.emod_eq_of_lt (by omega) (by omega)]
            push_cast
            rfl
          rw [hmod, ih (by omega)]
          congr 1
          omega

/-- The strided copy is the run of one move for every index, in row-major order. -/
theorem stridedCopyBytes_eq {src dst : Tensor} {m : Memory} (hvalid : src.shape.Valid)
    {elemBytes : Nat} (hsrc : hbiDtypeBits src.dtype = elemBytes * 8)
    (hdst : hbiDtypeBits dst.dtype = elemBytes * 8) :
    stridedCopyBytes m src dst elemBytes =
      Moves.run elemBytes (copyMove src dst) src.shape.dims.prod.toNat m := by
  have hpos := hvalid.prod_pos
  have h := @stridedCopyLoop_eq src dst 0 src.shape.dims.prod.toNat m hvalid.dims_pos elemBytes
    hsrc hdst (by omega)
  rw [Nat.zero_add, Nat.cast_zero, Strided.unravel_zero] at h
  exact h

/-- The bytes of the element at an index. -/
def Tensor.Holds (t : Tensor) (idx : List Int) (a : Int) : Prop :=
  t.elemAddr idx ≤ a ∧ a < t.elemAddr idx + (hbiDtypeBits t.dtype / 8 : Nat)

instance (t : Tensor) (idx : List Int) (a : Int) : Decidable (t.Holds idx a) :=
  inferInstanceAs (Decidable (_ ∧ _))

/-- The last index, in row-major order, that a tensor keeps in the place of another one. -/
structure Tensor.LastAt (t : Tensor) (idx last : List Int) : Prop where
  inBounds : Strided.InBounds t.shape.dims last
  addr_eq : t.elemAddr last = t.elemAddr idx
  latest : ∀ other, Strided.InBounds t.shape.dims other → t.elemAddr other = t.elemAddr idx →
    Strided.linear t.shape.dims other ≤ Strided.linear t.shape.dims last

/-- What a copy leaves behind: every element is the source's at the last index kept in its
place, and no other byte has changed. -/
structure Tensor.CopiedFrom (dst src : Tensor) (m m' : Memory) : Prop where
  elem_eq : ∀ idx, Strided.InBounds dst.shape.dims idx →
    ∃ last, dst.LastAt idx last ∧ dst.elem m' idx = src.elem m last
  frame : ∀ a, (∀ idx, Strided.InBounds dst.shape.dims idx → ¬ dst.Holds idx a) → m' a = m a

section Bytes

variable {t u : Tensor} {n : Nat} (hn : hbiDtypeBits t.dtype = 8 * n)

include hn

theorem Tensor.elemAddr_eq_mul (idx : List Int) :
    t.elemAddr idx = t.data + Strided.offset idx t.strides * n := by
  unfold Tensor.elemAddr elemByteOffset
  rw [hn, show Strided.offset idx t.strides * ((8 * n : Nat) : Int) =
    Strided.offset idx t.strides * n * 8 by push_cast; ring, Int.mul_tdiv_cancel _ (by norm_num)]

theorem Tensor.holds_iff {idx : List Int} {a : Int} :
    t.Holds idx a ↔ t.elemAddr idx ≤ a ∧ a < t.elemAddr idx + n := by
  unfold Tensor.Holds
  rw [hn, Nat.mul_div_cancel_left _ (by norm_num)]

/-- Elements of whole bytes share all their bytes or none. -/
theorem Tensor.Holds.addr_eq {idx idx' : List Int} {a : Int}
    (h : t.Holds idx a) (h' : t.Holds idx' a) : t.elemAddr idx = t.elemAddr idx' := by
  rw [Tensor.holds_iff hn] at h h'
  rw [Tensor.elemAddr_eq_mul hn] at h h'
  rw [Tensor.elemAddr_eq_mul hn idx, Tensor.elemAddr_eq_mul hn idx']
  have hoff : Strided.offset idx t.strides = Strided.offset idx' t.strides := by
    by_contra hne
    rcases lt_or_gt_of_ne hne with hlt | hlt
    · have := mul_le_mul_of_nonneg_right (Int.add_one_le_iff.mpr hlt) (Int.natCast_nonneg n)
      rw [add_mul, one_mul] at this
      omega
    · have := mul_le_mul_of_nonneg_right (Int.add_one_le_iff.mpr hlt) (Int.natCast_nonneg n)
      rw [add_mul, one_mul] at this
      omega
  rw [hoff]

theorem Tensor.bit_eq (m : Memory) (idx : List Int) (k : Nat) :
    t.bitAt m (Strided.offset idx t.strides * hbiDtypeBits t.dtype + (k : Int)) =
      (m (t.elemAddr idx + (k / 8 : Nat))).toNat.testBit (k % 8) := by
  have hsplit : Strided.offset idx t.strides * ((8 * n : Nat) : Int) + (k : Int) =
      (k : Int) + 8 * (Strided.offset idx t.strides * n) := by
    push_cast
    ring
  unfold Tensor.bitAt
  rw [hn, hsplit, Int.add_mul_ediv_left _ _ (by norm_num), Int.add_mul_emod_self_left,
    Tensor.elemAddr_eq_mul hn]
  congr 3
  · push_cast
    ring

/-- Elements agree when their bytes do. -/
theorem Tensor.elem_congr (hu : hbiDtypeBits u.dtype = 8 * n) {m m' : Memory}
    {idx idx' : List Int}
    (h : ∀ j < n, m' (t.elemAddr idx + (j : Nat)) = m (u.elemAddr idx' + (j : Nat))) :
    t.elem m' idx = u.elem m idx' := by
  unfold Tensor.elem
  rw [hn, hu]
  apply List.map_congr_left
  intro k hk
  have hlt : k / 8 < n := by
    have := List.mem_range.mp hk
    omega
  have ht := Tensor.bit_eq hn m' idx k
  have hu' := Tensor.bit_eq hu m idx' k
  rw [hn] at ht
  rw [hu] at hu'
  rw [ht, hu', h _ hlt]

end Bytes

/-- The elements of a valid tensor lie in its buffer. -/
theorem Tensor.Valid.covers_of_holds {t : Tensor} (h : t.Valid) {n : Nat}
    (hn : hbiDtypeBits t.dtype = 8 * n) {idx : List Int}
    (hidx : Strided.InBounds t.shape.dims idx) {a : Int} (ha : t.Holds idx a) : t.Covers a := by
  have hlo := Strided.offset_nonneg hidx h.laid.strides_nonneg
  have hhi := Strided.offset_le_extent hidx h.laid.strides_nonneg
  have hspan := h.span_le
  rw [hn] at hspan
  have hmul : (Strided.offset idx t.strides + 1) * (n : Int) ≤
      (Strided.extent t.shape.dims t.strides + 1) * n :=
    mul_le_mul_of_nonneg_right (by omega) (Int.natCast_nonneg n)
  have hnonneg := mul_nonneg hlo (Int.natCast_nonneg n)
  have hbytes : (Strided.extent t.shape.dims t.strides + 1) * ((8 * n : Nat) : Int) =
      8 * ((Strided.extent t.shape.dims t.strides + 1) * n) := by
    push_cast
    ring
  rw [hbytes] at hspan
  rw [Tensor.holds_iff hn, Tensor.elemAddr_eq_mul hn] at ha
  rw [add_mul, one_mul] at hmul
  exact ⟨by omega, by omega⟩

section Strided

variable {src dst : Tensor} {m : Memory} {n : Nat} (hsrc : src.Valid) (hdst : dst.Valid)
  (hn : hbiDtypeBits src.dtype = 8 * n) (hdtype : dst.dtype = src.dtype)
  (hshape : dst.shape = src.shape) (hapart : src.Apart dst)

include hsrc in
/-- A rank below the element count names an index. -/
theorem copyMove_inBounds {k : Nat} (hk : k < src.shape.dims.prod.toNat) :
    Strided.InBounds src.shape.dims (Strided.unravel src.shape.dims k) := by
  have := hsrc.laid.shape_valid.prod_pos
  exact Strided.unravel_inBounds hsrc.laid.shape_valid.dims_pos (by omega) (by omega)

include hn in
theorem copyMove_reads {k : Nat} {a : Int} (h : (copyMove src dst k).Reads n a) :
    src.Holds (Strided.unravel src.shape.dims k) a := (Tensor.holds_iff hn).mpr h

include hn hdtype in
theorem copyMove_covers {k : Nat} {a : Int} :
    (copyMove src dst k).Covers n a ↔ dst.Holds (Strided.unravel src.shape.dims k) a :=
  (Tensor.holds_iff (hdtype ▸ hn)).symm

include hsrc hdst hn hdtype hshape hapart in
theorem copyMove_apart : Moves.Apart n (copyMove src dst) src.shape.dims.prod.toNat := by
  intro i hi j hj a hreads hcovers
  have hread := hsrc.covers_of_holds hn (copyMove_inBounds hsrc hi) (copyMove_reads hn hreads)
  have hwrite := hdst.covers_of_holds (hdtype ▸ hn)
    (hshape ▸ copyMove_inBounds hsrc hj) ((copyMove_covers hn hdtype).mp hcovers)
  exact hapart a ⟨hread, hwrite⟩

include hsrc hdst hn hdtype hshape hapart in
/-- An element ends up as the source's at the last index whose move covers it. -/
theorem run_elem_eq {idx : List Int} {i : Nat} (hi : i < src.shape.dims.prod.toNat)
    (haddr : dst.elemAddr (Strided.unravel src.shape.dims i) = dst.elemAddr idx)
    (hlast : ∀ j, i < j → j < src.shape.dims.prod.toNat →
      dst.elemAddr (Strided.unravel src.shape.dims j) ≠ dst.elemAddr idx) :
    dst.elem (Moves.run n (copyMove src dst) src.shape.dims.prod.toNat m) idx =
      src.elem m (Strided.unravel src.shape.dims i) := by
  have hnd : hbiDtypeBits dst.dtype = 8 * n := hdtype ▸ hn
  apply Tensor.elem_congr hnd hn
  intro j hj
  have hinside : (copyMove src dst i).Covers n (dst.elemAddr idx + (j : Nat)) := by
    rw [copyMove_covers hn hdtype, Tensor.holds_iff hnd, haddr]
    exact ⟨by omega, by omega⟩
  have hlast' : ∀ l, i < l → l < src.shape.dims.prod.toNat →
      ¬ (copyMove src dst l).Covers n (dst.elemAddr idx + (j : Nat)) := by
    intro l hil hl hcovers
    have hholds := (copyMove_covers hn hdtype).mp hcovers
    have hself : dst.Holds idx (dst.elemAddr idx + (j : Nat)) :=
      (Tensor.holds_iff hnd).mpr ⟨by omega, by omega⟩
    exact hlast l hil hl (hholds.addr_eq hnd hself)
  rw [Moves.run_of_last (copyMove_apart hsrc hdst hn hdtype hshape hapart) hi hinside hlast']
  congr 1
  simp only [copyMove]
  omega

include hsrc hdst hn hdtype hshape hapart in
/-- The run of all moves copies every element. -/
theorem copiedFrom_run (hpos : 0 < n) :
    dst.CopiedFrom src m (Moves.run n (copyMove src dst) src.shape.dims.prod.toNat m) := by
  have hnd : hbiDtypeBits dst.dtype = 8 * n := hdtype ▸ hn
  have hfirst : ∀ idx, dst.Holds idx (dst.elemAddr idx) := fun idx =>
    (Tensor.holds_iff hnd).mpr ⟨le_rfl, by omega⟩
  refine ⟨?_, ?_⟩
  · intro idx hidx
    rw [hshape] at hidx
    obtain ⟨k, hk, hkidx, -⟩ := Strided.exists_rank hidx
    rcases Moves.exists_last (n := n) (copyMove src dst) src.shape.dims.prod.toNat
        (dst.elemAddr idx) with hnone | ⟨i, hi, hcovers, hlast⟩
    · refine absurd ((copyMove_covers hn hdtype).mpr ?_) (hnone k hk)
      rw [hkidx]
      exact hfirst idx
    · have haddr := ((copyMove_covers hn hdtype).mp hcovers).addr_eq hnd (hfirst idx)
      have hlater : ∀ j, i < j → j < src.shape.dims.prod.toNat →
          dst.elemAddr (Strided.unravel src.shape.dims j) ≠ dst.elemAddr idx := by
        intro j hij hj hsame
        refine hlast j hij hj ((copyMove_covers hn hdtype).mpr ?_)
        rw [← hsame]
        exact hfirst _
      refine ⟨Strided.unravel src.shape.dims i, ⟨?_, haddr, ?_⟩,
        run_elem_eq hsrc hdst hn hdtype hshape hapart hi haddr hlater⟩
      · rw [hshape]
        exact copyMove_inBounds hsrc hi
      · intro other hother hsame
        rw [hshape] at hother ⊢
        obtain ⟨j, hj, hjidx, hjrank⟩ := Strided.exists_rank hother
        rw [← hjrank, Strided.linear_unravel hsrc.laid.shape_valid.dims_pos (by omega) (by omega)]
        by_contra hlt
        exact hlater j (by omega) hj (by rw [hjidx, hsame])
  · intro a ha
    apply Moves.run_of_not_covers
    intro i hi hcovers
    refine ha _ ?_ ((copyMove_covers hn hdtype).mp hcovers)
    rw [hshape]
    exact copyMove_inBounds hsrc hi

end Strided

section RowMajor

variable {t : Tensor} {n : Nat} (hn : hbiDtypeBits t.dtype = 8 * n)
  (hstrides : t.strides = Strided.rowMajor t.shape.dims)

include hn hstrides

/-- A row-major layout keeps its elements in the order of their ranks. -/
theorem Tensor.elemAddr_rowMajor (idx : List Int) :
    t.elemAddr idx = t.data + Strided.linear t.shape.dims idx * n := by
  rw [Tensor.elemAddr_eq_mul hn, hstrides]
  rfl

theorem Tensor.elemAddr_unravel (hvalid : t.shape.Valid) {k : Nat}
    (hk : k < t.shape.dims.prod.toNat) :
    t.elemAddr (Strided.unravel t.shape.dims k) = t.data + k * n := by
  rw [Tensor.elemAddr_rowMajor hn hstrides,
    Strided.linear_unravel hvalid.dims_pos (by omega) (by omega)]

theorem Tensor.elemAddr_injOn (hpos : 0 < n) {idx idx' : List Int}
    (h : Strided.InBounds t.shape.dims idx) (h' : Strided.InBounds t.shape.dims idx')
    (heq : t.elemAddr idx = t.elemAddr idx') : idx = idx' := by
  rw [Tensor.elemAddr_rowMajor hn hstrides idx, Tensor.elemAddr_rowMajor hn hstrides idx'] at heq
  have hmul : Strided.linear t.shape.dims idx * (n : Int) =
      Strided.linear t.shape.dims idx' * n := by omega
  exact Strided.linear_injOn h h' (mul_right_cancel₀ (by omega) hmul)

/-- The elements fill the packed block. -/
theorem Tensor.exists_holds (hvalid : t.shape.Valid) (hpos : 0 < n) {a : Int}
    (hlo : t.data ≤ a) (hhi : a < t.data + t.shape.dims.prod * n) :
    ∃ k < t.shape.dims.prod.toNat, t.Holds (Strided.unravel t.shape.dims k) a := by
  have hn0 : (0 : Int) < n := Int.natCast_pos.mpr hpos
  have hq0 : 0 ≤ (a - t.data) / n := Int.ediv_nonneg (by omega) hn0.le
  have hq : (a - t.data) / n < t.shape.dims.prod := Int.ediv_lt_of_lt_mul hn0 (by omega)
  have hsplit := Int.mul_ediv_add_emod (a - t.data) n
  have hr0 := Int.emod_nonneg (a - t.data) hn0.ne'
  have hr := Int.emod_lt_of_pos (a - t.data) hn0
  have hk : ((a - t.data) / n).toNat < t.shape.dims.prod.toNat := by omega
  refine ⟨_, hk, ?_⟩
  rw [Tensor.holds_iff hn, Tensor.elemAddr_unravel hn hstrides hvalid hk,
    Int.toNat_of_nonneg hq0, mul_comm _ (n : Int)]
  exact ⟨by omega, by omega⟩

end RowMajor

/-- With row-major strides on both sides, the run of all moves is one block move. -/
theorem memcpy_eq_run {src dst : Tensor} {m : Memory} {n bytes : Nat} (hsrc : src.Valid)
    (hdst : dst.Valid) (hn : hbiDtypeBits src.dtype = 8 * n) (hpos : 0 < n)
    (hdtype : dst.dtype = src.dtype) (hshape : dst.shape = src.shape) (hapart : src.Apart dst)
    (hsrow : src.strides = Strided.rowMajor src.shape.dims)
    (hdrow : dst.strides = Strided.rowMajor dst.shape.dims)
    (hbytes : (bytes : Int) = src.shape.dims.prod * n) :
    memcpy m dst.data src.data bytes =
      Moves.run n (copyMove src dst) src.shape.dims.prod.toNat m := by
  have hnd : hbiDtypeBits dst.dtype = 8 * n := hdtype ▸ hn
  have hvalid := hsrc.laid.shape_valid
  funext a
  by_cases hin : dst.data ≤ a ∧ a < dst.data + bytes
  · obtain ⟨k, hk, hholds⟩ := Tensor.exists_holds hnd hdrow hdst.laid.shape_valid hpos hin.1
      (by rw [hshape]; omega)
    rw [hshape] at hk hholds
    have hcovers := (copyMove_covers hn hdtype).mpr hholds
    have hsaddr := Tensor.elemAddr_unravel hn hsrow hvalid hk
    have hdaddr := Tensor.elemAddr_unravel hnd hdrow hdst.laid.shape_valid (hshape ▸ hk)
    rw [hshape] at hdaddr
    have hlast : ∀ j, k < j → j < src.shape.dims.prod.toNat →
        ¬ (copyMove src dst j).Covers n a := by
      intro j hkj hj hcov
      have hsame := ((copyMove_covers hn hdtype).mp hcov).addr_eq hnd hholds
      have hjaddr := Tensor.elemAddr_unravel hnd hdrow hdst.laid.shape_valid (hshape ▸ hj)
      rw [hshape] at hjaddr
      rw [hjaddr, hdaddr] at hsame
      have hmul : (j : Int) * n = k * n := by omega
      have := mul_right_cancel₀ (show (n : Int) ≠ 0 by omega) hmul
      omega
    rw [memcpy_inside hin.1 hin.2, Moves.run_of_last
      (copyMove_apart hsrc hdst hn hdtype hshape hapart) hk hcovers hlast]
    congr 1
    simp only [copyMove, hsaddr, hdaddr]
    omega
  · rw [memcpy_outside hin, Moves.run_of_not_covers]
    intro i hi hcovers
    have hholds := (copyMove_covers hn hdtype).mp hcovers
    rw [Tensor.holds_iff hnd, ← hshape,
      Tensor.elemAddr_unravel hnd hdrow hdst.laid.shape_valid (hshape ▸ hi)] at hholds
    have hle : ((i : Int) + 1) * n ≤ src.shape.dims.prod * n :=
      mul_le_mul_of_nonneg_right (by omega) (Int.natCast_nonneg n)
    rw [add_mul, one_mul] at hle
    have hi0 := mul_nonneg (Int.natCast_nonneg i) (Int.natCast_nonneg n)
    exact hin ⟨by omega, by omega⟩

/-- A tensor that was freshly allocated is valid, and its elements fill its buffer. -/
theorem tensorAllocImpl_valid {dt : Dtype} {shape : Shape} {alignment : Nat}
    {block : Option (AlignedBlock alignment)} {t : Tensor}
    (h : tensorAllocImpl dt shape alignment block = .ok t) : t.Valid := by
  have hpacked := tensorAllocImpl_packed h
  obtain ⟨-, -, -, -, hnbytes⟩ := tensorAllocImpl_fields h
  refine ⟨hpacked.laid, hpacked.data_pos.ne', ?_⟩
  rw [hpacked.strides_eq, Strided.extent_rowMajor, Int.sub_add_cancel, hnbytes]
  exact le_rfl

theorem Tensor.Valid.strides_rowMajor {t : Tensor} (h : t.Valid) (hc : t.contiguous = true) :
    t.strides = Strided.rowMajor t.shape.dims := by
  apply hbiStridesIsContiguous_iff.mp
  rw [← h.laid.contiguous_eq, hc]

/-- The packed size of a contiguous tensor, which its buffer holds. -/
theorem Tensor.Valid.packed_bytes {t : Tensor} (h : t.Valid) (hc : t.contiguous = true) {n : Nat}
    (hn : hbiDtypeBits t.dtype = 8 * n) :
    ∃ bytes, hbiDtypePackedNbytes t.dtype t.shape.dims.prod = .ok bytes ∧
      (bytes : Int) = t.shape.dims.prod * n ∧ bytes ≤ t.nbytes := by
  have hprod := h.laid.shape_valid.prod_pos
  have hbits := h.laid.bits_le
  have hspan := h.span_le
  rw [h.strides_rowMajor hc, Strided.extent_rowMajor, Int.sub_add_cancel] at hbits hspan
  obtain ⟨bytes, hbytes⟩ := hbiDtypePackedNbytes_exists h.laid.dtype_valid hprod.le hbits
  have hsize := ((hbiDtypePackedNbytes_eq_ok h.laid.dtype_valid hprod.le).mp hbytes).2
  have hmul : t.shape.dims.prod * ((8 * n : Nat) : Int) = 8 * (t.shape.dims.prod * n) := by
    push_cast
    ring
  refine ⟨bytes, hbytes, ?_, by omega⟩
  rw [hn, hmul] at hsize
  omega

/-- Where no place is shared, the last index kept in a place is the index itself. -/
theorem Tensor.CopiedFrom.elem_eq_of_rowMajor {dst src : Tensor} {m m' : Memory} {n : Nat}
    (h : dst.CopiedFrom src m m') (hn : hbiDtypeBits dst.dtype = 8 * n) (hpos : 0 < n)
    (hrow : dst.strides = Strided.rowMajor dst.shape.dims) {idx : List Int}
    (hidx : Strided.InBounds dst.shape.dims idx) : dst.elem m' idx = src.elem m idx := by
  obtain ⟨last, hlast, helem⟩ := h.elem_eq idx hidx
  rw [helem, Tensor.elemAddr_injOn hn hrow hpos hlast.inBounds hidx hlast.addr_eq]

section Copies

variable {src : Tensor} {m : Memory} {n : Nat} (hsrc : src.Valid)
  (hn : hbiDtypeBits src.dtype = 8 * n) (hpos : 0 < n)

include hsrc hn in
theorem stridedCopyBytes_eq_run {dst : Tensor} (hdtype : dst.dtype = src.dtype) :
    stridedCopyBytes m src dst (hbiDtypeBits src.dtype / 8) =
      Moves.run n (copyMove src dst) src.shape.dims.prod.toNat m := by
  have hbytes : hbiDtypeBits src.dtype / 8 = n := by omega
  rw [hbytes]
  exact stridedCopyBytes_eq hsrc.laid.shape_valid (by omega) (by rw [hdtype]; omega)

include hsrc hn hpos in
/-- Both ways of copying leave the same memory. -/
theorem memcpy_eq_stridedCopyBytes {dst : Tensor} {bytes : Nat} (hdst : dst.Valid)
    (hdtype : dst.dtype = src.dtype) (hshape : dst.shape = src.shape) (hapart : src.Apart dst)
    (hsc : src.contiguous = true) (hdc : dst.contiguous = true)
    (hbytes : hbiDtypePackedNbytes src.dtype src.shape.dims.prod = .ok bytes) :
    memcpy m dst.data src.data bytes =
      stridedCopyBytes m src dst (hbiDtypeBits src.dtype / 8) := by
  obtain ⟨size, hsize, hmul, -⟩ := hsrc.packed_bytes hsc hn
  rw [hbytes, Except.ok.injEq] at hsize
  subst hsize
  rw [stridedCopyBytes_eq_run hsrc hn hdtype]
  exact memcpy_eq_run hsrc hdst hn hpos hdtype hshape hapart (hsrc.strides_rowMajor hsc)
    (hdst.strides_rowMajor hdc) hmul

include hsrc hn hpos in
/-- The copy into a tensor at hand. -/
theorem hbiTensorCopyInto_copies {dst : Tensor} (hbyte : src.dtype.ByteAddressable)
    (hdst : dst.Valid) (hwrite : dst.readOnly = false) (hdtype : dst.dtype = src.dtype)
    (hshape : dst.shape = src.shape) (hapart : src.Apart dst) :
    ∃ m', hbiTensorCopyInto m src dst = .ok m' ∧ dst.CopiedFrom src m m' := by
  refine ⟨Moves.run n (copyMove src dst) src.shape.dims.prod.toNat m, ?_,
    copiedFrom_run hsrc hdst hn hdtype hshape hapart hpos⟩
  have hequal : hbiShapeEqual src.shape dst.shape = true := by simp [hbiShapeEqual, hshape]
  have hguards : ¬ (src.data = 0 ∨ dst.data = 0) ∧ ¬ dst.readOnly = true ∧
      ¬ (src.dtype ≠ dst.dtype ∨ hbiShapeEqual src.shape dst.shape = false) := by
    simp [hsrc.data_ne, hdst.data_ne, hwrite, hdtype, hequal]
  rw [hbiTensorCopyInto, if_neg hguards.1, if_neg hguards.2.1, if_neg hguards.2.2]
  by_cases hc : src.contiguous = true ∧ dst.contiguous = true
  · obtain ⟨bytes, hbytes, hmul, hle⟩ := hdst.packed_bytes hc.2 (hdtype ▸ hn)
    rw [hdtype, hshape] at hbytes
    rw [if_pos hc, hsrc.laid.shape_valid.elemCount]
    simp only [bind, Except.bind, pure, Except.pure, hbytes, not_lt.mpr hle, if_false]
    rw [memcpy_eq_stridedCopyBytes hsrc hn hpos hdst hdtype hshape hapart hc.1 hc.2 hbytes,
      stridedCopyBytes_eq_run hsrc hn hdtype]
  · rw [if_neg hc, if_neg (by simp [hbyte.2]), stridedCopyBytes_eq_run hsrc hn hdtype]

/-- Zeroing memory that a tensor does not lie in keeps its elements. -/
theorem Tensor.Valid.elem_memzero {t : Tensor} (h : t.Valid)
    (hn : hbiDtypeBits t.dtype = 8 * n) {out : Tensor} (hapart : t.Apart out) {idx : List Int}
    (hidx : Strided.InBounds t.shape.dims idx) :
    t.elem (memzero m out.data out.nbytes) idx = t.elem m idx := by
  apply Tensor.elem_congr hn hn
  intro j hj
  have hcovers : t.Covers (t.elemAddr idx + (j : Nat)) :=
    h.covers_of_holds hn hidx ((Tensor.holds_iff hn).mpr ⟨by omega, by omega⟩)
  exact if_neg fun hout => hapart _ ⟨hcovers, hout⟩

include hsrc hn hpos in
/-- The copy into a fresh tensor. -/
theorem hbiTensorClone_copies (hbyte : src.dtype.ByteAddressable)
    {block : Option (AlignedBlock hbiTensorDefaultAlign)} {out : Tensor}
    (halloc : hbiTensorAlloc src.dtype src.shape block = .ok out) (hapart : src.Apart out) :
    ∃ m', hbiTensorClone m src block = .ok (m', { out with quant := src.quant }) ∧
      (∀ idx, Strided.InBounds src.shape.dims idx → out.elem m' idx = src.elem m idx) ∧
      ∀ a, (∀ idx, Strided.InBounds src.shape.dims idx → ¬ out.Holds idx a) → m' a = m a := by
  have hvalid := tensorAllocImpl_valid halloc
  have hpacked := tensorAllocImpl_packed halloc
  obtain ⟨hdtype, hshape, -, -, hnbytes⟩ := tensorAllocImpl_fields halloc
  have hno : hbiDtypeBits out.dtype = 8 * n := hdtype ▸ hn
  obtain ⟨bytes, hbytes, hmul, -⟩ := hvalid.packed_bytes hpacked.contiguous_eq hno
  have hsize : out.nbytes = bytes := by
    have hexact := ((hbiDtypePackedNbytes_eq_ok hvalid.laid.dtype_valid
      hvalid.laid.shape_valid.prod_pos.le).mp hbytes).2
    unfold Tensor.packedBytes at hnbytes
    omega
  have hcopied := copiedFrom_run (m := memzero m out.data out.nbytes) hsrc hvalid hn hdtype hshape
    hapart hpos
  refine ⟨Moves.run n (copyMove src out) src.shape.dims.prod.toNat
    (memzero m out.data out.nbytes), ?_, ?_, ?_⟩
  · rw [hbiTensorClone, if_neg hsrc.data_ne, halloc]
    by_cases hc : src.contiguous = true
    · rw [hdtype, hshape] at hbytes
      simp only [bind, Except.bind, pure, Except.pure, hc, if_true, ← memcpy_eq_run hsrc hvalid hn
        hpos hdtype hshape hapart (hsrc.strides_rowMajor hc) hpacked.strides_eq
        (show (out.nbytes : Int) = src.shape.dims.prod * n by rw [hsize, hmul, hshape])]
    · simp only [bind, Except.bind, pure, Except.pure, hc, Bool.false_eq_true, if_false, hbyte.2,
        stridedCopyBytes_eq_run hsrc hn hdtype]
  · intro idx hidx
    rw [hcopied.elem_eq_of_rowMajor hno hpos hpacked.strides_eq (hshape ▸ hidx)]
    exact hsrc.elem_memzero hn hapart hidx
  · intro a ha
    rw [hcopied.frame a (hshape ▸ ha)]
    apply if_neg
    intro hin
    obtain ⟨k, hk, hholds⟩ := Tensor.exists_holds hno hpacked.strides_eq
      hvalid.laid.shape_valid hpos hin.1 (by omega)
    rw [hshape] at hk hholds
    exact ha _ (copyMove_inBounds hsrc hk) hholds

end Copies

/-- Copies of a valid tensor of whole bytes into a writable one and into a fresh one. The
element at an index becomes the source's, except that indices a destination keeps in one
place all get what the last of them has; the two ways of copying agree. -/
theorem tensor_copy_elements {src : Tensor} {m : Memory} (hsrc : hbiTensorValidate src = .ok ())
    (hbyte : src.dtype.ByteAddressable) :
    (∀ dst : Tensor, hbiTensorValidate dst = .ok () → dst.readOnly = false →
      dst.dtype = src.dtype → dst.shape = src.shape → src.Apart dst →
      (∃ m', hbiTensorCopyInto m src dst = .ok m' ∧ dst.CopiedFrom src m m') ∧
        ∀ bytes, src.contiguous = true → dst.contiguous = true →
          hbiDtypePackedNbytes src.dtype src.shape.dims.prod = .ok bytes →
          memcpy m dst.data src.data bytes =
            stridedCopyBytes m src dst (hbiDtypeBits src.dtype / 8)) ∧
      ∀ block out, hbiTensorAlloc src.dtype src.shape block = .ok out → src.Apart out →
        ∃ m', hbiTensorClone m src block = .ok (m', { out with quant := src.quant }) ∧
          (∀ idx, Strided.InBounds src.shape.dims idx → out.elem m' idx = src.elem m idx) ∧
          ∀ a, (∀ idx, Strided.InBounds src.shape.dims idx → ¬ out.Holds idx a) →
            m' a = m a := by
  have hvalid := Tensor.valid_of_validate hsrc
  obtain ⟨n, hpos, hn, -⟩ := hbiDtypeBits_bytes hbyte
  refine ⟨?_, ?_⟩
  · intro dst hdst hwrite hdtype hshape hapart
    have hdvalid := Tensor.valid_of_validate hdst
    refine ⟨hbiTensorCopyInto_copies hvalid hn hpos hbyte hdvalid hwrite hdtype hshape hapart, ?_⟩
    intro bytes hsc hdc hbytes
    exact memcpy_eq_stridedCopyBytes hvalid hn hpos hdvalid hdtype hshape hapart hsc hdc hbytes
  · intro block out halloc hapart
    exact hbiTensorClone_copies hvalid hn hpos hbyte halloc hapart

theorem tensor_copy_elements_transposed :
    ∃ src v out : Tensor, hbiTensorWrap .fp32 ⟨[2, 3]⟩ 64 24 = .ok src ∧
      hbiTensorTranspose src 0 1 = .ok v ∧
      hbiTensorAlloc .fp32 ⟨[3, 2]⟩ (some (AlignedBlock.line 1)) = .ok out ∧
      ∀ m : Memory, ∃ m', hbiTensorClone m v (some (AlignedBlock.line 1)) = .ok (m', out) ∧
        out.elem m' [2, 1] = v.elem m [2, 1] := by
  refine ⟨_, _, _, rfl, rfl, rfl, ?_⟩
  intro m
  refine Exists.imp (fun m' h => ⟨h.1, h.2.1 [2, 1] ?_⟩)
    ((tensor_copy_elements ?_ ?_).2 (some (AlignedBlock.line 1)) _ rfl ?_)
  · decide +kernel
  · decide
  · rintro a ⟨hsrc, hout⟩
    have hhi : a < 64 + 24 := hsrc.2
    have hlo : 128 ≤ a := hout.1
    omega
  · decide

/-- A destination whose only axis has stride zero passes the validator, and keeps what the
last element of the source was. -/
theorem copy_into_shared_place :
    ∃ src dst : Tensor, ∃ m m' : Memory, hbiTensorWrap .int8 ⟨[2]⟩ 128 2 = .ok src ∧
      hbiTensorValidate src = .ok () ∧ src.dtype.ByteAddressable ∧
      hbiTensorValidate dst = .ok () ∧ dst.readOnly = false ∧ dst.dtype = src.dtype ∧
      dst.shape = src.shape ∧ src.Apart dst ∧ hbiTensorCopyInto m src dst = .ok m' ∧
      dst.elem m' [0] ≠ src.elem m [0] := by
  refine ⟨_, { dtype := .int8, shape := ⟨[2]⟩, strides := [0], data := 64, nbytes := 1,
               align := 1, ownership := .borrowed, device := .cpu, readOnly := false,
               contiguous := false, quant := QuantMeta.zero },
    fun a => if a = 129 then 1 else 0, _, rfl, ?_, ?_, ?_, rfl, rfl, rfl, ?_, rfl, ?_⟩
  · decide +kernel
  · decide
  · decide +kernel
  · rintro a ⟨hsrc, hdst⟩
    have hlo : 128 ≤ a := hsrc.1
    have hhi : a < 64 + 1 := hdst.2
    omega
  · decide +kernel

end Hummingbird

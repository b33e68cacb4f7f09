import Mathlib.Tactic
import Mathlib.Algebra.BigOperators.Group.List.Basic

/-!
Strided multi-indices over the integers: the offset of an index under a list of
strides, index bounds, the row-major strides of a list of dimensions and the
inverse of row-major linearisation. Nothing here refers to tensors.
-/

namespace Strided

/-- Offset of a multi-index, `∑ idx[k] * strides[k]` over the shorter list. -/
def offset : List Int → List Int → Int
  | i :: is, s :: ss => i * s + offset is ss
  | _, _ => 0

/-- The index has one coordinate per dimension, each inside its dimension. -/
def InBounds : List Int → List Int → Prop
  | [], [] => True
  | d :: ds, i :: is => (0 ≤ i ∧ i < d) ∧ InBounds ds is
  | _, _ => False

instance decidableInBounds : (dims idx : List Int) → Decidable (InBounds dims idx)
  | [], [] => .isTrue trivial
  | _ :: ds, _ :: is =>
      have := decidableInBounds ds is
      inferInstanceAs (Decidable ((_ ∧ _) ∧ _))
  | [], _ :: _ => .isFalse id
  | _ :: _, [] => .isFalse id

/-- Offset of the last index of a box, the largest one for non-negative strides. -/
def extent (dims strides : List Int) : Int := offset (dims.map (· - 1)) strides

/-- Row-major strides: each axis steps over the product of the later dimensions. -/
def rowMajor : List Int → List Int
  | [] => []
  | _ :: ds => ds.prod :: rowMajor ds

/-- Row-major rank of an index. -/
def linear (dims idx : List Int) : Int := offset idx (rowMajor dims)

/-- The index of a given row-major rank. -/
def unravel : List Int → Int → List Int
  | [], _ => []
  | _ :: ds, n => n / ds.prod :: unravel ds (n % ds.prod)

@[simp]
theorem offset_nil_left (strides : List Int) : offset [] strides = 0 := by
  cases strides <;> rfl

@[simp]
theorem offset_nil_right (idx : List Int) : offset idx [] = 0 := by
  cases idx <;> rfl

@[simp]
theorem offset_cons (i s : Int) (is ss : List Int) :
    offset (i :: is) (s :: ss) = i * s + offset is ss := rfl

@[simp]
theorem inBounds_nil : InBounds [] [] := trivial

@[simp]
theorem inBounds_cons {d i : Int} {ds is : List Int} :
    InBounds (d :: ds) (i :: is) ↔ (0 ≤ i ∧ i < d) ∧ InBounds ds is := Iff.rfl

@[simp]
theorem length_rowMajor (dims : List Int) : (rowMajor dims).length = dims.length := by
  induction dims with
  | nil => rfl
  | cons d ds ih => simp [rowMajor, ih]

theorem InBounds.length_eq {dims idx : List Int} (h : InBounds dims idx) :
    idx.length = dims.length := by
  induction dims generalizing idx with
  | nil =>
      cases idx with
      | nil => rfl
      | cons i is => exact absurd h id
  | cons d ds ih =>
      cases idx with
      | nil => exact absurd h id
      | cons i is => simp [ih h.2]

/-- Coordinatewise form of the bounds. -/
theorem inBounds_iff_getD {dims idx : List Int} :
    InBounds dims idx ↔ idx.length = dims.length ∧
      ∀ k < dims.length, 0 ≤ idx.getD k 0 ∧ idx.getD k 0 < dims.getD k 0 := by
  induction dims generalizing idx with
  | nil =>
      cases idx with
      | nil => simp
      | cons i is => simp [InBounds]
  | cons d ds ih =>
      cases idx with
      | nil => simp [InBounds]
      | cons i is =>
          rw [inBounds_cons, ih]
          constructor
          · rintro ⟨hi, hlen, hall⟩
            refine ⟨by simp [hlen], ?_⟩
            intro k hk
            cases k with
            | zero => simpa using hi
            | succ k => simpa using hall k (by simpa using hk)
          · rintro ⟨hlen, hall⟩
            refine ⟨by simpa using hall 0 (by simp), by simpa using hlen, ?_⟩
            intro k hk
            simpa using hall (k + 1) (by simpa using hk)

theorem prod_pos {dims : List Int} (hpos : ∀ d ∈ dims, 0 < d) : 0 < dims.prod := by
  induction dims with
  | nil => simp
  | cons d ds ih =>
      rw [List.prod_cons]
      exact mul_pos (hpos d (by simp)) (ih fun e he => hpos e (by simp [he]))

theorem le_prod_of_mem {dims : List Int} (hpos : ∀ d ∈ dims, 0 < d) {d : Int} (hd : d ∈ dims) :
    d ≤ dims.prod := by
  induction dims with
  | nil => simp at hd
  | cons e es ih =>
      have he : 0 < e := hpos e (by simp)
      have hes : ∀ f ∈ es, 0 < f := fun f hf => hpos f (by simp [hf])
      have hprod := prod_pos hes
      rw [List.prod_cons]
      rcases List.mem_cons.mp hd with rfl | hd
      · exact le_mul_of_one_le_right he.le hprod
      · exact (ih hes hd).trans (le_mul_of_one_le_left hprod.le he)

theorem dims_pos_of_inBounds {dims idx : List Int} (h : InBounds dims idx) :
    ∀ d ∈ dims, 0 < d := by
  induction dims generalizing idx with
  | nil => simp
  | cons d ds ih =>
      cases idx with
      | nil => exact absurd h id
      | cons i is =>
          intro e he
          rcases List.mem_cons.mp he with rfl | he
          · exact lt_of_le_of_lt h.1.1 h.1.2
          · exact ih h.2 e he

theorem rowMajor_nonneg {dims : List Int} (hpos : ∀ d ∈ dims, 0 < d) :
    ∀ s ∈ rowMajor dims, 0 ≤ s := by
  induction dims with
  | nil => simp [rowMajor]
  | cons d ds ih =>
      intro s hs
      have hrest : ∀ e ∈ ds, 0 < e := fun e he => hpos e (by simp [he])
      rcases List.mem_cons.mp hs with rfl | hs
      · exact (prod_pos hrest).le
      · exact ih hrest s hs

/-! Bounds on offsets. -/

theorem offset_nonneg {dims idx strides : List Int} (hidx : InBounds dims idx)
    (hs : ∀ s ∈ strides, 0 ≤ s) : 0 ≤ offset idx strides := by
  induction dims generalizing idx strides with
  | nil =>
      cases idx with
      | nil => simp
      | cons i is => exact absurd hidx id
  | cons d ds ih =>
      cases idx with
      | nil => exact absurd hidx id
      | cons i is =>
          cases strides with
          | nil => simp
          | cons s ss =>
              have hss : ∀ t ∈ ss, 0 ≤ t := fun t ht => hs t (by simp [ht])
              have htail := ih hidx.2 hss
              have hhead := mul_nonneg hidx.1.1 (hs s (by simp))
              rw [offset_cons]
              omega

theorem offset_le_extent {dims idx strides : List Int} (hidx : InBounds dims idx)
    (hs : ∀ s ∈ strides, 0 ≤ s) : offset idx strides ≤ extent dims strides := by
  induction dims generalizing idx strides with
  | nil =>
      cases idx with
      | nil => simp [extent]
      | cons i is => exact absurd hidx id
  | cons d ds ih =>
      cases idx with
      | nil => exact absurd hidx id
      | cons i is =>
          cases strides with
          | nil => simp [extent]
          | cons s ss =>
              have hss : ∀ t ∈ ss, 0 ≤ t := fun t ht => hs t (by simp [ht])
              have htail := ih hidx.2 hss
              have hi : i ≤ d - 1 := by have := hidx.1.2; omega
              have hhead : i * s ≤ (d - 1) * s :=
                mul_le_mul_of_nonneg_right hi (hs s (by simp))
              simp only [extent, List.map_cons, offset_cons] at htail ⊢
              omega

/-- The last corner of a box of positive dimensions is one of its indices. -/
theorem last_inBounds {dims : List Int} (hpos : ∀ d ∈ dims, 0 < d) :
    InBounds dims (dims.map (· - 1)) := by
  induction dims with
  | nil => trivial
  | cons d ds ih =>
      have hd := hpos d (by simp)
      rw [List.map_cons, inBounds_cons]
      exact ⟨⟨by omega, by omega⟩, ih fun e he => hpos e (by simp [he])⟩

/-- So is the first. -/
theorem zero_inBounds {dims : List Int} (hpos : ∀ d ∈ dims, 0 < d) :
    InBounds dims (dims.map fun _ => 0) := by
  induction dims with
  | nil => trivial
  | cons d ds ih =>
      have hd := hpos d (by simp)
      exact ⟨⟨le_refl _, hd⟩, ih fun e he => hpos e (by simp [he])⟩

theorem offset_zero (dims strides : List Int) : offset (dims.map fun _ => 0) strides = 0 := by
  induction dims generalizing strides with
  | nil => simp
  | cons d ds ih =>
      cases strides with
      | nil => simp
      | cons s ss => simpa using ih ss

theorem extent_nonneg {dims strides : List Int} (hpos : ∀ d ∈ dims, 0 < d)
    (hs : ∀ s ∈ strides, 0 ≤ s) : 0 ≤ extent dims strides :=
  offset_nonneg (last_inBounds hpos) hs

/-! Row-major linearisation and its inverse. -/

theorem extent_rowMajor {dims : List Int} :
    extent dims (rowMajor dims) = dims.prod - 1 := by
  induction dims with
  | nil => simp [extent]
  | cons d ds ih =>
      simp only [extent, rowMajor, List.map_cons, offset_cons, List.prod_cons] at ih ⊢
      rw [ih]
      ring

theorem linear_nonneg {dims idx : List Int} (h : InBounds dims idx) : 0 ≤ linear dims idx :=
  offset_nonneg h (rowMajor_nonneg (dims_pos_of_inBounds h))

theorem linear_lt_prod {dims idx : List Int} (h : InBounds dims idx) :
    linear dims idx < dims.prod := by
  have hle := offset_le_extent h (rowMajor_nonneg (dims_pos_of_inBounds h))
  rw [extent_rowMajor] at hle
  unfold linear
  omega

theorem linear_unravel {dims : List Int} (hpos : ∀ d ∈ dims, 0 < d) {n : Int}
    (h0 : 0 ≤ n) (hn : n < dims.prod) : linear dims (unravel dims n) = n := by
  induction dims generalizing n with
  | nil =>
      simp only [List.prod_nil] at hn
      simp [linear, unravel]
      omega
  | cons d ds ih =>
      have hrest : ∀ e ∈ ds, 0 < e := fun e he => hpos e (by simp [he])
      have hprod := prod_pos hrest
      have htail := ih hrest (Int.emod_nonneg n hprod.ne') (Int.emod_lt_of_pos n hprod)
      simp only [linear, rowMajor, unravel, offset_cons] at htail ⊢
      rw [htail]
      exact Int.ediv_mul_add_emod n ds.prod

theorem unravel_inBounds {dims : List Int} (hpos : ∀ d ∈ dims, 0 < d) {n : Int}
    (h0 : 0 ≤ n) (hn : n < dims.prod) : InBounds dims (unravel dims n) := by
  induction dims generalizing n with
  | nil => trivial
  | cons d ds ih =>
      have hrest : ∀ e ∈ ds, 0 < e := fun e he => hpos e (by simp [he])
      have hprod := prod_pos hrest
      refine ⟨⟨Int.ediv_nonneg h0 hprod.le, ?_⟩,
        ih hrest (Int.emod_nonneg n hprod.ne') (Int.emod_lt_of_pos n hprod)⟩
      rw [List.prod_cons] at hn
      exact Int.ediv_lt_of_lt_mul hprod hn

theorem unravel_linear {dims idx : List Int} (h : InBounds dims idx) :
    unravel dims (linear dims idx) = idx := by
  induction dims generalizing idx with
  | nil =>
      cases idx with
      | nil => rfl
      | cons i is => exact absurd h id
  | cons d ds ih =>
      cases idx with
      | nil => exact absurd h id
      | cons i is =>
          have hlo := linear_nonneg h.2
          have hhi := linear_lt_prod h.2
          have hsplit : linear (d :: ds) (i :: is) = linear ds is + ds.prod * i := by
            simp only [linear, rowMajor, offset_cons]
            ring
          have hprod : ds.prod ≠ 0 := by omega
          rw [hsplit, unravel, Int.add_mul_ediv_left _ _ hprod, Int.add_mul_emod_self_left,
            Int.ediv_eq_zero_of_lt hlo hhi, Int.emod_eq_of_lt hlo hhi, ih h.2, zero_add]

theorem linear_injOn {dims idx idx' : List Int} (h : InBounds dims idx)
    (h' : InBounds dims idx') (heq : linear dims idx = linear dims idx') : idx = idx' := by
  rw [← unravel_linear h, heq, unravel_linear h']

/-- Every index has a number below the element count. -/
theorem exists_rank {dims idx : List Int} (h : InBounds dims idx) :
    ∃ k < dims.prod.toNat, unravel dims k = idx ∧ (k : Int) = linear dims idx := by
  have hlo := linear_nonneg h
  have hhi := linear_lt_prod h
  refine ⟨(linear dims idx).toNat, by omega, ?_, by omega⟩
  rw [Int.toNat_of_nonneg hlo, unravel_linear h]

theorem unravel_zero (dims : List Int) :
    unravel dims 0 = List.replicate dims.length 0 := by
  induction dims with
  | nil => rfl
  | cons d ds ih => simp [unravel, ih, List.replicate_succ]

/-- Offset as a sum over positions. -/
theorem offset_eq_sum {idx strides : List Int} {n : Nat} (hidx : idx.length = n)
    (hstr : strides.length = n) :
    offset idx strides = ∑ k ∈ Finset.range n, idx.getD k 0 * strides.getD k 0 := by
  induction n generalizing idx strides with
  | zero =>
      rw [List.length_eq_zero_iff.mp hidx]
      simp
  | succ n ih =>
      obtain ⟨i, is, rfl⟩ := List.exists_cons_of_length_eq_add_one hidx
      obtain ⟨s, ss, rfl⟩ := List.exists_cons_of_length_eq_add_one hstr
      rw [Finset.sum_range_succ', offset_cons, ih (by simpa using hidx) (by simpa using hstr)]
      simp
      ring

/-! One strided layout inside another. -/

/-- The index map `map` carries the box `vdims` into the box `pdims`, and the
offset of the image is the offset of the index moved by `base`. -/
structure Embeds (pdims pstrides vdims vstrides : List Int) (base : Int)
    (map : List Int → List Int) : Prop where
  inBounds : ∀ idx, InBounds vdims idx → InBounds pdims (map idx)
  offset_map : ∀ idx, InBounds vdims idx →
    offset (map idx) pstrides = base + offset idx vstrides

/-- An embedded layout reaches no further than the layout around it. -/
theorem Embeds.extent_le {pdims pstrides vdims vstrides : List Int} {base : Int}
    {map : List Int → List Int} (h : Embeds pdims pstrides vdims vstrides base map)
    (hpos : ∀ d ∈ vdims, 0 < d) (hs : ∀ s ∈ pstrides, 0 ≤ s) :
    base + extent vdims vstrides ≤ extent pdims pstrides := by
  have hlast := last_inBounds hpos
  have hle := offset_le_extent (h.inBounds _ hlast) hs
  rw [h.offset_map _ hlast] at hle
  exact hle

/-- Nor does it start before the layout around it. -/
theorem Embeds.base_nonneg {pdims pstrides vdims vstrides : List Int} {base : Int}
    {map : List Int → List Int} (h : Embeds pdims pstrides vdims vstrides base map)
    (hpos : ∀ d ∈ vdims, 0 < d) (hs : ∀ s ∈ pstrides, 0 ≤ s) : 0 ≤ base := by
  have hzero := zero_inBounds hpos
  have hle := offset_nonneg (h.inBounds _ hzero) hs
  rw [h.offset_map _ hzero] at hle
  rw [offset_zero, add_zero] at hle
  exact hle

/-- Coordinatewise shift by a prefix of starting positions. -/
def shift : List Int → List Int → List Int
  | a :: starts, i :: idx => (i + a) :: shift starts idx
  | [], idx => idx
  | _ :: _, [] => []

theorem offset_shift {starts idx strides : List Int} (hlen : starts.length ≤ idx.length) :
    offset (shift starts idx) strides = offset starts strides + offset idx strides := by
  induction starts generalizing idx strides with
  | nil => simp [shift]
  | cons a starts ih =>
      cases idx with
      | nil => simp at hlen
      | cons i idx =>
          cases strides with
          | nil => simp
          | cons s ss =>
              have hlen' : starts.length ≤ idx.length := by simpa using hlen
              have htail := @ih idx ss hlen'
              simp only [shift, offset_cons, htail]
              ring

/-- Narrowing the leading axes to `[start, start + count)`. -/
theorem subtensor_embeds {dims strides starts counts : List Int}
    (hlen : starts.length = counts.length)
    (hrank : counts.length ≤ dims.length)
    (hrange : ∀ k < counts.length,
      0 ≤ starts.getD k 0 ∧ starts.getD k 0 + counts.getD k 0 ≤ dims.getD k 0) :
    Embeds dims strides (counts ++ dims.drop counts.length) strides
      (offset starts strides) (shift starts) := by
  have hbounds : ∀ idx, InBounds (counts ++ dims.drop counts.length) idx →
      InBounds dims (shift starts idx) := by
    induction counts generalizing dims starts with
    | nil =>
        intro idx hidx
        have hnil : starts = [] := List.length_eq_zero_iff.mp (by simpa using hlen)
        subst hnil
        simpa [shift] using hidx
    | cons c counts ih =>
        intro idx hidx
        obtain ⟨d, ds, rfl⟩ := List.exists_cons_of_length_pos
          (l := dims) (by simp at hrank; omega)
        obtain ⟨a, starts, rfl⟩ := List.exists_cons_of_length_pos
          (l := starts) (by simp at hlen; omega)
        cases idx with
        | nil => exact absurd hidx (by simp [InBounds])
        | cons i idx =>
            have hhead := hrange 0 (by simp)
            simp only [List.getD_cons_zero] at hhead
            simp only [List.length_cons, List.cons_append, List.drop_succ_cons,
              inBounds_cons] at hidx
            rw [shift, inBounds_cons]
            refine ⟨⟨by omega, by omega⟩, ?_⟩
            apply ih (by simpa using hlen) (by simpa using hrank) _ idx hidx.2
            intro k hk
            simpa using hrange (k + 1) (by simpa using hk)
  refine ⟨hbounds, ?_⟩
  intro idx hidx
  apply offset_shift
  rw [hidx.length_eq, List.length_append]
  omega

/-- Narrowing one axis to `[start, start + count)`. -/
theorem slice_embeds {dims strides : List Int} {axis : Nat} {start count : Int}
    (haxis : axis < dims.length) (hstr : strides.length = dims.length)
    (hstart : 0 ≤ start) (hend : start + count ≤ dims.getD axis 0) :
    Embeds dims strides (dims.set axis count) strides
      (start * strides.getD axis 0) (fun idx => idx.modify axis (· + start)) := by
  refine ⟨?_, ?_⟩
  · intro idx hidx
    rw [inBounds_iff_getD] at hidx ⊢
    simp only [List.length_set, List.length_modify] at hidx ⊢
    refine ⟨hidx.1, ?_⟩
    intro k hk
    have hk' := hidx.2 k hk
    by_cases hka : k = axis
    · subst hka
      simp [List.getD_eq_getElem?_getD, hk, hidx.1] at hk' ⊢
      simp [List.getD_eq_getElem?_getD, hk] at hend
      omega
    · have hne : axis ≠ k := fun h => hka h.symm
      simpa [List.getD_eq_getElem?_getD, hne] using hk'
  · intro idx hidx
    have hlen : idx.length = dims.length := by simpa using hidx.length_eq
    rw [offset_eq_sum (n := dims.length) (by simpa using hlen) hstr,
      offset_eq_sum (n := dims.length) hlen hstr]
    have hsum : ∀ k ∈ Finset.range dims.length,
        (idx.modify axis (· + start)).getD k 0 * strides.getD k 0 =
          idx.getD k 0 * strides.getD k 0 +
            if k = axis then start * strides.getD axis 0 else 0 := by
      intro k hk
      have hk' : k < idx.length := by simpa [hlen] using hk
      by_cases hka : k = axis
      · subst hka
        simp [List.getD_eq_getElem?_getD, hk']
        ring
      · have hne : axis ≠ k := fun h => hka h.symm
        simp [List.getD_eq_getElem?_getD, hne, hka]
    rw [Finset.sum_congr rfl hsum, Finset.sum_add_distrib, Finset.sum_ite_eq' _ axis,
      if_pos (by simpa using haxis)]
    ring

/-- Entries of `xs` taken in the order `perm` lists their positions. -/
def gather (perm : List Nat) (xs : List Int) : List Int := perm.map (xs.getD · 0)

/-- Sends entry `k` of a gathered list back to position `perm[k]`. -/
def scatter (perm : List Nat) (idx : List Int) : List Int :=
  (List.range perm.length).map fun k => idx.getD (perm.idxOf k) 0

theorem getD_gather {perm : List Nat} {xs : List Int} {k : Nat}
    (hk : k < perm.length) : (gather perm xs).getD k 0 = xs.getD perm[k] 0 := by
  simp [gather, List.getD_eq_getElem?_getD, hk]

theorem getD_scatter {perm : List Nat} {idx : List Int} {k : Nat}
    (hk : k < perm.length) : (scatter perm idx).getD k 0 = idx.getD (perm.idxOf k) 0 := by
  simp [scatter, List.getD_eq_getElem?_getD, hk]

/-- Reordering the axes by a bijection. -/
theorem permute_embeds {dims strides : List Int} {perm : List Nat}
    (hperm : perm.Perm (List.range dims.length)) (hstr : strides.length = dims.length) :
    Embeds dims strides (gather perm dims) (gather perm strides) 0 (scatter perm) := by
  have hlen : perm.length = dims.length := by simpa using hperm.length_eq
  have hnodup : perm.Nodup := hperm.nodup_iff.mpr List.nodup_range
  have hmem : ∀ k, k ∈ perm ↔ k < dims.length := by
    intro k
    rw [hperm.mem_iff, List.mem_range]
  have hidxOf : ∀ k < dims.length, perm.idxOf k < perm.length := fun k hk =>
    List.idxOf_lt_length_iff.mpr ((hmem k).mpr hk)
  refine ⟨?_, ?_⟩
  · intro idx hidx
    rw [inBounds_iff_getD] at hidx ⊢
    refine ⟨by simp [scatter, hlen], ?_⟩
    intro k hk
    have hpos := hidxOf k hk
    have hb := hidx.2 (perm.idxOf k) (by simpa [gather] using hpos)
    rw [getD_gather hpos, List.getElem_idxOf hpos] at hb
    rw [getD_scatter (by omega)]
    exact hb
  · intro idx hidx
    have hidxlen : idx.length = dims.length := by
      simpa [gather, hlen] using hidx.length_eq
    rw [offset_eq_sum (n := dims.length) (by simp [scatter, hlen]) hstr,
      offset_eq_sum (n := dims.length) hidxlen (by simp [gather, hlen]), zero_add]
    have hget : ∀ i (hi : i < perm.length), perm[i] < dims.length := by
      intro i hi
      exact (hmem _).mp (List.getElem_mem _)
    apply Finset.sum_nbij' (fun k => perm.idxOf k) (fun i => perm.getD i 0)
    · intro k hk
      have := hidxOf k (by simpa using hk)
      simpa [hlen] using this
    · intro i hi
      have hi' : i < perm.length := by simpa [hlen] using hi
      simpa [List.getD_eq_getElem?_getD, hi'] using hget i hi'
    · intro k hk
      have hk' := hidxOf k (by simpa using hk)
      simp [List.getD_eq_getElem?_getD, hk', List.getElem_idxOf hk']
    · intro i hi
      have hi' : i < perm.length := by simpa [hlen] using hi
      simp [List.getD_eq_getElem?_getD, hi', hnodup.idxOf_getElem]
    · intro k hk
      have hk' : k < dims.length := by simpa using hk
      rw [getD_scatter (by omega), getD_gather (hidxOf k hk'), List.getElem_idxOf (hidxOf k hk')]

/-- The list with the entries at positions `a` and `b` exchanged. -/
def swapAt (xs : List Int) (a b : Nat) : List Int :=
  (xs.set a (xs.getD b 0)).set b (xs.getD a 0)

theorem length_swapAt (xs : List Int) (a b : Nat) : (swapAt xs a b).length = xs.length := by
  simp [swapAt]

theorem getD_swapAt {xs : List Int} {a b k : Nat} (ha : a < xs.length)
    (hb : b < xs.length) : (swapAt xs a b).getD k 0 = xs.getD (Equiv.swap a b k) 0 := by
  unfold swapAt
  by_cases hkb : k = b
  · subst hkb
    simp [List.getD_eq_getElem?_getD, hb]
  · have hbk : b ≠ k := fun h => hkb h.symm
    by_cases hka : k = a
    · subst hka
      simp [List.getD_eq_getElem?_getD, ha, hbk]
    · have hak : a ≠ k := fun h => hka h.symm
      rw [Equiv.swap_apply_of_ne_of_ne hka hkb]
      simp [List.getD_eq_getElem?_getD, hak, hbk]

/-- Exchanging two axes. -/
theorem transpose_embeds {dims strides : List Int} {a b : Nat} (ha : a < dims.length)
    (hb : b < dims.length) (hstr : strides.length = dims.length) :
    Embeds dims strides (swapAt dims a b) (swapAt strides a b) 0
      (fun idx => swapAt idx a b) := by
  have hswap : ∀ k, Equiv.swap a b k < dims.length ↔ k < dims.length := by
    intro k
    by_cases hka : k = a
    · subst hka
      simp [ha, hb]
    · by_cases hkb : k = b
      · subst hkb
        simp [ha, hb]
      · rw [Equiv.swap_apply_of_ne_of_ne hka hkb]
  refine ⟨?_, ?_⟩
  · intro idx hidx
    have hlen : idx.length = dims.length := by
      simpa [length_swapAt] using hidx.length_eq
    rw [inBounds_iff_getD] at hidx ⊢
    refine ⟨by simp [length_swapAt, hlen], ?_⟩
    intro k hk
    have hk' := hidx.2 (Equiv.swap a b k) (by rw [length_swapAt, hswap]; exact hk)
    rw [getD_swapAt ha hb, Equiv.swap_apply_self] at hk'
    rw [getD_swapAt (by omega) (by omega)]
    exact hk'
  · intro idx hidx
    have hlen : idx.length = dims.length := by
      simpa [length_swapAt] using hidx.length_eq
    rw [offset_eq_sum (n := dims.length) (by simp [length_swapAt, hlen]) hstr,
      offset_eq_sum (n := dims.length) hlen (by simp [length_swapAt, hstr]), zero_add]
    apply Finset.sum_equiv (Equiv.swap a b)
    · intro k
      simp [hswap]
    · intro k hk
      rw [getD_swapAt (by omega) (by omega), getD_swapAt (by omega) (by omega),
        Equiv.swap_apply_self]

/-- Strides of the axes whose dimension is not one. -/
def squeezeStrides : List Int → List Int → List Int
  | d :: ds, s :: ss => if d = 1 then squeezeStrides ds ss else s :: squeezeStrides ds ss
  | _, _ => []

/-- Puts the coordinate zero back at the axes of dimension one. -/
def unsqueezeIndex : List Int → List Int → List Int
  | [], _ => []
  | d :: ds, idx =>
      if d = 1 then 0 :: unsqueezeIndex ds idx
      else idx.headD 0 :: unsqueezeIndex ds idx.tail

theorem prod_filter_ne_one (dims : List Int) : (dims.filter (· ≠ 1)).prod = dims.prod := by
  induction dims with
  | nil => rfl
  | cons d ds ih =>
      by_cases hd : d = 1
      · simpa [hd] using ih
      · rw [List.filter_cons_of_pos (by simpa using hd), List.prod_cons, List.prod_cons, ih]

/-- Dropping every axis of dimension one. -/
theorem squeeze_embeds {dims strides : List Int} (hstr : strides.length = dims.length) :
    Embeds dims strides (dims.filter (· ≠ 1)) (squeezeStrides dims strides) 0
      (unsqueezeIndex dims) := by
  induction dims generalizing strides with
  | nil =>
      refine ⟨fun idx hidx => trivial, ?_⟩
      intro idx hidx
      simp [unsqueezeIndex, squeezeStrides]
  | cons d ds ih =>
      obtain ⟨s, ss, rfl⟩ := List.exists_cons_of_length_eq_add_one hstr
      have hss : ss.length = ds.length := by simpa using hstr
      obtain ⟨ihbounds, ihoffset⟩ := ih hss
      by_cases hd : d = 1
      · subst hd
        refine ⟨?_, ?_⟩
        · intro idx hidx
          simp only [unsqueezeIndex, if_true, inBounds_cons]
          exact ⟨by omega, ihbounds idx (by simpa using hidx)⟩
        · intro idx hidx
          simpa [unsqueezeIndex, squeezeStrides] using ihoffset idx (by simpa using hidx)
      · refine ⟨?_, ?_⟩
        · intro idx hidx
          cases idx with
          | nil => simp [hd, InBounds] at hidx
          | cons i idx =>
              simp only [List.filter_cons, ne_eq, hd, not_false_eq_true, decide_true,
                if_true, inBounds_cons] at hidx
              simp only [unsqueezeIndex, hd, if_false, List.headD_cons, List.tail_cons,
                inBounds_cons]
              exact ⟨hidx.1, ihbounds idx hidx.2⟩
        · intro idx hidx
          cases idx with
          | nil => simp [hd, InBounds] at hidx
          | cons i idx =>
              simp only [List.filter_cons, ne_eq, hd, not_false_eq_true, decide_true,
                if_true, inBounds_cons] at hidx
              have htail := ihoffset idx hidx.2
              simp only [unsqueezeIndex, squeezeStrides, hd, if_false, List.headD_cons,
                List.tail_cons, offset_cons, htail]
              ring

/-- Inserting an axis of dimension one, whatever stride it is given. -/
theorem unsqueeze_embeds {dims strides : List Int} {axis : Nat} {s : Int}
    (haxis : axis ≤ dims.length) (hstr : strides.length = dims.length) :
    Embeds dims strides (dims.insertIdx axis 1) (strides.insertIdx axis s) 0
      (fun idx => idx.eraseIdx axis) := by
  induction axis generalizing dims strides with
  | zero =>
      refine ⟨?_, ?_⟩
      · intro idx hidx
        cases idx with
        | nil => exact absurd hidx id
        | cons i idx =>
            simp only [List.insertIdx_zero, inBounds_cons] at hidx
            exact hidx.2
      · intro idx hidx
        cases idx with
        | nil => exact absurd hidx id
        | cons i idx =>
            simp only [List.insertIdx_zero, inBounds_cons] at hidx
            have hi : i = 0 := by omega
            simp [hi]
  | succ axis ih =>
      obtain ⟨d, ds, rfl⟩ := List.exists_cons_of_length_pos
        (l := dims) (by omega)
      obtain ⟨t, ss, rfl⟩ := List.exists_cons_of_length_eq_add_one hstr
      have hds : axis ≤ ds.length := by simpa using haxis
      have hss : ss.length = ds.length := by simpa using hstr
      obtain ⟨ihbounds, ihoffset⟩ := ih hds hss
      refine ⟨?_, ?_⟩
      · intro idx hidx
        cases idx with
        | nil => exact absurd hidx id
        | cons i idx =>
            simp only [List.insertIdx_succ_cons, inBounds_cons] at hidx
            exact ⟨hidx.1, ihbounds idx hidx.2⟩
      · intro idx hidx
        cases idx with
        | nil => exact absurd hidx id
        | cons i idx =>
            simp only [List.insertIdx_succ_cons, inBounds_cons] at hidx
            have htail := ihoffset idx hidx.2
            simp only [List.eraseIdx_cons_succ, List.insertIdx_succ_cons, offset_cons, htail]
            ring

/-- Reading a row-major box through other dimensions with the same product. -/
theorem reshape_embeds {dims newDims : List Int} (hpos : ∀ d ∈ dims, 0 < d)
    (hprod : newDims.prod = dims.prod) :
    Embeds dims (rowMajor dims) newDims (rowMajor newDims) 0
      (fun idx => unravel dims (linear newDims idx)) := by
  refine ⟨?_, ?_⟩
  · intro idx hidx
    exact unravel_inBounds hpos (linear_nonneg hidx) (hprod ▸ linear_lt_prod hidx)
  · intro idx hidx
    have hlin := linear_unravel hpos (linear_nonneg hidx) (hprod ▸ linear_lt_prod hidx)
    rw [zero_add]
    exact hlin

/-- Dropping the unit axes of a row-major layout leaves a row-major layout. -/
theorem squeezeStrides_rowMajor (dims : List Int) :
    squeezeStrides dims (rowMajor dims) = rowMajor (dims.filter (· ≠ 1)) := by
  induction dims with
  | nil => rfl
  | cons d ds ih =>
      by_cases hd : d = 1
      · simpa [rowMajor, squeezeStrides, hd] using ih
      · rw [List.filter_cons_of_pos (by simpa using hd), rowMajor, rowMajor, squeezeStrides,
          if_neg hd, ih, prod_filter_ne_one]

/-- An inserted unit axis steps over everything behind it. -/
theorem rowMajor_insertIdx_one {dims : List Int} {axis : Nat} (h : axis ≤ dims.length) :
    rowMajor (dims.insertIdx axis 1) =
      (rowMajor dims).insertIdx axis (dims.drop axis).prod := by
  induction axis generalizing dims with
  | zero => simp [rowMajor]
  | succ axis ih =>
      cases dims with
      | nil => simp at h
      | cons d ds =>
          have hle : axis ≤ ds.length := by simpa using h
          have hprod : (ds.insertIdx axis 1).prod = ds.prod := by
            rw [(List.perm_insertIdx 1 ds hle).prod_eq, List.prod_cons, one_mul]
          simp [rowMajor, ih hle, hprod]

theorem getD_rowMajor {dims : List Int} {axis : Nat} (h : axis < dims.length) :
    (rowMajor dims).getD axis 0 = (dims.drop (axis + 1)).prod := by
  induction dims generalizing axis with
  | nil => simp at h
  | cons d ds ih =>
      cases axis with
      | zero => simp [rowMajor]
      | succ axis => simpa [rowMajor] using ih (by simpa using h)

theorem filter_insertIdx_one {dims : List Int} {axis : Nat} (h : axis ≤ dims.length) :
    (dims.insertIdx axis 1).filter (· ≠ 1) = dims.filter (· ≠ 1) := by
  induction axis generalizing dims with
  | zero => simp
  | succ axis ih =>
      cases dims with
      | nil => simp at h
      | cons d ds =>
          have hle : axis ≤ ds.length := by simpa using h
          rw [List.insertIdx_succ_cons, List.filter_cons, List.filter_cons, ih hle]

theorem squeezeStrides_insertIdx_one {dims strides : List Int} {axis : Nat} {s : Int}
    (hlen : strides.length = dims.length) (h : axis ≤ dims.length) :
    squeezeStrides (dims.insertIdx axis 1) (strides.insertIdx axis s) =
      squeezeStrides dims strides := by
  induction axis generalizing dims strides with
  | zero => simp [squeezeStrides]
  | succ axis ih =>
      cases dims with
      | nil => simp at h
      | cons d ds =>
          obtain ⟨r, rs, rfl⟩ := List.exists_cons_of_length_eq_add_one hlen
          simp only [List.insertIdx_succ_cons, squeezeStrides,
            ih (by simpa using hlen) (show axis ≤ ds.length by simpa using h)]

end Strided

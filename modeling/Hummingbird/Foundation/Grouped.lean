import Hummingbird.Foundation.Strided
import Mathlib.Data.List.GetD

/-!
Groups along one axis of a box. Every `g` consecutive positions of the axis are a group, the
groups are a box of their own, and a group is numbered by its row-major rank there. The
results say when the numbers stay what they were after the box is narrowed, read with
other dimensions, or has its axes reordered.
-/

namespace Strided

/-- Dimensions or positions of a box, counted in groups along one axis. -/
def coarse (axis : Nat) (g : Int) (xs : List Int) : List Int := xs.modify axis (· / g)

/-- The number of the group that an index lies in. -/
def groupRank (axis : Nat) (g : Int) (dims idx : List Int) : Int :=
  linear (coarse axis g dims) (coarse axis g idx)

/-- The number of elements behind one position of an axis. -/
def behind (axis : Nat) (dims : List Int) : Int := (dims.drop (axis + 1)).prod

/-- Two layouts of a box step alike along every axis that has more than one position. -/
def SameSteps (dims strides strides' : List Int) : Prop :=
  ∀ k < dims.length, dims.getD k 0 = 1 ∨ strides.getD k 0 = strides'.getD k 0

instance (dims strides strides' : List Int) : Decidable (SameSteps dims strides strides') :=
  inferInstanceAs (Decidable (∀ k < dims.length, _))

theorem list_ext_getD {xs ys : List Int} (hlen : xs.length = ys.length)
    (h : ∀ k < xs.length, xs.getD k 0 = ys.getD k 0) : xs = ys := by
  apply List.ext_getElem hlen
  intro k hk hk'
  have := h k hk
  rwa [List.getD_eq_getElem _ _ hk, List.getD_eq_getElem _ _ hk'] at this

theorem offset_zeros (n : Nat) (strides : List Int) :
    offset (List.replicate n 0) strides = 0 := by
  induction n generalizing strides with
  | zero => simp
  | succ n ih =>
      cases strides with
      | nil => simp
      | cons s ss => simp [List.replicate_succ, ih]

theorem zeros_inBounds {dims : List Int} (hpos : ∀ d ∈ dims, 0 < d) :
    InBounds dims (List.replicate dims.length 0) := by
  have h := zero_inBounds hpos
  rwa [List.map_const'] at h

/-- The index of rank zero is the first one. -/
theorem eq_zeros_of_linear {dims idx : List Int} (h : InBounds dims idx)
    (hzero : linear dims idx = 0) : idx = List.replicate dims.length 0 := by
  rw [← unravel_linear h, hzero, unravel_zero]

/-- Two layouts agree on a box exactly when they step alike. -/
theorem offset_congr_iff {dims strides strides' : List Int} (hpos : ∀ d ∈ dims, 0 < d)
    (hlen : strides.length = dims.length) (hlen' : strides'.length = dims.length) :
    (∀ idx, InBounds dims idx → offset idx strides = offset idx strides') ↔
      SameSteps dims strides strides' := by
  induction dims generalizing strides strides' with
  | nil =>
      rw [List.length_eq_zero_iff.mp hlen, List.length_eq_zero_iff.mp hlen']
      simp [SameSteps]
  | cons d ds ih =>
      obtain ⟨s, ss, rfl⟩ := List.exists_cons_of_length_eq_add_one hlen
      obtain ⟨r, rs, rfl⟩ := List.exists_cons_of_length_eq_add_one hlen'
      have hds : ∀ e ∈ ds, 0 < e := fun e he => hpos e (by simp [he])
      have hd : 0 < d := hpos d (by simp)
      have htail := ih hds (by simpa using hlen) (by simpa using hlen')
      have hsteps : SameSteps (d :: ds) (s :: ss) (r :: rs) ↔
          (d = 1 ∨ s = r) ∧ SameSteps ds ss rs := by
        constructor
        · intro h
          refine ⟨by simpa using h 0 (by simp), fun k hk => ?_⟩
          simpa using h (k + 1) (by simpa using hk)
        · rintro ⟨hhead, h⟩ k hk
          cases k with
          | zero => simpa using hhead
          | succ k => simpa using h k (by simpa using hk)
      rw [hsteps, ← htail]
      constructor
      · intro h
        refine ⟨?_, ?_⟩
        · by_cases hone : d = 1
          · exact Or.inl hone
          · have hstep := h (1 :: List.replicate ds.length 0)
              ⟨⟨by omega, by omega⟩, zeros_inBounds hds⟩
            simp only [offset_cons, offset_zeros] at hstep
            exact Or.inr (by omega)
        · intro idx hidx
          have hrest := h (0 :: idx) ⟨⟨le_rfl, hd⟩, hidx⟩
          simpa using hrest
      · rintro ⟨hhead, h⟩ idx hidx
        cases idx with
        | nil => exact absurd hidx id
        | cons i is =>
            rw [offset_cons, offset_cons, h is hidx.2]
            rcases hhead with rfl | rfl
            · have hi : i = 0 := by
                have := hidx.1
                omega
              rw [hi, zero_mul, zero_mul]
            · rfl

@[simp]
theorem length_coarse (axis : Nat) (g : Int) (xs : List Int) :
    (coarse axis g xs).length = xs.length := by
  simp [coarse]

theorem getD_coarse (axis : Nat) (g : Int) (xs : List Int) (k : Nat) :
    (coarse axis g xs).getD k 0 = if k = axis then xs.getD k 0 / g else xs.getD k 0 := by
  unfold coarse
  rw [List.getD_eq_getElem?_getD, List.getElem?_modify, List.getD_eq_getElem?_getD]
  by_cases hk : k = axis
  · subst hk
    cases xs[k]? <;> simp
  · have hne : axis ≠ k := fun h => hk h.symm
    cases xs[k]? <;> simp [hk, hne]

@[simp]
theorem coarse_one (axis : Nat) (xs : List Int) : coarse axis 1 xs = xs := by
  apply list_ext_getD (length_coarse axis 1 xs)
  intro k _
  rw [getD_coarse, Int.ediv_one, ite_self]

theorem drop_coarse (axis : Nat) (g : Int) (xs : List Int) :
    (coarse axis g xs).drop (axis + 1) = xs.drop (axis + 1) := by
  unfold coarse
  induction axis generalizing xs with
  | zero => cases xs <;> simp
  | succ axis ih =>
      cases xs with
      | nil => simp
      | cons x xs => simpa using ih xs

theorem behind_zero (d : Int) (ds : List Int) : behind 0 (d :: ds) = ds.prod := by
  simp [behind]

theorem behind_succ (axis : Nat) (d : Int) (ds : List Int) :
    behind (axis + 1) (d :: ds) = behind axis ds := by
  simp [behind]

theorem behind_pos (axis : Nat) {dims : List Int} (hpos : ∀ d ∈ dims, 0 < d) :
    0 < behind axis dims :=
  prod_pos fun d hd => hpos d (List.mem_of_mem_drop hd)

theorem behind_dvd_coarse (axis : Nat) (g : Int) (dims : List Int) :
    behind axis dims ∣ (coarse axis g dims).prod := by
  unfold behind
  rw [← drop_coarse axis g dims]
  exact ⟨_, (List.prod_take_mul_prod_drop _ (axis + 1)).symm.trans (mul_comm _ _)⟩

section Coarse

variable {axis : Nat} {g : Int} {dims idx : List Int} (hg : 0 < g)
variable (hdvd : g ∣ dims.getD axis 0)

include hg hdvd

theorem coarse_pos (hpos : ∀ d ∈ dims, 0 < d) : ∀ d ∈ coarse axis g dims, 0 < d := by
  intro d hd
  obtain ⟨k, hk, rfl⟩ := List.getElem_of_mem hd
  have hlt : k < dims.length := by simpa using hk
  have hdim : 0 < dims.getD k 0 := by
    rw [List.getD_eq_getElem _ _ hlt]
    exact hpos _ (List.getElem_mem hlt)
  have hval := getD_coarse axis g dims k
  rw [List.getD_eq_getElem _ _ hk] at hval
  rw [hval]
  split
  · next hka =>
      subst hka
      exact Int.ediv_pos_of_pos_of_dvd hdim hg.le hdvd
  · exact hdim

theorem coarse_inBounds (h : InBounds dims idx) :
    InBounds (coarse axis g dims) (coarse axis g idx) := by
  rw [inBounds_iff_getD] at h ⊢
  refine ⟨by simpa using h.1, fun k hk => ?_⟩
  obtain ⟨hlo, hhi⟩ := h.2 k (by simpa using hk)
  rw [getD_coarse, getD_coarse]
  split
  · next hka =>
      subst hka
      refine ⟨Int.ediv_nonneg hlo hg.le, ?_⟩
      apply Int.ediv_lt_of_lt_mul hg
      rwa [Int.ediv_mul_cancel hdvd]
  · exact ⟨hlo, hhi⟩

/-- Every group has an element. -/
theorem exists_coarse (h : InBounds (coarse axis g dims) idx) :
    ∃ p, InBounds dims p ∧ coarse axis g p = idx := by
  have hget : ∀ k, (idx.modify axis (· * g)).getD k 0 =
      if k = axis then idx.getD k 0 * g else idx.getD k 0 := by
    intro k
    rw [List.getD_eq_getElem?_getD, List.getElem?_modify, List.getD_eq_getElem?_getD]
    by_cases hk : k = axis
    · subst hk
      cases idx[k]? <;> simp
    · have hne : axis ≠ k := fun h => hk h.symm
      cases idx[k]? <;> simp [hk, hne]
  rw [inBounds_iff_getD] at h
  simp only [length_coarse] at h
  refine ⟨idx.modify axis (· * g), ?_, ?_⟩
  · rw [inBounds_iff_getD]
    refine ⟨by simpa using h.1, fun k hk => ?_⟩
    obtain ⟨hlo, hhi⟩ := h.2 k hk
    rw [getD_coarse] at hhi
    rw [hget]
    split at hhi
    · next hka =>
        subst hka
        rw [if_pos rfl]
        refine ⟨mul_nonneg hlo hg.le, ?_⟩
        calc
          idx.getD k 0 * g < dims.getD k 0 / g * g := mul_lt_mul_of_pos_right hhi hg
          _ = dims.getD k 0 := Int.ediv_mul_cancel hdvd
    · next hka =>
        rw [if_neg hka]
        exact ⟨hlo, hhi⟩
  · apply list_ext_getD (by simp)
    intro k _
    rw [getD_coarse, hget]
    split
    · exact Int.mul_ediv_cancel _ hg.ne'
    · rfl

omit hg in
theorem prod_coarse (haxis : axis < dims.length) : (coarse axis g dims).prod * g = dims.prod := by
  unfold coarse
  induction dims generalizing axis with
  | nil => simp at haxis
  | cons d ds ih =>
      cases axis with
      | zero =>
          have hdvd : g ∣ d := by simpa using hdvd
          rw [List.modify_zero_cons, List.prod_cons, List.prod_cons, mul_right_comm,
            Int.ediv_mul_cancel hdvd]
      | succ axis =>
          rw [List.modify_succ_cons, List.prod_cons, List.prod_cons, mul_assoc,
            ih (by simpa using hdvd) (by simpa using haxis)]

/-- The number of a group from the row-major rank of one of its elements. -/
theorem groupRank_eq (haxis : axis < dims.length) (h : InBounds dims idx) :
    groupRank axis g dims idx =
      linear dims idx / (behind axis dims * g) * behind axis dims +
        linear dims idx % behind axis dims := by
  unfold groupRank
  induction dims generalizing axis idx with
  | nil => simp at haxis
  | cons d ds ih =>
      cases idx with
      | nil => exact absurd h id
      | cons i is =>
          have hpos := dims_pos_of_inBounds h.2
          cases axis with
          | zero =>
              have hlo := linear_nonneg h.2
              have hhi := linear_lt_prod h.2
              have hprod := prod_pos hpos
              have hsplit : linear (d :: ds) (i :: is) = linear ds is + ds.prod * i := by
                simp only [linear, rowMajor, offset_cons]
                ring
              have hcoarse : linear (coarse 0 g (d :: ds)) (coarse 0 g (i :: is)) =
                  i / g * ds.prod + linear ds is := by
                simp [coarse, linear, rowMajor]
              rw [hcoarse, hsplit, behind_zero,
                ← Int.ediv_ediv_of_nonneg hprod.le, Int.add_mul_ediv_left _ _ hprod.ne',
                Int.add_mul_emod_self_left, Int.ediv_eq_zero_of_lt hlo hhi,
                Int.emod_eq_of_lt hlo hhi, zero_add]
          | succ axis =>
              have hdvd' : g ∣ ds.getD axis 0 := by simpa using hdvd
              have haxis' : axis < ds.length := by simpa using haxis
              have htail := ih hdvd' haxis' h.2
              have hprod := prod_coarse hdvd' haxis'
              obtain ⟨c, hc⟩ := behind_dvd_coarse axis g ds
              have hbehind : 0 < behind axis ds := behind_pos axis hpos
              have hsplit : linear (d :: ds) (i :: is) =
                  linear ds is + behind axis ds * g * (c * i) := by
                simp only [linear, rowMajor, offset_cons]
                rw [← hprod, hc]
                ring
              have hcoarse : linear (coarse (axis + 1) g (d :: ds))
                  (coarse (axis + 1) g (i :: is)) =
                    i * (coarse axis g ds).prod + linear (coarse axis g ds) (coarse axis g is) := by
                simp [coarse, linear, rowMajor]
              have hstep : 0 < behind axis ds * g := mul_pos hbehind hg
              rw [hcoarse, htail, hsplit, behind_succ,
                Int.add_mul_ediv_left _ _ hstep.ne', mul_assoc _ g, Int.add_mul_emod_self_left, hc]
              ring

omit hg in
/-- A group and what lies behind its axis fit the box a whole number of times. -/
theorem behind_mul_dvd (haxis : axis < dims.length) : behind axis dims * g ∣ dims.prod := by
  rw [← prod_coarse hdvd haxis]
  exact mul_dvd_mul_right (behind_dvd_coarse axis g dims) g

/-- A property of the groups of all elements is a property of all groups. -/
theorem forall_coarse {P : List Int → Prop} :
    (∀ p, InBounds dims p → P (coarse axis g p)) ↔ ∀ p, InBounds (coarse axis g dims) p → P p := by
  constructor
  · intro h p hp
    obtain ⟨q, hq, rfl⟩ := exists_coarse hg hdvd hp
    exact h q hq
  · intro h p hp
    exact h _ (coarse_inBounds hg hdvd hp)

/-- Only the elements of the first group have the group number zero. -/
theorem coarse_of_groupRank (h : InBounds dims idx) (hzero : groupRank axis g dims idx = 0) :
    coarse axis g idx = List.replicate dims.length 0 := by
  have := eq_zeros_of_linear (coarse_inBounds hg hdvd h) hzero
  rwa [length_coarse] at this

omit hg in
/-- The index of the first group that lies `i` positions along the axis. -/
theorem first_group {i : Int} (hpos : ∀ d ∈ dims, 0 < d) (hlo : 0 ≤ i) (hhi : i < g) :
    InBounds dims ((List.replicate dims.length 0).set axis i) ∧
      coarse axis g ((List.replicate dims.length 0).set axis i) =
        List.replicate dims.length 0 := by
  have hget : ∀ k < dims.length, ((List.replicate dims.length 0).set axis i).getD k 0 =
      if k = axis then i else 0 := by
    intro k hk
    rw [List.getD_eq_getElem?_getD, List.getElem?_set]
    by_cases hka : k = axis
    · subst hka
      simp [hk]
    · have hne : axis ≠ k := fun h => hka h.symm
      simp [hk, hka, hne]
  refine ⟨?_, ?_⟩
  · rw [inBounds_iff_getD]
    refine ⟨by simp, fun k hk => ?_⟩
    have hdim : 0 < dims.getD k 0 := by
      rw [List.getD_eq_getElem _ _ hk]
      exact hpos _ (List.getElem_mem hk)
    rw [hget k hk]
    split
    · next hka =>
        subst hka
        exact ⟨hlo, hhi.trans_le (Int.le_of_dvd hdim hdvd)⟩
    · exact ⟨le_rfl, hdim⟩
  · apply list_ext_getD (by simp)
    intro k hk
    have hlt : k < dims.length := by simpa using hk
    rw [getD_coarse, hget k hlt, List.getD_replicate _ hlt]
    split
    · exact Int.ediv_eq_zero_of_lt hlo hhi
    · rfl

end Coarse

/-! A box read through other dimensions. -/

section Regrouped

variable {axis : Nat} {g : Int} {dims vdims : List Int} {map : List Int → List Int}

theorem eq_one_of_prod (hg : 0 < g) (hdvd : g ∣ dims.getD axis 0) (haxis : axis < dims.length)
    (hprod : dims.prod = 1) : g = 1 := by
  have hone : g ∣ 1 := by
    rw [← hprod]
    exact (dvd_mul_left g _).trans (behind_mul_dvd hdvd haxis)
  exact Int.eq_one_of_dvd_one hg.le hone

/-- Groups of more than one element tell apart what lies behind their axes. -/
theorem regroup_ne {q q' : Int} (hq : 0 < q) (hg : 1 < g) (hlt : q < q') :
    q / (q * g) * q + q % q ≠ q / (q' * g) * q' + q % q' := by
  have hfst : q < q * g := lt_mul_of_one_lt_right hq hg
  have hsnd : q < q' * g := hlt.trans (lt_mul_of_one_lt_right (hq.trans hlt) hg)
  rw [Int.ediv_eq_zero_of_lt hq.le hfst, Int.ediv_eq_zero_of_lt hq.le hsnd, Int.emod_self,
    Int.emod_eq_of_lt hq.le hlt]
  omega

/-- Elements that keep their rank keep their groups exactly when a group is one element, or
as many elements lie behind the group axis as before. -/
theorem groupRank_regroup_iff (hg : 0 < g) (hpos : ∀ d ∈ dims, 0 < d) (hvpos : ∀ d ∈ vdims, 0 < d)
    (hdvd : g ∣ dims.getD axis 0) (hvdvd : g ∣ vdims.getD axis 0)
    (haxis : dims ≠ [] → axis < dims.length) (hvaxis : vdims ≠ [] → axis < vdims.length)
    (hprod : vdims.prod = dims.prod)
    (hemb : Embeds dims (rowMajor dims) vdims (rowMajor vdims) 0 map) :
    (∀ idx, InBounds vdims idx →
        groupRank axis g vdims idx = groupRank axis g dims (map idx)) ↔
      g = 1 ∨ behind axis vdims = behind axis dims := by
  have hlin : ∀ idx, InBounds vdims idx → linear dims (map idx) = linear vdims idx := by
    intro idx hidx
    simpa [linear] using hemb.offset_map idx hidx
  by_cases hone : g = 1
  · subst hone
    simp only [true_or, iff_true, groupRank, coarse_one]
    intro idx hidx
    exact (hlin idx hidx).symm
  by_cases hnil : dims = []
  · have hvnil : vdims = [] := by
      by_contra hne
      rw [hnil, List.prod_nil] at hprod
      exact hone (eq_one_of_prod hg hvdvd (hvaxis hne) hprod)
    subst hnil hvnil
    simp only [or_true, iff_true]
    intro idx hidx
    simp [groupRank, linear, coarse, rowMajor]
  · have hvne : vdims ≠ [] := by
      rintro rfl
      rw [List.prod_nil] at hprod
      exact hone (eq_one_of_prod hg hdvd (haxis hnil) hprod.symm)
    have hrank : ∀ idx, InBounds vdims idx →
        (groupRank axis g vdims idx = groupRank axis g dims (map idx) ↔
          linear vdims idx / (behind axis vdims * g) * behind axis vdims +
              linear vdims idx % behind axis vdims =
            linear vdims idx / (behind axis dims * g) * behind axis dims +
              linear vdims idx % behind axis dims) := by
      intro idx hidx
      rw [groupRank_eq hg hvdvd (hvaxis hvne) hidx,
        groupRank_eq hg hdvd (haxis hnil) (hemb.inBounds idx hidx), hlin idx hidx]
    have hq := behind_pos axis hpos
    have hvq := behind_pos axis hvpos
    have hg' : 1 < g := by omega
    constructor
    · intro h
      right
      have hbelow : ∀ n, 0 ≤ n → n < vdims.prod →
          n / (behind axis vdims * g) * behind axis vdims + n % behind axis vdims =
            n / (behind axis dims * g) * behind axis dims + n % behind axis dims := by
        intro n hlo hhi
        have hin := unravel_inBounds hvpos hlo hhi
        have := (hrank _ hin).mp (h _ hin)
        rwa [linear_unravel hvpos hlo hhi] at this
      have hfits : behind axis dims < vdims.prod := by
        rw [hprod]
        exact (lt_mul_of_one_lt_right hq hg').trans_le
          (Int.le_of_dvd (prod_pos hpos) (behind_mul_dvd hdvd (haxis hnil)))
      have hvfits : behind axis vdims < vdims.prod :=
        (lt_mul_of_one_lt_right hvq hg').trans_le
          (Int.le_of_dvd (prod_pos hvpos) (behind_mul_dvd hvdvd (hvaxis hvne)))
      rcases lt_trichotomy (behind axis vdims) (behind axis dims) with hlt | heq | hlt
      · exact absurd (hbelow _ hvq.le hvfits) (regroup_ne hvq hg' hlt)
      · exact heq
      · exact absurd (hbelow _ hq.le hfits).symm (regroup_ne hq hg' hlt)
    · rintro (h | h)
      · exact absurd h hone
      · intro idx hidx
        rw [hrank idx hidx, h]

end Regrouped

/-! A part of a box. -/

theorem length_shift {starts idx : List Int} : (shift starts idx).length = idx.length := by
  induction starts generalizing idx with
  | nil => rfl
  | cons a starts ih =>
      cases idx with
      | nil => rfl
      | cons i idx => simp [shift, ih]

theorem getD_shift {starts idx : List Int} (hlen : starts.length ≤ idx.length) (k : Nat) :
    (shift starts idx).getD k 0 = idx.getD k 0 + starts.getD k 0 := by
  induction starts generalizing idx k with
  | nil => simp [shift]
  | cons a starts ih =>
      cases idx with
      | nil => simp at hlen
      | cons i idx =>
          cases k with
          | zero => simp [shift]
          | succ k => simpa [shift] using ih (by simpa using hlen) k

theorem modify_eq_shift {idx : List Int} {axis : Nat} {a : Int} (h : axis < idx.length) :
    idx.modify axis (· + a) = shift (List.replicate axis 0 ++ [a]) idx := by
  induction axis generalizing idx with
  | zero =>
      obtain ⟨i, is, rfl⟩ := List.exists_cons_of_length_pos h
      rfl
  | succ axis ih =>
      obtain ⟨i, is, rfl⟩ := List.exists_cons_of_length_pos (Nat.zero_lt_of_lt h)
      rw [List.replicate_succ, List.cons_append, shift, List.modify_succ_cons, add_zero,
        ih (by simpa using h)]

section Narrowed

variable {axis : Nat} {g : Int} {dims vdims starts : List Int}

/-- The elements of a part keep their groups exactly when the part begins where the box does
and the groups it spans are numbered in the same steps. -/
theorem groupRank_narrow_iff (hg : 0 < g) (hvpos : ∀ d ∈ vdims, 0 < d)
    (hdvd : g ∣ dims.getD axis 0) (hvdvd : g ∣ vdims.getD axis 0)
    (hrank : vdims.length = dims.length) (hlen : starts.length ≤ vdims.length)
    (hstarts : ∀ a ∈ starts, 0 ≤ a)
    (hin : ∀ idx, InBounds vdims idx → InBounds dims (shift starts idx)) :
    (∀ idx, InBounds vdims idx →
        groupRank axis g vdims idx = groupRank axis g dims (shift starts idx)) ↔
      (∀ a ∈ starts, a = 0) ∧
        SameSteps (coarse axis g vdims) (rowMajor (coarse axis g vdims))
          (rowMajor (coarse axis g dims)) := by
  have hid : (∀ a ∈ starts, a = 0) → ∀ idx, InBounds vdims idx → shift starts idx = idx := by
    intro hzero idx hidx
    apply list_ext_getD length_shift
    intro k _
    rw [getD_shift (by rw [hidx.length_eq]; exact hlen)]
    rcases lt_or_ge k starts.length with hk | hk
    · rw [List.getD_eq_getElem starts _ hk, hzero _ (List.getElem_mem hk), add_zero]
    · rw [List.getD_eq_default starts _ hk, add_zero]
  have hsteps : (∀ idx, InBounds vdims idx →
        groupRank axis g vdims idx = groupRank axis g dims idx) ↔
      SameSteps (coarse axis g vdims) (rowMajor (coarse axis g vdims))
        (rowMajor (coarse axis g dims)) := by
    unfold groupRank linear
    rw [@forall_coarse axis g vdims hg hvdvd fun p =>
      offset p (rowMajor (coarse axis g vdims)) = offset p (rowMajor (coarse axis g dims))]
    exact offset_congr_iff (coarse_pos hg hvdvd hvpos) (by simp) (by simp [hrank])
  constructor
  · intro h
    have hzero : ∀ a ∈ starts, a = 0 := by
      obtain ⟨hfirst, hcoarse⟩ :=
        first_group hvdvd hvpos (by omega : 0 ≤ g - 1) (by omega : g - 1 < g)
      have hgroup := h _ hfirst
      rw [groupRank, hcoarse, linear, offset_zeros] at hgroup
      have hall := coarse_of_groupRank hg hdvd (hin _ hfirst) hgroup.symm
      intro a ha
      obtain ⟨k, hk, rfl⟩ := List.getElem_of_mem ha
      have hk' : k < vdims.length := hk.trans_le hlen
      have hval := congrArg (fun xs => xs.getD k 0) hall
      simp only [List.getD_replicate _ (hrank ▸ hk')] at hval
      rw [getD_coarse, getD_shift (by simpa using hlen), List.getD_eq_getElem starts _ hk] at hval
      have hnonneg := hstarts _ (List.getElem_mem hk)
      by_cases hka : k = axis
      · subst hka
        rw [if_pos rfl, List.getD_eq_getElem _ _ (by simpa using hk'), List.getElem_set_self]
          at hval
        have hlt := Int.lt_ediv_add_one_mul_self (g - 1 + starts[k]) hg
        rw [hval] at hlt
        omega
      · have hne : axis ≠ k := fun heq => hka heq.symm
        rw [if_neg hka, List.getD_eq_getElem _ _ (by simpa using hk'), List.getElem_set_ne hne]
          at hval
        simpa using hval
    refine ⟨hzero, hsteps.mp fun idx hidx => ?_⟩
    have := h idx hidx
    rwa [hid hzero idx hidx] at this
  · rintro ⟨hzero, hsame⟩ idx hidx
    rw [hid hzero idx hidx]
    exact hsteps.mpr hsame idx hidx

end Narrowed

/-! A box with its axes in another order. -/

/-- Axis `k` of the new order is axis `σ k` of the old one. `fwd` reorders lists of dimensions
and of strides, and `back` takes an index in the new order to the index in the old one. -/
structure Reorders (n : Nat) (σ : Nat → Nat) (fwd back : List Int → List Int) : Prop where
  fixes : ∀ k, n ≤ k → σ k = k
  lt : ∀ k < n, σ k < n
  inj : ∀ k < n, ∀ l < n, σ k = σ l → k = l
  onto : ∀ l < n, ∃ k < n, σ k = l
  length_fwd : ∀ xs, xs.length = n → (fwd xs).length = n
  getD_fwd : ∀ xs, xs.length = n → ∀ k < n, (fwd xs).getD k 0 = xs.getD (σ k) 0
  length_back : ∀ xs, xs.length = n → (back xs).length = n
  getD_back : ∀ xs, xs.length = n → ∀ k < n, (back xs).getD (σ k) 0 = xs.getD k 0
  embeds : ∀ dims strides, dims.length = n → strides.length = n →
    Embeds dims strides (fwd dims) (fwd strides) 0 back

section Reordered

variable {n axis : Nat} {g : Int} {σ : Nat → Nat} {fwd back : List Int → List Int}
variable (h : Reorders n σ fwd back)

include h

/-- An axis that stays in its place is counted in groups before or after the reordering. -/
theorem Reorders.coarse_fwd (hfix : g = 1 ∨ σ axis = axis) {xs : List Int} (hlen : xs.length = n) :
    coarse axis g (fwd xs) = fwd (coarse axis g xs) := by
  rcases hfix with rfl | hfix
  · simp
  have hfwd := h.length_fwd xs hlen
  apply list_ext_getD
  · rw [length_coarse, hfwd, h.length_fwd _ (by simpa using hlen)]
  · intro k hk
    rw [length_coarse, hfwd] at hk
    rw [getD_coarse, h.getD_fwd _ hlen k hk, h.getD_fwd _ (by simpa using hlen) k hk, getD_coarse]
    by_cases hka : k = axis
    · subst hka
      rw [if_pos rfl, if_pos hfix]
    · rw [if_neg hka, if_neg]
      intro hσ
      rcases lt_or_ge axis n with haxis | haxis
      · exact hka (h.inj k hk axis haxis (hσ.trans hfix.symm))
      · have := h.lt k hk
        omega

theorem Reorders.coarse_back (hfix : g = 1 ∨ σ axis = axis) {xs : List Int}
    (hlen : xs.length = n) : coarse axis g (back xs) = back (coarse axis g xs) := by
  rcases hfix with rfl | hfix
  · simp
  have hback := h.length_back xs hlen
  apply list_ext_getD
  · rw [length_coarse, hback, h.length_back _ (by simpa using hlen)]
  · intro l hl
    rw [length_coarse, hback] at hl
    obtain ⟨k, hk, rfl⟩ := h.onto l hl
    rw [getD_coarse, h.getD_back _ hlen k hk, h.getD_back _ (by simpa using hlen) k hk,
      getD_coarse]
    by_cases hka : k = axis
    · subst hka
      rw [if_pos rfl, if_pos hfix]
    · rw [if_neg hka, if_neg]
      intro hσ
      rcases lt_or_ge axis n with haxis | haxis
      · exact hka (h.inj k hk axis haxis (hσ.trans hfix.symm))
      · have := h.lt k hk
        omega

/-- The elements keep their groups exactly when the group axis stays in its place, or a group
is one element, and the groups are numbered in the steps of the old order. -/
theorem groupRank_reorder_iff {dims : List Int} (hrank : dims.length = n) (hg : 0 < g)
    (hvpos : ∀ d ∈ fwd dims, 0 < d) (hdvd : g ∣ dims.getD axis 0)
    (hvdvd : g ∣ (fwd dims).getD axis 0) :
    (∀ idx, InBounds (fwd dims) idx →
        groupRank axis g (fwd dims) idx = groupRank axis g dims (back idx)) ↔
      (g = 1 ∨ σ axis = axis) ∧
        SameSteps (coarse axis g (fwd dims)) (rowMajor (coarse axis g (fwd dims)))
          (fwd (rowMajor (coarse axis g dims))) := by
  have hin := fun idx hidx =>
    (h.embeds dims (rowMajor dims) hrank (by simpa using hrank)).inBounds idx hidx
  have hsteps : (g = 1 ∨ σ axis = axis) → ((∀ idx, InBounds (fwd dims) idx →
        groupRank axis g (fwd dims) idx = groupRank axis g dims (back idx)) ↔
      SameSteps (coarse axis g (fwd dims)) (rowMajor (coarse axis g (fwd dims)))
        (fwd (rowMajor (coarse axis g dims)))) := by
    intro hfix
    have hemb := h.embeds (coarse axis g dims) (rowMajor (coarse axis g dims))
      (by simpa using hrank) (by simpa using hrank)
    rw [← h.coarse_fwd hfix hrank] at hemb
    have hrank' : ∀ idx, InBounds (fwd dims) idx →
        (groupRank axis g (fwd dims) idx = groupRank axis g dims (back idx) ↔
          offset (coarse axis g idx) (rowMajor (coarse axis g (fwd dims))) =
            offset (coarse axis g idx) (fwd (rowMajor (coarse axis g dims)))) := by
      intro idx hidx
      have hlen : idx.length = n := hidx.length_eq.trans (h.length_fwd dims hrank)
      have hmap := hemb.offset_map _ (coarse_inBounds hg hvdvd hidx)
      rw [groupRank, groupRank, linear, linear, h.coarse_back hfix hlen, hmap, zero_add]
    rw [forall₂_congr hrank', @forall_coarse axis g (fwd dims) hg hvdvd fun p =>
      offset p (rowMajor (coarse axis g (fwd dims))) =
        offset p (fwd (rowMajor (coarse axis g dims)))]
    apply offset_congr_iff (coarse_pos hg hvdvd hvpos) (by simp)
    rw [h.length_fwd _ (by simpa using hrank), length_coarse, h.length_fwd dims hrank]
  constructor
  · intro hall
    have hfix : g = 1 ∨ σ axis = axis := by
      by_contra hne
      rw [not_or] at hne
      have haxis : axis < n := by
        by_contra hge
        exact hne.2 (h.fixes axis (not_lt.mp hge))
      obtain ⟨hfirst, hcoarse⟩ :=
        first_group hvdvd hvpos (by omega : (0 : Int) ≤ 1) (by omega : 1 < g)
      have hgroup := hall _ hfirst
      rw [groupRank, hcoarse, linear, offset_zeros] at hgroup
      have hzeros := coarse_of_groupRank hg hdvd (hin _ hfirst) hgroup.symm
      have hval := congrArg (fun xs => xs.getD (σ axis) 0) hzeros
      have hfwd := h.length_fwd dims hrank
      simp only [List.getD_replicate _ (hrank.symm ▸ h.lt axis haxis : σ axis < dims.length),
        getD_coarse, if_neg hne.2] at hval
      rw [h.getD_back _ (by simpa using hfwd) axis haxis,
        List.getD_eq_getElem _ _ (by simpa [hfwd]), List.getElem_set_self] at hval
      exact absurd hval one_ne_zero
    exact ⟨hfix, (hsteps hfix).mp hall⟩
  · rintro ⟨hfix, hsame⟩
    exact (hsteps hfix).mpr hsame

end Reordered

theorem permute_reorders {n : Nat} {perm : List Nat} (hperm : perm.Perm (List.range n)) :
    Reorders n (fun k => perm.getD k k) (gather perm) (scatter perm) := by
  have hlen : perm.length = n := by simpa using hperm.length_eq
  have hnodup : perm.Nodup := hperm.nodup_iff.mpr List.nodup_range
  have hmem : ∀ k, k ∈ perm ↔ k < n := by
    intro k
    rw [hperm.mem_iff, List.mem_range]
  have hget : ∀ k (hk : k < perm.length), perm.getD k k = perm[k] := fun k hk =>
    List.getD_eq_getElem _ _ hk
  refine ⟨?_, ?_, ?_, ?_, ?_, ?_, ?_, ?_, ?_⟩
  · intro k hk
    exact List.getD_eq_default _ _ (hlen ▸ hk)
  · intro k hk
    have hk' : k < perm.length := hlen ▸ hk
    rw [hget k hk']
    exact (hmem _).mp (List.getElem_mem hk')
  · intro k hk l hl heq
    have hk' : k < perm.length := hlen ▸ hk
    have hl' : l < perm.length := hlen ▸ hl
    simp only [hget k hk', hget l hl'] at heq
    exact (hnodup.getElem_inj_iff).mp heq
  · intro l hl
    obtain ⟨k, hk, hkl⟩ := List.getElem_of_mem ((hmem l).mpr hl)
    exact ⟨k, hlen ▸ hk, by rw [hget k hk, hkl]⟩
  · intro xs _
    simpa [gather] using hlen
  · intro xs _ k hk
    have hk' : k < perm.length := hlen ▸ hk
    rw [getD_gather hk', hget k hk']
  · intro xs _
    simpa [scatter] using hlen
  · intro xs _ k hk
    have hk' : k < perm.length := hlen ▸ hk
    have hpos : perm[k] < perm.length := by
      rw [hlen]
      exact (hmem _).mp (List.getElem_mem hk')
    rw [hget k hk', getD_scatter hpos, hnodup.idxOf_getElem]
  · intro dims strides hdims hstrides
    rw [← hdims] at hperm
    exact permute_embeds hperm (hstrides.trans hdims.symm)

theorem swap_reorders {n a b : Nat} (ha : a < n) (hb : b < n) :
    Reorders n (Equiv.swap a b) (fun xs => swapAt xs a b) (fun xs => swapAt xs a b) := by
  have hlt : ∀ k < n, Equiv.swap a b k < n := by
    intro k hk
    rw [Equiv.swap_apply_def]
    split
    · exact hb
    · split
      · exact ha
      · exact hk
  refine ⟨?_, hlt, ?_, ?_, ?_, ?_, ?_, ?_, ?_⟩
  · intro k hk
    exact Equiv.swap_apply_of_ne_of_ne (by omega) (by omega)
  · intro k _ l _ heq
    exact (Equiv.swap a b).injective heq
  · intro l hl
    exact ⟨Equiv.swap a b l, hlt l hl, Equiv.swap_apply_self a b l⟩
  · intro xs hlen
    rw [length_swapAt, hlen]
  · intro xs hlen k _
    exact getD_swapAt (hlen ▸ ha) (hlen ▸ hb)
  · intro xs hlen
    rw [length_swapAt, hlen]
  · intro xs hlen k _
    rw [getD_swapAt (hlen ▸ ha) (hlen ▸ hb), Equiv.swap_apply_self]
  · intro dims strides hdims hstrides
    exact transpose_embeds (hdims ▸ ha) (hdims ▸ hb) (hstrides.trans hdims.symm)

end Strided

import Hummingbird.Tensor.Shape

/-!
Element strides: the row-major fill, the contiguity test, the validator and the
reachable span. The loops of the source that run over the axes from the last to
the first are recursions on the tail of the dimension list.
-/

namespace Hummingbird

/-- The loop of `hbi_strides_init_contiguous` over the axes from the right: the
strides written so far and the running product. -/
def stridesInitLoop : List Int → Result (List Int × Int)
  | [] => .ok ([], 1)
  | d :: ds => do
      let (strides, acc) ← stridesInitLoop ds
      match mulOvfI64 acc d with
      | none => errSet .corrupt "strides_init: overflow"
      | some next => return (acc :: strides, next)

def hbiStridesInitContiguous (s : Shape) : Result (List Int) := do
  hbiShapeValidate s
  let (strides, _) ← stridesInitLoop s.dims
  return strides

/-- The loop of `hbi_strides_is_contiguous` over the axes from the right: whether
every stride matched so far, and the running product. -/
def contiguousLoop : List Int → List Int → Bool × Int
  | s :: ss, d :: ds =>
      let (same, acc) := contiguousLoop ss ds
      (same && s == acc, acc * d)
  | _, _ => (true, 1)

def hbiStridesIsContiguous (strides : List Int) (s : Shape) : Bool :=
  if strides.length ≠ s.rank then false else (contiguousLoop strides s.dims).1

/-- The loop of `hbi_strides_validate`, with the largest offset so far. -/
def stridesValidateLoop (i : Nat) (maxOff : Int) : List Int → List Int → Result Unit
  | s :: ss, d :: ds =>
      if s < 0 then errSet .invalidArg s!"strides_validate: negative stride[{i}]"
      else
        match mulOvfI64 (d - 1) s with
        | none => errSet .corrupt "strides_validate: offset overflow"
        | some term =>
          if maxOff > int64Max - term then
            errSet .corrupt "strides_validate: offset overflow"
          else stridesValidateLoop (i + 1) (maxOff + term) ss ds
  | _, _ => .ok ()

def hbiStridesValidate (strides : List Int) (s : Shape) : Result Unit :=
  if strides.length ≠ s.rank then
    errSet .invalidArg s!"strides_validate: rank {strides.length} != shape rank {s.rank}"
  else stridesValidateLoop 0 0 strides s.dims

def spanElemsLoop (maxOff : Int) : List Int → List Int → Result Int
  | d :: ds, s :: ss =>
      match mulOvfI64 (d - 1) s with
      | none => errSet .corrupt "span_elems: overflow"
      | some term => spanElemsLoop (wrapI64 (maxOff + term)) ds ss
  | _, _ => .ok maxOff

/-- One past the last addressable element of a strided layout. -/
def spanElems (s : Shape) (strides : List Int) : Result Int := do
  let maxOff ← spanElemsLoop 0 s.dims strides
  return wrapI64 (maxOff + 1)

/-- Byte offset of the element at a multi-index. -/
def elemByteOffset (strides idx : List Int) (bits : Nat) : Int :=
  (Strided.offset idx strides * bits).tdiv 8

theorem stridesInitLoop_of_pos {dims : List Int} (hpos : ∀ d ∈ dims, 0 < d)
    (hle : dims.prod ≤ int64Max) :
    stridesInitLoop dims = .ok (Strided.rowMajor dims, dims.prod) := by
  induction dims with
  | nil => rfl
  | cons d ds ih =>
      have hdpos : 0 < d := hpos d (by simp)
      have hrest : ∀ e ∈ ds, 0 < e := fun e he => hpos e (by simp [he])
      have hprod : 0 < ds.prod := Strided.prod_pos hrest
      rw [List.prod_cons] at hle
      have htail : ds.prod ≤ int64Max := by
        calc
          ds.prod = 1 * ds.prod := (one_mul _).symm
          _ ≤ d * ds.prod := mul_le_mul_of_nonneg_right hdpos hprod.le
          _ ≤ int64Max := hle
      have hmul : mulOvfI64 ds.prod d = some (ds.prod * d) :=
        mulOvfI64_of_fits (mul_pos hprod hdpos).le (by rw [mul_comm]; exact hle)
      simp [stridesInitLoop, ih hrest htail, hmul, Strided.rowMajor, bind, Except.bind,
        pure, Except.pure, mul_comm]

/-- A valid shape is given its row-major strides. -/
theorem Shape.Valid.stridesInit {s : Shape} (h : s.Valid) :
    hbiStridesInitContiguous s = .ok (Strided.rowMajor s.dims) := by
  simp [hbiStridesInitContiguous, hbiShapeValidate_eq_ok.mpr h,
    stridesInitLoop_of_pos h.dims_pos h.prod_le, bind, Except.bind, pure, Except.pure]

private theorem contiguousLoop_snd {strides dims : List Int}
    (hlen : strides.length = dims.length) : (contiguousLoop strides dims).2 = dims.prod := by
  induction dims generalizing strides with
  | nil =>
      rw [List.length_eq_zero_iff.mp hlen]
      rfl
  | cons d ds ih =>
      obtain ⟨s, ss, rfl⟩ := List.exists_cons_of_length_eq_add_one hlen
      have hss : ss.length = ds.length := by simpa using hlen
      simp [contiguousLoop, ih hss, mul_comm]

private theorem contiguousLoop_fst {strides dims : List Int}
    (hlen : strides.length = dims.length) :
    (contiguousLoop strides dims).1 = true ↔ strides = Strided.rowMajor dims := by
  induction dims generalizing strides with
  | nil =>
      rw [List.length_eq_zero_iff.mp hlen]
      simp [contiguousLoop, Strided.rowMajor]
  | cons d ds ih =>
      obtain ⟨s, ss, rfl⟩ := List.exists_cons_of_length_eq_add_one hlen
      have htail : ss.length = ds.length := by simpa using hlen
      simp only [contiguousLoop, Bool.and_eq_true, ih htail, contiguousLoop_snd htail,
        beq_iff_eq, Strided.rowMajor, List.cons.injEq]
      exact and_comm

/-- The contiguity test compares with the row-major strides. -/
theorem hbiStridesIsContiguous_iff {strides : List Int} {s : Shape} :
    hbiStridesIsContiguous strides s = true ↔ strides = Strided.rowMajor s.dims := by
  unfold hbiStridesIsContiguous
  by_cases hlen : strides.length = s.rank
  · rw [if_neg (by simpa using hlen), contiguousLoop_fst hlen]
  · rw [if_pos hlen]
    simp only [Bool.false_eq_true, false_iff]
    intro h
    apply hlen
    simp [h, Shape.rank]

private theorem extent_cons_parts {d s : Int} {ds ss : List Int}
    (hpos : ∀ e ∈ d :: ds, 0 < e) (hs : ∀ t ∈ s :: ss, 0 ≤ t) :
    0 ≤ (d - 1) * s ∧ 0 ≤ Strided.extent ds ss ∧
      Strided.extent (d :: ds) (s :: ss) = (d - 1) * s + Strided.extent ds ss := by
  have hd := hpos d (by simp)
  have hss : ∀ t ∈ ss, 0 ≤ t := fun t ht => hs t (by simp [ht])
  have hds : ∀ e ∈ ds, 0 < e := fun e he => hpos e (by simp [he])
  exact ⟨mul_nonneg (by omega) (hs s (by simp)), Strided.extent_nonneg hds hss, rfl⟩

theorem spanElemsLoop_eq_ok {maxOff n : Int} {dims strides : List Int}
    (hpos : ∀ d ∈ dims, 0 < d) (hs : ∀ s ∈ strides, 0 ≤ s) (hmax : wrapI64 maxOff = maxOff) :
    spanElemsLoop maxOff dims strides = .ok n ↔
      (∀ p ∈ dims.zip strides, (p.1 - 1) * p.2 ≤ int64Max) ∧
        n = wrapI64 (maxOff + Strided.extent dims strides) := by
  induction dims generalizing maxOff strides with
  | nil => simp [spanElemsLoop, Strided.extent, hmax, eq_comm]
  | cons d ds ih =>
      cases strides with
      | nil => simp [spanElemsLoop, Strided.extent, hmax, eq_comm]
      | cons s ss =>
          obtain ⟨hterm, -, hsum⟩ := extent_cons_parts hpos hs
          have hss : ∀ t ∈ ss, 0 ≤ t := fun t ht => hs t (by simp [ht])
          have hds : ∀ e ∈ ds, 0 < e := fun e he => hpos e (by simp [he])
          rw [spanElemsLoop, List.zip_cons_cons, List.forall_mem_cons, hsum, ← add_assoc]
          by_cases hfits : (d - 1) * s ≤ int64Max
          · rw [mulOvfI64_of_fits hterm hfits]
            simp only [hfits, true_and]
            rw [ih hds hss (wrapI64_wrapI64 _), wrapI64_add_left]
          · rw [mulOvfI64_of_gt (by omega)]
            simp [hfits]

/-- The span of a layout with positive dimensions and non-negative strides, as 64-bit
arithmetic counts it. -/
theorem spanElems_eq_ok {s : Shape} {strides : List Int} {n : Int}
    (hpos : ∀ d ∈ s.dims, 0 < d) (hs : ∀ t ∈ strides, 0 ≤ t) :
    spanElems s strides = .ok n ↔
      (∀ p ∈ s.dims.zip strides, (p.1 - 1) * p.2 ≤ int64Max) ∧
        n = wrapI64 (Strided.extent s.dims strides + 1) := by
  have hloop := fun n => @spanElemsLoop_eq_ok 0 n _ _ hpos hs rfl
  simp only [zero_add] at hloop
  simp only [spanElems, Result.bind_eq_ok, pure, Except.pure, Except.ok.injEq, hloop]
  constructor
  · rintro ⟨maxOff, ⟨hterms, rfl⟩, rfl⟩
    exact ⟨hterms, wrapI64_add_left _ 1⟩
  · rintro ⟨hterms, rfl⟩
    exact ⟨_, ⟨hterms, rfl⟩, wrapI64_add_left _ 1⟩

theorem zip_term_le_extent {dims strides : List Int} (hpos : ∀ d ∈ dims, 0 < d)
    (hs : ∀ s ∈ strides, 0 ≤ s) {p : Int × Int} (hp : p ∈ dims.zip strides) :
    (p.1 - 1) * p.2 ≤ Strided.extent dims strides := by
  induction dims generalizing strides with
  | nil => simp at hp
  | cons d ds ih =>
      cases strides with
      | nil => simp at hp
      | cons s ss =>
          obtain ⟨hterm, htail, hsum⟩ := extent_cons_parts hpos hs
          rw [hsum]
          rcases List.mem_cons.mp hp with rfl | hp
          · exact le_add_of_nonneg_right htail
          · have hss : ∀ t ∈ ss, 0 ≤ t := fun t ht => hs t (by simp [ht])
            have hds : ∀ e ∈ ds, 0 < e := fun e he => hpos e (by simp [he])
            have := ih hds hss hp
            omega

/-- A span that fits is counted exactly. -/
theorem spanElems_of_lt {s : Shape} {strides : List Int}
    (hpos : ∀ d ∈ s.dims, 0 < d) (hs : ∀ t ∈ strides, 0 ≤ t)
    (hlt : Strided.extent s.dims strides < int64Max) :
    spanElems s strides = .ok (Strided.extent s.dims strides + 1) := by
  have hzero := Strided.extent_nonneg hpos hs
  refine (spanElems_eq_ok hpos hs).mpr ⟨?_, ?_⟩
  · intro p hp
    have := zip_term_le_extent hpos hs hp
    omega
  · exact (wrapI64_of_fits (by unfold int64Min; omega) (by omega)).symm

theorem stridesValidateLoop_of_le {i : Nat} {maxOff : Int} {dims strides : List Int}
    (hpos : ∀ d ∈ dims, 0 < d) (hs : ∀ s ∈ strides, 0 ≤ s) (hmax : 0 ≤ maxOff)
    (hle : maxOff + Strided.extent dims strides ≤ int64Max) :
    stridesValidateLoop i maxOff strides dims = .ok () := by
  induction dims generalizing i maxOff strides with
  | nil => cases strides <;> rfl
  | cons d ds ih =>
      cases strides with
      | nil => rfl
      | cons s ss =>
          obtain ⟨hterm, htail, hsum⟩ := extent_cons_parts hpos hs
          have hss : ∀ t ∈ ss, 0 ≤ t := fun t ht => hs t (by simp [ht])
          have hds : ∀ e ∈ ds, 0 < e := fun e he => hpos e (by simp [he])
          have hneg : ¬ s < 0 := not_lt.mpr (hs s (by simp))
          rw [stridesValidateLoop, if_neg hneg, mulOvfI64_of_fits hterm (by omega)]
          simp only
          rw [if_neg (by omega)]
          exact ih hds hss (by omega) (by omega)

theorem hbiStridesValidate_of_le {s : Shape} {strides : List Int}
    (hlen : strides.length = s.rank) (hpos : ∀ d ∈ s.dims, 0 < d)
    (hs : ∀ t ∈ strides, 0 ≤ t) (hle : Strided.extent s.dims strides ≤ int64Max) :
    hbiStridesValidate strides s = .ok () := by
  unfold hbiStridesValidate
  rw [if_neg (by simpa using hlen)]
  exact stridesValidateLoop_of_le hpos hs le_rfl (by omega)

end Hummingbird

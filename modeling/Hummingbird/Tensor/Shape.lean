import Hummingbird.Tensor.Dtype
import Hummingbird.Foundation.Strided

/-!
Shapes of the tensor runtime. `hbi_shape` is a rank with a fixed array of
dimensions whose unused entries are zero; the model keeps the used dimensions as
a list, so the rank is the length of the list.
-/

namespace Hummingbird

def hbiTensorMaxRank : Nat := 8

structure Shape where
  dims : List Int
  deriving DecidableEq, Repr

def Shape.rank (s : Shape) : Nat := s.dims.length

/-- The loop of `hbi_shape_init` and `hbi_shape_validate`: every dimension is
positive and the running product stays inside `int64_t`. The two callers differ
in the name and the ending they give the message about a dimension. -/
def shapeLoop (what ending : String) (i : Nat) (acc : Int) : List Int → Result Unit
  | [] => .ok ()
  | d :: ds =>
      if d ≤ 0 then errSet .invalidArg s!"{what}: dim[{i}]={d}{ending}"
      else
        match mulOvfI64 acc d with
        | none => errSet .corrupt s!"{what}: element-count overflow"
        | some acc => shapeLoop what ending (i + 1) acc ds

def hbiShapeValidate (s : Shape) : Result Unit :=
  if s.rank > hbiTensorMaxRank then
    errSet .invalidArg s!"shape_validate: rank {s.rank} > max {hbiTensorMaxRank}"
  else shapeLoop "shape_validate" "" 0 1 s.dims

def hbiShapeInit (dims : List Int) : Result Shape :=
  if dims.length > hbiTensorMaxRank then
    errSet .invalidArg s!"shape_init: rank {dims.length} > max {hbiTensorMaxRank}"
  else do
    shapeLoop "shape_init" " must be > 0" 0 1 dims
    return ⟨dims⟩

/-- The loop of `hbi_shape_elem_count`; no dimension is checked for its sign. -/
def elemCountLoop (acc : Int) : List Int → Result Int
  | [] => .ok acc
  | d :: ds =>
      match mulOvfI64 acc d with
      | none => errSet .corrupt "shape_elem_count: overflow"
      | some acc => elemCountLoop acc ds

def hbiShapeElemCount (s : Shape) : Result Int := elemCountLoop 1 s.dims

def hbiShapeEqual (a b : Shape) : Bool := a.dims == b.dims

/-- Dimension counted from the right, one beyond the rank. -/
def dimFromRight (s : Shape) (i : Nat) : Int :=
  if i ≥ s.rank then 1 else s.dims.getD (s.rank - 1 - i) 0

def hbiShapeBroadcastCompatible (a b : Shape) : Bool :=
  (List.range (max a.rank b.rank)).all fun i =>
    let da := dimFromRight a i
    let db := dimFromRight b i
    ¬ (da ≠ db ∧ da ≠ 1 ∧ db ≠ 1)

def hbiShapeBroadcast (a b : Shape) : Result Shape :=
  if hbiShapeBroadcastCompatible a b = false then
    errSet .invalidArg "shape_broadcast: incompatible shapes"
  else
    let n := max a.rank b.rank
    .ok ⟨(List.range n).map fun k =>
      max (dimFromRight a (n - 1 - k)) (dimFromRight b (n - 1 - k))⟩

/-- What `hbi_shape_validate` accepts: a rank within the maximum, positive
dimensions and an element count inside `int64_t`. -/
structure Shape.Valid (s : Shape) : Prop where
  rank_le : s.rank ≤ hbiTensorMaxRank
  dims_pos : ∀ d ∈ s.dims, 0 < d
  prod_le : s.dims.prod ≤ int64Max

theorem shapeLoop_eq_ok {what ending : String} {i : Nat} {acc : Int} {dims : List Int}
    (hacc : 0 < acc) :
    shapeLoop what ending i acc dims = .ok () ↔
      (∀ d ∈ dims, 0 < d) ∧ (dims = [] ∨ acc * dims.prod ≤ int64Max) := by
  induction dims generalizing i acc with
  | nil => simp [shapeLoop]
  | cons d ds ih =>
      by_cases hd : d ≤ 0
      · simp [shapeLoop, hd]
      · have hdpos : 0 < d := by omega
        have hprod : 0 < acc * d := mul_pos hacc hdpos
        simp only [shapeLoop, if_neg hd, List.forall_mem_cons, hdpos, true_and,
          reduceCtorEq, false_or, List.prod_cons]
        by_cases hfits : acc * d ≤ int64Max
        · rw [mulOvfI64_of_fits hprod.le hfits]
          simp only [ih hprod, mul_assoc]
          constructor
          · rintro ⟨hpos, hnil | hle⟩
            · subst hnil
              refine ⟨hpos, by simpa using hfits⟩
            · exact ⟨hpos, hle⟩
          · rintro ⟨hpos, hle⟩
            exact ⟨hpos, Or.inr hle⟩
        · rw [mulOvfI64_of_gt (not_le.mp hfits)]
          simp only [errSet_ne_ok, false_iff, not_and, not_le]
          intro hpos
          have hone : 1 ≤ ds.prod := Strided.prod_pos hpos
          calc
            int64Max < acc * d := not_le.mp hfits
            _ = acc * d * 1 := (mul_one _).symm
            _ ≤ acc * d * ds.prod := mul_le_mul_of_nonneg_left hone hprod.le
            _ = acc * (d * ds.prod) := mul_assoc _ _ _

/-- `hbi_shape_validate` accepts exactly the valid shapes. -/
theorem hbiShapeValidate_eq_ok {s : Shape} : hbiShapeValidate s = .ok () ↔ s.Valid := by
  unfold hbiShapeValidate
  rw [Result.ite_errSet_eq_ok, shapeLoop_eq_ok one_pos]
  constructor
  · rintro ⟨hrank, hpos, hnil | hle⟩
    · exact ⟨by omega, hpos, by simp [hnil, int64Max]⟩
    · exact ⟨by omega, hpos, by simpa using hle⟩
  · rintro ⟨hrank, hpos, hle⟩
    exact ⟨by omega, hpos, Or.inr (by simpa using hle)⟩

theorem elemCountLoop_of_pos {acc : Int} {dims : List Int} (hacc : 0 < acc)
    (hpos : ∀ d ∈ dims, 0 < d) (hle : acc * dims.prod ≤ int64Max) :
    elemCountLoop acc dims = .ok (acc * dims.prod) := by
  induction dims generalizing acc with
  | nil => simp [elemCountLoop]
  | cons d ds ih =>
      have hdpos : 0 < d := hpos d (by simp)
      have hrest : ∀ e ∈ ds, 0 < e := fun e he => hpos e (by simp [he])
      have hprod : 0 < acc * d := mul_pos hacc hdpos
      have hone : 1 ≤ ds.prod := Strided.prod_pos hrest
      have hfits : acc * d ≤ int64Max := by
        calc
          acc * d = acc * d * 1 := (mul_one _).symm
          _ ≤ acc * d * ds.prod := mul_le_mul_of_nonneg_left hone hprod.le
          _ = acc * (d :: ds).prod := by rw [List.prod_cons, mul_assoc]
          _ ≤ int64Max := hle
      rw [elemCountLoop, mulOvfI64_of_fits hprod.le hfits]
      simp only
      rw [ih hprod hrest (by rw [List.prod_cons, ← mul_assoc] at hle; exact hle),
        List.prod_cons, mul_assoc]

/-- A valid shape has the product of its dimensions as its element count. -/
theorem Shape.Valid.elemCount {s : Shape} (h : s.Valid) :
    hbiShapeElemCount s = .ok s.dims.prod := by
  have hcount := elemCountLoop_of_pos one_pos h.dims_pos (by simpa using h.prod_le)
  simpa [hbiShapeElemCount] using hcount

theorem Shape.Valid.prod_pos {s : Shape} (h : s.Valid) : 0 < s.dims.prod :=
  Strided.prod_pos h.dims_pos

end Hummingbird

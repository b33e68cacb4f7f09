import Hummingbird.Foundation.FlatJoin
import Hummingbird.Tensor.Shape
import Mathlib.Data.List.GetD

/-!
Broadcasting as a join. Shapes are aligned at their last axis and continued by ones; a
shape broadcasts to another that has at least its rank and agrees with it wherever it is
not one. Broadcasting two shapes gives the least shape that both broadcast to.
-/

namespace Hummingbird

/-- A shape is its rank and its dimensions counted from the right. -/
theorem Shape.ext_dimFromRight {s t : Shape} (hrank : s.rank = t.rank)
    (hdims : ∀ i, dimFromRight s i = dimFromRight t i) : s = t := by
  suffices hlist : s.dims = t.dims by
    cases s
    cases t
    exact congrArg Shape.mk hlist
  apply List.ext_getElem hrank
  intro k hs ht
  have hlt : k < s.rank := hs
  have hback : s.rank - 1 - (s.rank - 1 - k) = k := by omega
  have h := hdims (s.rank - 1 - k)
  rw [dimFromRight, dimFromRight, if_neg (by omega), if_neg (by omega), ← hrank, hback,
    List.getD_eq_getElem _ _ hs, List.getD_eq_getElem _ _ ht] at h
  exact h

/-- Every axis of one shape is one or as long as that of the other. -/
def Shape.BroadcastsTo (s t : Shape) : Prop :=
  s.rank ≤ t.rank ∧ ∀ i, FlatJoin.Le 1 (dimFromRight s i) (dimFromRight t i)

instance : PartialOrder Shape where
  le := Shape.BroadcastsTo
  le_refl s := ⟨le_rfl, fun _ => FlatJoin.Le.refl _ _⟩
  le_trans _ _ _ hst htu := ⟨hst.1.trans htu.1, fun i => (hst.2 i).trans (htu.2 i)⟩
  le_antisymm _ _ hst hts :=
    Shape.ext_dimFromRight (le_antisymm hst.1 hts.1) fun i => (hst.2 i).antisymm (hts.2 i)

theorem dimFromRight_of_ge {s : Shape} {i : Nat} (h : s.rank ≤ i) : dimFromRight s i = 1 :=
  if_pos h

theorem dimFromRight_pos {s : Shape} (hs : ∀ d ∈ s.dims, 0 < d) (i : Nat) :
    0 < dimFromRight s i := by
  by_cases hi : s.rank ≤ i
  · rw [dimFromRight_of_ge hi]
    exact one_pos
  · have hlt : s.rank - 1 - i < s.dims.length := by
      unfold Shape.rank at *
      omega
    rw [dimFromRight, if_neg hi, List.getD_eq_getElem _ _ hlt]
    exact hs _ (List.getElem_mem hlt)

/-- A list of dimensions written from the right is read from the right. -/
theorem dimFromRight_map (n : Nat) (f : Nat → Int) (i : Nat) :
    dimFromRight ⟨(List.range n).map fun k => f (n - 1 - k)⟩ i = if i < n then f i else 1 := by
  by_cases hi : i < n
  · have hlt : n - 1 - i < n := by omega
    have hback : n - 1 - (n - 1 - i) = i := by omega
    simp [dimFromRight, Shape.rank, hi, List.getD_eq_getElem?_getD, hlt, hback]
  · rw [if_neg hi, dimFromRight_of_ge]
    simpa [Shape.rank] using hi

theorem hbiShapeBroadcastCompatible_iff {a b : Shape} :
    hbiShapeBroadcastCompatible a b = true ↔
      ∀ i, FlatJoin.join 1 (dimFromRight a i) (dimFromRight b i) ≠ none := by
  simp only [hbiShapeBroadcastCompatible, List.all_eq_true, List.mem_range, decide_eq_true_eq,
    ne_eq, FlatJoin.join_eq_none_iff]
  constructor
  · intro h i
    by_cases hi : i < max a.rank b.rank
    · exact h i hi
    · rw [dimFromRight_of_ge (by omega), dimFromRight_of_ge (by omega)]
      simp
  · intro h i _
    exact h i

/-- Where two positive dimensions have a join it is the larger one. -/
theorem join_eq_max {x y : Int} (hx : 0 < x) (hy : 0 < y) (h : FlatJoin.join 1 x y ≠ none) :
    FlatJoin.join 1 x y = some (max x y) := by
  by_cases hx1 : x = 1
  · have hmax : max 1 y = y := max_eq_right (by omega)
    simp [hx1, hmax]
  · by_cases hy1 : y = 1
    · have hmax : max x 1 = x := max_eq_left (by omega)
      simp [hy1, hmax]
    · rw [FlatJoin.join_of_ne hx1 hy1] at h ⊢
      by_cases hxy : x = y
      · simp [hxy]
      · simp [hxy] at h

section Join

variable {a b : Shape} (ha : ∀ d ∈ a.dims, 0 < d) (hb : ∀ d ∈ b.dims, 0 < d)

include ha hb in
/-- Broadcasting joins the dimensions one by one. -/
theorem hbiShapeBroadcast_eq_ok {r : Shape} :
    hbiShapeBroadcast a b = .ok r ↔ r.rank = max a.rank b.rank ∧
      ∀ i, FlatJoin.join 1 (dimFromRight a i) (dimFromRight b i) = some (dimFromRight r i) := by
  have hjoin : hbiShapeBroadcastCompatible a b = true → ∀ i,
      FlatJoin.join 1 (dimFromRight a i) (dimFromRight b i) =
        some (dimFromRight ⟨(List.range (max a.rank b.rank)).map fun k =>
          max (dimFromRight a (max a.rank b.rank - 1 - k))
            (dimFromRight b (max a.rank b.rank - 1 - k))⟩ i) := by
    intro h i
    have hmax := join_eq_max (dimFromRight_pos ha i) (dimFromRight_pos hb i)
      (hbiShapeBroadcastCompatible_iff.mp h i)
    rw [dimFromRight_map _ fun k => max (dimFromRight a k) (dimFromRight b k)]
    by_cases hi : i < max a.rank b.rank
    · rw [if_pos hi, hmax]
    · rw [if_neg hi, dimFromRight_of_ge (by omega), dimFromRight_of_ge (by omega)]
      exact FlatJoin.join_self _ _
  rw [hbiShapeBroadcast, Result.ite_errSet_eq_ok, Bool.not_eq_false, Except.ok.injEq]
  constructor
  · rintro ⟨hcompat, rfl⟩
    exact ⟨by simp [Shape.rank], hjoin hcompat⟩
  · rintro ⟨hrank, hdims⟩
    have hcompat : hbiShapeBroadcastCompatible a b = true := by
      rw [hbiShapeBroadcastCompatible_iff]
      intro i
      simp [hdims i]
    refine ⟨hcompat, Shape.ext_dimFromRight ?_ ?_⟩
    · rw [hrank]
      simp [Shape.rank]
    · intro i
      exact Option.some.inj ((hjoin hcompat i).symm.trans (hdims i))

/-- Shapes below a common one are compatible. -/
theorem hbiShapeBroadcast_of_le {s : Shape} (has : a ≤ s) (hbs : b ≤ s) :
    ∃ r, hbiShapeBroadcast a b = .ok r := by
  have hcompat : hbiShapeBroadcastCompatible a b = true := by
    rw [hbiShapeBroadcastCompatible_iff]
    intro i
    obtain ⟨z, hz⟩ := FlatJoin.exists_join_of_le (has.2 i) (hbs.2 i)
    simp [hz]
  rw [hbiShapeBroadcast, if_neg (by simp [hcompat])]
  exact ⟨_, rfl⟩

include ha hb in
theorem isLUB_of_broadcast {r : Shape} (h : hbiShapeBroadcast a b = .ok r) : IsLUB {a, b} r := by
  obtain ⟨hrank, hdims⟩ := (hbiShapeBroadcast_eq_ok ha hb).mp h
  refine ⟨?_, ?_⟩
  · rintro s (rfl | rfl)
    · refine ⟨by omega, fun i => ?_⟩
      exact (FlatJoin.join_eq_some_iff.mp (hdims i)).1.1
    · refine ⟨by omega, fun i => ?_⟩
      exact (FlatJoin.join_eq_some_iff.mp (hdims i)).1.2
  · intro s hs
    have has : a ≤ s := hs (by simp)
    have hbs : b ≤ s := hs (by simp)
    refine ⟨?_, fun i => ?_⟩
    · rw [hrank]
      exact max_le has.1 hbs.1
    · exact (FlatJoin.join_eq_some_iff.mp (hdims i)).2 _ (has.2 i) (hbs.2 i)

include ha hb in
/-- The result of a broadcast is the least shape that both arguments broadcast to. -/
theorem hbiShapeBroadcast_eq_ok_iff_isLUB {r : Shape} :
    hbiShapeBroadcast a b = .ok r ↔ IsLUB {a, b} r := by
  refine ⟨isLUB_of_broadcast ha hb, ?_⟩
  intro hr
  have har : a ≤ r := hr.1 (by simp)
  have hbr : b ≤ r := hr.1 (by simp)
  obtain ⟨r', hr'⟩ := hbiShapeBroadcast_of_le har hbr
  rw [hr', (isLUB_of_broadcast ha hb hr').unique hr]

include ha hb in
theorem broadcast_dims_pos {r : Shape} (h : hbiShapeBroadcast a b = .ok r) :
    ∀ d ∈ r.dims, 0 < d := by
  obtain ⟨-, hdims⟩ := (hbiShapeBroadcast_eq_ok ha hb).mp h
  have hright : ∀ i, 0 < dimFromRight r i := by
    intro i
    have hapos := dimFromRight_pos ha i
    have hbpos := dimFromRight_pos hb i
    have hmax := join_eq_max hapos hbpos (by simp [hdims i])
    rw [hdims i, Option.some.injEq] at hmax
    omega
  intro d hd
  obtain ⟨k, hk, rfl⟩ := List.getElem_of_mem hd
  have hlt : k < r.rank := hk
  have hback : r.rank - 1 - (r.rank - 1 - k) = k := by omega
  have := hright (r.rank - 1 - k)
  rwa [dimFromRight, if_neg (by omega), hback, List.getD_eq_getElem _ _ hk] at this

end Join

/-- A broadcast that fails says the same whatever its arguments are. -/
theorem hbiShapeBroadcast_eq_error {a b : Shape} {e : Failure} :
    hbiShapeBroadcast a b = .error e ↔
      hbiShapeBroadcastCompatible a b = false ∧
        e = ⟨.invalidArg, "shape_broadcast: incompatible shapes"⟩ := by
  by_cases h : hbiShapeBroadcastCompatible a b = false
  · simp [hbiShapeBroadcast, h, errSet, eq_comm]
  · simp [hbiShapeBroadcast, h]

/-- Two answers that succeed alike and fail with one message are the same. -/
theorem Result.eq_of_ok_iff {α : Type} {x y : Result α} {e : Failure}
    (hiff : ∀ r, x = .ok r ↔ y = .ok r) (hx : ∀ f, x = .error f → f = e)
    (hy : ∀ f, y = .error f → f = e) : x = y := by
  cases x with
  | ok r => exact ((hiff r).mp rfl).symm
  | error f =>
      cases y with
      | ok r => exact (hiff r).mpr rfl
      | error f' => rw [hx f rfl, hy f' rfl]

theorem broadcast_two_error (a b c : Shape) (f : Failure)
    (h : (hbiShapeBroadcast a b >>= fun s => hbiShapeBroadcast s c) = .error f) :
    f = ⟨.invalidArg, "shape_broadcast: incompatible shapes"⟩ := by
  cases hab : hbiShapeBroadcast a b with
  | error e =>
      rw [hab] at h
      cases h
      exact (hbiShapeBroadcast_eq_error.mp hab).2
  | ok s =>
      rw [hab] at h
      exact (hbiShapeBroadcast_eq_error.mp h).2

theorem hbiShapeBroadcast_comm {a b : Shape} (ha : ∀ d ∈ a.dims, 0 < d)
    (hb : ∀ d ∈ b.dims, 0 < d) : hbiShapeBroadcast a b = hbiShapeBroadcast b a := by
  have hiff : ∀ r, hbiShapeBroadcast a b = .ok r ↔ hbiShapeBroadcast b a = .ok r := by
    intro r
    rw [hbiShapeBroadcast_eq_ok_iff_isLUB ha hb, hbiShapeBroadcast_eq_ok_iff_isLUB hb ha,
      Set.pair_comm]
  exact Result.eq_of_ok_iff hiff (fun _ h => (hbiShapeBroadcast_eq_error.mp h).2)
    fun _ h => (hbiShapeBroadcast_eq_error.mp h).2

section Assoc

variable {a b c : Shape}

/-- A bound of two shapes can stand for them among the bounds of three. -/
theorem isLUB_three {s r : Shape} (hs : IsLUB {a, b} s) :
    IsLUB {s, c} r ↔ IsLUB {a, b, c} r := by
  apply isLUB_congr
  ext t
  have hle := isLUB_le_iff hs (b := t)
  simp only [upperBounds_insert, upperBounds_singleton, Set.mem_inter_iff, Set.mem_Ici] at hle ⊢
  rw [hle, and_assoc]

variable (ha : ∀ d ∈ a.dims, 0 < d) (hb : ∀ d ∈ b.dims, 0 < d) (hc : ∀ d ∈ c.dims, 0 < d)

include ha hb hc

/-- Broadcasting three shapes gives their least upper bound. -/
theorem broadcast_three {r : Shape} :
    (hbiShapeBroadcast a b >>= fun s => hbiShapeBroadcast s c) = .ok r ↔
      IsLUB {a, b, c} r := by
  rw [Result.bind_eq_ok]
  constructor
  · rintro ⟨s, hs, hr⟩
    have hlub := isLUB_of_broadcast (broadcast_dims_pos ha hb hs) hc hr
    exact (isLUB_three (isLUB_of_broadcast ha hb hs)).mp hlub
  · intro hr
    have har : a ≤ r := hr.1 (by simp)
    have hbr : b ≤ r := hr.1 (by simp)
    obtain ⟨s, hs⟩ := hbiShapeBroadcast_of_le har hbr
    have hlub := isLUB_of_broadcast ha hb hs
    refine ⟨s, hs, ?_⟩
    rw [hbiShapeBroadcast_eq_ok_iff_isLUB (broadcast_dims_pos ha hb hs) hc]
    exact (isLUB_three hlub).mpr hr

/-- The order of broadcasting does not matter, also where it fails. -/
theorem hbiShapeBroadcast_assoc :
    (hbiShapeBroadcast a b >>= fun s => hbiShapeBroadcast s c) =
      hbiShapeBroadcast b c >>= fun s => hbiShapeBroadcast a s := by
  have hswap : (hbiShapeBroadcast b c >>= fun s => hbiShapeBroadcast a s) =
      hbiShapeBroadcast b c >>= fun s => hbiShapeBroadcast s a := by
    cases h : hbiShapeBroadcast b c with
    | error e => rfl
    | ok s => exact hbiShapeBroadcast_comm ha (broadcast_dims_pos hb hc h)
  have hiff : ∀ r, (hbiShapeBroadcast a b >>= fun s => hbiShapeBroadcast s c) = .ok r ↔
      (hbiShapeBroadcast b c >>= fun s => hbiShapeBroadcast s a) = .ok r := by
    intro r
    rw [broadcast_three ha hb hc, broadcast_three hb hc ha]
    have hset : ({a, b, c} : Set Shape) = {b, c, a} := by
      ext s
      simp only [Set.mem_insert_iff, Set.mem_singleton_iff]
      tauto
    rw [hset]
  rw [hswap]
  exact Result.eq_of_ok_iff hiff (broadcast_two_error _ _ _) (broadcast_two_error _ _ _)

end Assoc

/-- The rank-0 shape broadcasts to every shape. -/
theorem hbiShapeBroadcast_scalar {a : Shape} (ha : ∀ d ∈ a.dims, 0 < d) :
    hbiShapeBroadcast ⟨[]⟩ a = .ok a := by
  rw [hbiShapeBroadcast_eq_ok (by simp) ha]
  refine ⟨by simp [Shape.rank], fun i => ?_⟩
  rw [dimFromRight_of_ge (s := ⟨[]⟩) (Nat.zero_le i)]
  exact FlatJoin.bot_join _ _

/-- A shape broadcast with itself is itself. -/
theorem hbiShapeBroadcast_self (s : Shape) : hbiShapeBroadcast s s = .ok s := by
  have hcompatible : hbiShapeBroadcastCompatible s s = true := by
    simp [hbiShapeBroadcastCompatible]
  have hdims : ((List.range s.rank).map fun k =>
      max (dimFromRight s (s.rank - 1 - k)) (dimFromRight s (s.rank - 1 - k))) = s.dims := by
    apply List.ext_getElem
    · simp [Shape.rank]
    · intro k hk _
      have hlt : k < s.rank := by simpa using hk
      have hback : s.rank - 1 - (s.rank - 1 - k) = k := by omega
      have hlt' : k < s.dims.length := hlt
      have hin : ¬ s.rank - 1 - k ≥ s.rank := by omega
      simp only [List.getElem_map, List.getElem_range, max_self, dimFromRight, hin, if_false, hback]
      exact List.getD_eq_getElem s.dims 0 hlt'
  simp only [hbiShapeBroadcast, hcompatible, Bool.true_eq_false, if_false, Nat.max_self, hdims]

theorem hbiShapeBroadcast_fails_iff (a b : Shape) :
    (∃ e, hbiShapeBroadcast a b = .error e) ↔
      ∃ i, dimFromRight a i ≠ dimFromRight b i ∧ dimFromRight a i ≠ 1 ∧
        dimFromRight b i ≠ 1 := by
  simp only [hbiShapeBroadcast_eq_error, exists_and_left, exists_eq, and_true,
    ← FlatJoin.join_eq_none_iff]
  rw [← Bool.not_eq_true, hbiShapeBroadcastCompatible_iff]
  simp only [ne_eq, not_forall, not_not]

/-- Broadcasting is the partial join of shapes, with the scalar shape below all. -/
theorem broadcast_is_join {a b c : Shape} (ha : hbiShapeValidate a = .ok ())
    (hb : hbiShapeValidate b = .ok ()) (hc : hbiShapeValidate c = .ok ()) :
    hbiShapeBroadcast a b = hbiShapeBroadcast b a ∧
      (hbiShapeBroadcast a b >>= fun s => hbiShapeBroadcast s c) =
        (hbiShapeBroadcast b c >>= fun s => hbiShapeBroadcast a s) ∧
      hbiShapeBroadcast a a = .ok a ∧
      hbiShapeBroadcast ⟨[]⟩ a = .ok a ∧ hbiShapeBroadcast a ⟨[]⟩ = .ok a ∧
      ((∃ e, hbiShapeBroadcast a b = .error e) ↔
        ∃ i, dimFromRight a i ≠ dimFromRight b i ∧ dimFromRight a i ≠ 1 ∧
          dimFromRight b i ≠ 1) ∧
      ∀ r, hbiShapeBroadcast a b = .ok r ↔ IsLUB {a, b} r := by
  have hapos := (hbiShapeValidate_eq_ok.mp ha).dims_pos
  have hbpos := (hbiShapeValidate_eq_ok.mp hb).dims_pos
  have hcpos := (hbiShapeValidate_eq_ok.mp hc).dims_pos
  have hscalar := hbiShapeBroadcast_scalar hapos
  refine ⟨hbiShapeBroadcast_comm hapos hbpos, hbiShapeBroadcast_assoc hapos hbpos hcpos,
    hbiShapeBroadcast_self a, hscalar, ?_, hbiShapeBroadcast_fails_iff a b, ?_⟩
  · rw [hbiShapeBroadcast_comm hapos (by simp), hscalar]
  · intro r
    exact hbiShapeBroadcast_eq_ok_iff_isLUB hapos hbpos

theorem broadcast_is_join_three :
    (hbiShapeBroadcast ⟨[3, 1]⟩ ⟨[4]⟩ >>= fun s => hbiShapeBroadcast s ⟨[2, 1, 1]⟩) =
        (hbiShapeBroadcast ⟨[4]⟩ ⟨[2, 1, 1]⟩ >>= fun s => hbiShapeBroadcast ⟨[3, 1]⟩ s) ∧
      IsLUB {(⟨[3, 1]⟩ : Shape), ⟨[4]⟩} ⟨[3, 4]⟩ := by
  have h := @broadcast_is_join ⟨[3, 1]⟩ ⟨[4]⟩ ⟨[2, 1, 1]⟩ rfl rfl rfl
  exact ⟨h.2.1, (h.2.2.2.2.2.2 ⟨[3, 4]⟩).mp rfl⟩

/-- The element count that two shapes ask for together. -/
def broadcastCount (a b : Shape) : Int :=
  ((List.range (max a.rank b.rank)).map fun i => max (dimFromRight a i) (dimFromRight b i)).prod

theorem broadcast_prod {a b r : Shape} (h : hbiShapeBroadcast a b = .ok r) :
    r.dims.prod = broadcastCount a b := by
  rw [hbiShapeBroadcast, Result.ite_errSet_eq_ok, Except.ok.injEq] at h
  obtain ⟨-, rfl⟩ := h
  have hreverse : (List.range (max a.rank b.rank)).map (fun k =>
      max (dimFromRight a (max a.rank b.rank - 1 - k))
        (dimFromRight b (max a.rank b.rank - 1 - k))) =
      ((List.range (max a.rank b.rank)).map fun i =>
        max (dimFromRight a i) (dimFromRight b i)).reverse := by
    apply List.ext_getElem (by simp)
    intro k hk hk'
    simp
  simp only [hreverse, (List.reverse_perm _).prod_eq]
  rfl

/-- What broadcasting gives is a valid shape exactly when its element count fits. -/
theorem broadcast_valid_iff {a b : Shape} (ha : hbiShapeValidate a = .ok ())
    (hb : hbiShapeValidate b = .ok ()) :
    (∀ r, hbiShapeBroadcast a b = .ok r → hbiShapeValidate r = .ok ()) ↔
      (hbiShapeBroadcastCompatible a b = true → broadcastCount a b ≤ int64Max) := by
  have hva := hbiShapeValidate_eq_ok.mp ha
  have hvb := hbiShapeValidate_eq_ok.mp hb
  constructor
  · intro h hcompat
    obtain ⟨r, hr⟩ : ∃ r, hbiShapeBroadcast a b = .ok r := by
      rw [hbiShapeBroadcast, if_neg (by simp [hcompat])]
      exact ⟨_, rfl⟩
    rw [← broadcast_prod hr]
    exact (hbiShapeValidate_eq_ok.mp (h r hr)).prod_le
  · intro h r hr
    have hcompat : hbiShapeBroadcastCompatible a b = true := by
      rw [hbiShapeBroadcast, Result.ite_errSet_eq_ok, Bool.not_eq_false] at hr
      exact hr.1
    have hrank := ((hbiShapeBroadcast_eq_ok hva.dims_pos hvb.dims_pos).mp hr).1
    refine hbiShapeValidate_eq_ok.mpr ⟨?_, broadcast_dims_pos hva.dims_pos hvb.dims_pos hr, ?_⟩
    · rw [hrank]
      exact max_le hva.rank_le hvb.rank_le
    · rw [broadcast_prod hr]
      exact h hcompat

theorem broadcast_valid_row_column :
    hbiShapeBroadcast ⟨[3, 1]⟩ ⟨[4]⟩ = .ok ⟨[3, 4]⟩ ∧ hbiShapeValidate ⟨[3, 4]⟩ = .ok () := by
  have hvalid := (@broadcast_valid_iff ⟨[3, 1]⟩ ⟨[4]⟩ rfl rfl).mpr fun _ => by decide +kernel
  exact ⟨rfl, hvalid ⟨[3, 4]⟩ rfl⟩

/-- A column of `2^62` elements and a row of four are valid, and the matrix they broadcast
to has more elements than `int64_t` counts. -/
theorem broadcast_overflows :
    ∃ r, hbiShapeValidate ⟨[4611686018427387904, 1]⟩ = .ok () ∧
      hbiShapeValidate ⟨[4]⟩ = .ok () ∧
      hbiShapeBroadcast ⟨[4611686018427387904, 1]⟩ ⟨[4]⟩ = .ok r ∧
      hbiShapeValidate r ≠ .ok () := by
  refine ⟨_, by decide +kernel, by decide +kernel, rfl, by decide +kernel⟩

end Hummingbird

import Hummingbird.Planner.Liveness
import Hummingbird.Foundation.Alignment

/-!
The placement loop keeps offsets aligned and the ranges that overlap in time apart.
The bound that rules out wrapping is the sum of the rounded sizes placed so far:
every candidate offset is zero or the rounded end of an earlier block, so no block
ends beyond that sum.
-/

namespace Hummingbird

/-- Size rounded up to the alignment every value gets. -/
def round64 (n : Nat) : Nat := (n + 63) / 64 * 64

theorem le_round64 (n : Nat) : n ≤ round64 n := by
  unfold round64
  omega

theorem dvd_round64 (n : Nat) : 64 ∣ round64 n := Dvd.intro_left _ rfl

theorem round64_add {a n : Nat} (ha : 64 ∣ a) : round64 (a + n) = a + round64 n := by
  unfold round64
  omega

/-- Rounding up without wrapping. -/
theorem alignUp_eq_round64 {val : Nat} (h : val + 63 < sizeTSize) :
    alignUp val 64 = round64 val := by
  unfold alignUp round64
  rw [if_neg (by decide), Nat.mod_eq_of_lt (by omega)]
  exact @Alignment.and_mask _ 6 64 (by simpa [sizeTSize] using h) (by decide)

/-- Every value is aligned to the platform default. -/
theorem valueAlignment_eq (val : Value) : valueAlignment val = 64 := by
  have hle := hbiDtypeAlign_le val.dtype
  unfold valueAlignment hbiTensorDefaultAlign
  rw [if_pos (by omega)]

/-- Two byte ranges of which neither reaches into the other. -/
def Allocation.Apart (a b : Allocation) : Prop :=
  a.offset + a.sizeBytes ≤ b.offset ∨ b.offset + b.sizeBytes ≤ a.offset

/-- What holds of the blocks placed so far, with `total` the sum of their rounded
sizes. -/
structure PlacedInv (total : Nat) (placed : List Placed) : Prop where
  total_dvd : 64 ∣ total
  same_value : ∀ p ∈ placed, p.2.valueId = p.1.valueId ∧ p.2.sizeBytes = p.1.sizeBytes ∧
    p.2.poolId = 0
  aligned : ∀ p ∈ placed, 64 ∣ p.2.offset
  bounded : ∀ p ∈ placed, p.2.offset + round64 p.2.sizeBytes ≤ total
  apart : placed.Pairwise fun p q => timeOverlap q.1 p.1 = true → p.2.Apart q.2

/-- The search for one range ends at an aligned, unoccupied offset within the sum
of the rounded sizes. -/
theorem placeRange_sound {placed : List Placed} {r : LiveRange} {total fuel : Nat}
    (h : PlacedInv total placed) (halign : r.alignment = 64)
    (hfits : total + round64 r.sizeBytes + 64 ≤ sizeTSize) (hfuel : placed.length < fuel) :
    ∃ off, (∀ more, placeRange (fuel + more) placed r = some off) ∧ 64 ∣ off ∧ off ≤ total ∧
      ∀ p ∈ placed, timeOverlap r p.1 = true →
        p.2.offset + p.2.sizeBytes ≤ off ∨ off + r.sizeBytes ≤ p.2.offset := by
  have hle := le_round64 r.sizeBytes
  have hend : ∀ p ∈ placed, p.prevEnd = p.2.offset + p.2.sizeBytes ∧ p.prevEnd ≤ total := by
    intro p hp
    have hb := h.bounded p hp
    have hsize := le_round64 p.2.sizeBytes
    have hmod : p.prevEnd = p.2.offset + p.2.sizeBytes := Nat.mod_eq_of_lt (by omega)
    exact ⟨hmod, by omega⟩
  have hround : ∀ p ∈ placed, alignUp p.prevEnd 64 = p.2.offset + round64 p.2.sizeBytes := by
    intro p hp
    rw [alignUp_eq_round64 (by have := (hend p hp).2; omega), (hend p hp).1,
      round64_add (h.aligned p hp)]
  have hzero : alignUp 0 64 = 0 := by decide
  obtain ⟨off, hoff⟩ := @FirstFit.search_total _ (alignUp · r.alignment) (conflicts r)
    Placed.prevEnd placed 0 fuel (by
      rw [halign]
      rintro x (rfl | ⟨p, hp, rfl⟩)
      · exact Nat.zero_le _
      · rw [hround p hp, (hend p hp).1]
        have := le_round64 p.2.sizeBytes
        omega)
    (by
      intro x p _ hclash
      simp only [conflicts, Bool.and_eq_true, decide_eq_true_eq] at hclash
      exact hclash.2.1)
    (lt_of_le_of_lt List.countP_le_length hfuel)
  obtain ⟨hfree, hplace⟩ := FirstFit.search_eq_some (hoff 0)
  have hsound : 64 ∣ off ∧ off ≤ total := by
    rw [halign] at hplace
    rcases hplace with rfl | ⟨p, hp, rfl⟩
    · rw [hzero]
      exact ⟨dvd_zero _, Nat.zero_le _⟩
    · rw [hround p hp]
      exact ⟨dvd_add (h.aligned p hp) (dvd_round64 _), h.bounded p hp⟩
  refine ⟨off, hoff, hsound.1, hsound.2, ?_⟩
  intro p hp htime
  have hno := hfree p hp
  simp only [conflicts, htime, Bool.true_and, decide_eq_false_iff_not, not_and, not_lt] at hno
  rw [(hend p hp).1, Nat.mod_eq_of_lt (by omega)] at hno
  by_cases hlt : off < p.2.offset + p.2.sizeBytes
  · exact Or.inr (hno hlt)
  · exact Or.inl (not_lt.mp hlt)

/-- A range that is placed apart from those it overlaps in time joins them. -/
theorem PlacedInv.snoc {placed : List Placed} {total off : Nat} {r : LiveRange}
    (h : PlacedInv total placed) (hdvd : 64 ∣ off) (hle : off ≤ total)
    (hfree : ∀ q ∈ placed, timeOverlap r q.1 = true →
      q.2.Apart ⟨r.valueId, 0, off, r.sizeBytes⟩) :
    PlacedInv (total + round64 r.sizeBytes)
      (placed ++ [(r, ⟨r.valueId, 0, off, r.sizeBytes⟩)]) := by
  refine ⟨dvd_add h.total_dvd (dvd_round64 _), ?_, ?_, ?_, ?_⟩
  · intro q hq
    rcases List.mem_append.mp hq with hq | hq
    · exact h.same_value q hq
    · rw [List.mem_singleton.mp hq]
      exact ⟨rfl, rfl, rfl⟩
  · intro q hq
    rcases List.mem_append.mp hq with hq | hq
    · exact h.aligned q hq
    · rw [List.mem_singleton.mp hq]
      exact hdvd
  · intro q hq
    rcases List.mem_append.mp hq with hq | hq
    · exact (h.bounded q hq).trans (Nat.le_add_right _ _)
    · rw [List.mem_singleton.mp hq]
      exact Nat.add_le_add_right hle _
  · rw [List.pairwise_append]
    refine ⟨h.apart, List.pairwise_singleton _ _, ?_⟩
    intro q hq q' hq' htime
    rw [List.mem_singleton.mp hq'] at htime ⊢
    exact hfree q hq htime

/-- The whole placement loop. -/
theorem placeAll_sound {rs : List LiveRange} {placed : List Placed} {total peak fuel : Nat}
    (h : PlacedInv total placed)
    (hpeak : ∀ p ∈ placed, p.2.offset + p.2.sizeBytes ≤ peak)
    (halign : ∀ r ∈ rs, r.alignment = 64)
    (hfits : total + (rs.map fun r => round64 r.sizeBytes).sum + 64 ≤ sizeTSize)
    (hfuel : placed.length + rs.length < fuel) :
    ∃ placed' peak', (∀ more, placeAll (fuel + more) rs placed peak = some (placed', peak')) ∧
      placed'.map Prod.fst = placed.map Prod.fst ++ rs ∧
      PlacedInv (total + (rs.map fun r => round64 r.sizeBytes).sum) placed' ∧
      ∀ p ∈ placed', p.2.offset + p.2.sizeBytes ≤ peak' := by
  induction rs generalizing placed total peak with
  | nil => exact ⟨placed, peak, fun _ => rfl, by simp, by simpa using h, hpeak⟩
  | cons r rs ih =>
      rw [List.map_cons, List.sum_cons] at hfits ⊢
      rw [List.length_cons] at hfuel
      obtain ⟨off, hoff, hdvd, hle, hfree⟩ := @placeRange_sound placed r total fuel h
        (halign r (by simp)) (by omega) (by omega)
      have hsize := le_round64 r.sizeBytes
      have hendoff : (off + r.sizeBytes) % sizeTSize = off + r.sizeBytes :=
        Nat.mod_eq_of_lt (by omega)
      obtain ⟨placed', peak', hrun, hmap, hdone, hbound⟩ := @ih
        (placed ++ [(r, ⟨r.valueId, 0, off, r.sizeBytes⟩)]) (total + round64 r.sizeBytes)
        (if off + r.sizeBytes > peak then off + r.sizeBytes else peak) (h.snoc hdvd hle hfree) (by
          intro q hq
          rcases List.mem_append.mp hq with hq | hq
          · have := hpeak q hq
            split <;> omega
          · rw [List.mem_singleton.mp hq]
            simp only
            split <;> omega)
        (fun r' hr' => halign r' (by simp [hr'])) (by omega)
        (by simp only [List.length_append, List.length_cons, List.length_nil]; omega)
      refine ⟨placed', peak', ?_, ?_, ?_, hbound⟩
      · intro more
        rw [placeAll, hoff more]
        simp only [hendoff]
        exact hrun more
      · rw [hmap]
        simp
      · rwa [Nat.add_assoc] at hdone

end Hummingbird

import Hummingbird.Profiler.Claims

/-!
What the profiler reports once all threads are outside again: every recording that was begun
went into the slot of its name or was counted as lost, and each field of a slot is what the
recordings of its name add up to, whatever the order in which their accesses ran. While
threads run, a field lags behind by the recordings that stand in front of its access.
-/

namespace Hummingbird

namespace ProfUpdate

/-- What an update adds to the running sum. -/
def value : ProfUpdate → Int64
  | .scope _ => 0
  | .counter delta => delta
  | .event value => value

def duration : ProfUpdate → Option UInt64
  | .scope ns => some ns
  | _ => none

def isScope (u : ProfUpdate) : Prop := u.duration.isSome = true

end ProfUpdate

/-- The least duration, or the sentinel. -/
def leastDuration (ds : List UInt64) : UInt64 :=
  ds.foldl (fun least ns => if ns < least then ns else least) minSentinel

def greatestDuration (ds : List UInt64) : UInt64 :=
  ds.foldl (fun greatest ns => if greatest < ns then ns else greatest) 0

/-- What the updates of one name add up to. -/
def ProfStat.aggregate (name : List UInt8) (kind : ProfKind) (us : List ProfUpdate) : ProfStat :=
  let ds := us.filterMap ProfUpdate.duration
  { name, kind
    count := .ofNat us.length
    total := .ofInt (us.map fun u => u.value.toInt).sum
    totalNs := .ofNat (ds.map UInt64.toNat).sum
    minNs := if leastDuration ds = minSentinel then 0 else leastDuration ds
    maxNs := greatestDuration ds }

/-- Each field of a slot adds up what was entered there. -/
structure ProfSlot.Tallies (slot : ProfSlot) (entered : ProfField → List ProfUpdate) : Prop where
  count : slot.count = .ofNat (entered .count).length
  total : slot.total = .ofInt ((entered .sum).map fun u => u.value.toInt).sum
  totalNs : slot.totalNs =
    .ofNat (((entered .sum).filterMap ProfUpdate.duration).map UInt64.toNat).sum
  minNs : slot.minNs = leastDuration ((entered .min).filterMap ProfUpdate.duration)
  maxNs : slot.maxNs = greatestDuration ((entered .max).filterMap ProfUpdate.duration)

namespace UpdatePc

/-- The thread still stands in front of the access that settles the field. -/
def pending (f : ProfField) : UpdatePc → Bool
  | .bumping => true
  | .adding => f != .count
  | .loadingMin | .lowering _ => f == .min || f == .max
  | .loadingMax | .raising _ => f == .max

/-- Only a scope goes on to the bounds, and it has seen a bound that can only get closer. -/
def Fits (slot : ProfSlot) (u : ProfUpdate) : UpdatePc → Prop
  | .bumping | .adding => True
  | .loadingMin | .loadingMax => u.isScope
  | .lowering cur => u.isScope ∧ slot.minNs ≤ cur
  | .raising cur => u.isScope ∧ cur ≤ slot.maxNs

end UpdatePc

theorem ProfUpdate.isScope.exists {u : ProfUpdate} (h : u.isScope) : ∃ ns, u = .scope ns := by
  cases u with
  | scope ns => exact ⟨ns, rfl⟩
  | _ => cases h

theorem leastDuration_snoc (ds : List UInt64) (ns : UInt64) :
    leastDuration (ds ++ [ns]) = if ns < leastDuration ds then ns else leastDuration ds := by
  unfold leastDuration
  rw [List.foldl_append]
  rfl

theorem greatestDuration_snoc (ds : List UInt64) (ns : UInt64) :
    greatestDuration (ds ++ [ns]) =
      if greatestDuration ds < ns then ns else greatestDuration ds := by
  unfold greatestDuration
  rw [List.foldl_append]
  rfl

theorem leastDuration_perm {ds ds' : List UInt64} (h : ds.Perm ds') :
    leastDuration ds = leastDuration ds' := by
  refine h.foldl_eq' ?_ _
  intro a _ b _ least
  simp only [← UInt64.toNat_inj, UInt64.lt_iff_toNat_lt]
  split_ifs <;> omega

theorem greatestDuration_perm {ds ds' : List UInt64} (h : ds.Perm ds') :
    greatestDuration ds = greatestDuration ds' := by
  refine h.foldl_eq' ?_ _
  intro a _ b _ greatest
  simp only [← UInt64.toNat_inj, UInt64.lt_iff_toNat_lt]
  split_ifs <;> omega

/-- A new slot adds up nothing. -/
theorem ProfSlot.claim_tallies (r : Recording) : (ProfSlot.claim r).Tallies fun _ => [] :=
  ⟨rfl, rfl, rfl, rfl, rfl⟩

/-- Entering an update into some of the fields. -/
def enter (entered : ProfField → List ProfUpdate) (fields : List ProfField) (u : ProfUpdate)
    (f : ProfField) : List ProfUpdate :=
  if f ∈ fields then entered f ++ [u] else entered f

section

variable {slot : ProfSlot} {entered : ProfField → List ProfUpdate} {ns : UInt64}

theorem ProfSlot.Tallies.bump (h : slot.Tallies entered) (u : ProfUpdate) :
    ProfSlot.Tallies { slot with count := slot.count + 1 } (enter entered [.count] u) where
  count := by simp [enter, h.count]
  total := h.total
  totalNs := h.totalNs
  minNs := h.minNs
  maxNs := h.maxNs

theorem ProfSlot.Tallies.addNs (h : slot.Tallies entered) :
    ProfSlot.Tallies { slot with totalNs := slot.totalNs + ns }
      (enter entered [.sum] (.scope ns)) where
  count := h.count
  total := by simp [enter, h.total, ProfUpdate.value]
  totalNs := by simp [enter, h.totalNs, ProfUpdate.duration]
  minNs := h.minNs
  maxNs := h.maxNs

/-- What is not a scope settles the bounds together with the sum. -/
theorem ProfSlot.Tallies.add (h : slot.Tallies entered) {u : ProfUpdate}
    (hscope : u.duration = none) :
    ProfSlot.Tallies { slot with total := slot.total + u.value }
      (enter entered [.sum, .min, .max] u) where
  count := h.count
  total := by simp [enter, h.total]
  totalNs := by simp [enter, h.totalNs, hscope]
  minNs := by simp [enter, h.minNs, hscope]
  maxNs := by simp [enter, h.maxNs, hscope]

theorem ProfSlot.Tallies.lower (h : slot.Tallies entered) (hlt : ns < slot.minNs) :
    ProfSlot.Tallies { slot with minNs := ns } (enter entered [.min] (.scope ns)) where
  count := h.count
  total := h.total
  totalNs := h.totalNs
  minNs := by
    rw [h.minNs] at hlt
    simp [enter, ProfUpdate.duration, leastDuration_snoc, hlt]
  maxNs := h.maxNs

theorem ProfSlot.Tallies.lower_none (h : slot.Tallies entered) (hle : ¬ ns < slot.minNs) :
    ProfSlot.Tallies slot (enter entered [.min] (.scope ns)) where
  count := h.count
  total := h.total
  totalNs := h.totalNs
  minNs := by
    rw [h.minNs] at hle
    simp [enter, ProfUpdate.duration, leastDuration_snoc, hle, h.minNs]
  maxNs := h.maxNs

theorem ProfSlot.Tallies.raise (h : slot.Tallies entered) (hlt : slot.maxNs < ns) :
    ProfSlot.Tallies { slot with maxNs := ns } (enter entered [.max] (.scope ns)) where
  count := h.count
  total := h.total
  totalNs := h.totalNs
  minNs := h.minNs
  maxNs := by
    rw [h.maxNs] at hlt
    simp [enter, ProfUpdate.duration, greatestDuration_snoc, hlt]

theorem ProfSlot.Tallies.raise_none (h : slot.Tallies entered) (hle : ¬ slot.maxNs < ns) :
    ProfSlot.Tallies slot (enter entered [.max] (.scope ns)) where
  count := h.count
  total := h.total
  totalNs := h.totalNs
  minNs := h.minNs
  maxNs := by
    rw [h.maxNs] at hle
    simp [enter, ProfUpdate.duration, greatestDuration_snoc, hle, h.maxNs]

end

/-- An access of an update enters the update into the fields that it settles. -/
theorem updateStep_tallies {slot : ProfSlot} {entered : ProfField → List ProfUpdate}
    (h : slot.Tallies entered) {u : ProfUpdate} {p : UpdatePc} (hfits : p.Fits slot u)
    (spurious : Bool) :
    (updateStep u slot spurious p).1.Tallies
      (enter entered (p.settles u (updateStep u slot spurious p).2) u) := by
  cases p with
  | bumping => exact h.bump u
  | adding =>
      cases u with
      | scope ns => exact h.addNs
      | counter delta => exact h.add (u := .counter delta) rfl
      | event value => exact h.add (u := .event value) rfl
  | loadingMin =>
      obtain ⟨ns, rfl⟩ := hfits.exists
      exact h
  | loadingMax =>
      obtain ⟨ns, rfl⟩ := hfits.exists
      exact h
  | lowering cur =>
      obtain ⟨hscope, hcur⟩ := hfits
      obtain ⟨ns, rfl⟩ := hscope.exists
      simp only [updateStep]
      split_ifs with hlt heq
      · exact h.lower (heq.1.symm ▸ hlt)
      · exact h
      · refine h.lower_none ?_
        intro hlt'
        exact hlt (UInt64.lt_of_lt_of_le hlt' hcur)
  | raising cur =>
      obtain ⟨hscope, hcur⟩ := hfits
      obtain ⟨ns, rfl⟩ := hscope.exists
      simp only [updateStep]
      split_ifs with hlt heq
      · exact h.raise (heq.1.symm ▸ hlt)
      · exact h
      · refine h.raise_none ?_
        intro hlt'
        exact hlt (UInt64.lt_of_le_of_lt hcur hlt')

/-- A bound that was seen stays a bound, and what comes next has been seen right now. -/
theorem updateStep_fits {slot : ProfSlot} {u : ProfUpdate} {p q : UpdatePc}
    (hfits : p.Fits slot u) {spurious : Bool} (hnext : (updateStep u slot spurious p).2 = some q) :
    q.Fits (updateStep u slot spurious p).1 u := by
  cases p with
  | bumping =>
      cases hnext
      trivial
  | adding =>
      cases u with
      | scope ns =>
          cases hnext
          rfl
      | _ => cases hnext
  | loadingMin =>
      cases hnext
      exact ⟨hfits, UInt64.le_refl _⟩
  | loadingMax =>
      cases hnext
      exact ⟨hfits, UInt64.le_refl _⟩
  | lowering cur =>
      obtain ⟨hscope, hcur⟩ := hfits
      obtain ⟨ns, rfl⟩ := hscope.exists
      simp only [updateStep] at hnext ⊢
      split_ifs at hnext ⊢ with hlt heq
      · cases hnext
        exact hscope
      · cases hnext
        exact ⟨hscope, UInt64.le_refl _⟩
      · cases hnext
        exact hscope
  | raising cur =>
      obtain ⟨hscope, hcur⟩ := hfits
      obtain ⟨ns, rfl⟩ := hscope.exists
      simp only [updateStep] at hnext ⊢
      split_ifs at hnext ⊢ with hlt heq
      cases hnext
      exact ⟨hscope, UInt64.le_refl _⟩

/-- The bounds move apart only. -/
theorem updateStep_bounds (u : ProfUpdate) (slot : ProfSlot) (spurious : Bool) (p : UpdatePc) :
    (updateStep u slot spurious p).1.minNs ≤ slot.minNs ∧
      slot.maxNs ≤ (updateStep u slot spurious p).1.maxNs ∧
      (updateStep u slot spurious p).1.kind = slot.kind := by
  have hrefl : slot.minNs ≤ slot.minNs ∧ slot.maxNs ≤ slot.maxNs ∧ slot.kind = slot.kind :=
    ⟨UInt64.le_refl _, UInt64.le_refl _, rfl⟩
  cases p with
  | adding => cases u <;> exact hrefl
  | lowering cur =>
      cases u with
      | scope ns =>
          simp only [updateStep]
          split_ifs with hlt heq
          · exact ⟨UInt64.le_of_lt (heq.1.symm ▸ hlt), hrefl.2⟩
          · exact hrefl
          · exact hrefl
      | _ => exact hrefl
  | raising cur =>
      cases u with
      | scope ns =>
          simp only [updateStep]
          split_ifs with hlt heq
          · exact ⟨hrefl.1, UInt64.le_of_lt (heq.1.symm ▸ hlt), rfl⟩
          · exact hrefl
          · exact hrefl
      | _ => exact hrefl
  | _ => exact hrefl

/-- A field is settled by the access behind which the thread no longer waits for it. -/
theorem updateStep_pending {slot : ProfSlot} {u : ProfUpdate} {p : UpdatePc}
    (hfits : p.Fits slot u) (spurious : Bool) (f : ProfField) :
    if f ∈ p.settles u (updateStep u slot spurious p).2 then
      p.pending f = true ∧ (updateStep u slot spurious p).2.any (·.pending f) = false
    else (updateStep u slot spurious p).2.any (·.pending f) = p.pending f := by
  cases p with
  | bumping => cases f <;> simp [updateStep, UpdatePc.settles, UpdatePc.pending]
  | adding =>
      cases u with
      | scope ns => cases f <;> simp [updateStep, UpdatePc.settles, UpdatePc.pending]
      | _ => cases f <;> simp [updateStep, UpdatePc.settles, UpdatePc.pending]
  | loadingMin =>
      obtain ⟨ns, rfl⟩ := hfits.exists
      cases f <;> simp [updateStep, UpdatePc.settles, UpdatePc.pending]
  | loadingMax =>
      obtain ⟨ns, rfl⟩ := hfits.exists
      cases f <;> simp [updateStep, UpdatePc.settles, UpdatePc.pending]
  | lowering cur =>
      obtain ⟨ns, rfl⟩ := hfits.1.exists
      by_cases hlt : ns < cur
      · by_cases heq : slot.minNs = cur ∧ spurious = false
        · simp only [updateStep, if_pos hlt, if_pos heq]
          cases f <;> simp [UpdatePc.settles, UpdatePc.pending]
        · simp only [updateStep, if_pos hlt, if_neg heq]
          cases f <;> simp [UpdatePc.settles, UpdatePc.pending]
      · simp only [updateStep, if_neg hlt]
        cases f <;> simp [UpdatePc.settles, UpdatePc.pending]
  | raising cur =>
      obtain ⟨ns, rfl⟩ := hfits.1.exists
      by_cases hlt : cur < ns
      · by_cases heq : slot.maxNs = cur ∧ spurious = false
        · simp only [updateStep, if_pos hlt, if_pos heq]
          cases f <;> simp [UpdatePc.settles, UpdatePc.pending]
        · simp only [updateStep, if_pos hlt, if_neg heq]
          cases f <;> simp [UpdatePc.settles, UpdatePc.pending]
      · simp only [updateStep, if_neg hlt]
        cases f <;> simp [UpdatePc.settles, UpdatePc.pending]

end Hummingbird

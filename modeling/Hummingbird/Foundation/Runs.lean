import Mathlib.Tactic

/-!
Properties of every step along a run. A run is a list of operations applied one after
another; a property of steps may speak about the state an operation meets and about
the operation itself.
-/

namespace Runs

variable {σ α : Type} (step : σ → α → σ)

/-- The state after a run. -/
def final (s : σ) (ops : List α) : σ := ops.foldl step s

/-- A property holds at every step of a run. -/
def Along (P : σ → α → Prop) : σ → List α → Prop
  | _, [] => True
  | s, op :: ops => P s op ∧ Along P (step s op) ops

instance decidableAlong {P : σ → α → Prop} [∀ s op, Decidable (P s op)] :
    (s : σ) → (ops : List α) → Decidable (Along step P s ops)
  | _, [] => inferInstanceAs (Decidable True)
  | s, op :: ops => @instDecidableAnd _ _ _ (decidableAlong (step s op) ops)

variable {step}

theorem Along.imp {P Q : σ → α → Prop} (himp : ∀ s op, P s op → Q s op) {s : σ} {ops : List α}
    (hP : Along step P s ops) : Along step Q s ops := by
  induction ops generalizing s with
  | nil => trivial
  | cons op ops ih => exact ⟨himp s op hP.1, ih hP.2⟩

theorem along_of_forall {P : σ → α → Prop} (h : ∀ s op, P s op) {s : σ} (ops : List α) :
    Along step P s ops := by
  induction ops generalizing s with
  | nil => trivial
  | cons op ops ih => exact ⟨h s op, ih⟩

theorem Along.and {P Q : σ → α → Prop} {s : σ} {ops : List α} (hP : Along step P s ops)
    (hQ : Along step Q s ops) : Along step (fun s op => P s op ∧ Q s op) s ops := by
  induction ops generalizing s with
  | nil => trivial
  | cons op ops ih => exact ⟨⟨hP.1, hQ.1⟩, ih hP.2 hQ.2⟩

theorem final_append (s : σ) (ops ops' : List α) :
    final step s (ops ++ ops') = final step (final step s ops) ops' := List.foldl_append

/-- What every step keeps holds at the end of a run. -/
theorem final_of_step {inv : σ → Prop} (hstep : ∀ s op, inv s → inv (step s op)) {s : σ}
    (hs : inv s) (ops : List α) : inv (final step s ops) := by
  induction ops generalizing s with
  | nil => exact hs
  | cons op ops ih => exact ih (hstep s op hs)

/-- What every step under a condition keeps holds at the end of a run whose steps all meet
the condition. -/
theorem final_of_along {inv : σ → Prop} {P : σ → α → Prop}
    (hstep : ∀ s op, inv s → P s op → inv (step s op)) {s : σ} (hs : inv s) {ops : List α}
    (hops : Along step P s ops) : inv (final step s ops) := by
  induction ops generalizing s with
  | nil => exact hs
  | cons op ops ih => exact ih (hstep s op hs hops.1) hops.2

/-- What an invariant says of every step holds along a run whose steps keep it. -/
theorem along_of_inv {inv : σ → Prop} {P R : σ → α → Prop}
    (hP : ∀ s op, inv s → R s op → P s op)
    (hstep : ∀ s op, inv s → R s op → inv (step s op)) {s : σ} (hs : inv s) {ops : List α}
    (hR : Along step R s ops) : Along step P s ops := by
  induction ops generalizing s with
  | nil => trivial
  | cons op ops ih => exact ⟨hP s op hs hR.1, ih (hstep s op hs hR.1) hR.2⟩

theorem along_of_mem {P : α → Prop} {s : σ} {ops : List α} (h : ∀ op ∈ ops, P op) :
    Along step (fun _ op => P op) s ops := by
  induction ops generalizing s with
  | nil => trivial
  | cons op ops ih => exact ⟨h op (by simp), ih fun op hop => h op (by simp [hop])⟩

/-- Two properties that agree wherever an invariant holds agree along a run, when the
steps that have the second one keep the invariant. The third property restricts the
runs that are looked at. -/
theorem along_iff {inv : σ → Prop} {P Q R : σ → α → Prop}
    (hiff : ∀ s op, inv s → R s op → (P s op ↔ Q s op))
    (hstep : ∀ s op, inv s → R s op → Q s op → inv (step s op)) {s : σ} (hs : inv s)
    {ops : List α} (hR : Along step R s ops) : Along step P s ops ↔ Along step Q s ops := by
  induction ops generalizing s with
  | nil => exact Iff.rfl
  | cons op ops ih =>
      obtain ⟨hop, hrest⟩ := hR
      have hhead := hiff s op hs hop
      constructor
      · rintro ⟨hP, hPs⟩
        have hQ := hhead.mp hP
        exact ⟨hQ, (ih (hstep s op hs hop hQ) hrest).mp hPs⟩
      · rintro ⟨hQ, hQs⟩
        exact ⟨hhead.mpr hQ, (ih (hstep s op hs hop hQ) hrest).mpr hQs⟩

variable (step) in
/-- The largest value along a run, its start and its end included. -/
def Greatest (f : σ → Nat) (s : σ) (ops : List α) (peak : Nat) : Prop :=
  (∀ n, f (final step s (ops.take n)) ≤ peak) ∧ ∃ n, f (final step s (ops.take n)) = peak

/-- A register that every step raises to the value it leads to, if that is larger, holds the
largest value along the run, or still what it held at the start. -/
theorem greatest_or_of_along {inv : σ → Prop} {P : σ → α → Prop} {f g : σ → Nat}
    (hstep : ∀ s op, inv s → P s op → inv (step s op))
    (hraise : ∀ s op, inv s → P s op → g (step s op) = max (g s) (f (step s op)))
    (hle : ∀ s, inv s → f s ≤ g s) {s : σ} (hs : inv s) {ops : List α}
    (hops : Along step P s ops) :
    g s ≤ g (final step s ops) ∧
      (∀ n, f (final step s (ops.take n)) ≤ g (final step s ops)) ∧
      (g (final step s ops) = g s ∨
        ∃ n, f (final step s (ops.take n)) = g (final step s ops)) := by
  induction ops generalizing s with
  | nil => exact ⟨le_rfl, fun n => List.take_nil.symm ▸ hle s hs, Or.inl rfl⟩
  | cons op ops ih =>
      have hnext := hraise s op hs hops.1
      have hinv := hstep s op hs hops.1
      obtain ⟨hmono, hall, hattained⟩ := ih hinv hops.2
      have hgrow : g s ≤ g (step s op) := hnext ▸ le_max_left _ _
      refine ⟨hgrow.trans hmono, ?_, ?_⟩
      · intro n
        cases n with
        | zero => exact (hle s hs).trans (hgrow.trans hmono)
        | succ n => exact hall n
      · rcases hattained with hkept | ⟨n, hn⟩
        · rcases le_total (f (step s op)) (g s) with hlow | hhigh
          · exact Or.inl (hkept.trans (hnext.trans (max_eq_left hlow)))
          · refine Or.inr ⟨1, ?_⟩
            exact (hnext.trans (max_eq_right hhigh)).symm.trans hkept.symm
        · exact Or.inr ⟨n + 1, hn⟩

theorem greatest_of_along {inv : σ → Prop} {P : σ → α → Prop} {f g : σ → Nat}
    (hstep : ∀ s op, inv s → P s op → inv (step s op))
    (hraise : ∀ s op, inv s → P s op → g (step s op) = max (g s) (f (step s op)))
    (hle : ∀ s, inv s → f s ≤ g s) {s : σ} (hs : inv s) (hstart : g s = f s) {ops : List α}
    (hops : Along step P s ops) : Greatest step f s ops (g (final step s ops)) := by
  obtain ⟨-, hall, hkept | hattained⟩ := greatest_or_of_along hstep hraise hle hs hops
  · exact ⟨hall, 0, hstart.symm.trans hkept.symm⟩
  · exact ⟨hall, hattained⟩

end Runs

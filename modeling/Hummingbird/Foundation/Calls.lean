import Mathlib.Tactic

/-!
Calls that change a state and may fail. A failing call keeps what it has changed, so a
caller that goes on or gives up has to undo what it no longer wants: the unwinding is
part of the sequence. What a sequence achieves is said for both of its ends, and
follows from what each of its parts achieves.
-/

namespace Calls

variable {σ ε α β : Type}

abbrev Call (σ ε α : Type) := σ → σ × Except ε α

/-- What the environment answers, with no change to the state. -/
def answer (r : Except ε α) : Call σ ε α := fun s => (s, r)

/-- A change that cannot fail. -/
def perform (f : σ → σ) : Call σ ε Unit := fun s => (f s, .ok ())

/-- A call whose failure is returned after some unwinding, and the rest of the sequence. -/
def attempt (call : Call σ ε α) (unwind : σ → σ) (next : α → Call σ ε β) : Call σ ε β := fun s =>
  match call s with
  | (s, .error e) => (unwind s, .error e)
  | (s, .ok a) => next a s

/-- A change, and the rest of the sequence. -/
def after (f : σ → σ) (next : Call σ ε β) : Call σ ε β := fun s => next (f s)

/-- A choice by a look at the state. -/
def branch (c : σ → Bool) (yes no : Call σ ε α) : Call σ ε α := fun s =>
  if c s = true then yes s else no s

/-- A call whose result is written down in the state it leaves. -/
def noting (note : Except ε α → σ → σ) (call : Call σ ε α) : Call σ ε α := fun s =>
  (note (call s).2 (call s).1, (call s).2)

theorem attempt_answer_ok (a : α) (unwind : σ → σ) (next : α → Call σ ε β) :
    attempt (answer (.ok a)) unwind next = next a := rfl

section Laws

variable {γ : Type}

/-- What fails inside a sequence is not unwound a second time. -/
theorem attempt_attempt (call : Call σ ε α) (unwind : σ → σ) (next : α → Call σ ε β)
    (last : β → Call σ ε γ) :
    attempt (attempt call unwind next) id last =
      attempt call unwind fun a => attempt (next a) id last := by
  funext s
  unfold attempt
  rcases call s with ⟨s', e | a⟩ <;> rfl

theorem attempt_after (f : σ → σ) (call : Call σ ε α) (unwind : σ → σ)
    (next : α → Call σ ε β) :
    attempt (after f call) unwind next = after f (attempt call unwind next) := rfl

theorem attempt_branch (c : σ → Bool) (yes no : Call σ ε α) (unwind : σ → σ)
    (next : α → Call σ ε β) :
    attempt (branch c yes no) unwind next =
      branch c (attempt yes unwind next) (attempt no unwind next) := by
  funext s
  unfold attempt branch
  by_cases hc : c s = true
  · simp only [if_pos hc]
  · simp only [if_neg hc]

end Laws

/-- Between a precondition and what holds after a success and after a failure. -/
def Meets (P : σ → Prop) (call : Call σ ε α) (Q : α → σ → Prop) (R : σ → Prop) : Prop :=
  ∀ s, P s → (∀ a, (call s).2 = .ok a → Q a (call s).1) ∧
    ∀ e, (call s).2 = .error e → R (call s).1

variable {P P' R R' : σ → Prop} {Q Q' : α → σ → Prop} {S : β → σ → Prop}

theorem Meets.imp {call : Call σ ε α} (h : Meets P call Q R) (hP : ∀ s, P' s → P s)
    (hQ : ∀ a s, Q a s → Q' a s) (hR : ∀ s, R s → R' s) : Meets P' call Q' R' := by
  intro s hs
  obtain ⟨hok, herr⟩ := h s (hP s hs)
  exact ⟨fun a ha => hQ a _ (hok a ha), fun e he => hR _ (herr e he)⟩

theorem meets_true (P : σ → Prop) (call : Call σ ε α) :
    Meets P call (fun _ _ => True) fun _ => True :=
  fun _ _ => ⟨fun _ _ => trivial, fun _ _ => trivial⟩

theorem meets_answer {r : Except ε α} (hok : ∀ a s, r = .ok a → P s → Q a s)
    (herr : ∀ e s, r = .error e → P s → R s) : Meets P (answer r) Q R := by
  intro s hs
  exact ⟨fun a ha => hok a s ha hs, fun e he => herr e s he hs⟩

theorem meets_perform {f : σ → σ} {Q : Unit → σ → Prop} (hf : ∀ s, P s → Q () (f s)) :
    Meets P (perform f : Call σ ε Unit) Q R := by
  intro s hs
  refine ⟨fun a _ => hf s hs, ?_⟩
  intro e he
  cases he

theorem meets_after {f : σ → σ} {next : Call σ ε β} (hnext : Meets P' next S R)
    (hf : ∀ s, P s → P' (f s)) : Meets P (after f next) S R := fun s hs => hnext (f s) (hf s hs)

/-- A change in front of a call that asks nothing. -/
theorem meets_after_true {f : σ → σ} {next : Call σ ε β} (hnext : Meets (fun _ => True) next S R) :
    Meets P (after f next) S R :=
  meets_after hnext fun _ _ => trivial

theorem meets_attempt {call : Call σ ε α} {unwind : σ → σ} {next : α → Call σ ε β}
    (hcall : Meets P call Q R') (hunwind : ∀ s, R' s → R (unwind s))
    (hnext : ∀ a, Meets (Q a) (next a) S R) : Meets P (attempt call unwind next) S R := by
  intro s hs
  obtain ⟨hok, herr⟩ := hcall s hs
  unfold attempt
  rcases hres : call s with ⟨s', e | a⟩
  · rw [hres] at herr
    refine ⟨?_, fun _ _ => hunwind s' (herr e rfl)⟩
    intro b hb
    cases hb
  · rw [hres] at hok
    exact hnext a s' (hok a rfl)

theorem meets_branch {c : σ → Bool} {yes no : Call σ ε α}
    (hyes : Meets (fun s => P s ∧ c s = true) yes Q R)
    (hno : Meets (fun s => P s ∧ c s = false) no Q R) : Meets P (branch c yes no) Q R := by
  intro s hs
  unfold branch
  split
  · rename_i hc
    exact hyes s ⟨hs, hc⟩
  · rename_i hc
    exact hno s ⟨hs, Bool.eq_false_iff.mpr hc⟩

/-- A choice whose reason does not matter. -/
theorem meets_either {c : σ → Bool} {yes no : Call σ ε α} (hyes : Meets P yes Q R)
    (hno : Meets P no Q R) : Meets P (branch c yes no) Q R :=
  meets_branch (hyes.imp (fun _ h => h.1) (fun _ _ h => h) fun _ h => h)
    (hno.imp (fun _ h => h.1) (fun _ _ h => h) fun _ h => h)

theorem meets_noting {note : Except ε α → σ → σ} {call : Call σ ε α} (hcall : Meets P call Q' R')
    (hok : ∀ a s, Q' a s → Q a (note (.ok a) s))
    (herr : ∀ e s, R' s → R (note (.error e) s)) : Meets P (noting note call) Q R := by
  intro s hs
  obtain ⟨hok', herr'⟩ := hcall s hs
  constructor
  · intro a ha
    have hres : (call s).2 = .ok a := ha
    simp only [noting, hres]
    exact hok a _ (hok' a hres)
  · intro e he
    have hres : (call s).2 = .error e := he
    simp only [noting, hres]
    exact herr e _ (herr' e hres)

theorem Meets.and {call : Call σ ε α} (h : Meets P call Q R) (h' : Meets P' call Q' R') :
    Meets (fun s => P s ∧ P' s) call (fun a s => Q a s ∧ Q' a s) (fun s => R s ∧ R' s) := by
  rintro s ⟨hs, hs'⟩
  obtain ⟨hok, herr⟩ := h s hs
  obtain ⟨hok', herr'⟩ := h' s hs'
  exact ⟨fun a ha => ⟨hok a ha, hok' a ha⟩, fun e he => ⟨herr e he, herr' e he⟩⟩

/-- A call that cannot end in failure succeeds. -/
theorem Meets.ok {call : Call σ ε α} (h : Meets P call Q fun _ => False) {s : σ} (hs : P s) :
    ∃ a, (call s).2 = .ok a := by
  cases hres : (call s).2 with
  | error e => exact ((h s hs).2 e hres).elim
  | ok a => exact ⟨a, rfl⟩

/-- What holds after both ends holds at the end. -/
theorem Meets.final {call : Call σ ε α} (h : Meets P call (fun _ => R) R) {s : σ} (hs : P s) :
    R (call s).1 := by
  cases hres : (call s).2 with
  | error e => exact (h s hs).2 e hres
  | ok a => exact (h s hs).1 a hres

/-- Whichever way a call ends, it keeps a property. -/
def Keeps (P : σ → Prop) (call : Call σ ε α) : Prop := Meets P call (fun _ => P) P

theorem Keeps.final {call : Call σ ε α} (h : Keeps P call) {s : σ} (hs : P s) :
    P (call s).1 := Meets.final h hs

theorem keeps_of_forall {call : Call σ ε α} (h : ∀ s, P s → P (call s).1) : Keeps P call :=
  fun s hs => ⟨fun _ _ => h s hs, fun _ _ => h s hs⟩

theorem keeps_answer (r : Except ε α) : Keeps P (answer r) :=
  keeps_of_forall fun _ hs => hs

theorem keeps_perform {f : σ → σ} (hf : ∀ s, P s → P (f s)) :
    Keeps P (perform f : Call σ ε Unit) :=
  keeps_of_forall hf

theorem keeps_after {f : σ → σ} {next : Call σ ε β} (hf : ∀ s, P s → P (f s))
    (hnext : Keeps P next) : Keeps P (after f next) :=
  meets_after hnext hf

theorem keeps_attempt {call : Call σ ε α} {unwind : σ → σ} {next : α → Call σ ε β}
    (hcall : Keeps P call) (hunwind : ∀ s, P s → P (unwind s)) (hnext : ∀ a, Keeps P (next a)) :
    Keeps P (attempt call unwind next) :=
  meets_attempt hcall hunwind hnext

theorem keeps_branch {c : σ → Bool} {yes no : Call σ ε α} (hyes : Keeps P yes)
    (hno : Keeps P no) : Keeps P (branch c yes no) :=
  meets_either hyes hno

theorem keeps_noting {note : Except ε α → σ → σ} {call : Call σ ε α} (hcall : Keeps P call)
    (hnote : ∀ r s, P s → P (note r s)) : Keeps P (noting note call) :=
  meets_noting hcall (fun a => hnote (.ok a)) fun e => hnote (.error e)

end Calls

import Hummingbird.Adapter.Descriptor
import Mathlib.Data.List.TakeWhile

/-!
The texts that `strtol` reads: spaces, a sign and digits. What it answers is the number of the
text, clamped to a `long`.
-/

namespace Hummingbird

/-- The sign that `strtol` takes before the digits. -/
inductive NumeralSign where
  | none
  | plus
  | minus
  deriving DecidableEq, Repr

def NumeralSign.text : NumeralSign → List Char
  | .none => []
  | .plus => ['+']
  | .minus => ['-']

/-- A text from which `strtol` reads a number. -/
structure Numeral where
  spaces : List Char
  sign : NumeralSign
  digits : List Char
  spaces_isSpace : ∀ c ∈ spaces, isSpaceC c = true
  digits_ne_nil : digits ≠ []
  digits_isDigit : ∀ c ∈ digits, c.isDigit = true

def Numeral.text (n : Numeral) : List Char := n.spaces ++ n.sign.text ++ n.digits

/-- The number, clamped to a `long`. -/
def Numeral.value (n : Numeral) : Int :=
  let magnitude : Int := (Nat.ofDigitChars 10 n.digits 0 : Nat)
  max longMin (min (if n.sign = .minus then -magnitude else magnitude) longMax)

def Numeral.magnitude (n : Numeral) : Nat := Nat.ofDigitChars 10 n.digits 0

/-- The number that is written. -/
def Numeral.number (n : Numeral) : Int :=
  if n.sign = .minus then -(n.magnitude : Int) else n.magnitude

theorem Numeral.value_eq (n : Numeral) : n.value = max longMin (min n.number longMax) := rfl

theorem Numeral.noSpaces : ∀ c ∈ ([] : List Char), isSpaceC c = true := List.forall_mem_nil _

/-- The number as `%u` prints it. -/
def Numeral.ofNat (n : Nat) : Numeral where
  spaces := []
  sign := .none
  digits := Nat.toDigits 10 n
  spaces_isSpace := Numeral.noSpaces
  digits_ne_nil := Nat.toDigits_ne_nil
  digits_isDigit _ hc := Nat.isDigit_of_mem_toDigits (by omega) (by omega) hc

theorem isSpaceC_of_isDigit {c : Char} (h : c.isDigit = true) : isSpaceC c = false := by
  simp only [Char.isDigit, Bool.and_eq_true, decide_eq_true_eq] at h
  have hlo : 48 ≤ c.toNat := h.1
  have hne : c ≠ ' ' := by
    rintro rfl
    exact absurd hlo (by decide)
  simp only [isSpaceC, Bool.or_eq_false_iff, beq_eq_false_iff_ne, ne_eq, hne, not_false_eq_true,
    Bool.and_eq_false_iff, decide_eq_false_iff_not, true_and]
  exact Or.inr (by omega)

/-- A list that begins with a run is split at its end. -/
theorem takeWhile_dropWhile_run {α : Type} {p : α → Bool} {xs tail : List α}
    (hxs : ∀ x ∈ xs, p x = true) (htail : ∀ x ∈ tail.head?, p x = false) :
    (xs ++ tail).takeWhile p = xs ∧ (xs ++ tail).dropWhile p = tail := by
  induction xs with
  | nil =>
      cases tail with
      | nil => exact ⟨rfl, rfl⟩
      | cons x tail =>
          have hx : p x = false := htail x rfl
          simp [hx]
  | cons x xs ih =>
      have hx : p x = true := hxs x List.mem_cons_self
      obtain ⟨htake, hdrop⟩ := ih fun y hy => hxs y (List.mem_cons_of_mem x hy)
      rw [List.cons_append, List.takeWhile_cons_of_pos hx, List.dropWhile_cons_of_pos hx]
      exact ⟨congrArg (x :: ·) htake, hdrop⟩

/-- What `strtol` does behind the sign. -/
def strtolDigits (s : List Char) (sign : NumeralSign) (body : List Char) : Int × List Char :=
  let digits := body.takeWhile Char.isDigit
  if digits.isEmpty then (0, s)
  else
    let magnitude : Int := (Nat.ofDigitChars 10 digits 0 : Nat)
    (max longMin (min (if sign = .minus then -magnitude else magnitude) longMax),
      body.dropWhile Char.isDigit)

/-- The number with a sign, clamped to a `long`. -/
def clampedNumber (sign : NumeralSign) (magnitude : Nat) : Int :=
  max longMin (min (if sign = .minus then -(magnitude : Int) else magnitude) longMax)

/-- What a number parser of the C library does behind the sign. -/
def readDigits {α : Type} (zero : α) (conv : NumeralSign → Nat → α) (s : List Char)
    (sign : NumeralSign) (body : List Char) : α × List Char :=
  if (body.takeWhile Char.isDigit).isEmpty then (zero, s)
  else (conv sign (Nat.ofDigitChars 10 (body.takeWhile Char.isDigit) 0),
    body.dropWhile Char.isDigit)

/-- The text behind the spaces is a sign and what follows it. -/
structure SignSplit (text : List Char) (sign : NumeralSign) (body : List Char) : Prop where
  text_eq : text = sign.text ++ body
  unsigned : sign = .none → body.head? ≠ some '-' ∧ body.head? ≠ some '+'

theorem exists_signSplit (text : List Char) : ∃ sign body, SignSplit text sign body := by
  cases text with
  | nil => exact ⟨.none, [], rfl, fun _ => by simp⟩
  | cons c cs =>
      by_cases hminus : c = '-'
      · exact ⟨.minus, cs, by rw [hminus]; rfl, fun h => by cases h⟩
      · by_cases hplus : c = '+'
        · exact ⟨.plus, cs, by rw [hplus]; rfl, fun h => by cases h⟩
        · exact ⟨.none, c :: cs, rfl, fun _ => by simp [hminus, hplus]⟩

theorem strtol_eq {s body : List Char} {sign : NumeralSign}
    (h : SignSplit (s.dropWhile isSpaceC) sign body) : strtol s = strtolDigits s sign body := by
  unfold strtol strtolDigits
  simp only [Nat.ofDigitChars_eq_foldl, h.text_eq]
  cases sign with
  | minus => simp [NumeralSign.text]
  | plus => simp [NumeralSign.text]
  | none =>
      obtain ⟨hminus, hplus⟩ := h.unsigned rfl
      cases body with
      | nil => rfl
      | cons c cs =>
          simp only [List.head?_cons, ne_eq, Option.some.injEq] at hminus hplus
          simp [NumeralSign.text, hminus, hplus]

theorem SignSplit.unique {text body body' : List Char} {sign sign' : NumeralSign}
    (h : SignSplit text sign body) (h' : SignSplit text sign' body') :
    sign = sign' ∧ body = body' := by
  have heq := h.text_eq.symm.trans h'.text_eq
  have hnone := h.unsigned
  have hnone' := h'.unsigned
  cases sign with
  | none =>
      obtain ⟨hminus, hplus⟩ := hnone rfl
      cases sign' with
      | none => exact ⟨rfl, heq⟩
      | plus => exact absurd (by rw [show body = '+' :: body' from heq]; rfl) hplus
      | minus => exact absurd (by rw [show body = '-' :: body' from heq]; rfl) hminus
  | plus =>
      cases sign' with
      | none => exact absurd (by rw [show body' = '+' :: body from heq.symm]; rfl) (hnone' rfl).2
      | plus => exact ⟨rfl, List.cons.inj heq |>.2⟩
      | minus => exact absurd (List.cons.inj heq).1 (by decide)
  | minus =>
      cases sign' with
      | none => exact absurd (by rw [show body' = '-' :: body from heq.symm]; rfl) (hnone' rfl).1
      | plus => exact absurd (List.cons.inj heq).1 (by decide)
      | minus => exact ⟨rfl, List.cons.inj heq |>.2⟩

/-- Behind its spaces a numeral is its sign and its digits. -/
theorem Numeral.signSplit (n : Numeral) (tail : List Char) :
    SignSplit ((n.text ++ tail).dropWhile isSpaceC) n.sign (n.digits ++ tail) := by
  obtain ⟨d, ds, hds⟩ := List.exists_cons_of_ne_nil n.digits_ne_nil
  have hd : d.isDigit = true := n.digits_isDigit d (hds ▸ List.mem_cons_self)
  have hspace : ∀ c ∈ (n.sign.text ++ (n.digits ++ tail)).head?, isSpaceC c = false := by
    rw [hds]
    cases n.sign with
    | none => simpa [NumeralSign.text] using isSpaceC_of_isDigit hd
    | plus => simp [NumeralSign.text, isSpaceC]
    | minus => simp [NumeralSign.text, isSpaceC]
  rw [Numeral.text, List.append_assoc, List.append_assoc,
    (takeWhile_dropWhile_run n.spaces_isSpace hspace).2]
  refine ⟨rfl, fun _ => ?_⟩
  rw [hds, List.cons_append, List.head?_cons]
  constructor
  · rintro ⟨⟩
    exact absurd hd (by decide)
  · rintro ⟨⟩
    exact absurd hd (by decide)

/-- A text is read as one number only. -/
theorem Numeral.number_eq_of_text {n m : Numeral} (h : n.text = m.text) :
    n.number = m.number := by
  have hn := n.signSplit []
  have hm := m.signSplit []
  rw [List.append_nil, List.append_nil] at hn hm
  rw [h] at hn
  obtain ⟨hsign, hdigits⟩ := hn.unique hm
  unfold Numeral.number Numeral.magnitude
  rw [hsign, hdigits]

theorem Numeral.text_ne_nil (n : Numeral) : n.text ≠ [] := by
  intro h
  exact n.digits_ne_nil (List.append_eq_nil_iff.mp h).2

/-- A text with digits behind its spaces and its sign begins with a numeral. -/
theorem exists_numeral {s body : List Char} {sign : NumeralSign}
    (h : SignSplit (s.dropWhile isSpaceC) sign body) (hdigits : body.takeWhile Char.isDigit ≠ []) :
    ∃ n : Numeral, n.sign = sign ∧ n.digits = body.takeWhile Char.isDigit ∧
      s = n.text ++ body.dropWhile Char.isDigit := by
  let n : Numeral :=
    { spaces := s.takeWhile isSpaceC
      sign := sign
      digits := body.takeWhile Char.isDigit
      spaces_isSpace := fun c hc => List.mem_takeWhile_imp hc
      digits_ne_nil := hdigits
      digits_isDigit := fun c hc => List.mem_takeWhile_imp hc }
  refine ⟨n, rfl, rfl, ?_⟩
  rw [Numeral.text, List.append_assoc, List.append_assoc, List.takeWhile_append_dropWhile,
    ← h.text_eq, List.takeWhile_append_dropWhile]

section Reads

variable {α : Type} {zero v : α} {conv : NumeralSign → Nat → α} {f : List Char → α × List Char}
  (hf : ∀ s sign body, SignSplit (s.dropWhile isSpaceC) sign body →
    f s = readDigits zero conv s sign body)

include hf

/-- A numeral is read up to its end. -/
theorem reads_text (n : Numeral) {tail : List Char}
    (htail : ∀ c ∈ tail.head?, c.isDigit = false) :
    f (n.text ++ tail) = (conv n.sign n.magnitude, tail) := by
  obtain ⟨htake, hdrop⟩ := takeWhile_dropWhile_run n.digits_isDigit htail
  have hempty : n.digits.isEmpty = false := List.isEmpty_eq_false_iff.mpr n.digits_ne_nil
  rw [hf _ _ _ (n.signSplit tail)]
  simp only [readDigits, htake, hdrop, hempty]
  rfl

/-- Every text begins with a numeral that is read, or nothing is read. -/
theorem reads_cases (s : List Char) :
    f s = (zero, s) ∨ ∃ (n : Numeral) (tail : List Char), s = n.text ++ tail ∧
      f s = (conv n.sign n.magnitude, tail) := by
  obtain ⟨sign, body, hsign⟩ := exists_signSplit (s.dropWhile isSpaceC)
  rw [hf _ _ _ hsign]
  by_cases hempty : body.takeWhile Char.isDigit = []
  · left
    simp only [readDigits, hempty]
    rfl
  · right
    obtain ⟨n, hn, hdigits, hs⟩ := exists_numeral hsign hempty
    have hne : (body.takeWhile Char.isDigit).isEmpty = false := List.isEmpty_eq_false_iff.mpr hempty
    refine ⟨n, _, hs, ?_⟩
    simp only [readDigits, hne, Numeral.magnitude, hn, hdigits]
    rfl

/-- A whole text is read exactly when it is a numeral. -/
theorem reads_whole_iff {s : List Char} :
    f s = (v, []) ∧ s ≠ [] ↔ ∃ n : Numeral, n.text = s ∧ v = conv n.sign n.magnitude := by
  constructor
  · rintro ⟨hread, hs⟩
    rcases reads_cases hf s with hnone | ⟨n, tail, htext, hread'⟩
    · rw [hnone] at hread
      exact absurd (Prod.mk.inj hread).2 hs
    · rw [hread'] at hread
      obtain ⟨rfl, rfl⟩ := Prod.mk.inj hread
      exact ⟨n, by rw [htext, List.append_nil], rfl⟩
  · rintro ⟨n, rfl, rfl⟩
    have hread := @reads_text α zero conv f hf n [] (by simp)
    rw [List.append_nil] at hread
    exact ⟨hread, n.text_ne_nil⟩

end Reads

theorem strtolDigits_eq (s : List Char) (sign : NumeralSign) (body : List Char) :
    strtolDigits s sign body = readDigits 0 clampedNumber s sign body := rfl

theorem strtol_reads (s : List Char) (sign : NumeralSign) (body : List Char)
    (h : SignSplit (s.dropWhile isSpaceC) sign body) :
    strtol s = readDigits 0 clampedNumber s sign body :=
  (strtol_eq h).trans (strtolDigits_eq s sign body)

/-- `strtol` reads a numeral up to its end. -/
theorem strtol_text (n : Numeral) {tail : List Char}
    (htail : ∀ c ∈ tail.head?, c.isDigit = false) :
    strtol (n.text ++ tail) = (n.value, tail) :=
  reads_text strtol_reads n htail

/-- Every text begins with a numeral that `strtol` reads, or nothing is read. -/
theorem strtol_cases (s : List Char) :
    strtol s = (0, s) ∨ ∃ (n : Numeral) (tail : List Char), s = n.text ++ tail ∧
      strtol s = (n.value, tail) :=
  reads_cases strtol_reads s

/-- `strtol` reads a whole text exactly when that is a numeral. -/
theorem strtol_whole_iff {s : List Char} {v : Int} :
    strtol s = (v, []) ∧ s ≠ [] ↔ ∃ n : Numeral, n.text = s ∧ v = n.value :=
  reads_whole_iff strtol_reads

end Hummingbird

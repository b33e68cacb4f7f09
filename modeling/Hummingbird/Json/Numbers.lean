import Hummingbird.Json.Complete

/-!
The texts that `parse_number` takes against the numbers of RFC 8259. Both are a minus, digits, a
point with digits and an exponent, each of which may be missing; `strtod` asks for a digit in
front of the point or behind it, the RFC for one on either side and for no zero in front of
other digits.
-/

namespace Hummingbird

variable {buf : List UInt8}

/-- A mark, a sign and digits. -/
structure ExponentText where
  mark : UInt8
  sign : List UInt8
  digits : List UInt8

def ExponentText.text (x : ExponentText) : List UInt8 := x.mark :: (x.sign ++ x.digits)

structure ExponentText.Legal (x : ExponentText) : Prop where
  mark : x.mark = byte 'e' ∨ x.mark = byte 'E'
  sign : x.sign = [] ∨ x.sign = [byte '-'] ∨ x.sign = [byte '+']
  digits : ∀ c ∈ x.digits, isDigit c = true
  digits_ne : x.digits ≠ []

/-- The parts of a number. -/
structure NumberText where
  minus : Bool
  whole : List UInt8
  fraction : Option (List UInt8)
  exponent : Option ExponentText

def pointText (fraction : Option (List UInt8)) : List UInt8 := fraction.elim [] (byte '.' :: ·)

def exponentText (exponent : Option ExponentText) : List UInt8 :=
  exponent.elim [] ExponentText.text

def NumberText.text (t : NumberText) : List UInt8 :=
  (if t.minus then [byte '-'] else []) ++ (t.whole ++ (pointText t.fraction ++
    exponentText t.exponent))

structure NumberText.Legal (t : NumberText) : Prop where
  whole : ∀ c ∈ t.whole, isDigit c = true
  fraction : ∀ ds ∈ t.fraction, ∀ c ∈ ds, isDigit c = true
  exponent : ∀ x ∈ t.exponent, x.Legal

/-- A digit on one of the sides of the point. -/
def NumberText.HasDigit (t : NumberText) : Prop := t.whole ≠ [] ∨ t.fraction.getD [] ≠ []

/-- `int` of the RFC, and a digit behind a point. -/
structure NumberText.Rfc (t : NumberText) : Prop where
  whole : t.whole ≠ []
  leading : t.whole.head? = some (byte '0') → t.whole.length = 1
  fraction : t.fraction ≠ some []

/-- A number of RFC 8259. -/
def IsRfcNumber (s : List UInt8) : Prop := ∃ t : NumberText, t.Legal ∧ t.Rfc ∧ s = t.text

/-- What `strtod` takes beyond that: no digit in front of the point, a zero in front of other
digits, or no digit behind the point. -/
def IsLooseNumber (s : List UInt8) : Prop :=
  ∃ t : NumberText, t.Legal ∧ t.HasDigit ∧ s = t.text ∧
    (t.whole = [] ∨ t.whole.head? = some (byte '0') ∧ 1 < t.whole.length ∨ t.fraction = some [])

theorem takeWhile_digits {ds t : List UInt8} (hds : ∀ c ∈ ds, isDigit c = true)
    (ht : ∀ c ∈ t.head?, isDigit c = false) : (ds ++ t).takeWhile isDigit = ds := by
  rw [List.takeWhile_append_of_pos hds]
  cases t with
  | nil => simp
  | cons c t => simp [ht c rfl]

/-- The exponent is read from its text. -/
theorem exponentPart_text {exponent : Option ExponentText} (h : ∀ x ∈ exponent, x.Legal) :
    (exponentPart (exponentText exponent)).2 = (exponentText exponent).length := by
  cases exponent with
  | none => rfl
  | some x =>
      obtain ⟨hmark, hsign, hdigits, hne⟩ := h x rfl
      have hrun := @takeWhile_digits x.digits [] hdigits (by simp)
      rw [List.append_nil] at hrun
      have hdigit : ∀ c, x.digits.head? = some c → c ≠ byte '-' ∧ c ≠ byte '+' := by
        intro c hc
        have hc := hdigits c (List.mem_of_mem_head? hc)
        constructor
        · rintro rfl
          exact absurd hc (by decide)
        · rintro rfl
          exact absurd hc (by decide)
      have hlength : signLength (x.sign ++ x.digits) = x.sign.length := by
        unfold signLength
        rcases hsign with hs | hs | hs
        · rw [hs, List.nil_append, if_neg]
          · rfl
          · rintro (hc | hc)
            · exact (hdigit _ hc).1 rfl
            · exact (hdigit _ hc).2 rfl
        · rw [hs]
          rfl
        · rw [hs]
          rfl
      have hdrop : (x.mark :: (x.sign ++ x.digits)).drop (1 + x.sign.length) = x.digits := by
        rw [Nat.add_comm, List.drop_succ_cons, List.drop_left]
      unfold exponentPart exponentText ExponentText.text
      simp only [Option.elim_some, List.head?_cons, Option.some.injEq, hmark, if_true,
        List.drop_succ_cons, List.drop_zero, hlength, hdrop, hrun, hne, if_false,
        List.length_cons, List.length_append]
      omega

theorem take_signLength (s : List UInt8) :
    s.take (signLength s) = [] ∨ s.take (signLength s) = [byte '-'] ∨
      s.take (signLength s) = [byte '+'] := by
  unfold signLength
  split
  · rename_i h
    rcases s with _ | ⟨c, t⟩
    · exact Or.inl rfl
    · right
      simpa using h
  · exact Or.inl List.take_zero

/-- What the exponent is read from to its end is the text of one. -/
theorem exponentText_of_length {s : List UInt8} (h : (exponentPart s).2 = s.length) :
    ∃ exponent : Option ExponentText, (∀ x ∈ exponent, x.Legal) ∧ s = exponentText exponent := by
  rcases s with _ | ⟨c, t⟩
  · exact ⟨none, by simp, rfl⟩
  · unfold exponentPart at h
    split at h
    · rename_i hmark
      have hdrop : (c :: t).drop (1 + signLength t) = t.drop (signLength t) := by
        rw [Nat.add_comm, List.drop_succ_cons]
      simp only [List.drop_succ_cons, List.drop_zero, hdrop] at h
      split at h
      · simp at h
      · rename_i hne
        have hall : (t.drop (signLength t)).takeWhile isDigit = t.drop (signLength t) := by
          apply (List.takeWhile_prefix _).eq_of_length
          have hsign := signLength_le t
          simp only [List.length_cons, List.length_drop] at h ⊢
          omega
        refine ⟨some ⟨c, t.take (signLength t), t.drop (signLength t)⟩, ?_, ?_⟩
        · rintro x ⟨⟩
          refine ⟨by simpa using hmark, take_signLength t, ?_, by rwa [hall] at hne⟩
          exact List.takeWhile_eq_self_iff.mp hall
        · simp [exponentText, ExponentText.text]
    · simp at h

/-- The fraction is read from its text. -/
theorem fractionPart_text {fraction : Option (List UInt8)} {rest : List UInt8}
    (h : ∀ ds ∈ fraction, ∀ c ∈ ds, isDigit c = true)
    (hrest : ∀ c ∈ rest.head?, isDigit c = false ∧ c ≠ byte '.') :
    fractionPart (pointText fraction ++ rest) =
      (fraction.getD [], (pointText fraction).length) := by
  unfold fractionPart
  cases fraction with
  | none =>
      rw [if_neg]
      · rfl
      · intro hpoint
        exact (hrest _ hpoint).2 rfl
  | some ds =>
      have hrun := takeWhile_digits (h ds rfl) fun c hc => (hrest c hc).1
      simp [pointText, hrun, Nat.add_comm]

/-- Every text begins with a fraction, which may be missing. -/
theorem exists_fraction (s : List UInt8) :
    ∃ fraction : Option (List UInt8), (∀ ds ∈ fraction, ∀ c ∈ ds, isDigit c = true) ∧
      fractionPart s = (fraction.getD [], (pointText fraction).length) ∧
      s = pointText fraction ++ s.drop (fractionPart s).2 := by
  unfold fractionPart
  split
  · rename_i hpoint
    rcases s with _ | ⟨c, t⟩
    · simp at hpoint
    · obtain rfl : c = byte '.' := by simpa using hpoint
      refine ⟨some (t.takeWhile isDigit), ?_, ?_, ?_⟩
      · rintro ds ⟨⟩ c hc
        exact List.mem_takeWhile_imp hc
      · simp [pointText, Nat.add_comm]
      · have hsplit := List.prefix_iff_eq_append.mp (List.takeWhile_prefix isDigit (l := t))
        simp only [pointText, Option.elim_some, List.drop_succ_cons, List.drop_zero,
          Nat.add_comm 1, List.cons_append, hsplit]
  · exact ⟨none, by simp, rfl, rfl⟩

theorem exponentText_head {exponent : Option ExponentText} (h : ∀ x ∈ exponent, x.Legal) :
    ∀ c ∈ (exponentText exponent).head?, c = byte 'e' ∨ c = byte 'E' := by
  intro c hc
  cases exponent with
  | none => simp [exponentText] at hc
  | some x =>
      obtain rfl : x.mark = c := by simpa [exponentText, ExponentText.text] using hc
      exact (h x rfl).mark

namespace NumberText.Legal

variable {t : NumberText} (h : t.Legal)

include h

/-- What follows the digits in front of the point. -/
theorem behind_whole : ∀ c ∈ (pointText t.fraction ++ exponentText t.exponent).head?,
    c = byte '.' ∨ c = byte 'e' ∨ c = byte 'E' := by
  intro c hc
  cases hf : t.fraction with
  | none =>
      rw [hf] at hc
      exact Or.inr (exponentText_head h.exponent c hc)
  | some ds =>
      rw [hf] at hc
      obtain rfl : byte '.' = c := by simpa [pointText] using hc
      exact Or.inl rfl

theorem signLength_text : signLength t.text = if t.minus then 1 else 0 := by
  unfold signLength NumberText.text
  cases t.minus with
  | true => rfl
  | false =>
      simp only [Bool.false_eq_true, if_false, List.nil_append]
      rw [if_neg]
      · have hnot : ∀ c ∈ (t.whole ++ (pointText t.fraction ++ exponentText t.exponent)).head?,
            isDigit c = true ∨ c = byte '.' ∨ c = byte 'e' ∨ c = byte 'E' := by
          intro c hc
          cases hw : t.whole with
          | nil =>
              rw [hw] at hc
              exact Or.inr (h.behind_whole c hc)
          | cons d ds =>
              obtain rfl : d = c := by simpa [hw] using hc
              exact Or.inl (h.whole d (by simp [hw]))
        rintro (hc | hc)
        · exact absurd (hnot _ hc) (by decide)
        · exact absurd (hnot _ hc) (by decide)

/-- The parts of a number are read back from its text. -/
theorem parts :
    (t.text.drop (signLength t.text)).takeWhile isDigit = t.whole ∧
      t.text.drop (signLength t.text + t.whole.length) =
        pointText t.fraction ++ exponentText t.exponent := by
  have hdrop : t.text.drop (signLength t.text) =
      t.whole ++ (pointText t.fraction ++ exponentText t.exponent) := by
    rw [h.signLength_text, NumberText.text]
    cases t.minus with
    | true => rfl
    | false => rfl
  constructor
  · rw [hdrop]
    apply takeWhile_digits h.whole
    intro c hc
    rcases h.behind_whole c hc with rfl | rfl | rfl
    · decide
    · decide
    · decide
  · rw [← List.drop_drop, hdrop, List.drop_left]

theorem fraction_read : fractionPart (t.text.drop (signLength t.text + t.whole.length)) =
    (t.fraction.getD [], (pointText t.fraction).length) := by
  rw [h.parts.2]
  apply fractionPart_text h.fraction
  intro c hc
  rcases exponentText_head h.exponent c hc with rfl | rfl
  · decide
  · decide

/-- A number with a digit is converted as a whole. -/
theorem strtod_text (hdigit : t.HasDigit) : (strtod t.text).2 = t.text.length := by
  have hexponent : t.text.drop (signLength t.text + t.whole.length +
      (pointText t.fraction).length) = exponentText t.exponent := by
    rw [← List.drop_drop, h.parts.2, List.drop_left]
  have hlength : t.text.length = signLength t.text + t.whole.length +
      (pointText t.fraction).length + (exponentText t.exponent).length := by
    rw [h.signLength_text, NumberText.text]
    cases t.minus <;> simp only [if_true, Bool.false_eq_true, if_false, List.length_append,
      List.length_singleton, List.length_nil] <;> omega
  unfold strtod
  dsimp only
  rw [h.parts.1, h.fraction_read]
  dsimp only
  rw [hexponent, exponentPart_text h.exponent, if_neg]
  · exact hlength.symm
  · rintro ⟨hwhole, hfraction⟩
    exact hdigit.elim (fun hne => hne hwhole) fun hne => hne hfraction

end NumberText.Legal

theorem take_signLength_of_ne {s : List UInt8} (hplus : s.head? ≠ some (byte '+')) :
    s.take (signLength s) = if isNegative s then [byte '-'] else [] := by
  unfold signLength isNegative
  rcases s with _ | ⟨c, t⟩
  · rfl
  · by_cases hminus : c = byte '-'
    · simp [hminus]
    · have hc : c ≠ byte '+' := by simpa using hplus
      simp [hminus, hc]

/-- What is converted as a whole and does not begin with a plus is a number with a digit. -/
theorem exists_numberText {s : List UInt8} (hplus : s.head? ≠ some (byte '+')) (hne : s ≠ [])
    (h : (strtod s).2 = s.length) :
    ∃ t : NumberText, t.Legal ∧ t.HasDigit ∧ s = t.text := by
  obtain ⟨fraction, hfraction, hread, hsplit⟩ := exists_fraction
    (s.drop (signLength s + ((s.drop (signLength s)).takeWhile isDigit).length))
  have hwhole := List.prefix_iff_eq_append.mp
    (List.takeWhile_prefix isDigit (l := s.drop (signLength s)))
  rw [List.drop_drop] at hwhole
  unfold strtod at h
  dsimp only at h
  rw [hread] at h hsplit
  rw [List.drop_drop] at hsplit
  split at h
  · exact absurd (List.length_eq_zero_iff.mp h.symm) hne
  · rename_i hdigit
    have hrest := exponentPart_le (s.drop (signLength s +
      ((s.drop (signLength s)).takeWhile isDigit).length + (pointText fraction).length))
    obtain ⟨exponent, hexponent, hlast⟩ := @exponentText_of_length
      (s.drop (signLength s + ((s.drop (signLength s)).takeWhile isDigit).length +
        (pointText fraction).length)) (by
          rw [List.length_drop] at hrest ⊢
          dsimp only at h
          omega)
    refine ⟨⟨isNegative s, (s.drop (signLength s)).takeWhile isDigit, fraction, exponent⟩,
      ⟨fun c hc => List.mem_takeWhile_imp hc, hfraction, hexponent⟩, ?_, ?_⟩
    · rw [not_and_or] at hdigit
      exact hdigit
    · unfold NumberText.text
      dsimp only
      rw [← hlast, ← hsplit, hwhole, ← take_signLength_of_ne hplus, List.take_append_drop]

/-- The first byte of a number. -/
theorem run_head {p : JsonParser buf} (h : p.peek = byte '-' ∨ isDigit p.peek = true) :
    (p.rest.takeWhile isNumberByte).head? = some p.peek := by
  have hroom : p.pos + 1 ≤ buf.length := by
    refine JsonParser.lt_of_peek rfl ?_
    rcases h with h | h
    · rw [h]
      decide
    · rintro hzero
      rw [hzero] at h
      exact absurd h (by decide)
  have hrest : p.rest = p.peek :: (p.advance 1 hroom).rest :=
    (JsonParser.peek_reads rfl hroom).rest_eq
  have hbyte : isNumberByte p.peek = true := isNumberByte_of_starts (by simpa using h)
  rw [hrest, List.takeWhile_cons_of_pos hbyte]
  rfl

/-- The number is accepted when its run is converted as a whole. -/
theorem parseNumber_accepts_iff {p : JsonParser buf}
    (h : p.peek = byte '-' ∨ isDigit p.peek = true)
    (hlen : (p.rest.takeWhile isNumberByte).length < numberBuffer) :
    (∃ v, parseNumber p = .ok (v, p.skip isNumberByte)) ↔
      (strtod (p.rest.takeWhile isNumberByte)).2 = (p.rest.takeWhile isNumberByte).length := by
  have hhead := run_head h
  have hne : (p.rest.takeWhile isNumberByte).length ≠ 0 := by
    intro hzero
    rw [List.length_eq_zero_iff.mp hzero] at hhead
    cases hhead
  rw [← strtod_end_iff fun c hc => List.mem_takeWhile_imp hc]
  unfold parseNumber
  dsimp only
  rw [if_neg hne, if_neg (not_le.mpr hlen)]
  split
  · rename_i hend
    refine ⟨?_, fun hzero => absurd hzero hend⟩
    rintro ⟨v, hv⟩
    cases hv
  · rename_i hend
    exact ⟨fun _ => not_not.mp hend, fun _ => ⟨_, rfl⟩⟩

theorem fraction_injective {f f' : Option (List UInt8)}
    (h : (f.getD [], (pointText f).length) = (f'.getD [], (pointText f').length)) : f = f' := by
  obtain ⟨hdigits, hlength⟩ := Prod.mk.inj h
  cases f with
  | none =>
      cases f' with
      | none => rfl
      | some ds => simp [pointText] at hlength
  | some ds =>
      cases f' with
      | none => simp [pointText] at hlength
      | some ds' => exact congrArg some hdigits

/-- The parts of a number are determined, so that the RFC has none of the loose ones. -/
theorem IsLooseNumber.not_rfc {s : List UInt8} (h : IsLooseNumber s) : ¬ IsRfcNumber s := by
  obtain ⟨t, hlegal, -, rfl, hflaw⟩ := h
  rintro ⟨t', hlegal', hrfc, htext⟩
  have hwhole : t.whole = t'.whole := by
    rw [← hlegal.parts.1, ← hlegal'.parts.1, htext]
  have hfraction : t.fraction = t'.fraction := by
    apply fraction_injective
    rw [← hlegal.fraction_read, ← hlegal'.fraction_read, hwhole, htext]
  rcases hflaw with hflaw | ⟨hzero, hlong⟩ | hflaw
  · exact hrfc.whole (hwhole ▸ hflaw)
  · have hone := hrfc.leading (hwhole ▸ hzero)
    rw [← hwhole] at hone
    omega
  · exact hrfc.fraction (hfraction ▸ hflaw)

/-- For every run of number bytes that fits the buffer: it is accepted exactly when it is a
number of the RFC, unless it is one of the numbers that only `strtod` takes. -/
theorem parse_number_rfc_iff {p : JsonParser buf}
    (h : p.peek = byte '-' ∨ isDigit p.peek = true)
    (hlen : (p.rest.takeWhile isNumberByte).length ≤ 63) :
    ((∃ v, parseNumber p = .ok (v, p.skip isNumberByte)) ↔
        IsRfcNumber (p.rest.takeWhile isNumberByte)) ↔
      ¬ IsLooseNumber (p.rest.takeWhile isNumberByte) := by
  have hhead := run_head h
  rw [parseNumber_accepts_iff h (by unfold numberBuffer; omega)]
  have hplus : (p.rest.takeWhile isNumberByte).head? ≠ some (byte '+') := by
    rw [hhead]
    rcases h with h | h
    · rw [h]
      decide
    · intro hc
      rw [Option.some.inj hc] at h
      exact absurd h (by decide)
  have hne : p.rest.takeWhile isNumberByte ≠ [] := by
    intro hnil
    rw [hnil] at hhead
    cases hhead
  generalize p.rest.takeWhile isNumberByte = run at *
  constructor
  · intro hiff hloose
    obtain ⟨t, hlegal, hdigit, htext, -⟩ := id hloose
    have hconverted := hlegal.strtod_text hdigit
    rw [← htext] at hconverted
    exact hloose.not_rfc (hiff.mp hconverted)
  · intro hloose
    constructor
    · intro hconverted
      obtain ⟨t, hlegal, hdigit, rfl⟩ := exists_numberText hplus hne hconverted
      refine ⟨t, hlegal, ⟨?_, ?_, ?_⟩, rfl⟩
      · intro hwhole
        exact hloose ⟨t, hlegal, hdigit, rfl, Or.inl hwhole⟩
      · intro hzero
        by_contra hlong
        have hpos : t.whole.length ≠ 0 := by
          intro hnil
          rw [List.length_eq_zero_iff.mp hnil] at hzero
          cases hzero
        exact hloose ⟨t, hlegal, hdigit, rfl, Or.inr (Or.inl ⟨hzero, by omega⟩)⟩
      · intro hpoint
        exact hloose ⟨t, hlegal, hdigit, rfl, Or.inr (Or.inr hpoint)⟩
    · rintro ⟨t, hlegal, hrfc, rfl⟩
      exact hlegal.strtod_text (Or.inl hrfc.whole)

theorem parse_number_rfc_exponent :
    ∃ v, parseNumber (JsonParser.start (bytes "-10.5e+3,")) =
      .ok (v, (JsonParser.start (bytes "-10.5e+3,")).skip isNumberByte) := by
  have hrun : (JsonParser.start (bytes "-10.5e+3,")).rest.takeWhile isNumberByte =
      bytes "-10.5e+3" := by decide +kernel
  have hrfc : IsRfcNumber (bytes "-10.5e+3") :=
    ⟨⟨true, bytes "10", some (bytes "5"), some ⟨byte 'e', bytes "+", bytes "3"⟩⟩,
      ⟨List.all_eq_true.mp (by decide), by rintro ds ⟨⟩; exact List.all_eq_true.mp (by decide),
        by rintro x ⟨⟩; exact ⟨by decide, by decide, List.all_eq_true.mp (by decide), by decide⟩⟩,
      ⟨by decide, by decide, by decide⟩, by decide⟩
  have hiff := parse_number_rfc_iff (p := JsonParser.start (bytes "-10.5e+3,"))
    (by decide +kernel) (by decide +kernel)
  rw [hrun] at hiff
  exact (hiff.mpr fun hloose => hloose.not_rfc hrfc).mpr hrfc

/-- A number with a leading zero is accepted. -/
theorem parse_number_leading_zero :
    (∃ v, parseNumber (JsonParser.start (bytes "01")) =
        .ok (v, (JsonParser.start (bytes "01")).skip isNumberByte)) ∧
      ¬ IsRfcNumber (bytes "01") := by
  constructor
  · exact (parseNumber_accepts_iff (by decide +kernel) (by decide +kernel)).mpr
      (by decide +kernel)
  · apply IsLooseNumber.not_rfc
    refine ⟨⟨false, bytes "01", none, none⟩,
      ⟨List.all_eq_true.mp (by decide), by simp, by simp⟩,
      Or.inl (by decide), by decide, Or.inr (Or.inl (by decide))⟩

end Hummingbird

import Hummingbird.Json.Grammar
import Mathlib.Data.List.GetD
import Mathlib.Data.List.TakeWhile

/-!
The scanners against the grammar, in both directions: what a scanner returns was
written in front of it, and what is written in front of it is what it returns. Both
are said with one relation between the parser before and the parser behind a text.
-/

namespace Hummingbird

variable {buf : List UInt8}

/-- The parser `q` stands behind the text `s` that the parser `p` stands in front of. -/
structure JsonParser.Reads (p : JsonParser buf) (s : List UInt8) (q : JsonParser buf) :
    Prop where
  rest_eq : p.rest = s ++ q.rest
  depth_eq : q.depth = p.depth

namespace JsonParser

theorem Reads.trans {p q r : JsonParser buf} {s t : List UInt8} (h₁ : p.Reads s q)
    (h₂ : q.Reads t r) : p.Reads (s ++ t) r := by
  refine ⟨?_, h₂.depth_eq.trans h₁.depth_eq⟩
  rw [h₁.rest_eq, h₂.rest_eq, List.append_assoc]

/-- Behind a text that is known to be in front stands what followed it. -/
theorem Reads.rest_of_eq {p q : JsonParser buf} {s t : List UInt8} (h : p.Reads s q)
    (hrest : p.rest = s ++ t) : q.rest = t := by
  rw [h.rest_eq] at hrest
  exact List.append_cancel_left hrest

theorem length_rest (p : JsonParser buf) : p.rest.length = buf.length - p.pos := by
  simp [rest]

theorem Reads.pos_eq {p q : JsonParser buf} {s : List UInt8} (h : p.Reads s q) :
    q.pos = p.pos + s.length := by
  have hlen := congrArg List.length h.rest_eq
  rw [List.length_append, length_rest, length_rest] at hlen
  have hp := p.pos_le
  have hq := q.pos_le
  omega

theorem advance_reads {p : JsonParser buf} {n : Nat} {s : List UInt8} (hs : p.rest.take n = s)
    (h : p.pos + n ≤ buf.length) : p.Reads s (p.advance n h) := by
  refine ⟨?_, rfl⟩
  have hdrop : (p.advance n h).rest = p.rest.drop n := by
    simp [rest, advance, List.drop_drop]
  rw [hdrop, ← hs, List.take_append_drop]

/-- A parser that is not at the end stands in front of the byte it reads. -/
theorem read_reads (p : JsonParser buf) (h : p.pos + 1 ≤ buf.length) :
    p.Reads [buf.getD p.pos 0] (p.advance 1 h) := by
  have hlt : p.pos < buf.length := h
  have htake : p.rest.take 1 = [buf.getD p.pos 0] := by
    rw [rest, List.drop_eq_getElem_cons hlt, List.getD_eq_getElem _ _ hlt]
    rfl
  exact advance_reads htake h

theorem peek_eq_getD (p : JsonParser buf) : p.peek = buf.getD p.pos 0 := by
  unfold peek atEnd
  split
  · rename_i h
    rw [List.getD_eq_default _ _ (by simpa using h)]
  · rfl

theorem peek_reads {p : JsonParser buf} {c : UInt8} (h : p.peek = c)
    (hlt : p.pos + 1 ≤ buf.length) : p.Reads [c] (p.advance 1 hlt) := by
  have hread := p.read_reads hlt
  rwa [← peek_eq_getD, h] at hread

/-- In front of a text the cursor is on its first byte. -/
theorem getD_of_rest {p : JsonParser buf} {c : UInt8} {t : List UInt8} (h : p.rest = c :: t) :
    p.pos + 1 ≤ buf.length ∧ buf.getD p.pos 0 = c := by
  have hlt : p.pos + 1 ≤ buf.length := by
    have hlen := congrArg List.length h
    rw [length_rest, List.length_cons] at hlen
    omega
  refine ⟨hlt, ?_⟩
  have hread := (p.read_reads hlt).rest_eq
  rw [h] at hread
  exact (List.cons.inj hread).1.symm

theorem peek_of_rest {p : JsonParser buf} {c : UInt8} {t : List UInt8} (h : p.rest = c :: t) :
    p.peek = c := by
  rw [peek_eq_getD, (getD_of_rest h).2]

theorem atEnd_iff (p : JsonParser buf) : p.atEnd = true ↔ p.rest = [] := by
  rw [← List.length_eq_zero_iff, length_rest]
  simp only [atEnd, decide_eq_true_eq]
  omega

theorem skip_reads (p : JsonParser buf) (f : UInt8 → Bool) :
    p.Reads (p.rest.takeWhile f) (p.skip f) := by
  refine ⟨?_, rfl⟩
  have hrest : (p.skip f).rest = p.rest.drop (p.rest.takeWhile f).length := by
    simp [rest, skip, advance, List.drop_drop]
  rw [hrest]
  nth_rewrite 1 [← List.takeWhile_append_dropWhile (p := f) (l := p.rest)]
  congr 1
  nth_rewrite 3 [← List.takeWhile_append_dropWhile (p := f) (l := p.rest)]
  rw [List.drop_left]

theorem skipWs_reads (p : JsonParser buf) :
    ∃ w, Whitespace w ∧ p.Reads w (skipWs p) := by
  refine ⟨_, ?_, p.skip_reads isWs⟩
  intro c hc
  exact List.mem_takeWhile_imp hc

/-- White space in front of a byte that is none is what gets skipped. -/
theorem skipWs_of_rest {p : JsonParser buf} {w t : List UInt8} {c : UInt8}
    (hw : Whitespace w) (hc : isWs c = false) (h : p.rest = w ++ c :: t) :
    p.Reads w (skipWs p) ∧ (skipWs p).rest = c :: t := by
  have htake : p.rest.takeWhile isWs = w := by
    rw [h, List.takeWhile_append_of_pos (fun a ha => hw a ha),
      List.takeWhile_cons_of_neg (by simp [hc]), List.append_nil]
  have hread := p.skip_reads isWs
  rw [htake] at hread
  exact ⟨hread, hread.rest_of_eq h⟩

theorem skipWs_of_end {p : JsonParser buf} (hw : Whitespace p.rest) :
    (skipWs p).rest = [] := by
  have htake : p.rest.takeWhile isWs = p.rest :=
    List.takeWhile_eq_self_iff.mpr fun c hc => hw c hc
  have hread := p.skip_reads isWs
  rw [htake] at hread
  exact hread.rest_of_eq (List.append_nil _).symm

end JsonParser

theorem hexRun_of_isHex4 {ds t : List UInt8} (h : IsHex4 ds) : hexRun (ds ++ t) = ds := by
  unfold hexRun
  rw [← h.length_eq, List.take_left]
  exact List.takeWhile_eq_self_iff.mpr fun c hc => h.digits c hc

theorem parseHex4_sound {p q : JsonParser buf} {v : Nat} (h : parseHex4 p = (some v, q)) :
    ∃ ds, IsHex4 ds ∧ v = hexValue ds ∧ p.Reads ds q := by
  unfold parseHex4 at h
  split at h
  · rename_i hroom
    split at h
    · rename_i hrun
      obtain ⟨hv, rfl⟩ := Prod.mk.inj h
      have htake : hexRun p.rest = p.rest.take 4 := by
        apply List.IsPrefix.eq_of_length_le (List.takeWhile_prefix _)
        rw [show (List.takeWhile _ _).length = 4 from hrun]
        exact List.length_take_le _ _
      refine ⟨hexRun p.rest, ⟨hrun, fun c hc => ?_⟩, (Option.some.inj hv).symm,
        JsonParser.advance_reads htake.symm hroom⟩
      exact List.mem_takeWhile_imp (p := fun c => (hexDigit c).isSome) hc
    · simp at h
  · simp at h

theorem parseHex4_complete {p : JsonParser buf} {ds t : List UInt8} (hds : IsHex4 ds)
    (h : p.rest = ds ++ t) : ∃ q, parseHex4 p = (some (hexValue ds), q) ∧ p.Reads ds q := by
  have hroom : p.pos + 4 ≤ buf.length := by
    have hlen := congrArg List.length h
    rw [p.length_rest, List.length_append, hds.length_eq] at hlen
    omega
  have hrun : hexRun p.rest = ds := by
    rw [h, hexRun_of_isHex4 hds]
  refine ⟨p.advance 4 hroom, ?_, ?_⟩
  · unfold parseHex4
    rw [dif_pos hroom, dif_pos (by rw [hrun, hds.length_eq]), hrun]
  · apply JsonParser.advance_reads
    rw [h, ← hds.length_eq, List.take_left]

theorem parseUnicode_sound {p q : JsonParser buf} {out : List UInt8}
    (h : parseUnicode p = .ok (out, q)) :
    ∃ s, IsEscape (byte 'u' :: s) out ∧ p.Reads s q := by
  unfold parseUnicode at h
  split at h
  · simp [JsonParser.errAt] at h
  · rename_i cp p₁ hhex
    obtain ⟨hi, hhi, rfl, hread⟩ := parseHex4_sound hhex
    split at h
    · rename_i hhigh
      split at h
      · rename_i hescape
        split at h
        · simp [JsonParser.errAt] at h
        · rename_i lo p₂ hhex₂
          obtain ⟨ds, hds, rfl, hread₂⟩ := parseHex4_sound hhex₂
          split at h
          · rename_i hlow
            obtain ⟨rfl, rfl⟩ := Prod.mk.inj (Except.ok.inj h)
            have hmark := JsonParser.advance_reads hescape.2 hescape.1
            refine ⟨_, .pair hhi hds hhigh hlow, ?_⟩
            exact hread.trans (hmark.trans hread₂)
          · simp [JsonParser.errAt] at h
      · simp [JsonParser.errAt] at h
    · rename_i hhigh
      split at h
      · simp [JsonParser.errAt] at h
      · rename_i hlow
        obtain ⟨rfl, rfl⟩ := Prod.mk.inj (Except.ok.inj h)
        exact ⟨hi, .unicode hhi (by simpa using hhigh) (by simpa using hlow), hread⟩

theorem parseEscape_sound {p q : JsonParser buf} {out : List UInt8}
    (h : parseEscape p = .ok (out, q)) : ∃ s, IsEscape s out ∧ p.Reads s q := by
  unfold parseEscape at h
  split at h
  · rename_i hroom
    have hread := p.read_reads hroom
    dsimp only at h
    split at h
    · rename_i c hc
      obtain ⟨rfl, rfl⟩ := Prod.mk.inj (Except.ok.inj h)
      exact ⟨_, .letter hc, hread⟩
    · split at h
      · rename_i hu
        obtain ⟨s, hs, hread₂⟩ := parseUnicode_sound h
        rw [hu] at hread
        exact ⟨_, hs, hread.trans hread₂⟩
      · simp [JsonParser.errAt] at h
  · simp [JsonParser.errAt] at h

theorem parseEscape_complete {p : JsonParser buf} {s out t : List UInt8} (hs : IsEscape s out)
    (h : p.rest = s ++ t) : ∃ q, parseEscape p = .ok (out, q) ∧ p.Reads s q := by
  have hu : simpleEscape (byte 'u') = none := by decide
  cases hs with
  | @letter e c hc =>
      obtain ⟨hroom, hget⟩ := JsonParser.getD_of_rest h
      have hread := p.read_reads hroom
      rw [hget] at hread
      refine ⟨p.advance 1 hroom, ?_, hread⟩
      unfold parseEscape
      rw [dif_pos hroom, hget]
      dsimp only
      rw [hc]
  | @unicode ds hds hhigh hlow =>
      obtain ⟨hroom, hget⟩ := JsonParser.getD_of_rest h
      have hread := p.read_reads hroom
      rw [hget] at hread
      obtain ⟨q, hhex, hread₂⟩ := parseHex4_complete hds (hread.rest_of_eq h)
      refine ⟨q, ?_, hread.trans hread₂⟩
      unfold parseEscape
      rw [dif_pos hroom, hget]
      dsimp only
      rw [hu]
      dsimp only
      rw [if_pos rfl, parseUnicode, hhex]
      simp [hhigh, hlow]
  | @pair hi lo hhi hlo hhigh hlow =>
      rw [List.cons_append, List.append_assoc] at h
      obtain ⟨hroom, hget⟩ := JsonParser.getD_of_rest h
      have hread := p.read_reads hroom
      rw [hget] at hread
      obtain ⟨q, hhex, hread₂⟩ := parseHex4_complete hhi (hread.rest_of_eq h)
      have hq := hread₂.rest_of_eq (hread.rest_of_eq h)
      have hmark : q.pos + 2 ≤ buf.length ∧ q.rest.take 2 = [byte '\\', byte 'u'] := by
        refine ⟨?_, by rw [hq]; rfl⟩
        have hlen := congrArg List.length hq
        rw [q.length_rest, List.cons_append, List.length_cons, List.cons_append,
          List.length_cons] at hlen
        omega
      have hread₃ := JsonParser.advance_reads hmark.2 hmark.1
      obtain ⟨r, hhex₂, hread₄⟩ := parseHex4_complete hlo (hread₃.rest_of_eq hq)
      refine ⟨r, ?_, hread.trans (hread₂.trans (hread₃.trans hread₄))⟩
      unfold parseEscape
      rw [dif_pos hroom, hget]
      dsimp only
      rw [hu]
      dsimp only
      rw [if_pos rfl, parseUnicode, hhex]
      dsimp only
      rw [if_pos hhigh, dif_pos hmark, hhex₂]
      dsimp only
      rw [if_pos hlow]

theorem parseStringLoop_sound {fuel : Nat} {p q : JsonParser buf} {acc out : List UInt8}
    (h : parseStringLoop fuel p acc = .ok (out, q)) :
    ∃ body decoded, IsStringBody body decoded ∧ out = acc ++ decoded ∧
      p.Reads (body ++ [byte '"']) q := by
  induction fuel generalizing p acc with
  | zero => simp [parseStringLoop, JsonParser.errAt] at h
  | succ fuel ih =>
      unfold parseStringLoop at h
      split at h
      · rename_i hroom
        have hread := p.read_reads hroom
        dsimp only at h
        split at h
        · rename_i hquote
          obtain ⟨rfl, rfl⟩ := Prod.mk.inj (Except.ok.inj h)
          rw [hquote] at hread
          exact ⟨[], [], .nil, by simp, hread⟩
        · rename_i hquote
          split at h
          · rename_i hslash
            rw [hslash] at hread
            split at h
            · simp at h
            · rename_i decoded p₁ hescape
              obtain ⟨e, he, hread₁⟩ := parseEscape_sound hescape
              obtain ⟨body, rest, hbody, rfl, hread₂⟩ := ih h
              refine ⟨_, _, .escape he hbody, by simp, ?_⟩
              simpa using hread.trans (hread₁.trans hread₂)
          · rename_i hslash
            split at h
            · simp [JsonParser.errAt] at h
            · rename_i hctrl
              obtain ⟨body, rest, hbody, rfl, hread₂⟩ := ih h
              refine ⟨_, _, .raw hquote hslash hctrl hbody, by simp, ?_⟩
              exact hread.trans hread₂
      · simp [JsonParser.errAt] at h

theorem parseStringRaw_sound {p q : JsonParser buf} {out : List UInt8}
    (h : parseStringRaw p = .ok (out, q)) : ∃ s, IsString s out ∧ p.Reads s q := by
  unfold parseStringRaw at h
  split at h
  · rename_i hquote
    obtain ⟨body, decoded, hbody, rfl, hread⟩ := parseStringLoop_sound h
    exact ⟨_, .mk hbody, (JsonParser.peek_reads hquote _).trans hread⟩
  · simp [JsonParser.errAt] at h

theorem parseStringLoop_complete {fuel : Nat} {p : JsonParser buf}
    {body decoded acc t : List UInt8} (hbody : IsStringBody body decoded)
    (hfuel : body.length < fuel) (h : p.rest = body ++ byte '"' :: t) :
    ∃ q, parseStringLoop fuel p acc = .ok (acc ++ decoded, q) ∧
      p.Reads (body ++ [byte '"']) q := by
  induction hbody generalizing fuel p acc with
  | nil =>
      obtain ⟨fuel, rfl⟩ := Nat.exists_eq_add_of_lt hfuel
      obtain ⟨hroom, hget⟩ := JsonParser.getD_of_rest h
      have hread := p.read_reads hroom
      rw [hget] at hread
      refine ⟨p.advance 1 hroom, ?_, hread⟩
      unfold parseStringLoop
      rw [dif_pos hroom, hget]
      simp
  | @raw c s out hquote hslash hctrl _ ih =>
      obtain ⟨fuel, rfl⟩ := Nat.exists_eq_add_of_lt hfuel
      rw [List.cons_append] at h
      obtain ⟨hroom, hget⟩ := JsonParser.getD_of_rest h
      have hread := p.read_reads hroom
      rw [hget] at hread
      obtain ⟨q, hloop, hread₂⟩ := @ih (s.length + 1 + fuel) _ (acc ++ [c]) (by omega)
        (hread.rest_of_eq h)
      refine ⟨q, ?_, hread.trans hread₂⟩
      rw [List.length_cons, parseStringLoop, dif_pos hroom, hget]
      dsimp only
      rw [if_neg hquote, if_neg hslash, if_neg hctrl, hloop]
      simp
  | @escape e decoded s out he _ ih =>
      obtain ⟨fuel, rfl⟩ := Nat.exists_eq_add_of_lt hfuel
      have hslash : byte '\\' ≠ byte '"' := by decide
      rw [List.cons_append, List.append_assoc] at h
      obtain ⟨hroom, hget⟩ := JsonParser.getD_of_rest h
      have hread := p.read_reads hroom
      rw [hget] at hread
      obtain ⟨q, hescape, hread₁⟩ := parseEscape_complete he (hread.rest_of_eq h)
      rw [List.length_cons, List.length_append] at hfuel ⊢
      obtain ⟨r, hloop, hread₂⟩ := @ih (e.length + s.length + 1 + fuel) _ (acc ++ decoded)
        (by omega) (hread₁.rest_of_eq (hread.rest_of_eq h))
      refine ⟨r, ?_, by simpa using hread.trans (hread₁.trans hread₂)⟩
      rw [parseStringLoop, dif_pos hroom, hget]
      dsimp only
      rw [if_neg hslash, if_pos rfl, hescape]
      dsimp only
      rw [hloop]
      simp

theorem parseStringRaw_complete {p : JsonParser buf} {s out t : List UInt8}
    (hs : IsString s out) (h : p.rest = s ++ t) :
    ∃ q, parseStringRaw p = .ok (out, q) ∧ p.Reads s q := by
  cases hs with
  | @mk body out hbody =>
      rw [List.cons_append, List.append_assoc, List.singleton_append] at h
      have hquote := JsonParser.peek_of_rest h
      have hroom := (JsonParser.getD_of_rest h).1
      have hread := JsonParser.peek_reads hquote hroom
      have hbehind : (p.advance 1 hroom).rest = body ++ byte '"' :: t := hread.rest_of_eq h
      have hfuel : body.length < buf.length - (p.pos + 1) := by
        have hlen := congrArg List.length hbehind
        rw [JsonParser.length_rest, List.length_append, List.length_cons] at hlen
        change buf.length - (p.pos + 1) = _ at hlen
        omega
      obtain ⟨q, hloop, hread₂⟩ := @parseStringLoop_complete _ _ _ _ _ [] _ hbody hfuel hbehind
      refine ⟨q, ?_, hread.trans hread₂⟩
      unfold parseStringRaw
      rw [dif_pos hquote, hloop, List.nil_append]

theorem signLength_le (s : List UInt8) : signLength s ≤ s.length := by
  cases s with
  | nil => simp [signLength]
  | cons c t =>
      unfold signLength
      split
      · simp
      · simp

theorem exponentPart_le (s : List UInt8) : (exponentPart s).2 ≤ s.length := by
  unfold exponentPart
  split
  · rename_i hmark
    dsimp only
    split
    · simp
    · have hpos : 1 ≤ s.length := by
        rcases s with _ | ⟨c, t⟩
        · simp at hmark
        · simp
      have hsign := signLength_le (s.drop 1)
      have hdigits := (List.takeWhile_sublist (l := s.drop (1 + signLength (s.drop 1)))
        isDigit).length_le
      rw [List.length_drop] at hsign hdigits
      dsimp only
      omega
  · simp

theorem fractionPart_le (s : List UInt8) : (fractionPart s).2 ≤ s.length := by
  unfold fractionPart
  split
  · rename_i hpoint
    have hpos : 1 ≤ s.length := by
      rcases s with _ | ⟨c, t⟩
      · simp at hpoint
      · simp
    have hdigits := (List.takeWhile_sublist (l := s.drop 1) isDigit).length_le
    rw [List.length_drop] at hdigits
    dsimp only
    omega
  · simp

/-- The end that `strtod` reports is inside its text. -/
theorem strtod_le (s : List UInt8) : (strtod s).2 ≤ s.length := by
  have hsign := signLength_le s
  have hwhole := (List.takeWhile_sublist (l := s.drop (signLength s)) isDigit).length_le
  rw [List.length_drop] at hwhole
  unfold strtod
  dsimp only
  generalize (s.drop (signLength s)).takeWhile isDigit = whole at hwhole ⊢
  have hfraction := fractionPart_le (s.drop (signLength s + whole.length))
  rw [List.length_drop] at hfraction
  generalize fractionPart (s.drop (signLength s + whole.length)) = fraction at hfraction ⊢
  have hexponent := exponentPart_le (s.drop (signLength s + whole.length + fraction.2))
  rw [List.length_drop] at hexponent
  split
  · simp
  · dsimp only
    omega

/-- All of a number is converted when the byte at the reported end is the `NUL`. -/
theorem strtod_end_iff {s : List UInt8} (hs : ∀ c ∈ s, isNumberByte c = true) :
    s.getD (strtod s).2 0 = 0 ↔ (strtod s).2 = s.length := by
  constructor
  · intro hend
    by_contra hne
    have hlt : (strtod s).2 < s.length := lt_of_le_of_ne (strtod_le s) hne
    have hbyte := hs _ (List.getElem_mem hlt)
    rw [← List.getD_eq_getElem _ 0 hlt, hend] at hbyte
    exact absurd hbyte (by decide)
  · intro hend
    rw [hend, List.getD_eq_default _ _ le_rfl]

theorem isNumberByte_of_starts {c : UInt8} (h : (c = byte '-' || isDigit c) = true) :
    isNumberByte c = true := by
  rcases Bool.or_eq_true _ _ ▸ h with hc | hc
  · simp [isNumberByte, of_decide_eq_true hc]
  · simp [isNumberByte, hc]

theorem parseNumber_sound {p q : JsonParser buf} {v : JsonValue}
    (hstart : (p.peek = byte '-' || isDigit p.peek) = true) (hroom : p.pos + 1 ≤ buf.length)
    (h : parseNumber p = .ok (v, q)) :
    ∃ s d, IsNumber s d ∧ v = .number d ∧ p.Reads s q := by
  unfold parseNumber at h
  dsimp only at h
  split at h
  · simp [JsonParser.errAt] at h
  · split at h
    · simp [JsonParser.errAt] at h
    · rename_i hlen
      split at h
      · simp [JsonParser.errAt] at h
      · rename_i hend
        obtain ⟨rfl, rfl⟩ := Prod.mk.inj (Except.ok.inj h)
        have hchars : ∀ c ∈ p.rest.takeWhile isNumberByte, isNumberByte c = true :=
          fun c hc => List.mem_takeWhile_imp hc
        refine ⟨_, _, ⟨?_, hchars, not_le.mp hlen, ?_⟩, rfl, p.skip_reads isNumberByte⟩
        · have hread : p.rest = p.peek :: (p.advance 1 hroom).rest :=
            (JsonParser.peek_reads rfl hroom).rest_eq
          refine ⟨p.peek, (p.advance 1 hroom).rest.takeWhile isNumberByte, ?_,
            by simpa using hstart⟩
          rw [hread, List.takeWhile_cons_of_pos (isNumberByte_of_starts hstart)]
        · refine Prod.ext rfl ?_
          exact (strtod_end_iff hchars).mp (not_not.mp hend)

/-- What follows a number: nothing that could belong to it. -/
def EndsNumber (t : List UInt8) : Prop := ∀ c, t.head? = some c → isNumberByte c = false

theorem takeWhile_number {s t : List UInt8} (hs : ∀ c ∈ s, isNumberByte c = true)
    (ht : EndsNumber t) : (s ++ t).takeWhile isNumberByte = s := by
  rw [List.takeWhile_append_of_pos hs]
  cases t with
  | nil => simp
  | cons c t => simp [List.takeWhile_cons_of_neg, ht c rfl]

theorem parseNumber_complete {p : JsonParser buf} {s t : List UInt8} {d : Rounding.Number}
    (hs : IsNumber s d) (ht : EndsNumber t) (h : p.rest = s ++ t) :
    ∃ q, parseNumber p = .ok (.number d, q) ∧ p.Reads s q := by
  have hlexeme : p.rest.takeWhile isNumberByte = s := by
    rw [h, takeWhile_number hs.chars ht]
  have hread := p.skip_reads isNumberByte
  rw [hlexeme] at hread
  refine ⟨_, ?_, hread⟩
  obtain ⟨c, u, hcons, _⟩ := hs.starts
  have hpos : s.length ≠ 0 := by simp [hcons]
  unfold parseNumber
  rw [hlexeme]
  dsimp only
  rw [if_neg hpos, if_neg (not_le.mpr hs.length_lt), if_neg, hs.converted]
  rw [not_not, strtod_end_iff hs.chars, hs.converted]

theorem parseLiteral_sound {p q : JsonParser buf} {lit : List UInt8} {v w : JsonValue}
    (h : parseLiteral p lit v = .ok (w, q)) : w = v ∧ p.Reads lit q := by
  unfold parseLiteral at h
  split at h
  · rename_i hlit
    obtain ⟨rfl, rfl⟩ := Prod.mk.inj (Except.ok.inj h)
    exact ⟨rfl, JsonParser.advance_reads hlit.2 hlit.1⟩
  · simp [JsonParser.errAt] at h

theorem parseLiteral_complete {p : JsonParser buf} {lit t : List UInt8} {v : JsonValue}
    (h : p.rest = lit ++ t) : ∃ q, parseLiteral p lit v = .ok (v, q) ∧ p.Reads lit q := by
  have htake : p.rest.take lit.length = lit := by
    rw [h, List.take_left]
  have hroom : p.pos + lit.length ≤ buf.length := by
    have hlen := congrArg List.length h
    have hpos := p.pos_le
    rw [p.length_rest, List.length_append] at hlen
    omega
  refine ⟨p.advance lit.length hroom, ?_, JsonParser.advance_reads htake hroom⟩
  unfold parseLiteral
  rw [dif_pos ⟨hroom, htake⟩]

end Hummingbird

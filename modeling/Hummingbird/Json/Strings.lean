import Hummingbird.Json.Tokens
import Hummingbird.Tokenizer.Utf8

/-!
String literals piece by piece, and the loop of `parse_string_raw` turn by turn. A literal is a
sequence of runs of raw bytes, letters behind a backslash and code points in hexadecimal. No
piece stands for more bytes than it is written with, which keeps the loop inside a buffer that
has room for what is left of the input.
-/

namespace Hummingbird

variable {buf : List UInt8}

/-- A property of the elements of a list, tested along the list. -/
theorem forall_mem_of_all {α : Type} {p : α → Prop} [DecidablePred p] {l : List α}
    (h : (l.all fun x => decide (p x)) = true) : ∀ x ∈ l, p x := by
  simpa using h

/-- The letters that may follow a backslash, with the bytes they stand for. -/
def escapeLetters : List (UInt8 × UInt8) :=
  [(byte '"', byte '"'), (byte '\\', byte '\\'), (byte '/', byte '/'), (byte 'b', 8),
    (byte 'f', 12), (byte 'n', 10), (byte 'r', 13), (byte 't', 9)]

/-- The code point of two surrogates. -/
def surrogateValue (high low : Nat) : Nat := 0x10000 + (high - 0xD800) * 0x400 + (low - 0xDC00)

inductive StringPiece where
  | raw (run : List UInt8)
  | letter (e c : UInt8)
  | unicode (digits : List UInt8)
  | pair (high low : List UInt8)

namespace StringPiece

def text : StringPiece → List UInt8
  | .raw run => run
  | .letter e _ => [byte '\\', e]
  | .unicode ds => byte '\\' :: byte 'u' :: ds
  | .pair high low => byte '\\' :: byte 'u' :: (high ++ byte '\\' :: byte 'u' :: low)

/-- The bytes that a piece stands for. -/
def decoded : StringPiece → List UInt8
  | .raw run => run
  | .letter _ c => [c]
  | .unicode ds => hbiUtf8Encode (hexValue ds)
  | .pair high low => hbiUtf8Encode (surrogateValue (hexValue high) (hexValue low))

/-- A surrogate is only legal as half of a pair. -/
def Legal : StringPiece → Prop
  | .raw run => ∀ c ∈ run, 0x20 ≤ c ∧ c ≠ byte '"' ∧ c ≠ byte '\\'
  | .letter e c => (e, c) ∈ escapeLetters
  | .unicode ds => IsHex4 ds ∧ ¬ (0xD800 ≤ hexValue ds ∧ hexValue ds ≤ 0xDFFF)
  | .pair high low =>
      IsHex4 high ∧ IsHex4 low ∧ (0xD800 ≤ hexValue high ∧ hexValue high ≤ 0xDBFF) ∧
        0xDC00 ≤ hexValue low ∧ hexValue low ≤ 0xDFFF

end StringPiece

theorem hexDigit_lt (c : UInt8) : (hexDigit c).getD 0 < 16 := by
  have hall : ∀ n < 256, (hexDigit (UInt8.ofNat n)).getD 0 < 16 := by decide +kernel
  have hc := hall c.toNat c.toNat_lt
  rwa [UInt8.ofNat_toNat] at hc

theorem hexValue_lt {ds : List UInt8} (h : IsHex4 ds) : hexValue ds < 0x10000 := by
  have hlen := h.length_eq
  rcases ds with _ | ⟨a, _ | ⟨b, _ | ⟨c, _ | ⟨d, _ | ⟨e, ds⟩⟩⟩⟩⟩ <;> simp at hlen
  have ha := hexDigit_lt a
  have hb := hexDigit_lt b
  have hc := hexDigit_lt c
  have hd := hexDigit_lt d
  simp only [hexValue, List.foldl_cons, List.foldl_nil]
  omega

theorem simpleEscape_iff {e c : UInt8} : simpleEscape e = some c ↔ (e, c) ∈ escapeLetters := by
  constructor
  · intro h
    unfold simpleEscape at h
    split_ifs at h with h₁ h₂ h₃ h₄ h₅ h₆ h₇ h₈ <;> cases h <;> simp [escapeLetters, *]
  · intro h
    simp only [escapeLetters, List.mem_cons, List.not_mem_nil, or_false, Prod.mk.injEq] at h
    rcases h with ⟨rfl, rfl⟩ | ⟨rfl, rfl⟩ | ⟨rfl, rfl⟩ | ⟨rfl, rfl⟩ | ⟨rfl, rfl⟩ | ⟨rfl, rfl⟩ |
      ⟨rfl, rfl⟩ | ⟨rfl, rfl⟩ <;> decide

/-- The encoder of the parser and that of the tokenizer agree on scalar values. -/
theorem utf8Emit_eq {cp : Nat} (hvalid : cp.isValidChar) : utf8Emit cp = hbiUtf8Encode cp := by
  unfold Nat.isValidChar at hvalid
  unfold utf8Emit hbiUtf8Encode
  rw [if_neg (show ¬ (cp > 0x10FFFF ∨ cp ≥ 0xD800 ∧ cp ≤ 0xDFFF) by omega)]
  have hone : cp ≤ 0x7F ↔ cp < 0x80 := by omega
  have htwo : cp ≤ 0x7FF ↔ cp < 0x800 := by omega
  have hthree : cp ≤ 0xFFFF ↔ cp < 0x10000 := by omega
  simp only [hone, htwo, hthree]

theorem pairValue_eq {high low : Nat} (hlow : 0xDC00 ≤ low ∧ low ≤ 0xDFFF) :
    pairValue high low = surrogateValue high low := by
  unfold pairValue surrogateValue
  rw [@shift_or 0x400 _ 10 (high - 0xD800) rfl (by omega), ← Nat.add_assoc]

theorem surrogateValue_valid {high low : Nat} (hhigh : 0xD800 ≤ high ∧ high ≤ 0xDBFF)
    (hlow : 0xDC00 ≤ low ∧ low ≤ 0xDFFF) :
    0x10000 ≤ surrogateValue high low ∧ (surrogateValue high low).isValidChar := by
  unfold surrogateValue Nat.isValidChar
  omega

namespace StringPiece

theorem unicode_valid {ds : List UInt8} (h : (unicode ds).Legal) : (hexValue ds).isValidChar := by
  have hlt := hexValue_lt h.1
  have hnot := h.2
  unfold Nat.isValidChar
  omega

/-- An escape stands for fewer bytes than it is written with. -/
theorem length_decoded_lt {x : StringPiece} (h : x.Legal) (hraw : ∀ run, x ≠ .raw run) :
    x.decoded.length < x.text.length := by
  have hsize : ∀ cp, utf8Size cp ≤ 4 := by
    intro cp
    unfold utf8Size
    split_ifs <;> omega
  cases x with
  | raw run => exact absurd rfl (hraw run)
  | letter e c => exact Nat.lt_succ_self 1
  | unicode ds =>
      have hle := hsize (hexValue ds)
      simp only [decoded, text, List.length_cons, hbiUtf8Encode_length (unicode_valid h),
        h.1.length_eq]
      omega
  | pair high low =>
      have hle := hsize (surrogateValue (hexValue high) (hexValue low))
      simp only [decoded, text, List.length_cons, List.length_append,
        hbiUtf8Encode_length (surrogateValue_valid h.2.2.1 h.2.2.2).2, h.1.length_eq,
        h.2.1.length_eq]
      omega

/-- Decoding makes nothing longer. -/
theorem length_decoded_le {x : StringPiece} (h : x.Legal) : x.decoded.length ≤ x.text.length := by
  by_cases hraw : ∃ run, x = .raw run
  · obtain ⟨run, rfl⟩ := hraw
    exact le_rfl
  · exact (length_decoded_lt h fun run heq => hraw ⟨run, heq⟩).le

end StringPiece

/-! The grammar of the scanner, piece by piece. -/

theorem isEscape_of_legal {x : StringPiece} (h : x.Legal) (hraw : ∀ run, x ≠ .raw run) :
    ∃ e, x.text = byte '\\' :: e ∧ IsEscape e x.decoded := by
  cases x with
  | raw run => exact absurd rfl (hraw run)
  | letter e c => exact ⟨[e], rfl, .letter (simpleEscape_iff.mpr h)⟩
  | unicode ds =>
      have hescape : IsEscape (byte 'u' :: ds) (utf8Emit (hexValue ds)) := by
        apply IsEscape.unicode h.1
        · have hnot := h.2
          simp only [isHighSurrogate, Bool.and_eq_false_iff, decide_eq_false_iff_not]
          omega
        · have hnot := h.2
          simp only [isLowSurrogate, Bool.and_eq_false_iff, decide_eq_false_iff_not]
          omega
      rw [utf8Emit_eq (StringPiece.unicode_valid h)] at hescape
      exact ⟨_, rfl, hescape⟩
  | pair high low =>
      obtain ⟨hhi, hlo, hhigh, hlow⟩ := h
      have hescape := IsEscape.pair hhi hlo (by simpa [isHighSurrogate] using hhigh)
        (by simpa [isLowSurrogate] using hlow)
      rw [pairValue_eq hlow, utf8Emit_eq (surrogateValue_valid hhigh hlow).2] at hescape
      exact ⟨_, rfl, hescape⟩

theorem IsEscape.piece {e out : List UInt8} (h : IsEscape e out) :
    ∃ x : StringPiece, x.Legal ∧ x.text = byte '\\' :: e ∧ x.decoded = out := by
  cases h with
  | @letter e c hc => exact ⟨.letter e c, simpleEscape_iff.mp hc, rfl, rfl⟩
  | @unicode ds hds hhigh hlow =>
      have hlegal : (StringPiece.unicode ds).Legal := by
        refine ⟨hds, ?_⟩
        simp only [isHighSurrogate, isLowSurrogate, Bool.and_eq_false_iff,
          decide_eq_false_iff_not] at hhigh hlow
        omega
      exact ⟨.unicode ds, hlegal, rfl, (utf8Emit_eq (StringPiece.unicode_valid hlegal)).symm⟩
  | @pair hi lo hhi hlo hhigh hlow =>
      have hhigh' : 0xD800 ≤ hexValue hi ∧ hexValue hi ≤ 0xDBFF := by
        simpa [isHighSurrogate] using hhigh
      have hlow' : 0xDC00 ≤ hexValue lo ∧ hexValue lo ≤ 0xDFFF := by
        simpa [isLowSurrogate] using hlow
      refine ⟨.pair hi lo, ⟨hhi, hlo, hhigh', hlow'⟩, rfl, ?_⟩
      rw [pairValue_eq hlow', utf8Emit_eq (surrogateValue_valid hhigh' hlow').2]
      rfl

theorem IsStringBody.append_run {run s out : List UInt8} (hrun : (StringPiece.raw run).Legal)
    (h : IsStringBody s out) : IsStringBody (run ++ s) (run ++ out) := by
  induction run with
  | nil => exact h
  | cons c run ih =>
      obtain ⟨hctrl, hquote, hslash⟩ := hrun c (by simp)
      exact .raw hquote hslash (UInt8.not_lt.mpr hctrl) (ih fun d hd => hrun d (by simp [hd]))

/-- What stands between the quotes is a sequence of legal pieces, and it decodes to what these
stand for. -/
theorem isStringBody_iff {s out : List UInt8} : IsStringBody s out ↔
    ∃ pieces : List StringPiece, (∀ x ∈ pieces, x.Legal) ∧
      s = pieces.flatMap StringPiece.text ∧ out = pieces.flatMap StringPiece.decoded := by
  constructor
  · intro h
    induction h with
    | nil => exact ⟨[], by simp, rfl, rfl⟩
    | @raw c s out hquote hslash hctrl _ ih =>
        obtain ⟨pieces, hlegal, rfl, rfl⟩ := ih
        refine ⟨.raw [c] :: pieces, ?_, rfl, rfl⟩
        intro x hx
        rcases List.mem_cons.mp hx with rfl | hx
        · simpa [StringPiece.Legal] using ⟨UInt8.not_lt.mp hctrl, hquote, hslash⟩
        · exact hlegal x hx
    | @escape e decoded s out he _ ih =>
        obtain ⟨pieces, hlegal, rfl, rfl⟩ := ih
        obtain ⟨x, hx, htext, hdecoded⟩ := he.piece
        refine ⟨x :: pieces, ?_, ?_, ?_⟩
        · intro y hy
          rcases List.mem_cons.mp hy with rfl | hy
          · exact hx
          · exact hlegal y hy
        · rw [List.flatMap_cons, htext, List.cons_append]
        · rw [List.flatMap_cons, hdecoded]
  · rintro ⟨pieces, hlegal, rfl, rfl⟩
    induction pieces with
    | nil => exact .nil
    | cons x pieces ih =>
        have hrest := ih fun y hy => hlegal y (by simp [hy])
        have hx := hlegal x (by simp)
        rw [List.flatMap_cons, List.flatMap_cons]
        by_cases hraw : ∃ run, x = .raw run
        · obtain ⟨run, rfl⟩ := hraw
          exact hrest.append_run hx
        · obtain ⟨e, htext, hescape⟩ := isEscape_of_legal hx fun run h => hraw ⟨run, h⟩
          rw [htext, List.cons_append]
          exact .escape hescape hrest

/-- A literal of legal pieces. -/
def literal (pieces : List StringPiece) : List UInt8 :=
  byte '"' :: (pieces.flatMap StringPiece.text ++ [byte '"'])

theorem isString_iff {s out : List UInt8} : IsString s out ↔
    ∃ pieces : List StringPiece, (∀ x ∈ pieces, x.Legal) ∧ s = literal pieces ∧
      out = pieces.flatMap StringPiece.decoded := by
  constructor
  · rintro ⟨hbody⟩
    obtain ⟨pieces, hlegal, rfl, rfl⟩ := isStringBody_iff.mp hbody
    exact ⟨pieces, hlegal, rfl, rfl⟩
  · rintro ⟨pieces, hlegal, rfl, rfl⟩
    exact .mk (isStringBody_iff.mpr ⟨pieces, hlegal, rfl, rfl⟩)

/-- Behind a text there is one place. -/
theorem JsonParser.Reads.unique {p q q' : JsonParser buf} {s : List UInt8} (h : p.Reads s q)
    (h' : p.Reads s q') : q = q' := by
  have hpos := h.pos_eq.trans h'.pos_eq.symm
  have hdepth := h.depth_eq.trans h'.depth_eq.symm
  cases q
  cases q'
  simp_all

/-! The loop, turn by turn. -/

/-- A state of the loop of `parse_string_raw`: the cursor and what is written so far. -/
structure StringState (buf : List UInt8) where
  parser : JsonParser buf
  out : List UInt8

/-- A turn after which the loop goes on. -/
inductive StringTurn : StringState buf → StringState buf → Prop
  | raw {p : JsonParser buf} {out : List UInt8} (h : p.pos + 1 ≤ buf.length)
      (hquote : buf.getD p.pos 0 ≠ byte '"') (hslash : buf.getD p.pos 0 ≠ byte '\\')
      (hctrl : ¬ buf.getD p.pos 0 < 0x20) :
      StringTurn ⟨p, out⟩ ⟨p.advance 1 h, out ++ [buf.getD p.pos 0]⟩
  | escape {p q : JsonParser buf} {out decoded : List UInt8} (h : p.pos + 1 ≤ buf.length)
      (hslash : buf.getD p.pos 0 = byte '\\')
      (hescape : parseEscape (p.advance 1 h) = .ok (decoded, q)) :
      StringTurn ⟨p, out⟩ ⟨q, out ++ decoded⟩

/-- The loop takes a turn and goes on, or it ends. -/
theorem parseStringLoop_turn (p : JsonParser buf) (out : List UInt8) :
    (∃ s : StringState buf, StringTurn ⟨p, out⟩ s ∧
      ∀ fuel, parseStringLoop (fuel + 1) p out = parseStringLoop fuel s.parser s.out) ∨
    ∃ r, ∀ fuel, parseStringLoop (fuel + 1) p out = r := by
  by_cases hroom : p.pos + 1 ≤ buf.length
  · simp only [parseStringLoop, dif_pos hroom]
    by_cases hquote : buf.getD p.pos 0 = byte '"'
    · simp only [if_pos hquote]
      exact Or.inr ⟨_, fun _ => rfl⟩
    · simp only [if_neg hquote]
      by_cases hslash : buf.getD p.pos 0 = byte '\\'
      · simp only [if_pos hslash]
        cases hescape : parseEscape (p.advance 1 hroom) with
        | error e => exact Or.inr ⟨_, fun _ => rfl⟩
        | ok r => exact Or.inl ⟨⟨r.2, out ++ r.1⟩, .escape hroom hslash hescape, fun _ => rfl⟩
      · simp only [if_neg hslash]
        by_cases hctrl : buf.getD p.pos 0 < 0x20
        · simp only [if_pos hctrl]
          exact Or.inr ⟨_, fun _ => rfl⟩
        · simp only [if_neg hctrl]
          exact Or.inl ⟨_, .raw hroom hquote hslash hctrl, fun _ => rfl⟩
  · simp only [parseStringLoop, dif_neg hroom]
    exact Or.inr ⟨_, fun _ => rfl⟩

/-- A turn consumes input, and at least as much as it writes. -/
theorem StringTurn.consumes {s s' : StringState buf} (h : StringTurn s s') :
    s.parser.pos < s'.parser.pos ∧
      s'.out.length + s.parser.pos ≤ s.out.length + s'.parser.pos := by
  cases h with
  | raw h hquote hslash hctrl =>
      simp only [JsonParser.advance, List.length_append, List.length_singleton]
      omega
  | @escape p q out decoded h hslash hescape =>
      obtain ⟨e, he, hread⟩ := parseEscape_sound hescape
      obtain ⟨x, hx, htext, rfl⟩ := he.piece
      have hle := StringPiece.length_decoded_le hx
      have hpos := hread.pos_eq
      rw [htext, List.length_cons] at hle
      simp only [JsonParser.advance, List.length_append] at hpos ⊢
      omega

theorem parseStringLoop_end {p : JsonParser buf} {out : List UInt8} (fuel : Nat)
    (h : buf.length ≤ p.pos) :
    parseStringLoop fuel p out = p.errAt "unterminated string" := by
  cases fuel with
  | zero => rfl
  | succ fuel => rw [parseStringLoop, dif_neg (by omega)]

/-- As many turns as bytes are left are enough: the loop never runs out of them. -/
theorem parseStringLoop_fuel {fuel fuel' : Nat} {p : JsonParser buf} {out : List UInt8}
    (h : buf.length ≤ p.pos + fuel) (h' : buf.length ≤ p.pos + fuel') :
    parseStringLoop fuel p out = parseStringLoop fuel' p out := by
  induction fuel generalizing fuel' p out with
  | zero => rw [parseStringLoop_end 0 h, parseStringLoop_end fuel' h]
  | succ fuel ih =>
      cases fuel' with
      | zero => rw [parseStringLoop_end _ h', parseStringLoop_end 0 h']
      | succ fuel' =>
          rcases parseStringLoop_turn p out with ⟨s, hturn, heq⟩ | ⟨r, heq⟩
          · have hpos : p.pos < s.parser.pos := hturn.consumes.1
            rw [heq, heq]
            exact ih (by omega) (by omega)
          · rw [heq, heq]

/-- The states that the loop goes through behind an opening quote. -/
def StringReached (p : JsonParser buf) (s : StringState buf) : Prop :=
  ∃ h : p.pos + 1 ≤ buf.length, Relation.ReflTransGen StringTurn ⟨p.advance 1 h, []⟩ s

/-- The size of the buffer that the decoded text is written to. -/
def stringCap (p : JsonParser buf) : Nat := buf.length - (p.pos + 1) + 1

theorem StringReached.within {p : JsonParser buf} {s : StringState buf} (h : StringReached p s) :
    s.out.length + 1 ≤ stringCap p := by
  obtain ⟨hroom, hrun⟩ := h
  have hwritten : s.out.length + (p.pos + 1) ≤ s.parser.pos := by
    induction hrun with
    | refl => exact (Nat.zero_add _).le
    | tail _ hturn ih =>
        have hstep := hturn.consumes.2
        omega
  have hpos := s.parser.pos_le
  unfold stringCap
  omega

/-- At an opening quote the scanner accepts the literals of legal pieces and no others, writes
what the pieces stand for, one after the other, and stops behind the closing quote. It needs no
more turns than there are bytes, and on the way what is written stays inside its buffer, with
room for the `NUL`. -/
theorem parse_string_raw_exact {p : JsonParser buf} (hquote : p.peek = byte '"') :
    (∀ out q, parseStringRaw p = .ok (out, q) ↔
      ∃ pieces : List StringPiece, (∀ x ∈ pieces, x.Legal) ∧ p.Reads (literal pieces) q ∧
        out = pieces.flatMap StringPiece.decoded) ∧
    (∀ h : p.pos + 1 ≤ buf.length, ∀ fuel, buf.length - (p.pos + 1) ≤ fuel →
      parseStringLoop fuel (p.advance 1 h) [] = parseStringRaw p) ∧
    ∀ s, StringReached p s → s.out.length + 1 ≤ stringCap p := by
  refine ⟨?_, ?_, fun s hs => hs.within⟩
  · intro out q
    constructor
    · intro h
      obtain ⟨s, hs, hread⟩ := parseStringRaw_sound h
      obtain ⟨pieces, hlegal, rfl, hout⟩ := isString_iff.mp hs
      exact ⟨pieces, hlegal, hread, hout⟩
    · rintro ⟨pieces, hlegal, hread, rfl⟩
      obtain ⟨q', hparse, hread'⟩ := parseStringRaw_complete
        (isString_iff.mpr ⟨pieces, hlegal, rfl, rfl⟩) hread.rest_eq
      rw [hparse, hread'.unique hread]
  · intro h fuel hfuel
    rw [parseStringRaw, dif_pos hquote]
    apply parseStringLoop_fuel
    · simp only [JsonParser.advance]
      omega
    · simp only [JsonParser.advance]
      omega

/-- A letter, a line feed, an accented letter and a character outside of the first plane. -/
def samplePieces : List StringPiece :=
  [.raw (bytes "a"), .letter (byte 'n') 10, .unicode (bytes "00e9"),
    .pair (bytes "d83d") (bytes "DE00")]

theorem parse_string_raw_exact_sample :
    ∃ q, parseStringRaw (JsonParser.start (literal samplePieces ++ bytes ", 1")) =
        .ok ([0x61, 0x0A, 0xC3, 0xA9, 0xF0, 0x9F, 0x98, 0x80], q) ∧
      q.rest = bytes ", 1" := by
  have hroom : (JsonParser.start (literal samplePieces ++ bytes ", 1")).pos + 23 ≤
      (literal samplePieces ++ bytes ", 1").length := by decide
  have hread := JsonParser.advance_reads
    (show (JsonParser.start (literal samplePieces ++ bytes ", 1")).rest.take 23 =
      literal samplePieces by decide +kernel) hroom
  have hquote : (JsonParser.start (literal samplePieces ++ bytes ", 1")).peek = byte '"' := by
    decide +kernel
  refine ⟨_, ((parse_string_raw_exact hquote).1 _ _).mpr
    ⟨samplePieces, ?_, hread, by decide +kernel⟩, hread.rest_of_eq rfl⟩
  intro x hx
  simp only [samplePieces, List.mem_cons, List.not_mem_nil, or_false] at hx
  rcases hx with rfl | rfl | rfl | rfl
  · exact forall_mem_of_all (by decide)
  · unfold StringPiece.Legal
    decide
  · exact ⟨⟨rfl, forall_mem_of_all (by decide)⟩, by decide⟩
  · exact ⟨⟨rfl, forall_mem_of_all (by decide)⟩, ⟨rfl, forall_mem_of_all (by decide)⟩, by decide,
      by decide⟩

end Hummingbird

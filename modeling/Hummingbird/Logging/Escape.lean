import Hummingbird.Foundation.CStrings
import Hummingbird.Json.Access
import Hummingbird.Json.Strings

/-!
`json_escape` writes the characters of a string into a buffer, each of them raw or as an escape,
for as long as more than seven bytes are left. What it writes is the escaped text of a prefix of
the string, which the parser of string literals reads back.
-/

namespace Hummingbird

/-- `%04x` of a number of 16 bits. -/
def hex04 (n : Nat) : List UInt8 :=
  [n / 4096 % 16, n / 256 % 16, n / 16 % 16, n % 16].map fun d => byte d.digitChar

/-- The letter behind the backslash, in the cases that write two characters. -/
def shortLetter (c : UInt8) : Option UInt8 :=
  if c = byte '"' then some (byte '"')
  else if c = byte '\\' then some (byte '\\')
  else if c = byte '\n' then some (byte 'n')
  else if c = byte '\r' then some (byte 'r')
  else if c = byte '\t' then some (byte 't')
  else none

namespace JsonEscape

open CStrings

/-- A buffer of characters and the index of the next one to write. -/
abbrev Cursor := List UInt8 × Nat

/-- `snprintf(buf + w, cap - w, ..)`; a text that does not fit is cut, but counted as a whole. -/
def print (cap : Nat) (s : Cursor) (text : List UInt8) : Except Fault Cursor := do
  let (buf, _) ← writeAll s.1 s.2 (text.take (cap - s.2 - 1) ++ [0])
  return (buf, s.2 + text.length)

/-- The switch of `json_escape`. -/
def turn (cap : Nat) (s : Cursor) (c : UInt8) : Except Fault Cursor :=
  match shortLetter c with
  | some e => writeAll s.1 s.2 [byte '\\', e]
  | none =>
      if c < 0x20 then print cap s (byte '\\' :: byte 'u' :: hex04 c.toNat)
      else writeAll s.1 s.2 [c]

def loop (cap : Nat) : List UInt8 → Cursor → Except Fault Cursor
  | [], s => .ok s
  | c :: text, s =>
      if s.2 + 7 < cap then do
        let s ← turn cap s c
        loop cap text s
      else .ok s

end JsonEscape

/-- `json_escape` on a buffer: the buffer that it leaves. -/
def jsonEscape (s : Option (List UInt8)) (buf : List UInt8) (cap : Nat) :
    Except CStrings.Fault (List UInt8) :=
  if cap = 0 then .ok buf
  else do
    let (buf, w) ← JsonEscape.loop cap (cString (s.getD [])) (buf, 0)
    CStrings.write buf w 0

/-- The piece of a string literal that a byte is escaped to. -/
def escapePiece (c : UInt8) : StringPiece :=
  match shortLetter c with
  | some e => .letter e c
  | none => if c < 0x20 then .unicode (hex04 c.toNat) else .raw [c]

/-- The whole of a string, escaped. -/
def escapedText (s : List UInt8) : List UInt8 := (s.map escapePiece).flatMap StringPiece.text

/-- The escaped text is shorter than the buffer by more than the margin of the loop. -/
def EscapeFits (s : List UInt8) (cap : Nat) : Prop := (escapedText s).length + 7 < cap

@[simp]
theorem escapedText_nil : escapedText [] = [] := rfl

theorem escapedText_cons (c : UInt8) (s : List UInt8) :
    escapedText (c :: s) = (escapePiece c).text ++ escapedText s := rfl

/-- The part of a string that is written when `w` characters stand in front of it. -/
def escapeKept (cap : Nat) : Nat → List UInt8 → List UInt8
  | _, [] => []
  | w, c :: s =>
      if w + 7 < cap then c :: escapeKept cap (w + (escapePiece c).text.length) s else []

theorem escapeKept_isPrefix (cap w : Nat) (s : List UInt8) : escapeKept cap w s <+: s := by
  induction s generalizing w with
  | nil => exact List.prefix_rfl
  | cons c s ih =>
      unfold escapeKept
      split_ifs
      · exact List.cons_prefix_cons.mpr ⟨rfl, ih _⟩
      · exact List.nil_prefix

theorem escapeKept_of_fits {cap w : Nat} {s : List UInt8}
    (h : w + (escapedText s).length + 7 < cap) : escapeKept cap w s = s := by
  induction s generalizing w with
  | nil => rfl
  | cons c s ih =>
      rw [escapedText_cons, List.length_append] at h
      unfold escapeKept
      rw [if_pos (by omega), ih (by omega)]

theorem hex04_writes {n : Nat} (h : n < 0x10000) : WritesHex n (hex04 n) := by
  have hdigit : ∀ m, m % 16 < 16 := fun m => Nat.mod_lt m (by decide)
  have hwrites := WritesHex.mk (.lower (hdigit (n / 4096))) (.lower (hdigit (n / 256)))
    (.lower (hdigit (n / 16))) (.lower (hdigit n))
  rwa [show ((n / 4096 % 16 * 16 + n / 256 % 16) * 16 + n / 16 % 16) * 16 + n % 16 = n by omega]
    at hwrites

theorem shortLetter_some {c e : UInt8} (h : shortLetter c = some e) : (e, c) ∈ escapeLetters := by
  unfold shortLetter at h
  split_ifs at h <;> cases h <;> simp [escapeLetters, byte, *] <;> decide

theorem shortLetter_none {c : UInt8} (h : shortLetter c = none) : c ≠ byte '"' ∧ c ≠ byte '\\' := by
  constructor
  · rintro rfl
    cases h
  · rintro rfl
    cases h

/-- Every byte has a legal piece that stands for it. -/
theorem escapePiece_legal (c : UInt8) : (escapePiece c).Legal ∧ (escapePiece c).decoded = [c] := by
  unfold escapePiece
  cases hshort : shortLetter c with
  | some e => exact ⟨shortLetter_some hshort, rfl⟩
  | none =>
      dsimp only
      by_cases hctrl : c < 0x20
      · have hlt : c.toNat < 0x20 := UInt8.lt_iff_toNat_lt.mp hctrl
        obtain ⟨hhex, hvalue⟩ := isHex4_writes (hex04_writes (by omega : c.toNat < 0x10000))
        rw [if_pos hctrl]
        refine ⟨⟨hhex, by omega⟩, ?_⟩
        unfold StringPiece.decoded hbiUtf8Encode
        dsimp only
        rw [hvalue, if_neg (by omega), if_pos (by omega), UInt8.ofNat_toNat]
      · rw [if_neg hctrl]
        exact ⟨List.forall_mem_singleton.mpr ⟨UInt8.not_lt.mp hctrl, shortLetter_none hshort⟩, rfl⟩

theorem escapePiece_text_length (c : UInt8) : (escapePiece c).text.length ≤ 6 := by
  unfold escapePiece
  cases shortLetter c with
  | some e => exact (by decide : 2 ≤ 6)
  | none =>
      dsimp only
      split_ifs
      · exact le_rfl
      · exact (by decide : 1 ≤ 6)

/-- The escaped text of a string is a literal for it. -/
theorem isString_escaped (s : List UInt8) :
    IsString (byte '"' :: (escapedText s ++ [byte '"'])) s := by
  refine isString_iff.mpr ⟨s.map escapePiece, ?_, rfl, ?_⟩
  · intro x hx
    obtain ⟨c, -, rfl⟩ := List.mem_map.mp hx
    exact (escapePiece_legal c).1
  · induction s with
    | nil => rfl
    | cons c s ih => rw [List.map_cons, List.flatMap_cons, (escapePiece_legal c).2, ← ih]; rfl

theorem zero_notMem_hex04 (n : Nat) : 0 ∉ hex04 n := by
  have hall : ∀ d < 16, byte d.digitChar ≠ 0 := by decide +kernel
  intro h
  obtain ⟨d, hd, hzero⟩ := List.mem_map.mp h
  refine hall d ?_ hzero
  simp only [List.mem_cons, List.not_mem_nil, or_false] at hd
  omega

theorem zero_notMem_escapePiece {c : UInt8} (hc : c ≠ 0) : 0 ∉ (escapePiece c).text := by
  unfold escapePiece
  cases hshort : shortLetter c with
  | some e =>
      have hall : ∀ x ∈ escapeLetters, x.1 ≠ 0 := forall_mem_of_all (by decide)
      have he := hall _ (shortLetter_some hshort)
      simpa [StringPiece.text] using ⟨by decide, he.symm⟩
  | none =>
      dsimp only
      split_ifs with hctrl
      · simpa [StringPiece.text] using ⟨by decide, by decide, zero_notMem_hex04 c.toNat⟩
      · simpa [StringPiece.text] using hc.symm

theorem zero_notMem_escapedText {s : List UInt8} (hs : 0 ∉ s) : 0 ∉ escapedText s := by
  intro h
  obtain ⟨x, hx, hmem⟩ := List.mem_flatMap.mp h
  obtain ⟨c, hc, rfl⟩ := List.mem_map.mp hx
  exact zero_notMem_escapePiece (ne_of_mem_of_not_mem hc hs) hmem

namespace JsonEscape

open CStrings

variable {cap : Nat} {out tail : List UInt8}

/-- With the margin ahead a turn writes its whole piece. -/
theorem turn_eq (c : UInt8) (hcap : (out ++ tail).length = cap) (hroom : out.length + 7 < cap) :
    ∃ tail', turn cap (out ++ tail, out.length) c =
        .ok (out ++ (escapePiece c).text ++ tail', (out ++ (escapePiece c).text).length) ∧
      (out ++ (escapePiece c).text ++ tail').length = cap := by
  have hlen := hcap
  rw [List.length_append] at hlen
  unfold turn escapePiece
  cases shortLetter c with
  | some e =>
      have hwrite := @writeAll_append _ [byte '\\', e] out tail (by simp; omega)
      refine ⟨tail.drop 2, hwrite, ?_⟩
      simp only [StringPiece.text, List.length_append, List.length_cons, List.length_nil,
        List.length_drop]
      omega
  | none =>
      dsimp only
      by_cases hctrl : c < 0x20
      · rw [if_pos hctrl, if_pos hctrl]
        have htext : (byte '\\' :: byte 'u' :: hex04 c.toNat).length = 6 := rfl
        have hwrite := @writeAll_append _ ((byte '\\' :: byte 'u' :: hex04 c.toNat) ++ [0]) out tail
          (by simp [hex04]; omega)
        refine ⟨0 :: tail.drop 7, ?_, ?_⟩
        · unfold print
          rw [List.take_of_length_le (by dsimp only; omega), hwrite]
          simp [bind, Except.bind, pure, Except.pure, StringPiece.text, hex04]
        · simp [StringPiece.text, hex04]
          omega
      · rw [if_neg hctrl, if_neg hctrl]
        have hwrite := @writeAll_append _ [c] out tail (by simp; omega)
        refine ⟨tail.drop 1, hwrite, ?_⟩
        simp only [StringPiece.text, List.length_append, List.length_cons, List.length_nil,
          List.length_drop]
        omega

/-- The loop writes the escaped text of a prefix. -/
theorem loop_eq {s : List UInt8} (hcap : (out ++ tail).length = cap) (hroom : out.length < cap) :
    ∃ tail', loop cap s (out ++ tail, out.length) =
        .ok (out ++ escapedText (escapeKept cap out.length s) ++ tail',
          (out ++ escapedText (escapeKept cap out.length s)).length) ∧
      (out ++ escapedText (escapeKept cap out.length s) ++ tail').length = cap ∧
      (out ++ escapedText (escapeKept cap out.length s)).length < cap := by
  induction s generalizing out tail with
  | nil => exact ⟨tail, by simp [loop, escapeKept], by simpa [escapeKept] using hcap,
      by simpa [escapeKept] using hroom⟩
  | cons c s ih =>
      unfold loop escapeKept
      by_cases hmargin : out.length + 7 < cap
      · obtain ⟨tail₁, hturn, hcap₁⟩ := turn_eq c hcap hmargin
        have hpiece := escapePiece_text_length c
        obtain ⟨tail', hloop, hcap', hroom'⟩ := ih hcap₁ (by rw [List.length_append]; omega)
        rw [if_pos hmargin, if_pos hmargin, escapedText_cons, ← List.append_assoc,
          ← List.length_append, hturn]
        exact ⟨tail', hloop, hcap', hroom'⟩
      · rw [if_neg hmargin, if_neg hmargin]
        exact ⟨tail, by simp, by simpa using hcap, by simpa using hroom⟩

end JsonEscape

/-- `json_escape` on a buffer that it may use as a whole. -/
theorem jsonEscape_eq {s buf : List UInt8} (hs : 0 ∉ s) (hcap : 1 ≤ buf.length) :
    ∃ tail, jsonEscape (some s) buf buf.length =
        .ok (escapedText (escapeKept buf.length 0 s) ++ 0 :: tail) ∧
      (escapedText (escapeKept buf.length 0 s) ++ 0 :: tail).length = buf.length := by
  obtain ⟨tail, hloop, hlen, hroom⟩ :=
    @JsonEscape.loop_eq buf.length [] buf s rfl hcap
  simp only [List.nil_append, List.length_nil] at hloop hroom hlen
  rw [List.length_append] at hlen
  cases tail with
  | nil =>
      rw [List.length_nil] at hlen
      omega
  | cons d tail =>
      refine ⟨tail, ?_, by simpa using hlen⟩
      unfold jsonEscape CStrings.write
      rw [if_neg (by omega), Option.getD_some, cString_of_notMem hs, hloop]
      simp [bind, Except.bind]

theorem zero_notMem_escapeKept {s : List UInt8} (hs : 0 ∉ s) (cap w : Nat) :
    0 ∉ escapedText (escapeKept cap w s) :=
  zero_notMem_escapedText fun h => hs ((escapeKept_isPrefix cap w s).subset h)

/-- What `json_escape` leaves in a buffer is a `NUL`-terminated text inside of it. Between quotes
the parser of string literals reads it as a prefix of the string, and as the whole string when
the escaped text fits. -/
theorem json_escape_parses {s buf : List UInt8} (hs : 0 ∉ s) (hcap : 1 ≤ buf.length) :
    ∃ out tail kept, jsonEscape (some s) buf buf.length = .ok (out ++ 0 :: tail) ∧
      out.length + 1 ≤ buf.length ∧ (out ++ 0 :: tail).length = buf.length ∧ 0 ∉ out ∧
      kept <+: s ∧ (EscapeFits s buf.length → kept = s) ∧
      ∀ (text : List UInt8) (p : JsonParser text) (t : List UInt8),
        p.rest = byte '"' :: (out ++ byte '"' :: t) →
          ∃ q, parseStringRaw p = .ok (kept, q) ∧ q.rest = t := by
  obtain ⟨tail, hescape, hlen⟩ := jsonEscape_eq hs hcap
  refine ⟨_, tail, escapeKept buf.length 0 s, hescape, ?_, hlen, zero_notMem_escapeKept hs _ _,
    escapeKept_isPrefix _ _ s, ?_, ?_⟩
  · rw [List.length_append, List.length_cons] at hlen
    omega
  · intro hfits
    exact escapeKept_of_fits (by simpa [EscapeFits] using hfits)
  · intro text p t hrest
    have hliteral : p.rest =
        byte '"' :: (escapedText (escapeKept buf.length 0 s) ++ [byte '"']) ++ t := by
      rw [hrest]
      simp
    obtain ⟨q, hparse, hread⟩ := parseStringRaw_complete (isString_escaped _) hliteral
    exact ⟨q, hparse, hread.rest_of_eq hliteral⟩

/-- A letter, a quote and a control character. -/
def sampleMessage : List UInt8 := [byte 'a', byte '"', 1]

theorem json_escape_parses_sample :
    ∃ out tail q,
      jsonEscape (some sampleMessage) (List.replicate 17 0) 17 = .ok (out ++ 0 :: tail) ∧
      parseStringRaw (JsonParser.start (byte '"' :: (out ++ [byte '"']))) =
        .ok (sampleMessage, q) := by
  have hcap : 1 ≤ (List.replicate 17 (0 : UInt8)).length := by decide
  obtain ⟨out, tail, kept, hescape, -, -, -, -, hfits, hparse⟩ :=
    json_escape_parses (s := sampleMessage) (by decide +kernel) hcap
  obtain rfl := hfits (by unfold EscapeFits; decide +kernel)
  obtain ⟨q, hread, -⟩ := hparse _ _ [] (JsonParser.start_rest (byte '"' :: (out ++ [byte '"'])))
  exact ⟨out, tail, q, hescape, hread⟩

end Hummingbird

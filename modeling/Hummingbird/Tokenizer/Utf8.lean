import Mathlib.Tactic

/-!
The UTF-8 helpers of the tokenizer. A code point has a form of every length that holds it; the
encoder writes the shortest. The decoder takes any form of a scalar value, except that it
refuses those of ASCII which are not one byte long.
-/

namespace Hummingbird

def hbiUtf8SeqLen (b : UInt8) : Nat :=
  if b &&& 0x80 = 0 then 1
  else if b &&& 0xE0 = 0xC0 then 2
  else if b &&& 0xF0 = 0xE0 then 3
  else if b &&& 0xF8 = 0xF0 then 4
  else 0

/-- `U+FFFD`, with nothing consumed. -/
def utf8Refused : Nat × Nat := (0, 0xFFFD)

/-- The `switch` of `hbi_utf8_decode`. -/
def utf8Assemble : Nat → List UInt8 → Nat
  | 1, b₀ :: _ => b₀.toNat
  | 2, b₀ :: b₁ :: _ => (b₀ &&& 0x1F).toNat <<< 6 ||| (b₁ &&& 0x3F).toNat
  | 3, b₀ :: b₁ :: b₂ :: _ =>
      (b₀ &&& 0x0F).toNat <<< 12 ||| (b₁ &&& 0x3F).toNat <<< 6 ||| (b₂ &&& 0x3F).toNat
  | 4, b₀ :: b₁ :: b₂ :: b₃ :: _ =>
      (b₀ &&& 0x07).toNat <<< 18 ||| (b₁ &&& 0x3F).toNat <<< 12 ||| (b₂ &&& 0x3F).toNat <<< 6 |||
        (b₃ &&& 0x3F).toNat
  | _, _ => 0

/-- `hbi_utf8_decode`: the bytes consumed and what `*out_cp` holds. -/
def hbiUtf8Decode (src : List UInt8) : Nat × Nat :=
  match src with
  | [] => utf8Refused
  | lead :: _ =>
      let len := hbiUtf8SeqLen lead
      if len = 0 ∨ len > src.length then utf8Refused
      else
        let cp := utf8Assemble len src
        if ((src.take len).tail.all fun b => b &&& 0xC0 = 0x80) = false then utf8Refused
        else if cp < 0x80 ∧ len ≠ 1 then utf8Refused
        else if cp ≥ 0xD800 ∧ cp ≤ 0xDFFF then utf8Refused
        else if cp > 0x10FFFF then utf8Refused
        else (len, cp)

/-- The bytes that `hbi_utf8_encode` writes, none when it returns 0. -/
def hbiUtf8Encode (cp : Nat) : List UInt8 :=
  if cp > 0x10FFFF ∨ cp ≥ 0xD800 ∧ cp ≤ 0xDFFF then []
  else if cp < 0x80 then [UInt8.ofNat cp]
  else if cp < 0x800 then
    [UInt8.ofNat (0xC0 ||| cp >>> 6), UInt8.ofNat (0x80 ||| cp &&& 0x3F)]
  else if cp < 0x10000 then
    [UInt8.ofNat (0xE0 ||| cp >>> 12), UInt8.ofNat (0x80 ||| cp >>> 6 &&& 0x3F),
      UInt8.ofNat (0x80 ||| cp &&& 0x3F)]
  else
    [UInt8.ofNat (0xF0 ||| cp >>> 18), UInt8.ofNat (0x80 ||| cp >>> 12 &&& 0x3F),
      UInt8.ofNat (0x80 ||| cp >>> 6 &&& 0x3F), UInt8.ofNat (0x80 ||| cp &&& 0x3F)]

def hbiUtf8Validate (text : List UInt8) : Bool :=
  match text with
  | [] => true
  | b :: rest =>
      let consumed := (hbiUtf8Decode (b :: rest)).1
      if consumed = 0 then false else hbiUtf8Validate ((b :: rest).drop consumed)
termination_by text.length
decreasing_by
  rw [List.length_drop]
  simp only [List.length_cons]
  omega

/-- The answers of `hbi_utf8_decode`, called again behind what it has consumed up to the end of
the text or to the first refusal. -/
def decodings (text : List UInt8) : List (Nat × Nat) :=
  match text with
  | [] => []
  | b :: rest =>
      let consumed := (hbiUtf8Decode (b :: rest)).1
      if consumed = 0 then [hbiUtf8Decode (b :: rest)]
      else hbiUtf8Decode (b :: rest) :: decodings ((b :: rest).drop consumed)
termination_by text.length
decreasing_by
  rw [List.length_drop]
  simp only [List.length_cons]
  omega

/-- A continuation byte. -/
def utf8Tail (n : Nat) : UInt8 := UInt8.ofNat (0x80 + n % 64)

/-- The form of a code point in a number of bytes. -/
def utf8Form (len cp : Nat) : List UInt8 :=
  match len with
  | 1 => [UInt8.ofNat cp]
  | 2 => [UInt8.ofNat (0xC0 + cp / 64), utf8Tail cp]
  | 3 => [UInt8.ofNat (0xE0 + cp / 4096), utf8Tail (cp / 64), utf8Tail cp]
  | 4 =>
      [UInt8.ofNat (0xF0 + cp / 262144), utf8Tail (cp / 4096), utf8Tail (cp / 64), utf8Tail cp]
  | _ => []

/-- The number of bytes in which the decoder can read a code point. -/
inductive Utf8Length : Nat → Nat → Prop
  | one {cp} (hlt : cp < 0x80) : Utf8Length 1 cp
  | two {cp} (hge : 0x80 ≤ cp) (hlt : cp < 0x800) : Utf8Length 2 cp
  | three {cp} (hge : 0x80 ≤ cp) (hlt : cp < 0x10000) : Utf8Length 3 cp
  | four {cp} (hge : 0x80 ≤ cp) (hlt : cp < 0x110000) : Utf8Length 4 cp

theorem hbiUtf8SeqLen_cases (b : UInt8) :
    b.toNat < 0x80 ∧ hbiUtf8SeqLen b = 1 ∨
      0xC0 ≤ b.toNat ∧ b.toNat < 0xE0 ∧ hbiUtf8SeqLen b = 2 ∨
      0xE0 ≤ b.toNat ∧ b.toNat < 0xF0 ∧ hbiUtf8SeqLen b = 3 ∨
      0xF0 ≤ b.toNat ∧ b.toNat < 0xF8 ∧ hbiUtf8SeqLen b = 4 ∨
      (0x80 ≤ b.toNat ∧ b.toNat < 0xC0 ∨ 0xF8 ≤ b.toNat) ∧ hbiUtf8SeqLen b = 0 := by
  have hall : ∀ n < 256,
      n < 0x80 ∧ hbiUtf8SeqLen (UInt8.ofNat n) = 1 ∨
      0xC0 ≤ n ∧ n < 0xE0 ∧ hbiUtf8SeqLen (UInt8.ofNat n) = 2 ∨
      0xE0 ≤ n ∧ n < 0xF0 ∧ hbiUtf8SeqLen (UInt8.ofNat n) = 3 ∨
      0xF0 ≤ n ∧ n < 0xF8 ∧ hbiUtf8SeqLen (UInt8.ofNat n) = 4 ∨
      (0x80 ≤ n ∧ n < 0xC0 ∨ 0xF8 ≤ n) ∧ hbiUtf8SeqLen (UInt8.ofNat n) = 0 := by
    decide +kernel
  have hb := hall b.toNat b.toNat_lt
  rwa [UInt8.ofNat_toNat] at hb

theorem continuation_iff (b : UInt8) : b &&& 0xC0 = 0x80 ↔ 0x80 ≤ b.toNat ∧ b.toNat < 0xC0 := by
  have hall : ∀ n < 256, UInt8.ofNat n &&& 0xC0 = 0x80 ↔ 0x80 ≤ n ∧ n < 0xC0 := by
    decide +kernel
  have hb := hall b.toNat b.toNat_lt
  rwa [UInt8.ofNat_toNat] at hb

theorem low_bits (b : UInt8) :
    (b &&& 0x3F).toNat = b.toNat % 64 ∧ (b &&& 0x1F).toNat = b.toNat % 32 ∧
      (b &&& 0x0F).toNat = b.toNat % 16 ∧ (b &&& 0x07).toNat = b.toNat % 8 := by
  simp only [UInt8.toNat_and]
  exact ⟨Nat.and_two_pow_sub_one_eq_mod _ 6, Nat.and_two_pow_sub_one_eq_mod _ 5,
    Nat.and_two_pow_sub_one_eq_mod _ 4, Nat.and_two_pow_sub_one_eq_mod _ 3⟩

theorem shift_or {n low : Nat} (k : Nat) (high : Nat) (hn : n = 2 ^ k) (hlow : low < n) :
    high <<< k ||| low = high * n + low := by
  subst hn
  rw [← Nat.shiftLeft_add_eq_or_of_lt hlow, Nat.shiftLeft_eq]

theorem ofNat_eq {b : UInt8} {n : Nat} (h : b.toNat = n) : UInt8.ofNat n = b := by
  rw [← h, UInt8.ofNat_toNat]

theorem hbiUtf8Decode_refused {src : List UInt8} (h : (hbiUtf8Decode src).1 = 0) :
    hbiUtf8Decode src = utf8Refused := by
  unfold hbiUtf8Decode at h ⊢
  cases src with
  | nil => rfl
  | cons lead rest =>
      dsimp only at h ⊢
      by_cases hlen : hbiUtf8SeqLen lead = 0 ∨ hbiUtf8SeqLen lead > (lead :: rest).length
      · rw [if_pos hlen]
      · rw [if_neg hlen] at h ⊢
        split_ifs at h ⊢
        · rfl
        · rfl
        · rfl
        · rfl
        · exact absurd (Or.inl h) hlen

/-- The largest value of each length, and one. -/
def Utf8Range (len cp : Nat) : Prop :=
  len = 1 ∧ cp < 0x80 ∨ len = 2 ∧ cp < 0x800 ∨ len = 3 ∧ cp < 0x10000 ∨ len = 4 ∧ cp < 0x200000

theorem assemble_two_eq (b₀ b₁ : UInt8) (rest : List UInt8) :
    utf8Assemble 2 (b₀ :: b₁ :: rest) = b₀.toNat % 32 * 64 + b₁.toNat % 64 := by
  simp only [utf8Assemble, low_bits]
  exact shift_or 6 _ rfl (by omega)

theorem assemble_three_eq (b₀ b₁ b₂ : UInt8) (rest : List UInt8) :
    utf8Assemble 3 (b₀ :: b₁ :: b₂ :: rest) =
      b₀.toNat % 16 * 4096 + (b₁.toNat % 64 * 64 + b₂.toNat % 64) := by
  simp only [utf8Assemble, low_bits]
  rw [Nat.or_assoc, shift_or 6 _ (n := 64) rfl (by omega),
    shift_or 12 _ (n := 4096) rfl (by omega)]

theorem assemble_four_eq (b₀ b₁ b₂ b₃ : UInt8) (rest : List UInt8) :
    utf8Assemble 4 (b₀ :: b₁ :: b₂ :: b₃ :: rest) =
      b₀.toNat % 8 * 262144 +
        (b₁.toNat % 64 * 4096 + (b₂.toNat % 64 * 64 + b₃.toNat % 64)) := by
  simp only [utf8Assemble, low_bits]
  rw [Nat.or_assoc, Nat.or_assoc, shift_or 6 _ (n := 64) rfl (by omega),
    shift_or 12 _ (n := 4096) rfl (by omega), shift_or 18 _ (n := 262144) rfl (by omega)]

theorem assemble_two {b₀ b₁ : UInt8} {rest : List UInt8} (h₀ : 0xC0 ≤ b₀.toNat ∧ b₀.toNat < 0xE0)
    (h₁ : 0x80 ≤ b₁.toNat ∧ b₁.toNat < 0xC0) :
    utf8Form 2 (utf8Assemble 2 (b₀ :: b₁ :: rest)) = [b₀, b₁] ∧
      utf8Assemble 2 (b₀ :: b₁ :: rest) < 0x800 := by
  rw [assemble_two_eq]
  refine ⟨?_, by omega⟩
  simp only [utf8Form, List.cons.injEq, and_true]
  exact ⟨ofNat_eq (by omega), ofNat_eq (by omega)⟩

theorem assemble_three {b₀ b₁ b₂ : UInt8} {rest : List UInt8}
    (h₀ : 0xE0 ≤ b₀.toNat ∧ b₀.toNat < 0xF0) (h₁ : 0x80 ≤ b₁.toNat ∧ b₁.toNat < 0xC0)
    (h₂ : 0x80 ≤ b₂.toNat ∧ b₂.toNat < 0xC0) :
    utf8Form 3 (utf8Assemble 3 (b₀ :: b₁ :: b₂ :: rest)) = [b₀, b₁, b₂] ∧
      utf8Assemble 3 (b₀ :: b₁ :: b₂ :: rest) < 0x10000 := by
  rw [assemble_three_eq]
  refine ⟨?_, by omega⟩
  simp only [utf8Form, List.cons.injEq, and_true]
  exact ⟨ofNat_eq (by omega), ofNat_eq (by omega), ofNat_eq (by omega)⟩

theorem assemble_four {b₀ b₁ b₂ b₃ : UInt8} {rest : List UInt8}
    (h₀ : 0xF0 ≤ b₀.toNat ∧ b₀.toNat < 0xF8) (h₁ : 0x80 ≤ b₁.toNat ∧ b₁.toNat < 0xC0)
    (h₂ : 0x80 ≤ b₂.toNat ∧ b₂.toNat < 0xC0) (h₃ : 0x80 ≤ b₃.toNat ∧ b₃.toNat < 0xC0) :
    utf8Form 4 (utf8Assemble 4 (b₀ :: b₁ :: b₂ :: b₃ :: rest)) = [b₀, b₁, b₂, b₃] ∧
      utf8Assemble 4 (b₀ :: b₁ :: b₂ :: b₃ :: rest) < 0x200000 := by
  rw [assemble_four_eq]
  refine ⟨?_, by omega⟩
  simp only [utf8Form, List.cons.injEq, and_true]
  exact ⟨ofNat_eq (by omega), ofNat_eq (by omega), ofNat_eq (by omega), ofNat_eq (by omega)⟩

/-- A leading byte with its continuation bytes is the form of what they are assembled to. -/
theorem utf8Assemble_form {b₀ : UInt8} {rest : List UInt8}
    (hfits : ¬(hbiUtf8SeqLen b₀ = 0 ∨ hbiUtf8SeqLen b₀ > (b₀ :: rest).length))
    (hcont : (((b₀ :: rest).take (hbiUtf8SeqLen b₀)).tail.all fun b => b &&& 0xC0 = 0x80) =
      true) :
    utf8Form (hbiUtf8SeqLen b₀) (utf8Assemble (hbiUtf8SeqLen b₀) (b₀ :: rest)) <+: b₀ :: rest ∧
      Utf8Range (hbiUtf8SeqLen b₀) (utf8Assemble (hbiUtf8SeqLen b₀) (b₀ :: rest)) := by
  simp only [not_or, not_lt, List.length_cons] at hfits
  rcases hbiUtf8SeqLen_cases b₀ with ⟨hlt, hlen⟩ | ⟨hge, hlt, hlen⟩ | ⟨hge, hlt, hlen⟩ |
    ⟨hge, hlt, hlen⟩ | ⟨-, hlen⟩
  · rw [hlen]
    refine ⟨?_, Or.inl ⟨rfl, hlt⟩⟩
    change [UInt8.ofNat b₀.toNat] <+: b₀ :: rest
    rw [UInt8.ofNat_toNat]
    exact ⟨rest, rfl⟩
  · rw [hlen] at hfits hcont ⊢
    obtain _ | ⟨b₁, rest⟩ := rest
    · simp at hfits
    · simp [continuation_iff] at hcont
      obtain ⟨hform, hrange⟩ := @assemble_two b₀ b₁ rest ⟨hge, hlt⟩ hcont
      exact ⟨hform ▸ ⟨rest, rfl⟩, Or.inr (Or.inl ⟨rfl, hrange⟩)⟩
  · rw [hlen] at hfits hcont ⊢
    obtain _ | ⟨b₁, _ | ⟨b₂, rest⟩⟩ := rest
    · simp at hfits
    · simp at hfits
    · simp [continuation_iff] at hcont
      obtain ⟨hform, hrange⟩ := @assemble_three b₀ b₁ b₂ rest ⟨hge, hlt⟩ hcont.1 hcont.2
      exact ⟨hform ▸ ⟨rest, rfl⟩, Or.inr (Or.inr (Or.inl ⟨rfl, hrange⟩))⟩
  · rw [hlen] at hfits hcont ⊢
    obtain _ | ⟨b₁, _ | ⟨b₂, _ | ⟨b₃, rest⟩⟩⟩ := rest
    · simp at hfits
    · simp at hfits
    · simp at hfits
    · simp [continuation_iff] at hcont
      obtain ⟨hform, hrange⟩ := @assemble_four b₀ b₁ b₂ b₃ rest ⟨hge, hlt⟩ hcont.1 hcont.2.1
        hcont.2.2
      exact ⟨hform ▸ ⟨rest, rfl⟩, Or.inr (Or.inr (Or.inr ⟨rfl, hrange⟩))⟩
  · exact absurd hlen hfits.1

/-- What is decoded is one of the forms of a scalar value. -/
theorem hbiUtf8Decode_form {src : List UInt8} {len cp : Nat}
    (h : hbiUtf8Decode src = (len, cp)) (hlen : len ≠ 0) :
    Utf8Length len cp ∧ cp.isValidChar ∧ utf8Form len cp <+: src := by
  unfold hbiUtf8Decode at h
  have hrefused : utf8Refused ≠ (len, cp) := fun heq => hlen (congrArg Prod.fst heq).symm
  cases src with
  | nil => exact absurd h hrefused
  | cons b₀ rest =>
      dsimp only at h
      split at h
      · exact absurd h hrefused
      · rename_i hfits
        split at h
        · exact absurd h hrefused
        · rename_i hcont
          split at h
          · exact absurd h hrefused
          · rename_i hascii
            split at h
            · exact absurd h hrefused
            · rename_i hsurrogate
              split at h
              · exact absurd h hrefused
              · rename_i hrange
                obtain ⟨rfl, rfl⟩ := Prod.mk.inj h
                obtain ⟨hform, hlen⟩ := utf8Assemble_form hfits (by simpa using hcont)
                generalize utf8Assemble (hbiUtf8SeqLen b₀) (b₀ :: rest) = cp at *
                generalize hbiUtf8SeqLen b₀ = len at *
                have hvalid : cp.isValidChar := by
                  unfold Nat.isValidChar
                  omega
                refine ⟨?_, hvalid, hform⟩
                rcases hlen with ⟨rfl, hlt⟩ | ⟨rfl, hlt⟩ | ⟨rfl, hlt⟩ | ⟨rfl, hlt⟩
                · exact .one hlt
                · exact .two (by omega) hlt
                · exact .three (by omega) hlt
                · exact .four (by omega) (by omega)

theorem toNat_ofNat {n : Nat} (h : n < 256) : (UInt8.ofNat n).toNat = n := by
  rw [UInt8.toNat_ofNat', Nat.mod_eq_of_lt h]

/-- A leading byte with its continuation bytes is taken when what they are assembled to is a
scalar value of the length. -/
theorem hbiUtf8Decode_of_assemble {b₀ : UInt8} {rest : List UInt8} {len cp : Nat}
    (hseq : hbiUtf8SeqLen b₀ = len) (hlen : Utf8Length len cp) (hfits : len ≤ rest.length + 1)
    (hcont : (((b₀ :: rest).take len).tail.all fun b => b &&& 0xC0 = 0x80) = true)
    (hcp : utf8Assemble len (b₀ :: rest) = cp) (hvalid : cp.isValidChar) :
    hbiUtf8Decode (b₀ :: rest) = (len, cp) := by
  have hpos : len ≠ 0 := by cases hlen <;> simp
  have hascii : ¬(cp < 0x80 ∧ len ≠ 1) := by
    rintro ⟨hlt, hne⟩
    cases hlen with
    | one => exact hne rfl
    | two hge => omega
    | three hge => omega
    | four hge => omega
  unfold Nat.isValidChar at hvalid
  unfold hbiUtf8Decode
  dsimp only
  rw [hseq, hcp, hcont, if_neg (by simp [hpos]; omega), if_neg (by simp), if_neg hascii,
    if_neg (by omega), if_neg (by omega)]

@[simp]
theorem utf8Tail_toNat (n : Nat) : (utf8Tail n).toNat = 0x80 + n % 64 := toNat_ofNat (by omega)

@[simp]
theorem utf8Tail_continues (n : Nat) : utf8Tail n &&& 0xC0 = 0x80 := by
  rw [continuation_iff, utf8Tail_toNat]
  omega

/-- Every form of a scalar value is read as it, those of ASCII apart that are too long. -/
theorem hbiUtf8Decode_utf8Form {len cp : Nat} (hlen : Utf8Length len cp)
    (hvalid : cp.isValidChar) (rest : List UInt8) :
    hbiUtf8Decode (utf8Form len cp ++ rest) = (len, cp) := by
  cases hlen with
  | one hlt =>
      have hlead : (UInt8.ofNat cp).toNat = cp := toNat_ofNat (by omega)
      have hcases := hbiUtf8SeqLen_cases (UInt8.ofNat cp)
      exact hbiUtf8Decode_of_assemble (by omega) (.one hlt) (by simp) (by simp) hlead hvalid
  | two hge hlt =>
      have hlead : (UInt8.ofNat (0xC0 + cp / 64)).toNat = 0xC0 + cp / 64 :=
        toNat_ofNat (by omega)
      have hcases := hbiUtf8SeqLen_cases (UInt8.ofNat (0xC0 + cp / 64))
      refine hbiUtf8Decode_of_assemble (by omega) (.two hge hlt) (by simp) (by simp) ?_ hvalid
      refine (assemble_two_eq _ _ rest).trans ?_
      rw [hlead, utf8Tail_toNat]
      omega
  | three hge hlt =>
      have hlead : (UInt8.ofNat (0xE0 + cp / 4096)).toNat = 0xE0 + cp / 4096 :=
        toNat_ofNat (by omega)
      have hcases := hbiUtf8SeqLen_cases (UInt8.ofNat (0xE0 + cp / 4096))
      refine hbiUtf8Decode_of_assemble (by omega) (.three hge hlt) (by simp) (by simp) ?_ hvalid
      refine (assemble_three_eq _ _ _ rest).trans ?_
      rw [hlead, utf8Tail_toNat, utf8Tail_toNat]
      omega
  | four hge hlt =>
      have hlead : (UInt8.ofNat (0xF0 + cp / 262144)).toNat = 0xF0 + cp / 262144 :=
        toNat_ofNat (by omega)
      have hcases := hbiUtf8SeqLen_cases (UInt8.ofNat (0xF0 + cp / 262144))
      refine hbiUtf8Decode_of_assemble (by omega) (.four hge hlt) (by simp) (by simp) ?_ hvalid
      refine (assemble_four_eq _ _ _ _ rest).trans ?_
      rw [hlead, utf8Tail_toNat, utf8Tail_toNat, utf8Tail_toNat]
      omega

/-- The shortest length of a code point. -/
def utf8Size (cp : Nat) : Nat :=
  if cp < 0x80 then 1 else if cp < 0x800 then 2 else if cp < 0x10000 then 3 else 4

theorem tail_or (n : Nat) : UInt8.ofNat (0x80 ||| n &&& 0x3F) = utf8Tail n := by
  have hlow : n &&& 0x3F = n % 64 := Nat.and_two_pow_sub_one_eq_mod n 6
  rw [hlow, show (0x80 : Nat) = 2 <<< 6 by decide,
    shift_or 6 2 (n := 64) rfl (Nat.mod_lt n (by decide))]
  rfl

/-- The encoder writes the shortest form of a scalar value. -/
theorem hbiUtf8Encode_eq {cp : Nat} (hvalid : cp.isValidChar) :
    hbiUtf8Encode cp = utf8Form (utf8Size cp) cp := by
  unfold Nat.isValidChar at hvalid
  unfold hbiUtf8Encode utf8Size
  rw [if_neg (by omega)]
  by_cases hone : cp < 0x80
  · rw [if_pos hone, if_pos hone]
    rfl
  · rw [if_neg hone, if_neg hone]
    by_cases htwo : cp < 0x800
    · rw [if_pos htwo, if_pos htwo, tail_or, Nat.shiftRight_eq_div_pow,
        show (0xC0 : Nat) = 3 <<< 6 by decide, shift_or 6 3 rfl (by omega)]
      rfl
    · rw [if_neg htwo, if_neg htwo]
      by_cases hthree : cp < 0x10000
      · rw [if_pos hthree, if_pos hthree, tail_or, tail_or, Nat.shiftRight_eq_div_pow,
          Nat.shiftRight_eq_div_pow, show (0xE0 : Nat) = 14 <<< 4 by decide,
          shift_or 4 14 rfl (by omega)]
        rfl
      · rw [if_neg hthree, if_neg hthree, tail_or, tail_or, tail_or, Nat.shiftRight_eq_div_pow,
          Nat.shiftRight_eq_div_pow, Nat.shiftRight_eq_div_pow,
          show (0xF0 : Nat) = 30 <<< 3 by decide, shift_or 3 30 rfl (by omega)]
        rfl

theorem utf8Size_pos (cp : Nat) : 0 < utf8Size cp := by
  unfold utf8Size
  split_ifs <;> omega

theorem utf8Length_size {cp : Nat} (hvalid : cp.isValidChar) : Utf8Length (utf8Size cp) cp := by
  unfold Nat.isValidChar at hvalid
  unfold utf8Size
  by_cases hone : cp < 0x80
  · rw [if_pos hone]
    exact .one hone
  · rw [if_neg hone]
    by_cases htwo : cp < 0x800
    · rw [if_pos htwo]
      exact .two (by omega) htwo
    · rw [if_neg htwo]
      by_cases hthree : cp < 0x10000
      · rw [if_pos hthree]
        exact .three (by omega) hthree
      · rw [if_neg hthree]
        exact .four (by omega) (by omega)

/-- Three or four bytes for a scalar value above ASCII that fewer bytes hold. -/
def IsOverlong (bs : List UInt8) : Prop :=
  ∃ cp, cp.isValidChar ∧ 0x80 ≤ cp ∧
    (cp < 0x800 ∧ bs = utf8Form 3 cp ∨ cp < 0x10000 ∧ bs = utf8Form 4 cp)

/-- A form that the decoder takes is the encoding, or too long. -/
theorem Utf8Length.size_or_overlong {len cp : Nat} (hlen : Utf8Length len cp)
    (hvalid : cp.isValidChar) :
    utf8Form len cp = hbiUtf8Encode cp ∨ IsOverlong (utf8Form len cp) := by
  rw [hbiUtf8Encode_eq hvalid]
  unfold utf8Size
  cases hlen with
  | one hlt => exact Or.inl (by rw [if_pos hlt])
  | two hge hlt => exact Or.inl (by rw [if_neg (by omega), if_pos hlt])
  | three hge hlt =>
      by_cases htwo : cp < 0x800
      · exact Or.inr ⟨cp, hvalid, hge, Or.inl ⟨htwo, rfl⟩⟩
      · exact Or.inl (by rw [if_neg (by omega), if_neg htwo, if_pos hlt])
  | four hge hlt =>
      by_cases hthree : cp < 0x10000
      · exact Or.inr ⟨cp, hvalid, hge, Or.inr ⟨hthree, rfl⟩⟩
      · exact Or.inl (by rw [if_neg (by omega), if_neg (by omega), if_neg hthree])

theorem hbiUtf8Decode_encode {cp : Nat} (hvalid : cp.isValidChar) (rest : List UInt8) :
    hbiUtf8Decode (hbiUtf8Encode cp ++ rest) = (utf8Size cp, cp) := by
  rw [hbiUtf8Encode_eq hvalid]
  exact hbiUtf8Decode_utf8Form (utf8Length_size hvalid) hvalid rest

/-- An overlong form is taken, with more bytes than the encoding of its value has. -/
theorem IsOverlong.decode {bs : List UInt8} (h : IsOverlong bs) (rest : List UInt8) :
    ∃ len cp, hbiUtf8Decode (bs ++ rest) = (len, cp) ∧ utf8Size cp < len := by
  obtain ⟨cp, hvalid, hge, ⟨hlt, rfl⟩ | ⟨hlt, rfl⟩⟩ := h
  · refine ⟨3, cp, hbiUtf8Decode_utf8Form (.three hge (by omega)) hvalid rest, ?_⟩
    unfold utf8Size
    rw [if_neg (by omega), if_pos hlt]
    omega
  · refine ⟨4, cp, hbiUtf8Decode_utf8Form (.four hge (by omega)) hvalid rest, ?_⟩
    unfold utf8Size
    rw [if_neg (by omega)]
    split
    · omega
    · omega

/-- The encodings of a list of scalar values. -/
def utf8EncodeAll (cps : List Nat) : List UInt8 := cps.flatMap hbiUtf8Encode

theorem utf8Form_length {len cp : Nat} (hlen : Utf8Length len cp) :
    (utf8Form len cp).length = len := by
  cases hlen <;> rfl

theorem hbiUtf8Encode_length {cp : Nat} (hvalid : cp.isValidChar) :
    (hbiUtf8Encode cp).length = utf8Size cp := by
  rw [hbiUtf8Encode_eq hvalid]
  exact utf8Form_length (utf8Length_size hvalid)

/-- One round of the two loops over a text that begins with something that is decoded. -/
theorem loops_append {bs rest : List UInt8} {cp : Nat} (hne : bs ≠ [])
    (hdecode : hbiUtf8Decode (bs ++ rest) = (bs.length, cp)) :
    hbiUtf8Validate (bs ++ rest) = hbiUtf8Validate rest ∧
      decodings (bs ++ rest) = (bs.length, cp) :: decodings rest := by
  obtain ⟨b, bs, rfl⟩ := List.exists_cons_of_ne_nil hne
  have hlen : (b :: bs).length ≠ 0 := by simp
  rw [List.cons_append] at hdecode ⊢
  rw [hbiUtf8Validate, decodings, hdecode]
  dsimp only
  rw [if_neg hlen, if_neg hlen, ← List.cons_append, List.drop_left]
  exact ⟨rfl, rfl⟩

theorem loops_encodeAll {cps : List Nat} (hcps : ∀ cp ∈ cps, cp.isValidChar)
    (rest : List UInt8) :
    hbiUtf8Validate (utf8EncodeAll cps ++ rest) = hbiUtf8Validate rest ∧
      decodings (utf8EncodeAll cps ++ rest) =
        (cps.map fun cp => ((hbiUtf8Encode cp).length, cp)) ++ decodings rest := by
  induction cps with
  | nil => exact ⟨rfl, rfl⟩
  | cons cp cps ih =>
      have hvalid := hcps cp (by simp)
      have hlength := hbiUtf8Encode_length hvalid
      have hne : hbiUtf8Encode cp ≠ [] :=
        List.ne_nil_of_length_pos (hlength ▸ utf8Size_pos cp)
      have hdecode := hbiUtf8Decode_encode hvalid (utf8EncodeAll cps ++ rest)
      rw [← hlength] at hdecode
      obtain ⟨hvalidate, hall⟩ := loops_append hne hdecode
      obtain ⟨hvalidate', hall'⟩ := ih fun cp hcp => hcps cp (List.mem_cons_of_mem _ hcp)
      unfold utf8EncodeAll at *
      rw [List.flatMap_cons, List.append_assoc]
      exact ⟨hvalidate.trans hvalidate', hall.trans (by rw [hall']; rfl)⟩

/-- No overlong form stands behind encodings of scalar values. -/
def NoOverlong (s : List UInt8) : Prop :=
  ∀ cps bs rest, (∀ cp ∈ cps, Nat.isValidChar cp) → s = utf8EncodeAll cps ++ (bs ++ rest) →
    ¬IsOverlong bs

/-- The three helpers agree on a text: it is valid exactly when it is the encoding of scalar
values, decoding gives these with the lengths of their encodings, and a rest that does not
begin with an encoding is refused. -/
structure Utf8Agrees (s : List UInt8) : Prop where
  validate : hbiUtf8Validate s = true ↔
    ∃ cps, (∀ cp ∈ cps, Nat.isValidChar cp) ∧ s = utf8EncodeAll cps
  decoded : ∀ cps, (∀ cp ∈ cps, Nat.isValidChar cp) → s = utf8EncodeAll cps →
    decodings s = cps.map fun cp => ((hbiUtf8Encode cp).length, cp)
  refused : ∀ cps rest, (∀ cp ∈ cps, Nat.isValidChar cp) → s = utf8EncodeAll cps ++ rest →
    (∀ cp, Nat.isValidChar cp → ¬hbiUtf8Encode cp <+: rest) → hbiUtf8Decode rest = (0, 0xFFFD)

theorem NoOverlong.tail {cp : Nat} {rest : List UInt8} (hvalid : cp.isValidChar)
    (h : NoOverlong (hbiUtf8Encode cp ++ rest)) : NoOverlong rest := by
  intro cps bs rest' hcps heq
  refine h (cp :: cps) bs rest' ?_ ?_
  · intro c hc
    rcases List.mem_cons.mp hc with rfl | hc
    · exact hvalid
    · exact hcps c hc
  · unfold utf8EncodeAll at *
    rw [List.flatMap_cons, List.append_assoc, heq]

/-- What is decoded in front of a text without overlong forms is an encoding. -/
theorem NoOverlong.decode {s : List UInt8} (h : NoOverlong s) {len cp : Nat}
    (hdecode : hbiUtf8Decode s = (len, cp)) (hlen : len ≠ 0) :
    cp.isValidChar ∧ ∃ rest, s = hbiUtf8Encode cp ++ rest := by
  obtain ⟨hlength, hvalid, rest, hrest⟩ := hbiUtf8Decode_form hdecode hlen
  rcases hlength.size_or_overlong hvalid with hencode | hover
  · exact ⟨hvalid, rest, hencode ▸ hrest.symm⟩
  · exact absurd hover (h [] _ rest (by simp) hrest.symm)

theorem encoded_of_validate {s : List UInt8} (hno : NoOverlong s)
    (hvalidate : hbiUtf8Validate s = true) :
    ∃ cps, (∀ cp ∈ cps, Nat.isValidChar cp) ∧ s = utf8EncodeAll cps := by
  induction hn : s.length using Nat.strong_induction_on generalizing s with
  | _ n ih =>
      cases s with
      | nil => exact ⟨[], by simp, rfl⟩
      | cons b bs =>
          rcases hdecode : hbiUtf8Decode (b :: bs) with ⟨len, cp⟩
          have hlen : len ≠ 0 := by
            rintro rfl
            rw [hbiUtf8Validate, hdecode] at hvalidate
            simp at hvalidate
          obtain ⟨hvalid, rest, hrest⟩ := hno.decode hdecode hlen
          rw [hrest] at hno hvalidate
          have hone : ∀ c ∈ [cp], Nat.isValidChar c := by simpa using hvalid
          have hloop := (loops_encodeAll hone rest).1
          rw [show utf8EncodeAll [cp] = hbiUtf8Encode cp by simp [utf8EncodeAll]] at hloop
          have hshorter : rest.length < n := by
            have hlength := congrArg List.length hrest
            have hpos := utf8Size_pos cp
            rw [List.length_append, hbiUtf8Encode_length hvalid] at hlength
            omega
          obtain ⟨cps, hcps, heq⟩ := ih rest.length hshorter (hno.tail hvalid)
            (hloop ▸ hvalidate) rfl
          refine ⟨cp :: cps, ?_, ?_⟩
          · intro c hc
            rcases List.mem_cons.mp hc with rfl | hc
            · exact hvalid
            · exact hcps c hc
          · rw [hrest, heq]
            rfl

/-- For every text: the validator, the decoder and the encoder agree on it exactly when no
overlong form of three or four bytes stands in it behind encodings of scalar values. -/
theorem hbi_utf8_agrees_iff (s : List UInt8) : Utf8Agrees s ↔ NoOverlong s := by
  constructor
  · intro h cps bs rest hcps heq hover
    obtain ⟨len, cp, hdecode, hlong⟩ := hover.decode rest
    have hnone : ∀ c, Nat.isValidChar c → ¬hbiUtf8Encode c <+: bs ++ rest := by
      rintro c hc ⟨rest', hrest'⟩
      have hdecode' := hbiUtf8Decode_encode hc rest'
      rw [hrest', hdecode] at hdecode'
      obtain ⟨rfl, rfl⟩ := Prod.mk.inj hdecode'
      exact absurd hlong (lt_irrefl _)
    have hrefused := h.refused cps (bs ++ rest) hcps heq hnone
    rw [hdecode] at hrefused
    have hzero := congrArg Prod.fst hrefused
    dsimp only at hzero
    omega
  · intro hno
    refine ⟨⟨encoded_of_validate hno, ?_⟩, ?_, ?_⟩
    · rintro ⟨cps, hcps, rfl⟩
      have hloop := (loops_encodeAll hcps []).1
      rwa [List.append_nil, hbiUtf8Validate] at hloop
    · rintro cps hcps rfl
      have hloop := (loops_encodeAll hcps []).2
      rwa [List.append_nil, decodings, List.append_nil] at hloop
    · intro cps rest hcps heq hnone
      by_cases hzero : (hbiUtf8Decode rest).1 = 0
      · exact hbiUtf8Decode_refused hzero
      · obtain ⟨hlength, hvalid, rest', hrest'⟩ := hbiUtf8Decode_form rfl hzero
        rcases hlength.size_or_overlong hvalid with hencode | hover
        · exact absurd ⟨rest', hencode ▸ hrest'⟩ (hnone _ hvalid)
        · exact absurd hover (hno cps _ rest' hcps (hrest'.symm ▸ heq))

/-- Three bytes for U+07FF, which has an encoding of two, are valid and decoded. -/
theorem hbi_utf8_overlong : ¬Utf8Agrees [0xE0, 0x9F, 0xBF] := by
  intro h
  refine absurd (h.refused [] [0xE0, 0x9F, 0xBF] (by simp) rfl ?_) (by decide)
  rintro cp hvalid ⟨rest, hrest⟩
  have hdecode := hbiUtf8Decode_encode hvalid rest
  have hread : hbiUtf8Decode [0xE0, 0x9F, 0xBF] = (3, 0x7FF) := by decide
  rw [hrest, hread] at hdecode
  obtain ⟨hsize, rfl⟩ := Prod.mk.inj hdecode
  exact absurd hsize (by decide)

end Hummingbird

import Hummingbird.Json.Access
import Hummingbird.Json.Strings

/-!
What the readers of a document see of a string literal. The content of a literal is the
sequence of its characters, by their code points; a reader gets a C string. Escapes and raw
characters with the same content decode to the same bytes, and of two contents the readers can
tell the parts in front of the first `U+0000`.
-/

namespace Hummingbird

/-- The code points of a piece. -/
inductive StringPiece.Denotes : StringPiece → List Nat → Prop
  | raw {cps : List Nat} (hvalid : ∀ cp ∈ cps, Nat.isValidChar cp) :
      Denotes (.raw (utf8EncodeAll cps)) cps
  | letter {e c : UInt8} : Denotes (.letter e c) [c.toNat]
  | unicode {ds : List UInt8} : Denotes (.unicode ds) [hexValue ds]
  | pair {high low : List UInt8} :
      Denotes (.pair high low) [surrogateValue (hexValue high) (hexValue low)]

/-- The content of a sequence of pieces. -/
inductive Contents : List StringPiece → List Nat → Prop
  | nil : Contents [] []
  | cons {x : StringPiece} {pieces : List StringPiece} {cps rest : List Nat}
      (hx : x.Denotes cps) (h : Contents pieces rest) : Contents (x :: pieces) (cps ++ rest)

theorem utf8EncodeAll_singleton (cp : Nat) : utf8EncodeAll [cp] = hbiUtf8Encode cp :=
  List.flatMap_singleton _ _

theorem letter_ascii {e c : UInt8} (h : (e, c) ∈ escapeLetters) : c.toNat < 0x80 := by
  have hall : ∀ x ∈ escapeLetters, x.2.toNat < 0x80 := forall_mem_of_all (by decide)
  exact hall _ h

/-- A legal piece stands for scalar values, and decodes to their encodings. -/
theorem StringPiece.Denotes.decoded_eq {x : StringPiece} {cps : List Nat} (h : x.Denotes cps)
    (hx : x.Legal) : (∀ cp ∈ cps, Nat.isValidChar cp) ∧ x.decoded = utf8EncodeAll cps := by
  cases h with
  | raw hvalid => exact ⟨hvalid, rfl⟩
  | @letter e c =>
      have hlt := letter_ascii hx
      refine ⟨?_, ?_⟩
      · intro cp hcp
        obtain rfl := List.mem_singleton.mp hcp
        unfold Nat.isValidChar
        omega
      · rw [utf8EncodeAll_singleton]
        unfold hbiUtf8Encode
        rw [if_neg (by omega), if_pos hlt, UInt8.ofNat_toNat]
        rfl
  | @unicode ds =>
      refine ⟨?_, ?_⟩
      · intro cp hcp
        obtain rfl := List.mem_singleton.mp hcp
        exact unicode_valid hx
      · simp only [StringPiece.decoded, utf8EncodeAll_singleton]
  | @pair high low =>
      obtain ⟨-, -, hhigh, hlow⟩ := hx
      have hvalid := (surrogateValue_valid hhigh hlow).2
      refine ⟨?_, ?_⟩
      · intro cp hcp
        rwa [List.mem_singleton.mp hcp]
      · simp only [StringPiece.decoded, utf8EncodeAll_singleton]

theorem Contents.decoded_eq {pieces : List StringPiece} {cps : List Nat} (h : Contents pieces cps)
    (hlegal : ∀ x ∈ pieces, x.Legal) :
    (∀ cp ∈ cps, Nat.isValidChar cp) ∧
      pieces.flatMap StringPiece.decoded = utf8EncodeAll cps := by
  induction h with
  | nil => exact ⟨by simp, rfl⟩
  | @cons x pieces cps rest hx _ ih =>
      obtain ⟨hvalid, hdecoded⟩ := hx.decoded_eq (hlegal x (by simp))
      obtain ⟨hvalid', hdecoded'⟩ := ih fun y hy => hlegal y (by simp [hy])
      refine ⟨?_, ?_⟩
      · intro cp hcp
        rcases List.mem_append.mp hcp with hcp | hcp
        · exact hvalid cp hcp
        · exact hvalid' cp hcp
      · rw [List.flatMap_cons, hdecoded, hdecoded', utf8EncodeAll, utf8EncodeAll, utf8EncodeAll,
          List.flatMap_append]

theorem utf8EncodeAll_injective {cps cps' : List Nat} (h : ∀ cp ∈ cps, Nat.isValidChar cp)
    (h' : ∀ cp ∈ cps', Nat.isValidChar cp) (heq : utf8EncodeAll cps = utf8EncodeAll cps') :
    cps = cps' := by
  have hdecode := (loops_encodeAll h []).2
  have hdecode' := (loops_encodeAll h' []).2
  rw [List.append_nil] at hdecode hdecode'
  rw [heq, hdecode'] at hdecode
  have hsnd := congrArg (List.map Prod.snd) (List.append_cancel_right hdecode)
  simpa [List.map_map, Function.comp_def] using hsnd.symm

theorem zero_ne_ofNat {n : Nat} (hpos : 0 < n) (hlt : n < 256) : (0 : UInt8) ≠ UInt8.ofNat n := by
  intro h
  have hval := congrArg UInt8.toNat h
  rw [UInt8.toNat_ofNat_of_lt' hlt] at hval
  exact hpos.ne hval

theorem zero_ne_utf8Tail (n : Nat) : (0 : UInt8) ≠ utf8Tail n := by
  have hlt := Nat.mod_lt n (show 0 < 64 by decide)
  exact zero_ne_ofNat (by omega) (by omega)

/-- A `NUL` is written for `U+0000` only. -/
theorem zero_mem_encode {cp : Nat} (hvalid : cp.isValidChar) :
    0 ∈ hbiUtf8Encode cp ↔ cp = 0 := by
  constructor
  · rw [hbiUtf8Encode_eq hvalid]
    intro h
    by_contra hne
    have hlen := utf8Length_size hvalid
    generalize utf8Size cp = len at *
    cases hlen with
    | one hlt =>
        simp only [utf8Form, List.mem_singleton] at h
        exact zero_ne_ofNat (by omega) (by omega) h
    | two hge hlt =>
        simp only [utf8Form, List.mem_cons, List.not_mem_nil, or_false] at h
        rcases h with h | h
        · exact zero_ne_ofNat (by omega) (by omega) h
        · exact zero_ne_utf8Tail _ h
    | three hge hlt =>
        simp only [utf8Form, List.mem_cons, List.not_mem_nil, or_false] at h
        rcases h with h | h | h
        · exact zero_ne_ofNat (by omega) (by omega) h
        · exact zero_ne_utf8Tail _ h
        · exact zero_ne_utf8Tail _ h
    | four hge hlt =>
        simp only [utf8Form, List.mem_cons, List.not_mem_nil, or_false] at h
        rcases h with h | h | h | h
        · exact zero_ne_ofNat (by omega) (by omega) h
        · exact zero_ne_utf8Tail _ h
        · exact zero_ne_utf8Tail _ h
        · exact zero_ne_utf8Tail _ h
  · rintro rfl
    decide

/-- What is in front of the first `U+0000`. -/
def visible (cps : List Nat) : List Nat := cps.takeWhile (· ≠ 0)

theorem cString_encodeAll {cps : List Nat} (h : ∀ cp ∈ cps, Nat.isValidChar cp) :
    cString (utf8EncodeAll cps) = utf8EncodeAll (visible cps) := by
  induction cps with
  | nil => rfl
  | cons cp cps ih =>
      have hrest := ih fun c hc => h c (by simp [hc])
      have hzero := zero_mem_encode (h cp (by simp))
      unfold utf8EncodeAll visible cString at *
      rw [List.flatMap_cons]
      by_cases hcp : cp = 0
      · subst hcp
        rfl
      · have hall : ∀ b ∈ hbiUtf8Encode cp, decide (b ≠ 0) = true := by
          intro b hb
          have hne : b ≠ 0 := fun hb0 => hcp (hzero.mp (hb0 ▸ hb))
          simpa using hne
        rw [List.takeWhile_append_of_pos hall, hrest,
          List.takeWhile_cons_of_pos (by simpa using hcp), List.flatMap_cons]

theorem visible_valid {cps : List Nat} (h : ∀ cp ∈ cps, Nat.isValidChar cp) :
    ∀ cp ∈ visible cps, Nat.isValidChar cp :=
  fun cp hcp => h cp (List.takeWhile_subset _ hcp)

/-- A literal with this content, wherever it stands and as a value or a key, is accepted with
these bytes. -/
def Decodes (out : List UInt8) (content : List Nat) : Prop :=
  ∃ (buf : List UInt8) (p q : JsonParser buf) (pieces : List StringPiece),
    parseStringRaw p = .ok (out, q) ∧ p.Reads (literal pieces) q ∧ (∀ x ∈ pieces, x.Legal) ∧
      Contents pieces content

/-- Whatever escapes it is written with, a content decodes to its encoding. -/
theorem Decodes.out_eq {out : List UInt8} {content : List Nat} (h : Decodes out content) :
    (∀ cp ∈ content, Nat.isValidChar cp) ∧ out = utf8EncodeAll content := by
  obtain ⟨buf, p, q, pieces, hparse, hread, hlegal, hcontents⟩ := h
  obtain ⟨hvalid, hdecoded⟩ := hcontents.decoded_eq hlegal
  obtain ⟨q', hparse', -⟩ := parseStringRaw_complete
    (isString_iff.mpr ⟨pieces, hlegal, rfl, rfl⟩) hread.rest_eq
  rw [hparse] at hparse'
  have hout := congrArg Prod.fst (Except.ok.inj hparse')
  exact ⟨hvalid, hout.trans hdecoded⟩

theorem decodes_literal (pieces : List StringPiece) {content : List Nat}
    (hlegal : ∀ x ∈ pieces, x.Legal) (h : Contents pieces content) :
    Decodes (pieces.flatMap StringPiece.decoded) content := by
  have hrest : (JsonParser.start (literal pieces)).rest = literal pieces ++ [] := by
    rw [List.append_nil]
    rfl
  obtain ⟨q, hparse, hread⟩ := parseStringRaw_complete
    (isString_iff.mpr ⟨pieces, hlegal, rfl, rfl⟩) hrest
  exact ⟨_, _, q, pieces, hparse, hread, hlegal, h⟩

/-- Two accepted literals are read as the same string exactly when their contents agree in front
of the first `U+0000`, and a key is only found in a member whose content is that key up to
there. -/
theorem json_strings_distinct_visible :
    (∀ out out' content content', Decodes out content → Decodes out' content' →
      (hbiJsonAsString (some (.string out)) = hbiJsonAsString (some (.string out')) ↔
        visible content = visible content')) ∧
    ∀ members key v, 0 ∉ key → hbiJsonObjectGet (some (.object members)) key = some v →
      ∃ m ∈ members, m.2 = v ∧
        ∀ content, Decodes m.1 content → utf8EncodeAll (visible content) = key := by
  constructor
  · intro out out' content content' h h'
    obtain ⟨hvalid, rfl⟩ := h.out_eq
    obtain ⟨hvalid', rfl⟩ := h'.out_eq
    simp only [hbiJsonAsString, Option.some.injEq, cString_encodeAll hvalid,
      cString_encodeAll hvalid']
    constructor
    · exact utf8EncodeAll_injective (visible_valid hvalid) (visible_valid hvalid')
    · intro heq
      rw [heq]
  · intro members key v hkey hget
    unfold hbiJsonObjectGet at hget
    dsimp only at hget
    obtain ⟨m, hfind, rfl⟩ := Option.map_eq_some_iff.mp hget
    refine ⟨m, List.mem_of_find?_eq_some hfind, rfl, ?_⟩
    intro content hcontent
    obtain ⟨hvalid, hout⟩ := hcontent.out_eq
    have hmatch : cString m.1 = cString key := by simpa using List.find?_some hfind
    rw [hout, cString_encodeAll hvalid, cString_of_notMem hkey] at hmatch
    exact hmatch

theorem decodes_short : Decodes [0x61] [0x61] := by
  refine decodes_literal [.raw [0x61]] ?_ ?_
  · intro x hx
    obtain rfl := List.mem_singleton.mp hx
    exact forall_mem_of_all (by decide)
  · exact .cons (@StringPiece.Denotes.raw [0x61] (forall_mem_of_all (by decide))) .nil

theorem decodes_null : Decodes [0x61, 0, 0x62] [0x61, 0, 0x62] := by
  refine decodes_literal [.raw [0x61], .unicode (bytes "0000"), .raw [0x62]] ?_ ?_
  · intro x hx
    simp only [List.mem_cons, List.not_mem_nil, or_false] at hx
    rcases hx with rfl | rfl | rfl
    · exact forall_mem_of_all (by decide)
    · exact ⟨⟨rfl, forall_mem_of_all (by decide)⟩, by decide⟩
    · exact forall_mem_of_all (by decide)
  · exact .cons (@StringPiece.Denotes.raw [0x61] (forall_mem_of_all (by decide))) (.cons .unicode
      (.cons (@StringPiece.Denotes.raw [0x62] (forall_mem_of_all (by decide))) .nil))

/-- `"a\u0000b"` is read as `"a"`, and shadows the key `"a"` behind it. -/
theorem json_strings_null_collide :
    Decodes [0x61, 0, 0x62] [0x61, 0, 0x62] ∧ Decodes [0x61] [0x61] ∧
      hbiJsonAsString (some (.string [0x61, 0, 0x62])) = hbiJsonAsString (some (.string [0x61])) ∧
      hbiJsonObjectGet (some (.object [([0x61, 0, 0x62], .boolean true), ([0x61], .boolean false)]))
        [0x61] = some (.boolean true) :=
  ⟨decodes_null, decodes_short, rfl, rfl⟩

theorem json_strings_distinct_visible_sample :
    (hbiJsonAsString (some (.string [0x61, 0, 0x62])) =
        hbiJsonAsString (some (.string [0x61])) ↔
      visible [0x61, 0, 0x62] = visible [0x61]) ∧
    ∃ m ∈ [(([0x61, 0, 0x62] : List UInt8), JsonValue.boolean true)], m.2 = .boolean true ∧
      ∀ content, Decodes m.1 content → utf8EncodeAll (visible content) = [0x61] :=
  ⟨json_strings_distinct_visible.1 _ _ _ _ decodes_null decodes_short,
    json_strings_distinct_visible.2 _ _ _ (by decide +kernel) rfl⟩

end Hummingbird

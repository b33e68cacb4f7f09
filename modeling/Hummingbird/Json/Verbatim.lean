import Hummingbird.Json.Access
import Hummingbird.Json.Strings

/-!
Texts that are put between quotes as they are, and the way of the parser through an object in
front of one of them. The parser gets such a text back exactly when no byte of it needs an
escape: decoding an escape falls behind the text, and what is behind never meets a quote again.
-/

namespace Hummingbird

variable {buf : List UInt8}

/-- No byte of the text needs an escape. -/
def Verbatim (s : List UInt8) : Prop := ∀ c ∈ s, 0x20 ≤ c ∧ c ≠ byte '"' ∧ c ≠ byte '\\'

theorem Verbatim.isString {s : List UInt8} (h : Verbatim s) :
    IsString (byte '"' :: (s ++ [byte '"'])) s := by
  refine isString_iff.mpr ⟨[.raw s], List.forall_mem_singleton.mpr h, ?_, ?_⟩
  · simp [literal, StringPiece.text]
  · simp [StringPiece.decoded]

/-- Its backslash included, an escape is written with more bytes than it stands for. -/
theorem IsEscape.length_le {e out : List UInt8} (h : IsEscape e out) : out.length ≤ e.length := by
  obtain ⟨x, hlegal, htext, rfl⟩ := h.piece
  have hraw : ∀ run, x ≠ .raw run := by
    rintro run rfl
    obtain rfl : run = byte '\\' :: e := htext
    exact absurd rfl (hlegal _ List.mem_cons_self).2.2
  have hlt := StringPiece.length_decoded_lt hlegal hraw
  rw [htext, List.length_cons] at hlt
  exact Nat.lt_succ_iff.mp hlt

theorem IsHex4.quote_notMem {ds : List UInt8} (h : IsHex4 ds) : byte '"' ∉ ds := by
  intro hmem
  exact absurd (h.digits _ hmem) (by decide)

/-- A quote behind a backslash stands for itself. -/
theorem IsEscape.quote {e out : List UInt8} (h : IsEscape e out) (hquote : byte '"' ∈ e) :
    e = [byte '"'] ∧ out = [byte '"'] := by
  cases h with
  | @letter e c hc =>
      obtain rfl := List.mem_singleton.mp hquote
      obtain rfl : byte '"' = c := Option.some.inj hc
      exact ⟨rfl, rfl⟩
  | @unicode ds hds hhigh hlow =>
      rcases List.mem_cons.mp hquote with hu | hmem
      · exact absurd hu (by decide)
      · exact absurd hmem hds.quote_notMem
  | @pair hi lo hhi hlo hhigh hlow =>
      rcases List.mem_cons.mp hquote with hu | hmem
      · exact absurd hu (by decide)
      rcases List.mem_append.mp hmem with hmem | hmem
      · exact absurd hmem hhi.quote_notMem
      rcases List.mem_cons.mp hmem with hslash | hmem
      · exact absurd hslash (by decide)
      rcases List.mem_cons.mp hmem with hu | hmem
      · exact absurd hu (by decide)
      · exact absurd hmem hlo.quote_notMem

/-- A mark that is not in the first part is behind it. -/
theorem split_before {x : UInt8} {e a s t : List UInt8} (hx : x ∉ e)
    (h : e ++ a = s ++ x :: t) : ∃ s', s = e ++ s' ∧ a = s' ++ x :: t := by
  rcases List.append_eq_append_iff.mp h with ⟨s', hs, ha⟩ | ⟨s', he, ha⟩
  · exact ⟨s', hs, ha⟩
  · cases s' with
    | nil => exact ⟨[], by simpa using he.symm, by simpa using ha.symm⟩
    | cons d s' =>
        obtain ⟨rfl, -⟩ := List.cons.inj ha
        exact absurd (he ▸ List.mem_append_right _ List.mem_cons_self) hx

/-- What a shorter beginning leaves of a longer one. -/
theorem split_shorter {long short s out : List UInt8} (h : long ++ s <+: short ++ out)
    (hlt : short.length < long.length) :
    ∃ left, long = short ++ left ∧ left ≠ [] ∧ left ++ s <+: out := by
  obtain ⟨left, hleft⟩ := List.prefix_of_prefix_length_le (List.prefix_append short out)
    ((List.prefix_append long s).trans h) hlt.le
  refine ⟨left, hleft.symm, ?_, ?_⟩
  · rintro rfl
    rw [← hleft, List.append_nil] at hlt
    exact lt_irrefl _ hlt
  · rwa [← hleft, List.append_assoc, List.prefix_append_right_inj] at h

/-- A text in front of a quote is only read back when it is verbatim. `lag` is the part of it
that the decoded bytes are behind. -/
theorem IsStringBody.verbatim {body out : List UInt8} (h : IsStringBody body out)
    {lag s t u : List UInt8} (htext : body ++ byte '"' :: u = s ++ byte '"' :: t)
    (hlag : byte '"' ∉ lag) (hread : lag ++ s <+: out) : lag = [] ∧ Verbatim s := by
  induction h generalizing lag s with
  | nil =>
      obtain ⟨rfl, rfl⟩ := List.append_eq_nil_iff.mp (List.prefix_nil.mp hread)
      exact ⟨rfl, fun c hc => absurd hc List.not_mem_nil⟩
  | @raw c body out hquote hslash hctrl _ ih =>
      cases s with
      | nil => exact absurd (List.cons.inj htext).1 hquote
      | cons d s =>
          obtain ⟨rfl, htail⟩ := List.cons.inj htext
          cases lag with
          | nil =>
              have hs := (ih htail hlag (List.cons_prefix_cons.mp hread).2).2
              exact ⟨rfl, List.forall_mem_cons.mpr ⟨⟨UInt8.not_lt.mp hctrl, hquote, hslash⟩, hs⟩⟩
          | cons l lag =>
              have hbehind : (lag ++ [c]) ++ s <+: out := by
                simpa using (List.cons_prefix_cons.mp hread).2
              have hlag' : byte '"' ∉ lag ++ [c] := by
                simp only [List.mem_append, List.mem_singleton, not_or]
                exact ⟨fun hmem => hlag (List.mem_cons_of_mem _ hmem), hquote.symm⟩
              exact absurd (ih htail hlag' hbehind).1 (by simp)
  | @escape e decoded body out he _ ih =>
      cases s with
      | nil => exact absurd (List.cons.inj htext).1 (by decide)
      | cons d s =>
          obtain ⟨rfl, htail⟩ := List.cons.inj htext
          by_cases hquote : byte '"' ∈ e
          · -- the next byte read back would be this quote
            obtain ⟨rfl, rfl⟩ := he.quote hquote
            cases lag with
            | nil => exact absurd (List.cons_prefix_cons.mp hread).1 (by decide)
            | cons l lag =>
                obtain ⟨rfl, -⟩ := List.cons_prefix_cons.mp hread
                exact absurd List.mem_cons_self hlag
          · obtain ⟨s, rfl, hrest⟩ := split_before hquote
              (show e ++ (body ++ byte '"' :: u) = s ++ byte '"' :: t by simpa using htail)
            rw [show lag ++ byte '\\' :: (e ++ s) = (lag ++ byte '\\' :: e) ++ s by simp] at hread
            obtain ⟨lag', hlag', hne, hread⟩ := split_shorter hread (by
              have hshort := he.length_le
              simp only [List.length_append, List.length_cons]
              omega)
            have hquote' : byte '"' ∉ lag ++ byte '\\' :: e := by
              rw [List.mem_append, List.mem_cons, not_or, not_or]
              exact ⟨hlag, by decide, hquote⟩
            rw [hlag'] at hquote'
            exact absurd (ih hrest (fun h => hquote' (List.mem_append_right _ h)) hread).1 hne

/-- The scanner only hands out a text between quotes when it is verbatim. -/
theorem parseStringRaw_verbatim {p q : JsonParser buf} {s t out : List UInt8}
    (h : parseStringRaw p = .ok (out, q)) (hrest : p.rest = byte '"' :: (s ++ byte '"' :: t))
    (hread : cString out = s) : Verbatim s := by
  obtain ⟨text, hstring, hreads⟩ := parseStringRaw_sound h
  cases hstring with
  | @mk body out hbody =>
      have htext := hreads.rest_eq
      rw [hrest, List.cons_append, List.append_assoc, List.singleton_append] at htext
      have hprefix : [] ++ s <+: out := by
        rw [List.nil_append, ← hread]
        exact List.takeWhile_prefix _
      exact (hbody.verbatim (List.cons.inj htext).2.symm List.not_mem_nil hprefix).2

/-! Objects that are written member by member. -/

/-- A text between quotes. -/
def quoted (s : List UInt8) : List UInt8 := byte '"' :: (s ++ [byte '"'])

/-- A member with this key and the text of its value. -/
def memberText (key value : List UInt8) : List UInt8 := quoted key ++ byte ':' :: value

/-- Texts with commas between them. -/
def commaJoin : List (List UInt8) → List UInt8
  | [] => []
  | s :: texts => s ++ texts.flatMap (byte ',' :: ·)

/-- An object with these members. -/
def braced (texts : List (List UInt8)) : List UInt8 :=
  byte '\x7b' :: (commaJoin texts ++ [byte '\x7d'])

theorem quoted_append (s t : List UInt8) :
    quoted s ++ t = byte '"' :: (s ++ byte '"' :: t) := by
  simp [quoted]

theorem braced_append (texts : List (List UInt8)) (t : List UInt8) :
    braced texts ++ t = byte '\x7b' :: (commaJoin texts ++ byte '\x7d' :: t) := by
  simp [braced]

/-- A row of members starts with the key of the first and the text of its value. -/
theorem commaJoin_memberText (key value t : List UInt8) (texts : List (List UInt8)) :
    commaJoin (memberText key value :: texts) ++ t =
      quoted key ++ byte ':' :: (value ++ (texts.flatMap (byte ',' :: ·) ++ t)) := by
  simp [commaJoin, memberText]

theorem commaJoin_cons_cons (s s' : List UInt8) (texts : List (List UInt8)) :
    commaJoin (s :: s' :: texts) = s ++ byte ',' :: commaJoin (s' :: texts) := rfl

theorem isMember_text {key value : List UInt8} {v : JsonValue} (hkey : Verbatim key)
    (hv : IsValue value v) : IsMember (memberText key value) (key, v) := by
  simpa [memberText, quoted] using
    IsMember.mk Whitespace.nil hkey.isString Whitespace.nil Whitespace.nil hv

theorem isMembers_commaJoin {texts : List (List UInt8)} {members : List (List UInt8 × JsonValue)}
    (h : List.Forall₂ IsMember texts members) (hne : texts ≠ []) :
    IsMembers (commaJoin texts) members := by
  induction h with
  | nil => exact absurd rfl hne
  | @cons s m texts members hm htail ih =>
      cases htail with
      | nil => simpa [commaJoin] using IsMembers.one hm Whitespace.nil
      | @cons s' m' texts members hm' htail =>
          rw [commaJoin_cons_cons]
          simpa using IsMembers.more hm Whitespace.nil (ih (List.cons_ne_nil _ _))

theorem isValue_braced {texts : List (List UInt8)} {members : List (List UInt8 × JsonValue)}
    (h : List.Forall₂ IsMember texts members) (hne : texts ≠ []) :
    IsValue (braced texts) (.object members) :=
  .object (isMembers_commaJoin h hne)

/-! The parser in front of an object whose members are only partly known. -/

/-- The loop over members runs to its end from here, with these members in the result. -/
def ObjectRun (value : ValueParser buf) (p : JsonParser buf)
    (acc members : List (List UInt8 × JsonValue)) : Prop :=
  ∃ fuel q, parseObjectLoop value fuel p acc = some (.ok (.object members, q))

namespace ObjectRun

variable {value : ValueParser buf} {p : JsonParser buf}
  {acc members : List (List UInt8 × JsonValue)}

/-- It goes on behind a member that is known. -/
theorem known {s t : List UInt8} {m : List UInt8 × JsonValue} {depth : Nat}
    (h : ObjectRun value p acc members) (hvalue : value.Complete depth) (hd : p.depth = depth)
    (hm : IsMember s m) (hnest : depth + m.2.nesting < hbiJsonMaxDepth)
    (hrest : p.rest = s ++ byte ',' :: t) :
    ∃ q, ObjectRun value q (acc ++ [m]) members ∧ q.depth = depth ∧ q.rest = t := by
  obtain ⟨fuel, r, hloop⟩ := h
  obtain ⟨q, hstep, hread⟩ := @parseObjectLoop_member _ _ _ hvalue _ acc _ _ _ _ hd hm
    Whitespace.nil hnest hrest
  cases fuel with
  | zero => cases hloop
  | succ fuel =>
      rw [hstep] at hloop
      exact ⟨q, ⟨fuel, r, hloop⟩, hread.depth_eq.trans hd, hread.rest_of_eq (by simpa using hrest)⟩

/-- It goes on behind a row of members that are known. -/
theorem walk {known texts : List (List UInt8)} {s t : List UInt8}
    {ms : List (List UInt8 × JsonValue)} {depth : Nat} (hknown : List.Forall₂ IsMember known ms)
    (hvalue : value.Complete depth) (hnest : ∀ m ∈ ms, depth + m.2.nesting < hbiJsonMaxDepth)
    (h : ObjectRun value p acc members) (hd : p.depth = depth)
    (hrest : p.rest = commaJoin (known ++ s :: texts) ++ t) :
    ∃ q, ObjectRun value q (acc ++ ms) members ∧ q.depth = depth ∧
      q.rest = commaJoin (s :: texts) ++ t := by
  induction hknown generalizing p acc with
  | nil => exact ⟨p, by simpa using h, hd, hrest⟩
  | @cons k m known ms hm _ ih =>
      have hsplit : p.rest = k ++ byte ',' :: (commaJoin (known ++ s :: texts) ++ t) := by
        rw [hrest]
        cases known <;> simp [commaJoin]
      obtain ⟨q, hq, hdq, hrestq⟩ := h.known hvalue hd hm (hnest m List.mem_cons_self) hsplit
      obtain ⟨r, hr, hdr, hrestr⟩ :=
        ih (fun m' hm' => hnest m' (List.mem_cons_of_mem _ hm')) hq hdq hrestq
      exact ⟨r, by simpa using hr, hdr, hrestr⟩

/-- The members that are read come first. -/
theorem acc_first (h : ObjectRun value p acc members) : acc <+: members := by
  obtain ⟨fuel, q, hloop⟩ := h
  induction fuel generalizing p acc with
  | zero => cases hloop
  | succ fuel ih =>
      unfold parseObjectLoop at hloop
      split at hloop
      · cases hloop
      · cases hloop
      · rename_i m r _
        dsimp only at hloop
        split at hloop
        · exact (List.prefix_append acc [m]).trans (ih hloop)
        · split at hloop
          · cases hloop
            exact List.prefix_append acc [m]
          · cases hloop

/-- What comes next is a member. -/
theorem next (h : ObjectRun value p acc members) :
    ∃ m q, parseMember value p = some (.ok (m, q)) ∧ acc ++ [m] <+: members := by
  obtain ⟨fuel, r, hloop⟩ := h
  cases fuel with
  | zero => cases hloop
  | succ fuel =>
      unfold parseObjectLoop at hloop
      split at hloop
      · cases hloop
      · cases hloop
      · rename_i m q hmember
        refine ⟨m, q, hmember, ?_⟩
        dsimp only at hloop
        split at hloop
        · exact acc_first ⟨fuel, r, hloop⟩
        · split at hloop
          · cases hloop
            exact List.prefix_rfl
          · cases hloop

end ObjectRun

/-- Members with other keys are passed over. -/
theorem find?_other {front : List (List UInt8 × JsonValue)} {key : List UInt8}
    (hfront : ∀ k ∈ front.map Prod.fst, cString k ≠ cString key) :
    front.find? (fun x => cString x.1 = cString key) = none := by
  rw [List.find?_eq_none]
  intro x hx
  simpa using hfront x.1 (List.mem_map_of_mem hx)

theorem hbiJsonObjectGet_append {front rest : List (List UInt8 × JsonValue)}
    {m : List UInt8 × JsonValue} {key : List UInt8}
    (hfront : ∀ k ∈ front.map Prod.fst, cString k ≠ cString key) (hm : cString m.1 = cString key) :
    hbiJsonObjectGet (some (.object (front ++ m :: rest))) key = some m.2 := by
  unfold hbiJsonObjectGet
  dsimp only
  rw [List.find?_append, find?_other hfront, Option.none_or,
    List.find?_cons_of_pos (by simpa using hm), Option.map_some]

theorem hbiJsonObjectGet_none {members : List (List UInt8 × JsonValue)} {key : List UInt8}
    (h : ∀ k ∈ members.map Prod.fst, cString k ≠ cString key) :
    hbiJsonObjectGet (some (.object members)) key = none := by
  unfold hbiJsonObjectGet
  dsimp only
  rw [find?_other h, Option.map_none]

/-- The key of a member is scanned where the member begins. -/
theorem parseMember_key {value : ValueParser buf} {p q : JsonParser buf}
    {m : List UInt8 × JsonValue} {t : List UInt8} (h : parseMember value p = some (.ok (m, q)))
    (hrest : p.rest = byte '"' :: t) :
    ∃ p' r : JsonParser buf, p'.rest = byte '"' :: t ∧ parseStringRaw p' = .ok (m.1, r) := by
  have hskip := (@JsonParser.skipWs_of_rest _ p [] t _ Whitespace.nil (by decide) hrest).2
  unfold parseMember at h
  split at h
  · cases h
  · rename_i key r hkey
    dsimp only at h
    split at h
    · split at h
      · cases h
      · cases h
      · cases h
        exact ⟨_, r, hskip, hkey⟩
    · cases h

/-- Behind a key that is known the value is scanned. -/
theorem parseMember_value {value : ValueParser buf} {p q : JsonParser buf}
    {m : List UInt8 × JsonValue} {k key t : List UInt8} {c : UInt8}
    (h : parseMember value p = some (.ok (m, q))) (hk : IsString k key) (hc : isWs c = false)
    (hrest : p.rest = k ++ byte ':' :: c :: t) :
    m.1 = key ∧ ∃ p' : JsonParser buf, p'.rest = c :: t ∧ p'.depth = p.depth ∧
      value p' = some (.ok (m.2, q)) := by
  obtain ⟨u, hu⟩ := hk.starts
  obtain ⟨hreads, hskip⟩ := @JsonParser.skipWs_of_rest _ p [] (u ++ byte ':' :: c :: t)
    (byte '"') Whitespace.nil (by decide) (by rw [hrest, hu]; rfl)
  obtain ⟨r, hkey, hread⟩ := parseStringRaw_complete hk
    (show (skipWs p).rest = k ++ byte ':' :: c :: t by rw [hskip, hu]; rfl)
  obtain ⟨hreads', hskip'⟩ := @JsonParser.skipWs_of_rest _ r [] (c :: t) (byte ':')
    Whitespace.nil (by decide) (hread.rest_of_eq (by rw [hskip, hu]; rfl))
  have hpeek := JsonParser.peek_of_rest hskip'
  have hcolon := JsonParser.peek_reads hpeek (JsonParser.getD_of_rest hskip').1
  obtain ⟨hreads'', hskip''⟩ := @JsonParser.skipWs_of_rest _ _ [] t c Whitespace.nil hc
    (hcolon.rest_of_eq hskip')
  unfold parseMember at h
  rw [hkey] at h
  dsimp only at h
  rw [dif_pos hpeek] at h
  split at h
  · cases h
  · cases h
  · rename_i v r' hvalue
    cases h
    exact ⟨rfl, _, hskip'', (hreads.trans (hread.trans (hreads'.trans
      (hcolon.trans hreads'')))).depth_eq, hvalue⟩

theorem parseObjectLoop_object {value : ValueParser buf} {fuel : Nat} {p q : JsonParser buf}
    {acc : List (List UInt8 × JsonValue)} {v : JsonValue}
    (h : parseObjectLoop value fuel p acc = some (.ok (v, q))) :
    ∃ members, v = .object members := by
  induction fuel generalizing p acc with
  | zero => cases h
  | succ fuel ih =>
      unfold parseObjectLoop at h
      split at h
      · cases h
      · cases h
      · dsimp only at h
        split at h
        · exact ih h
        · split at h
          · cases h
            exact ⟨_, rfl⟩
          · cases h

theorem leave_ok {r : Option (ParseResult buf JsonValue)} {v : JsonValue} {q : JsonParser buf}
    (h : leave r = some (.ok (v, q))) : ∃ q', r = some (.ok (v, q')) := by
  unfold leave at h
  split at h
  · cases h
    exact ⟨_, rfl⟩
  · exact ⟨q, h⟩

/-- A value without white space in front is what the switch over its first byte returns. -/
theorem parseValue_switch {fuel : Nat} {p q : JsonParser buf} {v : JsonValue} {c : UInt8}
    {t : List UInt8} (h : parseValue fuel p = some (.ok (v, q))) (hc : isWs c = false)
    (hrest : p.rest = c :: t) :
    ∃ (n : Nat) (p' : JsonParser buf) (hroom : p'.pos + 1 ≤ buf.length), fuel = n + 1 ∧
      p'.rest = c :: t ∧ p'.depth = p.depth ∧
      parseSwitch (parseValue n) p' hroom = some (.ok (v, q)) := by
  obtain ⟨hreads, hskip⟩ := @JsonParser.skipWs_of_rest _ p [] t c Whitespace.nil hc hrest
  cases fuel with
  | zero => cases h
  | succ n =>
      unfold parseValue at h
      dsimp only at h
      split at h
      · cases h
      · split at h
        · rename_i hroom
          exact ⟨n, skipWs p, hroom, rfl, hskip, hreads.depth_eq, h⟩
        · cases h

/-- A value that begins with a quote is a string literal. -/
theorem parseValue_quote {fuel : Nat} {p q : JsonParser buf} {v : JsonValue} {t : List UInt8}
    (h : parseValue fuel p = some (.ok (v, q))) (hrest : p.rest = byte '"' :: t) :
    ∃ (p' : JsonParser buf) (s : List UInt8), p'.rest = byte '"' :: t ∧
      parseStringRaw p' = .ok (s, q) ∧ v = .string s := by
  obtain ⟨n, p', hroom, -, hrest', -, hswitch⟩ := parseValue_switch h (by decide) hrest
  unfold parseSwitch at hswitch
  rw [JsonParser.peek_of_rest hrest', if_neg (by decide), if_neg (by decide), if_pos rfl]
    at hswitch
  split at hswitch
  · cases hswitch
  · rename_i s r hparse
    cases hswitch
    exact ⟨p', s, hrest', hparse, rfl⟩

/-- A value that begins with a brace and a quote is an object with members. -/
theorem parseValue_brace {fuel : Nat} {p q : JsonParser buf} {v : JsonValue} {t : List UInt8}
    (h : parseValue fuel p = some (.ok (v, q)))
    (hrest : p.rest = byte '\x7b' :: byte '"' :: t) :
    ∃ (n : Nat) (p' : JsonParser buf) (members : List (List UInt8 × JsonValue)), fuel = n + 1 ∧
      p'.rest = byte '"' :: t ∧ p'.depth = p.depth + 1 ∧ v = .object members ∧
      ObjectRun (parseValue n) p' [] members := by
  obtain ⟨n, p', hroom, hfuel, hrest', hdepth, hswitch⟩ := parseValue_switch h (by decide) hrest
  have hread := JsonParser.peek_reads (p := p'.enter) (JsonParser.peek_of_rest hrest') hroom
  obtain ⟨hreads, hskip⟩ := @JsonParser.skipWs_of_rest _ _ [] t (byte '"') Whitespace.nil
    (by decide) (hread.rest_of_eq hrest')
  unfold parseSwitch at hswitch
  rw [JsonParser.peek_of_rest hrest', if_pos rfl] at hswitch
  unfold parseObject at hswitch
  dsimp only at hswitch
  rw [dif_neg (by rw [JsonParser.peek_of_rest hskip]; decide)] at hswitch
  obtain ⟨r, hloop⟩ := leave_ok hswitch
  obtain ⟨members, rfl⟩ := parseObjectLoop_object hloop
  exact ⟨n, _, members, hfuel, hskip, hreads.depth_eq.trans (congrArg (· + 1) hdepth), rfl, _, r,
    hloop⟩

end Hummingbird

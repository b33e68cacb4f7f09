import Hummingbird.Json.Sound

/-!
The other direction, and the theorem about whole texts. A text of the grammar leaves
the parser no choice: the byte behind the white space picks the branch, and a number
ends where the grammar says because nothing that may follow a value belongs to one.
-/

namespace Hummingbird

variable {buf : List UInt8}

theorem Whitespace.endsNumber {w : List UInt8} (hw : Whitespace w) : EndsNumber w := by
  intro c hc
  by_contra hnum
  have hws := hw c (List.mem_of_mem_head? hc)
  rw [isWs_of_isNumberByte (by simpa using hnum)] at hws
  exact absurd hws (by decide)

theorem Whitespace.endsNumber_append {w t : List UInt8} {c : UInt8} (hw : Whitespace w)
    (hc : isNumberByte c = false) : EndsNumber (w ++ c :: t) := by
  cases w with
  | nil =>
      intro c' hc'
      obtain rfl : c = c' := by simpa using hc'
      exact hc
  | cons a w =>
      intro c' hc'
      exact hw.endsNumber c' (by simpa using hc')

/-- Items begin at the first byte of their first value. -/
theorem IsItems.split {s : List UInt8} {items : List JsonValue} (h : IsItems s items) :
    ∃ w c u, s = w ++ c :: u ∧ Whitespace w ∧ isWs c = false ∧ c ≠ byte ']' ∧
      IsItems (c :: u) items := by
  cases h with
  | @one w s w' v hw hv hw' =>
      obtain ⟨c, u, rfl, hc, hne⟩ := hv.starts
      refine ⟨w, c, u ++ w', by simp, hw, hc, hne, ?_⟩
      simpa using IsItems.one Whitespace.nil hv hw'
  | @more w s w' s' v items hw hv hw' hrest =>
      obtain ⟨c, u, rfl, hc, hne⟩ := hv.starts
      refine ⟨w, c, u ++ w' ++ byte ',' :: s', by simp, hw, hc, hne, ?_⟩
      simpa using IsItems.more Whitespace.nil hv hw' hrest

theorem IsMember.split {s : List UInt8} {m : List UInt8 × JsonValue} (h : IsMember s m) :
    ∃ w u, s = w ++ byte '"' :: u ∧ Whitespace w ∧ IsMember (byte '"' :: u) m := by
  cases h with
  | @mk w k key w' w'' s v hw hk hw' hw'' hv =>
      obtain ⟨u, rfl⟩ := hk.starts
      refine ⟨w, u ++ w' ++ byte ':' :: (w'' ++ s), by simp, hw, ?_⟩
      simpa using IsMember.mk Whitespace.nil hk hw' hw'' hv

/-- Members begin at the quote of their first key. -/
theorem IsMembers.split {s : List UInt8} {members : List (List UInt8 × JsonValue)}
    (h : IsMembers s members) :
    ∃ w u, s = w ++ byte '"' :: u ∧ Whitespace w ∧ IsMembers (byte '"' :: u) members := by
  cases h with
  | @one s w' m hm hw' =>
      obtain ⟨w, u, rfl, hw, hm'⟩ := hm.split
      exact ⟨w, u ++ w', by simp, hw, .one hm' hw'⟩
  | @more s w' s' m members hm hw' hrest =>
      obtain ⟨w, u, rfl, hw, hm'⟩ := hm.split
      exact ⟨w, u ++ w' ++ byte ',' :: s', by simp, hw, .more hm' hw' hrest⟩

theorem parseArrayLoop_complete {value : ValueParser buf} {depth : Nat}
    (hvalue : value.Complete depth) {fuel : Nat} {p : JsonParser buf} {acc : List JsonValue}
    {s t : List UInt8} {items : List JsonValue} (hd : p.depth = depth) (hitems : IsItems s items)
    (hnest : depth + nestingItems items ≤ hbiJsonMaxDepth) (hfuel : buf.length < p.pos + fuel)
    (h : p.rest = s ++ byte ']' :: t) :
    ∃ q, parseArrayLoop value fuel p acc = some (.ok (.array (acc ++ items), q)) ∧
      p.Reads (s ++ [byte ']']) q := by
  induction fuel generalizing p acc s items with
  | zero =>
      have hpos := p.pos_le
      omega
  | succ fuel ih =>
      cases hitems with
      | @one w s w' v hw hv hw' =>
          have hrest : p.rest = w ++ s ++ (w' ++ byte ']' :: t) := by
            simpa using h
          obtain ⟨q, hparse, hread⟩ := hvalue p w s v _ hd hw hv
            (by simp only [nestingItems] at hnest; omega) hrest
            (hw'.endsNumber_append (by decide))
          obtain ⟨hskip, hbehind⟩ :=
            JsonParser.skipWs_of_rest hw' (by decide) (hread.rest_of_eq hrest)
          have hpeek := JsonParser.peek_of_rest hbehind
          have hroom := (JsonParser.getD_of_rest hbehind).1
          have hfull := hread.trans (hskip.trans (JsonParser.peek_reads hpeek hroom))
          refine ⟨_, ?_, by simpa using hfull⟩
          rw [parseArrayLoop, hparse]
          dsimp only
          rw [dif_neg (by rw [hpeek]; decide), dif_pos hpeek]
      | @more w s w' s' v items hw hv hw' hmore =>
          have hrest : p.rest = w ++ s ++ (w' ++ byte ',' :: (s' ++ byte ']' :: t)) := by
            simpa using h
          rw [nestingItems] at hnest
          obtain ⟨q, hparse, hread⟩ := hvalue p w s v _ hd hw hv (by omega) hrest
            (hw'.endsNumber_append (by decide))
          obtain ⟨hskip, hbehind⟩ :=
            JsonParser.skipWs_of_rest hw' (by decide) (hread.rest_of_eq hrest)
          have hpeek := JsonParser.peek_of_rest hbehind
          have hroom := (JsonParser.getD_of_rest hbehind).1
          have hcomma := JsonParser.peek_reads hpeek hroom
          obtain ⟨u, c, s'', rfl, hu, hc, _, hitems⟩ := hmore.split
          have hafter : ((skipWs q).advance 1 hroom).rest = u ++ c :: (s'' ++ byte ']' :: t) := by
            simpa using hcomma.rest_of_eq hbehind
          obtain ⟨hskip', hbehind'⟩ := JsonParser.skipWs_of_rest hu hc hafter
          have hbefore := hread.trans (hskip.trans (hcomma.trans hskip'))
          have hpos := hbefore.pos_eq
          simp only [List.length_append, List.length_cons] at hpos
          obtain ⟨r, hloop, hread'⟩ := @ih (skipWs ((skipWs q).advance 1 hroom)) (acc ++ [v]) _ _
            (hbefore.depth_eq.trans hd) hitems (by omega) (by omega) hbehind'
          refine ⟨r, ?_, by simpa using hbefore.trans hread'⟩
          rw [parseArrayLoop, hparse]
          dsimp only
          rw [dif_pos hpeek, hloop]
          simp

theorem parseArray_empty (value : ValueParser buf) {p : JsonParser buf} {w t : List UInt8}
    (hroom : p.pos + 1 ≤ buf.length) (hw : Whitespace w)
    (h : p.rest = byte '[' :: (w ++ byte ']' :: t)) :
    ∃ q, parseArray value p hroom = some (.ok (.array [], q)) ∧
      p.Reads (byte '[' :: (w ++ [byte ']'])) q := by
  have hfirst := JsonParser.peek_reads (JsonParser.peek_of_rest h) hroom
  obtain ⟨hskip, hrest⟩ := JsonParser.skipWs_of_rest hw (by decide) (hfirst.rest_of_eq h)
  have hpeek := JsonParser.peek_of_rest hrest
  have hlast := JsonParser.peek_reads hpeek (JsonParser.getD_of_rest hrest).1
  refine ⟨_, ?_, hfirst.trans (hskip.trans hlast)⟩
  unfold parseArray
  dsimp only
  rw [dif_pos hpeek]

theorem parseArray_complete {value : ValueParser buf} {depth : Nat}
    (hvalue : value.Complete depth) {p : JsonParser buf} {s t : List UInt8}
    {items : List JsonValue} (hroom : p.pos + 1 ≤ buf.length) (hd : p.depth = depth)
    (hitems : IsItems s items) (hnest : depth + nestingItems items ≤ hbiJsonMaxDepth)
    (h : p.rest = byte '[' :: (s ++ byte ']' :: t)) :
    ∃ q, parseArray value p hroom = some (.ok (.array items, q)) ∧
      p.Reads (byte '[' :: (s ++ [byte ']'])) q := by
  have hfirst := JsonParser.peek_reads (JsonParser.peek_of_rest h) hroom
  obtain ⟨w, c, u, rfl, hw, hc, hne, hitems'⟩ := hitems.split
  have hbehind : (p.advance 1 hroom).rest = w ++ c :: (u ++ byte ']' :: t) := by
    simpa using hfirst.rest_of_eq h
  obtain ⟨hskip, hrest⟩ := JsonParser.skipWs_of_rest hw hc hbehind
  have hpeek := JsonParser.peek_of_rest hrest
  have hbefore := hfirst.trans hskip
  obtain ⟨q, hloop, hread⟩ := @parseArrayLoop_complete _ _ _ hvalue (buf.length + 1) _ [] _ _ _
    (hbefore.depth_eq.trans hd) hitems' hnest (by omega) hrest
  refine ⟨q, ?_, by simpa using hbefore.trans hread⟩
  unfold parseArray
  dsimp only
  rw [dif_neg (by rw [hpeek]; exact hne), hloop, List.nil_append]

theorem parseMember_complete {value : ValueParser buf} {depth : Nat}
    (hvalue : value.Complete depth) {p : JsonParser buf} {s t : List UInt8}
    {m : List UInt8 × JsonValue} (hd : p.depth = depth) (hm : IsMember s m)
    (hnest : depth + m.2.nesting < hbiJsonMaxDepth) (ht : EndsNumber t) (h : p.rest = s ++ t) :
    ∃ q, parseMember value p = some (.ok (m, q)) ∧ p.Reads s q := by
  cases hm with
  | @mk w k key w' w'' s v hw hk hw' hw'' hv =>
      obtain ⟨u, hu⟩ := hk.starts
      have hrest : p.rest = w ++ byte '"' :: (u ++ (w' ++ byte ':' :: (w'' ++ s ++ t))) := by
        simpa [hu] using h
      obtain ⟨hskip, hbehind⟩ := JsonParser.skipWs_of_rest hw (by decide) hrest
      rw [← List.cons_append, ← hu] at hbehind
      obtain ⟨q, hkey, hread⟩ := parseStringRaw_complete hk hbehind
      obtain ⟨hskip', hbehind'⟩ :=
        JsonParser.skipWs_of_rest hw' (by decide) (hread.rest_of_eq hbehind)
      have hpeek := JsonParser.peek_of_rest hbehind'
      have hroom := (JsonParser.getD_of_rest hbehind').1
      have hcolon := JsonParser.peek_reads hpeek hroom
      have hafter : ((skipWs q).advance 1 hroom).rest = w'' ++ s ++ t :=
        hcolon.rest_of_eq hbehind'
      obtain ⟨c, s', rfl, hc, _⟩ := hv.starts
      have hafter' : ((skipWs q).advance 1 hroom).rest = w'' ++ c :: (s' ++ t) := by
        simpa using hafter
      obtain ⟨hskip'', hvalueAt⟩ := JsonParser.skipWs_of_rest hw'' hc hafter'
      have hbefore := hskip.trans (hread.trans (hskip'.trans (hcolon.trans hskip'')))
      obtain ⟨r, hparse, hread'⟩ := hvalue _ [] _ v t (hbefore.depth_eq.trans hd) Whitespace.nil hv
        hnest (by simpa using hvalueAt) ht
      refine ⟨r, ?_, by simpa using hbefore.trans hread'⟩
      rw [parseMember, hkey]
      dsimp only
      rw [dif_pos hpeek, hparse]

/-- The loop goes on behind a member and its comma. -/
theorem parseObjectLoop_member {value : ValueParser buf} {depth : Nat}
    (hvalue : value.Complete depth) {p : JsonParser buf} {acc : List (List UInt8 × JsonValue)}
    {s w t : List UInt8} {m : List UInt8 × JsonValue} (hd : p.depth = depth) (hm : IsMember s m)
    (hw : Whitespace w) (hnest : depth + m.2.nesting < hbiJsonMaxDepth)
    (h : p.rest = s ++ (w ++ byte ',' :: t)) :
    ∃ q, (∀ fuel, parseObjectLoop value (fuel + 1) p acc =
        parseObjectLoop value fuel q (acc ++ [m])) ∧ p.Reads (s ++ (w ++ [byte ','])) q := by
  obtain ⟨q, hparse, hread⟩ := parseMember_complete hvalue hd hm hnest
    (hw.endsNumber_append (by decide)) h
  obtain ⟨hskip, hbehind⟩ := JsonParser.skipWs_of_rest hw (by decide) (hread.rest_of_eq h)
  have hpeek := JsonParser.peek_of_rest hbehind
  have hroom := (JsonParser.getD_of_rest hbehind).1
  have hcomma := JsonParser.peek_reads hpeek hroom
  refine ⟨_, fun fuel => ?_, hread.trans (hskip.trans hcomma)⟩
  rw [parseObjectLoop, hparse]
  dsimp only
  rw [dif_pos hpeek]

theorem parseObjectLoop_complete {value : ValueParser buf} {depth : Nat}
    (hvalue : value.Complete depth) {fuel : Nat} {p : JsonParser buf}
    {acc members : List (List UInt8 × JsonValue)} {s t : List UInt8} (hd : p.depth = depth)
    (hmembers : IsMembers s members) (hnest : depth + nestingMembers members ≤ hbiJsonMaxDepth)
    (hfuel : buf.length < p.pos + fuel) (h : p.rest = s ++ byte '\x7d' :: t) :
    ∃ q, parseObjectLoop value fuel p acc = some (.ok (.object (acc ++ members), q)) ∧
      p.Reads (s ++ [byte '\x7d']) q := by
  induction fuel generalizing p acc s members with
  | zero =>
      have hpos := p.pos_le
      omega
  | succ fuel ih =>
      cases hmembers with
      | @one s w m hm hw =>
          have hrest : p.rest = s ++ (w ++ byte '\x7d' :: t) := by
            simpa using h
          obtain ⟨q, hparse, hread⟩ := parseMember_complete hvalue hd hm
            (by simp only [nestingMembers] at hnest; omega)
            (hw.endsNumber_append (by decide)) hrest
          obtain ⟨hskip, hbehind⟩ :=
            JsonParser.skipWs_of_rest hw (by decide) (hread.rest_of_eq hrest)
          have hpeek := JsonParser.peek_of_rest hbehind
          have hroom := (JsonParser.getD_of_rest hbehind).1
          have hfull := hread.trans (hskip.trans (JsonParser.peek_reads hpeek hroom))
          refine ⟨_, ?_, by simpa using hfull⟩
          rw [parseObjectLoop, hparse]
          dsimp only
          rw [dif_neg (by rw [hpeek]; decide), dif_pos hpeek]
      | @more s w s' m members hm hw hmore =>
          rw [nestingMembers] at hnest
          have hrest : p.rest = s ++ (w ++ byte ',' :: (s' ++ byte '\x7d' :: t)) := by
            simpa using h
          obtain ⟨q, hstep, hread⟩ := @parseObjectLoop_member _ _ _ hvalue _ acc _ _ _ _ hd hm hw
            (by omega) hrest
          have hpos := hread.pos_eq
          simp only [List.length_append, List.length_cons] at hpos
          obtain ⟨r, hloop, hread'⟩ := @ih q (acc ++ [m]) _ _ (hread.depth_eq.trans hd) hmore
            (by omega) (by omega) (hread.rest_of_eq (by simpa using h))
          refine ⟨r, ?_, by simpa using hread.trans hread'⟩
          rw [hstep, hloop]
          simp

theorem parseObject_empty (value : ValueParser buf) {p : JsonParser buf} {w t : List UInt8}
    (hroom : p.pos + 1 ≤ buf.length) (hw : Whitespace w)
    (h : p.rest = byte '\x7b' :: (w ++ byte '\x7d' :: t)) :
    ∃ q, parseObject value p hroom = some (.ok (.object [], q)) ∧
      p.Reads (byte '\x7b' :: (w ++ [byte '\x7d'])) q := by
  have hfirst := JsonParser.peek_reads (JsonParser.peek_of_rest h) hroom
  obtain ⟨hskip, hrest⟩ := JsonParser.skipWs_of_rest hw (by decide) (hfirst.rest_of_eq h)
  have hpeek := JsonParser.peek_of_rest hrest
  have hlast := JsonParser.peek_reads hpeek (JsonParser.getD_of_rest hrest).1
  refine ⟨_, ?_, hfirst.trans (hskip.trans hlast)⟩
  unfold parseObject
  dsimp only
  rw [dif_pos hpeek]

theorem parseObject_complete {value : ValueParser buf} {depth : Nat}
    (hvalue : value.Complete depth) {p : JsonParser buf} {s t : List UInt8}
    {members : List (List UInt8 × JsonValue)} (hroom : p.pos + 1 ≤ buf.length)
    (hd : p.depth = depth) (hmembers : IsMembers s members)
    (hnest : depth + nestingMembers members ≤ hbiJsonMaxDepth)
    (h : p.rest = byte '\x7b' :: (s ++ byte '\x7d' :: t)) :
    ∃ q, parseObject value p hroom = some (.ok (.object members, q)) ∧
      p.Reads (byte '\x7b' :: (s ++ [byte '\x7d'])) q := by
  have hfirst := JsonParser.peek_reads (JsonParser.peek_of_rest h) hroom
  obtain ⟨w, u, rfl, hw, hmembers'⟩ := hmembers.split
  have hbehind : (p.advance 1 hroom).rest = w ++ byte '"' :: (u ++ byte '\x7d' :: t) := by
    simpa using hfirst.rest_of_eq h
  obtain ⟨hskip, hrest⟩ := JsonParser.skipWs_of_rest hw (by decide) hbehind
  have hpeek := JsonParser.peek_of_rest hrest
  have hbefore := hfirst.trans hskip
  obtain ⟨q, hloop, hread⟩ := @parseObjectLoop_complete _ _ _ hvalue (buf.length + 1) _ [] _ _ _
    (hbefore.depth_eq.trans hd) hmembers' hnest (by omega) hrest
  refine ⟨q, ?_, by simpa using hbefore.trans hread⟩
  unfold parseObject
  dsimp only
  rw [dif_neg (by rw [hpeek]; decide), hloop, List.nil_append]

theorem leave_complete {p : JsonParser buf} {s : List UInt8} {v : JsonValue}
    {r : Option (ParseResult buf JsonValue)}
    (hr : ∃ q, r = some (.ok (v, q)) ∧ p.enter.Reads s q) :
    ∃ q, leave r = some (.ok (v, q)) ∧ p.Reads s q := by
  obtain ⟨q, rfl, hread⟩ := hr
  refine ⟨_, rfl, ⟨hread.rest_eq, ?_⟩⟩
  have hd := hread.depth_eq
  simp only [JsonParser.enter] at hd
  simp only [hd, Nat.add_sub_cancel]

/-- The byte of a number picks no other branch of the switch. -/
theorem isNumberByte_ne {c : UInt8} (h : c = byte '-' ∨ isDigit c = true) :
    c ≠ byte '\x7b' ∧ c ≠ byte '[' ∧ c ≠ byte '"' ∧ c ≠ byte 't' ∧ c ≠ byte 'f' ∧
      c ≠ byte 'n' := by
  refine ⟨?_, ?_, ?_, ?_, ?_, ?_⟩ <;>
    · rintro rfl
      exact absurd h (by decide)

theorem parseSwitch_complete {value : ValueParser buf} {p : JsonParser buf} {s t : List UInt8}
    {v : JsonValue} (hvalue : value.Complete (p.depth + 1)) (hroom : p.pos + 1 ≤ buf.length)
    (hs : IsValue s v) (hnest : p.depth + v.nesting < hbiJsonMaxDepth) (ht : EndsNumber t)
    (h : p.rest = s ++ t) :
    ∃ q, parseSwitch value p hroom = some (.ok (v, q)) ∧ p.Reads s q := by
  have henter : p.enter.rest = s ++ t := h
  have hroom' : p.enter.pos + 1 ≤ buf.length := hroom
  unfold parseSwitch
  cases hs with
  | nullLit =>
      rw [JsonParser.peek_of_rest h]
      obtain ⟨q, hparse, hread⟩ := parseLiteral_complete h
      exact ⟨q, congrArg some hparse, hread⟩
  | trueLit =>
      rw [JsonParser.peek_of_rest h]
      obtain ⟨q, hparse, hread⟩ := parseLiteral_complete h
      exact ⟨q, congrArg some hparse, hread⟩
  | falseLit =>
      rw [JsonParser.peek_of_rest h]
      obtain ⟨q, hparse, hread⟩ := parseLiteral_complete h
      exact ⟨q, congrArg some hparse, hread⟩
  | number hs =>
      obtain ⟨q, hparse, hread⟩ := parseNumber_complete hs ht h
      obtain ⟨c, u, rfl, _, hc⟩ := hs.first
      obtain ⟨h₁, h₂, h₃, h₄, h₅, h₆⟩ := isNumberByte_ne hc
      rw [List.cons_append] at h
      rw [JsonParser.peek_of_rest h, if_neg h₁, if_neg h₂, if_neg h₃, if_neg h₄, if_neg h₅,
        if_neg h₆, if_pos (by simpa using hc), hparse]
      exact ⟨q, rfl, hread⟩
  | string hs =>
      obtain ⟨q, hparse, hread⟩ := parseStringRaw_complete hs h
      obtain ⟨u, rfl⟩ := hs.starts
      rw [List.cons_append] at h
      rw [JsonParser.peek_of_rest h, if_neg (by decide), if_neg (by decide), if_pos rfl, hparse]
      exact ⟨q, rfl, hread⟩
  | emptyArray hw =>
      rw [List.cons_append, List.append_assoc, List.singleton_append] at h henter
      rw [JsonParser.peek_of_rest h, if_neg (by decide), if_pos rfl]
      exact leave_complete (parseArray_empty value hroom' hw henter)
  | array hitems =>
      rw [List.cons_append, List.append_assoc, List.singleton_append] at h henter
      rw [JsonParser.peek_of_rest h, if_neg (by decide), if_pos rfl]
      rw [JsonValue.nesting] at hnest
      exact leave_complete (parseArray_complete hvalue hroom' rfl hitems (by omega) henter)
  | emptyObject hw =>
      rw [List.cons_append, List.append_assoc, List.singleton_append] at h henter
      rw [JsonParser.peek_of_rest h, if_pos rfl]
      exact leave_complete (parseObject_empty value hroom' hw henter)
  | object hmembers =>
      rw [List.cons_append, List.append_assoc, List.singleton_append] at h henter
      rw [JsonParser.peek_of_rest h, if_pos rfl]
      rw [JsonValue.nesting] at hnest
      exact leave_complete (parseObject_complete hvalue hroom' rfl hmembers (by omega) henter)

theorem parseValue_complete {fuel depth : Nat} (hfuel : hbiJsonMaxDepth ≤ fuel + depth) :
    ValueParser.Complete (@parseValue buf fuel) depth := by
  induction fuel generalizing depth with
  | zero =>
      intro p w s v t _ _ _ hnest
      omega
  | succ fuel ih =>
      rintro p w s v t rfl hw hs hnest h ht
      obtain ⟨c, u, hcons, hc, _⟩ := hs.starts
      have hrest : p.rest = w ++ c :: (u ++ t) := by
        simpa [hcons] using h
      obtain ⟨hskip, hbehind⟩ := JsonParser.skipWs_of_rest hw hc hrest
      have hroom := (JsonParser.getD_of_rest hbehind).1
      rw [← List.cons_append, ← hcons] at hbehind
      rw [← hskip.depth_eq] at hnest
      obtain ⟨q, hparse, hread⟩ := parseSwitch_complete
        (@ih ((skipWs p).depth + 1) (by rw [hskip.depth_eq]; omega)) hroom hs hnest ht hbehind
      refine ⟨q, ?_, hskip.trans hread⟩
      rw [hskip.depth_eq] at hnest
      unfold parseValue
      dsimp only
      rw [if_neg (by omega), dif_pos hroom, hparse]

theorem parseArrayLoop_total {value : ValueParser buf} {depth : Nat} (hvalue : value.Sound)
    (htotal : value.Total depth) {fuel : Nat} {p : JsonParser buf} {acc : List JsonValue}
    (hd : p.depth = depth) (hfuel : buf.length < p.pos + fuel) :
    parseArrayLoop value fuel p acc ≠ none := by
  induction fuel generalizing p acc with
  | zero =>
      have hpos := p.pos_le
      omega
  | succ fuel ih =>
      unfold parseArrayLoop
      split
      · rename_i hnone
        exact absurd hnone (htotal p hd)
      · simp
      · rename_i elem q helem
        have hprogress := hvalue.progress helem
        obtain ⟨w, s, _, _, hread, _⟩ := hvalue _ _ _ helem
        obtain ⟨w', _, hskip⟩ := q.skipWs_reads
        dsimp only
        split
        · rename_i hcomma
          have hroom := JsonParser.lt_of_peek hcomma (by decide)
          obtain ⟨u, _, hskip'⟩ := ((skipWs q).advance 1 hroom).skipWs_reads
          have hafter := hskip.trans ((JsonParser.peek_reads hcomma hroom).trans hskip')
          apply ih
          · rw [hafter.depth_eq, hread.depth_eq, hd]
          · rw [hafter.pos_eq]
            omega
        · split
          · simp
          · simp

theorem parseMember_total {value : ValueParser buf} {depth : Nat} (htotal : value.Total depth)
    {p : JsonParser buf} (hd : p.depth = depth) : parseMember value p ≠ none := by
  obtain ⟨w, _, hread⟩ := p.skipWs_reads
  unfold parseMember
  split
  · simp
  · rename_i key q hkey
    obtain ⟨k, _, hread₁⟩ := parseStringRaw_sound hkey
    obtain ⟨w', _, hread₂⟩ := q.skipWs_reads
    dsimp only
    split
    · rename_i hcolon
      have hroom := JsonParser.lt_of_peek hcolon (by decide)
      obtain ⟨w'', _, hread₃⟩ := ((skipWs q).advance 1 hroom).skipWs_reads
      have hbefore := hread.trans (hread₁.trans (hread₂.trans
        ((JsonParser.peek_reads hcolon hroom).trans hread₃)))
      split
      · rename_i hnone
        exact absurd hnone (htotal _ (hbefore.depth_eq.trans hd))
      · simp
      · simp
    · simp

theorem parseObjectLoop_total {value : ValueParser buf} {depth : Nat} (hvalue : value.Sound)
    (htotal : value.Total depth) {fuel : Nat} {p : JsonParser buf}
    {acc : List (List UInt8 × JsonValue)} (hd : p.depth = depth)
    (hfuel : buf.length < p.pos + fuel) : parseObjectLoop value fuel p acc ≠ none := by
  induction fuel generalizing p acc with
  | zero =>
      have hpos := p.pos_le
      omega
  | succ fuel ih =>
      unfold parseObjectLoop
      split
      · rename_i hnone
        exact absurd hnone (parseMember_total htotal hd)
      · simp
      · rename_i member q hmember
        obtain ⟨s, _, hread, _⟩ := parseMember_sound hvalue hmember
        obtain ⟨w', _, hskip⟩ := q.skipWs_reads
        dsimp only
        split
        · rename_i hcomma
          have hroom := JsonParser.lt_of_peek hcomma (by decide)
          have hafter := hread.trans (hskip.trans (JsonParser.peek_reads hcomma hroom))
          apply ih
          · rw [hafter.depth_eq, hd]
          · rw [hafter.pos_eq]
            simp only [List.length_append, List.length_cons]
            omega
        · split
          · simp
          · simp

theorem leave_ne_none {r : Option (ParseResult buf JsonValue)} (h : r ≠ none) :
    leave r ≠ none := by
  unfold leave
  split
  · simp
  · exact h

theorem parseSwitch_total {value : ValueParser buf} {p : JsonParser buf} (hvalue : value.Sound)
    (htotal : value.Total (p.depth + 1)) (hroom : p.pos + 1 ≤ buf.length) :
    parseSwitch value p hroom ≠ none := by
  obtain ⟨w, _, hskip⟩ := (p.enter.advance 1 hroom).skipWs_reads
  unfold parseSwitch
  split
  · apply leave_ne_none
    unfold parseObject
    dsimp only
    split
    · simp
    · exact parseObjectLoop_total hvalue htotal hskip.depth_eq (by omega)
  split
  · apply leave_ne_none
    unfold parseArray
    dsimp only
    split
    · simp
    · exact parseArrayLoop_total hvalue htotal hskip.depth_eq (by omega)
  split
  · split
    · simp
    · simp
  split
  · simp
  split
  · simp
  split
  · simp
  split
  · simp
  · simp

theorem parseValue_total {fuel depth : Nat} (hdepth : depth ≤ hbiJsonMaxDepth)
    (hfuel : hbiJsonMaxDepth < fuel + depth) :
    ValueParser.Total (@parseValue buf fuel) depth := by
  induction fuel generalizing depth with
  | zero => omega
  | succ fuel ih =>
      rintro p rfl
      obtain ⟨w, _, hskip⟩ := p.skipWs_reads
      unfold parseValue
      dsimp only
      split
      · simp
      · rename_i hd
        split
        · apply parseSwitch_total (parseValue_sound fuel)
          rw [hskip.depth_eq]
          exact ih (by omega) (by omega)
        · simp

theorem JsonParser.start_rest (text : List UInt8) : (JsonParser.start text).rest = text := by
  simp [JsonParser.start, JsonParser.rest]

theorem hbiJsonParse_document {text : List UInt8} {v : JsonValue}
    (h : hbiJsonParse text = some (.ok v)) : IsDocument text v ∧ v.nesting < hbiJsonMaxDepth := by
  unfold hbiJsonParse at h
  split at h
  · simp [errSet] at h
  split at h
  · simp [errSet] at h
  split at h
  · simp at h
  · simp at h
  · rename_i root q hroot
    obtain ⟨w, s, hw, hs, hread, hnest⟩ := parseValue_sound _ _ _ _ hroot
    obtain ⟨w', hw', hskip⟩ := q.skipWs_reads
    dsimp only at h
    split at h
    · rename_i hend
      obtain rfl := Except.ok.inj (Option.some.inj h)
      have hfull := (hread.trans hskip).rest_eq
      rw [JsonParser.start_rest, (JsonParser.atEnd_iff _).mp hend, List.append_nil] at hfull
      refine ⟨?_, by simpa [JsonParser.start] using hnest⟩
      rw [hfull]
      exact .mk hw hs hw'
    · simp at h

theorem hbiJsonParse_of_document {text : List UInt8} {v : JsonValue} (hpos : 1 ≤ text.length)
    (hcap : text.length ≤ hbiJsonMaxBytes) (hdoc : IsDocument text v)
    (hnest : v.nesting < hbiJsonMaxDepth) : hbiJsonParse text = some (.ok v) := by
  unfold hbiJsonParse
  rw [if_neg (by omega), if_neg (by omega)]
  cases hdoc with
  | @mk w s w' v hw hs hw' =>
      have hstart := JsonParser.start_rest (w ++ s ++ w')
      obtain ⟨q, hparse, hread⟩ := @parseValue_complete (w ++ s ++ w') parseFuel 0
        (by decide) (JsonParser.start (w ++ s ++ w')) w s v w' rfl hw hs (by omega) hstart
        hw'.endsNumber
      have hbehind := hread.rest_of_eq hstart
      have hend : (skipWs q).atEnd = true := by
        rw [JsonParser.atEnd_iff]
        apply JsonParser.skipWs_of_end
        rw [hbehind]
        exact hw'
      rw [hparse]
      dsimp only
      rw [if_pos hend]

theorem hbiJsonParse_ne_none (text : List UInt8) : hbiJsonParse text ≠ none := by
  unfold hbiJsonParse
  split
  · simp [errSet]
  split
  · simp [errSet]
  split
  · rename_i hnone
    exact absurd hnone (@parseValue_total text parseFuel 0 (by decide) (by decide) _ rfl)
  · simp
  · dsimp only
    split
    · simp
    · simp

/-- `hbi_json_parse` answers on every text, and it returns a document exactly for the
texts of the grammar whose values are nested less deep than the cap: the document that
the grammar gives the text. No state of the parser stands behind its buffer. -/
theorem hbi_json_parse_iff {text : List UInt8} (hpos : 1 ≤ text.length)
    (hcap : text.length ≤ hbiJsonMaxBytes) :
    (∀ v, hbiJsonParse text = some (.ok v) ↔
      IsDocument text v ∧ v.nesting < hbiJsonMaxDepth) ∧
    hbiJsonParse text ≠ none ∧ ∀ p : JsonParser text, p.pos ≤ text.length := by
  refine ⟨fun v => ⟨hbiJsonParse_document, fun h => ?_⟩, hbiJsonParse_ne_none text,
    fun p => p.pos_le⟩
  exact hbiJsonParse_of_document hpos hcap h.1 h.2

theorem hbi_json_parse_iff_true_array :
    (∀ v, hbiJsonParse (bytes "[true]") = some (.ok v) ↔
      IsDocument (bytes "[true]") v ∧ v.nesting < hbiJsonMaxDepth) ∧
    hbiJsonParse (bytes "[true]") ≠ none ∧
      ∀ p : JsonParser (bytes "[true]"), p.pos ≤ (bytes "[true]").length :=
  hbi_json_parse_iff (by decide) (by decide)

end Hummingbird

import Hummingbird.Json.Tokens

/-!
The parser accepts its grammar and nothing else. Three properties of a parser of
values carry the argument: what it accepts is in the grammar, what is in the grammar
it accepts, and it always answers. Each goes through the loop over items and the loop
over members, and from one level of nesting to the next.
-/

namespace Hummingbird

variable {buf : List UInt8}

/-- What the parser accepts is a value of the grammar that is not nested too deep. -/
def ValueParser.Sound (value : ValueParser buf) : Prop :=
  ∀ p v q, value p = some (.ok (v, q)) →
    ∃ w s, Whitespace w ∧ IsValue s v ∧ p.Reads (w ++ s) q ∧
      p.depth + v.nesting < hbiJsonMaxDepth

/-- At a depth the parser accepts every value that is not nested too deep. -/
def ValueParser.Complete (value : ValueParser buf) (depth : Nat) : Prop :=
  ∀ p w s v t, p.depth = depth → Whitespace w → IsValue s v →
    depth + v.nesting < hbiJsonMaxDepth → p.rest = w ++ s ++ t → EndsNumber t →
    ∃ q, value p = some (.ok (v, q)) ∧ p.Reads (w ++ s) q

/-- At a depth the parser answers. -/
def ValueParser.Total (value : ValueParser buf) (depth : Nat) : Prop :=
  ∀ p, p.depth = depth → value p ≠ none

/-- An accepted value moves the cursor. -/
theorem ValueParser.Sound.progress {value : ValueParser buf} (hvalue : value.Sound)
    {p q : JsonParser buf} {v : JsonValue} (h : value p = some (.ok (v, q))) :
    p.pos < q.pos := by
  obtain ⟨w, s, _, hs, hread, _⟩ := hvalue p v q h
  obtain ⟨c, t, rfl, _, _⟩ := hs.starts
  have hpos := hread.pos_eq
  rw [List.length_append, List.length_cons] at hpos
  omega

theorem parseArrayLoop_sound {value : ValueParser buf} (hvalue : value.Sound) {fuel : Nat}
    {p q : JsonParser buf} {acc : List JsonValue} {v : JsonValue}
    (h : parseArrayLoop value fuel p acc = some (.ok (v, q))) :
    ∃ s items, IsItems s items ∧ v = .array (acc ++ items) ∧ p.Reads (s ++ [byte ']']) q ∧
      p.depth + nestingItems items ≤ hbiJsonMaxDepth := by
  induction fuel generalizing p acc with
  | zero => simp [parseArrayLoop] at h
  | succ fuel ih =>
      unfold parseArrayLoop at h
      split at h
      · simp at h
      · simp at h
      · rename_i elem p₁ helem
        obtain ⟨w, s, hw, hs, hread, hdepth⟩ := hvalue _ _ _ helem
        obtain ⟨w', hw', hread'⟩ := p₁.skipWs_reads
        dsimp only at h
        split at h
        · rename_i hcomma
          have hnext := JsonParser.peek_reads hcomma (JsonParser.lt_of_peek hcomma (by decide))
          obtain ⟨u, hu, hskip⟩ := ((skipWs p₁).advance 1
            (JsonParser.lt_of_peek hcomma (by decide))).skipWs_reads
          obtain ⟨s', items, hitems, rfl, hrest, hbound⟩ := ih h
          have hfull := hread.trans (hread'.trans (hnext.trans (hskip.trans hrest)))
          refine ⟨_, _, .more hw hs hw' (hitems.pad hu), by simp, ?_, ?_⟩
          · simpa using hfull
          · have hd := (hread.trans (hread'.trans (hnext.trans hskip))).depth_eq
            rw [hd] at hbound
            rw [nestingItems]
            omega
        · split at h
          · rename_i hclose
            obtain ⟨rfl, rfl⟩ := Prod.mk.inj (Except.ok.inj (Option.some.inj h))
            have hlast := JsonParser.peek_reads hclose
              (JsonParser.lt_of_peek hclose (by decide))
            refine ⟨_, _, .one hw hs hw', rfl, ?_, ?_⟩
            · simpa using hread.trans (hread'.trans hlast)
            · simp only [nestingItems]
              omega
          · simp [JsonParser.errAt] at h

theorem parseArray_sound {value : ValueParser buf} (hvalue : value.Sound)
    {p q : JsonParser buf} {hroom : p.pos + 1 ≤ buf.length} {v : JsonValue}
    (hopen : p.peek = byte '[') (hd : p.depth ≤ hbiJsonMaxDepth)
    (h : parseArray value p hroom = some (.ok (v, q))) :
    ∃ s, IsValue s v ∧ p.Reads s q ∧ p.depth + v.nesting ≤ hbiJsonMaxDepth := by
  have hfirst := JsonParser.peek_reads hopen hroom
  obtain ⟨w, hw, hskip⟩ := (p.advance 1 hroom).skipWs_reads
  unfold parseArray at h
  dsimp only at h
  split at h
  · rename_i hclose
    obtain ⟨rfl, rfl⟩ := Prod.mk.inj (Except.ok.inj (Option.some.inj h))
    have hlast := JsonParser.peek_reads hclose (JsonParser.lt_of_peek hclose (by decide))
    refine ⟨_, .emptyArray hw, hfirst.trans (hskip.trans hlast), ?_⟩
    simpa [JsonValue.nesting, nestingItems] using hd
  · obtain ⟨s, items, hitems, rfl, hread, hbound⟩ := parseArrayLoop_sound hvalue h
    rw [(hfirst.trans hskip).depth_eq] at hbound
    refine ⟨_, .array (hitems.pad hw), ?_, ?_⟩
    · simpa using hfirst.trans (hskip.trans hread)
    · simpa [JsonValue.nesting] using hbound

theorem parseMember_sound {value : ValueParser buf} (hvalue : value.Sound)
    {p q : JsonParser buf} {m : List UInt8 × JsonValue}
    (h : parseMember value p = some (.ok (m, q))) :
    ∃ s, IsMember s m ∧ p.Reads s q ∧ p.depth + m.2.nesting < hbiJsonMaxDepth := by
  obtain ⟨w, hw, hread⟩ := p.skipWs_reads
  unfold parseMember at h
  split at h
  · simp at h
  · rename_i key p₁ hkey
    obtain ⟨k, hk, hread₁⟩ := parseStringRaw_sound hkey
    obtain ⟨w', hw', hread₂⟩ := p₁.skipWs_reads
    dsimp only at h
    split at h
    · rename_i hcolon
      have hroom := JsonParser.lt_of_peek hcolon (by decide)
      have hread₃ := JsonParser.peek_reads hcolon hroom
      obtain ⟨w'', hw'', hread₄⟩ := ((skipWs p₁).advance 1 hroom).skipWs_reads
      split at h
      · simp at h
      · simp at h
      · rename_i v p₂ hv
        obtain ⟨rfl, rfl⟩ := Prod.mk.inj (Except.ok.inj (Option.some.inj h))
        obtain ⟨u, s, hu, hs, hread₅, hdepth⟩ := hvalue _ _ _ hv
        have hbefore := hread.trans (hread₁.trans (hread₂.trans (hread₃.trans hread₄)))
        rw [hbefore.depth_eq] at hdepth
        refine ⟨_, .mk hw hk hw' (hw''.append hu) hs, ?_, hdepth⟩
        simpa using hbefore.trans hread₅
    · simp [JsonParser.errAt] at h

theorem parseObjectLoop_sound {value : ValueParser buf} (hvalue : value.Sound) {fuel : Nat}
    {p q : JsonParser buf} {acc : List (List UInt8 × JsonValue)} {v : JsonValue}
    (h : parseObjectLoop value fuel p acc = some (.ok (v, q))) :
    ∃ s members, IsMembers s members ∧ v = .object (acc ++ members) ∧
      p.Reads (s ++ [byte '\x7d']) q ∧ p.depth + nestingMembers members ≤ hbiJsonMaxDepth := by
  induction fuel generalizing p acc with
  | zero => simp [parseObjectLoop] at h
  | succ fuel ih =>
      unfold parseObjectLoop at h
      split at h
      · simp at h
      · simp at h
      · rename_i member p₁ hmember
        obtain ⟨s, hs, hread, hdepth⟩ := parseMember_sound hvalue hmember
        obtain ⟨w', hw', hread'⟩ := p₁.skipWs_reads
        dsimp only at h
        split at h
        · rename_i hcomma
          have hnext := JsonParser.peek_reads hcomma (JsonParser.lt_of_peek hcomma (by decide))
          obtain ⟨s', members, hmembers, rfl, hrest, hbound⟩ := ih h
          refine ⟨_, _, .more hs hw' hmembers, by simp, ?_, ?_⟩
          · simpa using hread.trans (hread'.trans (hnext.trans hrest))
          · rw [(hread.trans (hread'.trans hnext)).depth_eq] at hbound
            rw [nestingMembers]
            omega
        · split at h
          · rename_i hclose
            obtain ⟨rfl, rfl⟩ := Prod.mk.inj (Except.ok.inj (Option.some.inj h))
            have hlast := JsonParser.peek_reads hclose
              (JsonParser.lt_of_peek hclose (by decide))
            refine ⟨_, _, .one hs hw', rfl, ?_, ?_⟩
            · simpa using hread.trans (hread'.trans hlast)
            · simp only [nestingMembers]
              omega
          · simp [JsonParser.errAt] at h

theorem parseObject_sound {value : ValueParser buf} (hvalue : value.Sound)
    {p q : JsonParser buf} {hroom : p.pos + 1 ≤ buf.length} {v : JsonValue}
    (hopen : p.peek = byte '\x7b') (hd : p.depth ≤ hbiJsonMaxDepth)
    (h : parseObject value p hroom = some (.ok (v, q))) :
    ∃ s, IsValue s v ∧ p.Reads s q ∧ p.depth + v.nesting ≤ hbiJsonMaxDepth := by
  have hfirst := JsonParser.peek_reads hopen hroom
  obtain ⟨w, hw, hskip⟩ := (p.advance 1 hroom).skipWs_reads
  unfold parseObject at h
  dsimp only at h
  split at h
  · rename_i hclose
    obtain ⟨rfl, rfl⟩ := Prod.mk.inj (Except.ok.inj (Option.some.inj h))
    have hlast := JsonParser.peek_reads hclose (JsonParser.lt_of_peek hclose (by decide))
    refine ⟨_, .emptyObject hw, hfirst.trans (hskip.trans hlast), ?_⟩
    simpa [JsonValue.nesting, nestingMembers] using hd
  · obtain ⟨s, members, hmembers, rfl, hread, hbound⟩ := parseObjectLoop_sound hvalue h
    rw [(hfirst.trans hskip).depth_eq] at hbound
    refine ⟨_, .object (hmembers.pad hw), ?_, ?_⟩
    · simpa using hfirst.trans (hskip.trans hread)
    · simpa [JsonValue.nesting] using hbound

/-- The level a container is parsed at is left again. -/
theorem leave_sound {p q : JsonParser buf} {v : JsonValue}
    {r : Option (ParseResult buf JsonValue)}
    (hr : ∀ q', r = some (.ok (v, q')) →
      ∃ s, IsValue s v ∧ p.enter.Reads s q' ∧ p.enter.depth + v.nesting ≤ hbiJsonMaxDepth)
    (h : leave r = some (.ok (v, q))) :
    ∃ s, IsValue s v ∧ p.Reads s q ∧ p.depth + v.nesting < hbiJsonMaxDepth := by
  unfold leave at h
  split at h
  · rename_i v' q'
    obtain ⟨rfl, rfl⟩ := Prod.mk.inj (Except.ok.inj (Option.some.inj h))
    obtain ⟨s, hs, hread, hdepth⟩ := hr q' rfl
    refine ⟨s, hs, ⟨hread.rest_eq, ?_⟩, ?_⟩
    · have hd := hread.depth_eq
      simp only [JsonParser.enter] at hd
      simp only [hd, Nat.add_sub_cancel]
    · simp only [JsonParser.enter] at hdepth
      omega
  · rename_i hne
    exact absurd h (by simpa using hne v q)

theorem parseSwitch_sound {value : ValueParser buf} (hvalue : value.Sound)
    {p q : JsonParser buf} {hroom : p.pos + 1 ≤ buf.length} {v : JsonValue}
    (hd : p.depth < hbiJsonMaxDepth) (h : parseSwitch value p hroom = some (.ok (v, q))) :
    ∃ s, IsValue s v ∧ p.Reads s q ∧ p.depth + v.nesting < hbiJsonMaxDepth := by
  unfold parseSwitch at h
  split at h
  · rename_i hopen
    exact leave_sound (fun _ hr => parseObject_sound hvalue hopen hd hr) h
  split at h
  · rename_i hopen
    exact leave_sound (fun _ hr => parseArray_sound hvalue hopen hd hr) h
  split at h
  · split at h
    · simp at h
    · rename_i out p₁ hstring
      obtain ⟨rfl, rfl⟩ := Prod.mk.inj (Except.ok.inj (Option.some.inj h))
      obtain ⟨s, hs, hread⟩ := parseStringRaw_sound hstring
      exact ⟨s, .string hs, hread, by simpa [JsonValue.nesting] using hd⟩
  split at h
  · obtain ⟨rfl, hread⟩ := parseLiteral_sound (Option.some.inj h)
    exact ⟨_, .trueLit, hread, by simpa [JsonValue.nesting] using hd⟩
  split at h
  · obtain ⟨rfl, hread⟩ := parseLiteral_sound (Option.some.inj h)
    exact ⟨_, .falseLit, hread, by simpa [JsonValue.nesting] using hd⟩
  split at h
  · obtain ⟨rfl, hread⟩ := parseLiteral_sound (Option.some.inj h)
    exact ⟨_, .nullLit, hread, by simpa [JsonValue.nesting] using hd⟩
  split at h
  · rename_i hstart
    obtain ⟨s, d, hs, rfl, hread⟩ := parseNumber_sound hstart hroom (Option.some.inj h)
    exact ⟨s, .number hs, hread, by simpa [JsonValue.nesting] using hd⟩
  · simp [JsonParser.errAt] at h

theorem parseValue_sound (fuel : Nat) : ValueParser.Sound (@parseValue buf fuel) := by
  induction fuel with
  | zero =>
      intro p v q h
      simp [parseValue] at h
  | succ fuel ih =>
      intro p v q h
      obtain ⟨w, hw, hskip⟩ := p.skipWs_reads
      unfold parseValue at h
      dsimp only at h
      split at h
      · simp [JsonParser.errAt] at h
      · rename_i hd
        split at h
        · obtain ⟨s, hs, hread, hdepth⟩ :=
            parseSwitch_sound ih (by rw [hskip.depth_eq]; exact not_le.mp hd) h
          rw [hskip.depth_eq] at hdepth
          exact ⟨w, s, hw, hs, hskip.trans hread, hdepth⟩
        · simp [JsonParser.errAt] at h

end Hummingbird

import Hummingbird.Json.Blocks
import Hummingbird.Json.Complete

/-!
The parser with allocations reads what the one without reads: unless a request was
refused, it answers with the same value or the same error at the same place. With the
blocks that it holds this gives what a caller of `hbi_json_parse` may rely on.
-/

namespace Hummingbird

open Ownership

variable {buf : List UInt8} {α β : Type} (grant : Nat → Bool)

/-- The answers with and without allocations. A refusal needs a request that is refused. -/
inductive Agrees (val : α → β) : Option (DomResult buf α) → Option (ParseResult buf β) → Prop
  | refused {n : Nat} (hgrant : grant n = false) (message : String)
      (r : Option (ParseResult buf β)) : Agrees val (some (.error (.oom message))) r
  | unanswered : Agrees val none none
  | corrupt (e : JsonError buf) : Agrees val (some (.error (.corrupt e))) (some (.error e))
  | ok (a : α) (p : JsonParser buf) : Agrees val (some (.ok (a, p))) (some (.ok (val a, p)))

theorem elemValues_append (elems elems' : List JsonNode) :
    elemValues (elems ++ elems') = elemValues elems ++ elemValues elems' := by
  induction elems with
  | nil => rfl
  | cons n elems ih => simp [elemValues, ih]

theorem entryValues_append (entries entries' : List (Nat × List UInt8 × JsonNode)) :
    entryValues (entries ++ entries') = entryValues entries ++ entryValues entries' := by
  induction entries with
  | nil => rfl
  | cons e entries ih => simp [entryValues, ih]

def DomParser.AgreesWith (value : DomParser buf) (value' : ValueParser buf) : Prop :=
  ∀ h p, Agrees grant JsonNode.value (value h p).2 (value' p)

variable {grant} {value : DomParser buf} {value' : ValueParser buf}

theorem grow_refused {h h' : BlockHeap} {room : Room} {count width : Nat}
    (hres : grow grant h room count width = (h', none)) : ∃ n, grant n = false := by
  unfold grow at hres
  split at hres
  · unfold jrealloc BlockHeap.realloc at hres
    cases hreq : h.alloc grant (room.cap * 2 * width) with
    | mk h₁ block =>
        rw [hreq] at hres
        cases block with
        | none => exact BlockHeap.alloc_refused hreq
        | some block => cases hres
  · cases hres

theorem domLeaf_agrees (h : BlockHeap) (r : ParseResult buf JsonValue) :
    Agrees grant JsonNode.value ((domLeaf grant h r).map id some).2 (some r) := by
  unfold domLeaf
  cases r with
  | error e => exact .corrupt e
  | ok vp =>
      obtain ⟨v, p⟩ := vp
      unfold newValue
      cases hreq : jalloc grant h sizeofJsonValue with
      | mk h₁ node =>
          cases node with
          | none =>
              obtain ⟨n, hgrant⟩ := BlockHeap.alloc_refused hreq
              exact .refused hgrant _ _
          | some node => exact .ok (JsonNode.leaf node v) p

theorem domStringRaw_agrees (h : BlockHeap) (p : JsonParser buf) :
    Agrees grant Prod.snd ((domStringRaw grant h p).map id some).2 (some (parseStringRaw p)) := by
  unfold domStringRaw
  split
  · cases hreq : jalloc grant h (buf.length - (p.pos + 1) + 1) with
    | mk h₁ text =>
        cases text with
        | none =>
            obtain ⟨n, hgrant⟩ := BlockHeap.alloc_refused hreq
            exact .refused hgrant _ _
        | some text =>
            dsimp only
            cases parseStringRaw p with
            | error e => exact .corrupt e
            | ok sp => exact .ok (text, sp.1) sp.2
  · rename_i hquote
    unfold parseStringRaw
    rw [dif_neg hquote]
    exact .corrupt _

theorem domString_agrees (h : BlockHeap) (p : JsonParser buf) :
    Agrees grant JsonNode.value ((domString grant h p).map id some).2
      (match parseStringRaw p with
        | .error e => some (.error e)
        | .ok (s, p) => some (.ok (.string s, p))) := by
  have hraw := @domStringRaw_agrees buf grant h p
  unfold domString
  cases hres : domStringRaw grant h p with
  | mk h₁ r =>
      rw [hres] at hraw
      cases r with
      | error e =>
          generalize parseStringRaw p = r' at *
          cases hraw with
          | refused hgrant message => exact .refused hgrant message _
          | corrupt e => exact .corrupt e
      | ok a =>
          obtain ⟨⟨text, s⟩, q⟩ := a
          generalize parseStringRaw p = r' at *
          cases hraw with
          | ok =>
              dsimp only
              unfold newValue
              cases hreq : jalloc grant h₁ sizeofJsonValue with
              | mk h₂ node =>
                  cases node with
                  | none =>
                      obtain ⟨n, hgrant⟩ := BlockHeap.alloc_refused hreq
                      exact .refused hgrant _ _
                  | some node => exact .ok (JsonNode.string node text s) q

theorem domArrayLoop_agrees (hvalue : value.AgreesWith grant value') {node : Nat} {fuel : Nat}
    {h : BlockHeap} {p : JsonParser buf} {room : Room} {elems : List JsonNode} :
    Agrees grant JsonNode.value (domArrayLoop grant value node fuel h p room elems).2
      (parseArrayLoop value' fuel p (elemValues elems)) := by
  induction fuel generalizing h p room elems with
  | zero => exact .unanswered
  | succ fuel ih =>
      have hread := hvalue h p
      unfold domArrayLoop parseArrayLoop
      cases hres : value h p with
      | mk h₁ r =>
          rw [hres] at hread
          dsimp only at hread ⊢
          generalize value' p = r' at *
          cases hread with
          | refused hgrant message => exact .refused hgrant message _
          | unanswered => exact .unanswered
          | corrupt e => exact .corrupt e
          | ok elem q =>
              dsimp only
              cases hgrow : grow grant h₁ room elems.length sizeofPtr with
              | mk h₂ room' =>
                  cases room' with
                  | none =>
                      obtain ⟨n, hgrant⟩ := grow_refused hgrow
                      exact .refused hgrant _ _
                  | some room' =>
                      dsimp only
                      have hvalues : elemValues elems ++ [elem.value] =
                          elemValues (elems ++ [elem]) := by
                        rw [elemValues_append]
                        rfl
                      rw [hvalues]
                      split
                      · exact ih
                      · split
                        · exact .ok (JsonNode.array node (some room'.block) (elems ++ [elem])) _
                        · exact .corrupt _

theorem domArray_agrees (hvalue : value.AgreesWith grant value') (h : BlockHeap)
    (p : JsonParser buf) (hroom : p.pos + 1 ≤ buf.length) :
    Agrees grant JsonNode.value (domArray grant value h p hroom).2 (parseArray value' p hroom) := by
  unfold domArray parseArray newValue
  cases hreq : jalloc grant h sizeofJsonValue with
  | mk h₁ node =>
      cases node with
      | none =>
          obtain ⟨n, hgrant⟩ := BlockHeap.alloc_refused hreq
          exact .refused hgrant _ _
      | some node =>
          dsimp only
          split
          · exact .ok (JsonNode.array node none []) _
          · cases hreq' : jalloc grant h₁ (firstCap * sizeofPtr) with
            | mk h₂ block =>
                cases block with
                | none =>
                    obtain ⟨n, hgrant⟩ := BlockHeap.alloc_refused hreq'
                    exact .refused hgrant _ _
                | some block => exact domArrayLoop_agrees hvalue

def entryValue (e : Nat × List UInt8 × JsonNode) : List UInt8 × JsonValue := (e.2.1, e.2.2.value)

theorem domMember_agrees (hvalue : value.AgreesWith grant value') (h : BlockHeap)
    (p : JsonParser buf) :
    Agrees grant entryValue (domMember grant value h p).2 (parseMember value' p) := by
  have hraw := @domStringRaw_agrees buf grant h (skipWs p)
  unfold domMember parseMember
  cases hres : domStringRaw grant h (skipWs p) with
  | mk h₁ r =>
      rw [hres] at hraw
      dsimp only [Prod.map_snd] at hraw
      generalize parseStringRaw (skipWs p) = r' at *
      cases r with
      | error e =>
          cases hraw with
          | refused hgrant message => exact .refused hgrant message _
          | corrupt e => exact .corrupt e
      | ok a =>
          obtain ⟨⟨key, s⟩, q⟩ := a
          cases hraw with
          | ok =>
              dsimp only
              split
              · rename_i hc
                have hread := hvalue h₁ (skipWs ((skipWs q).advance 1
                  (JsonParser.lt_of_peek hc (by decide))))
                cases hv : value h₁ (skipWs ((skipWs q).advance 1
                    (JsonParser.lt_of_peek hc (by decide)))) with
                | mk h₂ r =>
                    rw [hv] at hread
                    dsimp only at hread ⊢
                    generalize value' (skipWs ((skipWs q).advance 1
                      (JsonParser.lt_of_peek hc (by decide)))) = r' at *
                    cases hread with
                    | refused hgrant message => exact .refused hgrant message _
                    | unanswered => exact .unanswered
                    | corrupt e => exact .corrupt e
                    | ok v q' => exact Agrees.ok (key, s, v) q'
              · exact .corrupt _

theorem domObjectLoop_agrees (hvalue : value.AgreesWith grant value') {node : Nat} {fuel : Nat}
    {h : BlockHeap} {p : JsonParser buf} {room : Room}
    {entries : List (Nat × List UInt8 × JsonNode)} :
    Agrees grant JsonNode.value (domObjectLoop grant value node fuel h p room entries).2
      (parseObjectLoop value' fuel p (entryValues entries)) := by
  induction fuel generalizing h p room entries with
  | zero => exact .unanswered
  | succ fuel ih =>
      have hread := @domMember_agrees buf grant value value' hvalue h p
      unfold domObjectLoop parseObjectLoop
      cases hres : domMember grant value h p with
      | mk h₁ r =>
          rw [hres] at hread
          dsimp only at hread ⊢
          generalize parseMember value' p = r' at *
          cases hread with
          | refused hgrant message => exact .refused hgrant message _
          | unanswered => exact .unanswered
          | corrupt e => exact .corrupt e
          | ok entry q =>
              obtain ⟨key, s, v⟩ := entry
              dsimp only
              cases hgrow : grow grant h₁ room entries.length sizeofJsonMember with
              | mk h₂ room' =>
                  cases room' with
                  | none =>
                      obtain ⟨n, hgrant⟩ := grow_refused hgrow
                      exact .refused hgrant _ _
                  | some room' =>
                      dsimp only
                      have hvalues : entryValues entries ++ [entryValue (key, s, v)] =
                          entryValues (entries ++ [(key, s, v)]) := by
                        rw [entryValues_append]
                        rfl
                      rw [hvalues]
                      split
                      · exact ih
                      · split
                        · exact .ok (JsonNode.object node (some room'.block)
                            (entries ++ [(key, s, v)])) _
                        · exact .corrupt _

theorem domObject_agrees (hvalue : value.AgreesWith grant value') (h : BlockHeap)
    (p : JsonParser buf) (hroom : p.pos + 1 ≤ buf.length) :
    Agrees grant JsonNode.value (domObject grant value h p hroom).2
      (parseObject value' p hroom) := by
  unfold domObject parseObject newValue
  cases hreq : jalloc grant h sizeofJsonValue with
  | mk h₁ node =>
      cases node with
      | none =>
          obtain ⟨n, hgrant⟩ := BlockHeap.alloc_refused hreq
          exact .refused hgrant _ _
      | some node =>
          dsimp only
          split
          · exact .ok (JsonNode.object node none []) _
          · cases hreq' : jalloc grant h₁ (firstCap * sizeofJsonMember) with
            | mk h₂ block =>
                cases block with
                | none =>
                    obtain ⟨n, hgrant⟩ := BlockHeap.alloc_refused hreq'
                    exact .refused hgrant _ _
                | some block => exact domObjectLoop_agrees hvalue

theorem domLeave_agrees {res : BlockHeap × Option (DomResult buf JsonNode)}
    {r : Option (ParseResult buf JsonValue)} (hres : Agrees grant JsonNode.value res.2 r) :
    Agrees grant JsonNode.value (domLeave res).2 (leave r) := by
  obtain ⟨h, r'⟩ := res
  dsimp only at hres
  cases hres with
  | refused hgrant message => exact .refused hgrant message _
  | unanswered => exact .unanswered
  | corrupt e => exact .corrupt e
  | ok v p => exact .ok v _

theorem domSwitch_agrees (hvalue : value.AgreesWith grant value') (h : BlockHeap)
    (p : JsonParser buf) (hroom : p.pos + 1 ≤ buf.length) :
    Agrees grant JsonNode.value (domSwitch grant value h p hroom).2
      (parseSwitch value' p hroom) := by
  unfold domSwitch parseSwitch
  split
  · exact domLeave_agrees (domObject_agrees hvalue h p.enter hroom)
  split
  · exact domLeave_agrees (domArray_agrees hvalue h p.enter hroom)
  split
  · exact domString_agrees h p
  split
  · exact domLeaf_agrees h _
  split
  · exact domLeaf_agrees h _
  split
  · exact domLeaf_agrees h _
  split
  · exact domLeaf_agrees h _
  · exact .corrupt _

theorem domValue_agrees (fuel : Nat) :
    DomParser.AgreesWith grant (@domValue buf grant fuel) (parseValue fuel) := by
  induction fuel with
  | zero =>
      intro h p
      exact .unanswered
  | succ fuel ih =>
      intro h p
      unfold domValue parseValue
      split
      · exact .corrupt _
      · dsimp only
        split
        · exact domSwitch_agrees ih h (skipWs p) _
        · exact .corrupt _

/-- The parser of values answers, with or without refusals. -/
theorem domValue_total (h : BlockHeap) (text : List UInt8) :
    (domValue grant parseFuel h (JsonParser.start text)).2 ≠ none := by
  have hagrees := @domValue_agrees text grant parseFuel h (JsonParser.start text)
  intro hnone
  rw [hnone] at hagrees
  generalize hpure : parseValue parseFuel (JsonParser.start text) = r at hagrees
  cases hagrees with
  | unanswered =>
      exact absurd hpure (@parseValue_total text parseFuel 0 (by decide) (by decide) _ rfl)

/-- For every text and every pattern of refusals the parser answers. If it fails, its root
is `NULL` and every block that it obtained was given back, each once; if it succeeds, the
blocks of the document are what it holds, and `hbi_json_free` gives them all back, each
once and no others. -/
theorem hbiJsonParse_settles (grant : Nat → Bool) (h : BlockHeap) {text : List UInt8}
    (outRoot : Option JsonNode) (hpos : 1 ≤ text.length) (hcap : text.length ≤ hbiJsonMaxBytes) :
    ∃ h' answer, hbiJsonParseDom grant h text outRoot = (h', some answer) ∧
      ((∃ e, answer.status = .error e ∧ answer.outRoot = none ∧ h.ledger.Since h'.ledger []) ∨
      ∃ root, answer.status = .ok () ∧ answer.outRoot = some root ∧
        h.ledger.Since h'.ledger root.blocks ∧
        h.ledger.Since (hbiJsonFree h' root).ledger []) := by
  have howns := @domValue_owns text grant parseFuel h (JsonParser.start text)
  have htotal := @domValue_total grant h text
  unfold hbiJsonParseDom
  rw [if_neg (by omega), if_neg (by omega)]
  cases hres : domValue grant parseFuel h (JsonParser.start text) with
  | mk h₁ r =>
      rw [hres] at howns htotal
      cases r with
      | none => exact absurd rfl htotal
      | some r =>
          cases r with
          | error e => exact ⟨_, _, rfl, Or.inl ⟨_, rfl, rfl, howns⟩⟩
          | ok a =>
              obtain ⟨root, q⟩ := a
              have hroot : h.ledger.Since h₁.ledger root.blocks := howns
              have hfreed : h.ledger.Since (hbiJsonFree h₁ root).ledger [] := by
                apply hbiJsonFree_since
                rw [List.append_nil]
                exact hroot
              dsimp only
              split
              · exact ⟨_, _, rfl, Or.inr ⟨root, rfl, rfl, hroot, hfreed⟩⟩
              · exact ⟨_, _, rfl, Or.inl ⟨_, rfl, rfl, hfreed⟩⟩

/-- A parser whose third request is refused, on an array of strings. -/
theorem hbiJsonParse_settles_refused :
    1 ≤ (bytes "[\"a\",\"b\"]").length ∧
    (bytes "[\"a\",\"b\"]").length ≤ hbiJsonMaxBytes ∧
    ∃ h' answer, hbiJsonParseDom (· != 2) ⟨⟨[], 0⟩, 0⟩ (bytes "[\"a\",\"b\"]") none =
        (h', some answer) ∧
      ((∃ e, answer.status = .error e ∧ answer.outRoot = none ∧
        (Ledger.mk [] 0).Since h'.ledger []) ∨
      ∃ root, answer.status = .ok () ∧ answer.outRoot = some root ∧
        (Ledger.mk [] 0).Since h'.ledger root.blocks ∧
        (Ledger.mk [] 0).Since (hbiJsonFree h' root).ledger []) :=
  ⟨by decide, by decide, hbiJsonParse_settles (· != 2) ⟨⟨[], 0⟩, 0⟩ none (by decide) (by decide)⟩

/-- When every request is granted, the answer is that of the parser without allocations. -/
theorem hbiJsonParseDom_granted {h : BlockHeap} {text : List UInt8} {outRoot : Option JsonNode}
    {v : JsonValue} (hgrant : ∀ n, grant n = true) (hpos : 1 ≤ text.length)
    (hcap : text.length ≤ hbiJsonMaxBytes) (hparse : hbiJsonParse text = some (.ok v)) :
    ∃ h' root, hbiJsonParseDom grant h text outRoot = (h', some ⟨.ok (), some root⟩) ∧
      root.value = v := by
  have hagrees := @domValue_agrees text grant parseFuel h (JsonParser.start text)
  unfold hbiJsonParse at hparse
  unfold hbiJsonParseDom
  rw [if_neg (by omega), if_neg (by omega)] at hparse ⊢
  cases hres : domValue grant parseFuel h (JsonParser.start text) with
  | mk h₁ r =>
      rw [hres] at hagrees
      dsimp only at hagrees
      generalize parseValue parseFuel (JsonParser.start text) = r' at *
      cases hagrees with
      | @refused n hrefused message =>
          rw [hgrant n] at hrefused
          cases hrefused
      | unanswered => cases hparse
      | corrupt e => cases hparse
      | ok root q =>
          dsimp only at hparse ⊢
          split at hparse
          · rename_i hend
            cases hparse
            rw [if_pos hend]
            exact ⟨_, root, rfl, rfl⟩
          · cases hparse

end Hummingbird

import Hummingbird.Json.Dom

/-!
Which blocks the parser holds. Relative to the heap it was called with, a parser that
fails holds nothing, and one that succeeds holds the blocks of what it returns, each once.
A loop over entries holds the container that it builds. Freeing a node gives back its
blocks, and it touches no others.
-/

namespace Hummingbird

open Ownership

mutual

/-- The blocks of a node, in the order in which `hbi_json_free` gives them back. -/
def JsonNode.blocks : JsonNode → List Nat
  | .leaf node _ => [node]
  | .string node text _ => [text, node]
  | .array node items elems => elemBlocks elems ++ items.toList ++ [node]
  | .object node members entries => entryBlocks entries ++ members.toList ++ [node]

def elemBlocks : List JsonNode → List Nat
  | [] => []
  | n :: elems => n.blocks ++ elemBlocks elems

def entryBlocks : List (Nat × List UInt8 × JsonNode) → List Nat
  | [] => []
  | (key, _, n) :: entries => key :: n.blocks ++ entryBlocks entries

end

theorem elemBlocks_append (elems elems' : List JsonNode) :
    elemBlocks (elems ++ elems') = elemBlocks elems ++ elemBlocks elems' := by
  induction elems with
  | nil => rfl
  | cons n elems ih => simp [elemBlocks, ih]

theorem entryBlocks_append (entries entries' : List (Nat × List UInt8 × JsonNode)) :
    entryBlocks (entries ++ entries') = entryBlocks entries ++ entryBlocks entries' := by
  induction entries with
  | nil => rfl
  | cons e entries ih => simp [entryBlocks, ih]

section Free

variable {base : Ledger Nat}

mutual

/-- Freeing a node gives back its blocks. -/
theorem hbiJsonFree_since : ∀ (n : JsonNode) {h : BlockHeap} {ids : List Nat},
    base.Since h.ledger (n.blocks ++ ids) → base.Since (hbiJsonFree h n).ledger ids
  | .leaf node v, h, ids, hs => by
      rw [hbiJsonFree]
      exact BlockHeap.free_since hs
  | .string node text s, h, ids, hs => by
      rw [hbiJsonFree]
      exact BlockHeap.free_since (BlockHeap.free_since hs)
  | .array node items elems, h, ids, hs => by
      rw [JsonNode.blocks, List.append_assoc, List.append_assoc] at hs
      rw [hbiJsonFree]
      exact BlockHeap.free_since (BlockHeap.freeAll_since (freeElems_since elems hs))
  | .object node members entries, h, ids, hs => by
      rw [JsonNode.blocks, List.append_assoc, List.append_assoc] at hs
      rw [hbiJsonFree]
      exact BlockHeap.free_since (BlockHeap.freeAll_since (freeEntries_since entries hs))

theorem freeElems_since : ∀ (elems : List JsonNode) {h : BlockHeap} {ids : List Nat},
    base.Since h.ledger (elemBlocks elems ++ ids) → base.Since (freeElems h elems).ledger ids
  | [], h, ids, hs => hs
  | n :: elems, h, ids, hs => by
      rw [elemBlocks, List.append_assoc] at hs
      rw [freeElems]
      exact freeElems_since elems (hbiJsonFree_since n hs)

theorem freeEntries_since : ∀ (entries : List (Nat × List UInt8 × JsonNode)) {h : BlockHeap}
    {ids : List Nat}, base.Since h.ledger (entryBlocks entries ++ ids) →
      base.Since (freeEntries h entries).ledger ids
  | [], h, ids, hs => hs
  | (key, s, n) :: entries, h, ids, hs => by
      rw [entryBlocks, List.append_assoc] at hs
      rw [freeEntries]
      exact freeEntries_since entries (hbiJsonFree_since n (BlockHeap.free_since hs))

end

end Free

variable {buf : List UInt8} {α : Type}

/-- Since the base the call holds the blocks of what it returns, or nothing if it fails. -/
def Leaves (blocks : α → List Nat) (base : Ledger Nat) :
    BlockHeap × Option (DomResult buf α) → Prop
  | (_, none) => True
  | (h, some (.error _)) => base.Since h.ledger []
  | (h, some (.ok (a, _))) => base.Since h.ledger (blocks a)

def DomParser.Owns (value : DomParser buf) : Prop :=
  ∀ h p, Leaves JsonNode.blocks h.ledger (value h p)

section Calls

variable {grant : Nat → Bool} {base : Ledger Nat} {h h' : BlockHeap} {ids : List Nat}

theorem jalloc_since (hs : base.Since h.ledger ids) (n : Nat) :
    (∃ h', jalloc grant h n = (h', none) ∧ base.Since h'.ledger ids) ∨
    ∃ h' block, jalloc grant h n = (h', some block) ∧ base.Since h'.ledger (block :: ids) :=
  BlockHeap.alloc_since hs n

theorem grow_since {room : Room} (hs : base.Since h.ledger (room.block :: ids))
    (count width : Nat) :
    (∃ h', grow grant h room count width = (h', none) ∧
      base.Since h'.ledger (room.block :: ids)) ∨
    ∃ h' room', grow grant h room count width = (h', some room') ∧
      base.Since h'.ledger (room'.block :: ids) := by
  unfold grow
  by_cases hfull : count = room.cap
  · rw [if_pos hfull]
    unfold jrealloc BlockHeap.realloc
    rcases @BlockHeap.alloc_since grant base h _ hs (room.cap * 2 * width) with
      ⟨h', heq, hs'⟩ | ⟨h', block, heq, hs'⟩
    · rw [heq]
      exact Or.inl ⟨h', rfl, hs'⟩
    · rw [heq]
      exact Or.inr ⟨_, _, rfl, BlockHeap.free_since (hs'.perm (List.Perm.swap _ _ _))⟩
  · rw [if_neg hfull]
    exact Or.inr ⟨h, room, rfl, hs⟩

theorem domLeaf_holds (h : BlockHeap) (r : ParseResult buf JsonValue) :
    Leaves JsonNode.blocks h.ledger ((domLeaf grant h r).map id some) := by
  unfold domLeaf
  cases r with
  | error e => exact Ledger.Since.refl _
  | ok vp =>
      unfold newValue
      rcases @jalloc_since grant _ h _ (Ledger.Since.refl _) sizeofJsonValue with
        ⟨h', heq, hs⟩ | ⟨h', node, heq, hs⟩
      · rw [heq]
        exact hs
      · rw [heq]
        exact hs

theorem domStringRaw_holds (h : BlockHeap) (p : JsonParser buf) :
    Leaves (fun a : Nat × List UInt8 => [a.1]) h.ledger ((domStringRaw grant h p).map id some) := by
  unfold domStringRaw
  split
  · rcases @jalloc_since grant _ h _ (Ledger.Since.refl _) (buf.length - (p.pos + 1) + 1) with
      ⟨h', heq, hs⟩ | ⟨h', text, heq, hs⟩
    · rw [heq]
      exact hs
    · rw [heq]
      dsimp only
      cases parseStringRaw p with
      | error e => exact BlockHeap.free_since hs
      | ok sp => exact hs
  · exact Ledger.Since.refl _

theorem domString_holds (h : BlockHeap) (p : JsonParser buf) :
    Leaves JsonNode.blocks h.ledger ((domString grant h p).map id some) := by
  have hraw := @domStringRaw_holds buf grant h p
  unfold domString
  cases hres : domStringRaw grant h p with
  | mk h₁ r =>
      rw [hres] at hraw
      cases r with
      | error e => exact hraw
      | ok a =>
          unfold newValue
          rcases @jalloc_since grant _ h₁ _ hraw sizeofJsonValue with
            ⟨h', heq, hs⟩ | ⟨h', node, heq, hs⟩
          · dsimp only
            rw [heq]
            exact BlockHeap.free_since hs
          · dsimp only
            rw [heq]
            exact hs.perm (List.Perm.swap _ _ _)

/-- What a call returns is held beside what was held before it. -/
def Beside (blocks : α → List Nat) (base : Ledger Nat) (ids : List Nat) :
    BlockHeap × Option (DomResult buf α) → Prop
  | (_, none) => True
  | (h, some (.error _)) => base.Since h.ledger ids
  | (h, some (.ok (a, _))) => base.Since h.ledger (blocks a ++ ids)

theorem Leaves.beside {blocks : α → List Nat} {res : BlockHeap × Option (DomResult buf α)}
    (hres : Leaves blocks h.ledger res) (hs : base.Since h.ledger ids) :
    Beside blocks base ids res := by
  obtain ⟨h', r⟩ := res
  cases r with
  | none => trivial
  | some r =>
      cases r with
      | error e => exact hs.trans hres
      | ok a => exact hs.trans hres

theorem domArrayLoop_holds {value : DomParser buf} (hvalue : value.Owns) {node : Nat} {fuel : Nat}
    {p : JsonParser buf} {room : Room} {elems : List JsonNode}
    (hs : base.Since h.ledger (JsonNode.array node (some room.block) elems).blocks) :
    Leaves JsonNode.blocks base (domArrayLoop grant value node fuel h p room elems) := by
  induction fuel generalizing h p room elems with
  | zero => trivial
  | succ fuel ih =>
      have hbeside := (hvalue h p).beside hs
      unfold domArrayLoop
      cases hres : value h p with
      | mk h₁ r =>
          rw [hres] at hbeside
          cases r with
          | none => trivial
          | some r =>
              cases r with
              | error e =>
                  refine hbiJsonFree_since _ ?_
                  rw [List.append_nil]
                  exact hbeside
              | ok a =>
                  obtain ⟨elem, q⟩ := a
                  have hroom : base.Since h₁.ledger
                      (room.block :: (elem.blocks ++ elemBlocks elems ++ [node])) := by
                    refine Ledger.Since.perm hbeside (List.perm_iff_count.mpr fun k => ?_)
                    simp only [JsonNode.blocks, Option.toList_some, List.count_append,
                      List.count_cons, List.count_nil]
                    omega
                  dsimp only
                  rcases @grow_since grant base h₁ _ room hroom elems.length sizeofPtr with
                    ⟨h₂, heq, hs'⟩ | ⟨h₂, room', heq, hs'⟩
                  · rw [heq]
                    dsimp only
                    refine hbiJsonFree_since _ (hbiJsonFree_since _ (hs'.perm ?_))
                    refine List.perm_iff_count.mpr fun k => ?_
                    simp only [JsonNode.blocks, Option.toList_some, List.count_append,
                      List.count_cons, List.count_nil]
                    omega
                  · rw [heq]
                    dsimp only
                    have harray : base.Since h₂.ledger
                        (JsonNode.array node (some room'.block) (elems ++ [elem])).blocks := by
                      refine hs'.perm (List.perm_iff_count.mpr fun k => ?_)
                      simp only [JsonNode.blocks, elemBlocks_append, elemBlocks,
                        Option.toList_some, List.count_append, List.count_cons, List.count_nil]
                      omega
                    split
                    · exact ih harray
                    · split
                      · exact harray
                      · refine hbiJsonFree_since _ ?_
                        rw [List.append_nil]
                        exact harray

theorem domArray_holds {value : DomParser buf} (hvalue : value.Owns) (h : BlockHeap)
    (p : JsonParser buf) (hroom : p.pos + 1 ≤ buf.length) :
    Leaves JsonNode.blocks h.ledger (domArray grant value h p hroom) := by
  unfold domArray newValue
  rcases @jalloc_since grant _ h _ (Ledger.Since.refl _) sizeofJsonValue with
    ⟨h₁, heq, hs⟩ | ⟨h₁, node, heq, hs⟩
  · rw [heq]
    exact hs
  · rw [heq]
    dsimp only
    split
    · exact hs
    · rcases @jalloc_since grant _ h₁ _ hs (firstCap * sizeofPtr) with
        ⟨h₂, heq, hs'⟩ | ⟨h₂, block, heq, hs'⟩
      · rw [heq]
        exact BlockHeap.free_since hs'
      · rw [heq]
        exact domArrayLoop_holds hvalue hs'

def memberBlocks (e : Nat × List UInt8 × JsonNode) : List Nat := e.1 :: e.2.2.blocks

theorem domMember_holds {value : DomParser buf} (hvalue : value.Owns) (h : BlockHeap)
    (p : JsonParser buf) : Leaves memberBlocks h.ledger (domMember grant value h p) := by
  have hraw := @domStringRaw_holds buf grant h (skipWs p)
  unfold domMember
  cases hres : domStringRaw grant h (skipWs p) with
  | mk h₁ r =>
      rw [hres] at hraw
      cases r with
      | error e => exact hraw
      | ok a =>
          obtain ⟨⟨key, s⟩, q⟩ := a
          have hkey : h.ledger.Since h₁.ledger [key] := hraw
          dsimp only
          split
          · rename_i hc
            have hbeside := (hvalue h₁ (skipWs ((skipWs q).advance 1
              (JsonParser.lt_of_peek hc (by decide))))).beside hkey
            cases hv : value h₁ (skipWs ((skipWs q).advance 1
                (JsonParser.lt_of_peek hc (by decide)))) with
            | mk h₂ r =>
                rw [hv] at hbeside
                cases r with
                | none => trivial
                | some r =>
                    cases r with
                    | error e => exact BlockHeap.free_since hbeside
                    | ok a =>
                        refine Ledger.Since.perm hbeside (List.perm_iff_count.mpr fun k => ?_)
                        simp only [memberBlocks, List.count_append, List.count_cons,
                          List.count_nil]
                        omega
          · exact BlockHeap.free_since hkey

theorem domObjectLoop_holds {value : DomParser buf} (hvalue : value.Owns) {node : Nat}
    {fuel : Nat} {p : JsonParser buf} {room : Room} {entries : List (Nat × List UInt8 × JsonNode)}
    (hs : base.Since h.ledger (JsonNode.object node (some room.block) entries).blocks) :
    Leaves JsonNode.blocks base (domObjectLoop grant value node fuel h p room entries) := by
  induction fuel generalizing h p room entries with
  | zero => trivial
  | succ fuel ih =>
      have hbeside := (@domMember_holds buf grant value hvalue h p).beside hs
      unfold domObjectLoop
      cases hres : domMember grant value h p with
      | mk h₁ r =>
          rw [hres] at hbeside
          cases r with
          | none => trivial
          | some r =>
              cases r with
              | error e =>
                  refine hbiJsonFree_since _ ?_
                  rw [List.append_nil]
                  exact hbeside
              | ok a =>
                  obtain ⟨⟨key, s, v⟩, q⟩ := a
                  have hroom : base.Since h₁.ledger
                      (room.block :: (v.blocks ++ key :: entryBlocks entries ++ [node])) := by
                    refine Ledger.Since.perm hbeside (List.perm_iff_count.mpr fun k => ?_)
                    simp only [memberBlocks, JsonNode.blocks, Option.toList_some,
                      List.count_append, List.count_cons, List.count_nil]
                    omega
                  dsimp only
                  rcases @grow_since grant base h₁ _ room hroom entries.length sizeofJsonMember
                    with ⟨h₂, heq, hs'⟩ | ⟨h₂, room', heq, hs'⟩
                  · rw [heq]
                    dsimp only
                    apply hbiJsonFree_since
                    apply BlockHeap.free_since
                    apply hbiJsonFree_since
                    refine hs'.perm ?_
                    refine List.perm_iff_count.mpr fun k => ?_
                    simp only [JsonNode.blocks, Option.toList_some, List.count_append,
                      List.count_cons, List.count_nil]
                    omega
                  · rw [heq]
                    dsimp only
                    have hobject : base.Since h₂.ledger (JsonNode.object node (some room'.block)
                        (entries ++ [(key, s, v)])).blocks := by
                      refine hs'.perm (List.perm_iff_count.mpr fun k => ?_)
                      simp only [JsonNode.blocks, entryBlocks_append, entryBlocks,
                        Option.toList_some, List.count_append, List.count_cons, List.count_nil]
                      omega
                    split
                    · exact ih hobject
                    · split
                      · exact hobject
                      · refine hbiJsonFree_since _ ?_
                        rw [List.append_nil]
                        exact hobject

theorem domObject_holds {value : DomParser buf} (hvalue : value.Owns) (h : BlockHeap)
    (p : JsonParser buf) (hroom : p.pos + 1 ≤ buf.length) :
    Leaves JsonNode.blocks h.ledger (domObject grant value h p hroom) := by
  unfold domObject newValue
  rcases @jalloc_since grant _ h _ (Ledger.Since.refl _) sizeofJsonValue with
    ⟨h₁, heq, hs⟩ | ⟨h₁, node, heq, hs⟩
  · rw [heq]
    exact hs
  · rw [heq]
    dsimp only
    split
    · exact hs
    · rcases @jalloc_since grant _ h₁ _ hs (firstCap * sizeofJsonMember) with
        ⟨h₂, heq, hs'⟩ | ⟨h₂, block, heq, hs'⟩
      · rw [heq]
        exact BlockHeap.free_since hs'
      · rw [heq]
        exact domObjectLoop_holds hvalue hs'

theorem domLeave_holds {res : BlockHeap × Option (DomResult buf JsonNode)}
    (hres : Leaves JsonNode.blocks base res) : Leaves JsonNode.blocks base (domLeave res) := by
  obtain ⟨h', r⟩ := res
  cases r with
  | none => trivial
  | some r =>
      cases r with
      | error e => exact hres
      | ok a => exact hres

theorem domSwitch_holds {value : DomParser buf} (hvalue : value.Owns) (h : BlockHeap)
    (p : JsonParser buf) (hroom : p.pos + 1 ≤ buf.length) :
    Leaves JsonNode.blocks h.ledger (domSwitch grant value h p hroom) := by
  unfold domSwitch
  split
  · exact domLeave_holds (domObject_holds hvalue h p.enter hroom)
  split
  · exact domLeave_holds (domArray_holds hvalue h p.enter hroom)
  split
  · exact domString_holds h p
  split
  · exact domLeaf_holds h _
  split
  · exact domLeaf_holds h _
  split
  · exact domLeaf_holds h _
  split
  · exact domLeaf_holds h _
  · exact Ledger.Since.refl _

/-- What is held by the parser of values, at every depth and for every pattern of refusals. -/
theorem domValue_owns (fuel : Nat) : DomParser.Owns (@domValue buf grant fuel) := by
  induction fuel with
  | zero =>
      intro h p
      trivial
  | succ fuel ih =>
      intro h p
      unfold domValue
      split
      · exact Ledger.Since.refl _
      · dsimp only
        split
        · exact domSwitch_holds ih h (skipWs p) _
        · exact Ledger.Since.refl _

end Calls

end Hummingbird

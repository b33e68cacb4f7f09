import Hummingbird.Json.Parser
import Hummingbird.Tensor.Tensor
import Hummingbird.Memory.Blocks

/-!
The parser with its allocations. A document is a tree of blocks: every node has one, a
string has one for its text, a container that is not empty one for its entries, and a
member one for its key. What is read from the input is what the parser without
allocations reads.
-/

namespace Hummingbird

/-- `sizeof(hbi_json_value)`. -/
def sizeofJsonValue : Nat := 24

/-- `sizeof(hbi_json_member)`. -/
def sizeofJsonMember : Nat := 16

/-- A node of the document with the blocks that belong to it. A leaf is a literal or a
number. -/
inductive JsonNode where
  | leaf (node : Nat) (v : JsonValue)
  | string (node text : Nat) (s : List UInt8)
  | array (node : Nat) (items : Option Nat) (elems : List JsonNode)
  | object (node : Nat) (members : Option Nat) (entries : List (Nat × List UInt8 × JsonNode))

mutual

/-- The value that a node stands for. -/
def JsonNode.value : JsonNode → JsonValue
  | .leaf _ v => v
  | .string _ _ s => .string s
  | .array _ _ elems => .array (elemValues elems)
  | .object _ _ entries => .object (entryValues entries)

def elemValues : List JsonNode → List JsonValue
  | [] => []
  | n :: elems => n.value :: elemValues elems

def entryValues : List (Nat × List UInt8 × JsonNode) → List (List UInt8 × JsonValue)
  | [] => []
  | (_, key, n) :: entries => (key, n.value) :: entryValues entries

end

mutual

/-- `hbi_json_free`: the children, the entries, the node. -/
def hbiJsonFree (h : BlockHeap) : JsonNode → BlockHeap
  | .leaf node _ => h.free node
  | .string node text _ => (h.free text).free node
  | .array node items elems => (items.toList.foldl BlockHeap.free (freeElems h elems)).free node
  | .object node members entries =>
      (members.toList.foldl BlockHeap.free (freeEntries h entries)).free node

def freeElems (h : BlockHeap) : List JsonNode → BlockHeap
  | [] => h
  | n :: elems => freeElems (hbiJsonFree h n) elems

def freeEntries (h : BlockHeap) : List (Nat × List UInt8 × JsonNode) → BlockHeap
  | [] => h
  | (key, _, n) :: entries => freeEntries (hbiJsonFree (h.free key) n) entries

end

/-- The error of the parser: at a byte of the input, or a request that was refused. -/
inductive DomError (buf : List UInt8) where
  | corrupt (e : JsonError buf)
  | oom (message : String)

abbrev DomResult (buf : List UInt8) (α : Type) := Except (DomError buf) (α × JsonParser buf)

/-- A parser of one value that allocates. -/
abbrev DomParser (buf : List UInt8) :=
  BlockHeap → JsonParser buf → BlockHeap × Option (DomResult buf JsonNode)

def allocationFailed {buf : List UInt8} {α : Type} : DomResult buf α :=
  .error (.oom "json: allocation failed")

variable {buf : List UInt8} (grant : Nat → Bool)

def jalloc (h : BlockHeap) (n : Nat) : BlockHeap × Option Nat := h.alloc grant n

def jrealloc (h : BlockHeap) (block n : Nat) : BlockHeap × Option Nat := h.realloc grant block n

/-- `new_value`. -/
def newValue (h : BlockHeap) : BlockHeap × Option Nat := jalloc grant h sizeofJsonValue

/-- The end of `parse_number` and `parse_literal`: a node for what was read. -/
def domLeaf (h : BlockHeap) : ParseResult buf JsonValue → BlockHeap × DomResult buf JsonNode
  | .error e => (h, .error (.corrupt e))
  | .ok (v, p) =>
      match newValue grant h with
      | (h, none) => (h, allocationFailed)
      | (h, some node) => (h, .ok (.leaf node v, p))

/-- `parse_string_raw`: the buffer has room for what is left of the input. -/
def domStringRaw (h : BlockHeap) (p : JsonParser buf) :
    BlockHeap × DomResult buf (Nat × List UInt8) :=
  if p.peek = byte '"' then
    match jalloc grant h (buf.length - (p.pos + 1) + 1) with
    | (h, none) => (h, allocationFailed)
    | (h, some text) =>
        match parseStringRaw p with
        | .error e => (h.free text, .error (.corrupt e))
        | .ok (s, p) => (h, .ok ((text, s), p))
  else (h, .error (.corrupt ⟨"expected '\"'", p⟩))

/-- A string value: its text and its node. -/
def domString (h : BlockHeap) (p : JsonParser buf) : BlockHeap × DomResult buf JsonNode :=
  match domStringRaw grant h p with
  | (h, .error e) => (h, .error e)
  | (h, .ok ((text, s), p)) =>
      match newValue grant h with
      | (h, none) => (h.free text, allocationFailed)
      | (h, some node) => (h, .ok (.string node text s, p))

/-- Entries of a container: their block, and for how many of them it has room. -/
structure Room where
  block : Nat
  cap : Nat

/-- Makes room for one entry more: twice as many when the block is full. -/
def grow (h : BlockHeap) (room : Room) (count width : Nat) : BlockHeap × Option Room :=
  if count = room.cap then
    match jrealloc grant h room.block (room.cap * 2 * width) with
    | (h, none) => (h, none)
    | (h, some block) => (h, some ⟨block, room.cap * 2⟩)
  else (h, some room)

/-- Capacity of a container when its first entry is read. -/
def firstCap : Nat := 8

/-- A byte that is not the end is there to be consumed. -/
theorem JsonParser.lt_of_comma {p : JsonParser buf} (hc : p.peek = byte ',') :
    p.pos + 1 ≤ buf.length := p.lt_of_peek hc (by decide)

theorem JsonParser.lt_of_colon {p : JsonParser buf} (hc : p.peek = byte ':') :
    p.pos + 1 ≤ buf.length := p.lt_of_peek hc (by decide)

theorem JsonParser.lt_of_bracket {p : JsonParser buf} (hc : p.peek = byte ']') :
    p.pos + 1 ≤ buf.length := p.lt_of_peek hc (by decide)

theorem JsonParser.lt_of_brace {p : JsonParser buf} (hc : p.peek = byte '\x7d') :
    p.pos + 1 ≤ buf.length := p.lt_of_peek hc (by decide)

/-- The loop of `parse_array` over an array that has its node and its block. -/
def domArrayLoop (value : DomParser buf) (node : Nat) : (fuel : Nat) → BlockHeap →
    JsonParser buf → Room → List JsonNode → BlockHeap × Option (DomResult buf JsonNode)
  | 0, h, _, _, _ => (h, none)
  | fuel + 1, h, p, room, elems =>
      match value h p with
      | (h, none) => (h, none)
      | (h, some (.error e)) =>
          (hbiJsonFree h (.array node (some room.block) elems), some (.error e))
      | (h, some (.ok (elem, p))) =>
          match grow grant h room elems.length sizeofPtr with
          | (h, none) =>
              (hbiJsonFree (hbiJsonFree h elem) (.array node (some room.block) elems),
                some (.error (.oom "json: array grow failed")))
          | (h, some room) =>
              let elems := elems ++ [elem]
              let p := skipWs p
              if hc : p.peek = byte ',' then
                domArrayLoop value node fuel h (skipWs (p.advance 1 (p.lt_of_comma hc)))
                  room elems
              else if hc : p.peek = byte ']' then
                (h, some (.ok (.array node (some room.block) elems,
                  p.advance 1 (p.lt_of_bracket hc))))
              else
                (hbiJsonFree h (.array node (some room.block) elems),
                  some (.error (.corrupt ⟨"expected ',' or ']'", p⟩)))

/-- `parse_array`, at the opening bracket. -/
def domArray (value : DomParser buf) (h : BlockHeap) (p : JsonParser buf)
    (hroom : p.pos + 1 ≤ buf.length) : BlockHeap × Option (DomResult buf JsonNode) :=
  match newValue grant h with
  | (h, none) => (h, some allocationFailed)
  | (h, some node) =>
      let p := skipWs (p.advance 1 hroom)
      if hc : p.peek = byte ']' then
        (h, some (.ok (.array node none [], p.advance 1 (p.lt_of_bracket hc))))
      else
        match jalloc grant h (firstCap * sizeofPtr) with
        | (h, none) => (h.free node, some allocationFailed)
        | (h, some block) =>
            domArrayLoop grant value node (buf.length + 1) h p ⟨block, firstCap⟩ []

/-- One member: the key, the colon and the value. The caller frees the object. -/
def domMember (value : DomParser buf) (h : BlockHeap) (p : JsonParser buf) :
    BlockHeap × Option (DomResult buf (Nat × List UInt8 × JsonNode)) :=
  match domStringRaw grant h (skipWs p) with
  | (h, .error e) => (h, some (.error e))
  | (h, .ok ((key, s), p)) =>
      let p := skipWs p
      if hc : p.peek = byte ':' then
        match value h (skipWs (p.advance 1 (p.lt_of_colon hc))) with
        | (h, none) => (h, none)
        | (h, some (.error e)) => (h.free key, some (.error e))
        | (h, some (.ok (v, p))) => (h, some (.ok ((key, s, v), p)))
      else (h.free key, some (.error (.corrupt ⟨"expected ':'", p⟩)))

/-- The loop of `parse_object` over an object that has its node and its block. -/
def domObjectLoop (value : DomParser buf) (node : Nat) : (fuel : Nat) → BlockHeap →
    JsonParser buf → Room → List (Nat × List UInt8 × JsonNode) →
      BlockHeap × Option (DomResult buf JsonNode)
  | 0, h, _, _, _ => (h, none)
  | fuel + 1, h, p, room, entries =>
      match domMember grant value h p with
      | (h, none) => (h, none)
      | (h, some (.error e)) =>
          (hbiJsonFree h (.object node (some room.block) entries), some (.error e))
      | (h, some (.ok ((key, s, v), p))) =>
          match grow grant h room entries.length sizeofJsonMember with
          | (h, none) =>
              (hbiJsonFree ((hbiJsonFree h v).free key) (.object node (some room.block) entries),
                some (.error (.oom "json: object grow failed")))
          | (h, some room) =>
              let entries := entries ++ [(key, s, v)]
              let p := skipWs p
              if hc : p.peek = byte ',' then
                domObjectLoop value node fuel h (p.advance 1 (p.lt_of_comma hc)) room
                  entries
              else if hc : p.peek = byte '\x7d' then
                (h, some (.ok (.object node (some room.block) entries,
                  p.advance 1 (p.lt_of_brace hc))))
              else
                (hbiJsonFree h (.object node (some room.block) entries),
                  some (.error (.corrupt ⟨"expected ',' or '\x7d'", p⟩)))

/-- `parse_object`, at the opening brace. -/
def domObject (value : DomParser buf) (h : BlockHeap) (p : JsonParser buf)
    (hroom : p.pos + 1 ≤ buf.length) : BlockHeap × Option (DomResult buf JsonNode) :=
  match newValue grant h with
  | (h, none) => (h, some allocationFailed)
  | (h, some node) =>
      let p := skipWs (p.advance 1 hroom)
      if hc : p.peek = byte '\x7d' then
        (h, some (.ok (.object node none [], p.advance 1 (p.lt_of_brace hc))))
      else
        match jalloc grant h (firstCap * sizeofJsonMember) with
        | (h, none) => (h.free node, some allocationFailed)
        | (h, some block) =>
            domObjectLoop grant value node (buf.length + 1) h p ⟨block, firstCap⟩ []

def domLeave (r : BlockHeap × Option (DomResult buf JsonNode)) :
    BlockHeap × Option (DomResult buf JsonNode) :=
  match r with
  | (h, some (.ok (v, p))) => (h, some (.ok (v, { p with depth := p.depth - 1 })))
  | r => r

/-- The switch of `parse_value`. -/
def domSwitch (value : DomParser buf) (h : BlockHeap) (p : JsonParser buf)
    (hroom : p.pos + 1 ≤ buf.length) : BlockHeap × Option (DomResult buf JsonNode) :=
  if p.peek = byte '\x7b' then domLeave (domObject grant value h p.enter hroom)
  else if p.peek = byte '[' then domLeave (domArray grant value h p.enter hroom)
  else if p.peek = byte '"' then (domString grant h p).map id some
  else if p.peek = byte 't' then
    (domLeaf grant h (parseLiteral p (bytes "true") (.boolean true))).map id some
  else if p.peek = byte 'f' then
    (domLeaf grant h (parseLiteral p (bytes "false") (.boolean false))).map id some
  else if p.peek = byte 'n' then
    (domLeaf grant h (parseLiteral p (bytes "null") .null)).map id some
  else if p.peek = byte '-' || isDigit p.peek then
    (domLeaf grant h (parseNumber p)).map id some
  else (h, some (.error (.corrupt ⟨"unexpected character", p⟩)))

/-- `parse_value` with its allocations. -/
def domValue : (fuel : Nat) → DomParser buf
  | 0, h, _ => (h, none)
  | fuel + 1, h, p =>
      if p.depth ≥ hbiJsonMaxDepth then
        (h, some (.error (.corrupt ⟨"maximum nesting depth exceeded", p⟩)))
      else
        let p := skipWs p
        if hroom : p.pos + 1 ≤ buf.length then domSwitch grant (domValue fuel) h p hroom
        else (h, some (.error (.corrupt ⟨"unexpected end of input", p⟩)))

/-- What `hbi_json_parse` leaves behind: its status and what `out_root` points to. -/
structure JsonAnswer where
  status : Result Unit
  outRoot : Option JsonNode

def DomError.failure : DomError buf → Failure
  | .corrupt e => e.failure
  | .oom message => ⟨.oom, message⟩

/-- `hbi_json_parse` with its allocations. -/
def hbiJsonParseDom (h : BlockHeap) (text : List UInt8) (outRoot : Option JsonNode) :
    BlockHeap × Option JsonAnswer :=
  if text.length = 0 then
    (h, some ⟨errSet .invalidArg "json_parse: NULL/empty input", outRoot⟩)
  else if text.length > hbiJsonMaxBytes then
    (h, some ⟨errSet .unsupported
      s!"json_parse: input {text.length} exceeds cap {hbiJsonMaxBytes}", outRoot⟩)
  else
    match domValue grant parseFuel h (JsonParser.start text) with
    | (h, none) => (h, none)
    | (h, some (.error e)) => (h, some ⟨.error e.failure, none⟩)
    | (h, some (.ok (root, p))) =>
        let p := skipWs p
        if p.atEnd then (h, some ⟨.ok (), some root⟩)
        else
          (hbiJsonFree h root, some
            ⟨.error (JsonError.failure ⟨"trailing content after top-level value", p⟩), none⟩)

end Hummingbird

import Hummingbird.Json.Value

/-!
The recursive-descent parser. The cursor carries the bound that every read of the
buffer rests on, so each advance states why the byte in front of it exists. Blocks
are assumed to be allocated. The loops over items and members take the parser of one
value as an argument; they answer nothing when their fuel runs out, and so does the
parser of values.
-/

namespace Hummingbird

def hbiJsonMaxDepth : Nat := 128

def hbiJsonMaxBytes : Nat := 512 * 1024 * 1024

/-- `hbi_json_parser` over a buffer: the next byte to read and the containers that
are open. -/
structure JsonParser (buf : List UInt8) where
  pos : Nat
  depth : Nat
  pos_le : pos ≤ buf.length

/-- What `err_at` records: the text and the parser whose offset it reports. -/
structure JsonError (buf : List UInt8) where
  what : String
  parser : JsonParser buf

/-- A value with the parser behind it, or the recorded error. -/
abbrev ParseResult (buf : List UInt8) (α : Type) := Except (JsonError buf) (α × JsonParser buf)

variable {buf : List UInt8}

namespace JsonParser

def atEnd (p : JsonParser buf) : Bool := p.pos ≥ buf.length

/-- The byte at the cursor; at the end of the input a `NUL`. -/
def peek (p : JsonParser buf) : UInt8 := if p.atEnd then 0 else buf.getD p.pos 0

def advance (p : JsonParser buf) (n : Nat) (h : p.pos + n ≤ buf.length) : JsonParser buf :=
  ⟨p.pos + n, p.depth, h⟩

/-- What the parser has not read yet. -/
def rest (p : JsonParser buf) : List UInt8 := buf.drop p.pos

theorem lt_of_peek {p : JsonParser buf} {c : UInt8} (h : p.peek = c) (hc : c ≠ 0) :
    p.pos + 1 ≤ buf.length := by
  unfold peek atEnd at h
  by_contra hge
  rw [if_pos (by simpa using hge)] at h
  exact hc h.symm

theorem takeWhile_le (p : JsonParser buf) (f : UInt8 → Bool) :
    p.pos + (p.rest.takeWhile f).length ≤ buf.length := by
  have hle := (List.takeWhile_sublist f (l := p.rest)).length_le
  have hpos := p.pos_le
  simp only [rest, List.length_drop] at hle ⊢
  omega

/-- A loop that advances over the bytes of a class. -/
def skip (f : UInt8 → Bool) (p : JsonParser buf) : JsonParser buf :=
  p.advance (p.rest.takeWhile f).length (p.takeWhile_le f)

def errAt {α : Type} (p : JsonParser buf) (what : String) : ParseResult buf α :=
  .error ⟨what, p⟩

end JsonParser

def isWs (c : UInt8) : Bool :=
  c = byte ' ' || c = byte '\t' || c = byte '\n' || c = byte '\r'

def skipWs (p : JsonParser buf) : JsonParser buf := p.skip isWs

def utf8Emit (cp : Nat) : List UInt8 :=
  if cp ≤ 0x7F then [UInt8.ofNat cp]
  else if cp ≤ 0x7FF then
    [UInt8.ofNat (0xC0 ||| cp >>> 6), UInt8.ofNat (0x80 ||| cp &&& 0x3F)]
  else if cp ≤ 0xFFFF then
    [UInt8.ofNat (0xE0 ||| cp >>> 12), UInt8.ofNat (0x80 ||| cp >>> 6 &&& 0x3F),
      UInt8.ofNat (0x80 ||| cp &&& 0x3F)]
  else
    [UInt8.ofNat (0xF0 ||| cp >>> 18), UInt8.ofNat (0x80 ||| cp >>> 12 &&& 0x3F),
      UInt8.ofNat (0x80 ||| cp >>> 6 &&& 0x3F), UInt8.ofNat (0x80 ||| cp &&& 0x3F)]

def hexDigit (c : UInt8) : Option Nat :=
  if isDigit c then some (c.toNat - (byte '0').toNat)
  else if byte 'a' ≤ c && c ≤ byte 'f' then some (c.toNat - (byte 'a').toNat + 10)
  else if byte 'A' ≤ c && c ≤ byte 'F' then some (c.toNat - (byte 'A').toNat + 10)
  else none

/-- The digits that the loop of `parse_hex4` reads before it stops. -/
def hexRun (s : List UInt8) : List UInt8 := (s.take 4).takeWhile fun c => (hexDigit c).isSome

def hexValue (s : List UInt8) : Nat := s.foldl (fun v c => v * 16 + (hexDigit c).getD 0) 0

theorem hexRun_length_le (s : List UInt8) : (hexRun s).length ≤ 4 :=
  (List.takeWhile_sublist _).length_le.trans (List.length_take_le _ _)

/-- Four hexadecimal digits, and the parser behind the last byte that was read. -/
def parseHex4 (p : JsonParser buf) : Option Nat × JsonParser buf :=
  if h : p.pos + 4 ≤ buf.length then
    if hrun : (hexRun p.rest).length = 4 then (some (hexValue (hexRun p.rest)), p.advance 4 h)
    else
      (none, p.advance ((hexRun p.rest).length + 1)
        (by have := hexRun_length_le p.rest; omega))
  else (none, p)

def isHighSurrogate (cp : Nat) : Bool := 0xD800 ≤ cp && cp ≤ 0xDBFF

def isLowSurrogate (cp : Nat) : Bool := 0xDC00 ≤ cp && cp ≤ 0xDFFF

def pairValue (high low : Nat) : Nat := 0x10000 + ((high - 0xD800) <<< 10 ||| (low - 0xDC00))

/-- The `u` case of the escape switch, behind the `u`. -/
def parseUnicode (p : JsonParser buf) : ParseResult buf (List UInt8) :=
  match parseHex4 p with
  | (none, p) => p.errAt "bad \\u escape"
  | (some cp, p) =>
      if isHighSurrogate cp then
        if h : p.pos + 2 ≤ buf.length ∧ p.rest.take 2 = [byte '\\', byte 'u'] then
          match parseHex4 (p.advance 2 h.1) with
          | (none, p) => p.errAt "bad low surrogate"
          | (some lo, p) =>
              if isLowSurrogate lo then .ok (utf8Emit (pairValue cp lo), p)
              else p.errAt "invalid low surrogate"
        else p.errAt "unpaired high surrogate"
      else if isLowSurrogate cp then p.errAt "unpaired low surrogate"
      else .ok (utf8Emit cp, p)

/-- The escapes of one letter. -/
def simpleEscape (e : UInt8) : Option UInt8 :=
  if e = byte '"' then some (byte '"')
  else if e = byte '\\' then some (byte '\\')
  else if e = byte '/' then some (byte '/')
  else if e = byte 'b' then some 8
  else if e = byte 'f' then some 12
  else if e = byte 'n' then some 10
  else if e = byte 'r' then some 13
  else if e = byte 't' then some 9
  else none

/-- The escape switch of `parse_string_raw`, behind the backslash. -/
def parseEscape (p : JsonParser buf) : ParseResult buf (List UInt8) :=
  if h : p.pos + 1 ≤ buf.length then
    let e := buf.getD p.pos 0
    match simpleEscape e with
    | some c => .ok ([c], p.advance 1 h)
    | none =>
        if e = byte 'u' then parseUnicode (p.advance 1 h)
        else (p.advance 1 h).errAt "invalid escape"
  else p.errAt "unterminated string"

/-- The loop of `parse_string_raw`. With as much fuel as bytes are left it stops at the
end of the input before the fuel does. -/
def parseStringLoop : (fuel : Nat) → JsonParser buf → List UInt8 → ParseResult buf (List UInt8)
  | 0, p, _ => p.errAt "unterminated string"
  | fuel + 1, p, out =>
      if h : p.pos + 1 ≤ buf.length then
        let c := buf.getD p.pos 0
        if c = byte '"' then .ok (out, p.advance 1 h)
        else if c = byte '\\' then
          match parseEscape (p.advance 1 h) with
          | .error e => .error e
          | .ok (decoded, p) => parseStringLoop fuel p (out ++ decoded)
        else if c < 0x20 then (p.advance 1 h).errAt "unescaped control character"
        else parseStringLoop fuel (p.advance 1 h) (out ++ [c])
      else p.errAt "unterminated string"

def parseStringRaw (p : JsonParser buf) : ParseResult buf (List UInt8) :=
  if h : p.peek = byte '"' then
    parseStringLoop (buf.length - (p.pos + 1)) (p.advance 1 (p.lt_of_peek h (by decide))) []
  else p.errAt "expected '\"'"

def isNumberByte (c : UInt8) : Bool :=
  isDigit c || c = byte '-' || c = byte '+' || c = byte '.' || c = byte 'e' || c = byte 'E'

/-- Size of the buffer that a number is copied to. -/
def numberBuffer : Nat := 64

def parseNumber (p : JsonParser buf) : ParseResult buf JsonValue :=
  let lexeme := p.rest.takeWhile isNumberByte
  let behind := p.skip isNumberByte
  if lexeme.length = 0 then behind.errAt "expected number"
  else if lexeme.length ≥ numberBuffer then behind.errAt "number too long"
  else
    let converted := strtod lexeme
    if lexeme.getD converted.2 0 ≠ 0 then p.errAt "malformed number"
    else .ok (.number converted.1, behind)

def parseLiteral (p : JsonParser buf) (lit : List UInt8) (v : JsonValue) :
    ParseResult buf JsonValue :=
  if h : p.pos + lit.length ≤ buf.length ∧ p.rest.take lit.length = lit then
    .ok (v, p.advance lit.length h.1)
  else p.errAt "invalid literal"

/-- A parser of one value. -/
abbrev ValueParser (buf : List UInt8) := JsonParser buf → Option (ParseResult buf JsonValue)

/-- The loop of `parse_array`. -/
def parseArrayLoop (value : ValueParser buf) :
    (fuel : Nat) → JsonParser buf → List JsonValue → Option (ParseResult buf JsonValue)
  | 0, _, _ => none
  | fuel + 1, p, items =>
      match value p with
      | none => none
      | some (.error e) => some (.error e)
      | some (.ok (elem, p)) =>
          let p := skipWs p
          if h : p.peek = byte ',' then
            parseArrayLoop value fuel (skipWs (p.advance 1 (p.lt_of_peek h (by decide))))
              (items ++ [elem])
          else if h : p.peek = byte ']' then
            some (.ok (.array (items ++ [elem]), p.advance 1 (p.lt_of_peek h (by decide))))
          else some (p.errAt "expected ',' or ']'")

/-- `parse_array`, at the opening bracket. -/
def parseArray (value : ValueParser buf) (p : JsonParser buf) (h : p.pos + 1 ≤ buf.length) :
    Option (ParseResult buf JsonValue) :=
  let p := skipWs (p.advance 1 h)
  if h : p.peek = byte ']' then
    some (.ok (.array [], p.advance 1 (p.lt_of_peek h (by decide))))
  else parseArrayLoop value (buf.length + 1) p []

/-- One member: the key, the colon and the value. -/
def parseMember (value : ValueParser buf) (p : JsonParser buf) :
    Option (ParseResult buf (List UInt8 × JsonValue)) :=
  match parseStringRaw (skipWs p) with
  | .error e => some (.error e)
  | .ok (key, p) =>
      let p := skipWs p
      if h : p.peek = byte ':' then
        match value (skipWs (p.advance 1 (p.lt_of_peek h (by decide)))) with
        | none => none
        | some (.error e) => some (.error e)
        | some (.ok (v, p)) => some (.ok ((key, v), p))
      else some (p.errAt "expected ':'")

/-- The loop of `parse_object`. -/
def parseObjectLoop (value : ValueParser buf) : (fuel : Nat) → JsonParser buf →
    List (List UInt8 × JsonValue) → Option (ParseResult buf JsonValue)
  | 0, _, _ => none
  | fuel + 1, p, members =>
      match parseMember value p with
      | none => none
      | some (.error e) => some (.error e)
      | some (.ok (member, p)) =>
          let p := skipWs p
          if h : p.peek = byte ',' then
            parseObjectLoop value fuel (p.advance 1 (p.lt_of_peek h (by decide)))
              (members ++ [member])
          else if h : p.peek = byte '}' then
            some (.ok (.object (members ++ [member]), p.advance 1 (p.lt_of_peek h (by decide))))
          else some (p.errAt "expected ',' or '\x7d'")

/-- `parse_object`, at the opening brace. -/
def parseObject (value : ValueParser buf) (p : JsonParser buf) (h : p.pos + 1 ≤ buf.length) :
    Option (ParseResult buf JsonValue) :=
  let p := skipWs (p.advance 1 h)
  if h : p.peek = byte '}' then
    some (.ok (.object [], p.advance 1 (p.lt_of_peek h (by decide))))
  else parseObjectLoop value (buf.length + 1) p []

/-- The container parsers run one level deeper. -/
def JsonParser.enter (p : JsonParser buf) : JsonParser buf := { p with depth := p.depth + 1 }

def leave : Option (ParseResult buf JsonValue) → Option (ParseResult buf JsonValue)
  | some (.ok (v, p)) => some (.ok (v, { p with depth := p.depth - 1 }))
  | r => r

/-- The switch of `parse_value` over the byte at the cursor. -/
def parseSwitch (value : ValueParser buf) (p : JsonParser buf) (h : p.pos + 1 ≤ buf.length) :
    Option (ParseResult buf JsonValue) :=
  if p.peek = byte '\x7b' then leave (parseObject value p.enter h)
  else if p.peek = byte '[' then leave (parseArray value p.enter h)
  else if p.peek = byte '"' then
    match parseStringRaw p with
    | .error e => some (.error e)
    | .ok (s, p) => some (.ok (.string s, p))
  else if p.peek = byte 't' then some (parseLiteral p (bytes "true") (.boolean true))
  else if p.peek = byte 'f' then some (parseLiteral p (bytes "false") (.boolean false))
  else if p.peek = byte 'n' then some (parseLiteral p (bytes "null") .null)
  else if p.peek = byte '-' || isDigit p.peek then some (parseNumber p)
  else some (p.errAt "unexpected character")

def parseValue : (fuel : Nat) → ValueParser buf
  | 0, _ => none
  | fuel + 1, p =>
      if p.depth ≥ hbiJsonMaxDepth then some (p.errAt "maximum nesting depth exceeded")
      else
        let p := skipWs p
        if h : p.pos + 1 ≤ buf.length then parseSwitch (parseValue fuel) p h
        else some (p.errAt "unexpected end of input")

def JsonParser.start (buf : List UInt8) : JsonParser buf := ⟨0, 0, Nat.zero_le _⟩

/-- Levels that `parse_value` can be called at, the one that is refused included. -/
def parseFuel : Nat := hbiJsonMaxDepth + 1

/-- The message of `err_at`. -/
def JsonError.failure (e : JsonError buf) : Failure :=
  ⟨.corrupt, s!"json: {e.what} at byte {e.parser.pos}"⟩

def hbiJsonParse (text : List UInt8) : Option (Result JsonValue) :=
  if text.length = 0 then some (errSet .invalidArg "json_parse: NULL/empty input")
  else if text.length > hbiJsonMaxBytes then
    some (errSet .unsupported
      s!"json_parse: input {text.length} exceeds cap {hbiJsonMaxBytes}")
  else
    match parseValue parseFuel (JsonParser.start text) with
    | none => none
    | some (.error e) => some (.error e.failure)
    | some (.ok (root, p)) =>
        let p := skipWs p
        if p.atEnd then some (.ok root)
        else some (.error (JsonError.failure ⟨"trailing content after top-level value", p⟩))

end Hummingbird

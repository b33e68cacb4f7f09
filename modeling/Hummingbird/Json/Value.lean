import Hummingbird.Common
import Hummingbird.Foundation.Rounding

/-!
The JSON document model and the library calls its scanner rests on. Input and
strings are bytes. A number is the double that `strtod` returns; a string is what was
written to its buffer, without the terminating `NUL`.
-/

namespace Hummingbird

/-- Byte of a character constant of the source. -/
def byte (c : Char) : UInt8 := c.toUInt8

def bytes (text : String) : List UInt8 := text.toList.map byte

/-- `hbi_json_value`. -/
inductive JsonValue where
  | null
  | boolean (b : Bool)
  | number (d : Rounding.Number)
  | string (s : List UInt8)
  | array (items : List JsonValue)
  | object (members : List (List UInt8 × JsonValue))

mutual

/-- The largest number of containers around a value inside this one. -/
def JsonValue.nesting : JsonValue → Nat
  | .array items => nestingItems items
  | .object members => nestingMembers members
  | .null | .boolean _ | .number _ | .string _ => 0

def nestingItems : List JsonValue → Nat
  | [] => 0
  | v :: items => max (v.nesting + 1) (nestingItems items)

def nestingMembers : List (List UInt8 × JsonValue) → Nat
  | [] => 0
  | (_, v) :: members => max (v.nesting + 1) (nestingMembers members)

end

theorem nesting_array_le {items : List JsonValue} {n : Nat} (h : ∀ v ∈ items, v.nesting ≤ n) :
    (JsonValue.array items).nesting ≤ n + 1 := by
  change nestingItems items ≤ n + 1
  induction items with
  | nil => exact Nat.zero_le _
  | cons v items ih =>
      have hv := h v (by simp)
      have hrest := ih fun u hu => h u (by simp [hu])
      unfold nestingItems
      omega

theorem nesting_object_le {members : List (List UInt8 × JsonValue)} {n : Nat}
    (h : ∀ m ∈ members, m.2.nesting ≤ n) : (JsonValue.object members).nesting ≤ n + 1 := by
  change nestingMembers members ≤ n + 1
  induction members with
  | nil => exact Nat.zero_le _
  | cons m members ih =>
      have hm := h m (by simp)
      have hrest := ih fun u hu => h u (by simp [hu])
      unfold nestingMembers
      omega

def isDigit (c : UInt8) : Bool := byte '0' ≤ c && c ≤ byte '9'

def decimalValue (digits : List UInt8) : Nat :=
  digits.foldl (fun n c => 10 * n + (c.toNat - (byte '0').toNat)) 0

/-- Length of the sign at the head of a text. -/
def signLength (s : List UInt8) : Nat :=
  if s.head? = some (byte '-') ∨ s.head? = some (byte '+') then 1 else 0

def isNegative (s : List UInt8) : Bool := s.head? = some (byte '-')

/-- The exponent part at the head of a text: its value and its length, both zero when
there is no complete one. -/
def exponentPart (s : List UInt8) : Int × Nat :=
  if s.head? = some (byte 'e') ∨ s.head? = some (byte 'E') then
    let sign := signLength (s.drop 1)
    let digits := (s.drop (1 + sign)).takeWhile isDigit
    if digits = [] then (0, 0)
    else
      let value : Int := decimalValue digits
      (if isNegative (s.drop 1) then -value else value, 1 + sign + digits.length)
  else (0, 0)

/-- The point and the digits behind it at the head of a text: the digits and the length
of both. -/
def fractionPart (s : List UInt8) : List UInt8 × Nat :=
  if s.head? = some (byte '.') then
    let digits := (s.drop 1).takeWhile isDigit
    (digits, 1 + digits.length)
  else ([], 0)

/-- `strtod` in the C locale on a text without white space and letters other than
`e`: the value of the longest decimal subject sequence and the offset behind it. -/
def strtod (s : List UInt8) : Rounding.Number × Nat :=
  let sign := signLength s
  let whole := (s.drop sign).takeWhile isDigit
  let fraction := fractionPart (s.drop (sign + whole.length))
  if whole = [] ∧ fraction.1 = [] then (.finite false 0, 0)
  else
    let exponent := exponentPart (s.drop (sign + whole.length + fraction.2))
    let scale : Int := exponent.1 - fraction.1.length
    (Rounding.binary64.round (isNegative s) (decimalValue (whole ++ fraction.1) * 10 ^ scale),
      sign + whole.length + fraction.2 + exponent.2)

end Hummingbird

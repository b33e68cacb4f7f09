import Hummingbird.Common
import Hummingbird.Foundation.Probing

/-!
The vocabulary: a hash table from token texts to token ids, searched by text along a
probe sequence and by id from end to end. Texts are the bytes in front of the
terminating `NUL`, ids are `uint32_t`. The answer of the allocator to a request for a
larger table is an argument.
-/

namespace Hummingbird

def hbiTokenTextMax : Nat := 256

def hbiTokenInvalidId : Nat := uint32Max

inductive SpecialTokenType where
  | unknown
  | pad
  | bos
  | eos
  | sep
  | cls
  | mask
  deriving DecidableEq, Repr

/-- `hbi_vocab_entry`. -/
structure VocabEntry where
  text : List UInt8
  id : Nat
  occupied : Bool
  isSpecial : Bool
  specialType : SpecialTokenType
  deriving DecidableEq, Repr

/-- A cleared slot. -/
def VocabEntry.empty : VocabEntry := ⟨[], 0, false, false, .unknown⟩

/-- `hbi_vocabulary`; the capacity of the table is its length. -/
structure Vocabulary where
  table : List VocabEntry
  count : Nat
  specialIds : List Nat
  deriving DecidableEq, Repr

/-- What `hbi_vocabulary_create` leaves when it has chosen a capacity. -/
def Vocabulary.ofCapacity (capacity : Nat) : Vocabulary :=
  ⟨List.replicate capacity .empty, 0, List.replicate 7 hbiTokenInvalidId⟩

/-- The FNV-1a hash of a text. -/
def fnv1a (text : List UInt8) : UInt64 :=
  text.foldl (fun h c => (h ^^^ c.toUInt64) * 0x100000001b3) 0xcbf29ce484222325

def vocabHash (text : List UInt8) (capacity : Nat) : Nat :=
  (fnv1a text).toNat &&& (capacity - 1)

/-- The slots that the loops over the table visit for a text. -/
def vocabSlots (text : List UInt8) (capacity : Nat) : List Nat :=
  (List.range capacity).map fun i => (vocabHash text capacity + i) &&& (capacity - 1)

def vocabFindSlot (vocab : Vocabulary) (text : List UInt8) : Option Nat :=
  Probing.find VocabEntry.occupied VocabEntry.text .empty vocab.table text
    (vocabSlots text vocab.table.length)

def vocabFindById (vocab : Vocabulary) (id : Nat) : Option Nat :=
  vocab.table.findIdx? fun e => e.occupied && e.id == id

/-- The first slot of a text's visit that is not occupied. -/
def vocabFreeSlot (table : List VocabEntry) (text : List UInt8) : Option Nat :=
  Probing.free VocabEntry.occupied .empty table (vocabSlots text table.length)

/-- One round of the rehashing loop. -/
def vocabReinsert (table : List VocabEntry) (e : VocabEntry) : List VocabEntry :=
  if e.occupied then
    match vocabFreeSlot table e.text with
    | some slot => table.set slot e
    | none => table
  else table

def vocabResize (vocab : Vocabulary) (allocated : Bool) : Result Vocabulary :=
  let newCap := vocab.table.length * 2 % sizeTSize
  if allocated = false then errSet .oom "vocabulary resize failed"
  else
    .ok { vocab with
      table := vocab.table.foldl vocabReinsert (List.replicate newCap .empty) }

/-- The load factor of the table is above seven tenths. -/
def vocabLoaded (vocab : Vocabulary) : Prop :=
  vocab.count * 10 > vocab.table.length * 7 % sizeTSize

instance (vocab : Vocabulary) : Decidable (vocabLoaded vocab) :=
  inferInstanceAs (Decidable (_ > _))

/-- The insertion loop, when both the id and the text are new. -/
def vocabInsert (vocab : Vocabulary) (text : List UInt8) (id : Nat) : Vocabulary × Result Unit :=
  match vocabFreeSlot vocab.table text with
  | some slot =>
      ({ vocab with
          table := vocab.table.set slot ⟨text, id, true, false, .unknown⟩
          count := (vocab.count + 1) % uint32Size }, .ok ())
  | none => (vocab, errSet .state "vocabulary table full (unexpected)")

def hbiVocabularyAdd (vocab : Vocabulary) (text : List UInt8) (id : Nat) (allocated : Bool) :
    Vocabulary × Result Unit :=
  if text.length = 0 ∨ text.length ≥ hbiTokenTextMax then
    (vocab, errSet .invalidArg "empty or too-long token text")
  else
    match vocabFindById vocab id with
    | some existing =>
        if (vocab.table.getD existing .empty).text ≠ text then
          (vocab, errSet .state "duplicate token ID with different text")
        else (vocab, .ok ())
    | none =>
        match vocabFindSlot vocab text with
        | some slot =>
            if (vocab.table.getD slot .empty).id ≠ id then
              (vocab, errSet .state "duplicate token text with different ID")
            else (vocab, .ok ())
        | none =>
            if vocabLoaded vocab then
              match vocabResize vocab allocated with
              | .error e => (vocab, .error e)
              | .ok vocab => vocabInsert vocab text id
            else vocabInsert vocab text id

def hbiVocabularyLookup (vocab : Vocabulary) (text : List UInt8) : Nat :=
  match vocabFindSlot vocab text with
  | some slot => (vocab.table.getD slot .empty).id
  | none => hbiTokenInvalidId

def hbiVocabularyText (vocab : Vocabulary) (id : Nat) : Option (List UInt8) :=
  (vocabFindById vocab id).map fun slot => (vocab.table.getD slot .empty).text

def hbiVocabularySize (vocab : Vocabulary) : Nat := vocab.count

/-- One call of `hbi_vocabulary_add`. -/
structure AddCall where
  text : List UInt8
  id : Nat
  allocated : Bool
  deriving DecidableEq, Repr

def Vocabulary.add (vocab : Vocabulary) (c : AddCall) : Vocabulary × Result Unit :=
  hbiVocabularyAdd vocab c.text c.id c.allocated

/-- The vocabulary after a sequence of calls. -/
def Vocabulary.adds (vocab : Vocabulary) (calls : List AddCall) : Vocabulary :=
  calls.foldl (fun vocab c => (vocab.add c).1) vocab

/-- The pairs whose calls returned `HBI_OK`, in the order of the calls. -/
def Vocabulary.accepted (vocab : Vocabulary) : List AddCall → List (List UInt8 × Nat)
  | [] => []
  | c :: calls =>
      if (vocab.add c).2 = .ok () then (c.text, c.id) :: accepted (vocab.add c).1 calls
      else accepted (vocab.add c).1 calls

end Hummingbird

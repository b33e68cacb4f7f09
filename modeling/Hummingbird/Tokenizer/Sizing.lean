import Hummingbird.Foundation.Doubling
import Hummingbird.Tokenizer.Special

/-!
The capacity of a vocabulary and the block of its table. Both are `size_t`: the loop that looks
for a power of two doubles a counter of 64 bits, and the size of the block is a product modulo
`2 ^ 64`. The answers of the allocator are arguments.
-/

namespace Hummingbird

/-- `sizeof(hbi_vocab_entry)`: the text, the id, two flags, two bytes of padding, the type. -/
def vocabEntrySize : Nat := hbiTokenTextMax + 4 + 2 + 2 + 4

/-- The size that is requested for a table. -/
def vocabTableBytes (capacity : Nat) : Nat := capacity * vocabEntrySize % sizeTSize

/-- `vocab_next_pow2`, for as many rounds as there is fuel. -/
def vocabNextPow2 (fuel n : Nat) : Option Nat := Doubling.loop 64 n fuel 16

/-- A vocabulary with the size of the block that its table is in. -/
structure VocabBlock where
  vocab : Vocabulary
  tableBytes : Nat

/-- `granted` answers the request for the record, `answer` that for the table. -/
def hbiVocabularyCreate (fuel initialCapacity : Nat) (granted answer : Bool) :
    Option (Result VocabBlock) :=
  (vocabNextPow2 fuel (if initialCapacity < 16 then 16 else initialCapacity)).map fun cap =>
    if granted = false then errSet .oom "vocabulary allocation failed"
    else if answer = false then errSet .oom "vocabulary table allocation failed"
    else .ok ⟨.ofCapacity cap, vocabTableBytes cap⟩

namespace VocabBlock

/-- `vocab_resize` with the block of the new table. -/
def resize (b : VocabBlock) (allocated : Bool) : Result VocabBlock :=
  (vocabResize b.vocab allocated).map fun vocab =>
    ⟨vocab, vocabTableBytes (b.vocab.table.length * 2 % sizeTSize)⟩

/-- The insertion loop stays in the block. -/
def insert (b : VocabBlock) (text : List UInt8) (id : Nat) : VocabBlock :=
  { b with vocab := (vocabInsert b.vocab text id).1 }

def add (b : VocabBlock) (c : AddCall) : VocabBlock :=
  if c.text.length = 0 ∨ c.text.length ≥ hbiTokenTextMax then b
  else
    match vocabFindById b.vocab c.id, vocabFindSlot b.vocab c.text with
    | none, none =>
        if vocabLoaded b.vocab then
          match b.resize c.allocated with
          | .error _ => b
          | .ok grown => grown.insert c.text c.id
        else b.insert c.text c.id
    | _, _ => b

def call (b : VocabBlock) : VocabCall → VocabBlock
  | .add c => b.add c
  | .setSpecial id type => { b with vocab := (hbiVocabularySetSpecial b.vocab id type).1 }

/-- The capacity is a power of two that is large enough for the request, and the block has room
for that many entries. -/
structure Sized (n : Nat) (b : VocabBlock) : Prop where
  capacity_pow : ∃ k, b.vocab.table.length = 2 ^ k
  capacity_ge : max 16 n ≤ b.vocab.table.length
  bytes_eq : b.tableBytes = b.vocab.table.length * vocabEntrySize

/-- The call of `vocab_resize` aside, the block does what the vocabulary does. -/
theorem add_vocab (b : VocabBlock) (c : AddCall) : (b.add c).vocab = (b.vocab.add c).1 := by
  unfold add Vocabulary.add hbiVocabularyAdd
  split
  · rfl
  cases vocabFindById b.vocab c.id with
  | some existing =>
      dsimp only
      split <;> rfl
  | none =>
      cases vocabFindSlot b.vocab c.text with
      | some slot =>
          dsimp only
          split <;> rfl
      | none =>
          dsimp only
          by_cases hloaded : vocabLoaded b.vocab
          · rw [if_pos hloaded, if_pos hloaded]
            unfold resize
            cases vocabResize b.vocab c.allocated with
            | error e => rfl
            | ok grown => rfl
          · rw [if_neg hloaded, if_neg hloaded]
            rfl

theorem call_vocab (b : VocabBlock) (c : VocabCall) : (b.call c).vocab = b.vocab.call c := by
  cases c with
  | add c => exact b.add_vocab c
  | setSpecial id type => rfl

end VocabBlock

theorem Vocabulary.length_ofCapacity (capacity : Nat) :
    (Vocabulary.ofCapacity capacity).table.length = capacity := List.length_replicate

theorem length_vocabInsert (vocab : Vocabulary) (text : List UInt8) (id : Nat) :
    (vocabInsert vocab text id).1.table.length = vocab.table.length := by
  unfold vocabInsert
  split
  · exact List.length_set
  · rfl

theorem length_foldl_vocabReinsert (entries table : List VocabEntry) :
    (entries.foldl vocabReinsert table).length = table.length := by
  induction entries generalizing table with
  | nil => rfl
  | cons e entries ih => rw [List.foldl_cons, ih, length_vocabReinsert]

theorem length_setSpecial (vocab : Vocabulary) (id : Nat) (type : SpecialTokenType) :
    (hbiVocabularySetSpecial vocab id type).1.table.length = vocab.table.length := by
  unfold hbiVocabularySetSpecial
  split
  · rfl
  · exact List.length_set

theorem Vocabulary.Stored.call {vocab : Vocabulary} (h : vocab.Stored) (c : VocabCall) :
    (vocab.call c).Stored := by
  cases c with
  | add c => exact (h.add c).1
  | setSpecial id type =>
      cases hfind : vocabFindById vocab id with
      | none =>
          rw [Vocabulary.call, hbiVocabularySetSpecial, hfind]
          exact h
      | some slot => exact (h.setSpecial hfind type).stored

namespace VocabBlock

/-- What a resize that gets its memory comes to. -/
theorem resize_ok {b grown : VocabBlock} {allocated : Bool} (h : b.resize allocated = .ok grown) :
    grown.vocab.table.length = b.vocab.table.length * 2 % sizeTSize ∧
      grown.tableBytes = vocabTableBytes (b.vocab.table.length * 2 % sizeTSize) := by
  unfold resize vocabResize at h
  cases allocated with
  | false => cases h
  | true =>
      cases h
      exact ⟨(length_foldl_vocabReinsert _ _).trans List.length_replicate, rfl⟩

/-- A call leaves the capacity and the block, or it is on a loaded table and resizes it. -/
theorem call_cases (b : VocabBlock) (c : VocabCall) :
    ((b.call c).vocab.table.length = b.vocab.table.length ∧
      (b.call c).tableBytes = b.tableBytes) ∨
    (vocabLoaded b.vocab ∧
      (b.call c).vocab.table.length = b.vocab.table.length * 2 % sizeTSize ∧
      (b.call c).tableBytes = vocabTableBytes (b.vocab.table.length * 2 % sizeTSize)) := by
  cases c with
  | setSpecial id type => exact .inl ⟨length_setSpecial _ _ _, rfl⟩
  | add c =>
      unfold call add
      dsimp only
      split
      · exact .inl ⟨rfl, rfl⟩
      split
      · by_cases hloaded : vocabLoaded b.vocab
        · rw [if_pos hloaded]
          cases hresize : b.resize c.allocated with
          | error e => exact .inl ⟨rfl, rfl⟩
          | ok grown =>
              obtain ⟨hlen, hbytes⟩ := resize_ok hresize
              exact .inr ⟨hloaded, (length_vocabInsert _ _ _).trans hlen, hbytes⟩
        · rw [if_neg hloaded]
          exact .inl ⟨length_vocabInsert _ _ _, rfl⟩
      · exact .inl ⟨rfl, rfl⟩

/-- The block of a power of two has its size up to `2 ^ 55`. -/
theorem tableBytes_pow_iff {m : Nat} :
    vocabTableBytes (2 ^ m) = 2 ^ m * vocabEntrySize ↔ m ≤ 55 := by
  have hsize : vocabEntrySize = 268 := rfl
  have hmod : (2 ^ m * 268) % sizeTSize = 2 ^ m * 268 ↔ 2 ^ m * 268 < sizeTSize :=
    Nat.mod_eq_iff_lt (by decide)
  unfold vocabTableBytes
  rw [hsize, hmod]
  unfold sizeTSize
  constructor
  · intro hlt
    by_contra hgt
    have hpow : 2 ^ 56 ≤ 2 ^ m := Nat.pow_le_pow_right (by decide) (by omega)
    omega
  · intro hle
    have hpow : 2 ^ m ≤ 2 ^ 55 := Nat.pow_le_pow_right (by decide) hle
    omega

/-- A loaded table has far less than `2 ^ 55` slots, as the count has 32 bits. -/
theorem le_of_loaded {vocab : Vocabulary} {k : Nat} (hstored : vocab.Stored)
    (hloaded : vocabLoaded vocab) (hk : vocab.table.length = 2 ^ k) (hle : k ≤ 55) :
    k + 1 ≤ 55 := by
  have hcount := hstored.count_lt
  have hpow : 2 ^ k ≤ 2 ^ 55 := Nat.pow_le_pow_right (by decide) hle
  unfold vocabLoaded at hloaded
  rw [hk, Nat.mod_eq_of_lt (by unfold sizeTSize; omega)] at hloaded
  unfold uint32Size at hcount
  by_contra hgt
  obtain rfl : k = 55 := by omega
  omega

/-- What every call keeps of a block. -/
structure Kept (n : Nat) (b : VocabBlock) : Prop where
  stored : b.vocab.Stored
  capacity_pow : ∃ k, k ≤ 55 ∧ b.vocab.table.length = 2 ^ k
  capacity_ge : max 16 n ≤ b.vocab.table.length
  bytes_eq : b.tableBytes = b.vocab.table.length * vocabEntrySize

theorem kept_ofCapacity {n m : Nat} (hm : 4 ≤ m) (hle : m ≤ 55) (hreach : max 16 n ≤ 2 ^ m) :
    Kept n ⟨.ofCapacity (2 ^ m), vocabTableBytes (2 ^ m)⟩ := by
  have hlen := Vocabulary.length_ofCapacity (2 ^ m)
  refine ⟨Vocabulary.stored_ofCapacity hm (by omega), ⟨m, hle, hlen⟩, ?_, ?_⟩
  · rwa [hlen]
  · rw [hlen]
    exact tableBytes_pow_iff.mpr hle

theorem Kept.sized {n : Nat} {b : VocabBlock} (h : b.Kept n) : b.Sized n := by
  obtain ⟨k, -, hk⟩ := h.capacity_pow
  exact ⟨⟨k, hk⟩, h.capacity_ge, h.bytes_eq⟩

theorem Kept.call {n : Nat} {b : VocabBlock} (h : b.Kept n) (c : VocabCall) :
    (b.call c).Kept n := by
  have hstored : (b.call c).vocab.Stored := by
    rw [call_vocab]
    exact h.stored.call c
  obtain ⟨k, hle, hk⟩ := h.capacity_pow
  rcases b.call_cases c with ⟨hlen, hbytes⟩ | ⟨hloaded, hlen, hbytes⟩
  · refine ⟨hstored, ⟨k, hle, hlen.trans hk⟩, ?_, ?_⟩
    · rw [hlen]
      exact h.capacity_ge
    · rw [hlen, hbytes]
      exact h.bytes_eq
  · have hle' := le_of_loaded h.stored hloaded hk hle
    have hdouble : b.vocab.table.length * 2 % sizeTSize = 2 ^ (k + 1) := by
      rw [hk, ← Nat.pow_succ, Nat.mod_eq_of_lt]
      exact Nat.pow_lt_pow_right (by decide) (show k + 1 < 64 by omega)
    rw [hdouble] at hlen hbytes
    refine ⟨hstored, ⟨k + 1, hle', hlen⟩, ?_, ?_⟩
    · have hge := h.capacity_ge
      rw [hlen, Nat.pow_succ]
      omega
    · rw [hlen, hbytes]
      exact tableBytes_pow_iff.mpr hle'

end VocabBlock

/-- A capacity that is found is the first power of two that the request fits. -/
theorem vocabNextPow2_some {fuel n capacity : Nat}
    (h : vocabNextPow2 fuel (max 16 n) = some capacity) :
    ∃ m, 4 ≤ m ∧ m < 64 ∧ capacity = 2 ^ m ∧ max 16 n ≤ 2 ^ m ∧ (n ≤ 2 ^ 55 → m ≤ 55) := by
  obtain ⟨m, hm4, hm, hcapacity, hreach, hfirst⟩ :=
    @Doubling.loop_some_pow 64 _ fuel 4 capacity (by decide) (by omega) h
  exact ⟨m, hm4, hm, hcapacity, hreach, fun hn => hfirst 55 (by decide) (by omega)⟩

theorem hbiVocabularyCreate_of_loop {fuel n capacity : Nat}
    (h : vocabNextPow2 fuel (if n < 16 then 16 else n) = some capacity) (granted answer : Bool) :
    hbiVocabularyCreate fuel n granted answer = some
      (if granted = false then errSet .oom "vocabulary allocation failed"
      else if answer = false then errSet .oom "vocabulary table allocation failed"
      else .ok ⟨.ofCapacity capacity, vocabTableBytes capacity⟩) := by
  unfold hbiVocabularyCreate
  rw [h, Option.map_some]

theorem initial_eq_max (n : Nat) : (if n < 16 then 16 else n) = max 16 n := by
  split_ifs with h
  · omega
  · omega

/-- `hbi_vocabulary_create` ends, and with an error or with a table that keeps its size through
every sequence of calls, exactly when no more than `2 ^ 55` slots are asked for or the allocator
refuses a request for up to `2 ^ 63` of them. -/
theorem hbi_vocabulary_create_sized_iff (n : Nat) (granted answer : Bool) :
    (∃ fuel r, hbiVocabularyCreate fuel n granted answer = some r ∧
        ∀ b, r = .ok b → ∀ calls, (Runs.final VocabBlock.call b calls).Sized n) ↔
      n ≤ 2 ^ 55 ∨ (n ≤ 2 ^ 63 ∧ (granted = false ∨ answer = false)) := by
  constructor
  · rintro ⟨fuel, r, hcreate, hsized⟩
    unfold hbiVocabularyCreate at hcreate
    rw [initial_eq_max] at hcreate
    obtain ⟨capacity, hloop, rfl⟩ := Option.map_eq_some_iff.mp hcreate
    obtain ⟨m, hm4, hm, rfl, hreach, -⟩ := vocabNextPow2_some hloop
    have hpow : 2 ^ m ≤ 2 ^ 63 := Nat.pow_le_pow_right (by decide) (by omega)
    by_cases hrefused : granted = false ∨ answer = false
    · exact .inr ⟨by omega, hrefused⟩
    · obtain ⟨hgranted, hanswer⟩ := not_or.mp hrefused
      rw [if_neg hgranted, if_neg hanswer] at hsized
      have hbytes : vocabTableBytes (2 ^ m) =
          (Vocabulary.ofCapacity (2 ^ m)).table.length * vocabEntrySize :=
        (hsized _ rfl []).bytes_eq
      rw [Vocabulary.length_ofCapacity] at hbytes
      have hm55 := VocabBlock.tableBytes_pow_iff.mp hbytes
      have hpow' : 2 ^ m ≤ 2 ^ 55 := Nat.pow_le_pow_right (by decide) hm55
      exact .inl (by omega)
  · intro h
    obtain ⟨m, hm4, hm, -, hloop⟩ :=
      @Doubling.loop_pow 64 (max 16 n) 4 (by decide) (by rcases h with h | ⟨h, -⟩ <;> omega)
    change vocabNextPow2 65 (max 16 n) = some (2 ^ m) at hloop
    rw [← initial_eq_max] at hloop
    refine ⟨65, _, hbiVocabularyCreate_of_loop hloop granted answer, ?_⟩
    rw [initial_eq_max] at hloop
    obtain ⟨m', -, -, hpow, hreach, hfirst⟩ := vocabNextPow2_some hloop
    obtain rfl : m = m' := Nat.pow_right_injective (le_refl 2) hpow
    intro b hb calls
    split_ifs at hb with hgranted hanswer
    · cases hb
    · cases hb
    · cases hb
      rcases h with h | ⟨-, h⟩
      · exact (Runs.final_of_step (fun _ c hkept => hkept.call c)
          (VocabBlock.kept_ofCapacity hm4 (hfirst h) hreach) calls).sized
      · exact absurd h (not_or.mpr ⟨hgranted, hanswer⟩)

/-- Past `2 ^ 63` slots the loop never ends; for `2 ^ 62` the table has a block of no bytes. -/
theorem hbi_vocabulary_create_endless :
    (¬ ∃ fuel r, hbiVocabularyCreate fuel (2 ^ 63 + 1) true true = some r) ∧
      ∃ b, hbiVocabularyCreate 65 (2 ^ 62) true true = some (.ok b) ∧
        b.vocab.table.length = 2 ^ 62 ∧ b.tableBytes = 0 := by
  constructor
  · rintro ⟨fuel, r, hcreate⟩
    have hnone : vocabNextPow2 fuel (2 ^ 63 + 1) = none :=
      @Doubling.loop_endless 64 (2 ^ 63 + 1) 4 fuel (by decide) (Nat.lt_succ_self _)
    unfold hbiVocabularyCreate at hcreate
    rw [if_neg (by decide), hnone, Option.map_none] at hcreate
    cases hcreate
  · have hloop : vocabNextPow2 65 (if 2 ^ 62 < 16 then 16 else 2 ^ 62) = some (2 ^ 62) := by
      decide +kernel
    exact ⟨_, hbiVocabularyCreate_of_loop hloop true true, Vocabulary.length_ofCapacity _,
      by decide +kernel⟩

end Hummingbird

import Hummingbird.Foundation.Runs
import Hummingbird.Tokenizer.Refine

/-!
The special tokens of a vocabulary are kept twice: a table from types to ids, and a mark with
a type on the entry of the token. Marking a token writes both, and erases neither the mark of
the token the type belonged to nor the type the token had.
-/

namespace Hummingbird

/-- The number of a type in `hbi_special_token_type`. -/
def SpecialTokenType.index : SpecialTokenType → Nat
  | .unknown => 0
  | .pad => 1
  | .bos => 2
  | .eos => 3
  | .sep => 4
  | .cls => 5
  | .mask => 6

def hbiVocabularySetSpecial (vocab : Vocabulary) (id : Nat) (type : SpecialTokenType) :
    Vocabulary × Result Unit :=
  match vocabFindById vocab id with
  | none => (vocab, errSet .notFound "token ID not in vocabulary")
  | some slot =>
      ({ vocab with
          table := vocab.table.set slot
            { vocab.table.getD slot .empty with isSpecial := true, specialType := type }
          specialIds := vocab.specialIds.set type.index id }, .ok ())

def hbiVocabularyIsSpecial (vocab : Vocabulary) (id : Nat) : Bool :=
  match vocabFindById vocab id with
  | none => false
  | some slot => (vocab.table.getD slot .empty).isSpecial

def hbiVocabularySpecialId (vocab : Vocabulary) (type : SpecialTokenType) : Nat :=
  vocab.specialIds.getD type.index hbiTokenInvalidId

/-- A call that changes a vocabulary. -/
inductive VocabCall where
  | add (c : AddCall)
  | setSpecial (id : Nat) (type : SpecialTokenType)
  deriving DecidableEq, Repr

def Vocabulary.call (vocab : Vocabulary) : VocabCall → Vocabulary
  | .add c => (vocab.add c).1
  | .setSpecial id type => (hbiVocabularySetSpecial vocab id type).1

/-- The id is in the vocabulary and its entry is marked with the type. -/
def Vocabulary.Marked (vocab : Vocabulary) (type : SpecialTokenType) (id : Nat) : Prop :=
  ∃ e, Probing.Entry VocabEntry.occupied vocab.table e ∧ e.id = id ∧ e.isSpecial = true ∧
    e.specialType = type

/-- The table of types and the marks are one relation. -/
structure Vocabulary.SpecialConsistent (vocab : Vocabulary) : Prop where
  special_id_iff : ∀ type id, id ≠ hbiTokenInvalidId →
    (hbiVocabularySpecialId vocab type = id ↔ vocab.Marked type id)
  is_special_iff : ∀ id, id ≠ hbiTokenInvalidId →
    (hbiVocabularyIsSpecial vocab id = true ↔ ∃ type, hbiVocabularySpecialId vocab type = id)

/-- A token may be marked with a type that no other token has, when it has no other type. -/
def Vocabulary.SpecialRoom (vocab : Vocabulary) : VocabCall → Prop
  | .add _ => True
  | .setSpecial id type =>
      match vocabFindById vocab id with
      | none => True
      | some slot =>
          (hbiVocabularySpecialId vocab type = hbiTokenInvalidId ∨
            hbiVocabularySpecialId vocab type = id) ∧
          (id = hbiTokenInvalidId ∨ (vocab.table.getD slot .empty).isSpecial = false ∨
            (vocab.table.getD slot .empty).specialType = type)

/-- What every call keeps of the table, whatever the ids are. -/
structure Vocabulary.Stored (vocab : Vocabulary) : Prop where
  capacity : ∃ k, 4 ≤ k ∧ k < 64 ∧ vocab.table.length = 2 ^ k
  inv : vocabInv vocab.table
  id_inj : ∀ x y, Probing.Entry VocabEntry.occupied vocab.table x →
    Probing.Entry VocabEntry.occupied vocab.table y → x.id = y.id → x = y
  count_lt : vocab.count < uint32Size
  types : vocab.specialIds.length = 7

/-- Neither representation of the special tokens changes. -/
structure Vocabulary.SameMarks (vocab after : Vocabulary) : Prop where
  ids : after.specialIds = vocab.specialIds
  marked_iff : ∀ type id, after.Marked type id ↔ vocab.Marked type id

theorem SpecialTokenType.index_lt (type : SpecialTokenType) : type.index < 7 := by
  cases type <;> decide

theorem SpecialTokenType.index_inj {type type' : SpecialTokenType}
    (h : type.index = type'.index) : type = type' := by
  cases type <;> cases type' <;> first | rfl | exact absurd h (by decide)

theorem Vocabulary.SameMarks.refl (vocab : Vocabulary) : vocab.SameMarks vocab :=
  ⟨rfl, fun _ _ => Iff.rfl⟩

theorem Vocabulary.SameMarks.trans {vocab mid after : Vocabulary} (h : vocab.SameMarks mid)
    (h' : mid.SameMarks after) : vocab.SameMarks after :=
  ⟨h'.ids.trans h.ids, fun type id => (h'.marked_iff type id).trans (h.marked_iff type id)⟩

theorem Vocabulary.marked_congr {vocab after : Vocabulary}
    (hentry : ∀ e, Probing.Entry VocabEntry.occupied after.table e ↔
      Probing.Entry VocabEntry.occupied vocab.table e) (type : SpecialTokenType) (id : Nat) :
    after.Marked type id ↔ vocab.Marked type id :=
  exists_congr fun e => and_congr_left fun _ => hentry e

/-- The entry of an id that the search finds. -/
theorem Vocabulary.Stored.entry_eq {vocab : Vocabulary} (h : vocab.Stored) {id slot : Nat}
    (hfind : vocabFindById vocab id = some slot) {e : VocabEntry}
    (he : Probing.Entry VocabEntry.occupied vocab.table e) (hid : e.id = id) :
    e = vocab.table.getD slot .empty := by
  obtain ⟨hslot, hslotId⟩ := vocabFindById_some hfind
  exact h.id_inj e _ he hslot (hid.trans hslotId.symm)

/-- The query reads the mark of the id's only entry. -/
theorem hbiVocabularyIsSpecial_iff {vocab : Vocabulary} (h : vocab.Stored) (id : Nat) :
    hbiVocabularyIsSpecial vocab id = true ↔ ∃ type, vocab.Marked type id := by
  unfold hbiVocabularyIsSpecial
  cases hfind : vocabFindById vocab id with
  | none =>
      constructor
      · exact fun hfalse => absurd hfalse Bool.false_ne_true
      · rintro ⟨_, e, he, hid, _⟩
        exact absurd hid (vocabFindById_none hfind he)
  | some slot =>
      obtain ⟨he, hid⟩ := vocabFindById_some hfind
      constructor
      · exact fun hmark => ⟨_, _, he, hid, hmark, rfl⟩
      · rintro ⟨_, e, he', hid', hmark, _⟩
        rw [h.entry_eq hfind he' hid'] at hmark
        exact hmark

/-- The second half of the agreement follows from the first. -/
theorem Vocabulary.Stored.specialConsistent {vocab : Vocabulary} (h : vocab.Stored)
    (hiff : ∀ type id, id ≠ hbiTokenInvalidId →
      (hbiVocabularySpecialId vocab type = id ↔ vocab.Marked type id)) :
    vocab.SpecialConsistent := by
  refine ⟨hiff, fun id hid => ?_⟩
  rw [hbiVocabularyIsSpecial_iff h]
  exact exists_congr fun type => (hiff type id hid).symm

theorem Vocabulary.SpecialConsistent.of_sameMarks {vocab after : Vocabulary}
    (h : vocab.SpecialConsistent) (hafter : after.Stored) (hsame : vocab.SameMarks after) :
    after.SpecialConsistent := by
  apply hafter.specialConsistent
  intro type id hid
  rw [hsame.marked_iff, ← h.special_id_iff type id hid]
  unfold hbiVocabularySpecialId
  rw [hsame.ids]

/-- The count of the entries is too small for a table whose capacity would wrap to be
loaded. -/
theorem Vocabulary.Stored.lt_of_loaded {vocab : Vocabulary} (h : vocab.Stored)
    (hloaded : vocabLoaded vocab) {k : Nat} (hk : vocab.table.length = 2 ^ k) (hk' : k < 64) :
    k + 1 < 64 := by
  have hcount := h.count_lt
  unfold vocabLoaded at hloaded
  unfold uint32Size at hcount
  by_contra hge
  obtain rfl : k = 63 := by omega
  rw [hk] at hloaded
  norm_num [sizeTSize] at hloaded
  omega

theorem Vocabulary.Stored.resize {vocab : Vocabulary} (h : vocab.Stored)
    (hloaded : vocabLoaded vocab) :
    ∃ grown, vocabResize vocab true = .ok grown ∧ grown.Stored ∧
      grown.specialIds = vocab.specialIds ∧
      ∀ e, Probing.Entry VocabEntry.occupied grown.table e ↔
        Probing.Entry VocabEntry.occupied vocab.table e := by
  obtain ⟨k, hk4, hk64, hk⟩ := h.capacity
  have hk' := h.lt_of_loaded hloaded hk hk64
  have hroom : vocab.table.countP VocabEntry.occupied ≤ 2 ^ (k + 1) := by
    have hle : vocab.table.countP VocabEntry.occupied ≤ 2 ^ k := hk ▸ List.countP_le_length
    exact hle.trans (Nat.pow_le_pow_right (by decide) (Nat.le_succ k))
  obtain ⟨hinv, hlen, -, hentry⟩ := h.inv.rehash VocabEntry.empty_free hroom
  refine ⟨_, vocabResize_eq_rehash hk hk', ⟨⟨k + 1, by omega, hk', hlen⟩, hinv, ?_, ?_, ?_⟩,
    rfl, hentry⟩
  · intro x y hx hy
    exact h.id_inj x y ((hentry x).mp hx) ((hentry y).mp hy)
  · exact h.count_lt
  · exact h.types

/-- A new entry carries no mark. -/
theorem Vocabulary.Stored.insert {vocab : Vocabulary} (h : vocab.Stored) {text : List UInt8}
    {id : Nat}
    (hnewText : ∀ e, Probing.Entry VocabEntry.occupied vocab.table e → e.text ≠ text)
    (hnewId : ∀ e, Probing.Entry VocabEntry.occupied vocab.table e → e.id ≠ id) :
    (vocabInsert vocab text id).1.Stored ∧ vocab.SameMarks (vocabInsert vocab text id).1 := by
  obtain ⟨k, hk4, hk64, hk⟩ := h.capacity
  cases hslot : vocabFreeSlot vocab.table text with
  | none =>
      rw [vocabInsert, hslot]
      exact ⟨h, .refl vocab⟩
  | some slot =>
      rw [vocabInsert, hslot]
      rw [vocabFreeSlot, vocabSlots_eq_probe hk] at hslot
      obtain ⟨_, _, _, hlt, hfree, _⟩ := Probing.free_some hslot
      let e : VocabEntry := ⟨text, id, true, false, .unknown⟩
      have hinv := h.inv.set_free (e := e) VocabEntry.empty_free rfl hnewText hslot
      have hentry := Probing.entry_set_free (e := e) hlt hfree rfl
      refine ⟨⟨⟨k, hk4, hk64, (List.length_set).trans hk⟩, hinv, ?_, ?_, h.types⟩, rfl, ?_⟩
      · intro x y hx hy hxy
        rcases (hentry x).mp hx with rfl | hx
        · rcases (hentry y).mp hy with rfl | hy
          · rfl
          · exact absurd hxy.symm (hnewId y hy)
        · rcases (hentry y).mp hy with rfl | hy
          · exact absurd hxy (hnewId x hx)
          · exact h.id_inj x y hx hy hxy
      · exact Nat.mod_lt _ (by decide)
      · intro type id
        constructor
        · rintro ⟨x, hx, hid, hmark, htype⟩
          rcases (hentry x).mp hx with rfl | hx
          · exact absurd hmark Bool.false_ne_true
          · exact ⟨x, hx, hid, hmark, htype⟩
        · rintro ⟨x, hx, hmarked⟩
          exact ⟨x, (hentry x).mpr (Or.inr hx), hmarked⟩

theorem Vocabulary.Stored.findSlot_none {vocab : Vocabulary} (h : vocab.Stored)
    {text : List UInt8} (hslot : vocabFindSlot vocab text = none) {e : VocabEntry}
    (he : Probing.Entry VocabEntry.occupied vocab.table e) : e.text ≠ text := by
  rintro htext
  obtain ⟨k, _, _, hk⟩ := h.capacity
  obtain ⟨s, hocc, rfl⟩ := (Probing.entry_iff VocabEntry.empty_free).mp he
  rw [vocabFindSlot, vocabSlots_eq_probe hk, (h.inv.find_iff rfl).mpr ⟨hocc, htext⟩] at hslot
  exact absurd hslot (Option.some_ne_none s)

/-- No addition touches the special tokens, not even one that makes the table grow. -/
theorem Vocabulary.Stored.add {vocab : Vocabulary} (h : vocab.Stored) (c : AddCall) :
    (vocab.add c).1.Stored ∧ vocab.SameMarks (vocab.add c).1 := by
  have hkept : vocab.Stored ∧ vocab.SameMarks vocab := ⟨h, .refl vocab⟩
  unfold Vocabulary.add hbiVocabularyAdd
  split
  · exact hkept
  cases hfind : vocabFindById vocab c.id with
  | some existing =>
      dsimp only
      split
      · exact hkept
      · exact hkept
  | none =>
      have hnewId := fun e he => @vocabFindById_none vocab c.id hfind e he
      dsimp only
      cases hslot : vocabFindSlot vocab c.text with
      | some slot =>
          dsimp only
          split
          · exact hkept
          · exact hkept
      | none =>
          have hnewText := fun e he => @Stored.findSlot_none vocab h c.text hslot e he
          dsimp only
          by_cases hloaded : vocabLoaded vocab
          · rw [if_pos hloaded]
            cases c.allocated with
            | false => exact hkept
            | true =>
                obtain ⟨grown, hresize, hgrown, hids, hentry⟩ := h.resize hloaded
                have hsame : vocab.SameMarks grown := ⟨hids, vocab.marked_congr hentry⟩
                obtain ⟨hstored, hinsert⟩ := hgrown.insert
                  (fun e he => hnewText e ((hentry e).mp he))
                  (fun e he => hnewId e ((hentry e).mp he))
                rw [hresize]
                exact ⟨hstored, hsame.trans hinsert⟩
          · rw [if_neg hloaded]
            exact h.insert hnewText hnewId

/-- Marking writes one entry and one place of the table of types. -/
structure Vocabulary.Marks (vocab : Vocabulary) (id : Nat) (type : SpecialTokenType)
    (after : Vocabulary) : Prop where
  stored : after.Stored
  special_id : ∀ type', hbiVocabularySpecialId after type' =
    if type' = type then id else hbiVocabularySpecialId vocab type'
  marked_iff : ∀ type' id', after.Marked type' id' ↔
    (type' = type ∧ id' = id) ∨ (id' ≠ id ∧ vocab.Marked type' id')

theorem Vocabulary.Stored.setSpecial {vocab : Vocabulary} (h : vocab.Stored) {id slot : Nat}
    (hfind : vocabFindById vocab id = some slot) (type : SpecialTokenType) :
    vocab.Marks id type (hbiVocabularySetSpecial vocab id type).1 := by
  obtain ⟨hslot, hid⟩ := vocabFindById_some hfind
  obtain ⟨k, hk4, hk64, hk⟩ := h.capacity
  let e : VocabEntry :=
    { vocab.table.getD slot .empty with isSpecial := true, specialType := type }
  have hinv := h.inv.set_same (e := e) VocabEntry.empty_free hslot.2 hslot.2 rfl
  have hentry := h.inv.entry_set_same (e := e) VocabEntry.empty_free hslot.2 hslot.2 rfl
  have hother : ∀ x, Probing.Entry VocabEntry.occupied vocab.table x →
      (x.text ≠ e.text ↔ x.id ≠ id) := by
    intro x hx
    apply not_congr
    constructor
    · intro htext
      rw [h.inv.key_inj VocabEntry.empty_free hx hslot htext]
      exact hid
    · intro hxid
      rw [h.entry_eq hfind hx hxid]
  have hentryId : ∀ x, Probing.Entry VocabEntry.occupied (vocab.table.set slot e) x ↔
      x = e ∨ (Probing.Entry VocabEntry.occupied vocab.table x ∧ x.id ≠ id) := by
    intro x
    rw [hentry]
    exact or_congr_right (and_congr_right fun hx => hother x hx)
  rw [hbiVocabularySetSpecial, hfind]
  refine ⟨⟨⟨k, hk4, hk64, (List.length_set).trans hk⟩, hinv, ?_, h.count_lt,
    (List.length_set).trans h.types⟩, ?_, ?_⟩
  · intro x y hx hy hxy
    rcases (hentryId x).mp hx with rfl | ⟨hx, hxid⟩
    · rcases (hentryId y).mp hy with rfl | ⟨hy, hyid⟩
      · rfl
      · exact absurd (hxy.symm.trans hid) hyid
    · rcases (hentryId y).mp hy with rfl | ⟨hy, hyid⟩
      · exact absurd (hxy.trans hid) hxid
      · exact h.id_inj x y hx hy hxy
  · intro type'
    unfold hbiVocabularySpecialId
    dsimp only
    by_cases htype : type' = type
    · have hlt := type.index_lt
      rw [if_pos htype, htype, List.getD_eq_getElem?_getD,
        List.getElem?_set_self (by rw [h.types]; exact hlt)]
      rfl
    · have hne : type.index ≠ type'.index := fun heq =>
        htype (SpecialTokenType.index_inj heq).symm
      rw [if_neg htype, List.getD_eq_getElem?_getD, List.getElem?_set_ne hne,
        ← List.getD_eq_getElem?_getD]
  · intro type' id'
    constructor
    · rintro ⟨x, hx, rfl, hmark, rfl⟩
      rcases (hentryId x).mp hx with rfl | ⟨hx, hxid⟩
      · exact Or.inl ⟨rfl, hid⟩
      · exact Or.inr ⟨hxid, x, hx, rfl, hmark, rfl⟩
    · rintro (⟨rfl, rfl⟩ | ⟨hne, x, hx, rfl, hmarked⟩)
      · exact ⟨e, (hentryId e).mpr (Or.inl rfl), hid, rfl, rfl⟩
      · exact ⟨x, (hentryId x).mpr (Or.inr ⟨hx, hne⟩), rfl, hmarked⟩

/-- Marking keeps the agreement exactly when it takes no type from another token and gives
no second one to its own. -/
theorem Vocabulary.Marks.consistent_iff {vocab after : Vocabulary} {id slot : Nat}
    {type : SpecialTokenType} (h : vocab.Marks id type after) (hstored : vocab.Stored)
    (hcons : vocab.SpecialConsistent) (hfind : vocabFindById vocab id = some slot) :
    after.SpecialConsistent ↔ vocab.SpecialRoom (.setSpecial id type) := by
  have hroom : vocab.SpecialRoom (.setSpecial id type) ↔
      (hbiVocabularySpecialId vocab type = hbiTokenInvalidId ∨
        hbiVocabularySpecialId vocab type = id) ∧
      (id = hbiTokenInvalidId ∨ (vocab.table.getD slot .empty).isSpecial = false ∨
        (vocab.table.getD slot .empty).specialType = type) := by
    rw [Vocabulary.SpecialRoom, hfind]
  obtain ⟨hslot, hslotId⟩ := vocabFindById_some hfind
  rw [hroom]
  constructor
  · intro hafter
    constructor
    · by_contra hne
      obtain ⟨hvalid, hother⟩ := not_or.mp hne
      have hold := (hcons.special_id_iff type _ hvalid).mp rfl
      have hnew := (hafter.special_id_iff type _ hvalid).mpr
        ((h.marked_iff type _).mpr (Or.inr ⟨hother, hold⟩))
      rw [h.special_id, if_pos rfl] at hnew
      exact hother hnew.symm
    · by_contra hne
      obtain ⟨hvalid, hmarked⟩ := not_or.mp hne
      obtain ⟨hmark, htype⟩ := not_or.mp hmarked
      have hold : vocab.Marked (vocab.table.getD slot .empty).specialType id :=
        ⟨_, hslot, hslotId, by simpa using hmark, rfl⟩
      have hkept := (hcons.special_id_iff _ id hvalid).mpr hold
      have hnew := (hafter.special_id_iff (vocab.table.getD slot .empty).specialType id
        hvalid).mp (by rw [h.special_id, if_neg htype]; exact hkept)
      rcases (h.marked_iff _ _).mp hnew with ⟨heq, -⟩ | ⟨hid, -⟩
      · exact htype heq
      · exact hid rfl
  · rintro ⟨hfree, hsingle⟩
    apply h.stored.specialConsistent
    intro type' id' hvalid
    rw [h.special_id, h.marked_iff]
    by_cases htype : type' = type
    · subst htype
      rw [if_pos rfl]
      constructor
      · exact fun hid => Or.inl ⟨rfl, hid.symm⟩
      · rintro (⟨-, hid⟩ | ⟨hne, hmarked⟩)
        · exact hid.symm
        · have hold := (hcons.special_id_iff type' id' hvalid).mpr hmarked
          rcases hfree with hfree | hfree
          · exact absurd (hold.symm.trans hfree) hvalid
          · exact absurd (hold.symm.trans hfree) hne
    · rw [if_neg htype, hcons.special_id_iff type' id' hvalid]
      constructor
      · intro hmarked
        refine Or.inr ⟨?_, hmarked⟩
        rintro rfl
        obtain ⟨e, he, hid, hmark, hetype⟩ := hmarked
        rw [hstored.entry_eq hfind he hid] at hmark hetype
        rcases hsingle with hid | hunmarked | hsame
        · exact hvalid hid
        · exact absurd (hmark.symm.trans hunmarked) (by decide)
        · exact htype (hetype.symm.trans hsame)
      · rintro (⟨heq, -⟩ | ⟨-, hmarked⟩)
        · exact absurd heq htype
        · exact hmarked

/-- One call. -/
theorem Vocabulary.Stored.call_consistent_iff {vocab : Vocabulary} (h : vocab.Stored)
    (hcons : vocab.SpecialConsistent) (c : VocabCall) :
    (vocab.call c).Stored ∧ ((vocab.call c).SpecialConsistent ↔ vocab.SpecialRoom c) := by
  cases c with
  | add c =>
      obtain ⟨hstored, hsame⟩ := h.add c
      exact ⟨hstored, iff_of_true (hcons.of_sameMarks hstored hsame) trivial⟩
  | setSpecial id type =>
      cases hfind : vocabFindById vocab id with
      | none =>
          rw [Vocabulary.call, hbiVocabularySetSpecial, Vocabulary.SpecialRoom, hfind]
          exact ⟨h, iff_of_true hcons trivial⟩
      | some slot =>
          have hmarks := h.setSpecial hfind type
          exact ⟨hmarks.stored, hmarks.consistent_iff h hcons hfind⟩

theorem Vocabulary.stored_ofCapacity {k : Nat} (hk : 4 ≤ k) (hk' : k < 64) :
    (Vocabulary.ofCapacity (2 ^ k)).Stored := by
  obtain ⟨hcapacity, hinv, hid, -, -, -, -⟩ := Vocabulary.wellFormed_ofCapacity hk hk'
  exact ⟨hcapacity, hinv, hid, show 0 < uint32Size by decide, rfl⟩

theorem Vocabulary.specialConsistent_ofCapacity {k : Nat} (hk : 4 ≤ k) (hk' : k < 64) :
    (Vocabulary.ofCapacity (2 ^ k)).SpecialConsistent := by
  apply (Vocabulary.stored_ofCapacity hk hk').specialConsistent
  intro type id hid
  have hnone : hbiVocabularySpecialId (.ofCapacity (2 ^ k)) type = hbiTokenInvalidId := by
    cases type <;> rfl
  rw [hnone]
  constructor
  · exact fun heq => absurd heq.symm hid
  · rintro ⟨e, he, hid, -⟩
    exact absurd ⟨e, he, rfl, hid⟩ (Vocabulary.not_bound_ofCapacity _ e.text id)

/-- The two representations agree after every call of a run exactly when no call of it
reassigns a type or marks a token a second time with another type. -/
theorem hbi_vocabulary_special_iff {k : Nat} (hk : 4 ≤ k) (hk' : k < 64)
    (calls : List VocabCall) :
    Runs.Along Vocabulary.call (fun vocab c => (vocab.call c).SpecialConsistent)
        (Vocabulary.ofCapacity (2 ^ k)) calls ↔
      Runs.Along Vocabulary.call Vocabulary.SpecialRoom (Vocabulary.ofCapacity (2 ^ k))
        calls := by
  have hstart := And.intro (Vocabulary.stored_ofCapacity hk hk')
    (Vocabulary.specialConsistent_ofCapacity hk hk')
  apply @Runs.along_iff Vocabulary VocabCall Vocabulary.call
    (fun vocab => vocab.Stored ∧ vocab.SpecialConsistent) _ _ (fun _ _ => True) ?_ ?_ _ hstart
    calls (Runs.along_of_forall (fun _ _ => trivial) calls)
  · intro vocab c h _
    exact (h.1.call_consistent_iff h.2 c).2
  · intro vocab c h _ hroom
    obtain ⟨hstored, hiff⟩ := h.1.call_consistent_iff h.2 c
    exact ⟨hstored, hiff.mpr hroom⟩

/-- Two tokens, one of them the padding token. -/
def paddedCalls : List VocabCall :=
  [.add ⟨[97], 1, true⟩, .add ⟨[98], 2, true⟩, .setSpecial 1 .pad]

theorem hbi_vocabulary_special_padded :
    Runs.Along Vocabulary.call (fun vocab c => (vocab.call c).SpecialConsistent)
        (Vocabulary.ofCapacity (2 ^ 4)) paddedCalls ↔
      Runs.Along Vocabulary.call Vocabulary.SpecialRoom (Vocabulary.ofCapacity (2 ^ 4))
        paddedCalls :=
  hbi_vocabulary_special_iff (by decide) (by decide) paddedCalls

/-- The other token becomes the padding token and the first stays special. -/
theorem hbi_vocabulary_special_stale :
    ¬ (Runs.final Vocabulary.call (Vocabulary.ofCapacity (2 ^ 4))
      (paddedCalls ++ [.setSpecial 2 .pad])).SpecialConsistent := by
  intro h
  obtain ⟨type, htype⟩ := (h.is_special_iff 1 (by decide)).mp (by decide +kernel)
  revert htype
  cases type <;> decide +kernel

end Hummingbird

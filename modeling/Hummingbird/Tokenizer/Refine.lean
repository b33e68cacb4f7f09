import Hummingbird.Tokenizer.Vocabulary

/-!
The vocabulary as a partial map between texts and ids, injective in both directions.
The hash table keeps the invariant of linear probing through insertions and through
rehashing, so a search by text agrees with the search by id; the load factor leaves a
free slot for every insertion.
-/

namespace Hummingbird

/-- A text and an id are bound to each other. -/
def Vocabulary.Bound (vocab : Vocabulary) (text : List UInt8) (id : Nat) : Prop :=
  ∃ e, Probing.Entry VocabEntry.occupied vocab.table e ∧ e.text = text ∧ e.id = id

/-- The hash of a text before it is cut to the capacity. -/
def textHash (text : List UInt8) : Nat := (fnv1a text).toNat

/-- The table of a vocabulary is a probing table. -/
def vocabInv (table : List VocabEntry) : Prop :=
  Probing.Inv VocabEntry.occupied VocabEntry.text textHash .empty table

structure Vocabulary.WellFormed (vocab : Vocabulary) : Prop where
  capacity : ∃ k, 4 ≤ k ∧ k < 64 ∧ vocab.table.length = 2 ^ k
  inv : vocabInv vocab.table
  id_inj : ∀ x y, Probing.Entry VocabEntry.occupied vocab.table x →
    Probing.Entry VocabEntry.occupied vocab.table y → x.id = y.id → x = y
  id_lt : ∀ x, Probing.Entry VocabEntry.occupied vocab.table x → x.id < hbiTokenInvalidId
  text_fits : ∀ x, Probing.Entry VocabEntry.occupied vocab.table x →
    0 < x.text.length ∧ x.text.length < hbiTokenTextMax
  count_eq : vocab.count = vocab.table.countP VocabEntry.occupied
  load : vocab.count * 10 ≤ vocab.table.length * 7 + 10

theorem VocabEntry.empty_free : VocabEntry.empty.occupied = false := rfl

theorem vocabSlots_eq_probe {text : List UInt8} {capacity k : Nat} (h : capacity = 2 ^ k) :
    vocabSlots text capacity =
      Probing.probe textHash capacity text := by
  unfold vocabSlots vocabHash Probing.probe textHash
  apply List.map_congr_left
  intro i _
  rw [h, Nat.and_two_pow_sub_one_eq_mod, Nat.and_two_pow_sub_one_eq_mod, Nat.mod_add_mod]

/-- Different slots hold different ids, so there are fewer entries than ids. -/
theorem Vocabulary.WellFormed.count_le {vocab : Vocabulary} (h : vocab.WellFormed) :
    vocab.count ≤ hbiTokenInvalidId := by
  let ids := (vocab.table.filter VocabEntry.occupied).map VocabEntry.id
  have hentry : ∀ x ∈ vocab.table.filter VocabEntry.occupied,
      Probing.Entry VocabEntry.occupied vocab.table x :=
    fun x hx => ⟨(List.mem_filter.mp hx).1, (List.mem_filter.mp hx).2⟩
  have hnodup : ids.Nodup := by
    apply List.pairwise_map.mpr
    refine List.Pairwise.imp_of_mem ?_ (h.inv.pairwise.filter VocabEntry.occupied)
    intro x y hx hy htext hid
    have hxy := h.id_inj x y (hentry x hx) (hentry y hy) hid
    exact htext (hentry x hx).2 (hentry y hy).2 (congrArg VocabEntry.text hxy)
  have hsub : ids.toFinset ⊆ Finset.range hbiTokenInvalidId := by
    intro i hi
    obtain ⟨x, hx, rfl⟩ := List.mem_map.mp (List.mem_toFinset.mp hi)
    exact Finset.mem_range.mpr (h.id_lt x (hentry x hx))
  have hcard := Finset.card_le_card hsub
  rw [List.toFinset_card_of_nodup hnodup, Finset.card_range, List.length_map,
    ← List.countP_eq_length_filter, ← h.count_eq] at hcard
  exact hcard

theorem vocabFindSlot_iff {vocab : Vocabulary} (h : vocab.WellFormed) {text : List UInt8}
    {s : Nat} : vocabFindSlot vocab text = some s ↔
      (vocab.table.getD s .empty).occupied = true ∧ (vocab.table.getD s .empty).text = text := by
  obtain ⟨k, _, _, hk⟩ := h.capacity
  unfold vocabFindSlot
  rw [vocabSlots_eq_probe hk]
  exact h.inv.find_iff rfl

theorem vocabFindById_some {vocab : Vocabulary} {id s : Nat}
    (h : vocabFindById vocab id = some s) :
    Probing.Entry VocabEntry.occupied vocab.table (vocab.table.getD s .empty) ∧
      (vocab.table.getD s .empty).id = id := by
  unfold vocabFindById at h
  obtain ⟨hs, hp, _⟩ := List.findIdx?_eq_some_iff_getElem.mp h
  rw [List.getD_eq_getElem _ _ hs]
  simp only [Bool.and_eq_true, beq_iff_eq] at hp
  exact ⟨⟨List.getElem_mem hs, hp.1⟩, hp.2⟩

theorem vocabFindById_none {vocab : Vocabulary} {id : Nat} (h : vocabFindById vocab id = none)
    {e : VocabEntry} (he : Probing.Entry VocabEntry.occupied vocab.table e) : e.id ≠ id := by
  unfold vocabFindById at h
  have hp := List.findIdx?_eq_none_iff.mp h e he.1
  rintro rfl
  simp [he.2] at hp

theorem hbiVocabularyText_iff {vocab : Vocabulary} (h : vocab.WellFormed) {text : List UInt8}
    {id : Nat} : hbiVocabularyText vocab id = some text ↔ vocab.Bound text id := by
  unfold hbiVocabularyText
  cases hfind : vocabFindById vocab id with
  | none =>
      simp only [Option.map_none, reduceCtorEq, false_iff]
      rintro ⟨e, he, _, hid⟩
      exact vocabFindById_none hfind he hid
  | some s =>
      obtain ⟨he, hid⟩ := vocabFindById_some hfind
      simp only [Option.map_some, Option.some.injEq]
      constructor
      · intro htext
        exact ⟨_, he, htext, hid⟩
      · rintro ⟨e, he', rfl, hid'⟩
        rw [h.id_inj _ _ he he' (hid.trans hid'.symm)]

theorem hbiVocabularyLookup_iff {vocab : Vocabulary} (h : vocab.WellFormed)
    {text : List UInt8} {id : Nat} (hid : id < hbiTokenInvalidId) :
    hbiVocabularyLookup vocab text = id ↔ vocab.Bound text id := by
  have hfree := VocabEntry.empty_free
  unfold hbiVocabularyLookup
  cases hfind : vocabFindSlot vocab text with
  | none =>
      constructor
      · intro heq
        dsimp only at heq
        omega
      · rintro ⟨e, he, htext, _⟩
        obtain ⟨s, hocc, rfl⟩ := (Probing.entry_iff hfree).mp he
        rw [(vocabFindSlot_iff h).mpr ⟨hocc, htext⟩] at hfind
        simp at hfind
  | some s =>
      obtain ⟨hocc, htext⟩ := (vocabFindSlot_iff h).mp hfind
      have he := (Probing.entry_iff hfree).mpr ⟨s, hocc, rfl⟩
      constructor
      · intro heq
        exact ⟨_, he, htext, heq⟩
      · rintro ⟨e, he', htext', rfl⟩
        exact congrArg VocabEntry.id (h.inv.key_inj hfree he he' (htext.trans htext'.symm))

/-- The capacity never wraps: the table is loaded only while it is small. -/
theorem Vocabulary.WellFormed.loaded_iff {vocab : Vocabulary} (h : vocab.WellFormed) :
    vocabLoaded vocab ↔ vocab.count * 10 > vocab.table.length * 7 := by
  obtain ⟨k, _, hk64, hk⟩ := h.capacity
  have hcount := h.count_le
  unfold vocabLoaded
  unfold hbiTokenInvalidId uint32Max at hcount
  rw [hk]
  by_cases hsmall : k ≤ 61
  · have hpow : 2 ^ k ≤ 2 ^ 61 := Nat.pow_le_pow_right (by decide) hsmall
    rw [Nat.mod_eq_of_lt]
    unfold sizeTSize
    omega
  · obtain rfl | rfl : k = 62 ∨ k = 63 := by omega
    · norm_num [sizeTSize]
      omega
    · norm_num [sizeTSize]
      omega

theorem vocabReinsert_eq {table : List VocabEntry} {k : Nat} (hk : table.length = 2 ^ k)
    (e : VocabEntry) :
    vocabReinsert table e = if e.occupied then Probing.insert VocabEntry.occupied
      VocabEntry.text textHash .empty table e else table := by
  have hslots : vocabSlots e.text table.length = Probing.probe textHash table.length e.text :=
    vocabSlots_eq_probe hk
  cases hfree : Probing.free VocabEntry.occupied .empty table
      (Probing.probe textHash table.length e.text) with
  | none => simp only [vocabReinsert, vocabFreeSlot, hslots, Probing.insert, hfree]
  | some slot => simp only [vocabReinsert, vocabFreeSlot, hslots, Probing.insert, hfree]

theorem length_vocabReinsert (table : List VocabEntry) (e : VocabEntry) :
    (vocabReinsert table e).length = table.length := by
  unfold vocabReinsert
  split
  · split
    · simp
    · rfl
  · rfl

theorem foldl_vocabReinsert_eq {old table : List VocabEntry} {k : Nat}
    (hk : table.length = 2 ^ k) :
    old.foldl vocabReinsert table = old.foldl (fun table e =>
      if e.occupied then Probing.insert VocabEntry.occupied VocabEntry.text
        textHash .empty table e else table) table := by
  induction old generalizing table with
  | nil => rfl
  | cons e old ih =>
      rw [List.foldl_cons, List.foldl_cons, ih (by rw [length_vocabReinsert, hk]),
        vocabReinsert_eq hk]

theorem vocabResize_eq_rehash {vocab : Vocabulary} {k : Nat} (hk : vocab.table.length = 2 ^ k)
    (hk' : k + 1 < 64) : vocabResize vocab true = .ok { vocab with
      table := Probing.rehash VocabEntry.occupied VocabEntry.text textHash .empty (2 ^ (k + 1))
        vocab.table } := by
  have hcap : vocab.table.length * 2 % sizeTSize = 2 ^ (k + 1) := by
    rw [hk, ← Nat.pow_succ, Nat.mod_eq_of_lt]
    exact Nat.pow_lt_pow_right (by decide) hk'
  unfold vocabResize
  rw [hcap]
  dsimp only
  rw [if_neg (by decide), foldl_vocabReinsert_eq (List.length_replicate)]
  rfl

/-- A loaded table that gets its memory grows to twice its size and keeps its pairs. -/
theorem Vocabulary.WellFormed.resize {vocab : Vocabulary} (h : vocab.WellFormed)
    (hloaded : vocabLoaded vocab) :
    ∃ grown, vocabResize vocab true = .ok grown ∧ grown.WellFormed ∧
      grown.count = vocab.count ∧ (∀ e, Probing.Entry VocabEntry.occupied grown.table e ↔
        Probing.Entry VocabEntry.occupied vocab.table e) ∧
      grown.count * 10 ≤ grown.table.length * 7 := by
  obtain ⟨k, hk4, hk64, hk⟩ := h.capacity
  have hcount := h.count_le
  have hload := h.load
  have hsmall := h.loaded_iff.mp hloaded
  unfold hbiTokenInvalidId uint32Max at hcount
  have hpow : 2 ^ k * 2 = 2 ^ (k + 1) := (Nat.pow_succ 2 k).symm
  have h16 : 2 ^ 4 ≤ 2 ^ k := Nat.pow_le_pow_right (by decide) hk4
  have hk' : k + 1 < 64 := by
    by_contra hge
    have hbig : 2 ^ 63 ≤ 2 ^ k := Nat.pow_le_pow_right (by decide) (by omega)
    omega
  obtain ⟨hinv, hlen, hsize, hentry⟩ := h.inv.rehash VocabEntry.empty_free
    (show vocab.table.countP VocabEntry.occupied ≤ 2 ^ (k + 1) by
      rw [← h.count_eq]
      omega)
  refine ⟨_, vocabResize_eq_rehash hk hk', ?_, rfl, hentry, ?_⟩
  · refine ⟨⟨k + 1, by omega, hk', hlen⟩, hinv, ?_, ?_, ?_, ?_, ?_⟩
    · intro x y hx hy
      exact h.id_inj x y ((hentry x).mp hx) ((hentry y).mp hy)
    · intro x hx
      exact h.id_lt x ((hentry x).mp hx)
    · intro x hx
      exact h.text_fits x ((hentry x).mp hx)
    · rw [h.count_eq]
      exact hsize.symm
    · dsimp only
      omega
  · dsimp only
    omega

/-- Inserting a pair both halves of which are new. -/
theorem Vocabulary.WellFormed.insert {vocab : Vocabulary} (h : vocab.WellFormed)
    {text : List UInt8} {id : Nat} (hload : vocab.count * 10 ≤ vocab.table.length * 7)
    (hid : id < hbiTokenInvalidId) (hlen : 0 < text.length ∧ text.length < hbiTokenTextMax)
    (hnewText : ∀ e, Probing.Entry VocabEntry.occupied vocab.table e → e.text ≠ text)
    (hnewId : ∀ e, Probing.Entry VocabEntry.occupied vocab.table e → e.id ≠ id) :
    ∃ grown, vocabInsert vocab text id = (grown, .ok ()) ∧ grown.WellFormed ∧
      grown.count = vocab.count + 1 ∧
      ∀ t i, grown.Bound t i ↔ (t = text ∧ i = id) ∨ vocab.Bound t i := by
  obtain ⟨k, hk4, hk64, hk⟩ := h.capacity
  have h16 : 2 ^ 4 ≤ 2 ^ k := Nat.pow_le_pow_right (by decide) hk4
  have hroom : vocab.table.countP VocabEntry.occupied < vocab.table.length := by
    rw [← h.count_eq]
    omega
  obtain ⟨slot, hslot⟩ := @Probing.exists_free _ _ VocabEntry.occupied textHash .empty
    vocab.table text hroom
  obtain ⟨_, _, _, hlt, hfree, _⟩ := Probing.free_some hslot
  let e : VocabEntry := ⟨text, id, true, false, .unknown⟩
  have hinv := h.inv.set_free (e := e) VocabEntry.empty_free rfl hnewText hslot
  have hentry := Probing.entry_set_free (e := e) hlt hfree rfl
  have hcount := Probing.countP_set_free (e := e) hlt hfree rfl
  have hgrown : Vocabulary.WellFormed
      ⟨vocab.table.set slot e, vocab.count + 1, vocab.specialIds⟩ := by
    refine ⟨⟨k, hk4, hk64, by simp [hk]⟩, hinv, ?_, ?_, ?_, ?_, ?_⟩
    · intro x y hx hy hxy
      rcases (hentry x).mp hx with rfl | hx
      · rcases (hentry y).mp hy with rfl | hy
        · rfl
        · exact absurd hxy.symm (hnewId y hy)
      · rcases (hentry y).mp hy with rfl | hy
        · exact absurd hxy (hnewId x hx)
        · exact h.id_inj x y hx hy hxy
    · intro x hx
      rcases (hentry x).mp hx with rfl | hx
      · exact hid
      · exact h.id_lt x hx
    · intro x hx
      rcases (hentry x).mp hx with rfl | hx
      · exact hlen
      · exact h.text_fits x hx
    · dsimp only
      rw [hcount, h.count_eq]
    · dsimp only
      rw [List.length_set]
      omega
  have hsize : (vocab.count + 1) % uint32Size = vocab.count + 1 := by
    have hle := hgrown.count_le
    apply Nat.mod_eq_of_lt
    unfold hbiTokenInvalidId uint32Max at hle
    unfold uint32Size
    dsimp only at hle
    omega
  refine ⟨_, ?_, hgrown, rfl, ?_⟩
  · unfold vocabInsert vocabFreeSlot
    rw [vocabSlots_eq_probe hk, hslot, hsize]
  · intro t i
    constructor
    · rintro ⟨x, hx, rfl, rfl⟩
      rcases (hentry x).mp hx with rfl | hx
      · exact Or.inl ⟨rfl, rfl⟩
      · exact Or.inr ⟨x, hx, rfl, rfl⟩
    · rintro (⟨rfl, rfl⟩ | ⟨x, hx, rfl, rfl⟩)
      · exact ⟨e, (hentry e).mpr (Or.inl rfl), rfl, rfl⟩
      · exact ⟨x, (hentry x).mpr (Or.inr hx), rfl, rfl⟩

/-- Neither the text nor the id is bound. -/
def Vocabulary.Fresh (vocab : Vocabulary) (text : List UInt8) (id : Nat) : Prop :=
  (∀ i, ¬ vocab.Bound text i) ∧ ∀ t, ¬ vocab.Bound t id

/-- What the insertion loop cannot find free is never reported. -/
def tableFull : Failure := ⟨.state, "vocabulary table full (unexpected)"⟩

/-- The pair enters the vocabulary. -/
structure Vocabulary.Adds (vocab : Vocabulary) (c : AddCall) (grown : Vocabulary) : Prop where
  wellFormed : grown.WellFormed
  count_eq : grown.count = vocab.count + 1
  bound_iff : ∀ t i, grown.Bound t i ↔ (t = c.text ∧ i = c.id) ∨ vocab.Bound t i

/-- Why a call may fail: its text is empty or too long, one half of its pair is bound, or the
table is loaded and gets no memory to grow. -/
def Vocabulary.Refuses (vocab : Vocabulary) (c : AddCall) : Prop :=
  (c.text.length = 0 ∨ c.text.length ≥ hbiTokenTextMax) ∨
    ((∃ i, vocab.Bound c.text i) ∨ ∃ t, vocab.Bound t c.id) ∨
    (vocabLoaded vocab ∧ c.allocated = false)

/-- Everything a call can do: it repeats a pair, it fails for a reason and leaves the vocabulary
alone, or it adds a pair both halves of which are new. -/
theorem Vocabulary.WellFormed.add_cases {vocab : Vocabulary} (h : vocab.WellFormed)
    {c : AddCall} (hid : c.id < hbiTokenInvalidId) :
    (vocab.Bound c.text c.id ∧ vocab.add c = (vocab, .ok ())) ∨
    (¬ vocab.Bound c.text c.id ∧ vocab.Refuses c ∧
      ∃ e ≠ tableFull, vocab.add c = (vocab, .error e)) ∨
    (vocab.Fresh c.text c.id ∧ ¬ (c.text.length = 0 ∨ c.text.length ≥ hbiTokenTextMax) ∧
      (vocabLoaded vocab → c.allocated = true) ∧
      ∃ grown, vocab.add c = (grown, .ok ()) ∧ vocab.Adds c grown) := by
  have hfree := VocabEntry.empty_free
  unfold Vocabulary.add hbiVocabularyAdd
  by_cases hlen : c.text.length = 0 ∨ c.text.length ≥ hbiTokenTextMax
  · rw [if_pos hlen]
    refine Or.inr (Or.inl ⟨?_, Or.inl hlen, _, by decide, rfl⟩)
    rintro ⟨e, he, htext, _⟩
    have hfits := h.text_fits e he
    rw [htext] at hfits
    omega
  rw [if_neg hlen]
  cases hfind : vocabFindById vocab c.id with
  | some existing =>
      obtain ⟨he, heid⟩ := vocabFindById_some hfind
      dsimp only
      by_cases htext : (vocab.table.getD existing .empty).text = c.text
      · rw [if_neg (not_not.mpr htext)]
        exact Or.inl ⟨⟨_, he, htext, heid⟩, rfl⟩
      · rw [if_pos htext]
        refine Or.inr (Or.inl ⟨?_, Or.inr (Or.inl (Or.inr ⟨_, _, he, rfl, heid⟩)), _,
          by decide, rfl⟩)
        rintro ⟨e, he', htext', heid'⟩
        rw [h.id_inj _ _ he he' (heid.trans heid'.symm)] at htext
        exact htext htext'
  | none =>
      have hnewId := fun e he => @vocabFindById_none vocab c.id hfind e he
      have hunbound : ∀ t, ¬ vocab.Bound t c.id := by
        rintro t ⟨e, he, _, heid⟩
        exact hnewId e he heid
      dsimp only
      cases hslot : vocabFindSlot vocab c.text with
      | some slot =>
          obtain ⟨hocc, htext⟩ := (vocabFindSlot_iff h).mp hslot
          have he := (Probing.entry_iff hfree).mpr ⟨slot, hocc, rfl⟩
          dsimp only
          rw [if_pos (hnewId _ he)]
          exact Or.inr (Or.inl ⟨hunbound _, Or.inr (Or.inl (Or.inl ⟨_, _, he, htext, rfl⟩)), _,
            by decide, rfl⟩)
      | none =>
          have hnewText : ∀ e, Probing.Entry VocabEntry.occupied vocab.table e →
              e.text ≠ c.text := by
            rintro e he htext
            obtain ⟨s, hocc, rfl⟩ := (Probing.entry_iff hfree).mp he
            rw [(vocabFindSlot_iff h).mpr ⟨hocc, htext⟩] at hslot
            simp at hslot
          have hfresh : vocab.Fresh c.text c.id := by
            refine ⟨?_, hunbound⟩
            rintro i ⟨e, he, htext, _⟩
            exact hnewText e he htext
          dsimp only
          by_cases hloaded : vocabLoaded vocab
          · rw [if_pos hloaded]
            cases halloc : c.allocated with
            | false =>
                exact Or.inr (Or.inl ⟨hunbound _, Or.inr (Or.inr ⟨hloaded, halloc⟩), _,
                  by decide, rfl⟩)
            | true =>
                obtain ⟨grown, hresize, hgrown, hcount, hentry, hload⟩ := h.resize hloaded
                obtain ⟨added, hinsert, hadded, hcount', hbound⟩ := hgrown.insert hload hid
                  (by omega) (fun e he => hnewText e ((hentry e).mp he))
                  (fun e he => hnewId e ((hentry e).mp he))
                rw [hresize]
                refine Or.inr (Or.inr ⟨hfresh, hlen, fun _ => rfl, added, hinsert, hadded,
                  by omega, fun t i => ?_⟩)
                rw [hbound]
                refine or_congr_right ?_
                exact exists_congr fun e => and_congr_left fun _ => hentry e
          · rw [if_neg hloaded]
            obtain ⟨added, hinsert, hadded, hcount, hbound⟩ := h.insert
              (not_lt.mp (mt h.loaded_iff.mpr hloaded)) hid (by omega) hnewText hnewId
            exact Or.inr (Or.inr ⟨hfresh, hlen, fun hl => absurd hl hloaded, added, hinsert, hadded,
              hcount, hbound⟩)

theorem Vocabulary.wellFormed_ofCapacity {k : Nat} (hk : 4 ≤ k) (hk' : k < 64) :
    (Vocabulary.ofCapacity (2 ^ k)).WellFormed := by
  have hempty : ∀ x, ¬ Probing.Entry VocabEntry.occupied
      (List.replicate (2 ^ k) VocabEntry.empty) x := by
    rintro x ⟨hx, hocc⟩
    rw [(List.mem_replicate.mp hx).2] at hocc
    exact absurd hocc (by decide)
  refine ⟨⟨k, hk, hk', by simp [Vocabulary.ofCapacity]⟩, ?_, ?_, ?_, ?_, ?_, ?_⟩
  · exact Probing.inv_replicate VocabEntry.empty_free _
  · exact fun x _ hx => absurd hx (hempty x)
  · exact fun x hx => absurd hx (hempty x)
  · exact fun x hx => absurd hx (hempty x)
  · simp [Vocabulary.ofCapacity, List.countP_replicate, VocabEntry.empty_free]
  · simp [Vocabulary.ofCapacity]

theorem Vocabulary.not_bound_ofCapacity (n : Nat) (text : List UInt8) (id : Nat) :
    ¬ (Vocabulary.ofCapacity n).Bound text id := by
  rintro ⟨e, ⟨he, hocc⟩, _⟩
  rw [(List.mem_replicate.mp he).2] at hocc
  exact absurd hocc (by decide)

/-- A run of calls keeps the invariant and binds exactly the accepted pairs. -/
theorem Vocabulary.WellFormed.adds {vocab : Vocabulary} (h : vocab.WellFormed)
    {calls : List AddCall} (hids : ∀ c ∈ calls, c.id < hbiTokenInvalidId) :
    (vocab.adds calls).WellFormed ∧ ∀ t i, (vocab.adds calls).Bound t i ↔
      vocab.Bound t i ∨ (t, i) ∈ vocab.accepted calls := by
  induction calls generalizing vocab with
  | nil => exact ⟨h, fun t i => by simp [Vocabulary.adds, Vocabulary.accepted]⟩
  | cons c calls ih =>
      have hrest : ∀ c ∈ calls, c.id < hbiTokenInvalidId := fun c hc => hids c (by simp [hc])
      rw [Vocabulary.adds, List.foldl_cons, Vocabulary.accepted]
      obtain ⟨hbound, hadd⟩ | ⟨-, -, e, -, hadd⟩ | ⟨-, -, -, grown, hadd, hgrown⟩ :=
        h.add_cases (hids c (by simp))
      · obtain ⟨hfinal, hiff⟩ := ih h hrest
        rw [hadd, if_pos rfl]
        refine ⟨hfinal, fun t i => ?_⟩
        rw [← Vocabulary.adds, hiff, List.mem_cons, Prod.mk.injEq]
        constructor
        · rintro (hb | hm)
          · exact Or.inl hb
          · exact Or.inr (Or.inr hm)
        · rintro (hb | ⟨rfl, rfl⟩ | hm)
          · exact Or.inl hb
          · exact Or.inl hbound
          · exact Or.inr hm
      · rw [hadd, if_neg (by simp)]
        exact ih h hrest
      · obtain ⟨hfinal, hiff⟩ := ih hgrown.wellFormed hrest
        rw [hadd, if_pos rfl]
        refine ⟨hfinal, fun t i => ?_⟩
        rw [← Vocabulary.adds, hiff, hgrown.bound_iff, List.mem_cons, Prod.mk.injEq]
        constructor
        · rintro ((hb | hb) | hm)
          · exact Or.inr (Or.inl hb)
          · exact Or.inl hb
          · exact Or.inr (Or.inr hm)
        · rintro (hb | hb | hm)
          · exact Or.inl (Or.inr hb)
          · exact Or.inl (Or.inl hb)
          · exact Or.inr hm

/-- The pairs in the table. -/
def Vocabulary.pairs (vocab : Vocabulary) : List (List UInt8 × Nat) :=
  (vocab.table.filter VocabEntry.occupied).map fun e => (e.text, e.id)

theorem Vocabulary.mem_pairs {vocab : Vocabulary} {text : List UInt8} {id : Nat} :
    (text, id) ∈ vocab.pairs ↔ vocab.Bound text id := by
  simp [Vocabulary.pairs, Vocabulary.Bound, Probing.Entry]

theorem Vocabulary.WellFormed.card_pairs {vocab : Vocabulary} (h : vocab.WellFormed) :
    vocab.pairs.toFinset.card = vocab.count := by
  have hnodup : vocab.pairs.Nodup := by
    apply List.pairwise_map.mpr
    refine List.Pairwise.imp_of_mem ?_ (h.inv.pairwise.filter VocabEntry.occupied)
    intro x y hx hy htext hpair
    exact htext (List.mem_filter.mp hx).2 (List.mem_filter.mp hy).2 (congrArg Prod.fst hpair)
  rw [List.toFinset_card_of_nodup hnodup, Vocabulary.pairs, List.length_map,
    ← List.countP_eq_length_filter, h.count_eq]

/-- A vocabulary shows a set of pairs, which is an injective partial map: a text has one
id and an id one text. -/
structure Vocabulary.Refines (vocab : Vocabulary) (pairs : List (List UInt8 × Nat)) : Prop where
  text_inj : ∀ t i j, (t, i) ∈ pairs → (t, j) ∈ pairs → i = j
  id_inj : ∀ t u i, (t, i) ∈ pairs → (u, i) ∈ pairs → t = u
  lookup_iff : ∀ text id, id < hbiTokenInvalidId →
    (hbiVocabularyLookup vocab text = id ↔ (text, id) ∈ pairs)
  text_iff : ∀ text id, hbiVocabularyText vocab id = some text ↔ (text, id) ∈ pairs
  size_eq : hbiVocabularySize vocab = pairs.toFinset.card

/-- What one more call does to a vocabulary with these pairs. -/
structure Vocabulary.AddContract (vocab : Vocabulary) (pairs : List (List UInt8 × Nat))
    (c : AddCall) : Prop where
  duplicate : (c.text, c.id) ∈ pairs → vocab.add c = (vocab, .ok ())
  conflict : (c.text, c.id) ∉ pairs →
    ((∃ i, (c.text, i) ∈ pairs) ∨ ∃ t, (t, c.id) ∈ pairs) →
    ∃ e, vocab.add c = (vocab, .error e)
  noMemory : (c.text, c.id) ∉ pairs → vocabLoaded vocab → c.allocated = false →
    ∃ e, vocab.add c = (vocab, .error e)
  badText : c.text.length = 0 ∨ c.text.length ≥ hbiTokenTextMax →
    ∃ e, vocab.add c = (vocab, .error e)
  added : (∀ i, (c.text, i) ∉ pairs) → (∀ t, (t, c.id) ∉ pairs) →
    ¬ (c.text.length = 0 ∨ c.text.length ≥ hbiTokenTextMax) →
    (vocabLoaded vocab → c.allocated = true) →
    ∃ grown, vocab.add c = (grown, .ok ()) ∧ grown.Refines ((c.text, c.id) :: pairs)
  failed : ∀ e, (vocab.add c).2 = .error e → (vocab.add c).1 = vocab ∧ e ≠ tableFull

theorem Vocabulary.WellFormed.refines {vocab : Vocabulary} (h : vocab.WellFormed)
    {pairs : List (List UInt8 × Nat)} (hpairs : ∀ t i, (t, i) ∈ pairs ↔ vocab.Bound t i) :
    vocab.Refines pairs := by
  have hsame : pairs.toFinset = vocab.pairs.toFinset := by
    ext ⟨t, i⟩
    rw [List.mem_toFinset, List.mem_toFinset, hpairs, Vocabulary.mem_pairs]
  refine ⟨?_, ?_, ?_, ?_, ?_⟩
  · intro t i j hi hj
    obtain ⟨x, hx, hxt, rfl⟩ := (hpairs t i).mp hi
    obtain ⟨y, hy, hyt, rfl⟩ := (hpairs t j).mp hj
    rw [h.inv.key_inj VocabEntry.empty_free hx hy (hxt.trans hyt.symm)]
  · intro t u i ht hu
    obtain ⟨x, hx, rfl, hxi⟩ := (hpairs t i).mp ht
    obtain ⟨y, hy, rfl, hyi⟩ := (hpairs u i).mp hu
    rw [h.id_inj x y hx hy (hxi.trans hyi.symm)]
  · intro text id hid
    rw [hbiVocabularyLookup_iff h hid, hpairs]
  · intro text id
    rw [hbiVocabularyText_iff h, hpairs]
  · rw [hsame, h.card_pairs]
    rfl

/-- A text that is empty or too long is refused, whatever the vocabulary holds. -/
theorem Vocabulary.add_badText {vocab : Vocabulary} {c : AddCall}
    (h : c.text.length = 0 ∨ c.text.length ≥ hbiTokenTextMax) :
    ∃ e, vocab.add c = (vocab, .error e) := by
  unfold Vocabulary.add hbiVocabularyAdd
  rw [if_pos h]
  exact ⟨_, rfl⟩

theorem Vocabulary.WellFormed.addContract {vocab : Vocabulary} (h : vocab.WellFormed)
    {pairs : List (List UInt8 × Nat)} (hpairs : ∀ t i, (t, i) ∈ pairs ↔ vocab.Bound t i)
    {c : AddCall} (hid : c.id < hbiTokenInvalidId) : vocab.AddContract pairs c := by
  obtain ⟨hbound, hadd⟩ | ⟨hunbound, hwhy, e, he, hadd⟩ |
    ⟨hfresh, hlen, halloc, grown, hadd, hgrown⟩ := h.add_cases hid
  · have hmem : (c.text, c.id) ∈ pairs := (hpairs _ _).mpr hbound
    refine ⟨fun _ => hadd, ?_, ?_, Vocabulary.add_badText, ?_, ?_⟩
    · exact fun hnew => absurd hmem hnew
    · exact fun hnew => absurd hmem hnew
    · exact fun hnew => absurd hmem (hnew _)
    · intro e herr
      rw [hadd] at herr
      simp at herr
  · refine ⟨fun hmem => absurd ((hpairs _ _).mp hmem) hunbound, fun _ _ => ⟨e, hadd⟩,
      fun _ _ _ => ⟨e, hadd⟩, Vocabulary.add_badText, ?_, ?_⟩
    · intro htext hnew hlen halloc
      rcases hwhy with hbad | (⟨i, hi⟩ | ⟨t, ht⟩) | ⟨hloaded, hnone⟩
      · exact absurd hbad hlen
      · exact absurd ((hpairs _ _).mpr hi) (htext i)
      · exact absurd ((hpairs _ _).mpr ht) (hnew t)
      · rw [halloc hloaded] at hnone
        cases hnone
    · intro e' herr
      rw [hadd] at herr ⊢
      obtain rfl := Except.error.inj herr
      exact ⟨rfl, he⟩
  · refine ⟨?_, ?_, ?_, Vocabulary.add_badText, ?_, ?_⟩
    · exact fun hmem => absurd ((hpairs _ _).mp hmem) (hfresh.1 _)
    · rintro _ (⟨i, hi⟩ | ⟨t, ht⟩)
      · exact absurd ((hpairs _ _).mp hi) (hfresh.1 i)
      · exact absurd ((hpairs _ _).mp ht) (hfresh.2 t)
    · intro _ hloaded hfalse
      rw [halloc hloaded] at hfalse
      exact absurd hfalse (by decide)
    · intro _ _ _ _
      refine ⟨grown, hadd, hgrown.wellFormed.refines fun t i => ?_⟩
      rw [hgrown.bound_iff, List.mem_cons, Prod.mk.injEq, hpairs]
    · intro e herr
      rw [hadd] at herr
      simp at herr

/-- After any run of additions the vocabulary shows the pairs whose additions returned
`HBI_OK`, and a further addition repeats a pair, adds a new one, or fails and changes
nothing. The insertion always finds a free slot. -/
theorem hbi_vocabulary_refines {k : Nat} (hk : 4 ≤ k) (hk' : k < 64) {calls : List AddCall}
    (hids : ∀ c ∈ calls, c.id < hbiTokenInvalidId) :
    ((Vocabulary.ofCapacity (2 ^ k)).adds calls).Refines
        ((Vocabulary.ofCapacity (2 ^ k)).accepted calls) ∧
      ∀ c : AddCall, c.id < hbiTokenInvalidId →
        ((Vocabulary.ofCapacity (2 ^ k)).adds calls).AddContract
          ((Vocabulary.ofCapacity (2 ^ k)).accepted calls) c := by
  obtain ⟨hwf, hbound⟩ := (Vocabulary.wellFormed_ofCapacity hk hk').adds hids
  have hpairs : ∀ t i, (t, i) ∈ (Vocabulary.ofCapacity (2 ^ k)).accepted calls ↔
      ((Vocabulary.ofCapacity (2 ^ k)).adds calls).Bound t i := by
    intro t i
    rw [hbound, or_iff_right (Vocabulary.not_bound_ofCapacity _ t i)]
  exact ⟨hwf.refines hpairs, fun c hc => hwf.addContract hpairs hc⟩

/-- The word `hi` under the id 7. -/
def hiCall : AddCall := ⟨[104, 105], 7, true⟩

/-- A word, the same again, the word under another id, another word under its id, eleven more
words, and one that finds the table loaded, first without memory and then with it. -/
def growingAdds : List AddCall :=
  [hiCall, hiCall, ⟨[104, 105], 8, true⟩, ⟨[104, 111], 7, true⟩] ++
    ((List.range 11).map fun i => ⟨[97, i.toUInt8], 100 + i, true⟩) ++
    [⟨[98], 200, false⟩, ⟨[98], 200, true⟩]

/-- The vocabulary after these calls has grown once and shows thirteen pairs; a fourteenth is
accepted. -/
theorem hbi_vocabulary_refines_growing :
    let vocab := (Vocabulary.ofCapacity (2 ^ 4)).adds growingAdds
    let pairs := (Vocabulary.ofCapacity (2 ^ 4)).accepted growingAdds
    vocab.table.length = 32 ∧ hbiVocabularySize vocab = 13 ∧ pairs.length = 14 ∧
      vocab.Refines pairs ∧
      (∀ c : AddCall, c.id < hbiTokenInvalidId → vocab.AddContract pairs c) ∧
      ∃ grown, vocab.add ⟨[99], 201, false⟩ = (grown, .ok ()) ∧
        grown.Refines (([99], 201) :: pairs) := by
  have hall := @hbi_vocabulary_refines 4 (by decide) (by decide) growingAdds (by decide)
  refine ⟨by decide +kernel, by decide +kernel, by decide +kernel, hall.1, hall.2, ?_⟩
  have hadded := (hall.2 ⟨[99], 201, false⟩ (by decide)).added
  have hnew : (∀ p ∈ (Vocabulary.ofCapacity (2 ^ 4)).accepted growingAdds,
      p.1 ≠ [99] ∧ p.2 ≠ 201) ∧
      ¬ vocabLoaded ((Vocabulary.ofCapacity (2 ^ 4)).adds growingAdds) := by
    decide +kernel
  apply hadded
  · exact fun i hi => (hnew.1 _ hi).1 rfl
  · exact fun t ht => (hnew.1 _ ht).2 rfl
  · decide
  · exact fun hloaded => absurd hloaded hnew.2

end Hummingbird

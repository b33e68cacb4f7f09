import Hummingbird.Common
import Hummingbird.Foundation.Doubling

/-!
Token sequences: an array of `uint32_t` ids with a count and a capacity of 32 bits each, which
doubles when an append needs more room. The answer of the allocator to a request is an
argument, with whatever the new memory holds. A loop that never ends and a `memcpy` past the
end of the array are faults.
-/

namespace Hummingbird

def hbiTokenSeqInitialCap : Nat := 64

/-- `hbi_token_sequence`; the array is the list of its cells. -/
structure TokenSequence where
  data : List UInt32
  count : Nat
  capacity : Nat
  deriving DecidableEq, Repr

namespace TokenSequence

/-- The tokens of a sequence. -/
def ids (seq : TokenSequence) : List UInt32 := seq.data.take seq.count

end TokenSequence

inductive SequenceFault where
  | endless
  | overrun
  deriving DecidableEq, Repr

/-- What a call on a sequence comes to. -/
abbrev SequenceRun := Except SequenceFault (TokenSequence × Result Unit)

/-- The cells of fresh memory from `start` on. -/
def freshCells (memory : Nat → UInt32) (start size : Nat) : List UInt32 :=
  (List.range' start size).map memory

/-- `granted` answers the request for the record, `answer` that for its array. -/
def hbiTokenSequenceCreate (granted : Bool) (answer : Option (Nat → UInt32)) :
    Result TokenSequence :=
  if granted then
    match answer with
    | none => errSet .oom "token sequence data allocation failed"
    | some memory =>
        .ok ⟨freshCells memory 0 hbiTokenSeqInitialCap, 0, hbiTokenSeqInitialCap⟩
  else errSet .oom "token sequence allocation failed"

def tokenSequenceGrow (seq : TokenSequence) (needed : Nat) (answer : Option (Nat → UInt32)) :
    SequenceRun :=
  if (seq.count + needed) % uint32Size ≤ seq.capacity then .ok (seq, .ok ())
  else
    match Doubling.loop 32 ((seq.count + needed) % uint32Size) 33 seq.capacity with
    | none => .error .endless
    | some newCap =>
        match answer with
        | none => .ok (seq, errSet .oom "token sequence grow failed")
        | some memory =>
            .ok ({ seq with
              data := seq.data ++ freshCells memory seq.data.length (newCap - seq.data.length)
              capacity := newCap }, .ok ())

def hbiTokenSequenceAppend (seq : TokenSequence) (id : UInt32) (answer : Option (Nat → UInt32)) :
    SequenceRun :=
  match tokenSequenceGrow seq 1 answer with
  | .error fault => .error fault
  | .ok (seq, .error e) => .ok (seq, .error e)
  | .ok (seq, .ok ()) =>
      if seq.count < seq.data.length then
        .ok ({ seq with
          data := seq.data.set seq.count id
          count := (seq.count + 1) % uint32Size }, .ok ())
      else .error .overrun

/-- The cells that `memcpy` is told to copy, whose size in bytes is a `size_t`. -/
def copiedCells (count : Nat) : Nat := count * 4 % sizeTSize / 4

def hbiTokenSequenceAppendMany (seq : TokenSequence) (ids : List UInt32)
    (answer : Option (Nat → UInt32)) : SequenceRun :=
  if ids.length = 0 then .ok (seq, .ok ())
  else
    match tokenSequenceGrow seq (ids.length % uint32Size) answer with
    | .error fault => .error fault
    | .ok (seq, .error e) => .ok (seq, .error e)
    | .ok (seq, .ok ()) =>
        if seq.count + copiedCells ids.length ≤ seq.data.length then
          .ok ({ seq with
            data := seq.data.take seq.count ++ ids.take (copiedCells ids.length) ++
              seq.data.drop (seq.count + copiedCells ids.length)
            count := (seq.count + ids.length % uint32Size) % uint32Size }, .ok ())
        else .error .overrun

def hbiTokenSequenceClear (seq : TokenSequence) : TokenSequence := { seq with count := 0 }

namespace TokenSequence

/-- The sequences that the calls lead to. -/
inductive Reached : TokenSequence → Prop
  | create {granted : Bool} {answer : Option (Nat → UInt32)} {seq : TokenSequence}
      (h : hbiTokenSequenceCreate granted answer = .ok seq) : Reached seq
  | append {seq seq' : TokenSequence} {id : UInt32} {answer : Option (Nat → UInt32)}
      {r : Result Unit} (hseq : Reached seq)
      (h : hbiTokenSequenceAppend seq id answer = .ok (seq', r)) : Reached seq'
  | appendMany {seq seq' : TokenSequence} {ids : List UInt32} {answer : Option (Nat → UInt32)}
      {r : Result Unit} (hseq : Reached seq)
      (h : hbiTokenSequenceAppendMany seq ids answer = .ok (seq', r)) : Reached seq'
  | clear {seq : TokenSequence} (hseq : Reached seq) : Reached (hbiTokenSequenceClear seq)

/-- The capacity is a power of two that 32 bits hold, the array has that many cells, and the
tokens are inside. -/
structure Inv (seq : TokenSequence) : Prop where
  capacity_pow : ∃ j, j < 32 ∧ seq.capacity = 2 ^ j
  cells : seq.data.length = seq.capacity
  count_le : seq.count ≤ seq.capacity

/-- The call ends, and appends these tokens or fails and changes nothing. -/
def Appends (seq : TokenSequence) (ids : List UInt32) : SequenceRun → Prop
  | .error _ => False
  | .ok (seq', .error _) => seq' = seq
  | .ok (seq', .ok ()) =>
      seq'.ids = seq.ids ++ ids ∧ seq'.count = (seq.ids ++ ids).length ∧
        seq'.count ≤ seq'.capacity

theorem Inv.capacity_le {seq : TokenSequence} (h : seq.Inv) : seq.capacity ≤ 2 ^ 31 := by
  obtain ⟨j, hj, hcap⟩ := h.capacity_pow
  rw [hcap]
  exact Nat.pow_le_pow_right (by decide) (by omega)

theorem Inv.length_ids {seq : TokenSequence} (h : seq.Inv) : seq.ids.length = seq.count := by
  unfold ids
  rw [List.length_take, h.cells]
  exact Nat.min_eq_left h.count_le

end TokenSequence

theorem length_freshCells (memory : Nat → UInt32) (start size : Nat) :
    (freshCells memory start size).length = size := by
  unfold freshCells
  rw [List.length_map, List.length_range']

/-- Everything that growing a sequence can do. -/
inductive Grown (seq : TokenSequence) (needed : Nat) : Option (Nat → UInt32) → SequenceRun → Prop
  | room {answer : Option (Nat → UInt32)}
      (h : (seq.count + needed) % uint32Size ≤ seq.capacity) :
      Grown seq needed answer (.ok (seq, .ok ()))
  | endless {answer : Option (Nat → UInt32)} (h : 2 ^ 31 < (seq.count + needed) % uint32Size) :
      Grown seq needed answer (.error .endless)
  | refused {e : Failure} (h : (seq.count + needed) % uint32Size ≤ 2 ^ 31) :
      Grown seq needed none (.ok (seq, .error e))
  | grown {memory : Nat → UInt32} {seq' : TokenSequence} (hinv : seq'.Inv)
      (h : (seq.count + needed) % uint32Size ≤ seq'.capacity) (hcount : seq'.count = seq.count)
      (hids : seq'.ids = seq.ids) : Grown seq needed (some memory) (.ok (seq', .ok ()))

open TokenSequence in
theorem tokenSequenceGrow_cases {seq : TokenSequence} (h : seq.Inv) (needed : Nat)
    (answer : Option (Nat → UInt32)) :
    Grown seq needed answer (tokenSequenceGrow seq needed answer) := by
  obtain ⟨j, hj, hcap⟩ := h.capacity_pow
  unfold tokenSequenceGrow
  by_cases hroom : (seq.count + needed) % uint32Size ≤ seq.capacity
  · rw [if_pos hroom]
    exact .room hroom
  · rw [if_neg hroom]
    rcases Nat.lt_or_ge (2 ^ 31) ((seq.count + needed) % uint32Size) with hbig | hfits
    · rw [hcap, Doubling.loop_endless hj hbig]
      exact .endless hbig
    · obtain ⟨m, hjm, hm, hreach, hloop⟩ := Doubling.loop_pow hj hfits
      rw [hcap, hloop]
      cases answer with
      | none => exact .refused hfits
      | some memory =>
          have hle : 2 ^ j ≤ 2 ^ m := Nat.pow_le_pow_right (by decide) hjm
          have hcells := h.cells
          have hcount := h.count_le
          refine .grown ⟨⟨m, hm, rfl⟩, ?_, ?_⟩ hreach rfl ?_
          · simp only [List.length_append, length_freshCells]
            omega
          · show seq.count ≤ 2 ^ m
            omega
          · unfold ids
            exact List.take_append_of_le_length (h.count_le.trans h.cells.ge)

/-- A loop that has not ended within its rounds never does. -/
theorem tokenSequenceGrow_endless {seq : TokenSequence} (h : seq.Inv) {needed : Nat}
    {answer : Option (Nat → UInt32)}
    (hrun : tokenSequenceGrow seq needed answer = .error .endless) (fuel : Nat) :
    Doubling.loop 32 ((seq.count + needed) % uint32Size) fuel seq.capacity = none := by
  obtain ⟨j, hj, hpow⟩ := h.capacity_pow
  have hgrow := tokenSequenceGrow_cases h needed answer
  rw [hrun] at hgrow
  cases hgrow with
  | endless hbig =>
      rw [hpow]
      exact Doubling.loop_endless hj hbig

theorem Grown.ok {seq seq' : TokenSequence} {needed : Nat} {answer : Option (Nat → UInt32)}
    (hinv : seq.Inv) (h : Grown seq needed answer (.ok (seq', .ok ()))) :
    seq'.Inv ∧ (seq.count + needed) % uint32Size ≤ seq'.capacity ∧ seq'.count = seq.count ∧
      seq'.ids = seq.ids := by
  cases h with
  | room h => exact ⟨hinv, h, rfl, rfl⟩
  | grown hinv' h hcount hids => exact ⟨hinv', h, hcount, hids⟩

theorem Grown.refused_eq {seq seq' : TokenSequence} {needed : Nat}
    {answer : Option (Nat → UInt32)} {e : Failure}
    (h : Grown seq needed answer (.ok (seq', .error e))) : seq' = seq ∧ answer = none := by
  cases h with
  | refused h => exact ⟨rfl, rfl⟩

/-- One token is appended as an array of one is. -/
theorem hbiTokenSequenceAppend_eq (seq : TokenSequence) (id : UInt32)
    (answer : Option (Nat → UInt32)) :
    hbiTokenSequenceAppend seq id answer = hbiTokenSequenceAppendMany seq [id] answer := by
  have hmod : ([id] : List UInt32).length % uint32Size = 1 := rfl
  have hcopied : copiedCells ([id] : List UInt32).length = 1 := by
    rw [List.length_singleton]
    decide
  unfold hbiTokenSequenceAppend hbiTokenSequenceAppendMany
  rw [if_neg (by simp), hmod, hcopied]
  rcases tokenSequenceGrow seq 1 answer with fault | ⟨seq', e | ⟨⟩⟩
  · rfl
  · rfl
  · dsimp only
    by_cases hroom : seq'.count < seq'.data.length
    · rw [if_pos hroom, if_pos (Nat.succ_le_of_lt hroom), List.set_eq_take_append_cons_drop,
        if_pos hroom, List.take_succ_cons, List.take_zero, List.append_assoc,
        List.singleton_append]
    · rw [if_neg hroom, if_neg (by omega)]

theorem copiedCells_of_lt {n : Nat} (h : n < 2 ^ 62) : copiedCells n = n := by
  unfold copiedCells sizeTSize
  omega

theorem copiedCells_le (n : Nat) : copiedCells n ≤ n := by
  have hle := Nat.mod_le (n * 4) sizeTSize
  unfold copiedCells
  omega

namespace TokenSequence

/-- What stands in the array when the copy is inside it. -/
theorem ids_copied {seq : TokenSequence} {ids : List UInt32} {n : Nat}
    (hfits : seq.count + ids.length ≤ seq.data.length) (hn : n = ids.length) :
    ((seq.data.take seq.count ++ ids.take n ++ seq.data.drop (seq.count + n)).take
      (seq.count + n)) = seq.ids ++ ids := by
  subst hn
  rw [List.take_length]
  refine List.take_left' ?_
  rw [List.length_append, List.length_take]
  omega

theorem length_copied {seq : TokenSequence} {ids : List UInt32} {n : Nat}
    (hfits : seq.count + n ≤ seq.data.length) (hn : n ≤ ids.length) :
    (seq.data.take seq.count ++ ids.take n ++ seq.data.drop (seq.count + n)).length =
      seq.data.length := by
  simp only [List.length_append, List.length_take, List.length_drop]
  omega

/-- Up to `2 ^ 31` tokens in all, an append does what it should. -/
theorem appendMany_appends {seq : TokenSequence} (h : seq.Inv) {ids : List UInt32}
    (hle : seq.count + ids.length ≤ 2 ^ 31) (answer : Option (Nat → UInt32)) :
    seq.Appends ids (hbiTokenSequenceAppendMany seq ids answer) := by
  unfold hbiTokenSequenceAppendMany
  by_cases hnil : ids.length = 0
  · obtain rfl := List.length_eq_zero_iff.mp hnil
    rw [if_pos hnil]
    unfold Appends
    rw [List.append_nil]
    exact ⟨rfl, h.length_ids.symm, h.count_le⟩
  · rw [if_neg hnil]
    have hmod : ids.length % uint32Size = ids.length :=
      Nat.mod_eq_of_lt (by unfold uint32Size; omega)
    have hsum : (seq.count + ids.length) % uint32Size = seq.count + ids.length :=
      Nat.mod_eq_of_lt (by unfold uint32Size; omega)
    have hgrow := tokenSequenceGrow_cases h ids.length answer
    rw [hmod]
    generalize tokenSequenceGrow seq ids.length answer = run at hgrow
    rcases run with fault | ⟨seq', e | ⟨⟩⟩
    · cases hgrow with
      | endless hbig =>
          rw [hsum] at hbig
          omega
    · exact hgrow.refused_eq.1
    · obtain ⟨hinv, hreach, hcount, hids⟩ := hgrow.ok h
      have hcells := hinv.cells
      have hlen := h.length_ids
      rw [hsum] at hreach
      dsimp only
      rw [copiedCells_of_lt (by omega), if_pos (by omega), hcount, hsum, ← hcount]
      refine ⟨?_, ?_, ?_⟩
      · rw [← hids]
        exact ids_copied (by omega) rfl
      · rw [List.length_append, hlen, hcount]
      · show seq'.count + ids.length ≤ seq'.capacity
        omega

/-- A call keeps the invariant, and fails only when the allocator does. -/
theorem appendMany_kept {seq seq' : TokenSequence} (h : seq.Inv) {ids : List UInt32}
    {answer : Option (Nat → UInt32)} {r : Result Unit}
    (hrun : hbiTokenSequenceAppendMany seq ids answer = .ok (seq', r)) :
    seq'.Inv ∧ (answer ≠ none → r = .ok ()) := by
  unfold hbiTokenSequenceAppendMany at hrun
  by_cases hnil : ids.length = 0
  · rw [if_pos hnil] at hrun
    obtain ⟨rfl, rfl⟩ := Prod.mk.inj (Except.ok.inj hrun)
    exact ⟨h, fun _ => rfl⟩
  · rw [if_neg hnil] at hrun
    have hgrow := tokenSequenceGrow_cases h (ids.length % uint32Size) answer
    generalize tokenSequenceGrow seq (ids.length % uint32Size) answer = run at hgrow hrun
    rcases run with fault | ⟨grown, e | ⟨⟩⟩
    · cases hrun
    · obtain ⟨rfl, rfl⟩ := Prod.mk.inj (Except.ok.inj hrun)
      obtain ⟨rfl, hnone⟩ := hgrow.refused_eq
      exact ⟨h, fun hsome => absurd hnone hsome⟩
    · obtain ⟨hinv, hreach, hcount, -⟩ := hgrow.ok h
      dsimp only at hrun
      by_cases hfits : grown.count + copiedCells ids.length ≤ grown.data.length
      · rw [if_pos hfits] at hrun
        obtain ⟨rfl, rfl⟩ := Prod.mk.inj (Except.ok.inj hrun)
        rw [← hcount] at hreach
        have hcells := (length_copied hfits (copiedCells_le _)).trans hinv.cells
        exact ⟨⟨hinv.capacity_pow, hcells, hreach⟩, fun _ => rfl⟩
      · rw [if_neg hfits] at hrun
        cases hrun

/-- Past `2 ^ 31` tokens no capacity will do. -/
theorem appendMany_not_appends {seq : TokenSequence} (h : seq.Inv) {ids : List UInt32}
    (hgt : 2 ^ 31 < seq.count + ids.length) (memory : Nat → UInt32) :
    ¬ seq.Appends ids (hbiTokenSequenceAppendMany seq ids (some memory)) := by
  intro happends
  generalize hrun : hbiTokenSequenceAppendMany seq ids (some memory) = run at happends
  rcases run with fault | ⟨seq', r⟩
  · exact happends
  · obtain ⟨hinv, hok⟩ := appendMany_kept h hrun
    obtain rfl := hok (by simp)
    obtain ⟨-, hcount, hle⟩ := happends
    rw [List.length_append, h.length_ids] at hcount
    have hcap := hinv.capacity_le
    omega

theorem create_inv {granted : Bool} {answer : Option (Nat → UInt32)} {seq : TokenSequence}
    (h : hbiTokenSequenceCreate granted answer = .ok seq) : seq.Inv := by
  unfold hbiTokenSequenceCreate at h
  cases granted with
  | false => exact absurd h (errSet_ne_ok _ _ _)
  | true =>
      cases answer with
      | none => exact absurd h (errSet_ne_ok _ _ _)
      | some memory =>
          obtain rfl := Except.ok.inj h
          exact ⟨⟨6, by decide, rfl⟩, length_freshCells _ _ _, Nat.zero_le _⟩

theorem Reached.inv {seq : TokenSequence} (h : seq.Reached) : seq.Inv := by
  induction h with
  | create h => exact create_inv h
  | append _ h ih =>
      rw [hbiTokenSequenceAppend_eq] at h
      exact (appendMany_kept ih h).1
  | appendMany _ h ih => exact (appendMany_kept ih h).1
  | clear _ ih => exact ⟨ih.capacity_pow, ih.cells, Nat.zero_le _⟩

/-- Whatever the allocator answers, an append to a sequence that the calls lead to does what it
should exactly when it leaves at most `2 ^ 31` tokens, or has none to append. -/
theorem appends_iff {seq : TokenSequence} (h : seq.Inv) (ids : List UInt32) :
    (∀ answer, seq.Appends ids (hbiTokenSequenceAppendMany seq ids answer)) ↔
      seq.count + ids.length ≤ 2 ^ 31 := by
  constructor
  · intro hall
    by_contra hgt
    exact appendMany_not_appends h (by omega) (fun _ => 0) (hall _)
  · intro hle answer
    exact appendMany_appends h hle answer

end TokenSequence

/-- Whatever the allocator answers, an append to a sequence that the calls lead to does what it
should exactly when it leaves at most `2 ^ 31` tokens. -/
theorem token_sequence_appends_iff (seq : TokenSequence) (h : seq.Reached) :
    (∀ id, (∀ answer, seq.Appends [id] (hbiTokenSequenceAppend seq id answer)) ↔
      seq.count + 1 ≤ 2 ^ 31) ∧
    ∀ ids, (∀ answer, seq.Appends ids (hbiTokenSequenceAppendMany seq ids answer)) ↔
      seq.count + ids.length ≤ 2 ^ 31 := by
  refine ⟨?_, TokenSequence.appends_iff h.inv⟩
  intro id
  simp only [hbiTokenSequenceAppend_eq]
  exact TokenSequence.appends_iff h.inv [id]

/-- The sequence that a call of `hbi_token_sequence_create` gives. -/
def createdSequence : TokenSequence := ⟨List.replicate 64 0, 0, 64⟩

theorem createdSequence_reached : createdSequence.Reached :=
  @TokenSequence.Reached.create true (some fun _ => 0) _ (by decide)

theorem token_sequence_appends_created :
    (∀ answer, createdSequence.Appends [7] (hbiTokenSequenceAppend createdSequence 7 answer)) ∧
      ∀ answer, createdSequence.Appends (List.replicate 100 7)
        (hbiTokenSequenceAppendMany createdSequence (List.replicate 100 7) answer) :=
  ⟨((token_sequence_appends_iff createdSequence createdSequence_reached).1 7).mpr (by decide),
    ((token_sequence_appends_iff createdSequence createdSequence_reached).2 _).mpr
      (by decide)⟩

theorem appendMany_created_endless {ids : List UInt32} (h : ids.length = 2 ^ 31 + 1)
    (answer : Option (Nat → UInt32)) :
    hbiTokenSequenceAppendMany createdSequence ids answer = .error .endless := by
  have hsum : (createdSequence.count + (2 ^ 31 + 1) % uint32Size) % uint32Size = 2 ^ 31 + 1 := by
    decide
  have hcap : ¬ 2 ^ 31 + 1 ≤ createdSequence.capacity := by decide
  have hloop : Doubling.loop 32 (2 ^ 31 + 1) 33 createdSequence.capacity = none :=
    Doubling.loop_endless (j := 6) (by decide) (by decide)
  have hgrow : tokenSequenceGrow createdSequence ((2 ^ 31 + 1) % uint32Size) answer =
      .error .endless := by
    unfold tokenSequenceGrow
    rw [hsum, if_neg hcap, hloop]
  unfold hbiTokenSequenceAppendMany
  rw [h, if_neg (by decide), hgrow]

/-- Asked for `2 ^ 31 + 1` tokens, the doubling never ends. -/
theorem token_sequence_endless :
    createdSequence.Reached ∧
      hbiTokenSequenceAppendMany createdSequence (List.replicate (2 ^ 31 + 1) 7)
        (some fun _ => 0) = .error .endless :=
  ⟨createdSequence_reached, appendMany_created_endless List.length_replicate _⟩

end Hummingbird

import Hummingbird.Foundation.Table
import Hummingbird.Stream.System

/-!
A call of `hbi_stream_evict_lru` while no other thread moves. The try-lock answers with
true when it took the mutex and the loop takes 0 for success: a mutex that is free is
taken and kept, a mutex that is held is given back, and only blocks of the second kind
are considered. The call is what the steps of a thread come to that is left alone.
-/

namespace Hummingbird

/-- The loop over the blocks, from the given index on. -/
def scanBlocks (t : Nat) (tier : MemoryTier) :
    Nat → List StreamBlock → LruChoice → List StreamBlock × LruChoice
  | _, [], lru => ([], lru)
  | i, b :: rest, lru =>
      let scanned := scanBlock t tier i b lru
      let others := scanBlocks t tier (i + 1) rest scanned.2
      (scanned.1 :: others.1, others.2)

/-- The part behind the loop: the victim's mutex is taken, unless it is held and the call
does not come back. -/
def evictChosen (e : StreamEngine) (t : Nat) : LruChoice → Option (StreamEngine × Result Unit)
  | none => some (e, .error ⟨.oom, ""⟩)
  | some (v, _) =>
      match e.blocks[v]? with
      | none => none
      | some b =>
          if b.mutex = none then
            some (victimSection e v (b.lockedBy t).unlocked, .ok ())
          else none

/-- `hbi_stream_evict_lru`, called by a thread that runs alone. -/
def hbiStreamEvictLru (e : StreamEngine) (t : Nat) (tier : MemoryTier) :
    Option (StreamEngine × Result Unit) :=
  evictChosen { e with blocks := (scanBlocks t tier 0 e.blocks none).1 } t
    (scanBlocks t tier 0 e.blocks none).2

/-- What a turn of the loop leaves of a mutex. -/
def turnedMutex (t : Nat) (mutex : Option Nat) : Option Nat :=
  if mutex = none then some t else none

theorem turnedMutex_ne (t : Nat) (mutex : Option Nat) : turnedMutex t mutex ≠ mutex := by
  unfold turnedMutex
  cases mutex with
  | none => simp
  | some owner => simp

theorem scanBlock_fst (t : Nat) (tier : MemoryTier) (i : Nat) (b : StreamBlock)
    (lru : LruChoice) :
    (scanBlock t tier i b lru).1 = { b with mutex := turnedMutex t b.mutex } := by
  unfold scanBlock hbiMutexTrylock turnedMutex
  cases b.mutex with
  | none => rfl
  | some owner => rfl

/-- The loop turns every mutex over and changes nothing else. -/
theorem scanBlocks_fst (t : Nat) (tier : MemoryTier) (i : Nat) (bs : List StreamBlock)
    (lru : LruChoice) :
    (scanBlocks t tier i bs lru).1 = bs.map fun b => { b with mutex := turnedMutex t b.mutex } := by
  induction bs generalizing i lru with
  | nil => rfl
  | cons b rest ih =>
      simp only [scanBlocks, List.map_cons]
      rw [scanBlock_fst, ih]

theorem map_mutex_setBlock {e : StreamEngine} {i : Nat} {b b' : StreamBlock}
    (hb : e.blocks[i]? = some b) (hmutex : b'.mutex = b.mutex) :
    (e.setBlock i b').blocks.map StreamBlock.mutex = e.blocks.map StreamBlock.mutex := by
  obtain ⟨hi, rfl⟩ := List.getElem?_eq_some_iff.mp hb
  apply List.ext_getElem
  · simp [StreamEngine.setBlock]
  · intro j _ hj
    by_cases hij : i = j
    · subst hij
      simp [StreamEngine.setBlock, hmutex]
    · simp [StreamEngine.setBlock, hij]

theorem evictChosen_mutex {e e' : StreamEngine} {t : Nat} {lru : LruChoice} {r : Result Unit}
    (h : evictChosen e t lru = some (e', r)) :
    e'.blocks.map StreamBlock.mutex = e.blocks.map StreamBlock.mutex := by
  unfold evictChosen at h
  split at h
  · cases h
    rfl
  · split at h
    · cases h
    · rename_i v _ b hb
      split at h
      · rename_i hfree
        cases h
        unfold victimSection
        split
        · exact map_mutex_setBlock hb hfree.symm
        · exact map_mutex_setBlock hb hfree.symm
      · cases h

/-- A block that the call may evict. -/
def StreamBlock.Candidate (b : StreamBlock) (tier : MemoryTier) : Prop :=
  b.evictable = true ∧ b.currentTier = tier

/-- One of the least recently used candidates is evicted, and nothing else changes. -/
def EvictedLru (e e' : StreamEngine) (tier : MemoryTier) : Prop :=
  ∃ v b, e.blocks[v]? = some b ∧ b.Candidate tier ∧
    (∀ b' ∈ e.blocks, b'.Candidate tier → b.lastAccessTick ≤ b'.lastAccessTick) ∧
    e' = { e.setBlock v b.evicted with
      heap := freeBuffer e.heap b.ramPtr
      ramUsage := if b.ramPtr.isSome then e.ramUsage - b.entry.byteSize else e.ramUsage
      evictions := e.evictions + 1 }

/-- The call comes back with the block mutexes as they were; it evicts a least recently
used candidate, or reports that there is none and changes nothing. -/
def MeetsLru (e : StreamEngine) (t : Nat) (tier : MemoryTier) : Prop :=
  ∃ e' r, hbiStreamEvictLru e t tier = some (e', r) ∧
    e'.blocks.map StreamBlock.mutex = e.blocks.map StreamBlock.mutex ∧
    ((∃ b ∈ e.blocks, b.Candidate tier) → r = .ok () ∧ EvictedLru e e' tier) ∧
    ((¬ ∃ b ∈ e.blocks, b.Candidate tier) → r = .error ⟨.oom, ""⟩ ∧ e' = e)

/-- For every engine, whoever holds its mutexes, every calling thread and every tier: the
call does what it is for exactly when no block is registered. -/
theorem hbiStreamEvictLru_meets_iff (e : StreamEngine) (t : Nat) (tier : MemoryTier) :
    MeetsLru e t tier ↔ e.blocks = [] := by
  constructor
  · rintro ⟨e', r, hcall, hlocks, -⟩
    have hturned := evictChosen_mutex hcall
    dsimp only at hturned
    rw [scanBlocks_fst, hlocks] at hturned
    cases hblocks : e.blocks with
    | nil => rfl
    | cons b rest =>
        rw [hblocks] at hturned
        simp only [List.map_cons, List.cons.injEq] at hturned
        exact absurd hturned.1.symm (turnedMutex_ne t b.mutex)
  · intro hblocks
    have hcall : hbiStreamEvictLru e t tier = some (e, .error ⟨.oom, ""⟩) := by
      unfold hbiStreamEvictLru
      rw [hblocks]
      simp only [scanBlocks, evictChosen]
      rw [← hblocks]
    refine ⟨e, _, hcall, rfl, ?_, fun _ => ⟨rfl, rfl⟩⟩
    rintro ⟨b, hb, -⟩
    simp [hblocks] at hb

/-- A resident block of eight bytes in RAM that nobody pins or holds. -/
def residentBlock : StreamBlock where
  tensorId := 0
  handler := true
  entry := ⟨"w", ⟨[2]⟩, .fp32, 8, 64, .streamable⟩
  dtype := .fp32
  shape := ⟨[2]⟩
  status := .resident
  currentTier := .ram
  ramPtr := some 0
  filled := true
  pinCount := 0
  accessCount := 0
  lastAccessTick := 1
  mutex := none

/-- An engine with one resident block and no other thread: the call reports that nothing
can be evicted and keeps the mutex of the block. -/
theorem hbiStreamEvictLru_keeps_mutex :
    ∃ e e' : StreamEngine, e.blocks = [residentBlock] ∧ residentBlock.Candidate .ram ∧
      hbiStreamEvictLru e 0 .ram = some (e', .error ⟨.oom, ""⟩) ∧
      e'.blocks = [residentBlock.lockedBy 0] ∧ ¬ MeetsLru e 0 .ram := by
  refine ⟨{ hbiStreamEngineCreate 100 none (.fresh false) with blocks := [residentBlock] }, _,
    rfl, ⟨by decide, rfl⟩, rfl, rfl, ?_⟩
  rintro ⟨e', r, hcall, hlocks, -⟩
  cases hcall
  exact absurd hlocks (by decide)

/-- A thread makes a step while no other thread moves. -/
def aloneStep (t : Nat) (env : StreamEnv) (s : StreamEngine × ThreadAt) : StreamEngine × ThreadAt :=
  threadStep s.1 t env s.2

section Alone

variable {t : Nat} {env : StreamEnv} {tier : MemoryTier}

/-- The loop, from a turn of it on. -/
theorem alone_scan (e : StreamEngine) (before after : List StreamBlock) (lru : LruChoice)
    (he : e.blocks = before ++ after) :
    (aloneStep t env)^[after.length] (e, .caller (.evictingLru tier (.scan before.length lru))) =
      ({ e with blocks := before ++ (scanBlocks t tier before.length after lru).1 },
        .caller (.evictingLru tier
          (.scan (before.length + after.length)
            (scanBlocks t tier before.length after lru).2))) := by
  induction after generalizing e before lru with
  | nil =>
      simp only [List.length_nil, Function.iterate_zero, id_eq, scanBlocks, Nat.add_zero]
      rw [← he]
  | cons b rest ih =>
      have hb : e.blocks[before.length]? = some b := by simp [he]
      have hstep : aloneStep t env (e, .caller (.evictingLru tier (.scan before.length lru))) =
          (e.setBlock before.length (scanBlock t tier before.length b lru).1,
            .caller (.evictingLru tier (.scan (before.length + 1)
              (scanBlock t tier before.length b lru).2))) := by
        simp only [aloneStep, threadStep, callerStep, lruStep, hb]
      have hblocks : (e.setBlock before.length (scanBlock t tier before.length b lru).1).blocks =
          (before ++ [(scanBlock t tier before.length b lru).1]) ++ rest := by
        simp [StreamEngine.setBlock, he, List.append_assoc]
      have hrest := ih _ (before ++ [(scanBlock t tier before.length b lru).1])
        (scanBlock t tier before.length b lru).2 hblocks
      rw [List.length_append, List.length_singleton] at hrest
      rw [List.length_cons, Function.iterate_succ_apply, hstep, hrest]
      simp [scanBlocks, StreamEngine.setBlock, Nat.add_assoc, Nat.add_comm 1]

theorem victimSection_setBlock (e : StreamEngine) (v : Nat) (b b' : StreamBlock) :
    victimSection (e.setBlock v b) v b' = victimSection e v b' := by
  unfold victimSection StreamEngine.setBlock
  simp only [List.set_set]

/-- The part behind the loop: the call returns, or stands in front of the victim's mutex. -/
theorem alone_chosen (e : StreamEngine) (lru : LruChoice) :
    (∃ e' r, evictChosen e t lru = some (e', r) ∧
      ∃ n, (aloneStep t env)^[n] (e, .caller (.evictingLru tier (.scan e.blocks.length lru))) =
        (e', .answered r)) ∨
    evictChosen e t lru = none ∧
      ∃ v, aloneStep t env (e, .caller (.evictingLru tier (.scan e.blocks.length lru))) =
          (e, .caller (.evictingLru tier (.wants v))) ∧
        aloneStep t env (e, .caller (.evictingLru tier (.wants v))) =
          (e, .caller (.evictingLru tier (.wants v))) := by
  have hend : e.blocks[e.blocks.length]? = none := List.getElem?_eq_none le_rfl
  cases lru with
  | none =>
      refine Or.inl ⟨e, _, rfl, 1, ?_⟩
      simp only [Function.iterate_one, aloneStep, threadStep, callerStep, lruStep, hend]
  | some choice =>
      obtain ⟨v, tick⟩ := choice
      have hwants : aloneStep t env (e, .caller (.evictingLru tier
          (.scan e.blocks.length (some (v, tick))))) =
          (e, .caller (.evictingLru tier (.wants v))) := by
        simp only [aloneStep, threadStep, callerStep, lruStep, hend]
      cases hb : e.blocks[v]? with
      | none =>
          refine Or.inr ⟨by simp only [evictChosen, hb], v, hwants, ?_⟩
          simp only [aloneStep, threadStep, callerStep, lruStep, StreamEngine.lockBlock, hb]
      | some b =>
          by_cases hfree : b.mutex = none
          · refine Or.inl ⟨victimSection e v (b.lockedBy t).unlocked, .ok (), ?_, 3, ?_⟩
            · simp only [evictChosen, hb, hfree, if_true]
            · have hlock : aloneStep t env (e, .caller (.evictingLru tier (.wants v))) =
                  (e.setBlock v (b.lockedBy t), .caller (.evictingLru tier (.inside v))) := by
                simp only [aloneStep, threadStep, callerStep, lruStep, StreamEngine.lockBlock, hb,
                  hfree, if_true]
              have hlocked : (e.setBlock v (b.lockedBy t)).blocks[v]? = some (b.lockedBy t) := by
                rw [StreamEngine.setBlock, Table.getElem?_set_of hb, if_pos rfl]
              have hevict : aloneStep t env (e.setBlock v (b.lockedBy t),
                  .caller (.evictingLru tier (.inside v))) =
                  (victimSection e v (b.lockedBy t).unlocked, .answered (.ok ())) := by
                simp only [aloneStep, threadStep, callerStep, lruStep, hlocked]
                rw [victimSection_setBlock]
              simp only [Function.iterate_succ, Function.iterate_zero, Function.comp_apply, id_eq,
                hwants, hlock, hevict]
          · refine Or.inr ⟨by simp only [evictChosen, hb, hfree, if_false], v, hwants, ?_⟩
            simp only [aloneStep, threadStep, callerStep, lruStep, StreamEngine.lockBlock, hb,
              hfree, if_false]

/-- A thread that makes the steps of `hbi_stream_evict_lru` and is not disturbed comes back
with what the call computes, or never leaves the place in front of the victim's mutex. -/
theorem alone_evictLru (e : StreamEngine) :
    (∃ e' r, hbiStreamEvictLru e t tier = some (e', r) ∧
      ∃ n, (aloneStep t env)^[n] (e, beginCall e (.evictLru tier)) = (e', .answered r)) ∨
    hbiStreamEvictLru e t tier = none ∧
      ∃ n e' v, ∀ m, (aloneStep t env)^[n + m] (e, beginCall e (.evictLru tier)) =
        (e', .caller (.evictingLru tier (.wants v))) := by
  have hscan := @alone_scan t env tier e [] e.blocks none rfl
  simp only [List.nil_append, List.length_nil, Nat.zero_add] at hscan
  have hlength : (scanBlocks t tier 0 e.blocks none).1.length = e.blocks.length := by
    rw [scanBlocks_fst, List.length_map]
  have hbehind := @alone_chosen t env tier
    { e with blocks := (scanBlocks t tier 0 e.blocks none).1 } (scanBlocks t tier 0 e.blocks none).2
  rcases hbehind with ⟨e', r, hchosen, n, hrun⟩ | ⟨hnone, v, hwants, hstuck⟩
  · refine Or.inl ⟨e', r, hchosen, n + e.blocks.length, ?_⟩
    rw [Function.iterate_add_apply]
    simp only [beginCall, hscan]
    rw [← hrun]
    simp only [hlength]
  · refine Or.inr ⟨hnone, 1 + e.blocks.length,
      { e with blocks := (scanBlocks t tier 0 e.blocks none).1 }, v, fun m => ?_⟩
    rw [Nat.add_comm, Function.iterate_add_apply, Function.iterate_add_apply]
    simp only [beginCall, hscan]
    simp only [hlength] at hwants
    rw [Function.iterate_one, hwants]
    exact Function.iterate_fixed hstuck m

end Alone

end Hummingbird

import Hummingbird.Stream.Lru

/-!
A call of `hbi_stream_await` while no other thread moves, as in a session, whose engine has
no I/O pool and one thread that calls it. A block in transit stays in transit, an evicted
block is an error, and for a loaded one `hbi_stream_cache_record_access` requests the mutex
that the call holds. So the call fails or does not come back.
-/

namespace Hummingbird

/-- What a call has answered when a thread that runs alone has made the given number of its
steps. -/
def answeredAlone (t : Nat) (env : StreamEnv) (steps : Nat) (e : StreamEngine) (op : StreamOp) :
    Option (StreamEngine × Result (Option Tensor)) :=
  match (aloneStep t env)^[steps] (e, beginCall e op) with
  | (e', .caller (.returned r)) => some (e', r)
  | _ => none

/-- `hbi_stream_await`, called by a thread that runs alone. -/
def hbiStreamAwait (t : Nat) (env : StreamEnv) (steps : Nat) (e : StreamEngine) (i : Nat) :
    Option (StreamEngine × Result (Option Tensor)) :=
  answeredAlone t env steps e (.block .await i)

/-- `hbi_stream_prefetch`, called by a thread that runs alone. -/
def hbiStreamPrefetch (t : Nat) (env : StreamEnv) (steps : Nat) (e : StreamEngine) (i : Nat)
    (tier : MemoryTier) : Option (StreamEngine × Result (Option Tensor)) :=
  answeredAlone t env steps e (.block (.prefetch tier) i)

theorem exists_of_answeredAlone {t : Nat} {env : StreamEnv} {steps : Nat} {e e' : StreamEngine}
    {op : StreamOp} {r : Result (Option Tensor)}
    (h : answeredAlone t env steps e op = some (e', r)) :
    (aloneStep t env)^[steps] (e, beginCall e op) = (e', .caller (.returned r)) := by
  unfold answeredAlone at h
  split at h
  · rename_i e₁ r₁ hreturned
    cases h
    exact hreturned
  · cases h

/-- Where a thread stands in an await that nobody disturbs: at the wait, at its failure, or
for ever in front of the mutex that it holds. -/
inductive AwaitAlone (i : Nat) : StreamEngine × ThreadAt → Prop
  | wants (e : StreamEngine) : AwaitAlone i (e, .caller (.wants .await i))
  | inside {e : StreamEngine} {b : StreamBlock} (hb : e.blocks[i]? = some b)
      (hheld : b.mutex ≠ none) : AwaitAlone i (e, .caller (.inside .await i))
  | blocked {e : StreamEngine} {b : StreamBlock} (hb : e.blocks[i]? = some b)
      (hheld : b.mutex ≠ none) : AwaitAlone i (e, .caller (.wantsRecord i))
  | failed (e : StreamEngine) (err : Failure) :
      AwaitAlone i (e, .caller (.returned (.error err)))

section Await

variable {t i steps : Nat} {env : StreamEnv} {e e' : StreamEngine} {s : StreamEngine × ThreadAt}

theorem AwaitAlone.step (h : AwaitAlone i s) : AwaitAlone i (aloneStep t env s) := by
  cases h with
  | wants e =>
      simp only [aloneStep, threadStep, callerStep, StreamEngine.lockBlock]
      split
      · exact .wants e
      · rename_i b hb
        split
        · refine .inside (b := b.lockedBy t) ?_ (by simp [StreamBlock.lockedBy])
          rw [StreamEngine.setBlock, Table.getElem?_set_of hb, if_pos rfl]
        · exact .wants e
  | inside hb hheld =>
      rename_i e b
      simp only [aloneStep, threadStep, callerStep, hb, opSection]
      cases b.status with
      | inTransit => exact .wants _
      | evicted => exact .failed _ _
      | resident => exact .blocked hb hheld
      | pinned => exact .blocked hb hheld
  | blocked hb hheld =>
      rename_i e b
      have hstay : aloneStep t env (e, .caller (.wantsRecord i)) =
          (e, .caller (.wantsRecord i)) := by
        simp only [aloneStep, threadStep, callerStep, StreamEngine.lockBlock, hb, if_neg hheld]
      rw [hstay]
      exact .blocked hb hheld
  | failed e err => exact .failed e err

theorem beginCall_awaitAlone (e : StreamEngine) (i : Nat) :
    AwaitAlone i (e, beginCall e (.block .await i)) := by
  simp only [beginCall]
  split
  · exact .wants e
  · exact .failed e _

/-- Whatever the state of its block, an await that nobody disturbs hands no tensor back. -/
theorem hbiStreamAwait_fails {r : Result (Option Tensor)}
    (h : hbiStreamAwait t env steps e i = some (e', r)) : ∃ err, r = .error err := by
  have halone : AwaitAlone i (e', .caller (.returned r)) := by
    rw [← exists_of_answeredAlone h]
    exact Function.Iterate.rec (AwaitAlone i) (beginCall_awaitAlone e i)
      (fun s hs => hs.step) steps
  cases halone with
  | failed e err => exact ⟨err, rfl⟩

end Await

/-- What the blocks of the engine stand for. -/
def StreamEngine.table (e : StreamEngine) : List (Nat × TensorEntry) :=
  e.blocks.map fun b => (b.tensorId, b.entry)

/-- Where a caller stands in an operation on a block. -/
def CallerAt.onBlock : CallerAt → Bool
  | .outside | .wantsTable _ | .registering _ | .evictingLru _ _ => false
  | _ => true

/-- A step of an operation on a block, which leaves the table as it is. -/
structure TableKept (e : StreamEngine) (s : StreamEngine × ThreadAt) : Prop where
  table : s.1.table = e.table
  onBlock : ∃ c, s.2 = .caller c ∧ c.onBlock = true

section Table

variable {t i steps : Nat} {env : StreamEnv} {e e' : StreamEngine} {b b' : StreamBlock}
  {c next stay : CallerAt}

theorem setBlock_table (hb : e.blocks[i]? = some b)
    (hsame : (b'.tensorId, b'.entry) = (b.tensorId, b.entry)) :
    (e.setBlock i b').table = e.table := by
  obtain ⟨hi, rfl⟩ := List.getElem?_eq_some_iff.mp hb
  apply List.ext_getElem
  · simp [StreamEngine.table, StreamEngine.setBlock]
  · intro j _ hj
    by_cases hij : i = j
    · subst hij
      simpa [StreamEngine.table, StreamEngine.setBlock] using hsame
    · simp [StreamEngine.table, StreamEngine.setBlock, hij]

theorem unlockBlock_table (e : StreamEngine) (i : Nat) : (e.unlockBlock i).table = e.table := by
  apply List.ext_getElem
  · simp [StreamEngine.table, StreamEngine.unlockBlock]
  · intro j _ hj
    by_cases hij : i = j
    · subst hij
      simp [StreamEngine.table, StreamEngine.unlockBlock, StreamBlock.unlocked]
    · simp [StreamEngine.table, StreamEngine.unlockBlock, hij]

theorem lockBlock_tableKept (hnext : next.onBlock = true) (hstay : stay.onBlock = true) :
    TableKept e (e.lockBlock t i (.caller next) (.caller stay)) := by
  unfold StreamEngine.lockBlock
  split
  · exact ⟨rfl, stay, rfl, hstay⟩
  · rename_i b hb
    split
    · exact ⟨setBlock_table hb rfl, next, rfl, hnext⟩
    · exact ⟨rfl, stay, rfl, hstay⟩

theorem lockGlobal_tableKept (hnext : next.onBlock = true) (hstay : stay.onBlock = true) :
    TableKept e (e.lockGlobal t (.caller next) (.caller stay)) := by
  unfold StreamEngine.lockGlobal
  split
  · exact ⟨rfl, next, rfl, hnext⟩
  · exact ⟨rfl, stay, rfl, hstay⟩

theorem opSection_tableKept (hb : e.blocks[i]? = some b) (op : BlockOp) :
    TableKept e (opSection e i b op) := by
  cases op with
  | pin => exact ⟨setBlock_table hb rfl, _, rfl, rfl⟩
  | unpin =>
      refine ⟨setBlock_table hb ?_, _, rfl, rfl⟩
      unfold StreamBlock.unpin
      split
      · rfl
      · rfl
  | evict =>
      refine ⟨?_, _, rfl, rfl⟩
      simp only [opSection, evictSection]
      split
      · exact setBlock_table hb rfl
      · exact setBlock_table hb rfl
  | prefetch tier =>
      simp only [opSection]
      split
      · exact ⟨setBlock_table hb rfl, _, rfl, rfl⟩
      · exact ⟨setBlock_table hb rfl, _, rfl, rfl⟩
  | await =>
      simp only [opSection]
      cases b.status with
      | inTransit => exact ⟨setBlock_table hb rfl, _, rfl, rfl⟩
      | evicted => exact ⟨setBlock_table hb rfl, _, rfl, rfl⟩
      | resident => exact ⟨rfl, _, rfl, rfl⟩
      | pinned => exact ⟨rfl, _, rfl, rfl⟩

theorem submitJob_tableKept (e : StreamEngine) (i : Nat) (woken : Bool) :
    TableKept e (submitJob e i woken) := by
  unfold submitJob
  split
  · exact ⟨unlockBlock_table e i, _, rfl, rfl⟩
  · split
    · exact ⟨unlockBlock_table e i, _, rfl, rfl⟩
    · exact ⟨rfl, _, rfl, rfl⟩
    · exact ⟨unlockBlock_table e i, _, rfl, rfl⟩

theorem wrapSection_tableKept (hb : e.blocks[i]? = some b) : TableKept e (wrapSection e i b) := by
  unfold wrapSection
  split
  · exact ⟨setBlock_table hb rfl, _, rfl, rfl⟩
  · exact ⟨setBlock_table hb rfl, _, rfl, rfl⟩

theorem callerStep_tableKept (hc : c.onBlock = true) : TableKept e (callerStep e t env c) := by
  cases c with
  | outside => cases hc
  | returned r => exact ⟨rfl, _, rfl, rfl⟩
  | wantsTable d => cases hc
  | registering d => cases hc
  | wants op i => exact lockBlock_tableKept rfl rfl
  | inside op i =>
      simp only [callerStep]
      split
      · exact ⟨rfl, _, rfl, rfl⟩
      · rename_i b hb
        exact opSection_tableKept hb op
  | submitting i woken => exact submitJob_tableKept e i woken
  | wantsRecord i => exact lockBlock_tableKept rfl rfl
  | recording i =>
      simp only [callerStep]
      split
      · exact ⟨rfl, _, rfl, rfl⟩
      · rename_i b hb
        exact ⟨setBlock_table hb rfl, _, rfl, rfl⟩
  | wrapping i =>
      simp only [callerStep]
      split
      · exact ⟨rfl, _, rfl, rfl⟩
      · rename_i b hb
        exact wrapSection_tableKept hb
  | wantsHit tensor => exact lockGlobal_tableKept rfl rfl
  | hitting tensor => exact ⟨rfl, _, rfl, rfl⟩
  | evictingLru tier l => cases hc

/-- No operation on a block changes what the blocks stand for. -/
theorem answeredAlone_table {op : BlockOp} {r : Result (Option Tensor)}
    (h : answeredAlone t env steps e (.block op i) = some (e', r)) : e'.table = e.table := by
  have hkept : TableKept e ((aloneStep t env)^[steps] (e, beginCall e (.block op i))) := by
    refine Function.Iterate.rec (TableKept e) ?_ ?_ steps
    · simp only [beginCall]
      split
      · exact ⟨rfl, _, rfl, rfl⟩
      · exact ⟨rfl, _, rfl, rfl⟩
    · rintro ⟨e₁, p⟩ ⟨htable, c, rfl, hc⟩
      have hstep := @callerStep_tableKept t env e₁ c hc
      exact ⟨hstep.table.trans htable, hstep.onBlock⟩
  rw [exists_of_answeredAlone h] at hkept
  exact hkept.table

end Table

end Hummingbird

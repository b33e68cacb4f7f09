import Hummingbird.Foundation.Locking
import Hummingbird.Stream.Jobs

/-!
Who waits for whom. A thread waits for the owner of the mutex it requests; a prefetch that
finds the queue full waits, with the mutex of its block, for the workers. The mutexes are
not recursive. `hbi_stream_await` requests the mutex it holds when it finds its block
loaded, and `hbi_stream_evict_lru` keeps the mutexes it acquires. Away from these two a
thread holds one mutex at most, and every wait ends at a thread that does not wait.
-/

namespace Hummingbird

inductive StreamLock where
  | global
  | block (i : Nat)
  deriving DecidableEq, Repr

/-- The thread that owns a mutex. -/
def StreamEngine.owner (e : StreamEngine) : StreamLock → Option Nat
  | .global => e.globalMutex
  | .block i => (e.blocks[i]?).bind StreamBlock.mutex

/-- The mutex that the thread's next step acquires. -/
def ThreadAt.requests : ThreadAt → Option StreamLock
  | .caller (.wantsTable _) | .caller (.wantsHit _) | .running _ .wantsGlobal => some .global
  | .caller (.wants _ i) | .caller (.wantsRecord i) | .caller (.evictingLru _ (.wants i))
  | .running i .wantsBlock | .running _ (.evicting (.wants i)) => some (.block i)
  | _ => none

/-- A thread of the I/O pool. -/
def ThreadAt.worker : ThreadAt → Bool
  | .caller _ => false
  | _ => true

/-- The I/O pool takes jobs and has no free slot. -/
def StreamEngine.queueFull (e : StreamEngine) : Bool :=
  e.ioPool.any fun pool => !pool.shuttingDown && pool.count == pool.queue.length

/-- One thread is held up by another: it requests a mutex that the other owns, or needs a
slot that the other, a worker, has to free. -/
inductive StreamState.WaitsFor (s : StreamState) (t u : Nat) : Prop
  | mutex {p : ThreadAt} {l : StreamLock} (hp : s.threads[t]? = some p)
      (hrequest : p.requests = some l) (howner : s.engine.owner l = some u)
  | slot {i : Nat} {woken : Bool} {q : ThreadAt}
      (hp : s.threads[t]? = some (.caller (.submitting i woken)))
      (hfull : s.engine.queueFull = true) (hq : s.threads[u]? = some q) (hworker : q.worker = true)

/-- No thread requests a mutex that it owns, and no threads wait for each other in a
circle. -/
structure NoDeadlock (s : StreamState) : Prop where
  own : ∀ t p l, s.threads[t]? = some p → p.requests = some l → s.engine.owner l ≠ some t
  circle : ∀ t, ¬ Relation.TransGen s.WaitsFor t t

/-- The mutex that a thread holds where it stands. -/
def ThreadAt.holds : ThreadAt → Option StreamLock
  | .caller (.registering _) | .running _ .budget => some .global
  | .caller (.inside _ i) | .caller (.submitting i _) | .running i .finishing => some (.block i)
  | _ => none

/-- The thread stands outside the end of `hbi_stream_await` and has not begun to scan in
`hbi_stream_evict_lru`. -/
def ThreadAt.ordinary : ThreadAt → Bool
  | .caller (.wantsRecord _) | .caller (.recording _) | .caller (.wrapping _)
  | .caller (.wantsHit _) | .caller (.hitting _) => false
  | .caller (.evictingLru _ (.wants _)) | .caller (.evictingLru _ (.inside _)) => false
  | .running _ (.evicting _) | .running _ .gaveUp => false
  | _ => true

/-- A move that balances its mutexes: an await does not find its block loaded, a worker is
not over the budget, and nobody runs `hbi_stream_evict_lru`. -/
def lockSafe (e : StreamEngine) (_ : StreamEnv) : ThreadAt → Bool
  | .caller (.inside .await i) =>
      (e.blocks[i]?).all fun b => decide (b.status = .inTransit ∨ b.status = .evicted)
  | .caller (.evictingLru _ _) => false
  | .running i .budget => (e.blocks[i]?).all fun b => !overBudget e b
  | _ => true

section Owner

variable {e : StreamEngine} {i t : Nat} {b : StreamBlock}

theorem owner_block (hb : e.blocks[i]? = some b) : e.owner (.block i) = b.mutex := by
  simp [StreamEngine.owner, hb]

theorem owner_setBlock (hb : e.blocks[i]? = some b) (b' : StreamBlock) :
    (e.setBlock i b').owner = Function.update e.owner (.block i) b'.mutex := by
  funext l
  cases l with
  | global => rfl
  | block j =>
      by_cases hij : i = j
      · subst hij
        simp [StreamEngine.owner, StreamEngine.setBlock, Table.getElem?_set_of hb]
      · have hne : StreamLock.block j ≠ .block i := by simpa using Ne.symm hij
        simp [StreamEngine.owner, StreamEngine.setBlock, Table.getElem?_set_of hb, hij, hne]

theorem owner_setBlock_of_mutex (hb : e.blocks[i]? = some b) (b' : StreamBlock)
    (h : b'.mutex = b.mutex) : (e.setBlock i b').owner = e.owner := by
  rw [owner_setBlock hb, h, ← owner_block hb, Function.update_eq_self]

theorem owner_unlockGlobal (e : StreamEngine) :
    e.unlockGlobal.owner = Function.update e.owner .global none := by
  funext l
  cases l with
  | global => simp [StreamEngine.owner, StreamEngine.unlockGlobal]
  | block j => simp [StreamEngine.owner, StreamEngine.unlockGlobal]

theorem owner_unlockBlock (e : StreamEngine) (i : Nat) :
    (e.unlockBlock i).owner = Function.update e.owner (.block i) none := by
  funext l
  cases l with
  | global => simp [StreamEngine.owner, StreamEngine.unlockBlock]
  | block j =>
      simp only [StreamEngine.owner, StreamEngine.unlockBlock, List.getElem?_modify]
      by_cases hij : i = j
      · subst hij
        cases e.blocks[i]? with
        | none => simp
        | some b => simp [StreamBlock.unlocked]
      · have hne : StreamLock.block j ≠ .block i := by simpa using Ne.symm hij
        simp [hij, hne, StreamEngine.owner]

end Owner

/-- A step that ends at an ordinary place and takes one mutex, gives one back or does
neither. -/
structure Balanced (e : StreamEngine) (t : Nat) (p : ThreadAt) (r : StreamEngine × ThreadAt) :
    Prop where
  ordinary : r.2.ordinary = true
  move : Locking.Move e.owner t p.holds r.1.owner r.2.holds

namespace Balanced

variable {e : StreamEngine} {t : Nat} {p : ThreadAt} {r : StreamEngine × ThreadAt} {l : StreamLock}

theorem keep (howner : r.1.owner = e.owner) (hholds : r.2.holds = p.holds)
    (hordinary : r.2.ordinary = true) : Balanced e t p r := by
  refine ⟨hordinary, ?_⟩
  rw [howner, hholds]
  exact .keep

theorem take (howner : r.1.owner = Function.update e.owner l (some t))
    (hfree : e.owner l = none) (hbefore : p.holds = none) (hafter : r.2.holds = some l)
    (hordinary : r.2.ordinary = true) : Balanced e t p r := by
  refine ⟨hordinary, ?_⟩
  rw [howner, hafter]
  exact .take hfree hbefore

theorem give (howner : r.1.owner = Function.update e.owner l none) (hbefore : p.holds = some l)
    (hafter : r.2.holds = none) (hordinary : r.2.ordinary = true) : Balanced e t p r := by
  refine ⟨hordinary, ?_⟩
  rw [howner, hafter]
  exact .give hbefore

end Balanced

section Steps

variable {e : StreamEngine} {env : StreamEnv} {t i : Nat} {b : StreamBlock} {p next stay : ThreadAt}

theorem lockBlock_balanced (hp : p.holds = none) (hnext : next.holds = some (.block i))
    (hstay : stay.holds = none) (hord : next.ordinary = true) (hord' : stay.ordinary = true) :
    Balanced e t p (e.lockBlock t i next stay) := by
  unfold StreamEngine.lockBlock
  split
  · exact .keep rfl (hstay.trans hp.symm) hord'
  · rename_i b hb
    split
    · rename_i hfree
      exact .take (owner_setBlock hb _) ((owner_block hb).trans hfree) hp hnext hord
    · exact .keep rfl (hstay.trans hp.symm) hord'

theorem lockGlobal_balanced (hp : p.holds = none) (hnext : next.holds = some .global)
    (hstay : stay.holds = none) (hord : next.ordinary = true) (hord' : stay.ordinary = true) :
    Balanced e t p (e.lockGlobal t next stay) := by
  unfold StreamEngine.lockGlobal
  split
  · rename_i hfree
    refine .take (l := .global) ?_ hfree hp hnext hord
    funext l
    cases l with
    | global => rfl
    | block j => rfl
  · exact .keep rfl (hstay.trans hp.symm) hord'

theorem owner_evictSection (hb : e.blocks[i]? = some b) :
    (evictSection e i b.unlocked).owner = Function.update e.owner (.block i) none := by
  unfold evictSection
  split
  · exact owner_setBlock hb _
  · exact owner_setBlock hb _

theorem opSection_balanced {op : BlockOp} (hb : e.blocks[i]? = some b)
    (hsafe : lockSafe e env (.caller (.inside op i)) = true) :
    Balanced e t (.caller (.inside op i)) (opSection e i b op) := by
  cases op with
  | pin => exact .give (owner_setBlock hb _) rfl rfl rfl
  | unpin => exact .give (owner_setBlock hb _) rfl rfl rfl
  | evict => exact .give (owner_evictSection hb) rfl rfl rfl
  | prefetch tier =>
      simp only [opSection]
      split
      · exact .keep (owner_setBlock_of_mutex hb _ rfl) rfl rfl
      · exact .give (owner_setBlock hb _) rfl rfl rfl
  | await =>
      have hstatus : b.status = .inTransit ∨ b.status = .evicted := by
        simpa [lockSafe, hb] using hsafe
      rcases hstatus with hstatus | hstatus
      · simp only [opSection, hstatus]
        exact .give (owner_setBlock hb _) rfl rfl rfl
      · simp only [opSection, hstatus]
        exact .give (owner_setBlock hb _) rfl rfl rfl

theorem submitJob_balanced {woken : Bool} :
    Balanced e t (.caller (.submitting i woken)) (submitJob e i woken) := by
  unfold submitJob
  split
  · exact .give (owner_unlockBlock e i) rfl rfl rfl
  · split
    · exact .give (owner_unlockBlock e i) rfl rfl rfl
    · exact .keep rfl rfl rfl
    · exact .give (owner_unlockBlock e i) rfl rfl rfl

theorem owner_registerSection (grows : Bool) (d : StreamBlockDesc) :
    (registerSection e grows d).1.owner = e.owner := by
  unfold registerSection
  split
  · rfl
  · funext l
    cases l with
    | global => rfl
    | block j =>
        simp only [StreamEngine.owner, List.getElem?_append]
        split
        · rfl
        · rename_i hj
          rw [List.getElem?_eq_none (not_lt.mp hj)]
          cases j - e.blocks.length with
          | zero => rfl
          | succ n => rfl

theorem callerStep_balanced {c : CallerAt} (hord : (ThreadAt.caller c).ordinary = true)
    (hsafe : lockSafe e env (.caller c) = true) :
    Balanced e t (.caller c) (callerStep e t env c) := by
  cases c with
  | outside => exact .keep rfl rfl rfl
  | returned r => exact .keep rfl rfl rfl
  | wantsTable d => exact lockGlobal_balanced rfl rfl rfl rfl rfl
  | registering d =>
      refine .give ?_ rfl rfl rfl
      simp only [callerStep]
      rw [owner_unlockGlobal, owner_registerSection]
  | wants op i => exact lockBlock_balanced rfl rfl rfl rfl rfl
  | inside op i =>
      simp only [callerStep]
      split
      · exact .keep rfl rfl rfl
      · rename_i b hb
        exact opSection_balanced hb hsafe
  | submitting i woken => exact submitJob_balanced
  | wantsRecord i => cases hord
  | recording i => cases hord
  | wrapping i => cases hord
  | wantsHit tensor => cases hord
  | hitting tensor => cases hord
  | evictingLru tier l => cases hsafe

theorem owner_allocSection {os : Memalign} (hb : e.blocks[i]? = some b) :
    (allocSection e os i b).owner = e.owner := by
  unfold allocSection
  split
  · exact owner_setBlock_of_mutex hb _ rfl
  · exact owner_setBlock_of_mutex hb _ rfl

theorem jobStep_balanced {j : JobAt} (hb : e.blocks[i]? = some b)
    (hord : (ThreadAt.running i j).ordinary = true)
    (hsafe : lockSafe e env (.running i j) = true) :
    Balanced e t (.running i j) (jobStep e t env i b j) := by
  cases j with
  | start =>
      simp only [jobStep]
      split
      · exact .keep rfl rfl rfl
      · exact .keep rfl rfl rfl
  | wantsGlobal => exact lockGlobal_balanced rfl rfl rfl rfl rfl
  | budget =>
      have hover : overBudget e b = false := by simpa [lockSafe, hb] using hsafe
      simp only [jobStep, hover, Bool.false_eq_true, if_false]
      refine .give ?_ rfl rfl rfl
      dsimp only
      rw [owner_unlockGlobal, owner_allocSection hb]
  | evicting l => cases hord
  | gaveUp => cases hord
  | reading =>
      obtain ⟨filled, hread⟩ := readData_eq b env.readOk
      simp only [jobStep, hread]
      exact .keep (owner_setBlock_of_mutex hb _ rfl) rfl rfl
  | wantsBlock => exact lockBlock_balanced rfl rfl rfl rfl rfl
  | finishing => exact .give (owner_setBlock hb _) rfl rfl rfl

theorem idleStep_balanced : Balanced e t .idle (idleStep e) := by
  unfold idleStep
  split
  · exact .keep rfl rfl rfl
  · split
    · exact .keep rfl rfl rfl
    · exact .keep rfl rfl rfl
    · exact .keep rfl rfl rfl

theorem threadStep_balanced (hord : p.ordinary = true) (hsafe : lockSafe e env p = true) :
    Balanced e t p (threadStep e t env p) := by
  cases p with
  | caller c => exact callerStep_balanced hord hsafe
  | idle => exact idleStep_balanced
  | running i j =>
      simp only [threadStep]
      split
      · exact .keep rfl rfl hord
      · rename_i b hb
        exact jobStep_balanced hb hord hsafe
  | ran => exact .keep rfl rfl rfl
  | counted => exact .keep rfl rfl rfl
  | exited => exact .keep rfl rfl rfl

end Steps

/-- Every thread stands at an ordinary place, and the owners agree with the threads. -/
structure StreamState.Locked (s : StreamState) : Prop where
  ordinary : ∀ p ∈ s.threads, p.ordinary = true
  agrees : Locking.Agrees ThreadAt.holds s.engine.owner s.threads

theorem beginCall_holds (e : StreamEngine) (op : StreamOp) :
    (beginCall e op).holds = none ∧ (beginCall e op).ordinary = true := by
  cases op with
  | register d created =>
      cases created with
      | error err => exact ⟨rfl, rfl⟩
      | ok _ => exact ⟨rfl, rfl⟩
  | block op i =>
      simp only [beginCall]
      split
      · exact ⟨rfl, rfl⟩
      · exact ⟨rfl, rfl⟩
  | evictLru tier => exact ⟨rfl, rfl⟩

theorem holds_of_free {p : ThreadAt} (h : p.free = true) : p.holds = none := by
  cases p with
  | caller c =>
      cases c with
      | outside => rfl
      | returned r => rfl
      | _ => cases h
  | _ => cases h

namespace StreamState.Locked

variable {s : StreamState}

theorem set (h : s.Locked) {e' : StreamEngine} {t : Nat} {p p' : ThreadAt}
    (hp : s.threads[t]? = some p) (hord : p'.ordinary = true)
    (hmove : Locking.Move s.engine.owner t p.holds e'.owner p'.holds) :
    StreamState.Locked ⟨e', s.threads.set t p'⟩ := by
  refine ⟨?_, h.agrees.move hp hmove⟩
  intro q hq
  rcases List.mem_or_eq_of_mem_set hq with hq | rfl
  · exact h.ordinary q hq
  · exact hord

theorem step (h : s.Locked) {a : StreamAction} (hmeets : MoveMeets lockSafe s a) :
    (streamStep s a).Locked := by
  cases a with
  | call t op =>
      simp only [streamStep]
      split
      · exact h
      · rename_i p hp
        split
        · rename_i hfree
          obtain ⟨hholds, hord⟩ := beginCall_holds s.engine op
          apply h.set hp hord
          rw [holds_of_free hfree, hholds]
          exact .keep
        · exact h
  | move t env =>
      simp only [streamStep]
      split
      · exact h
      · rename_i p hp
        have hsafe : lockSafe s.engine env p = true := by simpa [MoveMeets, hp] using hmeets
        have hordinary := h.ordinary p (List.mem_of_getElem? hp)
        have hbalanced := threadStep_balanced (t := t) hordinary hsafe
        exact h.set hp hbalanced.ordinary hbalanced.move
  | shutdown => exact ⟨h.ordinary, h.agrees⟩

end StreamState.Locked

theorem create_locked (ramCapacity : Nat) (io : Option IoPoolSize) (heap : SysHeap)
    (numCallers : Nat) : (StreamState.create ramCapacity io heap numCallers).Locked := by
  have hstart : ∀ p ∈ (StreamState.create ramCapacity io heap numCallers).threads,
      p.ordinary = true ∧ p.holds = none := by
    intro p hp
    rcases List.mem_append.mp hp with hp | hp
    · rw [List.eq_of_mem_replicate hp]
      exact ⟨rfl, rfl⟩
    · rw [List.eq_of_mem_replicate hp]
      exact ⟨rfl, rfl⟩
  refine ⟨fun p hp => (hstart p hp).1, ?_⟩
  intro l t
  constructor
  · intro howner
    cases l with
    | global => cases howner
    | block i => cases howner
  · rintro ⟨p, hp, hholds⟩
    rw [(hstart p (List.mem_of_getElem? hp)).2] at hholds
    cases hholds

/-- How many waits may follow from where a thread stands. -/
def ThreadAt.waits : ThreadAt → Nat
  | .caller (.wants _ _) => 3
  | .caller (.submitting _ _) => 2
  | .caller (.wantsTable _) | .running _ .wantsGlobal | .running _ .wantsBlock => 1
  | _ => 0

/-- A thread that holds the global mutex does not wait. -/
theorem waits_of_holds_global {p : ThreadAt} (h : p.holds = some .global) : p.waits = 0 := by
  unfold ThreadAt.holds at h
  split at h
  · rfl
  · rfl
  · cases h
  · cases h
  · cases h
  · cases h

/-- A thread that holds the mutex of a block does not wait, or it submits the block's job. -/
theorem waits_of_holds_block {p : ThreadAt} {i : Nat} (h : p.holds = some (.block i)) :
    p.waits = 0 ∨ p.waits = 2 ∧ p.load = .submitting i := by
  unfold ThreadAt.holds at h
  split at h
  · cases h
  · cases h
  · exact Or.inl rfl
  · cases h
    exact Or.inr ⟨rfl, rfl⟩
  · exact Or.inl rfl
  · cases h

/-- An ordinary thread that requests a mutex: it requests the global one, or a worker
requests the mutex of its block, or a caller that of any block. -/
theorem requests_cases {p : ThreadAt} {l : StreamLock} (hord : p.ordinary = true)
    (h : p.requests = some l) : p.holds = none ∧
      (l = .global ∧ p.waits = 1 ∨
        ∃ i, l = .block i ∧ (p.waits = 1 ∧ p.load = .loaded i ∨ p.waits = 3)) := by
  unfold ThreadAt.requests at h
  split at h
  · cases h
    exact ⟨rfl, Or.inl ⟨rfl, rfl⟩⟩
  · cases hord
  · cases h
    exact ⟨rfl, Or.inl ⟨rfl, rfl⟩⟩
  · cases h
    exact ⟨rfl, Or.inr ⟨_, rfl, Or.inr rfl⟩⟩
  · cases hord
  · cases hord
  · cases h
    exact ⟨rfl, Or.inr ⟨_, rfl, Or.inl ⟨rfl, rfl⟩⟩⟩
  · cases hord
  · cases h

theorem waits_of_worker {p : ThreadAt} (h : p.worker = true) : p.waits ≤ 1 := by
  cases p with
  | caller c => cases h
  | running i j =>
      cases j with
      | wantsGlobal => exact le_rfl
      | wantsBlock => exact le_rfl
      | _ => exact Nat.zero_le _
  | _ => exact Nat.zero_le _

def StreamState.waitsAt (s : StreamState) (t : Nat) : Nat :=
  ((s.threads[t]?).map ThreadAt.waits).getD 0

theorem waitsAt_eq {s : StreamState} {t : Nat} {p : ThreadAt} (hp : s.threads[t]? = some p) :
    s.waitsAt t = p.waits := by
  simp [StreamState.waitsAt, hp]

/-- A prefetch submits the job of a block only when no worker carries it. -/
theorem load_ne_submitting {s : StreamState} (hjobs : s.engine.cache.Jobs s.loads) {t u i : Nat}
    {p q : ThreadAt} (hp : s.threads[t]? = some p) (hq : s.threads[u]? = some q)
    (hload : p.load = .loaded i) : q.load ≠ .submitting i := by
  intro hsubmit
  have hpl : s.loads[t]? = some (.loaded i) := by
    rw [StreamState.loads, List.getElem?_map, hp, ← hload]
    rfl
  have hql : s.loads[u]? = some (.submitting i) := by
    rw [StreamState.loads, List.getElem?_map, hq, ← hsubmit]
    rfl
  apply @Cache.Jobs.no_other _ _ _ _ _ hjobs hpl rfl (.loaded i) (.submitting i)
  · rw [Table.set_self hpl]
    exact List.mem_of_getElem? hql
  · simp
  · rfl

/-- The thread that holds another one up has fewer waits before it. -/
theorem StreamState.WaitsFor.falls {s : StreamState} {t u : Nat} (h : s.WaitsFor t u)
    (hlocked : s.Locked) (hjobs : s.engine.cache.Jobs s.loads) : s.waitsAt u < s.waitsAt t := by
  cases h with
  | @mutex p l hp hrequest howner =>
      obtain ⟨q, hq, hholds⟩ := (hlocked.agrees l u).mp howner
      rw [waitsAt_eq hp, waitsAt_eq hq]
      have hcases := requests_cases (hlocked.ordinary p (List.mem_of_getElem? hp)) hrequest
      rcases hcases.2 with ⟨rfl, hwaits⟩ | ⟨i, rfl, hwaits⟩
      · have hzero := waits_of_holds_global hholds
        omega
      · rcases waits_of_holds_block hholds with hzero | ⟨htwo, hsubmit⟩
        · omega
        · rcases hwaits with ⟨-, hload⟩ | hthree
          · exact absurd hsubmit (load_ne_submitting hjobs hp hq hload)
          · omega
  | slot hp hfull hq hworker =>
      rw [waitsAt_eq hp, waitsAt_eq hq]
      have hone := waits_of_worker hworker
      exact Nat.lt_of_le_of_lt hone Nat.one_lt_two

theorem StreamState.Locked.noDeadlock {s : StreamState} (h : s.Locked)
    (hjobs : s.engine.cache.Jobs s.loads) : NoDeadlock s := by
  refine ⟨?_, Locking.acyclic_of_rank s.waitsAt fun t u hw => hw.falls h hjobs⟩
  intro t p l hp hrequest howner
  obtain ⟨q, hq, hholds⟩ := (h.agrees l t).mp howner
  rw [hp, Option.some.injEq] at hq
  have hnone := (requests_cases (h.ordinary p (List.mem_of_getElem? hp)) hrequest).1
  rw [← hq, hnone] at hholds
  cases hholds

/-- For every budget, every I/O pool or none, every number of callers and every run in which
no await finds its block loaded, no worker is over the budget and nobody calls
`hbi_stream_evict_lru`: there is no deadlock in the state reached. -/
theorem no_deadlock_of_lockSafe (ramCapacity : Nat) (io : Option IoPoolSize) (heap : SysHeap)
    (numCallers : Nat) {run : List StreamAction}
    (hrun : Runs.Along streamStep (MoveMeets lockSafe)
      (.create ramCapacity io heap numCallers) run) :
    NoDeadlock (.after ramCapacity io heap numCallers run) := by
  have hlocked : (StreamState.after ramCapacity io heap numCallers run).Locked := by
    apply @Runs.final_of_along StreamState StreamAction streamStep StreamState.Locked
    · exact fun s a hs hmeets => hs.step hmeets
    · exact create_locked ramCapacity io heap numCallers
    · exact hrun
  exact hlocked.noDeadlock (StreamState.after_jobs ramCapacity io heap numCallers run)

/-- The job of one tensor is queued, the prefetch of a second one finds the queue full, and
another thread stands in front of the mutex that this prefetch holds. -/
def busyRun : List StreamAction :=
  prefetchRun .ram ++ callRun 0 (.register { sampleDesc with tensorId := 1 } (.ok ())) 2 ++
    callRun 0 (.block (.prefetch .ram) 1) 3 ++ callRun 1 (.block .pin 1) 1

theorem no_deadlock_of_lockSafe_busy :
    Runs.Along streamStep (MoveMeets lockSafe) (.create 100 (some ⟨1, 1⟩) (.fresh false) 2)
        busyRun ∧
      NoDeadlock (.after 100 (some ⟨1, 1⟩) (.fresh false) 2 busyRun) := by
  have hrun : Runs.Along streamStep (MoveMeets lockSafe)
      (.create 100 (some ⟨1, 1⟩) (.fresh false) 2) busyRun := by decide +kernel
  exact ⟨hrun, no_deadlock_of_lockSafe 100 (some ⟨1, 1⟩) (.fresh false) 2 hrun⟩

/-- A tensor is loaded, and a thread awaits it. -/
def awaitRun : List StreamAction :=
  loadRun .ram ++ callRun 0 (.block .await 0) 2

/-- An await that finds its block loaded requests the mutex that it holds. -/
theorem await_requests_own_mutex :
    (StreamState.after 100 (some ⟨1, 1⟩) (.fresh false) 1 awaitRun).engine.owner (.block 0) =
        some 0 ∧
      ((StreamState.after 100 (some ⟨1, 1⟩) (.fresh false) 1 awaitRun).threads[0]?).map
        ThreadAt.requests = some (some (.block 0)) ∧
      ¬ NoDeadlock (.after 100 (some ⟨1, 1⟩) (.fresh false) 1 awaitRun) := by
  have howner : (StreamState.after 100 (some ⟨1, 1⟩) (.fresh false) 1 awaitRun).engine.owner
      (.block 0) = some 0 := by decide +kernel
  have hrequest : ((StreamState.after 100 (some ⟨1, 1⟩) (.fresh false) 1 awaitRun).threads[0]?).map
      ThreadAt.requests = some (some (.block 0)) := by decide +kernel
  refine ⟨howner, hrequest, ?_⟩
  intro hfree
  obtain ⟨p, hp, hp'⟩ := Option.map_eq_some_iff.mp hrequest
  exact hfree.own 0 p _ hp hp' howner

end Hummingbird

import Hummingbird.ThreadPool.Pool
import Hummingbird.Foundation.Table

/-!
The invariant of the worker pool. The pool and its workers make eight kinds of moves,
whatever the other threads do; every move keeps the books: what was accepted is what
was taken followed by what is queued, and the tasks between two sections of a worker
are exactly those that the counters still miss.
-/

namespace Hummingbird

variable {τ : Type} [Inhabited τ]

namespace PoolCore

/-- A worker takes the oldest task. -/
def takes (c : PoolCore τ) (i : Nat) : PoolCore τ :=
  { c with
    workers := c.workers.set i (.running (c.pool.queue.getD c.pool.head default))
    pool := { c.pool with
      head := (c.pool.head + 1) % c.pool.queue.length, count := c.pool.count - 1 }
    dequeued := c.dequeued ++ [c.pool.queue.getD c.pool.head default] }

def exits (c : PoolCore τ) (i : Nat) : PoolCore τ :=
  { c with workers := c.workers.set i .exited }

def runs (c : PoolCore τ) (i : Nat) (t : PoolTask τ) : PoolCore τ :=
  { c with workers := c.workers.set i (.ran t), run := c.run ++ [t] }

def counts (c : PoolCore τ) (i : Nat) (t : PoolTask τ) : PoolCore τ :=
  { c with
    workers := c.workers.set i (.counted t)
    pool := { c.pool with completed := c.pool.completed + 1 } }

def finishes (c : PoolCore τ) (i : Nat) : PoolCore τ :=
  { c with workers := c.workers.set i .idle, pool := doneSection c.pool }

/-- A task enters the slot behind the queued ones. -/
def accepts (c : PoolCore τ) (fn : τ) : PoolCore τ :=
  { c with
    pool := { c.pool with
      queue := c.pool.queue.set ((c.pool.head + c.pool.count) % c.pool.queue.length)
        ⟨c.accepted.length, fn⟩
      count := c.pool.count + 1
      pending := c.pool.pending + 1 }
    accepted := c.accepted ++ [⟨c.accepted.length, fn⟩] }

def shuts (c : PoolCore τ) : PoolCore τ := { c with pool := shutdownSection c.pool }

end PoolCore

/-- What a step can do to the pool and its workers. -/
inductive PoolMove (c : PoolCore τ) : PoolCore τ → Prop
  | quiet : PoolMove c c
  | take {i : Nat} (hi : c.workers[i]? = some .idle) (hcount : c.pool.count ≠ 0) :
      PoolMove c (c.takes i)
  | exit {i : Nat} (hi : c.workers[i]? = some .idle) (hcount : c.pool.count = 0)
      (hdown : c.pool.shuttingDown = true) : PoolMove c (c.exits i)
  | run {i : Nat} {t : PoolTask τ} (hi : c.workers[i]? = some (.running t)) :
      PoolMove c (c.runs i t)
  | count {i : Nat} {t : PoolTask τ} (hi : c.workers[i]? = some (.ran t)) :
      PoolMove c (c.counts i t)
  | done {i : Nat} {t : PoolTask τ} (hi : c.workers[i]? = some (.counted t)) :
      PoolMove c (c.finishes i)
  | accept {fn : τ} (hdown : c.pool.shuttingDown = false)
      (hroom : c.pool.count ≠ c.pool.queue.length) : PoolMove c (c.accepts fn)
  | shutdown : PoolMove c c.shuts

theorem workerStep_move {s : PoolState τ} {i : Nat} {w : Worker τ}
    (hi : s.workers[i]? = some w) : PoolMove s.toPoolCore (workerStep s i w).toPoolCore := by
  cases w with
  | idle =>
      unfold workerStep takeSection
      by_cases hcount : s.pool.count = 0
      · cases hdown : s.pool.shuttingDown with
        | false =>
            rw [if_pos ⟨hcount, rfl⟩]
            exact .quiet
        | true =>
            rw [if_neg (by simp), if_pos ⟨hcount, rfl⟩]
            exact .exit hi hcount hdown
      · rw [if_neg (by simp [hcount]), if_neg (by simp [hcount])]
        exact .take hi hcount
  | running t => exact .run hi
  | ran t => exact .count hi
  | counted t => exact .done hi
  | exited => exact .quiet

theorem enqueueStep_move {s : PoolState τ} {j : Nat} {fn : τ} {block woken : Bool} :
    PoolMove s.toPoolCore (enqueueStep s j fn block woken).toPoolCore := by
  unfold enqueueStep enqueueSection
  dsimp only
  by_cases hdown : s.pool.shuttingDown = true
  · rw [if_pos hdown]
    exact .quiet
  · rw [if_neg hdown]
    by_cases hroom : s.pool.count = s.pool.queue.length
    · rw [if_pos hroom]
      cases block with
      | true => exact .quiet
      | false => exact .quiet
    · rw [if_neg hroom]
      exact .accept (by simpa using hdown) hroom

/-- Every step of the system is one of these moves. -/
theorem poolStep_move (s : PoolState τ) (a : PoolAction τ) :
    PoolMove s.toPoolCore (poolStep s a).toPoolCore := by
  cases a with
  | worker i =>
      simp only [poolStep]
      split
      · rename_i w hw
        exact workerStep_move hw
      · exact .quiet
  | submit j fn block =>
      simp only [poolStep]
      split
      · exact .quiet
      · exact .quiet
      · exact .quiet
  | submitter j =>
      simp only [poolStep]
      split
      · rename_i u hu
        cases u with
        | entering fn block => exact enqueueStep_move
        | blocked fn => exact enqueueStep_move
        | outside => exact .quiet
        | returned r => exact .quiet
      · exact .quiet
  | callWait k =>
      simp only [poolStep]
      split
      · exact .quiet
      · exact .quiet
  | waiter k =>
      simp only [poolStep]
      split
      · rename_i u hu
        cases u with
        | outside => exact .quiet
        | waiting =>
            rw [waiterStep]
            split
            · exact .quiet
            · exact .quiet
      · exact .quiet
  | destroy => exact .shutdown

/-- The task is taken and not yet marked done. -/
def Worker.inFlight : Worker τ → Bool
  | .running _ | .ran _ | .counted _ => true
  | .idle | .exited => false

/-- The task that the worker has still to run. -/
def Worker.toRun : Worker τ → Option (PoolTask τ)
  | .running t => some t
  | .idle | .ran _ | .counted _ | .exited => none

/-- The task was run and is not yet counted. -/
def Worker.toCount : Worker τ → Bool
  | .ran _ => true
  | .idle | .running _ | .counted _ | .exited => false

def Worker.hasExited : Worker τ → Bool
  | .exited => true
  | .idle | .running _ | .ran _ | .counted _ => false

/-- The queued tasks, oldest first. -/
def Pool.queued (pool : Pool τ) : List (PoolTask τ) :=
  Ring.contents default pool.queue pool.head pool.count

structure PoolCore.Inv (c : PoolCore τ) : Prop where
  capacity_pos : 0 < c.pool.queue.length
  head_lt : c.pool.head < c.pool.queue.length
  count_le : c.pool.count ≤ c.pool.queue.length
  fifo : c.dequeued ++ c.pool.queued = c.accepted
  tickets : c.accepted.map PoolTask.ticket = List.range c.accepted.length
  pending_eq : c.pool.pending = c.pool.count + c.workers.countP Worker.inFlight
  run_perm : (c.run ++ c.workers.filterMap Worker.toRun).Perm c.dequeued
  completed_eq : c.pool.completed + c.workers.countP Worker.toCount = c.run.length
  exited_empty : ∀ w ∈ c.workers, w.hasExited = true →
    c.pool.shuttingDown = true ∧ c.pool.count = 0
  workers_pos : c.workers ≠ []

section OneWorker

omit [Inhabited τ]

variable {workers : List (Worker τ)} {i : Nat} {w : Worker τ}

theorem toRun_setWorker (h : workers[i]? = some w) (w' : Worker τ) :
    ((workers.set i w').filterMap Worker.toRun ++ w.toRun.toList).Perm
      (workers.filterMap Worker.toRun ++ w'.toRun.toList) := by
  obtain ⟨others, hbefore, hafter⟩ := Table.exists_others h
  have hcons : ∀ v : Worker τ, (v :: others).filterMap Worker.toRun =
      v.toRun.toList ++ others.filterMap Worker.toRun := by
    intro v
    cases hv : v.toRun with
    | none => simp [hv]
    | some t => simp [hv]
  have hb := hbefore.filterMap Worker.toRun
  have ha := (hafter w').filterMap Worker.toRun
  rw [hcons] at hb ha
  have hswap : (w'.toRun.toList ++ others.filterMap Worker.toRun ++ w.toRun.toList).Perm
      (w'.toRun.toList ++ (w.toRun.toList ++ others.filterMap Worker.toRun)) := by
    rw [List.append_assoc]
    exact List.perm_append_comm.append_left _
  have hback := List.perm_append_comm.trans (hb.symm.append_right w'.toRun.toList)
  exact (ha.append_right _).trans (hswap.trans hback)

end OneWorker

/-- How the three measures of the workers change when one of them moves. -/
structure WorkerBooks (before after : List (Worker τ)) (w w' : Worker τ) : Prop where
  flight : after.countP Worker.inFlight + w.inFlight.toNat =
    before.countP Worker.inFlight + w'.inFlight.toNat
  uncounted : after.countP Worker.toCount + w.toCount.toNat =
    before.countP Worker.toCount + w'.toCount.toNat
  torun : (after.filterMap Worker.toRun ++ w.toRun.toList).Perm
    (before.filterMap Worker.toRun ++ w'.toRun.toList)

omit [Inhabited τ] in
theorem workerBooks {workers : List (Worker τ)} {i : Nat} {w : Worker τ}
    (h : workers[i]? = some w) (w' : Worker τ) :
    WorkerBooks workers (workers.set i w') w w' :=
  ⟨Table.countP_set h _ w', Table.countP_set h _ w', toRun_setWorker h w'⟩

namespace PoolCore.Inv

variable {c : PoolCore τ} {i : Nat}

theorem exited_set (h : c.Inv) {w' : Worker τ} (hw' : w'.hasExited = false) :
    ∀ w ∈ c.workers.set i w', w.hasExited = true →
      c.pool.shuttingDown = true ∧ c.pool.count = 0 := by
  intro w hw hexit
  rcases List.mem_or_eq_of_mem_set hw with hw | rfl
  · exact h.exited_empty w hw hexit
  · rw [hw'] at hexit
    exact absurd hexit (by decide)

theorem takes (h : c.Inv) (hi : c.workers[i]? = some .idle) (hcount : c.pool.count ≠ 0) :
    (c.takes i).Inv := by
  have hle := h.count_le
  have hpending := h.pending_eq
  have hcompleted := h.completed_eq
  have hpop := Ring.contents_pop default c.pool.queue c.pool.head (c.pool.count - 1)
  rw [show c.pool.count - 1 + 1 = c.pool.count by omega, Nat.mod_eq_of_lt h.head_lt] at hpop
  have hfifo := h.fifo
  rw [Pool.queued, hpop] at hfifo
  unfold PoolCore.takes
  generalize c.pool.queue.getD c.pool.head default = t at hfifo ⊢
  obtain ⟨hflight, huncounted, htorun⟩ := workerBooks hi (.running t)
  simp only [Worker.inFlight, Worker.toCount, Bool.toNat_false, Bool.toNat_true, Worker.toRun,
    Option.toList_none, Option.toList_some, List.append_nil] at hflight huncounted htorun
  refine ⟨h.capacity_pos, Nat.mod_lt _ h.capacity_pos, ?_, ?_, h.tickets, ?_, ?_, ?_, ?_, ?_⟩
  · dsimp only
    omega
  · rw [← hfifo]
    simp [Pool.queued]
  · dsimp only
    omega
  · have hrun := htorun.append_left c.run
    rw [← List.append_assoc] at hrun
    exact hrun.trans (h.run_perm.append_right [t])
  · dsimp only
    omega
  · intro w hw hexit
    exact absurd (h.exited_set rfl w hw hexit).2 hcount
  · simpa using h.workers_pos

/-- A worker that moves without touching what is queued or taken. -/
theorem worker (h : c.Inv) {w w' : Worker τ} (hi : c.workers[i]? = some w) {c' : PoolCore τ}
    (hworkers : c'.workers = c.workers.set i w') (hqueue : c'.pool.queue = c.pool.queue)
    (hhead : c'.pool.head = c.pool.head) (hcount : c'.pool.count = c.pool.count)
    (hdown : c'.pool.shuttingDown = c.pool.shuttingDown) (haccepted : c'.accepted = c.accepted)
    (hdequeued : c'.dequeued = c.dequeued)
    (hpending : c'.pool.pending + w.inFlight.toNat = c.pool.pending + w'.inFlight.toNat)
    (hrun : (c'.run ++ w'.toRun.toList).Perm (c.run ++ w.toRun.toList))
    (hcompleted : c'.pool.completed + w'.toCount.toNat + c.run.length =
      c.pool.completed + w.toCount.toNat + c'.run.length)
    (hexit : w'.hasExited = true → c.pool.shuttingDown = true ∧ c.pool.count = 0) : c'.Inv := by
  obtain ⟨hflight, huncounted, htorun⟩ := workerBooks hi w'
  have hp := h.pending_eq
  have hc := h.completed_eq
  refine ⟨?_, ?_, ?_, ?_, ?_, ?_, ?_, ?_, ?_, ?_⟩
  · rw [hqueue]
    exact h.capacity_pos
  · rw [hqueue, hhead]
    exact h.head_lt
  · rw [hqueue, hcount]
    exact h.count_le
  · rw [hdequeued, haccepted, Pool.queued, hqueue, hhead, hcount]
    exact h.fifo
  · rw [haccepted]
    exact h.tickets
  · rw [hworkers, hcount]
    omega
  · rw [hworkers, hdequeued]
    refine List.Perm.trans ?_ h.run_perm
    rw [← Multiset.coe_eq_coe, ← Multiset.coe_add, ← Multiset.coe_add]
    rw [← Multiset.coe_eq_coe, ← Multiset.coe_add, ← Multiset.coe_add] at htorun hrun
    apply add_right_cancel (b := (w.toRun.toList : Multiset (PoolTask τ)))
    rw [add_assoc, htorun, ← add_assoc, add_right_comm, hrun, add_right_comm]
  · rw [hworkers]
    omega
  · rw [hworkers, hdown, hcount]
    intro v hv hexited
    rcases List.mem_or_eq_of_mem_set hv with hv | rfl
    · exact h.exited_empty v hv hexited
    · exact hexit hexited
  · rw [hworkers]
    simpa using h.workers_pos

theorem exits (h : c.Inv) (hi : c.workers[i]? = some .idle) (hcount : c.pool.count = 0)
    (hdown : c.pool.shuttingDown = true) : (c.exits i).Inv := by
  exact h.worker hi rfl rfl rfl rfl rfl rfl rfl rfl (.refl _) rfl fun _ => ⟨hdown, hcount⟩

theorem runs (h : c.Inv) {t : PoolTask τ} (hi : c.workers[i]? = some (.running t)) :
    (c.runs i t).Inv := by
  refine h.worker hi rfl rfl rfl rfl rfl rfl rfl rfl ?_ ?_ ?_
  · simp [PoolCore.runs, Worker.toRun]
  · simp [PoolCore.runs, Worker.toCount]
    omega
  · simp [Worker.hasExited]

theorem counts (h : c.Inv) {t : PoolTask τ} (hi : c.workers[i]? = some (.ran t)) :
    (c.counts i t).Inv := by
  refine h.worker hi rfl rfl rfl rfl rfl rfl rfl rfl (.refl _) ?_ ?_
  · simp [PoolCore.counts, Worker.toCount]
  · simp [Worker.hasExited]

theorem finishes (h : c.Inv) {t : PoolTask τ} (hi : c.workers[i]? = some (.counted t)) :
    (c.finishes i).Inv := by
  have hflight := (workerBooks hi .idle).flight
  have hpending := h.pending_eq
  refine h.worker hi rfl rfl rfl rfl rfl rfl rfl ?_ ?_ ?_ ?_
  · simp only [PoolCore.finishes, doneSection, Worker.inFlight, Bool.toNat_true,
      Bool.toNat_false] at hflight ⊢
    omega
  · exact .refl _
  · rfl
  · simp [Worker.hasExited]

theorem accepts (h : c.Inv) {fn : τ} (hdown : c.pool.shuttingDown = false)
    (hroom : c.pool.count ≠ c.pool.queue.length) : (c.accepts fn).Inv := by
  have hle := h.count_le
  have hpending := h.pending_eq
  have hpush := @Ring.contents_push _ default c.pool.queue c.pool.head _
    (⟨c.accepted.length, fn⟩ : PoolTask τ) (lt_of_le_of_ne hle hroom)
  unfold PoolCore.accepts
  refine ⟨?_, ?_, ?_, ?_, ?_, ?_, h.run_perm, h.completed_eq, ?_, h.workers_pos⟩
  · simpa using h.capacity_pos
  · simpa using h.head_lt
  · dsimp only
    rw [List.length_set]
    omega
  · dsimp only
    rw [Pool.queued, hpush, ← List.append_assoc]
    exact congrArg (· ++ [(⟨c.accepted.length, fn⟩ : PoolTask τ)]) h.fifo
  · dsimp only
    rw [List.map_append, h.tickets, List.length_append, List.length_singleton,
      List.range_succ]
    rfl
  · dsimp only
    omega
  · intro w hw hexit
    have hshut := (h.exited_empty w hw hexit).1
    rw [hdown] at hshut
    exact absurd hshut (by decide)

theorem shuts (h : c.Inv) : c.shuts.Inv :=
  ⟨h.capacity_pos, h.head_lt, h.count_le, h.fifo, h.tickets, h.pending_eq, h.run_perm,
    h.completed_eq, fun w hw hexit => ⟨rfl, (h.exited_empty w hw hexit).2⟩, h.workers_pos⟩

/-- Every move keeps the invariant. -/
theorem move {c' : PoolCore τ} (h : c.Inv) (hmove : PoolMove c c') : c'.Inv := by
  cases hmove with
  | quiet => exact h
  | take hi hcount => exact h.takes hi hcount
  | exit hi hcount hdown => exact h.exits hi hcount hdown
  | run hi => exact h.runs hi
  | count hi => exact h.counts hi
  | done hi => exact h.finishes hi
  | accept hdown hroom => exact h.accepts hdown hroom
  | shutdown => exact h.shuts

end PoolCore.Inv

theorem PoolState.create_inv (numWorkers : Int) (queueCapacity numSubmitters numWaiters : Nat) :
    (PoolState.create numWorkers queueCapacity numSubmitters numWaiters :
      PoolState τ).toPoolCore.Inv := by
  unfold PoolState.create
  dsimp only
  generalize hcap : (if queueCapacity < 1 then 1 else queueCapacity) = capacity
  generalize hnum : (if numWorkers < 1 then 1 else numWorkers.toNat) = workers
  have hcapacity : 0 < capacity := by
    split at hcap <;> omega
  have hworkers : 0 < workers := by
    split at hnum <;> omega
  refine ⟨by simpa using hcapacity, by simpa using hcapacity, by simp, rfl, rfl, ?_, ?_, ?_, ?_,
    ?_⟩
  · simp [List.countP_replicate, Worker.inFlight]
  · simp [List.filterMap_replicate, Worker.toRun]
  · simp [List.countP_replicate, Worker.toCount]
  · intro w hw hexit
    rw [(List.mem_replicate.mp hw).2] at hexit
    exact absurd hexit (by simp [Worker.hasExited])
  · simp only [ne_eq, List.replicate_eq_nil_iff]
    omega

theorem poolRun_inv {s : PoolState τ} (h : s.toPoolCore.Inv) (actions : List (PoolAction τ)) :
    (Runs.final poolStep s actions).toPoolCore.Inv := by
  induction actions generalizing s with
  | nil => exact h
  | cons a actions ih => exact ih (h.move (poolStep_move s a))

theorem PoolState.Reached.inv {s : PoolState τ} (h : s.Reached) : s.toPoolCore.Inv := by
  obtain ⟨numWorkers, queueCapacity, numSubmitters, numWaiters, actions, rfl⟩ := h
  exact poolRun_inv (PoolState.create_inv _ _ _ _) actions

end Hummingbird

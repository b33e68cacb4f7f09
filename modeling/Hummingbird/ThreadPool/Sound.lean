import Hummingbird.ThreadPool.Invariant

/-!
What the pool promises in every state that its threads can reach: tasks are taken in
the order they were accepted and at most once, the counters agree with the queue and
the workers, a wait returns when nothing is pending, and after a shutdown nothing is
accepted and nothing accepted is lost.
-/

namespace Hummingbird

variable {τ : Type} [Inhabited τ]

/-- After a shutdown no step accepts a task. -/
theorem PoolMove.closed {c c' : PoolCore τ} (h : PoolMove c c')
    (hdown : c.pool.shuttingDown = true) :
    c'.pool.shuttingDown = true ∧ c'.accepted = c.accepted := by
  cases h with
  | quiet => exact ⟨hdown, rfl⟩
  | take => exact ⟨hdown, rfl⟩
  | exit => exact ⟨hdown, rfl⟩
  | run => exact ⟨hdown, rfl⟩
  | count => exact ⟨hdown, rfl⟩
  | done => exact ⟨hdown, rfl⟩
  | accept hopen =>
      rw [hdown] at hopen
      exact absurd hopen (by decide)
  | shutdown => exact ⟨rfl, rfl⟩

theorem poolRun_closed {s : PoolState τ} (hdown : s.pool.shuttingDown = true)
    (actions : List (PoolAction τ)) :
    (Runs.final poolStep s actions).accepted = s.accepted := by
  induction actions generalizing s with
  | nil => rfl
  | cons a actions ih =>
      obtain ⟨hdown', haccepted⟩ := (poolStep_move s a).closed hdown
      exact (ih hdown').trans haccepted

theorem workerStep_waiters (s : PoolState τ) (i : Nat) (w : Worker τ) :
    (workerStep s i w).waiters = s.waiters := by
  cases w with
  | idle =>
      rw [workerStep]
      split
      · rfl
      · rfl
      · rfl
  | running t => rfl
  | ran t => rfl
  | counted t => rfl
  | exited => rfl

omit [Inhabited τ] in
theorem submitterStep_waiters (s : PoolState τ) (j : Nat) (u : Submitter τ) :
    (submitterStep s j u).waiters = s.waiters := by
  have henqueue : ∀ fn block woken, (enqueueStep s j fn block woken).waiters = s.waiters := by
    intro fn block woken
    unfold enqueueStep
    dsimp only
    split
    · rfl
    · rfl
    · rfl
  cases u with
  | outside => rfl
  | entering fn block => exact henqueue fn block false
  | blocked fn => exact henqueue fn true true
  | returned r => rfl

/-- A wait returns from a state in which nothing is pending, and changes nothing. -/
theorem wait_returns {s : PoolState τ} {a : PoolAction τ} {k : Nat}
    (hbefore : s.waiters[k]? = some .waiting)
    (hafter : (poolStep s a).waiters[k]? = some .outside) :
    s.pool.pending = 0 ∧ (poolStep s a).toPoolCore = s.toPoolCore := by
  have hstuck : s.waiters[k]? ≠ some .outside := by
    rw [hbefore]
    decide
  cases a with
  | worker i =>
      simp only [poolStep] at hafter
      split at hafter
      · rw [workerStep_waiters] at hafter
        exact absurd hafter hstuck
      · exact absurd hafter hstuck
  | submit j fn block =>
      simp only [poolStep] at hafter
      split at hafter
      · exact absurd hafter hstuck
      · exact absurd hafter hstuck
      · exact absurd hafter hstuck
  | submitter j =>
      simp only [poolStep] at hafter
      split at hafter
      · rw [submitterStep_waiters] at hafter
        exact absurd hafter hstuck
      · exact absurd hafter hstuck
  | callWait k' =>
      simp only [poolStep] at hafter
      split at hafter
      · dsimp only at hafter
        by_cases hk : k' = k
        · subst hk
          rw [List.getElem?_set_self'] at hafter
          simp [hbefore] at hafter
        · rw [List.getElem?_set_ne hk] at hafter
          exact absurd hafter hstuck
      · exact absurd hafter hstuck
  | waiter k' =>
      simp only [poolStep] at hafter ⊢
      split at hafter
      · rename_i u hu
        cases u with
        | outside => exact absurd hafter hstuck
        | waiting =>
            rw [waiterStep] at hafter ⊢
            split at hafter
            · exact absurd hafter hstuck
            · rename_i hpending
              rw [if_neg hpending]
              exact ⟨by omega, rfl⟩
      · exact absurd hafter hstuck
  | destroy => exact absurd hafter hstuck

/-- The promises of the pool in a state. -/
structure PoolState.Safe (s : PoolState τ) : Prop where
  tickets : s.accepted.Nodup
  fifo : ∃ queued, s.accepted = s.dequeued ++ queued ∧ queued.length = s.pool.count
  once : s.dequeued.Nodup
  count_le : s.pool.count ≤ s.pool.queue.length
  pending_eq : s.pool.pending = s.pool.count + s.workers.countP Worker.inFlight
  completed_ge : s.accepted.length - s.pool.pending ≤ s.pool.completed
  completed_le : s.pool.completed ≤ s.dequeued.length
  closed : s.pool.shuttingDown = true → ∀ actions,
    (Runs.final poolStep s actions).accepted = s.accepted
  wait : ∀ (a : PoolAction τ) (k : Nat), s.waiters[k]? = some .waiting →
    (poolStep s a).waiters[k]? = some .outside →
    s.pool.pending = 0 ∧ (poolStep s a).pool.pending = 0 ∧ s.run.Perm s.accepted
  drained : (∀ w ∈ s.workers, w = .exited) →
    s.pool.shuttingDown = true ∧ s.run.Perm s.accepted

theorem PoolCore.Inv.accepted_nodup {c : PoolCore τ} (h : c.Inv) : c.accepted.Nodup := by
  apply List.Nodup.of_map PoolTask.ticket
  rw [h.tickets]
  exact List.nodup_range

/-- With nothing queued and nothing left to run, what was accepted was run. -/
theorem PoolCore.Inv.run_perm_accepted {c : PoolCore τ} (h : c.Inv) (hcount : c.pool.count = 0)
    (hflight : c.workers.countP Worker.inFlight = 0) : c.run.Perm c.accepted := by
  have hidle : c.workers.filterMap Worker.toRun = [] := by
    apply List.filterMap_eq_nil_iff.mpr
    intro w hw
    have hnot := List.countP_eq_zero.mp hflight w hw
    cases w with
    | running t => exact absurd rfl hnot
    | idle => rfl
    | ran t => rfl
    | counted t => rfl
    | exited => rfl
  have hperm := h.run_perm
  have hfifo := h.fifo
  rw [hidle, List.append_nil] at hperm
  rw [Pool.queued, hcount] at hfifo
  rw [← hfifo]
  simpa [Ring.contents] using hperm

omit [Inhabited τ] in
/-- Tasks that a worker has still to run or to count are in flight. -/
theorem toRun_add_toCount_le (workers : List (Worker τ)) :
    (workers.filterMap Worker.toRun).length + workers.countP Worker.toCount ≤
      workers.countP Worker.inFlight := by
  induction workers with
  | nil => simp
  | cons w workers ih =>
      rw [List.filterMap_cons, List.countP_cons, List.countP_cons]
      cases w with
      | idle => exact ih
      | running t =>
          simp only [Worker.toRun, Worker.toCount, Worker.inFlight, List.length_cons,
            Bool.false_eq_true, if_true, if_false]
          omega
      | ran t =>
          simp only [Worker.toRun, Worker.toCount, Worker.inFlight, if_true]
          omega
      | counted t =>
          simp only [Worker.toRun, Worker.toCount, Worker.inFlight, Bool.false_eq_true, if_true,
            if_false]
          omega
      | exited => exact ih

/-- In every state that any interleaving of the workers, the submitters, the waiting
threads and the shutdown reaches, spurious wake-ups included, the pool keeps its
promises. -/
theorem threadpool_safe {s : PoolState τ} (h : s.Reached) : s.Safe := by
  have hinv := h.inv
  have hnodup := hinv.accepted_nodup
  have hlength : s.dequeued.length + s.pool.count = s.accepted.length := by
    have hlen := congrArg List.length hinv.fifo
    simpa [Pool.queued] using hlen
  have hrun : s.run.length + (s.workers.filterMap Worker.toRun).length = s.dequeued.length := by
    simpa using hinv.run_perm.length_eq
  have hpending := hinv.pending_eq
  have hcompleted := hinv.completed_eq
  refine ⟨hnodup, ⟨s.pool.queued, hinv.fifo.symm, by simp [Pool.queued]⟩, ?_, hinv.count_le,
    hpending, ?_, ?_, fun hdown actions => poolRun_closed hdown actions, ?_, ?_⟩
  · rw [← hinv.fifo] at hnodup
    exact hnodup.of_append_left
  · have hflight := toRun_add_toCount_le s.workers
    omega
  · omega
  · intro a k hbefore hafter
    obtain ⟨hzero, hsame⟩ := wait_returns hbefore hafter
    refine ⟨hzero, ?_, hinv.run_perm_accepted (by omega) (by omega)⟩
    rw [hsame]
    exact hzero
  · intro hall
    obtain ⟨w, hw⟩ := List.exists_mem_of_ne_nil _ hinv.workers_pos
    obtain ⟨hdown, hcount⟩ := hinv.exited_empty w hw (by rw [hall w hw]; rfl)
    refine ⟨hdown, hinv.run_perm_accepted hcount ?_⟩
    apply List.countP_eq_zero.mpr
    intro v hv
    rw [hall v hv]
    simp [Worker.inFlight]

/-- Two workers, one slot, two submitters and a thread that waits: the second submission is
blocked until a task is taken, the wait is woken too early once, and the second task is run
before the first one. -/
def threeTasksRun : List (PoolAction Nat) :=
  [.submit 0 5 true, .submit 1 7 true, .submitter 0, .submitter 1, .worker 0, .submitter 1,
    .callWait 0, .waiter 0, .worker 1, .worker 1, .worker 0, .submit 0 9 false, .submitter 0,
    .worker 1, .worker 1, .worker 1, .worker 1, .worker 0, .worker 1, .worker 1, .worker 0,
    .waiter 0, .destroy, .worker 0, .worker 1]

theorem threadpool_safe_three_tasks :
    let s : PoolState Nat := Runs.final poolStep (PoolState.create 2 1 2 1) threeTasksRun
    s.Safe ∧ s.accepted.map PoolTask.fn = [5, 7, 9] ∧ s.run.map PoolTask.fn = [7, 5, 9] ∧
      s.waiters = [.outside] ∧ s.workers = [.exited, .exited] :=
  ⟨threadpool_safe ⟨2, 1, 2, 1, threeTasksRun, rfl⟩, by decide, by decide, by decide, by decide⟩

end Hummingbird

import Hummingbird.Common
import Hummingbird.Foundation.Ring
import Hummingbird.Foundation.Runs

/-!
The worker pool as a system of threads. The steps are the sections that hold the
pool's mutex, the run of a task between two of them and the atomic count after it; an
action names the thread that moves, and what the thread does follows from where it
stands. A thread that waits on a condition may move at any time and then looks at its
condition again, so signals need no state of their own and every wake-up may be a
spurious one. Counters are natural numbers. A task carries the number of tasks that
were accepted before it, and three lists record what was accepted, taken and run.
-/

namespace Hummingbird

/-- A queued function with its argument, and its acceptance number. -/
structure PoolTask (τ : Type) where
  ticket : Nat
  fn : τ
  deriving DecidableEq, Repr, Inhabited

/-- The fields of `hbi_threadpool` that the mutex protects, and the atomic counter. The
capacity is the number of slots. -/
structure Pool (τ : Type) where
  queue : List (PoolTask τ)
  head : Nat
  count : Nat
  pending : Nat
  shuttingDown : Bool
  completed : Nat
  deriving DecidableEq, Repr

/-- Where a worker stands: in front of its first section, between two sections with the
task it took, or behind its return. -/
inductive Worker (τ : Type) where
  | idle
  | running (t : PoolTask τ)
  | ran (t : PoolTask τ)
  | counted (t : PoolTask τ)
  | exited
  deriving DecidableEq, Repr

/-- Where a submitter stands in `enqueue`: outside of it, in front of the section,
waiting for a free slot, or behind the return. -/
inductive Submitter (τ : Type) where
  | outside
  | entering (fn : τ) (block : Bool)
  | blocked (fn : τ)
  | returned (status : Result Unit)

/-- Where a caller of `hbi_threadpool_wait` stands. -/
inductive Waiter where
  | outside
  | waiting
  deriving DecidableEq, Repr

/-- The pool with its workers, and the history of its tasks. -/
structure PoolCore (τ : Type) where
  pool : Pool τ
  workers : List (Worker τ)
  accepted : List (PoolTask τ)
  dequeued : List (PoolTask τ)
  run : List (PoolTask τ)

/-- The whole system: the pool, its workers and the threads that use it. -/
structure PoolState (τ : Type) extends PoolCore τ where
  submitters : List (Submitter τ)
  waiters : List Waiter

variable {τ : Type} [Inhabited τ]

/-- What `hbi_threadpool_create` leaves, with any number of threads that use the pool. -/
def PoolState.create (numWorkers : Int) (queueCapacity numSubmitters numWaiters : Nat) :
    PoolState τ :=
  let workers := if numWorkers < 1 then 1 else numWorkers.toNat
  let capacity := if queueCapacity < 1 then 1 else queueCapacity
  { pool := ⟨List.replicate capacity default, 0, 0, 0, false, 0⟩
    workers := List.replicate workers .idle
    submitters := List.replicate numSubmitters .outside
    waiters := List.replicate numWaiters .outside
    accepted := [], dequeued := [], run := [] }

/-- What the first section of `worker_main` decides. -/
inductive Taken (τ : Type) where
  | wait
  | exit
  | task (t : PoolTask τ) (pool : Pool τ)

/-- The first section of the worker's loop. -/
def takeSection (pool : Pool τ) : Taken τ :=
  if pool.count = 0 ∧ pool.shuttingDown = false then .wait
  else if pool.count = 0 ∧ pool.shuttingDown = true then .exit
  else
    .task (pool.queue.getD pool.head default)
      { pool with head := (pool.head + 1) % pool.queue.length, count := pool.count - 1 }

/-- The second section of the worker's loop. -/
def doneSection (pool : Pool τ) : Pool τ := { pool with pending := pool.pending - 1 }

/-- What the section of `enqueue` decides. -/
inductive Enqueued (τ : Type) where
  | refused (e : Failure)
  | wait
  | accepted (pool : Pool τ)

/-- The text of a submission that the shutdown refuses. -/
def shutdownMessage (woken : Bool) : String :=
  if woken then "threadpool: shutdown while blocked on submit"
  else "threadpool: submit after shutdown"

/-- The section of `enqueue`, entered for the first time or woken from a wait: both look
at the shutdown flag and then at the free slots. -/
def enqueueSection (pool : Pool τ) (t : PoolTask τ) (block woken : Bool) : Enqueued τ :=
  if pool.shuttingDown then .refused ⟨.state, shutdownMessage woken⟩
  else if pool.count = pool.queue.length then
    if block then .wait else .refused ⟨.again, ""⟩
  else
    .accepted { pool with
      queue := pool.queue.set ((pool.head + pool.count) % pool.queue.length) t
      count := pool.count + 1
      pending := pool.pending + 1 }

/-- The section of `hbi_threadpool_destroy`. -/
def shutdownSection (pool : Pool τ) : Pool τ := { pool with shuttingDown := true }

/-- The thread that moves, or the call a thread outside the pool begins. -/
inductive PoolAction (τ : Type) where
  | worker (i : Nat)
  | submit (j : Nat) (fn : τ) (block : Bool)
  | submitter (j : Nat)
  | callWait (k : Nat)
  | waiter (k : Nat)
  | destroy
  deriving DecidableEq, Repr

def PoolState.setWorker (s : PoolState τ) (i : Nat) (w : Worker τ) : PoolState τ :=
  { s with workers := s.workers.set i w }

/-- The next step of a worker. -/
def workerStep (s : PoolState τ) (i : Nat) : Worker τ → PoolState τ
  | .idle =>
      match takeSection s.pool with
      | .wait => s
      | .exit => s.setWorker i .exited
      | .task t pool =>
          { s.setWorker i (.running t) with pool := pool, dequeued := s.dequeued ++ [t] }
  | .running t => { s.setWorker i (.ran t) with run := s.run ++ [t] }
  | .ran t =>
      { s.setWorker i (.counted t) with
        pool := { s.pool with completed := s.pool.completed + 1 } }
  | .counted _ => { s.setWorker i .idle with pool := doneSection s.pool }
  | .exited => s

def PoolState.setSubmitter (s : PoolState τ) (j : Nat) (u : Submitter τ) : PoolState τ :=
  { s with submitters := s.submitters.set j u }

/-- The section of `enqueue` for a submitter. -/
def enqueueStep (s : PoolState τ) (j : Nat) (fn : τ) (block woken : Bool) : PoolState τ :=
  let t : PoolTask τ := ⟨s.accepted.length, fn⟩
  match enqueueSection s.pool t block woken with
  | .refused e => s.setSubmitter j (.returned (.error e))
  | .wait => s.setSubmitter j (.blocked fn)
  | .accepted pool =>
      { s.setSubmitter j (.returned (.ok ())) with
        pool := pool, accepted := s.accepted ++ [t] }

def submitterStep (s : PoolState τ) (j : Nat) : Submitter τ → PoolState τ
  | .entering fn block => enqueueStep s j fn block false
  | .blocked fn => enqueueStep s j fn true true
  | .outside | .returned _ => s

/-- The section of `hbi_threadpool_wait`: it returns when nothing is pending. -/
def waiterStep (s : PoolState τ) (k : Nat) : Waiter → PoolState τ
  | .outside => s
  | .waiting =>
      if s.pool.pending > 0 then s else { s with waiters := s.waiters.set k .outside }

def poolStep (s : PoolState τ) : PoolAction τ → PoolState τ
  | .worker i =>
      match s.workers[i]? with
      | some w => workerStep s i w
      | none => s
  | .submit j fn block =>
      match s.submitters[j]? with
      | some .outside | some (.returned _) => s.setSubmitter j (.entering fn block)
      | _ => s
  | .submitter j =>
      match s.submitters[j]? with
      | some u => submitterStep s j u
      | none => s
  | .callWait k =>
      if s.waiters[k]? = some .outside then
        { s with waiters := s.waiters.set k .waiting }
      else s
  | .waiter k =>
      match s.waiters[k]? with
      | some u => waiterStep s k u
      | none => s
  | .destroy => { s with pool := shutdownSection s.pool }

/-- States of a pool reached by any interleaving of its threads. -/
def PoolState.Reached (s : PoolState τ) : Prop :=
  ∃ (numWorkers : Int) (queueCapacity numSubmitters numWaiters : Nat)
    (actions : List (PoolAction τ)),
    s = Runs.final poolStep
      (PoolState.create numWorkers queueCapacity numSubmitters numWaiters) actions

end Hummingbird

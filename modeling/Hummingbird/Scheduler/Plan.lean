import Hummingbird.Graph.Invariant
import Hummingbird.Foundation.Ring

/-!
The scheduler: edges with multiplicity in two passes over the nodes, then a
level-by-level Kahn traversal over a ring-buffer queue. Arrays are lists indexed
by task; allocations are taken to succeed. The state of the traversal also counts
the pushes that a full queue refused, which the source loses silently.
-/

namespace Hummingbird

structure TaskQueue where
  capacity : Nat
  head : Nat
  tail : Nat
  count : Nat
  taskIds : List Nat
  deriving DecidableEq, Repr

def taskQueueInit (capacity : Nat) : TaskQueue :=
  ⟨capacity, 0, 0, 0, List.replicate capacity 0⟩

def taskQueuePush (q : TaskQueue) (taskId : Nat) : TaskQueue :=
  if q.count < q.capacity then
    { q with
      taskIds := q.taskIds.set q.tail taskId
      tail := (q.tail + 1) % q.capacity
      count := q.count + 1 }
  else q

def taskQueuePop (q : TaskQueue) : Nat × TaskQueue :=
  if q.count > 0 then
    (q.taskIds.getD q.head 0,
      { q with head := (q.head + 1) % q.capacity, count := q.count - 1 })
  else (uint32Max, q)

structure Task where
  taskId : Nat
  node : Option Node
  dependencies : List Nat
  executionStage : Nat
  deriving DecidableEq, Repr

structure ExecutionStage where
  stageId : Nat
  tasks : List Nat
  barrierId : Nat
  deriving DecidableEq, Repr

structure ScheduleStatistics where
  totalTasks : Nat
  dependencyDepth : Nat
  criticalPathLength : Nat
  estimatedMemoryUsage : Nat
  numStages : Nat
  deriving DecidableEq, Repr

structure ExecutionPlan where
  tasks : List Task
  stages : List ExecutionStage
  stats : ScheduleStatistics
  deriving DecidableEq, Repr

/-- The inputs of the node at a position. -/
def Graph.inputsAt (g : Graph) (i : Nat) : List Nat :=
  ((hbiGraphNodeAt g i).map Node.inputs).getD []

/-- The inner loop of both passes on one input of a node: inputs without a producer are
passed over. -/
def forInput {σ : Type} (g : Graph) (body : σ → Nat → Nat → σ) (i : Nat) (s : σ)
    (valId : Nat) : σ :=
  match producerOf g.values valId with
  | none => s
  | some prod => body s prod i

/-- Both passes visit every input of every node that has a producer: the loop they
share, with the producer and the reading task handed to the body. -/
def forEachEdge {σ : Type} (g : Graph) (body : σ → Nat → Nat → σ) (s : σ) : σ :=
  (List.range (hbiGraphNumNodes g)).foldl (fun s i =>
    (g.inputsAt i).foldl (forInput g body i) s) s

/-- Pass 1: outgoing edges per producer and incoming edges per task. -/
structure EdgeCounts where
  outEdgeCapacity : List Nat
  inDegree : List Nat
  deriving DecidableEq, Repr

def countEdge (c : EdgeCounts) (prod i : Nat) : EdgeCounts where
  outEdgeCapacity := c.outEdgeCapacity.modify prod fun n => (n + 1) % uint32Size
  inDegree := c.inDegree.modify i fun n => (n + 1) % uint32Size

/-- Pass 2: the edges themselves. -/
structure EdgeLists where
  outEdges : List (List Nat)
  dependencies : List (List Nat)
  deriving DecidableEq, Repr

def addEdge (e : EdgeLists) (prod i : Nat) : EdgeLists where
  outEdges := e.outEdges.modify prod (· ++ [i])
  dependencies := e.dependencies.modify i (· ++ [prod])

def edgeCounts (g : Graph) : EdgeCounts :=
  forEachEdge g countEdge
    ⟨List.replicate (hbiGraphNumNodes g) 0, List.replicate (hbiGraphNumNodes g) 0⟩

def edgeLists (g : Graph) : EdgeLists :=
  forEachEdge g addEdge
    ⟨List.replicate (hbiGraphNumNodes g) [], List.replicate (hbiGraphNumNodes g) []⟩

/-- State of the traversal. `dropped` counts refused pushes. -/
structure KahnState where
  queue : TaskQueue
  inDegree : List Nat
  executionStage : List Nat
  sortedOrder : List Nat
  stages : List ExecutionStage
  maxDepth : Nat
  dropped : Nat
  deriving DecidableEq, Repr

def KahnState.push (s : KahnState) (taskId : Nat) : KahnState :=
  { s with
    queue := taskQueuePush s.queue taskId
    dropped := if s.queue.count < s.queue.capacity then s.dropped else s.dropped + 1 }

/-- One outgoing edge: the target's in-degree drops, and at zero it is queued. -/
def relaxEdge (s : KahnState) (v : Nat) : KahnState :=
  let degree := (s.inDegree.getD v 0 + (uint32Size - 1)) % uint32Size
  let s := { s with inDegree := s.inDegree.set v degree }
  if degree = 0 then s.push v else s

/-- One task of a stage. -/
def visitTask (outEdges : List (List Nat)) (stageId : Nat) (s : KahnState) :
    Nat × KahnState :=
  let (u, queue) := taskQueuePop s.queue
  let s := { s with
    queue := queue
    sortedOrder := s.sortedOrder ++ [u]
    executionStage := s.executionStage.set u stageId }
  (u, (outEdges.getD u []).foldl relaxEdge s)

/-- The inner loop over the tasks that were queued when the stage began. -/
def levelLoop (outEdges : List (List Nat)) (stageId : Nat) :
    Nat → KahnState → List Nat × KahnState
  | 0, s => ([], s)
  | k + 1, s =>
      let (u, s) := visitTask outEdges stageId s
      let (rest, s) := levelLoop outEdges stageId k s
      (u :: rest, s)

/-- One stage. -/
def kahnLevel (outEdges : List (List Nat)) (s : KahnState) : KahnState :=
  let stageId := s.stages.length
  let (tasks, s) := levelLoop outEdges stageId s.queue.count s
  { s with stages := s.stages ++ [⟨stageId, tasks, stageId⟩], maxDepth := s.maxDepth + 1 }

def kahnLoop (outEdges : List (List Nat)) : Nat → KahnState → Option KahnState
  | 0, _ => none
  | fuel + 1, s =>
      if s.queue.count > 0 then kahnLoop outEdges fuel (kahnLevel outEdges s) else some s

/-- The state before the traversal: the tasks without dependencies are queued. -/
def kahnInit (g : Graph) : KahnState :=
  let n := hbiGraphNumNodes g
  let inDegree := (edgeCounts g).inDegree
  let start : KahnState := ⟨taskQueueInit n, inDegree, List.replicate n 0, [], [], 0, 0⟩
  (List.range n).foldl (fun s i => if inDegree.getD i 0 = 0 then s.push i else s) start

def kahnRun (fuel : Nat) (g : Graph) : Option KahnState :=
  kahnLoop (edgeLists g).outEdges fuel (kahnInit g)

/-- The plan and its statistics as read off a finished traversal. -/
def finishPlan (g : Graph) (s : KahnState) : ExecutionPlan where
  tasks := (List.range (hbiGraphNumNodes g)).map fun i =>
    { taskId := i, node := hbiGraphNodeAt g i,
      dependencies := (edgeLists g).dependencies.getD i [],
      executionStage := s.executionStage.getD i 0 }
  stages := s.stages
  stats :=
    { totalTasks := hbiGraphNumNodes g, dependencyDepth := s.maxDepth,
      criticalPathLength := s.maxDepth, estimatedMemoryUsage := 0,
      numStages := s.stages.length }

def hbiSchedulerCreatePlan (fuel : Nat) (g : Graph) : Option (Result ExecutionPlan) :=
  if hbiGraphNumNodes g = 0 then some (errSet .invalidArg "")
  else
    match kahnRun fuel g with
    | none => none
    | some s =>
      if s.sortedOrder.length ≠ hbiGraphNumNodes g then
        some (errSet .state "Cycle detected in execution graph")
      else some (.ok (finishPlan g s))

end Hummingbird

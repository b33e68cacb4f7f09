import Hummingbird.Runtime.Session

/-!
The build of the pipeline and the run of its plan. The build creates four objects that
the session holds afterwards, and a planner; every failure is followed by the list of
objects that the source destroys at that point, in its order. The graph is the one of
the builder calls the adapter makes, and the plans are those of the scheduler and of the
planner for it.
-/

namespace Hummingbird

open Calls Ownership

/-- What the calls of one build answer. A plan whose construction fails for want of
memory may be left half built. -/
structure BuildAnswers where
  builderCreate : Result Unit
  buildGraph : Result { b : Builder // b.Reached }
  graphAlloc : Result Unit
  schedulerCreate : Result Unit
  planAlloc : Result Unit
  planLeft : Bool
  plannerCreate : Result Unit
  plannerAlloc : Result Unit
  qsort : QSort
  backendManagerCreate : Result Unit

/-- A function that takes fuel, with enough of it. -/
def ended {α : Type} (r : Option (Result α)) : Result α := r.getD (errSet .internal "")

/-- `hbi_graph_build`, which consumes the builder when it succeeds. -/
def buildGraph (a : BuildAnswers) (b : Builder) : SessionM Graph :=
  attempt (after (·.use .builder) (answer a.graphAlloc)) id fun _ =>
  attempt (answer (ended (hbiGraphBuild (b.nodes.length + 1) b))) id fun g =>
  after (fun s => (s.release .builder).acquire .graph g) (answer (.ok g))

/-- A plan that is still allocated when its construction has failed. -/
def leavePlan (s : RuntimeSession) : RuntimeSession := { s with owned := s.owned.abandon .plan }

/-- `hbi_scheduler_create_plan`. No failure after the first two allocations frees the
plan: not a lack of memory, and not a cycle. -/
def createPlan (a : BuildAnswers) (g : Graph) : SessionM ExecutionPlan :=
  let schedule := ended (hbiSchedulerCreatePlan (hbiGraphNumNodes g + 1) g)
  after (fun s => (s.use .scheduler).use .graph) <|
  attempt (answer (if hbiGraphNumNodes g = 0 then errSet .invalidArg "" else .ok ())) id fun _ =>
  attempt (answer a.planAlloc) (if a.planLeft = true then leavePlan else id) fun _ =>
  attempt (answer schedule) leavePlan fun plan =>
  after (·.acquire .plan plan) (answer (.ok plan))

/-- `hbi_memory_planner_plan`; the planner reads the graph it was created for. -/
def planMemory (a : BuildAnswers) (g : Graph) : SessionM Unit :=
  attempt (after (fun s => (s.use .planner).use .graph) (answer a.plannerAlloc)) id fun _ =>
  attempt (answer (ended (hbiMemoryPlannerPlan (hbiGraphNumValues g + 1) a.qsort g))) id
    fun plan => perform fun s => { s with planMemory := some plan }

/-- The prefetch loop: a look at the cancel flag before every stage, then the blocks of
the inputs of its tasks. -/
def prefetch : List ExecutionStage → RuntimeSession → RuntimeSession
  | [], s => s
  | _ :: rest, s =>
      if s.cancelFlag = true then s else prefetch rest ((s.use .graph).use .streamEngine)

def prefetchPlan (plan : ExecutionPlan) (s : RuntimeSession) : RuntimeSession :=
  if (s.owned.id? .streamEngine).isSome = true then prefetch plan.stages (s.use .plan) else s

/-- The unwinding at the failure points of the build, by the last object that exists. -/
def unwindScheduler (s : RuntimeSession) : RuntimeSession :=
  (s.release .scheduler).release .graph

def unwindPlan (s : RuntimeSession) : RuntimeSession := unwindScheduler (hbiExecutionPlanDestroy s)

def unwindPlanner (s : RuntimeSession) : RuntimeSession := unwindPlan (s.release .planner)

def unwindMemoryPlan (s : RuntimeSession) : RuntimeSession :=
  unwindPlan { s.release .planner with planMemory := none }

/-- The build from the graph on. -/
def compileGraph (a : BuildAnswers) (g : Graph) : SessionM Unit :=
  attempt (answer a.schedulerCreate) (·.release .graph) fun _ =>
  after (·.acquire .scheduler ()) <|
  attempt (createPlan a g) unwindScheduler fun plan =>
  attempt (after (·.use .graph) (answer a.plannerCreate)) unwindPlan fun _ =>
  after (·.acquire .planner ()) <|
  attempt (planMemory a g) unwindPlanner fun _ =>
  after (prefetchPlan plan) <|
  attempt (answer a.backendManagerCreate) unwindMemoryPlan fun _ =>
  perform (·.acquire .backendMgr ())

def hbiRuntimePipelineBuild (a : BuildAnswers) : SessionM Unit :=
  branch (fun s => s.adapter.isNone)
    (answer (errSet .state "pipeline_build: session has no adapter"))
    (attempt (answer a.builderCreate) id fun _ =>
      after (·.acquire .builder ()) <|
      attempt (after (·.use .builder) (answer a.buildGraph)) (·.release .builder) fun b =>
      attempt (buildGraph a b.1) (·.release .builder) fun g => compileGraph a g)

/-- What the environment of a run answers: the registry of backends, the context of the
first one, the streaming engine for the inputs of a node, the kernels, and the flush.
The memory is the one that the run starts from. -/
structure ExecAnswers where
  backendCount : Nat
  backendAt : Bool
  getContext : Result Unit
  await : Node → Result Unit
  kernels : Kernels
  hasExecute : Bool
  sync : Result Unit
  memory : Memory

/-- One task of the run: await, resolve, dispatch. -/
def dispatchTask (a : ExecAnswers) (ctx : ExecContext) (n : Node) (read : List (Option Bytes)) :
    Result (List Bytes) := do
  a.await n
  match a.kernels.resolve n.op (kernelDtype ctx n) with
  | .error e =>
      errSet e.status s!"executor_run: failed to resolve kernel for op {n.op.ctorIdx}"
  | .ok _ =>
      if a.hasExecute = true then a.kernels.run n read
      else errSet .unsupported "executor_run: backend has no execute()"

/-- The stages and tasks of a plan over the bound tensors, and the flush after them. -/
def walkPlan (a : ExecAnswers) (ctx : ExecContext) (plan : ExecutionPlan) : Result Unit := do
  let _ ← (BufferReuse.run Node.inputs Node.outputs ctx.read ctx.write (dispatchTask a ctx)
    plan.taskNodes a.memory).2
  a.sync

/-- The checks of `hbi_runtime_executor_run` on the registry of backends. -/
def selectBackend (a : ExecAnswers) : Result Unit :=
  if a.backendCount = 0 then errSet .state "executor_run: no backends registered"
  else if a.backendAt = false then
    errSet .internal "executor_run: hbi_backend_at(0) returned NULL"
  else a.getContext

/-- What `hbi_runtime_executor_run` returns in a session. -/
def executorStatus (a : ExecAnswers) (s : RuntimeSession) : Result Unit :=
  match s.owned.value? .plan with
  | none => errSet .state "executor_run: no execution plan"
  | some plan =>
    if (s.owned.id? .backendMgr).isNone = true then
      errSet .state "executor_run: no backend manager"
    else do
      selectBackend a
      match s.execCtx with
      | none => errSet .state "executor_run: no exec_ctx"
      | some ctx => walkPlan a ctx plan

/-- `hbi_runtime_executor_run`. The tasks of the plan point into the graph; all that a run
may use counts as used, however far the run gets. -/
def runExecutor (a : ExecAnswers) : SessionM Unit := fun s =>
  ((((s.use .plan).use .graph).use .backendMgr).use .streamEngine, executorStatus a s)

end Hummingbird

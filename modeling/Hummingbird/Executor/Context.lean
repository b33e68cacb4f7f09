import Hummingbird.Planner.Sound
import Hummingbird.Tensor.Memory
import Hummingbird.Foundation.BufferReuse

/-!
Execution contexts over a flat memory. A context binds values to tensors: constants
when it is created, inputs by the caller, and everything else from the pools of a
memory plan. The kernels are a parameter: what the call made for a node computes
from the contents of its inputs, and no more. A run records, for every node it
reaches, the contents of the node's inputs at that moment and what was computed.
-/

namespace Hummingbird

structure ValueState where
  tensor : Option Tensor
  isOwned : Bool
  deriving DecidableEq, Repr

structure ExecContext where
  graph : Graph
  values : List ValueState
  pools : List Int
  deriving DecidableEq, Repr

/-- Constants are bound from the start. -/
def hbiExecContextCreate (g : Graph) : ExecContext where
  graph := g
  values := g.values.map fun v =>
    ⟨if v.isConstant = true then v.constTensor else none, false⟩
  pools := []

def hbiExecContextBind (ctx : ExecContext) (valueId : Nat) (tensor : Tensor) :
    Result ExecContext :=
  if valueId ≥ ctx.values.length then errSet .invalidArg "invalid value ID"
  else .ok { ctx with values := ctx.values.set valueId ⟨some tensor, false⟩ }

/-- What the loop of `hbi_exec_context_allocate_internals` does for one value: an
unbound value with an allocation gets a tensor over its part of the pool. -/
def bindInternal (g : Graph) (plan : MemoryPlan) (pools : List Int) (i : Nat)
    (state : ValueState) : Result ValueState :=
  match state.tensor, hbiMemoryPlanGetAllocation plan i, hbiGraphValueAt g i with
  | none, .ok alloc, some v =>
      let ptr := (pools.getD alloc.poolId 0 + alloc.offset).toNat
      match hbiTensorWrap v.dtype v.shape ptr alloc.sizeBytes with
      | .error e => errSet e.status s!"failed to wrap tensor for {v.name}"
      | .ok t => .ok ⟨some t, true⟩
  | _, _, _ => .ok state

def bindInternals (g : Graph) (plan : MemoryPlan) (pools : List Int) (i : Nat) :
    List ValueState → Result (List ValueState)
  | [] => .ok []
  | state :: rest => do
      let state ← bindInternal g plan pools i state
      let rest ← bindInternals g plan pools (i + 1) rest
      return state :: rest

/-- The pools are what the platform allocator answers for the sizes of the plan. -/
def hbiExecContextAllocateInternals (ctx : ExecContext) (plan : MemoryPlan)
    (pools : List (AlignedBlock hbiTensorDefaultAlign)) : Result ExecContext := do
  let pools := pools.map AlignedBlock.addr
  let values ← bindInternals ctx.graph plan pools 0 ctx.values
  return { ctx with values := values, pools := pools }

/-- The tensor a value is bound to. -/
def ExecContext.tensorOf (ctx : ExecContext) (v : Nat) : Option Tensor :=
  (ctx.values[v]?).bind ValueState.tensor

/-- Contents of a value, when it is bound. -/
def ExecContext.read (ctx : ExecContext) (m : Memory) (v : Nat) : Option Bytes :=
  (ctx.tensorOf v).map (readBytes m)

def ExecContext.write (ctx : ExecContext) (m : Memory) (v : Nat) (bs : Bytes) : Memory :=
  match ctx.tensorOf v with
  | none => m
  | some t => writeBytes m t bs

/-- Contents that a buffer of the value's size holds after a write. -/
def ExecContext.held (ctx : ExecContext) (v : Nat) (bs : Bytes) : Option Bytes :=
  (ctx.tensorOf v).map fun t => fitBytes t.nbytes bs

/-- The kernels as functions: resolution by operation and dtype, the workspace
query, and the call made for a node on the contents of its inputs. -/
structure Kernels where
  resolve : KernelOp → Dtype → Result Unit
  workspaceSize : Node → Result Nat
  run : Node → List (Option Bytes) → Result (List Bytes)

/-- Name of a value for a message. -/
def Graph.valueName (g : Graph) (v : Nat) : String :=
  ((hbiGraphValueAt g v).map Value.name).getD ""

/-- What `hbi_executor_run` does for one node: operands must be bound, then the
workspace is queried and the kernel runs. -/
def executorNode (k : Kernels) (ctx : ExecContext) (n : Node) (read : List (Option Bytes)) :
    Result (List Bytes) :=
  match n.inputs.find? fun v => (ctx.tensorOf v).isNone with
  | some v => errSet .state s!"unbound input {ctx.graph.valueName v} for {n.name}"
  | none =>
    match n.outputs.find? fun v => (ctx.tensorOf v).isNone with
    | some v => errSet .state s!"unbound output {ctx.graph.valueName v} for {n.name}"
    | none =>
      match k.workspaceSize n with
      | .error e => errSet e.status s!"workspace query failed on {n.name}"
      | .ok _ =>
        match k.run n read with
        | .error e => errSet e.status s!"kernel execution failed on {n.name}"
        | .ok res => .ok res

abbrev RunEvent := BufferReuse.Event Node Bytes (Option Bytes)

/-- The nodes in execution order. -/
def Graph.orderedNodes (g : Graph) : List Node :=
  g.executionOrder.filterMap (hbiGraphNodeAt g)

def hbiExecutorRun (k : Kernels) (ctx : ExecContext) (m : Memory) :
    List RunEvent × Result Memory :=
  BufferReuse.run Node.inputs Node.outputs ctx.read ctx.write (executorNode k ctx)
    ctx.graph.orderedNodes m

/-- The same run with a private buffer for every value, each of them holding at the
start what the value's tensor holds. -/
def privateExecutorRun (k : Kernels) (ctx : ExecContext) (m : Memory) :
    List RunEvent × Result (Nat → Option Bytes) :=
  BufferReuse.run Node.inputs Node.outputs (fun s v => s v)
    (BufferReuse.privatePut ctx.held) (executorNode k ctx) ctx.graph.orderedNodes (ctx.read m)

end Hummingbird

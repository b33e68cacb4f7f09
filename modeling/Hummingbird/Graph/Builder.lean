import Hummingbird.Tensor.Tensor

/-!
The declarative graph: symbolic values, operation nodes and the builder that
appends them. A value without a producer carries the source's `UINT32_MAX` and
is `none` here. Names are diagnostic text and are cut to the size of the field
that holds them.
-/

namespace Hummingbird

def hbiGraphNameMax : Nat := 64

def hbiGraphMaxNodes : Nat := 1024

def hbiGraphMaxValues : Nat := 4096

def hbiKernelMaxInputs : Nat := 8

def hbiKernelMaxOutputs : Nat := 2

inductive KernelOp where
  | invalid
  | copy
  | fill
  | cast
  | transpose
  | elementwise
  | matmul
  | reshape
  | reduce
  | batchedMatmul
  | softmax
  | rmsnorm
  | layernorm
  | rope
  | activation
  | moeRouting
  | attention
  | count
  deriving DecidableEq, Repr

/-- What the members of the parameter union read as, for the members that shape
inference reads. -/
structure KernelParams where
  castTarget : Dtype
  axisA : Nat
  axisB : Nat
  deriving DecidableEq, Repr

/-- A cleared parameter union. -/
def KernelParams.zero : KernelParams := ⟨.invalid, 0, 0⟩

structure Value where
  id : Nat
  name : String
  shape : Shape
  dtype : Dtype
  isConstant : Bool
  constTensor : Option Tensor
  producerNodeId : Option Nat
  deriving DecidableEq, Repr

structure Node where
  id : Nat
  name : String
  op : KernelOp
  params : KernelParams
  inputs : List Nat
  outputs : List Nat
  deriving DecidableEq, Repr

/-- What the tables of a builder hold where nothing was written yet: the inputs, the number of
outputs and the outputs in the record of a node, and the producer in the record of a value. -/
structure GraphMemory where
  inputs : Nat → Nat → Nat
  numOutputs : Nat → Nat
  outputs : Nat → Nat → Nat
  producer : Nat → Option Nat

def GraphMemory.zero : GraphMemory := ⟨fun _ _ => 0, fun _ => 0, fun _ _ => 0, fun _ => some 0⟩

structure Builder where
  nodes : List Node
  values : List Value
  memory : GraphMemory

/-- `hbi_graph_builder_create`, which does not clear the tables that it allocates. -/
def Builder.create (memory : GraphMemory) : Builder := ⟨[], [], memory⟩

/-- A new builder whose tables came as zeros. -/
def Builder.empty : Builder := .create .zero

/-- `snprintf` into a field of `size` bytes. -/
def truncName (size : Nat) (name : String) : String :=
  String.ofList (name.toList.take (size - 1))

def addValue (b : Builder) (name : Option String) (shape : Shape) (dtype : Dtype)
    (isConstant : Bool) (constTensor : Option Tensor) (producer : Option Nat) :
    Result (Builder × Nat) :=
  if b.values.length ≥ hbiGraphMaxValues then
    errSet .oom "max values exceeded in graph"
  else
    let id := b.values.length
    let v : Value :=
      { id := id, name := truncName hbiGraphNameMax (name.getD s!"v{id}"), shape := shape,
        dtype := dtype, isConstant := isConstant, constTensor := constTensor,
        producerNodeId := producer }
    .ok ({ b with values := b.values ++ [v] }, id)

def hbiGraphAddInput (b : Builder) (name : Option String) (shape : Shape) (dtype : Dtype) :
    Result (Builder × Nat) :=
  if hbiDtypeIsValid dtype = false then errSet .invalidArg "invalid dtype"
  else addValue b name shape dtype false none none

def hbiGraphAddConstant (b : Builder) (name : Option String) (tensor : Tensor) :
    Result (Builder × Nat) :=
  addValue b name tensor.shape tensor.dtype true (some tensor) none

/-- Shape and dtype of every output of an operation on the given inputs. -/
def inferOutputShape (op : KernelOp) (params : KernelParams) (inputs : List Value) :
    Result (Shape × Dtype) :=
  match op, inputs with
  | .copy, [a] => .ok (a.shape, a.dtype)
  | .cast, [a] => .ok (a.shape, params.castTarget)
  | .fill, [] => .ok (⟨[1]⟩, .fp32)
  | .elementwise, [a, b] => do
      let shape ← hbiShapeBroadcast a.shape b.shape
      return (shape, a.dtype)
  | .transpose, [a] =>
      if params.axisA ≥ a.shape.rank ∨ params.axisB ≥ a.shape.rank then
        errSet .invalidArg "transpose axis out of bounds"
      else .ok (⟨Strided.swapAt a.shape.dims params.axisA params.axisB⟩, a.dtype)
  | .matmul, [a, b] =>
      if a.shape.rank ≠ 2 ∨ b.shape.rank ≠ 2 then errSet .invalidArg "matmul requires 2D"
      else if a.shape.dims.getD 1 0 ≠ b.shape.dims.getD 0 0 then
        errSet .invalidArg "matmul inner dim mismatch"
      else .ok (⟨[a.shape.dims.getD 0 0, b.shape.dims.getD 1 0]⟩, a.dtype)
  | .copy, _ | .cast, _ | .transpose, _ => errSet .invalidArg "requires 1 input"
  | .fill, _ => errSet .invalidArg "requires 0 inputs"
  | .elementwise, _ | .matmul, _ => errSet .invalidArg "requires 2 inputs"
  | op, _ => errSet .unsupported s!"shape inference for op {op.ctorIdx} unsupported"

/-- Prefix of the requested inputs that name existing values, as the node's input
loop writes them before it stops. -/
def acceptedInputs (numValues : Nat) (inputs : List Nat) : List Nat :=
  inputs.takeWhile (· < numValues)

/-- The inputs in a record that counts `numInputs` of them, of which the first were written. -/
def recordInputs (held : Nat → Nat) (written : List Nat) (numInputs : Nat) : List Nat :=
  written ++ (List.range' written.length (numInputs - written.length)).map held

/-- The output loop of `hbi_graph_add_node`: infer, append the value, record its
identifier in the node that was appended first, which counts all its outputs already. -/
def addOutputs (node : Node) (vals : List Value) (b : Builder) (i : Nat) :
    Nat → Builder × Result (List Nat)
  | 0 => (b, .ok [])
  | remaining + 1 =>
      match inferOutputShape node.op node.params vals with
      | .error e =>
          (b, errSet e.status s!"shape inference failed for node {node.name}")
      | .ok (shape, dtype) =>
        let vname := truncName hbiGraphNameMax s!"{truncName 41 node.name}_out{i}"
        match addValue b (some vname) shape dtype false none (some node.id) with
        | .error e => (b, .error e)
        | .ok (b, valId) =>
          let record := fun n : Node => { n with outputs := n.outputs.set i valId }
          let b := { b with nodes := b.nodes.modify node.id record }
          match addOutputs node vals b (i + 1) remaining with
          | (b, .error e) => (b, .error e)
          | (b, .ok rest) => (b, .ok (valId :: rest))

/-- The node stays in the builder when its inputs or its outputs are refused, so
the builder is returned beside the status. Its record counts what was asked for: behind the
inputs and the outputs that were written it shows what the table held there, and no number of
outputs was written when an input was refused. -/
def hbiGraphAddNode (b : Builder) (name : Option String) (op : KernelOp)
    (params : Option KernelParams) (inputs : List Nat) (numOutputs : Nat) :
    Builder × Result (List Nat) :=
  if inputs.length > hbiKernelMaxInputs ∨ numOutputs > hbiKernelMaxOutputs then
    (b, errSet .invalidArg "too many inputs/outputs")
  else if b.nodes.length ≥ hbiGraphMaxNodes then
    (b, errSet .oom "max nodes exceeded")
  else
    let nodeId := b.nodes.length
    let written := acceptedInputs b.values.length inputs
    let heldOutputs := fun count => (List.range count).map (b.memory.outputs nodeId)
    let node : Node :=
      { id := nodeId, name := truncName hbiGraphNameMax (name.getD s!"n{nodeId}"), op := op,
        params := params.getD KernelParams.zero,
        inputs := recordInputs (b.memory.inputs nodeId) written inputs.length,
        outputs := heldOutputs (b.memory.numOutputs nodeId) }
    if inputs.any (· ≥ b.values.length) then
      ({ b with nodes := b.nodes ++ [node] }, errSet .invalidArg "invalid input value ID")
    else
      let node := { node with outputs := heldOutputs numOutputs }
      addOutputs node (inputs.filterMap (b.values[·]?)) { b with nodes := b.nodes ++ [node] } 0
        numOutputs

/-- Builders reached from a new one by calls that all succeeded. -/
inductive Builder.Reached : Builder → Prop
  | create (memory : GraphMemory) : Builder.Reached (.create memory)
  | input {b b' name shape dtype id} (hb : Builder.Reached b)
      (h : hbiGraphAddInput b name shape dtype = .ok (b', id)) : Builder.Reached b'
  | constant {b b' name tensor id} (hb : Builder.Reached b)
      (h : hbiGraphAddConstant b name tensor = .ok (b', id)) : Builder.Reached b'
  | node {b b' name op params inputs numOutputs outs} (hb : Builder.Reached b)
      (h : hbiGraphAddNode b name op params inputs numOutputs = (b', .ok outs)) :
      Builder.Reached b'

theorem Builder.Reached.empty : Builder.Reached .empty := .create .zero

end Hummingbird

import Hummingbird.Graph.Builder

/-!
Finalising a builder: the depth-first visit that detects cycles and fixes the
execution order, and the immutable graph it leaves. The recursion of the source is
bounded by its marks only, so the visit takes fuel and answers nothing when the
fuel runs out, and nothing when an identifier leads behind the tables; buffers are
assumed to be allocated.
-/

namespace Hummingbird

structure Graph where
  nodes : List Node
  values : List Value
  executionOrder : List Nat
  deriving DecidableEq, Repr

def hbiGraphNumNodes (g : Graph) : Nat := g.nodes.length

def hbiGraphNumValues (g : Graph) : Nat := g.values.length

def hbiGraphNodeAt (g : Graph) (id : Nat) : Option Node := g.nodes[id]?

def hbiGraphValueAt (g : Graph) (id : Nat) : Option Value := g.values[id]?

/-- Marks of the visit (`0` new, `1` open, `2` finished) and the order so far. -/
structure TopoState where
  visited : List Nat
  order : List Nat
  deriving DecidableEq, Repr

/-- The producer in the record of a value. A record that was not written shows what the table
held; behind the table there is none. -/
def Builder.producerAt (b : Builder) (v : Nat) : Option (Option Nat) :=
  match b.values[v]? with
  | some val => some val.producerNodeId
  | none => if v < hbiGraphMaxValues then some (b.memory.producer v) else none

/-- The loop over a node's inputs: the producers are visited in input order. -/
def topoInputs (b : Builder) (visit : Nat → TopoState → Option (Result TopoState)) :
    List Nat → TopoState → Option (Result TopoState)
  | [], s => some (.ok s)
  | valId :: rest, s =>
      match b.producerAt valId with
      | none => none
      | some none => topoInputs b visit rest s
      | some (some p) =>
          match visit p s with
          | none => none
          | some (.error e) => some (.error e)
          | some (.ok s) => topoInputs b visit rest s

def topoVisit (b : Builder) : (fuel nodeId : Nat) → TopoState → Option (Result TopoState)
  | 0, _, _ => none
  | fuel + 1, nodeId, s =>
      if nodeId ≥ b.nodes.length then none
      else if s.visited.getD nodeId 0 = 1 then some (errSet .state "cycle detected in graph")
      else if s.visited.getD nodeId 0 = 2 then some (.ok s)
      else
        let inputs := ((b.nodes[nodeId]?).map Node.inputs).getD []
        let opened := { s with visited := s.visited.set nodeId 1 }
        match topoInputs b (topoVisit b fuel) inputs opened with
        | none => none
        | some (.error e) => some (.error e)
        | some (.ok s) => some (.ok ⟨s.visited.set nodeId 2, s.order ++ [nodeId]⟩)

/-- The outer loop of `hbi_graph_build`. -/
def topoAll (b : Builder) (fuel : Nat) : List Nat → TopoState → Option (Result TopoState)
  | [], s => some (.ok s)
  | i :: rest, s =>
      if s.visited.getD i 0 = 0 then
        match topoVisit b fuel i s with
        | none => none
        | some (.error e) => some (.error e)
        | some (.ok s) => topoAll b fuel rest s
      else topoAll b fuel rest s

def hbiGraphBuild (fuel : Nat) (b : Builder) : Option (Result Graph) :=
  match topoAll b fuel (List.range b.nodes.length)
      ⟨List.replicate b.nodes.length 0, []⟩ with
  | none => none
  | some (.error e) => some (.error e)
  | some (.ok s) => some (.ok ⟨b.nodes, b.values, s.order⟩)

end Hummingbird

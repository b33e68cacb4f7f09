import Hummingbird.Graph.Invariant

/-!
What the calls of the builder promise their callers. A builder all of whose calls
succeeded can always be finished. A node that is refused is another matter: its
record is counted before its inputs and outputs are looked at, and nothing takes it
back.
-/

namespace Hummingbird

/-- Every producer of an input of a scheduled node is scheduled before it. -/
def Graph.ProducersFirst (g : Graph) : Prop :=
  ∀ k i : Nat, g.executionOrder[k]? = some i → ∀ node : Node, g.nodes[i]? = some node →
    ∀ v ∈ node.inputs, ∀ p, producerOf g.values v = some p →
      ∃ j < k, g.executionOrder[j]? = some p

theorem Builder.WellFormed.producersFirst {b : Builder} (h : b.WellFormed) :
    b.finished.ProducersFirst := by
  intro k i hk node hnode v hv p hp
  simp only [Builder.finished_executionOrder, Builder.finished_nodes,
    Builder.finished_values] at hk hnode hp ⊢
  obtain ⟨hlt, hki⟩ := List.getElem?_eq_some_iff.mp hk
  rw [List.getElem_range] at hki
  subst hki
  have hbefore := h.inputs_before k node hnode v hv p hp
  refine ⟨p, hbefore, ?_⟩
  exact List.getElem?_range (hbefore.trans (by simpa using hlt))

/-- Finishing a builder all of whose calls succeeded returns a graph with the
builder's nodes and values. Its execution order lists every node once, in the order
the nodes were added, and after the producers of everything the node reads. -/
theorem hbi_graph_build_reached {b : Builder} (h : b.Reached) :
    ∃ g : Graph, (∀ fuel ≥ 2, hbiGraphBuild fuel b = some (.ok g)) ∧
      g.nodes = b.nodes ∧ g.values = b.values ∧
      g.executionOrder = List.range b.nodes.length ∧
      g.executionOrder.Perm (g.nodes.map Node.id) ∧ g.ProducersFirst := by
  refine ⟨b.finished, fun _ hfuel => h.wellFormed.build hfuel, rfl, rfl, rfl, ?_,
    h.wellFormed.producersFirst⟩
  have hids : b.nodes.map Node.id = List.range b.nodes.length := by
    apply List.ext_getElem
    · simp
    · intro i hi _
      have hi' : i < b.nodes.length := by simpa using hi
      have hid := h.wellFormed.node_id i b.nodes[i] (List.getElem?_eq_getElem hi')
      simpa using hid
  rw [Builder.finished_nodes, hids, Builder.finished_executionOrder]

/-- A fill whose result is copied. -/
def fillCopy : Builder :=
  (hbiGraphAddNode (hbiGraphAddNode .empty none .fill none [] 1).1 none .copy none [0] 1).1

theorem fillCopy_reached : fillCopy.Reached := by
  have hfill := @Builder.Reached.node _ _ none .fill none [] 1 _ .empty rfl
  exact @Builder.Reached.node _ _ none .copy none [0] 1 _ hfill rfl

theorem hbi_graph_build_reached_fillCopy :
    ∃ g : Graph, (∀ fuel ≥ 2, hbiGraphBuild fuel fillCopy = some (.ok g)) ∧
      g.nodes = fillCopy.nodes ∧ g.values = fillCopy.values ∧
      g.executionOrder = List.range fillCopy.nodes.length ∧
      g.executionOrder.Perm (g.nodes.map Node.id) ∧ g.ProducersFirst :=
  hbi_graph_build_reached fillCopy_reached

/-- The checks of `hbi_graph_add_node` that come before the node is counted. -/
def refusedAtEntry (b : Builder) (inputs : List Nat) (numOutputs : Nat) : Prop :=
  inputs.length > hbiKernelMaxInputs ∨ numOutputs > hbiKernelMaxOutputs ∨
    b.nodes.length ≥ hbiGraphMaxNodes

/-- The output loop changes the record of the new node and appends values. -/
theorem addOutputs_nodes_length (node : Node) (vals : List Value) (b : Builder)
    (i remaining : Nat) :
    (addOutputs node vals b i remaining).1.nodes.length = b.nodes.length := by
  induction remaining generalizing b i with
  | zero => rfl
  | succ remaining ih =>
      unfold addOutputs
      dsimp only
      split
      · rfl
      · split
        · rfl
        · rename_i b₁ valId hadd
          have hsame : b₁.nodes = b.nodes := by
            unfold addValue at hadd
            split at hadd
            · simp at hadd
            · simp only [Except.ok.injEq, Prod.mk.injEq] at hadd
              rw [← hadd.1]
          have hlen := ih { b₁ with nodes := b₁.nodes.modify node.id (fun n : Node =>
            { n with outputs := n.outputs.set i valId }) } (i + 1)
          rw [List.length_modify] at hlen
          split
          · rename_i hrest
            rw [hrest, hsame] at hlen
            exact hlen
          · rename_i hrest
            rw [hrest, hsame] at hlen
            exact hlen

/-- A call that passes the entry checks counts its node, whatever it returns. -/
theorem hbiGraphAddNode_nodes_length {b : Builder} {name : Option String} {op : KernelOp}
    {params : Option KernelParams} {inputs : List Nat} {numOutputs : Nat}
    (h : ¬ refusedAtEntry b inputs numOutputs) :
    (hbiGraphAddNode b name op params inputs numOutputs).1.nodes.length =
      b.nodes.length + 1 := by
  unfold refusedAtEntry at h
  push Not at h
  obtain ⟨hin, hout, hroom⟩ := h
  unfold hbiGraphAddNode
  rw [if_neg (by omega), if_neg (by omega)]
  dsimp only
  split
  · simp
  · rw [addOutputs_nodes_length]
    simp

theorem hbiGraphAddNode_refusedAtEntry {b : Builder} {name : Option String} {op : KernelOp}
    {params : Option KernelParams} {inputs : List Nat} {numOutputs : Nat}
    (h : refusedAtEntry b inputs numOutputs) :
    (hbiGraphAddNode b name op params inputs numOutputs).1 = b := by
  unfold hbiGraphAddNode
  split
  · rfl
  · rename_i harity
    rw [if_pos]
    rcases h with h | h | h
    · exact absurd (Or.inl h) harity
    · exact absurd (Or.inr h) harity
    · exact h

/-- A refused node leaves the builder as it was, and with it every graph finished
from it, exactly when one of the checks at the entry refused it. -/
theorem hbi_graph_add_node_rejected_iff {b b' : Builder} {name : Option String}
    {op : KernelOp} {params : Option KernelParams} {inputs : List Nat} {numOutputs : Nat}
    {e : Failure} (h : hbiGraphAddNode b name op params inputs numOutputs = (b', .error e)) :
    (b'.nodes = b.nodes ∧ b'.values = b.values ∧
      ∀ fuel, hbiGraphBuild fuel b' = hbiGraphBuild fuel b) ↔
      refusedAtEntry b inputs numOutputs := by
  have hb' : b' = (hbiGraphAddNode b name op params inputs numOutputs).1 := by
    rw [h]
  constructor
  · rintro ⟨hnodes, -⟩
    by_contra hentry
    have hlen := @hbiGraphAddNode_nodes_length b name op params inputs numOutputs hentry
    rw [← hb', hnodes] at hlen
    omega
  · intro hentry
    have hsame := @hbiGraphAddNode_refusedAtEntry b name op params inputs numOutputs hentry
    rw [hb', hsame]
    exact ⟨rfl, rfl, fun _ => rfl⟩

theorem hbi_graph_add_node_rejected_three_outputs :
    hbiGraphAddNode fillCopy (some "split") .copy none [1] 3 =
        (fillCopy, errSet .invalidArg "too many inputs/outputs") ∧
      ((fillCopy.nodes = fillCopy.nodes ∧ fillCopy.values = fillCopy.values ∧
        ∀ fuel, hbiGraphBuild fuel fillCopy = hbiGraphBuild fuel fillCopy) ↔
        refusedAtEntry fillCopy [1] 3) :=
  ⟨rfl, @hbi_graph_add_node_rejected_iff fillCopy fillCopy (some "split") .copy none [1] 3 _ rfl⟩

/-- The graph that a builder is finished to has its nodes. -/
theorem hbiGraphBuild_nodes {fuel : Nat} {b : Builder} {g : Graph}
    (h : hbiGraphBuild fuel b = some (.ok g)) : g.nodes = b.nodes := by
  unfold hbiGraphBuild at h
  split at h
  · cases h
  · cases h
  · cases h
    rfl

/-- A copy of a value that does not exist is refused, whatever the tables of the new builder hold.
Its node is counted, with one input that was never written, and the builder is not finished to the
graph it would have been without the call; where the tables came as zeros the input that was not
written leads back to the node, and finishing fails. -/
theorem hbi_graph_add_node_rejected_counted :
    (∀ memory : GraphMemory,
      let refused := hbiGraphAddNode (.create memory) (some "copy") .copy none [0] 1
      refused.2 = errSet .invalidArg "invalid input value ID" ∧
        refused.1.nodes.map Node.inputs = [[memory.inputs 0 0]] ∧
        ∀ fuel, hbiGraphBuild fuel refused.1 ≠ hbiGraphBuild fuel (.create memory)) ∧
      hbiGraphBuild 2 (hbiGraphAddNode .empty (some "copy") .copy none [0] 1).1 =
        some (errSet .state "cycle detected in graph") ∧
      ∃ g, hbiGraphBuild 2 .empty = some (.ok g) := by
  refine ⟨fun memory => ⟨rfl, rfl, ?_⟩, rfl, ⟨_, rfl⟩⟩
  intro fuel hsame
  have hnone : hbiGraphBuild fuel (.create memory) = some (.ok ⟨[], [], []⟩) := rfl
  rw [hnone] at hsame
  cases hbiGraphBuild_nodes hsame

end Hummingbird

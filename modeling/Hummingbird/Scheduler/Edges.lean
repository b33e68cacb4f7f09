import Hummingbird.Scheduler.Plan
import Hummingbird.Foundation.Table

/-!
The two edge passes in terms of the producer relation. `g.deps v` lists the
producers of the inputs of `v` with their multiplicity; the passes count and record
exactly these edges, seen from both ends.
-/

namespace Hummingbird

/-- Producers of a node's inputs, in input order and with multiplicity. -/
def Graph.deps (g : Graph) (i : Nat) : List Nat :=
  (g.inputsAt i).filterMap (producerOf g.values)

/-- `u` produces an input of `v`. -/
def Graph.Feeds (g : Graph) (u v : Nat) : Prop := u ∈ g.deps v

/-- All edges, in the order the passes meet them. -/
def Graph.edges (g : Graph) : List (Nat × Nat) :=
  (List.range (hbiGraphNumNodes g)).flatMap fun i => (g.deps i).map fun prod => (prod, i)

/-- The sizes the node type and the node table impose, and producers that exist. -/
structure Graph.Sized (g : Graph) : Prop where
  edges_lt : hbiKernelMaxInputs * hbiGraphNumNodes g < uint32Size
  inputs_le : ∀ i, (g.inputsAt i).length ≤ hbiKernelMaxInputs
  producers_lt : ∀ v p, producerOf g.values v = some p → p < hbiGraphNumNodes g

theorem Graph.deps_eq_nil {g : Graph} {i : Nat} (hi : hbiGraphNumNodes g ≤ i) :
    g.deps i = [] := by
  simp [Graph.deps, Graph.inputsAt, hbiGraphNodeAt, List.getElem?_eq_none hi]

theorem Graph.Feeds.lt {g : Graph} {u v : Nat} (h : g.Feeds u v) : v < hbiGraphNumNodes g := by
  by_contra hge
  simp [Graph.Feeds, Graph.deps_eq_nil (not_lt.mp hge)] at h

theorem Graph.Sized.feeds_lt {g : Graph} (hg : g.Sized) {u v : Nat} (h : g.Feeds u v) :
    u < hbiGraphNumNodes g := by
  obtain ⟨valId, _, hprod⟩ := List.mem_filterMap.mp h
  exact hg.producers_lt valId u hprod

theorem Graph.Sized.deps_length {g : Graph} (hg : g.Sized) (v : Nat) :
    (g.deps v).length ≤ hbiKernelMaxInputs :=
  (List.length_filterMap_le _ _).trans (hg.inputs_le v)

theorem Graph.Sized.edges_length {g : Graph} (hg : g.Sized) :
    g.edges.length < uint32Size := by
  have hle : ∀ is : List Nat, (is.flatMap fun i =>
      (g.deps i).map fun prod => (prod, i)).length ≤ hbiKernelMaxInputs * is.length := by
    intro is
    induction is with
    | nil => simp
    | cons i is ih =>
        have hdeps := hg.deps_length i
        rw [List.flatMap_cons, List.length_append, List.length_map, List.length_cons, mul_add]
        omega
  have hall := hle (List.range (hbiGraphNumNodes g))
  rw [List.length_range] at hall
  exact lt_of_le_of_lt hall hg.edges_lt

/-- The shared loop is a fold over the edges. -/
theorem forEachEdge_eq {σ : Type} (g : Graph) (body : σ → Nat → Nat → σ) (s : σ) :
    forEachEdge g body s = g.edges.foldl (fun s e => body s e.1 e.2) s := by
  have hrow : ∀ (i : Nat) (inputs : List Nat) (s : σ),
      inputs.foldl (forInput g body i) s =
      ((inputs.filterMap (producerOf g.values)).map fun prod => (prod, i)).foldl
        (fun s e => body s e.1 e.2) s := by
    intro i inputs
    induction inputs with
    | nil => simp
    | cons v inputs ih =>
        intro s
        cases hp : producerOf g.values v with
        | none => simp [forInput, hp, ih]
        | some p => simp [forInput, hp, ih]
  unfold forEachEdge Graph.edges
  rw [List.foldl_flatMap]
  congr 1
  funext s i
  exact hrow i _ s

/-- The edges into a node are its dependencies. -/
theorem Graph.edges_into {g : Graph} {v : Nat} (hv : v < hbiGraphNumNodes g) :
    g.edges.filter (·.2 = v) = (g.deps v).map fun prod => (prod, v) := by
  have hrow : ∀ i, ((g.deps i).map fun prod => (prod, i)).filter (·.2 = v) =
      if i = v then (g.deps i).map fun prod => (prod, i) else [] := by
    intro i
    by_cases hi : i = v
    · simp [hi, List.filter_map, Function.comp_def]
    · simp [hi, List.filter_map, Function.comp_def]
  have hfold : ∀ n, ((List.range n).flatMap fun i =>
      (g.deps i).map fun prod => (prod, i)).filter (·.2 = v) =
        if v < n then (g.deps v).map fun prod => (prod, v) else [] := by
    intro n
    induction n with
    | zero => simp
    | succ n ih =>
        rw [List.range_succ, List.flatMap_append, List.filter_append, ih, List.flatMap_singleton,
          hrow]
        by_cases hvn : v = n
        · subst hvn
          simp
        · by_cases hlt : v < n
          · simp [hlt, hlt.trans (Nat.lt_succ_self n), Ne.symm hvn]
          · have hge : ¬ v < n + 1 := by omega
            simp [hlt, hge, Ne.symm hvn]
  unfold Graph.edges
  rw [hfold, if_pos hv]

private theorem foldl_addEdge (es : List (Nat × Nat)) (e : EdgeLists) :
    es.foldl (fun e p => addEdge e p.1 p.2) e =
      ⟨es.foldl (fun l p => l.modify p.1 (· ++ [p.2])) e.outEdges,
        es.foldl (fun l p => l.modify p.2 (· ++ [p.1])) e.dependencies⟩ := by
  induction es generalizing e with
  | nil => rfl
  | cons p es ih => simpa [addEdge] using ih (addEdge e p.1 p.2)

private theorem foldl_countEdge (es : List (Nat × Nat)) (c : EdgeCounts) :
    es.foldl (fun c p => countEdge c p.1 p.2) c =
      ⟨es.foldl (fun l p => l.modify p.1 fun n => (n + 1) % uint32Size) c.outEdgeCapacity,
        es.foldl (fun l p => l.modify p.2 fun n => (n + 1) % uint32Size) c.inDegree⟩ := by
  induction es generalizing c with
  | nil => rfl
  | cons p es ih => simpa [countEdge] using ih (countEdge c p.1 p.2)

/-- Pass 2 lists a task's dependencies with their multiplicity. -/
theorem edgeLists_dependencies {g : Graph} {i : Nat} (hi : i < hbiGraphNumNodes g) :
    (edgeLists g).dependencies.getD i [] = g.deps i := by
  rw [edgeLists, forEachEdge_eq, foldl_addEdge, Table.getD_foldl_append (by simpa using hi),
    Graph.edges_into hi]
  simp [Function.comp_def]

/-- Pass 2 lists a task's readers. -/
theorem edgeLists_outEdges {g : Graph} {u : Nat} (hu : u < hbiGraphNumNodes g) :
    (edgeLists g).outEdges.getD u [] = (g.edges.filter (·.1 = u)).map Prod.snd := by
  rw [edgeLists, forEachEdge_eq, foldl_addEdge, Table.getD_foldl_append (by simpa using hu)]
  simp

/-- A reader occurs among the outgoing edges as often as its producer occurs among
its dependencies. -/
theorem count_outEdges {g : Graph} {u v : Nat} (hu : u < hbiGraphNumNodes g)
    (hv : v < hbiGraphNumNodes g) :
    ((edgeLists g).outEdges.getD u []).count v = (g.deps v).count u := by
  have hpair : ((g.edges.filter (·.1 = u)).map Prod.snd).count v = g.edges.count (u, v) := by
    rw [List.count, List.countP_map, List.countP_filter, List.count]
    apply List.countP_congr
    rintro ⟨a, c⟩ _
    simp [and_comm]
  have hinto : g.edges.count (u, v) = (g.edges.filter (·.2 = v)).count (u, v) := by
    rw [List.count_filter]
    simp
  have hinj : Function.Injective fun prod : Nat => (prod, v) := fun a c h =>
    (Prod.mk.inj h).1
  rw [edgeLists_outEdges hu, hpair, hinto, Graph.edges_into hv]
  exact List.count_map_of_injective _ _ hinj u

theorem mem_outEdges {g : Graph} {u v : Nat}
    (h : v ∈ (edgeLists g).outEdges.getD u []) (hu : u < hbiGraphNumNodes g) :
    v < hbiGraphNumNodes g := by
  rw [edgeLists_outEdges hu] at h
  obtain ⟨e, he, rfl⟩ := List.mem_map.mp h
  have hmem := List.mem_of_mem_filter he
  obtain ⟨i, hi, hei⟩ := List.mem_flatMap.mp hmem
  obtain ⟨prod, _, rfl⟩ := List.mem_map.mp hei
  exact List.mem_range.mp hi

/-- Pass 1 counts the incoming edges without wrapping. -/
theorem edgeCounts_inDegree {g : Graph} (hg : g.Sized) {i : Nat}
    (hi : i < hbiGraphNumNodes g) : (edgeCounts g).inDegree.getD i 0 = (g.deps i).length := by
  have hlen := hg.edges_length
  rw [edgeCounts, forEachEdge_eq, foldl_countEdge,
    Table.getD_foldl_count (by simpa using hi) (by simpa using hlen),
    List.countP_eq_length_filter, Graph.edges_into hi]
  simp

/-- Pass 1 reserves for every producer exactly the entries pass 2 writes. -/
theorem edgeCounts_outEdgeCapacity {g : Graph} (hg : g.Sized) {u : Nat}
    (hu : u < hbiGraphNumNodes g) :
    (edgeCounts g).outEdgeCapacity.getD u 0 = ((edgeLists g).outEdges.getD u []).length := by
  have hlen := hg.edges_length
  rw [edgeLists_outEdges hu, edgeCounts, forEachEdge_eq, foldl_countEdge,
    Table.getD_foldl_count (by simpa using hu) (by simpa using hlen),
    List.countP_eq_length_filter]
  simp

theorem length_edgeCounts_inDegree (g : Graph) :
    (edgeCounts g).inDegree.length = hbiGraphNumNodes g := by
  rw [edgeCounts, forEachEdge_eq, foldl_countEdge, Table.length_foldl_modify,
    List.length_replicate]

/-- A finished graph has the sizes the scheduler relies on. -/
theorem Builder.WellFormed.sized {b : Builder} (h : b.WellFormed) : b.finished.Sized := by
  refine ⟨?_, ?_, ?_⟩
  · have := h.nodes_le
    simp only [hbiGraphNumNodes, Builder.finished, hbiKernelMaxInputs, uint32Size,
      hbiGraphMaxNodes] at this ⊢
    omega
  · intro i
    cases hn : b.nodes[i]? with
    | none => simp [Graph.inputsAt, hbiGraphNodeAt, Builder.finished, hn]
    | some node =>
        simpa [Graph.inputsAt, hbiGraphNodeAt, Builder.finished, hn] using h.inputs_le i node hn
  · intro v p hp
    exact h.producer_lt hp

end Hummingbird

import Hummingbird.Graph.Build
import Mathlib.Data.List.TakeWhile

/-!
What the builder guarantees. Identifiers are positions, a node reads only values
that existed when it was added, and the values a node lists as outputs are exactly
the values that name it as their producer. Every producer of an input is therefore
an earlier node, and the execution order of a finished graph is the order in which
the nodes were added.
-/

namespace Hummingbird

/-- Producer of the value with this identifier. -/
def producerOf (values : List Value) (v : Nat) : Option Nat :=
  (values[v]?).bind Value.producerNodeId

theorem producerOf_lt {values : List Value} {v p : Nat} (h : producerOf values v = some p) :
    v < values.length := by
  by_contra hge
  simp [producerOf, List.getElem?_eq_none (not_lt.mp hge)] at h

theorem producerOf_append_left {values news : List Value} {v : Nat} (h : v < values.length) :
    producerOf (values ++ news) v = producerOf values v := by
  simp [producerOf, List.getElem?_append_left h]

/-- The invariant of a builder all of whose calls succeeded. -/
structure Builder.WellFormed (b : Builder) : Prop where
  nodes_le : b.nodes.length ≤ hbiGraphMaxNodes
  values_le : b.values.length ≤ hbiGraphMaxValues
  value_id : ∀ (v : Nat) (val : Value), b.values[v]? = some val → val.id = v
  node_id : ∀ (i : Nat) (node : Node), b.nodes[i]? = some node → node.id = i
  inputs_le : ∀ (i : Nat) (node : Node), b.nodes[i]? = some node →
    node.inputs.length ≤ hbiKernelMaxInputs
  inputs_lt : ∀ (i : Nat) (node : Node), b.nodes[i]? = some node →
    ∀ v ∈ node.inputs, v < b.values.length
  inputs_before : ∀ (i : Nat) (node : Node), b.nodes[i]? = some node → ∀ v ∈ node.inputs,
    ∀ p, producerOf b.values v = some p → p < i
  producer_iff : ∀ v p : Nat, producerOf b.values v = some p ↔
    ∃ node : Node, b.nodes[p]? = some node ∧ v ∈ node.outputs
  outputs_nodup : ∀ (i : Nat) (node : Node), b.nodes[i]? = some node → node.outputs.Nodup
  outputs_le : ∀ (i : Nat) (node : Node), b.nodes[i]? = some node →
    node.outputs.length ≤ hbiKernelMaxOutputs
  produced_internal : ∀ (v : Nat) (val : Value), b.values[v]? = some val →
    val.producerNodeId ≠ none → val.isConstant = false
  constant_iff : ∀ (v : Nat) (val : Value), b.values[v]? = some val →
    (val.isConstant = true ↔ val.constTensor ≠ none)

theorem Builder.WellFormed.producer_lt {b : Builder} (h : b.WellFormed) {v p : Nat}
    (hp : producerOf b.values v = some p) : p < b.nodes.length := by
  obtain ⟨node, hnode, _⟩ := (h.producer_iff v p).mp hp
  exact (List.getElem?_eq_some_iff.mp hnode).1

theorem Builder.WellFormed.create (memory : GraphMemory) :
    (Builder.create memory).WellFormed := by
  refine ⟨Nat.zero_le _, Nat.zero_le _, ?_, ?_, ?_, ?_, ?_, ?_, ?_, ?_, ?_, ?_⟩ <;>
    simp [Builder.create, producerOf]

/-- The record a new value gets. -/
structure Value.Fresh (val : Value) (id : Nat) (producer : Option Nat) : Prop where
  id_eq : val.id = id
  producer_eq : val.producerNodeId = producer
  internal : producer ≠ none → val.isConstant = false
  constant_iff : val.isConstant = true ↔ val.constTensor ≠ none

theorem addValue_eq_ok {b b' : Builder} {name : Option String} {shape : Shape} {dtype : Dtype}
    {isConstant : Bool} {constTensor : Option Tensor} {producer : Option Nat} {id : Nat}
    (hint : producer ≠ none → isConstant = false)
    (hconst : isConstant = true ↔ constTensor ≠ none)
    (h : addValue b name shape dtype isConstant constTensor producer = .ok (b', id)) :
    b.values.length < hbiGraphMaxValues ∧ id = b.values.length ∧ b'.nodes = b.nodes ∧
      ∃ val, b'.values = b.values ++ [val] ∧ val.Fresh id producer := by
  simp only [addValue, Result.ite_errSet_eq_ok, not_le, Except.ok.injEq, Prod.mk.injEq] at h
  obtain ⟨hlt, rfl, rfl⟩ := h
  exact ⟨hlt, rfl, rfl, _, rfl, rfl, rfl, hint, hconst⟩

/-- Values appended to the table with one producer `p`. -/
def FreshBlock (start : Nat) (p : Option Nat) (news : List Value) : Prop :=
  ∀ (k : Nat) (val : Value), news[k]? = some val → val.Fresh (start + k) p

theorem FreshBlock.nil (start : Nat) (p : Option Nat) : FreshBlock start p [] := by
  intro k val h
  simp at h

theorem FreshBlock.cons {start : Nat} {p : Option Nat} {val : Value} {news : List Value}
    (hval : val.Fresh start p) (hnews : FreshBlock (start + 1) p news) :
    FreshBlock start p (val :: news) := by
  intro k w h
  cases k with
  | zero =>
      simp only [List.getElem?_cons_zero, Option.some.injEq] at h
      subst h
      simpa using hval
  | succ k =>
      have hw := hnews k w (by simpa using h)
      rwa [Nat.add_right_comm, Nat.add_assoc] at hw

/-- The output loop appends one value per output and records their identifiers. -/
theorem addOutputs_eq_ok {node last : Node} {vals : List Value} {b b' : Builder}
    {ns : List Node} {i remaining : Nat} {outs : List Nat} (hid : node.id = ns.length)
    (hnodes : b.nodes = ns ++ [last]) (hcount : last.outputs.length = i + remaining)
    (h : addOutputs node vals b i remaining = (b', .ok outs)) :
    ∃ news, b'.values = b.values ++ news ∧ news.length = remaining ∧
      outs = List.range' b.values.length remaining ∧
      b'.nodes = ns ++ [{ last with outputs := last.outputs.take i ++ outs }] ∧
      FreshBlock b.values.length (some ns.length) news ∧
      (b.values.length ≤ hbiGraphMaxValues → b'.values.length ≤ hbiGraphMaxValues) := by
  induction remaining generalizing b last i outs with
  | zero =>
      simp only [addOutputs, Prod.mk.injEq, Except.ok.injEq] at h
      obtain ⟨rfl, rfl⟩ := h
      refine ⟨[], by simp, rfl, rfl, ?_, FreshBlock.nil _ _, id⟩
      rw [List.append_nil, List.take_of_length_le (by omega)]
      exact hnodes
  | succ remaining ih =>
      simp only [addOutputs] at h
      split at h
      · simp [errSet] at h
      · rename_i shape dtype hinfer
        split at h
        · simp at h
        · rename_i b₁ valId hadd
          obtain ⟨hlt, rfl, hsame, val, hvalues, hfresh⟩ :=
            addValue_eq_ok (by simp) (by simp) hadd
          split at h
          · simp at h
          · rename_i b₂ rest hrest
            simp only [Prod.mk.injEq, Except.ok.injEq] at h
            obtain ⟨rfl, rfl⟩ := h
            have hmod : b₁.nodes.modify node.id (fun n =>
                { n with outputs := n.outputs.set i b.values.length }) =
                ns ++ [{ last with outputs := last.outputs.set i b.values.length }] := by
              rw [hsame, hnodes, hid, List.modify_eq_take_cons_drop (by simp)]
              simp
            have hset : (last.outputs.set i b.values.length).take (i + 1) =
                last.outputs.take i ++ [b.values.length] := by
              rw [List.take_set, List.take_succ_eq_append_getElem (by omega),
                List.set_append_right _ _ (by simp), List.length_take]
              have hmin : i - min i last.outputs.length = 0 := by omega
              rw [hmin]
              rfl
            obtain ⟨news, hval, hlen, hrange, hnodes', hblock, hbound⟩ := ih hmod
              (by rw [List.length_set]; omega) hrest
            refine ⟨val :: news, ?_, by simp [hlen], ?_, ?_, ?_, ?_⟩
            · rw [hval, hvalues]
              simp
            · rw [hrange, hvalues]
              simp [List.range'_succ]
            · rw [hnodes', hset, List.append_assoc]
              rfl
            · rw [← hid]
              apply FreshBlock.cons hfresh
              simpa [hvalues, hid] using hblock
            · intro _
              apply hbound
              rw [hvalues]
              simp only [List.length_append, List.length_cons, List.length_nil]
              omega

/-- What a successful `hbi_graph_add_node` appends. -/
theorem hbiGraphAddNode_eq_ok {b b' : Builder} {name : Option String} {op : KernelOp}
    {params : Option KernelParams} {inputs outs : List Nat} {numOutputs : Nat}
    (h : hbiGraphAddNode b name op params inputs numOutputs = (b', .ok outs)) :
    inputs.length ≤ hbiKernelMaxInputs ∧ outs.length ≤ hbiKernelMaxOutputs ∧
      b.nodes.length < hbiGraphMaxNodes ∧ (∀ v ∈ inputs, v < b.values.length) ∧
      (b.values.length ≤ hbiGraphMaxValues → b'.values.length ≤ hbiGraphMaxValues) ∧
      ∃ node news, b'.nodes = b.nodes ++ [node] ∧ b'.values = b.values ++ news ∧
        node.id = b.nodes.length ∧ node.inputs = inputs ∧ node.outputs = outs ∧
        outs = List.range' b.values.length news.length ∧
        FreshBlock b.values.length (some b.nodes.length) news := by
  unfold hbiGraphAddNode at h
  split at h
  · simp [errSet] at h
  · rename_i harity
    split at h
    · simp [errSet] at h
    · rename_i hroom
      split at h
      · simp [errSet] at h
      · rename_i hany
        have hlt : ∀ v ∈ inputs, v < b.values.length := by
          intro v hv
          by_contra hge
          exact hany (List.any_eq_true.mpr ⟨v, hv, by simpa using hge⟩)
        have haccept : acceptedInputs b.values.length inputs = inputs := by
          apply List.takeWhile_eq_self_iff.mpr
          intro v hv
          simpa using hlt v hv
        have hrecord : ∀ held, recordInputs held inputs inputs.length = inputs := by
          intro held
          rw [recordInputs, Nat.sub_self]
          exact List.append_nil inputs
        obtain ⟨news, hvalues, hlen, hrange, hnodes, hblock, hbound⟩ :=
          addOutputs_eq_ok rfl rfl (by simp) h
        simp only [not_or, not_lt] at harity
        refine ⟨harity.1, ?_, not_le.mp hroom, hlt, hbound, _, news, hnodes, hvalues, rfl,
          by rw [haccept]; exact hrecord _, by simp, by rw [hlen]; exact hrange, hblock⟩
        rw [hrange, List.length_range']
        exact harity.2

/-- Producers after a block of values with one producer was appended. -/
theorem producerOf_append_iff {values news : List Value} {q : Option Nat} {v p : Nat}
    (hblock : FreshBlock values.length q news) :
    producerOf (values ++ news) v = some p ↔
      producerOf values v = some p ∨
        q = some p ∧ values.length ≤ v ∧ v < values.length + news.length := by
  by_cases hv : v < values.length
  · rw [producerOf_append_left hv]
    simp [not_le.mpr hv]
  · have hold : producerOf values v = none := by
      simp [producerOf, List.getElem?_eq_none (not_lt.mp hv)]
    obtain ⟨k, rfl⟩ := Nat.exists_eq_add_of_le (not_lt.mp hv)
    rw [hold]
    simp only [producerOf, List.getElem?_append_right (Nat.le_add_right _ _),
      Nat.add_sub_cancel_left, reduceCtorEq, false_or, Nat.le_add_right, true_and,
      Nat.add_lt_add_iff_left]
    by_cases hk : k < news.length
    · have hfresh := hblock k _ (List.getElem?_eq_getElem hk)
      simp [hfresh.producer_eq, hk]
    · simp [hk]

/-- What the invariant says about single values holds after new records are appended. -/
theorem Builder.WellFormed.value_append {b : Builder} (h : b.WellFormed) {p : Option Nat}
    {news : List Value} (hblock : FreshBlock b.values.length p news) {v : Nat} {w : Value}
    (hw : (b.values ++ news)[v]? = some w) :
    w.id = v ∧ (w.producerNodeId ≠ none → w.isConstant = false) ∧
      (w.isConstant = true ↔ w.constTensor ≠ none) := by
  rcases getElem?_append_cases hw with hold | ⟨k, rfl, hnew⟩
  · exact ⟨h.value_id v w hold, h.produced_internal v w hold, h.constant_iff v w hold⟩
  · have hfresh := hblock k w hnew
    refine ⟨hfresh.id_eq, ?_, hfresh.constant_iff⟩
    rw [hfresh.producer_eq]
    exact hfresh.internal

/-- Appending a value that no node produces keeps the invariant. -/
theorem Builder.WellFormed.append_value {b b' : Builder} {val : Value} (h : b.WellFormed)
    (hroom : b.values.length < hbiGraphMaxValues) (hnodes : b'.nodes = b.nodes)
    (hvalues : b'.values = b.values ++ [val]) (hfresh : val.Fresh b.values.length none) :
    b'.WellFormed := by
  have hblock : FreshBlock b.values.length none [val] :=
    FreshBlock.cons hfresh (FreshBlock.nil _ _)
  have hvalue := fun (v : Nat) (w : Value) (hw : b'.values[v]? = some w) =>
    h.value_append hblock (hvalues ▸ hw)
  have hprod : ∀ v p, producerOf b'.values v = some p ↔ producerOf b.values v = some p := by
    intro v p
    rw [hvalues, producerOf_append_iff hblock]
    simp
  have hlen : b'.values.length = b.values.length + 1 := by simp [hvalues]
  refine ⟨hnodes ▸ h.nodes_le, by omega, fun v w hw => (hvalue v w hw).1, hnodes ▸ h.node_id,
    hnodes ▸ h.inputs_le, ?_, ?_, ?_, hnodes ▸ h.outputs_nodup, hnodes ▸ h.outputs_le,
    fun v w hw => (hvalue v w hw).2.1, fun v w hw => (hvalue v w hw).2.2⟩
  · intro i node hnode v hv
    have := h.inputs_lt i node (hnodes ▸ hnode) v hv
    omega
  · intro i node hnode v hv p hp
    exact h.inputs_before i node (hnodes ▸ hnode) v hv p ((hprod v p).mp hp)
  · intro v p
    rw [hprod, hnodes]
    exact h.producer_iff v p

/-- Appending a node together with the values it produces keeps the invariant. -/
theorem Builder.WellFormed.append_node {b b' : Builder} {node : Node} {news : List Value}
    (h : b.WellFormed) (hroom : b.nodes.length < hbiGraphMaxNodes)
    (hvalues_le : b'.values.length ≤ hbiGraphMaxValues)
    (hnodes : b'.nodes = b.nodes ++ [node]) (hvalues : b'.values = b.values ++ news)
    (hid : node.id = b.nodes.length) (hin : node.inputs.length ≤ hbiKernelMaxInputs)
    (hout : node.outputs.length ≤ hbiKernelMaxOutputs)
    (hlt : ∀ v ∈ node.inputs, v < b.values.length)
    (houts : node.outputs = List.range' b.values.length news.length)
    (hblock : FreshBlock b.values.length (some b.nodes.length) news) : b'.WellFormed := by
  have hvalue := fun (v : Nat) (w : Value) (hw : b'.values[v]? = some w) =>
    h.value_append hblock (hvalues ▸ hw)
  have hgetn : ∀ (i : Nat) (n : Node), b'.nodes[i]? = some n →
      b.nodes[i]? = some n ∨ i = b.nodes.length ∧ n = node := by
    intro i n hn
    rw [hnodes] at hn
    rcases getElem?_append_cases hn with hold | ⟨k, rfl, hnew⟩
    · exact Or.inl hold
    · cases k with
      | zero => exact Or.inr ⟨rfl, by simpa using hnew.symm⟩
      | succ k => simp at hnew
  have hprod : ∀ v p, producerOf b'.values v = some p ↔ producerOf b.values v = some p ∨
      b.nodes.length = p ∧ v ∈ node.outputs := by
    intro v p
    rw [hvalues, producerOf_append_iff hblock, houts, List.mem_range'_1]
    simp
  have hlen : b.values.length ≤ b'.values.length := by simp [hvalues]
  refine ⟨?_, hvalues_le, fun v w hw => (hvalue v w hw).1, ?_, ?_, ?_, ?_, ?_, ?_, ?_,
    fun v w hw => (hvalue v w hw).2.1, fun v w hw => (hvalue v w hw).2.2⟩
  · simp only [hnodes, List.length_append, List.length_cons, List.length_nil]
    omega
  · intro i n hn
    rcases hgetn i n hn with hold | ⟨rfl, rfl⟩
    · exact h.node_id i n hold
    · exact hid
  · intro i n hn
    rcases hgetn i n hn with hold | ⟨rfl, rfl⟩
    · exact h.inputs_le i n hold
    · exact hin
  · intro i n hn v hv
    rcases hgetn i n hn with hold | ⟨rfl, rfl⟩
    · exact (h.inputs_lt i n hold v hv).trans_le hlen
    · exact (hlt v hv).trans_le hlen
  · intro i n hn v hv p hp
    rcases hgetn i n hn with hold | ⟨rfl, rfl⟩
    · have hvlt := h.inputs_lt i n hold v hv
      rw [hvalues, producerOf_append_left hvlt] at hp
      exact h.inputs_before i n hold v hv p hp
    · rw [hvalues, producerOf_append_left (hlt v hv)] at hp
      exact h.producer_lt hp
  · intro v p
    rw [hprod, h.producer_iff]
    constructor
    · rintro (⟨n, hn, hv⟩ | ⟨rfl, hv⟩)
      · refine ⟨n, ?_, hv⟩
        rw [hnodes, List.getElem?_append_left (List.getElem?_eq_some_iff.mp hn).1]
        exact hn
      · exact ⟨node, by simp [hnodes], hv⟩
    · rintro ⟨n, hn, hv⟩
      rcases hgetn p n hn with hold | ⟨rfl, rfl⟩
      · exact Or.inl ⟨n, hold, hv⟩
      · exact Or.inr ⟨rfl, hv⟩
  · intro i n hn
    rcases hgetn i n hn with hold | ⟨rfl, rfl⟩
    · exact h.outputs_nodup i n hold
    · rw [houts]
      exact List.nodup_range'
  · intro i n hn
    rcases hgetn i n hn with hold | ⟨rfl, rfl⟩
    · exact h.outputs_le i n hold
    · exact hout

/-- Every builder reached by successful calls is well formed. -/
theorem Builder.Reached.wellFormed {b : Builder} (h : b.Reached) : b.WellFormed := by
  induction h with
  | create memory => exact Builder.WellFormed.create memory
  | input hb h ih =>
      simp only [hbiGraphAddInput, Result.ite_errSet_eq_ok] at h
      obtain ⟨hlt, rfl, hnodes, val, hvalues, hfresh⟩ := addValue_eq_ok (by simp) (by simp) h.2
      exact ih.append_value hlt hnodes hvalues hfresh
  | constant hb h ih =>
      obtain ⟨hlt, rfl, hnodes, val, hvalues, hfresh⟩ := addValue_eq_ok (by simp) (by simp) h
      exact ih.append_value hlt hnodes hvalues hfresh
  | node hb h ih =>
      obtain ⟨hin, hout, hroom, hlt, hle, node, news, hnodes, hvalues, hid, rfl, rfl, houts,
        hblock⟩ := hbiGraphAddNode_eq_ok h
      exact ih.append_node hroom (hle ih.values_le) hnodes hvalues hid hin hout hlt houts hblock

/-- The record of a value that was added has its producer. -/
theorem Builder.producerAt_of_lt {b : Builder} {v : Nat} (h : v < b.values.length) :
    b.producerAt v = some (producerOf b.values v) := by
  unfold Builder.producerAt producerOf
  rw [List.getElem?_eq_getElem h]
  rfl

/-- When every producer is finished, the loop over the inputs changes nothing. -/
theorem topoInputs_of_finished {b : Builder} {fuel : Nat} {inputs : List Nat} {s : TopoState}
    (hlt : ∀ v ∈ inputs, v < b.values.length)
    (h : ∀ v ∈ inputs, ∀ p, producerOf b.values v = some p →
      p < b.nodes.length ∧ s.visited.getD p 0 = 2) :
    topoInputs b (topoVisit b (fuel + 1)) inputs s = some (.ok s) := by
  induction inputs with
  | nil => rfl
  | cons v rest ih =>
      have hrest := ih (fun w hw => hlt w (by simp [hw])) fun w hw => h w (by simp [hw])
      rw [topoInputs, Builder.producerAt_of_lt (hlt v (by simp))]
      cases hp : producerOf b.values v with
      | none => exact hrest
      | some p =>
          obtain ⟨hnode, hdone⟩ := h v (by simp) p hp
          have hvisit : topoVisit b (fuel + 1) p s = some (.ok s) := by
            rw [topoVisit, if_neg (by omega), if_neg (by omega), if_pos hdone]
          simp only [hvisit]
          exact hrest

/-- The state of the visit after the first `k` of `n` nodes. -/
def topoPrefix (n k : Nat) : TopoState :=
  ⟨List.replicate k 2 ++ List.replicate (n - k) 0, List.range k⟩

private theorem topoPrefix_visited {n k i : Nat} :
    (topoPrefix n k).visited.getD i 0 = if i < k then 2 else 0 := by
  unfold topoPrefix
  rw [List.getD_eq_getElem?_getD, List.getElem?_append]
  by_cases hi : i < k
  · simp [hi]
  · by_cases hin : i - k < n - k
    · simp [hi, hin]
    · simp [hi, hin]

private theorem set_block {n k x y : Nat} :
    (List.replicate k 2 ++ x :: List.replicate (n - (k + 1)) 0).set k y =
      List.replicate k 2 ++ y :: List.replicate (n - (k + 1)) 0 := by
  rw [List.set_append_right _ _ (by simp)]
  simp

/-- One node of the outer loop: its inputs are finished, so it is appended. -/
theorem topoVisit_initial {b : Builder} {fuel k : Nat} (h : b.WellFormed)
    (hk : k < b.nodes.length) :
    topoVisit b (fuel + 2) k (topoPrefix b.nodes.length k) =
      some (.ok (topoPrefix b.nodes.length (k + 1))) := by
  have hnew : (topoPrefix b.nodes.length k).visited.getD k 0 = 0 := by
    rw [topoPrefix_visited, if_neg (lt_irrefl k)]
  have hsplit : List.replicate (b.nodes.length - k) 0 =
      0 :: List.replicate (b.nodes.length - (k + 1)) 0 := by
    rw [show b.nodes.length - k = (b.nodes.length - (k + 1)) + 1 by omega, List.replicate_succ]
  have hnode : b.nodes[k]? = some b.nodes[k] := List.getElem?_eq_getElem hk
  have hinputs : ∀ s, s = { topoPrefix b.nodes.length k with
        visited := (topoPrefix b.nodes.length k).visited.set k 1 } →
      topoInputs b (topoVisit b (fuel + 1)) b.nodes[k].inputs s = some (.ok s) := by
    rintro s rfl
    apply topoInputs_of_finished (h.inputs_lt k _ hnode)
    intro v hv p hp
    have hlt := h.inputs_before k _ hnode v hv p hp
    have hne : k ≠ p := by omega
    refine ⟨by omega, ?_⟩
    rw [List.getD_eq_getElem?_getD, List.getElem?_set_ne hne, ← List.getD_eq_getElem?_getD,
      topoPrefix_visited, if_pos hlt]
  rw [topoVisit, if_neg (by omega)]
  simp only [hnew, hnode, Option.map_some, Option.getD_some, hinputs _ rfl]
  simp only [topoPrefix, hsplit, set_block, List.range_succ]
  simp [List.replicate_succ', List.append_assoc]

theorem topoAll_initial {b : Builder} {fuel k : Nat} (h : b.WellFormed)
    (hk : k ≤ b.nodes.length) :
    topoAll b (fuel + 2) (List.range' k (b.nodes.length - k)) (topoPrefix b.nodes.length k) =
      some (.ok (topoPrefix b.nodes.length b.nodes.length)) := by
  obtain ⟨m, hm⟩ := Nat.exists_eq_add_of_le hk
  induction m generalizing k with
  | zero =>
      have hkn : b.nodes.length = k := hm
      rw [hkn, Nat.sub_self]
      rfl
  | succ m ih =>
      have hlt : k < b.nodes.length := by omega
      have hnew : (topoPrefix b.nodes.length k).visited.getD k 0 = 0 := by
        rw [topoPrefix_visited, if_neg (lt_irrefl k)]
      rw [show b.nodes.length - k = (b.nodes.length - (k + 1)) + 1 by omega, List.range'_succ,
        topoAll, if_pos hnew, topoVisit_initial h hlt]
      exact ih (by omega) (by omega)

/-- The graph a builder is finished to: its nodes in the order they were added. -/
def Builder.finished (b : Builder) : Graph :=
  ⟨b.nodes, b.values, List.range b.nodes.length⟩

@[simp]
theorem Builder.finished_nodes (b : Builder) : b.finished.nodes = b.nodes := rfl

@[simp]
theorem Builder.finished_values (b : Builder) : b.finished.values = b.values := rfl

@[simp]
theorem Builder.finished_executionOrder (b : Builder) :
    b.finished.executionOrder = List.range b.nodes.length := rfl

/-- Building a well-formed builder succeeds, and the execution order is the order
in which the nodes were added. -/
theorem Builder.WellFormed.build {b : Builder} (h : b.WellFormed) {fuel : Nat}
    (hfuel : 2 ≤ fuel) :
    hbiGraphBuild fuel b = some (.ok b.finished) := by
  obtain ⟨m, rfl⟩ := Nat.exists_eq_add_of_le hfuel
  have hall := @topoAll_initial b m 0 h (Nat.zero_le _)
  simp only [topoPrefix, Nat.sub_zero, List.replicate_zero, List.nil_append, List.range_zero,
    Nat.sub_self, List.append_nil] at hall
  unfold hbiGraphBuild
  rw [List.range_eq_range', Nat.add_comm 2 m, hall]
  rfl

/-- A graph that `hbi_graph_build` returns for a builder all of whose calls
succeeded. -/
def Graph.Built (g : Graph) : Prop :=
  ∃ b : Builder, b.Reached ∧ ∃ least, ∀ fuel ≥ least, hbiGraphBuild fuel b = some (.ok g)

theorem Graph.Built.exists_reached {g : Graph} (h : g.Built) :
    ∃ b : Builder, b.Reached ∧ g = b.finished := by
  obtain ⟨b, hb, least, hbuild⟩ := h
  refine ⟨b, hb, ?_⟩
  have hrun := hbuild (least + 2) (by omega)
  rw [hb.wellFormed.build (by omega)] at hrun
  exact (Except.ok.inj (Option.some.inj hrun)).symm

theorem Graph.Built.exists_builder {g : Graph} (h : g.Built) :
    ∃ b : Builder, b.WellFormed ∧ g = b.finished := by
  obtain ⟨b, hb, hg⟩ := h.exists_reached
  exact ⟨b, hb.wellFormed, hg⟩

theorem Builder.Reached.built {b : Builder} (h : b.Reached) : b.finished.Built :=
  ⟨b, h, 2, fun _ hfuel => h.wellFormed.build hfuel⟩

end Hummingbird

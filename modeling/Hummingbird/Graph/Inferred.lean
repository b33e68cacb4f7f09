import Hummingbird.Graph.Invariant

/-!
What the builder infers. Every output of a node was given the shape and the dtype that
inference answers for the node's operation, its parameters and the values it reads.
-/

namespace Hummingbird

/-- The values that a node reads, as the table holds them. -/
def readValues (values : List Value) (inputs : List Nat) : List Value :=
  inputs.filterMap (values[·]?)

theorem readValues_append {values news : List Value} {inputs : List Nat}
    (h : ∀ v ∈ inputs, v < values.length) :
    readValues (values ++ news) inputs = readValues values inputs := by
  apply List.filterMap_congr
  intro v hv
  exact List.getElem?_append_left (h v hv)

/-- The output loop gives every value what inference answers. -/
theorem addOutputs_inferred {node : Node} {vals : List Value} {b b' : Builder} {i remaining : Nat}
    {outs : List Nat} (h : addOutputs node vals b i remaining = (b', .ok outs)) :
    ∃ news, b'.values = b.values ++ news ∧ ∀ val ∈ news,
      inferOutputShape node.op node.params vals = .ok (val.shape, val.dtype) := by
  induction remaining generalizing b i outs with
  | zero =>
      simp only [addOutputs, Prod.mk.injEq] at h
      exact ⟨[], by simp [h.1], by simp⟩
  | succ remaining ih =>
      simp only [addOutputs] at h
      split at h
      · simp [errSet] at h
      · rename_i shape dtype hinfer
        split at h
        · simp at h
        · rename_i b₁ valId hadd
          split at h
          · simp at h
          · rename_i b₂ rest hrest
            simp only [Prod.mk.injEq, Except.ok.injEq] at h
            obtain ⟨rfl, rfl⟩ := h
            obtain ⟨news, hvalues, hnews⟩ := ih hrest
            simp only [addValue, Result.ite_errSet_eq_ok, Except.ok.injEq, Prod.mk.injEq] at hadd
            obtain ⟨-, rfl, rfl⟩ := hadd
            refine ⟨_ :: news, by rw [hvalues, List.append_assoc]; rfl, ?_⟩
            intro val hval
            rcases List.mem_cons.mp hval with rfl | hval
            · exact hinfer
            · exact hnews val hval

/-- Every output of a node is what inference answers for it. -/
def Builder.Inferred (b : Builder) : Prop :=
  ∀ node ∈ b.nodes, ∀ v ∈ node.outputs, ∃ val, b.values[v]? = some val ∧
    inferOutputShape node.op node.params (readValues b.values node.inputs) =
      .ok (val.shape, val.dtype)

/-- Appended values leave what was inferred before as it is. -/
theorem Builder.Inferred.append {b : Builder} (hb : b.WellFormed) (h : b.Inferred)
    (news : List Value) {node : Node} (hnode : node ∈ b.nodes) {v : Nat} (hv : v ∈ node.outputs) :
    ∃ val, (b.values ++ news)[v]? = some val ∧
      inferOutputShape node.op node.params (readValues (b.values ++ news) node.inputs) =
        .ok (val.shape, val.dtype) := by
  obtain ⟨val, hval, hinfer⟩ := h node hnode v hv
  obtain ⟨i, hi⟩ := List.mem_iff_getElem?.mp hnode
  refine ⟨val, ?_, ?_⟩
  · rw [List.getElem?_append_left (List.getElem?_eq_some_iff.mp hval).1]
    exact hval
  · rw [readValues_append (hb.inputs_lt i node hi)]
    exact hinfer

theorem Builder.Inferred.addNode {b b' : Builder} (hb : b.WellFormed) (h : b.Inferred)
    {name : Option String} {op : KernelOp} {params : Option KernelParams} {inputs outs : List Nat}
    {numOutputs : Nat}
    (hadd : hbiGraphAddNode b name op params inputs numOutputs = (b', .ok outs)) :
    b'.Inferred := by
  obtain ⟨-, -, -, hlt, -, node, news, hnodes, hvalues, -, hins, houts, hrange, -⟩ :=
    hbiGraphAddNode_eq_ok hadd
  have hnews : ∀ val ∈ news, inferOutputShape node.op node.params (readValues b.values inputs) =
      .ok (val.shape, val.dtype) := by
    unfold hbiGraphAddNode at hadd
    split at hadd
    · simp [errSet] at hadd
    · split at hadd
      · simp [errSet] at hadd
      · split at hadd
        · simp [errSet] at hadd
        · obtain ⟨news', hvalues', hnews'⟩ := addOutputs_inferred hadd
          obtain ⟨-, -, -, -, hnodes', -⟩ := addOutputs_eq_ok rfl rfl (by simp) hadd
          rw [hvalues] at hvalues'
          rw [hnodes] at hnodes'
          have hnode := List.append_cancel_left hnodes'
          simp only [List.cons.injEq, and_true] at hnode
          rw [List.append_cancel_left hvalues', hnode]
          exact hnews'
  intro node' hnode' v hv
  rw [hvalues]
  rw [hnodes] at hnode'
  rcases List.mem_append.mp hnode' with hnode' | hnode'
  · exact Builder.Inferred.append hb h news hnode' hv
  · rw [List.mem_singleton.mp hnode'] at hv ⊢
    rw [houts, hrange, List.mem_range'_1] at hv
    obtain ⟨k, rfl⟩ := Nat.exists_eq_add_of_le hv.1
    have hk : k < news.length := by omega
    refine ⟨news[k], ?_, ?_⟩
    · rw [List.getElem?_append_right (Nat.le_add_right _ _), Nat.add_sub_cancel_left]
      exact List.getElem?_eq_getElem hk
    · rw [hins, readValues_append hlt]
      exact hnews _ (List.getElem_mem hk)

theorem Builder.Reached.inferred {b : Builder} (h : b.Reached) : b.Inferred := by
  induction h with
  | create memory =>
      intro node hnode
      simp [Builder.create] at hnode
  | input hb hadd ih =>
      simp only [hbiGraphAddInput, addValue, Result.ite_errSet_eq_ok, Except.ok.injEq,
        Prod.mk.injEq] at hadd
      obtain ⟨-, -, rfl, -⟩ := hadd
      exact fun node hnode v hv => ih.append hb.wellFormed _ hnode hv
  | constant hb hadd ih =>
      simp only [hbiGraphAddConstant, addValue, Result.ite_errSet_eq_ok, Except.ok.injEq,
        Prod.mk.injEq] at hadd
      obtain ⟨-, rfl, -⟩ := hadd
      exact fun node hnode v hv => ih.append hb.wellFormed _ hnode hv
  | node hb hadd ih => exact ih.addNode hb.wellFormed hadd

/-- The operations that inference knows, each with what it accepts and answers. -/
inductive Infers (params : KernelParams) : KernelOp → List Value → Shape → Dtype → Prop
  | copy (a : Value) : Infers params .copy [a] a.shape a.dtype
  | cast (a : Value) : Infers params .cast [a] a.shape params.castTarget
  | fill : Infers params .fill [] ⟨[1]⟩ .fp32
  | elementwise {a b : Value} {shape : Shape}
      (h : hbiShapeBroadcast a.shape b.shape = .ok shape) :
      Infers params .elementwise [a, b] shape a.dtype
  | transpose {a : Value} (ha : params.axisA < a.shape.rank) (hb : params.axisB < a.shape.rank) :
      Infers params .transpose [a] ⟨Strided.swapAt a.shape.dims params.axisA params.axisB⟩ a.dtype
  | matmul {a b : Value} (ha : a.shape.rank = 2) (hb : b.shape.rank = 2)
      (hinner : a.shape.dims.getD 1 0 = b.shape.dims.getD 0 0) :
      Infers params .matmul [a, b] ⟨[a.shape.dims.getD 0 0, b.shape.dims.getD 1 0]⟩ a.dtype

theorem infers_of_inferOutputShape {op : KernelOp} {params : KernelParams} {inputs : List Value}
    {shape : Shape} {dtype : Dtype}
    (h : inferOutputShape op params inputs = .ok (shape, dtype)) :
    Infers params op inputs shape dtype := by
  unfold inferOutputShape at h
  split at h
  · cases h
    exact .copy _
  · cases h
    exact .cast _
  · cases h
    exact .fill
  · obtain ⟨shape', hshape, h⟩ := Result.bind_eq_ok.mp h
    cases h
    exact .elementwise hshape
  · obtain ⟨haxes, h⟩ := Result.ite_errSet_eq_ok.mp h
    cases h
    simp only [not_or, not_le, ge_iff_le] at haxes
    exact .transpose haxes.1 haxes.2
  · obtain ⟨hrank, h⟩ := Result.ite_errSet_eq_ok.mp h
    obtain ⟨hinner, h⟩ := Result.ite_errSet_eq_ok.mp h
    cases h
    simp only [not_or, not_not] at hrank hinner
    exact .matmul hrank.1 hrank.2 hinner
  all_goals simp at h

end Hummingbird

import Hummingbird.Executor.Context

/-!
Execution in execution order refines execution with private buffers. The plan keeps
values that are live at the same position apart, a node's outputs are live at its
own position, and so is every earlier value that is still to be read; the caller's
buffers are outside the pool.
-/

namespace Hummingbird

/-- Contexts on which only inputs and constants were bound. -/
inductive ExecContext.Prepared (g : Graph) : ExecContext → Prop
  | create : ExecContext.Prepared g (hbiExecContextCreate g)
  | bind {ctx ctx' v val tensor} (h : ExecContext.Prepared g ctx)
      (hval : g.values[v]? = some val) (hext : val.isExternal = true)
      (hbind : hbiExecContextBind ctx v tensor = .ok ctx') : ExecContext.Prepared g ctx'

theorem ExecContext.Prepared.spec {g : Graph} {ctx : ExecContext} (h : ctx.Prepared g) :
    ctx.graph = g ∧ ctx.values.length = g.values.length ∧
      ∀ (v : Nat) (val : Value), g.values[v]? = some val → val.isExternal = false →
        ctx.tensorOf v = none := by
  induction h with
  | create =>
      refine ⟨rfl, by simp [hbiExecContextCreate], ?_⟩
      intro v val hval hint
      simp only [Value.isExternal, Bool.or_eq_false_iff] at hint
      simp [ExecContext.tensorOf, hbiExecContextCreate, hval, hint.1]
  | @bind ctx ctx' w val tensor h hval hext hbind ih =>
      obtain ⟨hgraph, hlen, hnone⟩ := ih
      simp only [hbiExecContextBind, Result.ite_errSet_eq_ok, Except.ok.injEq] at hbind
      obtain ⟨-, rfl⟩ := hbind
      refine ⟨hgraph, by simpa using hlen, ?_⟩
      intro v val' hval' hint
      have hne : w ≠ v := by
        rintro rfl
        rw [hval] at hval'
        rw [Option.some.inj hval', hint] at hext
        exact Bool.false_ne_true hext
      have hold := hnone v val' hval' hint
      simpa [ExecContext.tensorOf, List.getElem?_set_ne hne] using hold

/-- A context after the internal values were bound: every intermediate value lies at
its allocation in the pool, every other value is as the caller left it. -/
structure ExecContext.Planned (g : Graph) (plan : MemoryPlan) (pool : Int)
    (ctx ctx₀ : ExecContext) : Prop where
  graph_eq : ctx.graph = g
  internal : ∀ (v : Nat) (val : Value), g.values[v]? = some val → val.isExternal = false →
    ∃ a ∈ plan.allocations, a.valueId = v ∧ ∃ t, ctx.tensorOf v = some t ∧
      t.data = pool + a.offset ∧ t.nbytes = a.sizeBytes
  external : ∀ (v : Nat), (∀ val, g.values[v]? = some val → val.isExternal = true) →
    ctx.tensorOf v = ctx₀.tensorOf v

theorem bindInternals_get {g : Graph} {plan : MemoryPlan} {pools : List Int} {i : Nat}
    {states states' : List ValueState} (h : bindInternals g plan pools i states = .ok states') :
    states'.length = states.length ∧
      ∀ (k : Nat) (state : ValueState), states[k]? = some state →
        ∃ state', states'[k]? = some state' ∧
          bindInternal g plan pools (i + k) state = .ok state' := by
  induction states generalizing i states' with
  | nil =>
      cases h
      simp
  | cons state rest ih =>
      simp only [bindInternals, Result.bind_eq_ok, pure, Except.pure, Except.ok.injEq] at h
      obtain ⟨state', hstate, rest', hrest, rfl⟩ := h
      obtain ⟨hlen, hget⟩ := ih hrest
      refine ⟨by simp [hlen], ?_⟩
      intro k s hs
      cases k with
      | zero =>
          simp only [List.getElem?_cons_zero, Option.some.injEq] at hs
          subst hs
          exact ⟨state', by simp, by simpa using hstate⟩
      | succ k =>
          obtain ⟨s', hs', hbind⟩ := hget k s (by simpa using hs)
          refine ⟨s', by simpa using hs', ?_⟩
          rwa [Nat.add_right_comm, Nat.add_assoc] at hbind

/-- The allocation a sound plan returns for an intermediate value. -/
theorem MemoryPlan.Sound.getAllocation {g : Graph} {plan : MemoryPlan} (h : plan.Sound g)
    {v : Nat} {val : Value} (hval : g.values[v]? = some val) :
    (val.isExternal = false → ∃ a ∈ plan.allocations, a.valueId = v ∧
      hbiMemoryPlanGetAllocation plan v = .ok a) ∧
      (val.isExternal = true → ∀ a, hbiMemoryPlanGetAllocation plan v ≠ .ok a) := by
  have hcount := h.each_once v val hval
  constructor
  · intro hint
    rw [hint, if_neg (by simp)] at hcount
    have hmem : v ∈ plan.allocations.map Allocation.valueId :=
      List.count_pos_iff.mp (by omega)
    obtain ⟨a, ha, rfl⟩ := List.mem_map.mp hmem
    cases hfind : plan.allocations.find? (·.valueId = a.valueId) with
    | none =>
        have := List.find?_eq_none.mp hfind a ha
        simp at this
    | some c =>
        have hc := List.find?_some hfind
        simp only [decide_eq_true_eq] at hc
        exact ⟨c, List.mem_of_find?_eq_some hfind, hc,
          by simp only [hbiMemoryPlanGetAllocation, hfind]⟩
  · intro hext a ha
    rw [hext, if_pos rfl] at hcount
    unfold hbiMemoryPlanGetAllocation at ha
    cases hfind : plan.allocations.find? (·.valueId = v) with
    | none =>
        rw [hfind] at ha
        simp at ha
    | some c =>
        have hc := List.find?_some hfind
        simp only [decide_eq_true_eq] at hc
        have hmem : v ∈ plan.allocations.map Allocation.valueId :=
          List.mem_map.mpr ⟨c, List.mem_of_find?_eq_some hfind, hc⟩
        exact List.count_eq_zero.mp hcount hmem

/-- Binding the internal values of a prepared context puts them where the plan says. -/
theorem ExecContext.Prepared.planned {g : Graph} {plan : MemoryPlan} {ctx₀ ctx : ExecContext}
    (h : ctx₀.Prepared g) (hsound : plan.Sound g)
    {pool : AlignedBlock hbiTensorDefaultAlign}
    (halloc : hbiExecContextAllocateInternals ctx₀ plan [pool] = .ok ctx) :
    ctx.Planned g plan pool.addr ctx₀ := by
  obtain ⟨hgraph, hlen, hnone⟩ := h.spec
  simp only [hbiExecContextAllocateInternals, Result.bind_eq_ok, pure, Except.pure,
    Except.ok.injEq, hgraph] at halloc
  obtain ⟨values, hvalues, rfl⟩ := halloc
  obtain ⟨hlen', hget⟩ := bindInternals_get hvalues
  refine ⟨rfl, ?_, ?_⟩
  · intro v val hval hint
    have hvlt : v < ctx₀.values.length := by
      rw [hlen]
      exact (List.getElem?_eq_some_iff.mp hval).1
    have hfree := hnone v val hval hint
    obtain ⟨state', hstate', hbind⟩ := hget v _ (List.getElem?_eq_getElem hvlt)
    obtain ⟨a, ha, hav, haget⟩ := (hsound.getAllocation hval).1 hint
    have htensor : ctx₀.values[v].tensor = none := by
      simpa [ExecContext.tensorOf, List.getElem?_eq_getElem hvlt] using hfree
    rw [Nat.zero_add] at hbind
    simp only [bindInternal, htensor, haget, hbiGraphValueAt, hval] at hbind
    refine ⟨a, ha, hav, ?_⟩
    cases hwrap : hbiTensorWrap val.dtype val.shape
        ((List.map AlignedBlock.addr [pool]).getD a.poolId 0 + a.offset).toNat
        a.sizeBytes with
    | error e =>
        rw [hwrap] at hbind
        simp at hbind
    | ok t =>
        rw [hwrap] at hbind
        simp only [Except.ok.injEq] at hbind
        subst hbind
        obtain ⟨-, -, hdata, hnbytes⟩ := tensorWrapImpl_fields hwrap
        refine ⟨t, by simp [ExecContext.tensorOf, hstate'], ?_, hnbytes⟩
        rw [hdata, (hsound.in_pool a ha).1]
        have := pool.pos
        simp only [List.map_cons, List.map_nil, List.getD_cons_zero]
        omega
  · intro v hext
    by_cases hvlt : v < ctx₀.values.length
    · obtain ⟨state', hstate', hbind⟩ := hget v _ (List.getElem?_eq_getElem hvlt)
      rw [Nat.zero_add] at hbind
      have hvalue : g.values[v]? = some g.values[v] := List.getElem?_eq_getElem (hlen ▸ hvlt)
      have hno := (hsound.getAllocation hvalue).2 (hext _ hvalue)
      have hsame : state' = ctx₀.values[v] := by
        unfold bindInternal at hbind
        split at hbind
        · rename_i alloc v' _ halloc _
          exact absurd halloc (hno alloc)
        · exact (Except.ok.inj hbind).symm
      simp [ExecContext.tensorOf, hstate', hsame, List.getElem?_eq_getElem hvlt]
    · have hge := not_lt.mp hvlt
      simp [ExecContext.tensorOf, List.getElem?_eq_none hge,
        List.getElem?_eq_none (hlen'.symm ▸ hge : values.length ≤ v)]

/-- The buffers of two values have no byte in common. -/
def ExecContext.Apart (ctx : ExecContext) (v w : Nat) : Prop :=
  ∀ t u, ctx.tensorOf v = some t → ctx.tensorOf w = some u → ∀ a, ¬ (t.Covers a ∧ u.Covers a)

/-- A value holds what was written to it. -/
theorem ExecContext.read_write_same (ctx : ExecContext) (m : Memory) (v : Nat) (bs : Bytes) :
    ctx.read (ctx.write m v bs) v = ctx.held v bs := by
  unfold ExecContext.read ExecContext.write ExecContext.held
  cases ctx.tensorOf v with
  | none => rfl
  | some t => simp [readBytes_writeBytes]

/-- A value keeps its contents when a value apart from it is written. -/
theorem ExecContext.read_write_apart {ctx : ExecContext} (m : Memory) (v w : Nat) (bs : Bytes)
    (h : ctx.Apart v w) : ctx.read (ctx.write m w bs) v = ctx.read m v := by
  unfold ExecContext.read ExecContext.write
  cases hw : ctx.tensorOf w with
  | none => rfl
  | some u =>
      cases hv : ctx.tensorOf v with
      | none => rfl
      | some t => simp [readBytes_writeBytes_of_apart (h t u hv hw)]

/-- The caller's buffers are outside the pool. -/
def ExecContext.ClearOf (ctx : ExecContext) (pool : Int) (size : Nat) : Prop :=
  ∀ v t, ctx.tensorOf v = some t → ∀ a, t.Covers a → ¬ (pool ≤ a ∧ a < pool + size)

/-- Nothing is read before it is written when nodes run in the order they were added. -/
theorem Builder.WellFormed.ordered_nodes {b : Builder} (hb : b.WellFormed) :
    BufferReuse.Ordered Node.inputs Node.outputs b.nodes := by
  intro pre x rest hsplit v hv y hy hout
  obtain ⟨d, hd⟩ := List.mem_iff_getElem?.mp hy
  have hx : b.nodes[pre.length]? = some x := by simp [hsplit]
  have hy' : b.nodes[pre.length + d]? = some y := by
    rw [hsplit, List.getElem?_append_right (by omega), Nat.add_sub_cancel_left, hd]
  have hprod := (hb.producer_iff v _).mpr ⟨y, hy', hout⟩
  have := hb.inputs_before _ x hx v hv _ hprod
  omega

section Planned

variable {b : Builder} (hb : b.WellFormed) {plan : MemoryPlan} (hsound : plan.Sound b.finished)
  {pool : Int} {ctx₀ ctx : ExecContext} (hctx : ctx.Planned b.finished plan pool ctx₀)
  (hclear : ctx₀.ClearOf pool (hbiMemoryPlanPoolSize plan 0))

include hb

/-- A value that a node lists as an output is an intermediate value. -/
theorem Builder.WellFormed.output_internal {i : Nat} {node : Node} (hnode : b.nodes[i]? = some node)
    {w : Nat} (hw : w ∈ node.outputs) :
    producerOf b.values w = some i ∧
      ∃ val, b.values[w]? = some val ∧ val.isExternal = false := by
  have hprod := (hb.producer_iff w i).mpr ⟨node, hnode, hw⟩
  refine ⟨hprod, ?_⟩
  have hlt := producerOf_lt hprod
  refine ⟨b.values[w], List.getElem?_eq_getElem hlt, ?_⟩
  have hid : b.values[w].producerNodeId = some i := by
    simpa [producerOf, List.getElem?_eq_getElem hlt] using hprod
  have hconst := hb.produced_internal w _ (List.getElem?_eq_getElem hlt) (by simp [hid])
  simp [Value.isExternal, hconst, hid]

include hsound hctx

/-- The allocation of an output, and that its buffer lies in the pool. -/
theorem Builder.WellFormed.output_tensor {i : Nat} {node : Node} (hnode : b.nodes[i]? = some node)
    {w : Nat} (hw : w ∈ node.outputs) :
    ∃ c ∈ plan.allocations, c.valueId = w ∧ ∃ u, ctx.tensorOf w = some u ∧
      u.data = pool + c.offset ∧ u.nbytes = c.sizeBytes ∧
      ∀ a, u.Covers a → pool ≤ a ∧ a < pool + hbiMemoryPlanPoolSize plan 0 := by
  obtain ⟨hprod, val, hval, hint⟩ := hb.output_internal hnode hw
  obtain ⟨c, hc, hcw, u, hu, hdata, hnbytes⟩ := hctx.internal w val hval hint
  refine ⟨c, hc, hcw, u, hu, hdata, hnbytes, ?_⟩
  intro a ha
  have hin := (hsound.in_pool c hc).2
  obtain ⟨hlo, hhi⟩ := ha
  omega

/-- Two produced values live at one position have buffers apart. -/
theorem Builder.WellFormed.live_apart {v w t : Nat} {i j : Nat} {vnode wnode : Node}
    (hvnode : b.nodes[i]? = some vnode) (hv : v ∈ vnode.outputs)
    (hwnode : b.nodes[j]? = some wnode) (hw : w ∈ wnode.outputs) (hne : v ≠ w)
    (hlive : b.finished.LiveAt v t) (hlive' : b.finished.LiveAt w t) : ctx.Apart v w := by
  obtain ⟨c, hc, rfl, t', ht', hdata, hnbytes, -⟩ := hb.output_tensor hsound hctx hvnode hv
  obtain ⟨d, hd, rfl, u', hu', hdata', hnbytes', -⟩ := hb.output_tensor hsound hctx hwnode hw
  have hapart := hsound.apart c hc d hd hne ⟨t, hlive, hlive'⟩
  intro t u ht hu a ⟨hta, hua⟩
  obtain rfl := Option.some.inj (ht'.symm.trans ht)
  obtain rfl := Option.some.inj (hu'.symm.trans hu)
  unfold Allocation.Apart at hapart
  obtain ⟨hlo, hhi⟩ := hta
  obtain ⟨hlo', hhi'⟩ := hua
  omega

include hclear

/-- An input or a constant keeps its buffer away from every output. -/
theorem Builder.WellFormed.external_apart {i v w : Nat} {node : Node}
    (hnode : b.nodes[i]? = some node) (hw : w ∈ node.outputs)
    (hv : producerOf b.values v = none) : ctx.Apart v w := by
  obtain ⟨c, -, -, u', hu', -, -, hin⟩ := hb.output_tensor hsound hctx hnode hw
  intro t u ht hu a ⟨hta, hua⟩
  obtain rfl := Option.some.inj (hu'.symm.trans hu)
  rw [hctx.external v (by
    intro val hval
    have hnone : val.producerNodeId = none := by
      have hval' : b.values[v]? = some val := hval
      simpa [producerOf, hval'] using hv
    simp [Value.isExternal, hnone])] at ht
  exact hclear v t ht a hta (hin a hua)

/-- What a node writes is apart from every value that it or a later node reads and
that no later node produces. -/
theorem Builder.WellFormed.pending_apart {i j v w : Nat} {node reader : Node}
    (hnode : b.nodes[i]? = some node) (hw : w ∈ node.outputs)
    (hreader : b.nodes[j]? = some reader) (hv : v ∈ reader.inputs) (hij : i ≤ j)
    (hprod : ∀ p, producerOf b.values v = some p → p ≤ i) (hne : v ≠ w) : ctx.Apart v w := by
  cases hp : producerOf b.values v with
  | none => exact hb.external_apart hsound hctx hclear hnode hw hp
  | some p =>
      obtain ⟨vnode, hvnode, hvout⟩ := (hb.producer_iff v p).mp hp
      have horder : ∀ (q : Nat) (node : Node), b.nodes[q]? = some node →
          b.finished.executionOrder[q]? = some q := by
        intro q node hnode
        have hlt := (List.getElem?_eq_some_iff.mp hnode).1
        simp [hlt]
      have hlive : b.finished.LiveAt v i :=
        ⟨p, p, hp, horder p vnode hvnode, hprod p hp,
          Or.inr ⟨j, reader, (b.scheduled_finished j).trans hreader, hv, hij⟩⟩
      have hlive' : b.finished.LiveAt w i :=
        ⟨i, i, (hb.producer_iff w i).mpr ⟨node, hnode, hw⟩, horder i node hnode, le_rfl,
          Or.inl rfl⟩
      exact hb.live_apart hsound hctx hvnode hvout hnode hw hne hlive hlive'

/-- A node never writes where it reads. -/
theorem Builder.WellFormed.operands_apart {i v w : Nat} {node : Node}
    (hnode : b.nodes[i]? = some node) (hv : v ∈ node.inputs) (hw : w ∈ node.outputs) :
    ctx.Apart v w := by
  have hbefore := hb.inputs_before i node hnode v hv
  refine hb.pending_apart hsound hctx hclear hnode hw hnode hv le_rfl
    (fun p hp => (hbefore p hp).le) ?_
  rintro rfl
  exact lt_irrefl i (hbefore i ((hb.producer_iff v i).mpr ⟨node, hnode, hw⟩))

/-- A value still to be read is apart from what a node writes. -/
theorem Builder.WellFormed.clean_nodes :
    BufferReuse.Clean Node.inputs Node.outputs ctx.Apart b.nodes := by
  intro pre x rest hsplit o₁ w o₂ hout v hneeded hvw
  obtain ⟨⟨y, hy, hvy⟩, hlast⟩ := hneeded
  have hw : w ∈ x.outputs := by simp [hout]
  have hne : v ≠ w := fun h => hvw (by simp [h])
  have hx : b.nodes[pre.length]? = some x := by simp [hsplit]
  have hafter : ∀ d : Nat, b.nodes[pre.length + (d + 1)]? = rest[d]? := by
    intro d
    rw [hsplit, List.getElem?_append_right (by omega), Nat.add_sub_cancel_left,
      List.getElem?_cons_succ]
  obtain ⟨d, hd⟩ := List.mem_iff_getElem?.mp hy
  refine hb.pending_apart hsound hctx hclear hx hw ((hafter d).trans hd) hvy (by omega) ?_ hne
  intro p hprod
  by_contra hlt
  obtain ⟨vnode, hvnode, hvout⟩ := (hb.producer_iff v p).mp hprod
  obtain ⟨c, rfl⟩ := Nat.exists_eq_add_of_lt (not_le.mp hlt)
  rw [Nat.add_assoc, hafter] at hvnode
  exact hlast vnode (List.mem_of_getElem? hvnode) hvout

end Planned

/-- Runs over the tensors of a context agree with runs over private buffers when the
steps are ordered and write over nothing that is still needed. -/
theorem ExecContext.run_eq_private {ctx : ExecContext} {steps : List Node}
    (hord : BufferReuse.Ordered Node.inputs Node.outputs steps)
    (hclean : BufferReuse.Clean Node.inputs Node.outputs ctx.Apart steps)
    (sem : Node → List (Option Bytes) → Result (List Bytes)) (m : Memory) :
    BufferReuse.observe
        (BufferReuse.run Node.inputs Node.outputs ctx.read ctx.write sem steps m) =
      BufferReuse.observe (BufferReuse.run Node.inputs Node.outputs (fun s v => s v)
        (BufferReuse.privatePut ctx.held) sem steps (ctx.read m)) :=
  BufferReuse.run_eq_private ctx.read_write_same
    (fun m v w bs h => ExecContext.read_write_apart m v w bs h) hord hclean fun _ _ => rfl

theorem Builder.orderedNodes_finished (b : Builder) : b.finished.orderedNodes = b.nodes := by
  unfold Graph.orderedNodes hbiGraphNodeAt
  rw [b.finished_executionOrder, b.finished_nodes]
  exact filterMap_getElem?_range b.nodes

/-- For every graph the builder finishes, every plan of the planner, every binding of
the graph's inputs outside the pool and every semantics of the kernels: no node
writes where it reads, and each node sees the input bytes, and computes the results,
of the run with private buffers. -/
theorem executor_run_refines_private {g : Graph} (hg : g.Built)
    (hsize : g.roundedBytes < sizeTSize) {qsort : QSort} {fuel : Nat}
    (hfuel : hbiGraphNumValues g < fuel) {plan : MemoryPlan}
    (hplan : hbiMemoryPlannerPlan fuel qsort g = some (.ok plan)) {ctx₀ ctx : ExecContext}
    (hprepared : ctx₀.Prepared g) {pool : AlignedBlock hbiTensorDefaultAlign}
    (hclear : ctx₀.ClearOf pool.addr (hbiMemoryPlanPoolSize plan 0))
    (halloc : hbiExecContextAllocateInternals ctx₀ plan [pool] = .ok ctx)
    (k : Kernels) (m : Memory) :
    (∀ node ∈ g.nodes, ∀ v ∈ node.inputs, ∀ w ∈ node.outputs, ctx.Apart v w) ∧
      BufferReuse.observe (hbiExecutorRun k ctx m) =
        BufferReuse.observe (privateExecutorRun k ctx m) := by
  obtain ⟨b, hb, rfl⟩ := hg.exists_builder
  have hsound := hb.sound_of_plan hsize hfuel hplan
  have hctx := hprepared.planned hsound halloc
  constructor
  · intro node hnode v hv w hw
    obtain ⟨i, hi⟩ := List.mem_iff_getElem?.mp hnode
    exact hb.operands_apart hsound hctx hclear hi hv hw
  unfold hbiExecutorRun privateExecutorRun
  rw [hctx.graph_eq, b.orderedNodes_finished]
  exact ExecContext.run_eq_private hb.ordered_nodes (hb.clean_nodes hsound hctx hclear) _ m

/-- Two inputs, each copied twice. -/
def twoChains : Builder :=
  let b := (hbiGraphAddInput .empty (some "x") ⟨[1]⟩ .int8).toOption.elim .empty Prod.fst
  let b := (hbiGraphAddInput b (some "y") ⟨[1]⟩ .int8).toOption.elim .empty Prod.fst
  let b := (hbiGraphAddNode b none .copy none [0] 1).1
  let b := (hbiGraphAddNode b none .copy none [2] 1).1
  let b := (hbiGraphAddNode b none .copy none [1] 1).1
  (hbiGraphAddNode b none .copy none [4] 1).1

theorem twoChains_reached : twoChains.Reached := by
  have hx := @Builder.Reached.input _ _ (some "x") ⟨[1]⟩ .int8 _ .empty rfl
  have hy := @Builder.Reached.input _ _ (some "y") ⟨[1]⟩ .int8 _ hx rfl
  have ha := @Builder.Reached.node _ _ none .copy none [0] 1 _ hy rfl
  have ha' := @Builder.Reached.node _ _ none .copy none [2] 1 _ ha rfl
  have hb := @Builder.Reached.node _ _ none .copy none [1] 1 _ ha' rfl
  exact @Builder.Reached.node _ _ none .copy none [4] 1 _ hb rfl

/-- One byte of the caller. -/
def callerByte (addr : Int) : Tensor :=
  { dtype := .int8, shape := ⟨[1]⟩, strides := [1], data := addr, nbytes := 1, align := 1,
    ownership := .borrowed, device := .cpu, readOnly := false, contiguous := true,
    quant := QuantMeta.zero }

def chainsBound : ExecContext :=
  let ctx := hbiExecContextCreate twoChains.finished
  let ctx := (hbiExecContextBind ctx 0 (callerByte 4096)).toOption.getD ctx
  (hbiExecContextBind ctx 1 (callerByte 4097)).toOption.getD ctx

theorem chainsBound_prepared : chainsBound.Prepared twoChains.finished := by
  have hx := @ExecContext.Prepared.bind twoChains.finished _ _ 0 _ (callerByte 4096)
    .create rfl rfl rfl
  exact @ExecContext.Prepared.bind twoChains.finished _ _ 1 _ (callerByte 4097) hx rfl rfl rfl

def chainsPool : AlignedBlock hbiTensorDefaultAlign := .line 0

def chainsPlan : MemoryPlan :=
  ((hbiMemoryPlannerPlan 7 insertionQSort twoChains.finished).bind Except.toOption).getD
    (finishMemoryPlan twoChains.finished [] 0)

/-- The context over which the two chains run. -/
def chainsContext : ExecContext :=
  (hbiExecContextAllocateInternals chainsBound chainsPlan [chainsPool]).toOption.getD chainsBound

theorem chainsBound_clear : chainsBound.ClearOf chainsPool.addr 65 := by
  intro v t ht a hcovers hin
  have hdata : 4096 ≤ t.data := by
    match v with
    | 0 | 1 =>
        cases ht
        decide
    | 2 | 3 | 4 | 5 => cases ht
    | n + 6 => cases ht
  have hpool : chainsPool.addr = 64 := rfl
  obtain ⟨hlo, -⟩ := hcovers
  omega

/-- Kernels whose every call copies its operands. -/
def copyKernels : Kernels where
  resolve _ _ := .ok ()
  workspaceSize _ := .ok 0
  run _ read := .ok (read.map fun bs => bs.getD [])

def chainsMemory : Memory := fun a => if a = 4096 then 7 else if a = 4097 then 9 else 0

theorem executor_run_refines_private_two_chains :
    hbiMemoryPlannerPlan 7 insertionQSort twoChains.finished = some (.ok chainsPlan) ∧
      chainsPlan.allocations.map Allocation.offset = [0, 64, 0, 64] ∧
      hbiExecContextAllocateInternals chainsBound chainsPlan [chainsPool] = .ok chainsContext ∧
      BufferReuse.observe (hbiExecutorRun copyKernels chainsContext chainsMemory) =
        BufferReuse.observe (privateExecutorRun copyKernels chainsContext chainsMemory) ∧
      (hbiExecutorRun copyKernels chainsContext chainsMemory).1.map BufferReuse.Event.read =
        [[some [7]], [some [7]], [some [9]], [some [9]]] := by
  have hplan : hbiMemoryPlannerPlan 7 insertionQSort twoChains.finished =
      some (.ok chainsPlan) := rfl
  have halloc : hbiExecContextAllocateInternals chainsBound chainsPlan [chainsPool] =
      .ok chainsContext := rfl
  have hrun := executor_run_refines_private twoChains_reached.built (by decide) (by decide) hplan
    chainsBound_prepared chainsBound_clear halloc copyKernels chainsMemory
  exact ⟨hplan, by decide, halloc, hrun.2, by decide⟩

end Hummingbird

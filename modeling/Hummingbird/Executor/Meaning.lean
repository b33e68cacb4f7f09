import Hummingbird.Runtime.Executor
import Hummingbird.Foundation.Dataflow

/-!
What a graph means and what the executors compute of it. The meaning is the one assignment of
contents to the values that solves the equations of the nodes; both executors compute it
wherever their buffers allow, in different orders. The buffers of the plan are shared, so not
every value keeps its meaning until the end of a run: the planner lets go of a value that no
later node reads.
-/

namespace Hummingbird

/-- An assignment of contents solves the equations of a graph. -/
def Graph.Means (g : Graph) (k : Kernels) (held : Nat → Bytes → Option Bytes)
    (start val : Nat → Option Bytes) : Prop :=
  Dataflow.Solves Node.inputs Node.outputs held k.run g.nodes start val

/-- What `hbi_executor_run` asks for in front of the kernel call of a node. -/
def Kernels.Ready (k : Kernels) (ctx : ExecContext) (n : Node) : Prop :=
  (∀ v ∈ n.inputs, (ctx.tensorOf v).isSome = true) ∧
    (∀ v ∈ n.outputs, (ctx.tensorOf v).isSome = true) ∧ ∃ size, k.workspaceSize n = .ok size

/-- No write after the last one to a value goes over its buffer. -/
def ExecContext.Lasts (ctx : ExecContext) (nodes : List Node) (v : Nat) : Prop :=
  Dataflow.Lasting Node.outputs ctx.Apart nodes v

theorem executorNode_eq_ok {k : Kernels} {ctx : ExecContext} {n : Node}
    {read : List (Option Bytes)} {res : List Bytes} :
    executorNode k ctx n read = .ok res ↔ k.Ready ctx n ∧ k.run n read = .ok res := by
  have hnone : ∀ vs : List Nat, vs.find? (fun v => (ctx.tensorOf v).isNone) = none ↔
      ∀ v ∈ vs, (ctx.tensorOf v).isSome = true := by
    intro vs
    simp [List.find?_eq_none, Option.isSome_iff_ne_none]
  unfold executorNode Kernels.Ready
  cases hin : n.inputs.find? (fun v => (ctx.tensorOf v).isNone) with
  | some v => simp [← hnone, hin]
  | none =>
      cases hout : n.outputs.find? (fun v => (ctx.tensorOf v).isNone) with
      | some v => simp [← hnone, hin, hout]
      | none =>
          cases hsize : k.workspaceSize n with
          | error e => simp [← hnone, hin, hout]
          | ok size => cases hrun : k.run n read <;> simp [← hnone, hin, hout]

theorem runtimeNode_eq_ok {k : Kernels} {ctx : ExecContext} {n : Node}
    {read : List (Option Bytes)} {res : List Bytes} :
    runtimeNode k ctx n read = .ok res ↔
      (∃ u, k.resolve n.op (kernelDtype ctx n) = .ok u) ∧ k.run n read = .ok res := by
  unfold runtimeNode
  cases k.resolve n.op (kernelDtype ctx n) with
  | error e => simp
  | ok u => simp

/-- A guard in front of every step decides whether there is a solution, not which one. -/
theorem solves_guarded_iff {k : Kernels} {sem : Node → List (Option Bytes) → Result (List Bytes)}
    {guard : Node → Prop}
    (hsem : ∀ n read res, sem n read = .ok res ↔ guard n ∧ k.run n read = .ok res)
    {held : Nat → Bytes → Option Bytes} {nodes : List Node} {start val : Nat → Option Bytes} :
    Dataflow.Solves Node.inputs Node.outputs held sem nodes start val ↔
      (∀ n ∈ nodes, guard n) ∧
        Dataflow.Solves Node.inputs Node.outputs held k.run nodes start val := by
  constructor
  · intro h
    refine ⟨?_, h.congr fun n _ read res hres => ((hsem n read res).mp hres).2⟩
    intro n hn
    obtain ⟨res, hres, -⟩ := h.step n hn
    exact ((hsem n _ res).mp hres).1
  · rintro ⟨hguard, h⟩
    exact h.congr fun n hn read res hres => (hsem n read res).mpr ⟨hguard n hn, hres⟩

/-- No value is the output of two nodes, or of one node twice. -/
theorem Builder.WellFormed.outputs_once {b : Builder} (hb : b.WellFormed) :
    (b.nodes.flatMap Node.outputs).Nodup := by
  rw [List.nodup_flatMap]
  constructor
  · intro node hnode
    obtain ⟨i, hi⟩ := List.mem_iff_getElem?.mp hnode
    exact hb.outputs_nodup i node hi
  · rw [List.pairwise_iff_getElem]
    intro i j hi hj hij v hv hv'
    have hvi := (hb.producer_iff v i).mpr ⟨_, List.getElem?_eq_getElem hi, hv⟩
    have hvj := (hb.producer_iff v j).mpr ⟨_, List.getElem?_eq_getElem hj, hv'⟩
    exact hij.ne (Option.some.inj (hvi.symm.trans hvj))

/-- The stages hold every node once. -/
theorem Builder.WellFormed.taskNodes_perm {b : Builder} (hb : b.WellFormed)
    {plan : ExecutionPlan} (hplan : plan.Levelling b.finished) :
    plan.taskNodes.Perm b.nodes := by
  have hself : plan.taskNodes.filterMap (fun x => b.nodes[x.id]?) = plan.taskNodes := by
    rw [List.filterMap_congr fun x hx => hb.mem_taskNodes hplan hx, List.filterMap_some]
  have hids : plan.taskNodes.filterMap (fun x => b.nodes[x.id]?) =
      (plan.stages.flatMap ExecutionStage.tasks).filterMap (b.nodes[·]?) := by
    rw [← hb.taskNodes_ids hplan, List.filterMap_map]
    rfl
  have hrange := hplan.each_once.filterMap (b.nodes[·]?)
  rw [← hids, hself] at hrange
  exact hrange.trans (.of_eq (filterMap_getElem?_range b.nodes))

section Runs

variable {ctx : ExecContext} {k : Kernels} {nodes : List Node}
  {sem : Node → List (Option Bytes) → Result (List Bytes)} {guard : Node → Prop}

/-- A clean run of nodes in some order: it succeeds exactly when the guards let every node
pass and there is a solution, shows every node the solution and leaves it in the values that
last. -/
theorem ExecContext.run_solves
    (hsem : ∀ n read res, sem n read = .ok res ↔ guard n ∧ k.run n read = .ok res)
    (hord : BufferReuse.Ordered Node.inputs Node.outputs nodes)
    (honce : (nodes.flatMap Node.outputs).Nodup)
    (hclean : BufferReuse.Clean Node.inputs Node.outputs ctx.Apart nodes) (m : Memory) :
    ((∃ m', (BufferReuse.run Node.inputs Node.outputs ctx.read ctx.write sem nodes m).2 =
        .ok m') ↔ (∀ n ∈ nodes, guard n) ∧ ∃ val,
          Dataflow.Solves Node.inputs Node.outputs ctx.held k.run nodes (ctx.read m) val) ∧
      ∀ m' val,
        (BufferReuse.run Node.inputs Node.outputs ctx.read ctx.write sem nodes m).2 = .ok m' →
        Dataflow.Solves Node.inputs Node.outputs ctx.held k.run nodes (ctx.read m) val →
        (BufferReuse.run Node.inputs Node.outputs ctx.read ctx.write sem nodes m).1.map
            (fun e => (e.step, e.read)) = nodes.map (fun n => (n, n.inputs.map val)) ∧
          ∀ v, ctx.Lasts nodes v → ctx.read m' v = val v := by
  have hprivate := ExecContext.run_eq_private hord hclean sem m
  have hends := congrArg Prod.snd hprivate
  have hevents := congrArg Prod.fst hprivate
  simp only [BufferReuse.observe] at hends hevents
  constructor
  · constructor
    · rintro ⟨m', hrun⟩
      rw [hrun] at hends
      cases hval : (BufferReuse.run Node.inputs Node.outputs (fun s v => s v)
          (BufferReuse.privatePut ctx.held) sem nodes (ctx.read m)).2 with
      | error e =>
          rw [hval] at hends
          cases hends
      | ok val =>
          obtain ⟨hguard, hsolves⟩ :=
            (solves_guarded_iff hsem).mp (Dataflow.solves_of_run hord honce hval)
          exact ⟨hguard, val, hsolves⟩
    · rintro ⟨hguard, val, hsolves⟩
      have hrun := (((solves_guarded_iff hsem).mpr ⟨hguard, hsolves⟩).run hord honce).1
      rw [hrun] at hends
      cases hend : (BufferReuse.run Node.inputs Node.outputs ctx.read ctx.write sem nodes m).2 with
      | error e =>
          rw [hend] at hends
          cases hends
      | ok m' => exact ⟨m', rfl⟩
  · intro m' val hrun hsolves
    obtain ⟨s', hs', -⟩ := Dataflow.run_lasting ctx.read_write_same
      (fun m v w bs h => ExecContext.read_write_apart m v w bs h) hord hclean
      (fun _ _ => rfl) hrun
    have hguard := ((solves_guarded_iff hsem).mp (Dataflow.solves_of_run hord honce hs')).1
    have hall := (solves_guarded_iff hsem).mpr ⟨hguard, hsolves⟩
    refine ⟨?_, ?_⟩
    · rw [hevents]
      exact (hall.run hord honce).2
    · intro v hv
      exact hall.read_final ctx.read_write_same
        (fun m v w bs h => ExecContext.read_write_apart m v w bs h) hord honce hclean rfl hrun hv

end Runs

section Planned

variable {b : Builder} (hb : b.WellFormed) {plan : MemoryPlan} (hsound : plan.Sound b.finished)
  {pool : Int} {ctx₀ ctx : ExecContext} (hctx : ctx.Planned b.finished plan pool ctx₀)

include hb hsound hctx

/-- Nothing is written over an input or a constant. -/
theorem Builder.WellFormed.external_lasts
    (hclear : ctx₀.ClearOf pool (hbiMemoryPlanPoolSize plan 0)) {v : Nat}
    (hv : producerOf b.values v = none) : ctx.Lasts b.nodes v := by
  intro before w after hsplit _
  have hw : w ∈ b.nodes.flatMap Node.outputs := hsplit ▸ List.mem_append_right _ List.mem_cons_self
  obtain ⟨node, hnode, hw⟩ := List.mem_flatMap.mp hw
  obtain ⟨i, hi⟩ := List.mem_iff_getElem?.mp hnode
  exact hb.external_apart hsound hctx hclear hi hw hv

/-- The outputs of the last node are all there at the end. -/
theorem Builder.WellFormed.last_lasts {nodes : List Node} {last : Node}
    (hnodes : b.nodes = nodes ++ [last]) {v : Nat} (hv : v ∈ last.outputs) :
    ctx.Lasts b.nodes v := by
  have hlast : b.nodes[nodes.length]? = some last := by simp [hnodes]
  have hlive : ∀ u ∈ last.outputs, b.finished.LiveAt u nodes.length := by
    intro u hu
    have horder : b.finished.executionOrder[nodes.length]? = some nodes.length := by
      simp [hnodes]
    exact ⟨nodes.length, nodes.length, (hb.producer_iff u _).mpr ⟨last, hlast, hu⟩, horder,
      le_rfl, Or.inl rfl⟩
  intro before w after hsplit hvw
  have hwlast : w ∈ last.outputs := by
    rw [hnodes, List.flatMap_append, List.flatMap_singleton] at hsplit
    rcases List.append_eq_append_iff.mp hsplit with ⟨mid, rfl, hmid⟩ | ⟨mid, -, hmid⟩
    · exact hmid ▸ List.mem_append_right _ List.mem_cons_self
    · exfalso
      cases mid with
      | nil =>
          rw [List.nil_append] at hmid
          exact hvw (hmid ▸ hv)
      | cons u mid =>
          rw [List.cons_append] at hmid
          obtain ⟨-, hafter⟩ := List.cons.inj hmid
          exact hvw (List.mem_cons_of_mem _ (hafter ▸ List.mem_append_right _ hv))
  exact hb.live_apart hsound hctx hlast hv hlast hwlast (fun heq => hvw (by simp [heq]))
    (hlive v hv) (hlive w hwlast)

/-- The executor over the buffers of a plan. -/
theorem Builder.WellFormed.executor_solves
    (hclear : ctx₀.ClearOf pool (hbiMemoryPlanPoolSize plan 0)) (k : Kernels) (m : Memory) :
    ((∃ m', (hbiExecutorRun k ctx m).2 = .ok m') ↔
      (∀ n ∈ b.nodes, k.Ready ctx n) ∧ ∃ val, b.finished.Means k ctx.held (ctx.read m) val) ∧
    ∀ m' val, (hbiExecutorRun k ctx m).2 = .ok m' →
      b.finished.Means k ctx.held (ctx.read m) val →
      (hbiExecutorRun k ctx m).1.map (fun e => (e.step, e.read)) =
          b.nodes.map (fun n => (n, n.inputs.map val)) ∧
        ∀ v, ctx.Lasts b.nodes v → ctx.read m' v = val v := by
  have hsem : ∀ n read res, executorNode k ctx n read = .ok res ↔
      k.Ready ctx n ∧ k.run n read = .ok res := fun _ _ _ => executorNode_eq_ok
  unfold hbiExecutorRun
  rw [hctx.graph_eq, b.orderedNodes_finished]
  exact ExecContext.run_solves hsem hb.ordered_nodes hb.outputs_once
    (hb.clean_nodes hsound hctx hclear) m

end Planned

/-- The executor of the runtime, where no task writes over what is still to be read. -/
theorem Builder.WellFormed.runtime_solves {b : Builder} (hb : b.WellFormed)
    {plan : ExecutionPlan} (hplan : plan.Levelling b.finished) {ctx : ExecContext}
    (hclean : BufferReuse.Clean Node.inputs Node.outputs ctx.Apart plan.taskNodes)
    (k : Kernels) (m : Memory) :
    ((∃ m', (hbiRuntimeExecutorRun k ctx plan m).2 = .ok m') ↔
      (∀ n ∈ b.nodes, ∃ u, k.resolve n.op (kernelDtype ctx n) = .ok u) ∧
        ∃ val, b.finished.Means k ctx.held (ctx.read m) val) ∧
    ∀ m' val, (hbiRuntimeExecutorRun k ctx plan m).2 = .ok m' →
      b.finished.Means k ctx.held (ctx.read m) val →
      (hbiRuntimeExecutorRun k ctx plan m).1.map (fun e => (e.step, e.read)) =
          plan.taskNodes.map (fun n => (n, n.inputs.map val)) ∧
        ∀ v, ctx.Lasts plan.taskNodes v → ctx.read m' v = val v := by
  have hperm := hb.taskNodes_perm hplan
  have honce := (hperm.flatMap_right Node.outputs).nodup_iff.mpr hb.outputs_once
  have hsem : ∀ n read res, runtimeNode k ctx n read = .ok res ↔
      (∃ u, k.resolve n.op (kernelDtype ctx n) = .ok u) ∧ k.run n read = .ok res :=
    fun _ _ _ => runtimeNode_eq_ok
  obtain ⟨hsucceeds, hfinal⟩ :=
    ExecContext.run_solves hsem (hb.ordered_taskNodes hplan) honce hclean m
  refine ⟨?_, ?_⟩
  · refine hsucceeds.trans (and_congr ?_ ?_)
    · exact forall_congr' fun n => imp_congr_left hperm.mem_iff
    · exact exists_congr fun val => ⟨fun h => h.perm hperm, fun h => h.perm hperm.symm⟩
  · intro m' val hrun hmeans
    exact hfinal m' val hrun (Dataflow.Solves.perm hmeans hperm.symm)

/-- For every graph the builder finishes, every plan of the planner, every binding of the
inputs outside the pool and all kernels: the equations of the graph have one solution at
most, and running the executor succeeds exactly when every operand is there, every workspace
is known and there is a solution. Then each node sees the solution in its inputs, inputs and
constants are as they were, and every value that lasts holds the solution, the outputs of the
last node among them. -/
theorem executor_run_computes_meaning {g : Graph} (hg : g.Built)
    (hsize : g.roundedBytes < sizeTSize) {qsort : QSort} {fuel : Nat}
    (hfuel : hbiGraphNumValues g < fuel) {plan : MemoryPlan}
    (hplan : hbiMemoryPlannerPlan fuel qsort g = some (.ok plan)) {ctx₀ ctx : ExecContext}
    (hprepared : ctx₀.Prepared g) {pool : AlignedBlock hbiTensorDefaultAlign}
    (hclear : ctx₀.ClearOf pool.addr (hbiMemoryPlanPoolSize plan 0))
    (halloc : hbiExecContextAllocateInternals ctx₀ plan [pool] = .ok ctx)
    (k : Kernels) (m : Memory) :
    (∀ val val', g.Means k ctx.held (ctx.read m) val → g.Means k ctx.held (ctx.read m) val' →
      val = val') ∧
    ((∃ m', (hbiExecutorRun k ctx m).2 = .ok m') ↔
      (∀ n ∈ g.nodes, k.Ready ctx n) ∧ ∃ val, g.Means k ctx.held (ctx.read m) val) ∧
    ∀ m' val, (hbiExecutorRun k ctx m).2 = .ok m' → g.Means k ctx.held (ctx.read m) val →
      (hbiExecutorRun k ctx m).1.map (fun e => (e.step, e.read)) =
          g.nodes.map (fun n => (n, n.inputs.map val)) ∧
        (∀ v, producerOf g.values v = none → ctx.read m' v = ctx.read m v) ∧
        (∀ v, ctx.Lasts g.nodes v → ctx.read m' v = val v) ∧
        ∀ nodes last, g.nodes = nodes ++ [last] → ∀ v ∈ last.outputs, ctx.read m' v = val v := by
  obtain ⟨b, hb, rfl⟩ := hg.exists_builder
  have hsound := hb.sound_of_plan hsize hfuel hplan
  have hctx := hprepared.planned hsound halloc
  have hruns := hb.executor_solves hsound hctx hclear k m
  refine ⟨?_, hruns.1, ?_⟩
  · intro val val' h h'
    exact Dataflow.Solves.unique h h' hb.ordered_nodes hb.outputs_once
  · intro m' val hok hmeans
    obtain ⟨hevents, hfinal⟩ := hruns.2 m' val hok hmeans
    refine ⟨hevents, ?_, hfinal, ?_⟩
    · intro v hv
      rw [hfinal v (hb.external_lasts hsound hctx hclear hv)]
      refine hmeans.outside v ?_
      intro node hnode hout
      obtain ⟨i, hi⟩ := List.mem_iff_getElem?.mp hnode
      have hprod := (hb.producer_iff v i).mpr ⟨node, hi, hout⟩
      exact Option.some_ne_none i (hprod.symm.trans hv)
    · intro nodes last hnodes v hv
      exact hfinal v (hb.last_lasts hsound hctx hnodes hv)

theorem twoChains_bound : ∀ n ∈ twoChains.nodes, ∀ v ∈ n.inputs ++ n.outputs,
    (chainsContext.tensorOf v).isSome = true := by decide

/-- The second chain ends in the buffer in which the first one ended. -/
theorem executor_run_computes_meaning_two_chains :
    (∃ m' val, (hbiExecutorRun copyKernels chainsContext chainsMemory).2 = .ok m' ∧
      twoChains.finished.Means copyKernels chainsContext.held
        (chainsContext.read chainsMemory) val ∧
      chainsContext.read m' 5 = val 5) ∧
      (hbiExecutorRun copyKernels chainsContext chainsMemory).1.map
        (fun e => (e.step.id, e.read)) = [(0, [some [7]]), (1, [some [7]]), (2, [some [9]]),
          (3, [some [9]])] := by
  have hplan : hbiMemoryPlannerPlan 7 insertionQSort twoChains.finished =
      some (.ok chainsPlan) := rfl
  have halloc : hbiExecContextAllocateInternals chainsBound chainsPlan [chainsPool] =
      .ok chainsContext := rfl
  obtain ⟨-, hiff, hmeans⟩ := executor_run_computes_meaning twoChains_reached.built (by decide)
    (by decide) hplan chainsBound_prepared chainsBound_clear halloc copyKernels chainsMemory
  refine ⟨?_, by decide⟩
  cases hrun : (hbiExecutorRun copyKernels chainsContext chainsMemory).2 with
  | error e => cases hrun
  | ok m' =>
      obtain ⟨-, val, hval⟩ := hiff.mp ⟨m', hrun⟩
      exact ⟨m', val, rfl, hval,
        (hmeans m' val hrun hval).2.2.2 (twoChains.nodes.take 3) _ rfl 5 (by decide)⟩

/-- Which values still hold their meaning when the executor is done, whatever the kernels
compute: exactly those over which nothing was written after they were. -/
theorem executor_value_survives_iff {g : Graph} (hg : g.Built)
    (hsize : g.roundedBytes < sizeTSize) {qsort : QSort} {fuel : Nat}
    (hfuel : hbiGraphNumValues g < fuel) {plan : MemoryPlan}
    (hplan : hbiMemoryPlannerPlan fuel qsort g = some (.ok plan)) {ctx₀ ctx : ExecContext}
    (hprepared : ctx₀.Prepared g) {pool : AlignedBlock hbiTensorDefaultAlign}
    (hclear : ctx₀.ClearOf pool.addr (hbiMemoryPlanPoolSize plan 0))
    (halloc : hbiExecContextAllocateInternals ctx₀ plan [pool] = .ok ctx)
    (hbound : ∀ n ∈ g.nodes, ∀ v ∈ n.inputs ++ n.outputs, (ctx.tensorOf v).isSome = true)
    (v : Nat) :
    (∀ (k : Kernels) (m m' : Memory) (val : Nat → Option Bytes),
      (hbiExecutorRun k ctx m).2 = .ok m' → g.Means k ctx.held (ctx.read m) val →
      ctx.read m' v = val v) ↔ ctx.Lasts g.nodes v := by
  constructor
  · intro h
    obtain ⟨b, hb, rfl⟩ := hg.exists_builder
    have hctx := hprepared.planned (hb.sound_of_plan hsize hfuel hplan) halloc
    have hlasting : (∀ (sem : Node → List (Option Bytes) → Result (List Bytes)) (m m' : Memory)
        (val : Nat → Option Bytes),
        (BufferReuse.run Node.inputs Node.outputs ctx.read ctx.write sem b.nodes m).2 = .ok m' →
        Dataflow.Solves Node.inputs Node.outputs ctx.held sem b.nodes (ctx.read m) val →
        ctx.read m' v = val v) → ctx.Lasts b.nodes v :=
      Dataflow.lasting_of_read_final (fun v w hne happ => ExecContext.separates hne happ)
        hb.ordered_nodes hb.outputs_once
    refine hlasting ?_
    intro sem m m' val hrun hsolves
    have hsem : ∀ n ∈ b.nodes, ∀ read res, sem n read = .ok res →
        executorNode ⟨fun _ _ => .ok (), fun _ => .ok 0, sem⟩ ctx n read = .ok res := by
      intro n hn read res hres
      refine executorNode_eq_ok.mpr ⟨⟨?_, ?_, 0, rfl⟩, hres⟩
      · exact fun v hv => hbound n hn v (List.mem_append_left _ hv)
      · exact fun v hv => hbound n hn v (List.mem_append_right _ hv)
    refine h ⟨fun _ _ => .ok (), fun _ => .ok 0, sem⟩ m m' val ?_ hsolves
    unfold hbiExecutorRun
    rw [hctx.graph_eq, b.orderedNodes_finished]
    exact Dataflow.run_ok_congr hsem hrun
  · obtain ⟨b, hb, rfl⟩ := hg.exists_builder
    have hsound := hb.sound_of_plan hsize hfuel hplan
    intro hv k m m' val hrun hmeans
    exact ((hb.executor_solves hsound (hprepared.planned hsound halloc) hclear k m).2
      m' val hrun hmeans).2 v hv

/-- The end of the first chain is lost, since no node reads it; that of the second is not. -/
theorem executor_value_survives_iff_two_chains :
    ¬ (∀ (k : Kernels) (m m' : Memory) (val : Nat → Option Bytes),
      (hbiExecutorRun k chainsContext m).2 = .ok m' →
      twoChains.finished.Means k chainsContext.held (chainsContext.read m) val →
      chainsContext.read m' 3 = val 3) := by
  have hplan : hbiMemoryPlannerPlan 7 insertionQSort twoChains.finished =
      some (.ok chainsPlan) := rfl
  have halloc : hbiExecContextAllocateInternals chainsBound chainsPlan [chainsPool] =
      .ok chainsContext := rfl
  rw [executor_value_survives_iff twoChains_reached.built (by decide) (by decide) hplan
    chainsBound_prepared chainsBound_clear halloc twoChains_bound]
  intro hlasts
  have hshared : chainsContext.Apart 3 5 := hlasts [2, 3, 4] 5 [] rfl (by decide)
  exact hshared _ _ rfl rfl (chainsPool.addr + 64) (by decide)

/-- A value that no node outputs has no producer. -/
theorem Builder.WellFormed.producer_eq_none_of {b : Builder} (hb : b.WellFormed) {v : Nat}
    (hv : ∀ n ∈ b.nodes, v ∉ n.outputs) : producerOf b.values v = none := by
  cases hprod : producerOf b.values v with
  | none => rfl
  | some p =>
      obtain ⟨node, hnode, hout⟩ := (hb.producer_iff v p).mp hprod
      exact absurd hout (hv node (List.mem_of_getElem? hnode))

/-- Both executors compute the same: from the same inputs and constants, the executor over the
buffers of a plan and that of the runtime over buffers in which no task writes over what is
still to be read succeed together, and they leave the same contents in every value that lasts
with both. What they call for a node has to be one function, whichever way it was found. -/
theorem executors_agree {g : Graph} (hg : g.Built) (hsize : g.roundedBytes < sizeTSize)
    {qsort : QSort} {fuel : Nat} (hfuel : hbiGraphNumValues g < fuel) {plan : MemoryPlan}
    (hplan : hbiMemoryPlannerPlan fuel qsort g = some (.ok plan)) {ctx₀ ctx : ExecContext}
    (hprepared : ctx₀.Prepared g) {pool : AlignedBlock hbiTensorDefaultAlign}
    (hclear : ctx₀.ClearOf pool.addr (hbiMemoryPlanPoolSize plan 0))
    (halloc : hbiExecContextAllocateInternals ctx₀ plan [pool] = .ok ctx) {fuel' : Nat}
    (hfuel' : hbiGraphNumNodes g < fuel') {schedule : ExecutionPlan}
    (hschedule : hbiSchedulerCreatePlan fuel' g = some (.ok schedule)) {rtctx : ExecContext}
    (hclean : BufferReuse.Clean Node.inputs Node.outputs rtctx.Apart schedule.taskNodes)
    (hheld : rtctx.held = ctx.held) {k rtk : Kernels} {m rtm : Memory}
    (hstart : ∀ v, producerOf g.values v = none → rtctx.read rtm v = ctx.read m v)
    (hready : ∀ n ∈ g.nodes, k.Ready ctx n)
    (hresolve : ∀ n ∈ g.nodes, ∃ u, rtk.resolve n.op (kernelDtype rtctx n) = .ok u)
    (hsame : ∀ n ∈ g.nodes, rtk.run n = k.run n) :
    ((∃ m', (hbiExecutorRun k ctx m).2 = .ok m') ↔
      ∃ rtm', (hbiRuntimeExecutorRun rtk rtctx schedule rtm).2 = .ok rtm') ∧
    ∀ m' rtm', (hbiExecutorRun k ctx m).2 = .ok m' →
      (hbiRuntimeExecutorRun rtk rtctx schedule rtm).2 = .ok rtm' →
      ∀ v, ctx.Lasts g.nodes v → rtctx.Lasts schedule.taskNodes v →
        ctx.read m' v = rtctx.read rtm' v := by
  obtain ⟨b, hb, rfl⟩ := hg.exists_builder
  have hsound := hb.sound_of_plan hsize hfuel hplan
  obtain ⟨hruns, hfinal⟩ :=
    hb.executor_solves hsound (hprepared.planned hsound halloc) hclear k m
  obtain ⟨hrtruns, hrtfinal⟩ :=
    hb.runtime_solves (hb.sized.levelling_of_plan hfuel' hschedule) hclean rtk rtm
  have hmeans : ∀ val, b.finished.Means k ctx.held (ctx.read m) val ↔
      b.finished.Means rtk rtctx.held (rtctx.read rtm) val := by
    intro val
    rw [hheld]
    constructor
    · intro h
      have hrt : b.finished.Means rtk ctx.held (ctx.read m) val :=
        h.congr fun n hn read res hres => (congrFun (hsame n hn) read).trans hres
      exact hrt.of_start fun v hv => (hstart v (hb.producer_eq_none_of hv)).symm
    · intro h
      have hk : b.finished.Means k ctx.held (rtctx.read rtm) val :=
        h.congr fun n hn read res hres => (congrFun (hsame n hn) read).symm.trans hres
      exact hk.of_start fun v hv => hstart v (hb.producer_eq_none_of hv)
  refine ⟨?_, ?_⟩
  · rw [hruns, hrtruns]
    simp only [hmeans]
    exact ⟨fun h => ⟨hresolve, h.2⟩, fun h => ⟨hready, h.2⟩⟩
  · intro m' rtm' hrun hrtrun v hv hrtv
    obtain ⟨-, val, hval⟩ := hruns.mp ⟨m', hrun⟩
    exact ((hfinal m' val hrun hval).2 v hv).trans
      ((hrtfinal rtm' val hrtrun ((hmeans val).mp hval)).2 v hrtv).symm

/-- A buffer of its own for every value of the two chains. -/
def chainsApart : ExecContext where
  graph := twoChains.finished
  values := (List.range 6).map fun v => ⟨some (callerByte (8192 + v)), false⟩
  pools := []

/-- Finds copies of bytes only, and gives them no workspace. -/
def byteCopies : Kernels where
  resolve op dtype := if op = .copy ∧ dtype = .int8 then .ok () else errSet .unsupported "no kernel"
  workspaceSize _ := .ok 0
  run _ read := .ok (read.map fun bs => bs.getD [])

def apartMemory : Memory := fun a => if a = 8192 then 7 else if a = 8193 then 9 else 0

theorem chainsApart_tensorOf {v : Nat} {t : Tensor} (h : chainsApart.tensorOf v = some t) :
    t = callerByte (8192 + v) := by
  match v with
  | 0 | 1 | 2 | 3 | 4 | 5 =>
      cases h
      rfl
  | n + 6 => cases h

theorem chainsApart_apart {v w : Nat} (h : v ≠ w) : chainsApart.Apart v w := by
  rintro t u ht hu a ⟨ht', hu'⟩
  rw [chainsApart_tensorOf ht] at ht'
  rw [chainsApart_tensorOf hu] at hu'
  simp only [Tensor.Covers, callerByte] at ht' hu'
  omega

/-- The plan's buffers in the order of the nodes, and buffers of their own in the order of the
stages, which takes the first copies of both chains before the second ones. -/
theorem executors_agree_two_chains :
    chainsSchedule.taskNodes.map Node.id = [0, 2, 1, 3] ∧
      ∃ m' rtm', (hbiExecutorRun copyKernels chainsContext chainsMemory).2 = .ok m' ∧
        (hbiRuntimeExecutorRun byteCopies chainsApart chainsSchedule apartMemory).2 = .ok rtm' ∧
        chainsContext.read m' 5 = chainsApart.read rtm' 5 := by
  have hplan : hbiMemoryPlannerPlan 7 insertionQSort twoChains.finished =
      some (.ok chainsPlan) := rfl
  have halloc : hbiExecContextAllocateInternals chainsBound chainsPlan [chainsPool] =
      .ok chainsContext := rfl
  have hschedule : hbiSchedulerCreatePlan 5 twoChains.finished =
      some (.ok chainsSchedule) := rfl
  have hb := twoChains_reached.wellFormed
  have hsound := hb.sound_of_plan (by decide) (by decide) hplan
  have hheld : chainsApart.held = chainsContext.held := by
    funext v
    match v with
    | 0 | 1 | 2 | 3 | 4 | 5 | n + 6 => rfl
  have hstart : ∀ v, producerOf twoChains.values v = none →
      chainsApart.read apartMemory v = chainsContext.read chainsMemory v := by
    intro v hv
    match v with
    | 0 | 1 => decide
    | 2 | 3 | 4 | 5 => cases hv
    | n + 6 => rfl
  have hready : ∀ n ∈ twoChains.nodes, copyKernels.Ready chainsContext n := by
    intro n hn
    refine ⟨?_, ?_, 0, rfl⟩
    · exact fun v hv => twoChains_bound n hn v (List.mem_append_left _ hv)
    · exact fun v hv => twoChains_bound n hn v (List.mem_append_right _ hv)
  have hresolve : ∀ n ∈ twoChains.nodes,
      byteCopies.resolve n.op (kernelDtype chainsApart n) = .ok () := by decide
  have hclean : BufferReuse.Clean Node.inputs Node.outputs chainsApart.Apart
      chainsSchedule.taskNodes := by
    intro pre x rest _ o₁ w o₂ _ v _ hv
    exact chainsApart_apart (List.ne_of_not_mem_cons hv)
  have hlasts : chainsContext.Lasts twoChains.nodes 5 :=
    hb.last_lasts hsound (chainsBound_prepared.planned hsound halloc)
      (show twoChains.nodes = twoChains.nodes.take 3 ++ [_] from rfl) (by decide)
  have hrtlasts : chainsApart.Lasts chainsSchedule.taskNodes 5 := by
    intro before w after _ hv
    exact chainsApart_apart (List.ne_of_not_mem_cons hv)
  obtain ⟨hiff, hread⟩ := executors_agree twoChains_reached.built (by decide) (by decide) hplan
    chainsBound_prepared chainsBound_clear halloc (by decide) hschedule hclean hheld hstart hready
    (fun n hn => ⟨(), hresolve n hn⟩) (fun _ _ => rfl)
  cases hrun : (hbiExecutorRun copyKernels chainsContext chainsMemory).2 with
  | error e => cases hrun
  | ok m' =>
      obtain ⟨rtm', hrtrun⟩ := hiff.mp ⟨m', hrun⟩
      exact ⟨by decide, m', rtm', rfl, hrtrun, hread m' rtm' hrun hrtrun 5 hlasts hrtlasts⟩

end Hummingbird

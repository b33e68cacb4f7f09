import Hummingbird.Executor.Refine
import Hummingbird.Scheduler.Levelling

/-!
The runtime's executor. It walks the stages and tasks of an execution plan instead of
the graph's own order, over the same bound tensors. It does not look whether operands
are bound; a kernel is resolved by operation and by the dtype of the first output.
Blocks of the streaming engine are not part of this: operands are the tensors bound
to the context.
-/

namespace Hummingbird

/-- The dtype that selects the kernel of a node. -/
def kernelDtype (ctx : ExecContext) (n : Node) : Dtype :=
  ((n.outputs.head?.bind ctx.tensorOf).map Tensor.dtype).getD .fp32

/-- What the inner loop of `hbi_runtime_executor_run` does for one task. -/
def runtimeNode (k : Kernels) (ctx : ExecContext) (n : Node) (read : List (Option Bytes)) :
    Result (List Bytes) :=
  match k.resolve n.op (kernelDtype ctx n) with
  | .error e =>
      errSet e.status s!"executor_run: failed to resolve kernel for op {n.op.ctorIdx}"
  | .ok _ => k.run n read

/-- The nodes in the order of the stages and of the tasks in them. -/
def ExecutionPlan.taskNodes (plan : ExecutionPlan) : List Node :=
  plan.stages.flatMap fun stage => stage.tasks.filterMap fun id =>
    (plan.tasks[id]?).bind Task.node

def hbiRuntimeExecutorRun (k : Kernels) (ctx : ExecContext) (plan : ExecutionPlan) (m : Memory) :
    List RunEvent × Result Memory :=
  BufferReuse.run Node.inputs Node.outputs ctx.read ctx.write (runtimeNode k ctx)
    plan.taskNodes m

/-- The same run with a private buffer for every value. -/
def privateRuntimeRun (k : Kernels) (ctx : ExecContext) (plan : ExecutionPlan) (m : Memory) :
    List RunEvent × Result (Nat → Option Bytes) :=
  BufferReuse.run Node.inputs Node.outputs (fun s v => s v)
    (BufferReuse.privatePut ctx.held) (runtimeNode k ctx) plan.taskNodes (ctx.read m)

section Levelling

variable {g : Graph} {plan : ExecutionPlan} (hplan : plan.Levelling g)

include hplan

/-- A task sits in the stage that its number names. -/
theorem ExecutionPlan.Levelling.stage_eq {i k : Nat} {task : Task} {stage : ExecutionStage}
    (htask : plan.tasks[i]? = some task) (hstage : plan.stages[k]? = some stage)
    (hi : i ∈ stage.tasks) : task.executionStage = k := by
  obtain ⟨-, -, -, -, stage', hstage', hi'⟩ := hplan.task_at i task htask
  have hnodup : (plan.stages.flatMap ExecutionStage.tasks).Nodup :=
    hplan.each_once.nodup_iff.mpr List.nodup_range
  have hdisj := (List.nodup_flatMap.mp hnodup).2
  obtain ⟨hlt, rfl⟩ := List.getElem?_eq_some_iff.mp hstage
  obtain ⟨hlt', rfl⟩ := List.getElem?_eq_some_iff.mp hstage'
  rcases lt_trichotomy task.executionStage k with h | h | h
  · exact absurd hi (List.pairwise_iff_getElem.mp hdisj _ _ hlt' hlt h hi')
  · exact h
  · exact absurd hi' (List.pairwise_iff_getElem.mp hdisj _ _ hlt hlt' h hi)

/-- Tasks come in the order of their stages. -/
theorem ExecutionPlan.Levelling.stages_pairwise :
    (plan.stages.flatMap ExecutionStage.tasks).Pairwise fun i j =>
      ∀ s t : Task, plan.tasks[i]? = some s → plan.tasks[j]? = some t →
        s.executionStage ≤ t.executionStage := by
  apply List.pairwise_flatMap.mpr
  constructor
  · intro stage hmem
    obtain ⟨k, hk⟩ := List.mem_iff_getElem?.mp hmem
    apply List.pairwise_of_forall_mem_list
    intro i hi j hj s t hs ht
    rw [hplan.stage_eq hs hk hi, hplan.stage_eq ht hk hj]
  · apply List.pairwise_iff_getElem.mpr
    intro k l hk hl hkl i hi j hj s t hs ht
    rw [hplan.stage_eq hs (List.getElem?_eq_getElem hk) hi,
      hplan.stage_eq ht (List.getElem?_eq_getElem hl) hj]
    exact hkl.le

/-- A dependency does not come at or after the task it is for. -/
theorem ExecutionPlan.Levelling.dep_not_after {pre suf : List Nat} {j d : Nat}
    (hsplit : plan.stages.flatMap ExecutionStage.tasks = pre ++ j :: suf)
    (hd : d ∈ g.deps j) : d ∉ j :: suf := by
  have hj : j < plan.tasks.length := by
    rw [hplan.tasks_length, ← List.mem_range, ← hplan.each_once.mem_iff, hsplit]
    simp
  have htask := List.getElem?_eq_getElem hj
  obtain ⟨-, -, hdeps, -⟩ := hplan.task_at j _ htask
  obtain ⟨dep, hdep, hlt⟩ := hplan.deps_earlier j _ htask d (hdeps ▸ hd)
  intro hmem
  rcases List.mem_cons.mp hmem with rfl | hmem
  · rw [htask] at hdep
    exact absurd hlt (by rw [Option.some.inj hdep]; exact lt_irrefl _)
  · have hpair := hplan.stages_pairwise
    rw [hsplit] at hpair
    have hle := (List.pairwise_cons.mp (List.pairwise_append.mp hpair).2.1).1 d hmem _ _ htask hdep
    omega

end Levelling

section Order

variable {b : Builder} (hb : b.WellFormed) {plan : ExecutionPlan}
  (hplan : plan.Levelling b.finished)

include hb hplan

theorem Builder.WellFormed.mem_taskNodes {x : Node} (hx : x ∈ plan.taskNodes) :
    b.nodes[x.id]? = some x := by
  obtain ⟨stage, -, hx⟩ := List.mem_flatMap.mp hx
  obtain ⟨i, -, hi⟩ := List.mem_filterMap.mp hx
  obtain ⟨task, htask, hnode⟩ := Option.bind_eq_some_iff.mp hi
  obtain ⟨-, hat, -⟩ := hplan.task_at i task htask
  have hget : b.nodes[i]? = some x := (hat.symm.trans hnode :)
  rw [hb.node_id i x hget]
  exact hget

theorem Builder.WellFormed.taskNodes_ids :
    plan.taskNodes.map Node.id = plan.stages.flatMap ExecutionStage.tasks := by
  unfold ExecutionPlan.taskNodes
  rw [List.map_flatMap]
  apply List.flatMap_congr
  intro stage hstage
  have hid : ∀ i ∈ stage.tasks,
      ((plan.tasks[i]?).bind Task.node).map Node.id = some i := by
    intro i hi
    have hlt : i < plan.tasks.length := by
      rw [hplan.tasks_length, ← List.mem_range, ← hplan.each_once.mem_iff]
      exact List.mem_flatMap.mpr ⟨stage, hstage, hi⟩
    have htask := List.getElem?_eq_getElem hlt
    obtain ⟨-, hat, -⟩ := hplan.task_at i _ htask
    have hlt' : i < b.nodes.length := by
      rw [hplan.tasks_length] at hlt
      exact hlt
    have hnode := List.getElem?_eq_getElem hlt'
    rw [htask, Option.bind_some, hat, hbiGraphNodeAt, b.finished_nodes, hnode, Option.map_some,
      hb.node_id i _ hnode]
  rw [List.map_filterMap, List.filterMap_congr hid, List.filterMap_some]

/-- No task reads what itself or a later task writes. -/
theorem Builder.WellFormed.ordered_taskNodes :
    BufferReuse.Ordered Node.inputs Node.outputs plan.taskNodes := by
  intro pre x rest hsplit v hv y hy hout
  have hx : b.nodes[x.id]? = some x := hb.mem_taskNodes hplan (by simp [hsplit])
  have hy' : b.nodes[y.id]? = some y :=
    hb.mem_taskNodes hplan (by rw [hsplit]; exact List.mem_append_right _ hy)
  have hprod := (hb.producer_iff v y.id).mpr ⟨y, hy', hout⟩
  have hids := hb.taskNodes_ids hplan
  rw [hsplit, List.map_append, List.map_cons] at hids
  have hdep : y.id ∈ b.finished.deps x.id := by
    refine List.mem_filterMap.mpr ⟨v, ?_, hprod⟩
    simpa [Graph.inputsAt, hbiGraphNodeAt, hx] using hv
  exact hplan.dep_not_after hids.symm hdep (List.mem_map_of_mem hy)

end Order

/-- Contents of a value that are ones throughout, except for one value. -/
def onesExcept (ctx : ExecContext) (v u : Nat) : Bytes :=
  if u = v then [] else List.replicate (((ctx.tensorOf u).map Tensor.nbytes).getD 0) 1

/-- A byte that is one stays one when ones are written, and becomes one when it is
part of what is written. -/
theorem ExecContext.write_ones {ctx : ExecContext} {v u : Nat} (hne : u ≠ v) {m : Memory} {a : Int}
    (h : m a = 1 ∨ ∃ t, ctx.tensorOf u = some t ∧ t.Covers a) :
    ctx.write m u (onesExcept ctx v u) a = 1 := by
  unfold ExecContext.write onesExcept
  rw [if_neg hne]
  cases hu : ctx.tensorOf u with
  | none => exact h.resolve_right (by simp [hu])
  | some t =>
      by_cases hcovers : t.Covers a
      · have hlt : (a - t.data).toNat < t.nbytes := by
          obtain ⟨hlo, hhi⟩ := hcovers
          omega
        simp [writeBytes, hcovers, hlt]
      · have hm : m a = 1 := by
          apply h.resolve_right
          rintro ⟨t', ht', hcovers'⟩
          rw [hu, Option.some.injEq] at ht'
          exact hcovers (ht' ▸ hcovers')
        simp [writeBytes, hcovers, hm]

/-- A byte that two buffers share tells them from private buffers. -/
theorem ExecContext.separates {ctx : ExecContext} {v w : Nat} (hne : v ≠ w)
    (h : ¬ ctx.Apart v w) : BufferReuse.Separates ctx.read ctx.write ctx.held v w := by
  unfold ExecContext.Apart at h
  push Not at h
  obtain ⟨t, u, ht, hu, a, hta, hua⟩ := h
  have hnil : onesExcept ctx v v = [] := if_pos rfl
  refine ⟨onesExcept ctx v, fun m => m a = 1, fun _ => 0, ?_, ?_, ?_, ?_⟩
  · rw [hnil, ExecContext.read, ExecContext.held, ht]
    simp [readBytes, fitBytes]
  · exact fun m => ExecContext.write_ones hne.symm (Or.inr ⟨u, hu, hua⟩)
  · exact fun m u huv hm => ExecContext.write_ones huv (Or.inl hm)
  · intro m hm heq
    obtain ⟨hlo, hhi⟩ := hta
    rw [hnil, ExecContext.read, ExecContext.held, ht, Option.map_some, Option.map_some] at heq
    have hbytes := List.map_inj_left.mp (Option.some.inj heq) (a - t.data).toNat
      (List.mem_range.mpr (by omega))
    have haddr : t.data + ((a - t.data).toNat : Int) = a := by omega
    rw [haddr, hm] at hbytes
    simp at hbytes

/-- For every graph the builder finishes, every execution plan of it and every
binding of buffers: all kernels, from all memories, see the input bytes of the run with
private buffers exactly when no task writes over a value that a later task reads. -/
theorem runtime_run_refines_private_iff {g : Graph} (hg : g.Built) {fuel : Nat}
    (hfuel : hbiGraphNumNodes g < fuel) {plan : ExecutionPlan}
    (hplan : hbiSchedulerCreatePlan fuel g = some (.ok plan)) (ctx : ExecContext) :
    (∀ (k : Kernels) (m : Memory), BufferReuse.observe (hbiRuntimeExecutorRun k ctx plan m) =
      BufferReuse.observe (privateRuntimeRun k ctx plan m)) ↔
      BufferReuse.Clean Node.inputs Node.outputs ctx.Apart plan.taskNodes := by
  obtain ⟨b, hb, rfl⟩ := hg.exists_builder
  have hord := hb.ordered_taskNodes (hb.sized.levelling_of_plan hfuel hplan)
  rw [← @BufferReuse.run_eq_private_iff_clean Node Bytes (Option Bytes) Failure Memory
    Node.inputs Node.outputs ctx.read ctx.write _ ctx.held ctx.Apart ctx.read_write_same
    (fun m v w bs h => ExecContext.read_write_apart m v w bs h)
    (fun v w hne h => ExecContext.separates hne h) plan.taskNodes hord]
  constructor
  · intro h sem m
    have hsem : runtimeNode ⟨fun _ _ => .ok (), fun _ => .ok 0, sem⟩ ctx = sem := rfl
    have := h ⟨fun _ _ => .ok (), fun _ => .ok 0, sem⟩ m
    unfold hbiRuntimeExecutorRun privateRuntimeRun at this
    rwa [hsem] at this
  · intro h k m
    exact h (runtimeNode k ctx) m

def copyChainPlan : MemoryPlan :=
  ((hbiMemoryPlannerPlan 4 insertionQSort copyChain.finished).bind Except.toOption).getD
    (finishMemoryPlan copyChain.finished [] 0)

def copyChainContext : ExecContext :=
  (hbiExecContextAllocateInternals (hbiExecContextCreate copyChain.finished) copyChainPlan
    [chainsPool]).toOption.getD (hbiExecContextCreate copyChain.finished)

/-- On one chain the stages follow the order of the nodes, and nothing is lost. -/
theorem runtime_run_refines_private_iff_copy_chain :
    ∃ plan, hbiSchedulerCreatePlan 4 copyChain.finished = some (.ok plan) ∧
      plan.taskNodes = copyChain.nodes ∧
      ∀ (k : Kernels) (m : Memory),
        BufferReuse.observe (hbiRuntimeExecutorRun k copyChainContext plan m) =
          BufferReuse.observe (privateRuntimeRun k copyChainContext plan m) := by
  have hplan : hbiSchedulerCreatePlan 4 copyChain.finished = some (.ok _) := rfl
  have hb := copyChain_reached.wellFormed
  have hsound : copyChainPlan.Sound copyChain.finished :=
    @Builder.WellFormed.sound_of_plan _ hb (by decide) insertionQSort 4 (by decide) _ rfl
  have hctx : copyChainContext.Planned copyChain.finished copyChainPlan chainsPool.addr
      (hbiExecContextCreate copyChain.finished) :=
    ExecContext.Prepared.planned .create hsound rfl
  have hclear : (hbiExecContextCreate copyChain.finished).ClearOf chainsPool.addr
      (hbiMemoryPlanPoolSize copyChainPlan 0) := by
    intro v t ht
    match v with
    | 0 | 1 | 2 => cases ht
    | n + 3 => cases ht
  have hiff := runtime_run_refines_private_iff copyChain_reached.built (by decide) hplan
    copyChainContext
  exact ⟨_, hplan, by decide, hiff.mpr (hb.clean_nodes hsound hctx hclear)⟩

def chainsSchedule : ExecutionPlan :=
  ((hbiSchedulerCreatePlan 5 twoChains.finished).bind Except.toOption).getD
    (finishPlan twoChains.finished (kahnInit twoChains.finished))

/-- On two chains the second one begins before the first one has ended: its first copy
goes where the first copy of the other chain is still to be read. -/
theorem runtime_run_overwrites_two_chains :
    twoChains.finished.Built ∧
      hbiMemoryPlannerPlan 7 insertionQSort twoChains.finished = some (.ok chainsPlan) ∧
      hbiExecContextAllocateInternals chainsBound chainsPlan [chainsPool] = .ok chainsContext ∧
      hbiSchedulerCreatePlan 5 twoChains.finished = some (.ok chainsSchedule) ∧
      chainsSchedule.stages.map ExecutionStage.tasks = [[0, 2], [1, 3]] ∧
      (privateRuntimeRun copyKernels chainsContext chainsSchedule chainsMemory).1.map
        BufferReuse.Event.read = [[some [7]], [some [9]], [some [7]], [some [9]]] ∧
      (hbiRuntimeExecutorRun copyKernels chainsContext chainsSchedule chainsMemory).1.map
        BufferReuse.Event.read = [[some [7]], [some [9]], [some [9]], [some [9]]] ∧
      ¬ ∀ (k : Kernels) (m : Memory),
        BufferReuse.observe (hbiRuntimeExecutorRun k chainsContext chainsSchedule m) =
          BufferReuse.observe (privateRuntimeRun k chainsContext chainsSchedule m) := by
  have hprivate : (privateRuntimeRun copyKernels chainsContext chainsSchedule
      chainsMemory).1.map BufferReuse.Event.read =
      [[some [7]], [some [9]], [some [7]], [some [9]]] := by decide
  have hshared : (hbiRuntimeExecutorRun copyKernels chainsContext chainsSchedule
      chainsMemory).1.map BufferReuse.Event.read =
      [[some [7]], [some [9]], [some [9]], [some [9]]] := by decide
  refine ⟨twoChains_reached.built, rfl, rfl, rfl, by decide, hprivate, hshared, ?_⟩
  intro heq
  have hevents := congrArg Prod.fst (heq copyKernels chainsMemory)
  have hreads := congrArg (List.map BufferReuse.Event.read) hevents
  have := hshared.symm.trans (hreads.trans hprivate)
  revert this
  decide

end Hummingbird

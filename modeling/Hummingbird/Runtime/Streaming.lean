import Hummingbird.Runtime.Executor
import Hummingbird.Stream.Await

/-!
The executor over the streaming engine of a session. A session registers the tensors of the
manifest under their places in it; the executor looks blocks up by the numbers of graph
values and lets `hbi_stream_await` write over the tensors of these values. Both count from
zero, and nothing else connects them. No other thread calls the engine of a session, and it
has no I/O pool: the first await of a run fails or does not come back, so that a run makes
one at most.
-/

namespace Hummingbird

/-- `hbi_stream_register_block` by a thread that nobody disturbs. -/
def hbiStreamRegisterBlock (e : StreamEngine) (created : Result Unit) (grows : Bool)
    (d : StreamBlockDesc) : StreamEngine × Result Unit :=
  match created with
  | .error err => (e, .error err)
  | .ok _ => registerSection e grows d

/-- The descriptor that `hbi_runtime_session_create` fills in for an entry. -/
def manifestDesc (handler : Bool) (i : Nat) (entry : TensorEntry) : StreamBlockDesc where
  tensorId := i
  handler := handler
  entry := entry
  dtype := entry.dtype
  shape := entry.shape
  initialStatus := if entry.residency = .resident then .resident else .evicted
  initialTier := if entry.residency = .resident then .ram else .disk

/-- How the platform answers a registration: whether the block with its mutex and condition
could be created, and whether the table could grow. -/
structure RegisterAnswer where
  created : Result Unit
  grows : Bool

/-- The loop of `hbi_runtime_session_create` over the manifest. -/
def registerManifest (answer : Nat → RegisterAnswer) (handler : Bool) :
    StreamEngine → Nat → List TensorEntry → Result StreamEngine
  | e, _, [] => .ok e
  | e, i, entry :: rest =>
      match hbiStreamRegisterBlock e (answer i).created (answer i).grows
        (manifestDesc handler i entry) with
      | (_, .error err) => .error err
      | (e', .ok _) => registerManifest answer handler e' (i + 1) rest

/-- The streaming engine of a session: four gigabytes of RAM and no I/O pool. -/
def sessionEngine (answer : Nat → RegisterAnswer) (handler : Bool) (heap : SysHeap)
    (manifest : List TensorEntry) : Result StreamEngine :=
  registerManifest answer handler (hbiStreamEngineCreate (4 * 1024 * 1024 * 1024) none heap) 0
    manifest

/-- The engines that the thread of a session comes to: its pipeline requests blocks, and its
executor awaits them. -/
inductive SessionReached (answer : Nat → RegisterAnswer) (handler : Bool) (heap : SysHeap)
    (manifest : List TensorEntry) : StreamEngine → Prop
  | created {e : StreamEngine} (h : sessionEngine answer handler heap manifest = .ok e) :
      SessionReached answer handler heap manifest e
  | requested {e e' : StreamEngine} {t steps i : Nat} {env : StreamEnv} {tier : MemoryTier}
      {r : Result (Option Tensor)} (h : SessionReached answer handler heap manifest e)
      (hcall : hbiStreamPrefetch t env steps e i tier = some (e', r)) :
      SessionReached answer handler heap manifest e'
  | awaited {e e' : StreamEngine} {t steps i : Nat} {env : StreamEnv}
      {r : Result (Option Tensor)} (h : SessionReached answer handler heap manifest e)
      (hcall : hbiStreamAwait t env steps e i = some (e', r)) :
      SessionReached answer handler heap manifest e'

/-- A call of `hbi_stream_await`: the value whose tensor it may write over, and the place of
the block in the engine. -/
structure AwaitCall where
  value : Nat
  block : Nat
  deriving DecidableEq, Repr

/-- The tensor of a value is written over in place. -/
def ExecContext.rebind (ctx : ExecContext) (v : Nat) (t : Tensor) : ExecContext :=
  { ctx with values := ctx.values.modify v fun state => { state with tensor := some t } }

/-- The one thread that calls the engine of a session: its number, how the environment answers
it, and how many of its steps every await is watched for. -/
structure LoneThread where
  number : Nat
  env : StreamEnv
  steps : Nat

/-- The loop of `hbi_runtime_executor_run` that awaits the operands of a task: the calls, and
what it leaves if every call came back. -/
def awaitInputs (th : LoneThread) :
    StreamEngine → ExecContext → List Nat →
      List AwaitCall × Option (Result (StreamEngine × ExecContext))
  | e, ctx, [] => ([], some (.ok (e, ctx)))
  | e, ctx, v :: rest =>
      match ctx.tensorOf v, hbiStreamGetBlock e v with
      | some t, some block =>
          match hbiStreamAwait th.number th.env th.steps e block with
          | none => ([⟨v, block⟩], none)
          | some (_, .error err) => ([⟨v, block⟩], some (.error err))
          | some (e', .ok t') =>
              let others := awaitInputs th e' (ctx.rebind v (t'.getD t)) rest
              (⟨v, block⟩ :: others.1, others.2)
      | _, _ => awaitInputs th e ctx rest

/-- The tasks of `hbi_runtime_executor_run`: the operands are awaited, and then the kernel
runs over the tensors that are bound then. -/
def streamingRun (k : Kernels) (th : LoneThread) :
    StreamEngine → ExecContext → List Node → Memory → List AwaitCall × Option (Result Memory)
  | _, _, [], m => ([], some (.ok m))
  | e, ctx, n :: rest, m =>
      match awaitInputs th e ctx (n.inputs.take hbiKernelMaxInputs) with
      | (calls, none) => (calls, none)
      | (calls, some (.error err)) => (calls, some (.error err))
      | (calls, some (.ok (e', ctx'))) =>
          match (BufferReuse.run Node.inputs Node.outputs ctx'.read ctx'.write (runtimeNode k ctx')
            [n] m).2 with
          | .error err => (calls, some (.error err))
          | .ok m' =>
              let others := streamingRun k th e' ctx' rest m'
              (calls ++ others.1, others.2)

section Registered

variable {answer : Nat → RegisterAnswer} {handler : Bool}

theorem registerManifest_blocks {manifest : List TensorEntry} {e e' : StreamEngine} {i : Nat}
    (h : registerManifest answer handler e i manifest = .ok e') :
    e'.blocks = e.blocks ++
      manifest.mapIdx fun k entry => .ofDesc (manifestDesc handler (i + k) entry) := by
  induction manifest generalizing e i with
  | nil =>
      cases h
      simp
  | cons entry rest ih =>
      simp only [registerManifest] at h
      split at h
      · cases h
      · rename_i e₁ u hregister
        have hblocks : e₁.blocks = e.blocks ++ [.ofDesc (manifestDesc handler i entry)] := by
          unfold hbiStreamRegisterBlock at hregister
          split at hregister
          · cases hregister
          · unfold registerSection at hregister
            split at hregister
            · cases hregister
            · cases hregister
              rfl
        rw [ih h, hblocks, List.append_assoc, List.mapIdx_cons]
        simp [Nat.add_assoc, Nat.add_comm 1]

variable {heap : SysHeap} {manifest : List TensorEntry} {e : StreamEngine}

/-- The blocks of a session stand for the tensors of the manifest, under their places. -/
theorem SessionReached.table (h : SessionReached answer handler heap manifest e) :
    e.table = manifest.mapIdx fun k entry => (k, entry) := by
  induction h with
  | created h =>
      unfold StreamEngine.table
      rw [registerManifest_blocks h]
      apply List.ext_getElem
      · simp [hbiStreamEngineCreate]
      · intro k _ hk
        simp [hbiStreamEngineCreate, StreamBlock.ofDesc, manifestDesc]
  | requested _ hcall ih => exact (answeredAlone_table hcall).trans ih
  | awaited _ hcall ih => exact (answeredAlone_table hcall).trans ih

theorem SessionReached.length_blocks (h : SessionReached answer handler heap manifest e) :
    e.blocks.length = manifest.length := by
  have hlength := congrArg List.length h.table
  rwa [StreamEngine.table, List.length_map, List.length_mapIdx] at hlength

theorem SessionReached.block (h : SessionReached answer handler heap manifest e) {k : Nat}
    (hk : k < e.blocks.length) :
    (e.blocks[k]).tensorId = k ∧ manifest[k]? = some (e.blocks[k]).entry := by
  have hrow := congrArg (·[k]?) h.table
  have hk' : k < manifest.length := h.length_blocks ▸ hk
  simp only [StreamEngine.table, List.getElem?_map, List.getElem?_mapIdx,
    List.getElem?_eq_getElem hk, List.getElem?_eq_getElem hk', Option.map_some, Option.some.injEq,
    Prod.mk.injEq] at hrow
  exact ⟨hrow.1, by rw [List.getElem?_eq_getElem hk', hrow.2]⟩

/-- The block at a place of the manifest is found under that number, and no other one. -/
theorem SessionReached.getBlock (h : SessionReached answer handler heap manifest e)
    (v block : Nat) : hbiStreamGetBlock e v = some block ↔ v < manifest.length ∧ block = v := by
  rw [← h.length_blocks]
  unfold hbiStreamGetBlock
  rw [List.findIdx?_eq_some_iff_getElem]
  constructor
  · rintro ⟨hlt, hfound, -⟩
    have heq : block = v := (h.block hlt).1.symm.trans (beq_iff_eq.mp hfound)
    exact ⟨heq ▸ hlt, heq⟩
  · rintro ⟨hlt, rfl⟩
    refine ⟨hlt, beq_iff_eq.mpr (h.block hlt).1, ?_⟩
    intro k hk hfound
    have heq : k = block := (h.block (by omega)).1.symm.trans (beq_iff_eq.mp hfound)
    omega

end Registered

/-- `hbi_runtime_executor_run` awaits this operand: it is bound, and a block has its number. -/
def ExecContext.awaits (ctx : ExecContext) (e : StreamEngine) (v : Nat) : Bool :=
  (ctx.tensorOf v).isSome && (hbiStreamGetBlock e v).isSome

/-- The operands that the tasks look up, in their order. -/
def plannedOperands (nodes : List Node) : List Nat :=
  nodes.flatMap fun n => n.inputs.take hbiKernelMaxInputs

theorem plannedOperands_cons (n : Node) (rest : List Node) :
    plannedOperands (n :: rest) = n.inputs.take hbiKernelMaxInputs ++ plannedOperands rest :=
  List.flatMap_cons

section Walk

variable {th : LoneThread} {e : StreamEngine} {ctx : ExecContext}

theorem awaits_eq_true {v : Nat} (h : ctx.awaits e v = true) :
    ∃ t block, ctx.tensorOf v = some t ∧ hbiStreamGetBlock e v = some block := by
  obtain ⟨hbound, hblock⟩ := Bool.and_eq_true_iff.mp h
  obtain ⟨t, ht⟩ := Option.isSome_iff_exists.mp hbound
  obtain ⟨block, hblock⟩ := Option.isSome_iff_exists.mp hblock
  exact ⟨t, block, ht, hblock⟩

theorem awaitInputs_skip {v : Nat} (h : ctx.awaits e v = false) (rest : List Nat) :
    awaitInputs th e ctx (v :: rest) = awaitInputs th e ctx rest := by
  unfold ExecContext.awaits at h
  simp only [awaitInputs]
  split
  · rename_i t block hbound hblock
    simp [hbound, hblock] at h
  · rfl

theorem awaitInputs_none {vs : List Nat} (h : vs.find? (ctx.awaits e) = none) :
    awaitInputs th e ctx vs = ([], some (.ok (e, ctx))) := by
  induction vs with
  | nil => rfl
  | cons v rest ih =>
      rw [List.find?_cons] at h
      split at h
      · cases h
      · rename_i hv
        rw [awaitInputs_skip hv, ih h]

/-- The first operand that is awaited is the last one. -/
theorem awaitInputs_some {vs : List Nat} {v block : Nat}
    (h : vs.find? (ctx.awaits e) = some v) (hblock : hbiStreamGetBlock e v = some block) :
    (awaitInputs th e ctx vs).1 = [⟨v, block⟩] ∧
      ∀ left, (awaitInputs th e ctx vs).2 ≠ some (.ok left) := by
  induction vs with
  | nil => cases h
  | cons u rest ih =>
      rw [List.find?_cons] at h
      split at h
      · rename_i hu
        cases h
        obtain ⟨t, -, hbound, -⟩ := awaits_eq_true hu
        simp only [awaitInputs, hbound, hblock]
        split
        · exact ⟨rfl, nofun⟩
        · exact ⟨rfl, nofun⟩
        · rename_i e' t' hawait
          obtain ⟨err, herr⟩ := hbiStreamAwait_fails hawait
          cases herr
      · rename_i hu
        rw [awaitInputs_skip hu]
        exact ih h

/-- A task with an operand that is awaited ends the run there. -/
theorem streamingRun_first {k : Kernels} {n : Node} {v block : Nat}
    (hfirst : (n.inputs.take hbiKernelMaxInputs).find? (ctx.awaits e) = some v)
    (hblock : hbiStreamGetBlock e v = some block) (rest : List Node) (m : Memory) :
    (streamingRun k th e ctx (n :: rest) m).1 = [⟨v, block⟩] := by
  obtain ⟨hcalls, hends⟩ := @awaitInputs_some th e ctx _ v block hfirst hblock
  simp only [streamingRun]
  split
  · rename_i calls hawait
    rw [hawait] at hcalls
    exact hcalls
  · rename_i calls err hawait
    rw [hawait] at hcalls
    exact hcalls
  · rename_i calls e' ctx' hawait
    exact absurd (congrArg Prod.snd hawait) (hends _)

/-- A run awaits nothing, or the first operand that has a block and nothing else. -/
theorem streamingRun_calls (k : Kernels) (nodes : List Node) (m : Memory) :
    (streamingRun k th e ctx nodes m).1 = [] ∨
      ∃ v block, (plannedOperands nodes).find? (ctx.awaits e) = some v ∧
        hbiStreamGetBlock e v = some block ∧
        (streamingRun k th e ctx nodes m).1 = [⟨v, block⟩] := by
  induction nodes generalizing m with
  | nil => exact Or.inl rfl
  | cons n rest ih =>
      rw [plannedOperands_cons, List.find?_append]
      cases hfirst : (n.inputs.take hbiKernelMaxInputs).find? (ctx.awaits e) with
      | none =>
          simp only [streamingRun, awaitInputs_none hfirst, Option.none_or]
          split
          · exact Or.inl rfl
          · exact ih _
      | some v =>
          obtain ⟨-, block, -, hblock⟩ := awaits_eq_true (List.find?_some hfirst)
          exact Or.inr ⟨v, block, Option.some_or, hblock, streamingRun_first hfirst hblock rest m⟩

/-- Kernels that always succeed and compute nothing. -/
def idleKernels : Kernels where
  resolve _ _ := .ok ()
  workspaceSize _ := .ok 0
  run _ _ := .ok []

/-- Where every kernel succeeds, the run gets to the first operand that has a block. -/
theorem streamingRun_idle {nodes : List Node} {v block : Nat}
    (h : (plannedOperands nodes).find? (ctx.awaits e) = some v)
    (hblock : hbiStreamGetBlock e v = some block) (m : Memory) :
    (streamingRun idleKernels th e ctx nodes m).1 = [⟨v, block⟩] := by
  induction nodes generalizing m with
  | nil => cases h
  | cons n rest ih =>
      rw [plannedOperands_cons, List.find?_append] at h
      cases hfirst : (n.inputs.take hbiKernelMaxInputs).find? (ctx.awaits e) with
      | none =>
          rw [hfirst, Option.none_or] at h
          simp only [streamingRun, awaitInputs_none hfirst, BufferReuse.run, runtimeNode,
            idleKernels]
          exact ih h _
      | some u =>
          rw [hfirst, Option.some_or, Option.some.injEq] at h
          rw [h] at hfirst
          exact streamingRun_first hfirst hblock rest m

/-- A run that awaits nothing is the one over the bound tensors. -/
theorem streamingRun_of_none (k : Kernels) {plan : ExecutionPlan} (m : Memory)
    (h : (plannedOperands plan.taskNodes).find? (ctx.awaits e) = none) :
    streamingRun k th e ctx plan.taskNodes m =
      ([], some (hbiRuntimeExecutorRun k ctx plan m).2) := by
  unfold hbiRuntimeExecutorRun
  generalize plan.taskNodes = nodes at h
  induction nodes generalizing m with
  | nil => rfl
  | cons n rest ih =>
      rw [plannedOperands_cons, List.find?_append, Option.or_eq_none_iff] at h
      simp only [streamingRun, awaitInputs_none h.1, BufferReuse.run]
      cases runtimeNode k ctx n (n.inputs.map (ctx.read m)) with
      | error err => rfl
      | ok res => simpa using ih _ h.2

end Walk

/-- A graph value that stands for a tensor of the manifest: it is not produced by a node, and
it has the tensor's name. -/
def Graph.standsFor (g : Graph) (v : Nat) (entry : TensorEntry) : Bool :=
  (hbiGraphValueAt g v).any fun val =>
    val.producerNodeId.isNone && val.name == truncName hbiGraphNameMax entry.name

/-- The first bound operand, in the order of the plan, whose number is a place of the
manifest. -/
def ExecContext.firstStreamed (ctx : ExecContext) (numEntries : Nat) (nodes : List Node) :
    Option Nat :=
  (plannedOperands nodes).find? fun v => (ctx.tensorOf v).isSome && decide (v < numEntries)

theorem SessionReached.firstStreamed {answer : Nat → RegisterAnswer} {handler : Bool}
    {heap : SysHeap} {manifest : List TensorEntry} {e : StreamEngine}
    (h : SessionReached answer handler heap manifest e) (ctx : ExecContext) (nodes : List Node) :
    (plannedOperands nodes).find? (ctx.awaits e) = ctx.firstStreamed manifest.length nodes := by
  have hfound : ∀ v, (hbiStreamGetBlock e v).isSome = decide (v < manifest.length) := by
    intro v
    rw [Bool.eq_iff_iff, decide_eq_true_iff, Option.isSome_iff_exists]
    constructor
    · rintro ⟨block, hblock⟩
      exact ((h.getBlock v block).mp hblock).1
    · intro hlt
      exact ⟨v, (h.getBlock v v).mpr ⟨hlt, rfl⟩⟩
  unfold ExecContext.firstStreamed
  congr 1
  funext v
  rw [ExecContext.awaits, hfound]

/-- Every await of a run is handed the tensor of the value that stands for the block. -/
def BindsWeights (k : Kernels) (th : LoneThread) (e : StreamEngine) (ctx : ExecContext)
    (plan : ExecutionPlan) (m : Memory) : Prop :=
  ∀ call ∈ (streamingRun k th e ctx plan.taskNodes m).1,
    ∃ b, e.blocks[call.block]? = some b ∧ ctx.graph.standsFor call.value b.entry = true

/-- For every manifest that a session registers, every state of its engine, every context and
every plan: whatever the kernels answer, only a value that stands for its block is handed
over, exactly when the first bound operand of the plan whose number is a place of the
manifest, if there is one, stands for the tensor at that place. -/
theorem binds_weights_iff {answer : Nat → RegisterAnswer} {handler : Bool} {heap : SysHeap}
    {manifest : List TensorEntry} {e : StreamEngine}
    (he : SessionReached answer handler heap manifest e) (th : LoneThread) (ctx : ExecContext)
    (plan : ExecutionPlan) :
    (∀ (k : Kernels) (m : Memory), BindsWeights k th e ctx plan m) ↔
      ∀ v entry, ctx.firstStreamed manifest.length plan.taskNodes = some v →
        manifest[v]? = some entry → ctx.graph.standsFor v entry = true := by
  constructor
  · intro hbinds v entry hfirst hentry
    obtain ⟨hlt, -⟩ := List.getElem?_eq_some_iff.mp hentry
    have hblock := (he.getBlock v v).mpr ⟨hlt, rfl⟩
    have hcalls := @streamingRun_idle th e ctx plan.taskNodes v v
      ((he.firstStreamed ctx _).trans hfirst) hblock fun _ => 0
    obtain ⟨b, hb, hstands⟩ := hbinds idleKernels (fun _ => 0) ⟨v, v⟩ (by simp [hcalls])
    obtain ⟨hv, rfl⟩ := List.getElem?_eq_some_iff.mp hb
    rw [(he.block hv).2, Option.some.injEq] at hentry
    rw [← hentry]
    exact hstands
  · intro hstands k m call hcall
    rcases @streamingRun_calls th e ctx k plan.taskNodes m with
      hnone | ⟨v, block, hfirst, hblock, hone⟩
    · rw [hnone] at hcall
      cases hcall
    · rw [hone] at hcall
      obtain rfl := List.mem_singleton.mp hcall
      rw [he.firstStreamed] at hfirst
      obtain ⟨hlt, rfl⟩ := (he.getBlock v block).mp hblock
      have hlt' : block < e.blocks.length := he.length_blocks ▸ hlt
      exact ⟨e.blocks[block], List.getElem?_eq_getElem hlt',
        hstands block _ hfirst (he.block hlt').2⟩

/-- A platform that refuses no registration. -/
def willing : Nat → RegisterAnswer := fun _ => ⟨.ok (), true⟩

def weightEntry (name : String) : TensorEntry :=
  ⟨name, ⟨[1]⟩, .int8, 1, 64, .streamable⟩

/-- The pipeline has requested a block. -/
def StreamEngine.requested (e : StreamEngine) (i : Nat) : StreamEngine :=
  (hbiStreamPrefetch 0 sampleEnv 3 e i .vram).elim e Prod.fst

theorem SessionReached.request {answer : Nat → RegisterAnswer} {handler : Bool} {heap : SysHeap}
    {manifest : List TensorEntry} {e : StreamEngine}
    (h : SessionReached answer handler heap manifest e) (i : Nat) :
    SessionReached answer handler heap manifest (e.requested i) := by
  unfold StreamEngine.requested
  cases hcall : hbiStreamPrefetch 0 sampleEnv 3 e i .vram with
  | none => exact h
  | some answered => exact .requested h hcall

/-- A session with the first two tensors of the manifest requested. -/
def requestedEngine (manifest : List TensorEntry) : StreamEngine :=
  (((sessionEngine willing true (.fresh false) manifest).toOption.getD
    (hbiStreamEngineCreate 0 none (.fresh false))).requested 0).requested 1

/-- The context of a graph whose planned outputs have their tensors, and its schedule. -/
def plannedContext (g : Graph) : ExecContext :=
  (hbiExecContextAllocateInternals (hbiExecContextCreate g)
    (((hbiMemoryPlannerPlan 4 insertionQSort g).bind Except.toOption).getD
      (finishMemoryPlan g [] 0)) [chainsPool]).toOption.getD (hbiExecContextCreate g)

def plannedSchedule (g : Graph) : ExecutionPlan :=
  ((hbiSchedulerCreatePlan 3 g).bind Except.toOption).getD (finishPlan g (kahnInit g))

/-- A weight as a constant, its copy, and a copy of that. -/
def weightGraph : Builder :=
  let b := (hbiGraphAddConstant .empty (some "w") (callerByte 4096)).toOption.elim .empty Prod.fst
  let b := (hbiGraphAddNode b none .copy none [0] 1).1
  (hbiGraphAddNode b none .copy none [1] 1).1

def weightManifest : List TensorEntry := [weightEntry "w", weightEntry "model.norm.weight"]

/-- Both tensors are in transit, and the run comes to the weight only: that the copy of it
does not stand for the second tensor has no effect. -/
theorem binds_weights_iff_constant :
    ∃ e, SessionReached willing true (.fresh false) weightManifest e ∧
      e.blocks.map StreamBlock.status = [.inTransit, .inTransit] ∧
      ((plannedContext weightGraph.finished).tensorOf 1).isSome = true ∧
      weightGraph.finished.standsFor 1 (weightEntry "model.norm.weight") = false ∧
      ∀ (th : LoneThread) (k : Kernels) (m : Memory), BindsWeights k th e
        (plannedContext weightGraph.finished) (plannedSchedule weightGraph.finished) m := by
  have hreached : SessionReached willing true (.fresh false) weightManifest
      (requestedEngine weightManifest) := ((SessionReached.created rfl).request 0).request 1
  refine ⟨_, hreached, by decide, by decide +kernel, by decide +kernel, ?_⟩
  intro th
  apply (binds_weights_iff hreached th _ _).mpr
  have hfirst : (plannedContext weightGraph.finished).firstStreamed 2
      (plannedSchedule weightGraph.finished).taskNodes = some 0 := by decide +kernel
  intro v entry hv hentry
  obtain rfl : 0 = v := Option.some.inj (hfirst.symm.trans hv)
  cases hentry
  decide +kernel

/-- The graph of the mock adapter, for a hidden size of one: an input and two copies. -/
def mockGraph : Builder :=
  let b := (hbiGraphAddInput .empty (some "input_ids") ⟨[1, 1]⟩ .fp32).toOption.elim .empty Prod.fst
  let b := (hbiGraphAddNode b (some "mock_embedding") .copy none [0] 1).1
  (hbiGraphAddNode b (some "mock_norm") .copy none [1] 1).1

theorem mockGraph_reached : mockGraph.Reached := by
  have hinput := @Builder.Reached.input _ _ (some "input_ids") ⟨[1, 1]⟩ .fp32 _ .empty rfl
  have hembedding := @Builder.Reached.node _ _ (some "mock_embedding") .copy none [0] 1 _ hinput rfl
  exact @Builder.Reached.node _ _ (some "mock_norm") .copy none [1] 1 _ hembedding rfl

def mockManifest : List TensorEntry :=
  [weightEntry "model.embed_tokens.weight", weightEntry "model.norm.weight"]

/-- With two tensors in the manifest, the second copy awaits the second tensor for the value
that the first copy produces. -/
theorem await_rebinds_node_output :
    SessionReached willing true (.fresh false) mockManifest (requestedEngine mockManifest) ∧
      mockGraph.finished.Built ∧
      hbiSchedulerCreatePlan 3 mockGraph.finished =
        some (.ok (plannedSchedule mockGraph.finished)) ∧
      (∀ th, (streamingRun idleKernels th (requestedEngine mockManifest)
        (plannedContext mockGraph.finished) (plannedSchedule mockGraph.finished).taskNodes
        fun _ => 0).1 = [⟨1, 1⟩]) ∧
      (hbiGraphValueAt mockGraph.finished 1).map Value.producerNodeId = some (some 0) ∧
      ∀ th, ¬ BindsWeights idleKernels th (requestedEngine mockManifest)
        (plannedContext mockGraph.finished) (plannedSchedule mockGraph.finished) fun _ => 0 := by
  have hreached : SessionReached willing true (.fresh false) mockManifest
      (requestedEngine mockManifest) := ((SessionReached.created rfl).request 0).request 1
  have hfirst : (plannedOperands (plannedSchedule mockGraph.finished).taskNodes).find?
      ((plannedContext mockGraph.finished).awaits (requestedEngine mockManifest)) = some 1 := by
    decide +kernel
  have hcalls : ∀ th, (streamingRun idleKernels th (requestedEngine mockManifest)
      (plannedContext mockGraph.finished) (plannedSchedule mockGraph.finished).taskNodes
      fun _ => 0).1 = [⟨1, 1⟩] :=
    fun th => streamingRun_idle hfirst rfl _
  refine ⟨hreached, mockGraph_reached.built, rfl, hcalls, by decide +kernel, ?_⟩
  intro th hbinds
  obtain ⟨b, hb, hstands⟩ := hbinds ⟨1, 1⟩ (by rw [hcalls]; exact List.mem_singleton_self _)
  cases hb
  revert hstands
  decide +kernel

end Hummingbird

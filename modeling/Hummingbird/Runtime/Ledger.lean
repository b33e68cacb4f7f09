import Hummingbird.Runtime.Cache

/-!
The ledger of a session, from its creation to its destruction. Every failure point of
the build destroys what the build has made so far, a reset destroys what a build leaves,
and a generate call gives back the prompt and the decode state however it ends. What the
session does lose are planners, which a reset forgets to destroy, and plans whose
construction failed; what its destruction leaves are the last planner, the streaming
engine, and the context of a model whose adapter cannot destroy it.
-/

namespace Hummingbird

open Calls Ownership

/-- What may be lost. -/
def leaky : Finset ObjKind := {.planner, .plan}

/-- What a session may hold while its pipeline is torn down. -/
def resting : Finset ObjKind :=
  {.session, .planner, .streamEngine, .kvManager, .kvCtx, .modelCtx}

/-- What it may hold when a build has succeeded. -/
def builtKinds (K : Finset ObjKind) : Finset ObjKind :=
  insert .backendMgr (insert .plan (insert .scheduler (insert .graph K)))

/-- The account of the session is kept and its slots hold nothing but these. -/
def Holding (K : Finset ObjKind) (s : RuntimeSession) : Prop := s.owned.Within K leaky

namespace Holding

variable {K K' : Finset ObjKind} {k : ObjKind} {s : RuntimeSession}

theorem mono (h : Holding K s) (hK : K ⊆ K') : Holding K' s := Owner.Within.mono h hK

theorem use (h : Holding K s) (k : ObjKind) : Holding K (s.use k) := Owner.Within.use h k

theorem acquire (h : Holding K s) (k : ObjKind) (v : k.Payload) (hk : k ∉ K) :
    Holding (insert k K) (s.acquire k v) :=
  Owner.Within.acquire h k v (Or.inl (h.empty_of_notMem k hk))

theorem release (h : Holding (insert k K) s) : Holding K (s.release k) := Owner.Within.release h

/-- Giving up something leaves no more than there was. -/
theorem drop (h : Holding K s) (k : ObjKind) : Holding K (s.release k) :=
  Holding.release (h.mono (Finset.subset_insert k K))

theorem dropPlan (h : Holding (insert .plan K) s) : Holding K (dropPlan s) := by
  unfold Hummingbird.dropPlan
  split
  · exact (h.use .scheduler).release
  · exact Owner.Within.forget h (Or.inr (by decide))

theorem pipelineReset (h : Holding (builtKinds K) s) : Holding K (hbiSessionPipelineReset s) := by
  have hsub : builtKinds K ⊆
      insert .plan (insert .scheduler (insert .graph (insert .backendMgr K))) := by
    intro k
    simp only [builtKinds, Finset.mem_insert]
    tauto
  have hplan := Holding.dropPlan (s := { s with planMemory := none }) (h.mono hsub)
  exact hplan.release.release.release

theorem unwindPlan (h : Holding (insert .plan (insert .scheduler (insert .graph K))) s) :
    Holding K (unwindPlan s) :=
  (h.use .scheduler).release.release.release

theorem prefetch (h : Holding K s) (stages : List ExecutionStage) :
    Holding K (prefetch stages s) := by
  induction stages generalizing s with
  | nil => exact h
  | cons stage rest ih =>
      unfold Hummingbird.prefetch
      split
      · exact h
      · exact ih ((h.use .graph).use .streamEngine)

theorem prefetchPlan (h : Holding K s) (plan : ExecutionPlan) :
    Holding K (prefetchPlan plan s) := by
  unfold Hummingbird.prefetchPlan
  split
  · exact (h.use .plan).prefetch plan.stages
  · exact h

end Holding

section Build

variable (a : BuildAnswers) {K : Finset ObjKind}

theorem buildGraph_holding (b : Builder) (hK : .graph ∉ K) :
    Meets (Holding (insert .builder K)) (buildGraph a b) (fun _ => Holding (insert .graph K))
      (Holding (insert .builder K)) := by
  refine meets_attempt (keeps_after (fun _ h => h.use .builder) (keeps_answer _))
    (fun _ h => h) fun _ => ?_
  refine meets_attempt (keeps_answer _) (fun _ h => h) fun g => ?_
  refine meets_after ?_ fun _ h => h.release.acquire .graph g hK
  exact meets_answer (fun _ _ _ h => h) fun _ _ he => by cases he

/-- A plan that cannot be finished is lost. -/
theorem createPlan_holding (g : Graph) (hK : .plan ∉ K) :
    Meets (Holding K) (createPlan a g) (fun _ => Holding (insert .plan K)) (Holding K) := by
  have hleave : ∀ s, Holding K s → Holding K (leavePlan s) :=
    fun _ h => Owner.Within.abandon h (by decide)
  unfold createPlan
  refine meets_after ?_ fun _ h => (h.use .scheduler).use .graph
  refine meets_attempt (keeps_answer _) (fun _ h => h) fun _ => ?_
  refine meets_attempt (keeps_answer _) ?_ fun _ => ?_
  · intro s h
    split
    · exact hleave s h
    · exact h
  · refine meets_attempt (keeps_answer _) hleave fun plan => ?_
    refine meets_after ?_ fun _ h => h.acquire .plan plan hK
    exact meets_answer (fun _ _ _ h => h) fun _ _ he => by cases he

theorem planMemory_holding (g : Graph) : Keeps (Holding K) (planMemory a g) := by
  refine keeps_attempt ?_ (fun _ h => h) fun _ => keeps_attempt ?_ (fun _ h => h) fun plan => ?_
  · exact keeps_after (fun _ h => (h.use .planner).use .graph) (keeps_answer _)
  · exact keeps_answer _
  · exact keeps_perform fun _ h => h

/-- From the graph on, a build that fails leaves what there was before it. -/
theorem compileGraph_holding (g : Graph) (hplanner : .planner ∈ K) (hsched : .scheduler ∉ K)
    (hplan : .plan ∉ K) (hbackend : .backendMgr ∉ K) :
    Meets (Holding (insert .graph K)) (compileGraph a g) (fun _ => Holding (builtKinds K))
      (Holding K) := by
  refine meets_attempt (keeps_answer _) (fun _ h => h.release) fun _ => ?_
  refine meets_after ?_ fun _ h => h.acquire .scheduler () (by simp [hsched])
  refine meets_attempt (createPlan_holding a g (by simp [hplan]))
    (fun _ h => h.release.release) fun plan => ?_
  refine meets_attempt (keeps_after (fun _ h => h.use .graph) (keeps_answer _))
    (fun _ h => h.unwindPlan) fun _ => ?_
  have hacquire : ∀ s, Holding (insert .plan (insert .scheduler (insert .graph K))) s →
      Holding (insert .plan (insert .scheduler (insert .graph K))) (s.acquire .planner ()) := by
    intro s h
    have hmem : ObjKind.planner ∈ insert ObjKind.plan
        (insert ObjKind.scheduler (insert ObjKind.graph K)) := by simp [hplanner]
    have hacq := Owner.Within.acquire h .planner () (Or.inr (by decide))
    rw [Finset.insert_eq_of_mem hmem] at hacq
    exact hacq
  refine meets_after ?_ hacquire
  refine meets_attempt (planMemory_holding a g)
    (fun _ h => (h.drop .planner).unwindPlan) fun _ => ?_
  refine meets_after ?_ fun _ h => h.prefetchPlan plan
  refine meets_attempt (keeps_answer _) (fun s h => ?_) fun _ => ?_
  · exact Holding.unwindPlan (s := { s.release .planner with planMemory := none })
      (h.drop .planner)
  · exact meets_perform fun _ h => h.acquire .backendMgr () (by simp [hbackend])

/-- A build that fails leaves what there was before it, and one that succeeds adds the
graph, the scheduler, the plan and the backend manager. -/
theorem pipelineBuild_holding (hplanner : .planner ∈ K)
    (hK : Disjoint K {.builder, .graph, .scheduler, .plan, .backendMgr}) :
    Meets (Holding K) (hbiRuntimePipelineBuild a) (fun _ => Holding (builtKinds K))
      (Holding K) := by
  simp only [Finset.disjoint_insert_right, Finset.disjoint_singleton_right] at hK
  obtain ⟨hbuilder, hgraph, hsched, hplan, hbackend⟩ := hK
  apply meets_either (meets_answer (fun _ _ he => by cases he) fun _ _ _ h => h)
  refine meets_attempt (keeps_answer _) (fun _ h => h) fun _ => ?_
  refine meets_after ?_ fun _ h => h.acquire .builder () hbuilder
  refine meets_attempt (keeps_after (fun _ h => h.use .builder) (keeps_answer _))
    (fun _ h => h.release) fun b => ?_
  exact meets_attempt (buildGraph_holding a b.1 hgraph) (fun _ h => h.release) fun g =>
    compileGraph_holding a g hplanner hsched hplan hbackend

end Build

section Generate

variable {K : Finset ObjKind}

theorem buildPipeline_holding (a : BuildAnswers) (hplanner : .planner ∈ K)
    (hK : Disjoint K {.builder, .graph, .scheduler, .plan, .backendMgr}) :
    Meets (Holding K) (buildPipeline a) (fun _ => Holding (builtKinds K)) (Holding K) :=
  meets_noting (pipelineBuild_holding a hplanner hK) (fun _ _ h => h) fun _ _ h => h

theorem tokenizer_holding {α : Type} (r : Result α) : Keeps (Holding K) (tokenizer r) :=
  keeps_noting (keeps_answer r) fun _ _ h => h

theorem executePlan_holding (a : ExecAnswers) : Keeps (Holding K) (executePlan a) := by
  refine keeps_noting (keeps_of_forall fun s h => ?_) fun _ _ h => h
  exact (((Holding.use h .plan).use .graph).use .backendMgr).use .streamEngine

theorem prepareKv_holding (nPrompt : Nat) (blocks : ContextBlocks) (hK : .kvCtx ∈ K) :
    Keeps (Holding K) (prepareKv nPrompt blocks) := by
  refine meets_branch (meets_perform fun s h => ?_) fun s h => ?_
  · unfold resetKv
    split
    · exact h.1
    · exact Owner.Within.store (Holding.use h.1 .kvCtx) .kvManager _
  · obtain ⟨h, hnone⟩ := h
    have hend : Holding K (createKv nPrompt blocks s).1 := by
      unfold createKv
      dsimp only
      split
      · exact h
      · split
        · exact Holding.use h .kvManager
        · have hstore := fun mgr => Owner.Within.store (Holding.use h .kvManager) .kvManager mgr
          have hfree : s.owned.id? .kvCtx = none := by simpa using hnone
          have hacq := fun mgr v => Owner.Within.acquire (hstore mgr) .kvCtx v
            (Or.inl (by simpa [RuntimeSession.use] using hfree))
          rw [Finset.insert_eq_of_mem hK] at hacq
          exact hacq _ _
    exact ⟨fun _ _ => hend, fun _ _ => hend⟩

theorem appendTokens_holding (nPrompt numTokens : Nat) :
    Keeps (Holding K) (appendTokens nPrompt numTokens) := by
  apply keeps_of_forall
  intro s h
  unfold appendTokens
  split
  · exact h
  · dsimp only
    split
    · exact Holding.use h .kvCtx
    · exact Owner.Within.store (Holding.use h .kvCtx) .kvManager _

theorem createDecodeState_holding (a : GenerateArgs) (hK : .decState ∉ K) :
    Meets (Holding K) (createDecodeState a) (fun _ => Holding (insert .decState K))
      (Holding K) := by
  have hgrow : ∀ s, Holding K s → Holding (insert .decState K) s :=
    fun _ h => h.mono (Finset.subset_insert _ _)
  refine meets_either ?_ (meets_answer (fun _ s _ h => hgrow s h) fun _ _ he => by cases he)
  refine meets_attempt (tokenizer_holding _) (fun _ h => h) fun _ => ?_
  exact meets_perform fun _ h => h.acquire .decState () hK

theorem decodeToken_holding (a : StepAnswers) : Keeps (Holding K) (decodeToken a) :=
  keeps_branch (keeps_after (fun _ h => h.use .decState) (tokenizer_holding _)) (keeps_answer _)

theorem Holding.deliver {s : RuntimeSession} (h : Holding K s) (onText : Bool) (chars : String) :
    Holding K (deliver onText chars s) := by
  unfold Hummingbird.deliver
  split <;> exact h

/-- Every round of the decode loop tears down what the round before has built. -/
theorem decodeLoop_holding (a : GenerateArgs) (nPrompt remaining generated : Nat)
    (hplanner : .planner ∈ K)
    (hK : Disjoint K {.builder, .graph, .scheduler, .plan, .backendMgr}) :
    Keeps (Holding (builtKinds K)) (decodeLoop a nPrompt remaining generated) := by
  have hbuilt : ∀ s, Holding K s → Holding (builtKinds K) s := by
    intro s h
    refine h.mono fun k hk => ?_
    simp [builtKinds, hk]
  induction remaining generalizing generated with
  | zero => exact keeps_perform fun _ h => h
  | succ remaining ih =>
      refine keeps_after (fun _ h => h) ?_
      apply keeps_branch (keeps_answer _)
      refine meets_after ?_ fun _ h => h.pipelineReset
      refine meets_attempt (buildPipeline_holding _ hplanner hK) (fun s h => hbuilt s h) fun _ => ?_
      refine keeps_attempt (executePlan_holding _) (fun _ h => h) fun _ => ?_
      apply keeps_after (fun _ h => (h.use .plan).use .graph)
      apply keeps_branch (keeps_answer _)
      refine keeps_attempt (decodeToken_holding _) (fun _ h => h) fun chars => ?_
      apply keeps_after (fun _ h => h.deliver _ chars)
      refine keeps_attempt (appendTokens_holding nPrompt 1) (fun _ h => h) fun _ => ?_
      exact keeps_after (fun _ h => h) (ih (generated + 1))

theorem decodeAll_holding (a : GenerateArgs) (nPrompt : Nat) :
    Meets (Holding (builtKinds (insert .decState resting))) (decodeAll a nPrompt)
      (fun _ => Holding (builtKinds resting)) (Holding (builtKinds resting)) := by
  intro s h
  have hrelease : ∀ s, Holding (builtKinds (insert .decState resting)) s →
      Holding (builtKinds resting) (s.release .decState) :=
    fun s h => Holding.release (h.mono (by decide))
  exact meets_attempt (decodeLoop_holding a nPrompt s.maxNew 0 (by decide) (by decide)) hrelease
    (fun _ => meets_perform hrelease) s h

theorem generatePrompt_holding (a : GenerateArgs) (nPrompt : Nat) :
    Meets (Holding (insert .promptSeq resting)) (generatePrompt a nPrompt)
      (fun _ => Holding (builtKinds resting)) (Holding (builtKinds resting)) := by
  have hunwind : ∀ s, Holding (builtKinds (insert .promptSeq resting)) s →
      Holding (builtKinds resting) (s.release .promptSeq) :=
    fun s h => Holding.release (h.mono (by decide))
  have hfail : ∀ s, Holding (insert .promptSeq resting) s →
      Holding (builtKinds resting) (s.release .promptSeq) :=
    fun s h => Holding.release (h.mono (by decide))
  refine meets_attempt (buildPipeline_holding a.build (by decide) (by decide)) hfail fun _ => ?_
  refine meets_attempt (executePlan_holding a.exec) hunwind fun _ => ?_
  refine meets_attempt (prepareKv_holding nPrompt a.kvBlocks (by decide)) hunwind fun _ => ?_
  refine meets_attempt (appendTokens_holding nPrompt nPrompt) hunwind fun _ => ?_
  refine meets_attempt (createDecodeState_holding a (by decide)) hunwind fun _ => ?_
  refine meets_after (decodeAll_holding a nPrompt) fun s h => ?_
  exact Holding.release ((h.use .promptSeq).mono (by decide))

/-- A generate call gives back the prompt and the decode state however it ends, and holds
at most one pipeline. -/
theorem generate_holding (a : GenerateArgs) :
    Keeps (Holding (builtKinds resting)) (hbiRuntimeGenerate a) := by
  refine keeps_branch (keeps_answer _) (keeps_branch (keeps_answer _) ?_)
  refine meets_after ?_ fun _ h => h.pipelineReset
  refine meets_attempt (tokenizer_holding _) (fun _ h => h.mono (by decide)) fun _ => ?_
  refine meets_after ?_ fun _ h => h.acquire .promptSeq () (by decide)
  have hencode : Keeps (Holding (insert .promptSeq resting)) (encodePrompt a) :=
    keeps_after (fun _ h => h.use .promptSeq)
      (keeps_branch (tokenizer_holding _) (tokenizer_holding _))
  refine meets_attempt hencode (fun s h => Holding.release (h.mono (by decide))) fun nPrompt => ?_
  exact meets_after (generatePrompt_holding a nPrompt) fun _ h => h

theorem Holding.next {s : RuntimeSession} (h : Holding (builtKinds resting) s)
    (step : HostStep) : Holding (builtKinds resting) (step.next s) := by
  cases step with
  | call c =>
      cases c with
      | generate a => exact (generate_holding a).final h
      | cancel => exact h
      | reset => exact h
  | attach ctx => exact h

end Generate

/-- Can the context of the model be destroyed? -/
def canDestroy (adapter : Option ModelAdapter) : Bool :=
  (adapter.map ModelAdapter.destroyContext).getD false

/-- What a destroyed session may leave in its slots. -/
def leftKinds (adapter : Option ModelAdapter) : Finset ObjKind :=
  if canDestroy adapter = true then {.planner, .streamEngine}
  else {.planner, .streamEngine, .modelCtx}

theorem destroyModelCtx_eq (s : RuntimeSession) :
    destroyModelCtx s = if canDestroy s.adapter = true then s.release .modelCtx else s := by
  unfold destroyModelCtx canDestroy
  cases s.adapter with
  | none => rfl
  | some adapter => rfl

theorem Holding.destroyKvCtx {K : Finset ObjKind} {s : RuntimeSession}
    (h : Holding (insert .kvCtx K) s) (hs : CacheLinked s) : Holding K (destroyKvCtx s) := by
  unfold Hummingbird.destroyKvCtx
  rcases hs with ⟨mgr, hs⟩ | ⟨mgr, i, ctx, hs⟩
  · rw [hs.manager, hs.handle]
    exact Owner.Within.shrink h (s.owned.id?_eq_none_of_value? hs.handle)
  · rw [hs.manager, hs.handle]
    exact Owner.Within.release (Owner.Within.store h .kvManager _)

/-- What the destruction of a session leaves. -/
theorem Holding.sessionDestroy {s : RuntimeSession} (h : Holding (builtKinds resting) s)
    (hs : CacheLinked s) : Holding (leftKinds s.adapter) (hbiRuntimeSessionDestroy s) := by
  have hreset := (Untouched.refl s).pipelineReset
  have hlinked : CacheLinked (destroyModelCtx (hbiSessionPipelineReset s)) := by
    rw [destroyModelCtx_eq]
    split
    · exact (hs.untouched hreset).of_slots (Owner.slot_release_of_ne _ (by decide))
        (Owner.slot_release_of_ne _ (by decide))
    · exact hs.untouched hreset
  have hmodel : Holding (insert .kvCtx (insert .kvManager (insert .session (leftKinds s.adapter))))
      (destroyModelCtx (hbiSessionPipelineReset s)) := by
    rw [destroyModelCtx_eq, hreset.adapter, leftKinds]
    split
    · exact Holding.release (h.pipelineReset.mono (by decide))
    · exact h.pipelineReset.mono (by decide)
  obtain ⟨mgr, hnone⟩ := hlinked.destroyKvCtx
  unfold hbiRuntimeSessionDestroy
  dsimp only
  rw [hnone.kvManagerDestroy]
  exact (hmodel.destroyKvCtx hlinked).release.release

section Create

variable {a : CreateArgs} {K : Finset ObjKind} {s : RuntimeSession}

/-- A session under construction. -/
structure Allocated (a : CreateArgs) (K : Finset ObjKind) (s : RuntimeSession) : Prop where
  begun : Begun a s
  holding : Holding K s

/-- A session under construction, from the creation of its cache manager on. -/
structure Opened (a : CreateArgs) (K : Finset ObjKind) (s : RuntimeSession) : Prop where
  holding : Holding K s
  begun : Begun a s
  cache : NoCache s KvManager.empty

theorem Opened.acquire (h : Opened a K s) (k : ObjKind) (v : k.Payload) (hk : k ∉ K)
    (hmgr : .kvManager ≠ k) (hctx : .kvCtx ≠ k) : Opened a (insert k K) (s.acquire k v) :=
  ⟨h.holding.acquire k v hk, h.begun.acquire k v hctx,
    h.cache.of_slots (s.owned.slot_acquire_of_ne hmgr v) (s.owned.slot_acquire_of_ne hctx v)⟩

theorem Opened.use (h : Opened a K s) (k : ObjKind) : Opened a K (s.use k) :=
  ⟨h.holding.use k, h.begun.use k, h.cache.of_slots (congrFun (s.owned.slot_use k) _)
    (congrFun (s.owned.slot_use k) _)⟩

theorem Opened.mono {K' : Finset ObjKind} (h : Opened a K s) (hK : K ⊆ K') : Opened a K' s :=
  ⟨h.holding.mono hK, h.begun, h.cache⟩

theorem initAdapter_opened (hK : .modelCtx ∉ K) :
    Meets (Opened a K) (initAdapter a) (fun _ => Opened a (insert .modelCtx K)) (Opened a K) := by
  refine meets_either ?_ (meets_answer ?_ fun _ _ he => by cases he)
  · refine meets_attempt (keeps_answer _) (fun _ h => h) fun descriptor => ?_
    have hset : ∀ s, Opened a K s → Opened a K { s with descriptor := descriptor } :=
      fun s h => ⟨h.holding, ⟨h.begun.model, h.begun.adapter, h.begun.config, h.begun.execCtx,
        h.begun.events, h.begun.sizedFor, h.begun.kvCtx⟩, h.cache.of_slots rfl rfl⟩
    refine meets_after ?_ hset
    refine meets_attempt (keeps_answer _) (fun _ h => h) fun _ => ?_
    exact meets_perform fun _ h => h.acquire .modelCtx () hK (by decide) (by decide)
  · exact fun _ _ _ h => h.mono (Finset.subset_insert _ _)

theorem startStream_opened (hK : .streamEngine ∉ K) :
    Meets (Opened a K) (startStream a) (fun _ => Opened a (insert .streamEngine K))
      (Opened a (insert .streamEngine K)) := by
  have hgrow : ∀ s, Opened a K s → Opened a (insert .streamEngine K) s :=
    fun _ h => h.mono (Finset.subset_insert _ _)
  refine meets_either ?_ (meets_answer (fun _ s _ h => hgrow s h) fun _ _ he => by cases he)
  refine meets_attempt (keeps_answer _) hgrow fun _ => ?_
  exact meets_after (registerBlocks_keeps (fun _ h => h.use .streamEngine) _)
    fun _ h => h.acquire .streamEngine () hK (by decide) (by decide)

/-- A session that was created holds its long-lived objects, and one that was not has
given back all but what a destroyed session leaves. -/
theorem createSession_holding (a : CreateArgs) :
    Meets (Allocated a ∅) (createSession a)
      (fun _ s => Holding (builtKinds resting) s ∧ CacheLinked s)
      (Holding (leftKinds a.adapter)) := by
  refine meets_attempt (keeps_answer _) (fun _ h => h.holding.mono (Finset.empty_subset _))
    fun _ => ?_
  have hsession : ∀ s, Allocated a ∅ s → Allocated a {.session} (s.acquire .session ()) :=
    fun s h => ⟨h.begun.acquire .session () (by decide), h.holding.acquire .session () (by decide)⟩
  refine meets_after ?_ hsession
  have hfree : ∀ s, Holding {.session} s → Holding (leftKinds a.adapter) (s.release .session) := by
    intro s h
    exact Holding.release (h.mono (Finset.singleton_subset_iff.mpr (Finset.mem_insert_self _ _)))
  refine meets_attempt (keeps_answer _) (fun s h => hfree s h.holding) fun _ => ?_
  have hmanager : ∀ s, Allocated a {.session} s →
      Opened a {.kvManager, .session} (s.acquire .kvManager KvManager.empty) := by
    intro s h
    refine ⟨h.holding.acquire .kvManager KvManager.empty (by decide),
      h.begun.acquire .kvManager KvManager.empty (by decide),
      s.owned.value?_acquire .kvManager KvManager.empty, ?_, rfl⟩
    have hne : ObjKind.kvCtx ≠ ObjKind.kvManager := by decide
    have hslot := (s.owned.slot_acquire_of_ne hne KvManager.empty).trans h.begun.kvCtx
    exact congrArg (Option.map Prod.snd) hslot
  refine meets_after ?_ hmanager
  refine meets_attempt (initAdapter_opened (by decide)) ?_ fun _ => ?_
  · intro s h
    rw [h.cache.kvManagerDestroy]
    exact hfree _ h.holding.release
  · refine meets_attempt (startStream_opened (by decide)) ?_ fun _ => ?_
    · intro s h
      have hend := (h.holding.mono (by decide)).sessionDestroy (Or.inl ⟨_, h.cache⟩)
      rw [h.begun.adapter] at hend
      exact hend
    · refine meets_answer (fun _ _ _ h => ?_) fun _ _ he => by cases he
      exact ⟨h.holding.mono (by decide), Or.inl ⟨_, h.cache⟩⟩

end Create

/-- What a session survives with: its account is kept, and it holds what it may hold. -/
theorem HostStep.run_holding {s : RuntimeSession}
    (h : Holding (builtKinds resting) s ∧ CacheLinked s) (steps : List HostStep) :
    Holding (builtKinds resting) (Runs.final HostStep.next s steps) ∧
      CacheLinked (Runs.final HostStep.next s steps) := by
  refine @Runs.final_of_step _ _ HostStep.next
    (fun s => Holding (builtKinds resting) s ∧ CacheLinked s) ?_ s h steps
  intro s step hs
  refine ⟨hs.1.next step, ?_⟩
  cases step with
  | call c => exact CacheLinked.steady.next hs.2 c
  | attach ctx => exact hs.2.of_slots rfl rfl

/-- A session from its creation to its destruction. -/
def lifetime (a : CreateArgs) (steps : List HostStep) : RuntimeSession :=
  match hbiRuntimeSessionCreate a with
  | (s, .error _) => s
  | (s, .ok _) => hbiRuntimeSessionDestroy (Runs.final HostStep.next s steps)

/-- The adapter is borrowed: no call changes it. -/
theorem HostStep.run_adapter (s : RuntimeSession) (steps : List HostStep) :
    (Runs.final HostStep.next s steps).adapter = s.adapter :=
  @Runs.final_of_step _ _ HostStep.next (fun s' => s'.adapter = s.adapter)
    (fun s' step h => (HostStep.next_terms s' step).2.1.trans h) s rfl steps

/-- A session that was created holds its long-lived objects. -/
theorem created_holding {a : CreateArgs} {s : RuntimeSession}
    (hs : hbiRuntimeSessionCreate a = (s, .ok ())) :
    Holding (builtKinds resting) s ∧ CacheLinked s := by
  have hcreate := (createSession_holding a a.start ⟨a.start_begun, Owner.Within.empty⟩).1 ()
  unfold hbiRuntimeSessionCreate at hs
  rw [hs] at hcreate
  exact hcreate rfl

theorem lifetime_holding (a : CreateArgs) (steps : List HostStep) :
    Holding (leftKinds a.adapter) (lifetime a steps) := by
  unfold lifetime
  rcases hres : hbiRuntimeSessionCreate a with ⟨s, e | _⟩
  · have hcreate := (createSession_holding a a.start ⟨a.start_begun, Owner.Within.empty⟩).2 e
    unfold hbiRuntimeSessionCreate at hres
    rw [hres] at hcreate
    exact hcreate rfl
  · obtain ⟨hend, hlinked⟩ := HostStep.run_holding (created_holding hres) steps
    have hleft := hend.sessionDestroy hlinked
    rw [HostStep.run_adapter, (begun_of_create hres).adapter] at hleft
    exact hleft

end Hummingbird

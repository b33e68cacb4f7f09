import Hummingbird.Runtime.Generate
import Hummingbird.Foundation.Runs

/-!
What the pipeline leaves alone. A reset, a build and a run create, use and destroy the
objects of the pipeline; the configuration, the execution context, what was observed and
the long-lived objects of the session stay as they were, whichever way the calls end.
So a property that does not speak about the pipeline is kept by a whole generate call
when the few other things that the call does keep it.
-/

namespace Hummingbird

open Calls Ownership

/-- The objects that last as long as the session. -/
def ObjKind.longLived : ObjKind → Bool
  | .session | .streamEngine | .kvManager | .kvCtx | .modelCtx => true
  | _ => false

/-- The session has changed in its pipeline only. -/
structure Untouched (s₀ s : RuntimeSession) : Prop where
  model : s.model = s₀.model
  adapter : s.adapter = s₀.adapter
  tokMgr : s.tokMgr = s₀.tokMgr
  config : s.config = s₀.config
  execCtx : s.execCtx = s₀.execCtx
  events : s.events = s₀.events
  sizedFor : s.sizedFor = s₀.sizedFor
  slot : ∀ k, k.longLived = true → s.owned.slot k = s₀.owned.slot k

namespace Untouched

variable {s₀ s : RuntimeSession}

theorem refl (s : RuntimeSession) : Untouched s s :=
  ⟨rfl, rfl, rfl, rfl, rfl, rfl, rfl, fun _ _ => rfl⟩

theorem ne_of_longLived {k k' : ObjKind} (hk : k.longLived = false) (hk' : k'.longLived = true) :
    k' ≠ k := by
  rintro rfl
  rw [hk] at hk'
  cases hk'

theorem use (h : Untouched s₀ s) (k : ObjKind) : Untouched s₀ (s.use k) := by
  refine ⟨h.model, h.adapter, h.tokMgr, h.config, h.execCtx, h.events, h.sizedFor, ?_⟩
  intro k' hk'
  rw [← h.slot k' hk']
  exact congrFun (s.owned.slot_use k) k'

theorem acquire (h : Untouched s₀ s) (k : ObjKind) (v : k.Payload) (hk : k.longLived = false) :
    Untouched s₀ (s.acquire k v) := by
  refine ⟨h.model, h.adapter, h.tokMgr, h.config, h.execCtx, h.events, h.sizedFor, ?_⟩
  intro k' hk'
  rw [← h.slot k' hk']
  exact s.owned.slot_acquire_of_ne (ne_of_longLived hk hk') v

theorem release (h : Untouched s₀ s) {k : ObjKind} (hk : k.longLived = false) :
    Untouched s₀ (s.release k) := by
  refine ⟨h.model, h.adapter, h.tokMgr, h.config, h.execCtx, h.events, h.sizedFor, ?_⟩
  intro k' hk'
  rw [← h.slot k' hk']
  exact s.owned.slot_release_of_ne (ne_of_longLived hk hk')

theorem planMemory (h : Untouched s₀ s) (p : Option MemoryPlan) :
    Untouched s₀ { s with planMemory := p } :=
  ⟨h.model, h.adapter, h.tokMgr, h.config, h.execCtx, h.events, h.sizedFor, h.slot⟩

theorem dropPlan (h : Untouched s₀ s) : Untouched s₀ (dropPlan s) := by
  unfold Hummingbird.dropPlan
  split
  · exact (h.use .scheduler).release rfl
  · refine ⟨h.model, h.adapter, h.tokMgr, h.config, h.execCtx, h.events, h.sizedFor, ?_⟩
    intro k' hk'
    rw [← h.slot k' hk']
    exact s.owned.slot_forget_of_ne (ne_of_longLived rfl hk')

theorem pipelineReset (h : Untouched s₀ s) : Untouched s₀ (hbiSessionPipelineReset s) :=
  (((h.planMemory none).dropPlan.release rfl).release rfl).release rfl

theorem unwindPlan (h : Untouched s₀ s) : Untouched s₀ (unwindPlan s) :=
  (((h.use .scheduler).release rfl).release rfl).release rfl

theorem leavePlan (h : Untouched s₀ s) : Untouched s₀ (leavePlan s) :=
  ⟨h.model, h.adapter, h.tokMgr, h.config, h.execCtx, h.events, h.sizedFor, h.slot⟩

theorem prefetch (h : Untouched s₀ s) (stages : List ExecutionStage) :
    Untouched s₀ (prefetch stages s) := by
  induction stages generalizing s with
  | nil => exact h
  | cons stage rest ih =>
      unfold Hummingbird.prefetch
      split
      · exact h
      · exact ih ((h.use .graph).use .streamEngine)

theorem prefetchPlan (h : Untouched s₀ s) (plan : ExecutionPlan) :
    Untouched s₀ (prefetchPlan plan s) := by
  unfold Hummingbird.prefetchPlan
  split
  · exact (h.use .plan).prefetch plan.stages
  · exact h

end Untouched

variable (s₀ : RuntimeSession) (a : BuildAnswers)

theorem buildGraph_untouched (b : Builder) : Keeps (Untouched s₀) (buildGraph a b) := by
  refine keeps_attempt ?_ (fun _ h => h) fun _ => keeps_attempt ?_ (fun _ h => h) fun g => ?_
  · exact keeps_after (fun _ h => h.use .builder) (keeps_answer _)
  · exact keeps_answer _
  · exact keeps_after (fun _ h => (h.release rfl).acquire .graph g rfl) (keeps_answer _)

theorem createPlan_untouched (g : Graph) : Keeps (Untouched s₀) (createPlan a g) := by
  unfold createPlan
  apply keeps_after (fun _ h => (h.use .scheduler).use .graph)
  refine keeps_attempt (keeps_answer _) (fun _ h => h) fun _ => ?_
  refine keeps_attempt (keeps_answer _) ?_ fun _ => ?_
  · intro s h
    split
    · exact h.leavePlan
    · exact h
  · refine keeps_attempt (keeps_answer _) (fun _ h => h.leavePlan) fun plan => ?_
    exact keeps_after (fun _ h => h.acquire .plan plan rfl) (keeps_answer _)

theorem planMemory_untouched (g : Graph) : Keeps (Untouched s₀) (planMemory a g) := by
  refine keeps_attempt ?_ (fun _ h => h) fun _ => keeps_attempt ?_ (fun _ h => h) fun plan => ?_
  · exact keeps_after (fun _ h => (h.use .planner).use .graph) (keeps_answer _)
  · exact keeps_answer _
  · exact keeps_perform fun _ h => h.planMemory (some plan)

theorem compileGraph_untouched (g : Graph) : Keeps (Untouched s₀) (compileGraph a g) := by
  refine keeps_attempt (keeps_answer _) (fun _ h => h.release rfl) fun _ => ?_
  apply keeps_after (fun _ h => h.acquire .scheduler () rfl)
  refine keeps_attempt (createPlan_untouched s₀ a g)
    (fun _ h => (h.release rfl).release rfl) fun plan => ?_
  refine keeps_attempt (keeps_after (fun _ h => h.use .graph) (keeps_answer _))
    (fun _ h => h.unwindPlan) fun _ => ?_
  apply keeps_after (fun _ h => h.acquire .planner () rfl)
  refine keeps_attempt (planMemory_untouched s₀ a g)
    (fun _ h => (h.release rfl).unwindPlan) fun _ => ?_
  apply keeps_after (fun _ h => h.prefetchPlan plan)
  refine keeps_attempt (keeps_answer _)
    (fun _ h => ((h.release rfl).planMemory none).unwindPlan) fun _ => ?_
  exact keeps_perform fun _ h => h.acquire .backendMgr () rfl

/-- A build leaves alone what is not part of the pipeline, wherever it fails. -/
theorem pipelineBuild_untouched : Keeps (Untouched s₀) (hbiRuntimePipelineBuild a) := by
  apply keeps_branch (keeps_answer _)
  refine keeps_attempt (keeps_answer _) (fun _ h => h) fun _ => ?_
  apply keeps_after (fun _ h => h.acquire .builder () rfl)
  refine keeps_attempt (keeps_after (fun _ h => h.use .builder) (keeps_answer _))
    (fun _ h => h.release rfl) fun b => ?_
  exact keeps_attempt (buildGraph_untouched s₀ a b.1) (fun _ h => h.release rfl) fun g =>
    compileGraph_untouched s₀ a g

/-- A property that the pipeline cannot change, and that the tokenizer, the executor and
the callback keep. -/
structure Calm (P : RuntimeSession → Prop) : Prop where
  untouched : ∀ {s₀ s}, P s₀ → Untouched s₀ s → P s
  tokenized : ∀ {s} r, P s → P (s.record (.tokenized r))
  built : ∀ {s} r, P s → P (buildNote r s)
  executed : ∀ a, Keeps P (executePlan a)
  delivered : ∀ {s} chars, P s → P (s.record (.text chars))

namespace Calm

variable {P : RuntimeSession → Prop} (h : Calm P)

include h

theorem use {s : RuntimeSession} (hs : P s) (k : ObjKind) : P (s.use k) :=
  h.untouched hs ((Untouched.refl s).use k)

theorem release {s : RuntimeSession} (hs : P s) {k : ObjKind} (hk : k.longLived = false) :
    P (s.release k) :=
  h.untouched hs ((Untouched.refl s).release hk)

theorem pipelineReset {s : RuntimeSession} (hs : P s) : P (hbiSessionPipelineReset s) :=
  h.untouched hs (Untouched.refl s).pipelineReset

theorem buildPipeline (a : BuildAnswers) : Keeps P (buildPipeline a) := by
  refine keeps_noting (keeps_of_forall fun s hs => ?_) fun r _ => h.built r
  exact h.untouched hs ((pipelineBuild_untouched s a).final (Untouched.refl s))

theorem tokenizer {α : Type} (r : Result α) : Keeps P (tokenizer r) :=
  keeps_noting (keeps_answer r) fun _ _ => h.tokenized _

theorem encodePrompt (a : GenerateArgs) : Keeps P (encodePrompt a) :=
  keeps_after (fun _ hs => h.use hs .promptSeq) (keeps_branch (h.tokenizer _) (h.tokenizer _))

theorem createDecodeState (a : GenerateArgs) : Keeps P (createDecodeState a) := by
  refine keeps_branch ?_ (keeps_answer _)
  refine keeps_attempt (h.tokenizer _) (fun _ hs => hs) fun _ => keeps_perform fun s hs => ?_
  exact h.untouched hs ((Untouched.refl s).acquire .decState () rfl)

theorem decodeToken (a : StepAnswers) : Keeps P (decodeToken a) :=
  keeps_branch (keeps_after (fun _ hs => h.use hs .decState) (h.tokenizer _)) (keeps_answer _)

theorem deliver {s : RuntimeSession} (hs : P s) (onText : Bool) (chars : String) :
    P (deliver onText chars s) := by
  unfold Hummingbird.deliver
  split
  · exact h.delivered chars hs
  · exact hs

theorem signalled {s : RuntimeSession} (hs : P s) (signal : Option Bool) :
    P (s.signalled signal) :=
  h.untouched hs ⟨rfl, rfl, rfl, rfl, rfl, rfl, rfl, fun _ _ => rfl⟩

end Calm

/-- A property that the cache of the session keeps as well. -/
structure Steady (P : RuntimeSession → Prop) : Prop extends Calm P where
  prepared : ∀ nPrompt blocks, Keeps P (prepareKv nPrompt blocks)
  appended : ∀ nPrompt numTokens, Keeps P (appendTokens nPrompt numTokens)

namespace Steady

variable {P : RuntimeSession → Prop} (h : Steady P)

include h

theorem decodeLoop (a : GenerateArgs) (nPrompt remaining generated : Nat) :
    Keeps P (decodeLoop a nPrompt remaining generated) := by
  induction remaining generalizing generated with
  | zero => exact keeps_perform fun _ hs => h.signalled hs _
  | succ remaining ih =>
      refine keeps_after (fun _ hs => h.signalled hs _) ?_
      apply keeps_branch (keeps_answer _)
      apply keeps_after (fun _ hs => h.pipelineReset hs)
      refine keeps_attempt (h.buildPipeline _) (fun _ hs => hs) fun _ => ?_
      refine keeps_attempt (h.executed _) (fun _ hs => hs) fun _ => ?_
      apply keeps_after (fun _ hs => h.use (h.use hs .plan) .graph)
      apply keeps_branch (keeps_answer _)
      refine keeps_attempt (h.decodeToken _) (fun _ hs => hs) fun chars => ?_
      refine keeps_after (fun _ hs => h.deliver hs _ chars) ?_
      refine keeps_attempt (h.appended nPrompt 1) (fun _ hs => hs) fun _ => ?_
      refine keeps_after (fun _ hs => ?_) (ih (generated + 1))
      exact h.untouched hs ⟨rfl, rfl, rfl, rfl, rfl, rfl, rfl, fun _ _ => rfl⟩

theorem decodeAll (a : GenerateArgs) (nPrompt : Nat) : Keeps P (decodeAll a nPrompt) := by
  apply keeps_of_forall
  intro s hs
  have hloop := keeps_attempt (h.decodeLoop a nPrompt s.maxNew 0)
    (fun _ hs => h.release hs (k := .decState) rfl)
    fun _ => keeps_perform fun _ hs => h.release hs (k := .decState) rfl
  exact hloop.final hs

theorem generatePrompt (a : GenerateArgs) (nPrompt : Nat) : Keeps P (generatePrompt a nPrompt) := by
  have hunwind : ∀ s : RuntimeSession, P s → P (s.release .promptSeq) :=
    fun _ hs => h.release hs rfl
  refine keeps_attempt (h.buildPipeline _) hunwind fun _ => ?_
  refine keeps_attempt (h.executed _) hunwind fun _ => ?_
  refine keeps_attempt (h.prepared nPrompt _) hunwind fun _ => ?_
  refine keeps_attempt (h.appended nPrompt nPrompt) hunwind fun _ => ?_
  refine keeps_attempt (h.createDecodeState a) hunwind fun _ => ?_
  have hgiven : ∀ s : RuntimeSession, P s → P ((s.use .promptSeq).release .promptSeq) :=
    fun s hs => hunwind _ (h.use hs .promptSeq)
  apply keeps_after hgiven
  exact h.decodeAll a nPrompt

theorem generate (a : GenerateArgs) : Keeps P (hbiRuntimeGenerate a) := by
  refine keeps_branch (keeps_answer _) (keeps_branch (keeps_answer _) ?_)
  apply keeps_after (fun _ hs => h.pipelineReset hs)
  refine keeps_attempt (h.tokenizer _) (fun _ hs => hs) fun _ => ?_
  apply keeps_after (fun s hs => h.untouched hs ((Untouched.refl s).acquire .promptSeq () rfl))
  refine keeps_attempt (h.encodePrompt a) (fun _ hs => h.release hs rfl) fun nPrompt => ?_
  refine keeps_after (fun _ hs => ?_) (h.generatePrompt a nPrompt)
  exact h.untouched hs ⟨rfl, rfl, rfl, rfl, rfl, rfl, rfl, fun _ _ => rfl⟩

/-- A call on the session keeps the property. -/
theorem next {s : RuntimeSession} (hs : P s) (c : SessionCall) : P (c.next s) := by
  cases c with
  | generate a => exact (h.generate a).final hs
  | cancel => exact h.signalled hs (some true)
  | reset => exact h.signalled hs (some false)

/-- So does every sequence of calls. -/
theorem run {s : RuntimeSession} (hs : P s) (calls : List SessionCall) :
    P (Runs.final SessionCall.next s calls) :=
  @Runs.final_of_step _ _ SessionCall.next P (fun _ c hs => h.next hs c) s hs calls

end Steady

/-- What no call changes. -/
structure SameTerms (s₀ s : RuntimeSession) : Prop where
  model : s.model = s₀.model
  adapter : s.adapter = s₀.adapter
  config : s.config = s₀.config
  execCtx : s.execCtx = s₀.execCtx

theorem prepareKv_terms (s₀ : RuntimeSession) (nPrompt : Nat) (blocks : ContextBlocks) :
    Keeps (SameTerms s₀) (prepareKv nPrompt blocks) := by
  refine keeps_branch (keeps_perform ?_) (keeps_of_forall ?_)
  · intro s h
    unfold resetKv
    split
    · exact h
    · exact ⟨h.model, h.adapter, h.config, h.execCtx⟩
  · intro s h
    unfold createKv
    dsimp only
    split
    · exact h
    · split
      · exact ⟨h.model, h.adapter, h.config, h.execCtx⟩
      · exact ⟨h.model, h.adapter, h.config, h.execCtx⟩

theorem appendTokens_terms (s₀ : RuntimeSession) (nPrompt numTokens : Nat) :
    Keeps (SameTerms s₀) (appendTokens nPrompt numTokens) := by
  apply keeps_of_forall
  intro s h
  unfold appendTokens
  split
  · exact h
  · dsimp only
    split
    · exact ⟨h.model, h.adapter, h.config, h.execCtx⟩
    · exact ⟨h.model, h.adapter, h.config, h.execCtx⟩

theorem executePlan_terms (s₀ : RuntimeSession) (a : ExecAnswers) :
    Keeps (SameTerms s₀) (executePlan a) := by
  refine keeps_noting (keeps_of_forall fun s h => ?_) fun _ _ h =>
    ⟨h.model, h.adapter, h.config, h.execCtx⟩
  unfold runExecutor
  exact ⟨h.model, h.adapter, h.config, h.execCtx⟩

theorem SameTerms.steady (s₀ : RuntimeSession) : Steady (SameTerms s₀) where
  untouched h hs := ⟨hs.model.trans h.model, hs.adapter.trans h.adapter, hs.config.trans h.config,
    hs.execCtx.trans h.execCtx⟩
  tokenized _ h := ⟨h.model, h.adapter, h.config, h.execCtx⟩
  built _ h := ⟨h.model, h.adapter, h.config, h.execCtx⟩
  executed := executePlan_terms s₀
  prepared := prepareKv_terms s₀
  appended := appendTokens_terms s₀
  delivered _ h := ⟨h.model, h.adapter, h.config, h.execCtx⟩

/-- Whatever a host does, the session keeps what it was created with. -/
theorem HostStep.next_terms (s : RuntimeSession) (step : HostStep) :
    (step.next s).model = s.model ∧ (step.next s).adapter = s.adapter ∧
      (step.next s).config = s.config := by
  cases step with
  | call c =>
      have h := (SameTerms.steady s).next ⟨rfl, rfl, rfl, rfl⟩ c
      exact ⟨h.model, h.adapter, h.config⟩
  | attach ctx => exact ⟨rfl, rfl, rfl⟩

end Hummingbird

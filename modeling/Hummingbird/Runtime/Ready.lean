import Hummingbird.Runtime.Untouched
import Hummingbird.Graph.Sound

/-!
A built pipeline is not ready to execute. The session has a field for an execution
context, and no function of the runtime sets it: a session that was created without one
never gets one, so no build that succeeds leaves a session that can execute and every
run of the executor fails.
-/

namespace Hummingbird

open Calls Ownership

/-- The event shows a session without an execution context. -/
def SessionEvent.Bare : SessionEvent → Prop
  | .built r => r.execCtx = none
  | .executed r => ∃ e, r = .error e
  | _ => True

structure Contextless (s : RuntimeSession) : Prop where
  execCtx : s.execCtx = none
  events : ∀ e ∈ s.events, e.Bare

theorem Contextless.untouched {s₀ s : RuntimeSession} (h : Contextless s₀)
    (hs : Untouched s₀ s) : Contextless s :=
  ⟨hs.execCtx.trans h.execCtx, hs.events ▸ h.events⟩

theorem Contextless.record {s : RuntimeSession} (h : Contextless s) {e : SessionEvent}
    (he : e.Bare) : Contextless (s.record e) := by
  refine ⟨h.execCtx, ?_⟩
  intro e' he'
  rcases List.mem_append.mp he' with he' | he'
  · exact h.events e' he'
  · rw [List.mem_singleton.mp he']
    exact he

/-- Without an execution context the executor fails, at the latest where it looks for one. -/
theorem executorStatus_of_none {s : RuntimeSession} (hs : s.execCtx = none) (a : ExecAnswers) :
    ∃ e, executorStatus a s = .error e := by
  unfold executorStatus
  rw [hs]
  split
  · exact ⟨_, rfl⟩
  · split
    · exact ⟨_, rfl⟩
    · cases selectBackend a with
      | error e => exact ⟨e, rfl⟩
      | ok _ => exact ⟨_, rfl⟩

theorem Contextless.executePlan (a : ExecAnswers) : Keeps Contextless (executePlan a) := by
  apply keeps_of_forall
  intro s h
  have hused : Contextless (runExecutor a s).1 :=
    h.untouched (((((Untouched.refl s).use .plan).use .graph).use .backendMgr).use .streamEngine)
  exact hused.record (executorStatus_of_none h.execCtx a)

theorem prepareKv_events (nPrompt : Nat) (blocks : ContextBlocks) (s : RuntimeSession) :
    (prepareKv nPrompt blocks s).1.events = s.events := by
  unfold prepareKv branch
  split
  · unfold perform resetKv
    dsimp only
    split <;> rfl
  · unfold createKv
    dsimp only
    split
    · rfl
    · split <;> rfl

theorem appendTokens_events {nPrompt numTokens : Nat} {s : RuntimeSession} {e : SessionEvent}
    (he : e ∈ (appendTokens nPrompt numTokens s).1.events) :
    e ∈ s.events ∨ ∃ required maxTokens r, e = .appended required maxTokens r := by
  unfold appendTokens at he
  split at he
  · exact Or.inl he
  · dsimp only at he
    split at he
    all_goals
      rcases List.mem_append.mp he with he | he
      · exact Or.inl he
      · exact Or.inr ⟨_, _, _, List.mem_singleton.mp he⟩

theorem Contextless.appendTokens (nPrompt numTokens : Nat) :
    Keeps Contextless (appendTokens nPrompt numTokens) := by
  apply keeps_of_forall
  intro s h
  have hterms := (appendTokens_terms s nPrompt numTokens).final ⟨rfl, rfl, rfl, rfl⟩
  refine ⟨hterms.execCtx.trans h.execCtx, ?_⟩
  intro e he
  rcases appendTokens_events he with he | ⟨_, _, _, rfl⟩
  · exact h.events e he
  · trivial

theorem Contextless.prepareKv (nPrompt : Nat) (blocks : ContextBlocks) :
    Keeps Contextless (prepareKv nPrompt blocks) := by
  apply keeps_of_forall
  intro s h
  have hterms := (prepareKv_terms s nPrompt blocks).final ⟨rfl, rfl, rfl, rfl⟩
  exact ⟨hterms.execCtx.trans h.execCtx, (prepareKv_events nPrompt blocks s) ▸ h.events⟩

/-- Nothing that a generate call does gives the session an execution context. -/
theorem Contextless.steady : Steady Contextless where
  untouched h hs := h.untouched hs
  tokenized _ h := h.record trivial
  built _ h := h.record h.execCtx
  executed := Contextless.executePlan
  prepared := Contextless.prepareKv
  appended := Contextless.appendTokens
  delivered _ h := h.record trivial

/-- For every session that was created and every sequence of calls: no build that
succeeds leaves the session ready to execute, and no run of the executor succeeds. -/
theorem pipeline_build_never_ready {a : CreateArgs} {s : RuntimeSession}
    (hs : hbiRuntimeSessionCreate a = (s, .ok ())) (calls : List SessionCall) :
    (∀ r, .built r ∈ (Runs.final SessionCall.next s calls).events → r.result = .ok () →
      ¬ r.Ready) ∧
    ∀ r, .executed r ∈ (Runs.final SessionCall.next s calls).events → r ≠ .ok () := by
  have hbegun := begun_of_create hs
  have hstart : Contextless s := ⟨hbegun.execCtx, by simp [hbegun.events]⟩
  have hend := Contextless.steady.run hstart calls
  constructor
  · rintro r hr - ⟨_, _, ctx, -, -, hctx, -⟩
    have hnone : r.execCtx = none := hend.events _ hr
    rw [hnone] at hctx
    cases hctx
  · rintro r hr rfl
    obtain ⟨e, he⟩ := hend.events _ hr
    cases he

/-- A session with a model and an adapter, all of whose calls succeed. -/
def plainSession : CreateArgs where
  model := true
  adapter := some ⟨true⟩
  tokMgr := false
  config := none
  sessionAlloc := true
  kvManager := .ok ()
  initModel := .ok ⟨0, 0, 0, 0, 0, 0, 0⟩
  createContext := .ok ()
  streamEngine := .ok ()
  registerBlocks := []

/-- A build whose calls all succeed: the adapter asks for a fill and a copy. -/
def plainBuild : BuildAnswers where
  builderCreate := .ok ()
  buildGraph := .ok ⟨fillCopy, fillCopy_reached⟩
  graphAlloc := .ok ()
  schedulerCreate := .ok ()
  planAlloc := .ok ()
  planLeft := false
  plannerCreate := .ok ()
  plannerAlloc := .ok ()
  qsort := insertionQSort
  backendManagerCreate := .ok ()

/-- A run with one backend, whose kernels all succeed. -/
def plainExec : ExecAnswers where
  backendCount := 1
  backendAt := true
  getContext := .ok ()
  await := fun _ => .ok ()
  kernels := ⟨fun _ _ => .ok (), fun _ => .ok 0, fun _ _ => .ok [[0]]⟩
  hasExecute := true
  sync := .ok ()
  memory := fun _ => 0

def plainStep : StepAnswers where
  signal := none
  build := plainBuild
  exec := plainExec
  nextToken := 7
  decoded := .ok "x"

/-- Allocators that answer every request of the cache. -/
def plainBlocks : ContextBlocks where
  page := true
  k := some (.line 0)
  v := some (.line 1000)
  handle := true

def plainGenerate : GenerateArgs where
  prompt := "hello"
  onText := true
  sequenceCreate := .ok ()
  encode := .ok 1
  appendOne := .ok ()
  build := plainBuild
  exec := plainExec
  kvBlocks := plainBlocks
  decodeStateCreate := .ok ()
  step := fun _ => plainStep

def plainEvents : List SessionEvent :=
  (Runs.final SessionCall.next (hbiRuntimeSessionCreate plainSession).1
    [.generate plainGenerate]).events

theorem pipeline_build_never_ready_plain :
    (hbiRuntimeSessionCreate plainSession).2 = .ok () ∧
      (∀ r, .built r ∈ plainEvents → r.result = .ok () → ¬ r.Ready) ∧
      ∀ r, .executed r ∈ plainEvents → r ≠ .ok () :=
  ⟨rfl, pipeline_build_never_ready (a := plainSession) rfl [.generate plainGenerate]⟩

/-- The first build of the first call succeeds without an execution context, and the run
after it fails for want of one. -/
theorem pipeline_build_leaves_no_context :
    (hbiRuntimeSessionCreate plainSession).2 = .ok () ∧
      (∃ g plan, plainEvents = [.tokenized (.ok ()), .tokenized (.ok ()),
        .built ⟨.ok (), some g, some plan, none⟩,
        .executed (errSet .state "executor_run: no exec_ctx")]) ∧
      ¬ ∀ r, .built r ∈ plainEvents → r.result = .ok () → r.Ready := by
  have hevents : ∃ g plan, plainEvents = [.tokenized (.ok ()), .tokenized (.ok ()),
      .built ⟨.ok (), some g, some plan, none⟩,
      .executed (errSet .state "executor_run: no exec_ctx")] := ⟨_, _, rfl⟩
  refine ⟨rfl, hevents, ?_⟩
  intro hready
  obtain ⟨g, plan, hevents⟩ := hevents
  obtain ⟨_, _, ctx, -, -, hctx, -⟩ :=
    hready ⟨.ok (), some g, some plan, none⟩ (by simp [hevents]) rfl
  cases hctx

end Hummingbird

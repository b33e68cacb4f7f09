import Hummingbird.Runtime.Executor
import Hummingbird.Adapter.Descriptor
import Hummingbird.Kv.Context
import Hummingbird.Foundation.Calls
import Hummingbird.Foundation.Ownership

/-!
The runtime session: creation, teardown and the reset of the pipeline. The pointers of
the session and of its functions are the slots of an owner, so that every creation,
use and destruction of an object is in its ledger; a pointer is set to `NULL` where the
object is destroyed. What other modules answer is an argument. The session also keeps
what can be observed of it: the results of the builds, of the runs, of the tokenizer
and of the cache, and the texts handed out.
-/

namespace Hummingbird

open Calls Ownership

/-- The kinds of objects made on behalf of a session, the session itself among them. -/
inductive ObjKind where
  | session
  | builder
  | graph
  | scheduler
  | plan
  | planner
  | backendMgr
  | streamEngine
  | kvManager
  | kvCtx
  | modelCtx
  | promptSeq
  | decState
  deriving DecidableEq, Repr

/-- What is known of an object; a context of the cache is named by its handle. -/
abbrev ObjKind.Payload : ObjKind → Type
  | .graph => Graph
  | .plan => ExecutionPlan
  | .kvManager => KvManager
  | .kvCtx => Nat
  | _ => Unit

inductive SamplerType where
  | greedy
  | topK
  | topP
  deriving DecidableEq, Repr

structure RuntimeConfig where
  maxNewTokens : UInt32
  greedy : Bool
  eosTokenId : UInt32
  sampler : SamplerType
  deriving DecidableEq, Repr

def applyDefaultConfig (cfg : RuntimeConfig) : RuntimeConfig :=
  let cfg := if cfg.maxNewTokens = 0 then { cfg with maxNewTokens := 128 } else cfg
  if cfg.greedy = true then { cfg with sampler := .greedy } else cfg

/-- What a session has when a build of the pipeline returns. -/
structure BuildReport where
  result : Result Unit
  graph : Option Graph
  plan : Option ExecutionPlan
  execCtx : Option ExecContext

/-- The session can execute: it holds a context for its graph, in which every value that
a task reads or writes has a tensor. -/
def BuildReport.Ready (r : BuildReport) : Prop :=
  ∃ g plan ctx, r.graph = some g ∧ r.plan = some plan ∧ r.execCtx = some ctx ∧
    ctx.graph = g ∧ ∀ n ∈ plan.taskNodes, ∀ v ∈ n.inputs ++ n.outputs, (ctx.tensorOf v).isSome

/-- What can be observed of a session. An append to the cache shows the tokens that the
call may need in all and those that the context has room for. -/
inductive SessionEvent where
  | tokenized (result : Result Unit)
  | built (report : BuildReport)
  | executed (result : Result Unit)
  | appended (required maxTokens : Nat) (result : Result Unit)
  | text (chars : String)

/-- The part of an adapter that the session looks at. -/
structure ModelAdapter where
  destroyContext : Bool
  deriving DecidableEq, Repr

/-- `sizedFor` is the length of the prompt that the context of the cache was created
for; no function of the session looks at it or at the events. -/
structure RuntimeSession where
  model : Bool
  adapter : Option ModelAdapter
  tokMgr : Bool
  config : RuntimeConfig
  cancelFlag : Bool
  descriptor : ModelDescriptor
  planMemory : Option MemoryPlan
  execCtx : Option ExecContext
  prefillTokens : Nat
  totalTokensGenerated : Nat
  owned : Owner ObjKind ObjKind.Payload
  events : List SessionEvent
  sizedFor : Option Nat

namespace RuntimeSession

variable (s : RuntimeSession)

def acquire (k : ObjKind) (v : k.Payload) : RuntimeSession :=
  { s with owned := s.owned.acquire k v }

def use (k : ObjKind) : RuntimeSession := { s with owned := s.owned.use k }

def release (k : ObjKind) : RuntimeSession := { s with owned := s.owned.release k }

def store (k : ObjKind) (v : k.Payload) : RuntimeSession :=
  { s with owned := s.owned.store k v }

def record (e : SessionEvent) : RuntimeSession := { s with events := s.events ++ [e] }

end RuntimeSession

abbrev SessionM (α : Type) := Call RuntimeSession Failure α

/-- The plan goes back to the allocator of the scheduler. -/
def hbiExecutionPlanDestroy (s : RuntimeSession) : RuntimeSession :=
  (s.use .scheduler).release .plan

/-- The plan is destroyed only while there is a scheduler, and forgotten in any case. -/
def dropPlan (s : RuntimeSession) : RuntimeSession :=
  if (s.owned.id? .scheduler).isSome = true then hbiExecutionPlanDestroy s
  else { s with owned := s.owned.forget .plan }

/-- The memory plan belongs to the planner, and `hbi_memory_plan_destroy` does nothing. -/
def hbiSessionPipelineReset (s : RuntimeSession) : RuntimeSession :=
  (((dropPlan { s with planMemory := none }).release .scheduler).release .graph).release .backendMgr

def destroyModelCtx (s : RuntimeSession) : RuntimeSession :=
  match s.adapter with
  | some adapter => if adapter.destroyContext = true then s.release .modelCtx else s
  | none => s

/-- `hbi_kv_context_destroy` on the context of the session. -/
def destroyKvCtx (s : RuntimeSession) : RuntimeSession :=
  match s.owned.value? .kvManager, s.owned.value? .kvCtx with
  | some mgr, some h =>
      let mgr := ((mgr.live h).map (hbiKvContextDestroy mgr h)).getD mgr
      (s.store .kvManager mgr).release .kvCtx
  | _, _ => s

/-- A context that the manager still lists is destroyed with it. -/
def destroyLingering (s : RuntimeSession) (h : Nat) : RuntimeSession :=
  if s.owned.value? .kvCtx = some h then s.release .kvCtx
  else { s with owned := s.owned.blame }

def hbiKvManagerDestroy (s : RuntimeSession) : RuntimeSession :=
  match s.owned.value? .kvManager with
  | none => s
  | some mgr => (mgr.contexts.foldl destroyLingering s).release .kvManager

def hbiRuntimeSessionDestroy (s : RuntimeSession) : RuntimeSession :=
  let s := destroyModelCtx (hbiSessionPipelineReset s)
  (hbiKvManagerDestroy (destroyKvCtx s)).release .session

/-- The arguments of `hbi_runtime_session_create`, and what the calls it makes answer. -/
structure CreateArgs where
  model : Bool
  adapter : Option ModelAdapter
  tokMgr : Bool
  config : Option RuntimeConfig
  sessionAlloc : Bool
  kvManager : Result Unit
  initModel : Result ModelDescriptor
  createContext : Result Unit
  streamEngine : Result Unit
  registerBlocks : List (Result Unit)

def defaultConfig : RuntimeConfig := ⟨0, true, 0, .greedy⟩

/-- The zeroed session with the borrowed references and the configuration. -/
def CreateArgs.start (a : CreateArgs) : RuntimeSession where
  model := a.model
  adapter := a.adapter
  tokMgr := a.tokMgr
  config := applyDefaultConfig (a.config.getD defaultConfig)
  cancelFlag := false
  descriptor := ⟨0, 0, 0, 0, 0, 0, 0⟩
  planMemory := none
  execCtx := none
  prefillTokens := 0
  totalTokensGenerated := 0
  owned := Owner.empty
  events := []
  sizedFor := none

/-- The initialisation of the model, when there is an adapter and a model. -/
def initAdapter (a : CreateArgs) : SessionM Unit :=
  branch (fun s => s.adapter.isSome && s.model)
    (attempt (answer a.initModel) id fun descriptor =>
      after (fun s => { s with descriptor := descriptor }) <|
      attempt (answer a.createContext) id fun _ => perform (·.acquire .modelCtx ()))
    (answer (.ok ()))

/-- The loop over the manifest. -/
def registerBlocks : List (Result Unit) → SessionM Unit
  | [] => answer (.ok ())
  | r :: rest => attempt (after (·.use .streamEngine) (answer r)) id fun _ => registerBlocks rest

def startStream (a : CreateArgs) : SessionM Unit :=
  branch (fun s => s.model)
    (attempt (answer a.streamEngine) id fun _ =>
      after (·.acquire .streamEngine ()) (registerBlocks a.registerBlocks))
    (answer (.ok ()))

def allocSession (a : CreateArgs) : Result Unit :=
  if a.sessionAlloc = true then .ok ()
  else errSet .oom "runtime_session_create: session alloc failed"

def createSession (a : CreateArgs) : SessionM Unit :=
  attempt (answer (allocSession a)) id fun _ =>
  after (·.acquire .session ()) <|
  attempt (answer a.kvManager) (·.release .session) fun _ =>
  after (·.acquire .kvManager KvManager.empty) <|
  attempt (initAdapter a) (fun s => (hbiKvManagerDestroy s).release .session) fun _ =>
  attempt (startStream a) hbiRuntimeSessionDestroy fun _ => answer (.ok ())

def hbiRuntimeSessionCreate (a : CreateArgs) : RuntimeSession × Result Unit :=
  createSession a a.start

/-- What a session has from its creation on, besides its objects. -/
structure Begun (a : CreateArgs) (s : RuntimeSession) : Prop where
  model : s.model = a.model
  adapter : s.adapter = a.adapter
  config : s.config = applyDefaultConfig (a.config.getD defaultConfig)
  execCtx : s.execCtx = none
  events : s.events = []
  sizedFor : s.sizedFor = none
  kvCtx : s.owned.slot .kvCtx = none

theorem Begun.acquire {a : CreateArgs} {s : RuntimeSession} (h : Begun a s) (k : ObjKind)
    (v : k.Payload) (hk : .kvCtx ≠ k) : Begun a (s.acquire k v) :=
  ⟨h.model, h.adapter, h.config, h.execCtx, h.events, h.sizedFor,
    (s.owned.slot_acquire_of_ne hk v).trans h.kvCtx⟩

theorem Begun.use {a : CreateArgs} {s : RuntimeSession} (h : Begun a s) (k : ObjKind) :
    Begun a (s.use k) :=
  ⟨h.model, h.adapter, h.config, h.execCtx, h.events, h.sizedFor,
    (congrFun (s.owned.slot_use k) .kvCtx).trans h.kvCtx⟩

theorem initAdapter_begun (a : CreateArgs) : Keeps (Begun a) (initAdapter a) := by
  refine keeps_branch ?_ (keeps_answer _)
  refine keeps_attempt (keeps_answer _) (fun _ h => h) fun descriptor => ?_
  refine keeps_after (fun _ h =>
    ⟨h.model, h.adapter, h.config, h.execCtx, h.events, h.sizedFor, h.kvCtx⟩) ?_
  refine keeps_attempt (keeps_answer _) (fun _ h => h) fun _ => ?_
  exact keeps_perform fun _ h => h.acquire .modelCtx () (by decide)

theorem registerBlocks_keeps {P : RuntimeSession → Prop}
    (huse : ∀ s, P s → P (s.use .streamEngine)) (blocks : List (Result Unit)) :
    Keeps P (registerBlocks blocks) := by
  induction blocks with
  | nil => exact keeps_answer _
  | cons r rest ih =>
      exact keeps_attempt (keeps_after huse (keeps_answer r)) (fun _ h => h) fun _ => ih

theorem startStream_keeps {P : RuntimeSession → Prop}
    (huse : ∀ s, P s → P (s.use .streamEngine))
    (hacquire : ∀ s, P s → P (s.acquire .streamEngine ())) (a : CreateArgs) :
    Keeps P (startStream a) := by
  refine keeps_branch ?_ (keeps_answer _)
  refine keeps_attempt (keeps_answer _) (fun _ h => h) fun _ => ?_
  exact keeps_after hacquire (registerBlocks_keeps huse _)

theorem startStream_begun (a : CreateArgs) : Keeps (Begun a) (startStream a) :=
  startStream_keeps (fun _ h => h.use .streamEngine)
    (fun _ h => h.acquire .streamEngine () (by decide)) a

/-- A session that was created has no execution context and no context of the cache. -/
theorem createSession_begun (a : CreateArgs) :
    Meets (Begun a) (createSession a) (fun _ => Begun a) fun _ => True := by
  refine meets_attempt (keeps_answer _) (fun _ _ => trivial) fun _ => ?_
  refine meets_after ?_ fun _ h => h.acquire .session () (by decide)
  refine meets_attempt (keeps_answer _) (fun _ _ => trivial) fun _ => ?_
  refine meets_after ?_ fun _ h => h.acquire .kvManager KvManager.empty (by decide)
  refine meets_attempt (initAdapter_begun a) (fun _ _ => trivial) fun _ => ?_
  refine meets_attempt (startStream_begun a) (fun _ _ => trivial) fun _ => ?_
  exact meets_answer (fun _ _ _ h => h) fun _ _ _ _ => trivial

theorem CreateArgs.start_begun (a : CreateArgs) : Begun a a.start :=
  ⟨rfl, rfl, rfl, rfl, rfl, rfl, rfl⟩

theorem begun_of_create {a : CreateArgs} {s : RuntimeSession}
    (hs : hbiRuntimeSessionCreate a = (s, .ok ())) : Begun a s := by
  have hend := (createSession_begun a a.start a.start_begun).1 ()
  unfold hbiRuntimeSessionCreate at hs
  rw [hs] at hend
  exact hend rfl

end Hummingbird

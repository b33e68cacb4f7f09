import Hummingbird.Runtime.Pipeline

/-!
The generation of text: the prompt is encoded, the pipeline is built and run for it, the
cache is prepared, and then the pipeline is torn down, built and run again for every
new token. The cancel flag may be stored to by other threads and by the callback, which
is among the answers of a step.
-/

namespace Hummingbird

open Calls Ownership

/-- What the environment answers during one decode step. `signal` is the last store to
the cancel flag before the step reads it, and `nextToken` what the sampler leaves,
whatever status it returns. -/
structure StepAnswers where
  signal : Option Bool
  build : BuildAnswers
  exec : ExecAnswers
  nextToken : UInt32
  decoded : Result String

/-- The arguments of `hbi_runtime_generate`, and what the calls it makes answer. The
encoded prompt counts as many tokens as `encode` says. -/
structure GenerateArgs where
  prompt : String
  onText : Bool
  sequenceCreate : Result Unit
  encode : Result UInt32
  appendOne : Result Unit
  build : BuildAnswers
  exec : ExecAnswers
  kvBlocks : ContextBlocks
  decodeStateCreate : Result Unit
  step : Nat → StepAnswers

/-- The limit on new tokens, `max_new`. -/
def RuntimeSession.maxNew (s : RuntimeSession) : Nat :=
  if s.config.maxNewTokens ≠ 0 then s.config.maxNewTokens.toNat else 128

def tokenizerNote {α : Type} (r : Result α) (s : RuntimeSession) : RuntimeSession :=
  s.record (.tokenized (r.map fun _ => ()))

def tokenizer {α : Type} (r : Result α) : SessionM α := noting tokenizerNote (answer r)

/-- The prompt as tokens, or a single token for want of a tokenizer or a prompt. -/
def encodePrompt (a : GenerateArgs) : SessionM Nat :=
  after (·.use .promptSeq) <|
  branch (fun s => s.tokMgr && a.prompt != "")
    (tokenizer (a.encode.map UInt32.toNat))
    (tokenizer (a.appendOne.map fun _ => 1))

def buildNote (r : Result Unit) (s : RuntimeSession) : RuntimeSession :=
  s.record (.built ⟨r, s.owned.value? .graph, s.owned.value? .plan, s.execCtx⟩)

def buildPipeline (a : BuildAnswers) : SessionM Unit :=
  noting buildNote (hbiRuntimePipelineBuild a)

def executeNote (r : Result Unit) (s : RuntimeSession) : RuntimeSession :=
  s.record (.executed r)

def executePlan (a : ExecAnswers) : SessionM Unit := noting executeNote (runExecutor a)

/-- The shape of the cached keys and values, with defaults for a descriptor of zeros. -/
def sessionKvShape (d : ModelDescriptor) (maxToks : Nat) : Shape :=
  let kvHeads := if d.numKvHeads ≠ 0 then d.numKvHeads else 1
  let hidden := if d.hiddenSize ≠ 0 then d.hiddenSize else 64
  let numLayers := if d.numLayers ≠ 0 then d.numLayers else 1
  ⟨[(numLayers : Int), (kvHeads : Int), (maxToks : Int), ((hidden / kvHeads : Nat) : Int)]⟩

/-- The context of the cache, behind the handle that the session holds. -/
def RuntimeSession.kvContext (s : RuntimeSession) : Option (KvManager × Nat × ContextHandle) := do
  let mgr ← s.owned.value? .kvManager
  let h ← s.owned.value? .kvCtx
  let ctx ← mgr.live h
  return (mgr, h, ctx)

def resetKv (s : RuntimeSession) : RuntimeSession :=
  match s.kvContext with
  | none => s
  | some (mgr, h, ctx) =>
      (s.use .kvCtx).store .kvManager (mgr.store h (hbiKvContextReset ctx))

/-- The call of `hbi_kv_context_create`: room for the prompt and the new tokens. -/
def createKv (nPrompt : Nat) (blocks : ContextBlocks) : SessionM Unit := fun s =>
  let maxToks := (nPrompt + s.maxNew) % uint32Size
  let shape := sessionKvShape s.descriptor maxToks
  match s.owned.value? .kvManager with
  | none => (s, errSet .invalidArg "context create: NULL args")
  | some mgr =>
      match hbiKvContextCreate mgr maxToks .fp32 shape shape blocks with
      | .error e => (s.use .kvManager, .error e)
      | .ok (mgr, h) =>
          let s := ((s.use .kvManager).store .kvManager mgr).acquire .kvCtx h
          ({ s with sizedFor := some nPrompt }, .ok ())

/-- A context that exists is emptied and keeps its size. -/
def prepareKv (nPrompt : Nat) (blocks : ContextBlocks) : SessionM Unit :=
  branch (fun s => (s.owned.id? .kvCtx).isSome) (perform resetKv) (createKv nPrompt blocks)

def appendTokens (nPrompt numTokens : Nat) : SessionM Unit := fun s =>
  match s.kvContext with
  | none => (s, errSet .invalidArg "context append: NULL handle")
  | some (mgr, h, ctx) =>
      let r := hbiKvContextAppendTokens ctx numTokens
      let s := (s.use .kvCtx).record
        (.appended (nPrompt + s.maxNew) ctx.state.maxTokens (r.map fun _ => ()))
      match r with
      | .error e => (s, .error e)
      | .ok ctx => (s.store .kvManager (mgr.store h ctx), .ok ())

def createDecodeState (a : GenerateArgs) : SessionM Unit :=
  branch (fun s => s.tokMgr)
    (attempt (tokenizer a.decodeStateCreate) id fun _ => perform (·.acquire .decState ()))
    (answer (.ok ()))

/-- The text of a token, or its number for want of a tokenizer. -/
def decodeToken (a : StepAnswers) : SessionM String :=
  branch (fun s => s.tokMgr && (s.owned.id? .decState).isSome)
    (after (·.use .decState) (tokenizer a.decoded))
    (answer (.ok s!"<{a.nextToken.toNat}>"))

def deliver (onText : Bool) (chars : String) (s : RuntimeSession) : RuntimeSession :=
  if onText = true ∧ chars ≠ "" then s.record (.text chars) else s

def RuntimeSession.signalled (signal : Option Bool) (s : RuntimeSession) : RuntimeSession :=
  { s with cancelFlag := signal.getD s.cancelFlag }

def isEos (token : UInt32) (s : RuntimeSession) : Bool :=
  s.config.eosTokenId != 0 && token == s.config.eosTokenId

def countToken (s : RuntimeSession) : RuntimeSession :=
  { s with totalTokensGenerated := (s.totalTokensGenerated + 1) % sizeTSize }

/-- The decode loop, with the number of tokens that it may still generate and of those
that it has generated. -/
def decodeLoop (a : GenerateArgs) (nPrompt : Nat) : (remaining generated : Nat) → SessionM Unit
  | 0, generated => perform (RuntimeSession.signalled (a.step generated).signal)
  | remaining + 1, generated =>
      after (RuntimeSession.signalled (a.step generated).signal) <|
      branch (fun s => s.cancelFlag) (answer (.ok ())) <|
      after hbiSessionPipelineReset <|
      attempt (buildPipeline (a.step generated).build) id fun _ =>
      attempt (executePlan (a.step generated).exec) id fun _ =>
      after (fun s => (s.use .plan).use .graph) <|
      branch (isEos (a.step generated).nextToken) (answer (.ok ())) <|
      attempt (decodeToken (a.step generated)) id fun chars =>
      after (deliver a.onText chars) <|
      attempt (appendTokens nPrompt 1) id fun _ =>
      after countToken (decodeLoop a nPrompt remaining (generated + 1))

/-- The last part of `hbi_runtime_generate`: the decode state lives as long as the loop. -/
def decodeAll (a : GenerateArgs) (nPrompt : Nat) : SessionM Unit := fun s =>
  attempt (decodeLoop a nPrompt s.maxNew 0) (·.release .decState)
    (fun _ => perform (·.release .decState)) s

/-- From the encoded prompt on. Every failure gives the prompt back. -/
def generatePrompt (a : GenerateArgs) (nPrompt : Nat) : SessionM Unit :=
  attempt (buildPipeline a.build) (·.release .promptSeq) fun _ =>
  attempt (executePlan a.exec) (·.release .promptSeq) fun _ =>
  attempt (prepareKv nPrompt a.kvBlocks) (·.release .promptSeq) fun _ =>
  attempt (appendTokens nPrompt nPrompt) (·.release .promptSeq) fun _ =>
  attempt (createDecodeState a) (·.release .promptSeq) fun _ =>
  after (fun s => (s.use .promptSeq).release .promptSeq) (decodeAll a nPrompt)

/-- From the reset of the pipeline on. -/
def generateAdmitted (a : GenerateArgs) : SessionM Unit :=
  after hbiSessionPipelineReset <|
  attempt (tokenizer a.sequenceCreate) id fun _ =>
  after (·.acquire .promptSeq ()) <|
  attempt (encodePrompt a) (·.release .promptSeq) fun nPrompt =>
  after (fun s => { s with prefillTokens := nPrompt }) (generatePrompt a nPrompt)

def hbiRuntimeGenerate (a : GenerateArgs) : SessionM Unit :=
  branch (fun s => s.cancelFlag) (answer (errSet .state "generate: session is cancelled")) <|
  branch (fun s => !s.model || s.adapter.isNone)
    (answer (errSet .state "generate: session has no model or adapter")) (generateAdmitted a)

def hbiSessionCancel (s : RuntimeSession) : RuntimeSession := { s with cancelFlag := true }

def hbiSessionReset (s : RuntimeSession) : RuntimeSession := { s with cancelFlag := false }

/-- A call on a session. -/
inductive SessionCall where
  | generate (a : GenerateArgs)
  | cancel
  | reset

def SessionCall.next (s : RuntimeSession) : SessionCall → RuntimeSession
  | .generate a => (hbiRuntimeGenerate a s).1
  | .cancel => hbiSessionCancel s
  | .reset => hbiSessionReset s

/-- What a host does with a session: it calls it, and it may set the execution context
by hand, which no function of the runtime does. -/
inductive HostStep where
  | call (c : SessionCall)
  | attach (ctx : ExecContext)

def HostStep.next (s : RuntimeSession) : HostStep → RuntimeSession
  | .call c => c.next s
  | .attach ctx => { s with execCtx := some ctx }

end Hummingbird

import Hummingbird.Runtime.Ledger
import Hummingbird.Runtime.Ready
import Hummingbird.Runtime.DecodeLoop

/-!
The room in the cache. The first call of a session that gets as far creates the context
with room for its own prompt and the new tokens; later calls only empty it. So the room
is right for a call exactly when its prompt is no longer than the one that the context
was created for.
-/

namespace Hummingbird

open Calls Ownership

/-- An append that found room for all that its call may need, and succeeded. -/
def SessionEvent.Roomy : SessionEvent → Prop
  | .appended required maxTokens r => required ≤ maxTokens ∧ r = .ok ()
  | _ => True

/-- A call of the tokenizer, a build or a run that succeeded. -/
def SessionEvent.Succeeded : SessionEvent → Prop
  | .tokenized r => r = .ok ()
  | .built r => r.result = .ok ()
  | .executed r => r = .ok ()
  | _ => True

instance : DecidablePred SessionEvent.Roomy
  | .appended required maxTokens r =>
      inferInstanceAs (Decidable (required ≤ maxTokens ∧ r = .ok ()))
  | .tokenized _ | .built _ | .executed _ | .text _ => inferInstanceAs (Decidable True)

instance : DecidablePred SessionEvent.Succeeded
  | .tokenized r | .executed r => inferInstanceAs (Decidable (r = .ok ()))
  | .built r => inferInstanceAs (Decidable (r.result = .ok ()))
  | .appended _ _ _ | .text _ => inferInstanceAs (Decidable True)

/-- The tokens of a prompt, by whether there is a tokenizer. -/
def GenerateArgs.promptTokens (a : GenerateArgs) (tokMgr : Bool) : Nat :=
  if (tokMgr && a.prompt != "") = true then (a.encode.toOption.map UInt32.toNat).getD 0 else 1

/-- The session does not turn a generate call away. -/
def Admits (s : RuntimeSession) : Prop :=
  s.cancelFlag = false ∧ s.model = true ∧ s.adapter.isSome = true

/-- What is known of the cache between calls, with a fixed limit on new tokens. -/
structure Capacity (maxNew : Nat) (s : RuntimeSession) : Prop where
  limit : s.maxNew = maxNew
  sized : (s.sizedFor = none ∧ ∃ mgr, NoCache s mgr) ∨
    ∃ n mgr h ctx, s.sizedFor = some n ∧ n + maxNew < uint32Size ∧ CacheAt s mgr h ctx ∧
      ctx.state.maxTokens = n + maxNew
  roomy : ∀ e ∈ s.events, e.Roomy

/-- During a call: the context has room, and holds so many tokens. -/
structure Filled (maxNew nPrompt total : Nat) (s : RuntimeSession) : Prop where
  limit : s.maxNew = maxNew
  sized : ∃ n mgr h ctx, s.sizedFor = some n ∧ nPrompt ≤ n ∧ n + maxNew < uint32Size ∧
    CacheAt s mgr h ctx ∧ ctx.state.maxTokens = n + maxNew ∧ ctx.state.totalTokens = total
  roomy : ∀ e ∈ s.events, e.Roomy

/-- The prompt is no longer than the one that the context was created for. -/
def PromptWithin (nPrompt : Nat) (s : RuntimeSession) : Prop :=
  ∀ n, s.sizedFor = some n → nPrompt ≤ n

/-- At the start of a call that the session does not turn away. -/
structure Entering (maxNew nPrompt : Nat) (tokMgr : Bool) (s : RuntimeSession) : Prop where
  capacity : Capacity maxNew s
  within : PromptWithin nPrompt s
  tokenizer : s.tokMgr = tokMgr

theorem RuntimeSession.maxNew_congr {s s' : RuntimeSession} (h : s'.config = s.config) :
    s'.maxNew = s.maxNew := by
  unfold RuntimeSession.maxNew
  rw [h]

theorem forall_mem_record {p : SessionEvent → Prop} {s : RuntimeSession}
    (h : ∀ e ∈ s.events, p e) {e : SessionEvent} (he : p e) : ∀ e' ∈ (s.record e).events, p e' := by
  intro e' he'
  rcases List.mem_append.mp he' with he' | he'
  · exact h e' he'
  · rw [List.mem_singleton.mp he']
    exact he

section Calm

variable {maxNew nPrompt total : Nat} {s s₀ : RuntimeSession}

theorem Capacity.untouched (h : Capacity maxNew s₀) (hs : Untouched s₀ s) : Capacity maxNew s := by
  refine ⟨(RuntimeSession.maxNew_congr hs.config).trans h.limit, ?_, hs.events ▸ h.roomy⟩
  rw [hs.sizedFor]
  rcases h.sized with ⟨hnone, mgr, hcache⟩ | ⟨n, mgr, i, ctx, hn, hlt, hcache, hmax⟩
  · exact Or.inl ⟨hnone, mgr, hcache.untouched hs⟩
  · exact Or.inr ⟨n, mgr, i, ctx, hn, hlt, hcache.untouched hs, hmax⟩

theorem Capacity.record (h : Capacity maxNew s) {e : SessionEvent} (he : e.Roomy) :
    Capacity maxNew (s.record e) := by
  refine ⟨h.limit, ?_, forall_mem_record h.roomy he⟩
  rcases h.sized with ⟨hnone, mgr, hcache⟩ | ⟨n, mgr, i, ctx, hn, hlt, hcache, hmax⟩
  · exact Or.inl ⟨hnone, mgr, hcache.of_slots rfl rfl⟩
  · exact Or.inr ⟨n, mgr, i, ctx, hn, hlt, hcache.record e, hmax⟩

theorem Filled.untouched (h : Filled maxNew nPrompt total s₀) (hs : Untouched s₀ s) :
    Filled maxNew nPrompt total s := by
  refine ⟨(RuntimeSession.maxNew_congr hs.config).trans h.limit, ?_, hs.events ▸ h.roomy⟩
  rw [hs.sizedFor]
  obtain ⟨n, mgr, i, ctx, hn, hle, hlt, hcache, hmax⟩ := h.sized
  exact ⟨n, mgr, i, ctx, hn, hle, hlt, hcache.untouched hs, hmax⟩

theorem Filled.record (h : Filled maxNew nPrompt total s) {e : SessionEvent} (he : e.Roomy) :
    Filled maxNew nPrompt total (s.record e) := by
  refine ⟨h.limit, ?_, forall_mem_record h.roomy he⟩
  obtain ⟨n, mgr, i, ctx, hn, hle, hlt, hcache, hmax⟩ := h.sized
  exact ⟨n, mgr, i, ctx, hn, hle, hlt, hcache.record e, hmax⟩

/-- A property that only the pipeline and the events could touch, and neither does. -/
theorem calm_of_record {P : RuntimeSession → Prop}
    (huntouched : ∀ {s₀ s}, P s₀ → Untouched s₀ s → P s)
    (hrecord : ∀ {s e}, P s → e.Roomy → P (s.record e)) : Calm P where
  untouched := huntouched
  tokenized _ h := hrecord h trivial
  built _ h := hrecord h trivial
  executed _ := keeps_noting (keeps_of_forall fun s h => huntouched h
    (((((Untouched.refl s).use .plan).use .graph).use .backendMgr).use .streamEngine))
    fun _ _ h => hrecord h trivial
  delivered _ h := hrecord h trivial

theorem Filled.calm : Calm (Filled maxNew nPrompt total) :=
  calm_of_record (fun h hs => h.untouched hs) fun h he => h.record he

theorem Entering.calm {tokMgr : Bool} : Calm (Entering maxNew nPrompt tokMgr) :=
  calm_of_record (fun h hs => ⟨h.capacity.untouched hs, fun n hn => h.within n (hs.sizedFor ▸ hn),
    hs.tokMgr.trans h.tokenizer⟩) fun h he => ⟨h.capacity.record he, h.within, h.tokenizer⟩

theorem Filled.capacity (h : Filled maxNew nPrompt total s) : Capacity maxNew s := by
  obtain ⟨n, mgr, i, ctx, hn, -, hlt, hcache, hmax, -⟩ := h.sized
  exact ⟨h.limit, Or.inr ⟨n, mgr, i, ctx, hn, hlt, hcache, hmax⟩, h.roomy⟩

end Calm

section Generate

variable {maxNew nPrompt : Nat}

/-- What the tokenizer answers is what is used, and its failures are on record. -/
theorem Calm.tokenizer_eq {P R : RuntimeSession → Prop} (h : Calm P) {α : Type} (r : Result α)
    (hR : ∀ e s, P s → R (s.record (.tokenized (.error e)))) :
    Meets P (Hummingbird.tokenizer r) (fun v s => r = .ok v ∧ P s) R := by
  intro s hs
  refine ⟨fun v hv => ⟨hv, h.tokenized _ hs⟩, ?_⟩
  intro e he
  have hres : r = .error e := he
  subst hres
  exact hR e s hs

theorem encodePrompt_promptTokens {P R : RuntimeSession → Prop} (h : Calm P) (a : GenerateArgs)
    {tokMgr : Bool} (htok : ∀ s, P s → s.tokMgr = tokMgr)
    (hR : ∀ e s, P s → R (s.record (.tokenized (.error e)))) :
    Meets P (encodePrompt a) (fun n s => n = a.promptTokens tokMgr ∧ P s) R := by
  refine meets_after (meets_branch ?_ ?_) fun _ hs => h.use hs .promptSeq
  · rintro s ⟨hs, hc⟩
    obtain ⟨hok, herr⟩ := h.tokenizer_eq (a.encode.map UInt32.toNat) hR s hs
    refine ⟨?_, herr⟩
    intro n hn
    obtain ⟨hencode, hend⟩ := hok n hn
    refine ⟨?_, hend⟩
    rw [htok s hs] at hc
    cases hres : a.encode with
    | error e => simp [hres, Except.map] at hencode
    | ok v =>
        simp only [hres, Except.map, Except.ok.injEq] at hencode
        simp [GenerateArgs.promptTokens, hc, hres, hencode, Except.toOption]
  · rintro s ⟨hs, hc⟩
    obtain ⟨hok, herr⟩ := h.tokenizer_eq (a.appendOne.map fun _ => 1) hR s hs
    refine ⟨?_, herr⟩
    intro n hn
    obtain ⟨hone, hend⟩ := hok n hn
    refine ⟨?_, hend⟩
    rw [htok s hs] at hc
    cases hres : a.appendOne with
    | error e => simp [hres, Except.map] at hone
    | ok v =>
        simp only [hres, Except.map, Except.ok.injEq] at hone
        simp [GenerateArgs.promptTokens, hc, ← hone]

/-- The context is created with room for this prompt, or was created for a longer one. -/
theorem prepareKv_filled {tokMgr : Bool} (hfit : nPrompt + maxNew < uint32Size)
    (blocks : ContextBlocks) :
    Meets (Entering maxNew nPrompt tokMgr) (prepareKv nPrompt blocks)
      (fun _ => Filled maxNew nPrompt 0) (Capacity maxNew) := by
  refine meets_branch (meets_perform ?_) ?_
  · rintro s ⟨h, hsome⟩
    rcases h.capacity.sized with ⟨-, mgr, hcache⟩ | ⟨n, mgr, i, ctx, hn, hlt, hcache, hmax⟩
    · rw [s.owned.id?_eq_none_of_value? hcache.handle] at hsome
      cases hsome
    · have hnext := hcache.resetKv
      rw [hcache.resetKv_eq] at hnext ⊢
      exact ⟨h.capacity.limit, ⟨n, _, i, _, hn, h.within n hn, hlt, hnext, hmax, rfl⟩,
        h.capacity.roomy⟩
  · rintro s ⟨h, hnone⟩
    rcases h.capacity.sized with ⟨hsized, mgr, hcache⟩ | ⟨n, mgr, i, ctx, -, -, hcache, -⟩
    · rcases hcache.createKv nPrompt blocks with
        ⟨e, he⟩ | ⟨mgr', i, ctx, hnext, hok, hsize, hconfig, hevents, hmax, htotal⟩
      · rw [he]
        refine ⟨fun _ hv => (by cases hv), fun _ _ => ?_⟩
        exact h.capacity.untouched ((Untouched.refl s).use .kvManager)
      · rw [h.capacity.limit, Nat.mod_eq_of_lt hfit] at hmax
        refine ⟨fun _ _ => ⟨?_, ?_, ?_⟩, fun _ he => by rw [hok] at he; cases he⟩
        · exact (RuntimeSession.maxNew_congr hconfig).trans h.capacity.limit
        · exact ⟨nPrompt, mgr', i, ctx, hsize, le_rfl, hfit, hnext, hmax, htotal⟩
        · rw [hevents]
          exact h.capacity.roomy
    · have hsome := s.owned.id?_isSome_of_value? hcache.handle
      rw [hsome] at hnone
      cases hnone

/-- An append within the room of the call succeeds. -/
theorem appendTokens_filled {total numTokens : Nat} (hle : total + numTokens ≤ nPrompt + maxNew) :
    Meets (Filled maxNew nPrompt total) (appendTokens nPrompt numTokens)
      (fun _ => Filled maxNew nPrompt (total + numTokens)) fun _ => False := by
  intro s h
  obtain ⟨n, mgr, i, ctx, hn, hprompt, hlt, hcache, hmax, htotal⟩ := h.sized
  have hmod : (ctx.state.totalTokens + numTokens) % uint32Size = total + numTokens := by
    rw [htotal]
    exact Nat.mod_eq_of_lt (by omega)
  have hok : hbiKvContextAppendTokens ctx numTokens = .ok
      { ctx with
        state := { ctx.state with totalTokens := total + numTokens }
        pages := distributeTokens numTokens ctx.pages } := by
    unfold hbiKvContextAppendTokens
    simp only [hmod]
    rw [if_neg (by omega)]
  rw [hcache.appendTokens_ok hok]
  refine ⟨fun _ _ => ⟨h.limit, ?_, ?_⟩, fun _ he => by cases he⟩
  · exact ⟨n, _, i, _, hn, hprompt, hlt, ((hcache.use .kvCtx).record _).store _, hmax, rfl⟩
  · refine @forall_mem_record SessionEvent.Roomy (s.use .kvCtx) h.roomy _ ⟨?_, rfl⟩
    rw [h.limit, hmax]
    omega

theorem Calm.enterRound {P : RuntimeSession → Prop} (h : Calm P) (a : GenerateArgs)
    (limit generated : Nat) : Keeps P (enterRound a limit generated) := by
  refine keeps_after (fun _ hs => h.signalled hs _) ?_
  refine keeps_branch (keeps_answer _) (keeps_branch (keeps_answer _) ?_)
  apply keeps_after (fun _ hs => h.pipelineReset hs)
  refine keeps_attempt (h.buildPipeline _) (fun _ hs => hs) fun _ => ?_
  refine keeps_attempt (h.executed _) (fun _ hs => hs) fun _ => ?_
  exact keeps_after (fun _ hs => h.use (h.use hs .plan) .graph) (keeps_answer _)

theorem Filled.countToken {total : Nat} {s : RuntimeSession} (h : Filled maxNew nPrompt total s) :
    Filled maxNew nPrompt total (countToken s) :=
  h.untouched ⟨rfl, rfl, rfl, rfl, rfl, rfl, rfl, fun _ _ => rfl⟩

/-- After a round: there is room for what follows, and a round that goes on has appended one
token. -/
structure RoundFilled (maxNew nPrompt generated : Nat) (more : Bool) (s : RuntimeSession) :
    Prop where
  capacity : Capacity maxNew s
  filled : more = true → Filled maxNew nPrompt (nPrompt + (generated + 1)) s

theorem finishRound_filled (a : GenerateArgs) {generated : Nat} (hlt : generated < maxNew) :
    Meets (Filled maxNew nPrompt (nPrompt + generated)) (finishRound a nPrompt generated)
      (RoundFilled maxNew nPrompt generated) (Capacity maxNew) := by
  have hcalm := @Filled.calm maxNew nPrompt (nPrompt + generated)
  have hmore : ∀ s, Filled maxNew nPrompt (nPrompt + (generated + 1)) s →
      RoundFilled maxNew nPrompt generated true s := fun _ h => ⟨h.capacity, fun _ => h⟩
  apply meets_either
  · refine meets_answer (fun more s hmore h => ?_) fun _ _ he => by cases he
    cases hmore
    exact ⟨h.capacity, fun hmore => Bool.noConfusion hmore⟩
  refine meets_attempt (hcalm.decodeToken _) (fun _ h => h.capacity) fun chars => ?_
  refine meets_after ?_ fun _ h => hcalm.deliver h _ chars
  refine meets_attempt (appendTokens_filled (by omega)) (fun _ h => h.elim) fun _ => ?_
  refine meets_after ?_ fun _ h => h.countToken
  refine meets_answer (fun more s hok h => ?_) fun _ _ he => by cases he
  cases hok
  exact hmore s h

theorem decodeRound_filled (a : GenerateArgs) {generated : Nat} :
    Meets (Filled maxNew nPrompt (nPrompt + generated)) (decodeRound a nPrompt maxNew generated)
      (RoundFilled maxNew nPrompt generated) (Capacity maxNew) := by
  have hcalm := @Filled.calm maxNew nPrompt (nPrompt + generated)
  intro s h
  have hentered := (hcalm.enterRound a maxNew generated).final h
  unfold decodeRound attempt
  rcases hround : enterRound a maxNew generated s with ⟨s', e | entered⟩
  · rw [hround] at hentered
    refine ⟨fun more hmore => ?_, fun _ _ => hentered.capacity⟩
    cases hmore
  rw [hround] at hentered
  cases entered with
  | true => exact finishRound_filled a (lt_of_enterRound a hround) s' hentered
  | false =>
      refine ⟨fun more hmore => ?_, fun _ _ => hentered.capacity⟩
      cases hmore
      exact ⟨hentered.capacity, fun hmore => Bool.noConfusion hmore⟩

/-- The loop appends as many tokens as there is room for, at most. -/
theorem decodeLoop_capacity (a : GenerateArgs) {remaining generated : Nat}
    (hcount : generated + remaining = maxNew) :
    Meets (Filled maxNew nPrompt (nPrompt + generated)) (decodeLoop a nPrompt remaining generated)
      (fun _ => Capacity maxNew) (Capacity maxNew) := by
  induction remaining generalizing generated with
  | zero => exact meets_perform fun _ h => ((@Filled.calm maxNew _ _).signalled h _).capacity
  | succ remaining ih =>
      rw [decodeLoop_eq, hcount]
      refine meets_attempt (decodeRound_filled a) (fun _ h => h) fun more => ?_
      cases more with
      | false => exact meets_answer (fun _ _ _ h => h.capacity) fun _ _ _ h => h.capacity
      | true => exact (ih (by omega)).imp (fun _ h => h.filled rfl) (fun _ _ h => h) fun _ h => h

theorem decodeAll_capacity (a : GenerateArgs) :
    Meets (Filled maxNew nPrompt nPrompt) (decodeAll a nPrompt) (fun _ => Capacity maxNew)
      (Capacity maxNew) := by
  intro s h
  have hrelease : ∀ s : RuntimeSession, Capacity maxNew s → Capacity maxNew (s.release .decState) :=
    fun s h => h.untouched ((Untouched.refl s).release rfl)
  have hcount : 0 + s.maxNew = maxNew := by rw [Nat.zero_add, h.limit]
  have hloop : Meets (Filled maxNew nPrompt nPrompt) (decodeLoop a nPrompt s.maxNew 0)
      (fun _ => Capacity maxNew) (Capacity maxNew) := decodeLoop_capacity a hcount
  exact meets_attempt hloop hrelease (fun _ => meets_perform hrelease) s h

theorem enterPrompt_filled (a : GenerateArgs) {tokMgr : Bool}
    (hfit : nPrompt + maxNew < uint32Size) :
    Meets (Entering maxNew nPrompt tokMgr) (enterPrompt a nPrompt)
      (fun _ => Filled maxNew nPrompt 0) (Capacity maxNew) := by
  have hunwind : ∀ s : RuntimeSession, Capacity maxNew s →
      Capacity maxNew (s.release .promptSeq) :=
    fun s h => h.untouched ((Untouched.refl s).release rfl)
  have hcalm := @Entering.calm maxNew nPrompt tokMgr
  refine meets_attempt (hcalm.buildPipeline _) (fun s h => hunwind s h.capacity) fun _ => ?_
  refine meets_attempt (hcalm.executed _) (fun s h => hunwind s h.capacity) fun _ => ?_
  refine meets_attempt (prepareKv_filled hfit a.kvBlocks) hunwind fun _ => ?_
  exact meets_answer (fun _ _ _ h => h) fun _ _ _ h => h.capacity

theorem enterAdmitted_filled (a : GenerateArgs) {tokMgr : Bool}
    (hfit : a.promptTokens tokMgr + maxNew < uint32Size) :
    Meets (Entering maxNew (a.promptTokens tokMgr) tokMgr) (enterAdmitted a)
      (fun n s => n = a.promptTokens tokMgr ∧ Filled maxNew n 0 s) (Capacity maxNew) := by
  have hcalm := @Entering.calm maxNew (a.promptTokens tokMgr) tokMgr
  refine meets_after ?_ fun _ h => hcalm.pipelineReset h
  refine meets_attempt (hcalm.tokenizer _) (fun _ h => h.capacity) fun _ => ?_
  refine meets_after ?_ fun s h =>
    hcalm.untouched h ((Untouched.refl s).acquire .promptSeq () rfl)
  refine meets_attempt (encodePrompt_promptTokens hcalm a (fun _ h => h.tokenizer)
    fun _ _ h => hcalm.tokenized _ h) (fun s h => (hcalm.release h rfl).capacity) fun n => ?_
  rintro s ⟨rfl, h⟩
  have hset := hcalm.untouched h (s := { s with prefillTokens := a.promptTokens tokMgr })
    ⟨rfl, rfl, rfl, rfl, rfl, rfl, rfl, fun _ _ => rfl⟩
  have hstart : Meets (Entering maxNew (a.promptTokens tokMgr) tokMgr)
      (attempt (enterPrompt a (a.promptTokens tokMgr)) id fun _ =>
        answer (.ok (a.promptTokens tokMgr)))
      (fun n s => n = a.promptTokens tokMgr ∧ Filled maxNew n 0 s) (Capacity maxNew) := by
    refine meets_attempt (enterPrompt_filled a hfit) (fun _ h => h) fun _ => ?_
    refine meets_answer (fun n s hok h => ?_) fun _ _ he => by cases he
    cases hok
    exact ⟨rfl, h⟩
  exact hstart _ hset

theorem admits_of_guards {s : RuntimeSession} (hflag : s.cancelFlag = false)
    (hguard : (!s.model || s.adapter.isNone) = false) : Admits s := by
  simp only [Bool.or_eq_false_iff, Bool.not_eq_false', Option.isNone_eq_false_iff] at hguard
  exact ⟨hflag, hguard⟩

/-- A call that gets to the append of its prompt has an empty context with room for it. -/
theorem enterGenerate_filled (a : GenerateArgs) {tokMgr : Bool}
    (hfit : a.promptTokens tokMgr + maxNew < uint32Size) :
    Meets (fun s => Capacity maxNew s ∧ s.tokMgr = tokMgr ∧
      (Admits s → PromptWithin (a.promptTokens tokMgr) s))
      (enterGenerate a) (fun n s => n = a.promptTokens tokMgr ∧ Filled maxNew n 0 s)
      (Capacity maxNew) := by
  refine meets_branch ?_ (meets_branch ?_ ?_)
  · exact meets_answer (fun _ _ he => by cases he) fun _ _ _ h => h.1.1
  · exact meets_answer (fun _ _ he => by cases he) fun _ _ _ h => h.1.1.1
  · refine (enterAdmitted_filled a hfit).imp ?_ (fun _ _ h => h) fun _ h => h
    rintro s ⟨⟨⟨hcap, htok, hwithin⟩, hflag⟩, hguard⟩
    exact ⟨hcap, hwithin (admits_of_guards hflag hguard), htok⟩

theorem finishPrompt_filled (a : GenerateArgs) :
    Meets (Filled maxNew nPrompt 0) (finishPrompt a nPrompt)
      (fun n s => n = nPrompt ∧ Filled maxNew n n s) (Capacity maxNew) := by
  have hfilled := @Filled.calm maxNew nPrompt nPrompt
  refine meets_attempt (appendTokens_filled (by omega)) (fun _ h => h.elim) fun _ => ?_
  rw [Nat.zero_add]
  refine meets_attempt (hfilled.createDecodeState a)
    (fun _ h => (hfilled.release h rfl).capacity) fun _ => ?_
  refine meets_after ?_ fun _ h => hfilled.release (hfilled.use h .promptSeq) rfl
  refine meets_answer (fun n s hok h => ?_) fun _ _ he => by cases he
  cases hok
  exact ⟨rfl, h⟩

/-- A call that gets to its loop has the tokens of its prompt in the cache. -/
theorem startGenerate_filled (a : GenerateArgs) {tokMgr : Bool}
    (hfit : a.promptTokens tokMgr + maxNew < uint32Size) :
    Meets (fun s => Capacity maxNew s ∧ s.tokMgr = tokMgr ∧
      (Admits s → PromptWithin (a.promptTokens tokMgr) s))
      (startGenerate a) (fun n s => n = a.promptTokens tokMgr ∧ Filled maxNew n n s)
      (Capacity maxNew) := by
  refine meets_attempt (enterGenerate_filled a hfit) (fun _ h => h) ?_
  rintro n s ⟨rfl, h⟩
  exact finishPrompt_filled a s h

/-- A call whose prompt is no longer than the one that the context was created for finds
room for all that it appends. -/
theorem generate_capacity (a : GenerateArgs) {tokMgr : Bool}
    (hfit : a.promptTokens tokMgr + maxNew < uint32Size) :
    Meets (fun s => Capacity maxNew s ∧ s.tokMgr = tokMgr ∧
      (Admits s → PromptWithin (a.promptTokens tokMgr) s))
      (hbiRuntimeGenerate a) (fun _ => Capacity maxNew) (Capacity maxNew) := by
  rw [hbiRuntimeGenerate_eq]
  refine meets_attempt (startGenerate_filled a hfit) (fun _ h => h) fun n => ?_
  exact (decodeAll_capacity a).imp (fun _ h => h.2) (fun _ _ h => h) fun _ h => h

end Generate

/-- Something has failed, or an append has not found its room. -/
def Faulty (s : RuntimeSession) : Prop := ∃ e ∈ s.events, ¬ (e.Roomy ∧ e.Succeeded)

section Faulty

variable {s : RuntimeSession}

theorem Faulty.record (h : Faulty s) (e : SessionEvent) : Faulty (s.record e) := by
  obtain ⟨e', he', hbad⟩ := h
  exact ⟨e', List.mem_append_left _ he', hbad⟩

theorem faulty_record {e : SessionEvent} (he : ¬ (e.Roomy ∧ e.Succeeded)) : Faulty (s.record e) :=
  ⟨e, List.mem_append_right _ (List.mem_singleton_self e), he⟩

theorem Faulty.appendTokens (nPrompt numTokens : Nat) :
    Keeps Faulty (appendTokens nPrompt numTokens) := by
  apply keeps_of_forall
  intro s h
  unfold Hummingbird.appendTokens
  split
  · exact h
  · dsimp only
    split
    · exact Faulty.record (s := s.use .kvCtx) h _
    · exact Faulty.record (s := s.use .kvCtx) h _

theorem Faulty.steady : Steady Faulty where
  untouched h hs := by
    unfold Faulty
    rw [hs.events]
    exact h
  tokenized _ h := h.record _
  built _ h := h.record _
  executed _ := keeps_noting (keeps_of_forall fun _ h => h) fun _ _ h => h.record _
  delivered _ h := h.record _
  prepared nPrompt blocks := keeps_of_forall fun s h => by
    unfold Faulty
    rw [prepareKv_events]
    exact h
  appended := Faulty.appendTokens

end Faulty

/-- The context has less room than the call may need. -/
structure Tight (maxNew nPrompt : Nat) (tokMgr : Bool) (s : RuntimeSession) : Prop where
  limit : s.maxNew = maxNew
  tokenizer : s.tokMgr = tokMgr
  cache : ∃ mgr h ctx, CacheAt s mgr h ctx ∧ ctx.state.maxTokens < nPrompt + maxNew

section Tight

variable {maxNew nPrompt : Nat} {tokMgr : Bool}

theorem Tight.calm : Calm (Tight maxNew nPrompt tokMgr) := by
  refine calm_of_record ?_ ?_
  · intro s₀ s h hs
    obtain ⟨mgr, i, ctx, hcache, hlt⟩ := h.cache
    exact ⟨(RuntimeSession.maxNew_congr hs.config).trans h.limit, hs.tokMgr.trans h.tokenizer,
      mgr, i, ctx, hcache.untouched hs, hlt⟩
  · intro s e h _
    obtain ⟨mgr, i, ctx, hcache, hlt⟩ := h.cache
    exact ⟨h.limit, h.tokenizer, mgr, i, ctx, hcache.record e, hlt⟩

theorem buildPipeline_tight (a : BuildAnswers) :
    Meets (Tight maxNew nPrompt tokMgr) (buildPipeline a) (fun _ => Tight maxNew nPrompt tokMgr)
      Faulty := by
  have hcalm := @Tight.calm maxNew nPrompt tokMgr
  have hbuild : Keeps (Tight maxNew nPrompt tokMgr) (hbiRuntimePipelineBuild a) :=
    keeps_of_forall fun s h =>
      hcalm.untouched h ((pipelineBuild_untouched s a).final (Untouched.refl s))
  refine meets_noting hbuild (fun _ _ h => hcalm.built _ h) fun _ _ _ => faulty_record ?_
  rintro ⟨-, hok⟩
  cases hok

theorem executePlan_tight (a : ExecAnswers) :
    Meets (Tight maxNew nPrompt tokMgr) (executePlan a) (fun _ => Tight maxNew nPrompt tokMgr)
      Faulty := by
  intro s h
  refine ⟨fun _ _ => (Tight.calm.executed a).final h, ?_⟩
  intro e he
  have hres : executorStatus a s = .error e := he
  apply faulty_record
  rintro ⟨-, hok⟩
  have hok : executorStatus a s = .ok () := hok
  rw [hres] at hok
  cases hok

theorem prepareKv_tight (blocks : ContextBlocks) :
    Meets (Tight maxNew nPrompt tokMgr) (prepareKv nPrompt blocks)
      (fun _ => Tight maxNew nPrompt tokMgr) fun _ => False := by
  refine meets_branch (meets_perform ?_) ?_
  · rintro s ⟨h, -⟩
    obtain ⟨mgr, i, ctx, hcache, hlt⟩ := h.cache
    have hnext := hcache.resetKv
    rw [hcache.resetKv_eq] at hnext ⊢
    exact ⟨h.limit, h.tokenizer, _, i, _, hnext, hlt⟩
  · rintro s ⟨h, hnone⟩
    obtain ⟨mgr, i, ctx, hcache, -⟩ := h.cache
    rw [s.owned.id?_isSome_of_value? hcache.handle] at hnone
    cases hnone

theorem appendTokens_tight (numTokens : Nat) :
    Meets (Tight maxNew nPrompt tokMgr) (appendTokens nPrompt numTokens) (fun _ => Faulty)
      Faulty := by
  intro s h
  obtain ⟨mgr, i, ctx, hcache, hlt⟩ := h.cache
  have hbad : ∀ r, Faulty ((s.use .kvCtx).record
      (.appended (nPrompt + s.maxNew) ctx.state.maxTokens r)) := by
    intro r
    apply faulty_record
    rintro ⟨⟨hle, -⟩, -⟩
    rw [h.limit] at hle
    omega
  cases hres : hbiKvContextAppendTokens ctx numTokens with
  | error e =>
      rw [hcache.appendTokens_error hres]
      exact ⟨fun _ _ => hbad _, fun _ _ => hbad _⟩
  | ok ctx' =>
      rw [hcache.appendTokens_ok hres]
      exact ⟨fun _ _ => hbad _, fun _ _ => hbad _⟩

theorem generatePrompt_tight (a : GenerateArgs) :
    Meets (Tight maxNew nPrompt tokMgr) (generatePrompt a nPrompt) (fun _ => Faulty) Faulty := by
  have hfaulty := Faulty.steady.toCalm
  have hunwind : ∀ s, Faulty s → Faulty (s.release .promptSeq) :=
    fun _ h => hfaulty.release h rfl
  refine meets_attempt (buildPipeline_tight a.build) hunwind fun _ => ?_
  refine meets_attempt (executePlan_tight a.exec) hunwind fun _ => ?_
  refine meets_attempt (prepareKv_tight a.kvBlocks) (fun _ h => h.elim) fun _ => ?_
  refine meets_attempt (appendTokens_tight nPrompt) hunwind fun _ => ?_
  refine meets_attempt (hfaulty.createDecodeState a) hunwind fun _ => ?_
  exact meets_after (Faulty.steady.decodeAll a nPrompt)
    fun _ h => hfaulty.release (hfaulty.use h .promptSeq) rfl

/-- With too little room, the append of the prompt is not as it should be, unless the call
has failed before. -/
theorem generateAdmitted_tight (a : GenerateArgs) :
    Meets (Tight maxNew (a.promptTokens tokMgr) tokMgr) (generateAdmitted a) (fun _ => Faulty)
      Faulty := by
  have hcalm := @Tight.calm maxNew (a.promptTokens tokMgr) tokMgr
  have hfaulty := Faulty.steady.toCalm
  have hnote : ∀ e s, Tight maxNew (a.promptTokens tokMgr) tokMgr s →
      Faulty (s.record (.tokenized (.error e))) := by
    intro e s _
    apply faulty_record
    rintro ⟨-, hok⟩
    cases hok
  refine meets_after ?_ fun _ h => hcalm.pipelineReset h
  refine meets_attempt (hcalm.tokenizer_eq _ hnote) (fun _ h => h) fun _ => ?_
  refine meets_after ?_ fun s h =>
    hcalm.untouched h.2 ((Untouched.refl s).acquire .promptSeq () rfl)
  refine meets_attempt (encodePrompt_promptTokens hcalm a (fun _ h => h.tokenizer) hnote)
    (fun _ h => hfaulty.release h rfl) fun n => ?_
  rintro s ⟨rfl, h⟩
  have hset := hcalm.untouched h (s := { s with prefillTokens := a.promptTokens tokMgr })
    ⟨rfl, rfl, rfl, rfl, rfl, rfl, rfl, fun _ _ => rfl⟩
  exact generatePrompt_tight a _ hset

end Tight

/-- The arguments of a generate call. -/
def HostStep.generates : HostStep → Option GenerateArgs
  | .call (.generate a) => some a
  | _ => none

/-- The builds, the runs and the tokenizer have not failed, and the tokens that the call
may need can be counted. -/
def StepAssumed (s : RuntimeSession) (step : HostStep) : Prop :=
  (∀ e ∈ (step.next s).events, e.Succeeded) ∧
    ∀ a, step.generates = some a → a.promptTokens s.tokMgr + s.maxNew < uint32Size

/-- Every append has found room for all that its call may need, and succeeded. -/
def StepRoomy (s : RuntimeSession) (step : HostStep) : Prop :=
  ∀ e ∈ (step.next s).events, e.Roomy

/-- The prompt of the call is no longer than the one that the context was created for. -/
def StepWithin (s : RuntimeSession) (step : HostStep) : Prop :=
  ∀ a, step.generates = some a → Admits s → PromptWithin (a.promptTokens s.tokMgr) s

section Runs

variable {maxNew : Nat} {s : RuntimeSession}

theorem generate_of_admits (h : Admits s) (a : GenerateArgs) :
    hbiRuntimeGenerate a s = generateAdmitted a s := by
  obtain ⟨hflag, hmodel, hadapter⟩ := h
  have hguard : (!s.model || s.adapter.isNone) = false := by
    simp [hmodel, hadapter]
  simp [hbiRuntimeGenerate, branch, hflag, hguard]

theorem Capacity.next (h : Capacity maxNew s) {step : HostStep} (hassumed : StepAssumed s step)
    (hwithin : StepWithin s step) : Capacity maxNew (step.next s) := by
  cases step with
  | attach ctx =>
      refine ⟨h.limit, ?_, h.roomy⟩
      rcases h.sized with ⟨hnone, mgr, hcache⟩ | ⟨n, mgr, i, c, hn, hlt, hcache, hmax⟩
      · exact Or.inl ⟨hnone, mgr, hcache.of_slots rfl rfl⟩
      · exact Or.inr ⟨n, mgr, i, c, hn, hlt, hcache.of_slots rfl rfl, hmax⟩
  | call c =>
      cases c with
      | cancel => exact h.untouched ⟨rfl, rfl, rfl, rfl, rfl, rfl, rfl, fun _ _ => rfl⟩
      | reset => exact h.untouched ⟨rfl, rfl, rfl, rfl, rfl, rfl, rfl, fun _ _ => rfl⟩
      | generate a =>
          have hfit := hassumed.2 a rfl
          rw [h.limit] at hfit
          exact (generate_capacity a hfit).final ⟨h, rfl, hwithin a rfl⟩

/-- A step is roomy exactly when its prompt is not too long. -/
theorem Capacity.roomy_iff (h : Capacity maxNew s) {step : HostStep}
    (hassumed : StepAssumed s step) : StepRoomy s step ↔ StepWithin s step := by
  refine ⟨?_, fun hwithin => (h.next hassumed hwithin).roomy⟩
  intro hroomy a ha hadmits n hn
  by_contra hgt
  cases step with
  | attach ctx => cases ha
  | call c =>
      cases c with
      | cancel => cases ha
      | reset => cases ha
      | generate a' =>
          obtain rfl := Option.some.inj ha
          have htight : Tight maxNew (a'.promptTokens s.tokMgr) s.tokMgr s := by
            rcases h.sized with ⟨hnone, -⟩ | ⟨n', mgr, i, ctx, hn', -, hcache, hmax⟩
            · rw [hn] at hnone
              cases hnone
            · obtain rfl := Option.some.inj (hn.symm.trans hn')
              exact ⟨h.limit, rfl, mgr, i, ctx, hcache, by omega⟩
          obtain ⟨e, he, hbad⟩ := (generateAdmitted_tight a').final htight
          rw [← generate_of_admits hadmits] at he
          exact hbad ⟨hroomy e he, hassumed.1 e he⟩

end Runs

/-- For every session and whatever its host does with it, as long as builds, runs and the
tokenizer succeed: every append finds room for the prompt and the new tokens of its call,
and succeeds, exactly when no call has a longer prompt than the one that the context was
created for. -/
theorem kv_capacity_iff {a : CreateArgs} {s : RuntimeSession}
    (hs : hbiRuntimeSessionCreate a = (s, .ok ())) {steps : List HostStep}
    (hassumed : Runs.Along HostStep.next StepAssumed s steps) :
    Runs.Along HostStep.next StepRoomy s steps ↔ Runs.Along HostStep.next StepWithin s steps := by
  have hbegun := begun_of_create hs
  have hstart : Capacity s.maxNew s := by
    refine ⟨rfl, Or.inl ⟨hbegun.sizedFor, ?_⟩, by simp [hbegun.events]⟩
    rcases (created_holding hs).2 with ⟨mgr, hcache⟩ | ⟨mgr, i, ctx, hcache⟩
    · exact ⟨mgr, hcache⟩
    · have hhandle := hcache.handle
      rw [Owner.value?, hbegun.kvCtx] at hhandle
      cases hhandle
  exact @Runs.along_iff _ _ HostStep.next (Capacity s.maxNew) StepRoomy StepWithin StepAssumed
    (fun _ _ h hstep => h.roomy_iff hstep) (fun _ _ h hstep hwithin => h.next hstep hwithin)
    s hstart steps hassumed

/-- A session with a tokenizer that may generate one token in a call. -/
def cacheSession : CreateArgs :=
  { plainSession with tokMgr := true, config := some ⟨1, true, 0, .greedy⟩ }

/-- A generate call with a prompt of so many tokens. -/
def promptOf (n : UInt32) : SessionCall := .generate { plainGenerate with encode := .ok n }

/-- The host gives the session an execution context. -/
def attachStep : HostStep := .attach (hbiExecContextCreate fillCopy.finished)

def cacheStart : RuntimeSession := (hbiRuntimeSessionCreate cacheSession).1

/-- After a first call with a prompt of one token. -/
def cacheFirst : RuntimeSession := (promptOf 1).next (attachStep.next cacheStart)

theorem promptOf_assumed {s : RuntimeSession} {n : UInt32}
    (hevents : ∀ e ∈ ((promptOf n).next s).events, e.Succeeded)
    (hfit : n.toNat + s.maxNew < uint32Size) (htok : s.tokMgr = true) :
    StepAssumed s (.call (promptOf n)) := by
  refine ⟨hevents, ?_⟩
  intro a ha
  obtain rfl := Option.some.inj ha
  rw [htok]
  exact hfit

theorem cacheFirst_assumed : StepAssumed cacheStart attachStep ∧
    StepAssumed (attachStep.next cacheStart) (.call (promptOf 1)) := by
  refine ⟨⟨by decide +kernel, ?_⟩, promptOf_assumed (by decide +kernel) (by decide +kernel) rfl⟩
  intro a ha
  cases ha

/-- Two calls with prompts of the same length. -/
theorem kv_capacity_iff_same_length :
    Runs.Along HostStep.next StepAssumed cacheStart
      [attachStep, .call (promptOf 1), .call (promptOf 1)] ∧
    (Runs.Along HostStep.next StepRoomy cacheStart
        [attachStep, .call (promptOf 1), .call (promptOf 1)] ↔
      Runs.Along HostStep.next StepWithin cacheStart
        [attachStep, .call (promptOf 1), .call (promptOf 1)]) := by
  have hassumed : Runs.Along HostStep.next StepAssumed cacheStart
      [attachStep, .call (promptOf 1), .call (promptOf 1)] :=
    ⟨cacheFirst_assumed.1, cacheFirst_assumed.2,
      promptOf_assumed (by decide +kernel) (by decide +kernel) (by decide +kernel), trivial⟩
  exact ⟨hassumed, kv_capacity_iff (a := cacheSession) rfl hassumed⟩

/-- A prompt of three tokens after one of a single token: the context has room for two. -/
theorem kv_capacity_exceeded :
    hbiRuntimeSessionCreate cacheSession = (cacheStart, .ok ()) ∧
    Runs.Along HostStep.next StepAssumed cacheStart
      [attachStep, .call (promptOf 1), .call (promptOf 3)] ∧
    (hbiRuntimeGenerate { plainGenerate with encode := .ok 3 } cacheFirst).2 =
      errSet .invalidArg "context append: exceeds max_tokens (0 + 3 > 2)" ∧
    ¬ Runs.Along HostStep.next StepRoomy cacheStart
      [attachStep, .call (promptOf 1), .call (promptOf 3)] := by
  have hlast : ¬ ∀ e ∈ ((promptOf 3).next cacheFirst).events, e.Roomy := by decide +kernel
  refine ⟨rfl, ⟨cacheFirst_assumed.1, cacheFirst_assumed.2,
    promptOf_assumed (by decide +kernel) (by decide +kernel) (by decide +kernel), trivial⟩,
    by decide +kernel, ?_⟩
  rintro ⟨-, -, hroomy, -⟩
  exact hlast hroomy

end Hummingbird

import Hummingbird.Runtime.Capacity

/-!
What the decode loop counts. At every head of the loop the tokens generated so far, the tokens
in the cache, the counter of the session and the texts handed out agree, however the builds,
the runs, the sampler and the tokenizer answer. Only the end of a round changes any of them.
-/

namespace Hummingbird

open Calls Ownership

/-- The text that an event hands out. -/
def SessionEvent.chars? : SessionEvent → Option String
  | .text chars => some chars
  | _ => none

/-- The texts handed to the callback so far. -/
def RuntimeSession.texts (s : RuntimeSession) : List String :=
  s.events.filterMap SessionEvent.chars?

/-- The text is what the token of the step is decoded to. -/
def StepAnswers.Decodes (a : StepAnswers) (chars : String) : Prop :=
  a.decoded = .ok chars ∨ chars = s!"<{a.nextToken.toNat}>"

/-- What is counted of a session, and the configuration that the loop looks at. -/
structure Tally where
  texts : List String
  counted : Nat
  config : RuntimeConfig

def RuntimeSession.tally (s : RuntimeSession) : Tally :=
  ⟨s.texts, s.totalTokensGenerated, s.config⟩

def Tallied (t : Tally) (s : RuntimeSession) : Prop := s.tally = t

section Uncounted

variable {t : Tally} {s : RuntimeSession}

theorem Tallied.owned (h : Tallied t s) (o : Owner ObjKind ObjKind.Payload) :
    Tallied t { s with owned := o } := h

theorem Tallied.use (h : Tallied t s) (k : ObjKind) : Tallied t (s.use k) := h.owned _

theorem Tallied.acquire (h : Tallied t s) (k : ObjKind) (v : k.Payload) :
    Tallied t (s.acquire k v) := h.owned _

theorem Tallied.release (h : Tallied t s) (k : ObjKind) : Tallied t (s.release k) := h.owned _

theorem Tallied.store (h : Tallied t s) (k : ObjKind) (v : k.Payload) :
    Tallied t (s.store k v) := h.owned _

theorem Tallied.planMemory (h : Tallied t s) (p : Option MemoryPlan) :
    Tallied t { s with planMemory := p } := h

theorem Tallied.sizedFor (h : Tallied t s) (n : Option Nat) :
    Tallied t { s with sizedFor := n } := h

theorem Tallied.record (h : Tallied t s) {e : SessionEvent} (he : e.chars? = none) :
    Tallied t (s.record e) := by
  have htexts : (s.record e).texts = s.texts := by
    simp [RuntimeSession.texts, RuntimeSession.record, List.filterMap_append, he]
  unfold Tallied RuntimeSession.tally at h ⊢
  rw [htexts]
  exact h

theorem Tallied.planDestroy (h : Tallied t s) : Tallied t (hbiExecutionPlanDestroy s) :=
  (h.use .scheduler).release .plan

theorem Tallied.dropPlan (h : Tallied t s) : Tallied t (dropPlan s) := by
  unfold Hummingbird.dropPlan
  split
  · exact h.planDestroy
  · exact h.owned _

theorem Tallied.pipelineReset (h : Tallied t s) : Tallied t (hbiSessionPipelineReset s) :=
  (((h.planMemory none).dropPlan.release .scheduler).release .graph).release .backendMgr

theorem Tallied.unwindScheduler (h : Tallied t s) : Tallied t (unwindScheduler s) :=
  (h.release .scheduler).release .graph

theorem Tallied.unwindPlan (h : Tallied t s) : Tallied t (unwindPlan s) :=
  h.planDestroy.unwindScheduler

theorem Tallied.prefetch (h : Tallied t s) (stages : List ExecutionStage) :
    Tallied t (prefetch stages s) := by
  induction stages generalizing s with
  | nil => exact h
  | cons stage rest ih =>
      unfold Hummingbird.prefetch
      split
      · exact h
      · apply ih
        exact (h.use .graph).use .streamEngine

theorem Tallied.prefetchPlan (h : Tallied t s) (plan : ExecutionPlan) :
    Tallied t (prefetchPlan plan s) := by
  unfold Hummingbird.prefetchPlan
  split
  · exact (h.use .plan).prefetch plan.stages
  · exact h

variable (a : BuildAnswers)

theorem buildGraph_tallied (b : Builder) : Keeps (Tallied t) (buildGraph a b) := by
  refine keeps_attempt ?_ (fun _ h => h) fun _ => keeps_attempt ?_ (fun _ h => h) fun g => ?_
  · exact keeps_after (fun _ h => h.use .builder) (keeps_answer _)
  · exact keeps_answer _
  · exact keeps_after (fun _ h => (h.release .builder).acquire .graph g) (keeps_answer _)

theorem createPlan_tallied (g : Graph) : Keeps (Tallied t) (createPlan a g) := by
  unfold createPlan
  apply keeps_after fun _ h => (h.use .scheduler).use .graph
  refine keeps_attempt (keeps_answer _) (fun _ h => h) fun _ => ?_
  refine keeps_attempt (keeps_answer _) ?_ fun _ => ?_
  · intro s h
    split
    · exact h.owned _
    · exact h
  · refine keeps_attempt (keeps_answer _) (fun _ h => h.owned _) fun plan => ?_
    exact keeps_after (fun _ h => h.acquire .plan plan) (keeps_answer _)

theorem planMemory_tallied (g : Graph) : Keeps (Tallied t) (planMemory a g) := by
  refine keeps_attempt ?_ (fun _ h => h) fun _ => keeps_attempt ?_ (fun _ h => h) fun plan => ?_
  · exact keeps_after (fun _ h => (h.use .planner).use .graph) (keeps_answer _)
  · exact keeps_answer _
  · exact keeps_perform fun _ h => h.planMemory (some plan)

theorem compileGraph_tallied (g : Graph) : Keeps (Tallied t) (compileGraph a g) := by
  refine keeps_attempt (keeps_answer _) (fun _ h => h.release .graph) fun _ => ?_
  apply keeps_after fun _ h => h.acquire .scheduler ()
  refine keeps_attempt (createPlan_tallied a g) (fun _ h => h.unwindScheduler) fun plan => ?_
  refine keeps_attempt (keeps_after (fun _ h => h.use .graph) (keeps_answer _))
    (fun _ h => h.unwindPlan) fun _ => ?_
  apply keeps_after fun _ h => h.acquire .planner ()
  refine keeps_attempt (planMemory_tallied a g) (fun _ h => (h.release .planner).unwindPlan)
    fun _ => ?_
  apply keeps_after fun _ h => h.prefetchPlan plan
  refine keeps_attempt (keeps_answer _)
    (fun _ h => ((h.release .planner).planMemory none).unwindPlan) fun _ => ?_
  exact keeps_perform fun _ h => h.acquire .backendMgr ()

/-- No build changes what is counted. -/
theorem pipelineBuild_tallied : Keeps (Tallied t) (hbiRuntimePipelineBuild a) := by
  refine keeps_branch (keeps_answer _) (keeps_attempt (keeps_answer _) (fun _ h => h) fun _ => ?_)
  apply keeps_after fun _ h => h.acquire .builder ()
  refine keeps_attempt (keeps_after (fun _ h => h.use .builder) (keeps_answer _))
    (fun _ h => h.release .builder) fun b => ?_
  exact keeps_attempt (buildGraph_tallied a b.1) (fun _ h => h.release .builder) fun g =>
    compileGraph_tallied a g

theorem buildPipeline_tallied : Keeps (Tallied t) (buildPipeline a) :=
  keeps_noting (pipelineBuild_tallied a) fun _ _ h => h.record rfl

theorem runExecutor_tallied (e : ExecAnswers) : Keeps (Tallied t) (runExecutor e) :=
  keeps_of_forall fun _ h => (((h.use .plan).use .graph).use .backendMgr).use .streamEngine

theorem executePlan_tallied (e : ExecAnswers) : Keeps (Tallied t) (executePlan e) :=
  keeps_noting (runExecutor_tallied e) fun _ _ h => h.record rfl

theorem tokenizer_tallied {α : Type} (r : Result α) : Keeps (Tallied t) (tokenizer r) :=
  keeps_noting (keeps_answer r) fun _ _ h => h.record rfl

theorem prepareKv_tallied (nPrompt : Nat) (blocks : ContextBlocks) :
    Keeps (Tallied t) (prepareKv nPrompt blocks) := by
  refine keeps_branch (keeps_perform fun s h => ?_) (keeps_of_forall fun s h => ?_)
  · unfold resetKv
    split
    · exact h
    · exact h.owned _
  · unfold createKv
    dsimp only
    split
    · exact h
    · split
      · exact h.use .kvManager
      · exact (((h.use .kvManager).store .kvManager _).acquire .kvCtx _).sizedFor _

theorem appendTokens_tallied (nPrompt numTokens : Nat) :
    Keeps (Tallied t) (appendTokens nPrompt numTokens) := by
  apply keeps_of_forall
  intro s h
  have hrecord : ∀ e : SessionEvent, e.chars? = none → Tallied t ((s.use .kvCtx).record e) :=
    fun e he => (h.use .kvCtx).record he
  unfold appendTokens
  split
  · exact h
  · dsimp only
    split
    · exact hrecord _ rfl
    · exact (hrecord _ rfl).store .kvManager _

theorem enterGenerate_tallied (g : GenerateArgs) : Keeps (Tallied t) (enterGenerate g) := by
  refine keeps_branch (keeps_answer _) (keeps_branch (keeps_answer _) ?_)
  apply keeps_after fun _ h => h.pipelineReset
  refine keeps_attempt (tokenizer_tallied _) (fun _ h => h) fun _ => ?_
  apply keeps_after fun _ h => h.acquire .promptSeq ()
  have hencode : Keeps (Tallied t) (encodePrompt g) :=
    keeps_after (fun _ h => h.use .promptSeq)
      (keeps_branch (tokenizer_tallied _) (tokenizer_tallied _))
  refine keeps_attempt hencode (fun _ h => h.release .promptSeq) fun nPrompt => ?_
  refine keeps_after (fun _ h => h) ?_
  have hunwind : ∀ s, Tallied t s → Tallied t (s.release .promptSeq) :=
    fun _ h => h.release .promptSeq
  refine keeps_attempt ?_ (fun _ h => h) fun _ => keeps_answer _
  refine keeps_attempt (buildPipeline_tallied _) hunwind fun _ => ?_
  refine keeps_attempt (executePlan_tallied _) hunwind fun _ => ?_
  exact keeps_attempt (prepareKv_tallied _ _) hunwind fun _ => keeps_answer _

theorem finishPrompt_tallied (g : GenerateArgs) (nPrompt : Nat) :
    Keeps (Tallied t) (finishPrompt g nPrompt) := by
  have hunwind : ∀ s, Tallied t s → Tallied t (s.release .promptSeq) :=
    fun _ h => h.release .promptSeq
  refine keeps_attempt (appendTokens_tallied _ _) hunwind fun _ => ?_
  have hstate : Keeps (Tallied t) (createDecodeState g) :=
    keeps_branch (keeps_attempt (tokenizer_tallied _) (fun _ h => h) fun _ =>
      keeps_perform fun _ h => h.acquire .decState ()) (keeps_answer _)
  refine keeps_attempt hstate hunwind fun _ => ?_
  exact keeps_after (fun _ h => (h.use .promptSeq).release .promptSeq) (keeps_answer _)

/-- Nothing is counted or handed out before the loop. -/
theorem startGenerate_tallied (g : GenerateArgs) : Keeps (Tallied t) (startGenerate g) :=
  keeps_attempt (enterGenerate_tallied g) (fun _ h => h) (finishPrompt_tallied g)

theorem enterRound_tallied (g : GenerateArgs) (limit generated : Nat) :
    Keeps (Tallied t) (enterRound g limit generated) := by
  refine keeps_after (fun _ h => h) ?_
  refine keeps_branch (keeps_answer _) (keeps_branch (keeps_answer _) ?_)
  apply keeps_after fun _ h => h.pipelineReset
  refine keeps_attempt (buildPipeline_tallied _) (fun _ h => h) fun _ => ?_
  refine keeps_attempt (executePlan_tallied _) (fun _ h => h) fun _ => ?_
  exact keeps_after (fun _ h => (h.use .plan).use .graph) (keeps_answer _)

end Uncounted

section Rounds

variable {t : Tally} {a : GenerateArgs} {maxNew nPrompt generated : Nat}

theorem isEos_congr {s s' : RuntimeSession} (h : s'.config = s.config) (token : UInt32) :
    isEos token s' = isEos token s := by
  unfold isEos
  rw [h]

theorem Tallied.config {s : RuntimeSession} (h : Tallied t s) : s.config = t.config :=
  congrArg Tally.config h

theorem decodeToken_tallied (step : StepAnswers) :
    Meets (Tallied t) (decodeToken step) (fun chars s => step.Decodes chars ∧ Tallied t s)
      (Tallied t) := by
  apply meets_either
  · intro s h
    have hend := (tokenizer_tallied step.decoded).final (h.use .decState)
    exact ⟨fun chars hchars => ⟨Or.inl hchars, hend⟩, fun _ _ => hend⟩
  · refine meets_answer (fun chars s hchars h => ⟨Or.inr ?_, h⟩) fun _ _ _ h => h
    cases hchars
    rfl

/-- At most the text of this round was handed out since. -/
def Handed (a : GenerateArgs) (generated : Nat) (t : Tally) (s : RuntimeSession) : Prop :=
  ∃ texts, Tallied { t with texts := texts } s ∧
    (texts = t.texts ∨ ∃ chars, (a.step generated).Decodes chars ∧ texts = t.texts ++ [chars])

theorem deliver_handed {s : RuntimeSession} {chars : String} (onText : Bool)
    (hchars : (a.step generated).Decodes chars) (h : Tallied t s) :
    Handed a generated t (deliver onText chars s) := by
  unfold deliver
  split
  · refine ⟨t.texts ++ [chars], ?_, Or.inr ⟨chars, hchars, rfl⟩⟩
    have htexts : (s.record (.text chars)).texts = s.texts ++ [chars] := by
      simp [RuntimeSession.texts, RuntimeSession.record, List.filterMap_append,
        SessionEvent.chars?]
    unfold Tallied RuntimeSession.tally at h ⊢
    rw [htexts, ← h]
    rfl
  · exact ⟨t.texts, h, Or.inl rfl⟩

/-- After a round that goes on: one token more is counted, it was no end of the sequence, and
at most its text was handed out. -/
structure RoundCounted (a : GenerateArgs) (generated : Nat) (t : Tally) (s : RuntimeSession) :
    Prop where
  config : s.config = t.config
  noEos : isEos (a.step generated).nextToken s = false
  counted : s.totalTokensGenerated = (t.counted + 1) % sizeTSize
  texts : s.texts = t.texts ∨
    ∃ chars, (a.step generated).Decodes chars ∧ s.texts = t.texts ++ [chars]

theorem Handed.countToken {s : RuntimeSession} (h : Handed a generated t s)
    (hno : ∀ s : RuntimeSession, s.config = t.config →
      isEos (a.step generated).nextToken s = false) :
    RoundCounted a generated t (countToken s) := by
  obtain ⟨texts, hs, htexts⟩ := h
  have hcounted : s.totalTokensGenerated = t.counted := congrArg Tally.counted hs
  have hsame : s.texts = texts := congrArg Tally.texts hs
  refine ⟨hs.config, hno _ hs.config, ?_, ?_⟩
  · rw [← hcounted]
    rfl
  · rw [← hsame] at htexts
    exact htexts

/-- After a round, by whether it goes on. -/
def AfterRound (a : GenerateArgs) (generated : Nat) (t : Tally) : Bool → RuntimeSession → Prop
  | true => RoundCounted a generated t
  | false => Tallied t

/-- With room in the cache a round counts and hands out nothing unless it goes on: the append,
which comes after the callback, succeeds. -/
theorem finishRound_counted (hlt : generated < maxNew) :
    Meets (fun s => Tallied t s ∧ Filled maxNew nPrompt (nPrompt + generated) s)
      (finishRound a nPrompt generated) (AfterRound a generated t) (Tallied t) := by
  have hcalm := @Filled.calm maxNew nPrompt (nPrompt + generated)
  apply meets_branch
  · refine meets_answer (fun more s hmore h => ?_) fun _ _ _ h => h.1.1
    cases hmore
    exact h.1.1
  rintro s ⟨hs, heos⟩
  have hno : ∀ s' : RuntimeSession, s'.config = t.config →
      isEos (a.step generated).nextToken s' = false := by
    intro s' hs'
    rw [isEos_congr (hs'.trans hs.1.config.symm)]
    exact heos
  have hdecode := (decodeToken_tallied (t := t) (a.step generated)).and
    (hcalm.decodeToken (a.step generated))
  have hhanded : Keeps (Handed a generated t) (appendTokens nPrompt 1) :=
    keeps_of_forall fun s h => by
      obtain ⟨texts, h, htexts⟩ := h
      exact ⟨texts, (appendTokens_tallied nPrompt 1).final h, htexts⟩
  have happend := hhanded.and
    (@appendTokens_filled maxNew nPrompt (nPrompt + generated) 1 (by omega))
  refine meets_attempt hdecode (fun _ h => h.1) (fun chars => ?_) s hs
  refine meets_after (meets_attempt happend (fun _ h => h.2.elim) fun _ => ?_) fun s h =>
    ⟨deliver_handed a.onText h.1.1 h.1.2, hcalm.deliver h.2 _ chars⟩
  refine @meets_after _ _ _ _ (RoundCounted a generated t) _ _ _ _ ?_ fun s h => h.1.countToken hno
  refine meets_answer (fun more s hmore h => ?_) fun _ _ he => by cases he
  cases hmore
  exact h

theorem decodeRound_counted :
    Meets (fun s => Tallied t s ∧ Filled maxNew nPrompt (nPrompt + generated) s)
      (decodeRound a nPrompt maxNew generated) (AfterRound a generated t) (Tallied t) := by
  have hcalm := @Filled.calm maxNew nPrompt (nPrompt + generated)
  rintro s ⟨ht, hfilled⟩
  have htallied := (enterRound_tallied a maxNew generated).final ht
  have hentered := (hcalm.enterRound a maxNew generated).final hfilled
  unfold decodeRound attempt
  rcases hround : enterRound a maxNew generated s with ⟨s', e | entered⟩
  · rw [hround] at htallied
    refine ⟨fun more hmore => ?_, fun _ _ => htallied⟩
    cases hmore
  rw [hround] at htallied hentered
  cases entered with
  | true => exact finishRound_counted (lt_of_enterRound a hround) s' ⟨htallied, hentered⟩
  | false =>
      refine ⟨fun more hmore => ?_, fun _ _ => htallied⟩
      cases hmore
      exact htallied

/-- The append of a round succeeds. -/
def RoundAppends (a : GenerateArgs) (nPrompt limit generated : Nat) (s : RuntimeSession) : Prop :=
  ∀ t, enterRound a limit generated s = (t, .ok true) →
    ∀ t' chars, decodeToken (a.step generated) t = (t', .ok chars) →
      (appendTokens nPrompt 1 (deliver a.onText chars t')).2 = .ok ()

theorem Filled.roundAppends {s : RuntimeSession}
    (h : Filled maxNew nPrompt (nPrompt + generated) s) :
    RoundAppends a nPrompt maxNew generated s := by
  have hcalm := @Filled.calm maxNew nPrompt (nPrompt + generated)
  intro t hentered t' chars hdecoded
  have hlt := lt_of_enterRound a hentered
  have ht := (hcalm.enterRound a maxNew generated).final h
  rw [hentered] at ht
  have ht' := (hcalm.decodeToken (a.step generated)).final ht
  rw [hdecoded] at ht'
  have happend := @appendTokens_filled maxNew nPrompt (nPrompt + generated) 1 (by omega)
  obtain ⟨⟨⟩, hok⟩ := happend.ok (hcalm.deliver ht' a.onText chars)
  exact hok

end Rounds

/-- At a head of the loop: what was generated since the call began, in the session that it
began with. -/
structure HeadAccount (a : GenerateArgs) (nPrompt : Nat) (s : RuntimeSession) (generated : Nat)
    (s' : RuntimeSession) : Prop where
  bound : generated ≤ s.maxNew
  cursor : ∃ mgr h ctx, s'.kvContext = some (mgr, h, ctx) ∧
    ctx.state.totalTokens = nPrompt + generated
  counted : s'.totalTokensGenerated % sizeTSize = (s.totalTokensGenerated + generated) % sizeTSize
  delivered : ∃ rounds : List (Nat × String), s'.texts = s.texts ++ rounds.map Prod.snd ∧
    (rounds.map Prod.fst).Sublist (List.range generated) ∧
    ∀ r ∈ rounds, (a.step r.1).Decodes r.2
  noEos : ∀ i, i < generated → isEos (a.step i).nextToken s = false
  appends : RoundAppends a nPrompt s.maxNew generated s'

section Heads

variable {a : GenerateArgs} {nPrompt generated : Nat} {s s₁ s' : RuntimeSession}

theorem HeadAccount.calls_le (h : HeadAccount a nPrompt s generated s') :
    s'.texts.length ≤ s.texts.length + generated := by
  obtain ⟨rounds, htexts, hsub, -⟩ := h.delivered
  have hle := hsub.length_le
  rw [List.length_map, List.length_range] at hle
  rw [htexts, List.length_append, List.length_map]
  exact Nat.add_le_add_left hle _

/-- At every head the context holds the prompt and what was generated. -/
theorem DecodeHead.filled {maxNew : Nat} (h : DecodeHead a nPrompt s₁ generated s')
    (h₁ : Filled maxNew nPrompt nPrompt s₁) : Filled maxNew nPrompt (nPrompt + generated) s' := by
  induction h with
  | first => exact h₁
  | next head round ih =>
      rw [h₁.limit] at round
      have hround := (decodeRound_filled a _ ih).1
      rw [round] at hround
      exact (hround true rfl).filled rfl

theorem DecodeHead.round (h : DecodeHead a nPrompt s₁ generated s)
    (h₁ : Filled s₁.maxNew nPrompt nPrompt s₁)
    (hround : decodeRound a nPrompt s₁.maxNew generated s = (s', .ok true)) :
    RoundCounted a generated s.tally s' := by
  have hend := (@decodeRound_counted s.tally a s₁.maxNew nPrompt generated s
    ⟨rfl, h.filled h₁⟩).1
  rw [hround] at hend
  exact hend true rfl

theorem DecodeHead.config (h : DecodeHead a nPrompt s₁ generated s')
    (h₁ : Filled s₁.maxNew nPrompt nPrompt s₁) : s'.config = s₁.config := by
  induction h with
  | first => rfl
  | next head round ih => exact (head.round h₁ round).config.trans ih

/-- What a round hands out goes to the end of what was handed out. -/
theorem delivered_next {t : Tally} {texts₀ : List String}
    (h : ∃ rounds : List (Nat × String), t.texts = texts₀ ++ rounds.map Prod.snd ∧
      (rounds.map Prod.fst).Sublist (List.range generated) ∧
      ∀ r ∈ rounds, (a.step r.1).Decodes r.2)
    (hround : RoundCounted a generated t s') :
    ∃ rounds : List (Nat × String), s'.texts = texts₀ ++ rounds.map Prod.snd ∧
      (rounds.map Prod.fst).Sublist (List.range (generated + 1)) ∧
      ∀ r ∈ rounds, (a.step r.1).Decodes r.2 := by
  obtain ⟨rounds, htexts, hsub, hdecodes⟩ := h
  rw [List.range_succ]
  rcases hround.texts with hsame | ⟨chars, hchars, hmore⟩
  · refine ⟨rounds, hsame.trans htexts, ?_, hdecodes⟩
    exact hsub.trans (List.sublist_append_left _ _)
  · refine ⟨rounds ++ [(generated, chars)], ?_, ?_, ?_⟩
    · rw [hmore, htexts, List.map_append, List.append_assoc]
      rfl
    · rw [List.map_append]
      exact hsub.append (List.Sublist.refl _)
    · intro r hr
      rcases List.mem_append.mp hr with hr | hr
      · exact hdecodes r hr
      · rw [List.mem_singleton.mp hr]
        exact hchars

/-- The account at a head, from what every round has added to it. -/
theorem DecodeHead.account (h : DecodeHead a nPrompt s₁ generated s')
    (h₁ : Filled s.maxNew nPrompt nPrompt s₁) (ht : Tallied s.tally s₁) :
    HeadAccount a nPrompt s generated s' := by
  have hconfig : s₁.config = s.config := ht.config
  have hlimit := h₁.limit
  rw [← hlimit] at h₁
  have hcursor : ∀ {k : Nat} {s' : RuntimeSession}, DecodeHead a nPrompt s₁ k s' →
      ∃ mgr h ctx, s'.kvContext = some (mgr, h, ctx) ∧ ctx.state.totalTokens = nPrompt + k := by
    intro k s' head
    obtain ⟨-, mgr, i, ctx, -, -, -, hcache, -, htotal⟩ := (head.filled h₁).sized
    exact ⟨mgr, i, ctx, hcache.kvContext, htotal⟩
  have happends : ∀ {k : Nat} {s' : RuntimeSession}, DecodeHead a nPrompt s₁ k s' →
      RoundAppends a nPrompt s.maxNew k s' := by
    intro k s' head
    rw [← hlimit]
    exact (head.filled h₁).roundAppends
  induction h with
  | first =>
      refine ⟨Nat.zero_le _, hcursor .first, ?_, ⟨[], ?_, ?_, ?_⟩, ?_, happends .first⟩
      · exact congrArg (· % sizeTSize) (congrArg Tally.counted ht)
      · rw [List.map_nil, List.append_nil]
        exact congrArg Tally.texts ht
      · exact List.Sublist.refl _
      · intro r hr
        cases hr
      · intro i hi
        cases hi
  | @next k s₂ s₃ head round ih =>
      have hnext := DecodeHead.next head round
      have hround := head.round h₁ round
      have hend : s₃.config = s.config := (hnext.config h₁).trans hconfig
      refine ⟨hlimit ▸ hnext.le, hcursor hnext, ?_, ?_, ?_, happends hnext⟩
      · rw [hround.counted, Nat.mod_mod, ← Nat.add_assoc]
        exact Nat.ModEq.add_right 1 ih.counted
      · exact delivered_next ih.delivered hround
      · intro i hi
        rcases Nat.lt_succ_iff_lt_or_eq.mp hi with hi | rfl
        · exact ih.noEos i hi
        · rw [isEos_congr hend.symm]
          exact hround.noEos

/-- The last round neither hands out nor counts anything. -/
theorem LastRound.tallied {limit : Nat} {s₂ : RuntimeSession} {result : Result Unit}
    (h : LastRound a nPrompt limit generated s' s₂ result)
    (hfilled : Filled limit nPrompt (nPrompt + generated) s') : Tallied s'.tally s₂ := by
  have hround := @decodeRound_counted s'.tally a limit nPrompt generated s' ⟨rfl, hfilled⟩
  cases h with
  | stops round =>
      rw [round] at hround
      exact hround.1 false rfl
  | fails round =>
      rw [round] at hround
      exact hround.2 _ rfl

/-- However the loop ends, the decode state goes behind its last round. -/
theorem decodeAll_ends (a : GenerateArgs) (nPrompt : Nat) (s₁ : RuntimeSession) :
    ∃ k s' s₂ result, DecodeHead a nPrompt s₁ k s' ∧
      LastRound a nPrompt s₁.maxNew k s' s₂ result ∧
      decodeAll a nPrompt s₁ = (s₂.release .decState, result) := by
  obtain ⟨k, s', s₂, result, head, last, hloop⟩ := decodeLoop_ends
    (@DecodeHead.first a nPrompt s₁)
  refine ⟨k, s', s₂, result, head, last, ?_⟩
  unfold decodeAll attempt
  rw [hloop]
  cases result <;> rfl

end Heads

/-- Without a context no length is remembered, and no append was ever made. -/
def Sized (s : RuntimeSession) : Prop :=
  ((∃ mgr, NoCache s mgr) ∧ s.sizedFor = none ∧ ∀ e ∈ s.events, e.Roomy) ∨
    ∃ mgr h ctx, CacheAt s mgr h ctx

namespace Sized

variable {s : RuntimeSession}

theorem untouched {s₀ : RuntimeSession} (h : Sized s₀) (hs : Untouched s₀ s) : Sized s := by
  rcases h with ⟨⟨mgr, hcache⟩, hnone, hroomy⟩ | ⟨mgr, i, ctx, hcache⟩
  · exact Or.inl ⟨⟨mgr, hcache.untouched hs⟩, hs.sizedFor.trans hnone, hs.events ▸ hroomy⟩
  · exact Or.inr ⟨mgr, i, ctx, hcache.untouched hs⟩

theorem record (h : Sized s) {e : SessionEvent} (he : e.Roomy) : Sized (s.record e) := by
  rcases h with ⟨⟨mgr, hcache⟩, hnone, hroomy⟩ | ⟨mgr, i, ctx, hcache⟩
  · exact Or.inl ⟨⟨mgr, hcache.of_slots rfl rfl⟩, hnone, forall_mem_record hroomy he⟩
  · exact Or.inr ⟨mgr, i, ctx, hcache.record e⟩

theorem prepareKv (nPrompt : Nat) (blocks : ContextBlocks) :
    Keeps Sized (prepareKv nPrompt blocks) := by
  apply keeps_of_forall
  intro s h
  rcases h with ⟨⟨mgr, hcache⟩, hnone, hroomy⟩ | ⟨mgr, i, ctx, hcache⟩
  · have hfree : (s.owned.id? .kvCtx).isSome = false := by
      rw [s.owned.id?_eq_none_of_value? hcache.handle]
      rfl
    simp only [Hummingbird.prepareKv, branch, hfree, Bool.false_eq_true, if_false]
    rcases hcache.createKv nPrompt blocks with ⟨e, he⟩ | ⟨mgr', i, ctx, hnext, -⟩
    · rw [he]
      have hsame : Sized s := Or.inl ⟨⟨mgr, hcache⟩, hnone, hroomy⟩
      exact hsame.untouched ((Untouched.refl s).use .kvManager)
    · exact Or.inr ⟨mgr', i, ctx, hnext⟩
  · have htaken := s.owned.id?_isSome_of_value? hcache.handle
    simp only [Hummingbird.prepareKv, branch, htaken, if_true, perform]
    exact Or.inr ⟨_, _, _, hcache.resetKv⟩

theorem appendTokens (nPrompt numTokens : Nat) : Keeps Sized (appendTokens nPrompt numTokens) := by
  apply keeps_of_forall
  intro s h
  rcases h with ⟨⟨mgr, hcache⟩, hnone, hroomy⟩ | ⟨mgr, i, ctx, hcache⟩
  · have hkv : s.kvContext = none := by
      simp [RuntimeSession.kvContext, hcache.manager, hcache.handle]
    unfold Hummingbird.appendTokens
    rw [hkv]
    exact Or.inl ⟨⟨mgr, hcache⟩, hnone, hroomy⟩
  · apply Or.inr
    cases hres : hbiKvContextAppendTokens ctx numTokens with
    | error e =>
        rw [hcache.appendTokens_error hres]
        exact ⟨mgr, i, ctx, (hcache.use .kvCtx).record _⟩
    | ok ctx' =>
        rw [hcache.appendTokens_ok hres]
        exact ⟨_, i, ctx', ((hcache.use .kvCtx).record _).store ctx'⟩

theorem steady : Steady Sized where
  untouched h hs := h.untouched hs
  tokenized _ h := h.record trivial
  built _ h := h.record trivial
  executed _ := keeps_noting (keeps_of_forall fun s h => h.untouched
    (((((Untouched.refl s).use .plan).use .graph).use .backendMgr).use .streamEngine))
    fun _ _ h => h.record trivial
  delivered _ h := h.record trivial
  prepared := Sized.prepareKv
  appended := Sized.appendTokens

theorem next (h : Sized s) (step : HostStep) : Sized (step.next s) := by
  cases step with
  | call c => exact steady.next h c
  | attach ctx =>
      rcases h with ⟨⟨mgr, hcache⟩, hnone, hroomy⟩ | ⟨mgr, i, ctx, hcache⟩
      · exact Or.inl ⟨⟨mgr, hcache.of_slots rfl rfl⟩, hnone, hroomy⟩
      · exact Or.inr ⟨mgr, i, ctx, hcache.of_slots rfl rfl⟩

/-- A session without a context has room for whatever its first prompt will be. -/
theorem capacity (h : Sized s) (hnone : s.owned.value? .kvCtx = none) :
    Capacity s.maxNew s ∧ ∀ n, PromptWithin n s := by
  rcases h with ⟨hcache, hsized, hroomy⟩ | ⟨mgr, i, ctx, hcache⟩
  · refine ⟨⟨rfl, Or.inl ⟨hsized, hcache⟩, hroomy⟩, ?_⟩
    intro n m hm
    rw [hsized] at hm
    cases hm
  · rw [hcache.handle] at hnone
    cases hnone

end Sized

/-- A session that was created, after whatever its host has done with it. -/
theorem sized_of_run {c : CreateArgs} {s₀ : RuntimeSession}
    (hc : hbiRuntimeSessionCreate c = (s₀, .ok ())) (steps : List HostStep) :
    Sized (Runs.final HostStep.next s₀ steps) := by
  have hbegun := begun_of_create hc
  have hstart : Sized s₀ := by
    rcases (created_holding hc).2 with hcache | ⟨mgr, i, ctx, hcache⟩
    · exact Or.inl ⟨hcache, hbegun.sizedFor, by simp [hbegun.events]⟩
    · exact Or.inr ⟨mgr, i, ctx, hcache⟩
  exact @Runs.final_of_step _ _ HostStep.next Sized (fun _ step h => h.next step) s₀ hstart steps

/-- For every session, whatever its host has done with it, that has no context of the cache yet,
and however builds, runs, the sampler and the tokenizer answer: the append of the prompt and
those of all rounds succeed; at every head of the decode loop the generated tokens, the tokens in
the context, the counter of the session and the texts handed out agree, and no end of the
sequence was handed out; the call answers and leaves what the round behind the last head does,
with what was counted at that head and the decode state given back, and it succeeds only when the
session is cancelled, the limit is reached or the sequence ends; and every decode state was
destroyed, none twice. -/
theorem decode_loop_accounting {c : CreateArgs} {s₀ : RuntimeSession}
    (hc : hbiRuntimeSessionCreate c = (s₀, .ok ())) (steps : List HostStep) (a : GenerateArgs)
    {s : RuntimeSession} (hs : s = Runs.final HostStep.next s₀ steps)
    (hnone : s.owned.value? .kvCtx = none)
    (hfit : a.promptTokens s.tokMgr + s.maxNew < uint32Size) :
    (∀ n t, enterGenerate a s = (t, .ok n) → (appendTokens n n t).2 = .ok ()) ∧
    (∀ n s₁, startGenerate a s = (s₁, .ok n) →
      n = a.promptTokens s.tokMgr ∧
      (∀ k s', DecodeHead a n s₁ k s' →
        HeadAccount a n s k s' ∧ s'.texts.length ≤ s.texts.length + k) ∧
      ∃ k s' s₂ result, DecodeHead a n s₁ k s' ∧ LastRound a n s.maxNew k s' s₂ result ∧
        hbiRuntimeGenerate a s = (s₂.release .decState, result) ∧
        (result = .ok () → StopReason a s.maxNew k s₂) ∧
        (hbiRuntimeGenerate a s).1.texts = s'.texts ∧
        (hbiRuntimeGenerate a s).1.totalTokensGenerated = s'.totalTokensGenerated) ∧
    (∀ e, (startGenerate a s).2 = .error e →
      hbiRuntimeGenerate a s = ((startGenerate a s).1, .error e) ∧
        (hbiRuntimeGenerate a s).1.texts = s.texts) ∧
    (∀ e ∈ (hbiRuntimeGenerate a s).1.events, e.Roomy) ∧
    (hbiRuntimeGenerate a s).1.owned.ledger.faults = 0 ∧
    ∀ o ∈ (hbiRuntimeGenerate a s).1.owned.ledger.objects, o.1 = .decState → o.2 = false := by
  subst hs
  generalize hrun : Runs.final HostStep.next s₀ steps = s at *
  have hsized : Sized s := hrun ▸ sized_of_run hc steps
  have hheld : Holding (builtKinds resting) s := hrun ▸ (HostStep.run_holding (created_holding hc)
    steps).1
  obtain ⟨hcap, hwithin⟩ := hsized.capacity hnone
  have hpre : Capacity s.maxNew s ∧ s.tokMgr = s.tokMgr ∧
      (Admits s → PromptWithin (a.promptTokens s.tokMgr) s) := ⟨hcap, rfl, fun _ => hwithin _⟩
  have hend := (generate_holding a).final hheld
  refine ⟨?_, ?_, ?_, (generate_capacity a hfit).final hpre |>.roomy, hend.consistent.no_fault, ?_⟩
  · intro n t hentered
    have ht := (enterGenerate_filled a hfit s hpre).1 n
    rw [hentered] at ht
    obtain ⟨-, ht⟩ := ht rfl
    have happend := @appendTokens_filled s.maxNew n 0 n (by omega)
    obtain ⟨⟨⟩, hok⟩ := happend.ok ht
    exact hok
  · intro n s₁ hstart
    have hfilled := (startGenerate_filled a hfit s hpre).1 n
    have htallied := (startGenerate_tallied (t := s.tally) a).final rfl
    rw [hstart] at hfilled htallied
    obtain ⟨hn, hfilled⟩ := hfilled rfl
    refine ⟨hn, ?_, ?_⟩
    · intro k s' head
      have haccount := head.account hfilled htallied
      exact ⟨haccount, haccount.calls_le⟩
    · have hlimit := hfilled.limit
      rw [← hlimit] at hfilled ⊢
      obtain ⟨k, s', s₂, result, head, last, hall⟩ := decodeAll_ends a n s₁
      have hgenerate : hbiRuntimeGenerate a s = (s₂.release .decState, result) := by
        rw [hbiRuntimeGenerate_eq]
        unfold attempt
        rw [hstart]
        exact hall
      have hlast := (last.tallied (head.filled hfilled)).release .decState
      rw [hgenerate]
      refine ⟨k, s', s₂, result, head, last, rfl, ?_, congrArg Tally.texts hlast,
        congrArg Tally.counted hlast⟩
      rintro rfl
      exact last.reason
  · intro e he
    have htallied := (startGenerate_tallied (t := s.tally) a).final rfl
    rw [hbiRuntimeGenerate_eq]
    unfold attempt
    rcases hstart : startGenerate a s with ⟨s₁, e' | n⟩
    · rw [hstart] at htallied he
      cases he
      exact ⟨rfl, congrArg Tally.texts htallied⟩
    · rw [hstart] at he
      cases he
  · rintro ⟨k, alive⟩ ho rfl
    cases alive with
    | false => rfl
    | true => exact absurd (hend.alive_mem ho) (by decide)

/-- The first call of a session: one round, which hands out its text and counts its token, and
the end of the loop at its limit. -/
theorem decode_loop_accounting_first_round :
    let s := attachStep.next cacheStart
    ∃ s₁ s', startGenerate plainGenerate s = (s₁, .ok 1) ∧
      DecodeHead plainGenerate 1 s₁ 1 s' ∧ s'.texts = ["x"] ∧
      HeadAccount plainGenerate 1 s 1 s' ∧
      (∃ k s' s₂ result, DecodeHead plainGenerate 1 s₁ k s' ∧
        LastRound plainGenerate 1 s.maxNew k s' s₂ result ∧
        hbiRuntimeGenerate plainGenerate s = (s₂.release .decState, result) ∧
        (result = .ok () → StopReason plainGenerate s.maxNew k s₂) ∧
        (hbiRuntimeGenerate plainGenerate s).1.texts = s'.texts ∧
        (hbiRuntimeGenerate plainGenerate s).1.totalTokensGenerated = s'.totalTokensGenerated) ∧
      s.maxNew = 1 ∧ (hbiRuntimeGenerate plainGenerate s).2 = .ok () ∧
      (hbiRuntimeGenerate plainGenerate s).1.texts = ["x"] := by
  obtain ⟨s₁, hs₁⟩ : ∃ s₁, s₁ = (startGenerate plainGenerate (attachStep.next cacheStart)).1 :=
    ⟨_, rfl⟩
  have hstart : startGenerate plainGenerate (attachStep.next cacheStart) = (s₁, .ok 1) := by
    rw [hs₁]
    exact Prod.ext rfl (by decide +kernel)
  have head : DecodeHead plainGenerate 1 s₁ 1 (decodeRound plainGenerate 1 1 0 s₁).1 := by
    rw [hs₁]
    exact .next .first (Prod.ext rfl (by decide +kernel))
  have hrun : attachStep.next cacheStart = Runs.final HostStep.next cacheStart [attachStep] := rfl
  have haccounts := (decode_loop_accounting (c := cacheSession) rfl [attachStep] plainGenerate
    hrun rfl (by decide +kernel)).2.1 1 s₁ hstart
  refine ⟨s₁, _, hstart, head, ?_, (haccounts.2.1 1 _ head).1, haccounts.2.2, by decide +kernel,
    by decide +kernel, by decide +kernel⟩
  rw [hs₁]
  decide +kernel

end Hummingbird

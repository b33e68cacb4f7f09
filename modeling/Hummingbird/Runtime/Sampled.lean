import Hummingbird.Runtime.Counting
import Hummingbird.Runtime.Sampler

/-!
What a decode step does when the sampler fails. The loop does not look at the status of the
sampler: it goes on with whatever is left in the variable of the token. So a failed step ends the
call, with nothing handed out and nothing counted, only where something after the sampler fails
before the step has any effect.
-/

namespace Hummingbird

open Calls Ownership

/-- The logits of a step: the tensor bound to the first output of the last task. -/
def RuntimeSession.logits (s : RuntimeSession) : Option Tensor := do
  let plan ← s.owned.value? .plan
  let lastTask ← plan.tasks.getLast?
  let node ← lastTask.node
  let logitsValId ← node.outputs.head?
  let ctx ← s.execCtx
  ctx.tensorOf logitsValId

/-- How many tokens are in the cache. -/
def RuntimeSession.cursor (s : RuntimeSession) : Option Nat :=
  s.kvContext.map fun kv => kv.2.2.state.totalTokens

/-- What the decoder makes of the token of a step. -/
def StepAnswers.text (step : StepAnswers) (s : RuntimeSession) : Result String :=
  if (s.tokMgr && (s.owned.id? .decState).isSome) = true then step.decoded
  else .ok s!"<{step.nextToken.toNat}>"

/-- The cache of the session takes no token more. -/
def RuntimeSession.KvFull (s : RuntimeSession) : Prop :=
  ∀ mgr h ctx, s.kvContext = some (mgr, h, ctx) →
    ctx.state.maxTokens < (ctx.state.totalTokens + 1) % uint32Size

/-- Between two states nothing was handed out, cached or counted. -/
structure Unchanged (s s' : RuntimeSession) : Prop where
  texts : s'.texts = s.texts
  cursor : s'.cursor = s.cursor
  counted : s'.totalTokensGenerated = s.totalTokensGenerated

/-- The loop of a call is at a head, its round gets to the sampler, and the sampler fails on the
logits that are there. -/
structure SamplerFails {F : Type} [LinearOrder F] (load : Int → F) (a : GenerateArgs)
    (nPrompt : Nat) (s₁ : RuntimeSession) (generated : Nat) (s t : RuntimeSession) : Prop where
  head : DecodeHead a nPrompt s₁ generated s
  entered : enterRound a s₁.maxNew generated s = (t, .ok true)
  failed : ∃ e, hbiSamplerGreedy load t.logits = .error e

section Cache

variable {s s' : RuntimeSession}

theorem kvContext_use (k : ObjKind) : (s.use k).kvContext = s.kvContext := by
  unfold RuntimeSession.kvContext RuntimeSession.use Owner.value?
  rw [Owner.slot_use]

theorem kvContext_calm (kv : Option (KvManager × Nat × ContextHandle)) :
    Calm fun s => s.kvContext = kv := by
  refine ⟨?_, fun _ h => h, fun _ h => h, ?_, fun _ h => h⟩
  · intro s₀ s h hs
    unfold RuntimeSession.kvContext Owner.value? at h ⊢
    rw [hs.slot .kvManager rfl, hs.slot .kvCtx rfl]
    exact h
  · intro a
    refine keeps_noting (keeps_of_forall fun s h => ?_) fun _ _ h => h
    unfold runExecutor
    rw [kvContext_use, kvContext_use, kvContext_use, kvContext_use]
    exact h

/-- Only a full cache, or none at all, turns a token away, and it stays as it is. -/
theorem appendTokens_of_full (h : s.KvFull) (nPrompt : Nat) :
    ∃ s' e, appendTokens nPrompt 1 s = (s', .error e) ∧ s'.kvContext = s.kvContext := by
  unfold appendTokens
  rcases hkv : s.kvContext with _ | ⟨mgr, i, ctx⟩
  · exact ⟨s, _, rfl, hkv⟩
  · have hfull : (ctx.state.totalTokens + 1) % uint32Size > ctx.state.maxTokens := h _ _ _ hkv
    simp only [hbiKvContextAppendTokens, if_pos hfull]
    exact ⟨_, _, rfl, (kvContext_use .kvCtx).trans hkv⟩

theorem appendTokens_of_room (h : ¬ s.KvFull) (nPrompt : Nat) :
    ∃ s', appendTokens nPrompt 1 s = (s', .ok ()) := by
  unfold RuntimeSession.KvFull at h
  push Not at h
  obtain ⟨mgr, i, ctx, hkv, hroom⟩ := h
  unfold appendTokens
  rw [hkv]
  simp only [hbiKvContextAppendTokens, if_neg (not_lt.mpr hroom)]
  exact ⟨_, rfl⟩

end Cache

section Ends

variable {a : GenerateArgs} {nPrompt generated : Nat} {s s₁ s' s₂ : RuntimeSession}

theorem decodeAll_snd (a : GenerateArgs) (nPrompt : Nat) (s : RuntimeSession) :
    (decodeAll a nPrompt s).2 = (decodeLoop a nPrompt s.maxNew 0 s).2 := by
  unfold decodeAll attempt
  rcases decodeLoop a nPrompt s.maxNew 0 s with ⟨s', e | _⟩ <;> rfl

theorem generate_snd (hstart : startGenerate a s = (s₁, .ok nPrompt)) :
    (hbiRuntimeGenerate a s).2 = (decodeLoop a nPrompt s₁.maxNew 0 s₁).2 := by
  rw [hbiRuntimeGenerate_eq, ← decodeAll_snd]
  unfold attempt
  rw [hstart]

/-- A round that stops ends the call with success, and one that fails ends it with its failure. -/
theorem DecodeHead.generate_snd (h : DecodeHead a nPrompt s₁ generated s')
    (hstart : startGenerate a s = (s₁, .ok nPrompt)) {r : Result Bool}
    (hround : decodeRound a nPrompt s₁.maxNew generated s' = (s₂, r)) (hr : r ≠ .ok true) :
    (hbiRuntimeGenerate a s).2 = r.map fun _ => () := by
  rw [Hummingbird.generate_snd hstart, ← h.rest, h.loop_eq]
  unfold attempt
  rw [hround]
  rcases r with e | _ | _
  · rfl
  · rfl
  · exact absurd rfl hr

end Ends

section Step

variable {t : RuntimeSession} {a : GenerateArgs} {nPrompt generated : Nat}

theorem decodeToken_snd (step : StepAnswers) (s : RuntimeSession) :
    (decodeToken step s).2 = step.text s := by
  unfold decodeToken branch StepAnswers.text
  split <;> rfl

/-- Up to the sampler a round changes nothing that counts. -/
theorem enterRound_unchanged (a : GenerateArgs) (limit generated : Nat) (s : RuntimeSession) :
    Unchanged s (enterRound a limit generated s).1 := by
  have ht := (enterRound_tallied (t := s.tally) a limit generated).final rfl
  have hkv := ((kvContext_calm s.kvContext).enterRound a limit generated).final rfl
  exact ⟨congrArg Tally.texts ht, congrArg (Option.map _) hkv, congrArg Tally.counted ht⟩

theorem decodeToken_unchanged (step : StepAnswers) (s : RuntimeSession) :
    Tallied s.tally (decodeToken step s).1 ∧ (decodeToken step s).1.kvContext = s.kvContext := by
  have ht := ((decodeToken_tallied (t := s.tally) step).imp (fun _ h => h) (fun _ _ h => h.2)
    fun _ h => h).final rfl
  exact ⟨ht, ((kvContext_calm s.kvContext).decodeToken step).final rfl⟩

theorem Unchanged.trans {s s' s'' : RuntimeSession} (h : Unchanged s s') (h' : Unchanged s' s'') :
    Unchanged s s'' :=
  ⟨h'.texts.trans h.texts, h'.cursor.trans h.cursor, h'.counted.trans h.counted⟩

theorem finishRound_of_eos (h : isEos (a.step generated).nextToken t = true) :
    finishRound a nPrompt generated t = (t, .ok false) := by
  unfold finishRound branch
  rw [if_pos h]
  rfl

theorem finishRound_of_error {e : Failure} (h : isEos (a.step generated).nextToken t = false)
    (he : (a.step generated).text t = .error e) :
    finishRound a nPrompt generated t = ((decodeToken (a.step generated) t).1, .error e) := by
  rw [← decodeToken_snd] at he
  have hres : decodeToken (a.step generated) t =
      ((decodeToken (a.step generated) t).1, .error e) := Prod.ext rfl he
  unfold finishRound branch attempt
  rw [if_neg (by simp [h]), hres]
  rfl

/-- What is left of a round whose token has a text. -/
theorem finishRound_of_text {chars : String} (h : isEos (a.step generated).nextToken t = false)
    (hok : (a.step generated).text t = .ok chars) :
    finishRound a nPrompt generated t =
      attempt (appendTokens nPrompt 1) id (fun _ => after countToken (answer (.ok true)))
        (deliver a.onText chars (decodeToken (a.step generated) t).1) := by
  rw [← decodeToken_snd] at hok
  have hres : decodeToken (a.step generated) t =
      ((decodeToken (a.step generated) t).1, .ok chars) := Prod.ext rfl hok
  unfold finishRound branch
  rw [if_neg (by simp [h])]
  conv_lhs => unfold attempt
  rw [hres]
  rfl

/-- A step with something to hand out hands it out. -/
theorem finishRound_texts {chars : String} (h : isEos (a.step generated).nextToken t = false)
    (hok : (a.step generated).text t = .ok chars) (hsay : a.onText = true ∧ chars ≠ "") :
    (finishRound a nPrompt generated t).1.texts = t.texts ++ [chars] := by
  have hdecoded : (decodeToken (a.step generated) t).1.texts = t.texts :=
    congrArg Tally.texts (decodeToken_unchanged (a.step generated) t).1
  have hdeliver : (deliver a.onText chars (decodeToken (a.step generated) t).1).texts =
      t.texts ++ [chars] := by
    unfold deliver
    rw [if_pos hsay, ← hdecoded]
    simp [RuntimeSession.texts, RuntimeSession.record, List.filterMap_append, SessionEvent.chars?]
  have hcount : ∀ s : RuntimeSession, s.texts = t.texts ++ [chars] →
      (countToken s).texts = t.texts ++ [chars] := fun _ h => h
  have hkeeps : Keeps (fun s : RuntimeSession => s.texts = t.texts ++ [chars])
      (appendTokens nPrompt 1) := keeps_of_forall fun s h => by
    have hsame := (appendTokens_tallied (t := s.tally) nPrompt 1).final rfl
    exact (congrArg Tally.texts hsame).trans h
  rw [finishRound_of_text h hok]
  exact (keeps_attempt hkeeps (fun _ h => h) fun _ =>
    keeps_after hcount (keeps_answer _)).final hdeliver

/-- A step with nothing to hand out does nothing when the cache is full, and counts its token
otherwise. -/
theorem finishRound_silent {chars : String} (h : isEos (a.step generated).nextToken t = false)
    (hok : (a.step generated).text t = .ok chars) (hsay : ¬ (a.onText = true ∧ chars ≠ "")) :
    (t.KvFull → ∃ e, (finishRound a nPrompt generated t).2 = .error e ∧
      Unchanged t (finishRound a nPrompt generated t).1) ∧
    (¬ t.KvFull → (finishRound a nPrompt generated t).1.totalTokensGenerated =
      (t.totalTokensGenerated + 1) % sizeTSize) := by
  obtain ⟨ht, hkv⟩ := decodeToken_unchanged (a.step generated) t
  have hdeliver : deliver a.onText chars (decodeToken (a.step generated) t).1 =
      (decodeToken (a.step generated) t).1 := by
    unfold deliver
    exact if_neg hsay
  have hfull : (decodeToken (a.step generated) t).1.KvFull ↔ t.KvFull := by
    unfold RuntimeSession.KvFull
    rw [hkv]
  have happended := (appendTokens_tallied (t := t.tally) nPrompt 1).final ht
  rw [finishRound_of_text h hok, hdeliver]
  constructor
  · intro hno
    obtain ⟨s', e, hres, hsame⟩ := appendTokens_of_full (hfull.mpr hno) nPrompt
    rw [hres] at happended
    unfold attempt
    rw [hres]
    exact ⟨e, rfl, congrArg Tally.texts happended, congrArg (Option.map _) (hsame.trans hkv),
      congrArg Tally.counted happended⟩
  · intro hroom
    obtain ⟨s', hres⟩ := appendTokens_of_room (mt hfull.mp hroom) nPrompt
    rw [hres] at happended
    have hcounted : s'.totalTokensGenerated = t.totalTokensGenerated :=
      congrArg Tally.counted happended
    unfold attempt
    rw [hres, ← hcounted]
    rfl

end Step

/-- Something after the sampler fails before the step has had any effect: the token that is left
in the variable is no end of the sequence, and the decoder refuses it, or there is nothing to hand
out and the cache is full. -/
def FailsAfterwards (a : GenerateArgs) (generated : Nat) (t : RuntimeSession) : Prop :=
  isEos (a.step generated).nextToken t = false ∧
    ((∃ e, (a.step generated).text t = .error e) ∨
      (∃ chars, (a.step generated).text t = .ok chars ∧ ¬ (a.onText = true ∧ chars ≠ "")) ∧
        t.KvFull)

/-- For every call and every step of it whose logits the sampler refuses: the call returns an
error and the step hands out, caches and counts nothing exactly when something after the sampler
fails before the step has had any effect. -/
theorem generate_sampler_error_iff {F : Type} [LinearOrder F] {load : Int → F} {a : GenerateArgs}
    {nPrompt generated : Nat} {s s₁ s' t : RuntimeSession}
    (hstart : startGenerate a s = (s₁, .ok nPrompt))
    (h : SamplerFails load a nPrompt s₁ generated s' t) :
    ((∃ e, (hbiRuntimeGenerate a s).2 = .error e) ∧
      Unchanged s' (decodeRound a nPrompt s₁.maxNew generated s').1) ↔
      FailsAfterwards a generated t := by
  have hround : decodeRound a nPrompt s₁.maxNew generated s' =
      finishRound a nPrompt generated t := by
    unfold decodeRound attempt
    rw [h.entered]
    rfl
  have hbefore : Unchanged s' t := by
    have hsame := enterRound_unchanged a s₁.maxNew generated s'
    rwa [h.entered] at hsame
  have herror : ∀ e, (finishRound a nPrompt generated t).2 = .error e →
      ∃ e, (hbiRuntimeGenerate a s).2 = .error e := by
    intro e he
    have hres : finishRound a nPrompt generated t =
        ((finishRound a nPrompt generated t).1, .error e) := Prod.ext rfl he
    exact ⟨e, h.head.generate_snd hstart (hround.trans hres) (by simp)⟩
  unfold FailsAfterwards
  rw [hround]
  cases heos : isEos (a.step generated).nextToken t with
  | true =>
      have hstop : finishRound a nPrompt generated t = _ := finishRound_of_eos heos
      have hend := h.head.generate_snd hstart (hround.trans hstop) (by simp)
      constructor
      · rintro ⟨⟨e, he⟩, -⟩
        rw [hend] at he
        cases he
      · rintro ⟨hfalse, -⟩
        cases hfalse
  | false =>
      cases htext : (a.step generated).text t with
      | error e =>
          have hstop : finishRound a nPrompt generated t = _ := finishRound_of_error heos htext
          obtain ⟨ht, hkv⟩ := decodeToken_unchanged (a.step generated) t
          have hsame : Unchanged t (decodeToken (a.step generated) t).1 :=
            ⟨congrArg Tally.texts ht, congrArg (Option.map _) hkv, congrArg Tally.counted ht⟩
          refine ⟨fun _ => ⟨rfl, Or.inl ⟨e, rfl⟩⟩, fun _ => ⟨?_, ?_⟩⟩
          · exact herror e (congrArg Prod.snd hstop)
          · rw [hstop]
            exact hbefore.trans hsame
      | ok chars =>
          by_cases hsay : a.onText = true ∧ chars ≠ ""
          · have htexts : (finishRound a nPrompt generated t).1.texts = _ :=
              finishRound_texts heos htext hsay
            constructor
            · rintro ⟨-, hsame⟩
              have hlen := congrArg List.length (htexts.symm.trans (hsame.texts.trans
                hbefore.texts.symm))
              simp at hlen
            · rintro ⟨-, ⟨e, he⟩ | ⟨⟨chars', hchars, hnot⟩, -⟩⟩
              · cases he
              · cases hchars
                exact absurd hsay hnot
          · obtain ⟨hfull, hroom⟩ := @finishRound_silent t a nPrompt generated chars heos htext hsay
            by_cases hkv : t.KvFull
            · obtain ⟨e, he, hsame⟩ := hfull hkv
              exact ⟨fun _ => ⟨rfl, Or.inr ⟨⟨chars, rfl, hsay⟩, hkv⟩⟩,
                fun _ => ⟨herror e he, hbefore.trans hsame⟩⟩
            · constructor
              · rintro ⟨-, hsame⟩
                have hcounted := (hroom hkv).symm.trans (hsame.counted.trans
                  hbefore.counted.symm)
                unfold sizeTSize at hcounted
                omega
              · rintro ⟨-, ⟨e, he⟩ | ⟨-, hfull⟩⟩
                · cases he
                · exact absurd hfull hkv

/-- Logits of bytes. -/
def byteLogits : Tensor := { threeScalars with dtype := .int8, nbytes := 3 }

/-- The host binds the last value of the graph to them. -/
def byteStep : HostStep :=
  .attach ((hbiExecContextBind (hbiExecContextCreate fillCopy.finished) 1 byteLogits).toOption.getD
    (hbiExecContextCreate fillCopy.finished))

def byteStart : RuntimeSession := byteStep.next cacheStart

/-- The session at the first head of the loop of a call, and at the sampler of the first step. -/
def byteHead (a : GenerateArgs) : RuntimeSession := (startGenerate a byteStart).1

def byteSampler (a : GenerateArgs) : RuntimeSession :=
  (enterRound a (byteHead a).maxNew 0 (byteHead a)).1

theorem byteSampler_fails {a : GenerateArgs}
    (hentered : (enterRound a (byteHead a).maxNew 0 (byteHead a)).2 = .ok true)
    (hlogits : (byteSampler a).logits = some byteLogits) :
    SamplerFails pairContents a 1 (byteHead a) 0 (byteHead a) (byteSampler a) := by
  refine ⟨.first, Prod.ext rfl hentered, ?_⟩
  rw [hlogits]
  exact ⟨_, rfl⟩

/-- A call whose decoder refuses every token. -/
def refusedGenerate : GenerateArgs :=
  { plainGenerate with step := fun _ => { plainStep with decoded := errSet .notFound "" } }

/-- The sampler refuses the logits, and the decoder the token that is left. -/
theorem generate_sampler_error_refused :
    startGenerate refusedGenerate byteStart = (byteHead refusedGenerate, .ok 1) ∧
    SamplerFails pairContents refusedGenerate 1 (byteHead refusedGenerate) 0
      (byteHead refusedGenerate) (byteSampler refusedGenerate) ∧
    (∃ e, (hbiRuntimeGenerate refusedGenerate byteStart).2 = .error e) ∧
    Unchanged (byteHead refusedGenerate) (decodeRound refusedGenerate 1
      (byteHead refusedGenerate).maxNew 0 (byteHead refusedGenerate)).1 := by
  have hstart : startGenerate refusedGenerate byteStart = (byteHead refusedGenerate, .ok 1) :=
    Prod.ext rfl (by decide +kernel)
  have hfails : SamplerFails pairContents refusedGenerate 1 (byteHead refusedGenerate) 0
      (byteHead refusedGenerate) (byteSampler refusedGenerate) :=
    byteSampler_fails (by decide +kernel) (by decide +kernel)
  have hcond : FailsAfterwards refusedGenerate 0 (byteSampler refusedGenerate) :=
    ⟨by decide +kernel, Or.inl ⟨⟨.notFound, ""⟩, by decide +kernel⟩⟩
  exact ⟨hstart, hfails, (generate_sampler_error_iff hstart hfails).mpr hcond⟩

/-- With a decoder that takes the token that is left, the call returns success with a text handed
out, two tokens in the cache and one counted. -/
theorem generate_delivers_unsampled :
    startGenerate plainGenerate byteStart = (byteHead plainGenerate, .ok 1) ∧
    SamplerFails pairContents plainGenerate 1 (byteHead plainGenerate) 0
      (byteHead plainGenerate) (byteSampler plainGenerate) ∧
    (hbiRuntimeGenerate plainGenerate byteStart).2 = .ok () ∧
    (hbiRuntimeGenerate plainGenerate byteStart).1.texts = ["x"] ∧
    (byteHead plainGenerate).cursor = some 1 ∧
    (hbiRuntimeGenerate plainGenerate byteStart).1.cursor = some 2 ∧
    (hbiRuntimeGenerate plainGenerate byteStart).1.totalTokensGenerated = 1 ∧
    ¬ ((∃ e, (hbiRuntimeGenerate plainGenerate byteStart).2 = .error e) ∧
      Unchanged (byteHead plainGenerate) (decodeRound plainGenerate 1
        (byteHead plainGenerate).maxNew 0 (byteHead plainGenerate)).1) := by
  have hok : (hbiRuntimeGenerate plainGenerate byteStart).2 = .ok () := by decide +kernel
  refine ⟨Prod.ext rfl (by decide +kernel),
    byteSampler_fails (by decide +kernel) (by decide +kernel), hok, by decide +kernel,
    by decide +kernel, by decide +kernel, by decide +kernel, ?_⟩
  rintro ⟨⟨e, he⟩, -⟩
  rw [hok] at he
  cases he

end Hummingbird

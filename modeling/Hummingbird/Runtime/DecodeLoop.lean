import Hummingbird.Runtime.Generate

/-!
A generate call cut at the head of its decode loop: what comes before the loop, one round of
it, and the heads that a run passes. The call is what comes before the first head and then the
rounds, until one of them ends it.
-/

namespace Hummingbird

open Calls Ownership

/-- From the encoded prompt up to its place in the cache. -/
def enterPrompt (a : GenerateArgs) (nPrompt : Nat) : SessionM Unit :=
  attempt (buildPipeline a.build) (·.release .promptSeq) fun _ =>
  attempt (executePlan a.exec) (·.release .promptSeq) fun _ =>
  attempt (prepareKv nPrompt a.kvBlocks) (·.release .promptSeq) fun _ => answer (.ok ())

def enterAdmitted (a : GenerateArgs) : SessionM Nat :=
  after hbiSessionPipelineReset <|
  attempt (tokenizer a.sequenceCreate) id fun _ =>
  after (·.acquire .promptSeq ()) <|
  attempt (encodePrompt a) (·.release .promptSeq) fun nPrompt =>
  after (fun s => { s with prefillTokens := nPrompt }) <|
  attempt (enterPrompt a nPrompt) id fun _ => answer (.ok nPrompt)

/-- A generate call up to the append of its prompt, with the tokens of the prompt. -/
def enterGenerate (a : GenerateArgs) : SessionM Nat :=
  branch (fun s => s.cancelFlag) (answer (errSet .state "generate: session is cancelled")) <|
  branch (fun s => !s.model || s.adapter.isNone)
    (answer (errSet .state "generate: session has no model or adapter")) (enterAdmitted a)

/-- From the append of the prompt up to the loop. -/
def finishPrompt (a : GenerateArgs) (nPrompt : Nat) : SessionM Nat :=
  attempt (appendTokens nPrompt nPrompt) (·.release .promptSeq) fun _ =>
  attempt (createDecodeState a) (·.release .promptSeq) fun _ =>
  after (fun s => (s.use .promptSeq).release .promptSeq) (answer (.ok nPrompt))

/-- A generate call up to its loop, with the tokens of the prompt. -/
def startGenerate (a : GenerateArgs) : SessionM Nat :=
  attempt (enterGenerate a) id (finishPrompt a)

/-- A round up to the sampler: does it get there? -/
def enterRound (a : GenerateArgs) (limit generated : Nat) : SessionM Bool :=
  after (RuntimeSession.signalled (a.step generated).signal) <|
  branch (fun s => s.cancelFlag) (answer (.ok false)) <|
  branch (fun _ => decide (generated ≥ limit)) (answer (.ok false)) <|
  after hbiSessionPipelineReset <|
  attempt (buildPipeline (a.step generated).build) id fun _ =>
  attempt (executePlan (a.step generated).exec) id fun _ =>
  after (fun s => (s.use .plan).use .graph) (answer (.ok true))

/-- A round from the sampler on: does the loop go on? -/
def finishRound (a : GenerateArgs) (nPrompt generated : Nat) : SessionM Bool :=
  branch (isEos (a.step generated).nextToken) (answer (.ok false)) <|
  attempt (decodeToken (a.step generated)) id fun chars =>
  after (deliver a.onText chars) <|
  attempt (appendTokens nPrompt 1) id fun _ => after countToken (answer (.ok true))

def decodeRound (a : GenerateArgs) (nPrompt limit generated : Nat) : SessionM Bool :=
  attempt (enterRound a limit generated) id fun entered =>
    if entered = true then finishRound a nPrompt generated else answer (.ok false)

/-- The loop is at its head with so many tokens generated, in this session. -/
inductive DecodeHead (a : GenerateArgs) (nPrompt : Nat) (s₁ : RuntimeSession) :
    Nat → RuntimeSession → Prop where
  | first : DecodeHead a nPrompt s₁ 0 s₁
  | next {generated : Nat} {s s' : RuntimeSession} (head : DecodeHead a nPrompt s₁ generated s)
      (round : decodeRound a nPrompt s₁.maxNew generated s = (s', .ok true)) :
      DecodeHead a nPrompt s₁ (generated + 1) s'

section Cut

variable (a : GenerateArgs)

/-- The part before the loop, and the loop. -/
theorem hbiRuntimeGenerate_eq :
    hbiRuntimeGenerate a = attempt (startGenerate a) id (decodeAll a) := by
  unfold hbiRuntimeGenerate startGenerate enterGenerate generateAdmitted enterAdmitted
    generatePrompt enterPrompt finishPrompt
  simp only [attempt_branch, attempt_after, attempt_attempt, attempt_answer_ok]
  rfl

/-- The loop is a round, and the loop again where the round goes on. -/
theorem decodeLoop_eq (nPrompt remaining generated : Nat) :
    decodeLoop a nPrompt remaining generated =
      attempt (decodeRound a nPrompt (generated + remaining) generated) id fun more =>
        if more = true then decodeLoop a nPrompt (remaining - 1) (generated + 1)
        else answer (.ok ()) := by
  unfold decodeRound enterRound
  cases remaining with
  | zero =>
      have hlimit : decide (generated ≥ generated + 0) = true := by simp
      simp only [attempt_branch, attempt_after, attempt_attempt, attempt_answer_ok,
        Bool.false_eq_true, if_false, hlimit]
      funext s
      unfold decodeLoop after branch
      split <;> rfl
  | succ remaining =>
      have hlimit : decide (generated ≥ generated + (remaining + 1)) = false := by simp
      unfold finishRound
      simp only [attempt_branch, attempt_after, attempt_attempt, attempt_answer_ok,
        Bool.false_eq_true, if_false, if_true, hlimit]
      rfl

/-- A round that gets to the sampler has found the limit not reached. -/
theorem lt_of_enterRound {limit generated : Nat} {s s' : RuntimeSession}
    (h : enterRound a limit generated s = (s', .ok true)) : generated < limit := by
  by_contra hge
  have hlimit : decide (generated ≥ limit) = true := decide_eq_true (not_lt.mp hge)
  unfold enterRound after branch at h
  simp only [hlimit, if_true, ite_self] at h
  cases h

/-- A round that goes on got to the sampler. -/
theorem decodeRound_eq_true {nPrompt limit generated : Nat} {s s' : RuntimeSession} :
    decodeRound a nPrompt limit generated s = (s', .ok true) ↔
      ∃ t, enterRound a limit generated s = (t, .ok true) ∧
        finishRound a nPrompt generated t = (s', .ok true) := by
  unfold decodeRound attempt
  rcases enterRound a limit generated s with ⟨t, e | entered⟩
  · simp
  · cases entered with
    | false => simp [answer]
    | true => simp

/-- Why the loop may end without a failure: the session is cancelled, the limit is reached, or
the token is the end of the sequence. -/
def StopReason (limit generated : Nat) (s : RuntimeSession) : Prop :=
  s.cancelFlag = true ∨ limit ≤ generated ∨ isEos (a.step generated).nextToken s = true

theorem enterRound_reason (limit generated : Nat) :
    Meets (fun _ => True) (enterRound a limit generated)
      (fun entered s => entered = false → StopReason a limit generated s) fun _ => True := by
  refine meets_after_true (meets_branch ?_ (meets_branch ?_ ?_))
  · exact meets_answer (fun _ _ _ h _ => Or.inl h.2) fun _ _ _ _ => trivial
  · refine meets_answer (fun _ _ _ h _ => ?_) fun _ _ _ _ => trivial
    exact Or.inr (Or.inl (of_decide_eq_true h.2))
  · refine meets_after_true (meets_attempt (meets_true _ _) (fun _ h => h) fun _ => ?_)
    refine meets_attempt (meets_true _ _) (fun _ h => h) fun _ => ?_
    refine meets_after_true (meets_answer ?_ fun _ _ _ _ => trivial)
    intro entered s hentered _ hno
    cases hentered
    cases hno

theorem finishRound_reason (nPrompt limit generated : Nat) :
    Meets (fun _ => True) (finishRound a nPrompt generated)
      (fun more s => more = false → StopReason a limit generated s) fun _ => True := by
  refine meets_branch ?_ (meets_attempt (meets_true _ _) (fun _ h => h) fun _ => ?_)
  · exact meets_answer (fun _ _ _ h _ => Or.inr (Or.inr h.2)) fun _ _ _ _ => trivial
  · refine meets_after_true (meets_attempt (meets_true _ _) (fun _ h => h) fun _ => ?_)
    refine meets_after_true (meets_answer ?_ fun _ _ _ _ => trivial)
    intro more s hmore _ hno
    cases hmore
    cases hno

/-- A round that neither fails nor goes on has a reason to stop. -/
theorem decodeRound_reason (nPrompt limit generated : Nat) :
    Meets (fun _ => True) (decodeRound a nPrompt limit generated)
      (fun more s => more = false → StopReason a limit generated s) fun _ => True := by
  refine meets_attempt (enterRound_reason a limit generated) (fun _ h => h) fun entered => ?_
  cases entered with
  | true =>
      exact (finishRound_reason a nPrompt limit generated).imp (fun _ _ => trivial)
        (fun _ _ h => h) fun _ h => h
  | false => exact meets_answer (fun _ _ _ h _ => h rfl) fun _ _ _ _ => trivial

end Cut

/-- The round behind the last head: what it leaves, and the answer that the loop gives for it. -/
inductive LastRound (a : GenerateArgs) (nPrompt limit generated : Nat)
    (s s' : RuntimeSession) : Result Unit → Prop where
  | stops (round : decodeRound a nPrompt limit generated s = (s', .ok false)) :
      LastRound a nPrompt limit generated s s' (.ok ())
  | fails {e : Failure} (round : decodeRound a nPrompt limit generated s = (s', .error e)) :
      LastRound a nPrompt limit generated s s' (.error e)

/-- A loop that ends well had a reason to. -/
theorem LastRound.reason {a : GenerateArgs} {nPrompt limit generated : Nat}
    {s s' : RuntimeSession} (h : LastRound a nPrompt limit generated s s' (.ok ())) :
    StopReason a limit generated s' := by
  cases h with
  | stops round =>
      have hstop := (decodeRound_reason a nPrompt limit generated s trivial).1 false
      rw [round] at hstop
      exact hstop rfl rfl

section Heads

variable {a : GenerateArgs} {nPrompt generated : Nat} {s s₁ : RuntimeSession}

theorem DecodeHead.le (h : DecodeHead a nPrompt s₁ generated s) : generated ≤ s₁.maxNew := by
  cases h with
  | first => exact Nat.zero_le _
  | next head round =>
      obtain ⟨t, hentered, -⟩ := (decodeRound_eq_true a).mp round
      exact lt_of_enterRound a hentered

/-- What is left of the loop at a head begins with a round. -/
theorem DecodeHead.loop_eq (h : DecodeHead a nPrompt s₁ generated s) :
    decodeLoop a nPrompt (s₁.maxNew - generated) generated s =
      attempt (decodeRound a nPrompt s₁.maxNew generated) id (fun more =>
        if more = true then decodeLoop a nPrompt (s₁.maxNew - generated - 1) (generated + 1)
        else answer (.ok ())) s := by
  have hlimit : generated + (s₁.maxNew - generated) = s₁.maxNew := Nat.add_sub_of_le h.le
  rw [decodeLoop_eq, hlimit]

/-- From every head on the loop does what is left of it. -/
theorem DecodeHead.rest (h : DecodeHead a nPrompt s₁ generated s) :
    decodeLoop a nPrompt (s₁.maxNew - generated) generated s =
      decodeLoop a nPrompt s₁.maxNew 0 s₁ := by
  induction h with
  | first => rfl
  | next head round ih =>
      rw [← ih, head.loop_eq]
      unfold attempt
      rw [round]
      dsimp only
      rw [if_pos rfl, Nat.sub_sub]

/-- The loop ends at a head whose round does not go on: with success where that round stops,
and with its failure where it fails. -/
theorem decodeLoop_ends (h : DecodeHead a nPrompt s₁ generated s) :
    ∃ k s' s₂ result, DecodeHead a nPrompt s₁ k s' ∧
      LastRound a nPrompt s₁.maxNew k s' s₂ result ∧
      decodeLoop a nPrompt s₁.maxNew 0 s₁ = (s₂, result) := by
  generalize hleft : s₁.maxNew - generated = left
  induction left using Nat.strong_induction_on generalizing generated s with
  | _ left ih =>
      have hloop := h.rest
      rw [h.loop_eq] at hloop
      unfold attempt at hloop
      rcases hround : decodeRound a nPrompt s₁.maxNew generated s with ⟨s₂, e | more⟩
      · rw [hround] at hloop
        exact ⟨generated, s, s₂, .error e, h, .fails hround, hloop.symm⟩
      · cases more with
        | false =>
            rw [hround] at hloop
            exact ⟨generated, s, s₂, .ok (), h, .stops hround, hloop.symm⟩
        | true =>
            have hnext := DecodeHead.next h hround
            have hle := hnext.le
            exact ih _ (by omega) hnext rfl

end Heads

end Hummingbird

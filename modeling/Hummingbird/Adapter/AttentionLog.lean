import Hummingbird.Adapter.CacheRun

/-!
The attention calls that a forward pass logs, whatever weights are bound and whatever its
result is: all at the position of the call, one for each layer when a token is returned, and
none when the call is refused. A sequence of calls logs those of its members one behind the
other.
-/

namespace Hummingbird

section Log

variable {F D : Type} {ops : FloatOps F D} {ctx : GptOssContext F}

/-- The attention calls that were made between two states. -/
def attendedBy (s s' : ForwardState F) : List (Attention F) :=
  s'.attended.drop s.attended.length

/-- Between two states a log of attention calls was made at one position, by a context that
does not divide by zero. -/
structure Attends (ctx : GptOssContext F) (pos kvLen : Nat) (s s' : ForwardState F)
    (log : List (Attention F)) : Prop where
  attended : s'.attended = s.attended ++ log
  pos_eq : ∀ e ∈ log, e.pos = pos
  reads : ∀ e ∈ log, ∃ k v, e.reads =
    attentionReads k v ctx.numQHeads ctx.numKvHeads ctx.headDim kvLen
  heads : log ≠ [] → 0 < ctx.numKvHeads ∧ (0 < ctx.numQHeads → ctx.numKvHeads ≤ ctx.numQHeads)

variable {pos kvLen : Nat} {s s' s'' : ForwardState F} {log log' : List (Attention F)}

theorem Attends.attendedBy_eq (h : Attends ctx pos kvLen s s' log) : attendedBy s s' = log := by
  rw [attendedBy, h.attended, List.drop_left]

theorem Attends.none (h : s'.attended = s.attended) : Attends ctx pos kvLen s s' [] :=
  ⟨by simpa using h, by simp, by simp, by simp⟩

theorem Attends.trans (h : Attends ctx pos kvLen s s' log)
    (h' : Attends ctx pos kvLen s' s'' log') : Attends ctx pos kvLen s s'' (log ++ log') := by
  refine ⟨?_, ?_, ?_, ?_⟩
  · rw [h'.attended, h.attended, List.append_assoc]
  · intro e he
    rcases List.mem_append.mp he with he | he
    · exact h.pos_eq e he
    · exact h'.pos_eq e he
  · intro e he
    rcases List.mem_append.mp he with he | he
    · exact h.reads e he
    · exact h'.reads e he
  · intro hne
    by_cases hlog : log = []
    · exact h'.heads (by simpa [hlog] using hne)
    · exact h.heads hlog

/-- What a result of `ref_attention` says about its arguments. -/
theorem refAttention_eq_some {q : Nat → F} {k v : Nat → KvCell F} {out scores : Nat → F}
    {numQ numKv headDim : Nat} {res : (Nat → F) × (Nat → F) × List (KvRead F)}
    (h : refAttention ops q k v out numQ numKv headDim kvLen scores = some res) :
    res.2.2 = attentionReads k v numQ numKv headDim kvLen ∧ 0 < numKv ∧
      (0 < numQ → numKv ≤ numQ) := by
  unfold refAttention at h
  by_cases hzero : numKv = 0
  · simp [hzero] at h
  · have hkv : 0 < numKv := Nat.pos_of_ne_zero hzero
    by_cases hgroup : 0 < numQ ∧ numQ / numKv = 0
    · rw [if_neg hzero, if_pos hgroup] at h
      cases h
    · rw [if_neg hzero, if_neg hgroup] at h
      cases h
      refine ⟨rfl, hkv, ?_⟩
      intro hq
      by_contra hlt
      exact hgroup ⟨hq, Nat.div_eq_of_lt (not_le.mp hlt)⟩

/-- A layer makes one attention call, or none if it has unbound weights. -/
theorem forwardLayer_attends {layer : Nat} {status : Result Unit}
    (h : forwardLayer ops ctx pos kvLen s layer = some (s', status)) :
    ∃ log, Attends ctx pos kvLen s s' log ∧
      (status = .ok () → log.map Attention.layer = [layer]) := by
  unfold forwardLayer at h
  cases hlw : (ctx.layers.getD layer (LayerWeights.zero (Nat → F))).cdata with
  | none =>
      simp only [hlw, Option.some.injEq, Prod.mk.injEq] at h
      obtain ⟨rfl, rfl⟩ := h
      exact ⟨[], Attends.none rfl, fun hok => by cases hok⟩
  | some lw =>
      simp only [hlw, Option.bind_eq_bind, Option.bind_eq_some_iff] at h
      obtain ⟨⟨out, scores, reads⟩, hatt, hres⟩ := h
      obtain ⟨hreads, hheads⟩ := refAttention_eq_some hatt
      simp only [pure, Option.some.injEq, Prod.mk.injEq] at hres
      obtain ⟨rfl, rfl⟩ := hres
      refine ⟨[_], ⟨rfl, ?_, ?_, fun _ => hheads⟩, fun _ => rfl⟩
      · simp
      · intro e he
        obtain rfl := List.mem_singleton.mp he
        exact ⟨_, _, hreads⟩

/-- The loop makes one attention call for every layer it completes. -/
theorem forwardLayers_attends {layers : List Nat} {status : Result Unit}
    (h : forwardLayers ops ctx pos kvLen layers s = some (s', status)) :
    ∃ log, Attends ctx pos kvLen s s' log ∧
      (status = .ok () → log.map Attention.layer = layers) := by
  induction layers generalizing s with
  | nil =>
      simp only [forwardLayers, Option.some.injEq, Prod.mk.injEq] at h
      obtain ⟨rfl, rfl⟩ := h
      exact ⟨[], Attends.none rfl, fun _ => rfl⟩
  | cons layer layers ih =>
      simp only [forwardLayers, Option.bind_eq_bind, Option.bind_eq_some_iff] at h
      obtain ⟨⟨s₁, status₁⟩, hlayer, hrest⟩ := h
      obtain ⟨log₁, hlog₁, hone⟩ := forwardLayer_attends hlayer
      cases status₁ with
      | error e =>
          simp only [pure, Option.some.injEq, Prod.mk.injEq] at hrest
          obtain ⟨rfl, rfl⟩ := hrest
          exact ⟨log₁, hlog₁, fun hok => by cases hok⟩
      | ok done =>
          obtain ⟨log₂, hlog₂, hall⟩ := ih hrest
          refine ⟨log₁ ++ log₂, hlog₁.trans hlog₂, ?_⟩
          intro hok
          rw [List.map_append, hone rfl, hall hok]
          rfl

theorem forwardFinish_attended : (forwardFinish ops ctx s).1.attended = s.attended := by
  unfold forwardFinish
  cases ctx.finalNorm with
  | none => rfl
  | some norm =>
      cases ctx.lmHead with
      | none => rfl
      | some head => rfl

/-- A call passes the checks of the forward pass when its token is in the vocabulary and there
is a block for its scores. -/
def ForwardCall.Accepted (vocabSize : Nat) (call : ForwardCall F) : Prop :=
  call.tokenId < vocabSize ∧ call.scores.isSome = true

instance (vocabSize : Nat) (call : ForwardCall F) : Decidable (call.Accepted vocabSize) :=
  inferInstanceAs (Decidable (_ ∧ _))

/-- A call fails before its layers, or it passes the checks, runs the layers from some buffers
and then finishes. -/
theorem hbiAdapterGptOssForward_cases (call : ForwardCall F) (pos : Nat) (s : ForwardState F) :
    (∃ s₁ f, hbiAdapterGptOssForward ops ctx call pos s = some (s₁, .error f) ∧
      s₁.attended = s.attended) ∨
    call.Accepted ctx.vocabSize ∧ ∃ bufs, hbiAdapterGptOssForward ops ctx call pos s =
      (forwardLayers ops ctx pos ((pos + 1) % uint32Size) (List.range ctx.numLayers)
        { s with bufs := bufs }).bind fun (s, status) =>
          match status with
          | .error e => some (s, .error e)
          | .ok () => some (forwardFinish ops ctx s) := by
  unfold hbiAdapterGptOssForward
  split
  · exact Or.inl ⟨_, _, rfl, rfl⟩
  · split
    · exact Or.inl ⟨_, _, rfl, rfl⟩
    · split
      · exact Or.inl ⟨_, _, rfl, rfl⟩
      · split
        · exact Or.inl ⟨_, _, rfl, rfl⟩
        · split
          · exact Or.inl ⟨_, _, rfl, rfl⟩
          · exact Or.inr ⟨⟨by omega, by simp [*]⟩, _, rfl⟩

/-- A call that does not pass the checks is refused before any layer runs. -/
theorem hbiAdapterGptOssForward_refused {call : ForwardCall F}
    (hcall : ¬ call.Accepted ctx.vocabSize) (pos : Nat) (s : ForwardState F) :
    ∃ s₁ e, hbiAdapterGptOssForward ops ctx call pos s = some (s₁, .error e) ∧
      s₁.attended = s.attended :=
  (hbiAdapterGptOssForward_cases call pos s).resolve_right fun h => hcall h.1

/-- A call makes its attention calls at its position, one for every layer if it returns a
token. -/
theorem hbiAdapterGptOssForward_attends {call : ForwardCall F} {status : Result Nat}
    (h : hbiAdapterGptOssForward ops ctx call pos s = some (s', status)) :
    ∃ log, Attends ctx pos ((pos + 1) % uint32Size) s s' log ∧
      (∀ token, status = .ok token → log.map Attention.layer = List.range ctx.numLayers) := by
  rcases @hbiAdapterGptOssForward_cases F D ops ctx call pos s with
    ⟨s₁, f, heq, hattended⟩ | ⟨-, bufs, heq⟩
  · rw [heq] at h
    cases h
    exact ⟨[], Attends.none hattended, fun _ hok => by cases hok⟩
  · rw [heq, Option.bind_eq_some_iff] at h
    obtain ⟨⟨s₁, status₁⟩, hlayers, hrest⟩ := h
    obtain ⟨log, ⟨hattended, hpos, hreads, hheads⟩, hall⟩ := forwardLayers_attends hlayers
    have hlog : Attends ctx pos ((pos + 1) % uint32Size) s s₁ log :=
      ⟨hattended, hpos, hreads, hheads⟩
    cases status₁ with
    | error e =>
        cases hrest
        exact ⟨log, hlog, fun _ hok => by cases hok⟩
    | ok done =>
        have hfinish : forwardFinish ops ctx s₁ = (s', status) := Option.some.inj hrest
        have hlast := @forwardFinish_attended F D ops ctx s₁
        rw [hfinish] at hlast
        have hboth := hlog.trans (Attends.none hlast)
        rw [List.append_nil] at hboth
        exact ⟨log, hboth, fun _ _ => hall rfl⟩

/-- A context with enough query heads never divides by zero. -/
structure GptOssContext.Grouped (ctx : GptOssContext F) : Prop where
  kv_pos : 0 < ctx.numKvHeads
  kv_le : ctx.numKvHeads ≤ ctx.numQHeads

theorem forwardLayer_defined (hgroup : ctx.Grouped) (layer : Nat) (s : ForwardState F) :
    ∃ res, forwardLayer ops ctx pos kvLen s layer = some res := by
  unfold forwardLayer
  cases (ctx.layers.getD layer (LayerWeights.zero (Nat → F))).cdata with
  | none => exact ⟨_, rfl⟩
  | some lw =>
      dsimp only
      generalize layerProject ops ctx lw pos s.bufs = b
      obtain ⟨out, scores, hres⟩ := @refAttention_defined F D ops b.attnQ
        (storeRow s.kCache (kvPosOffset ctx pos) (kvRowCount ctx) layer pos b.attnK)
        (storeRow s.vCache (kvPosOffset ctx pos) (kvRowCount ctx) layer pos b.attnV) b.attnOut
        b.scores ctx.numQHeads ctx.numKvHeads ctx.headDim kvLen hgroup.kv_pos hgroup.kv_le
      rw [hres]
      exact ⟨_, rfl⟩

theorem forwardLayers_defined (hgroup : ctx.Grouped) (layers : List Nat) (s : ForwardState F) :
    ∃ res, forwardLayers ops ctx pos kvLen layers s = some res := by
  induction layers generalizing s with
  | nil => exact ⟨_, rfl⟩
  | cons layer layers ih =>
      obtain ⟨⟨s₁, status⟩, hlayer⟩ := @forwardLayer_defined F D ops ctx pos kvLen hgroup layer s
      simp only [forwardLayers, hlayer, Option.bind_eq_bind, Option.bind_some]
      cases status with
      | error e => exact ⟨_, rfl⟩
      | ok done => exact ih s₁

theorem hbiAdapterGptOssForward_defined (hgroup : ctx.Grouped) (call : ForwardCall F) (pos : Nat)
    (s : ForwardState F) : ∃ res, hbiAdapterGptOssForward ops ctx call pos s = some res := by
  rcases @hbiAdapterGptOssForward_cases F D ops ctx call pos s with
    ⟨s₁, f, heq, -⟩ | ⟨-, bufs, heq⟩
  · exact ⟨_, heq⟩
  · obtain ⟨⟨s₁, status⟩, hrun⟩ := @forwardLayers_defined F D ops ctx pos
      ((pos + 1) % uint32Size) hgroup (List.range ctx.numLayers) { s with bufs := bufs }
    rw [heq, hrun]
    cases status with
    | error e => exact ⟨_, rfl⟩
    | ok done => exact ⟨_, rfl⟩

theorem forwardLayer_returns (hgroup : ctx.Grouped) (hbound : ctx.Bound) {layer : Nat}
    (hlayer : layer < ctx.numLayers) (s : ForwardState F) :
    ∃ s', forwardLayer ops ctx pos kvLen s layer = some (s', .ok ()) := by
  obtain ⟨lw, hlw⟩ := hbound.layers layer hlayer
  obtain ⟨⟨s', status⟩, hrun⟩ := @forwardLayer_defined F D ops ctx pos kvLen hgroup layer s
  refine ⟨s', ?_⟩
  rw [hrun]
  simp only [forwardLayer, hlw, Option.bind_eq_bind, Option.bind_eq_some_iff] at hrun
  obtain ⟨_, -, hres⟩ := hrun
  cases hres
  rfl

theorem forwardLayers_returns (hgroup : ctx.Grouped) (hbound : ctx.Bound) {layers : List Nat}
    (hlayers : ∀ layer ∈ layers, layer < ctx.numLayers) (s : ForwardState F) :
    ∃ s', forwardLayers ops ctx pos kvLen layers s = some (s', .ok ()) := by
  induction layers generalizing s with
  | nil => exact ⟨s, rfl⟩
  | cons layer layers ih =>
      rw [List.forall_mem_cons] at hlayers
      obtain ⟨s₁, hlayer⟩ := @forwardLayer_returns F D ops ctx pos kvLen hgroup hbound layer
        hlayers.1 s
      obtain ⟨s₂, hrest⟩ := ih hlayers.2 s₁
      refine ⟨s₂, ?_⟩
      simp only [forwardLayers, hlayer, Option.bind_eq_bind, Option.bind_some]
      exact hrest

/-- With all weights bound a call for a valid token returns one, at whatever position. -/
theorem hbiAdapterGptOssForward_returns {maxSeq : Nat} (hgeom : ctx.Geometry maxSeq)
    (hgroup : ctx.Grouped) (hbound : ctx.Bound) {call : ForwardCall F}
    (htoken : call.tokenId < ctx.vocabSize) (hscores : call.scores.isSome) (pos : Nat)
    (s : ForwardState F) :
    ∃ s' token, hbiAdapterGptOssForward ops ctx call pos s = some (s', .ok token) := by
  obtain ⟨bufs, hforward⟩ := @hbiAdapterGptOssForward_eq F D ops ctx maxSeq hgeom hbound pos call
    s htoken hscores
  obtain ⟨s₁, hrun⟩ := @forwardLayers_returns F D ops ctx pos ((pos + 1) % uint32Size) hgroup
    hbound (List.range ctx.numLayers) (fun _ => List.mem_range.mp) { s with bufs := bufs }
  obtain ⟨norm, hnorm⟩ := hbound.finalNorm
  obtain ⟨head, hhead⟩ := hbound.lmHead
  rw [hforward, hrun]
  simp only [Option.bind_some, forwardFinish, hnorm, hhead]
  exact ⟨_, _, rfl⟩

theorem forwardCalls_append {first rest : List (ForwardCall F)}
    {statuses statuses' : List (Result Nat)}
    (hfirst : forwardCalls ops ctx pos first s = some (s', statuses))
    (hrest : forwardCalls ops ctx (pos + first.length) rest s' = some (s'', statuses')) :
    forwardCalls ops ctx pos (first ++ rest) s = some (s'', statuses ++ statuses') := by
  induction first generalizing pos s statuses with
  | nil =>
      cases hfirst
      exact hrest
  | cons call first ih =>
      simp only [forwardCalls, Option.bind_eq_bind, Option.bind_eq_some_iff, Prod.exists, pure,
        Option.some.injEq, Prod.mk.injEq] at hfirst
      obtain ⟨s₁, status, hcall, s₂, later, hlater, rfl, rfl⟩ := hfirst
      have hlater_pos : pos + (first.length + 1) = pos + 1 + first.length := by omega
      rw [List.length_cons, hlater_pos] at hrest
      simp [forwardCalls, hcall, ih hlater hrest]

theorem forwardCalls_append_none {first : List (ForwardCall F)}
    (hfirst : forwardCalls ops ctx pos first s = none) (rest : List (ForwardCall F)) :
    forwardCalls ops ctx pos (first ++ rest) s = none := by
  induction first generalizing pos s with
  | nil => cases hfirst
  | cons call first ih =>
      simp only [List.cons_append, forwardCalls, Option.bind_eq_bind] at hfirst ⊢
      cases hcall : hbiAdapterGptOssForward ops ctx call pos s with
      | none => rfl
      | some res =>
          obtain ⟨s₁, status⟩ := res
          rw [hcall, Option.bind_some] at hfirst
          cases hlater : forwardCalls ops ctx (pos + 1) first s₁ with
          | none => simp [ih hlater]
          | some res => simp [hlater] at hfirst

/-- Calls that are all refused log nothing. -/
theorem forwardCalls_refused {calls : List (ForwardCall F)}
    (hcalls : ∀ call ∈ calls, ¬ call.Accepted ctx.vocabSize) (pos : Nat) (s : ForwardState F) :
    ∃ s' statuses, forwardCalls ops ctx pos calls s = some (s', statuses) ∧
      s'.attended = s.attended := by
  induction calls generalizing pos s with
  | nil => exact ⟨s, [], rfl, rfl⟩
  | cons call calls ih =>
      rw [List.forall_mem_cons] at hcalls
      obtain ⟨s₁, e, hcall, hattended⟩ :=
        @hbiAdapterGptOssForward_refused F D ops ctx call hcalls.1 pos s
      obtain ⟨s₂, statuses, hrest, hlast⟩ := ih hcalls.2 (pos + 1) s₁
      refine ⟨s₂, .error e :: statuses, ?_, hlast.trans hattended⟩
      simp [forwardCalls, hcall, hrest]

/-- What a sequence of calls logs was logged at the position of a call that passed. -/
theorem forwardCalls_logged {calls : List (ForwardCall F)} {statuses : List (Result Nat)}
    (h : forwardCalls ops ctx pos calls s = some (s', statuses)) :
    statuses.length = calls.length ∧ ∀ e ∈ s'.attended, e ∈ s.attended ∨
      ∃ i call, calls[i]? = some call ∧ call.Accepted ctx.vocabSize ∧ e.pos = pos + i := by
  induction calls generalizing pos s statuses with
  | nil =>
      cases h
      exact ⟨rfl, fun e he => Or.inl he⟩
  | cons call calls ih =>
      simp only [forwardCalls, Option.bind_eq_bind, Option.bind_eq_some_iff, Prod.exists, pure,
        Option.some.injEq, Prod.mk.injEq] at h
      obtain ⟨s₁, status, hcall, s₂, rest, hrest, rfl, rfl⟩ := h
      obtain ⟨hlen, hlogged⟩ := ih hrest
      refine ⟨congrArg (· + 1) hlen, ?_⟩
      intro e he
      obtain hold | ⟨i, later, hlater, hpass, hpos⟩ := hlogged e he
      · by_cases hpass : call.Accepted ctx.vocabSize
        · obtain ⟨log, hlog, -⟩ := hbiAdapterGptOssForward_attends hcall
          rw [hlog.attended, List.mem_append] at hold
          refine hold.imp_right fun hnew => ?_
          exact ⟨0, call, rfl, hpass, hlog.pos_eq e hnew⟩
        · obtain ⟨s₀, e₀, hrefused, hattended⟩ :=
            @hbiAdapterGptOssForward_refused F D ops ctx call hpass pos s
          rw [hrefused] at hcall
          cases hcall
          exact Or.inl (hattended ▸ hold)
      · exact Or.inr ⟨i + 1, later, hlater, hpass, by omega⟩

end Log

end Hummingbird

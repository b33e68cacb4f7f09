import Hummingbird.Runtime.Ledger
import Hummingbird.Runtime.Ready

/-!
When a session gives back everything. The streaming engine is never destroyed, and the
context of the model only by an adapter that can do so; what is in one of these two
slots stays there through every call and through the destruction of the session. A
session that never had them gives back what it had.
-/

namespace Hummingbird

open Calls Ownership

/-- The slot is taken. -/
def Remains (k : ObjKind) (s : RuntimeSession) : Prop := (s.owned.id? k).isSome = true

namespace Remains

variable {k k' : ObjKind} {s : RuntimeSession}

theorem use (h : Remains k s) (k' : ObjKind) : Remains k (s.use k') := by
  simpa [Remains, RuntimeSession.use] using h

theorem store (h : Remains k s) (k' : ObjKind) (v : k'.Payload) : Remains k (s.store k' v) := by
  simpa [Remains, RuntimeSession.store] using h

theorem acquire (h : Remains k s) (k' : ObjKind) (v : k'.Payload) :
    Remains k (s.acquire k' v) := by
  simp only [Remains, RuntimeSession.acquire, Owner.id?_acquire]
  split
  · rfl
  · exact h

theorem release (h : Remains k s) (hne : k ≠ k') : Remains k (s.release k') := by
  simpa [Remains, RuntimeSession.release, hne] using h

theorem untouched {s₀ : RuntimeSession} (hk : k.longLived = true) (h : Remains k s₀)
    (hs : Untouched s₀ s) : Remains k s := by
  unfold Remains Owner.id?
  rw [hs.slot k hk]
  exact h

theorem prepareKv (k : ObjKind) (nPrompt : Nat) (blocks : ContextBlocks) :
    Keeps (Remains k) (prepareKv nPrompt blocks) := by
  refine keeps_branch (keeps_perform ?_) (keeps_of_forall ?_)
  · intro s h
    unfold resetKv
    split
    · exact h
    · exact (h.use .kvCtx).store .kvManager _
  · intro s h
    unfold createKv
    dsimp only
    split
    · exact h
    · split
      · exact h.use .kvManager
      · exact ((h.use .kvManager).store .kvManager _).acquire .kvCtx _

theorem appendTokens (k : ObjKind) (nPrompt numTokens : Nat) :
    Keeps (Remains k) (appendTokens nPrompt numTokens) := by
  apply keeps_of_forall
  intro s h
  unfold Hummingbird.appendTokens
  split
  · exact h
  · dsimp only
    split
    · exact h.use .kvCtx
    · exact Remains.store (h.use .kvCtx) .kvManager _

/-- No call empties the slot of a long-lived object. -/
theorem steady (hk : k.longLived = true) : Steady (Remains k) where
  untouched h hs := h.untouched hk hs
  tokenized _ h := h
  built _ h := h
  executed _ := keeps_noting (keeps_of_forall fun _ h =>
    (((h.use .plan).use .graph).use .backendMgr).use .streamEngine) fun _ _ h => h
  prepared := Remains.prepareKv k
  appended := Remains.appendTokens k
  delivered _ h := h

theorem kvManagerDestroy (h : Remains k s) (hmgr : k ≠ .kvManager) (hctx : k ≠ .kvCtx) :
    Remains k (hbiKvManagerDestroy s) := by
  have hlinger : ∀ (contexts : List Nat) (s : RuntimeSession), Remains k s →
      Remains k (contexts.foldl destroyLingering s) := by
    intro contexts
    induction contexts with
    | nil => exact fun _ h => h
    | cons i rest ih =>
        intro s h
        apply ih
        unfold destroyLingering
        split
        · exact h.release hctx
        · exact h
  unfold hbiKvManagerDestroy
  split
  · exact h
  · exact (hlinger _ s h).release hmgr

theorem destroyKvCtx (h : Remains k s) (hctx : k ≠ .kvCtx) : Remains k (destroyKvCtx s) := by
  unfold Hummingbird.destroyKvCtx
  split
  · exact (h.store .kvManager _).release hctx
  · exact h

/-- The destruction of a session leaves the streaming engine, and the context of the
model when the adapter cannot destroy it. -/
theorem sessionDestroy (h : Remains k s)
    (hk : k = .streamEngine ∨ k = .modelCtx ∧ canDestroy s.adapter = false) :
    Remains k (hbiRuntimeSessionDestroy s) := by
  have hlong : k.longLived = true := by
    rcases hk with rfl | ⟨rfl, -⟩ <;> rfl
  have hreset := (Untouched.refl s).pipelineReset
  have hmodel : Remains k (destroyModelCtx (hbiSessionPipelineReset s)) := by
    rw [destroyModelCtx_eq, hreset.adapter]
    split
    · rename_i hcan
      refine (h.untouched hlong hreset).release ?_
      rintro rfl
      simp [hcan] at hk
    · exact h.untouched hlong hreset
  have hne : k ≠ .kvManager ∧ k ≠ .kvCtx ∧ k ≠ .session := by
    rcases hk with rfl | ⟨rfl, -⟩ <;> decide
  exact ((hmodel.destroyKvCtx hne.2.1).kvManagerDestroy hne.1 hne.2.1).release hne.2.2

end Remains

section Create

variable {a : CreateArgs}

/-- The session and its cache manager are created. -/
def CreateArgs.Opens (a : CreateArgs) : Prop := a.sessionAlloc = true ∧ a.kvManager = .ok ()

/-- The context of the model is created. -/
def CreateArgs.MakesContext (a : CreateArgs) : Prop :=
  a.Opens ∧ a.model = true ∧ a.adapter.isSome = true ∧ (∃ d, a.initModel = .ok d) ∧
    a.createContext = .ok ()

/-- A streaming engine is created. -/
def CreateArgs.Streams (a : CreateArgs) : Prop :=
  a.Opens ∧ a.model = true ∧ (a.adapter.isSome = true → a.MakesContext) ∧ a.streamEngine = .ok ()

/-- What is left of the creation once there is a manager. -/
def openedSession (a : CreateArgs) : SessionM Unit :=
  after (·.acquire .session ()) <|
  after (·.acquire .kvManager KvManager.empty) <|
  attempt (initAdapter a) (fun s => (hbiKvManagerDestroy s).release .session) fun _ =>
  attempt (startStream a) hbiRuntimeSessionDestroy fun _ => answer (.ok ())

theorem createSession_of_opens (h : a.Opens) : createSession a = openedSession a := by
  unfold createSession allocSession
  rw [h.1, h.2]
  rfl

theorem initAdapter_of_makes (h : a.MakesContext) :
    Meets (Begun a) (initAdapter a) (fun _ s => Begun a s ∧ Remains .modelCtx s)
      fun _ => False := by
  obtain ⟨-, hmodel, hadapter, ⟨d, hinit⟩, hctx⟩ := h
  refine meets_branch ?_ ?_
  · rw [hinit, hctx, attempt_answer_ok, attempt_answer_ok]
    intro s hs
    obtain ⟨hs, -⟩ := hs
    refine ⟨fun _ _ => ⟨?_, ?_⟩, fun _ he => by cases he⟩
    · exact Begun.acquire (s := { s with descriptor := d })
        ⟨hs.model, hs.adapter, hs.config, hs.execCtx, hs.events, hs.sizedFor, hs.kvCtx⟩
        .modelCtx () (by decide)
    · simp [Remains, after, perform, RuntimeSession.acquire]
  · rintro s ⟨hs, hnot⟩
    simp [hs.model, hs.adapter, hmodel, hadapter] at hnot

theorem initAdapter_without (h : a.adapter.isSome = false) :
    Meets (Begun a) (initAdapter a) (fun _ => Begun a) fun _ => False := by
  refine meets_branch ?_ ?_
  · rintro s ⟨hs, hyes⟩
    simp [hs.adapter, h] at hyes
  · exact meets_answer (fun _ _ _ hs => hs.1) fun _ _ he => by cases he

theorem startStream_of_streams (hmodel : a.model = true) (hstream : a.streamEngine = .ok ()) :
    Meets (Begun a) (startStream a) (fun _ => Remains .streamEngine) (Remains .streamEngine) := by
  refine meets_branch ?_ ?_
  · rw [hstream, attempt_answer_ok]
    refine meets_after (registerBlocks_keeps (fun _ h => h.use .streamEngine) _) fun s _ => ?_
    simp [Remains, RuntimeSession.acquire]
  · rintro s ⟨hs, hnot⟩
    simp [hs.model, hmodel] at hnot

theorem Begun.opened {s : RuntimeSession} (h : Begun a s) :
    Begun a ((s.acquire .session ()).acquire .kvManager KvManager.empty) :=
  (h.acquire .session () (by decide)).acquire .kvManager KvManager.empty (by decide)

/-- A creation that makes a streaming engine leaves it, even where it fails. -/
theorem create_remains_stream (h : a.Streams) :
    Remains .streamEngine (hbiRuntimeSessionCreate a).1 := by
  obtain ⟨hopens, hmodel, hmakes, hstream⟩ := h
  have hinit : Meets (Begun a) (initAdapter a) (fun _ => Begun a) fun _ => False := by
    cases hadapter : a.adapter.isSome with
    | true =>
        exact (initAdapter_of_makes (hmakes hadapter)).imp (fun _ h => h) (fun _ _ h => h.1)
          fun _ h => h
    | false => exact initAdapter_without hadapter
  have hopened : Meets (Begun a) (openedSession a) (fun _ => Remains .streamEngine)
      (Remains .streamEngine) := by
    refine meets_after (meets_after ?_ fun _ h => h) fun s h => h.opened
    refine meets_attempt hinit (fun _ h => h.elim) fun _ => ?_
    refine meets_attempt (startStream_of_streams hmodel hstream)
      (fun _ h => h.sessionDestroy (Or.inl rfl)) fun _ => ?_
    exact keeps_answer _
  unfold hbiRuntimeSessionCreate
  rw [createSession_of_opens hopens]
  exact hopened.final a.start_begun

/-- A creation that makes a context of the model leaves it, even where it fails, when the
adapter cannot destroy it. -/
theorem create_remains_context (h : a.MakesContext) (hcan : canDestroy a.adapter = false) :
    Remains .modelCtx (hbiRuntimeSessionCreate a).1 := by
  have hstart : Keeps (fun s => Begun a s ∧ Remains .modelCtx s) (startStream a) :=
    startStream_keeps (fun _ h => ⟨h.1.use .streamEngine, h.2.use .streamEngine⟩)
      (fun _ h => ⟨h.1.acquire .streamEngine () (by decide), h.2.acquire .streamEngine ()⟩) a
  have hopened : Meets (Begun a) (openedSession a) (fun _ => Remains .modelCtx)
      (Remains .modelCtx) := by
    refine meets_after (meets_after ?_ fun _ h => h) fun s h => h.opened
    refine meets_attempt (initAdapter_of_makes h) (fun _ h => h.elim) fun _ => ?_
    refine meets_attempt hstart (fun s hs => ?_) fun _ => ?_
    · exact hs.2.sessionDestroy (Or.inr ⟨rfl, hs.1.adapter ▸ hcan⟩)
    · exact meets_answer (fun _ _ _ hs => hs.2) fun _ _ he => by cases he
  unfold hbiRuntimeSessionCreate
  rw [createSession_of_opens h.1]
  exact hopened.final a.start_begun

/-- What the creation leaves in one of the two slots is there to the end. -/
theorem lifetime_remains {k : ObjKind} (h : Remains k (hbiRuntimeSessionCreate a).1)
    (hk : k = .streamEngine ∨ k = .modelCtx ∧ canDestroy a.adapter = false)
    (steps : List HostStep) : Remains k (lifetime a steps) := by
  have hlong : k.longLived = true := by
    rcases hk with rfl | ⟨rfl, -⟩ <;> rfl
  unfold lifetime
  rcases hres : hbiRuntimeSessionCreate a with ⟨s, e | _⟩
  · rw [hres] at h
    exact h
  · rw [hres] at h
    have hend : Remains k (Runs.final HostStep.next s steps) := by
      refine @Runs.final_of_step _ _ HostStep.next (Remains k) ?_ s h steps
      intro s step hs
      cases step with
      | call c => exact (Remains.steady hlong).next hs c
      | attach ctx => exact hs
    apply hend.sessionDestroy
    rw [HostStep.run_adapter, (begun_of_create hres).adapter]
    exact hk

/-- Without a model no call does anything. -/
theorem HostStep.next_owned {s : RuntimeSession} (hs : s.model = false) (step : HostStep) :
    (step.next s).owned = s.owned := by
  cases step with
  | call c =>
      cases c with
      | generate a =>
          simp only [HostStep.next, SessionCall.next, hbiRuntimeGenerate, branch, hs, answer]
          split <;> rfl
      | cancel => rfl
      | reset => rfl
  | attach ctx => rfl

theorem HostStep.run_owned {s : RuntimeSession} (hs : s.model = false) (steps : List HostStep) :
    (Runs.final HostStep.next s steps).owned = s.owned := by
  refine (@Runs.final_of_step _ _ HostStep.next
    (fun s' => s'.model = false ∧ s'.owned = s.owned) ?_ s ⟨hs, rfl⟩ steps).2
  intro s' step h
  exact ⟨(HostStep.next_terms s' step).1.trans h.1, (HostStep.next_owned h.1 step).trans h.2⟩

/-- The objects of a session without a model. -/
def bareOwner : Owner ObjKind ObjKind.Payload :=
  ((Owner.empty : Owner ObjKind ObjKind.Payload).acquire .session ()).acquire .kvManager
    KvManager.empty

theorem sessionDestroy_bare {s : RuntimeSession} (hs : s.owned = bareOwner) :
    (hbiRuntimeSessionDestroy s).owned.ledger.Settled := by
  apply Ledger.settled_of_eq [.session, .kvManager]
  obtain ⟨model, adapter, tokMgr, config, flag, desc, plan, ctx, prefill, total, owned, events,
    sized⟩ := s
  subst hs
  rcases adapter with _ | ⟨_ | _⟩ <;> rfl

/-- A creation that fails before there is a streaming engine gives everything back, and
so does a session that never had a model. -/
theorem lifetime_settled (hstream : ¬ a.Streams)
    (hctx : a.MakesContext → canDestroy a.adapter = true) (steps : List HostStep) :
    (lifetime a steps).owned.ledger.Settled := by
  obtain ⟨model, adapter, tokMgr, config, alloc, kvm, init, context, stream, blocks⟩ := a
  rcases alloc with _ | _
  · exact Ledger.settled_of_eq [] rfl
  rcases kvm with e | _
  · exact Ledger.settled_of_eq [.session] rfl
  rcases model with _ | _
  · have hres : hbiRuntimeSessionCreate
        ⟨false, adapter, tokMgr, config, true, .ok (), init, context, stream, blocks⟩ =
        ({ CreateArgs.start ⟨false, adapter, tokMgr, config, true, .ok (), init, context, stream,
          blocks⟩ with owned := bareOwner }, .ok ()) := by
      cases adapter <;> rfl
    unfold lifetime
    rw [hres]
    exact sessionDestroy_bare (HostStep.run_owned rfl steps)
  rcases adapter with _ | ⟨_ | _⟩
  · rcases stream with e | _
    · exact Ledger.settled_of_eq [.session, .kvManager] rfl
    · exact absurd ⟨⟨rfl, rfl⟩, rfl, by simp, rfl⟩ hstream
  all_goals
    rcases init with e | d
    · exact Ledger.settled_of_eq [.session, .kvManager] rfl
    rcases context with e | _
    · exact Ledger.settled_of_eq [.session, .kvManager] rfl
  · exact absurd (hctx ⟨⟨rfl, rfl⟩, rfl, rfl, ⟨d, rfl⟩, rfl⟩) (by simp [canDestroy])
  · rcases stream with e | _
    · exact Ledger.settled_of_eq [.session, .kvManager, .modelCtx] rfl
    · exact absurd ⟨⟨rfl, rfl⟩, rfl, fun _ => ⟨⟨rfl, rfl⟩, rfl, rfl, ⟨d, rfl⟩, rfl⟩, rfl⟩ hstream

end Create

/-- For every session, whatever its host does with it and wherever its calls fail: all
that was created for it is destroyed exactly when there never was a streaming engine and
the context of the model, if there was one, can be destroyed. Nothing is ever destroyed
twice or used after its destruction, and what may be left over is the streaming engine,
planners, plans whose construction failed, and such a context. -/
theorem session_ledger_settled_iff (a : CreateArgs) (steps : List HostStep) :
    ((lifetime a steps).owned.ledger.Settled ↔
      ¬ a.Streams ∧ (a.MakesContext → canDestroy a.adapter = true)) ∧
    (lifetime a steps).owned.ledger.faults = 0 ∧
    ∀ k, (k, true) ∈ (lifetime a steps).owned.ledger.objects →
      k = .streamEngine ∨ k = .planner ∨ k = .plan ∨
        k = .modelCtx ∧ canDestroy a.adapter = false := by
  have hwithin := lifetime_holding a steps
  refine ⟨⟨?_, fun h => lifetime_settled h.1 h.2 steps⟩, hwithin.consistent.no_fault, ?_⟩
  · intro hsettled
    have hempty := (hwithin.consistent.settled_iff.mp hsettled).1
    constructor
    · intro hstream
      have hremains := lifetime_remains (create_remains_stream hstream) (Or.inl rfl) steps
      simp [Remains, hempty] at hremains
    · intro hmakes
      by_contra hcan
      have hcan : canDestroy a.adapter = false := Bool.eq_false_iff.mpr hcan
      have hremains := lifetime_remains (create_remains_context hmakes hcan)
        (Or.inr ⟨rfl, hcan⟩) steps
      simp [Remains, hempty] at hremains
  · intro k hk
    rcases hwithin.alive_mem hk with hk | hk
    · unfold leftKinds at hk
      split at hk
      · simp only [Finset.mem_insert, Finset.mem_singleton] at hk
        tauto
      · rename_i hcan
        simp only [Finset.mem_insert, Finset.mem_singleton] at hk
        have := Bool.eq_false_iff.mpr hcan
        tauto
    · simp only [leaky, Finset.mem_insert, Finset.mem_singleton] at hk
      tauto

/-- A session with a model that answers one call: its streaming engine is left, and so is
the planner of the build. -/
theorem session_ledger_leaks_plain :
    (lifetime plainSession [.call (.generate plainGenerate)]).owned.ledger.objects =
      [(.session, false), (.kvManager, false), (.modelCtx, false), (.streamEngine, true),
        (.promptSeq, false), (.builder, false), (.graph, false), (.scheduler, false),
        (.plan, false), (.planner, true), (.backendMgr, false)] ∧
      ¬ (lifetime plainSession [.call (.generate plainGenerate)]).owned.ledger.Settled := by
  have hobjects : (lifetime plainSession [.call (.generate plainGenerate)]).owned.ledger.objects =
      [(.session, false), (.kvManager, false), (.modelCtx, false), (.streamEngine, true),
        (.promptSeq, false), (.builder, false), (.graph, false), (.scheduler, false),
        (.plan, false), (.planner, true), (.backendMgr, false)] := by decide +kernel
  refine ⟨hobjects, ?_⟩
  intro hsettled
  have hdead := hsettled.2 (.streamEngine, true) (by simp [hobjects])
  cases hdead

end Hummingbird

import Hummingbird.Runtime.Untouched
import Hummingbird.Kv.Steps

/-!
The cache of a session. The manager lists the one context that the session holds, or
none; a generate call creates the context when there is none, empties it otherwise, and
appends to it. What each of these does is said once, for a session in either state.
-/

namespace Hummingbird

open Calls Ownership

/-- The session has a manager and no context. -/
structure NoCache (s : RuntimeSession) (mgr : KvManager) : Prop where
  manager : s.owned.value? .kvManager = some mgr
  handle : s.owned.value? .kvCtx = none
  table : mgr.contexts = []

/-- The session holds the one context that its manager lists. -/
structure CacheAt (s : RuntimeSession) (mgr : KvManager) (h : Nat) (ctx : ContextHandle) :
    Prop where
  manager : s.owned.value? .kvManager = some mgr
  handle : s.owned.value? .kvCtx = some h
  table : mgr.contexts = [h]
  live : mgr.live h = some ctx

def CacheLinked (s : RuntimeSession) : Prop :=
  (∃ mgr, NoCache s mgr) ∨ ∃ mgr h ctx, CacheAt s mgr h ctx

section Slots

variable {s s' : RuntimeSession} {mgr : KvManager} {h : Nat} {ctx : ContextHandle}

theorem NoCache.of_slots (hs : NoCache s mgr)
    (hmgr : s'.owned.slot .kvManager = s.owned.slot .kvManager)
    (hctx : s'.owned.slot .kvCtx = s.owned.slot .kvCtx) : NoCache s' mgr := by
  refine ⟨?_, ?_, hs.table⟩
  · rw [← hs.manager, Owner.value?, hmgr, Owner.value?]
  · rw [← hs.handle, Owner.value?, hctx, Owner.value?]

theorem CacheAt.of_slots (hs : CacheAt s mgr h ctx)
    (hmgr : s'.owned.slot .kvManager = s.owned.slot .kvManager)
    (hctx : s'.owned.slot .kvCtx = s.owned.slot .kvCtx) : CacheAt s' mgr h ctx := by
  refine ⟨?_, ?_, hs.table, hs.live⟩
  · rw [← hs.manager, Owner.value?, hmgr, Owner.value?]
  · rw [← hs.handle, Owner.value?, hctx, Owner.value?]

theorem CacheLinked.of_slots (hs : CacheLinked s)
    (hmgr : s'.owned.slot .kvManager = s.owned.slot .kvManager)
    (hctx : s'.owned.slot .kvCtx = s.owned.slot .kvCtx) : CacheLinked s' := by
  rcases hs with ⟨mgr, hs⟩ | ⟨mgr, h, ctx, hs⟩
  · exact Or.inl ⟨mgr, hs.of_slots hmgr hctx⟩
  · exact Or.inr ⟨mgr, h, ctx, hs.of_slots hmgr hctx⟩

theorem NoCache.untouched (hs : NoCache s mgr) (hu : Untouched s s') : NoCache s' mgr :=
  hs.of_slots (hu.slot .kvManager rfl) (hu.slot .kvCtx rfl)

theorem CacheAt.untouched (hs : CacheAt s mgr h ctx) (hu : Untouched s s') :
    CacheAt s' mgr h ctx :=
  hs.of_slots (hu.slot .kvManager rfl) (hu.slot .kvCtx rfl)

theorem CacheLinked.untouched (hs : CacheLinked s) (hu : Untouched s s') : CacheLinked s' :=
  hs.of_slots (hu.slot .kvManager rfl) (hu.slot .kvCtx rfl)

theorem CacheAt.kvContext (hs : CacheAt s mgr h ctx) : s.kvContext = some (mgr, h, ctx) := by
  simp [RuntimeSession.kvContext, hs.manager, hs.handle, hs.live]

/-- The context is replaced behind its handle. -/
theorem CacheAt.store (hs : CacheAt s mgr h ctx) (ctx' : ContextHandle) :
    CacheAt (s.store .kvManager (mgr.store h ctx')) (mgr.store h ctx') h ctx' := by
  refine ⟨s.owned.value?_store .kvManager _ mgr hs.manager, ?_, hs.table,
    KvManager.live_store_self (KvManager.live_lt hs.live)⟩
  rw [← hs.handle, Owner.value?, Owner.value?]
  exact congrArg _ (s.owned.slot_store_of_ne (by decide) _)

theorem CacheAt.record (hs : CacheAt s mgr h ctx) (e : SessionEvent) :
    CacheAt (s.record e) mgr h ctx :=
  hs.of_slots rfl rfl

theorem CacheAt.use (hs : CacheAt s mgr h ctx) (k : ObjKind) : CacheAt (s.use k) mgr h ctx :=
  hs.untouched ((Untouched.refl s).use k)

theorem CacheAt.resetKv_eq (hs : CacheAt s mgr h ctx) :
    resetKv s = (s.use .kvCtx).store .kvManager (mgr.store h (hbiKvContextReset ctx)) := by
  unfold resetKv
  rw [hs.kvContext]

theorem CacheAt.resetKv (hs : CacheAt s mgr h ctx) :
    CacheAt (resetKv s) (mgr.store h (hbiKvContextReset ctx)) h (hbiKvContextReset ctx) := by
  rw [hs.resetKv_eq]
  exact (hs.use .kvCtx).store (hbiKvContextReset ctx)

/-- What an append leaves when it succeeds. -/
theorem CacheAt.appendTokens_ok (hs : CacheAt s mgr h ctx) {nPrompt numTokens : Nat}
    {ctx' : ContextHandle} (hok : hbiKvContextAppendTokens ctx numTokens = .ok ctx') :
    appendTokens nPrompt numTokens s =
      (((s.use .kvCtx).record (.appended (nPrompt + s.maxNew) ctx.state.maxTokens
        (.ok ()))).store .kvManager (mgr.store h ctx'), .ok ()) := by
  unfold appendTokens
  rw [hs.kvContext]
  simp only [hok]
  rfl

/-- What it leaves when it fails. -/
theorem CacheAt.appendTokens_error (hs : CacheAt s mgr h ctx) {nPrompt numTokens : Nat}
    {e : Failure} (herr : hbiKvContextAppendTokens ctx numTokens = .error e) :
    appendTokens nPrompt numTokens s =
      ((s.use .kvCtx).record (.appended (nPrompt + s.maxNew) ctx.state.maxTokens
        (.error e)), .error e) := by
  unfold appendTokens
  rw [hs.kvContext]
  simp only [herr]
  rfl

/-- A context is created with room for the prompt and the new tokens, or not at all. -/
theorem NoCache.createKv (hs : NoCache s mgr) (nPrompt : Nat) (blocks : ContextBlocks) :
    (∃ e, createKv nPrompt blocks s = (s.use .kvManager, .error e)) ∨
    ∃ mgr' h ctx, CacheAt (createKv nPrompt blocks s).1 mgr' h ctx ∧
      (createKv nPrompt blocks s).2 = .ok () ∧
      (createKv nPrompt blocks s).1.sizedFor = some nPrompt ∧
      (createKv nPrompt blocks s).1.config = s.config ∧
      (createKv nPrompt blocks s).1.events = s.events ∧
      ctx.state.maxTokens = (nPrompt + s.maxNew) % uint32Size ∧ ctx.state.totalTokens = 0 := by
  unfold Hummingbird.createKv
  simp only [hs.manager]
  cases hcreate : hbiKvContextCreate mgr ((nPrompt + s.maxNew) % uint32Size) .fp32
      (sessionKvShape s.descriptor ((nPrompt + s.maxNew) % uint32Size))
      (sessionKvShape s.descriptor ((nPrompt + s.maxNew) % uint32Size)) blocks with
  | error e => exact Or.inl ⟨e, rfl⟩
  | ok res =>
      obtain ⟨mgr', h⟩ := res
      obtain ⟨pages, -, rfl, rfl⟩ := hbiKvContextCreate_eq_ok hcreate
      refine Or.inr ⟨_, _, freshContext ((nPrompt + s.maxNew) % uint32Size) .fp32
        (sessionKvShape s.descriptor ((nPrompt + s.maxNew) % uint32Size))
        (sessionKvShape s.descriptor ((nPrompt + s.maxNew) % uint32Size)) pages,
        ⟨?_, ?_, ?_, KvManager.live_register_new mgr _⟩, rfl, rfl, rfl, rfl, rfl, rfl⟩
      · rw [Owner.value?]
        refine (congrArg _ (Owner.slot_acquire_of_ne _ (by decide) _)).trans ?_
        refine Owner.value?_store _ ObjKind.kvManager _ mgr ?_
        rw [← hs.manager, Owner.value?, Owner.value?]
        exact congrArg _ (congrFun (s.owned.slot_use .kvManager) .kvManager)
      · exact Owner.value?_acquire _ ObjKind.kvCtx _
      · simp [KvManager.register, hs.table]

end Slots

theorem CacheLinked.prepareKv (nPrompt : Nat) (blocks : ContextBlocks) :
    Keeps CacheLinked (prepareKv nPrompt blocks) := by
  apply keeps_of_forall
  intro s hs
  unfold Hummingbird.prepareKv branch
  split
  · rename_i hsome
    dsimp only at hsome
    rcases hs with ⟨mgr, hs⟩ | ⟨mgr, h, ctx, hs⟩
    · rw [s.owned.id?_eq_none_of_value? hs.handle] at hsome
      cases hsome
    · exact Or.inr ⟨_, _, _, hs.resetKv⟩
  · rename_i hnone
    rcases hs with ⟨mgr, hs⟩ | ⟨mgr, h, ctx, hs⟩
    · rcases hs.createKv nPrompt blocks with ⟨e, he⟩ | ⟨mgr', h, ctx, hcache, -⟩
      · rw [he]
        exact CacheLinked.untouched (Or.inl ⟨mgr, hs⟩) ((Untouched.refl s).use .kvManager)
      · exact Or.inr ⟨mgr', h, ctx, hcache⟩
    · exact absurd (s.owned.id?_isSome_of_value? hs.handle) hnone

theorem CacheLinked.appendTokens (nPrompt numTokens : Nat) :
    Keeps CacheLinked (appendTokens nPrompt numTokens) := by
  apply keeps_of_forall
  intro s hs
  rcases hs with ⟨mgr, hs⟩ | ⟨mgr, h, ctx, hs⟩
  · have hnone : s.kvContext = none := by
      simp [RuntimeSession.kvContext, hs.manager, hs.handle]
    unfold Hummingbird.appendTokens
    rw [hnone]
    exact Or.inl ⟨mgr, hs⟩
  · cases hres : hbiKvContextAppendTokens ctx numTokens with
    | error e =>
        rw [hs.appendTokens_error hres]
        exact Or.inr ⟨mgr, h, ctx, (hs.use .kvCtx).record _⟩
    | ok ctx' =>
        rw [hs.appendTokens_ok hres]
        exact Or.inr ⟨_, h, ctx', ((hs.use .kvCtx).record _).store ctx'⟩

/-- A teardown that destroys the context takes it off the list of the manager. -/
theorem CacheLinked.destroyKvCtx {s : RuntimeSession} (hs : CacheLinked s) :
    ∃ mgr, NoCache (destroyKvCtx s) mgr := by
  unfold Hummingbird.destroyKvCtx
  rcases hs with ⟨mgr, hs⟩ | ⟨mgr, h, ctx, hs⟩
  · rw [hs.manager, hs.handle]
    exact ⟨mgr, hs⟩
  · rw [hs.manager, hs.handle]
    simp only [hs.live, Option.map_some, Option.getD_some]
    refine ⟨hbiKvContextDestroy mgr h ctx, ?_, ?_, ?_⟩
    · rw [Owner.value?]
      refine (congrArg _ (Owner.slot_release_of_ne _ (by decide))).trans ?_
      exact s.owned.value?_store .kvManager _ mgr hs.manager
    · exact Owner.value?_release _ ObjKind.kvCtx
    · simp [hbiKvContextDestroy, dropContext, hs.table]

/-- With no context left, the manager is all that goes. -/
theorem NoCache.kvManagerDestroy {s : RuntimeSession} {mgr : KvManager} (hs : NoCache s mgr) :
    hbiKvManagerDestroy s = s.release .kvManager := by
  unfold hbiKvManagerDestroy
  rw [hs.manager]
  simp only [hs.table, List.foldl_nil]

/-- The manager and the session agree on the context during every call. -/
theorem CacheLinked.steady : Steady CacheLinked where
  untouched h hs := h.untouched hs
  tokenized _ h := h.of_slots rfl rfl
  built _ h := h.of_slots rfl rfl
  executed _ := keeps_of_forall fun s h => CacheLinked.of_slots
    (h.untouched (((((Untouched.refl s).use .plan).use .graph).use .backendMgr).use .streamEngine))
    rfl rfl
  prepared := CacheLinked.prepareKv
  appended := CacheLinked.appendTokens
  delivered _ h := h.of_slots rfl rfl

end Hummingbird

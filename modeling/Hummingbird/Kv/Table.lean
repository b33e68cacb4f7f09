import Hummingbird.Foundation.Runs
import Hummingbird.Foundation.SwapRemove
import Hummingbird.Kv.Steps

/-!
The array of contexts of a manager, with the slots behind its count, and what one call does to
the manager as a whole. The names in use are those of the live contexts, each once; the loop
of `hbi_kv_manager_destroy` reads them from the array while every round removes one.
-/

namespace Hummingbird

open SwapRemove

/-- The tensors of a page, which no call but an allocation replaces. -/
def KvPage.tensors (p : KvPage) : Tensor × Tensor := (p.kTensor, p.vTensor)

/-- Both contexts have the same number of pages over the same tensors. -/
structure ContextHandle.SameSpace (ctx ctx' : ContextHandle) : Prop where
  numPages : ctx'.state.numPages = ctx.state.numPages
  tensors : ctx'.pages.map KvPage.tensors = ctx.pages.map KvPage.tensors

/-- A context with its only page. -/
structure ContextHandle.SinglePage (ctx : ContextHandle) : Prop where
  numPages : ctx.state.numPages = 1
  pages : ctx.pages.length = 1

/-- What a call makes of the array of contexts: a new context takes the slot behind the last
one, a destroyed one leaves its slot to the last one. -/
def KvOp.slots (w : KvWorld) (table : Slots Nat) (op : KvOp) : Slots Nat :=
  match op with
  | .create .. | .clone .. =>
      match (op.call w).2 with
      | .ok _ => table.push w.manager.heap.length
      | .error _ => table
  | .destroy h =>
      match w.manager.live h with
      | none => table
      | some _ => table.remove h
  | _ => table

/-- The ways in which a call can change the manager and its array. -/
inductive ManagerStep (mgr : KvManager) (table : Slots Nat) : KvManager → Slots Nat → Prop
  | same : ManagerStep mgr table mgr table
  | registered {ctx ctx' : ContextHandle} (hroom : mgr.contexts.length < hbiKvMaxContexts)
      (hsingle : ctx.SinglePage) (hspace : ctx.SameSpace ctx') :
      ManagerStep mgr table ((mgr.register ctx).store mgr.heap.length ctx')
        (table.push mgr.heap.length)
  | destroyed {h : Nat} {ctx : ContextHandle} (hlive : mgr.live h = some ctx) :
      ManagerStep mgr table (hbiKvContextDestroy mgr h ctx) (table.remove h)
  | stored {h : Nat} {ctx ctx' : ContextHandle} (hlive : mgr.live h = some ctx)
      (hspace : ctx.SameSpace ctx') : ManagerStep mgr table (mgr.store h ctx') table
  | grown {h : Nat} {ctx ctx' : ContextHandle} (hlive : mgr.live h = some ctx)
      (hsingle : ctx'.SinglePage) :
      ManagerStep mgr table ({ mgr with stats := mgr.stats.replacePages ctx ctx' }.store h ctx')
        table

theorem copyPages_tensors (stack : SliceStack) (srcs dsts : List KvPage) (m : Memory) :
    (copyPages stack srcs dsts m).1.map KvPage.tensors = dsts.map KvPage.tensors := by
  induction srcs generalizing dsts m with
  | nil => cases dsts <;> rfl
  | cons src srcs ih =>
      cases dsts with
      | nil => rfl
      | cons dst dsts =>
          simp only [copyPages, List.map_cons, ih, KvPage.tensors]

theorem distributeTokens_tensors (n : Nat) (pages : List KvPage) :
    (distributeTokens n pages).map KvPage.tensors = pages.map KvPage.tensors := by
  induction pages generalizing n with
  | nil => rfl
  | cons p pages ih =>
      unfold distributeTokens
      by_cases hzero : n = 0
      · rw [if_pos hzero]
      · rw [if_neg hzero]
        simp only [List.map_cons, ih, KvPage.tensors]

theorem truncatePages_tensors (retain total : Nat) (pages : List KvPage) :
    (truncatePages retain total pages).map KvPage.tensors = pages.map KvPage.tensors := by
  induction pages generalizing total with
  | nil => rfl
  | cons p pages ih =>
      unfold truncatePages
      simp only [List.map_cons, ih, KvPage.tensors]
      split <;> rfl

theorem map_counters_tensors (f : KvPage → Nat) (pages : List KvPage) :
    (pages.map fun p => { p with numTokens := f p }).map KvPage.tensors =
      pages.map KvPage.tensors := by
  simp only [List.map_map, Function.comp_def, KvPage.tensors]
  rfl

/-- A call that changes a context in its place keeps its tensors. -/
theorem ContextUpdate.sameSpace {ctx ctx' : ContextHandle} {h : Nat} {op : KvOp}
    (hupdate : ContextUpdate ctx h op ctx') : ctx.SameSpace ctx' := by
  cases hupdate with
  | wasReset => exact ⟨rfl, map_counters_tensors _ _⟩
  | shrunk hlt => exact ⟨rfl, map_counters_tensors _ _⟩
  | appended happend =>
      simp only [hbiKvContextAppendTokens, Result.ite_errSet_eq_ok, Except.ok.injEq] at happend
      obtain ⟨-, rfl⟩ := happend
      exact ⟨rfl, distributeTokens_tensors _ _⟩
  | truncated =>
      unfold hbiKvContextTruncate
      split
      · exact ⟨rfl, rfl⟩
      · exact ⟨rfl, truncatePages_tensors _ _ _⟩

theorem singlePage_fresh {maxTokens : Nat} {dtype : Dtype} {kShape vShape : Shape}
    {blocks : PageBlocks} {pages : List KvPage}
    (halloc : hbiKvAllocatorContiguousAllocate maxTokens dtype kShape vShape blocks = .ok pages) :
    (freshContext maxTokens dtype kShape vShape pages).SinglePage := by
  obtain ⟨k, v, rfl, -⟩ := allocate_eq_ok halloc
  exact ⟨rfl, rfl⟩

theorem hbiKvContextCreate_room {mgr mgr' : KvManager} {maxTokens h : Nat} {dtype : Dtype}
    {kShape vShape : Shape} {blocks : ContextBlocks}
    (hcreate : hbiKvContextCreate mgr maxTokens dtype kShape vShape blocks = .ok (mgr', h)) :
    mgr.contexts.length < hbiKvMaxContexts := by
  simp only [hbiKvContextCreate, Result.ite_errSet_eq_ok] at hcreate
  exact not_le.mp hcreate.1

theorem hbiKvContextClone_room {w w' : KvWorld} {src : ContextHandle} {blocks : ContextBlocks}
    {stack : SliceStack} {h : Nat} (hclone : hbiKvContextClone w src blocks stack = .ok (w', h)) :
    w.manager.contexts.length < hbiKvMaxContexts := by
  simp only [hbiKvContextClone, Result.bind_eq_ok, Prod.exists] at hclone
  obtain ⟨mgr, k, hcreate, -⟩ := hclone
  exact hbiKvContextCreate_room hcreate

theorem KvManager.store_register_self (mgr : KvManager) (ctx : ContextHandle) :
    (mgr.register ctx).store mgr.heap.length ctx = mgr.register ctx := by
  simp [KvManager.register, KvManager.store, List.set_append_right]

theorem clonedContext_sameSpace (src : ContextHandle) (pages : List KvPage) (stack : SliceStack)
    (m : Memory) :
    (freshContext src.state.maxTokens src.dtype src.kShape src.vShape pages).SameSpace
      (clonedContext src pages stack m) :=
  ⟨rfl, copyPages_tensors stack src.pages pages m⟩

theorem grownContext_singlePage {ctx : ContextHandle} {newMaxTokens : Nat} {blocks : PageBlocks}
    {pages : List KvPage} (halloc : growPages ctx newMaxTokens blocks = .ok pages)
    (stack : SliceStack) (m : Memory) :
    (grownContext ctx newMaxTokens pages stack m).SinglePage := by
  obtain ⟨k, v, rfl, -⟩ := allocate_eq_ok halloc
  have htensors := copyPages_tensors stack ctx.pages [⟨k, v, newMaxTokens, 0⟩] m
  have hlength := congrArg List.length htensors
  simp only [List.length_map, List.length_singleton] at hlength
  exact ⟨hlength, hlength⟩

/-- Every call changes the manager and its array in one of the listed ways. -/
theorem KvOp.managerStep (w : KvWorld) (table : Slots Nat) (op : KvOp) :
    ManagerStep w.manager table (op.next w).manager (op.slots w table) := by
  cases op with
  | create maxTokens dtype kShape vShape blocks =>
      cases hcreate : hbiKvContextCreate w.manager maxTokens.toNat dtype kShape vShape blocks with
      | error e =>
          simp only [KvOp.next, KvOp.slots, KvOp.call, hcreate, bind, Except.bind, KvWorld.settle]
          exact .same
      | ok res =>
          obtain ⟨mgr', h⟩ := res
          simp only [KvOp.next, KvOp.slots, KvOp.call, hcreate, bind, Except.bind, pure,
            Except.pure, KvWorld.settle]
          obtain ⟨pages, halloc, -, rfl⟩ := hbiKvContextCreate_eq_ok hcreate
          rw [← KvManager.store_register_self]
          exact .registered (hbiKvContextCreate_room hcreate) (singlePage_fresh halloc)
            ⟨rfl, rfl⟩
  | destroy k =>
      cases hk : w.manager.live k with
      | none =>
          simp only [KvOp.next, KvOp.slots, KvOp.call, hk]
          exact .same
      | some c =>
          simp only [KvOp.next, KvOp.slots, KvOp.call, hk]
          exact .destroyed hk
  | clone k blocks stack =>
      cases hk : w.manager.live k with
      | none =>
          simp only [KvOp.next, KvOp.slots, KvOp.call, KvWorld.withLive, hk, errSet]
          exact .same
      | some c =>
          cases hclone : hbiKvContextClone w c blocks stack with
          | error e =>
              simp only [KvOp.next, KvOp.slots, KvOp.call, KvWorld.withLive, hk, hclone, bind,
                Except.bind, KvWorld.settle]
              exact .same
          | ok res =>
              obtain ⟨w', h⟩ := res
              simp only [KvOp.next, KvOp.slots, KvOp.call, KvWorld.withLive, hk, hclone, bind,
                Except.bind, pure, Except.pure, KvWorld.settle]
              obtain ⟨pages, halloc, rfl, rfl⟩ := hbiKvContextClone_eq_ok hclone
              exact .registered (hbiKvContextClone_room hclone) (singlePage_fresh halloc)
                (clonedContext_sameSpace c pages stack _)
  | reset k =>
      refine @KvWorld.withLive_cases w k _ _
        (fun w' => ManagerStep w.manager table w'.manager table) .same ?_
      intro c w' hc hbody
      rw [← Except.ok.inj hbody]
      exact .stored hc (ContextUpdate.wasReset (h := k)).sameSpace
  | resize k newMaxTokens blocks stack =>
      refine @KvWorld.withLive_cases w k _ _
        (fun w' => ManagerStep w.manager table w'.manager table) .same ?_
      intro c w' hc hbody
      obtain ⟨-, rfl⟩ | ⟨hlt, rfl⟩ | ⟨hlt, pages, halloc, rfl⟩ := hbiKvContextResize_eq_ok hbody
      · exact .same
      · have hupdate : ContextUpdate c k (.resize k newMaxTokens blocks stack)
            (shrinkContext c newMaxTokens.toNat) := .shrunk hlt
        exact .stored hc hupdate.sameSpace
      · exact .grown hc (grownContext_singlePage halloc stack _)
  | append k numTokens =>
      refine @KvWorld.withLive_cases w k _ _
        (fun w' => ManagerStep w.manager table w'.manager table) .same ?_
      intro c w' hc hbody
      obtain ⟨c', happend, hw⟩ := Result.bind_eq_ok.mp hbody
      rw [← Except.ok.inj hw]
      exact .stored hc (ContextUpdate.appended (h := k) happend).sameSpace
  | truncate k retainTokens =>
      refine @KvWorld.withLive_cases w k _ _
        (fun w' => ManagerStep w.manager table w'.manager table) .same ?_
      intro c w' hc hbody
      rw [← Except.ok.inj hbody]
      exact .stored hc (ContextUpdate.truncated (h := k)).sameSpace

theorem dropContext_eq (contexts : List Nat) (h : Nat) :
    dropContext contexts h = removeFrom contexts h := by
  unfold dropContext removeFrom
  by_cases hmem : h ∈ contexts
  · have hne : contexts ≠ [] := List.ne_nil_of_mem hmem
    rw [if_pos hmem, if_pos hmem, List.getLastD_eq_getLast?, List.getLast?_eq_some_getLast hne]
    rfl
  · rw [if_neg hmem, if_neg hmem]

theorem KvManager.live_destroy (mgr : KvManager) (h k : Nat) {ctx : ContextHandle} :
    (hbiKvContextDestroy mgr h ctx).live k = if k = h then none else mgr.live k := by
  unfold KvManager.live hbiKvContextDestroy
  dsimp only
  by_cases heq : k = h
  · subst heq
    rw [if_pos rfl, List.getElem?_set_self']
    cases mgr.heap[k]? <;> rfl
  · rw [if_neg heq, List.getElem?_set_ne (Ne.symm heq)]

theorem KvManager.isSome_live_store {mgr : KvManager} {h : Nat} {ctx : ContextHandle}
    (hlive : mgr.live h = some ctx) (ctx' : ContextHandle) (k : Nat) :
    ((mgr.store h ctx').live k).isSome = (mgr.live k).isSome := by
  by_cases heq : h = k
  · subst heq
    rw [KvManager.live_store_self (KvManager.live_lt hlive), hlive]
    rfl
  · rw [KvManager.live_store_ne heq]

theorem KvManager.isSome_live_register (mgr : KvManager) (ctx : ContextHandle) (k : Nat) :
    ((mgr.register ctx).live k).isSome ↔ k = mgr.heap.length ∨ (mgr.live k).isSome := by
  by_cases heq : k = mgr.heap.length
  · subst heq
    simp
  · constructor
    · intro hsome
      obtain ⟨c, hc⟩ := Option.isSome_iff_exists.mp hsome
      obtain ⟨hnew, -⟩ | hold := KvManager.live_register hc
      · exact absurd hnew heq
      · exact Or.inr (hold ▸ rfl)
    · rintro (hnew | hsome)
      · exact absurd hnew heq
      · obtain ⟨c, hc⟩ := Option.isSome_iff_exists.mp hsome
        have hlt := KvManager.live_lt hc
        simp only [KvManager.live, KvManager.register, List.getElem?_append_left hlt]
        exact hsome

/-- The array holds the live contexts, each once and no more than it has room for. -/
structure KvManager.Registered (mgr : KvManager) (table : Slots Nat) : Prop where
  holds : table.Holds mgr.contexts
  nodup : mgr.contexts.Nodup
  mem : ∀ h, h ∈ mgr.contexts ↔ (mgr.live h).isSome
  room : mgr.contexts.length ≤ hbiKvMaxContexts

theorem KvManager.registered_empty : KvManager.empty.Registered Slots.empty :=
  ⟨Slots.holds_empty, List.nodup_nil, by simp [KvManager.empty, KvManager.live], Nat.zero_le _⟩

theorem KvManager.Registered.destroy {mgr : KvManager} {table : Slots Nat}
    (hreg : mgr.Registered table) {h : Nat} {ctx : ContextHandle} (hlive : mgr.live h = some ctx) :
    (hbiKvContextDestroy mgr h ctx).Registered (table.remove h) := by
  have hmem : h ∈ mgr.contexts := (hreg.mem h).mpr (by rw [hlive]; rfl)
  have hperm := removeFrom_perm hmem
  have hcontexts : (hbiKvContextDestroy mgr h ctx).contexts = removeFrom mgr.contexts h :=
    dropContext_eq _ _
  refine ⟨hcontexts ▸ hreg.holds.remove h, ?_, ?_, ?_⟩
  · rw [hcontexts, hperm.nodup_iff]
    exact hreg.nodup.erase h
  · intro k
    rw [hcontexts, hperm.mem_iff, hreg.nodup.mem_erase_iff, hreg.mem, KvManager.live_destroy]
    by_cases heq : k = h
    · simp [heq]
    · simp [heq]
  · rw [hcontexts, hperm.length_eq]
    exact List.length_erase_le.trans hreg.room

theorem KvManager.Registered.stored {mgr : KvManager} {table : Slots Nat}
    (hreg : mgr.Registered table) {h : Nat} {ctx : ContextHandle} (hlive : mgr.live h = some ctx)
    (stats : KvStatistics) (ctx' : ContextHandle) :
    ({ mgr with stats := stats }.store h ctx').Registered table := by
  refine ⟨hreg.holds, hreg.nodup, ?_, hreg.room⟩
  intro k
  have hsame := @KvManager.isSome_live_store { mgr with stats := stats } h ctx hlive ctx' k
  exact (hreg.mem k).trans (iff_of_eq (congrArg (· = true) hsame.symm))

theorem KvManager.Registered.register {mgr : KvManager} {table : Slots Nat}
    (hreg : mgr.Registered table) (hroom : mgr.contexts.length < hbiKvMaxContexts)
    (ctx : ContextHandle) : (mgr.register ctx).Registered (table.push mgr.heap.length) := by
  have hfresh : mgr.heap.length ∉ mgr.contexts := by
    rw [hreg.mem]
    intro hsome
    obtain ⟨c, hc⟩ := Option.isSome_iff_exists.mp hsome
    exact absurd (KvManager.live_lt hc) (lt_irrefl _)
  refine ⟨hreg.holds.push _, ?_, ?_, ?_⟩
  · exact List.nodup_append.mpr ⟨hreg.nodup, List.nodup_singleton _, by
      rintro a ha b hb rfl
      exact hfresh (List.mem_singleton.mp hb ▸ ha)⟩
  · intro k
    rw [KvManager.isSome_live_register, ← hreg.mem, or_comm]
    simp [KvManager.register]
  · simpa [KvManager.register] using hroom

theorem ManagerStep.registered_next {mgr mgr' : KvManager} {table table' : Slots Nat}
    (hstep : ManagerStep mgr table mgr' table') (hreg : mgr.Registered table) :
    mgr'.Registered table' := by
  cases hstep with
  | same => exact hreg
  | @registered ctx ctx' hroom hsingle hspace =>
      have hnew := hreg.register hroom ctx
      exact hnew.stored (KvManager.live_register_new mgr ctx) _ ctx'
  | destroyed hlive => exact hreg.destroy hlive
  | stored hlive hspace => exact hreg.stored hlive _ _
  | grown hlive hsingle => exact hreg.stored hlive _ _

/-- A manager in its memory, with the array of its contexts. -/
structure KvTable where
  world : KvWorld
  table : Slots Nat

def KvTable.empty (m : Memory) : KvTable := ⟨⟨KvManager.empty, m⟩, Slots.empty⟩

def KvTable.next (t : KvTable) (op : KvOp) : KvTable := ⟨op.next t.world, op.slots t.world t.table⟩

def KvTable.destroy (t : KvTable) (h : Nat) (ctx : ContextHandle) : KvTable :=
  ⟨{ t.world with manager := hbiKvContextDestroy t.world.manager h ctx }, t.table.remove h⟩

/-- The loop of `hbi_kv_manager_destroy` over a list of slots, and the handles on which it calls
`hbi_kv_context_destroy`. It has no result when one of them is not live. -/
def destroyContexts (t : KvTable) : List Nat → Option (KvTable × List Nat)
  | [] => some (t, [])
  | i :: is =>
      match t.table.slot i with
      | none => destroyContexts t is
      | some h => do
          let ctx ← t.world.manager.live h
          let (t', hs) ← destroyContexts (t.destroy h ctx) is
          return (t', h :: hs)

/-- `hbi_kv_manager_destroy` up to the release of the manager. -/
def KvTable.hbiKvManagerDestroy (t : KvTable) : Option (KvTable × List Nat) :=
  destroyContexts t (List.range t.table.count)

/-- The loop does what a sweep of the array does, as long as that finds live contexts only and
none of them twice. -/
theorem destroyContexts_eq (is : List Nat) (t : KvTable)
    (hlive : ∀ h ∈ (t.table.sweepFrom is).2, (t.world.manager.live h).isSome)
    (hnodup : (t.table.sweepFrom is).2.Nodup) :
    ∃ t', destroyContexts t is = some (t', (t.table.sweepFrom is).2) ∧
      t'.table = (t.table.sweepFrom is).1 := by
  induction is generalizing t with
  | nil => exact ⟨t, rfl, rfl⟩
  | cons i is ih =>
      unfold destroyContexts
      unfold Slots.sweepFrom at hlive hnodup ⊢
      cases hslot : t.table.slot i with
      | none =>
          rw [hslot] at hlive hnodup
          exact ih t hlive hnodup
      | some h =>
          rw [hslot] at hlive hnodup
          dsimp only at hlive hnodup ⊢
          obtain ⟨ctx, hctx⟩ := Option.isSome_iff_exists.mp (hlive h (by simp))
          obtain ⟨hnew, hrest⟩ := List.nodup_cons.mp hnodup
          have hlater : ∀ k ∈ ((t.destroy h ctx).table.sweepFrom is).2,
              ((t.destroy h ctx).world.manager.live k).isSome := by
            intro k hk
            have hne : k ≠ h := fun heq => hnew (heq ▸ hk)
            have hsame : (t.destroy h ctx).world.manager.live k = t.world.manager.live k :=
              (KvManager.live_destroy _ h k).trans (if_neg hne)
            exact hsame ▸ hlive k (List.mem_cons_of_mem h hk)
          obtain ⟨t', hloop, htable⟩ := ih (t.destroy h ctx) hlater hrest
          refine ⟨t', ?_, htable⟩
          simp only [hctx, hloop, bind, Option.bind, pure]
          rfl

theorem destroyContexts_registered {is : List Nat} {t t' : KvTable} {hs : List Nat}
    (hloop : destroyContexts t is = some (t', hs)) (hreg : t.world.manager.Registered t.table) :
    t'.world.manager.Registered t'.table := by
  induction is generalizing t hs with
  | nil =>
      obtain ⟨rfl, -⟩ := Prod.mk.inj (Option.some.inj hloop)
      exact hreg
  | cons i is ih =>
      unfold destroyContexts at hloop
      cases hslot : t.table.slot i with
      | none =>
          rw [hslot] at hloop
          exact ih hloop hreg
      | some h =>
          simp only [hslot, bind, Option.bind_eq_some_iff, Prod.exists] at hloop
          obtain ⟨ctx, hctx, t'', hs', hrest, hsame⟩ := hloop
          obtain ⟨rfl, -⟩ := Prod.mk.inj (Option.some.inj hsame)
          exact ih hrest (hreg.destroy hctx)

/-- Every manager that calls lead to registers exactly its live contexts. -/
theorem kv_table_registered (m : Memory) (ops : List KvOp) :
    (Runs.final KvTable.next (KvTable.empty m) ops).world.manager.Registered
      (Runs.final KvTable.next (KvTable.empty m) ops).table := by
  have hstep : ∀ (t : KvTable) (op : KvOp), t.world.manager.Registered t.table →
      (t.next op).world.manager.Registered (t.next op).table := fun t op hreg =>
    (op.managerStep t.world t.table).registered_next hreg
  exact @Runs.final_of_step _ _ KvTable.next (fun t => t.world.manager.Registered t.table) hstep _
    KvManager.registered_empty ops

/-- In every manager that calls lead to, the teardown loop destroys every live context once and
nothing else, though it reads slots that are no longer in use. -/
theorem hbi_kv_manager_destroy_each_once (m : Memory) (ops : List KvOp) :
    let t := Runs.final KvTable.next (KvTable.empty m) ops
    t.table.count = t.world.manager.contexts.length ∧ t.table.count ≤ hbiKvMaxContexts ∧
      ∃ t' destroyed, t.hbiKvManagerDestroy = some (t', destroyed) ∧
        destroyed.Nodup ∧ (∀ h, h ∈ destroyed ↔ (t.world.manager.live h).isSome) ∧
        t'.table.count = 0 ∧ t'.world.manager.contexts = [] ∧
        ∀ h, t'.world.manager.live h = none := by
  intro t
  have hreg : t.world.manager.Registered t.table := kv_table_registered m ops
  obtain ⟨hswept, hzero⟩ := hreg.holds.sweep hreg.nodup
  unfold Slots.sweep at hswept hzero
  have hlive : ∀ h ∈ (t.table.sweepFrom (List.range t.table.count)).2,
      (t.world.manager.live h).isSome := by
    intro h hh
    exact (hreg.mem h).mp (hswept ▸ hh)
  obtain ⟨t', hloop, htable⟩ := destroyContexts_eq _ t hlive (hswept.symm ▸ hreg.nodup)
  have hreg' := destroyContexts_registered hloop hreg
  have hcount : t'.table.count = 0 := by rw [htable, hzero]
  have hnil : t'.world.manager.contexts = [] :=
    List.eq_nil_of_length_eq_zero (hreg'.holds.count.symm.trans hcount)
  refine ⟨hreg.holds.count, hreg.holds.count ▸ hreg.room, t', _, hloop, hswept ▸ hreg.nodup, ?_,
    hcount, hnil, ?_⟩
  · intro h
    rw [hswept]
    exact hreg.mem h
  · intro h
    have hmem := hreg'.mem h
    rw [hnil] at hmem
    simpa using hmem

end Hummingbird

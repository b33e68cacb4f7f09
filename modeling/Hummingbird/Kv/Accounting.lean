import Hummingbird.Kv.Steps
import Hummingbird.Foundation.Runs

/-!
Token accounting. With the contiguous allocator a context has one page whose counter
is the context's total; the maximum never exceeds the page's capacity. Every call
keeps this, except an append whose sum of tokens wraps around and passes the check
against the maximum.
-/

namespace Hummingbird

/-- The counters of a context agree and stay in their bounds. -/
structure ContextHandle.Accounted (ctx : ContextHandle) : Prop where
  total_eq : ctx.state.totalTokens = (ctx.pages.map KvPage.numTokens).sum
  total_le : ctx.state.totalTokens ≤ ctx.state.maxTokens
  page_le : ∀ p ∈ ctx.pages, p.numTokens ≤ p.capacity

/-- The counters of a context with its only page. -/
structure ContextHandle.OnePage (ctx : ContextHandle) (p : KvPage) : Prop where
  pages_eq : ctx.pages = [p]
  total_eq : ctx.state.totalTokens = p.numTokens
  total_le : p.numTokens ≤ ctx.state.maxTokens
  max_le : ctx.state.maxTokens ≤ p.capacity
  capacity_lt : p.capacity < uint32Size

theorem ContextHandle.OnePage.accounted {ctx : ContextHandle} {p : KvPage}
    (h : ctx.OnePage p) : ctx.Accounted where
  total_eq := by simp [h.pages_eq, h.total_eq]
  total_le := by
    rw [h.total_eq]
    exact h.total_le
  page_le := by
    intro q hq
    rw [h.pages_eq, List.mem_singleton] at hq
    rw [hq]
    exact h.total_le.trans h.max_le

/-- The call is no append whose sum of tokens wraps around and still passes the check. -/
def KvOp.NoWrap (w : KvWorld) : KvOp → Prop
  | .append h numTokens => ∀ ctx, w.manager.live h = some ctx →
      ctx.state.totalTokens + numTokens.toNat < uint32Size ∨
        ctx.state.maxTokens < (ctx.state.totalTokens + numTokens.toNat) % uint32Size
  | _ => True

/-- An append that is not refused, on a context with one page. -/
theorem ContextHandle.OnePage.append {ctx ctx' : ContextHandle} {p : KvPage} (h : ctx.OnePage p)
    {numTokens : Nat} (happend : hbiKvContextAppendTokens ctx numTokens = .ok ctx') :
    (ctx.state.totalTokens + numTokens) % uint32Size ≤ ctx.state.maxTokens ∧
      ctx' = { ctx with
        state := { ctx.state with
          totalTokens := (ctx.state.totalTokens + numTokens) % uint32Size }
        pages := [{ p with
          numTokens := p.numTokens + min (p.capacity - p.numTokens) numTokens }] } := by
  obtain ⟨hpages, htotal, hle, hmax, hcap⟩ := h
  simp only [hbiKvContextAppendTokens, Result.ite_errSet_eq_ok, not_lt, Except.ok.injEq] at happend
  obtain ⟨hok, rfl⟩ := happend
  refine ⟨hok, ?_⟩
  have havail : (p.capacity + uint32Size - p.numTokens) % uint32Size =
      p.capacity - p.numTokens := by
    rw [show p.capacity + uint32Size - p.numTokens = p.capacity - p.numTokens + uint32Size by omega,
      Nat.add_mod_right, Nat.mod_eq_of_lt (by omega)]
  have hsum : (p.numTokens + min (p.capacity - p.numTokens) numTokens) % uint32Size =
      p.numTokens + min (p.capacity - p.numTokens) numTokens := Nat.mod_eq_of_lt (by omega)
  rw [hpages]
  by_cases hzero : numTokens = 0
  · simp [distributeTokens, hzero]
  · simp only [distributeTokens, hzero, if_false, havail, hsum]

/-- Every live context has one page with sound counters. -/
def KvWorld.OnePage (w : KvWorld) : Prop :=
  ∀ h ctx, w.manager.live h = some ctx → ∃ p, ctx.OnePage p

private theorem toNat_lt_uint32Size (n : UInt32) : n.toNat < uint32Size := n.toNat_lt

/-- An update in place keeps the counters sound, unless it is a wrapping append. -/
theorem ContextUpdate.onePage {w : KvWorld} {op : KvOp} {h : Nat} {ctx ctx' : ContextHandle}
    {q : KvPage} (hlive : w.manager.live h = some ctx) (hq : ctx.OnePage q) (hop : op.NoWrap w)
    (hupdate : ContextUpdate ctx h op ctx') : ∃ p, ctx'.OnePage p := by
  cases hupdate with
  | wasReset =>
      refine ⟨{ q with numTokens := 0 }, ?_, rfl, Nat.zero_le _, hq.max_le, hq.capacity_lt⟩
      rw [hbiKvContextReset, hq.pages_eq]
      rfl
  | @shrunk newMaxTokens _ _ hlt =>
      refine ⟨{ q with numTokens := min q.numTokens newMaxTokens.toNat }, ?_, ?_,
        Nat.min_le_right _ _, hlt.le.trans hq.max_le, hq.capacity_lt⟩
      · rw [shrinkContext, hq.pages_eq]
        rfl
      · rw [shrinkContext, hq.total_eq]
  | @appended numTokens _ happend =>
      obtain ⟨hok, rfl⟩ := hq.append happend
      have hfits := (hop ctx hlive).resolve_right (by omega)
      have htotal := hq.total_eq
      have hmax := hq.max_le
      rw [Nat.mod_eq_of_lt hfits] at hok
      refine ⟨_, rfl, ?_, ?_, hmax, hq.capacity_lt⟩
      · simp only [Nat.mod_eq_of_lt hfits]
        omega
      · simp only
        omega
  | @truncated retainTokens =>
      unfold hbiKvContextTruncate
      by_cases hge : retainTokens.toNat ≥ ctx.state.totalTokens
      · rw [if_pos hge]
        exact ⟨q, hq⟩
      · obtain ⟨hpages, htotal, hle, hmax, hcap⟩ := hq
        have hnum : (0 + q.numTokens) % uint32Size = q.numTokens := by
          rw [Nat.zero_add, Nat.mod_eq_of_lt (by omega)]
        have hretain : (retainTokens.toNat + uint32Size - 0) % uint32Size =
            retainTokens.toNat := by
          rw [Nat.sub_zero, Nat.add_mod_right, Nat.mod_eq_of_lt (by omega)]
        rw [if_neg hge, hpages]
        simp only [truncatePages, hnum, hretain]
        rw [if_pos (by omega)]
        refine ⟨_, rfl, rfl, ?_, hmax, hcap⟩
        simp only
        omega

/-- A call without a wrapping append keeps the counters of every context sound. -/
theorem ContextStep.onePage {w : KvWorld} {op : KvOp} {h : Nat} {ctx : ContextHandle}
    (hw : w.OnePage) (hop : op.NoWrap w) (hstep : ContextStep w op h ctx) :
    ∃ p, ctx.OnePage p := by
  cases hstep with
  | kept hlive => exact hw h ctx hlive
  | @created maxTokens _ _ _ _ _ halloc =>
      obtain ⟨k, v, rfl, -, -⟩ := allocate_eq_ok halloc
      exact ⟨_, rfl, rfl, Nat.zero_le _, le_rfl, toNat_lt_uint32Size maxTokens⟩
  | @cloned _ _ _ src _ hlive halloc =>
      obtain ⟨q, hq⟩ := hw _ _ hlive
      obtain ⟨k, v, rfl, -, -⟩ := allocate_eq_ok halloc
      refine ⟨⟨k, v, src.state.maxTokens, q.numTokens⟩, ?_, hq.total_eq, hq.total_le, le_rfl,
        hq.max_le.trans_lt hq.capacity_lt⟩
      rw [clonedContext, hq.pages_eq]
      rfl
  | @grown _ newMaxTokens _ _ _ _ hlive hlt halloc =>
      obtain ⟨q, hq⟩ := hw _ _ hlive
      obtain ⟨k, v, rfl, -, -⟩ := allocate_eq_ok halloc
      refine ⟨⟨k, v, newMaxTokens.toNat, q.numTokens⟩, ?_, hq.total_eq,
        hq.total_le.trans hlt.le, le_rfl, toNat_lt_uint32Size newMaxTokens⟩
      rw [grownContext, hq.pages_eq]
      rfl
  | updated hlive hupdate =>
      obtain ⟨q, hq⟩ := hw _ _ hlive
      exact hupdate.onePage hlive hq hop

/-- An append that wraps and passes the check leaves the counters in disagreement. -/
theorem ContextHandle.OnePage.wrap {ctx : ContextHandle} {p : KvPage} (h : ctx.OnePage p)
    {numTokens : UInt32} (hwrap : uint32Size ≤ ctx.state.totalTokens + numTokens.toNat)
    (hok : (ctx.state.totalTokens + numTokens.toNat) % uint32Size ≤ ctx.state.maxTokens) :
    ∃ ctx', hbiKvContextAppendTokens ctx numTokens.toNat = .ok ctx' ∧ ¬ ctx'.Accounted := by
  have hrun : ∃ ctx', hbiKvContextAppendTokens ctx numTokens.toNat = .ok ctx' := by
    unfold hbiKvContextAppendTokens
    rw [if_neg (not_lt.mpr hok)]
    exact ⟨_, rfl⟩
  obtain ⟨ctx', happend⟩ := hrun
  refine ⟨ctx', happend, ?_⟩
  intro hacc
  have hsum := hacc.total_eq
  obtain ⟨-, rfl⟩ := h.append happend
  obtain ⟨-, htotal, hle, hmax, hcap⟩ := h
  have hlt := toNat_lt_uint32Size numTokens
  simp only [List.map_cons, List.map_nil, List.sum_cons, List.sum_nil] at hsum
  rw [Nat.mod_eq_sub_mod hwrap, Nat.mod_eq_of_lt (by omega)] at hsum
  omega

theorem KvWorld.settle_error {w : KvWorld} {r : Result KvWorld} {e : Failure}
    (h : (w.settle r).2 = .error e) : (w.settle r).1 = w := by
  cases r with
  | error e => rfl
  | ok w' => simp [KvWorld.settle] at h

theorem KvWorld.withLive_error {w : KvWorld} {h : Nat} {what : String}
    {body : ContextHandle → Result KvWorld} {e : Failure}
    (herr : (w.withLive h what body).2 = .error e) : (w.withLive h what body).1 = w := by
  unfold KvWorld.withLive at herr ⊢
  cases hlive : w.manager.live h with
  | none => rfl
  | some ctx =>
      rw [hlive] at herr
      exact KvWorld.settle_error herr

/-- A call that returns an error leaves everything as it was. -/
theorem KvOp.next_of_error {w : KvWorld} {op : KvOp} {e : Failure}
    (h : (op.call w).2 = .error e) : op.next w = w := by
  unfold KvOp.next
  cases op with
  | create maxTokens dtype kShape vShape blocks => exact KvWorld.settle_error h
  | destroy k =>
      unfold KvOp.call at h
      cases hk : w.manager.live k with
      | none => simp [hk] at h
      | some c => simp [hk] at h
  | reset k => exact KvWorld.withLive_error h
  | clone k blocks stack => exact KvWorld.withLive_error h
  | resize k newMaxTokens blocks stack => exact KvWorld.withLive_error h
  | append k numTokens => exact KvWorld.withLive_error h
  | truncate k retainTokens => exact KvWorld.withLive_error h

/-- What accounting asks of a call: sound counters afterwards, and no trace of a call
that fails. -/
def KvOp.Accounts (w : KvWorld) (op : KvOp) : Prop :=
  (∀ h ctx, (op.next w).manager.live h = some ctx → ctx.Accounted) ∧
    ∀ e, (op.call w).2 = .error e → op.next w = w

theorem KvOp.accounts_iff {w : KvWorld} (hw : w.OnePage) (op : KvOp) :
    op.Accounts w ↔ op.NoWrap w := by
  constructor
  · rintro ⟨hacc, -⟩
    cases op with
    | append k numTokens =>
        intro ctx hlive
        by_contra hbad
        push Not at hbad
        obtain ⟨p, hp⟩ := hw k ctx hlive
        obtain ⟨ctx', happend, hnot⟩ := hp.wrap hbad.1 hbad.2
        refine hnot (hacc k ctx' ?_)
        simp only [KvOp.next, KvOp.call, KvWorld.withLive, hlive, happend, bind, Except.bind,
          pure, Except.pure, KvWorld.settle, KvWorld.put]
        exact KvManager.live_store_self (KvManager.live_lt hlive)
    | create | destroy | reset | clone | resize | truncate => trivial
  · intro hop
    refine ⟨?_, fun e he => KvOp.next_of_error he⟩
    intro h ctx hlive
    obtain ⟨p, hp⟩ := ContextStep.onePage hw hop (KvOp.next_live hlive)
    exact hp.accounted

/-- From an empty manager, for every sequence of calls: the counters of every live
context are sound after every call, and no failing call leaves a trace, exactly when
no append of the sequence wraps around and passes the check. -/
theorem kv_accounting_iff (m : Memory) (ops : List KvOp) :
    Runs.Along KvOp.next (fun w op => op.Accounts w) ⟨.empty, m⟩ ops ↔
      Runs.Along KvOp.next (fun w op => op.NoWrap w) ⟨.empty, m⟩ ops := by
  refine @Runs.along_iff _ _ KvOp.next KvWorld.OnePage (fun w op => op.Accounts w)
    (fun w op => op.NoWrap w) (fun _ _ => True) (fun w op hw _ => op.accounts_iff hw) ?_ _ ?_ _ ?_
  · intro w op hw _ hop h ctx hlive
    exact ContextStep.onePage hw hop (KvOp.next_live hlive)
  · intro h ctx hlive
    simp [KvManager.live, KvManager.empty] at hlive
  · exact Runs.along_of_mem fun _ _ => trivial

/-- Room for ten tokens, five of them appended, and then `UINT32_MAX` more. -/
def wrappingOps : List KvOp :=
  [.create 10 .int8 ⟨[10]⟩ ⟨[10]⟩ smallBlocks, .append 0 5, .append 0 4294967295]

/-- The last append is accepted; four tokens are recorded while the page says ten. -/
theorem kv_append_wraps :
    (∃ ctx, (Runs.final KvOp.next ⟨.empty, fun _ => 0⟩ wrappingOps).manager.live 0 = some ctx ∧
      ctx.state.totalTokens = 4 ∧ ctx.state.maxTokens = 10 ∧
      ctx.pages.map KvPage.numTokens = [10]) ∧
      ¬ Runs.Along KvOp.next (fun w op => op.Accounts w) ⟨.empty, fun _ => 0⟩ wrappingOps := by
  have hlive : ∃ ctx,
      (Runs.final KvOp.next ⟨.empty, fun _ => 0⟩ wrappingOps).manager.live 0 = some ctx ∧
      ctx.state.totalTokens = 4 ∧ ctx.state.maxTokens = 10 ∧
      ctx.pages.map KvPage.numTokens = [10] := ⟨_, rfl, by decide, by decide, by decide⟩
  refine ⟨hlive, ?_⟩
  intro halong
  obtain ⟨ctx, hctx, htotal, -, hpages⟩ := hlive
  have hsum := (halong.2.2.1.1 0 ctx hctx).total_eq
  rw [htotal, hpages] at hsum
  simp at hsum

end Hummingbird

import Hummingbird.Kv.Steps
import Hummingbird.Kv.Accounting

/-!
Storage behind the capacity. Every context carries, beside the run, the shapes it was
created with and the axis of each that counts tokens. Growing a context recognises
the token axis by its length, so it keeps the storage sound exactly when the old
maximum is the length of that axis, or the axis is long enough as it is, and of no
other axis.
-/

namespace Hummingbird

/-- How a context was created. -/
structure Origin where
  kAxis : Nat
  vAxis : Nat
  kShape : Shape
  vShape : Shape
  deriving DecidableEq, Repr

/-- A call together with the axes that a create call designates. -/
structure AxisCall where
  op : KvOp
  kAxis : Nat
  vAxis : Nat

/-- The world beside the origins of all handles. -/
structure TracedWorld where
  world : KvWorld
  origins : List Origin

/-- The origin of the handle that a call makes; a clone has the origin of its source. -/
def TracedWorld.newOrigin (t : TracedWorld) (call : AxisCall) : Origin :=
  match call.op with
  | .create _ _ kShape vShape _ => ⟨call.kAxis, call.vAxis, kShape, vShape⟩
  | .clone h _ _ => t.origins.getD h ⟨0, 0, ⟨[]⟩, ⟨[]⟩⟩
  | _ => ⟨0, 0, ⟨[]⟩, ⟨[]⟩⟩

def TracedWorld.next (t : TracedWorld) (call : AxisCall) : TracedWorld where
  world := call.op.next t.world
  origins :=
    if (call.op.next t.world).manager.heap.length = t.world.manager.heap.length then t.origins
    else t.origins ++ [t.newOrigin call]

/-- Dimensions that hold so many tokens along an axis and are otherwise as created. -/
structure Holds (dims created : List Int) (axis tokens : Nat) : Prop where
  rank_eq : dims.length = created.length
  tokens_le : (tokens : Int) ≤ dims.getD axis 0
  others : ∀ i, i ≠ axis → dims.getD i 0 = created.getD i 0

/-- Every page's tensors hold the page's capacity and the context's maximum. -/
structure ContextHandle.Backed (ctx : ContextHandle) (o : Origin) : Prop where
  k : ∀ p ∈ ctx.pages, Holds p.kTensor.shape.dims o.kShape.dims o.kAxis
    (max p.capacity ctx.state.maxTokens)
  v : ∀ p ∈ ctx.pages, Holds p.vTensor.shape.dims o.vShape.dims o.vAxis
    (max p.capacity ctx.state.maxTokens)

/-- A create call designates axes as long as the maximum. -/
def AxisCall.Designates (call : AxisCall) : Prop :=
  match call.op with
  | .create maxTokens _ kShape vShape _ =>
      kShape.dims[call.kAxis]? = some (maxTokens.toNat : Int) ∧
        vShape.dims[call.vAxis]? = some (maxTokens.toNat : Int)
  | _ => True

/-- Growing from the old maximum finds the token axis, or does not need to, and hits no
other axis. -/
def FindsAxis (dims : List Int) (axis oldMax newMax : Nat) : Prop :=
  (dims.getD axis 0 = oldMax ∨ (newMax : Int) ≤ dims.getD axis 0) ∧
    ∀ i < dims.length, i ≠ axis → dims.getD i 0 ≠ oldMax

instance (dims : List Int) (axis oldMax newMax : Nat) :
    Decidable (FindsAxis dims axis oldMax newMax) :=
  inferInstanceAs (Decidable (_ ∧ _))

/-- The call is no growing resize, or finds the token axes of both tensors, or gets no
memory. -/
def AxisCall.GrowsRight (t : TracedWorld) (call : AxisCall) : Prop :=
  match call.op with
  | .resize h newMaxTokens blocks _ => ∀ ctx o pages, t.world.manager.live h = some ctx →
      t.origins[h]? = some o → ctx.state.maxTokens < newMaxTokens.toNat →
      growPages ctx newMaxTokens.toNat blocks = .ok pages →
      FindsAxis ctx.kShape.dims o.kAxis ctx.state.maxTokens newMaxTokens.toNat ∧
        FindsAxis ctx.vShape.dims o.vAxis ctx.state.maxTokens newMaxTokens.toNat
  | _ => True

/-- A context with its only page, whose tensors have the recorded shapes. -/
structure ContextHandle.Stored (ctx : ContextHandle) (o : Origin) (p : KvPage) : Prop where
  pages_eq : ctx.pages = [p]
  k_shape : p.kTensor.shape = ctx.kShape
  v_shape : p.vTensor.shape = ctx.vShape
  max_le : ctx.state.maxTokens ≤ p.capacity
  k_axis : o.kAxis < o.kShape.dims.length
  v_axis : o.vAxis < o.vShape.dims.length
  k_holds : Holds ctx.kShape.dims o.kShape.dims o.kAxis p.capacity
  v_holds : Holds ctx.vShape.dims o.vShape.dims o.vAxis p.capacity

theorem Holds.of_le {dims created : List Int} {axis m n : Nat} (h : Holds dims created axis n)
    (hmn : m ≤ n) : Holds dims created axis m where
  rank_eq := h.rank_eq
  tokens_le := (Int.ofNat_le.mpr hmn).trans h.tokens_le
  others := h.others

theorem ContextHandle.Stored.backed {ctx : ContextHandle} {o : Origin} {p : KvPage}
    (h : ctx.Stored o p) : ctx.Backed o where
  k := by
    intro q hq
    rw [h.pages_eq, List.mem_singleton] at hq
    rw [hq, h.k_shape, max_eq_left h.max_le]
    exact h.k_holds
  v := by
    intro q hq
    rw [h.pages_eq, List.mem_singleton] at hq
    rw [hq, h.v_shape, max_eq_left h.max_le]
    exact h.v_holds

/-- Growing keeps the storage sound exactly when it finds the axis. -/
theorem Holds.grown_iff {shape : Shape} {created : List Int} {axis oldMax newMax tokens : Nat}
    (h : Holds shape.dims created axis tokens) (haxis : axis < created.length)
    (hlt : oldMax < newMax) :
    Holds (grownShape shape oldMax newMax).dims created axis newMax ↔
      FindsAxis shape.dims axis oldMax newMax := by
  have hget : ∀ i < shape.dims.length, (grownShape shape oldMax newMax).dims.getD i 0 =
      if shape.dims.getD i 0 = oldMax then (newMax : Int) else shape.dims.getD i 0 := by
    intro i hi
    simp [grownShape, List.getD_eq_getElem?_getD, hi]
  have haxis' : axis < shape.dims.length := by rw [h.rank_eq]; exact haxis
  constructor
  · intro hgrown
    constructor
    · have hle := hgrown.tokens_le
      rw [hget axis haxis'] at hle
      by_cases heq : shape.dims.getD axis 0 = oldMax
      · exact Or.inl heq
      · rw [if_neg heq] at hle
        exact Or.inr hle
    · intro i hi hne heq
      have hsame := hgrown.others i hne
      rw [hget i hi, if_pos heq, ← h.others i hne, heq] at hsame
      omega
  · rintro ⟨hfound, hothers⟩
    refine ⟨by simp [grownShape, h.rank_eq], ?_, ?_⟩
    · rw [hget axis haxis']
      by_cases heq : shape.dims.getD axis 0 = oldMax
      · rw [if_pos heq]
      · rw [if_neg heq]
        exact hfound.resolve_left heq
    · intro i hne
      by_cases hi : i < shape.dims.length
      · rw [hget i hi, if_neg (hothers i hi hne)]
        exact h.others i hne
      · rw [← h.others i hne]
        simp [grownShape, List.getD_eq_getElem?_getD, hi]

/-- An update in place leaves shapes, tensors and capacity alone and never raises the
maximum. -/
theorem ContextUpdate.frame {ctx ctx' : ContextHandle} {h : Nat} {op : KvOp} {p : KvPage}
    (hupdate : ContextUpdate ctx h op ctx') (hpages : ctx.pages = [p]) :
    ctx'.kShape = ctx.kShape ∧ ctx'.vShape = ctx.vShape ∧
      ctx'.state.maxTokens ≤ ctx.state.maxTokens ∧
      ∃ n, ctx'.pages = [{ p with numTokens := n }] := by
  cases hupdate with
  | wasReset => exact ⟨rfl, rfl, le_rfl, 0, by rw [hbiKvContextReset, hpages]; rfl⟩
  | shrunk hlt => exact ⟨rfl, rfl, hlt.le, _, by rw [shrinkContext, hpages]; rfl⟩
  | @appended numTokens _ happend =>
      simp only [hbiKvContextAppendTokens, Result.ite_errSet_eq_ok, Except.ok.injEq] at happend
      obtain ⟨-, rfl⟩ := happend
      refine ⟨rfl, rfl, le_rfl, ?_⟩
      simp only [hpages, distributeTokens]
      by_cases hzero : numTokens.toNat = 0
      · exact ⟨p.numTokens, by rw [if_pos hzero]⟩
      · exact ⟨_, by rw [if_neg hzero]⟩
  | @truncated retainTokens =>
      unfold hbiKvContextTruncate
      by_cases hge : retainTokens.toNat ≥ ctx.state.totalTokens
      · rw [if_pos hge]
        exact ⟨rfl, rfl, le_rfl, p.numTokens, hpages⟩
      · rw [if_neg hge]
        refine ⟨rfl, rfl, le_rfl, ?_⟩
        simp only [hpages, truncatePages]
        by_cases hover : (0 + p.numTokens) % uint32Size > retainTokens.toNat
        · exact ⟨_, by rw [if_pos hover]⟩
        · exact ⟨p.numTokens, by rw [if_neg hover]⟩

theorem ContextHandle.Stored.update {ctx ctx' : ContextHandle} {h : Nat} {op : KvOp} {o : Origin}
    {p : KvPage} (hp : ctx.Stored o p) (hupdate : ContextUpdate ctx h op ctx') :
    ∃ q, ctx'.Stored o q := by
  obtain ⟨hk, hv, hmax, n, hpages⟩ := hupdate.frame hp.pages_eq
  exact ⟨_, hpages, hp.k_shape.trans hk.symm, hp.v_shape.trans hv.symm, hmax.trans hp.max_le,
    hp.k_axis, hp.v_axis, hk ▸ hp.k_holds, hv ▸ hp.v_holds⟩

/-- Pages that the allocator returns have the requested shapes. -/
theorem allocate_shapes {capacity : Nat} {dtype : Dtype} {kShape vShape : Shape}
    {blocks : PageBlocks} {pages : List KvPage}
    (h : hbiKvAllocatorContiguousAllocate capacity dtype kShape vShape blocks = .ok pages) :
    ∃ k v, pages = [⟨k, v, capacity, 0⟩] ∧ k.shape = kShape ∧ v.shape = vShape := by
  obtain ⟨k, v, rfl, hk, hv⟩ := allocate_eq_ok h
  exact ⟨k, v, rfl, (tensorAllocImpl_fields hk).2.1, (tensorAllocImpl_fields hv).2.1⟩

/-- The pages of a growing resize hold the new maximum exactly when both axes are
found. -/
theorem ContextHandle.Stored.grown {ctx : ContextHandle} {o : Origin} {p : KvPage}
    (hp : ctx.Stored o p) {newMax : Nat} {blocks : PageBlocks} {stack : SliceStack} {m : Memory}
    {pages : List KvPage} (hlt : ctx.state.maxTokens < newMax)
    (halloc : growPages ctx newMax blocks = .ok pages) :
    ∃ q, (grownContext ctx newMax pages stack m).pages = [q] ∧ q.capacity = newMax ∧
      q.kTensor.shape = grownShape ctx.kShape ctx.state.maxTokens newMax ∧
      q.vTensor.shape = grownShape ctx.vShape ctx.state.maxTokens newMax ∧
      (Holds q.kTensor.shape.dims o.kShape.dims o.kAxis newMax ↔
        FindsAxis ctx.kShape.dims o.kAxis ctx.state.maxTokens newMax) ∧
      (Holds q.vTensor.shape.dims o.vShape.dims o.vAxis newMax ↔
        FindsAxis ctx.vShape.dims o.vAxis ctx.state.maxTokens newMax) := by
  obtain ⟨k, v, rfl, hk, hv⟩ := allocate_shapes halloc
  refine ⟨⟨k, v, newMax, p.numTokens⟩, ?_, rfl, hk, hv, ?_, ?_⟩
  · rw [grownContext, hp.pages_eq]
    rfl
  · rw [hk]
    exact hp.k_holds.grown_iff hp.k_axis hlt
  · rw [hv]
    exact hp.v_holds.grown_iff hp.v_axis hlt

/-- Every handle has an origin, and every live context is stored as its origin says. -/
structure TracedWorld.Sound (t : TracedWorld) : Prop where
  length_eq : t.origins.length = t.world.manager.heap.length
  stored : ∀ h ctx o, t.world.manager.live h = some ctx → t.origins[h]? = some o →
    ∃ p, ctx.Stored o p

theorem TracedWorld.origin_old {t : TracedWorld} (ht : t.Sound) {call : AxisCall} {h : Nat}
    (hlt : h < t.world.manager.heap.length) : (t.next call).origins[h]? = t.origins[h]? := by
  unfold TracedWorld.next
  by_cases hsame : (call.op.next t.world).manager.heap.length = t.world.manager.heap.length
  · simp only [hsame, if_true]
  · simp only [hsame, if_false]
    exact List.getElem?_append_left (by rw [ht.length_eq]; exact hlt)

theorem TracedWorld.origin_new {t : TracedWorld} (ht : t.Sound) {call : AxisCall}
    {ctx : ContextHandle}
    (hlive : (call.op.next t.world).manager.live t.world.manager.heap.length = some ctx) :
    (t.next call).origins[t.world.manager.heap.length]? = some (t.newOrigin call) := by
  have hlt := KvManager.live_lt hlive
  unfold TracedWorld.next
  simp only [hlt.ne', if_false]
  rw [List.getElem?_append_right (by rw [ht.length_eq]), ht.length_eq, Nat.sub_self]
  rfl

theorem TracedWorld.next_length {t : TracedWorld} (ht : t.Sound) (call : AxisCall) :
    (t.next call).origins.length = (t.next call).world.manager.heap.length := by
  unfold TracedWorld.next
  by_cases hsame : (call.op.next t.world).manager.heap.length = t.world.manager.heap.length
  · simp only [hsame, if_true]
    exact ht.length_eq
  · simp only [hsame, if_false, List.length_append, List.length_singleton, ht.length_eq]
    exact ((call.op.next_heap_length t.world).resolve_left hsame).symm

theorem Holds.of_getElem? {dims : List Int} {axis n : Nat} (h : dims[axis]? = some (n : Int)) :
    Holds dims dims axis n where
  rank_eq := rfl
  tokens_le := by rw [List.getD_eq_getElem?_getD, h, Option.getD_some]
  others _ _ := rfl

/-- A call that grows right keeps every context stored as its origin says. -/
theorem TracedWorld.Sound.next {t : TracedWorld} (ht : t.Sound) {call : AxisCall}
    (haxes : call.Designates) (hgrow : call.GrowsRight t) : (t.next call).Sound := by
  refine ⟨t.next_length ht call, ?_⟩
  intro h ctx o hlive horigin
  obtain ⟨op, kAxis, vAxis⟩ := call
  have hstep : ContextStep t.world op h ctx := KvOp.next_live hlive
  cases hstep with
  | kept hold =>
      rw [TracedWorld.origin_old ht (KvManager.live_lt hold)] at horigin
      exact ht.stored h ctx o hold horigin
  | created halloc =>
      rw [TracedWorld.origin_new ht hlive] at horigin
      obtain rfl := Option.some.inj horigin
      obtain ⟨k, v, rfl, hk, hv⟩ := allocate_shapes halloc
      obtain ⟨hkaxis, hvaxis⟩ := haxes
      exact ⟨_, rfl, hk, hv, le_rfl, (List.getElem?_eq_some_iff.mp hkaxis).1,
        (List.getElem?_eq_some_iff.mp hvaxis).1, .of_getElem? hkaxis, .of_getElem? hvaxis⟩
  | @cloned j blocks stack src pages hsrc halloc =>
      rw [TracedWorld.origin_new ht hlive] at horigin
      obtain rfl := Option.some.inj horigin
      have hj : j < t.origins.length := by
        rw [ht.length_eq]
        exact KvManager.live_lt hsrc
      have hget := List.getElem?_eq_getElem hj
      have hnew : t.newOrigin ⟨.clone j blocks stack, kAxis, vAxis⟩ = t.origins[j] := by
        simp [TracedWorld.newOrigin, List.getD_eq_getElem?_getD, hget]
      rw [hnew]
      obtain ⟨q, hq⟩ := ht.stored j src _ hsrc hget
      obtain ⟨k, v, rfl, hk, hv⟩ := allocate_shapes halloc
      refine ⟨⟨k, v, src.state.maxTokens, q.numTokens⟩, ?_, hk, hv, le_rfl, hq.k_axis, hq.v_axis,
        hq.k_holds.of_le hq.max_le, hq.v_holds.of_le hq.max_le⟩
      rw [clonedContext, hq.pages_eq]
      rfl
  | @updated _ _ c _ hc hupdate =>
      rw [TracedWorld.origin_old ht (KvManager.live_lt hc)] at horigin
      obtain ⟨p, hp⟩ := ht.stored h c o hc horigin
      exact hp.update hupdate
  | @grown _ _ _ _ c pages hc hlt halloc =>
      rw [TracedWorld.origin_old ht (KvManager.live_lt hc)] at horigin
      obtain ⟨p, hp⟩ := ht.stored h c o hc horigin
      obtain ⟨hkfind, hvfind⟩ := hgrow c o pages hc horigin hlt halloc
      obtain ⟨q, hpages, hcap, hk, hv, hkiff, hviff⟩ := hp.grown hlt halloc
      rw [hk] at hkiff
      rw [hv] at hviff
      refine ⟨q, hpages, hk, hv, hcap.ge, hp.k_axis, hp.v_axis, ?_, ?_⟩
      · rw [hcap]
        exact hkiff.mpr hkfind
      · rw [hcap]
        exact hviff.mpr hvfind

/-- What storage asks of a call: every live context is backed afterwards. -/
def AxisCall.Backs (t : TracedWorld) (call : AxisCall) : Prop :=
  ∀ h ctx o, (t.next call).world.manager.live h = some ctx →
    (t.next call).origins[h]? = some o → ctx.Backed o

theorem AxisCall.backs_iff {t : TracedWorld} (ht : t.Sound) {call : AxisCall}
    (haxes : call.Designates) : call.Backs t ↔ call.GrowsRight t := by
  constructor
  · intro hback
    obtain ⟨op, kAxis, vAxis⟩ := call
    cases op with
    | resize h newMaxTokens blocks stack =>
        intro ctx o pages hlive horigin hlt halloc
        have hold := KvManager.live_lt hlive
        let m := zeroPages pages t.world.memory
        have hnext : (KvOp.next t.world (.resize h newMaxTokens blocks stack)).manager.live h =
            some (grownContext ctx newMaxTokens.toNat pages stack m) := by
          have halloc' := halloc
          unfold growPages at halloc'
          simp only [KvOp.next, KvOp.call, KvWorld.withLive, hlive, hbiKvContextResize, hlt.ne',
            not_lt.mpr hlt.le, if_false, halloc', bind, Except.bind, pure, Except.pure,
            KvWorld.settle]
          exact KvManager.live_store_self hold
        obtain ⟨p, hp⟩ := ht.stored h ctx o hlive horigin
        obtain ⟨q, hpages, hcap, -, -, hkiff, hviff⟩ :=
          @ContextHandle.Stored.grown _ _ _ hp _ _ stack m _ hlt halloc
        have hbacked := hback h _ o hnext (by rw [TracedWorld.origin_old ht hold]; exact horigin)
        have hmax : max q.capacity (grownContext ctx newMaxTokens.toNat pages stack
            m).state.maxTokens = newMaxTokens.toNat := by
          rw [hcap]
          exact max_self _
        have hmem : q ∈ (grownContext ctx newMaxTokens.toNat pages stack m).pages := by
          simp [hpages]
        have hk := hbacked.k q hmem
        have hv := hbacked.v q hmem
        rw [hmax] at hk hv
        exact ⟨hkiff.mp hk, hviff.mp hv⟩
    | create | destroy | reset | clone | append | truncate => trivial
  · intro hgrow h ctx o hlive horigin
    obtain ⟨p, hp⟩ := (ht.next haxes hgrow).stored h ctx o hlive horigin
    exact hp.backed

/-- From an empty manager, for every sequence of calls in which contexts are created
with designated token axes: the tensors of every live context hold its capacity and its
maximum after every call, and are otherwise shaped as created, exactly when every
growing resize of the sequence finds the token axes. -/
theorem kv_storage_iff (m : Memory) (calls : List AxisCall)
    (haxes : ∀ call ∈ calls, call.Designates) :
    Runs.Along TracedWorld.next (fun t call => call.Backs t) ⟨⟨.empty, m⟩, []⟩ calls ↔
      Runs.Along TracedWorld.next (fun t call => call.GrowsRight t) ⟨⟨.empty, m⟩, []⟩ calls := by
  refine @Runs.along_iff _ _ TracedWorld.next TracedWorld.Sound (fun t call => call.Backs t)
    (fun t call => call.GrowsRight t) (fun _ call => call.Designates)
    (fun t call ht hcall => AxisCall.backs_iff ht hcall)
    (fun t call ht hcall hgrow => ht.next hcall hgrow) _ ⟨rfl, ?_⟩ calls ?_
  · intro h ctx o hlive
    simp [KvManager.live, KvManager.empty] at hlive
  · exact Runs.along_of_mem haxes

/-- A context for eight tokens along the second axis, grown to sixteen. -/
def growingCalls : List AxisCall :=
  [⟨.create 8 .int8 ⟨[2, 8]⟩ ⟨[2, 8]⟩ smallBlocks, 1, 1⟩,
    ⟨.resize 0 16 moreBlocks.toPageBlocks blankStack, 0, 0⟩]

theorem kv_storage_iff_growing :
    Runs.Along TracedWorld.next (fun t call => call.Backs t) ⟨⟨.empty, fun _ => 0⟩, []⟩
      growingCalls ∧
      ∃ ctx, (Runs.final TracedWorld.next ⟨⟨.empty, fun _ => 0⟩, []⟩
        growingCalls).world.manager.live 0 = some ctx ∧ ctx.kShape = ⟨[2, 16]⟩ := by
  refine ⟨(kv_storage_iff (fun _ => 0) growingCalls ?_).mpr ⟨trivial, ?_, trivial⟩, _, rfl,
    by decide⟩
  · intro call hcall
    simp only [growingCalls, List.mem_cons, List.not_mem_nil, or_false] at hcall
    rcases hcall with rfl | rfl
    · exact ⟨rfl, rfl⟩
    · trivial
  · intro ctx o pages hlive horigin _ _
    obtain rfl := Option.some.inj hlive
    obtain rfl := Option.some.inj horigin
    decide

/-- A context for eight tokens, shrunk to four and grown to sixteen. -/
def shrinkGrowCalls : List AxisCall :=
  [⟨.create 8 .int8 ⟨[8]⟩ ⟨[8]⟩ smallBlocks, 0, 0⟩,
    ⟨.resize 0 4 moreBlocks.toPageBlocks blankStack, 0, 0⟩,
    ⟨.resize 0 16 moreBlocks.toPageBlocks blankStack, 0, 0⟩]

/-- No axis is four long, so the new page has the old tensors and a capacity of sixteen. -/
theorem kv_storage_short_after_shrink :
    (∃ ctx, (Runs.final TracedWorld.next ⟨⟨.empty, fun _ => 0⟩, []⟩
        shrinkGrowCalls).world.manager.live 0 = some ctx ∧ ctx.state.maxTokens = 16 ∧
      ctx.pages.map KvPage.capacity = [16] ∧
      ctx.pages.map (fun p => p.kTensor.shape.dims) = [[8]]) ∧
      (∀ call ∈ shrinkGrowCalls, call.Designates) ∧
      ¬ Runs.Along TracedWorld.next (fun t call => call.Backs t) ⟨⟨.empty, fun _ => 0⟩, []⟩
        shrinkGrowCalls := by
  refine ⟨⟨_, rfl, by decide, by decide, by decide⟩, ?_, ?_⟩
  · intro call hcall
    simp only [shrinkGrowCalls, List.mem_cons, List.not_mem_nil, or_false] at hcall
    rcases hcall with rfl | rfl | rfl
    · exact ⟨rfl, rfl⟩
    · trivial
    · trivial
  · intro halong
    have hbacked := halong.2.2.1 0 _ _ rfl rfl
    have hle := (hbacked.k _ (List.mem_singleton.mpr rfl)).tokens_le
    revert hle
    decide

end Hummingbird

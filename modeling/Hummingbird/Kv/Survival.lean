import Hummingbird.Kv.Contents
import Hummingbird.Foundation.Runs

/-!
When the stored tokens of a context survive a clone and a growing resize. A clone has
the shape of its source; a grown context has a shape in which every axis as long as the
old maximum was replaced, so its rows match only if no later axis was touched. What does not
arrive is zero in the new page, so zeros survive where they are.
-/

namespace Hummingbird

/-- A context that holds tokens along designated axes as long as its maximum. -/
structure ContextHandle.Filled (ctx : ContextHandle) (p : KvPage) (kAxis vAxis : Nat) : Prop where
  pages_eq : ctx.pages = [p]
  k_alloc : p.kTensor.Allocated
  v_alloc : p.vTensor.Allocated
  k_shape : p.kTensor.shape = ctx.kShape
  v_shape : p.vTensor.shape = ctx.vShape
  k_dtype : p.kTensor.dtype = ctx.dtype
  v_dtype : p.vTensor.dtype = ctx.dtype
  tokens_le : p.numTokens ≤ ctx.state.maxTokens
  max_lt : ctx.state.maxTokens < uint32Size
  k_axis : ctx.kShape.dims[kAxis]? = some (ctx.state.maxTokens : Int)
  v_axis : ctx.vShape.dims[vAxis]? = some (ctx.state.maxTokens : Int)

/-- The blocks of a new page overlap neither those of the old one nor each other. -/
structure KvPage.Fresh (q p : KvPage) : Prop where
  k_k : p.kTensor.Apart q.kTensor
  k_v : p.kTensor.Apart q.vTensor
  v_k : p.vTensor.Apart q.kTensor
  v_v : p.vTensor.Apart q.vTensor
  new : q.kTensor.Apart q.vTensor

/-- The tokens of pages in one memory are those of other pages in another. -/
def PagesSurvive (pages : List KvPage) (m : Memory) (pages' : List KvPage) (m' : Memory)
    (kAxis vAxis : Nat) : Prop :=
  List.Forall₂ (fun p q : KvPage => p.kTensor.AgreesOn m q.kTensor m' kAxis p.numTokens ∧
    p.vTensor.AgreesOn m q.vTensor m' vAxis p.numTokens) pages pages'

/-- Two memories have the same contents in the pages of a context. -/
def ContextHandle.SameContents (ctx : ContextHandle) (m m' : Memory) : Prop :=
  ∀ p ∈ ctx.pages, ∀ a, p.kTensor.Covers a ∨ p.vTensor.Covers a → m' a = m a

/-- A clone that succeeds has the tokens of its source, whatever lies elsewhere in memory. -/
def ContextHandle.CloneKeeps (ctx : ContextHandle) (mgr : KvManager) (blocks : ContextBlocks)
    (m : Memory) (kAxis vAxis : Nat) : Prop :=
  ∀ m' stack w h, ctx.SameContents m m' →
    hbiKvContextClone ⟨mgr, m'⟩ ctx blocks stack = .ok (w, h) →
    ∃ ctx', w.manager.live h = some ctx' ∧
      PagesSurvive ctx.pages m' ctx'.pages w.memory kAxis vAxis

/-- A resize that succeeds leaves the tokens in the context, whatever lies elsewhere. -/
def ContextHandle.ResizeKeeps (ctx : ContextHandle) (mgr : KvManager) (h newMaxTokens : Nat)
    (blocks : PageBlocks) (m : Memory) (kAxis vAxis : Nat) : Prop :=
  ∀ m' stack w, ctx.SameContents m m' →
    hbiKvContextResize ⟨mgr, m'⟩ h ctx newMaxTokens blocks stack = .ok w →
    ∃ ctx', w.manager.live h = some ctx' ∧
      PagesSurvive ctx.pages m' ctx'.pages w.memory kAxis vAxis

/-- No tokens are stored, or the first axis has as many rows as there are tokens and the
tokens are zero behind these rows. -/
def Tensor.ClonedWhole (t : Tensor) (m : Memory) (axis tokens : Nat) : Prop :=
  tokens = 0 ∨ (tokens : Int) ≤ t.shape.dims.getD 0 0 ∧
    t.BlankFrom m axis tokens (rowBytes (hbiDtypeBits t.dtype) tokens t.shape.dims.tail.prod)

/-- No tokens are stored, or only the first axis is as long as the maximum, or the first axis
has as many rows as there are tokens and the tokens are all zero. -/
def Tensor.GrownWhole (t : Tensor) (m : Memory) (maxTokens axis tokens : Nat) : Prop :=
  tokens = 0 ∨ (∀ i < t.shape.dims.length, i ≠ 0 → t.shape.dims.getD i 0 ≠ maxTokens) ∨
    (tokens : Int) ≤ t.shape.dims.getD 0 0 ∧ t.BlankFrom m axis tokens 0

/-- No tokens are stored, or the first axis has as many rows as there are tokens and
these rows reach the last element of the tokens. -/
def ClonesRight (dtype : Dtype) (shape : Shape) (axis tokens : Nat) : Prop :=
  tokens = 0 ∨ (tokens : Int) ≤ shape.dims.getD 0 0 ∧ RowsCover dtype shape axis tokens

instance (dtype : Dtype) (shape : Shape) (axis tokens : Nat) :
    Decidable (ClonesRight dtype shape axis tokens) :=
  have : Decidable (RowsCover dtype shape axis tokens) := inferInstanceAs (Decidable (_ ≤ _))
  inferInstanceAs (Decidable (_ ∨ _ ∧ _))

/-- No tokens are stored, or only the first axis is as long as the maximum. -/
def GrowsFirst (shape : Shape) (maxTokens tokens : Nat) : Prop :=
  tokens = 0 ∨ ∀ i < shape.dims.length, i ≠ 0 → shape.dims.getD i 0 ≠ maxTokens

instance (shape : Shape) (maxTokens tokens : Nat) :
    Decidable (GrowsFirst shape maxTokens tokens) :=
  inferInstanceAs (Decidable (_ ∨ _))

/-- Rows of the token axis are tokens. -/
theorem rowsCover_first {dtype : Dtype} {shape : Shape} {tokens : Nat} (hne : shape.dims ≠ []) :
    RowsCover dtype shape 0 tokens := by
  obtain ⟨d, ds, hdims⟩ := List.exists_cons_of_ne_nil hne
  have hlast : lastStored shape.dims 0 tokens = tokens * ds.prod - 1 := by
    rw [lastStored, hdims, List.set_cons_zero]
    exact (@Strided.extent_rowMajor ((tokens : Int) :: ds)).trans (by rw [List.prod_cons])
  rw [RowsCover, hlast, hdims, List.tail_cons, Int.sub_add_cancel, rowBytes]
  omega

theorem tokensArrive_clone_iff {src dst : Tensor} {m : Memory} {axis tokens : Nat}
    (hshape : dst.shape = src.shape) :
    TokensArrive src dst m axis tokens ↔ src.ClonedWhole m axis tokens := by
  unfold TokensArrive Tensor.ClonedWhole movedBytes
  rw [if_pos (by rw [hshape])]

/-- With whole bytes per element, leading rows reach the tokens on a later axis when
they have as many elements as lie up to the last one stored. -/
theorem rowsCover_later_iff {dtype : Dtype} {shape : Shape} {a tokens : Nat} {d : Int}
    {ds : List Int} (hdtype : dtype.ByteAddressable) (hdims : shape.dims = d :: ds) :
    RowsCover dtype shape (a + 1) tokens ↔
      (d - 1) * ds.prod + Strided.extent (ds.set a (tokens : Int)) (Strided.rowMajor ds) + 1 ≤
        tokens * ds.prod := by
  obtain ⟨b, hb, hbits, -⟩ := hbiDtypeBits_bytes hdtype
  have hbpos : (0 : Int) < b := Int.natCast_pos.mpr hb
  have hbytes : rowBytes (8 * b) tokens ds.prod = tokens * ds.prod * b := by
    rw [rowBytes, show (tokens : Int) * ds.prod * ((8 * b : Nat) : Int) =
      8 * (tokens * ds.prod * b) by push_cast; ring]
    omega
  rw [RowsCover, lastStored, hdims, List.tail_cons, List.set_cons_succ, hbits, hbytes]
  simp only [Strided.extent, Strided.rowMajor, List.map_cons, Strided.offset_cons]
  rw [show ∀ x : Int, x * ((8 * b : Nat) : Int) = 8 * (x * b) from fun x => by
    push_cast; ring, mul_le_mul_iff_right₀ (by decide : (0 : Int) < 8),
    mul_le_mul_iff_left₀ hbpos]

/-- With whole bytes per element, a clone is right exactly when the first axis counts
the tokens, or has exactly as many rows as there are tokens. -/
theorem clonesRight_iff_of_bytes {dtype : Dtype} {shape : Shape} {axis tokens : Nat}
    (hdtype : dtype.ByteAddressable) (hpos : ∀ d ∈ shape.dims, 0 < d)
    (haxis : axis < shape.dims.length) (htokens : (tokens : Int) ≤ shape.dims.getD axis 0) :
    ClonesRight dtype shape axis tokens ↔
      tokens = 0 ∨ axis = 0 ∨ shape.dims.getD 0 0 = tokens := by
  have hne : shape.dims ≠ [] := by
    intro hnil
    simp [hnil] at haxis
  by_cases hzero : tokens = 0
  · simp [ClonesRight, hzero]
  cases axis with
  | zero => exact iff_of_true (Or.inr ⟨htokens, rowsCover_first hne⟩) (Or.inr (Or.inl rfl))
  | succ a =>
      obtain ⟨d, ds, hdims⟩ := List.exists_cons_of_ne_nil hne
      have hds : ∀ e ∈ ds, 0 < e := fun e he => hpos e (by simp [hdims, he])
      have hP : 0 < ds.prod := Strided.prod_pos hds
      have hrow := Strided.rowMajor_nonneg hds
      have ha : a < ds.length := by simpa [hdims] using haxis
      have hta : (tokens : Int) ≤ ds.getD a 0 := by simpa [hdims] using htokens
      have hidx := (lastStored_inBounds hds ha hta (Nat.pos_of_ne_zero hzero)).1
      have hlo := Strided.offset_nonneg hidx hrow
      have hhi := Strided.offset_le_extent hidx hrow
      rw [Strided.extent_rowMajor] at hhi
      have hsplit : (d - 1) * ds.prod = d * ds.prod - ds.prod := by ring
      unfold ClonesRight
      rw [rowsCover_later_iff hdtype hdims, hdims, List.getD_cons_zero]
      constructor
      · rintro (h0 | ⟨hle, hX⟩)
        · exact Or.inl h0
        · refine Or.inr (Or.inr (le_antisymm ?_ hle))
          have hlt : (d - 1) * ds.prod < tokens * ds.prod := by
            unfold Strided.extent at hX
            omega
          have := lt_of_mul_lt_mul_right hlt hP.le
          omega
      · rintro (h0 | h0 | rfl)
        · exact Or.inl h0
        · exact absurd h0 (Nat.succ_ne_zero a)
        · refine Or.inr ⟨le_rfl, ?_⟩
          unfold Strided.extent
          omega

/-- A clone is right for all contents exactly when its rows reach the tokens. -/
theorem Tensor.Allocated.clonedWhole_forall_iff {t : Tensor} (ht : t.Allocated) {axis tokens : Nat}
    (haxis : axis < t.shape.dims.length) (htokens : (tokens : Int) ≤ t.shape.dims.getD axis 0) :
    (∀ m, t.ClonedWhole m axis tokens) ↔ ClonesRight t.dtype t.shape axis tokens := by
  by_cases hzero : tokens = 0
  · exact iff_of_true (fun _ => Or.inl hzero) (Or.inl hzero)
  · constructor
    · intro hall
      obtain ⟨hrows, hblank⟩ := (hall (onesUnder t)).resolve_left hzero
      refine Or.inr ⟨hrows, ?_⟩
      exact ht.lastStored_le_of_blank haxis htokens (Nat.pos_of_ne_zero hzero) hblank
    · intro hright m
      obtain ⟨hrows, hcover⟩ := hright.resolve_left hzero
      exact Or.inr ⟨hrows, ht.blankFrom_of_cover hcover m⟩

/-- Growing is right for all contents exactly when it touches the first axis only. -/
theorem Tensor.Allocated.grownWhole_forall_iff {t : Tensor} (ht : t.Allocated)
    {maxTokens axis tokens : Nat} (haxis : axis < t.shape.dims.length)
    (htokens : (tokens : Int) ≤ t.shape.dims.getD axis 0) :
    (∀ m, t.GrownWhole m maxTokens axis tokens) ↔ GrowsFirst t.shape maxTokens tokens := by
  by_cases hzero : tokens = 0
  · exact iff_of_true (fun _ => Or.inl hzero) (Or.inl hzero)
  constructor
  · intro hall
    refine Or.inr (((hall (onesUnder t)).resolve_left hzero).resolve_right ?_)
    rintro ⟨-, hblank⟩
    have hpos := Nat.pos_of_ne_zero hzero
    have hle := ht.lastStored_le_of_blank haxis htokens hpos hblank
    obtain ⟨hidx, htoken⟩ :=
      lastStored_inBounds ht.packed.shape_valid.dims_pos haxis htokens hpos
    have hbits := hbiDtypeBits_pos ht.packed.dtype_valid
    have hlt := ht.bitPos_lt_lastStored hidx htoken hbits
    have hnonneg := (ht.covers_bit hidx hbits).1
    omega
  · intro hfirst m
    exact hfirst.imp_right Or.inl

/-- Growing leaves rows of the same shape exactly when it touches the first axis only. -/
theorem grownShape_tail_iff {shape : Shape} {oldMax newMax : Nat} (hlt : oldMax < newMax)
    (hne : shape.dims ≠ []) :
    shape.dims.tail = (grownShape shape oldMax newMax).dims.tail ↔
      ∀ i < shape.dims.length, i ≠ 0 → shape.dims.getD i 0 ≠ oldMax := by
  obtain ⟨d, ds, hdims⟩ := List.exists_cons_of_ne_nil hne
  let f : Int → Int := fun e => if e = (oldMax : Int) then (newMax : Int) else e
  have hgrown : (grownShape shape oldMax newMax).dims = f d :: ds.map f := by
    rw [grownShape, hdims]
    rfl
  rw [hdims, hgrown, List.tail_cons, List.tail_cons]
  constructor
  · intro htail i hi hi0 heq
    obtain ⟨j, rfl⟩ := Nat.exists_eq_succ_of_ne_zero hi0
    have hj : j < ds.length := by simpa using hi
    have hget := congrArg (fun l : List Int => l[j]?) htail
    have hdj : ds[j] = (oldMax : Int) := by
      simpa [List.getD_eq_getElem?_getD, hj] using heq
    simp only [List.getElem?_map, List.getElem?_eq_getElem hj, Option.map_some, hdj, f, if_true,
      Option.some.injEq] at hget
    omega
  · intro hothers
    refine ((List.map_congr_left ?_).trans (List.map_id ds)).symm
    intro e he
    obtain ⟨j, hj, rfl⟩ := List.mem_iff_getElem.mp he
    refine if_neg ?_
    have := hothers (j + 1) (by simpa using hj) (by omega)
    simpa [List.getD_eq_getElem?_getD, hj] using this

/-- A grown tensor has the tokens exactly when its first axis alone grew, or they are zero. -/
theorem tokensArrive_grow_iff {src dst : Tensor} (hsrc : src.Allocated) {m : Memory}
    {axis tokens oldMax newMax : Nat} (haxis : src.shape.dims[axis]? = some (oldMax : Int))
    (htokens : tokens ≤ oldMax) (hlt : oldMax < newMax)
    (hshape : dst.shape = grownShape src.shape oldMax newMax) :
    TokensArrive src dst m axis tokens ↔ src.GrownWhole m oldMax axis tokens := by
  have haxislt := (List.getElem?_eq_some_iff.mp haxis).1
  have hne : src.shape.dims ≠ [] := by
    intro hnil
    simp [hnil] at haxislt
  unfold TokensArrive Tensor.GrownWhole movedBytes
  rw [hshape]
  by_cases htail : src.shape.dims.tail = (grownShape src.shape oldMax newMax).dims.tail
  · have hfirst := (grownShape_tail_iff hlt hne).mp htail
    rw [if_pos htail]
    -- the token axis is one of those as long as the maximum
    have haxis0 : axis = 0 := by
      by_contra hne0
      refine hfirst axis haxislt hne0 ?_
      rw [List.getD_eq_getElem?_getD, haxis, Option.getD_some]
    subst haxis0
    refine iff_of_true (Or.inr ⟨?_, hsrc.blankFrom_of_cover (rowsCover_first hne) m⟩)
      (Or.inr (Or.inl hfirst))
    rw [List.getD_eq_getElem?_getD, haxis, Option.getD_some]
    exact Int.ofNat_le.mpr htokens
  · have hother := mt (grownShape_tail_iff hlt hne).mpr htail
    rw [if_neg htail, or_iff_right hother]

section Filled

variable {ctx : ContextHandle} {p : KvPage} {kAxis vAxis : Nat} (hctx : ctx.Filled p kAxis vAxis)

/-- A tensor of the source and a new one whose axes are no shorter. -/
theorem TensorPair.of_grown {src dst : Tensor} {axis tokens oldMax : Nat} {f : Int → Int}
    (hsrc : src.Allocated) (hdst : dst.Allocated) (hdtype : src.dtype = dst.dtype)
    (haxis : src.shape.dims[axis]? = some (oldMax : Int)) (htokens : tokens ≤ oldMax)
    (hmax : oldMax < uint32Size) (hshape : dst.shape.dims = src.shape.dims.map f)
    (hf : ∀ d, d ≤ f d) (hrows : ∀ d, (tokens : Int) ≤ f d → (tokens : Int) ≤ d)
    (hapart : src.Apart dst) : TensorPair src dst axis tokens where
  src_alloc := hsrc
  dst_alloc := hdst
  dtype_eq := hdtype
  axis_lt := (List.getElem?_eq_some_iff.mp haxis).1
  tokens_le := by
    rw [List.getD_eq_getElem?_getD, haxis, Option.getD_some]
    exact Int.ofNat_le.mpr htokens
  tokens_lt := htokens.trans_lt hmax
  inBounds := by
    intro idx hidx
    obtain ⟨hlen, hall⟩ := Strided.inBounds_iff_getD.mp hidx
    rw [hshape]
    refine Strided.inBounds_iff_getD.mpr ⟨by simpa using hlen, ?_⟩
    intro k hk
    rw [List.length_map] at hk
    obtain ⟨hlo, hhi⟩ := hall k hk
    have hget : (src.shape.dims.map f).getD k 0 = f (src.shape.dims.getD k 0) := by
      simp [List.getD_eq_getElem?_getD, hk]
    rw [hget]
    exact ⟨hlo, hhi.trans_le (hf _)⟩
  rows_iff := by
    rw [hshape]
    cases src.shape.dims with
    | nil => rfl
    | cons d ds => exact ⟨fun hle => hle.trans (hf d), hrows d⟩
  apart := hapart

include hctx

/-- The tokens of the page survive in copied pages exactly when they arrive. -/
theorem ContextHandle.Filled.copyPages_iff {q : KvPage} {f : Int → Int}
    (hk : q.kTensor.Allocated) (hv : q.vTensor.Allocated) (hkdt : q.kTensor.dtype = ctx.dtype)
    (hvdt : q.vTensor.dtype = ctx.dtype) (hkdims : q.kTensor.shape.dims = ctx.kShape.dims.map f)
    (hvdims : q.vTensor.shape.dims = ctx.vShape.dims.map f) (hf : ∀ d, d ≤ f d)
    (hrows : ∀ d, (p.numTokens : Int) ≤ f d → (p.numTokens : Int) ≤ d) (hfresh : q.Fresh p)
    (m : Memory) :
    (∀ m' stack, ctx.SameContents m m' →
      PagesSurvive ctx.pages m' (copyPages stack ctx.pages [q] (zeroPages [q] m')).1
        (copyPages stack ctx.pages [q] (zeroPages [q] m')).2 kAxis vAxis) ↔
      TokensArrive p.kTensor q.kTensor m kAxis p.numTokens ∧
        TokensArrive p.vTensor q.vTensor m vAxis p.numTokens := by
  have hkpair : TensorPair p.kTensor q.kTensor kAxis p.numTokens :=
    .of_grown hctx.k_alloc hk (hctx.k_dtype.trans hkdt.symm)
      (by rw [hctx.k_shape]; exact hctx.k_axis) hctx.tokens_le hctx.max_lt
      (by rw [hctx.k_shape]; exact hkdims) hf hrows hfresh.k_k
  have hvpair : TensorPair p.vTensor q.vTensor vAxis p.numTokens :=
    .of_grown hctx.v_alloc hv (hctx.v_dtype.trans hvdt.symm)
      (by rw [hctx.v_shape]; exact hctx.v_axis) hctx.tokens_le hctx.max_lt
      (by rw [hctx.v_shape]; exact hvdims) hf hrows hfresh.v_v
  rw [← copyPage_agreesOn_iff hkpair hvpair hfresh.new hfresh.v_k hfresh.k_v]
  simp only [ContextHandle.SameContents, hctx.pages_eq, PagesSurvive, copyPages, zeroPages,
    List.foldl_cons, List.foldl_nil, List.mem_singleton, forall_eq, List.forall₂_cons,
    List.Forall₂.nil, and_true]

theorem ContextHandle.Filled.clone_arrives {blocks : PageBlocks} {q : KvPage}
    (halloc : hbiKvAllocatorContiguousAllocate ctx.state.maxTokens ctx.dtype ctx.kShape
      ctx.vShape blocks = .ok [q]) (hfresh : q.Fresh p) (m : Memory) :
    (∀ m' stack, ctx.SameContents m m' →
      PagesSurvive ctx.pages m' (copyPages stack ctx.pages [q] (zeroPages [q] m')).1
        (copyPages stack ctx.pages [q] (zeroPages [q] m')).2 kAxis vAxis) ↔
      p.kTensor.ClonedWhole m kAxis p.numTokens ∧ p.vTensor.ClonedWhole m vAxis p.numTokens := by
  obtain ⟨k, v, hq, hk, hv⟩ := allocate_eq_ok halloc
  obtain ⟨rfl, -⟩ := List.cons.inj hq
  obtain ⟨hkdt, hkshape, -⟩ := tensorAllocImpl_fields hk
  obtain ⟨hvdt, hvshape, -⟩ := tensorAllocImpl_fields hv
  rw [@ContextHandle.Filled.copyPages_iff _ _ _ _ hctx _ id (.of_alloc hk) (.of_alloc hv) hkdt hvdt
      (by rw [List.map_id]; exact congrArg Shape.dims hkshape)
      (by rw [List.map_id]; exact congrArg Shape.dims hvshape) (fun _ => le_rfl) (fun _ => id)
      hfresh,
    tokensArrive_clone_iff (hkshape.trans hctx.k_shape.symm),
    tokensArrive_clone_iff (hvshape.trans hctx.v_shape.symm)]

theorem ContextHandle.Filled.grow_arrives {newMaxTokens : Nat} {blocks : PageBlocks} {q : KvPage}
    (hlt : ctx.state.maxTokens < newMaxTokens)
    (halloc : growPages ctx newMaxTokens blocks = .ok [q]) (hfresh : q.Fresh p) (m : Memory) :
    (∀ m' stack, ctx.SameContents m m' →
      PagesSurvive ctx.pages m' (copyPages stack ctx.pages [q] (zeroPages [q] m')).1
        (copyPages stack ctx.pages [q] (zeroPages [q] m')).2 kAxis vAxis) ↔
      p.kTensor.GrownWhole m ctx.state.maxTokens kAxis p.numTokens ∧
        p.vTensor.GrownWhole m ctx.state.maxTokens vAxis p.numTokens := by
  obtain ⟨k, v, hq, hk, hv⟩ := allocate_eq_ok halloc
  obtain ⟨rfl, -⟩ := List.cons.inj hq
  obtain ⟨hkdt, hkshape, -⟩ := tensorAllocImpl_fields hk
  obtain ⟨hvdt, hvshape, -⟩ := tensorAllocImpl_fields hv
  have hgrow : ∀ d : Int,
      d ≤ if d = (ctx.state.maxTokens : Int) then (newMaxTokens : Int) else d := by
    intro d
    split_ifs with hd
    · omega
    · exact le_rfl
  have hrows : ∀ d : Int, (p.numTokens : Int) ≤
      (if d = (ctx.state.maxTokens : Int) then (newMaxTokens : Int) else d) →
      (p.numTokens : Int) ≤ d := by
    intro d hle
    have htokens := hctx.tokens_le
    split_ifs at hle with hd
    · omega
    · exact hle
  rw [hctx.copyPages_iff (.of_alloc hk) (.of_alloc hv) hkdt hvdt (congrArg Shape.dims hkshape)
      (congrArg Shape.dims hvshape) hgrow hrows hfresh,
    tokensArrive_grow_iff hctx.k_alloc (by rw [hctx.k_shape]; exact hctx.k_axis) hctx.tokens_le hlt
      (by rw [hctx.k_shape]; exact hkshape),
    tokensArrive_grow_iff hctx.v_alloc (by rw [hctx.v_shape]; exact hctx.v_axis) hctx.tokens_le hlt
      (by rw [hctx.v_shape]; exact hvshape)]

end Filled

/-- With room in the table and memory for its page, a clone succeeds. -/
theorem hbiKvContextClone_of_alloc {mgr : KvManager} {src : ContextHandle}
    {blocks : ContextBlocks} {q : KvPage} (m : Memory) (stack : SliceStack)
    (hroom : mgr.contexts.length < hbiKvMaxContexts) (hhandle : blocks.handle = true)
    (halloc : hbiKvAllocatorContiguousAllocate src.state.maxTokens src.dtype src.kShape
      src.vShape blocks.toPageBlocks = .ok [q]) :
    ∃ w h, hbiKvContextClone ⟨mgr, m⟩ src blocks stack = .ok (w, h) := by
  simp only [hbiKvContextClone, hbiKvContextCreate, ge_iff_le, not_le.mpr hroom, if_false, hhandle,
    Bool.true_eq_false, halloc, bind, Except.bind, pure, Except.pure,
    KvManager.live_register_new]
  exact ⟨_, _, rfl⟩

/-- With memory for its page, a growing resize succeeds. -/
theorem hbiKvContextResize_of_alloc {mgr : KvManager} {h : Nat} {ctx : ContextHandle}
    {newMaxTokens : Nat} {blocks : PageBlocks} {q : KvPage} (m : Memory) (stack : SliceStack)
    (hlt : ctx.state.maxTokens < newMaxTokens)
    (halloc : growPages ctx newMaxTokens blocks = .ok [q]) :
    ∃ w, hbiKvContextResize ⟨mgr, m⟩ h ctx newMaxTokens blocks stack = .ok w := by
  unfold growPages at halloc
  simp only [hbiKvContextResize, hlt.ne', not_lt.mpr hlt.le, if_false, halloc, bind, Except.bind,
    pure, Except.pure]
  exact ⟨_, rfl⟩

theorem hbiKvContextResize_grown {w w' : KvWorld} {h : Nat} {ctx : ContextHandle}
    {newMaxTokens : Nat} {blocks : PageBlocks} {stack : SliceStack} {q : KvPage}
    (hlt : ctx.state.maxTokens < newMaxTokens)
    (halloc : growPages ctx newMaxTokens blocks = .ok [q])
    (hresize : hbiKvContextResize w h ctx newMaxTokens blocks stack = .ok w') :
    ∃ stats, w' = ⟨{ w.manager with stats := stats }.store h
        (grownContext ctx newMaxTokens [q] stack (zeroPages [q] w.memory)),
      (copyPages stack ctx.pages [q] (zeroPages [q] w.memory)).2⟩ := by
  obtain ⟨heq, -⟩ | ⟨hgt, -⟩ | ⟨-, pages, halloc', rfl⟩ := hbiKvContextResize_eq_ok hresize
  · omega
  · omega
  · obtain rfl := Except.ok.inj (halloc.symm.trans halloc')
    exact ⟨_, rfl⟩

section Kept

variable {ctx : ContextHandle} {p q : KvPage} {kAxis vAxis : Nat} {mgr : KvManager}
  (hctx : ctx.Filled p kAxis vAxis) (hfresh : q.Fresh p) (m : Memory)

include hctx hfresh

/-- A clone keeps the tokens exactly when they are zero wherever it does not copy them. -/
theorem ContextHandle.Filled.cloneKeeps_iff {blocks : ContextBlocks}
    (hroom : mgr.contexts.length < hbiKvMaxContexts) (hhandle : blocks.handle = true)
    (halloc : hbiKvAllocatorContiguousAllocate ctx.state.maxTokens ctx.dtype ctx.kShape ctx.vShape
      blocks.toPageBlocks = .ok [q]) :
    ctx.CloneKeeps mgr blocks m kAxis vAxis ↔
      p.kTensor.ClonedWhole m kAxis p.numTokens ∧ p.vTensor.ClonedWhole m vAxis p.numTokens := by
  rw [← hctx.clone_arrives halloc hfresh]
  constructor
  · intro hkeeps m' stack hsame
    obtain ⟨w, h, hclone⟩ := hbiKvContextClone_of_alloc m' stack hroom hhandle halloc
    obtain ⟨ctx', hlive, hsurvive⟩ := hkeeps m' stack w h hsame hclone
    obtain ⟨pages, halloc', rfl, rfl⟩ := hbiKvContextClone_eq_ok hclone
    obtain rfl := Except.ok.inj (halloc.symm.trans halloc')
    rw [KvManager.live_store_self (by simp [KvManager.register])] at hlive
    obtain rfl := Option.some.inj hlive
    exact hsurvive
  · intro hall m' stack w h hsame hclone
    obtain ⟨pages, halloc', rfl, rfl⟩ := hbiKvContextClone_eq_ok hclone
    obtain rfl := Except.ok.inj (halloc.symm.trans halloc')
    exact ⟨_, KvManager.live_store_self (by simp [KvManager.register]), hall m' stack hsame⟩

/-- A growing resize keeps the tokens exactly when it touches the first axis only, or when
they are zero and both pages have the rows. -/
theorem ContextHandle.Filled.resizeKeeps_iff {h newMaxTokens : Nat} {blocks : PageBlocks}
    (hlive : mgr.live h = some ctx) (hlt : ctx.state.maxTokens < newMaxTokens)
    (halloc : growPages ctx newMaxTokens blocks = .ok [q]) :
    ctx.ResizeKeeps mgr h newMaxTokens blocks m kAxis vAxis ↔
      p.kTensor.GrownWhole m ctx.state.maxTokens kAxis p.numTokens ∧
        p.vTensor.GrownWhole m ctx.state.maxTokens vAxis p.numTokens := by
  rw [← hctx.grow_arrives hlt halloc hfresh]
  constructor
  · intro hkeeps m' stack hsame
    obtain ⟨w, hresize⟩ := hbiKvContextResize_of_alloc m' stack hlt halloc
    obtain ⟨ctx', hlive', hsurvive⟩ := hkeeps m' stack w hsame hresize
    obtain ⟨stats, rfl⟩ := hbiKvContextResize_grown hlt halloc hresize
    have hself := @KvManager.live_store_self { mgr with stats := stats } h
      (grownContext ctx newMaxTokens [q] stack (zeroPages [q] m')) (KvManager.live_lt hlive)
    obtain rfl := Option.some.inj (hself.symm.trans hlive')
    exact hsurvive
  · intro hall m' stack w hsame hresize
    obtain ⟨stats, rfl⟩ := hbiKvContextResize_grown hlt halloc hresize
    exact ⟨_, KvManager.live_store_self (KvManager.live_lt hlive), hall m' stack hsame⟩

end Kept

/-- For every context that holds tokens along axes as long as its maximum, and every new
page apart from its own: a clone has the tokens of its source exactly when they are zero
behind the leading rows that it copies, and for all contents exactly when these rows reach
them; a growing resize keeps them exactly when the maximum is the length of the first axis
only, when they are zero and the first axis has the rows, or when there are none. -/
theorem kv_contents_iff {ctx : ContextHandle} {p : KvPage} {kAxis vAxis : Nat}
    (hctx : ctx.Filled p kAxis vAxis) :
    (∀ (mgr : KvManager) (blocks : ContextBlocks) (q : KvPage),
      mgr.contexts.length < hbiKvMaxContexts → blocks.handle = true →
      hbiKvAllocatorContiguousAllocate ctx.state.maxTokens ctx.dtype ctx.kShape ctx.vShape
        blocks.toPageBlocks = .ok [q] → q.Fresh p →
      (∀ m, ctx.CloneKeeps mgr blocks m kAxis vAxis ↔
        p.kTensor.ClonedWhole m kAxis p.numTokens ∧
          p.vTensor.ClonedWhole m vAxis p.numTokens) ∧
      ((∀ m, ctx.CloneKeeps mgr blocks m kAxis vAxis) ↔
        ClonesRight ctx.dtype ctx.kShape kAxis p.numTokens ∧
          ClonesRight ctx.dtype ctx.vShape vAxis p.numTokens)) ∧
    ∀ (mgr : KvManager) (h newMaxTokens : Nat) (blocks : PageBlocks) (q : KvPage),
      mgr.live h = some ctx → ctx.state.maxTokens < newMaxTokens →
      growPages ctx newMaxTokens blocks = .ok [q] → q.Fresh p →
      (∀ m, ctx.ResizeKeeps mgr h newMaxTokens blocks m kAxis vAxis ↔
        p.kTensor.GrownWhole m ctx.state.maxTokens kAxis p.numTokens ∧
          p.vTensor.GrownWhole m ctx.state.maxTokens vAxis p.numTokens) ∧
      ((∀ m, ctx.ResizeKeeps mgr h newMaxTokens blocks m kAxis vAxis) ↔
        GrowsFirst ctx.kShape ctx.state.maxTokens p.numTokens ∧
          GrowsFirst ctx.vShape ctx.state.maxTokens p.numTokens) := by
  have hstored : ∀ {shape : Shape} {axis : Nat},
      shape.dims[axis]? = some (ctx.state.maxTokens : Int) →
      axis < shape.dims.length ∧ (p.numTokens : Int) ≤ shape.dims.getD axis 0 := by
    intro shape axis haxis
    refine ⟨(List.getElem?_eq_some_iff.mp haxis).1, ?_⟩
    rw [List.getD_eq_getElem?_getD, haxis, Option.getD_some]
    exact Int.ofNat_le.mpr hctx.tokens_le
  obtain ⟨hklt, hkle⟩ := hstored (hctx.k_shape ▸ hctx.k_axis)
  obtain ⟨hvlt, hvle⟩ := hstored (hctx.v_shape ▸ hctx.v_axis)
  constructor
  · intro mgr blocks q hroom hhandle halloc hfresh
    have hiff := fun m => hctx.cloneKeeps_iff hfresh m hroom hhandle halloc
    refine ⟨hiff, ?_⟩
    rw [forall_congr' hiff, forall_and, hctx.k_alloc.clonedWhole_forall_iff hklt hkle,
      hctx.v_alloc.clonedWhole_forall_iff hvlt hvle, hctx.k_dtype, hctx.v_dtype, hctx.k_shape,
      hctx.v_shape]
  · intro mgr h newMaxTokens blocks q hlive hlt halloc hfresh
    have hiff := fun m => hctx.resizeKeeps_iff hfresh m hlive hlt halloc
    refine ⟨hiff, ?_⟩
    rw [forall_congr' hiff, forall_and, hctx.k_alloc.grownWhole_forall_iff hklt hkle,
      hctx.v_alloc.grownWhole_forall_iff hvlt hvle, hctx.k_shape, hctx.v_shape]

/-- A manager with one context for two tokens, one of them stored. -/
def oneTokenWorld (shape : Shape) : KvWorld :=
  Runs.final KvOp.next ⟨.empty, fun _ => 0⟩
    [.create 2 .int8 shape shape smallBlocks, .append 0 1]

def oneTokenContext (shape : Shape) : ContextHandle :=
  ((oneTokenWorld shape).manager.live 0).getD (freshContext 0 .invalid ⟨[]⟩ ⟨[]⟩ [])

theorem Tensor.Apart.of_le {t u : Tensor} (h : t.data + t.nbytes ≤ u.data) : t.Apart u := by
  rintro a ⟨⟨-, hhi⟩, hlo, -⟩
  omega

/-- With the tokens along the first axis both operations keep them. -/
theorem kv_contents_iff_first_axis :
    (oneTokenWorld ⟨[2, 3]⟩).manager.live 0 = some (oneTokenContext ⟨[2, 3]⟩) ∧
      (oneTokenContext ⟨[2, 3]⟩).state.totalTokens = 1 ∧
      (∀ m, (oneTokenContext ⟨[2, 3]⟩).CloneKeeps (oneTokenWorld ⟨[2, 3]⟩).manager moreBlocks
        m 0 0) ∧
      ∀ m, (oneTokenContext ⟨[2, 3]⟩).ResizeKeeps (oneTokenWorld ⟨[2, 3]⟩).manager 0 4
        moreBlocks.toPageBlocks m 0 0 := by
  have hpages : (oneTokenContext ⟨[2, 3]⟩).pages = [_] := rfl
  have hk := @Tensor.Allocated.of_alloc .int8 ⟨[2, 3]⟩ _ smallBlocks.k _ rfl
  have hv := @Tensor.Allocated.of_alloc .int8 ⟨[2, 3]⟩ _ smallBlocks.v _ rfl
  have hfilled : (oneTokenContext ⟨[2, 3]⟩).Filled _ 0 0 :=
    ⟨hpages, hk, hv, rfl, rfl, rfl, rfl, by decide, by decide, rfl, rfl⟩
  obtain ⟨hclone, hgrow⟩ := kv_contents_iff hfilled
  have hapart : ∀ t u : Tensor, t.data + t.nbytes ≤ u.data → t.Apart u := fun _ _ => .of_le
  refine ⟨rfl, rfl, ?_, ?_⟩
  · refine (hclone _ moreBlocks _ (by decide) rfl rfl ⟨?_, ?_, ?_, ?_, ?_⟩).2.mpr (by decide)
    · exact hapart _ _ (by decide)
    · exact hapart _ _ (by decide)
    · exact hapart _ _ (by decide)
    · exact hapart _ _ (by decide)
    · exact hapart _ _ (by decide)
  · refine (hgrow _ 0 4 moreBlocks.toPageBlocks _ rfl (by decide) rfl
      ⟨?_, ?_, ?_, ?_, ?_⟩).2.mpr (by decide)
    · exact hapart _ _ (by decide)
    · exact hapart _ _ (by decide)
    · exact hapart _ _ (by decide)
    · exact hapart _ _ (by decide)
    · exact hapart _ _ (by decide)

/-- With the documented layout of batch, heads, sequence and head size, a batch of three
loses tokens on both ways. -/
theorem kv_contents_lost_in_batch :
    (oneTokenWorld ⟨[3, 1, 2, 1]⟩).manager.live 0 = some (oneTokenContext ⟨[3, 1, 2, 1]⟩) ∧
      ¬ (oneTokenContext ⟨[3, 1, 2, 1]⟩).CloneKeeps (oneTokenWorld ⟨[3, 1, 2, 1]⟩).manager
        moreBlocks (fun _ => 255) 2 2 ∧
      ¬ (oneTokenContext ⟨[3, 1, 2, 1]⟩).ResizeKeeps (oneTokenWorld ⟨[3, 1, 2, 1]⟩).manager 0 4
        moreBlocks.toPageBlocks (fun _ => 255) 2 2 := by
  refine ⟨rfl, ?_, ?_⟩
  · intro hkeeps
    obtain ⟨ctx', hlive, hsurvive⟩ := hkeeps _ blankStack _ _ (fun _ _ _ _ => rfl) rfl
    obtain rfl := Option.some.inj hlive
    have hagree := (List.forall₂_cons.mp hsurvive).1.1 [1, 0, 0, 0] (by decide) (by decide)
    revert hagree
    decide
  · intro hkeeps
    obtain ⟨ctx', hlive, hsurvive⟩ := hkeeps _ blankStack _ (fun _ _ _ _ => rfl) rfl
    obtain rfl := Option.some.inj hlive
    have hagree := (List.forall₂_cons.mp hsurvive).1.1 [0, 0, 0, 0] (by decide) (by decide)
    revert hagree
    decide

end Hummingbird

import Hummingbird.Kernel.Rotary

/-!
The cells that a call of a reference kernel touches: the reads lie in the buffers of its inputs
and the writes in those of its outputs, except in a cast that casts nothing.
-/

namespace Hummingbird

open Accesses

/-- The cells of the buffers of the inputs. -/
def KernelArgs.inputBytes (args : KernelArgs) : Set Int :=
  {a | ∃ t, some t ∈ args.inputs ∧ t.Covers a}

/-- The cells of the buffers of the outputs. -/
def KernelArgs.outputBytes (args : KernelArgs) : Set Int :=
  {a | ∃ t, some t ∈ args.outputs ∧ t.Covers a}

/-- Every operand passes the validator. -/
def KernelArgs.Valid (args : KernelArgs) : Prop :=
  ∀ t, some t ∈ args.inputs ∨ some t ∈ args.outputs → hbiTensorValidate t = .ok ()

theorem requireContiguous_eq_ok {x : Option Tensor} {what : String} {t : Tensor} :
    requireContiguous x what = .ok t ↔ x = some t ∧ t.contiguous = true ∧ t.data ≠ 0 := by
  cases x with
  | none => simp [requireContiguous]
  | some u =>
      simp only [requireContiguous, Result.ite_errSet_eq_ok, Bool.not_eq_false,
        Except.ok.injEq, Option.some.injEq]
      constructor
      · rintro ⟨hc, hd, rfl⟩
        exact ⟨rfl, hc, hd⟩
      · rintro ⟨rfl, hc, hd⟩
        exact ⟨hc, hd, rfl⟩

theorem KernelArgs.mem_of_input {args : KernelArgs} {i : Nat} {t : Tensor}
    (h : args.input i = some t) : some t ∈ args.inputs :=
  List.mem_of_getElem? (Option.join_eq_some_iff.mp h)

theorem KernelArgs.mem_of_output {args : KernelArgs} {i : Nat} {t : Tensor}
    (h : args.output i = some t) : some t ∈ args.outputs :=
  List.mem_of_getElem? (Option.join_eq_some_iff.mp h)

/-- A contiguous operand whose buffer lies in a set of cells. -/
structure Operand (t : Tensor) (S : Set Int) : Prop where
  valid : t.Valid
  contiguous_eq : t.contiguous = true
  covers : ∀ a, t.Covers a → a ∈ S

theorem KernelArgs.Valid.operand_input {args : KernelArgs} (h : args.Valid) {i : Nat} {t : Tensor}
    (ht : args.input i = some t) (hc : t.contiguous = true) : Operand t args.inputBytes :=
  ⟨Tensor.valid_of_validate (h t (Or.inl (KernelArgs.mem_of_input ht))), hc,
    fun _ ha => ⟨t, KernelArgs.mem_of_input ht, ha⟩⟩

theorem KernelArgs.Valid.operand_output {args : KernelArgs} (h : args.Valid) {i : Nat}
    {t : Tensor} (ht : args.output i = some t) (hc : t.contiguous = true) :
    Operand t args.outputBytes :=
  ⟨Tensor.valid_of_validate (h t (Or.inr (KernelArgs.mem_of_output ht))), hc,
    fun _ ha => ⟨t, KernelArgs.mem_of_output ht, ha⟩⟩

section Cells

variable {t : Tensor} {S : Set Int} (h : Operand t S)

include h

theorem Operand.f32Array (hd : t.dtype = .fp32) : t.F32Array := ⟨h.valid, h.contiguous_eq, hd⟩

/-- The word of an element. -/
theorem Operand.word (hd : t.dtype = .fp32) {i : Int} (hlo : 0 ≤ i)
    (hhi : i < t.shape.dims.prod) : Set.Ico (f32At t i) (f32At t i + 4) ⊆ S :=
  fun a ha => h.covers a ((h.f32Array hd).covers hlo hhi ha)

/-- The byte of an element. -/
theorem Operand.byte (hd : t.dtype = .int8) {i : Int} (hlo : 0 ≤ i)
    (hhi : i < t.shape.dims.prod) : Set.Ico (i8At t i) (i8At t i + 1) ⊆ S := by
  have hbits : hbiDtypeBits t.dtype = 8 * 1 := by
    rw [hd]
    rfl
  obtain ⟨bytes, -, hmul, hle⟩ := h.valid.packed_bytes h.contiguous_eq hbits
  rintro a ⟨hfirst, hlast⟩
  unfold i8At at hfirst hlast
  exact h.covers a ⟨by omega, by push_cast at hmul; omega⟩

/-- The first cells of the buffer. -/
theorem Operand.buffer {n : Nat} (hn : n ≤ t.nbytes) : Set.Ico t.data (t.data + n) ⊆ S := by
  rintro a ⟨hlo, hhi⟩
  exact h.covers a ⟨hlo, by omega⟩

theorem Operand.count_lt {i : Nat} (hi : i < elemCount t) : (i : Int) < t.shape.dims.prod := by
  rw [elemCount, h.valid.laid.shape_valid.elemCount] at hi
  have hcount : i < t.shape.dims.prod.toNat := hi
  omega

end Cells

theorem requireOutputs_ok {what : String} {i : Nat} {outputs : List (Option Tensor)}
    (h : requireOutputs what i outputs = .ok ()) {t : Tensor} (ht : some t ∈ outputs) :
    t.readOnly = false := by
  induction outputs generalizing i with
  | nil => cases ht
  | cons o rest ih =>
      cases o with
      | none => exact absurd h (errSet_ne_ok _ _ _)
      | some u =>
          rw [requireOutputs, Result.ite_errSet_eq_ok, Bool.not_eq_true] at h
          rcases List.mem_cons.mp ht with heq | hmem
          · cases heq
            exact h.1
          · exact ih h.2 hmem

theorem requireArity_ok {args : KernelArgs} {ni no : Nat} {what : String}
    (h : requireArity args ni no what = .ok ()) :
    args.inputs.length = ni ∧ args.outputs.length = no ∧
      ∀ t, some t ∈ args.outputs → t.readOnly = false := by
  simp only [requireArity, Result.ite_errSet_eq_ok, Result.bind_eq_ok, not_or, not_not] at h
  obtain ⟨⟨hin, hout⟩, ⟨⟩, -, hwrite⟩ := h
  exact ⟨hin, hout, fun t ht => requireOutputs_ok hwrite ht⟩

/-- A valid shape of two axes, with its dimensions as loop bounds. -/
theorem Shape.Valid.two_dims {s : Shape} (h : s.Valid) (hrank : s.rank = 2) :
    ∃ m n : Nat, s = ⟨[(m : Int), (n : Int)]⟩ := by
  obtain ⟨x, y, hdims⟩ := List.length_eq_two.mp hrank
  have hpos := h.dims_pos
  rw [hdims] at hpos
  have hx := hpos x (by simp)
  have hy := hpos y (by simp)
  refine ⟨x.toNat, y.toNat, ?_⟩
  rw [Int.toNat_of_nonneg hx.le, Int.toNat_of_nonneg hy.le, ← hdims]

theorem Shape.Valid.three_dims {s : Shape} (h : s.Valid) (hrank : s.rank = 3) :
    ∃ b m n : Nat, s = ⟨[(b : Int), (m : Int), (n : Int)]⟩ := by
  obtain ⟨x, y, z, hdims⟩ := List.length_eq_three.mp hrank
  have hpos := h.dims_pos
  rw [hdims] at hpos
  have hx := hpos x (by simp)
  have hy := hpos y (by simp)
  have hz := hpos z (by simp)
  refine ⟨x.toNat, y.toNat, z.toNat, ?_⟩
  rw [Int.toNat_of_nonneg hx.le, Int.toNat_of_nonneg hy.le, Int.toNat_of_nonneg hz.le, ← hdims]

theorem hbiShapeEqual_eq_true {a b : Shape} : hbiShapeEqual a b = true ↔ a = b := by
  rw [hbiShapeEqual, beq_iff_eq]
  exact ⟨fun h => congrArg Shape.mk h, fun h => congrArg Shape.dims h⟩

section Bodies

variable {F : Type} (ops : KernelFloat F) {args : KernelArgs} (ws : KernelWorkspace)
  (hvalid : args.Valid)

include hvalid

theorem cpuCopy_within (h : cpuCopyRun args ws = .ok ()) :
    (cpuBody ops args .copy).Within args.inputBytes args.outputBytes := by
  simp only [cpuCopyRun, Result.bind_eq_ok, Result.ite_errSet_eq_ok, requireContiguous_eq_ok] at h
  obtain ⟨⟨⟩, _, input, ⟨hin, hinc, -⟩, out, ⟨hout, houtc, -⟩, -, -, hle, -⟩ := h
  simp only [cpuBody, unaryBody, hin, hout]
  exact within_copy ((hvalid.operand_input hin hinc).buffer le_rfl)
    ((hvalid.operand_output hout houtc).buffer (not_lt.mp hle))

theorem cpuFill_within (h : cpuFillRun args ws = .ok ()) :
    (cpuBody ops args .fill).Within args.inputBytes args.outputBytes := by
  simp only [cpuFillRun, Result.bind_eq_ok, requireContiguous_eq_ok] at h
  obtain ⟨⟨⟩, _, out, ⟨hout, houtc, -⟩, -⟩ := h
  have hop := hvalid.operand_output hout houtc
  simp only [cpuBody, hout, cpuFillBody]
  split
  case h_1 hdtype =>
    apply within_each
    intro i hi
    exact within_store (hop.word hdtype (Int.natCast_nonneg i) (hop.count_lt hi))
  case h_2 hdtype =>
    apply within_each
    intro i hi
    exact within_storeByte (hop.byte hdtype (Int.natCast_nonneg i) (hop.count_lt hi))
  case h_3 => exact within_pure ()

theorem cpuElementwise_within (h : cpuElementwiseRun args ws = .ok ()) :
    (cpuBody ops args .elementwise).Within args.inputBytes args.outputBytes := by
  simp only [cpuElementwiseRun, Result.bind_eq_ok, Result.ite_errSet_eq_ok,
    requireContiguous_eq_ok, not_or, not_not, Bool.not_eq_false, hbiShapeEqual_eq_true] at h
  obtain ⟨⟨⟩, _, a, ⟨ha, hac, -⟩, b, ⟨hb, hbc, -⟩, c, ⟨hc, hcc, -⟩, ⟨hda, hdb, hdc⟩,
    ⟨hsb, hsc⟩, -⟩ := h
  have hopa := hvalid.operand_input ha hac
  have hopb := hvalid.operand_input hb hbc
  have hopc := hvalid.operand_output hc hcc
  have hloop : ∀ op : F → F → F,
      (elementwiseLoop op a b c).Within args.inputBytes args.outputBytes := by
    intro op
    apply within_each
    intro i hi
    have hlo := Int.natCast_nonneg i
    have hlt := hopa.count_lt hi
    apply (within_load (hopa.word hda hlo hlt)).bind
    intro x
    apply (within_load (hopb.word hdb hlo (hsb ▸ hlt))).bind
    intro y
    exact within_store (hopc.word hdc hlo (hsc ▸ hlt))
  simp only [cpuBody, binaryBody, ha, hb, hc, cpuElementwiseBody]
  split
  · exact hloop ops.add
  · exact hloop ops.mul
  · exact within_pure ()

theorem cpuTranspose_within (h : cpuTransposeRun args ws = .ok ()) :
    (cpuBody ops args .transpose).Within args.inputBytes args.outputBytes := by
  simp only [cpuTransposeRun, Result.bind_eq_ok, Result.ite_errSet_eq_ok,
    requireContiguous_eq_ok, not_or, not_not, not_le, Bool.not_eq_false,
    hbiShapeEqual_eq_true] at h
  obtain ⟨⟨⟩, harity, input, ⟨hin, hinc, -⟩, out, ⟨hout, houtc, -⟩, ⟨hdin, hdout⟩,
    ⟨haxa, haxb⟩, hshape, -⟩ := h
  have hopin := hvalid.operand_input hin hinc
  have hopout := hvalid.operand_output hout houtc
  have hcall : TransposeCall args.params input out :=
    ⟨hopin.f32Array hdin, hopout.f32Array hdout, haxa, haxb, hshape.symm,
      (requireArity_ok harity).2.2 out (KernelArgs.mem_of_output hout)⟩
  simp only [cpuBody, unaryBody, hin, hout]
  rw [hcall.body_eq]
  apply within_each
  intro i hi
  have hrange := hcall.rank_range hi
  apply (within_load (hopin.word hdin (Int.natCast_nonneg i) (hopin.count_lt hi))).bind
  intro x
  exact within_store (hopout.word hdout hrange.1 hrange.2)

omit hvalid in
/-- The loops of a product stay on the words of the entries. -/
theorem within_matmulLoops {R W : Set Int} {pa pb pc : Int} {m k n : Nat}
    (hA : ∀ i < m, ∀ l < k, Set.Ico (entryAt pa k i l) (entryAt pa k i l + 4) ⊆ R)
    (hB : ∀ l < k, ∀ j < n, Set.Ico (entryAt pb n l j) (entryAt pb n l j + 4) ⊆ R)
    (hC : ∀ i < m, ∀ j < n, Set.Ico (entryAt pc n i j) (entryAt pc n i j + 4) ⊆ W) :
    (matmulLoops ops pa pb pc m k n).Within R W := by
  apply within_each
  intro i hi
  apply within_each
  intro j hj
  apply Prog.Within.bind
  · apply within_loop
    intro l hl acc
    apply (within_load (hA i hi l hl)).bind
    intro x
    apply (within_load (hB l hl j hj)).bind
    exact fun y => within_pure _
  · exact fun acc => within_store (hC i hi j hj)

omit hvalid in
/-- The words of a matrix. -/
theorem Operand.entry {t : Tensor} {S : Set Int} (h : Operand t S) {m n : Nat}
    (ht : t.IsMatrix m n) {i j : Nat} (hi : i < m) (hj : j < n) :
    Set.Ico (entryAt t.data n i j) (entryAt t.data n i j + 4) ⊆ S :=
  h.word ht.array.dtype_eq (ht.rank_range hi hj).1 (ht.rank_range hi hj).2

theorem cpuMatmul_within (h : cpuMatmulRun args ws = .ok ()) :
    (cpuBody ops args .matmul).Within args.inputBytes args.outputBytes := by
  simp only [cpuMatmulRun, Result.bind_eq_ok, Result.ite_errSet_eq_ok,
    requireContiguous_eq_ok, not_or, not_not] at h
  obtain ⟨⟨⟩, harity, a, ⟨ha, hac, -⟩, b, ⟨hb, hbc, -⟩, c, ⟨hc, hcc, -⟩, ⟨hda, hdb, hdc⟩,
    ⟨hra, hrb, hrc⟩, hinner, ⟨hrows, hcols⟩, -⟩ := h
  have hopa := hvalid.operand_input ha hac
  have hopb := hvalid.operand_input hb hbc
  have hopc := hvalid.operand_output hc hcc
  obtain ⟨m, k, hsa⟩ := hopa.valid.laid.shape_valid.two_dims hra
  obtain ⟨k', n, hsb⟩ := hopb.valid.laid.shape_valid.two_dims hrb
  obtain ⟨m', n', hsc⟩ := hopc.valid.laid.shape_valid.two_dims hrc
  rw [hsa, hsb] at hinner
  rw [hsa, hsc] at hrows
  rw [hsb, hsc] at hcols
  obtain rfl : k' = k := Int.ofNat.inj hinner
  obtain rfl : m' = m := Int.ofNat.inj hrows
  obtain rfl : n' = n := Int.ofNat.inj hcols
  have hcall : MatmulCall a b c m' k' n' :=
    ⟨⟨hopa.f32Array hda, hsa⟩, ⟨hopb.f32Array hdb, hsb⟩, ⟨hopc.f32Array hdc, hsc⟩,
      (requireArity_ok harity).2.2 c (KernelArgs.mem_of_output hc)⟩
  simp only [cpuBody, binaryBody, ha, hb, hc]
  rw [hcall.body_eq]
  apply within_matmulLoops
  · exact fun i hi l hl => hopa.entry hcall.left hi hl
  · exact fun l hl j hj => hopb.entry hcall.right hl hj
  · exact fun i hi j hj => hopc.entry hcall.result hi hj

omit hvalid in
/-- The words of a matrix of a batch. -/
theorem Operand.batchEntry {t : Tensor} {S : Set Int} (h : Operand t S) (hd : t.dtype = .fp32)
    {nb m n : Nat} (hshape : t.shape = ⟨[(nb : Int), (m : Int), (n : Int)]⟩) {i p q : Nat}
    (hi : i < nb) (hp : p < m) (hq : q < n) :
    Set.Ico (entryAt (f32At t ((i * m * n : Nat) : Int)) n p q)
      (entryAt (f32At t ((i * m * n : Nat) : Int)) n p q + 4) ⊆ S := by
  rw [entryAt_part]
  have hlt := rank_lt (rank_lt hq hp) hi
  apply h.word hd (Int.natCast_nonneg _)
  rw [hshape]
  have hprod : ([(nb : Int), (m : Int), (n : Int)] : List Int).prod =
      ((nb * (m * n) : Nat) : Int) := by simp
  rw [hprod]
  exact Int.ofNat_lt.mpr hlt

theorem cpuBatchedMatmul_within (h : cpuBatchedMatmulRun args ws = .ok ()) :
    (cpuBody ops args .batchedMatmul).Within args.inputBytes args.outputBytes := by
  simp only [cpuBatchedMatmulRun, Result.bind_eq_ok, Result.ite_errSet_eq_ok,
    requireContiguous_eq_ok, not_or, not_not] at h
  obtain ⟨⟨⟩, -, a, ⟨ha, hac, -⟩, b, ⟨hb, hbc, -⟩, c, ⟨hc, hcc, -⟩, ⟨hda, hdb, hdc⟩,
    ⟨hra, hrb, hrc⟩, ⟨hbb, hbc'⟩, hinner, ⟨hrows, hcols⟩, -⟩ := h
  have hopa := hvalid.operand_input ha hac
  have hopb := hvalid.operand_input hb hbc
  have hopc := hvalid.operand_output hc hcc
  obtain ⟨nb, m, k, hsa⟩ := hopa.valid.laid.shape_valid.three_dims hra
  obtain ⟨nb', k', n, hsb⟩ := hopb.valid.laid.shape_valid.three_dims hrb
  obtain ⟨nb'', m', n', hsc⟩ := hopc.valid.laid.shape_valid.three_dims hrc
  rw [hsa, hsb] at hbb hinner
  rw [hsa, hsc] at hbc' hrows
  rw [hsb, hsc] at hcols
  obtain rfl : nb' = nb := Int.ofNat.inj hbb
  obtain rfl : nb'' = nb' := Int.ofNat.inj hbc'
  obtain rfl : k' = k := Int.ofNat.inj hinner
  obtain rfl : m' = m := Int.ofNat.inj hrows
  obtain rfl : n' = n := Int.ofNat.inj hcols
  simp only [cpuBody, binaryBody, ha, hb, hc, cpuBatchedMatmulBody, Tensor.dim, hsa, hsb]
  apply within_each
  intro i hi
  apply within_matmulLoops
  · exact fun p hp l hl => hopa.batchEntry hda hsa hi hp hl
  · exact fun l hl q hq => hopb.batchEntry hdb hsb hi hl hq
  · exact fun p hp q hq => hopc.batchEntry hdc hsc hi hp hq

/-- The last loop of the softmax reads back what the loop before it has written. -/
theorem cpuSoftmax_stays (h : cpuSoftmaxRun args ws = .ok ()) (own : Set Int) :
    (cpuBody ops args .softmax).Stays args.inputBytes args.outputBytes args.outputBytes own
      fun _ _ => True := by
  simp only [cpuSoftmaxRun, Result.bind_eq_ok, Result.ite_errSet_eq_ok,
    requireContiguous_eq_ok, not_or, not_not, Bool.not_eq_false, hbiShapeEqual_eq_true] at h
  obtain ⟨⟨⟩, -, input, ⟨hin, hinc, -⟩, out, ⟨hout, houtc, -⟩, ⟨hdin, hdout⟩, hshape, -⟩ := h
  have hopin := hvalid.operand_input hin hinc
  have hopout := hvalid.operand_output hout houtc
  have hread : ∀ i < elemCount input,
      Set.Ico (f32At input i) (f32At input i + 4) ⊆ args.inputBytes := fun i hi =>
    hopin.word hdin (Int.natCast_nonneg i) (hopin.count_lt hi)
  have hword : ∀ i < elemCount input,
      Set.Ico (f32At out i) (f32At out i + 4) ⊆ args.outputBytes := fun i hi =>
    hopout.word hdout (Int.natCast_nonneg i) (hshape ▸ hopin.count_lt hi)
  simp only [cpuBody, unaryBody, hin, hout, cpuSoftmaxBody]
  split
  · exact stays_pure trivial
  · apply stays_load ((hread 0 (by omega)).trans Set.subset_union_left)
    intro first
    apply Prog.Stays.bind
    have hmax : ∀ first, (loop (elemCount input - 1) first fun i maxVal => do
        let x ← load (f32At input (i + 1))
        return if ops.lt maxVal x then x else maxVal : Prog F F).Within args.inputBytes
          args.outputBytes := by
      intro first
      apply within_loop
      intro i hi maxVal
      exact (within_load (hread (i + 1) (by omega))).bind fun x => within_pure _
    apply (hmax first _ own).mono
    intro maxVal own₂ _
    apply Prog.Stays.bind
    apply (stays_loop (fun i own => ∀ j < i, Set.Ico (f32At out (j : Nat))
      (f32At out (j : Nat) + 4) ⊆ own) (fun j hj => absurd hj (Nat.not_lt_zero j)) _).mono
    · intro sum own₃ hown₃
      apply (stays_loop (fun _ own => ∀ j < elemCount input, Set.Ico (f32At out (j : Nat))
        (f32At out (j : Nat) + 4) ⊆ own) hown₃ _).mono fun _ _ _ => trivial
      intro i hi _ own₄ hown₄
      apply stays_load (Set.subset_union_of_subset_right
        (Set.subset_inter (hword i hi) (hown₄ i hi)) _)
      intro y
      exact stays_store (hword i hi) fun j hj => (hown₄ j hj).trans Set.subset_union_left
    · intro i hi sum own₃ hown₃
      apply stays_load ((hread i hi).trans Set.subset_union_left)
      intro x
      apply Prog.Stays.bind
      apply stays_store (hword i hi)
      apply stays_pure
      intro j hj
      rcases Nat.lt_succ_iff_lt_or_eq.mp hj with hlt | rfl
      · exact (hown₃ j hlt).trans Set.subset_union_left
      · exact Set.subset_union_right

theorem cpuRope_within (h : cpuRopeRun args ws = .ok ()) :
    (cpuBody ops args .rope).Within args.inputBytes args.outputBytes := by
  simp only [cpuRopeRun, Result.bind_eq_ok, Result.ite_errSet_eq_ok, requireContiguous_eq_ok,
    not_or, not_not, Bool.not_eq_false, hbiShapeEqual_eq_true] at h
  obtain ⟨⟨⟩, -, input, ⟨hin, hinc, -⟩, out, ⟨hout, houtc, -⟩, ⟨hdin, hdout⟩, hshape, hrank,
    heven, -⟩ := h
  have hopin := hvalid.operand_input hin hinc
  have hopout := hvalid.operand_output hout houtc
  obtain ⟨seqLen, numHeads, headDim, hs⟩ := hopin.valid.laid.shape_valid.three_dims hrank
  rw [hs] at heven
  have hdim : headDim % 2 = 0 := by
    have hcast : (headDim : Int) % 2 = 0 := heven
    omega
  have hprod : input.shape.dims.prod = ((seqLen * (numHeads * headDim) : Nat) : Int) := by
    rw [hs]
    simp
  have hword : ∀ {t : Tensor} {S : Set Int}, Operand t S → t.dtype = .fp32 →
      t.shape = input.shape → ∀ s < seqLen, ∀ g < numHeads, ∀ j < headDim,
        Set.Ico (headAt t numHeads headDim s g + 4 * (j : Int))
          (headAt t numHeads headDim s g + 4 * (j : Int) + 4) ⊆ S := by
    intro t S hop hd hshape s hs g hg j hj
    rw [headAt_word]
    apply hop.word hd (Int.natCast_nonneg _)
    rw [hshape, hprod]
    exact Int.ofNat_lt.mpr (rank_lt (rank_lt hj hg) hs)
  simp only [cpuBody, unaryBody, hin, hout, cpuRopeBody, Tensor.dim, hs]
  apply within_each
  intro s hs
  apply within_each
  intro g hg
  apply within_each
  intro i hi
  have hfirst : 2 * i < headDim := by
    have : i < (headDim + 1) / 2 := hi
    omega
  have hsecond : 2 * i + 1 < headDim := by omega
  apply (within_load (hword hopin hdin rfl s hs g hg _ hfirst)).bind
  intro x0
  apply (within_load (hword hopin hdin rfl s hs g hg _ hsecond)).bind
  intro x1
  apply (within_store (hword hopout hdout hshape.symm s hs g hg _ hfirst)).bind
  exact fun _ => within_store (hword hopout hdout hshape.symm s hs g hg _ hsecond)

theorem cpuActivation_within (h : cpuActivationRun args ws = .ok ()) :
    (cpuBody ops args .activation).Within args.inputBytes args.outputBytes := by
  simp only [cpuActivationRun, Result.bind_eq_ok, Result.ite_errSet_eq_ok,
    requireContiguous_eq_ok, not_or, not_not, Bool.not_eq_false, hbiShapeEqual_eq_true] at h
  obtain ⟨⟨⟩, _, input, ⟨hin, hinc, -⟩, out, ⟨hout, houtc, -⟩, ⟨hdin, hdout⟩, hshape, -⟩ := h
  have hopin := hvalid.operand_input hin hinc
  have hopout := hvalid.operand_output hout houtc
  have hloop : ∀ act : F → F,
      (activationLoop act input out).Within args.inputBytes args.outputBytes := by
    intro act
    apply within_each
    intro i hi
    have hlo := Int.natCast_nonneg i
    have hlt := hopin.count_lt hi
    apply (within_load (hopin.word hdin hlo hlt)).bind
    intro x
    exact within_store (hopout.word hdout hlo (hshape ▸ hlt))
  simp only [cpuBody, unaryBody, hin, hout, cpuActivationBody]
  split
  · exact hloop _
  · exact hloop _
  · exact hloop _
  · exact within_pure ()

theorem cpuRmsnorm_within (h : cpuRmsnormRun args ws = .ok ()) :
    (cpuBody ops args .rmsnorm).Within args.inputBytes args.outputBytes := by
  simp only [cpuRmsnormRun, Result.bind_eq_ok, Result.ite_errSet_eq_ok,
    requireContiguous_eq_ok, not_or, not_not, Bool.not_eq_false, hbiShapeEqual_eq_true] at h
  obtain ⟨⟨⟩, _, x, ⟨hx, hxc, -⟩, weight, ⟨hw, hwc, -⟩, out, ⟨hout, houtc, -⟩,
    ⟨hdx, hdw, hdout⟩, ⟨hsw, hsout⟩, -⟩ := h
  have hopx := hvalid.operand_input hx hxc
  have hopw := hvalid.operand_input hw hwc
  have hopout := hvalid.operand_output hout houtc
  simp only [cpuBody, binaryBody, hx, hw, hout, cpuRmsnormBody]
  split
  · exact within_pure ()
  · apply Prog.Within.bind
    · apply within_loop
      intro i hi sumSq
      apply (within_load (hopx.word hdx (Int.natCast_nonneg i) (hopx.count_lt hi))).bind
      exact fun v => within_pure _
    · intro sumSq
      apply within_each
      intro i hi
      have hlo := Int.natCast_nonneg i
      have hlt := hopx.count_lt hi
      apply (within_load (hopx.word hdx hlo hlt)).bind
      intro v
      apply (within_load (hopw.word hdw hlo (hsw ▸ hlt))).bind
      intro w
      exact within_store (hopout.word hdout hlo (hsout ▸ hlt))

theorem cpuReduce_within (h : cpuReduceRun args ws = .ok ()) :
    (cpuBody ops args .reduce).Within args.inputBytes args.outputBytes := by
  simp only [cpuReduceRun, Result.bind_eq_ok, Result.ite_errSet_eq_ok,
    requireContiguous_eq_ok, not_or, not_not] at h
  obtain ⟨⟨⟩, _, input, ⟨hin, hinc, -⟩, out, ⟨hout, houtc, -⟩, ⟨hdin, hdout⟩, n, hn, -⟩ := h
  have hopin := hvalid.operand_input hin hinc
  have hopout := hvalid.operand_output hout houtc
  have hstore : ∀ x : F,
      (store (f32At out 0) x).Within args.inputBytes args.outputBytes := fun x =>
    within_store (hopout.word hdout le_rfl hopout.valid.laid.shape_valid.prod_pos)
  simp only [cpuBody, unaryBody, hin, hout, cpuReduceBody]
  split
  · exact hstore _
  · split
    · apply Prog.Within.bind _ hstore
      apply within_loop
      intro i hi sum
      apply (within_load (hopin.word hdin (Int.natCast_nonneg i) (hopin.count_lt hi))).bind
      exact fun x => within_pure _
    · apply (within_load (hopin.word hdin le_rfl hopin.valid.laid.shape_valid.prod_pos)).bind
      intro first
      apply Prog.Within.bind _ hstore
      apply within_loop
      intro i hi maxVal
      have hlt := @Operand.count_lt _ _ hopin (i + 1) (by omega)
      apply (within_load (hopin.word hdin (by omega) (by exact_mod_cast hlt))).bind
      exact fun x => within_pure _
    · exact within_pure ()

end Bodies

/-- A cast that casts nothing, from a buffer that is longer than the one it goes to. -/
structure SlackCast (k : Kernel) (args : KernelArgs) (input out : Tensor) : Prop where
  op_eq : k.op = .cast
  inputs_eq : args.inputs = [some input]
  outputs_eq : args.outputs = [some out]
  writable : out.readOnly = false
  input_contiguous : input.contiguous = true
  out_contiguous : out.contiguous = true
  dtype_eq : input.dtype = out.dtype
  target_eq : out.dtype = args.params.castTarget
  dtype_mem : input.dtype = .fp32 ∨ input.dtype = .int8
  shape_eq : input.shape = out.shape
  nbytes_lt : out.nbytes < input.nbytes

/-- The entry of the cast kernel in the table of the backend. -/
def cpuCast : Kernel := cpuKernel .cast "cpu.cast" kByteDtypes cpuCastRun

section Cast

variable {F : Type} (ops : KernelFloat F) {args : KernelArgs} (ws : KernelWorkspace)
  (hvalid : args.Valid)

include hvalid

theorem cpuCast_within (h : cpuCastRun args ws = .ok ())
    (hslack : ¬ ∃ input out, SlackCast cpuCast args input out) :
    (cpuBody ops args .cast).Within args.inputBytes args.outputBytes := by
  simp only [cpuCastRun, Result.bind_eq_ok, Result.ite_errSet_eq_ok, requireContiguous_eq_ok,
    not_not, Bool.not_eq_false, hbiShapeEqual_eq_true] at h
  obtain ⟨⟨⟩, harity, input, ⟨hin, hinc, -⟩, out, ⟨hout, houtc, -⟩, htarget, hshape, n, -, h⟩ := h
  have hopin := hvalid.operand_input hin hinc
  have hopout := hvalid.operand_output hout houtc
  simp only [cpuBody, unaryBody, hin, hout, cpuCastBody]
  split
  case isTrue hdt =>
    apply within_each
    intro i hi
    have hlt := hopin.count_lt hi
    apply (within_load (hopin.word hdt.1 (Int.natCast_nonneg i) hlt)).bind
    intro x
    exact within_storeByte (hopout.byte hdt.2 (Int.natCast_nonneg i) (hshape ▸ hlt))
  case isFalse hdt =>
    split
    case isTrue hdt' =>
      apply within_each
      intro i hi
      have hlt := hopin.count_lt hi
      apply (within_loadByte (hopin.byte hdt'.1 (Int.natCast_nonneg i) hlt)).bind
      intro b
      exact within_store (hopout.word hdt'.2 (Int.natCast_nonneg i) (hshape ▸ hlt))
    case isFalse hdt' =>
      rw [if_neg hdt, if_neg hdt'] at h
      split at h
      case isTrue hsame =>
        obtain ⟨hni, hno, hwrite⟩ := requireArity_ok harity
        obtain ⟨x, hinputs⟩ := List.length_eq_one_iff.mp hni
        obtain ⟨y, houtputs⟩ := List.length_eq_one_iff.mp hno
        have hx : x = some input := by simpa [KernelArgs.input, hinputs] using hin
        have hy : y = some out := by simpa [KernelArgs.output, houtputs] using hout
        have hle : input.nbytes ≤ out.nbytes := by
          by_contra hlt
          exact hslack ⟨input, out, rfl, hx ▸ hinputs, hy ▸ houtputs,
            hwrite out (KernelArgs.mem_of_output hout), hinc, houtc, hsame.1, htarget, hsame.2,
            hshape, not_le.mp hlt⟩
        exact within_copy (hopin.buffer le_rfl) (hopout.buffer hle)
      case isFalse => exact absurd h (errSet_ne_ok _ _ _)

end Cast

section Slack

variable {args : KernelArgs} {k : Kernel} {input out : Tensor}
  (h : SlackCast k args input out)

include h

theorem SlackCast.operands : args.input 0 = some input ∧ args.output 0 = some out := by
  simp [KernelArgs.input, KernelArgs.output, h.inputs_eq, h.outputs_eq]

/-- Such a cast takes none of the branches that convert. -/
theorem SlackCast.branches : ¬ (input.dtype = .fp32 ∧ out.dtype = .int8) ∧
    ¬ (input.dtype = .int8 ∧ out.dtype = .fp32) := by
  rw [← h.dtype_eq]
  rcases h.dtype_mem with hd | hd <;> simp [hd]

/-- It passes all checks. -/
theorem SlackCast.run_eq (hvalid : args.Valid) (ws : KernelWorkspace) :
    cpuCastRun args ws = .ok () := by
  have hin := Tensor.valid_of_validate (hvalid input (Or.inl (by simp [h.inputs_eq])))
  have hout := Tensor.valid_of_validate (hvalid out (Or.inr (by simp [h.outputs_eq])))
  have hsame : input.dtype = out.dtype ∧ (input.dtype = .fp32 ∨ input.dtype = .int8) :=
    ⟨h.dtype_eq, h.dtype_mem⟩
  simp only [cpuCastRun, requireArity, requireInputs, requireOutputs, h.inputs_eq, h.outputs_eq,
    h.operands.1, h.operands.2, h.writable, h.target_eq.symm, Result.bind_eq_ok,
    Result.ite_errSet_eq_ok, requireContiguous_eq_ok]
  refine ⟨(), ⟨by simp, (), trivial, by simp⟩, input, ⟨rfl, h.input_contiguous, hin.data_ne⟩, out,
    ⟨rfl, h.out_contiguous, hout.data_ne⟩, by simp, by simp [hbiShapeEqual, h.shape_eq], _,
    hin.laid.shape_valid.elemCount, ?_⟩
  rw [if_neg h.branches.1, if_neg h.branches.2, if_pos hsame]

theorem SlackCast.body_eq {F : Type} (ops : KernelFloat F) :
    cpuBody ops args .cast = copy out.data input.data input.nbytes := by
  simp only [cpuBody, unaryBody, h.operands.1, h.operands.2, cpuCastBody]
  rw [if_neg h.branches.1, if_neg h.branches.2]

end Slack

/-- The kernels of the table, by their operations. -/
theorem kCpuKernels_cast {k : Kernel} (hk : k ∈ kCpuKernels) (hop : k.op = .cast) :
    k = cpuCast := by
  simp only [kCpuKernels, List.mem_cons, List.not_mem_nil, or_false] at hk
  rcases hk with rfl | rfl | rfl | rfl | rfl | rfl | rfl | rfl | rfl | rfl | rfl | rfl
  case inr.inr.inl => rfl
  all_goals cases hop

/-- Where a kernel may read back what it has written: in the output of the softmax. -/
def KernelArgs.readBack (args : KernelArgs) (op : KernelOp) : Set Int :=
  if op = .softmax then args.outputBytes else ∅

/-- After its checks, a kernel stays inside its buffers, such casts apart. -/
theorem cpuBody_stays {F : Type} (ops : KernelFloat F) {args : KernelArgs} {ws : KernelWorkspace}
    {k : Kernel} (hk : k ∈ kCpuKernels) (hvalid : args.Valid) (h : k.run args ws = .ok ())
    (hslack : ¬ ∃ input out, SlackCast k args input out) :
    (cpuBody ops args k.op).Stays args.inputBytes args.outputBytes (args.readBack k.op) ∅
      fun _ _ => True := by
  simp only [kCpuKernels, List.mem_cons, List.not_mem_nil, or_false] at hk
  rcases hk with rfl | rfl | rfl | rfl | rfl | rfl | rfl | rfl | rfl | rfl | rfl | rfl
  · exact cpuCopy_within ops ws hvalid h _ _
  · exact cpuFill_within ops ws hvalid h _ _
  · exact cpuCast_within ops ws hvalid h hslack _ _
  · exact cpuElementwise_within ops ws hvalid h _ _
  · exact cpuTranspose_within ops ws hvalid h _ _
  · exact cpuMatmul_within ops ws hvalid h _ _
  · exact cpuSoftmax_stays ops ws hvalid h _
  · exact cpuRmsnorm_within ops ws hvalid h _ _
  · exact cpuRope_within ops ws hvalid h _ _
  · exact cpuActivation_within ops ws hvalid h _ _
  · exact cpuBatchedMatmul_within ops ws hvalid h _ _
  · exact cpuReduce_within ops ws hvalid h _ _

/-- From any memory: the writes of the call lie in the buffers of its outputs and its reads in
those of its inputs, apart from what it reads back; and a call that fails changes nothing. -/
def KernelInside (ops : KernelFloat F32) (k : Kernel) (args : KernelArgs)
    (ws : KernelWorkspace) : Prop :=
  ∀ m : Memory,
    Inside args.inputBytes args.outputBytes (args.readBack k.op) ∅
        (cpuTrace ops byteMachine k args ws m) ∧
      ((cpuRun ops byteMachine k args ws m).1 ≠ .ok () →
        (cpuRun ops byteMachine k args ws m).2 = m)

theorem SlackCast.outside {ops : KernelFloat F32} {args : KernelArgs} {ws : KernelWorkspace}
    {k : Kernel} {input out : Tensor} (hk : k ∈ kCpuKernels) (hvalid : args.Valid)
    (h : SlackCast k args input out) : ¬ KernelInside ops k args ws := by
  intro hinside
  obtain ⟨hin, -⟩ := hinside fun _ => 0
  obtain rfl := kCpuKernels_cast hk h.op_eq
  have hrun : cpuCast.run args ws = .ok () := h.run_eq hvalid ws
  have htrace : cpuTrace ops byteMachine cpuCast args ws (fun _ => 0) =
      [.read input.data input.nbytes, .write out.data input.nbytes] := by
    have hbody : cpuBody ops args cpuCast.op = _ := h.body_eq ops
    rw [cpuTrace, hrun, hbody]
    rfl
  rw [htrace] at hin
  obtain ⟨t, ht, hcovers⟩ := hin.2.1 (show out.data + out.nbytes ∈ _ from
    ⟨by omega, by have := h.nbytes_lt; omega⟩)
  rw [h.outputs_eq, List.mem_singleton, Option.some.injEq] at ht
  subst ht
  exact absurd hcovers.2 (lt_irrefl _)

/-- A reference kernel on validated operands stays inside their buffers, and fails without a
trace, exactly when the call is no cast to the same type from the longer buffer. -/
theorem kernel_inside_iff {k : Kernel} (hk : k ∈ kCpuKernels) {args : KernelArgs}
    (hvalid : args.Valid) (ops : KernelFloat F32) (ws : KernelWorkspace) :
    KernelInside ops k args ws ↔ ¬ ∃ input out, SlackCast k args input out := by
  constructor
  · rintro hinside ⟨input, out, hslack⟩
    exact hslack.outside hk hvalid hinside
  · intro hslack m
    unfold cpuTrace cpuRun
    cases hrun : k.run args ws with
    | error e => exact ⟨trivial, fun _ => rfl⟩
    | ok u => exact ⟨(cpuBody_stays ops hk hvalid hrun hslack).inside _ _,
        fun hne => absurd rfl hne⟩

/-- A copy from a source with slack into a buffer that holds it. -/
theorem kernel_inside_of_copy :
    ∃ input out : Tensor, hbiTensorWrap .int8 ⟨[2]⟩ 64 4 = .ok input ∧
      hbiTensorWrap .int8 ⟨[2]⟩ 128 4 = .ok out ∧
      ∀ ops : KernelFloat F32, KernelInside ops
        (cpuKernel .copy "cpu.copy" kByteDtypes cpuCopyRun)
        ⟨[some input], [some out], KernelParams.zero⟩ KernelWorkspace.empty := by
  refine ⟨_, _, rfl, rfl, fun ops => (kernel_inside_iff (by simp [kCpuKernels]) ?_ ops _).mpr ?_⟩
  · rintro t (ht | ht)
    all_goals
      rw [List.mem_singleton, Option.some.injEq] at ht
      subst ht
      decide +kernel
  · rintro ⟨_, _, hslack⟩
    cases hslack.op_eq

/-- A cast to the same type whose output has two bytes and whose input four. -/
theorem cast_writes_past_output :
    ∃ input out : Tensor, hbiTensorWrap .int8 ⟨[2]⟩ 64 4 = .ok input ∧
      hbiTensorWrap .int8 ⟨[2]⟩ 128 2 = .ok out ∧
      cpuCast ∈ kCpuKernels ∧ hbiTensorValidate input = .ok () ∧ hbiTensorValidate out = .ok () ∧
      ∀ ops : KernelFloat F32, ¬ KernelInside ops cpuCast
        ⟨[some input], [some out], ⟨.int8, 0, 0⟩⟩ KernelWorkspace.empty := by
  refine ⟨_, _, rfl, rfl, by simp [kCpuKernels, cpuCast], ?_, ?_, fun ops => SlackCast.outside
    (by simp [kCpuKernels, cpuCast]) ?_ ⟨rfl, rfl, rfl, rfl, rfl, rfl, rfl, rfl, Or.inr rfl, rfl,
      by decide⟩⟩
  · decide +kernel
  · decide +kernel
  · rintro t (ht | ht)
    all_goals
      rw [List.mem_singleton, Option.some.injEq] at ht
      subst ht
      decide +kernel

end Hummingbird

import Hummingbird.Adapter.Compute
import Hummingbird.Kernel.Products
import Mathlib.Algebra.Ring.Defs
import Mathlib.Tactic.Ring

/-!
The rotary embedding of the kernel beside that of the adapter. Both turn pairs of components by
the same angles; the kernel pairs neighbours, the adapter the components at the same place of
the two halves.
-/

namespace Hummingbird

open Accesses

section Rotations

variable {R : Type} [CommRing R]

/-- Neighbours are turned by the angle of their pair. -/
def rotatePairs (c s x : Nat → R) (j : Nat) : R :=
  if j % 2 = 0 then x j * c (j / 2) - x (j + 1) * s (j / 2)
  else x (j - 1) * s (j / 2) + x j * c (j / 2)

/-- Components at the same place of the two halves are turned by the angle of the place. -/
def rotateHalves (half : Nat) (c s x : Nat → R) (j : Nat) : R :=
  if j < half then x j * c j - x (j + half) * s j
  else x (j - half) * s (j - half) + x j * c (j - half)

variable {half : Nat} {c s : Nat → R}

theorem rotatePairs_congr {x y : Nat → R} {n j : Nat} (heven : n % 2 = 0)
    (hxy : ∀ k < n, x k = y k) (hj : j < n) : rotatePairs c s x j = rotatePairs c s y j := by
  unfold rotatePairs
  rw [hxy j hj, hxy (j - 1) (by omega)]
  split
  · rw [hxy (j + 1) (by omega)]
  · rfl

theorem rotateHalves_congr {x y : Nat → R} {j : Nat} (hxy : ∀ k < 2 * half, x k = y k)
    (hj : j < 2 * half) : rotateHalves half c s x j = rotateHalves half c s y j := by
  unfold rotateHalves
  rw [hxy j hj, hxy (j - half) (by omega)]
  split
  · rw [hxy (j + half) (by omega)]
  · rfl

/-- With more than one pair, the partners differ, so that nothing may pass between them. -/
theorem sin_zero_of_agree (hhalf : 2 ≤ half)
    (h : ∀ x, ∀ j < 2 * half, rotatePairs c s x j = rotateHalves half c s x j) {i : Nat}
    (hi : i < half) : s i = 0 := by
  have hcomp := h (fun j => if j = i + half then 1 else 0) i (by omega)
  have hself : half ≠ 0 := by omega
  have hnext : 1 ≠ half := by omega
  have hprev : ¬ i - 1 = i + half := by omega
  unfold rotatePairs rotateHalves at hcomp
  simpa [hi, hself, hnext, hprev] using hcomp

/-- A component keeps the same share of itself. -/
theorem cos_half_of_agree (hhalf : 2 ≤ half)
    (h : ∀ x, ∀ j < 2 * half, rotatePairs c s x j = rotateHalves half c s x j) {i : Nat}
    (hi : i < half) : c i = c (i / 2) := by
  have hcomp := h (fun j => if j = i then 1 else 0) i (by omega)
  have hother : half ≠ 0 := by omega
  unfold rotatePairs rotateHalves at hcomp
  by_cases heven : i % 2 = 0
  · simpa [hi, hother, heven, eq_comm] using hcomp
  · have hprev : ¬ i - 1 = i := by omega
    simpa [hi, hother, heven, hprev, eq_comm] using hcomp

/-- The two pairings agree on every vector when there is one pair at most, or when all angles
leave the components apart and scale them alike. -/
theorem rotations_agree_iff :
    (∀ x, ∀ j < 2 * half, rotatePairs c s x j = rotateHalves half c s x j) ↔
      half ≤ 1 ∨ ∀ i < half, s i = 0 ∧ c i = c 0 := by
  constructor
  · intro h
    rcases Nat.lt_or_ge half 2 with hlt | hhalf
    · exact Or.inl (by omega)
    · refine Or.inr fun i hi => ⟨sin_zero_of_agree hhalf h hi, ?_⟩
      induction i using Nat.strong_induction_on with
      | _ i ih =>
          rcases Nat.eq_zero_or_pos i with rfl | hpos
          · rfl
          · rw [cos_half_of_agree hhalf h hi, ih (i / 2) (by omega) (by omega)]
  · rintro (hhalf | hsame) x j hj
    · obtain rfl : half = 1 := by omega
      unfold rotatePairs rotateHalves
      rcases (by omega : j = 0 ∨ j = 1) with rfl | rfl <;> simp
    · have hpair := hsame (j / 2) (by omega)
      unfold rotatePairs rotateHalves
      rcases Nat.lt_or_ge j half with hlt | hge
      · simp [hlt, hpair, hsame j hlt]
      · have hplace := hsame (j - half) (by omega)
        simp [not_lt.mpr hge, hpair, hplace]

/-- Turning the places one after the other, each in its own two components. -/
theorem foldl_rotateHalves (x : Nat → R) {n : Nat} (hn : n ≤ half) :
    (List.range n).foldl (fun x i => Function.update
        (Function.update x i (x i * c i - x (i + half) * s i)) (i + half)
        (x i * s i + x (i + half) * c i)) x =
      fun j => if j < n ∨ (half ≤ j ∧ j < half + n) then rotateHalves half c s x j else x j := by
  induction n with
  | zero =>
      funext j
      rw [if_neg (by omega)]
      rfl
  | succ n ih =>
      rw [List.range_succ, List.foldl_append, ih (by omega)]
      funext j
      have hfirst : ¬ (n < n ∨ (half ≤ n ∧ n < half + n)) := by omega
      have hsecond : ¬ (n + half < n ∨ (half ≤ n + half ∧ n + half < half + n)) := by omega
      simp only [List.foldl_cons, List.foldl_nil, if_neg hfirst, if_neg hsecond]
      rcases eq_or_ne j (n + half) with rfl | hj
      · rw [Function.update_self, if_pos (by omega), rotateHalves, if_neg (by omega),
          Nat.add_sub_cancel]
      · rw [Function.update_of_ne hj]
        rcases eq_or_ne j n with rfl | hj'
        · rw [Function.update_self, if_pos (by omega), rotateHalves, if_pos (by omega)]
        · rw [Function.update_of_ne hj']
          by_cases hin : j < n ∨ (half ≤ j ∧ j < half + n)
          · rw [if_pos hin, if_pos (by omega)]
          · rw [if_neg hin, if_neg (by omega)]

end Rotations

/-- The arithmetic of a ring in the place of `float`. -/
def KernelFloat.overRing {R : Type} [CommRing R] (base : KernelFloat R) : KernelFloat R :=
  { base with
    add := (· + ·)
    sub := (· - ·)
    mul := (· * ·) }

/-- The adapter's `float` operations, where they are those of the kernels. -/
def FloatOps.ofKernel {F D : Type} (ops : KernelFloat F) (rest : FloatOps F D) : FloatOps F D :=
  { rest with
    zero := ops.lit 0
    one := ops.lit 1
    add := ops.add
    sub := ops.sub
    mul := ops.mul
    div := ops.div
    neg := ops.neg
    expf := ops.expf
    sqrtf := ops.sqrtf
    cosf := ops.cosf
    sinf := ops.sinf
    powf := ops.powf
    ofUint32 := fun n => ops.ofInt n
    lt := ops.lt }

/-- The angle of a pair of a head at a position. -/
def ropeFreq {F : Type} (ops : KernelFloat F) (headDim pos i : Nat) : F :=
  ops.div (ops.ofInt pos)
    (ops.powf (ops.lit 10000) (ops.div (ops.ofInt ((2 * i : Nat) : Int)) (ops.ofInt headDim)))

def ropeCos {F : Type} (ops : KernelFloat F) (headDim pos i : Nat) : F :=
  ops.cosf (ropeFreq ops headDim pos i)

def ropeSin {F : Type} (ops : KernelFloat F) (headDim pos i : Nat) : F :=
  ops.sinf (ropeFreq ops headDim pos i)

section Adapter

variable {R D : Type} [CommRing R] (base : KernelFloat R) (rest : FloatOps R D)

/-- The adapter turns the components at the same place of the two halves. -/
theorem refRopeHead_eq (x : Nat → R) (headDim pos : Nat) {j : Nat} (hj : j < 2 * (headDim / 2)) :
    refRopeHead (FloatOps.ofKernel base.overRing rest) x 0 headDim pos (base.lit 10000) j =
      rotateHalves (headDim / 2) (ropeCos base.overRing headDim pos)
        (ropeSin base.overRing headDim pos) x j := by
  have hfold := congrFun (@foldl_rotateHalves R _ (headDim / 2)
    (ropeCos base.overRing headDim pos) (ropeSin base.overRing headDim pos) x _ le_rfl) j
  rw [if_pos (by omega)] at hfold
  rw [← hfold]
  unfold refRopeHead
  simp only [Nat.zero_add]
  rfl

end Adapter

/-- The words of the components of one pair. -/
def pairAt (p : Int) (i : Nat) : Set Int :=
  {p + 4 * ((2 * i : Nat) : Int), p + 4 * ((2 * i + 1 : Nat) : Int)}

section Head

variable {R σ : Type} [CommRing R] (base : KernelFloat R) (M : Machine R σ)

/-- The loop over the pairs turns neighbours, if no turn stores over what a later one loads. -/
theorem puts_ropeHeadLoop {hin hout : Int} {headDim pos : Nat} {v : Int → R} {s : σ}
    (hread : ∀ i < 2 * ((headDim + 1) / 2), ∀ j < i,
      WordsApart (hout + 4 * (j : Int)) (hin + 4 * (i : Int)))
    (hv : ∀ j < 2 * ((headDim + 1) / 2), v (hout + 4 * (j : Int)) =
      rotatePairs (ropeCos base.overRing headDim pos) (ropeSin base.overRing headDim pos)
        (fun j => M.load s (hin + 4 * (j : Int))) j) :
    M.Puts {a | ∃ i < (headDim + 1) / 2, a ∈ pairAt hout i} v s
      (M.run (ropeHeadLoop base.overRing hin hout headDim (base.ofInt pos)) s).2 := by
  apply M.puts_each (T := pairAt hout)
  · rintro i hi j hj a (rfl | rfl) b (rfl | rfl) <;> · unfold WordsApart; omega
  · intro i hi s' hs'
    have hkept : ∀ j, 2 * i ≤ j → j < 2 * i + 2 →
        M.load s' (hin + 4 * (j : Int)) = M.load s (hin + 4 * (j : Int)) := by
      intro j hlo hhi
      apply hs'.kept
      rintro a ⟨k, hk, rfl | rfl⟩
      · exact hread j (by omega) (2 * k) (by omega)
      · exact hread j (by omega) (2 * k + 1) (by omega)
    have hfirst := hv (2 * i) (by omega)
    have hsecond := hv (2 * i + 1) (by omega)
    rw [rotatePairs, if_pos (by omega)] at hfirst
    rw [rotatePairs, if_neg (by omega)] at hsecond
    have hhalf : (2 * i + 1) / 2 = i := by omega
    have hhalf' : 2 * i / 2 = i := by omega
    rw [hhalf', ← hkept (2 * i) le_rfl (by omega), ← hkept (2 * i + 1) (by omega) (by omega)]
      at hfirst
    rw [hhalf, Nat.add_sub_cancel, ← hkept (2 * i) le_rfl (by omega),
      ← hkept (2 * i + 1) (by omega) (by omega)] at hsecond
    have hstores := (M.puts_store (v := v) (a := hout + 4 * ((2 * i : Nat) : Int)) s').trans
      (M.puts_store (a := hout + 4 * ((2 * i + 1 : Nat) : Int)) _) (by
        rintro a rfl b rfl
        unfold WordsApart
        omega)
    rw [hfirst, hsecond] at hstores
    exact hstores

end Head

/-- What the rotary kernel asks of its operands; it may work in place. -/
structure RopeCall (input out : Tensor) (seqLen numHeads headDim : Nat) : Prop where
  array : input.F32Array
  outArray : out.F32Array
  shape_eq : input.shape = ⟨[(seqLen : Int), (numHeads : Int), (headDim : Int)]⟩
  out_shape : out.shape = input.shape
  even : headDim % 2 = 0
  writable : out.readOnly = false
  separate : input.Apart out ∨ input.data = out.data

/-- The entry of the rotary kernel in the table of the backend. -/
def cpuRope : Kernel := cpuKernel .rope "cpu.rope.fp32" kFp32Only cpuRopeRun

/-- The address of the first component of a head. -/
def headAt (t : Tensor) (numHeads headDim s h : Nat) : Int :=
  f32At t ((s * (numHeads * headDim) + h * headDim : Nat) : Int)

theorem headAt_word (t : Tensor) (numHeads headDim s g j : Nat) :
    headAt t numHeads headDim s g + 4 * (j : Int) =
      t.data + 4 * ((s * (numHeads * headDim) + (g * headDim + j) : Nat) : Int) := by
  unfold headAt f32At
  push_cast
  ring

/-- The words of one head. -/
def headWords (t : Tensor) (numHeads headDim s g : Nat) : Set Int :=
  {a | ∃ i < (headDim + 1) / 2, a ∈ pairAt (headAt t numHeads headDim s g) i}

theorem mem_headWords {t : Tensor} {numHeads headDim s g : Nat} {a : Int}
    (heven : headDim % 2 = 0) : a ∈ headWords t numHeads headDim s g ↔
      ∃ j < headDim, a = headAt t numHeads headDim s g + 4 * (j : Int) := by
  constructor
  · rintro ⟨i, hi, rfl | rfl⟩
    · exact ⟨2 * i, by omega, rfl⟩
    · exact ⟨2 * i + 1, by omega, rfl⟩
  · rintro ⟨j, hj, rfl⟩
    refine ⟨j / 2, by omega, ?_⟩
    rcases Nat.mod_two_eq_zero_or_one j with hparity | hparity
    · exact Or.inl (by rw [show 2 * (j / 2) = j by omega])
    · exact Or.inr (by rw [show 2 * (j / 2) + 1 = j by omega]; rfl)

section Call

variable {input out : Tensor} {seqLen numHeads headDim : Nat}
  (h : RopeCall input out seqLen numHeads headDim)

include h

theorem RopeCall.run_eq (params : KernelParams) (ws : KernelWorkspace) :
    cpuRopeRun ⟨[some input], [some out], params⟩ ws = .ok () := by
  have heven : (headDim : Int) % 2 = 0 := by
    have := h.even
    omega
  simp [cpuRopeRun, requireArity, requireInputs, requireOutputs, requireContiguous,
    KernelArgs.input, KernelArgs.output, h.writable, h.array.contiguous_eq,
    h.outArray.contiguous_eq, h.array.valid.data_ne, h.outArray.valid.data_ne, h.array.dtype_eq,
    h.outArray.dtype_eq, h.out_shape, h.shape_eq, hbiShapeEqual, Shape.rank, heven, bind,
    Except.bind]

theorem RopeCall.cpuRun_eq {F σ : Type} (ops : KernelFloat F) (M : Machine F σ)
    (params : KernelParams) (ws : KernelWorkspace) (st : σ) :
    cpuRun ops M cpuRope ⟨[some input], [some out], params⟩ ws st =
      (.ok (), (M.run (cpuRopeBody ops params input out) st).2) := by
  have hrun : cpuRope.run ⟨[some input], [some out], params⟩ ws = .ok () := h.run_eq params ws
  rw [cpuRun, hrun]
  rfl

/-- A component of the output lies over no other component of the input. -/
theorem RopeCall.word_apart {r r' : Nat} (hr : r < seqLen * (numHeads * headDim))
    (hr' : r' < seqLen * (numHeads * headDim)) (hne : r ≠ r') :
    WordsApart (out.data + 4 * (r : Int)) (input.data + 4 * (r' : Int)) := by
  have hprod : input.shape.dims.prod = ((seqLen * (numHeads * headDim) : Nat) : Int) := by
    rw [h.shape_eq]
    simp
  rcases h.separate with hapart | hdata
  · refine (hapart.words h.array h.outArray ⟨Int.natCast_nonneg r', ?_⟩
      ⟨Int.natCast_nonneg r, ?_⟩).symm
    · omega
    · rw [h.out_shape]
      omega
  · unfold WordsApart
    omega

variable {R σ : Type} [CommRing R] (base : KernelFloat R) (M : Machine R σ)

/-- Every head of the output is the input's with its neighbours turned. -/
theorem RopeCall.load_eq (params : KernelParams) (st : σ) {s g j : Nat} (hs : s < seqLen)
    (hg : g < numHeads) (hj : j < headDim) :
    M.load (M.run (cpuRopeBody base.overRing params input out) st).2
        (headAt out numHeads headDim s g + 4 * (j : Int)) =
      let pos := s + base.doubleToUint32 params.fillValue
      rotatePairs (ropeCos base.overRing headDim pos) (ropeSin base.overRing headDim pos)
        (fun j => M.load st (headAt input numHeads headDim s g + 4 * (j : Int))) j := by
  have heven := h.even
  have hpairs : 2 * ((headDim + 1) / 2) = headDim := by omega
  obtain ⟨v, hv⟩ := exists_words out.data fun r =>
    let s := r / (numHeads * headDim)
    let g := r % (numHeads * headDim) / headDim
    let pos := s + base.doubleToUint32 params.fillValue
    rotatePairs (ropeCos base.overRing headDim pos) (ropeSin base.overRing headDim pos)
      (fun j => M.load st (headAt input numHeads headDim s g + 4 * (j : Int)))
      (r % (numHeads * headDim) % headDim)
  have hvalue : ∀ s, ∀ g < numHeads, ∀ j < headDim,
      v (headAt out numHeads headDim s g + 4 * (j : Int)) =
        rotatePairs (ropeCos base.overRing headDim (s + base.doubleToUint32 params.fillValue))
          (ropeSin base.overRing headDim (s + base.doubleToUint32 params.fillValue))
          (fun j => M.load st (headAt input numHeads headDim s g + 4 * (j : Int))) j := by
    intro s g hg j hj
    have hlt := rank_lt hj hg
    rw [headAt_word, hv, rank_div hlt, Nat.mul_add_mod_of_lt hlt, rank_div hj,
      Nat.mul_add_mod_of_lt hj]
  have hrank : ∀ {s g j : Nat}, s < seqLen → g < numHeads → j < headDim →
      s * (numHeads * headDim) + (g * headDim + j) < seqLen * (numHeads * headDim) :=
    fun hs hg hj => rank_lt (rank_lt hj hg) hs
  have hputs : M.Puts {a | ∃ s < seqLen, a ∈ {a | ∃ g < numHeads,
      a ∈ headWords out numHeads headDim s g}} v st
      (M.run (cpuRopeBody base.overRing params input out) st).2 := by
    have hdims : input.dim 0 = seqLen ∧ input.dim 1 = numHeads ∧ input.dim 2 = headDim := by
      simp [Tensor.dim, h.shape_eq]
    unfold cpuRopeBody
    rw [hdims.1, hdims.2.1, hdims.2.2]
    apply M.puts_each
    · rintro s hs s' hs' a ⟨g, hg, ha⟩ b ⟨g', hg', hb⟩
      obtain ⟨j, hj, rfl⟩ := (mem_headWords heven).mp ha
      obtain ⟨j', hj', rfl⟩ := (mem_headWords heven).mp hb
      have hlt := rank_lt (rank_lt hj hg) hs'
      rw [headAt_word, headAt_word]
      unfold WordsApart
      omega
    · intro s hs st₁ hst₁
      apply M.puts_each (T := headWords out numHeads headDim s)
      · rintro g hg g' hg' a ha b hb
        obtain ⟨j, hj, rfl⟩ := (mem_headWords heven).mp ha
        obtain ⟨j', hj', rfl⟩ := (mem_headWords heven).mp hb
        have hlt := rank_lt hj hg'
        rw [headAt_word, headAt_word]
        unfold WordsApart
        omega
      · intro g hg st₂ hst₂
        have hkept : ∀ j < headDim,
            M.load st₂ (headAt input numHeads headDim s g + 4 * (j : Int)) =
              M.load st (headAt input numHeads headDim s g + 4 * (j : Int)) := by
          intro j hj
          rw [hst₂.kept, hst₁.kept]
          · rintro a ⟨s', hs', g', hg', ha⟩
            obtain ⟨j', hj', rfl⟩ := (mem_headWords heven).mp ha
            have hlt := rank_lt (rank_lt hj' hg') hs'
            rw [headAt_word, headAt_word]
            exact h.word_apart (hrank (hs'.trans hs) hg' hj') (hrank hs hg hj) (by omega)
          · rintro a ⟨g', hg', ha⟩
            obtain ⟨j', hj', rfl⟩ := (mem_headWords heven).mp ha
            have hlt := rank_lt hj' hg'
            rw [headAt_word, headAt_word]
            exact h.word_apart (hrank hs (hg'.trans hg) hj') (hrank hs hg hj) (by omega)
        have hloop := @puts_ropeHeadLoop R σ _ base M (headAt input numHeads headDim s g)
          (headAt out numHeads headDim s g) headDim
          (s + base.doubleToUint32 params.fillValue) v st₂
        refine hloop ?_ ?_
        · intro i hi j hj
          rw [headAt_word, headAt_word]
          exact h.word_apart (hrank hs hg (by omega)) (hrank hs hg (by omega)) (by omega)
        · intro j hj
          rw [hvalue s g hg j (by omega)]
          exact rotatePairs_congr heven (fun k hk => (hkept k hk).symm) (by omega)
  rw [hputs.put _ ⟨s, hs, g, hg, (mem_headWords heven).mpr ⟨j, hj, rfl⟩⟩, hvalue s g hg j hj]

end Call

/-- Memory can hold any vector. -/
theorem exists_state {F σ : Type} [Inhabited σ] (M : Machine F σ) (p : Int) (x : Nat → F)
    (n : Nat) : ∃ st, ∀ j < n, M.load st (p + 4 * (j : Int)) = x j := by
  induction n with
  | zero => exact ⟨default, fun j hj => absurd hj (Nat.not_lt_zero j)⟩
  | succ n ih =>
      obtain ⟨st, hst⟩ := ih
      refine ⟨M.store st (p + 4 * (n : Int)) (x n), fun j hj => ?_⟩
      rcases Nat.lt_succ_iff_lt_or_eq.mp hj with hlt | rfl
      · rw [M.load_store_apart _ _ _ _ (by omega), hst j hlt]
      · exact M.load_store _ _ _

section Agreement

variable {R D σ : Type} [CommRing R] (base : KernelFloat R) (rest : FloatOps R D)
  (M : Machine R σ) (params : KernelParams) (ws : KernelWorkspace) {input out : Tensor}
  {seqLen numHeads headDim : Nat}

/-- The position at which the kernel turns the heads of an index. -/
def ropePos (params : KernelParams) (s : Nat) : Nat := s + base.doubleToUint32 params.fillValue

/-- Whatever is in memory, the kernel leaves for one head what the adapter's function makes of
the same head at the same position. -/
def RopesAgree (input out : Tensor) (numHeads headDim s g : Nat) : Prop :=
  ∀ st : σ,
    let run := cpuRun base.overRing M cpuRope ⟨[some input], [some out], params⟩ ws st
    run.1 = .ok () ∧ ∀ j < headDim,
      M.load run.2 (headAt out numHeads headDim s g + 4 * (j : Int)) =
        refRopeHead (FloatOps.ofKernel base.overRing rest)
          (fun j => M.load st (headAt input numHeads headDim s g + 4 * (j : Int))) 0 headDim
          (ropePos base params s) (base.lit 10000) j

theorem ropesAgree_iff_rotations [Inhabited σ]
    (h : RopeCall input out seqLen numHeads headDim) {s g : Nat} (hs : s < seqLen)
    (hg : g < numHeads) :
    RopesAgree base rest M params ws input out numHeads headDim s g ↔
      ∀ x, ∀ j < 2 * (headDim / 2),
        rotatePairs (ropeCos base.overRing headDim (ropePos base params s))
          (ropeSin base.overRing headDim (ropePos base params s)) x j =
        rotateHalves (headDim / 2) (ropeCos base.overRing headDim (ropePos base params s))
          (ropeSin base.overRing headDim (ropePos base params s)) x j := by
  have heven := h.even
  have hlen : 2 * (headDim / 2) = headDim := by omega
  have hload := h.load_eq base M params
  constructor
  · intro hagree x j hj
    obtain ⟨st, hst⟩ := exists_state M (headAt input numHeads headDim s g) x headDim
    have hcomp := (hagree st).2 j (by omega)
    rw [h.cpuRun_eq] at hcomp
    rw [hload st hs hg (by omega), refRopeHead_eq base rest _ _ _ hj] at hcomp
    rw [← rotatePairs_congr heven hst (by omega), ← rotateHalves_congr (by rwa [hlen]) hj]
    exact hcomp
  · intro hrot st
    rw [h.cpuRun_eq]
    refine ⟨rfl, fun j hj => ?_⟩
    rw [hload st hs hg hj, refRopeHead_eq base rest _ _ _ (by omega)]
    exact hrot _ j (by omega)

/-- The two rotary embeddings agree on every vector of a head exactly when the head has at most
one pair, or when every angle of the position has sine zero and the same cosine. -/
theorem rope_kernel_agrees_iff [Inhabited σ] (h : RopeCall input out seqLen numHeads headDim)
    {s g : Nat} (hs : s < seqLen) (hg : g < numHeads) :
    RopesAgree base rest M params ws input out numHeads headDim s g ↔
      headDim ≤ 2 ∨ ∀ i < headDim / 2,
        ropeSin base.overRing headDim (ropePos base params s) i = 0 ∧
          ropeCos base.overRing headDim (ropePos base params s) i =
            ropeCos base.overRing headDim (ropePos base params s) 0 := by
  have heven := h.even
  have hpairs : headDim / 2 ≤ 1 ↔ headDim ≤ 2 := by omega
  rw [ropesAgree_iff_rotations base rest M params ws h hs hg, rotations_agree_iff, hpairs]

end Agreement

theorem rope_kernel_agrees_on_one_pair :
    ∃ input out : Tensor, hbiTensorWrap .fp32 ⟨[1, 1, 2]⟩ 64 8 = .ok input ∧
      hbiTensorWrap .fp32 ⟨[1, 1, 2]⟩ 128 8 = .ok out ∧
      ∀ (base : KernelFloat Int) (rest : FloatOps Int Int),
        RopesAgree base rest (cellMachine Int) KernelParams.zero KernelWorkspace.empty input out
          1 2 0 0 := by
  refine ⟨_, _, rfl, rfl, fun base rest => (rope_kernel_agrees_iff base rest (cellMachine Int) _ _
    (⟨⟨Tensor.valid_of_validate ?_, ?_, ?_⟩, ⟨Tensor.valid_of_validate ?_, ?_, ?_⟩, ?_, ?_, ?_, ?_,
      Or.inl ?_⟩ : RopeCall _ _ 1 1 2) one_pos one_pos).mpr (Or.inl le_rfl)⟩
  case refine_11 =>
    rintro a ⟨hin, hout⟩
    have hhi : a < 64 + 8 := hin.2
    have hlo : 128 ≤ a := hout.1
    omega
  all_goals decide +kernel

/-- A head of two pairs, all turned by the angle with cosine zero and sine one: the kernel moves
a first component to its neighbour, the adapter to the second half. -/
theorem rope_kernel_pairs_neighbours :
    ∃ input out : Tensor, hbiTensorWrap .fp32 ⟨[1, 1, 4]⟩ 64 16 = .ok input ∧
      hbiTensorWrap .fp32 ⟨[1, 1, 4]⟩ 128 16 = .ok out ∧
      ∀ (base : KernelFloat Int) (rest : FloatOps Int Int),
        ¬ RopesAgree { base with cosf := fun _ => 0, sinf := fun _ => 1 } rest (cellMachine Int)
          KernelParams.zero KernelWorkspace.empty input out 1 4 0 0 := by
  refine ⟨_, _, rfl, rfl, fun base rest hagree => ?_⟩
  have hcomp := (hagree fun a => if a = 64 then 1 else 0).2 1 (by decide)
  exact absurd (a := (1 : Int) = 0) hcomp (by decide)

end Hummingbird

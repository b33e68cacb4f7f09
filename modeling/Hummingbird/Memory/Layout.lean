import Hummingbird.Memory.System

/-!
Where the allocator's arithmetic agrees with the layout it describes. Rounding on words
agrees with rounding on numbers until the rounded number leaves the word, and answers 0
from there on; the platform takes a size of 0 for a size of 1.
-/

namespace Hummingbird

theorem exists_pow_of_hbiIsPow2 {a : Nat} (h : hbiIsPow2 a = true) : ∃ k, a = 2 ^ k := by
  have hpow := Nat.ne_zero_and_sub_one_eq_zero_iff_isPowerOfTwo (n := a)
  apply hpow.mp
  simpa [hbiIsPow2] using h

theorem normalizeAlignment_of_pow2 {a : Nat} (h : hbiIsPow2 a = true) :
    normalizeAlignment a = a := by
  apply if_neg
  rintro rfl
  simp [hbiIsPow2] at h

section Rounding

variable {a : Nat} (hpow : hbiIsPow2 a = true) (ha : a < sizeTSize)

include hpow

theorem pos_of_hbiIsPow2 : 0 < a := by
  obtain ⟨k, rfl⟩ := exists_pow_of_hbiIsPow2 hpow
  exact Nat.two_pow_pos k

include ha

/-- A word is a whole number of alignments, so the alignment is at most half of it. -/
theorem dvd_sizeTSize : a ∣ sizeTSize ∧ 2 * a ≤ sizeTSize := by
  obtain ⟨k, rfl⟩ := exists_pow_of_hbiIsPow2 hpow
  have hword : sizeTSize = 2 ^ 64 := by decide
  have hk : k < 64 := by
    rw [hword] at ha
    exact (Nat.pow_lt_pow_iff_right (by decide)).mp ha
  rw [hword]
  constructor
  · exact pow_dvd_pow 2 hk.le
  · rw [← pow_succ']
    exact Nat.pow_le_pow_right (by decide) hk

theorem alignRounded_eq (x : Nat) :
    alignRounded x a = (x + (a - 1)) % sizeTSize / a * a := by
  obtain ⟨k, rfl⟩ := exists_pow_of_hbiIsPow2 hpow
  have hword : sizeTSize = 2 ^ 64 := by decide
  have hk : k ≤ 64 := by
    rw [hword] at ha
    exact ((Nat.pow_lt_pow_iff_right (by decide)).mp ha).le
  unfold alignRounded
  rw [hword]
  exact Alignment.and_mask (Nat.mod_lt _ (by decide)) hk

/-- Rounding fits the word exactly when the padded number does. -/
theorem up_lt_sizeTSize_iff {x : Nat} :
    Alignment.up x a < sizeTSize ↔ x + (a - 1) < sizeTSize := by
  obtain ⟨m, hm⟩ := (dvd_sizeTSize hpow ha).1
  have hpos := pos_of_hbiIsPow2 hpow
  unfold Alignment.up
  rw [hm, Nat.mul_comm a m, Nat.mul_lt_mul_right hpos, Nat.div_lt_iff_lt_mul hpos]

/-- What `hbi_align_up` returns for every word. -/
theorem hbiAlignUp_eq {x : Nat} (hx : x < sizeTSize) :
    hbiAlignUp x a = if Alignment.up x a < sizeTSize then Alignment.up x a else 0 := by
  have hpos := pos_of_hbiIsPow2 hpow
  have hhalf := (dvd_sizeTSize hpow ha).2
  have hfits := @up_lt_sizeTSize_iff a hpow ha x
  unfold hbiAlignUp
  rw [if_neg (by simp [hpow]), alignRounded_eq hpow ha]
  by_cases h : x + (a - 1) < sizeTSize
  · have hle := Alignment.le_up hpos x
    rw [Nat.mod_eq_of_lt h, if_pos (hfits.mpr h)]
    exact if_neg (Nat.not_lt.mpr hle)
  · have hwrap : (x + (a - 1)) % sizeTSize = x + (a - 1) - sizeTSize := by
      rw [Nat.mod_eq_sub_mod (by omega), Nat.mod_eq_of_lt (by omega)]
    have hzero : (x + (a - 1) - sizeTSize) / a * a = 0 := by
      rw [Nat.div_eq_of_lt (by omega), Nat.zero_mul]
    rw [if_neg (hfits.not.mpr h), hwrap, hzero, if_pos (by omega)]

/-- The overhead has room for the header, keeps the alignment and is at most half of
the word. -/
theorem sysOverhead_spec :
    sizeofSysHeader ≤ sysOverhead a ∧ a ∣ sysOverhead a ∧ 2 * sysOverhead a ≤ sizeTSize := by
  have hpos := pos_of_hbiIsPow2 hpow
  obtain ⟨hdvd, hhalf⟩ := dvd_sizeTSize hpow ha
  unfold sysOverhead
  by_cases hlarge : a > sizeofSysHeader
  · have hself : Alignment.up a a = a :=
      le_antisymm (Alignment.up_le (dvd_refl a) le_rfl) (Alignment.le_up hpos a)
    rw [if_pos hlarge, hbiAlignUp_eq hpow ha ha, hself, if_pos ha]
    exact ⟨hlarge.le, dvd_refl a, hhalf⟩
  · have hsmall : a ≤ 48 := Nat.not_lt.mp hlarge
    have hlt := Alignment.up_lt hpos sizeofSysHeader
    have hle := Alignment.le_up hpos sizeofSysHeader
    have hbound : 2 * Alignment.up sizeofSysHeader a ≤ sizeTSize := by
      unfold sizeofSysHeader at hlt ⊢
      unfold sizeTSize
      omega
    rw [if_neg hlarge, hbiAlignUp_eq hpow ha (by decide), if_pos (by omega)]
    exact ⟨hle, Alignment.dvd_up _ _, hbound⟩

end Rounding

/-- The bytes that an allocation needs, as a number. -/
def sysNeed (debug : Bool) (size alignment : Nat) : Nat :=
  sysOverhead alignment + userSize size + canaryBytes debug

/-- The block of the platform holds the whole layout: the header in front of an aligned
pointer, and behind it the user bytes and the canary. -/
structure SysBuffer.Serves (buf : SysBuffer) (debug : Bool) (size alignment : Nat) : Prop where
  aligned : alignment ∣ buf.user
  enough : sysNeed debug size alignment ≤ buf.backing.bytes
  header_inside : buf.backing.base + sizeofSysHeader ≤ buf.user
  tail_inside : buf.user + userSize size + canaryBytes debug ≤
    buf.backing.base + buf.backing.bytes

/-- The platform has no block of that size at the alignment, raised to the least one that
it serves. -/
def Memalign.OutOfMemory (os : Memalign) (alignment size : Nat) : Prop :=
  os.answer (max alignment sizeofPtr) size = none

instance (os : Memalign) (alignment size : Nat) : Decidable (os.OutOfMemory alignment size) :=
  inferInstanceAs (Decidable (_ = none))

/-- An allocation is served, or it fails because its rounded size is no word or because
the platform is out of memory. -/
def AllocServes (h : SysHeap) (os : Memalign) (size alignment : Nat) (tag : MemTag) : Prop :=
  (∀ ptr, (hbiAlloc h os size alignment tag).2 = some ptr →
    ∃ buf, (hbiAlloc h os size alignment tag).1.buffers[ptr]? = some buf ∧
      buf.Serves h.debug size alignment) ∧
  ((hbiAlloc h os size alignment tag).2 = none →
    sizeTSize ≤ Alignment.up (sysNeed h.debug size alignment) alignment ∨
      os.OutOfMemory alignment (Alignment.up (sysNeed h.debug size alignment) alignment))

/-- The size that the platform is asked for: the rounded one, or one byte when that is no
word. -/
def platformRequest (debug : Bool) (size alignment : Nat) : Nat :=
  if Alignment.up (sysNeed debug size alignment) alignment < sizeTSize then
    Alignment.up (sysNeed debug size alignment) alignment
  else 1

section Allocation

variable {os : Memalign} {debug : Bool} {size a : Nat} {tag : MemTag}
  (hpow : hbiIsPow2 a = true) (ha : a < sizeTSize) (hsize : size < sizeTSize)

include hpow ha hsize

/-- The check after the addition finds every sum that is no word. -/
theorem sysTotal_lt_iff :
    sysTotal debug size a < userSize size ↔ sizeTSize ≤ sysNeed debug size a := by
  obtain ⟨-, -, hhalf⟩ := sysOverhead_spec hpow ha
  have hcanary : canaryBytes debug ≤ 4 := by
    cases debug with
    | false => decide
    | true => decide
  have huser : userSize size < sizeTSize := by
    unfold userSize
    split
    · decide
    · exact hsize
  unfold sysTotal
  have hneed : sysNeed debug size a = sysOverhead a + userSize size + canaryBytes debug := rfl
  rw [← hneed]
  unfold sizeTSize at *
  omega

omit hsize in
theorem hbiAlignedAlloc_alignUp (hneed : sysNeed debug size a < sizeTSize) :
    hbiAlignedAlloc os a (hbiAlignUp (sysNeed debug size a) a) =
      if a < sizeofPtr then none
      else (os.answer a (platformRequest debug size a)).map
        (⟨·, platformRequest debug size a⟩) := by
  have hup : 0 < Alignment.up (sysNeed debug size a) a := by
    have hle := Alignment.le_up (pos_of_hbiIsPow2 hpow) (sysNeed debug size a)
    have hhead := (sysOverhead_spec hpow ha).1
    have hsum : sysNeed debug size a = sysOverhead a + userSize size + canaryBytes debug := rfl
    have hheader : sizeofSysHeader = 48 := rfl
    omega
  have hasked : (if hbiAlignUp (sysNeed debug size a) a = 0 then 1
      else hbiAlignUp (sysNeed debug size a) a) = platformRequest debug size a := by
    unfold platformRequest
    rw [hbiAlignUp_eq hpow ha hneed]
    by_cases hlt : Alignment.up (sysNeed debug size a) a < sizeTSize
    · rw [if_pos hlt, if_neg (Nat.ne_of_gt hup), if_pos hlt]
    · rw [if_neg hlt, if_pos rfl, if_neg hlt]
  unfold hbiAlignedAlloc
  rw [hasked, hpow]
  simp

/-- The four ways an allocation of a legal alignment can go. -/
theorem sysLayout_cases (htag : tag ≠ .tagCount) :
    (sizeTSize ≤ sysNeed debug size a ∧
      sysLayout os debug size a tag = errSet .oom "sys_alloc: size overflow") ∨
    (sysNeed debug size a < sizeTSize ∧
      ((∃ e, (a < sizeofPtr ∨ os.answer a (platformRequest debug size a) = none) ∧
        sysLayout os debug size a tag = .error e) ∨
      ∃ base, sizeofPtr ≤ a ∧ os.answer a (platformRequest debug size a) = some base ∧
        sysLayout os debug size a tag =
          .ok (sysBuffer debug size a tag ⟨base, platformRequest debug size a⟩))) := by
  have htotal := @sysTotal_lt_iff debug size a hpow ha hsize
  unfold sysLayout
  rw [if_neg htag, normalizeAlignment_of_pow2 hpow, if_neg (by simp [hpow])]
  by_cases hfits : sizeTSize ≤ sysNeed debug size a
  · rw [if_pos (htotal.mpr hfits)]
    exact Or.inl ⟨hfits, rfl⟩
  · have hneed : sysNeed debug size a < sizeTSize := Nat.not_le.mp hfits
    have heq : sysTotal debug size a = sysNeed debug size a := Nat.mod_eq_of_lt hneed
    rw [if_neg (htotal.not.mpr hfits), heq, hbiAlignedAlloc_alignUp hpow ha hneed]
    refine Or.inr ⟨hneed, ?_⟩
    by_cases hsmall : a < sizeofPtr
    · rw [if_pos hsmall]
      exact Or.inl ⟨_, Or.inl hsmall, rfl⟩
    · rw [if_neg hsmall]
      cases os.answer a (platformRequest debug size a) with
      | none => exact Or.inl ⟨_, Or.inr rfl, rfl⟩
      | some base => exact Or.inr ⟨base, Nat.not_lt.mp hsmall, rfl, rfl⟩

omit hsize in
/-- A buffer in a block of enough bytes is laid out inside it. -/
theorem sysBuffer_serves {base n : Nat} (hbase : a ∣ base) (hn : sysNeed debug size a ≤ n) :
    (sysBuffer debug size a tag ⟨base, n⟩).Serves debug size a := by
  obtain ⟨hhead, hdvd, -⟩ := sysOverhead_spec hpow ha
  have hneed : sysNeed debug size a = sysOverhead a + userSize size + canaryBytes debug := rfl
  refine ⟨dvd_add hbase hdvd, hn, ?_, ?_⟩
  · exact Nat.add_le_add_left hhead base
  · dsimp only [sysBuffer]
    omega

end Allocation

theorem hbiAlloc_eq_none_iff {h : SysHeap} {os : Memalign} {size a : Nat} {tag : MemTag} :
    (hbiAlloc h os size a tag).2 = none ↔
      ∃ e, sysLayout os h.debug size a tag = .error e := by
  unfold hbiAlloc
  cases sysLayout os h.debug size a tag with
  | error e => simp
  | ok buf => simp

/-- The buffer of an allocation is the last one that was handed out. -/
theorem hbiAlloc_serves_of_ok {h : SysHeap} {os : Memalign} {size a : Nat} {tag : MemTag}
    {buf : SysBuffer} (hbuf : sysLayout os h.debug size a tag = .ok buf) {P : SysBuffer → Prop} :
    (∀ ptr, (hbiAlloc h os size a tag).2 = some ptr →
      ∃ buf, (hbiAlloc h os size a tag).1.buffers[ptr]? = some buf ∧ P buf) ↔ P buf := by
  unfold hbiAlloc
  rw [hbuf]
  simp

/-- For every size, every power of two as alignment and both modes: the allocator serves
the request, or has one of the two reasons to refuse it, unless the alignment is below
that of a pointer and the platform could have served it, or only the rounding leaves the
word and the platform has one byte to give. -/
theorem hbiAlloc_serves_iff (h : SysHeap) (os : Memalign) {size a : Nat} {tag : MemTag}
    (hpow : hbiIsPow2 a = true) (ha : a < sizeTSize) (hsize : size < sizeTSize)
    (htag : tag ≠ .tagCount) :
    AllocServes h os size a tag ↔
      ¬ (a < sizeofPtr ∧ Alignment.up (sysNeed h.debug size a) a < sizeTSize ∧
        ¬ os.OutOfMemory a (Alignment.up (sysNeed h.debug size a) a)) ∧
      ¬ (sizeofPtr ≤ a ∧ sysNeed h.debug size a < sizeTSize ∧
        sizeTSize ≤ Alignment.up (sysNeed h.debug size a) a ∧ ¬ os.OutOfMemory a 1) := by
  have hle := Alignment.le_up (pos_of_hbiIsPow2 hpow) (sysNeed h.debug size a)
  have hnone := @hbiAlloc_eq_none_iff h os size a tag
  rcases @sysLayout_cases os h.debug size a tag hpow ha hsize htag with
    ⟨hbig, hlayout⟩ | ⟨hneed, ⟨e, hwhy, hlayout⟩ | ⟨base, hptr, hbase, hlayout⟩⟩
  · have hfail : (hbiAlloc h os size a tag).2 = none := hnone.mpr ⟨_, hlayout⟩
    have hserved : AllocServes h os size a tag :=
      ⟨by simp [hfail], fun _ => Or.inl (hbig.trans hle)⟩
    constructor
    · intro _
      omega
    · exact fun _ => hserved
  · have hfail : (hbiAlloc h os size a tag).2 = none := hnone.mpr ⟨e, hlayout⟩
    unfold AllocServes
    rw [hfail]
    by_cases hsmall : a < sizeofPtr
    · simp only [hsmall, Nat.not_le.mpr hsmall, reduceCtorEq, false_imp_iff, implies_true,
        true_and, forall_const, false_and, not_false_eq_true, and_true]
      by_cases hlt : Alignment.up (sysNeed h.debug size a) a < sizeTSize
      · simp [hlt, Nat.not_le.mpr hlt]
      · simp [hlt, Nat.not_lt.mp hlt]
    · have hptr : sizeofPtr ≤ a := Nat.not_lt.mp hsmall
      have hans := hwhy.resolve_left hsmall
      have hmax : max a sizeofPtr = a := max_eq_left hptr
      by_cases hlt : Alignment.up (sysNeed h.debug size a) a < sizeTSize
      · rw [platformRequest, if_pos hlt] at hans
        simp [hsmall, Memalign.OutOfMemory, hmax, hans, hlt]
      · rw [platformRequest, if_neg hlt] at hans
        simp [hsmall, Memalign.OutOfMemory, hmax, hans, Nat.not_lt.mp hlt]
  · have hsome : (hbiAlloc h os size a tag).2 ≠ none := by
      intro hfail
      obtain ⟨e, he⟩ := hnone.mp hfail
      rw [hlayout] at he
      cases he
    have hmax : max a sizeofPtr = a := max_eq_left hptr
    unfold AllocServes
    rw [hbiAlloc_serves_of_ok hlayout]
    simp only [hsome, false_imp_iff, and_true, Nat.not_lt.mpr hptr, false_and,
      not_false_eq_true, true_and, hptr, hneed]
    by_cases hlt : Alignment.up (sysNeed h.debug size a) a < sizeTSize
    · rw [platformRequest, if_pos hlt] at hbase ⊢
      have hserves := @sysBuffer_serves h.debug size a tag hpow ha base _
        (os.aligned _ _ _ hbase) hle
      simp [hserves, Nat.not_le.mpr hlt]
    · rw [platformRequest, if_neg hlt] at hbase ⊢
      constructor
      · intro hserves
        have hhead := (sysOverhead_spec hpow ha).1
        have henough := hserves.enough
        have hsum : sysNeed h.debug size a =
          sysOverhead a + userSize size + canaryBytes h.debug := rfl
        have hheader : sizeofSysHeader = 48 := rfl
        have hone : sysNeed h.debug size a ≤ 1 := henough
        omega
      · intro hmem
        exact absurd ⟨Nat.not_lt.mp hlt, by simp [Memalign.OutOfMemory, hmax, hbase]⟩ hmem

theorem hbiAlloc_serves_iff_line :
    hbiIsPow2 64 = true ∧ 64 < sizeTSize ∧ 100 < sizeTSize ∧ MemTag.weights ≠ .tagCount ∧
      AllocServes (.fresh true) (Memalign.at 4096) 100 64 .weights := by
  have hpow : hbiIsPow2 64 = true := by decide
  have ha : 64 < sizeTSize := by decide
  have hsize : 100 < sizeTSize := by decide
  have htag : MemTag.weights ≠ .tagCount := by decide
  refine ⟨hpow, ha, hsize, htag, ?_⟩
  apply (hbiAlloc_serves_iff (.fresh true) (Memalign.at 4096) hpow ha hsize htag).mpr
  constructor
  · rintro ⟨hsmall, -⟩
    exact absurd hsmall (by decide)
  · rintro ⟨-, -, hlarge, -⟩
    exact absurd hlarge (by decide)

/-- A buffer of 100 bytes at the alignment of a float is refused, although the platform has
it; and a size that ends eight bytes below the word gets one byte, with the header and the
user bytes outside of it. -/
theorem hbiAlloc_misses_small_alignment_and_large_size :
    ¬ AllocServes (.fresh false) (Memalign.at 4096) 100 4 .weights ∧
      ¬ AllocServes (.fresh false) (Memalign.at 4096) 18446744073709551560 16 .weights := by
  constructor
  · rintro ⟨-, hrefused⟩
    rcases hrefused (by decide +kernel) with hlarge | hout
    · exact absurd hlarge (by decide +kernel)
    · exact absurd hout (by decide +kernel)
  · rintro ⟨hserved, -⟩
    obtain ⟨buf, hbuf, hserves⟩ := hserved 0 (by decide +kernel)
    have hbytes : (((hbiAlloc (.fresh false) (Memalign.at 4096) 18446744073709551560 16
        .weights).1.buffers[0]?).map (·.backing.bytes)) = some 1 := by decide +kernel
    have hone : buf.backing.bytes = 1 := by simpa [hbuf] using hbytes
    have henough := hserves.enough
    rw [hone] at henough
    exact absurd henough (by decide +kernel)

end Hummingbird

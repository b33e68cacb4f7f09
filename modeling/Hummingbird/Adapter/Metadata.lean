import Hummingbird.Adapter.Numerals

/-!
The numbers of a descriptor against the texts of the metadata. A text is read as a `long`, which
clamps it, and then cast to 32 bits, and both the check and the construction only see what is
left. A text whose number has 32 bits is read as that number.
-/

namespace Hummingbird

/-- What the cast leaves of a number that is not negative. -/
def Numeral.lowWord (n : Numeral) : Nat := (min n.number longMax).toNat % uint32Size

theorem Numeral.value_of_nonneg {n : Numeral} (h : 0 ≤ n.number) :
    n.value = min n.number longMax := by
  rw [n.value_eq]
  unfold longMin longMax
  omega

theorem Numeral.value_neg_iff (n : Numeral) : n.value < 0 ↔ n.number < 0 := by
  rw [n.value_eq]
  unfold longMin longMax
  omega

theorem parseUint32_eq_some_iff {s : String} {v : Nat} : parseUint32 s = some v ↔
    ∃ n : Numeral, n.text = s.toList ∧ 0 ≤ n.number ∧ v = n.lowWord := by
  unfold parseUint32
  cases hread : strtol s.toList with
  | mk value rest =>
      by_cases hempty : s.toList.isEmpty = true
      · rw [if_pos hempty]
        constructor
        · intro h
          cases h
        · rintro ⟨n, hn, -⟩
          exact absurd (hn.trans (List.isEmpty_iff.mp hempty)) n.text_ne_nil
      · rw [if_neg hempty]
        have hne : s.toList ≠ [] := fun hnil => hempty (List.isEmpty_iff.mpr hnil)
        dsimp only
        constructor
        · intro h
          obtain ⟨hpass, hv⟩ := Option.ite_none_left_eq_some.mp h
          simp only [Bool.or_eq_true, Bool.not_eq_true', decide_eq_true_eq, not_or,
            Bool.not_eq_false, List.isEmpty_iff] at hpass
          obtain ⟨rfl, hnonneg⟩ := hpass
          obtain ⟨n, hn, rfl⟩ := strtol_whole_iff.mp ⟨hread, hne⟩
          have hnumber : 0 ≤ n.number := not_lt.mp fun hneg => hnonneg (n.value_neg_iff.mpr hneg)
          rw [n.value_of_nonneg hnumber] at hv
          exact ⟨n, hn, hnumber, (Option.some.inj hv).symm⟩
        · rintro ⟨n, hn, hnumber, rfl⟩
          obtain ⟨hwhole, -⟩ := strtol_whole_iff.mpr ⟨n, hn, rfl⟩
          rw [hread] at hwhole
          obtain ⟨rfl, rfl⟩ := Prod.mk.inj hwhole
          have hnonneg : ¬ n.value < 0 := fun hneg =>
            absurd (n.value_neg_iff.mp hneg) (not_lt.mpr hnumber)
          rw [if_neg (by simpa using hnonneg), n.value_of_nonneg hnumber]
          rfl

/-- The text of a key is this numeral. -/
def ModelMetadata.Writes (md : ModelMetadata) (key : String) (n : Numeral) : Prop :=
  ∃ s, hbiModelMetadataGet md key = some s ∧ n.text = s.toList

theorem ModelMetadata.Writes.number_eq {md : ModelMetadata} {key : String} {n m : Numeral}
    (h : ModelMetadata.Writes md key n) (h' : ModelMetadata.Writes md key m) :
    n.number = m.number := by
  obtain ⟨s, hs, hn⟩ := h
  obtain ⟨s', hs', hm⟩ := h'
  obtain rfl := Option.some.inj (hs.symm.trans hs')
  exact Numeral.number_eq_of_text (hn.trans hm.symm)

theorem metadataUint32_of_writes {md : ModelMetadata} {key : String} {n : Numeral}
    (h : ModelMetadata.Writes md key n) (hnumber : 0 ≤ n.number) :
    metadataUint32 md key = n.lowWord := by
  obtain ⟨s, hs, hn⟩ := h
  have hparse : parseUint32 s = some n.lowWord :=
    parseUint32_eq_some_iff.mpr ⟨n, hn, hnumber, rfl⟩
  unfold metadataUint32
  rw [hs, Option.bind_some, hparse, Option.getD_some]

/-- A required key passes with a numeral whose low word is not zero. -/
theorem checkRequired_iff {md : ModelMetadata} {key : String} :
    checkRequired md key = .ok () ↔
      ∃ n, ModelMetadata.Writes md key n ∧ 0 ≤ n.number ∧ n.lowWord ≠ 0 := by
  unfold checkRequired ModelMetadata.Writes
  cases hget : hbiModelMetadataGet md key with
  | none => simp
  | some val =>
      dsimp only
      cases hparse : parseUint32 val with
      | none =>
          constructor
          · intro h
            exact absurd h (errSet_ne_ok _ _ _)
          · rintro ⟨n, ⟨s, hs, hn⟩, hnumber, -⟩
            obtain rfl := Option.some.inj hs
            have hsome := parseUint32_eq_some_iff.mpr ⟨n, hn, hnumber, rfl⟩
            rw [hparse] at hsome
            cases hsome
      | some v =>
          dsimp only
          rw [Result.ite_errSet_eq_ok]
          obtain ⟨n, hn, hnumber, rfl⟩ := parseUint32_eq_some_iff.mp hparse
          constructor
          · rintro ⟨hpos, -⟩
            exact ⟨n, ⟨val, rfl, hn⟩, hnumber, hpos⟩
          · rintro ⟨m, ⟨s, hs, hm⟩, hnumber', hpos⟩
            obtain rfl := Option.some.inj hs
            have hsome := parseUint32_eq_some_iff.mpr ⟨m, hm, hnumber', rfl⟩
            rw [hparse] at hsome
            rw [Option.some.inj hsome]
            exact ⟨hpos, rfl⟩

theorem forM_checkRequired_iff {md : ModelMetadata} {keys : List String} :
    keys.forM (checkRequired md) = .ok () ↔
      ∀ key ∈ keys, ∃ n, ModelMetadata.Writes md key n ∧ 0 ≤ n.number ∧ n.lowWord ≠ 0 := by
  induction keys with
  | nil => exact ⟨fun _ _ h => (by cases h), fun _ => rfl⟩
  | cons key keys ih =>
      rw [List.forall_mem_cons, ← ih, ← checkRequired_iff]
      change (checkRequired md key >>= fun _ => keys.forM (checkRequired md)) = .ok () ↔ _
      rw [Result.bind_eq_ok]
      constructor
      · rintro ⟨⟨⟩, hkey, hkeys⟩
        exact ⟨hkey, hkeys⟩
      · rintro ⟨hkey, hkeys⟩
        exact ⟨(), hkey, hkeys⟩

/-- The seven numbers of a descriptor, with their keys in the metadata. -/
def descriptorNumbers (desc : ModelDescriptor) : List (String × Nat) :=
  [("hidden_size", desc.hiddenSize), ("intermediate_size", desc.intermediateSize),
    ("num_attention_heads", desc.numAttentionHeads), ("num_key_value_heads", desc.numKvHeads),
    ("num_hidden_layers", desc.numLayers), ("vocab_size", desc.vocabSize),
    ("max_position_embeddings", desc.maxSeqLength)]

/-- A descriptor of accepted metadata has the numbers of their texts, and none of them is zero
or needs more than 32 bits. -/
def DescriptorExact (md : ModelMetadata) : Prop :=
  ∀ desc, gptOssValidateMetadata md = .ok () → gptOssBuildDescriptor md = .ok desc →
    ∀ f ∈ descriptorNumbers desc, ∃ n, ModelMetadata.Writes md f.1 n ∧
      (1 ≤ n.number ∧ n.number < uint32Size) ∧ (f.2 : Int) = n.number

/-- Every check passes on the low words of the numbers, and one of them has more than 32 bits. -/
structure ModelMetadata.Misread (md : ModelMetadata) : Prop where
  architecture : hbiModelMetadataGet md "architecture" = some gptOssName
  positive : ∀ key ∈ requiredKeys,
    ∃ n, ModelMetadata.Writes md key n ∧ 0 ≤ n.number ∧ n.lowWord ≠ 0
  layers : ∀ n, ModelMetadata.Writes md "num_hidden_layers" n → n.lowWord ≤ hbiGptOssMaxLayers
  wide : ∃ key ∈ requiredKeys, ∃ n, ModelMetadata.Writes md key n ∧ uint32Size ≤ n.number

theorem Numeral.lowWord_of_lt {n : Numeral} (hnumber : 0 ≤ n.number)
    (hlt : n.number < uint32Size) : (n.lowWord : Int) = n.number := by
  unfold Numeral.lowWord longMax
  unfold uint32Size at *
  omega

theorem gptOssValidateMetadata_iff {md : ModelMetadata} :
    gptOssValidateMetadata md = .ok () ↔
      hbiModelMetadataGet md "architecture" = some gptOssName ∧ ∀ key ∈ requiredKeys,
        ∃ n, ModelMetadata.Writes md key n ∧ 0 ≤ n.number ∧ n.lowWord ≠ 0 := by
  unfold gptOssValidateMetadata
  rw [Result.ite_errSet_eq_ok, not_not, forM_checkRequired_iff]

/-- After the check a descriptor has what is left of the seven numbers. -/
theorem gptOssBuildDescriptor_iff {md : ModelMetadata} {desc : ModelDescriptor}
    (hvalid : gptOssValidateMetadata md = .ok ()) :
    gptOssBuildDescriptor md = .ok desc ↔
      metadataUint32 md "num_hidden_layers" ≤ hbiGptOssMaxLayers ∧
        descriptorNumbers desc = requiredKeys.map fun key => (key, metadataUint32 md key) := by
  have hkv : 0 < metadataUint32 md "num_key_value_heads" := by
    obtain ⟨n, hn, hnumber, hpos⟩ :=
      (gptOssValidateMetadata_iff.mp hvalid).2 "num_key_value_heads" (by simp [requiredKeys])
    rw [metadataUint32_of_writes hn hnumber]
    exact Nat.pos_of_ne_zero hpos
  obtain ⟨hidden, intermediate, heads, kvHeads, layers, vocab, seqLength⟩ := desc
  unfold gptOssBuildDescriptor
  rw [Result.ite_errSet_eq_ok, if_pos hkv, not_lt]
  refine and_congr_right fun _ => ?_
  simp only [Except.ok.injEq, ModelDescriptor.mk.injEq, descriptorNumbers, requiredKeys,
    List.map_cons, List.map_nil, List.cons.injEq, Prod.mk.injEq, true_and, and_true]
  constructor
  · rintro ⟨rfl, rfl, rfl, rfl, rfl, rfl, rfl⟩
    exact ⟨rfl, rfl, rfl, rfl, rfl, rfl, rfl⟩
  · rintro ⟨rfl, rfl, rfl, rfl, rfl, rfl, rfl⟩
    exact ⟨rfl, rfl, rfl, rfl, rfl, rfl, rfl⟩

theorem exists_descriptor {md : ModelMetadata} (hvalid : gptOssValidateMetadata md = .ok ())
    (hlayers : metadataUint32 md "num_hidden_layers" ≤ hbiGptOssMaxLayers) :
    ∃ desc, gptOssBuildDescriptor md = .ok desc :=
  ⟨⟨_, _, _, _, _, _, _⟩, (gptOssBuildDescriptor_iff hvalid).mpr ⟨hlayers, rfl⟩⟩

theorem ModelMetadata.Misread.not_exact {md : ModelMetadata} (h : ModelMetadata.Misread md) :
    ¬ DescriptorExact md := by
  intro hexact
  have hvalid := gptOssValidateMetadata_iff.mpr ⟨h.architecture, h.positive⟩
  obtain ⟨n, hn, hnumber, -⟩ := h.positive "num_hidden_layers" (by simp [requiredKeys])
  have hlayers : metadataUint32 md "num_hidden_layers" ≤ hbiGptOssMaxLayers := by
    rw [metadataUint32_of_writes hn hnumber]
    exact h.layers n hn
  obtain ⟨desc, hbuild⟩ := exists_descriptor hvalid hlayers
  obtain ⟨-, hnumbers⟩ := (gptOssBuildDescriptor_iff hvalid).mp hbuild
  obtain ⟨key, hkey, wide, hwide, hlarge⟩ := h.wide
  have hmem : (key, metadataUint32 md key) ∈ descriptorNumbers desc := by
    rw [hnumbers]
    exact List.mem_map_of_mem hkey
  obtain ⟨m, hm, hrange, -⟩ := hexact desc hvalid hbuild _ hmem
  have heq := hm.number_eq hwide
  omega

theorem descriptorExact_of_not_misread {md : ModelMetadata} (h : ¬ ModelMetadata.Misread md) :
    DescriptorExact md := by
  intro desc hvalid hbuild f hf
  obtain ⟨harch, hpositive⟩ := gptOssValidateMetadata_iff.mp hvalid
  obtain ⟨hlayers, hnumbers⟩ := (gptOssBuildDescriptor_iff hvalid).mp hbuild
  rw [hnumbers] at hf
  obtain ⟨key, hkey, rfl⟩ := List.mem_map.mp hf
  obtain ⟨n, hn, hnumber, hpos⟩ := hpositive key hkey
  have hlt : n.number < uint32Size := by
    by_contra hlarge
    refine h ⟨harch, hpositive, ?_, key, hkey, n, hn, not_lt.mp hlarge⟩
    intro m hm
    obtain ⟨l, hl, hnonneg, -⟩ := hpositive "num_hidden_layers" (by simp [requiredKeys])
    rw [hl.number_eq hm] at hnonneg
    rwa [metadataUint32_of_writes hm hnonneg] at hlayers
  have hword := Numeral.lowWord_of_lt hnumber hlt
  refine ⟨n, hn, ⟨by omega, hlt⟩, ?_⟩
  rw [metadataUint32_of_writes hn hnumber, hword]

/-- A descriptor says what the metadata say exactly when no number with more than 32 bits gets
past the checks by its low word. -/
theorem descriptor_exact_iff (md : ModelMetadata) :
    DescriptorExact md ↔ ¬ ModelMetadata.Misread md :=
  ⟨fun hexact hmisread => hmisread.not_exact hexact, descriptorExact_of_not_misread⟩

/-- Metadata whose hidden size is `2 ^ 32 + 1`. -/
def wideMetadata : ModelMetadata :=
  [("architecture", "gpt_oss"), ("hidden_size", "4294967297"), ("intermediate_size", "1"),
    ("num_attention_heads", "1"), ("num_key_value_heads", "1"), ("num_hidden_layers", "1"),
    ("vocab_size", "1"), ("max_position_embeddings", "2")]

def wideNumeral : Numeral where
  spaces := []
  sign := .none
  digits := "4294967297".toList
  spaces_isSpace := Numeral.noSpaces
  digits_ne_nil := List.ne_nil_of_length_pos (by decide)
  digits_isDigit := List.all_eq_true.mp (by decide)

/-- A hidden size of `2 ^ 32 + 1` is accepted, and becomes 1. -/
theorem descriptor_hidden_size_narrowed :
    gptOssValidateMetadata wideMetadata = .ok () ∧
      gptOssBuildDescriptor wideMetadata = .ok ⟨1, 1, 1, 1, 1, 1, 2⟩ ∧
      ¬ DescriptorExact wideMetadata := by
  have hvalid : gptOssValidateMetadata wideMetadata = .ok () := by decide +kernel
  have hbuild : gptOssBuildDescriptor wideMetadata = .ok ⟨1, 1, 1, 1, 1, 1, 2⟩ := by
    decide +kernel
  refine ⟨hvalid, hbuild, ?_⟩
  intro h
  obtain ⟨n, hn, hrange, -⟩ := h _ hvalid hbuild ("hidden_size", 1) (by simp [descriptorNumbers])
  have hwide : ModelMetadata.Writes wideMetadata "hidden_size" wideNumeral :=
    ⟨"4294967297", by decide +kernel, rfl⟩
  rw [hn.number_eq hwide] at hrange
  exact absurd hrange.2 (by decide +kernel)

end Hummingbird

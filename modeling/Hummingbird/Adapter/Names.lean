import Hummingbird.Adapter.Coverage
import Hummingbird.Adapter.Numerals

/-!
The names of the tensors of a GPT-OSS model, as registration prints them and as
`hbi_adapter_gpt_oss_bind_weights` reads them. The number of a layer is printed with `%u` and
read with `strtol` and a cast to `uint32_t`, which take more texts than are ever printed.
-/

namespace Hummingbird

/-- The text between `model.layers.` and the full stop behind the number. -/
abbrev IndexText := Option Numeral

def IndexText.text (index : IndexText) : List Char := index.elim [] Numeral.text

/-- What `strtol` returns for it; nothing at all is read as zero. -/
def IndexText.value (index : IndexText) : Int := index.elim 0 Numeral.value

/-- The layer that the cast leaves. -/
def IndexText.layer (index : IndexText) : Nat := index.value.toNat % uint32Size

/-- The characters of a name with an index and one of the nine suffixes. -/
def indexedName (index : List Char) (tensor : LayerTensor) : List Char :=
  "model.layers.".toList ++ (index ++ '.' :: tensor.suffix.toList)

/-- An index is read up to the full stop behind it. -/
theorem strtol_indexText (index : IndexText) (rest : List Char) :
    strtol (index.text ++ '.' :: rest) = (index.value, '.' :: rest) := by
  cases index with
  | none =>
      have hsplit : SignSplit (List.dropWhile isSpaceC ('.' :: rest)) .none ('.' :: rest) :=
        ⟨rfl, fun _ => by simp⟩
      exact strtol_eq hsplit
  | some n => exact strtol_text n (by simp)

/-- What `strtol` reads up to a full stop is an index. -/
theorem exists_indexText {s rest : List Char} {v : Int} (h : strtol s = (v, '.' :: rest)) :
    ∃ index : IndexText, s = index.text ++ '.' :: rest ∧ v = index.value := by
  rcases strtol_cases s with hnone | ⟨n, tail, hs, hread⟩
  · rw [hnone] at h
    obtain ⟨hv, hrest⟩ := Prod.mk.inj h
    exact ⟨none, hrest, hv.symm⟩
  · rw [hread] at h
    obtain ⟨hv, hrest⟩ := Prod.mk.inj h
    exact ⟨some n, hrest ▸ hs, hv.symm⟩

theorem chars_injective : Function.Injective chars := by
  apply List.map_injective_iff.mpr
  intro a b h
  have hval := congrArg Char.toNat h
  have hascii : ∀ c : UInt8, (Char.ofNat c.toNat).toNat = c.toNat := by
    intro c
    have hlt := c.toNat_lt
    have hvalid : c.toNat.isValidChar := Or.inl (by omega)
    rw [Char.ofNat, dif_pos hvalid]
    rfl
  rw [hascii, hascii] at hval
  exact UInt8.toNat_inj.mp hval

/-- A text of one-byte characters is read back from its bytes. -/
theorem chars_bytes {text : String} (h : ∀ c ∈ text.toList, c.toNat < 256) :
    chars (bytes text) = text.toList := by
  unfold chars bytes
  rw [List.map_map]
  conv_rhs => rw [← List.map_id text.toList]
  apply List.map_congr_left
  intro c hc
  have hval : (byte c).toNat = c.toNat := by
    have hmod : (byte c).toNat = c.toNat % 256 := rfl
    have hlt := h c hc
    omega
  simp only [Function.comp_apply, hval, Char.ofNat_toNat, id_eq]

theorem suffix_chars (tensor : LayerTensor) : ∀ c ∈ tensor.suffix.toList, c.toNat < 256 := by
  cases tensor <;> simp [LayerTensor.suffix]

theorem suffixTensor_eq_some {suffix : List Char} {tensor : LayerTensor} :
    suffixTensor suffix = some tensor ↔ suffix = tensor.suffix.toList := by
  constructor
  · intro h
    unfold suffixTensor at h
    split_ifs at h with h1 h2 h3 h4 h5 h6 h7 h8 h9 <;> cases h <;> assumption
  · rintro rfl
    cases tensor <;>
      simp [suffixTensor, LayerTensor.suffix, String.toList_inj, -String.reduceToList]

theorem toList_layerName (layer : Nat) (tensor : LayerTensor) :
    (s!"model.layers.{layer}.{tensor.suffix}").toList =
      indexedName (IndexText.text (some (Numeral.ofNat layer))) tensor := by
  have hdot : ("." : String).toList = ['.'] := rfl
  unfold indexedName IndexText.text Numeral.text
  simp only [toString, String.toList_append, Nat.toList_repr, hdot, Option.elim_some,
    Numeral.ofNat, NumeralSign.text, List.nil_append, List.append_assoc, List.singleton_append]

/-- The printed name of a tensor of a layer. -/
theorem chars_layerTensorName (layer : Nat) (tensor : LayerTensor) :
    chars (layerTensorName layer tensor.suffix) =
      indexedName (IndexText.text (some (Numeral.ofNat layer))) tensor := by
  unfold layerTensorName
  rw [chars_bytes, toList_layerName]
  rw [toList_layerName]
  intro c hc
  unfold indexedName IndexText.text Numeral.text at hc
  simp only [Option.elim_some, Numeral.ofNat, NumeralSign.text, List.nil_append,
    List.mem_append, List.mem_cons] at hc
  rcases hc with hc | hc | hc | hc
  · have hprefix : ∀ c ∈ "model.layers.".toList, c.toNat < 256 := by simp
    exact hprefix c hc
  · have hdigit := Nat.isDigit_of_mem_toDigits (by omega) (by omega) hc
    have hrange : 48 ≤ c.toNat ∧ c.toNat ≤ 57 := by
      simpa [Char.isDigit, UInt32.le_iff_toNat_le] using hdigit
    omega
  · rw [hc]
    decide
  · exact suffix_chars tensor c hc

theorem chars_layersPrefix : chars (bytes "model.layers.") = "model.layers.".toList :=
  chars_bytes (by simp)

/-- The comparison with the prefix and the text behind it. -/
theorem chars_eq_prefix_append {name : List UInt8} {rest : List Char} :
    chars name = "model.layers.".toList ++ rest ↔
      (bytes "model.layers.").isPrefixOf name = true ∧
        chars (name.drop (bytes "model.layers.").length) = rest := by
  rw [List.isPrefixOf_iff_prefix]
  constructor
  · intro h
    obtain ⟨front, back, rfl, hfront, hback⟩ := List.map_eq_append_iff.mp h
    have heq : front = bytes "model.layers." :=
      chars_injective (hfront.trans chars_layersPrefix.symm)
    rw [heq, List.drop_left]
    exact ⟨List.prefix_append _ _, hback⟩
  · rintro ⟨⟨back, rfl⟩, hrest⟩
    rw [List.drop_left] at hrest
    rw [← hrest, ← chars_layersPrefix]
    exact List.map_append

/-- The name of a tensor that is not of a layer does not begin as those do. -/
theorem isPrefixOf_global {t : ModelTensor} (h : ∀ index tensor, t ≠ .layer index tensor) :
    (bytes "model.layers.").isPrefixOf t.name = false := by
  cases t with
  | embedTokens | finalNorm | lmHead => decide
  | layer index tensor => exact absurd rfl (h index tensor)

/-- A name with an index is bound to the layer that is read from the index. -/
theorem bindTarget_indexedName {numLayers : Nat} {name : List UInt8} {index : IndexText}
    {tensor : LayerTensor} (hname : chars name = indexedName index.text tensor)
    (hvalue : 0 ≤ index.value) (hlayer : index.layer < numLayers) :
    bindTarget numLayers name = .ok (.layer index.layer tensor) := by
  obtain ⟨hpre, hrest⟩ := chars_eq_prefix_append.mp hname
  have hglobal : ∀ t : ModelTensor, (bytes "model.layers.").isPrefixOf t.name = false →
      name ≠ t.name := by
    rintro t ht rfl
    rw [ht] at hpre
    cases hpre
  have hembed : name ≠ bytes "model.embed_tokens.weight" :=
    hglobal .embedTokens (isPrefixOf_global (by simp))
  have hnorm : name ≠ bytes "model.norm.weight" :=
    hglobal .finalNorm (isPrefixOf_global (by simp))
  have hhead : name ≠ bytes "lm_head.weight" :=
    hglobal .lmHead (isPrefixOf_global (by simp))
  have hread := strtol_indexText index tensor.suffix.toList
  have hsuffix := suffixTensor_eq_some.mpr (rfl : tensor.suffix.toList = tensor.suffix.toList)
  unfold IndexText.layer at hlayer ⊢
  simp [bindTarget, hembed, hnorm, hhead, hpre, hrest, hread, hsuffix, not_lt.mpr hvalue,
    not_le.mpr hlayer]

/-- What a name that is bound looks like. -/
theorem bindTarget_cases {numLayers : Nat} {name : List UInt8} {t : ModelTensor}
    (h : bindTarget numLayers name = .ok t) :
    ((∀ index tensor, t ≠ .layer index tensor) ∧ name = t.name) ∨
      ∃ (index : IndexText) (tensor : LayerTensor), t = .layer index.layer tensor ∧
        chars name = indexedName index.text tensor ∧ 0 ≤ index.value ∧
        index.layer < numLayers := by
  unfold bindTarget at h
  split at h
  · next hname =>
      cases h
      exact Or.inl ⟨by simp, hname⟩
  · split at h
    · next hname =>
        cases h
        exact Or.inl ⟨by simp, hname⟩
    · split at h
      · next hname =>
          cases h
          exact Or.inl ⟨by simp, hname⟩
      · right
        simp only [Result.ite_errSet_eq_ok, not_or, not_not, not_lt, not_le,
          Bool.not_eq_false] at h
        obtain ⟨hpre, ⟨hdot, hvalue⟩, hlt, h⟩ := h
        cases hread : strtol (chars (name.drop (bytes "model.layers.").length)) with
        | mk v rest =>
            rw [hread] at hdot hvalue hlt h
            obtain ⟨suffix, rfl⟩ := List.head?_eq_some_iff.mp hdot
            obtain ⟨index, htext, rfl⟩ := exists_indexText hread
            split at h
            · cases h
            · next tensor htensor =>
                cases h
                rw [List.tail_cons, suffixTensor_eq_some] at htensor
                rw [htensor] at htext
                exact ⟨index, tensor, rfl, chars_eq_prefix_append.mpr ⟨hpre, htext⟩, hvalue, hlt⟩

/-- A number that is no larger than a `long` is read as it was printed. -/
theorem Numeral.value_ofNat {n : Nat} (h : (n : Int) ≤ longMax) : (Numeral.ofNat n).value = n := by
  unfold Numeral.value Numeral.ofNat
  simp only [Nat.ofDigitChars_ten_toDigits, reduceCtorEq, if_false]
  unfold longMin longMax at *
  omega

theorem IndexText.layer_ofNat {n : Nat} (h : n < uint32Size) :
    IndexText.layer (some (Numeral.ofNat n)) = n := by
  have hle : (n : Int) ≤ longMax := by
    unfold uint32Size at h
    unfold longMax
    omega
  unfold IndexText.layer IndexText.value
  rw [Option.elim_some, Numeral.value_ofNat hle, Int.toNat_natCast, Nat.mod_eq_of_lt h]

theorem IndexText.value_ofNat_nonneg {n : Nat} (h : n < uint32Size) :
    0 ≤ IndexText.value (some (Numeral.ofNat n)) := by
  have hle : (n : Int) ≤ longMax := by
    unfold uint32Size at h
    unfold longMax
    omega
  unfold IndexText.value
  rw [Option.elim_some, Numeral.value_ofNat hle]
  exact Int.natCast_nonneg n

/-- Every name that is generated selects its own slot. -/
theorem bindTarget_name {numLayers : Nat} (hlayers : numLayers < uint32Size) {t : ModelTensor}
    (ht : t.Within numLayers) : bindTarget numLayers t.name = .ok t := by
  cases t with
  | embedTokens => rfl
  | finalNorm => rfl
  | lmHead => rfl
  | layer layer tensor =>
      have hlt : layer < numLayers := ht
      have hlayer := IndexText.layer_ofNat (hlt.trans hlayers)
      have hbind := bindTarget_indexedName (chars_layerTensorName layer tensor)
        (IndexText.value_ofNat_nonneg (hlt.trans hlayers)) (hlayer.symm ▸ hlt)
      rw [hlayer] at hbind
      exact hbind

theorem IndexText.dot_notMem (index : IndexText) : ∀ c ∈ index.text, (c != '.') = true := by
  intro c hc
  simp only [bne_iff_ne, ne_eq]
  rintro rfl
  cases index with
  | none => cases hc
  | some n =>
      have hparts : '.' ∈ n.spaces ++ n.sign.text ++ n.digits := hc
      rw [List.mem_append, List.mem_append] at hparts
      rcases hparts with (hspace | hsign) | hdigit
      · exact absurd (n.spaces_isSpace _ hspace) (by decide)
      · cases hs : n.sign with
        | none => simp [hs, NumeralSign.text] at hsign
        | plus => simp [hs, NumeralSign.text] at hsign
        | minus => simp [hs, NumeralSign.text] at hsign
      · exact absurd (n.digits_isDigit _ hdigit) (by decide)

/-- The index of a name can be read off the name. -/
theorem indexedName_index {index index' : IndexText} {tensor tensor' : LayerTensor}
    (h : indexedName index.text tensor = indexedName index'.text tensor') :
    index.text = index'.text := by
  have hsplit := fun (i : IndexText) (t : LayerTensor) =>
    (@takeWhile_dropWhile_run _ (· != '.') i.text ('.' :: t.suffix.toList) i.dot_notMem
      (by simp)).1
  have hrest := List.append_cancel_left h
  rw [← hsplit index tensor, hrest, hsplit index' tensor']

/-- The layer of a name is not written as it is printed, and the name is read all the same. -/
def Misspelled (numLayers : Nat) (name : List UInt8) : Prop :=
  ∃ (index : IndexText) (tensor : LayerTensor), chars name = indexedName index.text tensor ∧
    0 ≤ index.value ∧ index.layer < numLayers ∧ index.text ≠ Nat.toDigits 10 index.layer

/-- What is bound under a name that is not misspelled has this name. -/
theorem eq_name_of_bindTarget {numLayers : Nat} {name : List UInt8} {t : ModelTensor}
    (hname : ¬ Misspelled numLayers name) (h : bindTarget numLayers name = .ok t) :
    name = t.name := by
  rcases bindTarget_cases h with ⟨-, heq⟩ | ⟨index, tensor, rfl, htext, hvalue, hlayer⟩
  · exact heq
  · have hprinted : index.text = Nat.toDigits 10 index.layer := by
      by_contra hne
      exact hname ⟨index, tensor, htext, hvalue, hlayer, hne⟩
    apply chars_injective
    refine htext.trans ?_
    rw [hprinted]
    exact (chars_layerTensorName index.layer tensor).symm

/-- A misspelled name is accepted and is the name of no tensor of the model. -/
theorem Misspelled.accepted {numLayers : Nat} {name : List UInt8}
    (h : Misspelled numLayers name) :
    (∃ t, bindTarget numLayers name = .ok t) ∧
      ∀ t : ModelTensor, t.Within numLayers → numLayers < uint32Size → name ≠ t.name := by
  obtain ⟨index, tensor, htext, hvalue, hlayer, hne⟩ := h
  have hbind := bindTarget_indexedName htext hvalue hlayer
  refine ⟨⟨_, hbind⟩, ?_⟩
  rintro t ht hlayers rfl
  obtain rfl := Except.ok.inj ((bindTarget_name hlayers ht).symm.trans hbind)
  apply hne
  exact indexedName_index (htext.symm.trans (chars_layerTensorName index.layer tensor))

section Bound

variable {F : Type} {ctx : GptOssContext F} {slots : WeightSlots F}

/-- The call is accepted exactly when the name is one of the model, and then it binds the slot
of that name and leaves every other slot as it was. -/
def BoundByName (ctx : GptOssContext F) (slots : WeightSlots F) (call : BindCall F) : Prop :=
  ((hbiAdapterGptOssBindWeights ctx slots call).2 = .ok () ↔
    ∃ t : ModelTensor, t.Within ctx.numLayers ∧ call.name = t.name) ∧
  ∀ t : ModelTensor, t.Within ctx.numLayers → call.name = t.name →
    ∃ b, bindWeightTensor call.buf .fp32 call.shape = .ok b ∧
      ∀ u, (hbiAdapterGptOssBindWeights ctx slots call).1.get u =
        if u = t then some b else slots.get u

/-- With a buffer that is taken the name decides. -/
theorem hbiAdapterGptOssBindWeights_ok_iff (hinit : ctx.initialized = true) {call : BindCall F}
    (hwraps : call.buf.Wraps call.shape) :
    (hbiAdapterGptOssBindWeights ctx slots call).2 = .ok () ↔
      ∃ t, bindTarget ctx.numLayers call.name = .ok t := by
  rcases hbiAdapterGptOssBindWeights_cases hinit call with
    ⟨t, b, htarget, -, -, -, heq⟩ | ⟨hnone, f, heq⟩
  · rw [heq]
    exact ⟨fun _ => ⟨t, htarget⟩, fun _ => rfl⟩
  · rw [heq]
    refine ⟨fun h => (by cases h), ?_⟩
    rintro ⟨t, ht⟩
    exact absurd ⟨t, ht, hwraps⟩ hnone

theorem hbiAdapterGptOssBindWeights_bound (hinit : ctx.initialized = true)
    (hshaped : slots.Shaped ctx) {call : BindCall F} {t : ModelTensor}
    (hwraps : call.buf.Wraps call.shape) (ht : bindTarget ctx.numLayers call.name = .ok t) :
    ∃ b, bindWeightTensor call.buf .fp32 call.shape = .ok b ∧
      ∀ u, (hbiAdapterGptOssBindWeights ctx slots call).1.get u =
        if u = t then some b else slots.get u := by
  obtain ⟨b, hb⟩ := hwraps.bind
  refine ⟨b, hb, ?_⟩
  have hset : (hbiAdapterGptOssBindWeights ctx slots call).1 = slots.set b t := by
    simp [hbiAdapterGptOssBindWeights, hwraps.addr_pos.ne', hinit, ht, hb]
  intro u
  rw [hset]
  exact slots.get_set b (hshaped ▸ bindTarget_within ht) u

/-- For every number of layers and every name, with a buffer and a shape that are taken: the
name is accepted exactly when it is generated, and bound to the slot it was generated for,
exactly when it is not a name whose layer is written otherwise than it is printed. Two such
names that select one slot are the same. -/
theorem gpt_oss_bind_weights_names_iff (hinit : ctx.initialized = true)
    (hlayers : ctx.numLayers < uint32Size) (hshaped : slots.Shaped ctx) :
    (∀ call : BindCall F, call.buf.Wraps call.shape →
      (BoundByName ctx slots call ↔ ¬ Misspelled ctx.numLayers call.name)) ∧
    ∀ name name' t, ¬ Misspelled ctx.numLayers name → ¬ Misspelled ctx.numLayers name' →
      bindTarget ctx.numLayers name = .ok t → bindTarget ctx.numLayers name' = .ok t →
        name = name' := by
  refine ⟨?_, ?_⟩
  · intro call hwraps
    constructor
    · rintro ⟨haccepts, -⟩ hmisspelled
      obtain ⟨htarget, hforeign⟩ := hmisspelled.accepted
      obtain ⟨t, ht, hname⟩ := haccepts.mp
        ((hbiAdapterGptOssBindWeights_ok_iff hinit hwraps).mpr htarget)
      exact hforeign t ht hlayers hname
    · intro hplain
      refine ⟨(hbiAdapterGptOssBindWeights_ok_iff hinit hwraps).trans ?_, ?_⟩
      · constructor
        · rintro ⟨t, ht⟩
          exact ⟨t, bindTarget_within ht, eq_name_of_bindTarget hplain ht⟩
        · rintro ⟨t, ht, hname⟩
          exact ⟨t, hname ▸ bindTarget_name hlayers ht⟩
      · intro t ht hname
        exact hbiAdapterGptOssBindWeights_bound hinit hshaped hwraps
          (hname ▸ bindTarget_name hlayers ht)
  · intro name name' t hplain hplain' ht ht'
    rw [eq_name_of_bindTarget hplain ht, eq_name_of_bindTarget hplain' ht']

end Bound

section Instances

theorem gpt_oss_bind_weights_names_small :
    ∃ ctx, gptOssCreateContext sharedDescriptor (0 : Int) 1 freeBlocks = some (.ok ctx) ∧
      ((∀ call : BindCall Int, call.buf.Wraps call.shape →
        (BoundByName ctx (WeightSlots.empty Int ctx.numLayers) call ↔
          ¬ Misspelled ctx.numLayers call.name)) ∧
      ∀ name name' t, ¬ Misspelled ctx.numLayers name → ¬ Misspelled ctx.numLayers name' →
        bindTarget ctx.numLayers name = .ok t → bindTarget ctx.numLayers name' = .ok t →
          name = name') := by
  obtain ⟨ctx, hcreate⟩ : ∃ ctx,
      gptOssCreateContext sharedDescriptor (0 : Int) 1 freeBlocks = some (.ok ctx) := ⟨_, rfl⟩
  obtain ⟨page, -, hsized⟩ := gptOssCreateContext_sized hcreate
  have hlayers : ctx.numLayers < uint32Size := by
    rw [hsized.numLayers]
    decide
  exact ⟨ctx, hcreate, gpt_oss_bind_weights_names_iff hsized.initialized hlayers
    (WeightSlots.empty_shaped ctx)⟩

/-- A number that is printed for no layer and loses all its high bits. -/
def wrappedName : List UInt8 := bytes "model.layers.4294967296.input_layernorm.weight"

/-- The model of one layer takes it as the name of its first norm. -/
theorem gpt_oss_bind_weights_wrapped :
    ∃ ctx, gptOssCreateContext sharedDescriptor (0 : Int) 1 freeBlocks = some (.ok ctx) ∧
      (hbiAdapterGptOssBindWeights ctx (WeightSlots.empty Int ctx.numLayers)
        ⟨wrappedName, ⟨64, fun _ => 1⟩, ⟨[2]⟩⟩).2 = .ok () ∧
      bindTarget ctx.numLayers wrappedName = .ok (.layer 0 .inputNorm) ∧
      ¬ ∃ t : ModelTensor, t.Within ctx.numLayers ∧ wrappedName = t.name := by
  have hmisspelled : Misspelled 1 wrappedName :=
    ⟨some (Numeral.ofNat (2 ^ 32)), .inputNorm, by decide +kernel, by decide +kernel,
      by decide +kernel, by decide +kernel⟩
  refine ⟨_, rfl, by decide +kernel, by decide +kernel, ?_⟩
  rintro ⟨t, ht, hname⟩
  exact hmisspelled.accepted.2 t ht (by decide) hname

end Instances

end Hummingbird

import Hummingbird.Common

/-!
From the metadata of a model file to the descriptor of a GPT-OSS model: the numeric
parser, the check of the required keys and the construction of the descriptor. Only the
geometry of the descriptor is kept, which is what the context and the forward pass read.
-/

namespace Hummingbird

/-- Key and value strings in the order they were set. -/
abbrev ModelMetadata := List (String × String)

def hbiModelMetadataGet (md : ModelMetadata) (key : String) : Option String :=
  (md.find? fun pair => pair.1 == key).map Prod.snd

/-- `isspace` in the C locale. -/
def isSpaceC (c : Char) : Bool := c == ' ' || (9 ≤ c.toNat && c.toNat ≤ 13)

def longMax : Int := 9223372036854775807

def longMin : Int := -9223372036854775808

/-- `strtol` in base ten: the value, clamped to a 64-bit `long`, and the text from the
end pointer on. Without digits nothing is consumed. -/
def strtol (s : List Char) : Int × List Char :=
  let body := s.dropWhile isSpaceC
  let (negative, body) := match body with
    | '-' :: rest => (true, rest)
    | '+' :: rest => (false, rest)
    | rest => (false, rest)
  let digits := body.takeWhile Char.isDigit
  if digits.isEmpty then (0, s)
  else
    let n := digits.foldl (fun n c => 10 * n + (c.toNat - '0'.toNat)) 0
    let v : Int := if negative then -(n : Int) else n
    (max longMin (min v longMax), body.dropWhile Char.isDigit)

/-- `parse_uint32`: the cast keeps the low 32 bits. -/
def parseUint32 (s : String) : Option Nat :=
  if s.toList.isEmpty then none
  else
    let (v, rest) := strtol s.toList
    if !rest.isEmpty || v < 0 then none else some (v.toNat % uint32Size)

def gptOssName : String := "gpt_oss"

def hbiGptOssMaxLayers : Nat := 256

/-- `k_required`. -/
def requiredKeys : List String :=
  ["hidden_size", "intermediate_size", "num_attention_heads", "num_key_value_heads",
    "num_hidden_layers", "vocab_size", "max_position_embeddings"]

/-- One round of the loop over the required keys. -/
def checkRequired (md : ModelMetadata) (key : String) : Result Unit :=
  match hbiModelMetadataGet md key with
  | none => errSet .notFound s!"gpt_oss validate: missing required key '{key}'"
  | some val =>
      match parseUint32 val with
      | none => errSet .corrupt s!"gpt_oss validate: '{key}' = '{val}' is not a valid uint32"
      | some n =>
          if n = 0 then errSet .corrupt s!"gpt_oss validate: '{key}' must be > 0" else .ok ()

def gptOssValidateMetadata (md : ModelMetadata) : Result Unit :=
  let arch := hbiModelMetadataGet md "architecture"
  let got := arch.getD "(null)"
  if arch ≠ some gptOssName then
    errSet .notFound s!"gpt_oss validate: expected architecture='{gptOssName}', got '{got}'"
  else requiredKeys.forM (checkRequired md)

structure ModelDescriptor where
  hiddenSize : Nat
  intermediateSize : Nat
  numAttentionHeads : Nat
  numKvHeads : Nat
  numLayers : Nat
  vocabSize : Nat
  maxSeqLength : Nat
  deriving DecidableEq, Repr

/-- A number of the metadata; one that is missing or does not parse stays zero. -/
def metadataUint32 (md : ModelMetadata) (key : String) : Nat :=
  ((hbiModelMetadataGet md key).bind parseUint32).getD 0

def gptOssBuildDescriptor (md : ModelMetadata) : Result ModelDescriptor :=
  let qHeads := metadataUint32 md "num_attention_heads"
  let kvHeads := metadataUint32 md "num_key_value_heads"
  let layers := metadataUint32 md "num_hidden_layers"
  if layers > hbiGptOssMaxLayers then
    errSet .corrupt s!"gpt_oss build_descriptor: num_layers {layers} > max {hbiGptOssMaxLayers}"
  else
    .ok
      { hiddenSize := metadataUint32 md "hidden_size"
        intermediateSize := metadataUint32 md "intermediate_size"
        numAttentionHeads := qHeads
        numKvHeads := if kvHeads > 0 then kvHeads else qHeads
        numLayers := layers
        vocabSize := metadataUint32 md "vocab_size"
        maxSeqLength := metadataUint32 md "max_position_embeddings" }

/-- What validation and construction together leave of a descriptor: seven positive
`uint32_t` values, with a bound on the layers. -/
structure ModelDescriptor.Accepted (desc : ModelDescriptor) : Prop where
  hidden : 0 < desc.hiddenSize ∧ desc.hiddenSize < uint32Size
  intermediate : 0 < desc.intermediateSize ∧ desc.intermediateSize < uint32Size
  attentionHeads : 0 < desc.numAttentionHeads ∧ desc.numAttentionHeads < uint32Size
  kvHeads : 0 < desc.numKvHeads ∧ desc.numKvHeads < uint32Size
  layers : 0 < desc.numLayers ∧ desc.numLayers ≤ hbiGptOssMaxLayers
  vocab : 0 < desc.vocabSize ∧ desc.vocabSize < uint32Size
  seqLength : 0 < desc.maxSeqLength ∧ desc.maxSeqLength < uint32Size

theorem parseUint32_lt {s : String} {n : Nat} (h : parseUint32 s = some n) : n < uint32Size := by
  unfold parseUint32 at h
  by_cases hempty : s.toList.isEmpty = true
  · simp [hempty] at h
  · simp only [hempty, Bool.false_eq_true, if_false, Option.ite_none_left_eq_some,
      Option.some.injEq] at h
    rw [← h.2]
    exact Nat.mod_lt _ (by decide)

theorem checkRequired_eq_ok {md : ModelMetadata} {key : String}
    (h : checkRequired md key = .ok ()) :
    0 < metadataUint32 md key ∧ metadataUint32 md key < uint32Size := by
  unfold checkRequired at h
  unfold metadataUint32
  cases hget : hbiModelMetadataGet md key with
  | none => simp [hget] at h
  | some val =>
      simp only [hget] at h
      cases hparse : parseUint32 val with
      | none => simp [hparse] at h
      | some n =>
          simp only [hparse, Result.ite_errSet_eq_ok] at h
          simp only [Option.bind_some, hparse, Option.getD_some]
          exact ⟨Nat.pos_of_ne_zero h.1, parseUint32_lt hparse⟩

theorem forM_checkRequired {md : ModelMetadata} {keys : List String}
    (h : keys.forM (checkRequired md) = .ok ()) :
    ∀ key ∈ keys, 0 < metadataUint32 md key ∧ metadataUint32 md key < uint32Size := by
  induction keys with
  | nil => simp
  | cons key keys ih =>
      change (checkRequired md key >>= fun _ => keys.forM (checkRequired md)) = .ok () at h
      rw [Result.bind_eq_ok] at h
      obtain ⟨⟨⟩, hkey, hrest⟩ := h
      intro k hk
      rcases List.mem_cons.mp hk with rfl | hk
      · exact checkRequired_eq_ok hkey
      · exact ih hrest k hk

/-- Metadata that pass both steps give an accepted descriptor. -/
theorem gptOssBuildDescriptor_accepted {md : ModelMetadata} {desc : ModelDescriptor}
    (hvalid : gptOssValidateMetadata md = .ok ()) (hbuild : gptOssBuildDescriptor md = .ok desc) :
    desc.Accepted := by
  simp only [gptOssValidateMetadata, Result.ite_errSet_eq_ok] at hvalid
  have hkeys := forM_checkRequired hvalid.2
  simp only [gptOssBuildDescriptor, Result.ite_errSet_eq_ok, Except.ok.injEq] at hbuild
  obtain ⟨hlayers, rfl⟩ := hbuild
  have hkv := hkeys "num_key_value_heads" (by simp [requiredKeys])
  refine ⟨hkeys _ (by simp [requiredKeys]), hkeys _ (by simp [requiredKeys]),
    hkeys _ (by simp [requiredKeys]), ?_,
    ⟨(hkeys _ (by simp [requiredKeys])).1, not_lt.mp hlayers⟩,
    hkeys _ (by simp [requiredKeys]), hkeys _ (by simp [requiredKeys])⟩
  simpa only [gt_iff_lt, hkv.1, if_true] using hkv

end Hummingbird

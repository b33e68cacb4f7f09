import Hummingbird.Foundation.Rounding
import Hummingbird.Tensor.Quant

/-!
Numbers of the formats on disk as `float` values. A buffer is the list of its bytes, and a
read outside of it has no result. A float is its value, and a NaN has none. In MXFP4 every
element is a number of four bits times the power of two of its block.
-/

namespace Hummingbird

open Rounding

/-- A `float` by its value. -/
abbrev Fp32 := Option Number

def Fp32.mul (x y : Fp32) : Fp32 := x.bind fun x => y.bind fun y => binary32.mul x y

/-- A word of so many bytes at an offset, the low byte first. -/
def readWord (src : List UInt8) (offset len : Nat) : Option Nat :=
  if offset + len ≤ src.length then
    some (((src.drop offset).take len).foldr (fun b v => b.toNat + 256 * v) 0)
  else none

/-- The loop that shifts a fraction up to its leading bit. A fraction of ten bits that is not
zero gets there in ten turns. -/
def normalizeFraction : (fuel : Nat) → (exp mant : UInt32) → UInt32 × UInt32
  | 0, exp, mant => (exp, mant)
  | fuel + 1, exp, mant =>
      if mant &&& 0x400 = 0 then normalizeFraction fuel (exp - 1) (mant <<< 1) else (exp, mant)

def fp16ToFp32 (h : UInt16) : Fp32 :=
  let sign : UInt32 := (h &&& 0x8000).toUInt32 <<< 16
  let exp : UInt32 := (h >>> 10).toUInt32 &&& 0x1F
  let mant : UInt32 := h.toUInt32 &&& 0x3FF
  if exp = 0 then
    if mant = 0 then ofBits32 sign
    else
      let (exp, mant) := normalizeFraction 10 (127 - 15 + 1) mant
      ofBits32 (sign ||| exp <<< 23 ||| (mant &&& 0x3FF) <<< 13)
  else if exp = 0x1F then ofBits32 (sign ||| (0x7F800000 : UInt32) ||| mant <<< 13)
  else
    let exp := exp - 15 + 127
    ofBits32 (sign ||| exp <<< 23 ||| mant <<< 13)

def bf16ToFp32 (b : UInt16) : Fp32 := ofBits32 (b.toUInt32 <<< 16)

def kE2m1Lut : List Number :=
  [.finite false 0, .finite false (1 / 2), .finite false 1, .finite false (3 / 2),
    .finite false 2, .finite false 3, .finite false 4, .finite false 6,
    .finite true 0, .finite true (1 / 2), .finite true 1, .finite true (3 / 2),
    .finite true 2, .finite true 3, .finite true 4, .finite true 6]

def e8m0ToScale (e : UInt8) : Fp32 :=
  if e = 0xFF then some (.finite false 0)
  else
    let unbiased : Int := e.toNat - 127
    ofBits32 (UInt32.ofNat (unbiased + 127).toNat <<< 23)

/-- A missing pointer is no metadata. -/
def hbiQuantMxfp4Validate (quant : Option QuantMeta) (n : Nat) : Result Unit :=
  match quant with
  | none => errSet .corrupt "mxfp4_validate: NULL meta"
  | some m =>
      if m.groupSize ≠ 32 then
        errSet .corrupt s!"mxfp4_validate: group_size {m.groupSize} != 32"
      else if m.scales = 0 then errSet .corrupt "mxfp4_validate: NULL scales"
      else if m.scaleDtype ≠ .int8 then
        errSet .corrupt s!"mxfp4_validate: scale_dtype {hbiDtypeStr m.scaleDtype} != int8"
      else
        let want := (n + 31) % sizeTSize / 32
        if m.numScales ≠ want then
          errSet .corrupt s!"mxfp4_validate: num_scales {m.numScales} != {want}"
        else .ok ()

/-- One turn of the loop of `dequant_mxfp4`, on the bytes that the scales point to. -/
def dequantMxfp4At (src scales : List UInt8) (highFirst : Bool) (i : Nat) : Option Fp32 := do
  let byte ← src[i >>> 1]?
  let isHigh : Bool := i &&& 1 ≠ 0
  let isHigh := if highFirst then !isHigh else isHigh
  let nib := if isHigh then byte >>> 4 else byte &&& 0x0F
  let scale ← scales[i >>> 5]?
  let x ← kE2m1Lut[nib.toNat]?
  return Fp32.mul (some x) (e8m0ToScale scale)

def dequantMxfp4 (src scales : List UInt8) (n : Nat) (quant : Option QuantMeta) :
    Option (Result (List Fp32)) :=
  match hbiQuantMxfp4Validate quant n with
  | .error f => some (.error f)
  | .ok () =>
      let highFirst : Bool := quant.any fun m => m.nibbleOrder = .highFirst
      ((List.range n).mapM (dequantMxfp4At src scales highFirst)).map .ok

/-- What is written to `dst`, on the bytes of the source and those the scales point to. -/
def hbiQuantDequantizeToFp32 (srcDtype : Dtype) (src scales : List UInt8) (n : Nat)
    (quant : Option QuantMeta) : Option (Result (List Fp32)) :=
  if n = 0 then some (errSet .invalidArg "dequant: NULL src/dst or zero elems")
  else
    match srcDtype with
    | .fp32 =>
        ((List.range n).mapM fun i => (readWord src (4 * i) 4).map fun w =>
          ofBits32 (UInt32.ofNat w)).map .ok
    | .fp16 =>
        ((List.range n).mapM fun i => (readWord src (2 * i) 2).map fun w =>
          fp16ToFp32 (UInt16.ofNat w)).map .ok
    | .bf16 =>
        ((List.range n).mapM fun i => (readWord src (2 * i) 2).map fun w =>
          bf16ToFp32 (UInt16.ofNat w)).map .ok
    | .mxfp4 => dequantMxfp4 src scales n quant
    | dt => some (errSet .unsupported s!"dequant: unsupported dtype {hbiDtypeStr dt}")

/-- The number that four bits stand for: a sign, two bits of exponent, a bit of fraction. -/
def e2m1 (nibble : Nat) : Bool × ℚ :=
  (nibble / 8 = 1,
    if nibble / 2 % 4 = 0 then (nibble % 2 : Nat) / 2
    else (1 + (nibble % 2 : Nat) / 2) * 2 ^ (nibble / 2 % 4 - 1))

/-- The half of its byte that an element has, as the order says. -/
def NibbleOrder.nibble (order : NibbleOrder) (src : List UInt8) (i : Nat) : Nat :=
  let byte := (src.getD (i / 2) 0).toNat
  match order with
  | .lowFirst => if i % 2 = 0 then byte % 16 else byte / 16
  | .highFirst => if i % 2 = 0 then byte / 16 else byte % 16

/-- The float nearest to the number of an element. -/
def mxfp4Value (order : NibbleOrder) (src scales : List UInt8) (i : Nat) : Number :=
  let x := e2m1 (order.nibble src i)
  binary32.round x.1 (x.2 * 2 ^ (((scales.getD (i / 32) 0).toNat : Int) - 127))

/-- The scale of a block is its power of two, the smallest one apart. -/
theorem e8m0ToScale_eq {e : UInt8} (hzero : e ≠ 0) (hreserved : e ≠ 0xFF) :
    e8m0ToScale e = some (.finite false (2 ^ ((e.toNat : Int) - 127))) := by
  have hall : ∀ n < 256, (UInt32.ofNat n <<< 23).toNat = n * 2 ^ 23 := by decide +kernel
  have hpos : e.toNat ≠ 0 := fun h => hzero (UInt8.toNat_inj.mp h)
  have hlt : e.toNat ≠ 255 := fun h => hreserved (UInt8.toNat_inj.mp h)
  have hle := e.toNat_lt
  have hbits : ((e.toNat : Int) - 127 + 127).toNat = e.toNat := by omega
  unfold e8m0ToScale
  rw [if_neg hreserved]
  dsimp only
  rw [hbits]
  exact ofBits32_of_exponent (hall e.toNat hle) (by omega) (by omega)

theorem kE2m1Lut_eq {nibble : Nat} (h : nibble < 16) :
    kE2m1Lut[nibble]? = some (.finite (e2m1 nibble).1 (e2m1 nibble).2) := by
  revert nibble
  decide +kernel

/-- With the smallest scale only a zero comes out as it should. -/
theorem mul_smallest_scale {nibble : Nat} (h : nibble < 16) :
    Fp32.mul (some (.finite (e2m1 nibble).1 (e2m1 nibble).2)) (e8m0ToScale 0) =
        some (binary32.round (e2m1 nibble).1 ((e2m1 nibble).2 * 2 ^ ((0 : Int) - 127))) ↔
      nibble % 8 = 0 := by
  revert nibble
  decide +kernel

theorem mapM_eq_some {α β : Type} {f : α → Option β} {g : α → β} {xs : List α}
    (h : ∀ x ∈ xs, f x = some (g x)) : xs.mapM f = some (xs.map g) := by
  induction xs with
  | nil => rfl
  | cons x xs ih =>
      rw [List.mapM_cons, h x (by simp), ih fun y hy => h y (by simp [hy])]
      rfl

/-- The two halves of a byte, chosen by the parity of the element and the order. -/
theorem nibble_of_byte (order : NibbleOrder) (src : List UInt8) {i : Nat}
    (hi : i / 2 < src.length) :
    (if (if decide (order = .highFirst) then !decide (i &&& 1 ≠ 0) else decide (i &&& 1 ≠ 0))
      then src[i / 2] >>> 4 else src[i / 2] &&& 0x0F).toNat = order.nibble src i := by
  have hlow : (src[i / 2] &&& 0x0F).toNat = src[i / 2].toNat % 16 := by
    rw [UInt8.toNat_and]
    exact Nat.and_two_pow_sub_one_eq_mod _ 4
  have hhigh : (src[i / 2] >>> 4).toNat = src[i / 2].toNat / 16 := by
    rw [UInt8.toNat_shiftRight]
    exact Nat.shiftRight_eq_div_pow _ 4
  have hbit : i &&& 1 = i % 2 := Nat.and_one_is_mod i
  unfold NibbleOrder.nibble
  rw [List.getD_eq_getElem _ _ hi]
  dsimp only
  rw [hbit]
  rcases Nat.mod_two_eq_zero_or_one i with hpar | hpar <;> cases order <;>
    simp [hpar, hlow, hhigh]

theorem NibbleOrder.nibble_lt (order : NibbleOrder) (src : List UInt8) (i : Nat) :
    order.nibble src i < 16 := by
  have hlt := (src.getD (i / 2) 0).toNat_lt
  unfold NibbleOrder.nibble
  dsimp only
  split <;> split <;> omega

section Decoding

variable {n : Nat} {m : QuantMeta} {src scales : List UInt8}

/-- What the loop makes of an element inside both buffers. -/
theorem dequantMxfp4At_eq {i : Nat} (hsrc : i / 2 < src.length) (hscales : i / 32 < scales.length) :
    dequantMxfp4At src scales (m.nibbleOrder = .highFirst) i =
      some (Fp32.mul (some (.finite (e2m1 (m.nibbleOrder.nibble src i)).1
        (e2m1 (m.nibbleOrder.nibble src i)).2)) (e8m0ToScale (scales.getD (i / 32) 0))) := by
  have hnibble := nibble_of_byte m.nibbleOrder src hsrc
  have hlut := kE2m1Lut_eq (m.nibbleOrder.nibble_lt src i)
  simp only [dequantMxfp4At, Nat.shiftRight_eq_div_pow, pow_one, show 2 ^ 5 = 32 from rfl,
    List.getElem?_eq_getElem hsrc, List.getElem?_eq_getElem hscales, Option.bind_eq_bind,
    Option.bind_some]
  rw [hnibble, hlut, List.getD_eq_getElem _ _ hscales]
  rfl

/-- An element is written as the nearest float exactly when its scale is not the smallest one,
or it is a zero. -/
theorem dequantized_eq_iff {i : Nat} (hreserved : scales.getD (i / 32) 0 ≠ 0xFF) :
    Fp32.mul (some (.finite (e2m1 (m.nibbleOrder.nibble src i)).1
        (e2m1 (m.nibbleOrder.nibble src i)).2)) (e8m0ToScale (scales.getD (i / 32) 0)) =
        some (mxfp4Value m.nibbleOrder src scales i) ↔
      (scales.getD (i / 32) 0 = 0 → m.nibbleOrder.nibble src i % 8 = 0) := by
  unfold mxfp4Value
  by_cases hzero : scales.getD (i / 32) 0 = 0
  · have hsmall := mul_smallest_scale (m.nibbleOrder.nibble_lt src i)
    rw [hzero]
    simpa using hsmall
  · rw [e8m0ToScale_eq hzero hreserved]
    simp only [Fp32.mul, Option.bind_some, Format.mul, Bool.bne_false, hzero, false_imp_iff]

end Decoding

/-- On buffers of the size that the elements need, which are not read past their ends, every
element is written as the float nearest to its number exactly when no number but zero has the
smallest scale. -/
theorem mxfp4_decoding_exact_iff {n : Nat} {m : QuantMeta} {src scales : List UInt8}
    (hn : 1 ≤ n) (hvalid : hbiQuantMxfp4Validate (some m) n = .ok ())
    (hsrc : src.length = (n + 1) / 2) (hscales : scales.length = m.numScales)
    (hblocks : m.numScales = (n + 31) / 32) (hreserved : ∀ e ∈ scales, e ≠ 0xFF) :
    hbiQuantDequantizeToFp32 .mxfp4 src scales n (some m) =
        some (.ok ((List.range n).map fun i => some (mxfp4Value m.nibbleOrder src scales i))) ↔
      ∀ i < n, scales.getD (i / 32) 0 = 0 → m.nibbleOrder.nibble src i % 8 = 0 := by
  have hblock : ∀ i < n, i / 32 < scales.length := by
    intro i hi
    omega
  have hturns := @mapM_eq_some Nat Fp32
    (dequantMxfp4At src scales (m.nibbleOrder = .highFirst)) _ (List.range n) fun i hi =>
      dequantMxfp4At_eq (m := m) (by have := List.mem_range.mp hi; omega)
        (hblock i (List.mem_range.mp hi))
  have hvalue : ∀ i < n, scales.getD (i / 32) 0 ≠ 0xFF := by
    intro i hi
    rw [List.getD_eq_getElem _ _ (hblock i hi)]
    exact hreserved _ (List.getElem_mem _)
  unfold hbiQuantDequantizeToFp32 dequantMxfp4
  rw [if_neg (by omega)]
  dsimp only
  rw [hvalid]
  dsimp only [Option.any_some]
  rw [hturns, Option.map_some, Option.some.injEq, Except.ok.injEq, List.map_inj_left]
  constructor
  · intro h i hi
    exact (dequantized_eq_iff (hvalue i hi)).mp (h i (List.mem_range.mpr hi))
  · intro h i hi
    have hlt := List.mem_range.mp hi
    exact (dequantized_eq_iff (hvalue i hlt)).mpr (h i hlt)

/-- Metadata of one block, with one scale. -/
def oneBlock (order : NibbleOrder) : QuantMeta :=
  { QuantMeta.zero with
    groupSize := 32, scales := 256, scaleDtype := .int8, numScales := 1, nibbleOrder := order }

/-- Three elements, the last one in half of a byte: 1, -3/2 and 6, all times two. -/
theorem mxfp4_decoding_exact_three :
    hbiQuantDequantizeToFp32 .mxfp4 [0xB2, 0x07] [128] 3 (some (oneBlock .lowFirst)) =
      some (.ok [some (.finite false 2), some (.finite true 3), some (.finite false 12)]) := by
  have hexact := (@mxfp4_decoding_exact_iff 3 (oneBlock .lowFirst) [0xB2, 0x07] [128] (by decide)
    rfl rfl rfl rfl (List.forall_mem_singleton.mpr (by decide))).mpr (by decide)
  rw [hexact]
  decide +kernel

/-- With the smallest scale a one is written as a zero. -/
theorem mxfp4_smallest_scale_flushed :
    hbiQuantMxfp4Validate (some (oneBlock .lowFirst)) 1 = .ok () ∧
      hbiQuantDequantizeToFp32 .mxfp4 [0x02] [0] 1 (some (oneBlock .lowFirst)) =
        some (.ok [some (.finite false 0)]) ∧
      mxfp4Value .lowFirst [0x02] [0] 0 = .finite false (2 ^ (-127 : Int)) := by
  refine ⟨rfl, ?_, ?_⟩
  · decide +kernel
  · decide +kernel

end Hummingbird

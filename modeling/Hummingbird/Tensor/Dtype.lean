import Hummingbird.Common

/-!
Element formats of the tensor runtime. The tables are total on the enumeration,
with the two guard values `invalid` and `count` included, because the graph
builder stores a requested cast target without checking it.
-/

namespace Hummingbird

inductive Dtype where
  | invalid
  | fp32
  | fp16
  | bf16
  | int8
  | int4
  | int2
  | fp8
  | nf4
  | mxfp4
  | count
  deriving DecidableEq, Repr

def hbiDtypeStr : Dtype → String
  | .fp32 => "fp32"
  | .fp16 => "fp16"
  | .bf16 => "bf16"
  | .int8 => "int8"
  | .int4 => "int4"
  | .int2 => "int2"
  | .fp8 => "fp8"
  | .nf4 => "nf4"
  | .mxfp4 => "mxfp4"
  | .invalid | .count => "invalid"

def hbiDtypeBits : Dtype → Nat
  | .fp32 => 32
  | .fp16 | .bf16 => 16
  | .int8 | .fp8 => 8
  | .int4 | .nf4 => 4
  | .int2 => 2
  | .mxfp4 => 4
  | .invalid | .count => 0

def hbiDtypeAlign : Dtype → Nat
  | .fp32 => 4
  | .fp16 | .bf16 => 2
  | .int8 | .fp8 => 1
  | .int4 | .int2 | .nf4 => 1
  | .mxfp4 => 1
  | .invalid | .count => 0

def hbiDtypeIsReserved (dt : Dtype) : Bool := dt = .fp8 ∨ dt = .nf4

def hbiDtypeIsValid (dt : Dtype) : Bool := dt ≠ .invalid ∧ dt ≠ .count

def hbiDtypeIsSubByte (dt : Dtype) : Bool :=
  dt = .int4 ∨ dt = .int2 ∨ dt = .nf4 ∨ dt = .mxfp4

/-- Packed byte count `(count * bits + 7) / 8`, with the two overflow guards. -/
def hbiDtypePackedNbytes (dt : Dtype) (count : Int) : Result Nat :=
  if hbiDtypeIsValid dt = false ∨ count < 0 then
    errSet .invalidArg s!"packed_nbytes: bad dtype {dt.ctorIdx} or count {count}"
  else
    match mulOvfI64 count (hbiDtypeBits dt) with
    | none => errSet .corrupt "packed_nbytes: bit-count overflow"
    | some totalBits =>
      if totalBits > int64Max - 7 then
        errSet .corrupt "packed_nbytes: byte-count overflow"
      else .ok ((totalBits + 7).tdiv 8).toNat

/-- A dtype whose elements occupy whole bytes. -/
def Dtype.ByteAddressable (dt : Dtype) : Prop :=
  hbiDtypeIsValid dt = true ∧ hbiDtypeIsSubByte dt = false

instance (dt : Dtype) : Decidable dt.ByteAddressable :=
  inferInstanceAs (Decidable (_ ∧ _))

theorem hbiDtypeBits_pos {dt : Dtype} (h : hbiDtypeIsValid dt = true) :
    0 < hbiDtypeBits dt := by
  cases dt <;> simp_all [hbiDtypeIsValid, hbiDtypeBits]

theorem hbiDtypeAlign_pos {dt : Dtype} (h : hbiDtypeIsValid dt = true) :
    0 < hbiDtypeAlign dt := by
  cases dt <;> simp_all [hbiDtypeIsValid, hbiDtypeAlign]

theorem hbiDtypeAlign_le (dt : Dtype) : hbiDtypeAlign dt ≤ 4 := by
  cases dt <;> decide

/-- Every natural alignment is a power of two. -/
theorem hbiDtypeAlign_isPow2 {dt : Dtype} (h : hbiDtypeIsValid dt = true) :
    hbiIsPow2 (hbiDtypeAlign dt) = true := by
  cases dt <;> first | rfl | simp [hbiDtypeIsValid] at h

/-- An element of a byte-addressable dtype is `8 * n` bits for a whole number of
bytes `n` that is a multiple of the natural alignment. -/
theorem hbiDtypeBits_bytes {dt : Dtype} (h : dt.ByteAddressable) :
    ∃ n : Nat, 0 < n ∧ hbiDtypeBits dt = 8 * n ∧ hbiDtypeAlign dt ∣ n := by
  obtain ⟨hv, hs⟩ := h
  cases dt with
  | fp32 => exact ⟨4, by decide, rfl, by decide⟩
  | fp16 => exact ⟨2, by decide, rfl, by decide⟩
  | bf16 => exact ⟨2, by decide, rfl, by decide⟩
  | int8 => exact ⟨1, by decide, rfl, by decide⟩
  | fp8 => exact ⟨1, by decide, rfl, by decide⟩
  | invalid | count => simp [hbiDtypeIsValid] at hv
  | int4 | int2 | nf4 | mxfp4 => simp [hbiDtypeIsSubByte] at hs

/-- Sub-byte dtypes are byte-addressed, so any address meets their alignment. -/
theorem hbiDtypeAlign_of_subByte {dt : Dtype} (h : hbiDtypeIsSubByte dt = true) :
    hbiDtypeAlign dt = 1 := by
  cases dt <;> first | rfl | simp [hbiDtypeIsSubByte] at h

/-- The packed size is the bit count rounded up to whole bytes, and it is given
exactly when neither overflow guard fires. -/
theorem hbiDtypePackedNbytes_eq_ok {dt : Dtype} {count : Int} {n : Nat}
    (hdt : hbiDtypeIsValid dt = true) (hcount : 0 ≤ count) :
    hbiDtypePackedNbytes dt count = .ok n ↔
      count * hbiDtypeBits dt ≤ int64Max - 7 ∧
        (n : Int) = (count * hbiDtypeBits dt + 7) / 8 := by
  have hbits : 0 ≤ count * (hbiDtypeBits dt : Int) := by positivity
  have hguard : ¬ (hbiDtypeIsValid dt = false ∨ count < 0) := by
    simp [hdt]
    omega
  unfold hbiDtypePackedNbytes
  rw [if_neg hguard]
  by_cases hfits : count * (hbiDtypeBits dt : Int) ≤ int64Max
  · rw [mulOvfI64_of_fits hbits hfits]
    simp only [Result.ite_errSet_eq_ok, Except.ok.injEq, not_lt]
    rw [Int.tdiv_eq_ediv_of_nonneg (by omega)]
    constructor
    · rintro ⟨hle, rfl⟩
      exact ⟨hle, by omega⟩
    · rintro ⟨hle, hn⟩
      exact ⟨hle, by omega⟩
  · rw [mulOvfI64_of_gt (not_le.mp hfits)]
    simp only [errSet_ne_ok, false_iff]
    omega

theorem hbiDtypePackedNbytes_nonneg {dt : Dtype} {count : Int} {n : Nat}
    (h : hbiDtypePackedNbytes dt count = .ok n) : 0 ≤ count := by
  rw [hbiDtypePackedNbytes, Result.ite_errSet_eq_ok, not_or, not_lt] at h
  exact h.1.2

theorem hbiDtypePackedNbytes_exists {dt : Dtype} {count : Int}
    (hdt : hbiDtypeIsValid dt = true) (hcount : 0 ≤ count)
    (hle : count * hbiDtypeBits dt ≤ int64Max - 7) :
    ∃ n, hbiDtypePackedNbytes dt count = .ok n := by
  have hbits : 0 ≤ count * (hbiDtypeBits dt : Int) := by positivity
  obtain ⟨n, hn⟩ := Int.eq_ofNat_of_zero_le (a := (count * hbiDtypeBits dt + 7) / 8) (by omega)
  exact ⟨n, (hbiDtypePackedNbytes_eq_ok hdt hcount).mpr ⟨hle, hn.symm⟩⟩

end Hummingbird

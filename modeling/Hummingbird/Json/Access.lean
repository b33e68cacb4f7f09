import Hummingbird.Json.Print

/-!
The readers of a document. A pointer to a value may be null. Text is what a C string shows
of a buffer; a key is found by the text before its first `NUL`. The conversion of a double
to `int64_t` is undefined outside the range, so what the target does there is a parameter,
and so is the text of `%g`.
-/

namespace Hummingbird

/-- The C string in a buffer. -/
def cString (s : List UInt8) : List UInt8 := s.takeWhile (· ≠ 0)

/-- What the platform does with a double. -/
structure DoubleEnv where
  formatG : Rounding.Number → String
  castWild : Rounding.Number → Int

def hbiJsonIsObject : Option JsonValue → Bool
  | some (.object _) => true
  | _ => false

def hbiJsonIsArray : Option JsonValue → Bool
  | some (.array _) => true
  | _ => false

def hbiJsonIsString : Option JsonValue → Bool
  | some (.string _) => true
  | _ => false

def hbiJsonObjectGet (v : Option JsonValue) (key : List UInt8) : Option JsonValue :=
  match v with
  | some (.object members) =>
      (members.find? fun m => cString m.1 = cString key).map Prod.snd
  | _ => none

/-- The members in order, as `hbi_json_object_count` and `hbi_json_object_member_at` give
them to a loop. -/
def hbiJsonMembers : Option JsonValue → List (List UInt8 × JsonValue)
  | some (.object members) => members.map fun m => (cString m.1, m.2)
  | _ => []

/-- The items in order, as `hbi_json_array_count` and `hbi_json_array_at` give them to a
loop. -/
def hbiJsonItems : Option JsonValue → List JsonValue
  | some (.array items) => items
  | _ => []

def hbiJsonArrayAt (v : Option JsonValue) (i : Nat) : Option JsonValue := (hbiJsonItems v)[i]?

def hbiJsonAsString : Option JsonValue → Option (List UInt8)
  | some (.string s) => some (cString s)
  | _ => none

/-- `(int64_t)d`. -/
def castInt64 (env : DoubleEnv) (d : Rounding.Number) : Int :=
  match d.trunc with
  | some n => if int64Min ≤ n ∧ n ≤ int64Max then n else env.castWild d
  | none => env.castWild d

/-- The cast of the first check comes before the check of the range. -/
def hbiJsonAsInt (env : DoubleEnv) : Option JsonValue → Result Int
  | some (.number d) =>
      if d.equal (Rounding.binary64.ofInt (castInt64 env d)) = false then
        errSet .corrupt s!"json_as_int: {env.formatG d} is not integral"
      else if d.below (-9223372036854775808) = true ∨ d.below 9223372036854775808 = false then
        errSet .corrupt s!"json_as_int: {env.formatG d} out of int64 range"
      else .ok (castInt64 env d)
  | _ => errSet .invalidArg "json_as_int: not a number / NULL out"

theorem cString_of_notMem {s : List UInt8} (h : 0 ∉ s) : cString s = s := by
  unfold cString
  rw [List.takeWhile_eq_self_iff]
  intro c hc
  simpa using ne_of_mem_of_not_mem hc h

/-- Whatever the platform does out of range, an accepted number is an `int64_t`. -/
theorem hbiJsonAsInt_range {env : DoubleEnv} {v : Option JsonValue} {n : Int}
    (h : hbiJsonAsInt env v = .ok n) : int64Min ≤ n ∧ n ≤ int64Max := by
  unfold hbiJsonAsInt at h
  split at h
  · rename_i d
    rw [Result.ite_errSet_eq_ok, Result.ite_errSet_eq_ok] at h
    obtain ⟨_, hrange, hcast⟩ := h
    rw [not_or, Bool.not_eq_true, Bool.not_eq_false] at hrange
    obtain ⟨hlo, hhi⟩ := hrange
    obtain rfl := Except.ok.inj hcast
    cases hd : d.trunc with
    | none =>
        cases d with
        | finite negative x => cases hd
        | infinite negative => exact absurd (hlo.symm.trans hhi) (by decide)
    | some m =>
        have hbounds := @Rounding.Number.trunc_bounds d m (-9223372036854775808)
          9223372036854775808 hd (by omega) (by exact_mod_cast hlo) (by exact_mod_cast hhi)
        unfold castInt64 int64Min int64Max
        rw [hd]
        dsimp only
        rw [if_pos (by omega)]
        omega
  · simp at h

/-- A whole number that is a double is read as it is when it is an `int64_t`, and refused
otherwise. -/
theorem hbiJsonAsInt_whole {env : DoubleEnv} {negative : Bool} {y : Nat} {m : Int}
    (hy : Rounding.binary64.Holds y) :
    hbiJsonAsInt env (some (.number (.finite negative y))) = .ok m ↔
      (Rounding.Number.finite negative y).trunc = some m ∧ int64Min ≤ m ∧ m ≤ int64Max := by
  have htrunc := Rounding.Number.trunc_natCast negative y
  have hsigned := Rounding.signed_natCast negative y
  rw [htrunc]
  generalize hz : (if negative then -(y : Int) else y : Int) = z at *
  have hlo : ((Rounding.Number.finite negative y).below (-9223372036854775808) = true) ↔
      z < int64Min := by
    simp only [Rounding.Number.below, hsigned, decide_eq_true_eq, int64Min]
    exact_mod_cast Iff.rfl
  have hhi : ((Rounding.Number.finite negative y).below 9223372036854775808 = false) ↔
      int64Max < z := by
    simp only [Rounding.Number.below, hsigned, decide_eq_false_iff_not, not_lt, int64Max]
    constructor
    · intro h
      have hle : (9223372036854775808 : Int) ≤ z := by exact_mod_cast h
      omega
    · intro h
      have hle : (9223372036854775808 : Int) ≤ z := by omega
      exact_mod_cast hle
  unfold hbiJsonAsInt
  dsimp only
  rw [Result.ite_errSet_eq_ok, Result.ite_errSet_eq_ok, hlo, hhi]
  constructor
  · rintro ⟨-, hrange, hcast⟩
    have hin : int64Min ≤ z ∧ z ≤ int64Max := by omega
    unfold castInt64 at hcast
    rw [htrunc] at hcast
    dsimp only at hcast
    rw [if_pos hin] at hcast
    obtain rfl := Except.ok.inj hcast
    exact ⟨rfl, hin⟩
  · rintro ⟨hm, hin⟩
    obtain rfl := Option.some.inj hm
    have hcast : castInt64 env (.finite negative y) = z := by
      unfold castInt64
      rw [htrunc]
      exact if_pos hin
    have habs : z.natAbs = y := by
      rw [← hz]
      split <;> simp
    have hbound : (y : ℚ) < 2 ^ Rounding.binary64.overflow := by
      have hy : y ≤ 9223372036854775808 := by
        unfold int64Min int64Max at hin
        omega
      have hle : (y : ℚ) ≤ 2 ^ (63 : Int) := by
        norm_num
        exact_mod_cast hy
      exact lt_of_le_of_lt hle (zpow_lt_zpow_right₀ (by norm_num) (by decide))
    have hround : Rounding.binary64.ofInt z = .finite (z < 0) z.natAbs := by
      unfold Rounding.Format.ofInt
      rw [habs]
      exact hy.round _ (by decide) (by decide) hbound
    refine ⟨?_, by omega, by rw [hcast]⟩
    rw [hcast, hround, Rounding.Number.equal, hsigned, Rounding.signed_natAbs]
    simp

theorem hbiJsonAsInt_integer {env : DoubleEnv} {n : Int} (h : n.natAbs ≤ integerLimit) :
    hbiJsonAsInt env (some (.integer n)) = .ok n := by
  unfold integerLimit at h
  unfold JsonValue.integer
  rw [hbiJsonAsInt_whole ⟨n.natAbs, 0, h, by simp⟩, Rounding.Number.trunc_natCast]
  unfold int64Min int64Max
  refine ⟨congrArg some ?_, by omega, by omega⟩
  split
  · rename_i hneg
    have hlt : n < 0 := by simpa using hneg
    omega
  · rename_i hneg
    have hge : 0 ≤ n := by simpa using hneg
    omega

end Hummingbird

import Mathlib.Tactic

/-!
Status codes, the error record and the fixed-width integer helpers shared by
every module of the engine. A call that returns `HBI_OK` is `Except.ok`; every
other status is `Except.error` together with the text the call leaves in the
thread's error record. Pointers that the source checks against `NULL` only to
reject a missing argument are values here, so those branches do not appear.
-/

namespace Hummingbird

/-- `hbi_status` without `HBI_OK`. -/
inductive Status where
  | invalidArg
  | oom
  | io
  | notFound
  | unsupported
  | corrupt
  | state
  | again
  | internal
  deriving DecidableEq, Repr

/-- What a failing call hands back: its status and the recorded message. The
message is empty where the source returns a bare status. -/
structure Failure where
  status : Status
  message : String
  deriving DecidableEq, Repr

abbrev Result (α : Type) := Except Failure α

/-- `HBI_ERR_SET` and `HBI_ERR_SETF`. -/
def errSet {α : Type} (status : Status) (message : String) : Result α :=
  .error ⟨status, message⟩

/-- A computation that succeeds after a bind has both of its parts succeed. -/
theorem Result.bind_eq_ok {α β : Type} {x : Result α} {f : α → Result β} {b : β} :
    (x >>= f) = .ok b ↔ ∃ a, x = .ok a ∧ f a = .ok b := by
  cases x with
  | error e => simp [bind, Except.bind]
  | ok a => simp [bind, Except.bind]

@[simp]
theorem errSet_ne_ok {α : Type} (status : Status) (message : String) (a : α) :
    (errSet status message : Result α) ≠ .ok a := by
  simp [errSet]

/-- A guarded failure succeeds exactly when the guard is false. -/
theorem Result.ite_errSet_eq_ok {α : Type} {c : Prop} [Decidable c] {status : Status}
    {message : String} {x : Result α} {a : α} :
    (if c then errSet status message else x) = .ok a ↔ ¬ c ∧ x = .ok a := by
  by_cases hc : c
  · simp [hc]
  · simp [hc]

def int64Max : Int := 9223372036854775807

def int64Min : Int := -9223372036854775808

def uint32Max : Nat := 4294967295

/-- Number of values of `uint32_t`. -/
def uint32Size : Nat := 4294967296

/-- Number of values of `size_t` and `uint64_t`. -/
def sizeTSize : Nat := 18446744073709551616

/-- Two's-complement value of an `int64_t` sum that may have left the range. -/
def wrapI64 (x : Int) : Int := x.bmod 18446744073709551616

theorem wrapI64_of_fits {x : Int} (hlo : int64Min ≤ x) (hhi : x ≤ int64Max) :
    wrapI64 x = x := by
  unfold wrapI64 int64Min int64Max at *
  apply Int.bmod_eq_of_le <;> omega

theorem wrapI64_wrapI64 (x : Int) : wrapI64 (wrapI64 x) = wrapI64 x :=
  Int.bmod_bmod

theorem wrapI64_add_left (x y : Int) : wrapI64 (wrapI64 x + y) = wrapI64 (x + y) :=
  Int.bmod_add_bmod

theorem wrapI64_add_right (x y : Int) : wrapI64 (x + wrapI64 y) = wrapI64 (x + y) :=
  Int.add_bmod_bmod

/-- The sum of two non-negative `int64_t` values that leaves the range comes out negative. -/
theorem wrapI64_of_gt {x : Int} (hlo : int64Max < x) (hhi : x ≤ 2 * int64Max + 1) :
    wrapI64 x = x - 18446744073709551616 := by
  have hback : wrapI64 (x - 18446744073709551616) = x - 18446744073709551616 := by
    unfold int64Max at *
    exact wrapI64_of_fits (by unfold int64Min; omega) (by unfold int64Max; omega)
  rw [← hback]
  exact (Int.sub_bmod_right x 18446744073709551616).symm

/-- `mul_ovf_i64`: the product when it fits an `int64_t`. -/
def mulOvfI64 (a b : Int) : Option Int :=
  if a = 0 ∨ b = 0 then some 0
  else if int64Min ≤ a * b ∧ a * b ≤ int64Max then some (a * b) else none

theorem mulOvfI64_eq_some {a b c : Int} :
    mulOvfI64 a b = some c ↔ (int64Min ≤ a * b ∧ a * b ≤ int64Max) ∧ c = a * b := by
  unfold mulOvfI64
  by_cases hzero : a = 0 ∨ b = 0
  · have hprod : a * b = 0 := by
      rcases hzero with h | h <;> simp [h]
    simp [hzero, hprod, int64Min, int64Max, eq_comm]
  · by_cases hfits : int64Min ≤ a * b ∧ a * b ≤ int64Max
    · simp [hzero, hfits, eq_comm]
    · simp [hzero, hfits]

theorem mulOvfI64_of_fits {a b : Int} (h0 : 0 ≤ a * b) (hfits : a * b ≤ int64Max) :
    mulOvfI64 a b = some (a * b) := by
  apply mulOvfI64_eq_some.mpr
  refine ⟨⟨?_, hfits⟩, rfl⟩
  unfold int64Min
  omega

theorem mulOvfI64_of_gt {a b : Int} (h : int64Max < a * b) : mulOvfI64 a b = none := by
  cases hmul : mulOvfI64 a b with
  | none => rfl
  | some c => exact absurd (mulOvfI64_eq_some.mp hmul).1.2 (not_le.mpr h)

/-- An entry of a list that was appended to is an old entry or a new one. -/
theorem getElem?_append_cases {α : Type} {xs ys : List α} {i : Nat} {a : α}
    (h : (xs ++ ys)[i]? = some a) :
    xs[i]? = some a ∨ ∃ k, i = xs.length + k ∧ ys[k]? = some a := by
  by_cases hi : i < xs.length
  · rw [List.getElem?_append_left hi] at h
    exact Or.inl h
  · rw [List.getElem?_append_right (not_lt.mp hi)] at h
    exact Or.inr ⟨i - xs.length, by omega, h⟩

/-- `hbi_is_pow2`. -/
def hbiIsPow2 (x : Nat) : Bool := x != 0 && x &&& (x - 1) == 0

/-- Looking up every position gives the list back. -/
theorem filterMap_getElem?_range {α : Type} (l : List α) :
    ((List.range l.length).filterMap fun i => l[i]?) = l := by
  induction l with
  | nil => rfl
  | cons x l ih =>
      rw [List.length_cons, List.range_succ_eq_map]
      simpa [List.filterMap_map, Function.comp_def] using ih

end Hummingbird

import Hummingbird.Common

/-!
The slots of the profiler. A name is the characters of a C string, and a recording adds
one call, update or mark to the statistics of the slot that carries its name. An update of
a slot is a chain of atomic accesses, each of which looks at one field.
-/

namespace Hummingbird

/-- `HBI_PROF_MAX_NAMES`. -/
def hbiProfMaxNames : Nat := 256

/-- `hbi_prof_kind`. -/
inductive ProfKind where
  | scope
  | counter
  | event
  deriving DecidableEq, Repr

/-- What a recording brings: the duration of a scope, or the value of a counter or an event. -/
inductive ProfUpdate where
  | scope (ns : UInt64)
  | counter (delta : Int64)
  | event (value : Int64)
  deriving DecidableEq, Repr

def ProfUpdate.kind : ProfUpdate → ProfKind
  | .scope _ => .scope
  | .counter _ => .counter
  | .event _ => .event

structure Recording where
  name : List UInt8
  update : ProfUpdate
  deriving DecidableEq, Repr

/-- `prof_slot`; an unclaimed slot has no name. -/
structure ProfSlot where
  name : Option (List UInt8)
  hash : UInt32
  kind : ProfKind
  count : UInt64
  total : Int64
  totalNs : UInt64
  minNs : UInt64
  maxNs : UInt64
  deriving DecidableEq, Repr

/-- `UINT64_MAX`, where no duration was seen. -/
def minSentinel : UInt64 := 18446744073709551615

/-- `fnv1a` of the profiler, on 32 bits. -/
def profFnv1a (s : List UInt8) : UInt32 :=
  s.foldl (fun h c => (h ^^^ c.toUInt32) * 16777619) 2166136261

/-- The slots before anything was claimed. -/
def ProfSlot.unclaimed : ProfSlot := ⟨none, 0, .scope, 0, 0, 0, 0, 0⟩

/-- The stores of `slot_for` into a new slot. -/
def ProfSlot.claim (r : Recording) : ProfSlot :=
  { name := some r.name, hash := profFnv1a r.name, kind := r.update.kind, count := 0, total := 0
    totalNs := 0, minNs := minSentinel, maxNs := 0 }

/-- The test of `slot_for` on a slot that is already claimed. -/
def ProfSlot.carries (slot : ProfSlot) (name : List UInt8) : Bool :=
  slot.hash == profFnv1a name && slot.name == some name

/-- Where a thread stands while it updates a slot: in front of the two additions, in front of
the load of a bound, or in the loop that moves the bound, with the value it last saw there. -/
inductive UpdatePc where
  | bumping
  | adding
  | loadingMin
  | lowering (cur : UInt64)
  | loadingMax
  | raising (cur : UInt64)
  deriving DecidableEq, Repr

/-- One access of an update. A weak exchange may fail although the value is the expected one.
The update ends where there is no next place. -/
def updateStep (u : ProfUpdate) (slot : ProfSlot) (spurious : Bool) :
    UpdatePc → ProfSlot × Option UpdatePc
  | .bumping => ({ slot with count := slot.count + 1 }, some .adding)
  | .adding =>
      match u with
      | .scope ns => ({ slot with totalNs := slot.totalNs + ns }, some .loadingMin)
      | .counter delta => ({ slot with total := slot.total + delta }, none)
      | .event value => ({ slot with total := slot.total + value }, none)
  | .loadingMin => (slot, some (.lowering slot.minNs))
  | .lowering cur =>
      match u with
      | .scope ns =>
          if ns < cur then
            if slot.minNs = cur ∧ spurious = false then
              ({ slot with minNs := ns }, some .loadingMax)
            else (slot, some (.lowering slot.minNs))
          else (slot, some .loadingMax)
      | _ => (slot, none)
  | .loadingMax => (slot, some (.raising slot.maxNs))
  | .raising cur =>
      match u with
      | .scope ns =>
          if cur < ns then
            if slot.maxNs = cur ∧ spurious = false then ({ slot with maxNs := ns }, none)
            else (slot, some (.raising slot.maxNs))
          else (slot, none)
      | _ => (slot, none)

/-- `hbi_prof_scope`. -/
structure ProfScope where
  name : Option (List UInt8)
  startNs : UInt64
  active : Bool
  deriving DecidableEq, Repr

/-- The clock is read only while profiling is enabled. -/
def hbiProfScopeBegin (enabled : Bool) (name : Option (List UInt8)) (now : UInt64) : ProfScope :=
  if enabled = true ∧ name.isSome = true then ⟨name, now, true⟩ else ⟨name, 0, false⟩

/-- The duration that `hbi_prof_scope_end` records. -/
def ProfScope.duration (scope : ProfScope) (now : UInt64) : UInt64 :=
  if scope.startNs ≤ now then now - scope.startNs else 0

/-- `hbi_prof_stat`. -/
structure ProfStat where
  name : List UInt8
  kind : ProfKind
  count : UInt64
  total : Int64
  totalNs : UInt64
  minNs : UInt64
  maxNs : UInt64
  deriving DecidableEq, Repr

/-- `hbi_prof_stat_at` on the claimed part of the table. -/
def hbiProfStatAt (slots : List ProfSlot) (slotCount index : Nat) : Result ProfStat :=
  match slots[index]? with
  | some slot =>
      if index < slotCount then
        .ok {
          name := slot.name.getD ("(unclaimed)".toList.map Char.toUInt8)
          kind := slot.kind, count := slot.count, total := slot.total, totalNs := slot.totalNs
          minNs := if slot.minNs = minSentinel then 0 else slot.minNs
          maxNs := slot.maxNs }
      else .error ⟨.invalidArg, ""⟩
  | none => .error ⟨.invalidArg, ""⟩

end Hummingbird

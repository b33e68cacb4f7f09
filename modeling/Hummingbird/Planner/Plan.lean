import Hummingbird.Graph.Invariant
import Hummingbird.Foundation.FirstFit

/-!
The memory planner: live ranges over the execution order, a sort of the ranges that
need memory, and a first-fit placement of each range behind the earlier ones it
overlaps in time. All sizes and offsets are `size_t` values and wrap as such. The C
library's sort is a parameter, described by what it promises.
-/

namespace Hummingbird

structure LiveRange where
  valueId : Nat
  firstUse : Nat
  lastUse : Nat
  sizeBytes : Nat
  alignment : Nat
  deriving DecidableEq, Repr

structure Allocation where
  valueId : Nat
  poolId : Nat
  offset : Nat
  sizeBytes : Nat
  deriving DecidableEq, Repr

structure MemoryStatistics where
  peakMemoryBytes : Nat
  persistentMemoryBytes : Nat
  temporaryMemoryBytes : Nat
  workspaceMemoryBytes : Nat
  naiveMemoryBytes : Nat
  numAllocations : Nat
  numPools : Nat
  deriving DecidableEq, Repr

structure MemoryPlan where
  pools : List Nat
  allocations : List Allocation
  workspaceSize : Nat
  stats : MemoryStatistics
  deriving DecidableEq, Repr

/-- `(val + align - 1) & ~(align - 1)` on `size_t`. -/
def alignUp (val align : Nat) : Nat :=
  if align = 0 then val
  else (val + (align - 1)) % sizeTSize &&& (sizeTSize - 1 - (align - 1))

def compareLiveRanges (a b : LiveRange) : Int :=
  if a.firstUse < b.firstUse then -1
  else if a.firstUse > b.firstUse then 1
  else if a.sizeBytes > b.sizeBytes then -1
  else if a.sizeBytes < b.sizeBytes then 1
  else 0

/-- A `qsort` with `compare_live_ranges`: some rearrangement in comparison order. -/
structure QSort where
  sort : List LiveRange → List LiveRange
  perm : ∀ l, (sort l).Perm l
  sorted : ∀ l, (sort l).Pairwise fun a b => compareLiveRanges a b ≤ 0

/-- The ranges before the analysis. -/
def resetRanges (numValues : Nat) : List LiveRange :=
  (List.range numValues).map fun i => ⟨i, uint32Max, 0, 0, 0⟩

/-- A value is read or written at a position of the execution order. -/
def touchRange (topoIdx : Nat) (ranges : List LiveRange) (vid : Nat) : List LiveRange :=
  ranges.modify vid fun r =>
    { r with
      firstUse := if r.firstUse = uint32Max then topoIdx else r.firstUse
      lastUse := if topoIdx > r.lastUse then topoIdx else r.lastUse }

/-- The node at a position of the execution order. -/
def Graph.scheduled (g : Graph) (topoIdx : Nat) : Option Node :=
  (g.executionOrder[topoIdx]?).bind (hbiGraphNodeAt g)

/-- Liveness analysis: inputs first, then outputs, node by node. -/
def livenessLoop (g : Graph) : List Nat → List LiveRange → List LiveRange
  | [], ranges => ranges
  | topoIdx :: rest, ranges =>
      match g.scheduled topoIdx with
      | none => livenessLoop g rest ranges
      | some node =>
          let ranges := node.inputs.foldl (touchRange topoIdx) ranges
          let ranges := node.outputs.foldl (touchRange topoIdx) ranges
          livenessLoop g rest ranges

def liveRanges (g : Graph) : List LiveRange :=
  livenessLoop g (List.range (hbiGraphNumNodes g)) (resetRanges (hbiGraphNumValues g))

/-- Bytes of a value; the two size computations leave zero behind when they fail,
and their status is not looked at. -/
def valueBytes (val : Value) : Nat :=
  let elems := match hbiShapeElemCount val.shape with
    | .ok n => n
    | .error _ => 0
  match hbiDtypePackedNbytes val.dtype elems with
  | .ok n => n
  | .error _ => 0

def valueAlignment (val : Value) : Nat :=
  if hbiDtypeAlign val.dtype < hbiTensorDefaultAlign then hbiTensorDefaultAlign
  else hbiDtypeAlign val.dtype

/-- Managed by the caller: constants and graph inputs. -/
def Value.isExternal (val : Value) : Bool := val.isConstant || val.producerNodeId.isNone

/-- The range to allocate for a value, when it is a used intermediate value. -/
def activeRange (g : Graph) (ranges : List LiveRange) (vid : Nat) : Option LiveRange :=
  match hbiGraphValueAt g vid, ranges[vid]? with
  | some val, some r =>
      if val.isExternal = true then none
      else if r.firstUse = uint32Max then none
      else some { r with sizeBytes := valueBytes val, alignment := valueAlignment val }
  | _, _ => none

def activeRanges (g : Graph) : List LiveRange :=
  (List.range (hbiGraphNumValues g)).filterMap (activeRange g (liveRanges g))

/-- A placed range together with its allocation. -/
abbrev Placed := LiveRange × Allocation

def Placed.prevEnd (p : Placed) : Nat := (p.2.offset + p.2.sizeBytes) % sizeTSize

/-- Overlap in time. -/
def timeOverlap (r prev : LiveRange) : Bool :=
  r.firstUse ≤ prev.lastUse ∧ r.lastUse ≥ prev.firstUse

/-- The test inside the scan: overlap in time and in memory. -/
def conflicts (r : LiveRange) (bestOffset : Nat) (prev : Placed) : Bool :=
  timeOverlap r prev.1 &&
    decide (bestOffset < prev.prevEnd ∧ (bestOffset + r.sizeBytes) % sizeTSize > prev.2.offset)

/-- The `while (conflict)` loop for one range. -/
def placeRange (fuel : Nat) (placed : List Placed) (r : LiveRange) : Option Nat :=
  FirstFit.search (alignUp · r.alignment) (conflicts r) Placed.prevEnd placed fuel 0

/-- The placement loop: allocations so far and the peak of the pool. -/
def placeAll (fuel : Nat) : List LiveRange → List Placed → Nat → Option (List Placed × Nat)
  | [], placed, peak => some (placed, peak)
  | r :: rest, placed, peak =>
      match placeRange fuel placed r with
      | none => none
      | some bestOffset =>
          let alloc : Allocation := ⟨r.valueId, 0, bestOffset, r.sizeBytes⟩
          let endOffset := (bestOffset + r.sizeBytes) % sizeTSize
          placeAll fuel rest (placed ++ [(r, alloc)]) (if endOffset > peak then endOffset else peak)

/-- Sum of byte counts on `size_t`. -/
def sumBytes (sizes : List Nat) : Nat := sizes.foldl (fun acc n => (acc + n) % sizeTSize) 0

/-- The plan and its statistics as read off a finished placement. -/
def finishMemoryPlan (g : Graph) (placed : List Placed) (peak : Nat) : MemoryPlan where
  pools := [peak]
  allocations := placed.map Prod.snd
  workspaceSize := 0
  stats :=
    { peakMemoryBytes := peak
      persistentMemoryBytes := sumBytes ((g.values.filter Value.isExternal).map valueBytes)
      temporaryMemoryBytes := peak
      workspaceMemoryBytes := 0
      naiveMemoryBytes := sumBytes ((activeRanges g).map LiveRange.sizeBytes)
      numAllocations := placed.length
      numPools := 1 }

def hbiMemoryPlannerPlan (fuel : Nat) (qsort : QSort) (g : Graph) :
    Option (Result MemoryPlan) :=
  match placeAll fuel (qsort.sort (activeRanges g)) [] 0 with
  | none => none
  | some (placed, peak) => some (.ok (finishMemoryPlan g placed peak))

def hbiMemoryPlanPoolSize (plan : MemoryPlan) (poolId : Nat) : Nat := plan.pools.getD poolId 0

def hbiMemoryPlanGetAllocation (plan : MemoryPlan) (valueId : Nat) : Result Allocation :=
  match plan.allocations.find? (·.valueId = valueId) with
  | some a => .ok a
  | none => errSet .notFound ""

end Hummingbird

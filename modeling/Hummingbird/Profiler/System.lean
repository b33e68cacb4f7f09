import Hummingbird.Profiler.Slots
import Hummingbird.Foundation.Runs

/-!
The profiler as a system of threads that record at the same time. A step is one access to
what the threads share: an atomic operation, a store to a plain field, or the taking or
giving back of the mutex. Two groups of accesses are one step each because nobody can look in
between: the comparison with a claimed slot, whose hash and name stay, and the stores into a
slot that is not published yet. The environment answers whether `hbi_mutex_init` found memory
and whether a weak exchange fails for no reason. Resetting is left to moments when no thread
records, as its contract asks for.
-/

namespace Hummingbird

/-- The claim mutex and how it comes to be: the published pointer with its flag, the flag that
elects a creator, who holds the published mutex, the number of mutexes made so far and those
that were destroyed. The last field notes a mutex given back by a thread that did not hold
it. -/
structure ProfLatch where
  claimMx : Option Nat
  mxReady : Bool
  creating : Bool
  holder : Option Nat
  made : Nat
  destroyed : List Nat
  misused : Bool
  deriving DecidableEq, Repr

/-- Where a thread stands in `ensure_mutex`, with the mutex it has made. -/
inductive EnsurePc where
  | loading
  | electing (m : Nat)
  | elected (m : Nat)
  | storing (m : Nat)
  | announcing
  | clearing (spare : Option Nat)
  | spinning (m : Nat)
  | discarding (m : Nat)
  deriving DecidableEq, Repr

/-- One access of `ensure_mutex`, which ends where there is no next place. -/
def ensureStep (latch : ProfLatch) (granted : Bool) : EnsurePc → ProfLatch × Option EnsurePc
  | .loading =>
      if latch.mxReady then (latch, none)
      else if granted then ({ latch with made := latch.made + 1 }, some (.electing latch.made))
      else (latch, none)
  | .electing m =>
      if latch.creating then (latch, some (.spinning m))
      else ({ latch with creating := true }, some (.elected m))
  | .elected m => (latch, some (if latch.mxReady then .clearing (some m) else .storing m))
  | .storing m => ({ latch with claimMx := some m, holder := none }, some .announcing)
  | .announcing => ({ latch with mxReady := true }, some (.clearing none))
  | .clearing spare => ({ latch with creating := false }, spare.map .discarding)
  | .spinning m => (latch, some (if latch.mxReady then .discarding m else .spinning m))
  | .discarding m => ({ latch with destroyed := m :: latch.destroyed }, none)

/-- `hbi_mutex_lock(g_claim_mx)`; there is no next state while another thread holds it. -/
def ProfLatch.lock (latch : ProfLatch) (t : Nat) : Option ProfLatch :=
  if latch.holder.isNone then some { latch with holder := some t } else none

/-- `hbi_mutex_unlock(g_claim_mx)`. -/
def ProfLatch.unlock (latch : ProfLatch) (t : Nat) : ProfLatch :=
  if latch.holder = some t then { latch with holder := none } else { latch with misused := true }

/-- Where a thread stands in the slow path of `slot_for`, behind `ensure_mutex`. -/
inductive ClaimPc where
  | locking
  | acquiring
  | looking
  | rescanning (claimed i : Nat)
  | filling (claimed : Nat)
  | publishing (claimed : Nat)
  | overflowing
  | leaving (result : Option Nat)
  | unlocking (result : Option Nat)
  deriving DecidableEq, Repr

/-- Where a thread stands: outside, in front of the test whether profiling is enabled, in
`slot_for`, or in the update of a slot. -/
inductive ProfThread where
  | idle
  | gated (name : Option (List UInt8)) (update : ProfUpdate)
  | looking (r : Recording)
  | scanning (r : Recording) (claimed i : Nat)
  | ensuring (r : Recording) (p : EnsurePc)
  | claiming (r : Recording) (p : ClaimPc)
  | updating (r : Recording) (i : Nat) (p : UpdatePc)
  deriving DecidableEq, Repr

/-- The accesses of an update, by the field that they settle. -/
inductive ProfField where
  | count
  | sum
  | min
  | max
  deriving DecidableEq, Repr

/-- The profiler with its threads, and the history since the last reset: the recordings that
were begun, those that got a slot, those that got none, and for each field of a slot those
that were entered there. -/
structure ProfState where
  slots : List ProfSlot
  slotCount : Nat
  enabled : Bool
  overflow : UInt64
  latch : ProfLatch
  threads : List ProfThread
  begun : List Recording
  delivered : List (Nat × Recording)
  dropped : List Recording
  settled : ProfField → List (Nat × Recording)

def ProfState.create (numThreads : Nat) : ProfState :=
  { slots := List.replicate hbiProfMaxNames .unclaimed
    slotCount := 0
    enabled := false
    overflow := 0
    latch := ⟨none, false, false, none, 0, [], false⟩
    threads := List.replicate numThreads .idle
    begun := [], delivered := [], dropped := [], settled := fun _ => [] }

namespace ProfState

variable (s : ProfState)

def setThread (t : Nat) (th : ProfThread) : ProfState :=
  { s with threads := s.threads.set t th }

/-- The test of `slot_for` on the slot at an index. -/
def carries (i : Nat) (name : List UInt8) : Bool :=
  (s.slots.getD i .unclaimed).carries name

/-- `slot_for` returns. -/
def returns (t : Nat) (r : Recording) : Option Nat → ProfState
  | some i =>
      { s.setThread t (.updating r i .bumping) with delivered := s.delivered ++ [(i, r)] }
  | none => { s.setThread t .idle with dropped := s.dropped ++ [r] }

/-- A recording begins. -/
def begins (t : Nat) (r : Recording) : ProfState :=
  { s.setThread t (.looking r) with begun := s.begun ++ [r] }

end ProfState

/-- One access of the slow path of `slot_for`. -/
def claimStep (s : ProfState) (t : Nat) (r : Recording) : ClaimPc → ProfState
  | .locking =>
      s.setThread t (.claiming r (if s.latch.mxReady then .acquiring else .looking))
  | .acquiring =>
      match s.latch.lock t with
      | some latch => { s.setThread t (.claiming r .looking) with latch := latch }
      | none => s
  | .looking => s.setThread t (.claiming r (.rescanning s.slotCount 0))
  | .rescanning claimed i =>
      if i < claimed then
        s.setThread t (.claiming r
          (if s.carries i r.name then .leaving (some i) else .rescanning claimed (i + 1)))
      else
        s.setThread t (.claiming r
          (if claimed < hbiProfMaxNames then .filling claimed else .overflowing))
  | .filling claimed =>
      { s.setThread t (.claiming r (.publishing claimed)) with
        slots := s.slots.set claimed (.claim r) }
  | .publishing claimed =>
      { s.setThread t (.claiming r (.leaving (some claimed))) with slotCount := claimed + 1 }
  | .overflowing =>
      { s.setThread t (.claiming r (.leaving none)) with overflow := s.overflow + 1 }
  | .leaving result =>
      if s.latch.mxReady then s.setThread t (.claiming r (.unlocking result))
      else s.returns t r result
  | .unlocking result => { s.returns t r result with latch := s.latch.unlock t }

/-- The fields that an access of an update settles. -/
def UpdatePc.settles (u : ProfUpdate) (p : UpdatePc) (next : Option UpdatePc) : List ProfField :=
  match p, u, next with
  | .bumping, _, _ => [.count]
  | .adding, .scope _, _ => [.sum]
  | .adding, _, _ => [.sum, .min, .max]
  | .lowering _, _, some .loadingMax => [.min]
  | .raising _, _, none => [.max]
  | _, _, _ => []

/-- The answers of the environment to one step. -/
structure ProfAnswer where
  granted : Bool
  spurious : Bool
  deriving DecidableEq, Repr

def profThreadStep (s : ProfState) (t : Nat) (ans : ProfAnswer) : ProfThread → ProfState
  | .idle => s
  | .gated name u =>
      match name with
      | some name => if s.enabled then s.begins t ⟨name, u⟩ else s.setThread t .idle
      | none => s.setThread t .idle
  | .looking r => s.setThread t (.scanning r s.slotCount 0)
  | .scanning r claimed i =>
      if i < claimed then
        if s.carries i r.name then s.returns t r (some i)
        else s.setThread t (.scanning r claimed (i + 1))
      else s.setThread t (.ensuring r .loading)
  | .ensuring r p =>
      let (latch, next) := ensureStep s.latch ans.granted p
      { s.setThread t (next.elim (.claiming r .locking) (.ensuring r)) with latch := latch }
  | .claiming r p => claimStep s t r p
  | .updating r i p =>
      let (slot, next) := updateStep r.update (s.slots.getD i .unclaimed) ans.spurious p
      { s.setThread t (next.elim .idle (.updating r i)) with
        slots := s.slots.set i slot
        settled := fun f =>
          if f ∈ p.settles r.update next then s.settled f ++ [(i, r)] else s.settled f }

/-- A call that a thread makes. -/
inductive ProfCall where
  | counterAdd (name : Option (List UInt8)) (delta : Int64)
  | event (name : Option (List UInt8)) (value : Int64)
  | scopeEnd (scope : ProfScope) (now : UInt64)
  deriving DecidableEq, Repr

/-- What happens next: a thread that is outside makes a call, a thread moves on, or somebody
switches profiling on or off or starts over. -/
inductive ProfAction where
  | call (t : Nat) (c : ProfCall)
  | thread (t : Nat) (ans : ProfAnswer)
  | setEnabled (enabled : Bool)
  | reset
  deriving DecidableEq, Repr

/-- The first lines of a call. Only an active scope is recorded, enabled or not. -/
def profCallStep (s : ProfState) (t : Nat) : ProfCall → ProfState
  | .counterAdd name delta => s.setThread t (.gated name (.counter delta))
  | .event name value => s.setThread t (.gated name (.event value))
  | .scopeEnd scope now =>
      if scope.active then
        match scope.name with
        | some name => s.begins t ⟨name, .scope (scope.duration now)⟩
        | none => s
      else s

/-- `hbi_prof_reset`: the names of the claimed slots go, and the count of the slots. -/
def hbiProfReset (s : ProfState) : ProfState :=
  { s with
    slots := s.slots.mapIdx fun i slot =>
      if i < s.slotCount then { slot with name := none } else slot
    slotCount := 0, overflow := 0
    begun := [], delivered := [], dropped := [], settled := fun _ => [] }

/-- No thread is inside a call. -/
def ProfState.quiescent (s : ProfState) : Bool := s.threads.all (· == .idle)

def profStep (s : ProfState) : ProfAction → ProfState
  | .call t c => if s.threads[t]? = some .idle then profCallStep s t c else s
  | .thread t ans =>
      match s.threads[t]? with
      | some th => profThreadStep s t ans th
      | none => s
  | .setEnabled enabled => { s with enabled := enabled }
  | .reset => if s.quiescent then hbiProfReset s else s

/-- Every mutex that a thread asks for is there. -/
def ProfAction.Granted : ProfAction → Prop
  | .thread _ ans => ans.granted = true
  | _ => True

instance : DecidablePred ProfAction.Granted
  | .thread _ ans => inferInstanceAs (Decidable (ans.granted = true))
  | .call _ _ => isTrue trivial
  | .setEnabled _ => isTrue trivial
  | .reset => isTrue trivial

/-- States that any number of threads reach, in any order, while there is memory for a
mutex. -/
def ProfState.Reached (s : ProfState) : Prop :=
  ∃ (numThreads : Nat) (actions : List ProfAction), (∀ a ∈ actions, a.Granted) ∧
    s = Runs.final profStep (.create numThreads) actions

end Hummingbird

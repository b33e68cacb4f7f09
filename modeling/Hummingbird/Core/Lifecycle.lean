import Hummingbird.Core.Create
import Hummingbird.Foundation.Roster

/-!
The runtime context from its bring-up to its teardown: the table of subsystems that are
attached to it, what can be looked up in it, and what its destruction gives back.
-/

namespace Hummingbird

open Ownership

def hbiCoreMaxSubsystems : Nat := 32

/-- `hbi_core_entry`: a borrowed object under a name, with the number of its finalizer. -/
structure CoreEntry where
  name : String
  ptr : Nat
  fini : Option Nat
  deriving DecidableEq, Repr

/-- The context with its subsystems. -/
structure CoreContext where
  core : Core
  subsystems : List CoreEntry

/-- A context that is handed out has no subsystems. -/
def Core.opened (core : Core) : CoreContext := ⟨core, []⟩

def coreReady (c : CoreContext) : Bool := c.core.state = .ready

def hbiCoreRegister (c : CoreContext) (e : CoreEntry) : CoreContext × Result Unit :=
  if coreReady c = false then (c, errSet .state "hbi_core_register: context not READY")
  else if c.subsystems.any fun s => s.name = e.name then
    (c, errSet .corrupt s!"hbi_core_register: duplicate subsystem '{e.name}'")
  else if c.subsystems.length ≥ hbiCoreMaxSubsystems then
    (c, errSet .oom "hbi_core_register: subsystem table full")
  else ({ c with subsystems := c.subsystems ++ [e] }, .ok ())

def hbiCoreLookup (c : CoreContext) (name : String) : Option Nat :=
  if coreReady c = false then none
  else (c.subsystems.find? fun s => s.name = name).map (·.ptr)

/-- The call of the finalizer of a subsystem with its object. -/
def CoreEntry.finalizer (e : CoreEntry) : Option (Nat × Nat) := e.fini.map fun fini => (fini, e.ptr)

/-- The loop over the subsystems, the last one first, with the calls that it makes. -/
def finalizeSubsystems (subsystems : List CoreEntry) : Nat → List (Nat × Nat)
  | 0 => []
  | i + 1 =>
      (subsystems[i]?.bind CoreEntry.finalizer).toList ++ finalizeSubsystems subsystems i

/-- The workers finish the queue and are joined. -/
def hbiThreadpoolDestroy (p : PoolObjects) (l : Ledger CoreResource) : Ledger CoreResource :=
  tearDownPool p l

/-- What the finalizers find. -/
def CoreContext.dead (c : CoreContext) : CoreContext :=
  { c with core := { c.core with state := .dead } }

/-- What a teardown leaves: the process, and the calls of finalizers that it has made. What a
finalizer does to the process is its own matter. -/
def hbiCoreDestroy (call : CoreHost → Nat × Nat → CoreHost) (c : CoreContext) (h : CoreHost) :
    CoreHost × List (Nat × Nat) :=
  let c := c.dead
  let calls := finalizeSubsystems c.subsystems c.subsystems.length
  let h := calls.foldl call h
  let h := { h with ledger := hbiThreadpoolDestroy c.core.pool h.ledger }
  let h := { h with ledger := hbiConfigDestroy c.core.config h.ledger }
  let h := if c.core.profilingOn then hbiProfSetEnabled h false else h
  ({ h with ledger := h.ledger.free c.core.object }, calls)

/-- The objects of a context. -/
def Core.ids (core : Core) : List Nat := core.pool.ids ++ (core.config.ids ++ core.object.toList)

def registerAll (c : CoreContext) (es : List CoreEntry) : CoreContext :=
  es.foldl (fun c e => (hbiCoreRegister c e).1) c

/-- The subsystems whose registration succeeds. -/
def registered (c : CoreContext) : List CoreEntry → List CoreEntry
  | [] => []
  | e :: es =>
      match hbiCoreRegister c e with
      | (c, .ok ()) => e :: registered c es
      | (c, .error _) => registered c es

section Registering

variable {c : CoreContext} {e : CoreEntry}

/-- A registration enters a name that is free while there is room, and nothing else changes. -/
theorem hbiCoreRegister_of_ready (hready : c.core.state = .ready) (e : CoreEntry) :
    (hbiCoreRegister c e).1 =
      { c with subsystems := Roster.enter CoreEntry.name hbiCoreMaxSubsystems c.subsystems e } := by
  have hstate : coreReady c = true := by simpa [coreReady] using hready
  rw [Roster.enter_taken_full, hbiCoreRegister, hstate, if_neg (by simp)]
  split_ifs <;> rfl

theorem registerAll_of_ready (hready : c.core.state = .ready) (es : List CoreEntry) :
    registerAll c es = { c with
      subsystems := es.foldl (Roster.enter CoreEntry.name hbiCoreMaxSubsystems) c.subsystems } := by
  induction es generalizing c with
  | nil => rfl
  | cons e es ih =>
      have hstep := hbiCoreRegister_of_ready hready e
      have hnext : (hbiCoreRegister c e).1.core.state = .ready := by
        rw [hstep]
        exact hready
      have hrest := ih hnext
      rw [hstep] at hrest
      unfold registerAll at hrest ⊢
      rw [List.foldl_cons, hstep, hrest]
      rfl

/-- The table holds what it held and what was registered, in this order. -/
theorem registerAll_subsystems (c : CoreContext) (es : List CoreEntry) :
    (registerAll c es).subsystems = c.subsystems ++ registered c es := by
  induction es generalizing c with
  | nil => simp [registerAll, registered]
  | cons e es ih =>
      have hnext := ih (hbiCoreRegister c e).1
      unfold registerAll at hnext ⊢
      rw [List.foldl_cons, hnext, registered]
      unfold hbiCoreRegister
      split_ifs
      · rfl
      · rfl
      · rfl
      · simp

/-- The loop over the first subsystems calls their finalizers, the last one first. -/
theorem finalizeSubsystems_take (subsystems : List CoreEntry) (n : Nat) :
    finalizeSubsystems subsystems n =
      (subsystems.take n).reverse.filterMap CoreEntry.finalizer := by
  induction n with
  | zero => rfl
  | succ n ih =>
      rw [finalizeSubsystems, ih, List.take_add_one, List.reverse_append, List.filterMap_append]
      congr 1
      cases subsystems[n]? with
      | none => rfl
      | some e => cases h : e.finalizer <;> simp [h]

end Registering

section Lifetime

variable {answers : CoreAnswers} {cfgIn : Option CoreConfig} {h : CoreHost}

/-- What a bring-up that succeeds hands out. -/
structure CoreOutcome.Opened (before : CoreHost) (cfg : CoreConfig) (core : Core)
    (r : CoreOutcome) : Prop where
  out : r.out = some core
  ready : core.state = .ready
  ledger : before.ledger.Since r.host.ledger core.ids
  profilingOn : core.profilingOn = cfg.enableProfiling
  profiling : r.host.profiling = (cfg.enableProfiling || before.profiling)

theorem hbiCoreCreate_ok (hok : (hbiCoreCreate answers cfgIn h).status = .ok ()) :
    ∃ core, (hbiCoreCreate answers cfgIn h).Opened h (cfgIn.getD hbiCoreConfigDefault) core := by
  unfold hbiCoreCreate at hok ⊢
  generalize cfgIn.getD hbiCoreConfigDefault = cfg at hok ⊢
  dsimp only at hok ⊢
  cases hcontext : answers.context cfg.allocator with
  | false =>
      rw [hcontext, Ledger.request, if_neg Bool.false_ne_true] at hok
      cases hok
  | true =>
      rw [hcontext, Ledger.request, if_pos rfl] at hok
      rw [Ledger.request, if_pos rfl]
      dsimp only at hok ⊢
      generalize hl : queryDevice answers.device _ = device at hok ⊢
      have hdevice : h.ledger.Since device.1 [h.ledger.objects.length] := by
        rw [← hl, hbiLogSetLevel_ledger]
        exact queryDevice_since _ ((Ledger.Since.refl _).create _)
      generalize hhost : (if cfg.enableProfiling then hbiProfSetEnabled _ true else _) = host
        at hok ⊢
      obtain ⟨hledger, hprofiling⟩ : host.ledger = device.1 ∧
          host.profiling = (cfg.enableProfiling || h.profiling) := by
        rw [← hhost]
        cases cfg.enableProfiling with
        | false => exact ⟨rfl, hbiLogSetLevel_profiling _ _⟩
        | true => exact ⟨rfl, rfl⟩
      rw [← hledger] at hdevice
      obtain ⟨l', f', heq, hl'⟩ | ⟨l', config, heq, hl'⟩ :=
        configCreateObjects_cases kCoreSchema answers.config hdevice
      · rw [heq] at hok
        cases hok
      rw [heq] at hok ⊢
      dsimp only at hok ⊢
      obtain ⟨l'', f'', heq, hl''⟩ | ⟨l'', pool, heq, hl''⟩ :=
        hbiThreadpoolCreate_cases answers.pool _ hl'
      · rw [heq] at hok
        cases hok
      · rw [heq]
        exact ⟨_, rfl, rfl, hl'', rfl, hprofiling⟩

/-- What a teardown does after its finalizers: it gives back the objects of the context and no
others, and switches the profiler off where the bring-up switched it on. -/
structure TornDown (base : Ledger CoreResource) (core : Core) (finalized after : CoreHost) :
    Prop where
  ledger : ∀ others, base.Since finalized.ledger (core.ids ++ others) →
    base.Since after.ledger others
  level : after.level = finalized.level
  profiling : after.profiling = if core.profilingOn then false else finalized.profiling

theorem hbiCoreDestroy_tornDown (base : Ledger CoreResource) (c : CoreContext)
    (call : CoreHost → Nat × Nat → CoreHost) (h : CoreHost) :
    TornDown base c.core ((hbiCoreDestroy call c h).2.foldl call h)
      (hbiCoreDestroy call c h).1 := by
  unfold hbiCoreDestroy hbiThreadpoolDestroy
  refine ⟨?_, ?_, ?_⟩
  · intro others hheld
    simp only [Core.ids, List.append_assoc] at hheld
    have hgiven := (hbiConfigDestroy_since (tearDownPool_since hheld)).free
    cases hon : c.core.profilingOn with
    | false => simpa [CoreContext.dead, hon] using hgiven
    | true => simpa [CoreContext.dead, hon, hbiProfSetEnabled] using hgiven
  · cases hon : c.core.profilingOn with
    | false => simp [CoreContext.dead, hon]
    | true => simp [CoreContext.dead, hon, hbiProfSetEnabled]
  · cases hon : c.core.profilingOn with
    | false => simp [CoreContext.dead, hon]
    | true => simp [CoreContext.dead, hon, hbiProfSetEnabled]

/-- The life of a context. What can be looked up under a name is what was registered first under
it, if it came before the table was full. A teardown calls the finalizers of what was registered,
each once and the last one first, while the context attaches nothing and finds nothing, and gives
back every object of the context and no other. -/
theorem hbi_core_lifecycle (hok : (hbiCoreCreate answers cfgIn h).status = .ok ()) :
    ∃ core, (hbiCoreCreate answers cfgIn h).Opened h (cfgIn.getD hbiCoreConfigDefault) core ∧
      ∀ es : List CoreEntry, let c := registerAll core.opened es
        (∀ name ptr, hbiCoreLookup c name = some ptr ↔
          ∃ before e after, es = before ++ e :: after ∧ e.name = name ∧ e.ptr = ptr ∧
            (∀ e' ∈ before, e'.name ≠ name) ∧
            (before.map CoreEntry.name).toFinset.card < hbiCoreMaxSubsystems) ∧
        (∀ e name, hbiCoreLookup c.dead name = none ∧ hbiCoreRegister c.dead e =
          (c.dead, errSet .state "hbi_core_register: context not READY")) ∧
        ∀ (call : CoreHost → Nat × Nat → CoreHost) (h' : CoreHost),
          (hbiCoreDestroy call c h').2 =
            (registered core.opened es).reverse.filterMap CoreEntry.finalizer ∧
          TornDown h.ledger core ((hbiCoreDestroy call c h').2.foldl call h')
            (hbiCoreDestroy call c h').1 := by
  obtain ⟨core, hopened⟩ := hbiCoreCreate_ok hok
  refine ⟨core, hopened, ?_⟩
  intro es
  have hready : core.opened.core.state = .ready := hopened.ready
  have hall := registerAll_of_ready hready es
  refine ⟨?_, fun e name => ⟨rfl, rfl⟩, ?_⟩
  · intro name ptr
    have hstate : coreReady (registerAll core.opened es) = true := by
      rw [hall]
      simpa [coreReady] using hready
    have hfind : (registerAll core.opened es).subsystems =
        es.foldl (Roster.enter CoreEntry.name hbiCoreMaxSubsystems) [] := by
      rw [hall]
      rfl
    rw [hbiCoreLookup, hstate, if_neg (by simp), hfind, Option.map_eq_some_iff]
    constructor
    · rintro ⟨e, he, rfl⟩
      obtain ⟨hname, before, after, hes, hbefore, hcard⟩ := Roster.find?_foldl_enter.mp he
      exact ⟨before, e, after, hes, hname, rfl, hbefore, hcard⟩
    · rintro ⟨before, e, after, hes, hname, rfl, hbefore, hcard⟩
      exact ⟨e, Roster.find?_foldl_enter.mpr ⟨hname, before, after, hes, hbefore, hcard⟩, rfl⟩
  · intro call h'
    have htable := registerAll_subsystems core.opened es
    refine ⟨?_, ?_⟩
    · refine (finalizeSubsystems_take _ _).trans ?_
      rw [List.take_length, CoreContext.dead, htable]
      rfl
    · have hdown := hbiCoreDestroy_tornDown h.ledger (registerAll core.opened es) call h'
      rw [hall] at hdown ⊢
      exact hdown

end Lifetime

/-- Everything is granted. -/
def grantingAnswers : CoreAnswers :=
  { coreAnswers with pool := { coreAnswers.pool with workers := true } }

/-- Three registrations, of which one asks for a name that is taken. -/
def threeEntries : List CoreEntry := [⟨"kv", 7, some 1⟩, ⟨"stream", 8, some 2⟩, ⟨"kv", 9, none⟩]

theorem hbi_core_lifecycle_three :
    ∃ core, (hbiCoreCreate grantingAnswers none ⟨logInfo, false, ⟨[], 0⟩⟩).out = some core ∧
      hbiCoreLookup (registerAll core.opened threeEntries) "kv" = some 7 ∧
      (⟨[], 0⟩ : Ledger CoreResource).Since (hbiCoreDestroy (fun h _ => h)
        (registerAll core.opened threeEntries)
        (hbiCoreCreate grantingAnswers none ⟨logInfo, false, ⟨[], 0⟩⟩).host).1.ledger [] := by
  obtain ⟨core, hopened, hlife⟩ := @hbi_core_lifecycle grantingAnswers none
    ⟨logInfo, false, ⟨[], 0⟩⟩ (by decide +kernel)
  obtain ⟨hlookup, -, hdown⟩ := hlife threeEntries
  refine ⟨core, hopened.out, ?_, ?_⟩
  · exact (hlookup "kv" 7).mpr
      ⟨[], ⟨"kv", 7, some 1⟩, _, rfl, rfl, rfl, by simp, by decide⟩
  · refine (hdown (fun h _ => h) _).2.ledger [] ?_
    rw [List.append_nil, List.foldl_fixed]
    exact hopened.ledger

end Hummingbird

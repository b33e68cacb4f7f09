import Hummingbird.Core.Parts

/-!
The bring-up of the runtime context, and what it leaves when a step of it fails. Beside the
objects that it obtains it changes two switches of the process: the level of the log and the
flag of the profiler.
-/

namespace Hummingbird

open Ownership

def logInfo : Int := 2

def logLevelCount : Int := 6

/-- The state of the process that a bring-up changes. -/
structure CoreHost where
  level : Int
  profiling : Bool
  ledger : Ledger CoreResource

/-- A number that is no level is ignored. -/
def hbiLogSetLevel (h : CoreHost) (level : Int) : CoreHost :=
  if level < 0 ∨ level ≥ logLevelCount then h else { h with level := level }

def hbiProfSetEnabled (h : CoreHost) (enabled : Bool) : CoreHost := { h with profiling := enabled }

/-- `hbi_core_config`; no allocator means the one of the system. -/
structure CoreConfig where
  logLevel : Int
  numWorkers : Int
  queueCapacity : Nat
  enableProfiling : Bool
  allocator : Option Nat
  deriving DecidableEq, Repr

def hbiCoreConfigDefault : CoreConfig := ⟨logInfo, 0, 256, false, none⟩

def kCoreSchema : List ConfigDesc :=
  [⟨"core.log_level".toList, .int, some "HB_LOG_LEVEL".toList,
      false, logInfo, 0, none, 0, logLevelCount - 1, 0, 0⟩,
    ⟨"core.workers".toList, .int, some "HB_WORKERS".toList, false, 0, 0, none, 0, 4096, 0, 0⟩,
    ⟨"core.queue_capacity".toList, .uint, some "HB_QUEUE_CAPACITY".toList,
      false, 0, 256, none, 0, 0, 1, 2 ^ 20⟩,
    ⟨"core.profiling".toList, .bool, some "HB_PROFILING".toList, false, 0, 0, none, 0, 0, 0, 0⟩]

inductive CoreState where
  | uninit
  | ready
  | dead
  deriving DecidableEq, Repr

/-- `hbi_core` when it is handed out. -/
structure Core where
  object : Option Nat
  allocator : Option Nat
  state : CoreState
  logicalCores : Int
  profilingOn : Bool
  config : ConfigObjects
  pool : PoolObjects
  deriving DecidableEq, Repr

/-- The answers that a bring-up gets. An allocator that refuses leaves a text in the error
record. -/
structure CoreAnswers where
  context : Option Nat → Bool
  refusal : String
  device : DeviceAnswers
  config : ConfigBlocks
  pool : PoolAnswers

/-- The process after `hbi_core_create`, what it left in `*out`, and its status. -/
structure CoreOutcome where
  host : CoreHost
  out : Option Core
  status : Result Unit

/-- The label `fail_after_profiler`. -/
def failAfterProfiler (core : Option Nat) (profilingOn : Bool) (h : CoreHost) (f : Failure) :
    CoreOutcome :=
  let h := if profilingOn then hbiProfSetEnabled h false else h
  ⟨{ h with ledger := h.ledger.free core }, none, .error f⟩

/-- The label `fail_after_config`. -/
def failAfterConfig (core : Option Nat) (profilingOn : Bool) (config : ConfigObjects)
    (h : CoreHost) (f : Failure) : CoreOutcome :=
  failAfterProfiler core profilingOn { h with ledger := hbiConfigDestroy config h.ledger } f

def hbiCoreCreate (answers : CoreAnswers) (cfgIn : Option CoreConfig) (h : CoreHost) :
    CoreOutcome :=
  let cfg := cfgIn.getD hbiCoreConfigDefault
  match h.ledger.request .context (answers.context cfg.allocator) with
  | (ledger, none) => ⟨{ h with ledger := ledger }, none, errSet .oom answers.refusal⟩
  | (ledger, some core) =>
      let h := hbiLogSetLevel { h with ledger := ledger } cfg.logLevel
      let (ledger, logicalCores) := queryDevice answers.device h.ledger
      let h := { h with ledger := ledger }
      let h := if cfg.enableProfiling then hbiProfSetEnabled h true else h
      match configCreateObjects kCoreSchema answers.config h.ledger with
      | (ledger, .error f) =>
          failAfterProfiler (some core) cfg.enableProfiling { h with ledger := ledger } f
      | (ledger, .ok config) =>
          let store := (hbiConfigSetInt config.store "core.log_level".toList cfg.logLevel).1
          let store := (hbiConfigSetBool store "core.profiling".toList cfg.enableProfiling).1
          let workers := if cfg.numWorkers > 0 then cfg.numWorkers else logicalCores
          let workers := if workers < 1 then 1 else workers
          let capacity := if cfg.queueCapacity ≠ 0 then cfg.queueCapacity else 256
          match hbiThreadpoolCreate answers.pool workers ledger with
          | (ledger, .error f) =>
              failAfterConfig (some core) cfg.enableProfiling config { h with ledger := ledger } f
          | (ledger, .ok pool) =>
              let store := (hbiConfigSetInt store "core.workers".toList workers).1
              let store := (hbiConfigSetUint store "core.queue_capacity".toList capacity).1
              ⟨{ h with ledger := ledger },
                some ⟨some core, cfg.allocator, .ready, logicalCores, cfg.enableProfiling,
                  { config with store := store }, pool⟩, .ok ()⟩

/-- A bring-up leaves no trace: nothing in `*out`, every object that it obtained destroyed once
and nothing else touched, and the switches as they were. -/
structure CoreOutcome.Traceless (before : CoreHost) (r : CoreOutcome) : Prop where
  out : r.out = none
  ledger : before.ledger.Since r.host.ledger []
  level : r.host.level = before.level
  profiling : r.host.profiling = before.profiling

section Failing

variable {answers : CoreAnswers} {cfgIn : Option CoreConfig} {h : CoreHost} {f : Failure}

@[simp]
theorem hbiLogSetLevel_ledger (h : CoreHost) (level : Int) :
    (hbiLogSetLevel h level).ledger = h.ledger := by
  unfold hbiLogSetLevel
  split <;> rfl

@[simp]
theorem hbiLogSetLevel_profiling (h : CoreHost) (level : Int) :
    (hbiLogSetLevel h level).profiling = h.profiling := by
  unfold hbiLogSetLevel
  split <;> rfl

/-- The level that a bring-up leaves when it got past the log. -/
theorem hbiLogSetLevel_level (h : CoreHost) (level : Int) :
    (hbiLogSetLevel h level).level = h.level ↔
      (level < 0 ∨ level ≥ logLevelCount) ∨ level = h.level := by
  unfold hbiLogSetLevel
  by_cases hno : level < 0 ∨ level ≥ logLevelCount
  · simp [hno]
  · simp [hno]

/-- What a failure behind the log leaves: no objects, the new level, and a profiler that is off
where it was asked for. -/
structure CoreOutcome.Unwound (before : CoreHost) (cfg : CoreConfig) (r : CoreOutcome) : Prop where
  out : r.out = none
  ledger : before.ledger.Since r.host.ledger []
  level : r.host.level = (hbiLogSetLevel before cfg.logLevel).level
  profiling : r.host.profiling = if cfg.enableProfiling then false else before.profiling

/-- The label releases the context, and switches the profiler off where it was switched on. -/
theorem failAfterProfiler_unwound {cfg : CoreConfig} {core : Nat} {h' : CoreHost}
    (hledger : h.ledger.Since h'.ledger [core])
    (hlevel : h'.level = (hbiLogSetLevel h cfg.logLevel).level)
    (hprofiling : cfg.enableProfiling = false → h'.profiling = h.profiling) :
    (failAfterProfiler (some core) cfg.enableProfiling h' f).Unwound h cfg := by
  unfold failAfterProfiler
  cases hon : cfg.enableProfiling with
  | false => exact ⟨rfl, hledger.destroy, hlevel, by simpa [hon] using hprofiling hon⟩
  | true => exact ⟨rfl, hledger.destroy, hlevel, by simp [hon, hbiProfSetEnabled]⟩

/-- A bring-up that fails has no context, or it is unwound. -/
theorem hbiCoreCreate_error (hfail : (hbiCoreCreate answers cfgIn h).status = .error f) :
    (answers.context (cfgIn.getD hbiCoreConfigDefault).allocator = false ∧
      (hbiCoreCreate answers cfgIn h).Traceless h) ∨
    (answers.context (cfgIn.getD hbiCoreConfigDefault).allocator = true ∧
      (hbiCoreCreate answers cfgIn h).Unwound h (cfgIn.getD hbiCoreConfigDefault)) := by
  unfold hbiCoreCreate at hfail ⊢
  generalize cfgIn.getD hbiCoreConfigDefault = cfg at hfail ⊢
  dsimp only at hfail ⊢
  cases hcontext : answers.context cfg.allocator with
  | false => exact Or.inl ⟨rfl, rfl, Ledger.Since.refl _, rfl, rfl⟩
  | true =>
      refine Or.inr ⟨rfl, ?_⟩
      rw [hcontext, Ledger.request, if_pos rfl] at hfail
      rw [Ledger.request, if_pos rfl]
      dsimp only at hfail ⊢
      generalize hl : queryDevice answers.device _ = device at hfail ⊢
      have hdevice : h.ledger.Since device.1 [h.ledger.objects.length] := by
        rw [← hl, hbiLogSetLevel_ledger]
        exact queryDevice_since _ ((Ledger.Since.refl _).create _)
      generalize hhost : (if cfg.enableProfiling then hbiProfSetEnabled _ true else _) = host
        at hfail ⊢
      obtain ⟨hledger, hlevel, hprofiling⟩ : host.ledger = device.1 ∧
          host.level = (hbiLogSetLevel h cfg.logLevel).level ∧
          (cfg.enableProfiling = false → host.profiling = h.profiling) := by
        have hset : (hbiLogSetLevel { h with ledger := h.ledger.create .context }
            cfg.logLevel).level = (hbiLogSetLevel h cfg.logLevel).level := by
          unfold hbiLogSetLevel
          split <;> rfl
        rw [← hhost]
        cases cfg.enableProfiling with
        | false => exact ⟨rfl, hset, fun _ => hbiLogSetLevel_profiling _ _⟩
        | true => exact ⟨rfl, hset, fun hon => Bool.noConfusion hon⟩
      rw [← hledger] at hdevice
      obtain ⟨l', f', heq, hl'⟩ | ⟨l', config, heq, hl'⟩ :=
        configCreateObjects_cases kCoreSchema answers.config hdevice
      · rw [heq]
        exact failAfterProfiler_unwound hl' hlevel hprofiling
      rw [heq] at hfail ⊢
      dsimp only at hfail ⊢
      obtain ⟨l'', f'', heq, hl''⟩ | ⟨l'', pool, heq, hl''⟩ :=
        hbiThreadpoolCreate_cases answers.pool _ hl'
      · rw [heq]
        exact failAfterProfiler_unwound (hbiConfigDestroy_since hl'') hlevel hprofiling
      · rw [heq] at hfail
        cases hfail

/-- A bring-up that fails leaves no trace exactly when it had no context to begin with, or when
the level that it set was the one already set or no level, and the profiler was off or not asked
for. -/
theorem hbi_core_create_traceless_iff (hfail : (hbiCoreCreate answers cfgIn h).status = .error f) :
    (hbiCoreCreate answers cfgIn h).Traceless h ↔
      answers.context (cfgIn.getD hbiCoreConfigDefault).allocator = false ∨
        ((((cfgIn.getD hbiCoreConfigDefault).logLevel < 0 ∨
            (cfgIn.getD hbiCoreConfigDefault).logLevel ≥ logLevelCount) ∨
          (cfgIn.getD hbiCoreConfigDefault).logLevel = h.level) ∧
        ((cfgIn.getD hbiCoreConfigDefault).enableProfiling = true → h.profiling = false)) := by
  obtain ⟨hcontext, htraceless⟩ | ⟨hcontext, hunwound⟩ := hbiCoreCreate_error hfail
  · exact iff_of_true htraceless (Or.inl hcontext)
  generalize cfgIn.getD hbiCoreConfigDefault = cfg at hcontext hunwound ⊢
  rw [← hbiLogSetLevel_level]
  constructor
  · intro htraceless
    refine Or.inr ⟨hunwound.level.symm.trans htraceless.level, ?_⟩
    intro hon
    rw [← htraceless.profiling, hunwound.profiling, if_pos hon]
  · rintro (hrefused | ⟨hlevel, hprofiling⟩)
    · rw [hcontext] at hrefused
      cases hrefused
    refine ⟨hunwound.out, hunwound.ledger, hunwound.level.trans hlevel, ?_⟩
    rw [hunwound.profiling]
    cases hon : cfg.enableProfiling with
    | false => rfl
    | true => exact (hprofiling hon).symm

end Failing

/-- Everything is granted but the array of the pool's workers. -/
def coreAnswers : CoreAnswers where
  context _ := true
  refusal := ""
  device := ⟨true, true, true, 4⟩
  config := ⟨true, true, fun _ => true⟩
  pool := ⟨true, true, false, .granted, .granted, .granted, .granted, fun _ => .granted⟩

/-- With the level that is set already, and without the profiler. -/
theorem hbi_core_create_traceless_default :
    (hbiCoreCreate coreAnswers none ⟨logInfo, true, ⟨[], 0⟩⟩).Traceless ⟨logInfo, true, ⟨[], 0⟩⟩ :=
  (hbi_core_create_traceless_iff
    (show (hbiCoreCreate coreAnswers none ⟨logInfo, true, ⟨[], 0⟩⟩).status =
      .error ⟨.oom, "threadpool: queue/worker allocation failed"⟩ by decide +kernel)).mpr
    (Or.inr ⟨by decide, by decide⟩)

/-- A process that logs from level one on and measures: afterwards the level is two, and the
profiler is off. -/
theorem hbi_core_create_leaves_switches :
    let before : CoreHost := ⟨1, true, ⟨[], 0⟩⟩
    let r := hbiCoreCreate coreAnswers (some { hbiCoreConfigDefault with enableProfiling := true })
      before
    r.status = errSet .oom "threadpool: queue/worker allocation failed" ∧
      r.host.level = 2 ∧ r.host.profiling = false ∧ ¬ r.Traceless before := by
  refine ⟨by decide +kernel, by decide +kernel, by decide +kernel, ?_⟩
  intro h
  exact absurd h.level (by decide +kernel)

end Hummingbird

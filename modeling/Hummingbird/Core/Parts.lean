import Hummingbird.Config.Store
import Hummingbird.Foundation.Ownership

/-!
What the bring-up of the runtime context builds on, seen from the objects it obtains: the
platform's locks and threads, the worker pool, the configuration store and the report on the
host device. A pointer is the number of its object or `NULL`. What the allocators and the
system answer is fixed from outside; which objects are alive is in the ledger.
-/

namespace Hummingbird

open Ownership

inductive CoreResource where
  | context
  | deviceManager
  | probe
  | config
  | entries
  | text
  | pool
  | queue
  | workers
  | mutex
  | cond
  | thread
  deriving DecidableEq, Repr

/-- How the platform answers when it is asked for a lock or a thread: no memory for the object,
an object that the system refuses to start, or the object. -/
inductive PlatformAnswer where
  | noMemory
  | refused
  | granted
  deriving DecidableEq, Repr

def platformCreate (l : Ledger CoreResource) (k : CoreResource) :
    PlatformAnswer → Ledger CoreResource × Option Nat
  | .noMemory => (l, none)
  | .refused => ((l.create k).destroy l.objects.length, none)
  | .granted => (l.create k, some l.objects.length)

def hbiMutexInit (l : Ledger CoreResource) (answer : PlatformAnswer) :
    Ledger CoreResource × Option Nat :=
  platformCreate l .mutex answer

def hbiCondInit (l : Ledger CoreResource) (answer : PlatformAnswer) :
    Ledger CoreResource × Option Nat :=
  platformCreate l .cond answer

def hbiThreadCreate (l : Ledger CoreResource) (answer : PlatformAnswer) :
    Ledger CoreResource × Option Nat :=
  platformCreate l .thread answer

structure PoolAnswers where
  object : Bool
  queue : Bool
  workers : Bool
  mutex : PlatformAnswer
  notEmpty : PlatformAnswer
  notFull : PlatformAnswer
  idle : PlatformAnswer
  thread : Nat → PlatformAnswer

/-- The lock and the conditions of a pool. -/
structure SyncObjects where
  mutex : Option Nat
  notEmpty : Option Nat
  notFull : Option Nat
  idle : Option Nat
  deriving DecidableEq, Repr

def SyncObjects.ids (s : SyncObjects) : List Nat :=
  s.idle.toList ++ (s.notFull.toList ++ (s.notEmpty.toList ++ s.mutex.toList))

def destroySyncObjects (s : SyncObjects) (l : Ledger CoreResource) : Ledger CoreResource :=
  (((l.free s.idle).free s.notFull).free s.notEmpty).free s.mutex

/-- The chain of calls that ends with the first one that fails. -/
def initSyncObjects (answers : PoolAnswers) (l : Ledger CoreResource) :
    Ledger CoreResource × SyncObjects :=
  match hbiMutexInit l answers.mutex with
  | (l, none) => (l, ⟨none, none, none, none⟩)
  | (l, some mutex) =>
      match hbiCondInit l answers.notEmpty with
      | (l, none) => (l, ⟨some mutex, none, none, none⟩)
      | (l, some notEmpty) =>
          match hbiCondInit l answers.notFull with
          | (l, none) => (l, ⟨some mutex, some notEmpty, none, none⟩)
          | (l, some notFull) =>
              let (l, idle) := hbiCondInit l answers.idle
              (l, ⟨some mutex, some notEmpty, some notFull, idle⟩)

/-- The loop that starts a number of workers behind those it has started. -/
def spawnWorkers (thread : Nat → PlatformAnswer) (l : Ledger CoreResource) (started : List Nat) :
    Nat → Ledger CoreResource × List Nat × Bool
  | 0 => (l, started, true)
  | n + 1 =>
      match hbiThreadCreate l (thread started.length) with
      | (l, none) => (l, started, false)
      | (l, some t) => spawnWorkers thread l (started ++ [t]) n

/-- The objects of an `hbi_threadpool`. -/
structure PoolObjects where
  object : Option Nat
  queue : Option Nat
  workers : Option Nat
  sync : SyncObjects
  threads : List Nat
  deriving DecidableEq, Repr

def PoolObjects.ids (p : PoolObjects) : List Nat :=
  p.threads ++ (p.sync.ids ++ (p.workers.toList ++ (p.queue.toList ++ p.object.toList)))

/-- The workers are joined, then everything is given back. -/
def tearDownPool (p : PoolObjects) (l : Ledger CoreResource) : Ledger CoreResource :=
  let l := destroySyncObjects p.sync (p.threads.foldl Ledger.destroy l)
  ((l.free p.workers).free p.queue).free p.object

/-- `hbi_threadpool_create`. Whether the queue gets its memory, whatever its capacity, is one
of the answers. -/
def hbiThreadpoolCreate (answers : PoolAnswers) (numWorkers : Int) (l : Ledger CoreResource) :
    Ledger CoreResource × Result PoolObjects :=
  let numWorkers := if numWorkers < 1 then 1 else numWorkers
  match l.request .pool answers.object with
  | (l, none) => (l, errSet .oom "threadpool: struct allocation failed")
  | (l, some object) =>
      let (l, queue) := l.request .queue answers.queue
      let (l, workers) := l.request .workers answers.workers
      if queue = none ∨ workers = none then
        (((l.free workers).free queue).free (some object),
          errSet .oom "threadpool: queue/worker allocation failed")
      else
        let (l, sync) := initSyncObjects answers l
        if sync.idle = none then
          ((((destroySyncObjects sync l).free workers).free queue).free (some object),
            errSet .oom "threadpool: sync object init failed")
        else
          let (l, threads, spawned) := spawnWorkers answers.thread l [] numWorkers.toNat
          let pool := ⟨some object, queue, workers, sync, threads⟩
          if spawned = false then
            (tearDownPool pool l, errSet .again "threadpool: worker thread creation failed")
          else (l, .ok pool)

/-- An `hbi_config` with its objects. -/
structure ConfigObjects where
  store : ConfigStore
  object : Option Nat
  entries : Option Nat
  texts : List Nat
  deriving DecidableEq, Repr

def ConfigObjects.ids (c : ConfigObjects) : List Nat :=
  c.texts ++ (c.entries.toList ++ c.object.toList)

def hbiConfigDestroy (c : ConfigObjects) (l : Ledger CoreResource) : Ledger CoreResource :=
  ((c.texts.foldl Ledger.destroy l).free c.entries).free c.object

/-- The loop that starts the entries: the copies of default texts behind those it has made. -/
def copyTexts (blocks : ConfigBlocks) (i : Nat) (l : Ledger CoreResource) (texts : List Nat) :
    List ConfigDesc → Ledger CoreResource × List Nat × Bool
  | [] => (l, texts, true)
  | d :: ds =>
      if d.type = .string then
        match l.request .text (blocks.string i) with
        | (l, none) => (l, texts, false)
        | (l, some t) => copyTexts blocks (i + 1) l (texts ++ [t]) ds
      else copyTexts blocks (i + 1) l texts ds

/-- `hbi_config_create` with the objects that it obtains. -/
def configCreateObjects (schema : List ConfigDesc) (blocks : ConfigBlocks)
    (l : Ledger CoreResource) : Ledger CoreResource × Result ConfigObjects :=
  match validateSchema [] schema with
  | .error f => (l, .error f)
  | .ok () =>
      if schema = [] then (l, errSet .invalidArg "config_create: empty schema")
      else
        match l.request .config blocks.object with
        | (l, none) => (l, errSet .oom "config_create: object alloc failed")
        | (l, some object) =>
            match l.request .entries blocks.entries with
            | (l, none) => (l.free (some object), errSet .oom "config_create: entry alloc failed")
            | (l, some entries) =>
                let (l, texts, copied) := copyTexts blocks 0 l [] schema
                let store := ⟨schema.map fun d => ⟨d, .default, d.initial⟩⟩
                let config := ⟨store, some object, some entries, texts⟩
                if copied = false then
                  (hbiConfigDestroy config l,
                    errSet .oom "config_create: default string alloc failed")
                else (l, .ok config)

/-- What the host says of itself; the self-test also needs a block. -/
structure DeviceAnswers where
  manager : Bool
  sane : Bool
  probe : Bool
  logicalCores : Int

def hbiPlatformSelftest (answers : DeviceAnswers) (l : Ledger CoreResource) :
    Ledger CoreResource × Bool :=
  if answers.sane = false then (l, false)
  else
    let (l, p) := l.request .probe answers.probe
    (l.free p, p.isSome)

/-- `hbi_device_cpu_discover`, of which the number of logical cores is kept. -/
def hbiDeviceCpuDiscover (answers : DeviceAnswers) (l : Ledger CoreResource) :
    Ledger CoreResource × Int :=
  let (l, sane) := hbiPlatformSelftest answers l
  (l, if sane then answers.logicalCores else 1)

/-- The device report: the manager lives while its best device is copied. Without it the report
stays zero. -/
def queryDevice (answers : DeviceAnswers) (l : Ledger CoreResource) : Ledger CoreResource × Int :=
  match l.request .deviceManager answers.manager with
  | (l, none) => (l, 0)
  | (l, some manager) =>
      let (l, logicalCores) := hbiDeviceCpuDiscover answers l
      (l.free (some manager), logicalCores)

section Kept

variable {base l : Ledger CoreResource} {ids : List Nat}

theorem platformCreate_cases (h : base.Since l ids) (k : CoreResource) (answer : PlatformAnswer) :
    (∃ l', platformCreate l k answer = (l', none) ∧ base.Since l' ids) ∨
    ∃ l' id, platformCreate l k answer = (l', some id) ∧ base.Since l' (id :: ids) := by
  cases answer with
  | noMemory => exact Or.inl ⟨l, rfl, h⟩
  | refused => exact Or.inl ⟨_, rfl, (h.create k).destroy⟩
  | granted => exact Or.inr ⟨_, _, rfl, h.create k⟩

theorem destroySyncObjects_since {s : SyncObjects} (h : base.Since l (s.ids ++ ids)) :
    base.Since (destroySyncObjects s l) ids := by
  simp only [SyncObjects.ids, List.append_assoc] at h
  exact h.free.free.free.free

theorem initSyncObjects_since (answers : PoolAnswers) (h : base.Since l ids) :
    ∃ l' s, initSyncObjects answers l = (l', s) ∧ base.Since l' (s.ids ++ ids) := by
  unfold initSyncObjects hbiMutexInit hbiCondInit
  obtain ⟨l₁, heq, h₁⟩ | ⟨l₁, mutex, heq, h₁⟩ := platformCreate_cases h .mutex answers.mutex
  · rw [heq]
    exact ⟨_, _, rfl, h₁⟩
  rw [heq]
  obtain ⟨l₂, heq, h₂⟩ | ⟨l₂, notEmpty, heq, h₂⟩ :=
    platformCreate_cases h₁ .cond answers.notEmpty
  · dsimp only
    rw [heq]
    exact ⟨_, _, rfl, h₂⟩
  dsimp only
  rw [heq]
  obtain ⟨l₃, heq, h₃⟩ | ⟨l₃, notFull, heq, h₃⟩ :=
    platformCreate_cases h₂ .cond answers.notFull
  · dsimp only
    rw [heq]
    exact ⟨_, _, rfl, h₃⟩
  dsimp only
  rw [heq]
  obtain ⟨l₄, heq, h₄⟩ | ⟨l₄, idle, heq, h₄⟩ := platformCreate_cases h₃ .cond answers.idle
  · dsimp only
    rw [heq]
    exact ⟨_, _, rfl, h₄⟩
  · dsimp only
    rw [heq]
    exact ⟨_, _, rfl, h₄⟩

theorem spawnWorkers_since (thread : Nat → PlatformAnswer) {started : List Nat} (n : Nat)
    (h : base.Since l (started ++ ids)) :
    ∃ l' threads spawned, spawnWorkers thread l started n = (l', threads, spawned) ∧
      base.Since l' (threads ++ ids) := by
  induction n generalizing l started with
  | zero => exact ⟨_, _, _, rfl, h⟩
  | succ n ih =>
      unfold spawnWorkers hbiThreadCreate
      obtain ⟨l₁, heq, h₁⟩ | ⟨l₁, t, heq, h₁⟩ :=
        platformCreate_cases h .thread (thread started.length)
      · rw [heq]
        exact ⟨_, _, _, rfl, h₁⟩
      · rw [heq]
        apply ih
        rw [List.append_assoc]
        exact h₁.perm List.perm_middle.symm

theorem tearDownPool_since {p : PoolObjects} (h : base.Since l (p.ids ++ ids)) :
    base.Since (tearDownPool p l) ids := by
  simp only [PoolObjects.ids, List.append_assoc] at h
  exact (destroySyncObjects_since h.destroyAll).free.free.free

theorem copyTexts_since (blocks : ConfigBlocks) (i : Nat) {texts : List Nat}
    (ds : List ConfigDesc) (h : base.Since l (texts ++ ids)) :
    ∃ l' texts' copied, copyTexts blocks i l texts ds = (l', texts', copied) ∧
      base.Since l' (texts' ++ ids) := by
  induction ds generalizing i l texts with
  | nil => exact ⟨_, _, _, rfl, h⟩
  | cons d ds ih =>
      rw [copyTexts]
      by_cases hstring : d.type = .string
      · rw [if_pos hstring]
        obtain ⟨l₁, heq, h₁⟩ | ⟨l₁, t, heq, h₁⟩ := h.request_cases .text (blocks.string i)
        · rw [heq]
          exact ⟨_, _, _, rfl, h₁⟩
        · rw [heq]
          apply ih
          rw [List.append_assoc]
          exact h₁.perm List.perm_middle.symm
      · rw [if_neg hstring]
        exact ih _ h

theorem hbiConfigDestroy_since {c : ConfigObjects} (h : base.Since l (c.ids ++ ids)) :
    base.Since (hbiConfigDestroy c l) ids := by
  simp only [ConfigObjects.ids, List.append_assoc] at h
  exact h.destroyAll.free.free

/-- A pool that cannot be started leaves nothing, whichever request failed. -/
theorem hbiThreadpoolCreate_cases (answers : PoolAnswers) (numWorkers : Int)
    (h : base.Since l ids) :
    (∃ l' f, hbiThreadpoolCreate answers numWorkers l = (l', .error f) ∧ base.Since l' ids) ∨
    ∃ l' p, hbiThreadpoolCreate answers numWorkers l = (l', .ok p) ∧
      base.Since l' (p.ids ++ ids) := by
  unfold hbiThreadpoolCreate
  generalize (if numWorkers < 1 then 1 else numWorkers) = workerCount
  dsimp only
  obtain ⟨l₁, heq, h₁⟩ | ⟨l₁, object, heq, h₁⟩ := h.request_cases .pool answers.object
  · rw [heq]
    exact Or.inl ⟨_, _, rfl, h₁⟩
  rw [heq]
  dsimp only
  have h₂ := h₁.request .queue answers.queue
  generalize l₁.request .queue answers.queue = queued at h₂ ⊢
  have h₃ := h₂.request .workers answers.workers
  generalize queued.1.request .workers answers.workers = manned at h₃ ⊢
  by_cases hnull : queued.2 = none ∨ manned.2 = none
  · rw [if_pos hnull]
    have hfreed : base.Since (((manned.1.free manned.2).free queued.2).free (some object)) ids :=
      h₃.free.free.free
    exact Or.inl ⟨_, _, rfl, hfreed⟩
  rw [if_neg hnull]
  obtain ⟨l₄, sync, heq, h₄⟩ := initSyncObjects_since answers h₃
  rw [heq]
  dsimp only
  by_cases hidle : sync.idle = none
  · rw [if_pos hidle]
    have hfreed : base.Since ((((destroySyncObjects sync l₄).free manned.2).free queued.2).free
        (some object)) ids := (destroySyncObjects_since h₄).free.free.free
    exact Or.inl ⟨_, _, rfl, hfreed⟩
  rw [if_neg hidle]
  have hnone : base.Since l₄ ([] ++ (sync.ids ++ _)) := h₄
  obtain ⟨l₅, threads, spawned, heq, h₅⟩ :=
    spawnWorkers_since answers.thread workerCount.toNat hnone
  rw [heq]
  dsimp only
  have hpool : base.Since l₅ (PoolObjects.ids
      ⟨some object, queued.2, manned.2, sync, threads⟩ ++ ids) := by
    simp only [PoolObjects.ids, List.append_assoc]
    exact h₅
  by_cases hspawned : spawned = false
  · rw [if_pos hspawned]
    exact Or.inl ⟨_, _, rfl, tearDownPool_since hpool⟩
  · rw [if_neg hspawned]
    exact Or.inr ⟨_, _, rfl, hpool⟩

theorem configCreateObjects_cases (schema : List ConfigDesc) (blocks : ConfigBlocks)
    (h : base.Since l ids) :
    (∃ l' f, configCreateObjects schema blocks l = (l', .error f) ∧ base.Since l' ids) ∨
    ∃ l' c, configCreateObjects schema blocks l = (l', .ok c) ∧ base.Since l' (c.ids ++ ids) := by
  unfold configCreateObjects
  cases validateSchema [] schema with
  | error f => exact Or.inl ⟨_, _, rfl, h⟩
  | ok u =>
      dsimp only
      by_cases hempty : schema = []
      · rw [if_pos hempty]
        exact Or.inl ⟨_, _, rfl, h⟩
      rw [if_neg hempty]
      obtain ⟨l₁, heq, h₁⟩ | ⟨l₁, object, heq, h₁⟩ := h.request_cases .config blocks.object
      · rw [heq]
        exact Or.inl ⟨_, _, rfl, h₁⟩
      rw [heq]
      dsimp only
      obtain ⟨l₂, heq, h₂⟩ | ⟨l₂, entries, heq, h₂⟩ := h₁.request_cases .entries blocks.entries
      · rw [heq]
        exact Or.inl ⟨_, _, rfl, h₂.destroy⟩
      rw [heq]
      dsimp only
      have hnone : base.Since l₂ ([] ++ entries :: object :: ids) := h₂
      obtain ⟨l₃, texts, copied, heq, h₃⟩ := copyTexts_since blocks 0 schema hnone
      rw [heq]
      dsimp only
      have hconfig : base.Since l₃ (ConfigObjects.ids
          ⟨⟨schema.map fun d => ⟨d, .default, d.initial⟩⟩, some object, some entries, texts⟩ ++
            ids) := by
        simp only [ConfigObjects.ids, List.append_assoc]
        exact h₃
      by_cases hcopied : copied = false
      · rw [if_pos hcopied]
        exact Or.inl ⟨_, _, rfl, hbiConfigDestroy_since hconfig⟩
      · rw [if_neg hcopied]
        exact Or.inr ⟨_, _, rfl, hconfig⟩

theorem queryDevice_since (answers : DeviceAnswers) (h : base.Since l ids) :
    base.Since (queryDevice answers l).1 ids := by
  unfold queryDevice hbiDeviceCpuDiscover hbiPlatformSelftest
  obtain ⟨l₁, heq, h₁⟩ | ⟨l₁, manager, heq, h₁⟩ :=
    h.request_cases .deviceManager answers.manager
  · rw [heq]
    exact h₁
  rw [heq]
  dsimp only
  by_cases hsane : answers.sane = false
  · rw [if_pos hsane]
    exact h₁.destroy
  · rw [if_neg hsane]
    exact (h₁.request .probe answers.probe).free.destroy

end Kept

/-- The copies are granted exactly when the entries can be started. -/
theorem startEntries_of_copyTexts (blocks : ConfigBlocks) (i : Nat) (l : Ledger CoreResource)
    (texts : List Nat) (ds : List ConfigDesc) :
    startEntries blocks i ds =
      if (copyTexts blocks i l texts ds).2.2 then .ok (ds.map fun d => ⟨d, .default, d.initial⟩)
      else errSet .oom "config_create: default string alloc failed" := by
  induction ds generalizing i l texts with
  | nil => rfl
  | cons d ds ih =>
      rw [startEntries, copyTexts]
      by_cases hstring : d.type = .string
      · cases hblock : blocks.string i with
        | false =>
            rw [if_pos ⟨hstring, rfl⟩, if_pos hstring]
            rfl
        | true =>
            rw [if_neg (by simp), if_pos hstring, Ledger.request, if_pos rfl,
              ih (i + 1) (l.create .text) (texts ++ [l.objects.length])]
            dsimp only
            split <;> rfl
      · rw [if_neg (fun h => hstring h.1), if_neg hstring, ih (i + 1) l texts]
        split <;> rfl

/-- The store that is created with its objects is the one of `hbi_config_create`. -/
theorem configCreateObjects_store (schema : List ConfigDesc) (blocks : ConfigBlocks)
    (l : Ledger CoreResource) :
    (configCreateObjects schema blocks l).2.map (·.store) = hbiConfigCreate schema blocks := by
  unfold configCreateObjects hbiConfigCreate
  cases validateSchema [] schema with
  | error f => rfl
  | ok u =>
      by_cases hempty : schema = []
      · simp only [hempty, if_true]
        rfl
      simp only [if_neg hempty]
      unfold Ledger.request
      cases blocks.object with
      | false => rfl
      | true =>
          cases blocks.entries with
          | false => rfl
          | true =>
              rw [startEntries_of_copyTexts blocks 0 ((l.create .config).create .entries) [] schema]
              simp only [if_true]
              cases (copyTexts blocks 0 ((l.create .config).create .entries) [] schema).2.2 <;> rfl

end Hummingbird

import Hummingbird.Common
import Hummingbird.Foundation.Ownership
import Hummingbird.Foundation.Runs
import Hummingbird.Foundation.Table

/-!
The registry of backends, and a manager that keeps one context for each of them. The array of
contexts is indexed by the places of the registry, which only grows; that a context is found
again, and destroyed once, rests on this.
-/

namespace Hummingbird

open Ownership

def hbiBackendMax : Nat := 8

def hbiBackendAbiVersion : Nat := 2

/-- What the registry and a manager read of an `hbi_backend`: which one it is, and whether it has
the two functions for contexts. -/
structure Backend where
  id : Nat
  name : String
  abiVersion : Nat
  createContext : Bool
  destroyContext : Bool
  deriving DecidableEq, Repr

inductive BackendObject where
  | manager
  | context
  deriving DecidableEq, Repr

def hbiBackendRegister (backends : List Backend) (b : Backend) : List Backend × Result Unit :=
  if b.abiVersion ≠ hbiBackendAbiVersion then
    (backends, errSet .unsupported (s!"Backend '{b.name}' has incompatible ABI version " ++
      s!"{b.abiVersion} (expected {hbiBackendAbiVersion})"))
  else if backends.length ≥ hbiBackendMax then
    (backends, errSet .state "Backend registry is full")
  else (backends ++ [b], .ok ())

/-- `hbi_backend_manager`; a context that was not created is `none`. -/
structure BackendManager where
  object : Nat
  contexts : List (Option Nat)

/-- The registry, a manager, and the objects of the process. -/
structure BackendState where
  backends : List Backend
  manager : BackendManager
  ledger : Ledger BackendObject

def hbiBackendManagerCreate (granted : Bool) (l : Ledger BackendObject) :
    Ledger BackendObject × Result BackendManager :=
  match l.request .manager granted with
  | (l, none) => (l, errSet .oom "Failed to allocate backend manager")
  | (l, some object) => (l, .ok ⟨object, List.replicate hbiBackendMax none⟩)

/-- What `create_context` answers when it is called; one that fails leaves the place empty. -/
def hbiBackendManagerGetContext (answer : Result Unit) (b : Backend) (s : BackendState) :
    BackendState × Result Nat :=
  match s.backends.findIdx? fun e => e = b with
  | none => (s, errSet .notFound "Backend not found in registry")
  | some idx =>
      match s.manager.contexts.getD idx none with
      | some ctx => (s, .ok ctx)
      | none =>
          if b.createContext = false then
            (s, errSet .unsupported "Backend does not support context creation")
          else
            match answer with
            | .error f => (s, .error f)
            | .ok () =>
                let ctx := s.ledger.objects.length
                ({ s with
                  manager := { s.manager with contexts := s.manager.contexts.set idx (some ctx) }
                  ledger := s.ledger.create .context }, .ok ctx)

/-- The loop over the places of the registry. -/
def destroyManaged : List Backend → List (Option Nat) → Ledger BackendObject →
    Ledger BackendObject
  | b :: backends, slot :: slots, l =>
      destroyManaged backends slots (if b.destroyContext then l.free slot else l)
  | _, _, l => l

def hbiBackendManagerDestroy (s : BackendState) : Ledger BackendObject :=
  (destroyManaged s.backends s.manager.contexts s.ledger).destroy s.manager.object

inductive BackendCall where
  | register (b : Backend)
  | getContext (answer : Result Unit) (b : Backend)

def BackendCall.next (s : BackendState) : BackendCall → BackendState
  | .register b => { s with backends := (hbiBackendRegister s.backends b).1 }
  | .getContext answer b => (hbiBackendManagerGetContext answer b s).1

/-- The registry after some registrations. -/
def registerBackends (bs : List Backend) : List Backend :=
  Runs.final (fun backends b => (hbiBackendRegister backends b).1) [] bs

def BackendState.after (s : BackendState) (calls : List BackendCall) : BackendState :=
  Runs.final BackendCall.next s calls

/-- The contexts whose backends cannot destroy them. -/
def keptContexts : List Backend → List (Option Nat) → List Nat
  | b :: backends, slot :: slots =>
      (if b.destroyContext then [] else slot.toList) ++ keptContexts backends slots
  | _, _ => []

/-- A state of a manager since its creation: it and its contexts are what is alive, and every
context stands at a place of the registry. -/
structure BackendState.Managed (base : Ledger BackendObject) (s : BackendState) : Prop where
  ledger : base.Since s.ledger (s.manager.contexts.reduceOption ++ [s.manager.object])
  length : s.manager.contexts.length = hbiBackendMax
  room : s.backends.length ≤ hbiBackendMax
  placed : ∀ i ctx, s.manager.contexts[i]? = some (some ctx) → i < s.backends.length

/-- The context of a backend: the one at its first place. -/
def BackendState.contextOf (s : BackendState) (b : Backend) : Option Nat :=
  (s.backends.findIdx? fun e => e = b).bind fun idx => s.manager.contexts.getD idx none

section Managing

variable {base : Ledger BackendObject} {s : BackendState} {b : Backend} {ctx : Nat}

/-- A registration appends, or changes nothing. -/
theorem hbiBackendRegister_cases (backends : List Backend) (b : Backend) :
    (hbiBackendRegister backends b).1 = backends ∨
      backends.length < hbiBackendMax ∧ (hbiBackendRegister backends b).1 = backends ++ [b] := by
  unfold hbiBackendRegister
  split_ifs with hversion hfull
  · exact Or.inl rfl
  · exact Or.inl rfl
  · exact Or.inr ⟨not_le.mp hfull, rfl⟩

/-- A call for a context finds it, is refused, or creates it at a place that was empty. -/
theorem getContext_cases (answer : Result Unit) (b : Backend) (s : BackendState) :
    (∃ ctx, s.contextOf b = some ctx ∧ hbiBackendManagerGetContext answer b s = (s, .ok ctx)) ∨
    (∃ f, s.contextOf b = none ∧ hbiBackendManagerGetContext answer b s = (s, .error f)) ∨
    ∃ idx, (s.backends.findIdx? fun e => e = b) = some idx ∧
      s.manager.contexts.getD idx none = none ∧
      hbiBackendManagerGetContext answer b s =
        ({ s with
          manager := { s.manager with
            contexts := s.manager.contexts.set idx (some s.ledger.objects.length) }
          ledger := s.ledger.create .context }, .ok s.ledger.objects.length) := by
  unfold hbiBackendManagerGetContext BackendState.contextOf
  cases hidx : s.backends.findIdx? fun e => e = b with
  | none => exact Or.inr (Or.inl ⟨_, rfl, rfl⟩)
  | some idx =>
      dsimp only [Option.bind_some]
      cases hslot : s.manager.contexts.getD idx none with
      | some ctx => exact Or.inl ⟨ctx, rfl, rfl⟩
      | none =>
          dsimp only
          split_ifs with hcreate
          · exact Or.inr (Or.inl ⟨_, rfl, rfl⟩)
          · cases answer with
            | error f => exact Or.inr (Or.inl ⟨f, rfl, rfl⟩)
            | ok u => exact Or.inr (Or.inr ⟨idx, rfl, hslot, rfl⟩)

/-- A place that the search finds is one of the array. -/
theorem BackendState.Managed.lt_length (h : s.Managed base) {idx : Nat}
    (hidx : (s.backends.findIdx? fun e => e = b) = some idx) :
    idx < s.backends.length ∧ idx < s.manager.contexts.length := by
  have hlt := (List.findIdx?_eq_some_iff_findIdx_eq.mp hidx).1
  rw [h.length]
  exact ⟨hlt, hlt.trans_le h.room⟩

theorem BackendState.Managed.getContext (h : s.Managed base) (answer : Result Unit)
    (b : Backend) : (hbiBackendManagerGetContext answer b s).1.Managed base := by
  obtain ⟨ctx, -, heq⟩ | ⟨f, -, heq⟩ | ⟨idx, hidx, hempty, heq⟩ := getContext_cases answer b s
  · rw [heq]
    exact h
  · rw [heq]
    exact h
  rw [heq]
  obtain ⟨hplace, hlt⟩ := h.lt_length hidx
  have hslot : s.manager.contexts[idx]? = some none := by
    rw [List.getElem?_eq_getElem hlt, ← List.getD_eq_getElem _ none hlt, hempty]
  obtain ⟨rest, hbefore, hafter⟩ := Table.filterMap_set hslot id
  refine ⟨?_, ?_, h.room, ?_⟩
  · have hnew := (h.ledger.perm (hbefore.append_right [s.manager.object])).create .context
    exact hnew.perm ((hafter (some s.ledger.objects.length)).append_right _).symm
  · rw [List.length_set]
    exact h.length
  · intro i ctx hi
    by_cases heq : idx = i
    · exact heq ▸ hplace
    · rw [List.getElem?_set_ne heq] at hi
      exact h.placed i ctx hi

theorem BackendState.Managed.next (h : s.Managed base) (call : BackendCall) :
    (call.next s).Managed base := by
  cases call with
  | register b =>
      obtain heq | ⟨hroom, heq⟩ := hbiBackendRegister_cases s.backends b
      · rw [BackendCall.next, heq]
        exact h
      · rw [BackendCall.next, heq]
        refine ⟨h.ledger, h.length, ?_, ?_⟩
        · rw [List.length_append, List.length_singleton]
          exact hroom
        · intro i ctx hi
          rw [List.length_append]
          exact (h.placed i ctx hi).trans_le (Nat.le_add_right _ _)
  | getContext answer b => exact h.getContext answer b

/-- A context that a call hands out is the one of its backend from then on. -/
theorem BackendState.Managed.contextOf_of_ok (h : s.Managed base) {answer : Result Unit}
    (hok : (hbiBackendManagerGetContext answer b s).2 = .ok ctx) :
    (hbiBackendManagerGetContext answer b s).1.contextOf b = some ctx := by
  obtain ⟨ctx', hctx, heq⟩ | ⟨f, -, heq⟩ | ⟨idx, hidx, hempty, heq⟩ := getContext_cases answer b s
  · rw [heq] at hok ⊢
    cases hok
    exact hctx
  · rw [heq] at hok
    cases hok
  · rw [heq] at hok ⊢
    cases hok
    rw [BackendState.contextOf, hidx, Option.bind_some, Table.getD_set,
      if_pos ⟨rfl, (h.lt_length hidx).2⟩]

/-- No call takes the context of a backend away. -/
theorem contextOf_next (hctx : s.contextOf b = some ctx) (call : BackendCall) :
    (call.next s).contextOf b = some ctx := by
  obtain ⟨idx, hidx, hslot⟩ := Option.bind_eq_some_iff.mp hctx
  cases call with
  | register b' =>
      obtain heq | ⟨-, heq⟩ := hbiBackendRegister_cases s.backends b'
      · rw [BackendCall.next, heq]
        exact hctx
      · rw [BackendCall.next, heq, BackendState.contextOf, List.findIdx?_append, hidx,
          Option.some_or, Option.bind_some]
        exact hslot
  | getContext answer b' =>
      obtain ⟨ctx', -, heq⟩ | ⟨f, -, heq⟩ | ⟨idx', -, hempty, heq⟩ := getContext_cases answer b' s
      · rw [BackendCall.next, heq]
        exact hctx
      · rw [BackendCall.next, heq]
        exact hctx
      · have hne : idx' ≠ idx := by
          rintro rfl
          rw [hempty] at hslot
          cases hslot
        rw [BackendCall.next, heq, BackendState.contextOf, hidx, Option.bind_some, Table.getD_set,
          if_neg fun hand => hne hand.1]
        exact hslot

theorem getContext_of_contextOf (hctx : s.contextOf b = some ctx) (answer : Result Unit) :
    hbiBackendManagerGetContext answer b s = (s, .ok ctx) := by
  obtain ⟨idx, hidx, hslot⟩ := Option.bind_eq_some_iff.mp hctx
  unfold hbiBackendManagerGetContext
  rw [hidx]
  dsimp only
  rw [hslot]

/-- The loop destroys what stands at places of the registry, as far as it can. -/
theorem destroyManaged_since {backends : List Backend} {slots : List (Option Nat)}
    {l : Ledger BackendObject} {ids : List Nat} (hheld : base.Since l (slots.reduceOption ++ ids))
    (hplaced : ∀ i ctx, slots[i]? = some (some ctx) → i < backends.length) :
    base.Since (destroyManaged backends slots l) (keptContexts backends slots ++ ids) := by
  induction slots generalizing backends l ids with
  | nil =>
      cases backends with
      | nil => exact hheld
      | cons b backends => exact hheld
  | cons slot slots ih =>
      cases backends with
      | nil =>
          have hempty : (slot :: slots).reduceOption = [] := by
            refine List.filterMap_eq_nil_iff.mpr ?_
            intro o ho
            obtain ⟨i, hi⟩ := List.mem_iff_getElem?.mp ho
            cases o with
            | none => rfl
            | some ctx => exact absurd (hplaced i ctx hi) (Nat.not_lt_zero _)
          rw [hempty] at hheld
          exact hheld
      | cons b backends =>
          have hrest : ∀ i ctx, slots[i]? = some (some ctx) → i < backends.length :=
            fun i ctx hi => Nat.lt_of_succ_lt_succ (hplaced (i + 1) ctx hi)
          have hsplit : (slot :: slots).reduceOption = slot.toList ++ slots.reduceOption := by
            cases slot with
            | none => rfl
            | some ctx => rfl
          rw [hsplit, List.append_assoc] at hheld
          unfold destroyManaged keptContexts
          cases hdestroy : b.destroyContext with
          | true => exact ih hheld.free hrest
          | false =>
              have hmoved := ih (hheld.perm (List.perm_append_comm_assoc _ _ _)) hrest
              refine hmoved.perm ?_
              rw [List.append_assoc]
              exact List.perm_append_comm_assoc _ _ _

theorem length_registerBackends (bs : List Backend) :
    (registerBackends bs).length ≤ hbiBackendMax := by
  have hstep : ∀ (backends : List Backend) (b : Backend), backends.length ≤ hbiBackendMax →
      (hbiBackendRegister backends b).1.length ≤ hbiBackendMax := by
    intro backends b hroom
    obtain heq | ⟨hlt, heq⟩ := hbiBackendRegister_cases backends b
    · rw [heq]
      exact hroom
    · rw [heq, List.length_append, List.length_singleton]
      exact hlt
  exact @Runs.final_of_step _ _ _ (fun backends => backends.length ≤ hbiBackendMax) hstep []
    (Nat.zero_le _) bs

theorem managed_of_create {granted : Bool} {l l' : Ledger BackendObject}
    {manager : BackendManager} (hcreate : hbiBackendManagerCreate granted l = (l', .ok manager))
    (bs : List Backend) : BackendState.Managed l ⟨registerBackends bs, manager, l'⟩ := by
  unfold hbiBackendManagerCreate Ledger.request at hcreate
  cases granted with
  | false => cases hcreate
  | true =>
      cases hcreate
      refine ⟨(Ledger.Since.refl l).create .manager, List.length_replicate,
        length_registerBackends bs, ?_⟩
      intro i ctx hi
      rw [List.getElem?_replicate] at hi
      split at hi
      · cases hi
      · cases hi

/-- A destruction of the manager leaves the contexts whose backends cannot destroy them. -/
theorem BackendState.Managed.destroy (h : s.Managed base) :
    base.Since (hbiBackendManagerDestroy s)
      (keptContexts s.backends s.manager.contexts) := by
  have hgiven := destroyManaged_since h.ledger h.placed
  exact (hgiven.perm (List.perm_append_singleton _ _)).destroy

end Managing

/-- A manager that is created under any registrations, whatever is registered and asked for
afterwards. A context that it has handed out it hands out again, and creates no other for that
backend; a destruction destroys every context once, but for those whose backends cannot, and
leaves nothing else. -/
theorem backend_manager_run {granted : Bool} {l l' : Ledger BackendObject}
    {manager : BackendManager} (hcreate : hbiBackendManagerCreate granted l = (l', .ok manager))
    (bs : List Backend) (calls : List BackendCall) :
    let s := BackendState.after ⟨registerBackends bs, manager, l'⟩ calls
    (∀ answer b ctx, (hbiBackendManagerGetContext answer b s).2 = .ok ctx →
      ∀ calls' answer',
        let s' := (hbiBackendManagerGetContext answer b s).1.after calls'
        hbiBackendManagerGetContext answer' b s' = (s', .ok ctx)) ∧
      l.Since (hbiBackendManagerDestroy s) (keptContexts s.backends s.manager.contexts) := by
  intro s
  have hmanaged : s.Managed l :=
    Runs.final_of_step (fun _ call h => h.next call) (managed_of_create hcreate bs) calls
  refine ⟨?_, hmanaged.destroy⟩
  intro answer b ctx hok calls' answer' s'
  have hctx : s'.contextOf b = some ctx :=
    @Runs.final_of_step _ _ _ (fun s : BackendState => s.contextOf b = some ctx)
      (fun _ call h => contextOf_next h call) _ (hmanaged.contextOf_of_ok hok) calls'
  exact getContext_of_contextOf hctx answer'

/-- A backend that can destroy its contexts, and one that cannot. -/
def plainBackend : Backend := ⟨1, "cpu", 2, true, true⟩

def bareBackend : Backend := ⟨2, "bare", 2, true, false⟩

/-- Both are asked twice, in turn. -/
def askedTwice : List BackendCall :=
  [.getContext (.ok ()) plainBackend, .getContext (.ok ()) bareBackend,
    .getContext (.ok ()) plainBackend, .getContext (.ok ()) bareBackend]

/-- Of the two contexts the one is left that cannot be destroyed. -/
theorem backend_manager_run_two :
    ∃ l' manager, hbiBackendManagerCreate true ⟨[], 0⟩ = (l', .ok manager) ∧
      (⟨[], 0⟩ : Ledger BackendObject).Since (hbiBackendManagerDestroy
        (BackendState.after ⟨registerBackends [plainBackend, bareBackend], manager, l'⟩
          askedTwice)) [2] := by
  refine ⟨_, _, rfl, ?_⟩
  have hdown := (@backend_manager_run true ⟨[], 0⟩ _ _ rfl [plainBackend, bareBackend]
    askedTwice).2
  have hkept : keptContexts [plainBackend, bareBackend] [some 1, some 2] = [2] := by decide
  exact hkept ▸ hdown

end Hummingbird

import Hummingbird.Adapter.Descriptor
import Hummingbird.Foundation.Roster

/-!
The registry of model adapters over any run of its calls, and the adapter that the metadata of a
model ask for.
-/

namespace Hummingbird

def hbiAdapterRegistryMax : Nat := 16

/-- The functions of an `hbi_model_adapter`. -/
inductive AdapterFunction where
  | init
  | validateMetadata
  | buildDescriptor
  | buildGraph
  | registerTensors
  | createContext
  | destroyContext
  | getCapabilities
  | getStatistics
  | shutdown
  deriving DecidableEq, Repr

/-- Those that registration looks for. -/
def AdapterFunction.required : List AdapterFunction :=
  [.init, .validateMetadata, .buildDescriptor, .buildGraph, .registerTensors, .createContext,
    .destroyContext, .getCapabilities, .getStatistics]

/-- What a host offers: an adapter that may lack its name or some of its functions. -/
structure OfferedAdapter where
  name : Option String
  adapter : Nat
  has : AdapterFunction → Bool

def OfferedAdapter.complete (adapter : OfferedAdapter) : Bool :=
  AdapterFunction.required.all adapter.has

/-- What the registry knows of an adapter: its name, and which one it is. -/
structure RegisteredAdapter where
  name : String
  adapter : Nat
  deriving DecidableEq, Repr

def hbiAdapterRegister (adapters : List RegisteredAdapter) (adapter : OfferedAdapter) :
    List RegisteredAdapter × Result Unit :=
  match adapter.name with
  | none => (adapters, errSet .invalidArg "adapter register: NULL adapter or missing name")
  | some name =>
      if adapter.complete = false then
        (adapters, errSet .invalidArg "adapter register: missing required vtable fields")
      else if adapters.length ≥ hbiAdapterRegistryMax then
        (adapters, errSet .state "adapter registry is full")
      else if adapters.any fun e => e.name = name then
        (adapters, errSet .state s!"adapter register: duplicate name '{name}'")
      else (adapters ++ [⟨name, adapter.adapter⟩], .ok ())

/-- An adapter with its name and all functions that it needs is one that can be registered. -/
def OfferedAdapter.entry (adapter : OfferedAdapter) : Option RegisteredAdapter :=
  adapter.name.bind fun name => if adapter.complete then some ⟨name, adapter.adapter⟩ else none

def hbiAdapterFind (adapters : List RegisteredAdapter) (architectureName : String) :
    Option RegisteredAdapter :=
  adapters.find? fun e => e.name = architectureName

/-- `hbi_adapter_register` and `hbi_adapter_registry_clear`. -/
def adapterStep (adapters : List RegisteredAdapter) :
    Roster.Call OfferedAdapter → List RegisteredAdapter
  | .enter adapter => (hbiAdapterRegister adapters adapter).1
  | .clear => []

/-- The registry after a run of calls. -/
def modelAdapters (calls : List (Roster.Call OfferedAdapter)) : List RegisteredAdapter :=
  calls.foldl adapterStep []

def hbiAdapterResolve (adapters : List RegisteredAdapter) (md : ModelMetadata) :
    Result RegisteredAdapter :=
  match hbiModelMetadataGet md "architecture" with
  | none => errSet .notFound "adapter resolve: no 'architecture' key in metadata"
  | some arch =>
      if arch = "" then errSet .notFound "adapter resolve: no 'architecture' key in metadata"
      else
        match hbiAdapterFind adapters arch with
        | none => errSet .notFound s!"adapter resolve: no adapter for architecture '{arch}'"
        | some adapter => .ok adapter

theorem adapterStep_eq (adapters : List RegisteredAdapter) (call : Roster.Call OfferedAdapter) :
    adapterStep adapters call =
      call.nextOffer OfferedAdapter.entry RegisteredAdapter.name hbiAdapterRegistryMax
        adapters := by
  cases call with
  | clear => rfl
  | enter adapter =>
      rw [adapterStep, Roster.Call.nextOffer, hbiAdapterRegister, OfferedAdapter.entry]
      cases adapter.name with
      | none => rfl
      | some name =>
          cases adapter.complete with
          | false => rfl
          | true =>
              dsimp only [Option.bind_some]
              rw [if_pos rfl, if_neg (by decide), Option.elim_some, Roster.enter_full_taken]
              split_ifs <;> rfl

/-- The registry after any run holds the first complete adapter of each name that was asked for
since it was last cleared, while there is room. -/
theorem modelAdapters_eq (calls : List (Roster.Call OfferedAdapter)) :
    modelAdapters calls = ((Roster.asked [] calls).filterMap OfferedAdapter.entry).foldl
      (Roster.enter RegisteredAdapter.name hbiAdapterRegistryMax) [] :=
  Roster.foldl_step _ adapterStep_eq calls

/-- A model gets the adapter that its metadata name. -/
theorem hbiAdapterResolve_eq_ok {adapters : List RegisteredAdapter} {md : ModelMetadata}
    {a : RegisteredAdapter} : hbiAdapterResolve adapters md = .ok a ↔
      hbiModelMetadataGet md "architecture" = some a.name ∧ a.name ≠ "" ∧
        (adapters.find? fun e => e.name = a.name) = some a := by
  unfold hbiAdapterResolve hbiAdapterFind
  cases hget : hbiModelMetadataGet md "architecture" with
  | none => simp
  | some arch =>
      rw [Result.ite_errSet_eq_ok, Option.some.injEq]
      cases hfind : adapters.find? fun e => e.name = arch with
      | none =>
          refine iff_of_false (fun h => errSet_ne_ok _ _ _ h.2) ?_
          rintro ⟨rfl, -, h⟩
          rw [hfind] at h
          cases h
      | some found =>
          have hname : found.name = arch := by simpa using List.find?_some hfind
          constructor
          · rintro ⟨hne, heq⟩
            cases heq
            exact ⟨hname.symm, hname ▸ hne, hname.symm ▸ hfind⟩
          · rintro ⟨rfl, hne, h⟩
            rw [hfind] at h
            cases h
            exact ⟨hne, rfl⟩

/-- After any run of calls of the registry, a model gets an adapter exactly when its metadata name
it, and it was the first complete one that was asked to be registered under its name since the
registry was last cleared, with fewer names before it than the registry holds. -/
theorem hbi_adapter_resolve_iff (calls : List (Roster.Call OfferedAdapter))
    (md : ModelMetadata) (a : RegisteredAdapter) :
    hbiAdapterResolve (modelAdapters calls) md = .ok a ↔
      hbiModelMetadataGet md "architecture" = some a.name ∧ a.name ≠ "" ∧
        ∃ before after,
          (Roster.asked [] calls).filterMap OfferedAdapter.entry = before ++ a :: after ∧
          (∀ e ∈ before, e.name ≠ a.name) ∧
          (before.map RegisteredAdapter.name).toFinset.card < hbiAdapterRegistryMax := by
  rw [hbiAdapterResolve_eq_ok, modelAdapters_eq, Roster.find?_foldl_enter]
  simp

end Hummingbird

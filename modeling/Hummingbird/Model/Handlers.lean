import Hummingbird.Foundation.Roster
import Hummingbird.Model.Load

/-!
The registry of format handlers over any run of its calls, and the handler that a load without
a hint comes to use.
-/

namespace Hummingbird

def hbiFormatHandlerMax : Nat := 8

/-- What a host offers: a handler that may lack its name or one of its functions. The name is
looked at here only. -/
structure OfferedHandler where
  name : Option String
  format : ModelFormat
  detect : Option (List UInt8 → Bool)
  parseMetadata : Option (List UInt8 → ParseRun)

/-- A handler that has what it needs. -/
def OfferedHandler.entry (handler : OfferedHandler) : Option FormatHandler := do
  let _ ← handler.name
  let detect ← handler.detect
  let parseMetadata ← handler.parseMetadata
  return ⟨handler.format, detect, parseMetadata⟩

def hbiFormatHandlerRegister (handlers : List FormatHandler) (offered : OfferedHandler) :
    List FormatHandler × Result Unit :=
  match offered.entry with
  | none =>
      (handlers, errSet .invalidArg "format handler: NULL handler or missing required fields")
  | some handler =>
      if handlers.length ≥ hbiFormatHandlerMax then
        (handlers, errSet .state "format handler registry is full")
      else if handlers.any fun e => e.format = handler.format then
        (handlers, errSet .state
          s!"format handler already registered for {hbiModelFormatStr handler.format}")
      else (handlers ++ [handler], .ok ())

/-- `hbi_format_handler_register` and `hbi_format_handler_registry_clear`. -/
def handlerStep (handlers : List FormatHandler) : Roster.Call OfferedHandler → List FormatHandler
  | .enter handler => (hbiFormatHandlerRegister handlers handler).1
  | .clear => []

/-- The registry after a run of calls. -/
def formatHandlers (calls : List (Roster.Call OfferedHandler)) : List FormatHandler :=
  calls.foldl handlerStep []

theorem handlerStep_eq (handlers : List FormatHandler) (call : Roster.Call OfferedHandler) :
    handlerStep handlers call =
      call.nextOffer OfferedHandler.entry FormatHandler.format hbiFormatHandlerMax handlers := by
  cases call with
  | clear => rfl
  | enter offered =>
      rw [handlerStep, Roster.Call.nextOffer, hbiFormatHandlerRegister]
      cases offered.entry with
      | none => rfl
      | some handler =>
          rw [Option.elim_some, Roster.enter_full_taken]
          dsimp only
          split_ifs <;> rfl

/-- The registry after any run holds the first complete handler for each format that was asked for
since it was last cleared, while there is room. -/
theorem formatHandlers_eq (calls : List (Roster.Call OfferedHandler)) :
    formatHandlers calls = ((Roster.asked [] calls).filterMap OfferedHandler.entry).foldl
      (Roster.enter FormatHandler.format hbiFormatHandlerMax) [] :=
  Roster.foldl_step _ handlerStep_eq calls

theorem nodup_formatHandlers (calls : List (Roster.Call OfferedHandler)) :
    ((formatHandlers calls).map FormatHandler.format).Nodup := by
  rw [formatHandlers_eq]
  exact Roster.nodup_foldl_enter _

section Loading

variable {grant : Nat → Bool} {clock : Nat → UInt64} {options : LoadOptions} {h : BlockHeap}
  {path : List UInt8} {handler : FormatHandler} {session session' : LoadSession}

theorem validateLoad_outSession (hload : (validateLoad clock options h session).outSession =
    some session') :
    session'.handler = session.handler ∧ session'.detectedFormat = session.detectedFormat := by
  unfold validateLoad completeLoad at hload
  split at hload
  · cases hload
    exact ⟨rfl, rfl⟩
  · dsimp only at hload
    split at hload
    · cases hload
    · cases hload
      exact ⟨rfl, rfl⟩

/-- What follows the choice of a handler keeps it. -/
theorem parseLoad_outSession (hload : (parseLoad grant clock options path handler h
    session).outSession = some session') :
    session'.handler = session.handler ∧ session'.detectedFormat = session.detectedFormat := by
  unfold parseLoad at hload
  dsimp only at hload
  split at hload
  · cases hload
  · have hkept := validateLoad_outSession hload
    exact hkept

/-- The handler of a load that is handed out is the one registered for its format. -/
theorem hbiModelLoad_outSession {handlers : List FormatHandler}
    (hload : (hbiModelLoad grant clock options handlers h).outSession = some session) :
    ∃ handler fmt, fmt = loadFormat options handlers (options.modelPath.getD []) ∧
      fmt ≠ .unknown ∧ hbiFormatHandlerFind handlers fmt = some handler ∧
      session.handler = some handler ∧ session.detectedFormat = fmt := by
  unfold hbiModelLoad at hload
  dsimp only at hload
  split at hload
  · cases hload
  split at hload
  · cases hload
  · split at hload
    · cases hload
    · rename_i hknown
      split at hload
      · cases hload
      · rename_i handler hfind
        obtain ⟨hhandler, hformat⟩ := parseLoad_outSession hload
        exact ⟨handler, _, rfl, hknown, hfind, hhandler, hformat⟩

end Loading

/-- After any run of calls of the registry, a load without a hint parses the file with the
handler that recognised it: of those in the registry the first that does, and the first complete
one that was asked to be registered for its format since the registry was last cleared. -/
theorem hbi_model_load_detects {grant : Nat → Bool} {clock : Nat → UInt64} {options : LoadOptions}
    {h : BlockHeap} {session : LoadSession} (calls : List (Roster.Call OfferedHandler))
    (hhint : options.formatHint = .unknown)
    (hload : (hbiModelLoad grant clock options (formatHandlers calls) h).outSession =
      some session) :
    ∃ handler, session.handler = some handler ∧ session.detectedFormat = handler.format ∧
      ((formatHandlers calls).find? fun e => e.detect (options.modelPath.getD [])) =
        some handler ∧
      ∃ before after,
        (Roster.asked [] calls).filterMap OfferedHandler.entry = before ++ handler :: after ∧
        ∀ e ∈ before, e.format ≠ handler.format := by
  obtain ⟨handler, fmt, hfmt, hknown, hfind, hhandler, hformat⟩ := hbiModelLoad_outSession hload
  rw [loadFormat, if_pos hhint, hbiFormatHandlerDetect] at hfmt
  cases hdetect : (formatHandlers calls).find? fun e => e.detect (options.modelPath.getD []) with
  | none =>
      rw [hdetect] at hfmt
      exact absurd hfmt hknown
  | some detector =>
      rw [hdetect] at hfmt
      have hsame := Roster.find?_key (nodup_formatHandlers calls) hdetect
      rw [hfmt, hbiFormatHandlerFind, hsame] at hfind
      cases hfind
      rw [formatHandlers_eq] at hsame
      obtain ⟨-, before, after, hasked, hbefore, -⟩ := Roster.find?_foldl_enter.mp hsame
      exact ⟨handler, hhandler, hformat.trans hfmt, rfl, before, after, hasked, hbefore⟩

/-- A handler for the files whose path starts with a letter, in which it finds nothing. -/
def letterHandler (format : ModelFormat) (letter : UInt8) : OfferedHandler where
  name := some "letter"
  format := format
  detect := some fun path => path.head? = some letter
  parseMetadata := some fun _ => ⟨[], .ok ()⟩

/-- Registrations before and after the registry is cleared, one of them for a format that is
taken, and one of a handler that cannot parse. -/
def mixedCalls : List (Roster.Call OfferedHandler) :=
  [.enter (letterHandler .safetensors 109), .clear,
    .enter { letterHandler .safetensors 109 with parseMetadata := none },
    .enter (letterHandler .gguf 103), .enter (letterHandler .gguf 109),
    .enter (letterHandler .safetensors 109)]

theorem hbi_model_load_detects_letter :
    ∃ session handler, (hbiModelLoad (fun _ => true) (fun _ => 0) ⟨some [109], .unknown, 0⟩
        (formatHandlers mixedCalls) .empty).outSession = some session ∧
      session.handler = some handler ∧ session.detectedFormat = handler.format ∧
      handler.detect [109] = true := by
  obtain ⟨session, hload⟩ : ∃ session, (hbiModelLoad (fun _ => true) (fun _ => 0)
      ⟨some [109], .unknown, 0⟩ (formatHandlers mixedCalls) .empty).outSession = some session :=
    Option.isSome_iff_exists.mp (by decide +kernel)
  obtain ⟨handler, hhandler, hformat, hdetect, -⟩ := hbi_model_load_detects mixedCalls rfl hload
  exact ⟨session, handler, hload, hhandler, hformat, by simpa using List.find?_some hdetect⟩

end Hummingbird

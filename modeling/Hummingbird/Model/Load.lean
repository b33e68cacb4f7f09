import Hummingbird.Foundation.Runs
import Hummingbird.Model.Manifest

/-!
The load pipeline of a model: a session with its two tables, the choice of a handler, the
handler's calls on the tables, the validation of the manifest and the statistics. What a
handler does is any list of calls and any status; the clock and the allocator answer from
outside.
-/

namespace Hummingbird

/-- `sizeof(hbi_model_manifest)`. -/
def sizeofModelManifest : Nat := 24

/-- `sizeof(hbi_model_metadata)`. -/
def sizeofModelMetadata : Nat := 24

/-- `sizeof(hbi_load_session)`. -/
def sizeofLoadSession : Nat := 112

inductive ModelFormat where
  | unknown
  | gguf
  | safetensors
  deriving DecidableEq, Repr

def hbiModelFormatStr : ModelFormat → String
  | .unknown => "unknown"
  | .gguf => "gguf"
  | .safetensors => "safetensors"

/-- `HBI_LOAD_STRICT`. -/
def hbiLoadStrict : UInt32 := 2

/-- `hbi_load_options`; a missing path is `none`. -/
structure LoadOptions where
  modelPath : Option (List UInt8)
  formatHint : ModelFormat
  flags : UInt32
  deriving DecidableEq

/-- `hbi_load_statistics`. -/
structure LoadStatistics where
  metadataParseTimeNs : UInt64
  validationTimeNs : UInt64
  totalLoadTimeNs : UInt64
  tensorsRegistered : Nat
  bytesIndexed : Nat
  validationWarnings : Nat
  validationErrors : Nat
  deriving DecidableEq

def LoadStatistics.zero : LoadStatistics := ⟨0, 0, 0, 0, 0, 0, 0⟩

/-- `hbi_load_state`. -/
inductive LoadSessionState where
  | init
  | parsed
  | validated
  | complete
  | failed
  deriving DecidableEq, Repr

/-- A call of a handler on the tables of a session. -/
inductive ParseCall where
  | add (entry : ModelTensorEntry)
  | set (key value : List UInt8)

/-- What `parse_metadata` does: its calls, and the status it returns. -/
structure ParseRun where
  calls : List ParseCall
  status : Result Unit

/-- `hbi_format_handler`. -/
structure FormatHandler where
  format : ModelFormat
  detect : List UInt8 → Bool
  parseMetadata : List UInt8 → ParseRun

def hbiFormatHandlerDetect (handlers : List FormatHandler) (path : List UInt8) : ModelFormat :=
  match handlers.find? fun handler => handler.detect path with
  | some handler => handler.format
  | none => .unknown

def hbiFormatHandlerFind (handlers : List FormatHandler) (format : ModelFormat) :
    Option FormatHandler :=
  handlers.find? fun handler => handler.format = format

/-- `hbi_load_session`. -/
structure LoadSession where
  block : Nat
  manifest : Manifest
  metadata : MetadataTable
  stats : LoadStatistics
  options : Option LoadOptions
  detectedFormat : ModelFormat
  handler : Option FormatHandler
  state : LoadSessionState

/-- The tables of a session while a handler works on them. -/
structure ParseState where
  heap : BlockHeap
  manifest : Manifest
  metadata : MetadataTable

/-- What `hbi_model_load` leaves: the heap, `*out_session`, and the status. -/
structure Loaded where
  heap : BlockHeap
  outSession : Option LoadSession
  status : Result Unit

def hbiModelManifestCount (m : Manifest) : Nat := m.entries.length

def hbiModelManifestDestroy (h : BlockHeap) (m : Manifest) : BlockHeap :=
  (h.free m.entriesBlock).free m.block

def hbiModelMetadataDestroy (h : BlockHeap) (md : MetadataTable) : BlockHeap :=
  (h.free md.pairsBlock).free md.block

def hbiModelLoadSessionDestroy (h : BlockHeap) (session : LoadSession) : BlockHeap :=
  let h := hbiModelManifestDestroy h session.manifest
  let h := hbiModelMetadataDestroy h session.metadata
  h.free session.block

/-- The checks of `hbi_model_manifest_validate` on one entry. -/
def validateEntry (i : Nat) (e : ModelTensorEntry) : Result Unit :=
  if e.name = [] then errSet .invalidArg s!"manifest validate: entry {i} has empty name"
  else if hbiDtypeIsValid e.dtype = false then
    errSet .invalidArg s!"manifest validate: '{asText e.name}' has invalid dtype"
  else if e.byteSize = 0 then
    errSet .invalidArg s!"manifest validate: '{asText e.name}' has zero byte_size"
  else
    match hbiShapeValidate e.shape with
    | .error _ => errSet .invalidArg s!"manifest validate: '{asText e.name}' has invalid shape"
    | .ok () =>
        match hbiShapeElemCount e.shape with
        | .error _ =>
            errSet .invalidArg s!"manifest validate: '{asText e.name}' shape elements overflow"
        | .ok count =>
            match hbiDtypePackedNbytes e.dtype count with
            | .error _ =>
                errSet .invalidArg s!"manifest validate: '{asText e.name}' shape size overflow"
            | .ok expectedBytes =>
                if expectedBytes > e.byteSize then
                  errSet .invalidArg (s!"manifest validate: '{asText e.name}' shape requires " ++
                    s!"{expectedBytes} bytes but only {e.byteSize} available")
                else .ok ()

def validateEntries (i : Nat) : List ModelTensorEntry → Result Unit
  | [] => .ok ()
  | e :: es => do
      validateEntry i e
      validateEntries (i + 1) es

def hbiModelManifestValidate (m : Manifest) : Result Unit := validateEntries 0 m.entries

section Pipeline

variable (grant : Nat → Bool)

def hbiModelManifestCreate (h : BlockHeap) : BlockHeap × Result Manifest :=
  match h.alloc grant sizeofModelManifest with
  | (h, none) => (h, errSet .oom "manifest create: alloc failed")
  | (h, some block) =>
      match h.alloc grant (sizeofTensorEntry * (Manifest.create 0 0).capacity) with
      | (h, none) => (h.free block, errSet .oom "manifest create: entries alloc failed")
      | (h, some entriesBlock) => (h, .ok (.create block entriesBlock))

def hbiModelMetadataCreate (h : BlockHeap) : BlockHeap × Result MetadataTable :=
  match h.alloc grant sizeofModelMetadata with
  | (h, none) => (h, errSet .oom "metadata create: alloc failed")
  | (h, some block) =>
      match h.alloc grant (sizeofMetadataPair * (MetadataTable.create 0 0).capacity) with
      | (h, none) => (h.free block, errSet .oom "metadata create: pairs alloc failed")
      | (h, some pairsBlock) => (h, .ok (.create block pairsBlock))

def loadSessionCreate (h : BlockHeap) : BlockHeap × Result LoadSession :=
  match h.alloc grant sizeofLoadSession with
  | (h, none) => (h, errSet .oom "load session: alloc failed")
  | (h, some block) =>
      match hbiModelManifestCreate grant h with
      | (h, .error e) => (h.free block, .error e)
      | (h, .ok manifest) =>
          match hbiModelMetadataCreate grant h with
          | (h, .error e) => ((hbiModelManifestDestroy h manifest).free block, .error e)
          | (h, .ok metadata) =>
              (h, .ok ⟨block, manifest, metadata, .zero, none, .unknown, none, .init⟩)

def ParseState.call (s : ParseState) : ParseCall → ParseState
  | .add entry =>
      let (h, m, _) := hbiModelManifestAdd grant s.heap s.manifest entry
      { s with heap := h, manifest := m }
  | .set key value =>
      let (h, md, _) := hbiModelMetadataSet grant s.heap s.metadata key value
      { s with heap := h, metadata := md }

/-- The sum of the statistics step, in 64 bits. -/
def bytesIndexed (entries : List ModelTensorEntry) : Nat :=
  entries.foldl (fun total e => (total + e.byteSize) % sizeTSize) 0

variable (clock : Nat → UInt64)

/-- `hbi_model_load` from the statistics on. -/
def completeLoad (h : BlockHeap) (session : LoadSession) : Loaded :=
  let stats := { session.stats with
    tensorsRegistered := hbiModelManifestCount session.manifest
    bytesIndexed := bytesIndexed session.manifest.entries
    totalLoadTimeNs := clock 5 - clock 0 }
  ⟨h, some { session with stats := stats, state := .complete }, .ok ()⟩

/-- `hbi_model_load` from the validation on. -/
def validateLoad (options : LoadOptions) (h : BlockHeap) (session : LoadSession) : Loaded :=
  let stats := { session.stats with validationTimeNs := clock 4 - clock 3 }
  match hbiModelManifestValidate session.manifest with
  | .ok () => completeLoad clock h { session with stats := stats, state := .validated }
  | .error e =>
      let stats := { stats with validationErrors := stats.validationErrors + 1 }
      if options.flags &&& hbiLoadStrict ≠ 0 then
        let session := { session with stats := stats, state := .failed }
        ⟨hbiModelLoadSessionDestroy h session, none, .error e⟩
      else
        let stats := { stats with validationWarnings := stats.validationWarnings + 1 }
        completeLoad clock h { session with stats := stats, state := .validated }

/-- `hbi_model_load` from the call of the handler on. -/
def parseLoad (options : LoadOptions) (path : List UInt8) (handler : FormatHandler)
    (h : BlockHeap) (session : LoadSession) : Loaded :=
  let parse := handler.parseMetadata path
  let tables := Runs.final (ParseState.call grant) ⟨h, session.manifest, session.metadata⟩
    parse.calls
  let stats := { session.stats with metadataParseTimeNs := clock 2 - clock 1 }
  let session := { session with
    manifest := tables.manifest, metadata := tables.metadata, stats := stats }
  match parse.status with
  | .error e =>
      ⟨hbiModelLoadSessionDestroy tables.heap { session with state := .failed }, none, .error e⟩
  | .ok () => validateLoad clock options tables.heap { session with state := .parsed }

/-- The format that is hinted at, or else detected. -/
def loadFormat (options : LoadOptions) (handlers : List FormatHandler) (path : List UInt8) :
    ModelFormat :=
  if options.formatHint = .unknown then hbiFormatHandlerDetect handlers path
  else options.formatHint

def hbiModelLoad (options : LoadOptions) (handlers : List FormatHandler) (h : BlockHeap) :
    Loaded :=
  let path := options.modelPath.getD []
  if path = [] then ⟨h, none, errSet .invalidArg "model load: empty model_path"⟩
  else
    match loadSessionCreate grant h with
    | (h, .error e) => ⟨h, none, .error e⟩
    | (h, .ok session) =>
        let session := { session with options := some options }
        let fmt := loadFormat options handlers path
        if fmt = .unknown then
          ⟨hbiModelLoadSessionDestroy h { session with state := .failed }, none,
            errSet .unsupported s!"model load: could not detect format for '{asText path}'"⟩
        else
          let session := { session with detectedFormat := fmt }
          match hbiFormatHandlerFind handlers fmt with
          | none =>
              ⟨hbiModelLoadSessionDestroy h { session with state := .failed }, none,
                errSet .notFound
                  s!"model load: no handler for format '{hbiModelFormatStr fmt}'"⟩
          | some handler =>
              parseLoad grant clock options path handler h
                { session with handler := some handler }

end Pipeline

end Hummingbird

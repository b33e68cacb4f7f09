import Hummingbird.Json.Access
import Hummingbird.Model.Manifest

/-!
The safetensors handler: the header of a file, the object of a tensor, the loop over the
members of the header and the read of a tensor. The file is its bytes. A call of the C
library on it does what the standard says, unless the platform lets it fail.
-/

namespace Hummingbird

def safetensorsMaxHeader : Nat := 100 * 1024 * 1024

/-- How the calls on a file turn out: whether it opens, whether the position can be set and
told, and after how many bytes an error ends each `fread`. -/
structure FileAnswers where
  opens : Bool
  seeks : Bool
  tells : Bool
  cut : Nat → Option Nat

/-- Every call succeeds. -/
def FileAnswers.clean : FileAnswers := ⟨true, true, true, fun _ => none⟩

/-- `fread` of `n` bytes at a position. -/
def fread (cut : Option Nat) (file : List UInt8) (pos n : Nat) : List UInt8 :=
  let data := (file.drop pos).take n
  match cut with
  | none => data
  | some k => data.take k

/-- `ftell` at the end: minus one if it fails or the size is no `long`. -/
def ftellEnd (io : FileAnswers) (file : List UInt8) : Int :=
  if io.tells = true ∧ (file.length : Int) ≤ int64Max then file.length else -1

def readLeU64 (p : List UInt8) : Nat :=
  (p.take 8).foldr (fun b n => b.toNat + 256 * n) 0

def mapDtype (s : List UInt8) : Dtype :=
  if s = bytes "F32" then .fp32
  else if s = bytes "F16" then .fp16
  else if s = bytes "BF16" then .bf16
  else if s = bytes "I8" ∨ s = bytes "U8" ∨ s = bytes "BOOL" then .int8
  else .invalid

/-- What `read_header` hands out. -/
structure Header where
  block : Nat
  json : List UInt8
  headerLen : Nat
  fileSize : Nat

def readHeader (grant : Nat → Bool) (h : BlockHeap) (io : FileAnswers) (path : String)
    (file : List UInt8) : BlockHeap × Result Header :=
  if io.opens = false then (h, errSet .io s!"safetensors: cannot open {path}")
  else if io.seeks = false then (h, errSet .io "safetensors: seek end failed")
  else
    let fileSize := ftellEnd io file
    if fileSize < 8 then (h, errSet .corrupt "safetensors: file too small")
    else
      let lenbuf := fread (io.cut 0) file 0 8
      if lenbuf.length ≠ 8 then (h, errSet .io "safetensors: cannot read header length")
      else
        let headerLen := readLeU64 lenbuf
        if headerLen = 0 ∨ headerLen ≥ safetensorsMaxHeader ∨
            fileSize.toNat < (8 + headerLen) % sizeTSize then
          (h, errSet .corrupt s!"safetensors: bad header length {headerLen}")
        else
          match h.alloc grant headerLen with
          | (h, none) => (h, errSet .oom "safetensors: header alloc failed")
          | (h, some block) =>
              let json := fread (io.cut 1) file 8 headerLen
              if json.length ≠ headerLen then
                (h.free block, errSet .io "safetensors: short header read")
              else (h, .ok ⟨block, json, headerLen, fileSize.toNat⟩)

/-- The loop over the dimensions. -/
def parseDims (env : DoubleEnv) (name : List UInt8) : (i : Nat) → List JsonValue →
    Result (List Int)
  | _, [] => .ok []
  | i, v :: items =>
      match hbiJsonAsInt env (some v) with
      | .error _ => errSet .corrupt s!"safetensors: tensor '{asText name}' bad dim {i}"
      | .ok d =>
          if d ≤ 0 then errSet .corrupt s!"safetensors: tensor '{asText name}' bad dim {i}"
          else (d :: ·) <$> parseDims env name (i + 1) items

/-- The part of `parse_tensor_entry` about the shape. -/
def parseShape (env : DoubleEnv) (name : List UInt8) (items : List JsonValue) : Result Shape :=
  if items.length > hbiTensorMaxRank then
    errSet .corrupt s!"safetensors: tensor '{asText name}' rank {items.length} too large"
  else do
    let dims ← parseDims env name 0 items
    if items.length = 0 then return ⟨[]⟩ else hbiShapeInit dims

/-- The part of `parse_tensor_entry` about the two offsets: the absolute begin and the
size. -/
def parseOffsets (env : DoubleEnv) (name : List UInt8) (offs : Option JsonValue)
    (dataBase fileSize : Nat) : Result (Nat × Nat) :=
  if (hbiJsonItems offs).length ≠ 2 then
    errSet .corrupt s!"safetensors: tensor '{asText name}' bad data_offsets"
  else
    match hbiJsonAsInt env (hbiJsonArrayAt offs 0), hbiJsonAsInt env (hbiJsonArrayAt offs 1) with
    | .ok begin_, .ok end_ =>
        if begin_ < 0 ∨ end_ < begin_ then
          errSet .corrupt s!"safetensors: tensor '{asText name}' offset range"
        else
          let absBegin := (dataBase + begin_.toNat) % sizeTSize
          let byteSize := (end_ - begin_).toNat
          let absEnd := (absBegin + byteSize) % sizeTSize
          if absEnd > fileSize then
            errSet .corrupt
              s!"safetensors: tensor '{asText name}' extends past EOF ({absEnd} > {fileSize})"
          else .ok (absBegin, byteSize)
    | _, _ => errSet .corrupt s!"safetensors: tensor '{asText name}' offset range"

def parseTensorEntry (env : DoubleEnv) (name : List UInt8) (obj : JsonValue)
    (dataBase fileSize : Nat) : Result ModelTensorEntry :=
  let dt := hbiJsonObjectGet (some obj) (bytes "dtype")
  let shape := hbiJsonObjectGet (some obj) (bytes "shape")
  let offs := hbiJsonObjectGet (some obj) (bytes "data_offsets")
  if hbiJsonIsString dt = false ∨ hbiJsonIsArray shape = false ∨ hbiJsonIsArray offs = false then
    errSet .corrupt s!"safetensors: tensor '{asText name}' missing fields"
  else
    let text := (hbiJsonAsString dt).getD []
    let dtype := mapDtype text
    if dtype = .invalid then
      errSet .unsupported s!"safetensors: tensor '{asText name}' dtype '{asText text}'"
    else do
      let sh ← parseShape env name (hbiJsonItems shape)
      let (absBegin, byteSize) ← parseOffsets env name offs dataBase fileSize
      if name.length ≥ hbiTensorNameMax then
        errSet .corrupt s!"safetensors: tensor name too long ({name.length})"
      else
        .ok
          { name := name, shape := sh, dtype := dtype, fileOffset := absBegin
            byteSize := byteSize, requiredAlignment := hbiDtypeAlign dtype
            shardIndex := 0, residency := .default }

/-- What the loop over the header works on. -/
structure LoadState where
  heap : BlockHeap
  manifest : Manifest
  metadata : Option MetadataTable

section Parse

variable (grant : Nat → Bool)

/-- The loop over `__metadata__`. What `hbi_model_metadata_set` answers is dropped. -/
def metadataLoop (h : BlockHeap) (md : MetadataTable) :
    List (List UInt8 × JsonValue) → BlockHeap × MetadataTable
  | [] => (h, md)
  | (key, v) :: members =>
      match hbiJsonAsString (some v) with
      | none => metadataLoop h md members
      | some value =>
          let (h, md, _) := hbiModelMetadataSet grant h md key value
          metadataLoop h md members

def takeMetadata (s : LoadState) (v : JsonValue) : LoadState :=
  match s.metadata with
  | none => s
  | some md =>
      let (h, md) := metadataLoop grant s.heap md (hbiJsonMembers (some v))
      { s with heap := h, metadata := some md }

variable (env : DoubleEnv) (dataBase fileSize : Nat)

/-- The loop over the members of the header. -/
def memberLoop (s : LoadState) : List (List UInt8 × JsonValue) → LoadState × Result Unit
  | [] => (s, .ok ())
  | (key, v) :: members =>
      if key = bytes "__metadata__" then memberLoop (takeMetadata grant s v) members
      else if hbiJsonIsObject (some v) = false then memberLoop s members
      else
        match parseTensorEntry env key v dataBase fileSize with
        | .error e => (s, .error e)
        | .ok entry =>
            match hbiModelManifestAdd grant s.heap s.manifest entry with
            | (h, m, .error e) => ({ s with heap := h, manifest := m }, .error e)
            | (h, m, .ok ()) => memberLoop { s with heap := h, manifest := m } members

end Parse

/-- `hbi_json_free` of a root that may be null. -/
def freeRoot (h : BlockHeap) : Option JsonNode → BlockHeap
  | none => h
  | some root => hbiJsonFree h root

/-- It answers nothing only where the parser of the header would. -/
def safetensorsParseMetadata (env : DoubleEnv) (io : FileAnswers) (grant : Nat → Bool)
    (path : String) (file : List UInt8) (s : LoadState) : LoadState × Option (Result Unit) :=
  match readHeader grant s.heap io path file with
  | (h, .error e) => ({ s with heap := h }, some (.error e))
  | (h, .ok header) =>
      match hbiJsonParseDom grant h header.json none with
      | (h, none) => ({ s with heap := h }, none)
      | (h, some answer) =>
          let root := answer.outRoot.map JsonNode.value
          match answer.status with
          | .error e => ({ s with heap := h.free header.block }, some (.error e))
          | .ok () =>
              if hbiJsonIsObject root = false then
                ({ s with heap := (freeRoot h answer.outRoot).free header.block },
                  some (errSet .corrupt "safetensors: header is not a JSON object"))
              else
                let (s, r) := memberLoop grant env (8 + header.headerLen) header.fileSize
                  { s with heap := h } (hbiJsonMembers root)
                ({ s with heap := (freeRoot s.heap answer.outRoot).free header.block }, some r)

/-- The bytes that reach the buffer. `off_t` is 64 bits wide. -/
def safetensorsReadTensorData (io : FileAnswers) (path : String) (file : List UInt8)
    (entry : ModelTensorEntry) (bufSize : Nat) : Result (List UInt8) :=
  if bufSize < entry.byteSize then
    errSet .invalidArg s!"safetensors_read: buffer {bufSize} < tensor {entry.byteSize}"
  else if io.opens = false then errSet .io s!"safetensors_read: cannot open {path}"
  else if io.seeks = false ∨ (entry.fileOffset : Int) > int64Max then
    errSet .io "safetensors_read: seek failed"
  else
    let data := fread (io.cut 0) file entry.fileOffset entry.byteSize
    if data.length ≠ entry.byteSize then
      errSet .io s!"safetensors_read: short read ({data.length}/{entry.byteSize})"
    else .ok data

end Hummingbird

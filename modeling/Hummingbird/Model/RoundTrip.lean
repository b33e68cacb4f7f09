import Hummingbird.Model.Region

/-!
Writing a safetensors file and reading it back. A record is a tensor that a header can
describe; the header is any rendering of the records with the metadata among them, behind
its length. The handler reads back the records in order and the last value of every key.
-/

namespace Hummingbird

/-- The element types of a written header. -/
inductive RecordDtype where
  | f32
  | f16
  | bf16
  | i8

def RecordDtype.text : RecordDtype → List UInt8
  | .f32 => bytes "F32"
  | .f16 => bytes "F16"
  | .bf16 => bytes "BF16"
  | .i8 => bytes "I8"

def RecordDtype.dtype : RecordDtype → Dtype
  | .f32 => .fp32
  | .f16 => .fp16
  | .bf16 => .bf16
  | .i8 => .int8

/-- A tensor with a name, a shape and a range of the data region that fit the limits. -/
structure TensorRecord where
  name : List UInt8
  dtype : RecordDtype
  dims : List Int
  start : Nat
  stop : Nat
  name_ne : name ≠ []
  name_free : 0 ∉ name
  name_lt : name.length < hbiTensorNameMax
  name_ne_metadata : name ≠ bytes "__metadata__"
  rank_le : dims.length ≤ hbiTensorMaxRank
  dims_pos : ∀ d ∈ dims, 0 < d
  dims_lt : ∀ d ∈ dims, d < integerLimit
  prod_le : dims.prod ≤ int64Max
  start_lt : start < stop
  stop_lt : stop < integerLimit

/-- A key and a value of the metadata within their limits. -/
structure MetadataPair where
  key : List UInt8
  value : List UInt8
  key_free : 0 ∉ key
  value_free : 0 ∉ value
  key_lt : key.length < hbiMetadataKeyMax
  value_lt : value.length < hbiMetadataValueMax

/-- What stands behind the name of a tensor in the header. -/
def TensorRecord.object (r : TensorRecord) : JsonValue :=
  .object [(bytes "dtype", .string r.dtype.text),
    (bytes "shape", .array (r.dims.map .integer)),
    (bytes "data_offsets", .array [.integer r.start, .integer r.stop])]

/-- The row of the manifest for a record. -/
def TensorRecord.entry (r : TensorRecord) (dataBase : Nat) : ModelTensorEntry where
  name := r.name
  shape := ⟨r.dims⟩
  dtype := r.dtype.dtype
  fileOffset := dataBase + r.start
  byteSize := r.stop - r.start
  requiredAlignment := hbiDtypeAlign r.dtype.dtype
  shardIndex := 0
  residency := .default

def recordMembers (records : List TensorRecord) : List (List UInt8 × JsonValue) :=
  records.map fun r => (r.name, r.object)

def metadataObject (pairs : List MetadataPair) : List (List UInt8 × JsonValue) :=
  pairs.map fun p => (p.key, .string p.value)

def metadataMember (pairs : List MetadataPair) : List UInt8 × JsonValue :=
  (bytes "__metadata__", .object (metadataObject pairs))

/-- The metadata may be missing, and stand anywhere among the tensors. -/
def headerValue (before after : List TensorRecord) (metadata : Option (List MetadataPair)) :
    JsonValue :=
  .object (recordMembers before ++ (metadata.map metadataMember).toList ++ recordMembers after)

/-- The map of the pairs in which the last value of a key wins. -/
def lastWrites (pairs : List MetadataPair) (none_ : List UInt8 → Option (List UInt8)) :
    List UInt8 → Option (List UInt8) :=
  pairs.foldl (fun f p => Function.update f p.key (some p.value)) none_

def leU64 (n : Nat) : List UInt8 := (List.range 8).map fun i => UInt8.ofNat (n / 256 ^ i)

/-- The file of a header and its data. -/
def safetensorsFile (header data : List UInt8) : List UInt8 :=
  leU64 header.length ++ header ++ data

section Entries

variable {env : DoubleEnv}

theorem RecordDtype.mapDtype_text (t : RecordDtype) :
    hbiJsonAsString (some (.string t.text)) = some t.text ∧ mapDtype t.text = t.dtype ∧
      t.dtype ≠ .invalid ∧ hbiDtypeIsValid t.dtype = true := by
  cases t with
  | f32 => decide
  | f16 => decide
  | bf16 => decide
  | i8 => decide

theorem parseDims_integers {name : List UInt8} {dims : List Int} (hpos : ∀ d ∈ dims, 0 < d)
    (hlt : ∀ d ∈ dims, d < integerLimit) (i : Nat) :
    parseDims env name i (dims.map .integer) = .ok dims := by
  induction dims generalizing i with
  | nil => rfl
  | cons d dims ih =>
      have hd := hpos d (by simp)
      have hd' := hlt d (by simp)
      have hint : hbiJsonAsInt env (some (.integer d)) = .ok d := hbiJsonAsInt_integer (by omega)
      rw [List.map_cons]
      unfold parseDims
      rw [hint]
      dsimp only
      rw [if_neg (by omega), ih (fun e he => hpos e (by simp [he]))
        fun e he => hlt e (by simp [he])]
      rfl

theorem TensorRecord.shapeInit (r : TensorRecord) : hbiShapeInit r.dims = .ok ⟨r.dims⟩ := by
  have hrank := r.rank_le
  have hloop : shapeLoop "shape_init" " must be > 0" 0 1 r.dims = .ok () :=
    (shapeLoop_eq_ok one_pos).mpr ⟨r.dims_pos, Or.inr (by simpa using r.prod_le)⟩
  unfold hbiShapeInit
  rw [if_neg (by omega), Result.bind_eq_ok]
  exact ⟨(), hloop, rfl⟩

theorem TensorRecord.parseShape_eq (r : TensorRecord) :
    parseShape env r.name (r.dims.map .integer) = .ok ⟨r.dims⟩ := by
  have hrank := r.rank_le
  unfold parseShape
  rw [List.length_map, if_neg (by omega), Result.bind_eq_ok]
  refine ⟨r.dims, parseDims_integers r.dims_pos r.dims_lt 0, ?_⟩
  by_cases hscalar : r.dims.length = 0
  · rw [if_pos hscalar, List.length_eq_zero_iff.mp hscalar]
    rfl
  · rw [if_neg hscalar]
    exact r.shapeInit

theorem TensorRecord.parseOffsets_eq (r : TensorRecord) {dataBase fileSize : Nat}
    (hbase : dataBase ≤ 8 + safetensorsMaxHeader) (hstop : dataBase + r.stop ≤ fileSize) :
    parseOffsets env r.name (some (.array [.integer r.start, .integer r.stop])) dataBase fileSize =
      .ok (dataBase + r.start, r.stop - r.start) := by
  have hstart := r.start_lt
  have hlt := r.stop_lt
  have hfirst : hbiJsonAsInt env (some (.integer r.start)) = .ok (r.start : Int) :=
    hbiJsonAsInt_integer (by omega)
  have hlast : hbiJsonAsInt env (some (.integer r.stop)) = .ok (r.stop : Int) :=
    hbiJsonAsInt_integer (by omega)
  unfold integerLimit at hlt
  unfold safetensorsMaxHeader at hbase
  have hsize : ((r.stop : Int) - r.start).toNat = r.stop - r.start := by omega
  have hbegin : (dataBase + r.start) % sizeTSize = dataBase + r.start := by
    apply Nat.mod_eq_of_lt
    unfold sizeTSize
    omega
  have hend : (dataBase + r.start + (r.stop - r.start)) % sizeTSize = dataBase + r.stop := by
    unfold sizeTSize
    omega
  unfold parseOffsets
  simp only [hbiJsonArrayAt, hbiJsonItems, List.length_cons, List.length_nil,
    List.getElem?_cons_zero, List.getElem?_cons_succ, hfirst, hlast, Int.toNat_natCast, hsize,
    hbegin, hend]
  rw [if_neg (by omega), if_neg (by omega), if_neg (by omega)]

/-- The object of a record is read back as its row. -/
theorem TensorRecord.parseTensorEntry_eq (r : TensorRecord) {dataBase fileSize : Nat}
    (hbase : dataBase ≤ 8 + safetensorsMaxHeader) (hstop : dataBase + r.stop ≤ fileSize) :
    parseTensorEntry env r.name r.object dataBase fileSize = .ok (r.entry dataBase) := by
  obtain ⟨htext, hmap, hvalid, -⟩ := r.dtype.mapDtype_text
  have hdt : hbiJsonObjectGet (some r.object) (bytes "dtype") = some (.string r.dtype.text) := rfl
  have hshape : hbiJsonObjectGet (some r.object) (bytes "shape") =
      some (.array (r.dims.map .integer)) := rfl
  have hoffs : hbiJsonObjectGet (some r.object) (bytes "data_offsets") =
      some (.array [.integer r.start, .integer r.stop]) := rfl
  unfold parseTensorEntry
  simp only [hdt, hshape, hoffs, htext, Option.getD_some, hmap]
  rw [if_neg (by simp [hbiJsonIsString, hbiJsonIsArray]), if_neg hvalid, Result.bind_eq_ok]
  refine ⟨⟨r.dims⟩, r.parseShape_eq, ?_⟩
  rw [Result.bind_eq_ok]
  refine ⟨_, r.parseOffsets_eq hbase hstop, ?_⟩
  rw [if_neg (not_le.mpr r.name_lt)]
  rfl

theorem TensorRecord.entry_checked (r : TensorRecord) (dataBase : Nat) :
    (r.entry dataBase).Checked := by
  have hstart := r.start_lt
  have hstop := r.stop_lt
  refine ⟨r.name_ne, Nat.sub_pos_of_lt hstart, ?_, r.dtype.mapDtype_text.2.2.2⟩
  unfold integerLimit at hstop
  change r.stop - r.start < sizeTSize - 1
  unfold sizeTSize
  omega

end Entries

section Loops

variable {env : DoubleEnv} {grant : Nat → Bool} {dataBase fileSize : Nat}

/-- The loop over the members of some records appends their rows. -/
theorem memberLoop_records (hgrant : ∀ n, grant n = true)
    (hbase : dataBase ≤ 8 + safetensorsMaxHeader) (records : List TensorRecord) {s : LoadState}
    (rest : List (List UInt8 × JsonValue))
    (hnames : (s.manifest.entries.map (·.name) ++ records.map (·.name)).Nodup)
    (hstop : ∀ r ∈ records, dataBase + r.stop ≤ fileSize)
    (hfits : TableFits s.manifest.entries.length s.manifest.capacity)
    (hrows : s.manifest.entries.length + records.length < 2 ^ 31) :
    ∃ s', memberLoop grant env dataBase fileSize s (recordMembers records ++ rest) =
        memberLoop grant env dataBase fileSize s' rest ∧
      s'.manifest.entries = s.manifest.entries ++ records.map (·.entry dataBase) ∧
      TableFits s'.manifest.entries.length s'.manifest.capacity ∧ s'.metadata = s.metadata := by
  induction records generalizing s with
  | nil => exact ⟨s, rfl, by simp, hfits, rfl⟩
  | cons r records ih =>
      have hnew : (r.entry dataBase).name ∉ s.manifest.entries.map (·.name) := by
        intro hmem
        have hdisjoint := (List.nodup_append.mp hnames).2.2
        exact hdisjoint _ hmem _ (List.mem_cons_self ..) rfl
      rw [List.length_cons] at hrows
      obtain ⟨h', m', hadd, hentries, hfits'⟩ := @hbiModelManifestAdd_granted grant hgrant s.heap
        s.manifest (r.entry dataBase) (r.entry_checked dataBase) hnew hfits (by omega)
      have hstep : memberLoop grant env dataBase fileSize s (recordMembers (r :: records) ++ rest) =
          memberLoop grant env dataBase fileSize { s with heap := h', manifest := m' }
            (recordMembers records ++ rest) := by
        change memberLoop grant env dataBase fileSize s
          ((r.name, r.object) :: (recordMembers records ++ rest)) = _
        rw [memberLoop, if_neg r.name_ne_metadata, if_neg (by simp [hbiJsonIsObject,
          TensorRecord.object]), r.parseTensorEntry_eq hbase (hstop r (by simp))]
        dsimp only
        rw [hadd]
      rw [hstep]
      have hnames' : ((LoadState.mk h' m' s.metadata).manifest.entries.map (·.name) ++
          records.map (·.name)).Nodup := by
        have hshift : (LoadState.mk h' m' s.metadata).manifest.entries.map (·.name) =
            s.manifest.entries.map (·.name) ++ [r.name] := by
          rw [hentries, List.map_append]
          rfl
        rw [hshift, List.append_assoc]
        exact hnames
      obtain ⟨s', hloop, hrows', hfits'', hmeta⟩ := ih hnames' (fun q hq => hstop q (by simp [hq]))
        hfits' (by rw [hentries, List.length_append, List.length_singleton]; omega)
      refine ⟨s', hloop, ?_, hfits'', hmeta⟩
      rw [hrows', hentries, List.append_assoc]
      rfl

theorem metadataLoop_pairs (hgrant : ∀ n, grant n = true) (pairs : List MetadataPair)
    {h : BlockHeap} {md : MetadataTable} (hfits : TableFits md.pairs.length md.capacity)
    (hrows : md.pairs.length + pairs.length < 2 ^ 31) :
    ∃ h' md', metadataLoop grant h md (metadataObject pairs) = (h', md') ∧
      md'.get = lastWrites pairs md.get := by
  induction pairs generalizing h md with
  | nil => exact ⟨h, md, rfl, rfl⟩
  | cons p pairs ih =>
      rw [List.length_cons] at hrows
      obtain ⟨h₁, md₁, hset, hget, hfits₁, hle⟩ := @hbiModelMetadataSet_granted grant hgrant h md
        p.key p.value p.key_lt p.value_lt hfits (by omega)
      obtain ⟨h', md', hloop, hget'⟩ := @ih h₁ md₁ hfits₁ (by omega)
      refine ⟨h', md', ?_, ?_⟩
      · change metadataLoop grant h md ((p.key, .string p.value) :: metadataObject pairs) = _
        have htext : hbiJsonAsString (some (.string p.value)) = some p.value :=
          congrArg some (cString_of_notMem p.value_free)
        rw [metadataLoop, htext]
        dsimp only
        rw [hset]
        exact hloop
      · rw [hget']
        unfold lastWrites
        rw [List.foldl_cons]
        congr 1
        funext k
        rw [hget k, Function.update_apply]

end Loops

section Members

theorem object_members {members : List (List UInt8 × JsonValue)} (h : ∀ m ∈ members, 0 ∉ m.1) :
    hbiJsonMembers (some (.object members)) = members := by
  unfold hbiJsonMembers
  have hsame : ∀ m ∈ members, (cString m.1, m.2) = m := by
    intro m hm
    rw [cString_of_notMem (h m hm)]
  dsimp only
  rw [List.map_congr_left hsame, List.map_id']

theorem recordMembers_free (records : List TensorRecord) :
    ∀ m ∈ recordMembers records, 0 ∉ m.1 := by
  intro m hm
  obtain ⟨r, _, rfl⟩ := List.mem_map.mp hm
  exact r.name_free

theorem metadataObject_free (pairs : List MetadataPair) :
    ∀ m ∈ metadataObject pairs, 0 ∉ m.1 := by
  intro m hm
  obtain ⟨p, _, rfl⟩ := List.mem_map.mp hm
  exact p.key_free

theorem headerValue_members (before after : List TensorRecord)
    (metadata : Option (List MetadataPair)) :
    hbiJsonMembers (some (headerValue before after metadata)) =
      recordMembers before ++ ((metadata.map metadataMember).toList ++ recordMembers after) := by
  unfold headerValue
  rw [List.append_assoc]
  apply object_members
  intro m hm
  rcases List.mem_append.mp hm with hm | hm
  · exact recordMembers_free before m hm
  rcases List.mem_append.mp hm with hm | hm
  · obtain ⟨pairs, _, rfl⟩ : ∃ pairs, metadata = some pairs ∧ metadataMember pairs = m := by
      simpa using hm
    change 0 ∉ bytes "__metadata__"
    decide
  · exact recordMembers_free after m hm

/-- A header is three levels deep at most. -/
theorem headerValue_nesting (before after : List TensorRecord)
    (metadata : Option (List MetadataPair)) :
    (headerValue before after metadata).nesting < hbiJsonMaxDepth := by
  have hinteger : ∀ n : Int, (JsonValue.integer n).nesting ≤ 0 := fun n => le_refl _
  have hrecord : ∀ r : TensorRecord, r.object.nesting ≤ 2 := by
    intro r
    apply nesting_object_le
    intro m hm
    have hcases : m.2 = .string r.dtype.text ∨ m.2 = .array (r.dims.map .integer) ∨
        m.2 = .array [.integer r.start, .integer r.stop] := by
      simp only [List.mem_cons, List.not_mem_nil, or_false] at hm
      rcases hm with rfl | rfl | rfl
      · exact Or.inl rfl
      · exact Or.inr (Or.inl rfl)
      · exact Or.inr (Or.inr rfl)
    rcases hcases with heq | heq | heq
    · rw [heq]
      exact Nat.zero_le _
    · rw [heq]
      apply nesting_array_le
      intro v hv
      obtain ⟨d, _, rfl⟩ := List.mem_map.mp hv
      exact hinteger d
    · rw [heq]
      apply nesting_array_le
      intro v hv
      simp only [List.mem_cons, List.not_mem_nil, or_false] at hv
      rcases hv with rfl | rfl
      · exact hinteger _
      · exact hinteger _
  have hrecords : ∀ records, ∀ m ∈ recordMembers records, m.2.nesting ≤ 2 := by
    intro records m hm
    obtain ⟨r, _, rfl⟩ := List.mem_map.mp hm
    exact hrecord r
  have hheader : (headerValue before after metadata).nesting ≤ 3 := by
    apply nesting_object_le
    intro m hm
    rcases List.mem_append.mp hm with hm | hm
    · rcases List.mem_append.mp hm with hm | hm
      · exact hrecords before m hm
      · obtain ⟨pairs, _, rfl⟩ : ∃ pairs, metadata = some pairs ∧ metadataMember pairs = m := by
          simpa using hm
        have hobject : (JsonValue.object (metadataObject pairs)).nesting ≤ 1 := by
          apply nesting_object_le
          intro u hu
          obtain ⟨p, _, rfl⟩ := List.mem_map.mp hu
          exact le_refl _
        exact hobject.trans (by omega)
    · exact hrecords after m hm
  unfold hbiJsonMaxDepth
  omega

/-- Every member of a rendered object takes a byte at least, and its value a part of the
text. -/
theorem writesMembers_length : {members : List (List UInt8 × JsonValue)} → {t : List UInt8} →
    WritesMembers members t → members.length ≤ t.length ∧
      ∀ m ∈ members, ∃ t', Writes m.2 t' ∧ t'.length ≤ t.length
  | _, _, .one (.mk _ _ _ _ hv) _ => by
      refine ⟨?_, ?_⟩
      · simp only [List.length_append, List.length_cons, List.length_nil]
        omega
      intro m hm
      obtain rfl := List.mem_singleton.mp hm
      refine ⟨_, hv, ?_⟩
      simp only [List.length_append, List.length_cons]
      omega
  | _, _, .more (.mk _ _ _ _ hv) _ hrest => by
      obtain ⟨hlen, hvalues⟩ := writesMembers_length hrest
      refine ⟨?_, ?_⟩
      · simp only [List.length_append, List.length_cons]
        omega
      · intro m hm
        rcases List.mem_cons.mp hm with rfl | hm
        · refine ⟨_, hv, ?_⟩
          simp only [List.length_append, List.length_cons]
          omega
        · obtain ⟨t', ht', hle⟩ := hvalues m hm
          refine ⟨t', ht', ?_⟩
          simp only [List.length_append, List.length_cons]
          omega

theorem writes_object_length {members : List (List UInt8 × JsonValue)} {t : List UInt8}
    (h : Writes (.object members) t) : members.length ≤ t.length ∧
      ∀ m ∈ members, ∃ t', Writes m.2 t' ∧ t'.length ≤ t.length := by
  cases h with
  | emptyObject hw => simp
  | object hmembers =>
      obtain ⟨hlen, hvalues⟩ := writesMembers_length hmembers
      refine ⟨?_, ?_⟩
      · simp only [List.length_append, List.length_cons]
        omega
      · intro m hm
        obtain ⟨t', ht', hle⟩ := hvalues m hm
        refine ⟨t', ht', ?_⟩
        simp only [List.length_append, List.length_cons]
        omega

/-- A header has no more records and no more metadata than bytes. -/
theorem headerValue_length {before after : List TensorRecord}
    {metadata : Option (List MetadataPair)} {text : List UInt8}
    (h : WritesDocument (headerValue before after metadata) text) :
    before.length + after.length ≤ text.length ∧
      ∀ pairs, metadata = some pairs → pairs.length ≤ text.length := by
  cases h with
  | @mk w t w' hw hv hw' =>
      obtain ⟨hlen, hvalues⟩ := writes_object_length hv
      have hle : t.length ≤ (w ++ t ++ w').length := by
        simp only [List.length_append]
        omega
      refine ⟨?_, ?_⟩
      · simp only [List.length_append, recordMembers, List.length_map] at hlen hle
        simp only [List.length_append]
        omega
      · rintro pairs rfl
        obtain ⟨t', ht', hle'⟩ := hvalues (metadataMember pairs) (by simp)
        have hpairs := (writes_object_length ht').1
        simp only [metadataObject, List.length_map] at hpairs
        omega

end Members

theorem leU64_length (n : Nat) : (leU64 n).length = 8 := by simp [leU64]

theorem readLeU64_leU64 {n : Nat} (h : n < sizeTSize) (rest : List UInt8) :
    readLeU64 (leU64 n ++ rest) = n := by
  unfold readLeU64
  rw [List.take_left' (leU64_length n)]
  unfold leU64 sizeTSize at *
  simp only [List.range, List.range.loop, List.map_cons, List.map_nil, List.foldr_cons,
    List.foldr_nil, UInt8.toNat_ofNat', Nat.reducePow]
  omega

/-- The header of a written file is what was written. -/
theorem readHeader_written {grant : Nat → Bool} (hgrant : ∀ n, grant n = true) (h : BlockHeap)
    (path : String) {text data : List UInt8} (hpos : 1 ≤ text.length)
    (hlen : text.length < safetensorsMaxHeader)
    (hfile : ((safetensorsFile text data).length : Int) ≤ int64Max) :
    ∃ h' block, readHeader grant h .clean path (safetensorsFile text data) =
      (h', .ok ⟨block, text, text.length, 8 + text.length + data.length⟩) := by
  have hsize : (safetensorsFile text data).length = 8 + text.length + data.length := by
    simp only [safetensorsFile, List.length_append, leU64_length]
  have hfirst : fread none (safetensorsFile text data) 0 8 = leU64 text.length := by
    unfold fread safetensorsFile
    rw [List.drop_zero, List.append_assoc]
    exact List.take_left' (leU64_length _)
  have hsecond : fread none (safetensorsFile text data) 8 text.length = text := by
    unfold fread safetensorsFile
    rw [List.append_assoc, List.drop_left' (leU64_length _)]
    exact List.take_left' rfl
  have htell : ftellEnd .clean (safetensorsFile text data) =
      (8 + text.length + data.length : Nat) := by
    unfold ftellEnd
    rw [if_pos ⟨rfl, hfile⟩, hsize]
  have hvalue : readLeU64 (leU64 text.length) = text.length := by
    have happend := @readLeU64_leU64 text.length (by
      unfold safetensorsMaxHeader at hlen
      unfold sizeTSize
      omega) []
    rwa [List.append_nil] at happend
  obtain ⟨h', block, halloc⟩ := @BlockHeap.alloc_granted grant h hgrant text.length
  have hwrap : (8 + text.length) % sizeTSize = 8 + text.length := by
    apply Nat.mod_eq_of_lt
    unfold safetensorsMaxHeader at hlen
    unfold sizeTSize
    omega
  have hcut : ∀ i, FileAnswers.clean.cut i = none := fun _ => rfl
  unfold readHeader
  rw [if_neg (by decide), if_neg (by decide)]
  dsimp only
  rw [htell, if_neg (by omega), hcut, hcut, hfirst, hvalue, hsecond, Int.toNat_natCast, hwrap,
    if_neg (not_not.mpr (leU64_length _)), if_neg (by omega), halloc]
  dsimp only
  rw [if_neg (not_not.mpr rfl)]
  exact ⟨_, _, rfl⟩

theorem takeMetadata_pairs {grant : Nat → Bool} (hgrant : ∀ n, grant n = true)
    (pairs : List MetadataPair) {s : LoadState} {md : MetadataTable} (hmd : s.metadata = some md)
    (hfits : TableFits md.pairs.length md.capacity)
    (hrows : md.pairs.length + pairs.length < 2 ^ 31) :
    ∃ md', (takeMetadata grant s (metadataMember pairs).2).metadata = some md' ∧
      md'.get = lastWrites pairs md.get := by
  obtain ⟨h', md', hloop, hget⟩ := @metadataLoop_pairs grant hgrant pairs s.heap md hfits hrows
  refine ⟨md', ?_, hget⟩
  unfold takeMetadata metadataMember
  rw [hmd]
  dsimp only
  rw [object_members (metadataObject_free pairs), hloop]

/-- The loop over a whole header, on the tables of a new session. -/
theorem memberLoop_header {env : DoubleEnv} {grant : Nat → Bool} {dataBase fileSize : Nat}
    (hgrant : ∀ n, grant n = true) (hbase : dataBase ≤ 8 + safetensorsMaxHeader)
    {before after : List TensorRecord} {metadata : Option (List MetadataPair)}
    (hnames : ((before ++ after).map (·.name)).Nodup)
    (hstop : ∀ r ∈ before ++ after, dataBase + r.stop ≤ fileSize)
    (hrecords : before.length + after.length < 2 ^ 31)
    (hpairs : ∀ pairs, metadata = some pairs → pairs.length < 2 ^ 31)
    (heap : BlockHeap) (block entriesBlock mdBlock pairsBlock : Nat) :
    ∃ s md, memberLoop grant env dataBase fileSize
        ⟨heap, .create block entriesBlock, some (.create mdBlock pairsBlock)⟩
        (hbiJsonMembers (some (headerValue before after metadata))) = (s, .ok ()) ∧
      s.manifest.entries = (before ++ after).map (·.entry dataBase) ∧ s.metadata = some md ∧
      md.get = lastWrites (metadata.getD []) fun _ => none := by
  have hnil : TableFits 0 64 := ⟨by omega, by omega, by omega⟩
  have hnil' : TableFits 0 32 := ⟨by omega, by omega, by omega⟩
  rw [List.map_append] at hnames
  rw [headerValue_members]
  obtain ⟨s₁, hloop₁, hentries₁, hfits₁, hmeta₁⟩ := @memberLoop_records env grant dataBase
    fileSize hgrant hbase before
    ⟨heap, .create block entriesBlock, some (.create mdBlock pairsBlock)⟩
    ((metadata.map metadataMember).toList ++ recordMembers after)
    (List.nodup_append.mp hnames).1 (fun r hr => hstop r (by simp [hr])) hnil (by
      change 0 + before.length < 2 ^ 31
      omega)
  rw [hloop₁]
  have hentries₁ : s₁.manifest.entries = before.map (·.entry dataBase) := hentries₁
  have hnames₁ : s₁.manifest.entries.map (·.name) = before.map (·.name) := by
    rw [hentries₁, List.map_map]
    rfl
  obtain ⟨s₂, md, hloop₂, hmanifest₂, hmeta₂, hget⟩ : ∃ s₂ md,
      memberLoop grant env dataBase fileSize s₁
          ((metadata.map metadataMember).toList ++ recordMembers after) =
        memberLoop grant env dataBase fileSize s₂ (recordMembers after) ∧
      s₂.manifest = s₁.manifest ∧ s₂.metadata = some md ∧
      md.get = lastWrites (metadata.getD []) fun _ => none := by
    cases metadata with
    | none => exact ⟨s₁, _, rfl, rfl, hmeta₁, rfl⟩
    | some pairs =>
        have hlt := hpairs pairs rfl
        obtain ⟨md, htake, hget⟩ := takeMetadata_pairs hgrant pairs hmeta₁ hnil' (by
          change 0 + pairs.length < 2 ^ 31
          omega)
        exact ⟨takeMetadata grant s₁ (metadataMember pairs).2, md, rfl,
          takeMetadata_manifest grant s₁ _, htake, hget⟩
  rw [hloop₂]
  obtain ⟨s₃, hloop₃, hentries₃, -, hmeta₃⟩ := @memberLoop_records env grant dataBase fileSize
    hgrant hbase after s₂ [] (by rw [hmanifest₂, hnames₁]; exact hnames)
    (fun r hr => hstop r (by simp [hr])) (by rw [hmanifest₂]; exact hfits₁) (by
      rw [hmanifest₂, hentries₁, List.length_map]
      exact hrecords)
  rw [List.append_nil] at hloop₃
  refine ⟨s₃, md, hloop₃, ?_, hmeta₃.trans hmeta₂, hget⟩
  rw [hentries₃, hmanifest₂, hentries₁, List.map_append]

/-- A run whose header is a JSON object is the loop over its members. -/
theorem safetensorsParseMetadata_loop {env : DoubleEnv} {io : FileAnswers} {grant : Nat → Bool}
    {path : String} {file : List UInt8} {s s₁ : LoadState} {h₁ h₂ : BlockHeap} {header : Header}
    {root : JsonNode} {v : JsonValue} {r : Result Unit}
    (hheader : readHeader grant s.heap io path file = (h₁, .ok header))
    (hparse : hbiJsonParseDom grant h₁ header.json none = (h₂, some ⟨.ok (), some root⟩))
    (hroot : root.value = v) (hobject : hbiJsonIsObject (some v) = true)
    (hloop : memberLoop grant env (8 + header.headerLen) header.fileSize { s with heap := h₂ }
      (hbiJsonMembers (some v)) = (s₁, r)) :
    ∃ s', safetensorsParseMetadata env io grant path file s = (s', some r) ∧
      s'.manifest = s₁.manifest ∧ s'.metadata = s₁.metadata := by
  unfold safetensorsParseMetadata
  rw [hheader]
  dsimp only
  rw [hparse]
  dsimp only
  rw [Option.map_some, hroot, hobject, hloop]
  exact ⟨_, rfl, rfl, rfl⟩

/-- A written file is read back: the records in order, behind the header, and for every key
the last value that was written. -/
theorem safetensorsParseMetadata_written {env : DoubleEnv} {grant : Nat → Bool} (path : String)
    (heap : BlockHeap) (block entriesBlock mdBlock pairsBlock : Nat)
    {before after : List TensorRecord} {metadata : Option (List MetadataPair)}
    {text data : List UInt8} (hgrant : ∀ n, grant n = true)
    (hnames : ((before ++ after).map (·.name)).Nodup)
    (hstop : ∀ r ∈ before ++ after, r.stop ≤ data.length)
    (htext : WritesDocument (headerValue before after metadata) text)
    (hlen : text.length < safetensorsMaxHeader)
    (hfile : ((safetensorsFile text data).length : Int) ≤ int64Max) :
    ∃ s md, safetensorsParseMetadata env .clean grant path (safetensorsFile text data)
        ⟨heap, .create block entriesBlock, some (.create mdBlock pairsBlock)⟩ =
          (s, some (.ok ())) ∧
      s.manifest.entries = (before ++ after).map (·.entry (8 + text.length)) ∧
      s.metadata = some md ∧ md.get = lastWrites (metadata.getD []) fun _ => none := by
  have hdoc := isDocument_writes htext
  have hpos := isDocument_ne_nil hdoc
  obtain ⟨hrecords, hpairs⟩ := headerValue_length htext
  have hsmall : safetensorsMaxHeader < 2 ^ 31 := by
    unfold safetensorsMaxHeader
    omega
  have hcap : text.length ≤ hbiJsonMaxBytes := by
    unfold safetensorsMaxHeader at hlen
    unfold hbiJsonMaxBytes
    omega
  obtain ⟨h₁, hblock, hheader⟩ := readHeader_written hgrant heap path hpos hlen hfile
  obtain ⟨h₂, root, hparse, hroot⟩ := @hbiJsonParseDom_granted grant h₁ text none _ hgrant hpos
    hcap (hbiJsonParse_of_document hpos hcap hdoc (headerValue_nesting before after metadata))
  obtain ⟨s, md, hloop, hentries, hmeta, hget⟩ := @memberLoop_header env grant (8 + text.length)
    (8 + text.length + data.length) hgrant (by omega) before after metadata hnames
    (fun r hr => by have := hstop r hr; omega) (by omega)
    (fun pairs heq => by have := hpairs pairs heq; omega) h₂ block entriesBlock mdBlock pairsBlock
  obtain ⟨s', hres, hmanifest, hmetadata⟩ := @safetensorsParseMetadata_loop env .clean grant path
    (safetensorsFile text data)
    ⟨heap, .create block entriesBlock, some (.create mdBlock pairsBlock)⟩ s h₁ h₂ _ root _ _
    hheader hparse hroot rfl hloop
  exact ⟨s', md, hres, (congrArg Manifest.entries hmanifest).trans hentries,
    hmetadata.trans hmeta, hget⟩

/-- One byte under the name `a`. -/
def sampleRecord : TensorRecord where
  name := bytes "a"
  dtype := .i8
  dims := [1]
  start := 0
  stop := 1
  name_ne := by decide
  name_free := by decide
  name_lt := by decide
  name_ne_metadata := by decide
  rank_le := by decide
  dims_pos := by decide
  dims_lt := by decide
  prod_le := by decide
  start_lt := by decide
  stop_lt := by decide

/-- A value for the key `k`. -/
def samplePair (value : List UInt8) (hfree : 0 ∉ value) (hlt : value.length < hbiMetadataValueMax) :
    MetadataPair :=
  ⟨bytes "k", value, by decide, hfree, by decide, hlt⟩

/-- The key is written twice. -/
def sampleMetadata : List MetadataPair :=
  [samplePair (bytes "1") (by decide) (by decide), samplePair (bytes "2") (by decide) (by decide)]

def sampleHeader : List UInt8 :=
  bytes "\x7b\"__metadata__\":\x7b\"k\":\"1\",\"k\":\"2\"\x7d," ++
    bytes "\"a\":\x7b\"dtype\":\"I8\",\"shape\":[1],\"data_offsets\":[0,1]\x7d\x7d" ++ bytes " "

theorem writesMember_plain {key t : List UInt8} {v : JsonValue} (hkey : key.all isPlain = true)
    (hv : Writes v t) :
    WritesMember (key, v) (byte '"' :: (key ++ [byte '"']) ++ byte ':' :: t) := by
  simpa using WritesMember.mk .nil (writesString_plain hkey) .nil .nil hv

theorem writes_sampleHeader :
    WritesDocument (headerValue [] [sampleRecord] (some sampleMetadata)) sampleHeader := by
  have hpair : ∀ value, value.all isPlain = true → WritesMember (bytes "k", .string value)
      (bytes "\"k\":" ++ byte '"' :: (value ++ [byte '"'])) := fun value hvalue =>
    writesMember_plain (by decide) (.string (writesString_plain hvalue))
  have hmetadata : Writes (.object (metadataObject sampleMetadata))
      (bytes "\x7b\"k\":\"1\",\"k\":\"2\"\x7d") :=
    .object (.more (hpair (bytes "1") (by decide)) .nil (.one (hpair (bytes "2") (by decide)) .nil))
  have hzero : Writes (.integer 0) (bytes "0") := .integer (by decide)
  have hone : Writes (.integer 1) (bytes "1") := .integer (by decide)
  have hdtype : WritesMember (bytes "dtype", .string (bytes "I8")) (bytes "\"dtype\":\"I8\"") :=
    writesMember_plain (by decide) (.string (writesString_plain (by decide)))
  have hshape : WritesMember (bytes "shape", .array [.integer 1]) (bytes "\"shape\":[1]") :=
    writesMember_plain (by decide) (.array (.one .nil hone .nil))
  have hoffsets : WritesMember (bytes "data_offsets", .array [.integer 0, .integer 1])
      (bytes "\"data_offsets\":[0,1]") :=
    writesMember_plain (by decide) (.array (.more .nil hzero .nil (.one .nil hone .nil)))
  have hrecord : Writes sampleRecord.object
      (bytes "\x7b\"dtype\":\"I8\",\"shape\":[1],\"data_offsets\":[0,1]\x7d") :=
    .object (.more hdtype .nil (.more hshape .nil (.one hoffsets .nil)))
  have hheader : Writes (headerValue [] [sampleRecord] (some sampleMetadata))
      (bytes "\x7b\"__metadata__\":\x7b\"k\":\"1\",\"k\":\"2\"\x7d," ++
        bytes "\"a\":\x7b\"dtype\":\"I8\",\"shape\":[1],\"data_offsets\":[0,1]\x7d\x7d") :=
    .object (.more (writesMember_plain (by decide) hmetadata) .nil
      (.one (writesMember_plain (by decide) hrecord) .nil))
  have hblank : Whitespace (bytes " ") := by
    unfold Whitespace
    decide +kernel
  exact @WritesDocument.mk _ [] _ (bytes " ") .nil hheader hblank

theorem safetensorsParseMetadata_written_sample :
    ∃ s md, safetensorsParseMetadata ⟨fun _ => "", fun _ => 0⟩ .clean (fun _ => true) "m"
        (safetensorsFile sampleHeader [42]) ⟨.empty, .create 0 1, some (.create 2 3)⟩ =
          (s, some (.ok ())) ∧
      s.manifest.entries = [sampleRecord.entry (8 + sampleHeader.length)] ∧
      s.metadata = some md ∧ md.get = lastWrites sampleMetadata fun _ => none :=
  safetensorsParseMetadata_written "m" .empty 0 1 2 3 (fun _ => rfl) (by decide)
    (by simp [sampleRecord]) writes_sampleHeader (by decide) (by decide)

end Hummingbird

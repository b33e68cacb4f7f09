import Hummingbird.Model.Safetensors

/-!
Where the tensors of a safetensors file lie. The numbers of the header come through doubles
and 64-bit sums; an accepted pair of offsets is a range of the data region, and nothing
wraps on the way. The loop over the members keeps that of every row of the manifest.
-/

namespace Hummingbird

/-- A row whose bytes lie behind the header and before the end of the file. -/
structure ModelTensorEntry.Inside (e : ModelTensorEntry) (dataBase fileSize : Nat) : Prop where
  shape_valid : e.shape.Valid
  base_le : dataBase ≤ e.fileOffset
  end_le : e.fileOffset + e.byteSize ≤ fileSize

/-- What holds of the rows of a manifest at every head of the loop. -/
structure Manifest.Indexed (m : Manifest) (dataBase fileSize : Nat) : Prop where
  names_nodup : (m.entries.map (·.name)).Nodup
  checked : ∀ e ∈ m.entries, e.Checked
  inside : ∀ e ∈ m.entries, e.Inside dataBase fileSize

theorem hbiShapeInit_valid {dims : List Int} {sh : Shape} (h : hbiShapeInit dims = .ok sh) :
    sh.Valid := by
  unfold hbiShapeInit at h
  rw [Result.ite_errSet_eq_ok, Result.bind_eq_ok] at h
  obtain ⟨hrank, ⟨⟩, hloop, hsh⟩ := h
  obtain rfl := Except.ok.inj hsh
  obtain ⟨hpos, hprod⟩ := (shapeLoop_eq_ok one_pos).mp hloop
  refine ⟨not_lt.mp hrank, hpos, ?_⟩
  rcases hprod with rfl | hle
  · decide
  · simpa using hle

theorem scalar_valid : (Shape.mk []).Valid := ⟨by decide, by simp, by decide⟩

theorem parseShape_valid {env : DoubleEnv} {name : List UInt8} {items : List JsonValue}
    {sh : Shape} (h : parseShape env name items = .ok sh) : sh.Valid := by
  unfold parseShape at h
  rw [Result.ite_errSet_eq_ok, Result.bind_eq_ok] at h
  obtain ⟨_, dims, _, hinit⟩ := h
  split at hinit
  · obtain rfl := Except.ok.inj hinit
    exact scalar_valid
  · exact hbiShapeInit_valid hinit

/-- With a header below the limit no sum of the two offsets leaves 64 bits. -/
theorem parseOffsets_inside {env : DoubleEnv} {name : List UInt8} {offs : Option JsonValue}
    {dataBase fileSize absBegin byteSize : Nat} (hbase : dataBase ≤ 8 + safetensorsMaxHeader)
    (h : parseOffsets env name offs dataBase fileSize = .ok (absBegin, byteSize)) :
    dataBase ≤ absBegin ∧ absBegin + byteSize ≤ fileSize := by
  unfold parseOffsets at h
  rw [Result.ite_errSet_eq_ok] at h
  obtain ⟨_, h⟩ := h
  split at h
  · rename_i first last hfirst hlast
    rw [Result.ite_errSet_eq_ok] at h
    obtain ⟨horder, h⟩ := h
    dsimp only at h
    rw [Result.ite_errSet_eq_ok] at h
    obtain ⟨hend, h⟩ := h
    obtain ⟨rfl, rfl⟩ := Prod.mk.inj (Except.ok.inj h)
    have hmax := (hbiJsonAsInt_range hlast).2
    unfold safetensorsMaxHeader at hbase
    unfold int64Max at hmax
    unfold sizeTSize at *
    have hbegin : (dataBase + first.toNat) % 18446744073709551616 = dataBase + first.toNat := by
      apply Nat.mod_eq_of_lt
      omega
    rw [hbegin] at hend ⊢
    have hsum : (dataBase + first.toNat + (last - first).toNat) % 18446744073709551616 =
        dataBase + first.toNat + (last - first).toNat := by
      apply Nat.mod_eq_of_lt
      omega
    rw [hsum] at hend
    exact ⟨by omega, by omega⟩
  · simp at h

theorem parseTensorEntry_inside {env : DoubleEnv} {name : List UInt8} {obj : JsonValue}
    {dataBase fileSize : Nat} {e : ModelTensorEntry}
    (hbase : dataBase ≤ 8 + safetensorsMaxHeader)
    (h : parseTensorEntry env name obj dataBase fileSize = .ok e) :
    e.Inside dataBase fileSize := by
  unfold parseTensorEntry at h
  dsimp only at h
  rw [Result.ite_errSet_eq_ok, Result.ite_errSet_eq_ok, Result.bind_eq_ok] at h
  obtain ⟨_, _, sh, hshape, h⟩ := h
  rw [Result.bind_eq_ok] at h
  obtain ⟨⟨absBegin, byteSize⟩, hoffsets, h⟩ := h
  dsimp only at h
  rw [Result.ite_errSet_eq_ok] at h
  obtain ⟨_, h⟩ := h
  obtain rfl := Except.ok.inj h
  obtain ⟨hle, hend⟩ := parseOffsets_inside hbase hoffsets
  exact ⟨parseShape_valid hshape, hle, hend⟩

/-- One row more. -/
theorem Manifest.Indexed.add {grant : Nat → Bool} {h h' : BlockHeap} {m m' : Manifest}
    {entry : ModelTensorEntry} {dataBase fileSize : Nat} (hm : m.Indexed dataBase fileSize)
    (hentry : entry.Inside dataBase fileSize)
    (hres : hbiModelManifestAdd grant h m entry = (h', m', .ok ())) :
    m'.Indexed dataBase fileSize := by
  obtain ⟨hchecked, hnew, hentries⟩ := hbiModelManifestAdd_ok hres
  refine ⟨?_, ?_, ?_⟩
  · rw [hentries, List.map_append, List.nodup_append]
    refine ⟨hm.names_nodup, by simp, ?_⟩
    intro a ha b hb
    obtain rfl : b = entry.name := by simpa using hb
    exact ne_of_mem_of_not_mem ha hnew
  · intro e he
    rw [hentries] at he
    rcases List.mem_append.mp he with he | he
    · exact hm.checked e he
    · rw [List.mem_singleton.mp he]
      exact hchecked
  · intro e he
    rw [hentries] at he
    rcases List.mem_append.mp he with he | he
    · exact hm.inside e he
    · rw [List.mem_singleton.mp he]
      exact hentry

/-- The metadata of the header leaves the manifest alone. -/
theorem takeMetadata_manifest (grant : Nat → Bool) (s : LoadState) (v : JsonValue) :
    (takeMetadata grant s v).manifest = s.manifest := by
  unfold takeMetadata
  split
  · rfl
  · rfl

theorem memberLoop_indexed {grant : Nat → Bool} {env : DoubleEnv} {dataBase fileSize : Nat}
    (hbase : dataBase ≤ 8 + safetensorsMaxHeader) {members : List (List UInt8 × JsonValue)}
    {s s' : LoadState} (hs : s.manifest.Indexed dataBase fileSize)
    (hres : memberLoop grant env dataBase fileSize s members = (s', .ok ())) :
    s'.manifest.Indexed dataBase fileSize := by
  induction members generalizing s with
  | nil =>
      cases hres
      exact hs
  | cons member members ih =>
      obtain ⟨key, v⟩ := member
      unfold memberLoop at hres
      split at hres
      · apply ih _ hres
        rw [takeMetadata_manifest]
        exact hs
      split at hres
      · exact ih hs hres
      cases hentry : parseTensorEntry env key v dataBase fileSize with
      | error e =>
          rw [hentry] at hres
          cases hres
      | ok entry =>
          rw [hentry] at hres
          dsimp only at hres
          split at hres
          · cases hres
          · rename_i h m hadd
            exact ih (hs.add (parseTensorEntry_inside hbase hentry) hadd) hres

/-- A read that delivers as many bytes as were asked for delivers the range. -/
theorem fread_full {cut : Option Nat} {file : List UInt8} {pos n : Nat}
    (h : (fread cut file pos n).length = n) : fread cut file pos n = (file.drop pos).take n := by
  unfold fread at *
  cases cut with
  | none => rfl
  | some k =>
      dsimp only at *
      apply List.take_of_length_le
      rw [List.length_take] at h
      have hle := List.length_take_le n (file.drop pos)
      omega

/-- What an accepted header says about its file. -/
structure Header.Of (header : Header) (file : List UInt8) : Prop where
  headerLen_eq : header.headerLen = readLeU64 (file.take 8)
  headerLen_lt : header.headerLen < safetensorsMaxHeader
  fileSize_eq : header.fileSize = file.length
  fileSize_le : (file.length : Int) ≤ int64Max

theorem readHeader_of {grant : Nat → Bool} {h h' : BlockHeap} {io : FileAnswers} {path : String}
    {file : List UInt8} {header : Header}
    (hres : readHeader grant h io path file = (h', .ok header)) : header.Of file := by
  have htold : ¬ ftellEnd io file < 8 →
      ftellEnd io file = file.length ∧ (file.length : Int) ≤ int64Max := by
    unfold ftellEnd
    split
    · rename_i htell
      exact fun _ => ⟨rfl, htell.2⟩
    · intro hsmall
      omega
  unfold readHeader at hres
  split at hres
  · cases hres
  split at hres
  · cases hres
  dsimp only at hres
  split at hres
  · cases hres
  rename_i hsize
  split at hres
  · cases hres
  rename_i hlength
  split at hres
  · cases hres
  rename_i hbad
  split at hres
  · cases hres
  split at hres
  · cases hres
  cases hres
  obtain ⟨htell, hlong⟩ := htold hsize
  have hread := fread_full (not_not.mp hlength)
  rw [not_or, not_or] at hbad
  rw [List.drop_zero] at hread
  refine ⟨by rw [hread], not_le.mp hbad.2.1, ?_, hlong⟩
  dsimp only
  rw [htell]
  rfl

/-- A run that succeeds went through the header and the whole loop. -/
theorem safetensorsParseMetadata_ok {env : DoubleEnv} {io : FileAnswers} {grant : Nat → Bool}
    {path : String} {file : List UInt8} {s s' : LoadState}
    (hres : safetensorsParseMetadata env io grant path file s = (s', some (.ok ()))) :
    ∃ (header : Header) (heap : BlockHeap) (members : List (List UInt8 × JsonValue))
        (s₁ : LoadState), header.Of file ∧
      memberLoop grant env (8 + header.headerLen) header.fileSize { s with heap := heap } members =
        (s₁, .ok ()) ∧ s'.manifest = s₁.manifest := by
  unfold safetensorsParseMetadata at hres
  split at hres
  · cases hres
  · rename_i h header hheader
    split at hres
    · cases hres
    · rename_i heap answer hparse
      dsimp only at hres
      split at hres
      · cases hres
      split at hres
      · cases hres
      obtain ⟨rfl, hok⟩ := Prod.mk.inj hres
      exact ⟨header, heap, _, _, readHeader_of hheader, Prod.ext rfl (Option.some.inj hok), rfl⟩

/-- A row with a name and a valid shape whose bytes are a range of the data region, as they
are for whoever reads them into a buffer of their size. -/
structure ModelTensorEntry.InRegion (e : ModelTensorEntry) (path : String)
    (file : List UInt8) : Prop where
  name_ne : e.name ≠ []
  shape_valid : hbiShapeValidate e.shape = .ok ()
  byteSize_pos : 0 < e.byteSize
  base_le : 8 + readLeU64 (file.take 8) ≤ e.fileOffset
  end_le : e.fileOffset + e.byteSize ≤ file.length
  read_eq : ∀ io data, safetensorsReadTensorData io path file e e.byteSize = .ok data →
    data = (file.drop e.fileOffset).take e.byteSize
  read_clean : safetensorsReadTensorData .clean path file e e.byteSize =
    .ok ((file.drop e.fileOffset).take e.byteSize)

theorem ModelTensorEntry.Inside.inRegion {e : ModelTensorEntry} {file : List UInt8}
    (h : e.Inside (8 + readLeU64 (file.take 8)) file.length) (hchecked : e.Checked)
    (hlong : (file.length : Int) ≤ int64Max) (path : String) : e.InRegion path file := by
  obtain ⟨hvalid, hbase, hend⟩ := h
  refine ⟨hchecked.name_ne, hbiShapeValidate_eq_ok.mpr hvalid, hchecked.byteSize_pos, hbase, hend,
    ?_, ?_⟩
  · intro io data hread
    unfold safetensorsReadTensorData at hread
    dsimp only at hread
    rw [Result.ite_errSet_eq_ok, Result.ite_errSet_eq_ok, Result.ite_errSet_eq_ok,
      Result.ite_errSet_eq_ok] at hread
    obtain ⟨_, _, _, hfull, hdata⟩ := hread
    rw [← Except.ok.inj hdata]
    exact fread_full (not_not.mp hfull)
  · have hrange : ((file.drop e.fileOffset).take e.byteSize).length = e.byteSize := by
      rw [List.length_take, List.length_drop]
      omega
    unfold safetensorsReadTensorData FileAnswers.clean fread
    dsimp only
    rw [if_neg (by omega), if_neg (by decide), if_neg, if_neg (not_not.mpr hrange)]
    rw [not_or]
    exact ⟨by decide, by omega⟩

/-- Every tensor of an accepted file has a name of its own and lies in the data region. -/
theorem safetensorsParseMetadata_inRegion {env : DoubleEnv} {io : FileAnswers}
    {grant : Nat → Bool} {path : String} {file : List UInt8} {heap : BlockHeap}
    {block entriesBlock : Nat} {metadata : Option MetadataTable} {s : LoadState}
    (hres : safetensorsParseMetadata env io grant path file
      ⟨heap, .create block entriesBlock, metadata⟩ = (s, some (.ok ()))) :
    (s.manifest.entries.map (·.name)).Nodup ∧
      ∀ e ∈ s.manifest.entries, e.InRegion path file := by
  obtain ⟨header, heap', members, s₁, ⟨hlen, hlt, hsize, hlong⟩, hloop, hmanifest⟩ :=
    safetensorsParseMetadata_ok hres
  have hempty : (Manifest.create block entriesBlock).Indexed (8 + header.headerLen)
      header.fileSize := ⟨by simp [Manifest.create], by simp [Manifest.create],
        by simp [Manifest.create]⟩
  have hindexed := memberLoop_indexed (by omega) hempty hloop
  rw [← hmanifest, hlen, hsize] at hindexed
  obtain ⟨hnodup, hchecked, hinside⟩ := hindexed
  exact ⟨hnodup, fun e he => (hinside e he).inRegion (hchecked e he) hlong path⟩

/-- A header of 106 bytes for four bytes and a float behind them, and the data. -/
def twoTensorsFile : List UInt8 :=
  bytes "j\x00\x00\x00\x00\x00\x00\x00" ++
    bytes "\x7b\"a\":\x7b\"dtype\":\"I8\",\"shape\":[4],\"data_offsets\":[0,4]\x7d," ++
    bytes "\"b\":\x7b\"dtype\":\"F32\",\"shape\":[1],\"data_offsets\":[4,8]\x7d\x7d" ++
    [1, 2, 3, 4, 0, 0, 128, 63]

theorem safetensorsParseMetadata_inRegion_twoTensors :
    ∃ s, safetensorsParseMetadata ⟨fun _ => "", fun _ => 0⟩ .clean (fun _ => true) "m"
        twoTensorsFile ⟨.empty, .create 0 1, none⟩ = (s, some (.ok ())) ∧
      s.manifest.entries.map (fun e => (e.fileOffset, e.byteSize)) = [(114, 4), (118, 4)] ∧
      (s.manifest.entries.map (·.name)).Nodup ∧
      ∀ e ∈ s.manifest.entries, e.InRegion "m" twoTensorsFile := by
  have hok : (safetensorsParseMetadata ⟨fun _ => "", fun _ => 0⟩ .clean (fun _ => true) "m"
      twoTensorsFile ⟨.empty, .create 0 1, none⟩).2 = some (.ok ()) := by decide +kernel
  have hplaces : (safetensorsParseMetadata ⟨fun _ => "", fun _ => 0⟩ .clean (fun _ => true) "m"
      twoTensorsFile ⟨.empty, .create 0 1, none⟩).1.manifest.entries.map
        (fun e => (e.fileOffset, e.byteSize)) = [(114, 4), (118, 4)] := by decide +kernel
  cases hres : safetensorsParseMetadata ⟨fun _ => "", fun _ => 0⟩ .clean (fun _ => true) "m"
      twoTensorsFile ⟨.empty, .create 0 1, none⟩ with
  | mk s r =>
      rw [hres] at hok hplaces
      obtain rfl : r = some (.ok ()) := hok
      exact ⟨s, rfl, hplaces, safetensorsParseMetadata_inRegion hres⟩

end Hummingbird

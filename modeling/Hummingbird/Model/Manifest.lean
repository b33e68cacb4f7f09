import Hummingbird.Stream.Engine
import Hummingbird.Memory.Blocks

/-!
The two tables of a model: the manifest of its tensors and its metadata. A string of a
table is kept without its `NUL`. Both tables grow by doubling a 32-bit capacity, and a
table that cannot grow stays as it is.
-/

namespace Hummingbird

def hbiTensorNameMax : Nat := 256

def hbiMetadataKeyMax : Nat := 128

def hbiMetadataValueMax : Nat := 512

/-- `sizeof(hbi_tensor_entry)`. -/
def sizeofTensorEntry : Nat := 368

/-- `sizeof(hbi_metadata_pair)`. -/
def sizeofMetadataPair : Nat := 640

/-- Bytes in a message, one character each. -/
def asText (s : List UInt8) : String := String.ofList (s.map fun c => Char.ofNat c.toNat)

/-- `hbi_tensor_entry` with all its fields. -/
structure ModelTensorEntry where
  name : List UInt8
  shape : Shape
  dtype : Dtype
  fileOffset : Nat
  byteSize : Nat
  requiredAlignment : Nat
  shardIndex : Nat
  residency : ResidencyHint
  deriving DecidableEq

/-- `hbi_model_manifest`, with its own block and the block of its entries. -/
structure Manifest where
  block : Nat
  entriesBlock : Nat
  entries : List ModelTensorEntry
  capacity : Nat

/-- What `hbi_model_manifest_create` makes of its two blocks. -/
def Manifest.create (block entriesBlock : Nat) : Manifest := ⟨block, entriesBlock, [], 64⟩

/-- `hbi_model_metadata`. -/
structure MetadataTable where
  block : Nat
  pairsBlock : Nat
  pairs : List (List UInt8 × List UInt8)
  capacity : Nat

def MetadataTable.create (block pairsBlock : Nat) : MetadataTable := ⟨block, pairsBlock, [], 32⟩

section Tables

variable (grant : Nat → Bool)

/-- Twice the capacity for the rows of a table: the block and the capacity from now on. A
capacity that wraps to zero frees the block. -/
def growTable (h : BlockHeap) (block capacity width : Nat) : BlockHeap × Option (Nat × Nat) :=
  let newCap := capacity * 2 % uint32Size
  if newCap = 0 then (h.free block, none)
  else
    match h.realloc grant block (width * newCap) with
    | (h, none) => (h, none)
    | (h, some new) => (h, some (new, newCap))

def manifestGrow (h : BlockHeap) (m : Manifest) : BlockHeap × Manifest × Result Unit :=
  match growTable grant h m.entriesBlock m.capacity sizeofTensorEntry with
  | (h, none) => (h, m, errSet .oom "manifest grow: realloc failed")
  | (h, some (block, newCap)) => (h, { m with entriesBlock := block, capacity := newCap }, .ok ())

def hbiModelManifestFind (m : Manifest) (name : List UInt8) : Option ModelTensorEntry :=
  m.entries.find? fun e => e.name = name

/-- The checks of `hbi_model_manifest_add` on the entry alone. -/
def checkEntry (entry : ModelTensorEntry) : Result Unit :=
  if entry.name = [] then errSet .invalidArg "manifest add: empty tensor name"
  else if entry.byteSize = 0 then
    errSet .invalidArg s!"manifest add: zero byte_size for '{asText entry.name}'"
  else if entry.byteSize ≥ sizeTSize - 1 then
    errSet .invalidArg s!"manifest add: byte_size too large for '{asText entry.name}'"
  else if hbiDtypeIsValid entry.dtype = false then
    errSet .invalidArg s!"manifest add: invalid dtype for '{asText entry.name}'"
  else .ok ()

def hbiModelManifestAdd (h : BlockHeap) (m : Manifest) (entry : ModelTensorEntry) :
    BlockHeap × Manifest × Result Unit :=
  match checkEntry entry with
  | .error e => (h, m, .error e)
  | .ok () =>
      if (hbiModelManifestFind m entry.name).isSome then
        (h, m, errSet .state s!"manifest add: duplicate tensor '{asText entry.name}'")
      else if m.entries.length ≥ m.capacity then
        match manifestGrow grant h m with
        | (h, m, .error e) => (h, m, .error e)
        | (h, m, .ok ()) => (h, { m with entries := m.entries ++ [entry] }, .ok ())
      else (h, { m with entries := m.entries ++ [entry] }, .ok ())

def hbiModelMetadataSet (h : BlockHeap) (md : MetadataTable) (key value : List UInt8) :
    BlockHeap × MetadataTable × Result Unit :=
  if key.length ≥ hbiMetadataKeyMax then
    (h, md, errSet .invalidArg "metadata set: key too long")
  else if value.length ≥ hbiMetadataValueMax then
    (h, md, errSet .invalidArg "metadata set: value too long")
  else if md.pairs.any fun p => p.1 = key then
    let i := md.pairs.findIdx fun p => p.1 = key
    (h, { md with pairs := md.pairs.modify i fun p => (p.1, value) }, .ok ())
  else if md.pairs.length ≥ md.capacity then
    match growTable grant h md.pairsBlock md.capacity sizeofMetadataPair with
    | (h, none) => (h, md, errSet .oom "metadata set: realloc failed")
    | (h, some (block, newCap)) =>
        (h, { md with pairsBlock := block, pairs := md.pairs ++ [(key, value)],
                      capacity := newCap }, .ok ())
  else (h, { md with pairs := md.pairs ++ [(key, value)] }, .ok ())

end Tables

/-- `hbi_model_metadata_get`. -/
def MetadataTable.get (md : MetadataTable) (key : List UInt8) : Option (List UInt8) :=
  (md.pairs.find? fun p => p.1 = key).map Prod.snd

/-- A table that grew only when it was full, by doubling: as many rows as it has room for at
most, and no room beyond the initial one that its rows do not account for. -/
structure TableFits (rows capacity : Nat) : Prop where
  rows_le : rows ≤ capacity
  capacity_pos : 0 < capacity
  capacity_le : capacity ≤ max 64 (2 * rows)

theorem TableFits.push {rows capacity : Nat} (h : TableFits rows capacity)
    (hroom : ¬ rows ≥ capacity) : TableFits (rows + 1) capacity := by
  obtain ⟨hle, hpos, hcap⟩ := h
  exact ⟨by omega, hpos, by omega⟩

section Growth

variable {grant : Nat → Bool} {h : BlockHeap}

/-- With every request granted a full table grows, as long as its rows fit in 31 bits. -/
theorem growTable_granted (hgrant : ∀ n, grant n = true) {rows capacity : Nat}
    (hfits : TableFits rows capacity) (hfull : capacity ≤ rows) (hrows : rows < 2 ^ 31)
    (block width : Nat) :
    ∃ h' new, growTable grant h block capacity width = (h', some (new, capacity * 2)) ∧
      TableFits (rows + 1) (capacity * 2) := by
  obtain ⟨hle, hpos, -⟩ := hfits
  have hwrap : capacity * 2 % uint32Size = capacity * 2 := by
    apply Nat.mod_eq_of_lt
    unfold uint32Size
    omega
  unfold growTable
  dsimp only
  rw [hwrap, if_neg (by omega)]
  obtain ⟨h', new, heq⟩ := @BlockHeap.realloc_granted grant h hgrant block (width * (capacity * 2))
  rw [heq]
  exact ⟨h', new, rfl, by omega, by omega, by omega⟩

end Growth

/-- What every row of a manifest has passed. -/
structure ModelTensorEntry.Checked (e : ModelTensorEntry) : Prop where
  name_ne : e.name ≠ []
  byteSize_pos : 0 < e.byteSize
  byteSize_lt : e.byteSize < sizeTSize - 1
  dtype_valid : hbiDtypeIsValid e.dtype = true

theorem checkEntry_eq_ok {e : ModelTensorEntry} : checkEntry e = .ok () ↔ e.Checked := by
  unfold checkEntry
  rw [Result.ite_errSet_eq_ok, Result.ite_errSet_eq_ok, Result.ite_errSet_eq_ok,
    Result.ite_errSet_eq_ok]
  constructor
  · rintro ⟨hname, hzero, hlarge, hdtype, -⟩
    exact ⟨hname, Nat.pos_of_ne_zero hzero, not_le.mp hlarge, by simpa using hdtype⟩
  · rintro ⟨hname, hpos, hlt, hdtype⟩
    exact ⟨hname, by omega, not_le.mpr hlt, by simp [hdtype], rfl⟩

theorem manifestGrow_entries {grant : Nat → Bool} {h h' : BlockHeap} {m m' : Manifest}
    {r : Result Unit} (hres : manifestGrow grant h m = (h', m', r)) : m'.entries = m.entries := by
  unfold manifestGrow at hres
  split at hres
  · cases hres
    rfl
  · cases hres
    rfl

theorem hbiModelManifestFind_eq_none {m : Manifest} {name : List UInt8} :
    (hbiModelManifestFind m name).isSome = false ↔ name ∉ m.entries.map (·.name) := by
  unfold hbiModelManifestFind
  simp

/-- An accepted entry is checked, its name is new, and it is the last row from then on. -/
theorem hbiModelManifestAdd_ok {grant : Nat → Bool} {h h' : BlockHeap} {m m' : Manifest}
    {entry : ModelTensorEntry} (hres : hbiModelManifestAdd grant h m entry = (h', m', .ok ())) :
    entry.Checked ∧ entry.name ∉ m.entries.map (·.name) ∧
      m'.entries = m.entries ++ [entry] := by
  unfold hbiModelManifestAdd at hres
  cases hcheck : checkEntry entry with
  | error e =>
      rw [hcheck] at hres
      cases hres
  | ok u =>
      rw [hcheck] at hres
      dsimp only at hres
      refine ⟨checkEntry_eq_ok.mp hcheck, ?_⟩
      split at hres
      · cases hres
      · rename_i hnew
        refine ⟨hbiModelManifestFind_eq_none.mp (by simpa using hnew), ?_⟩
        split at hres
        · split at hres
          · cases hres
          · rename_i h₁ m₁ hgrow
            cases hres
            rw [← manifestGrow_entries hgrow]
        · cases hres
          rfl

/-- With every request granted a checked entry with a new name is accepted. -/
theorem hbiModelManifestAdd_granted {grant : Nat → Bool} (hgrant : ∀ n, grant n = true)
    {h : BlockHeap} {m : Manifest} {entry : ModelTensorEntry} (hcheck : entry.Checked)
    (hnew : entry.name ∉ m.entries.map (·.name)) (hfits : TableFits m.entries.length m.capacity)
    (hrows : m.entries.length < 2 ^ 31) :
    ∃ h' m', hbiModelManifestAdd grant h m entry = (h', m', .ok ()) ∧
      m'.entries = m.entries ++ [entry] ∧ TableFits m'.entries.length m'.capacity := by
  unfold hbiModelManifestAdd
  rw [checkEntry_eq_ok.mpr hcheck]
  dsimp only
  rw [hbiModelManifestFind_eq_none.mpr hnew, if_neg (by decide)]
  by_cases hfull : m.entries.length ≥ m.capacity
  · obtain ⟨h', new, heq, hfits'⟩ := @growTable_granted grant h hgrant _ _ hfits hfull hrows
      m.entriesBlock sizeofTensorEntry
    rw [if_pos hfull]
    unfold manifestGrow
    rw [heq]
    exact ⟨_, _, rfl, rfl, by simpa using hfits'⟩
  · rw [if_neg hfull]
    exact ⟨_, _, rfl, rfl, by simpa using hfits.push hfull⟩

/-- Writing over the first pair with a key changes what is found under that key only. -/
theorem find?_modify_findIdx {pairs : List (List UInt8 × List UInt8)} {key : List UInt8}
    (value k : List UInt8) (hkey : ∃ p ∈ pairs, p.1 = key) :
    ((pairs.modify (pairs.findIdx fun p => p.1 = key) fun p => (p.1, value)).find?
        fun p => p.1 = k).map Prod.snd =
      if k = key then some value else (pairs.find? fun p => p.1 = k).map Prod.snd := by
  induction pairs with
  | nil => simp at hkey
  | cons p pairs ih =>
      by_cases hp : p.1 = key
      · by_cases hk : k = key
        · simp [List.findIdx_cons, hp, hk]
        · have hpk : p.1 ≠ k := fun heq => hk (heq.symm.trans hp)
          simp [List.findIdx_cons, hp, hk, Ne.symm hk]
      · have hrest : ∃ q ∈ pairs, q.1 = key := by
          obtain ⟨q, hq, hqkey⟩ := hkey
          rcases List.mem_cons.mp hq with rfl | hq
          · exact absurd hqkey hp
          · exact ⟨q, hq, hqkey⟩
        by_cases hk : p.1 = k
        · have hne : k ≠ key := fun heq => hp (hk.trans heq)
          simp [List.findIdx_cons, hk, hne]
        · simpa [List.findIdx_cons, hp, hk] using ih hrest

/-- With every request granted a pair within the limits is stored, and nothing else
changes for a reader. -/
theorem hbiModelMetadataSet_granted {grant : Nat → Bool} (hgrant : ∀ n, grant n = true)
    {h : BlockHeap} {md : MetadataTable} {key value : List UInt8}
    (hkey : key.length < hbiMetadataKeyMax) (hvalue : value.length < hbiMetadataValueMax)
    (hfits : TableFits md.pairs.length md.capacity) (hrows : md.pairs.length < 2 ^ 31) :
    ∃ h' md', hbiModelMetadataSet grant h md key value = (h', md', .ok ()) ∧
      (∀ k, md'.get k = if k = key then some value else md.get k) ∧
      TableFits md'.pairs.length md'.capacity ∧ md'.pairs.length ≤ md.pairs.length + 1 := by
  unfold hbiModelMetadataSet
  rw [if_neg (by omega), if_neg (by omega)]
  by_cases hany : (md.pairs.any fun p => p.1 = key) = true
  · rw [if_pos hany]
    refine ⟨_, _, rfl, ?_, by simpa using hfits, by simp⟩
    intro k
    apply find?_modify_findIdx
    simpa using hany
  · rw [if_neg hany]
    have hnew : ∀ p ∈ md.pairs, p.1 ≠ key := by
      intro p hp heq
      exact hany (List.any_eq_true.mpr ⟨p, hp, by simpa using heq⟩)
    have hget : ∀ k, ((md.pairs ++ [(key, value)]).find? fun p => p.1 = k).map Prod.snd =
        if k = key then some value else md.get k := by
      intro k
      unfold MetadataTable.get
      by_cases hk : k = key
      · subst hk
        have hnone : (md.pairs.find? fun p => p.1 = k) = none := by
          rw [List.find?_eq_none]
          intro p hp
          simpa using hnew p hp
        simp [List.find?_append, hnone]
      · simp [List.find?_append, hk, Ne.symm hk]
    by_cases hfull : md.pairs.length ≥ md.capacity
    · obtain ⟨h', new, heq, hfits'⟩ := @growTable_granted grant h hgrant _ _ hfits hfull hrows
        md.pairsBlock sizeofMetadataPair
      rw [if_pos hfull, heq]
      exact ⟨_, _, rfl, hget, by simpa using hfits', by simp⟩
    · rw [if_neg hfull]
      exact ⟨_, _, rfl, hget, by simpa using hfits.push hfull, by simp⟩

end Hummingbird

import Hummingbird.Model.Load
import Hummingbird.Tensor.Tensor

/-!
What a strict load promises. A table of a session grows by doubling, so its capacity is a power
of two; the doubling that leaves 32 bits frees the block of the table and the table keeps the
pointer. Short of that the session owns its five blocks whatever the handler does, and every
way out releases them or hands them over.
-/

namespace Hummingbird

open Ownership

/-- What growing looks at in a table: its block, how many rows it has, and room for how many. -/
structure TableView where
  block : Nat
  rows : Nat
  capacity : Nat

def Manifest.view (m : Manifest) : TableView := ⟨m.entriesBlock, m.entries.length, m.capacity⟩

def MetadataTable.view (md : MetadataTable) : TableView :=
  ⟨md.pairsBlock, md.pairs.length, md.capacity⟩

/-- What a call does to a table that it has a new row for, or not. -/
inductive TableStep (grant : Nat → Bool) (width : Nat) (new : Prop) (h : BlockHeap)
    (v : TableView) : BlockHeap → TableView → Prop where
  | same (hold : ¬ new) : TableStep grant width new h v h v
  | push (hnew : new) (hroom : v.rows < v.capacity) :
      TableStep grant width new h v h { v with rows := v.rows + 1 }
  | refused (hnew : new) (hfull : v.capacity ≤ v.rows) {h' : BlockHeap}
      (hgrow : growTable grant h v.block v.capacity width = (h', none)) :
      TableStep grant width new h v h' v
  | grown (hnew : new) (hfull : v.capacity ≤ v.rows) {h' : BlockHeap} {block capacity : Nat}
      (hgrow : growTable grant h v.block v.capacity width = (h', some (block, capacity))) :
      TableStep grant width new h v h' ⟨block, v.rows + 1, capacity⟩

/-- A table that only ever doubled. -/
structure TableView.Doubled (v : TableView) : Prop where
  rows_le : v.rows ≤ v.capacity
  capacity_eq : ∃ j ≤ 31, v.capacity = 2 ^ j

/-- The row that a call would store. -/
def ModelTensorEntry.New (m : Manifest) (entry : ModelTensorEntry) : Prop :=
  entry.Checked ∧ entry.name ∉ m.entries.map (·.name)

/-- The pair that a call would store, not one that it would write over. -/
def MetadataTable.New (md : MetadataTable) (key value : List UInt8) : Prop :=
  key.length < hbiMetadataKeyMax ∧ value.length < hbiMetadataValueMax ∧
    ∀ p ∈ md.pairs, p.1 ≠ key

/-- The call does not ask a table of `2 ^ 31` rows for one more. -/
def ParseState.Room (s : ParseState) : ParseCall → Prop
  | .add entry => entry.New s.manifest → s.manifest.entries.length < 2 ^ 31
  | .set key value => s.metadata.New key value → s.metadata.pairs.length < 2 ^ 31

/-- The blocks of the tables, in the order in which they are released. -/
def ParseState.blocks (s : ParseState) : List Nat :=
  [s.manifest.entriesBlock, s.manifest.block, s.metadata.pairsBlock, s.metadata.block]

def LoadSession.blocks (session : LoadSession) : List Nat :=
  [session.manifest.entriesBlock, session.manifest.block, session.metadata.pairsBlock,
    session.metadata.block, session.block]

/-- A session whose manifest can be used without further checks. -/
structure LoadSession.Usable (session : LoadSession) : Prop where
  state : session.state = .complete
  tensors_registered : session.stats.tensorsRegistered = session.manifest.entries.length
  bytes_indexed :
    session.stats.bytesIndexed = (session.manifest.entries.map (·.byteSize)).sum
  names_nodup : (session.manifest.entries.map (·.name)).Nodup
  wrapped : ∀ e ∈ session.manifest.entries, hbiDtypeIsReserved e.dtype = false →
    ∀ data, data ≠ 0 → hbiDtypeAlign e.dtype ∣ data →
      ∃ t, hbiTensorWrap e.dtype e.shape data e.byteSize = .ok t

/-- Either an error, no session and nothing left allocated, or a usable session that owns its
blocks and nothing else left. -/
def StrictLoad (base : Ledger Nat) (r : Loaded) : Prop :=
  (∃ e, r.status = .error e ∧ r.outSession = none ∧ base.Since r.heap.ledger []) ∨
    ∃ session, r.status = .ok () ∧ r.outSession = some session ∧
      base.Since r.heap.ledger session.blocks ∧ session.Usable

/-- A handler's calls leave every table room, and the sizes that it registers add up to a
64-bit number when they are added. -/
structure ParseRun.Fits (grant : Nat → Bool) (s : ParseState) (run : ParseRun) : Prop where
  room : Runs.Along (ParseState.call grant) ParseState.Room s run.calls
  bytes : run.status = .ok () →
    hbiModelManifestValidate (Runs.final (ParseState.call grant) s run.calls).manifest = .ok () →
    ((Runs.final (ParseState.call grant) s run.calls).manifest.entries.map
      (·.byteSize)).sum < sizeTSize

/-- If a handler is reached, what it does fits. -/
def LoadFits (grant : Nat → Bool) (options : LoadOptions) (handlers : List FormatHandler)
    (h : BlockHeap) : Prop :=
  ∀ h' session handler, options.modelPath.getD [] ≠ [] →
    loadSessionCreate grant h = (h', .ok session) →
    loadFormat options handlers (options.modelPath.getD []) ≠ .unknown →
    hbiFormatHandlerFind handlers (loadFormat options handlers (options.modelPath.getD [])) =
      some handler →
    (handler.parseMetadata (options.modelPath.getD [])).Fits grant
      ⟨h', session.manifest, session.metadata⟩

section Growth

variable {grant : Nat → Bool} {width : Nat} {new : Prop} {h h' : BlockHeap}
  {v v' : TableView} {base : Ledger Nat} {ids : List Nat}

theorem TableView.Doubled.lt_of_full (hv : v.Doubled) (hfull : v.capacity ≤ v.rows)
    (hrows : v.rows < 2 ^ 31) :
    v.capacity * 2 % uint32Size = v.capacity * 2 ∧ v.capacity * 2 ≠ 0 ∧
      TableView.Doubled ⟨v.block, v.rows + 1, v.capacity * 2⟩ := by
  obtain ⟨hle, j, hj, hcap⟩ := hv
  have hpos : 0 < 2 ^ j := Nat.two_pow_pos j
  have hlt : j < 31 := by
    rw [← Nat.pow_lt_pow_iff_right (a := 2) (by decide)]
    omega
  refine ⟨?_, by omega, ?_, j + 1, by omega, ?_⟩
  · apply Nat.mod_eq_of_lt
    unfold uint32Size
    omega
  · dsimp only
    omega
  · rw [hcap, Nat.pow_succ]

/-- The doubling that leaves 32 bits. -/
theorem growTable_wraps (hv : v.Doubled) (hfull : v.capacity ≤ v.rows)
    (hrows : 2 ^ 31 ≤ v.rows) :
    growTable grant h v.block v.capacity width = (h.free v.block, none) := by
  obtain ⟨j, hj, hcap⟩ := hv.capacity_eq
  have hle : 2 ^ j ≤ 2 ^ 31 := Nat.pow_le_pow_right (by decide) hj
  have hrowsLe := hv.rows_le
  have hwrap : v.capacity * 2 % uint32Size = 0 := by
    have hcap' : v.capacity = 2 ^ 31 := by omega
    rw [hcap']
    rfl
  unfold growTable
  dsimp only
  rw [if_pos hwrap]

theorem TableStep.since (hstep : TableStep grant width new h v h' v') (hv : v.Doubled)
    (hroom : new → v.rows < 2 ^ 31) (hs : base.Since h.ledger (v.block :: ids)) :
    base.Since h'.ledger (v'.block :: ids) ∧ v'.Doubled := by
  cases hstep with
  | same => exact ⟨hs, hv⟩
  | push hnew hlt => exact ⟨hs, Nat.succ_le_of_lt hlt, hv.capacity_eq⟩
  | refused hnew hfull hgrow =>
      obtain ⟨hwrap, hne, -⟩ := hv.lt_of_full hfull (hroom hnew)
      unfold growTable at hgrow
      dsimp only at hgrow
      rw [hwrap, if_neg hne] at hgrow
      obtain ⟨h₁, heq, hs₁⟩ | ⟨h₁, block, heq, hs₁⟩ :=
        @BlockHeap.realloc_since grant _ _ _ _ hs (width * (v.capacity * 2))
      · rw [heq] at hgrow
        cases hgrow
        exact ⟨hs₁, hv⟩
      · rw [heq] at hgrow
        cases hgrow
  | grown hnew hfull hgrow =>
      obtain ⟨hwrap, hne, hgrown⟩ := hv.lt_of_full hfull (hroom hnew)
      unfold growTable at hgrow
      dsimp only at hgrow
      rw [hwrap, if_neg hne] at hgrow
      obtain ⟨h₁, heq, hs₁⟩ | ⟨h₁, block, heq, hs₁⟩ :=
        @BlockHeap.realloc_since grant _ _ _ _ hs (width * (v.capacity * 2))
      · rw [heq] at hgrow
        cases hgrow
      · rw [heq] at hgrow
        cases hgrow
        exact ⟨hs₁, hgrown.rows_le, hgrown.capacity_eq⟩

theorem TableStep.wraps (hstep : TableStep grant width new h v h' v') (hv : v.Doubled)
    (hnew : new) (hrows : 2 ^ 31 ≤ v.rows) (hs : base.Since h.ledger (v.block :: ids)) :
    base.Dangling h'.ledger (v'.block :: ids) := by
  cases hstep with
  | same hold => exact absurd hnew hold
  | push _ hlt =>
      obtain ⟨j, hj, hcap⟩ := hv.capacity_eq
      have hle : 2 ^ j ≤ 2 ^ 31 := Nat.pow_le_pow_right (by decide) hj
      omega
  | refused _ hfull hgrow =>
      rw [growTable_wraps hv hfull hrows] at hgrow
      cases hgrow
      exact .of_since hs List.mem_cons_self
  | grown _ hfull hgrow =>
      rw [growTable_wraps hv hfull hrows] at hgrow
      cases hgrow

theorem growTable_dangling {block capacity : Nat}
    (hd : base.Dangling h.ledger (block :: ids)) :
    (∃ h', growTable grant h block capacity width = (h', none) ∧
      base.Dangling h'.ledger (block :: ids)) ∨
    ∃ h' block' capacity', growTable grant h block capacity width =
      (h', some (block', capacity')) ∧ base.Dangling h'.ledger (block' :: ids) := by
  unfold growTable
  dsimp only
  by_cases hzero : capacity * 2 % uint32Size = 0
  · rw [if_pos hzero]
    exact Or.inl ⟨_, rfl, (BlockHeap.free_dangling hd).mono (List.subset_cons_self _ _)⟩
  · rw [if_neg hzero]
    obtain ⟨h₁, heq, hd₁⟩ | ⟨h₁, block', heq, hd₁⟩ := @BlockHeap.realloc_dangling
      grant _ _ _ _ hd (width * (capacity * 2 % uint32Size))
    · rw [heq]
      exact Or.inl ⟨_, rfl, hd₁⟩
    · rw [heq]
      exact Or.inr ⟨_, _, _, rfl, hd₁⟩

theorem TableStep.dangling (hstep : TableStep grant width new h v h' v')
    (hd : base.Dangling h.ledger (v.block :: ids)) :
    base.Dangling h'.ledger (v'.block :: ids) := by
  cases hstep with
  | same => exact hd
  | push => exact hd
  | refused _ _ hgrow =>
      obtain ⟨h₁, heq, hd₁⟩ | ⟨h₁, block, capacity, heq, -⟩ :=
        @growTable_dangling grant width _ _ _ _ v.capacity hd
      · rw [heq] at hgrow
        cases hgrow
        exact hd₁
      · rw [heq] at hgrow
        cases hgrow
  | grown _ _ hgrow =>
      obtain ⟨h₁, heq, -⟩ | ⟨h₁, block, capacity, heq, hd₁⟩ :=
        @growTable_dangling grant width _ _ _ _ v.capacity hd
      · rw [heq] at hgrow
        cases hgrow
      · rw [heq] at hgrow
        cases hgrow
        exact hd₁

end Growth

section Calls

variable {grant : Nat → Bool} {base : Ledger Nat} {rest : List Nat} {s : ParseState}

/-- What an addition does to the table, to the manifest's own block and to the entries. -/
theorem hbiModelManifestAdd_step (grant : Nat → Bool) (h : BlockHeap) (m : Manifest)
    (entry : ModelTensorEntry) :
    ∃ h' m' r, hbiModelManifestAdd grant h m entry = (h', m', r) ∧
      TableStep grant sizeofTensorEntry (entry.New m) h m.view h' m'.view ∧
      m'.block = m.block ∧
      (m'.entries = m.entries ∨ entry.New m ∧ m'.entries = m.entries ++ [entry]) := by
  unfold hbiModelManifestAdd
  cases hcheck : checkEntry entry with
  | error e =>
      refine ⟨_, _, _, rfl, .same ?_, rfl, Or.inl rfl⟩
      rintro ⟨hchecked, -⟩
      rw [checkEntry_eq_ok.mpr hchecked] at hcheck
      cases hcheck
  | ok u =>
      have hchecked := checkEntry_eq_ok.mp hcheck
      dsimp only
      by_cases hfind : (hbiModelManifestFind m entry.name).isSome = true
      · rw [if_pos hfind]
        refine ⟨_, _, _, rfl, .same ?_, rfl, Or.inl rfl⟩
        rintro ⟨-, hname⟩
        rw [hbiModelManifestFind_eq_none.mpr hname] at hfind
        cases hfind
      · have hnew : entry.New m :=
          ⟨hchecked, hbiModelManifestFind_eq_none.mp (Bool.eq_false_of_not_eq_true hfind)⟩
        rw [if_neg hfind]
        by_cases hfull : m.entries.length ≥ m.capacity
        · rw [if_pos hfull]
          unfold manifestGrow
          cases hgrow : growTable grant h m.entriesBlock m.capacity sizeofTensorEntry with
          | mk h' grown =>
              cases grown with
              | none => exact ⟨_, _, _, rfl, .refused hnew hfull hgrow, rfl, Or.inl rfl⟩
              | some grown =>
                  refine ⟨_, _, _, rfl, ?_, rfl, Or.inr ⟨hnew, rfl⟩⟩
                  unfold Manifest.view
                  rw [List.length_append]
                  exact .grown hnew hfull hgrow
        · rw [if_neg hfull]
          refine ⟨_, _, _, rfl, ?_, rfl, Or.inr ⟨hnew, rfl⟩⟩
          unfold Manifest.view
          rw [List.length_append]
          exact .push hnew (not_le.mp hfull)

theorem hbiModelMetadataSet_step (grant : Nat → Bool) (h : BlockHeap) (md : MetadataTable)
    (key value : List UInt8) :
    ∃ h' md' r, hbiModelMetadataSet grant h md key value = (h', md', r) ∧
      TableStep grant sizeofMetadataPair (md.New key value) h md.view h' md'.view ∧
      md'.block = md.block := by
  unfold hbiModelMetadataSet
  by_cases hkey : key.length ≥ hbiMetadataKeyMax
  · rw [if_pos hkey]
    exact ⟨_, _, _, rfl, .same fun hnew => absurd hnew.1 (not_lt.mpr hkey), rfl⟩
  rw [if_neg hkey]
  by_cases hvalue : value.length ≥ hbiMetadataValueMax
  · rw [if_pos hvalue]
    exact ⟨_, _, _, rfl, .same fun hnew => absurd hnew.2.1 (not_lt.mpr hvalue), rfl⟩
  rw [if_neg hvalue]
  by_cases hany : (md.pairs.any fun p => p.1 = key) = true
  · rw [if_pos hany]
    refine ⟨_, _, _, rfl, ?_, rfl⟩
    unfold MetadataTable.view
    rw [List.length_modify]
    refine .same fun hnew => ?_
    obtain ⟨p, hp, heq⟩ := List.any_eq_true.mp hany
    exact hnew.2.2 p hp (of_decide_eq_true heq)
  rw [if_neg hany]
  have hnew : md.New key value := by
    refine ⟨not_le.mp hkey, not_le.mp hvalue, fun p hp heq => hany ?_⟩
    exact List.any_eq_true.mpr ⟨p, hp, decide_eq_true heq⟩
  by_cases hfull : md.pairs.length ≥ md.capacity
  · rw [if_pos hfull]
    cases hgrow : growTable grant h md.pairsBlock md.capacity sizeofMetadataPair with
    | mk h' grown =>
        cases grown with
        | none => exact ⟨_, _, _, rfl, .refused hnew hfull hgrow, rfl⟩
        | some grown =>
            refine ⟨_, _, _, rfl, ?_, rfl⟩
            unfold MetadataTable.view
            rw [List.length_append]
            exact .grown hnew hfull hgrow
  · rw [if_neg hfull]
    refine ⟨_, _, _, rfl, ?_, rfl⟩
    unfold MetadataTable.view
    rw [List.length_append]
    exact .push hnew (not_le.mp hfull)

/-- What the calls of a handler keep as long as there is room. -/
structure ParseState.Sound (base : Ledger Nat) (rest : List Nat) (s : ParseState) : Prop where
  since : base.Since s.heap.ledger (s.blocks ++ rest)
  names_nodup : (s.manifest.entries.map (·.name)).Nodup
  manifest_doubled : s.manifest.view.Doubled
  metadata_doubled : s.metadata.view.Doubled

/-- The block of the pairs in front. -/
theorem ParseState.blocks_perm (s : ParseState) (rest : List Nat) :
    (s.blocks ++ rest).Perm (s.metadata.pairsBlock :: s.manifest.entriesBlock ::
      s.manifest.block :: s.metadata.block :: rest) :=
  @List.perm_middle _ s.metadata.pairsBlock [s.manifest.entriesBlock, s.manifest.block]
    (s.metadata.block :: rest)

theorem ParseState.Sound.call (hs : s.Sound base rest) {c : ParseCall} (hroom : s.Room c) :
    (s.call grant c).Sound base rest := by
  cases c with
  | add entry =>
      obtain ⟨h', m', r, heq, hstep, hblock, hentries⟩ :=
        hbiModelManifestAdd_step grant s.heap s.manifest entry
      obtain ⟨hsince, hdoubled⟩ := hstep.since hs.manifest_doubled hroom hs.since
      rw [ParseState.call, heq]
      refine ⟨?_, ?_, hdoubled, hs.metadata_doubled⟩
      · unfold ParseState.blocks
        dsimp only
        rw [hblock]
        exact hsince
      · rcases hentries with hsame | ⟨hnew, hadded⟩
        · dsimp only
          rw [hsame]
          exact hs.names_nodup
        · dsimp only
          rw [hadded, List.map_append, List.nodup_append]
          refine ⟨hs.names_nodup, List.nodup_singleton _, ?_⟩
          intro a ha b hb
          obtain rfl := List.mem_singleton.mp hb
          exact ne_of_mem_of_not_mem ha hnew.2
  | set key value =>
      obtain ⟨h', md', r, heq, hstep, hblock⟩ :=
        hbiModelMetadataSet_step grant s.heap s.metadata key value
      obtain ⟨hsince, hdoubled⟩ := hstep.since hs.metadata_doubled hroom
        (hs.since.perm (s.blocks_perm rest))
      rw [ParseState.call, heq]
      refine ⟨?_, hs.names_nodup, hs.manifest_doubled, hdoubled⟩
      refine Ledger.Since.perm ?_ (ParseState.blocks_perm _ rest).symm
      dsimp only
      rw [hblock]
      exact hsince

theorem ParseState.dangling_call (c : ParseCall)
    (hd : base.Dangling s.heap.ledger (s.blocks ++ rest)) :
    base.Dangling (s.call grant c).heap.ledger ((s.call grant c).blocks ++ rest) := by
  cases c with
  | add entry =>
      obtain ⟨h', m', r, heq, hstep, hblock, -⟩ :=
        hbiModelManifestAdd_step grant s.heap s.manifest entry
      rw [ParseState.call, heq]
      unfold ParseState.blocks
      dsimp only
      rw [hblock]
      exact hstep.dangling hd
  | set key value =>
      obtain ⟨h', md', r, heq, hstep, hblock⟩ :=
        hbiModelMetadataSet_step grant s.heap s.metadata key value
      rw [ParseState.call, heq]
      refine Ledger.Dangling.mono ?_ (ParseState.blocks_perm _ rest).symm.subset
      dsimp only
      rw [hblock]
      exact hstep.dangling (hd.mono (s.blocks_perm rest).subset)

/-- A full table of `2 ^ 31` rows that is asked for one more loses its block. -/
theorem ParseState.Sound.dangling (hs : s.Sound base rest) {c : ParseCall}
    (hroom : ¬ s.Room c) :
    base.Dangling (s.call grant c).heap.ledger ((s.call grant c).blocks ++ rest) := by
  cases c with
  | add entry =>
      obtain ⟨h', m', r, heq, hstep, hblock, -⟩ :=
        hbiModelManifestAdd_step grant s.heap s.manifest entry
      obtain ⟨hnew, hrows⟩ := Classical.not_imp.mp hroom
      rw [ParseState.call, heq]
      unfold ParseState.blocks
      dsimp only
      rw [hblock]
      exact hstep.wraps hs.manifest_doubled hnew (not_lt.mp hrows) hs.since
  | set key value =>
      obtain ⟨h', md', r, heq, hstep, hblock⟩ :=
        hbiModelMetadataSet_step grant s.heap s.metadata key value
      obtain ⟨hnew, hrows⟩ := Classical.not_imp.mp hroom
      rw [ParseState.call, heq]
      refine Ledger.Dangling.mono ?_ (ParseState.blocks_perm _ rest).symm.subset
      dsimp only
      rw [hblock]
      exact hstep.wraps hs.metadata_doubled hnew (not_lt.mp hrows)
        (hs.since.perm (s.blocks_perm rest))

/-- The calls of a handler keep the account, or leave something dangling for good. -/
theorem ParseState.Sound.run (hs : s.Sound base rest) (calls : List ParseCall) :
    (Runs.Along (ParseState.call grant) ParseState.Room s calls ∧
      (Runs.final (ParseState.call grant) s calls).Sound base rest) ∨
    (¬ Runs.Along (ParseState.call grant) ParseState.Room s calls ∧
      base.Dangling (Runs.final (ParseState.call grant) s calls).heap.ledger
        ((Runs.final (ParseState.call grant) s calls).blocks ++ rest)) := by
  induction calls generalizing s with
  | nil => exact Or.inl ⟨trivial, hs⟩
  | cons c calls ih =>
      by_cases hroom : s.Room c
      · rcases ih (hs.call hroom) with ⟨halong, hfinal⟩ | ⟨hnot, hdangling⟩
        · exact Or.inl ⟨⟨hroom, halong⟩, hfinal⟩
        · exact Or.inr ⟨fun halong => hnot halong.2, hdangling⟩
      · refine Or.inr ⟨fun halong => hroom halong.1, ?_⟩
        have hstart := @ParseState.Sound.dangling grant _ _ _ hs _ hroom
        exact @Runs.final_of_step _ _ (ParseState.call grant)
          (fun s => base.Dangling s.heap.ledger (s.blocks ++ rest))
          (fun s c hd => s.dangling_call c hd) _ hstart calls

end Calls

/-- An entry that passes the validation can be wrapped. -/
theorem validateEntry_wrapped {i : Nat} {e : ModelTensorEntry} (h : validateEntry i e = .ok ())
    (hreserved : hbiDtypeIsReserved e.dtype = false) {data : Nat} (hdata : data ≠ 0)
    (halign : hbiDtypeAlign e.dtype ∣ data) :
    ∃ t, hbiTensorWrap e.dtype e.shape data e.byteSize = .ok t := by
  unfold validateEntry at h
  rw [Result.ite_errSet_eq_ok, Result.ite_errSet_eq_ok, Result.ite_errSet_eq_ok] at h
  obtain ⟨-, hdtype, -, h⟩ := h
  cases hshape : hbiShapeValidate e.shape with
  | error f =>
      rw [hshape] at h
      cases h
  | ok u =>
      have hvalid := hbiShapeValidate_eq_ok.mp hshape
      rw [hshape] at h
      dsimp only at h
      rw [hvalid.elemCount] at h
      dsimp only at h
      cases hneed : hbiDtypePackedNbytes e.dtype e.shape.dims.prod with
      | error f =>
          rw [hneed] at h
          cases h
      | ok need =>
          rw [hneed] at h
          dsimp only at h
          rw [Result.ite_errSet_eq_ok] at h
          exact tensorWrapImpl_eq_ok false hdata (Bool.eq_true_of_not_eq_false hdtype)
            hreserved hvalid halign hneed (not_lt.mp h.1)

theorem validateEntries_eq_ok {i : Nat} {es : List ModelTensorEntry}
    (h : validateEntries i es = .ok ()) : ∀ e ∈ es, ∃ j, validateEntry j e = .ok () := by
  induction es generalizing i with
  | nil => exact fun e he => absurd he List.not_mem_nil
  | cons e es ih =>
      rw [validateEntries, Result.bind_eq_ok] at h
      obtain ⟨⟨⟩, hhead, htail⟩ := h
      intro e' he'
      rcases List.mem_cons.mp he' with rfl | he'
      · exact ⟨i, hhead⟩
      · exact ih htail e' he'

/-- The sum in 64 bits is the sum, unless it wraps. -/
theorem bytesIndexed_eq (entries : List ModelTensorEntry) :
    bytesIndexed entries = (entries.map (·.byteSize)).sum % sizeTSize := by
  have hloop : ∀ (es : List ModelTensorEntry) (acc : Nat), acc < sizeTSize →
      es.foldl (fun total e => (total + e.byteSize) % sizeTSize) acc =
        (acc + (es.map (·.byteSize)).sum) % sizeTSize := by
    intro es
    induction es with
    | nil => exact fun acc hacc => (Nat.mod_eq_of_lt hacc).symm
    | cons e es ih =>
        intro acc hacc
        rw [List.foldl_cons, ih _ (Nat.mod_lt _ (by decide)), Nat.mod_add_mod, List.map_cons,
          List.sum_cons, Nat.add_assoc]
  rw [bytesIndexed, hloop entries 0 (by decide), Nat.zero_add]

section Exits

variable {grant : Nat → Bool} {clock : Nat → UInt64} {base : Ledger Nat} {h : BlockHeap}
  {ids : List Nat} {session : LoadSession} {options : LoadOptions}

theorem strictLoad_error {e : Failure} :
    StrictLoad base ⟨h, none, .error e⟩ ↔ base.Since h.ledger [] := by
  constructor
  · rintro (⟨_, _, _, hs⟩ | ⟨_, hstatus, _⟩)
    · exact hs
    · cases hstatus
  · exact fun hs => Or.inl ⟨e, rfl, rfl, hs⟩

theorem strictLoad_ok :
    StrictLoad base ⟨h, some session, .ok ()⟩ ↔
      base.Since h.ledger session.blocks ∧ session.Usable := by
  constructor
  · rintro (⟨_, hstatus, _⟩ | ⟨_, _, hout, hs⟩)
    · cases hstatus
    · cases hout
      exact hs
  · exact fun hs => Or.inr ⟨session, rfl, rfl, hs⟩

theorem hbiModelLoadSessionDestroy_eq (h : BlockHeap) (session : LoadSession) :
    hbiModelLoadSessionDestroy h session = session.blocks.foldl BlockHeap.free h := rfl

/-- A session that owns its blocks releases them all. -/
theorem hbiModelLoadSessionDestroy_since (hs : base.Since h.ledger session.blocks) :
    base.Since (hbiModelLoadSessionDestroy h session).ledger [] := by
  rw [hbiModelLoadSessionDestroy_eq]
  apply BlockHeap.freeAll_since
  rw [List.append_nil]
  exact hs

/-- Releasing what is dead already is a double free. -/
theorem hbiModelLoadSessionDestroy_dangling (hd : base.Dangling h.ledger session.blocks) :
    ¬ base.Since (hbiModelLoadSessionDestroy h session).ledger [] := by
  rw [hbiModelLoadSessionDestroy_eq]
  apply Ledger.Dangling.not_since
  apply BlockHeap.freeAll_dangling
  rw [List.append_nil]
  exact hd

theorem completeLoad_strict_iff (hs : base.Since h.ledger session.blocks)
    (hnames : (session.manifest.entries.map (·.name)).Nodup)
    (hvalid : hbiModelManifestValidate session.manifest = .ok ()) :
    StrictLoad base (completeLoad clock h session) ↔
      (session.manifest.entries.map (·.byteSize)).sum < sizeTSize := by
  unfold completeLoad
  dsimp only
  rw [strictLoad_ok]
  constructor
  · rintro ⟨-, -, -, hbytes, -, -⟩
    dsimp only at hbytes
    rw [← hbytes, bytesIndexed_eq]
    exact Nat.mod_lt _ (by decide)
  · intro hlt
    refine ⟨hs, rfl, rfl, ?_, hnames, ?_⟩
    · dsimp only
      rw [bytesIndexed_eq, Nat.mod_eq_of_lt hlt]
    · intro e he hreserved data hdata halign
      obtain ⟨j, hj⟩ := validateEntries_eq_ok hvalid e he
      exact validateEntry_wrapped hj hreserved hdata halign

theorem validateLoad_strict_iff (hstrict : options.flags &&& hbiLoadStrict ≠ 0)
    (hs : base.Since h.ledger session.blocks)
    (hnames : (session.manifest.entries.map (·.name)).Nodup) :
    StrictLoad base (validateLoad clock options h session) ↔
      (hbiModelManifestValidate session.manifest = .ok () →
        (session.manifest.entries.map (·.byteSize)).sum < sizeTSize) := by
  unfold validateLoad
  dsimp only
  cases hvalid : hbiModelManifestValidate session.manifest with
  | error e =>
      dsimp only
      rw [if_pos hstrict, strictLoad_error]
      refine iff_of_true (hbiModelLoadSessionDestroy_since hs) fun hok => ?_
      cases hok
  | ok u =>
      dsimp only
      refine Iff.trans (completeLoad_strict_iff ?_ ?_ ?_)
        ⟨fun hlt _ => hlt, fun himp => himp rfl⟩
      · exact hs
      · exact hnames
      · exact hvalid

theorem validateLoad_dangling (hstrict : options.flags &&& hbiLoadStrict ≠ 0)
    (hd : base.Dangling h.ledger session.blocks) :
    ¬ StrictLoad base (validateLoad clock options h session) := by
  unfold validateLoad
  dsimp only
  cases hbiModelManifestValidate session.manifest with
  | error e =>
      dsimp only
      rw [if_pos hstrict, strictLoad_error]
      exact hbiModelLoadSessionDestroy_dangling hd
  | ok u =>
      unfold completeLoad
      dsimp only
      rw [strictLoad_ok]
      exact fun hok => hd.not_since hok.1

theorem parseLoad_strict_iff (hstrict : options.flags &&& hbiLoadStrict ≠ 0)
    (path : List UInt8) (handler : FormatHandler)
    (hstart : ParseState.Sound base [session.block] ⟨h, session.manifest, session.metadata⟩) :
    StrictLoad base (parseLoad grant clock options path handler h session) ↔
      (handler.parseMetadata path).Fits grant ⟨h, session.manifest, session.metadata⟩ := by
  unfold parseLoad
  dsimp only
  rcases @ParseState.Sound.run grant _ _ _ hstart (handler.parseMetadata path).calls with
    ⟨halong, hfinal⟩ | ⟨hnot, hdangling⟩
  · cases hstatus : (handler.parseMetadata path).status with
    | error e =>
        dsimp only
        rw [strictLoad_error]
        refine iff_of_true (hbiModelLoadSessionDestroy_since hfinal.since) ⟨halong, ?_⟩
        intro hok
        rw [hstatus] at hok
        cases hok
    | ok u =>
        dsimp only
        rw [validateLoad_strict_iff hstrict hfinal.since hfinal.names_nodup]
        constructor
        · exact fun hbytes => ⟨halong, fun _ => hbytes⟩
        · exact fun hfits => hfits.bytes hstatus
  · refine iff_of_false ?_ fun hfits => hnot hfits.room
    cases (handler.parseMetadata path).status with
    | error e =>
        dsimp only
        rw [strictLoad_error]
        exact hbiModelLoadSessionDestroy_dangling hdangling
    | ok u =>
        dsimp only
        exact validateLoad_dangling hstrict hdangling

theorem hbiModelManifestCreate_since (hs : base.Since h.ledger ids) :
    (∃ h' e, hbiModelManifestCreate grant h = (h', .error e) ∧ base.Since h'.ledger ids) ∨
    ∃ h' block entriesBlock, hbiModelManifestCreate grant h =
      (h', .ok (.create block entriesBlock)) ∧
        base.Since h'.ledger (entriesBlock :: block :: ids) := by
  unfold hbiModelManifestCreate
  obtain ⟨h₁, heq, hs₁⟩ | ⟨h₁, block, heq, hs₁⟩ :=
    @BlockHeap.alloc_since grant _ _ _ hs sizeofModelManifest
  · rw [heq]
    exact Or.inl ⟨_, _, rfl, hs₁⟩
  · rw [heq]
    dsimp only
    obtain ⟨h₂, heq₂, hs₂⟩ | ⟨h₂, entriesBlock, heq₂, hs₂⟩ := @BlockHeap.alloc_since
      grant _ _ _ hs₁ (sizeofTensorEntry * (Manifest.create 0 0).capacity)
    · rw [heq₂]
      exact Or.inl ⟨_, _, rfl, BlockHeap.free_since hs₂⟩
    · rw [heq₂]
      exact Or.inr ⟨_, _, _, rfl, hs₂⟩

theorem hbiModelMetadataCreate_since (hs : base.Since h.ledger ids) :
    (∃ h' e, hbiModelMetadataCreate grant h = (h', .error e) ∧ base.Since h'.ledger ids) ∨
    ∃ h' block pairsBlock, hbiModelMetadataCreate grant h =
      (h', .ok (.create block pairsBlock)) ∧
        base.Since h'.ledger (pairsBlock :: block :: ids) := by
  unfold hbiModelMetadataCreate
  obtain ⟨h₁, heq, hs₁⟩ | ⟨h₁, block, heq, hs₁⟩ :=
    @BlockHeap.alloc_since grant _ _ _ hs sizeofModelMetadata
  · rw [heq]
    exact Or.inl ⟨_, _, rfl, hs₁⟩
  · rw [heq]
    dsimp only
    obtain ⟨h₂, heq₂, hs₂⟩ | ⟨h₂, pairsBlock, heq₂, hs₂⟩ := @BlockHeap.alloc_since
      grant _ _ _ hs₁ (sizeofMetadataPair * (MetadataTable.create 0 0).capacity)
    · rw [heq₂]
      exact Or.inl ⟨_, _, rfl, BlockHeap.free_since hs₂⟩
    · rw [heq₂]
      exact Or.inr ⟨_, _, _, rfl, hs₂⟩

/-- A new session owns five blocks, and its tables are empty. -/
theorem loadSessionCreate_sound (grant : Nat → Bool) (h : BlockHeap) :
    (∃ h' e, loadSessionCreate grant h = (h', .error e) ∧ h.ledger.Since h'.ledger []) ∨
    ∃ h' session, loadSessionCreate grant h = (h', .ok session) ∧
      ParseState.Sound h.ledger [session.block] ⟨h', session.manifest, session.metadata⟩ := by
  unfold loadSessionCreate
  obtain ⟨h₁, heq, hs₁⟩ | ⟨h₁, block, heq, hs₁⟩ :=
    @BlockHeap.alloc_since grant _ _ _ (Ledger.Since.refl h.ledger) sizeofLoadSession
  · rw [heq]
    exact Or.inl ⟨_, _, rfl, hs₁⟩
  rw [heq]
  dsimp only
  obtain ⟨h₂, e, heq₂, hs₂⟩ | ⟨h₂, mBlock, entriesBlock, heq₂, hs₂⟩ :=
    @hbiModelManifestCreate_since grant _ _ _ hs₁
  · rw [heq₂]
    exact Or.inl ⟨_, _, rfl, BlockHeap.free_since hs₂⟩
  rw [heq₂]
  dsimp only
  obtain ⟨h₃, e, heq₃, hs₃⟩ | ⟨h₃, mdBlock, pairsBlock, heq₃, hs₃⟩ :=
    @hbiModelMetadataCreate_since grant _ _ _ hs₂
  · rw [heq₃]
    exact Or.inl ⟨_, _, rfl,
      @BlockHeap.freeAll_since _ _ [] [entriesBlock, mBlock, block] hs₃⟩
  · rw [heq₃]
    refine Or.inr ⟨_, _, rfl, ?_, List.nodup_nil, ⟨Nat.zero_le _, 6, by decide, rfl⟩,
      ⟨Nat.zero_le _, 5, by decide, rfl⟩⟩
    exact hs₃.perm (List.perm_append_comm_assoc [pairsBlock, mdBlock] [entriesBlock, mBlock]
      [block])

end Exits

/-- A strict load keeps its promise exactly when the handler asks no table of `2 ^ 31` rows
for one more and registers sizes whose sum is a 64-bit number. -/
theorem hbi_model_load_strict_iff (grant : Nat → Bool) (clock : Nat → UInt64)
    {options : LoadOptions} (hstrict : options.flags &&& hbiLoadStrict ≠ 0)
    (handlers : List FormatHandler) (h : BlockHeap) :
    StrictLoad h.ledger (hbiModelLoad grant clock options handlers h) ↔
      LoadFits grant options handlers h := by
  unfold hbiModelLoad LoadFits
  dsimp only
  by_cases hpath : options.modelPath.getD [] = []
  · rw [if_pos hpath, errSet, strictLoad_error]
    exact iff_of_true (Ledger.Since.refl _) fun _ _ _ hne => absurd hpath hne
  rw [if_neg hpath]
  obtain ⟨h₁, e, heq, hs⟩ | ⟨h₁, session, heq, hs⟩ := loadSessionCreate_sound grant h
  · rw [heq]
    dsimp only
    rw [strictLoad_error]
    refine iff_of_true hs fun _ _ _ _ hcreated => ?_
    cases hcreated
  rw [heq]
  dsimp only
  by_cases hfmt : loadFormat options handlers (options.modelPath.getD []) = .unknown
  · rw [if_pos hfmt, errSet, strictLoad_error]
    exact iff_of_true (hbiModelLoadSessionDestroy_since hs.since)
      fun _ _ _ _ _ hknown => absurd hfmt hknown
  rw [if_neg hfmt]
  cases hfind : hbiFormatHandlerFind handlers
      (loadFormat options handlers (options.modelPath.getD [])) with
  | none =>
      dsimp only
      rw [errSet, strictLoad_error]
      refine iff_of_true (hbiModelLoadSessionDestroy_since hs.since)
        fun _ _ _ _ _ _ hsome => ?_
      cases hsome
  | some handler =>
      dsimp only
      refine Iff.trans (parseLoad_strict_iff hstrict (options.modelPath.getD []) handler ?_) ?_
      · exact hs
      constructor
      · rintro hfits h' session' handler' _ hcreated _ hsome
        cases hcreated
        cases hsome
        exact hfits
      · exact fun hall => hall h₁ session handler hpath rfl hfmt rfl

/-- A tensor of one element whose size is given as `2 ^ 63`. -/
def hugeEntry (name : List UInt8) : ModelTensorEntry :=
  ⟨name, ⟨[1]⟩, .fp32, 0, 2 ^ 63, 4, 0, .default⟩

/-- A handler that registers the given tensors and reports success. -/
def listingHandler (entries : List ModelTensorEntry) : FormatHandler :=
  ⟨.gguf, fun _ => true, fun _ => ⟨entries.map .add, .ok ()⟩⟩

def strictOptions : LoadOptions := ⟨some [109], .unknown, 2⟩

theorem hbi_model_load_strict_listing :
    StrictLoad BlockHeap.empty.ledger (hbiModelLoad (fun _ => true) (fun _ => 0) strictOptions
        [listingHandler [hugeEntry [97]]] .empty) ↔
      LoadFits (fun _ => true) strictOptions [listingHandler [hugeEntry [97]]] .empty :=
  hbi_model_load_strict_iff _ _ (by decide) _ _

/-- Two such tensors add up to no bytes at all. -/
theorem hbi_model_load_strict_wraps :
    ¬ StrictLoad BlockHeap.empty.ledger (hbiModelLoad (fun _ => true) (fun _ => 0) strictOptions
        [listingHandler [hugeEntry [97], hugeEntry [98]]] .empty) := by
  have hbytes : ((hbiModelLoad (fun _ => true) (fun _ => 0) strictOptions
      [listingHandler [hugeEntry [97], hugeEntry [98]]] .empty).outSession.map fun session =>
        (session.stats.bytesIndexed, (session.manifest.entries.map (·.byteSize)).sum)) =
      some (0, 2 ^ 64) := by decide +kernel
  rintro (⟨_, _, hnone, _⟩ | ⟨session, _, hsome, _, husable⟩)
  · rw [hnone] at hbytes
    cases hbytes
  · rw [hsome, Option.map_some, husable.bytes_indexed] at hbytes
    have hpair := Option.some.inj hbytes
    have hfirst := congrArg Prod.fst hpair
    have hsecond := congrArg Prod.snd hpair
    exact absurd (hfirst.symm.trans hsecond) (by decide)

end Hummingbird

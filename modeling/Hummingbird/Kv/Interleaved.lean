import Hummingbird.Kv.Table

/-!
Calls of several threads on one manager, each section under the mutex being one step. A create
runs in two sections: the first looks at the capacity, the second enters the context. The
allocations between them touch nothing that is shared.
-/

namespace Hummingbird

open SwapRemove

/-- `hbi_kv_context_create` after its first section. -/
def enterContext (mgr : KvManager) (maxTokens : Nat) (dtype : Dtype) (kShape vShape : Shape)
    (blocks : ContextBlocks) : Result (KvManager × Nat) :=
  if blocks.handle = false then errSet .oom "context create: alloc failed"
  else do
    let pages ← hbiKvAllocatorContiguousAllocate maxTokens dtype kShape vShape
      blocks.toPageBlocks
    return (mgr.register (freshContext maxTokens dtype kShape vShape pages), mgr.heap.length)

theorem hbiKvContextCreate_sections (mgr : KvManager) (maxTokens : Nat) (dtype : Dtype)
    (kShape vShape : Shape) (blocks : ContextBlocks) :
    hbiKvContextCreate mgr maxTokens dtype kShape vShape blocks =
      if mgr.contexts.length ≥ hbiKvMaxContexts then
        errSet .oom "context create: max contexts reached"
      else enterContext mgr maxTokens dtype kShape vShape blocks := rfl

/-- The manager and the threads that are between the two sections of a create. -/
structure SharedManager (ι : Type) where
  manager : KvManager
  inFlight : Finset ι

def SharedManager.empty {ι : Type} : SharedManager ι := ⟨KvManager.empty, ∅⟩

def SharedManager.numContexts {ι : Type} (s : SharedManager ι) : Nat := s.manager.contexts.length

/-- A section of a thread. A clone runs the sections of a create. -/
inductive KvSection (ι : Type) where
  | check (t : ι)
  | enter (t : ι) (maxTokens : UInt32) (dtype : Dtype) (kShape vShape : Shape)
      (blocks : ContextBlocks)
  | remove (t : ι) (h : Nat)

variable {ι : Type} [DecidableEq ι]

/-- The state after a section. A section that its thread cannot run does nothing. -/
def KvSection.next (s : SharedManager ι) : KvSection ι → SharedManager ι
  | .check t =>
      if t ∈ s.inFlight then s
      else if s.numContexts ≥ hbiKvMaxContexts then s
      else { s with inFlight := insert t s.inFlight }
  | .enter t maxTokens dtype kShape vShape blocks =>
      if t ∈ s.inFlight then
        match enterContext s.manager maxTokens.toNat dtype kShape vShape blocks with
        | .ok (mgr, _) => ⟨mgr, s.inFlight.erase t⟩
        | .error _ => { s with inFlight := s.inFlight.erase t }
      else s
  | .remove t h =>
      if t ∈ s.inFlight then s
      else
        match s.manager.live h with
        | none => s
        | some ctx => { s with manager := hbiKvContextDestroy s.manager h ctx }

/-- Where a section stores a handle. -/
def KvSection.storesAt (s : SharedManager ι) : KvSection ι → Option Nat
  | .enter t maxTokens dtype kShape vShape blocks =>
      if t ∈ s.inFlight then
        match enterContext s.manager maxTokens.toNat dtype kShape vShape blocks with
        | .ok _ => some s.numContexts
        | .error _ => none
      else none
  | _ => none

/-- The table has room for the contexts after a section and for the handle that it stores. -/
def KvSection.Bounded (s : SharedManager ι) (e : KvSection ι) : Prop :=
  (e.next s).numContexts ≤ hbiKvMaxContexts ∧
    ∀ i, e.storesAt s = some i → i < hbiKvMaxContexts

/-- A check that passes leaves room for the creates that have passed theirs before. -/
def KvSection.Room (s : SharedManager ι) : KvSection ι → Prop
  | .check t => t ∉ s.inFlight → s.numContexts < hbiKvMaxContexts →
      s.numContexts + s.inFlight.card < hbiKvMaxContexts
  | _ => True

theorem enterContext_eq_ok {mgr mgr' : KvManager} {maxTokens h : Nat} {dtype : Dtype}
    {kShape vShape : Shape} {blocks : ContextBlocks}
    (henter : enterContext mgr maxTokens dtype kShape vShape blocks = .ok (mgr', h)) :
    mgr'.contexts.length = mgr.contexts.length + 1 := by
  simp only [enterContext, Result.ite_errSet_eq_ok, Result.bind_eq_ok, pure, Except.pure,
    Except.ok.injEq, Prod.mk.injEq] at henter
  obtain ⟨-, pages, -, rfl, -⟩ := henter
  simp [KvManager.register]

theorem dropContext_length_le (contexts : List Nat) (h : Nat) :
    (dropContext contexts h).length ≤ contexts.length := by
  rw [dropContext_eq]
  by_cases hmem : h ∈ contexts
  · rw [(removeFrom_perm hmem).length_eq]
    exact List.length_erase_le
  · rw [removeFrom, if_neg hmem]

/-- What a section does to the number of contexts and of creates in flight. -/
inductive SectionCount (s : SharedManager ι) : KvSection ι → Nat → Nat → Prop
  | kept {e} : SectionCount s e s.numContexts s.inFlight.card
  | passed {t} (hnew : t ∉ s.inFlight) (hroom : s.numContexts < hbiKvMaxContexts) :
      SectionCount s (.check t) s.numContexts (s.inFlight.card + 1)
  | gaveUp {e n} (hcard : n + 1 = s.inFlight.card) : SectionCount s e s.numContexts n
  | entered {e n} (hcard : n + 1 = s.inFlight.card) : SectionCount s e (s.numContexts + 1) n
  | removed {e n} (hle : n ≤ s.numContexts) : SectionCount s e n s.inFlight.card

theorem KvSection.count (s : SharedManager ι) (e : KvSection ι) :
    SectionCount s e (e.next s).numContexts (e.next s).inFlight.card := by
  cases e with
  | check t =>
      unfold KvSection.next
      dsimp only
      by_cases hin : t ∈ s.inFlight
      · rw [if_pos hin]
        exact .kept
      · by_cases hfull : s.numContexts ≥ hbiKvMaxContexts
        · rw [if_neg hin, if_pos hfull]
          exact .kept
        · rw [if_neg hin, if_neg hfull]
          dsimp only
          rw [Finset.card_insert_of_notMem hin]
          exact .passed hin (not_le.mp hfull)
  | enter t maxTokens dtype kShape vShape blocks =>
      unfold KvSection.next
      dsimp only
      by_cases hin : t ∈ s.inFlight
      · have hcard : (s.inFlight.erase t).card + 1 = s.inFlight.card :=
          Finset.card_erase_add_one hin
        rw [if_pos hin]
        cases henter : enterContext s.manager maxTokens.toNat dtype kShape vShape blocks with
        | error e => exact .gaveUp hcard
        | ok res =>
            have hlength := enterContext_eq_ok henter
            change SectionCount s _ res.1.contexts.length _
            rw [hlength]
            exact .entered hcard
      · rw [if_neg hin]
        exact .kept
  | remove t h =>
      unfold KvSection.next
      dsimp only
      by_cases hin : t ∈ s.inFlight
      · rw [if_pos hin]
        exact .kept
      · rw [if_neg hin]
        cases hlive : s.manager.live h with
        | none => exact .kept
        | some ctx => exact .removed (dropContext_length_le s.manager.contexts h)

/-- The contexts and the creates in flight together fit the table. -/
def SharedManager.Reserved (s : SharedManager ι) : Prop :=
  s.numContexts + s.inFlight.card ≤ hbiKvMaxContexts

theorem KvSection.reserved_next {s : SharedManager ι} (hs : s.Reserved) {e : KvSection ι}
    (hroom : e.Room s) : (e.next s).Reserved := by
  unfold SharedManager.Reserved at *
  have hcount := e.count s
  generalize (e.next s).numContexts = contexts at *
  generalize (e.next s).inFlight.card = inFlight at *
  cases hcount with
  | kept => exact hs
  | passed hnew hlt => exact hroom hnew hlt
  | gaveUp hcard => omega
  | entered hcard => omega
  | removed hle => omega

theorem KvSection.storesAt_lt {s : SharedManager ι} (hs : s.Reserved) {e : KvSection ι} {i : Nat}
    (hstore : e.storesAt s = some i) : i < hbiKvMaxContexts := by
  unfold SharedManager.Reserved at hs
  cases e with
  | check t => cases hstore
  | remove t h => cases hstore
  | enter t maxTokens dtype kShape vShape blocks =>
      unfold KvSection.storesAt at hstore
      dsimp only at hstore
      by_cases hin : t ∈ s.inFlight
      · have hpos : 0 < s.inFlight.card := Finset.card_pos.mpr ⟨t, hin⟩
        rw [if_pos hin] at hstore
        cases henter : enterContext s.manager maxTokens.toNat dtype kShape vShape blocks with
        | error e =>
            rw [henter] at hstore
            cases hstore
        | ok res =>
            rw [henter] at hstore
            obtain rfl := Option.some.inj hstore
            omega
      · rw [if_neg hin] at hstore
        cases hstore

theorem KvSection.next_check {s : SharedManager ι} {t : ι} (hidle : t ∉ s.inFlight)
    (hfree : s.numContexts < hbiKvMaxContexts) :
    (KvSection.check t).next s = ⟨s.manager, insert t s.inFlight⟩ := by
  unfold KvSection.next
  dsimp only
  rw [if_neg hidle, if_neg (not_le.mpr hfree)]

/-- A create that no other section comes between is the sequential one. -/
theorem KvSection.next_alone {s : SharedManager ι} {t : ι} (hidle : t ∉ s.inFlight)
    {maxTokens : UInt32} {dtype : Dtype} {kShape vShape : Shape} {blocks : ContextBlocks}
    {mgr : KvManager} {h : Nat}
    (hcreate : hbiKvContextCreate s.manager maxTokens.toNat dtype kShape vShape blocks =
      .ok (mgr, h)) :
    (KvSection.enter t maxTokens dtype kShape vShape blocks).next ((KvSection.check t).next s) =
      ⟨mgr, s.inFlight⟩ := by
  rw [hbiKvContextCreate_sections, Result.ite_errSet_eq_ok] at hcreate
  rw [KvSection.next_check hidle (not_le.mp hcreate.1)]
  unfold KvSection.next
  dsimp only
  rw [if_pos (Finset.mem_insert_self t _), hcreate.2]
  dsimp only
  rw [Finset.erase_insert hidle]

/-- The second section of a create that gets its memory. -/
def smallEntry (t : ι) : KvSection ι := .enter t 8 .int8 ⟨[8]⟩ ⟨[8]⟩ smallBlocks

theorem smallEntry_next {s : SharedManager ι} {t : ι} (hin : t ∈ s.inFlight) :
    ((smallEntry t).next s).numContexts = s.numContexts + 1 ∧
      ((smallEntry t).next s).inFlight = s.inFlight.erase t := by
  have hok : ∃ res, enterContext s.manager (8 : UInt32).toNat .int8 ⟨[8]⟩ ⟨[8]⟩ smallBlocks =
      .ok res := ⟨_, rfl⟩
  obtain ⟨res, henter⟩ := hok
  have hlength := enterContext_eq_ok henter
  unfold smallEntry KvSection.next
  dsimp only
  rw [if_pos hin, henter]
  exact ⟨hlength, rfl⟩

/-- Creates in flight that all get their memory enter one context each. -/
theorem smallEntries_final {s : SharedManager ι} {ts : List ι} (hnodup : ts.Nodup)
    (hin : ∀ t ∈ ts, t ∈ s.inFlight) :
    (Runs.final KvSection.next s (ts.map smallEntry)).numContexts =
      s.numContexts + ts.length := by
  induction ts generalizing s with
  | nil => rfl
  | cons t ts ih =>
      obtain ⟨hnew, hrest⟩ := List.nodup_cons.mp hnodup
      obtain ⟨hcount, hleft⟩ := smallEntry_next (hin t (by simp))
      have hstill : ∀ u ∈ ts, u ∈ ((smallEntry t).next s).inFlight := by
        intro u hu
        rw [hleft]
        have hne : u ≠ t := fun heq => hnew (heq ▸ hu)
        exact Finset.mem_erase.mpr ⟨hne, hin u (List.mem_cons_of_mem t hu)⟩
      change (Runs.final _ ((smallEntry t).next s) _).numContexts = _
      rw [ih hrest hstill, hcount, List.length_cons]
      omega

/-- A check that passes without room for the creates in flight is followed, when all of them get
their memory, by more contexts than the table has room for. -/
theorem KvSection.overflow_of_not_room {s : SharedManager ι} {t : ι}
    (hroom : ¬(KvSection.check t).Room s) :
    hbiKvMaxContexts < (Runs.final KvSection.next ((KvSection.check t).next s)
      (((KvSection.check t).next s).inFlight.toList.map smallEntry)).numContexts := by
  unfold KvSection.Room at hroom
  push Not at hroom
  obtain ⟨hidle, hlt, hfull⟩ := hroom
  rw [smallEntries_final (Finset.nodup_toList _) fun u hu => Finset.mem_toList.mp hu,
    Finset.length_toList, KvSection.next_check hidle hlt]
  dsimp only
  rw [Finset.card_insert_of_notMem hidle]
  change _ < s.numContexts + _
  omega

theorem KvSection.numContexts_le_of_bounded {s : SharedManager ι} {run : List (KvSection ι)}
    (hs : s.numContexts ≤ hbiKvMaxContexts)
    (hbounded : Runs.Along KvSection.next KvSection.Bounded s run) :
    (Runs.final KvSection.next s run).numContexts ≤ hbiKvMaxContexts :=
  @Runs.final_of_along _ _ KvSection.next (fun s => s.numContexts ≤ hbiKvMaxContexts)
    KvSection.Bounded (fun _ _ _ he => he.1) s hs run hbounded

/-- In every interleaving in which a check passes only while the table has room for the creates
in flight as well, the table never overflows. The first check that passes without that room
can be followed by sections that make it overflow. -/
theorem kv_create_interleaved (run : List (KvSection ι))
    (hroom : Runs.Along KvSection.next KvSection.Room SharedManager.empty run) :
    Runs.Along KvSection.next KvSection.Bounded SharedManager.empty run ∧
      ∀ t, ¬(KvSection.check t).Room (Runs.final KvSection.next SharedManager.empty run) →
        ∃ rest, ¬Runs.Along KvSection.next KvSection.Bounded SharedManager.empty
          (run ++ .check t :: rest) := by
  have hempty : (SharedManager.empty : SharedManager ι).Reserved := Nat.zero_le _
  constructor
  · refine @Runs.along_of_inv _ _ KvSection.next SharedManager.Reserved KvSection.Bounded
      KvSection.Room ?_ ?_ _ hempty run hroom
    · intro s e hs hpass
      have hnext : (e.next s).Reserved := KvSection.reserved_next hs hpass
      exact ⟨(Nat.le_add_right _ _).trans hnext, fun i hi => KvSection.storesAt_lt hs hi⟩
    · intro s e hs hpass
      exact KvSection.reserved_next hs hpass
  · intro t hbad
    let passed := (KvSection.check t).next (Runs.final KvSection.next SharedManager.empty run)
    have hover := KvSection.overflow_of_not_room hbad
    refine ⟨passed.inFlight.toList.map smallEntry, ?_⟩
    intro hbounded
    have hfits := KvSection.numContexts_le_of_bounded (Nat.zero_le _) hbounded
    rw [Runs.final_append] at hfits
    exact absurd hfits (not_le.mpr hover)

/-- Two threads that create at once: both checks come before both entries. -/
def alternatingRun : List (KvSection (Fin 2)) :=
  [.check 0, .check 1, smallEntry 0, smallEntry 1]

theorem kv_create_interleaved_alternating :
    Runs.Along KvSection.next KvSection.Bounded SharedManager.empty alternatingRun ∧
      (Runs.final KvSection.next SharedManager.empty alternatingRun).numContexts = 2 := by
  refine ⟨?_, by decide +kernel⟩
  exact (kv_create_interleaved alternatingRun
    ⟨fun _ _ => by decide, fun _ _ => by decide, trivial, trivial, trivial⟩).1

/-- One thread fills the table up to its last slot, then two create at once. -/
def racingRun : List (KvSection (Fin 2)) :=
  (List.replicate 1023 [KvSection.check 0, smallEntry 0]).flatten ++ alternatingRun

theorem sequential_final (n : Nat) {s : SharedManager (Fin 2)} (hidle : s.inFlight = ∅)
    (hroom : s.numContexts + n ≤ hbiKvMaxContexts) :
    (Runs.final KvSection.next s
        (List.replicate n [KvSection.check 0, smallEntry 0]).flatten).numContexts =
      s.numContexts + n ∧
    (Runs.final KvSection.next s
      (List.replicate n [KvSection.check 0, smallEntry 0]).flatten).inFlight = ∅ := by
  induction n generalizing s with
  | zero => exact ⟨rfl, hidle⟩
  | succ n ih =>
      have hpass := KvSection.next_check (s := s) (t := 0) (by simp [hidle]) (by omega)
      obtain ⟨hcount, hleft⟩ := smallEntry_next
        (show (0 : Fin 2) ∈ ((KvSection.check 0).next s).inFlight by simp [hpass])
      have hone : ((smallEntry 0).next ((KvSection.check 0).next s)).numContexts =
          s.numContexts + 1 := by
        rw [hcount, hpass]
        rfl
      have hnone : ((smallEntry 0).next ((KvSection.check 0).next s)).inFlight = ∅ := by
        rw [hleft, hpass, hidle]
        rfl
      obtain ⟨hfinal, hleftover⟩ := ih hnone (by omega)
      exact ⟨hfinal.trans (by omega), hleftover⟩

/-- Two checks before the two entries, with one slot left or more. -/
theorem racing_final {s : SharedManager (Fin 2)} (hidle : s.inFlight = ∅)
    (hlt : s.numContexts < hbiKvMaxContexts) :
    (Runs.final KvSection.next s alternatingRun).numContexts = s.numContexts + 2 := by
  have hfirst := KvSection.next_check (s := s) (t := 0) (by simp [hidle]) hlt
  have hsecond := @KvSection.next_check _ _ ⟨s.manager, insert 0 s.inFlight⟩ 1 (by simp [hidle])
    hlt
  have hboth := @smallEntries_final _ _ ⟨s.manager, insert 1 (insert 0 s.inFlight)⟩ [0, 1]
    (by decide) (by simp)
  have hchecks : Runs.final KvSection.next s [.check 0, .check 1] =
      ⟨s.manager, insert 1 (insert 0 s.inFlight)⟩ := by
    rw [Runs.final, List.foldl_cons, List.foldl_cons, List.foldl_nil, hfirst, hsecond]
  have hsplit : alternatingRun = [.check 0, .check 1] ++ [(0 : Fin 2), 1].map smallEntry := rfl
  rw [hsplit, Runs.final_append, hchecks, hboth]
  rfl

theorem kv_create_racing :
    ¬Runs.Along KvSection.next KvSection.Bounded SharedManager.empty racingRun := by
  intro hbounded
  have hfits := KvSection.numContexts_le_of_bounded (Nat.zero_le _) hbounded
  have hroom : (SharedManager.empty : SharedManager (Fin 2)).numContexts + 1023 ≤
      hbiKvMaxContexts := by decide
  obtain ⟨hcount, hidle⟩ := sequential_final 1023 (s := SharedManager.empty) rfl hroom
  have hlt : (Runs.final KvSection.next (SharedManager.empty : SharedManager (Fin 2))
      (List.replicate 1023 [KvSection.check 0, smallEntry 0]).flatten).numContexts <
        hbiKvMaxContexts := by
    rw [hcount]
    decide
  unfold racingRun at hfits
  rw [Runs.final_append, racing_final hidle hlt, hcount] at hfits
  exact absurd hfits (by decide)

end Hummingbird

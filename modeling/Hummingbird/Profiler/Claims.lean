import Hummingbird.Profiler.Election

/-!
The table of the profiler while threads look names up and claim slots. A slot is claimed by
the one thread in the section, after it has found the name nowhere, so a name never has two
slots; outside the section the claimed part of the table only grows.
-/

namespace Hummingbird

namespace ProfState

variable (s : ProfState)

/-- A claimed slot carries the name. -/
def Named (i : Nat) (name : List UInt8) : Prop := i < s.slotCount ∧ s.carries i name = true

def Absent (name : List UInt8) : Prop := ∀ i < s.slotCount, s.carries i name = false

/-- The table is full without the name. -/
def Shut (name : List UInt8) : Prop := s.slotCount = hbiProfMaxNames ∧ s.Absent name

/-- A step adds to the table at most. -/
structure Grows (s' : ProfState) : Prop where
  count : s.slotCount ≤ s'.slotCount
  bound : s'.slotCount ≤ hbiProfMaxNames
  carries : ∀ i < s.slotCount, ∀ name, s'.carries i name = s.carries i name

/-- A step leaves the names alone, and the slot that is claimed next. -/
structure Keeps (s' : ProfState) : Prop where
  count : s'.slotCount = s.slotCount
  carries : ∀ i < s.slotCount, ∀ name, s'.carries i name = s.carries i name
  spare : s'.slots.getD s.slotCount .unclaimed = s.slots.getD s.slotCount .unclaimed

end ProfState

/-- What a thread in the section knows of the table. -/
def ClaimPc.Stands (s : ProfState) (r : Recording) : ClaimPc → Prop
  | .rescanning claimed i =>
      claimed = s.slotCount ∧ ∀ j < i, j < claimed → s.carries j r.name = false
  | .filling claimed => claimed = s.slotCount ∧ claimed < hbiProfMaxNames ∧ s.Absent r.name
  | .publishing claimed =>
      claimed = s.slotCount ∧ claimed < hbiProfMaxNames ∧ s.Absent r.name ∧
        s.slots.getD s.slotCount .unclaimed = .claim r
  | .overflowing | .leaving none | .unlocking none => s.Shut r.name
  | .leaving (some i) | .unlocking (some i) => s.Named i r.name
  | .locking | .acquiring | .looking => True

def ProfThread.Stands (s : ProfState) : ProfThread → Prop
  | .scanning _ claimed _ => claimed ≤ s.slotCount
  | .claiming r p => p.Stands s r
  | .updating r i _ => s.Named i r.name
  | _ => True

/-- The table, with what the threads know of it. -/
structure ProfState.Tabled (s : ProfState) : Prop where
  length : s.slots.length = hbiProfMaxNames
  bound : s.slotCount ≤ hbiProfMaxNames
  claimed : ∀ i < s.slotCount, ∃ name, s.carries i name = true
  distinct : ∀ i j name, s.Named i name → s.Named j name → i = j
  stands : ∀ (t : Nat) (th : ProfThread), s.threads[t]? = some th → th.Stands s
  delivered : ∀ p ∈ s.delivered, s.Named p.1 p.2.name
  dropped : ∀ r ∈ s.dropped, s.Shut r.name

@[simp]
theorem ProfSlot.carries_iff {slot : ProfSlot} {name : List UInt8} :
    slot.carries name = true ↔ slot.name = some name ∧ slot.hash = profFnv1a name := by
  simp [ProfSlot.carries, and_comm]

theorem ProfSlot.claim_carries {r : Recording} {name : List UInt8} :
    (ProfSlot.claim r).carries name = true ↔ r.name = name := by
  rw [ProfSlot.carries_iff]
  constructor
  · rintro ⟨hname, -⟩
    exact Option.some.inj hname
  · rintro rfl
    exact ⟨rfl, rfl⟩

/-- A slot does not carry two names. -/
theorem ProfState.Named.name_eq {s : ProfState} {i : Nat} {name name' : List UInt8}
    (h : s.Named i name) (h' : s.Named i name') : name = name' := by
  have hname := (ProfSlot.carries_iff.mp h.2).1
  have hname' := (ProfSlot.carries_iff.mp h'.2).1
  exact Option.some.inj (hname.symm.trans hname')

theorem ProfState.Absent.not_named {s : ProfState} {i : Nat} {name : List UInt8}
    (h : s.Absent name) : ¬ s.Named i name := by
  rintro ⟨hi, hcarries⟩
  rw [h i hi] at hcarries
  cases hcarries

namespace ProfState.Grows

variable {s s' : ProfState}

theorem named (h : s.Grows s') {i : Nat} {name : List UInt8} (hn : s.Named i name) :
    s'.Named i name :=
  ⟨hn.1.trans_le h.count, (h.carries i hn.1 name).trans hn.2⟩

/-- A full table does not grow. -/
theorem shut (h : s.Grows s') {name : List UInt8} (hs : s.Shut name) : s'.Shut name := by
  have hcount : s'.slotCount = s.slotCount :=
    (h.bound.trans hs.1.ge).antisymm h.count
  refine ⟨hcount.trans hs.1, ?_⟩
  intro i hi
  rw [hcount] at hi
  exact (h.carries i hi name).trans (hs.2 i hi)

/-- What a thread outside the section knows stays true. -/
theorem stands (h : s.Grows s') {th : ProfThread} (hth : th.Stands s)
    (hsection : th.inSection = false) : th.Stands s' := by
  cases th with
  | scanning r claimed i => exact le_trans hth h.count
  | claiming r p =>
      cases p with
      | locking => trivial
      | acquiring => trivial
      | _ => cases hsection
  | updating r i p => exact h.named hth
  | _ => trivial

end ProfState.Grows

namespace ProfState.Keeps

variable {s s' : ProfState}

/-- Nothing that the table consists of was touched. -/
theorem of_eq (hslots : s'.slots = s.slots) (hcount : s'.slotCount = s.slotCount) :
    s.Keeps s' where
  count := hcount
  carries i _ name := by
    unfold ProfState.carries
    rw [hslots]
  spare := by rw [hslots]

theorem grows (h : s.Keeps s') (hbound : s.slotCount ≤ hbiProfMaxNames) : s.Grows s' where
  count := h.count.ge
  bound := h.count.trans_le hbound
  carries := h.carries

theorem absent (h : s.Keeps s') {name : List UInt8} (ha : s.Absent name) : s'.Absent name := by
  intro i hi
  rw [h.count] at hi
  exact (h.carries i hi name).trans (ha i hi)

theorem named_iff (h : s.Keeps s') {i : Nat} {name : List UInt8} :
    s'.Named i name ↔ s.Named i name := by
  unfold ProfState.Named
  rw [h.count]
  exact and_congr_right fun hi => by rw [h.carries i hi name]

theorem stands (h : s.Keeps s') (hbound : s.slotCount ≤ hbiProfMaxNames) {th : ProfThread}
    (hth : th.Stands s) : th.Stands s' := by
  have hgrows := h.grows hbound
  cases th with
  | claiming r p =>
      cases p with
      | rescanning claimed i =>
          obtain ⟨hclaimed, hnone⟩ := hth
          refine ⟨hclaimed.trans h.count.symm, ?_⟩
          intro j hj hjc
          exact (h.carries j (hclaimed ▸ hjc) r.name).trans (hnone j hj hjc)
      | filling claimed =>
          exact ⟨hth.1.trans h.count.symm, hth.2.1, h.absent hth.2.2⟩
      | publishing claimed =>
          obtain ⟨hclaimed, hlt, habsent, hslot⟩ := hth
          refine ⟨hclaimed.trans h.count.symm, hlt, h.absent habsent, ?_⟩
          rw [h.count, h.spare]
          exact hslot
      | overflowing => exact hgrows.shut hth
      | leaving result =>
          cases result with
          | none => exact hgrows.shut hth
          | some i => exact hgrows.named hth
      | unlocking result =>
          cases result with
          | none => exact hgrows.shut hth
          | some i => exact hgrows.named hth
      | _ => trivial
  | scanning r claimed i => exact hgrows.stands hth rfl
  | updating r i p => exact hgrows.stands hth rfl
  | _ => trivial

end ProfState.Keeps

namespace ProfState.Tabled

variable {s s' : ProfState} {t : Nat} {th th' : ProfThread}

/-- A thread moves on, and the names stay. -/
theorem keep (h : s.Tabled) (hkeeps : s.Keeps s') (hlength : s'.slots.length = s.slots.length)
    (hthreads : s'.threads = s.threads.set t th') (hstands : th'.Stands s)
    (hdelivered : ∀ p ∈ s'.delivered, p ∈ s.delivered ∨ s.Named p.1 p.2.name)
    (hdropped : ∀ r ∈ s'.dropped, r ∈ s.dropped ∨ s.Shut r.name) : s'.Tabled where
  length := hlength.trans h.length
  bound := hkeeps.count.trans_le h.bound
  claimed := by
    intro i hi
    rw [hkeeps.count] at hi
    obtain ⟨name, hname⟩ := h.claimed i hi
    exact ⟨name, (hkeeps.carries i hi name).trans hname⟩
  distinct := by
    intro i j name hi hj
    exact h.distinct i j name (hkeeps.named_iff.mp hi) (hkeeps.named_iff.mp hj)
  stands := by
    intro u th hu
    rw [hthreads] at hu
    refine hkeeps.stands h.bound ?_
    rcases List.mem_or_eq_of_mem_set (List.mem_of_getElem? hu) with hmem | rfl
    · obtain ⟨v, hv⟩ := List.mem_iff_getElem?.mp hmem
      exact h.stands v th hv
    · exact hstands
  delivered := by
    intro p hp
    exact hkeeps.named_iff.mpr ((hdelivered p hp).elim (h.delivered p) id)
  dropped := by
    intro r hr
    exact (hkeeps.grows h.bound).shut ((hdropped r hr).elim (h.dropped r) id)

/-- A thread looks at the table and moves on. -/
theorem look (h : s.Tabled) (hstands : th'.Stands s) : (s.setThread t th').Tabled :=
  h.keep (.of_eq rfl rfl) rfl rfl hstands (fun _ hp => Or.inl hp) fun _ hr => Or.inl hr

theorem returns (h : s.Tabled) {r : Recording} (result : Option Nat)
    (hresult : ClaimPc.Stands s r (.leaving result)) : (s.returns t r result).Tabled := by
  cases result with
  | none =>
      refine h.keep (.of_eq rfl rfl) rfl rfl trivial (fun _ hp => Or.inl hp) ?_
      intro r' hr
      rcases List.mem_append.mp hr with hr | hr
      · exact Or.inl hr
      · exact Or.inr (List.mem_singleton.mp hr ▸ hresult)
  | some i =>
      refine h.keep (.of_eq rfl rfl) rfl rfl hresult ?_
        fun _ hr => Or.inl hr
      intro p hp
      rcases List.mem_append.mp hp with hp | hp
      · exact Or.inl hp
      · exact Or.inr (List.mem_singleton.mp hp ▸ hresult)

/-- The thread in the section adds to the table. -/
theorem grow (h : s.Tabled) (hlatched : s.Latched) (hth : s.threads[t]? = some th)
    (hsection : th.inSection = true) (hgrows : s.Grows s')
    (hlength : s'.slots.length = s.slots.length) (hthreads : s'.threads = s.threads.set t th')
    (hstands : th'.Stands s')
    (hclaimed : ∀ i < s'.slotCount, s.slotCount ≤ i → ∃ name, s'.carries i name = true)
    (hdistinct : ∀ i j name, s'.Named i name → s'.Named j name → i = j)
    (hdelivered : s'.delivered = s.delivered) (hdropped : s'.dropped = s.dropped) :
    s'.Tabled where
  length := hlength.trans h.length
  bound := hgrows.bound
  claimed := by
    intro i hi
    by_cases hold : i < s.slotCount
    · obtain ⟨name, hname⟩ := h.claimed i hold
      exact ⟨name, (hgrows.carries i hold name).trans hname⟩
    · exact hclaimed i hi (Nat.le_of_not_lt hold)
  distinct := hdistinct
  stands := by
    intro u th'' hu
    rw [hthreads, Table.getElem?_set_of hth] at hu
    by_cases htu : t = u
    · rw [if_pos htu] at hu
      exact Option.some.inj hu ▸ hstands
    · rw [if_neg htu] at hu
      refine hgrows.stands (h.stands u th'' hu) (Bool.eq_false_iff.mpr ?_)
      intro hsection'
      exact htu (hlatched.exclusive hth hu hsection hsection')
  delivered := by
    rw [hdelivered]
    exact fun p hp => hgrows.named (h.delivered p hp)
  dropped := by
    rw [hdropped]
    exact fun r hr => hgrows.shut (h.dropped r hr)

end ProfState.Tabled

theorem ProfState.carries_set {s : ProfState} {slots : List ProfSlot} {j i : Nat}
    {slot : ProfSlot} {name : List UInt8} (hslots : slots = s.slots.set j slot)
    (hsame : j = i → slot.carries name = s.carries i name) :
    (slots.getD i .unclaimed).carries name = s.carries i name := by
  rw [hslots, Table.getD_set]
  split_ifs with hji
  · exact hsame hji.1
  · rfl

/-- An update does not touch the name of its slot. -/
theorem updateStep_names (u : ProfUpdate) (slot : ProfSlot) (spurious : Bool) (p : UpdatePc) :
    (updateStep u slot spurious p).1.name = slot.name ∧
      (updateStep u slot spurious p).1.hash = slot.hash := by
  cases p with
  | lowering cur =>
      unfold updateStep
      cases u with
      | scope ns =>
          simp only
          split_ifs <;> exact ⟨rfl, rfl⟩
      | _ => exact ⟨rfl, rfl⟩
  | raising cur =>
      unfold updateStep
      cases u with
      | scope ns =>
          simp only
          split_ifs <;> exact ⟨rfl, rfl⟩
      | _ => exact ⟨rfl, rfl⟩
  | adding => cases u <;> exact ⟨rfl, rfl⟩
  | _ => exact ⟨rfl, rfl⟩

theorem updateStep_carries (u : ProfUpdate) (slot : ProfSlot) (spurious : Bool) (p : UpdatePc)
    (name : List UInt8) :
    (updateStep u slot spurious p).1.carries name = slot.carries name := by
  obtain ⟨hname, hhash⟩ := updateStep_names u slot spurious p
  unfold ProfSlot.carries
  rw [hname, hhash]

theorem ProfState.Tabled.fill_grows {s : ProfState} {t claimed : Nat} {r : Recording}
    (h : s.Tabled) (hth : s.threads[t]? = some (.claiming r (.filling claimed))) :
    s.Grows (claimStep s t r (.filling claimed)) := by
  obtain ⟨rfl, hlt, -⟩ : claimed = s.slotCount ∧ _ := h.stands t _ hth
  refine ⟨le_rfl, hlt.le, ?_⟩
  intro i hi name
  refine ProfState.carries_set rfl ?_
  intro heq
  omega

theorem ProfState.Tabled.publish_grows {s : ProfState} {t claimed : Nat} {r : Recording}
    (h : s.Tabled) (hth : s.threads[t]? = some (.claiming r (.publishing claimed))) :
    s.Grows (claimStep s t r (.publishing claimed)) := by
  obtain ⟨rfl, hlt, -⟩ : claimed = s.slotCount ∧ _ := h.stands t _ hth
  exact ⟨Nat.le_succ _, hlt, fun _ _ _ => rfl⟩

/-- The stores into the slot behind the claimed ones. -/
theorem ProfState.Tabled.fill {s : ProfState} {t claimed : Nat} {r : Recording} (h : s.Tabled)
    (hlatched : s.Latched) (hth : s.threads[t]? = some (.claiming r (.filling claimed))) :
    (claimStep s t r (.filling claimed)).Tabled := by
  obtain ⟨rfl, hlt, habsent⟩ : claimed = s.slotCount ∧ _ := h.stands t _ hth
  have hgrows := h.fill_grows hth
  have hcarries := hgrows.carries
  refine h.grow hlatched hth rfl hgrows (List.length_set ..) rfl ?_ ?_ ?_ rfl rfl
  · refine ⟨rfl, hlt, ?_, ?_⟩
    · exact fun i hi => (hcarries i hi r.name).trans (habsent i hi)
    · exact Table.getD_set.trans (if_pos ⟨rfl, h.length ▸ hlt⟩)
  · exact fun i hi hle => absurd hi (Nat.not_lt.mpr hle)
  · intro i j name hi hj
    refine h.distinct i j name ⟨hi.1, ?_⟩ ⟨hj.1, ?_⟩
    · exact (hcarries i hi.1 name).symm.trans hi.2
    · exact (hcarries j hj.1 name).symm.trans hj.2

/-- The new slot is counted, and everybody finds it. -/
theorem ProfState.Tabled.publish {s : ProfState} {t claimed : Nat} {r : Recording}
    (h : s.Tabled) (hlatched : s.Latched)
    (hth : s.threads[t]? = some (.claiming r (.publishing claimed))) :
    (claimStep s t r (.publishing claimed)).Tabled := by
  obtain ⟨rfl, hlt, habsent, hslot⟩ : claimed = s.slotCount ∧ _ := h.stands t _ hth
  have hnew : ∀ name, s.carries s.slotCount name = true ↔ r.name = name := by
    intro name
    unfold ProfState.carries
    rw [hslot]
    exact ProfSlot.claim_carries
  refine h.grow hlatched hth rfl (h.publish_grows hth) rfl rfl ?_ ?_ ?_ rfl rfl
  · exact ⟨Nat.lt_succ_self _, (hnew r.name).mpr rfl⟩
  · intro i hi hle
    obtain rfl : i = s.slotCount := Nat.le_antisymm (Nat.le_of_lt_succ hi) hle
    exact ⟨r.name, (hnew r.name).mpr rfl⟩
  · -- the only new name is one that no other slot carries
    have hold : ∀ {i j name}, i < s.slotCount + 1 → s.carries i name = true → j = s.slotCount →
        s.carries j name = true → i = j := by
      rintro i _ name hi hname rfl hnew'
      obtain rfl := (hnew name).mp hnew'
      by_contra hne
      exact habsent.not_named ⟨by omega, hname⟩
    intro i j name hi hj
    rcases Nat.lt_or_eq_of_le (Nat.le_of_lt_succ hj.1) with hjlt | hjeq
    · rcases Nat.lt_or_eq_of_le (Nat.le_of_lt_succ hi.1) with hilt | hieq
      · exact h.distinct i j name ⟨hilt, hi.2⟩ ⟨hjlt, hj.2⟩
      · exact (hold hj.1 hj.2 hieq hi.2).symm
    · exact hold hi.1 hi.2 hjeq hj.2

theorem claimStep_tabled {s : ProfState} (h : s.Tabled) (hlatched : s.Latched) {t : Nat}
    {r : Recording} {p : ClaimPc} (hth : s.threads[t]? = some (.claiming r p)) :
    (claimStep s t r p).Tabled := by
  have hstands : p.Stands s r := h.stands t _ hth
  cases p with
  | locking =>
      refine h.look ?_
      split_ifs <;> trivial
  | acquiring =>
      simp only [claimStep]
      cases s.latch.lock t with
      | none => exact h
      | some latch =>
          exact h.keep (.of_eq rfl rfl) rfl rfl trivial
            (fun _ hp => Or.inl hp) fun _ hr => Or.inl hr
  | looking => exact h.look ⟨rfl, fun j hj => absurd hj (Nat.not_lt_zero j)⟩
  | rescanning claimed i =>
      obtain ⟨rfl, hnone⟩ := hstands
      simp only [claimStep]
      split_ifs with hi hcarries hroom
      · exact h.look ⟨hi, hcarries⟩
      · refine h.look ⟨rfl, ?_⟩
        intro j hj hjc
        rcases Nat.lt_or_eq_of_le (Nat.le_of_lt_succ hj) with hlt | rfl
        · exact hnone j hlt hjc
        · exact Bool.eq_false_iff.mpr hcarries
      · exact h.look ⟨rfl, hroom, fun j hj => hnone j (by omega) hj⟩
      · exact h.look ⟨Nat.le_antisymm h.bound (Nat.le_of_not_lt hroom),
          fun j hj => hnone j (by omega) hj⟩
  | filling claimed => exact h.fill hlatched hth
  | publishing claimed => exact h.publish hlatched hth
  | overflowing =>
      exact h.keep (.of_eq rfl rfl) rfl rfl hstands
        (fun _ hp => Or.inl hp) fun _ hr => Or.inl hr
  | leaving result =>
      simp only [claimStep]
      split_ifs
      · refine h.look ?_
        cases result <;> exact hstands
      · exact h.returns result hstands
  | unlocking result =>
      have hreturns : (s.returns t r result).Tabled := by
        refine h.returns result ?_
        cases result <;> exact hstands
      exact ⟨hreturns.length, hreturns.bound, hreturns.claimed, hreturns.distinct,
        hreturns.stands, hreturns.delivered, hreturns.dropped⟩

/-- An access of an update leaves the names alone. -/
theorem ProfState.Tabled.updating_keeps {s : ProfState} (h : s.Tabled) {t i : Nat}
    {r : Recording} {p : UpdatePc} (hth : s.threads[t]? = some (.updating r i p))
    (ans : ProfAnswer) : s.Keeps (profThreadStep s t ans (.updating r i p)) := by
  have hnamed : s.Named i r.name := h.stands t _ hth
  refine ⟨rfl, ?_, ?_⟩
  · intro j hj name
    refine ProfState.carries_set rfl ?_
    rintro rfl
    exact updateStep_carries ..
  · refine Table.getD_set.trans (if_neg ?_)
    rintro ⟨rfl, -⟩
    exact absurd hnamed.1 (Nat.lt_irrefl _)

theorem profThreadStep_tabled {s : ProfState} (h : s.Tabled) (hlatched : s.Latched) {t : Nat}
    {th : ProfThread} (hth : s.threads[t]? = some th) (ans : ProfAnswer) :
    (profThreadStep s t ans th).Tabled := by
  have hstands : th.Stands s := h.stands t _ hth
  cases th with
  | idle => exact h
  | gated name u =>
      cases name with
      | none => exact h.look trivial
      | some name =>
          simp only [profThreadStep]
          split_ifs
          · exact h.keep (.of_eq rfl rfl) rfl rfl trivial
              (fun _ hp => Or.inl hp) fun _ hr => Or.inl hr
          · exact h.look trivial
  | looking r => exact h.look (le_refl s.slotCount)
  | scanning r claimed i =>
      simp only [profThreadStep]
      split_ifs with hi hcarries
      · exact h.returns (some i) ⟨hi.trans_le hstands, hcarries⟩
      · exact h.look hstands
      · exact h.look trivial
  | ensuring r p =>
      have hnext : ∀ next : Option EnsurePc,
          (next.elim (ProfThread.claiming r .locking) (.ensuring r)).Stands s := by
        intro next
        cases next <;> trivial
      exact h.keep (.of_eq rfl rfl) rfl rfl (hnext _) (fun _ hp => Or.inl hp)
        fun _ hr => Or.inl hr
  | claiming r p => exact claimStep_tabled h hlatched hth
  | updating r i p =>
      have hnext : ∀ next : Option UpdatePc,
          (next.elim .idle (ProfThread.updating r i)).Stands s := by
        intro next
        cases next with
        | none => trivial
        | some q => exact hstands
      exact h.keep (h.updating_keeps hth ans) (List.length_set ..) rfl (hnext _)
        (fun _ hp => Or.inl hp) fun _ hr => Or.inl hr

theorem profCallStep_tabled {s : ProfState} (h : s.Tabled) (t : Nat) (c : ProfCall) :
    (profCallStep s t c).Tabled := by
  cases c with
  | counterAdd name delta => exact h.look trivial
  | event name value => exact h.look trivial
  | scopeEnd scope now =>
      simp only [profCallStep]
      split_ifs
      · cases scope.name with
        | none => exact h
        | some name =>
            exact h.keep (.of_eq rfl rfl)
              rfl rfl trivial (fun _ hp => Or.inl hp) fun _ hr => Or.inl hr
      · exact h

theorem hbiProfReset_tabled {s : ProfState} (h : s.Tabled) (hq : s.quiescent = true) :
    (hbiProfReset s).Tabled where
  length := (List.length_mapIdx ..).trans h.length
  bound := Nat.zero_le _
  claimed i hi := absurd hi (Nat.not_lt_zero i)
  distinct i _ _ hi := absurd hi.1 (Nat.not_lt_zero i)
  stands _ _ hth := by
    rw [ProfState.idle_of_quiescent hq hth]
    trivial
  delivered _ hp := absurd hp List.not_mem_nil
  dropped _ hr := absurd hr List.not_mem_nil

theorem profStep_tabled {s : ProfState} (a : ProfAction) (h : s.Tabled) (hlatched : s.Latched) :
    (profStep s a).Tabled := by
  cases a with
  | call t c =>
      simp only [profStep]
      split_ifs
      · exact profCallStep_tabled h t c
      · exact h
  | thread t ans =>
      simp only [profStep]
      cases hth : s.threads[t]? with
      | none => exact h
      | some th => exact profThreadStep_tabled h hlatched hth ans
  | setEnabled enabled =>
      exact ⟨h.length, h.bound, h.claimed, h.distinct, h.stands, h.delivered, h.dropped⟩
  | reset =>
      simp only [profStep]
      split_ifs with hq
      · exact hbiProfReset_tabled h hq
      · exact h

theorem ProfState.create_tabled (numThreads : Nat) : (ProfState.create numThreads).Tabled where
  length := List.length_replicate
  bound := Nat.zero_le _
  claimed i hi := absurd hi (Nat.not_lt_zero i)
  distinct i _ _ hi := absurd hi.1 (Nat.not_lt_zero i)
  stands t th hth := by
    rw [List.eq_of_mem_replicate (List.mem_of_getElem? hth)]
    trivial
  delivered _ hp := absurd hp List.not_mem_nil
  dropped _ hr := absurd hr List.not_mem_nil

theorem ProfState.Reached.tabled {s : ProfState} (h : s.Reached) : s.Tabled := by
  refine (h.of_step (fun s => s.Latched ∧ s.Tabled) ?_ ?_).2
  · exact fun n => ⟨create_latched n, create_tabled n⟩
  · intro s a hs ha
    exact ⟨profStep_latched hs.1 ha, profStep_tabled a hs.2 hs.1⟩

/-- A step other than a reset adds to the table at most. -/
theorem profStep_grows {s : ProfState} (h : s.Tabled) {a : ProfAction} (ha : a ≠ .reset) :
    s.Grows (profStep s a) := by
  have hsame : ∀ {s' : ProfState}, s'.slots = s.slots → s'.slotCount = s.slotCount →
      s.Grows s' := fun hslots hcount => (ProfState.Keeps.of_eq hslots hcount).grows h.bound
  cases a with
  | call t c =>
      simp only [profStep]
      split_ifs
      · cases c with
        | counterAdd name delta => exact hsame rfl rfl
        | event name value => exact hsame rfl rfl
        | scopeEnd scope now =>
            simp only [profCallStep]
            split_ifs
            · cases scope.name <;> exact hsame rfl rfl
            · exact hsame rfl rfl
      · exact hsame rfl rfl
  | thread t ans =>
      simp only [profStep]
      cases hth : s.threads[t]? with
      | none => exact hsame rfl rfl
      | some th =>
          cases th with
          | idle => exact hsame rfl rfl
          | gated name u =>
              cases name with
              | none => exact hsame rfl rfl
              | some name =>
                  simp only [profThreadStep]
                  split_ifs <;> exact hsame rfl rfl
          | looking r => exact hsame rfl rfl
          | scanning r claimed i =>
              simp only [profThreadStep]
              split_ifs <;> exact hsame rfl rfl
          | ensuring r p => exact hsame rfl rfl
          | claiming r p =>
              cases p with
              | filling claimed => exact h.fill_grows hth
              | publishing claimed => exact h.publish_grows hth
              | acquiring =>
                  simp only [profThreadStep, claimStep]
                  cases s.latch.lock t <;> exact hsame rfl rfl
              | rescanning claimed i =>
                  simp only [profThreadStep, claimStep]
                  split_ifs <;> exact hsame rfl rfl
              | leaving result =>
                  simp only [profThreadStep, claimStep]
                  split_ifs
                  · exact hsame rfl rfl
                  · cases result <;> exact hsame rfl rfl
              | unlocking result => cases result <;> exact hsame rfl rfl
              | _ => exact hsame rfl rfl
          | updating r i p => exact (h.updating_keeps hth ans).grows h.bound
  | setEnabled enabled => exact hsame rfl rfl
  | reset => exact absurd rfl ha

/-- The name of a slot. -/
def ProfState.nameAt (s : ProfState) (i : Nat) : Option (List UInt8) :=
  (s.slots.getD i .unclaimed).name

theorem ProfState.Tabled.named_iff {s : ProfState} (h : s.Tabled) {i : Nat} {name : List UInt8} :
    s.Named i name ↔ i < s.slotCount ∧ s.nameAt i = some name := by
  refine and_congr_right ?_
  intro hi
  obtain ⟨name', hname'⟩ := h.claimed i hi
  unfold ProfState.nameAt ProfState.carries at *
  rw [ProfSlot.carries_iff] at hname' ⊢
  constructor
  · exact fun h => h.1
  · intro hname
    obtain rfl : name' = name := Option.some.inj (hname'.1.symm.trans hname)
    exact hname'

theorem ProfState.Grows.trans {s s' s'' : ProfState} (h : s.Grows s') (h' : s'.Grows s'') :
    s.Grows s'' where
  count := h.count.trans h'.count
  bound := h'.bound
  carries i hi name :=
    (h'.carries i (hi.trans_le h.count) name).trans (h.carries i hi name)

theorem ProfState.Reached.run_grows {s : ProfState} (h : s.Reached) {actions : List ProfAction}
    (hactions : ∀ a ∈ actions, a.Granted ∧ a ≠ .reset) :
    s.Grows (Runs.final profStep s actions) := by
  have hkept : ∀ (s' : ProfState) (a : ProfAction), s'.Latched ∧ s'.Tabled ∧ s.Grows s' →
      a.Granted ∧ a ≠ .reset →
      (profStep s' a).Latched ∧ (profStep s' a).Tabled ∧ s.Grows (profStep s' a) := by
    rintro s' a ⟨hlatched, htabled, hgrows⟩ ha
    exact ⟨profStep_latched hlatched ha.1, profStep_tabled a htabled hlatched,
      hgrows.trans (profStep_grows htabled ha.2)⟩
  have hrefl : s.Grows s := (ProfState.Keeps.of_eq rfl rfl).grows h.tabled.bound
  exact (Runs.final_of_along hkept ⟨h.latched, h.tabled, hrefl⟩
    (Runs.along_of_mem hactions)).2.2

/-- However the threads interleave, every claimed slot has a name of its own under its hash,
a recording went to the slot of its name or found the table full without it, and until a
reset the slots that are claimed stay what they are. -/
theorem prof_table_of_reached {s : ProfState} (h : s.Reached) :
    (s.slots.length = hbiProfMaxNames ∧ s.slotCount ≤ hbiProfMaxNames) ∧
    (∀ i < s.slotCount, ∃ name, s.nameAt i = some name ∧
      (s.slots.getD i .unclaimed).hash = profFnv1a name) ∧
    (∀ i < s.slotCount, ∀ j < s.slotCount, s.nameAt i = s.nameAt j → i = j) ∧
    (∀ i r, (i, r) ∈ s.delivered → i < s.slotCount ∧ s.nameAt i = some r.name) ∧
    (∀ r ∈ s.dropped, s.slotCount = hbiProfMaxNames ∧
      ∀ i < s.slotCount, s.nameAt i ≠ some r.name) ∧
    ∀ actions : List ProfAction, (∀ a ∈ actions, a.Granted ∧ a ≠ .reset) → ∀ i < s.slotCount,
      i < (Runs.final profStep s actions).slotCount ∧
        (Runs.final profStep s actions).nameAt i = s.nameAt i := by
  have htabled := h.tabled
  refine ⟨⟨htabled.length, htabled.bound⟩, ?_, ?_, ?_, ?_, ?_⟩
  · intro i hi
    obtain ⟨name, hname⟩ := htabled.claimed i hi
    exact ⟨name, ProfSlot.carries_iff.mp hname⟩
  · intro i hi j hj hij
    obtain ⟨name, hname⟩ := htabled.claimed i hi
    have hnamed := htabled.named_iff.mp ⟨hi, hname⟩
    exact htabled.distinct i j name ⟨hi, hname⟩ (htabled.named_iff.mpr ⟨hj, hij ▸ hnamed.2⟩)
  · exact fun i r hmem => htabled.named_iff.mp (htabled.delivered (i, r) hmem)
  · intro r hr
    obtain ⟨hfull, habsent⟩ := htabled.dropped r hr
    refine ⟨hfull, ?_⟩
    intro i hi hname
    exact habsent.not_named (htabled.named_iff.mpr ⟨hi, hname⟩)
  · intro actions hactions i hi
    have hafter := (h.of_run fun a ha => (hactions a ha).1).tabled
    obtain ⟨name, hname⟩ := htabled.claimed i hi
    have hnamed := (h.run_grows hactions).named ⟨hi, hname⟩
    exact ⟨hnamed.1,
      (hafter.named_iff.mp hnamed).2.trans (htabled.named_iff.mp ⟨hi, hname⟩).2.symm⟩

theorem prof_table_of_reached_race :
    (Runs.final profStep (.create 2) (profRace.take 53)).delivered.length = 2 ∧
      ∀ i r, (i, r) ∈ (Runs.final profStep (.create 2) (profRace.take 53)).delivered →
        i < (Runs.final profStep (.create 2) (profRace.take 53)).slotCount ∧
          (Runs.final profStep (.create 2) (profRace.take 53)).nameAt i = some r.name :=
  ⟨by decide +kernel, (prof_table_of_reached (profRace_reached 53)).2.2.2.1⟩

end Hummingbird

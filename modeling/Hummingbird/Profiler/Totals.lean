import Hummingbird.Profiler.Tally

/-!
The books of the profiler over whole runs. A recording that was begun is on its way to a
slot, was brought to one, or was counted as lost. For each field, the recordings brought to a
slot are those entered there and those whose threads still stand in front of the access.
-/

namespace Hummingbird

namespace ProfThread

/-- The recording that a thread looks a slot up for. -/
def seeks : ProfThread → Option Recording
  | .looking r | .scanning r _ _ | .ensuring r _ | .claiming r _ => some r
  | _ => none

/-- What a thread still has to enter into a field. -/
def pending (f : ProfField) : ProfThread → Option (Nat × Recording)
  | .updating r i p => if p.pending f then some (i, r) else none
  | _ => none

/-- The recording is counted as lost, and its thread still in the section. -/
def loses : ProfThread → Bool
  | .claiming _ (.leaving none) | .claiming _ (.unlocking none) => true
  | _ => false

def Fits (slots : List ProfSlot) : ProfThread → Prop
  | .updating r i p => p.Fits (slots.getD i .unclaimed) r.update
  | _ => True

end ProfThread

namespace ProfState

variable (s : ProfState)

/-- What was entered into a field of a slot. -/
def entered (i : Nat) (f : ProfField) : List ProfUpdate :=
  ((s.settled f).filter (·.1 = i)).map (·.2.update)

/-- A claimed slot adds up what was entered, and has the kind of a recording of its name. -/
def SlotTallied (i : Nat) : Prop :=
  (s.slots.getD i .unclaimed).Tallies (s.entered i) ∧
    ∃ r ∈ s.begun, s.carries i r.name = true ∧
      (s.slots.getD i .unclaimed).kind = r.update.kind

structure Tallied : Prop where
  begun : s.begun.Perm
    (s.delivered.map Prod.snd ++ s.dropped ++ s.threads.filterMap ProfThread.seeks)
  settled : ∀ f, s.delivered.Perm (s.settled f ++ s.threads.filterMap (ProfThread.pending f))
  overflow : s.overflow = .ofNat (s.dropped.length + s.threads.countP ProfThread.loses)
  fits : ∀ (t : Nat) (th : ProfThread), s.threads[t]? = some th → th.Fits s.slots
  slots : ∀ i < s.slotCount, s.SlotTallied i

end ProfState

namespace ProfState.Tallied

variable {s : ProfState} {t : Nat} {th th' : ProfThread} {r : Recording}

/-- What the threads still owe, where one of them moves on and owes what it owed before. -/
theorem owed (h : s.Tallied) (hth : s.threads[t]? = some th) (th' : ProfThread)
    (hseeks : th'.seeks = th.seeks) (hpending : ∀ f, th'.pending f = th.pending f)
    (hloses : th'.loses = th.loses) :
    s.begun.Perm (s.delivered.map Prod.snd ++ s.dropped ++
      (s.threads.set t th').filterMap ProfThread.seeks) ∧
    (∀ f, s.delivered.Perm (s.settled f ++
      (s.threads.set t th').filterMap (ProfThread.pending f))) ∧
    s.overflow = .ofNat (s.dropped.length + (s.threads.set t th').countP ProfThread.loses) := by
  refine ⟨?_, ?_, ?_⟩
  · exact h.begun.trans ((Table.filterMap_set_perm hth hseeks).symm.append_left _)
  · intro f
    exact (h.settled f).trans ((Table.filterMap_set_perm hth (hpending f)).symm.append_left _)
  · have hcount := Table.countP_set hth ProfThread.loses th'
    rw [hloses, Nat.add_right_cancel_iff] at hcount
    exact hcount ▸ h.overflow

theorem fits_set {slots : List ProfSlot} (hth : s.threads[t]? = some th)
    (hothers : ∀ (u : Nat) (th : ProfThread), s.threads[u]? = some th → th.Fits slots)
    (hfits : th'.Fits slots) (u : Nat) (th'' : ProfThread)
    (hu : (s.threads.set t th')[u]? = some th'') : th''.Fits slots := by
  rw [Table.getElem?_set_of hth] at hu
  split_ifs at hu
  · exact Option.some.inj hu ▸ hfits
  · exact hothers u th'' hu

/-- A thread moves on and owes the books what it owed before. -/
theorem quiet (h : s.Tallied) (hth : s.threads[t]? = some th) (latch : ProfLatch)
    (hseeks : th'.seeks = th.seeks) (hpending : ∀ f, th'.pending f = th.pending f)
    (hloses : th'.loses = th.loses) (hfits : th'.Fits s.slots) :
    ProfState.Tallied { s.setThread t th' with latch := latch } := by
  obtain ⟨hbegun, hsettled, hoverflow⟩ := h.owed hth th' hseeks hpending hloses
  exact ⟨hbegun, hsettled, hoverflow, fits_set hth h.fits hfits, h.slots⟩

/-- A recording begins with a thread that owes nothing. -/
theorem begins (h : s.Tallied) (hth : s.threads[t]? = some th) (hseeks : th.seeks = none)
    (hpending : ∀ f, th.pending f = none) (hloses : th.loses = false) :
    (s.begins t r).Tallied where
  begun := by
    obtain ⟨rest, hbefore, hafter⟩ := Table.filterMap_set hth ProfThread.seeks
    rw [hseeks] at hbefore
    have hbegun := h.begun.trans (hbefore.append_left _)
    calc s.begun ++ [r]
      _ |>.Perm (s.delivered.map Prod.snd ++ s.dropped ++ rest ++ [r]) := hbegun.append_right _
      _ |>.Perm (s.delivered.map Prod.snd ++ s.dropped ++ ([r] ++ rest)) := by
        rw [List.append_assoc]
        exact List.perm_append_comm.append_left _
      _ |>.Perm _ := (hafter (.looking r)).symm.append_left _
  settled f := (h.settled f).trans
    ((Table.filterMap_set_perm hth (hpending f).symm).symm.append_left _)
  overflow := by
    have hcount := Table.countP_set hth ProfThread.loses (.looking r)
    rw [hloses] at hcount
    exact (Nat.add_right_cancel hcount) ▸ h.overflow
  fits := fits_set hth h.fits trivial
  slots i hi := by
    obtain ⟨htallies, r', hr', hkind⟩ := h.slots i hi
    exact ⟨htallies, r', List.mem_append_left _ hr', hkind⟩

/-- `slot_for` returns a slot: the recording has to be entered into every field. -/
theorem returns_some (h : s.Tallied) (hth : s.threads[t]? = some th) (hseeks : th.seeks = some r)
    (hpending : ∀ f, th.pending f = none) (hloses : th.loses = false) (i : Nat) :
    (s.returns t r (some i)).Tallied where
  begun := by
    obtain ⟨rest, hbefore, hafter⟩ := Table.filterMap_set hth ProfThread.seeks
    rw [hseeks] at hbefore
    calc s.begun
      _ |>.Perm (s.delivered.map Prod.snd ++ s.dropped ++ ([r] ++ rest)) :=
        h.begun.trans (hbefore.append_left _)
      _ |>.Perm ((s.delivered ++ [(i, r)]).map Prod.snd ++ s.dropped ++ rest) := by
        rw [List.map_append, List.append_assoc, List.append_assoc, List.append_assoc]
        refine List.Perm.append_left _ ?_
        rw [← List.append_assoc, ← List.append_assoc]
        exact List.perm_append_comm.append_right _
      _ |>.Perm _ := (hafter (.updating r i .bumping)).symm.append_left _
  settled f := by
    obtain ⟨rest, hbefore, hafter⟩ := Table.filterMap_set hth (ProfThread.pending f)
    rw [hpending f] at hbefore
    calc s.delivered ++ [(i, r)]
      _ |>.Perm (s.settled f ++ rest ++ [(i, r)]) :=
        ((h.settled f).trans (hbefore.append_left _)).append_right _
      _ |>.Perm (s.settled f ++ ([(i, r)] ++ rest)) := by
        rw [List.append_assoc]
        exact List.perm_append_comm.append_left _
      _ |>.Perm _ := (hafter (.updating r i .bumping)).symm.append_left _
  overflow := by
    have hcount := Table.countP_set hth ProfThread.loses (.updating r i .bumping)
    rw [hloses] at hcount
    exact (Nat.add_right_cancel hcount) ▸ h.overflow
  fits := fits_set hth h.fits trivial
  slots := h.slots

theorem returns_none (h : s.Tallied) (hth : s.threads[t]? = some th) (hseeks : th.seeks = some r)
    (hpending : ∀ f, th.pending f = none) (hloses : th.loses = true) :
    (s.returns t r none).Tallied where
  begun := by
    obtain ⟨rest, hbefore, hafter⟩ := Table.filterMap_set hth ProfThread.seeks
    rw [hseeks] at hbefore
    calc s.begun
      _ |>.Perm (s.delivered.map Prod.snd ++ s.dropped ++ ([r] ++ rest)) :=
        h.begun.trans (hbefore.append_left _)
      _ |>.Perm (s.delivered.map Prod.snd ++ (s.dropped ++ [r]) ++ rest) := by
        simp only [List.append_assoc, List.Perm.refl]
      _ |>.Perm _ := (hafter .idle).symm.append_left _
  settled f := (h.settled f).trans
    ((Table.filterMap_set_perm hth (hpending f).symm).symm.append_left _)
  overflow := by
    have hcount := Table.countP_set hth ProfThread.loses .idle
    rw [hloses] at hcount
    have hset : (s.threads.set t .idle).countP ProfThread.loses + 1 =
        s.threads.countP ProfThread.loses := hcount
    have hlength : (s.dropped ++ [r]).length = s.dropped.length + 1 := List.length_append
    calc s.overflow
      _ = .ofNat (s.dropped.length + s.threads.countP ProfThread.loses) := h.overflow
      _ = .ofNat ((s.dropped ++ [r]).length +
          (s.threads.set t .idle).countP ProfThread.loses) := by
        rw [← hset, hlength]
        congr 1
        omega
  fits := fits_set hth h.fits trivial
  slots := h.slots

/-- The table is full, and the recording is counted. -/
theorem overflowing (h : s.Tallied)
    (hth : s.threads[t]? = some (.claiming r .overflowing)) :
    (claimStep s t r .overflowing).Tallied where
  begun := by
    have hperm : ((s.threads.set t (.claiming r (.leaving none))).filterMap
        ProfThread.seeks).Perm (s.threads.filterMap ProfThread.seeks) :=
      Table.filterMap_set_perm hth rfl
    exact h.begun.trans (hperm.symm.append_left _)
  settled f := by
    have hperm : ((s.threads.set t (.claiming r (.leaving none))).filterMap
        (ProfThread.pending f)).Perm (s.threads.filterMap (ProfThread.pending f)) :=
      Table.filterMap_set_perm hth rfl
    exact (h.settled f).trans (hperm.symm.append_left _)
  overflow := by
    have hcount := Table.countP_set hth ProfThread.loses (.claiming r (.leaving none))
    have hset : (s.threads.set t (.claiming r (.leaving none))).countP ProfThread.loses =
        s.threads.countP ProfThread.loses + 1 := hcount
    calc s.overflow + 1
      _ = .ofNat (s.dropped.length + s.threads.countP ProfThread.loses) + 1 := by rw [h.overflow]
      _ = .ofNat (s.dropped.length +
          (s.threads.set t (.claiming r (.leaving none))).countP ProfThread.loses) := by
        rw [hset, ← Nat.add_assoc, UInt64.ofNat_add _ 1]
        rfl
  fits := fits_set hth h.fits trivial
  slots := h.slots

/-- What is entered in a slot that is not claimed yet is nothing. -/
theorem entered_eq_nil (h : s.Tallied) (htabled : s.Tabled) {i : Nat} (hi : s.slotCount ≤ i)
    (f : ProfField) : s.entered i f = [] := by
  unfold entered
  rw [List.map_eq_nil_iff, List.filter_eq_nil_iff]
  intro p hp
  have hnamed := htabled.delivered p ((h.settled f).mem_iff.mpr (List.mem_append_left _ hp))
  have hlt : p.1 < s.slotCount := hnamed.1
  simp only [decide_eq_true_eq]
  omega

/-- The threads fit slots whose bounds have only moved apart. -/
theorem fits_bounds (h : s.Tallied) (htabled : s.Tabled) {slots : List ProfSlot}
    (hbounds : ∀ i < s.slotCount,
      (slots.getD i .unclaimed).minNs ≤ (s.slots.getD i .unclaimed).minNs ∧
        (s.slots.getD i .unclaimed).maxNs ≤ (slots.getD i .unclaimed).maxNs)
    (u : Nat) (th : ProfThread) (hu : s.threads[u]? = some th) : th.Fits slots := by
  cases th with
  | updating r i p =>
      have hnamed : s.Named i r.name := htabled.stands u _ hu
      have hfits : p.Fits (s.slots.getD i .unclaimed) r.update := h.fits u _ hu
      obtain ⟨hmin, hmax⟩ := hbounds i hnamed.1
      cases p with
      | lowering cur => exact ⟨hfits.1, UInt64.le_trans hmin hfits.2⟩
      | raising cur => exact ⟨hfits.1, UInt64.le_trans hfits.2 hmax⟩
      | _ => exact hfits
  | _ => trivial

theorem filling (h : s.Tallied) (htabled : s.Tabled) {claimed : Nat}
    (hth : s.threads[t]? = some (.claiming r (.filling claimed))) :
    (claimStep s t r (.filling claimed)).Tallied := by
  obtain ⟨rfl, hlt, -⟩ : claimed = s.slotCount ∧ _ := htabled.stands t _ hth
  have hsame : ∀ i < s.slotCount,
      (claimStep s t r (.filling s.slotCount)).slots.getD i .unclaimed =
        s.slots.getD i .unclaimed := by
    intro i hi
    refine Table.getD_set.trans (if_neg ?_)
    rintro ⟨rfl, -⟩
    exact Nat.lt_irrefl _ hi
  obtain ⟨hbegun, hsettled, hoverflow⟩ :=
    h.owed hth (.claiming r (.publishing s.slotCount)) rfl (fun _ => rfl) rfl
  refine ⟨hbegun, hsettled, hoverflow, fits_set hth ?_ trivial, ?_⟩
  · refine h.fits_bounds htabled ?_
    intro i hi
    rw [hsame i hi]
    exact ⟨UInt64.le_refl _, UInt64.le_refl _⟩
  · intro i hi
    obtain ⟨htallies, r', hr', hcarries, hkind⟩ := h.slots i hi
    refine ⟨(hsame i hi).symm ▸ htallies, r', hr', ?_, ?_⟩
    · exact ((htabled.fill_grows hth).carries i hi _).trans hcarries
    · exact (congrArg ProfSlot.kind (hsame i hi)).trans hkind

/-- The new slot has added up nothing, and its name is that of a recording under way. -/
theorem publishing (h : s.Tallied) (htabled : s.Tabled) {claimed : Nat}
    (hth : s.threads[t]? = some (.claiming r (.publishing claimed))) :
    (claimStep s t r (.publishing claimed)).Tallied := by
  obtain ⟨rfl, hlt, -, hslot⟩ : claimed = s.slotCount ∧ _ := htabled.stands t _ hth
  obtain ⟨hbegun, hsettled, hoverflow⟩ :=
    h.owed hth (.claiming r (.leaving (some s.slotCount))) rfl (fun _ => rfl) rfl
  refine ⟨hbegun, hsettled, hoverflow, fits_set hth h.fits trivial, ?_⟩
  intro i hi
  rcases Nat.lt_or_eq_of_le (Nat.le_of_lt_succ hi) with hold | rfl
  · exact h.slots i hold
  · have hmem : r ∈ s.begun := by
      refine h.begun.mem_iff.mpr (List.mem_append_right _ ?_)
      exact List.mem_filterMap.mpr ⟨_, List.mem_of_getElem? hth, rfl⟩
    refine ⟨?_, r, hmem, ?_, congrArg ProfSlot.kind hslot⟩
    · have hnone : s.entered s.slotCount = fun _ => [] :=
        funext (h.entered_eq_nil htabled le_rfl)
      have hclaim := ProfSlot.claim_tallies r
      rw [← hslot, ← hnone] at hclaim
      exact hclaim
    · exact (congrArg (ProfSlot.carries · r.name) hslot).trans (ProfSlot.claim_carries.mpr rfl)

/-- A thread enters its recording into some fields of the slot. -/
theorem enters (h : s.Tallied) (htabled : s.Tabled) {i : Nat} {p : UpdatePc}
    (hth : s.threads[t]? = some (.updating r i p)) {slot : ProfSlot} {next : Option UpdatePc}
    {fields : List ProfField}
    (hpending : ∀ f, if f ∈ fields then p.pending f = true ∧ next.any (·.pending f) = false
      else next.any (·.pending f) = p.pending f)
    (htallies : slot.Tallies (enter (s.entered i) fields r.update))
    (hfits : ∀ q, next = some q → q.Fits slot r.update)
    (hbounds : slot.minNs ≤ (s.slots.getD i .unclaimed).minNs ∧
      (s.slots.getD i .unclaimed).maxNs ≤ slot.maxNs ∧
      slot.kind = (s.slots.getD i .unclaimed).kind)
    (hcarries : ∀ name, slot.carries name = s.carries i name) :
    ProfState.Tallied { s.setThread t (next.elim .idle (.updating r i)) with
      slots := s.slots.set i slot
      settled := fun f => if f ∈ fields then s.settled f ++ [(i, r)] else s.settled f } := by
  have hnamed : s.Named i r.name := htabled.stands t _ hth
  have hi : i < s.slots.length := htabled.length ▸ hnamed.1.trans_le htabled.bound
  have hself : (s.slots.set i slot).getD i .unclaimed = slot :=
    Table.getD_set.trans (if_pos ⟨rfl, hi⟩)
  have hother : ∀ j, i ≠ j →
      (s.slots.set i slot).getD j .unclaimed = s.slots.getD j .unclaimed :=
    fun j hij => Table.getD_set.trans (if_neg fun heq => hij heq.1)
  have howes : ∀ f, (next.elim .idle (ProfThread.updating r i)).pending f =
      if next.any (·.pending f) then some (i, r) else none := by
    intro f
    cases next <;> rfl
  have hseeks : (next.elim .idle (ProfThread.updating r i)).seeks = none := by
    cases next <;> rfl
  have hloses : (next.elim .idle (ProfThread.updating r i)).loses = false := by
    cases next <;> rfl
  refine ⟨?_, ?_, ?_, fits_set hth ?_ ?_, ?_⟩
  · exact h.begun.trans ((Table.filterMap_set_perm hth hseeks).symm.append_left _)
  · intro f
    have hf := hpending f
    obtain ⟨rest, hbefore, hafter⟩ := Table.filterMap_set hth (ProfThread.pending f)
    have hset := hafter (next.elim .idle (.updating r i))
    rw [howes f] at hset
    by_cases hmem : f ∈ fields
    · rw [if_pos hmem] at hf
      rw [hf.2, if_neg Bool.false_ne_true] at hset
      have hold : (ProfThread.updating r i p).pending f = some (i, r) := if_pos hf.1
      rw [hold] at hbefore
      calc s.delivered
        _ |>.Perm (s.settled f ++ ([(i, r)] ++ rest)) :=
          (h.settled f).trans (hbefore.append_left _)
        _ |>.Perm (s.settled f ++ [(i, r)] ++ rest) := by rw [List.append_assoc]
        _ |>.Perm _ := by
          simp only [if_pos hmem]
          exact hset.symm.append_left _
    · rw [if_neg hmem] at hf
      rw [hf] at hset
      simp only [if_neg hmem]
      exact (h.settled f).trans ((hbefore.trans hset.symm).append_left _)
  · have hcount := Table.countP_set hth ProfThread.loses (next.elim .idle (.updating r i))
    rw [hloses] at hcount
    exact (Nat.add_right_cancel hcount) ▸ h.overflow
  · refine h.fits_bounds htabled ?_
    intro j hj
    by_cases hij : i = j
    · subst hij
      simp only [hself]
      exact ⟨hbounds.1, hbounds.2.1⟩
    · simp only [hother j hij]
      exact ⟨UInt64.le_refl _, UInt64.le_refl _⟩
  · cases next with
    | none => trivial
    | some q =>
        have hq := hfits q rfl
        rw [← hself] at hq
        exact hq
  · intro j hj
    obtain ⟨hjtallies, r', hr', hname, hkind⟩ := h.slots j hj
    by_cases hij : i = j
    · subst hij
      refine ⟨?_, r', hr', ?_, ?_⟩
      · have hentered : ∀ f, ((if f ∈ fields then s.settled f ++ [(i, r)] else
            s.settled f).filter (·.1 = i)).map (·.2.update) =
              enter (s.entered i) fields r.update f := by
          intro f
          unfold enter ProfState.entered
          split_ifs
          · simp
          · rfl
        have hall := htallies
        rw [← hself, ← funext hentered] at hall
        exact hall
      · exact (congrArg (ProfSlot.carries · r'.name) hself).trans ((hcarries _).trans hname)
      · exact (congrArg ProfSlot.kind hself).trans (hbounds.2.2.trans hkind)
    · refine ⟨?_, r', hr', ?_, ?_⟩
      · have hentered : ∀ f, ((if f ∈ fields then s.settled f ++ [(i, r)] else
            s.settled f).filter (·.1 = j)).map (·.2.update) = s.entered j f := by
          intro f
          unfold ProfState.entered
          split_ifs
          · simp [hij]
          · rfl
        have hall := hjtallies
        rw [← hother j hij, ← funext hentered] at hall
        exact hall
      · exact (congrArg (ProfSlot.carries · r'.name) (hother j hij)).trans hname
      · exact (congrArg ProfSlot.kind (hother j hij)).trans hkind

theorem updating (h : s.Tallied) (htabled : s.Tabled) {i : Nat} {p : UpdatePc}
    (hth : s.threads[t]? = some (.updating r i p)) (ans : ProfAnswer) :
    (profThreadStep s t ans (.updating r i p)).Tallied := by
  have hnamed : s.Named i r.name := htabled.stands t _ hth
  have hfits : p.Fits (s.slots.getD i .unclaimed) r.update := h.fits t _ hth
  exact h.enters htabled hth (updateStep_pending hfits ans.spurious)
    (updateStep_tallies (h.slots i hnamed.1).1 hfits ans.spurious)
    (fun _ hnext => updateStep_fits hfits hnext) (updateStep_bounds ..)
    (fun _ => updateStep_carries ..)

end ProfState.Tallied

theorem claimStep_tallied {s : ProfState} (h : s.Tallied) (htabled : s.Tabled) {t : Nat}
    {r : Recording} {p : ClaimPc} (hth : s.threads[t]? = some (.claiming r p)) :
    (claimStep s t r p).Tallied := by
  have hmove : ∀ {q : ClaimPc} (latch : ProfLatch),
      (ProfThread.claiming r q).loses = (ProfThread.claiming r p).loses →
      ProfState.Tallied { s.setThread t (.claiming r q) with latch := latch } :=
    fun latch hloses => h.quiet hth latch rfl (fun _ => rfl) hloses trivial
  have hreturns : ∀ result, p = .leaving result ∨ p = .unlocking result →
      (s.returns t r result).Tallied := by
    intro result hp
    cases result with
    | none =>
        refine h.returns_none hth rfl (fun _ => rfl) ?_
        rcases hp with rfl | rfl <;> rfl
    | some i =>
        refine h.returns_some hth rfl (fun _ => rfl) ?_ i
        rcases hp with rfl | rfl <;> rfl
  cases p with
  | locking =>
      simp only [claimStep]
      split_ifs <;> exact hmove s.latch rfl
  | acquiring =>
      simp only [claimStep]
      cases s.latch.lock t with
      | none => exact h
      | some latch => exact hmove latch rfl
  | looking => exact hmove s.latch rfl
  | rescanning claimed i =>
      simp only [claimStep]
      split_ifs <;> exact hmove s.latch rfl
  | filling claimed => exact h.filling htabled hth
  | publishing claimed => exact h.publishing htabled hth
  | overflowing => exact h.overflowing hth
  | leaving result =>
      simp only [claimStep]
      split_ifs
      · refine hmove s.latch ?_
        cases result <;> rfl
      · exact hreturns result (Or.inl rfl)
  | unlocking result =>
      have hafter := hreturns result (Or.inr rfl)
      exact ⟨hafter.begun, hafter.settled, hafter.overflow, hafter.fits, hafter.slots⟩

theorem profThreadStep_tallied {s : ProfState} (h : s.Tallied) (htabled : s.Tabled) {t : Nat}
    {th : ProfThread} (hth : s.threads[t]? = some th) (ans : ProfAnswer) :
    (profThreadStep s t ans th).Tallied := by
  cases th with
  | idle => exact h
  | gated name u =>
      cases name with
      | none => exact h.quiet hth s.latch rfl (fun _ => rfl) rfl trivial
      | some name =>
          simp only [profThreadStep]
          split_ifs
          · exact h.begins hth rfl (fun _ => rfl) rfl
          · exact h.quiet hth s.latch rfl (fun _ => rfl) rfl trivial
  | looking r => exact h.quiet hth s.latch rfl (fun _ => rfl) rfl trivial
  | scanning r claimed i =>
      simp only [profThreadStep]
      split_ifs
      · exact h.returns_some hth rfl (fun _ => rfl) rfl i
      · exact h.quiet hth s.latch rfl (fun _ => rfl) rfl trivial
      · exact h.quiet hth s.latch rfl (fun _ => rfl) rfl trivial
  | ensuring r p =>
      have hnext : ∀ (latch : ProfLatch) (next : Option EnsurePc),
          ProfState.Tallied { s.setThread t (next.elim (.claiming r .locking) (.ensuring r)) with
            latch := latch } := by
        intro latch next
        cases next with
        | none => exact h.quiet hth latch rfl (fun _ => rfl) rfl trivial
        | some q => exact h.quiet hth latch rfl (fun _ => rfl) rfl trivial
      exact hnext _ _
  | claiming r p => exact claimStep_tallied h htabled hth
  | updating r i p => exact h.updating htabled hth ans

theorem profCallStep_tallied {s : ProfState} (h : s.Tallied) {t : Nat}
    (hth : s.threads[t]? = some .idle) (c : ProfCall) : (profCallStep s t c).Tallied := by
  cases c with
  | counterAdd name delta => exact h.quiet hth s.latch rfl (fun _ => rfl) rfl trivial
  | event name value => exact h.quiet hth s.latch rfl (fun _ => rfl) rfl trivial
  | scopeEnd scope now =>
      simp only [profCallStep]
      split_ifs
      · cases scope.name with
        | none => exact h
        | some name => exact h.begins hth rfl (fun _ => rfl) rfl
      · exact h

/-- Threads that are outside owe nothing. -/
theorem ProfState.filterMap_of_quiescent {s : ProfState} (hq : s.quiescent = true) {α : Type}
    (f : ProfThread → Option α) (hf : f .idle = none) : s.threads.filterMap f = [] := by
  rw [List.filterMap_eq_nil_iff]
  intro th hmem
  obtain ⟨t, hth⟩ := List.mem_iff_getElem?.mp hmem
  rw [s.idle_of_quiescent hq hth, hf]

theorem ProfState.countP_of_quiescent {s : ProfState} (hq : s.quiescent = true)
    (f : ProfThread → Bool) (hf : f .idle = false) : s.threads.countP f = 0 := by
  rw [List.countP_eq_zero]
  intro th hmem
  obtain ⟨t, hth⟩ := List.mem_iff_getElem?.mp hmem
  rw [s.idle_of_quiescent hq hth, hf]
  exact Bool.false_ne_true

/-- Books without an entry are right while no thread is inside a call. -/
theorem ProfState.tallied_of_empty {s : ProfState} (hq : s.quiescent = true)
    (hcount : s.slotCount = 0) (hoverflow : s.overflow = 0) (hbegun : s.begun = [])
    (hdelivered : s.delivered = []) (hdropped : s.dropped = [])
    (hsettled : s.settled = fun _ => []) : s.Tallied where
  begun := by
    rw [hbegun, hdelivered, hdropped, filterMap_of_quiescent hq _ rfl]
    exact List.Perm.refl _
  settled f := by
    rw [hdelivered, hsettled, filterMap_of_quiescent hq _ rfl]
    exact List.Perm.refl _
  overflow := by
    rw [hoverflow, hdropped, countP_of_quiescent hq _ rfl]
    rfl
  fits t th hth := by
    rw [s.idle_of_quiescent hq hth]
    trivial
  slots i hi := by
    rw [hcount] at hi
    exact absurd hi (Nat.not_lt_zero i)

theorem profStep_tallied {s : ProfState} (a : ProfAction) (h : s.Tallied) (htabled : s.Tabled) :
    (profStep s a).Tallied := by
  cases a with
  | call t c =>
      simp only [profStep]
      split_ifs with hth
      · exact profCallStep_tallied h hth c
      · exact h
  | thread t ans =>
      simp only [profStep]
      cases hth : s.threads[t]? with
      | none => exact h
      | some th => exact profThreadStep_tallied h htabled hth ans
  | setEnabled enabled => exact ⟨h.begun, h.settled, h.overflow, h.fits, h.slots⟩
  | reset =>
      simp only [profStep]
      split_ifs with hq
      · have hq' : (hbiProfReset s).quiescent = true := hq
        exact ProfState.tallied_of_empty hq' rfl rfl rfl rfl rfl rfl
      · exact h

theorem ProfState.create_quiescent (numThreads : Nat) :
    (ProfState.create numThreads).quiescent = true := by
  simp [ProfState.quiescent, ProfState.create]

theorem ProfState.Reached.tallied {s : ProfState} (h : s.Reached) : s.Tallied := by
  refine (h.of_step (fun s => s.Latched ∧ s.Tabled ∧ s.Tallied) ?_ ?_).2.2
  · intro n
    exact ⟨create_latched n, create_tabled n,
      ProfState.tallied_of_empty (create_quiescent n) rfl rfl rfl rfl rfl rfl⟩
  · rintro s a ⟨hlatched, htabled, htallied⟩ ha
    exact ⟨profStep_latched hlatched ha, profStep_tabled a htabled hlatched,
      profStep_tallied a htallied htabled⟩

/-- The updates of the recordings with a name. -/
def updatesOf (rs : List Recording) (name : List UInt8) : List ProfUpdate :=
  (rs.filter (·.name = name)).map (·.update)

/-- The recordings brought to a slot are those with its name. -/
theorem ProfState.Tallied.delivered_updates {s : ProfState} (h : s.Tallied) (htabled : s.Tabled)
    (hq : s.quiescent = true) {i : Nat} {name : List UInt8} (hnamed : s.Named i name) :
    (updatesOf s.begun name).Perm ((s.delivered.filter (·.1 = i)).map (·.2.update)) := by
  have hbegun := h.begun
  rw [filterMap_of_quiescent hq _ rfl, List.append_nil] at hbegun
  have hlost : s.dropped.filter (·.name = name) = [] := by
    rw [List.filter_eq_nil_iff]
    intro r hr hname
    obtain rfl : r.name = name := by simpa using hname
    exact (htabled.dropped r hr).2.not_named hnamed
  have hsame : s.delivered.filter (fun p => p.2.name = name) = s.delivered.filter (·.1 = i) := by
    refine List.filter_congr ?_
    intro p hp
    have hp' := htabled.delivered p hp
    rw [decide_eq_decide]
    constructor
    · rintro rfl
      exact htabled.distinct _ _ _ hp' hnamed
    · rintro rfl
      exact hp'.name_eq hnamed
  have hfilter := hbegun.filter (·.name = name)
  rw [List.filter_append, hlost, List.append_nil, List.filter_map] at hfilter
  have hmap := hfilter.map Recording.update
  rw [List.map_map] at hmap
  refine hmap.trans ?_
  rw [← hsame]
  exact List.Perm.refl _

/-- The report of a slot whose fields have all been entered the same updates. -/
theorem ProfSlot.Tallies.stat {slot : ProfSlot} {entered : ProfField → List ProfUpdate}
    (h : slot.Tallies entered) {us : List ProfUpdate} (hall : ∀ f, (entered f).Perm us)
    (name : List UInt8) (kind : ProfKind) :
    (⟨name, kind, slot.count, slot.total, slot.totalNs,
      if slot.minNs = minSentinel then 0 else slot.minNs, slot.maxNs⟩ : ProfStat) =
        .aggregate name kind us := by
  have hdurations := fun f => (hall f).filterMap ProfUpdate.duration
  simp only [ProfStat.aggregate, h.count, h.total, h.totalNs, h.minNs, h.maxNs,
    (hall .count).length_eq, ((hall .sum).map _).sum_eq, ((hdurations .sum).map _).sum_eq,
    leastDuration_perm (hdurations .min), greatestDuration_perm (hdurations .max)]

/-- Whatever the threads did, once all of them are outside the profiler accounts for every
recording that was begun since the last reset: it was counted as lost, or the statistics of
its name are what the recordings of that name add up to. -/
theorem prof_stats_of_quiescent {s : ProfState} (h : s.Reached) (hq : s.quiescent = true) :
    s.begun.Perm (s.delivered.map Prod.snd ++ s.dropped) ∧
    s.overflow = .ofNat s.dropped.length ∧
    ∀ i < s.slotCount, ∃ r ∈ s.begun, s.nameAt i = some r.name ∧
      hbiProfStatAt s.slots s.slotCount i =
        .ok (.aggregate r.name r.update.kind (updatesOf s.begun r.name)) := by
  have htabled := h.tabled
  have htallied := h.tallied
  refine ⟨?_, ?_, ?_⟩
  · have hbegun := htallied.begun
    rwa [ProfState.filterMap_of_quiescent hq _ rfl, List.append_nil] at hbegun
  · have hoverflow := htallied.overflow
    rwa [ProfState.countP_of_quiescent hq _ rfl] at hoverflow
  · intro i hi
    obtain ⟨htallies, r, hr, hcarries, hkind⟩ := htallied.slots i hi
    have hnamed := htabled.named_iff.mp ⟨hi, hcarries⟩
    have hentered : ∀ f, (s.entered i f).Perm (updatesOf s.begun r.name) := by
      intro f
      have hsettled := htallied.settled f
      rw [ProfState.filterMap_of_quiescent hq _ rfl, List.append_nil] at hsettled
      exact ((hsettled.symm.filter _).map _).trans
        (htallied.delivered_updates htabled hq ⟨hi, hcarries⟩).symm
    refine ⟨r, hr, hnamed.2, ?_⟩
    have hlength : i < s.slots.length := htabled.length ▸ hi.trans_le htabled.bound
    have hslot : s.slots[i]? = some (s.slots.getD i .unclaimed) := by
      rw [List.getD_eq_getElem _ _ hlength, List.getElem?_eq_getElem hlength]
    have hname : (s.slots.getD i .unclaimed).name = some r.name := hnamed.2
    have hstat := htallies.stat hentered r.name r.update.kind
    simp only [hbiProfStatAt, hslot, if_pos hi, hname, hkind, Option.getD_some, hstat]

theorem prof_stats_of_quiescent_race :
    ∃ r ∈ (Runs.final profStep (.create 2) (profRace.take 53)).begun,
      (Runs.final profStep (.create 2) (profRace.take 53)).nameAt 0 = some r.name ∧
      hbiProfStatAt (Runs.final profStep (.create 2) (profRace.take 53)).slots
          (Runs.final profStep (.create 2) (profRace.take 53)).slotCount 0 =
        .ok (.aggregate r.name r.update.kind
          (updatesOf (Runs.final profStep (.create 2) (profRace.take 53)).begun r.name)) :=
  (prof_stats_of_quiescent (profRace_reached 53) (by decide +kernel)).2.2 0 (by decide +kernel)

end Hummingbird

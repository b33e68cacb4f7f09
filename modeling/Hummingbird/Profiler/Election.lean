import Hummingbird.Profiler.System
import Hummingbird.Foundation.Locking

/-!
The claim mutex of the profiler. Threads that find none elect one of them by a flag, and the
others throw away the mutex they have made. Each mutex is published, destroyed or in the
hands of one thread, the published one is never replaced, and only one thread at a time
stands in the section that it guards.
-/

namespace Hummingbird

/-- The mutex that a thread has made and not yet given away. -/
def EnsurePc.inHand : EnsurePc → Option Nat
  | .electing m | .elected m | .storing m | .spinning m | .discarding m => some m
  | .clearing spare => spare
  | .loading | .announcing => none

/-- The thread has set the flag. -/
def EnsurePc.elects : EnsurePc → Bool
  | .elected _ | .storing _ | .announcing | .clearing _ => true
  | _ => false

def EnsurePc.announces : EnsurePc → Bool
  | .announcing => true
  | _ => false

/-- What holds of the latch where the thread stands. -/
def EnsurePc.Placed (latch : ProfLatch) : EnsurePc → Prop
  | .storing _ => latch.mxReady = false
  | .clearing _ | .discarding _ => latch.mxReady = true
  | .spinning _ => latch.mxReady = true ∨ latch.creating = true
  | _ => True

def ClaimPc.inSection : ClaimPc → Bool
  | .locking | .acquiring => false
  | _ => true

namespace ProfThread

def inHand : ProfThread → Option Nat
  | .ensuring _ p => p.inHand
  | _ => none

def elects : ProfThread → Bool
  | .ensuring _ p => p.elects
  | _ => false

def announces : ProfThread → Bool
  | .ensuring _ p => p.announces
  | _ => false

/-- The thread stands between the lock and the unlock of the claim mutex. -/
def inSection : ProfThread → Bool
  | .claiming _ p => p.inSection
  | _ => false

def Placed (latch : ProfLatch) : ProfThread → Prop
  | .ensuring _ p => p.Placed latch
  | .claiming _ _ => latch.mxReady = true
  | _ => True

/-- A place depends on the two flags only. -/
theorem Placed.congr {th : ProfThread} {latch latch' : ProfLatch} (h : th.Placed latch)
    (hready : latch'.mxReady = latch.mxReady) (hcreating : latch'.creating = latch.creating) :
    th.Placed latch' := by
  cases th with
  | ensuring r p =>
      cases p with
      | storing m => exact hready.trans h
      | clearing spare => exact hready.trans h
      | discarding m => exact hready.trans h
      | spinning m => exact h.imp hready.trans hcreating.trans
      | _ => trivial
  | claiming r p => exact hready.trans h
  | _ => trivial

/-- The lock that a thread holds. -/
def holds (th : ProfThread) : Option Unit := if th.inSection then some () else none

@[simp]
theorem holds_eq_some {th : ProfThread} : th.holds = some () ↔ th.inSection = true := by
  unfold holds
  split <;> simp_all

end ProfThread

/-- The books of the election, whatever the order of the threads. -/
structure ProfLatch.Elected (latch : ProfLatch) (threads : List ProfThread) : Prop where
  ledger : (List.range latch.made).Perm
    (latch.claimMx.toList ++ latch.destroyed ++ threads.filterMap ProfThread.inHand)
  flag : threads.countP ProfThread.elects = latch.creating.toNat
  published : latch.claimMx.isSome.toNat =
    latch.mxReady.toNat + threads.countP ProfThread.announces
  placed : ∀ th ∈ threads, th.Placed latch

namespace ProfLatch.Elected

variable {latch : ProfLatch} {threads threads' others : List ProfThread} {th th' : ProfThread}

theorem perm (h : latch.Elected threads) (hperm : threads.Perm threads') :
    latch.Elected threads' where
  ledger := h.ledger.trans ((hperm.filterMap _).append_left _)
  flag := hperm.countP_eq _ ▸ h.flag
  published := hperm.countP_eq _ ▸ h.published
  placed th hth := h.placed th (hperm.mem_iff.mpr hth)

/-- The books do not look at who holds the mutex. -/
theorem congr (h : latch.Elected threads) {latch' : ProfLatch}
    (hclaim : latch'.claimMx = latch.claimMx) (hready : latch'.mxReady = latch.mxReady)
    (hcreating : latch'.creating = latch.creating) (hmade : latch'.made = latch.made)
    (hdestroyed : latch'.destroyed = latch.destroyed) : latch'.Elected threads where
  ledger := by
    rw [hclaim, hmade, hdestroyed]
    exact h.ledger
  flag := hcreating ▸ h.flag
  published := by
    rw [hclaim, hready]
    exact h.published
  placed th hth := (h.placed th hth).congr hready hcreating

/-- A thread that takes no part in the election moves to another such place. -/
theorem replace (h : latch.Elected (th :: others)) (hhand : th'.inHand = th.inHand)
    (helects : th'.elects = th.elects) (hannounces : th'.announces = th.announces)
    (hplaced : th'.Placed latch) : latch.Elected (th' :: others) where
  ledger := by simpa only [List.filterMap_cons, hhand] using h.ledger
  flag := by simpa only [List.countP_cons, helects] using h.flag
  published := by simpa only [List.countP_cons, hannounces] using h.published
  placed := by
    intro u hu
    rcases List.mem_cons.mp hu with rfl | hu
    · exact hplaced
    · exact h.placed u (List.mem_cons_of_mem _ hu)

/-- While a thread has set the flag no other has. -/
theorem others_flag (h : latch.Elected (th :: others)) (helects : th.elects = true) :
    latch.creating = true ∧ others.countP ProfThread.elects = 0 := by
  have hflag := h.flag
  rw [List.countP_cons, if_pos helects] at hflag
  cases hcreating : latch.creating with
  | false => simp [hcreating] at hflag
  | true => exact ⟨rfl, by simpa [hcreating] using hflag⟩

/-- A thread that announces has set the flag. -/
theorem announces_elects (hannounces : th.announces = true) : th.elects = true := by
  cases th with
  | ensuring r p =>
      cases p with
      | announcing => rfl
      | _ => cases hannounces
  | _ => cases hannounces

theorem others_announce (h : latch.Elected (th :: others)) (helects : th.elects = true) :
    others.countP ProfThread.announces = 0 := by
  have hnone := (h.others_flag helects).2
  rw [List.countP_eq_zero] at hnone ⊢
  exact fun u hu hannounces => hnone u hu (announces_elects hannounces)

theorem placed_others (h : latch.Elected (th :: others)) {latch' : ProfLatch}
    (hready : latch'.mxReady = latch.mxReady) (hcreating : latch'.creating = latch.creating)
    (hplaced : th'.Placed latch') : ∀ u ∈ th' :: others, u.Placed latch' := by
  intro u hu
  rcases List.mem_cons.mp hu with rfl | hu
  · exact hplaced
  · exact (h.placed u (List.mem_cons_of_mem _ hu)).congr hready hcreating

/-- A new mutex goes into the hands of the thread that made it. -/
theorem make {r : Recording} (h : latch.Elected (.ensuring r .loading :: others)) :
    ProfLatch.Elected { latch with made := latch.made + 1 }
      (.ensuring r (.electing latch.made) :: others) where
  ledger := by
    rw [List.range_succ]
    refine (h.ledger.append_right [latch.made]).trans ?_
    rw [List.append_assoc]
    exact List.perm_append_comm.append_left _
  flag := h.flag
  published := h.published
  placed := h.placed_others rfl rfl trivial

/-- The first thread at the flag sets it. -/
theorem elect {r : Recording} {m : Nat} (h : latch.Elected (.ensuring r (.electing m) :: others))
    (hfree : latch.creating = false) :
    ProfLatch.Elected { latch with creating := true }
      (.ensuring r (.elected m) :: others) where
  ledger := h.ledger
  flag := by
    have hflag := h.flag
    rw [hfree, List.countP_cons_of_neg Bool.false_ne_true] at hflag
    rw [List.countP_cons_of_pos rfl, hflag]
    rfl
  published := h.published
  placed := by
    intro u hu
    rcases List.mem_cons.mp hu with rfl | hu
    · trivial
    · have hold := h.placed u (List.mem_cons_of_mem _ hu)
      cases u with
      | ensuring r p =>
          cases p with
          | spinning m => exact Or.inr rfl
          | _ => exact hold
      | _ => exact hold

/-- Nothing is published when the elected thread stores its mutex. -/
theorem store {r : Recording} {m : Nat} (h : latch.Elected (.ensuring r (.storing m) :: others)) :
    latch.claimMx = none ∧ ProfLatch.Elected { latch with claimMx := some m, holder := none }
      (.ensuring r .announcing :: others) := by
  have hready : latch.mxReady = false := h.placed _ List.mem_cons_self
  have hannounce := h.others_announce rfl
  have hnone : latch.claimMx = none := by
    have hpublished := h.published
    rw [hready, List.countP_cons_of_neg Bool.false_ne_true, hannounce] at hpublished
    cases hclaim : latch.claimMx with
    | none => rfl
    | some m => simp [hclaim] at hpublished
  refine ⟨hnone, ?_, h.flag, ?_, h.placed_others rfl rfl trivial⟩
  · refine h.ledger.trans ?_
    rw [hnone]
    exact List.perm_middle
  · rw [List.countP_cons_of_pos rfl, hannounce]
    simp [hready]

theorem announce {r : Recording} (h : latch.Elected (.ensuring r .announcing :: others)) :
    ProfLatch.Elected { latch with mxReady := true } (.ensuring r (.clearing none) :: others) where
  ledger := h.ledger
  flag := h.flag
  published := by
    have hpublished := h.published
    have hannounce := h.others_announce rfl
    rw [List.countP_cons_of_pos rfl, hannounce] at hpublished
    have hready : latch.mxReady = false := by
      cases hready : latch.mxReady with
      | false => rfl
      | true =>
          have hle := Bool.toNat_le latch.claimMx.isSome
          rw [hready, Bool.toNat_true] at hpublished
          omega
    rw [hready] at hpublished
    rw [List.countP_cons_of_neg Bool.false_ne_true, hannounce]
    exact hpublished
  placed := by
    intro u hu
    rcases List.mem_cons.mp hu with rfl | hu
    · rfl
    · have hold := h.placed u (List.mem_cons_of_mem _ hu)
      have hflag := List.countP_eq_zero.mp (h.others_flag rfl).2 u hu
      cases u with
      | ensuring r p =>
          cases p with
          | storing m => exact absurd rfl hflag
          | clearing spare => rfl
          | discarding m => rfl
          | spinning m => exact Or.inl rfl
          | _ => trivial
      | claiming r p => rfl
      | _ => trivial

/-- The flag is cleared only when everybody can see the mutex. -/
theorem clear {r : Recording} {spare : Option Nat}
    (h : latch.Elected (.ensuring r (.clearing spare) :: others)) :
    ProfLatch.Elected { latch with creating := false }
      ((spare.map EnsurePc.discarding).elim (.claiming r .locking) (.ensuring r) :: others) := by
  have hready : latch.mxReady = true := h.placed _ List.mem_cons_self
  have hflag := (h.others_flag rfl).2
  have hannounce := h.others_announce rfl
  have hothers : ∀ u ∈ others, u.Placed { latch with creating := false } := by
    intro u hu
    have hold := h.placed u (List.mem_cons_of_mem _ hu)
    cases u with
    | ensuring r p =>
        cases p with
        | spinning m => exact Or.inl hready
        | _ => exact hold
    | _ => exact hold
  cases spare with
  | none =>
      refine ⟨h.ledger, ?_, h.published, List.forall_mem_cons.mpr ⟨hready, hothers⟩⟩
      simpa [ProfThread.elects] using hflag
  | some m =>
      refine ⟨h.ledger, ?_, h.published, List.forall_mem_cons.mpr ⟨hready, hothers⟩⟩
      simpa [ProfThread.elects, EnsurePc.elects] using hflag

theorem discard {r : Recording} {m : Nat}
    (h : latch.Elected (.ensuring r (.discarding m) :: others)) :
    ProfLatch.Elected { latch with destroyed := m :: latch.destroyed }
      (.claiming r .locking :: others) where
  ledger := by
    refine h.ledger.trans ?_
    rw [List.append_assoc, List.append_assoc]
    exact List.perm_middle.append_left _
  flag := h.flag
  published := h.published
  placed := h.placed_others rfl rfl (h.placed _ List.mem_cons_self : latch.mxReady = true)

end ProfLatch.Elected

/-- An access of `ensure_mutex` keeps the books. -/
theorem ensureStep_elected {latch : ProfLatch} {others : List ProfThread} {r : Recording}
    {p : EnsurePc} (h : latch.Elected (.ensuring r p :: others)) :
    (ensureStep latch true p).1.Elected
      ((ensureStep latch true p).2.elim (.claiming r .locking) (.ensuring r) :: others) := by
  cases p with
  | loading =>
      by_cases hready : latch.mxReady = true
      · simp only [ensureStep, if_pos hready]
        exact h.replace rfl rfl rfl hready
      · simp only [ensureStep, if_neg hready]
        exact h.make
  | electing m =>
      by_cases hcreating : latch.creating = true
      · simp only [ensureStep, if_pos hcreating]
        exact h.replace rfl rfl rfl (Or.inr hcreating)
      · simp only [ensureStep, if_neg hcreating]
        exact h.elect (by simpa using hcreating)
  | elected m =>
      by_cases hready : latch.mxReady = true
      · simp only [ensureStep, if_pos hready]
        exact h.replace rfl rfl rfl hready
      · simp only [ensureStep, if_neg hready]
        exact h.replace rfl rfl rfl (Bool.eq_false_iff.mpr hready : latch.mxReady = false)
  | storing m => exact h.store.2
  | announcing => exact h.announce
  | clearing spare => exact h.clear
  | spinning m =>
      by_cases hready : latch.mxReady = true
      · simp only [ensureStep, if_pos hready]
        exact h.replace rfl rfl rfl hready
      · simp only [ensureStep, if_neg hready]
        exact h.replace rfl rfl rfl (h.placed _ List.mem_cons_self)
  | discarding m => exact h.discard

/-- The latch with its threads: the books of the election, and one holder at most, who is
where the mutex is held. -/
structure ProfState.Latched (s : ProfState) : Prop where
  elected : s.latch.Elected s.threads
  agrees : Locking.Agrees ProfThread.holds (fun _ => s.latch.holder) s.threads
  fair : s.latch.misused = false

namespace ProfState.Latched

variable {s s' : ProfState} {t : Nat} {th th' : ProfThread}

theorem inSection_iff (h : s.Latched) (hth : s.threads[t]? = some th) :
    th.inSection = true ↔ s.latch.holder = some t := by
  rw [h.agrees () t, ← ProfThread.holds_eq_some]
  simp [hth]

/-- Two threads in the section are one thread. -/
theorem exclusive (h : s.Latched) {u : Nat} {th' : ProfThread} (hth : s.threads[t]? = some th)
    (hth' : s.threads[u]? = some th') (hsection : th.inSection = true)
    (hsection' : th'.inSection = true) : t = u := by
  have hholder := (h.inSection_iff hth).mp hsection
  have hholder' := (h.inSection_iff hth').mp hsection'
  exact Option.some.inj (hholder.symm.trans hholder')

theorem placed (h : s.Latched) (hth : s.threads[t]? = some th) : th.Placed s.latch :=
  h.elected.placed th (List.mem_of_getElem? hth)

/-- A thread takes a step that the latch does not notice. -/
theorem quiet (h : s.Latched) (hth : s.threads[t]? = some th) (hlatch : s'.latch = s.latch)
    (hthreads : s'.threads = s.threads.set t th') (hhand : th'.inHand = th.inHand)
    (helects : th'.elects = th.elects) (hannounces : th'.announces = th.announces)
    (hsection : th'.inSection = th.inSection) (hplaced : th'.Placed s.latch) : s'.Latched := by
  obtain ⟨others, hbefore, hafter⟩ := Table.exists_others hth
  refine ⟨?_, ?_, hlatch ▸ h.fair⟩
  · rw [hlatch, hthreads]
    exact ((h.elected.perm hbefore).replace hhand helects hannounces hplaced).perm
      (hafter th').symm
  · rw [hlatch, hthreads]
    refine h.agrees.move hth ?_
    have hholds : th'.holds = th.holds := by
      unfold ProfThread.holds
      rw [hsection]
    rw [hholds]
    exact .keep

/-- A thread outside the section takes a step in the election. -/
theorem elects (h : s.Latched) {latch : ProfLatch} (hth : s.threads[t]? = some th)
    (hlatch : s'.latch = latch) (hthreads : s'.threads = s.threads.set t th')
    (helected : ∀ others, s.latch.Elected (th :: others) → latch.Elected (th' :: others))
    (hholder : latch.holder = s.latch.holder) (hmisused : latch.misused = s.latch.misused)
    (hsection : th.inSection = false) (hsection' : th'.inSection = false) : s'.Latched := by
  obtain ⟨others, hbefore, hafter⟩ := Table.exists_others hth
  refine ⟨?_, ?_, ?_⟩
  · rw [hlatch, hthreads]
    exact (helected others (h.elected.perm hbefore)).perm (hafter th').symm
  · rw [hlatch, hthreads, hholder]
    refine h.agrees.move hth ?_
    simp only [ProfThread.holds, hsection, hsection']
    exact .keep
  · rw [hlatch, hmisused]
    exact h.fair

end ProfState.Latched

/-- The holder of the mutex is not touched by the election. -/
theorem ensureStep_holder {s : ProfState} (h : s.Latched) {t : Nat} {r : Recording} {p : EnsurePc}
    (hth : s.threads[t]? = some (.ensuring r p)) (granted : Bool) :
    (ensureStep s.latch granted p).1.holder = s.latch.holder ∧
      (ensureStep s.latch granted p).1.misused = s.latch.misused := by
  cases p with
  | storing m =>
      refine ⟨?_, rfl⟩
      have hready : s.latch.mxReady = false := h.placed hth
      cases hholder : s.latch.holder with
      | none => rfl
      | some u =>
          obtain ⟨th, hu, hholds⟩ := (h.agrees () u).mp hholder
          rw [ProfThread.holds_eq_some] at hholds
          cases th with
          | claiming r p =>
              have htrue : s.latch.mxReady = true := h.placed hu
              rw [hready] at htrue
              cases htrue
          | _ => cases hholds
  | loading =>
      unfold ensureStep
      split_ifs <;> exact ⟨rfl, rfl⟩
  | electing m =>
      unfold ensureStep
      split_ifs <;> exact ⟨rfl, rfl⟩
  | _ => exact ⟨rfl, rfl⟩

/-- A thread takes the mutex, or gives it back. -/
theorem ProfState.Latched.turns {s s' : ProfState} (h : s.Latched) {t : Nat} {th th' : ProfThread}
    {holder : Option Nat} (hth : s.threads[t]? = some th)
    (hlatch : s'.latch = { s.latch with holder := holder })
    (hthreads : s'.threads = s.threads.set t th') (hhand : th'.inHand = th.inHand)
    (helects : th'.elects = th.elects) (hannounces : th'.announces = th.announces)
    (hplaced : th'.Placed s.latch)
    (hmove : Locking.Move (fun _ => s.latch.holder) t th.holds (fun _ => holder) th'.holds) :
    s'.Latched := by
  obtain ⟨others, hbefore, hafter⟩ := Table.exists_others hth
  refine ⟨?_, ?_, ?_⟩
  · rw [hlatch, hthreads]
    exact (((h.elected.perm hbefore).replace hhand helects hannounces hplaced).perm
      (hafter th').symm).congr rfl rfl rfl rfl rfl
  · rw [hlatch, hthreads]
    exact h.agrees.move hth hmove
  · rw [hlatch]
    exact h.fair

theorem claimStep_latched {s : ProfState} (h : s.Latched) {t : Nat} {r : Recording} {p : ClaimPc}
    (hth : s.threads[t]? = some (.claiming r p)) : (claimStep s t r p).Latched := by
  have hready : s.latch.mxReady = true := h.placed hth
  cases p with
  | locking =>
      simp only [claimStep, if_pos hready]
      exact h.quiet hth rfl rfl rfl rfl rfl rfl hready
  | acquiring =>
      cases hholder : s.latch.holder with
      | some u =>
          simp only [claimStep, ProfLatch.lock, hholder]
          exact h
      | none =>
          simp only [claimStep, ProfLatch.lock, hholder]
          exact h.turns hth rfl rfl rfl rfl rfl hready (.take (l := ()) hholder rfl)
  | looking => exact h.quiet hth rfl rfl rfl rfl rfl rfl hready
  | rescanning claimed i =>
      simp only [claimStep]
      split_ifs <;> exact h.quiet hth rfl rfl rfl rfl rfl rfl hready
  | filling claimed => exact h.quiet hth rfl rfl rfl rfl rfl rfl hready
  | publishing claimed => exact h.quiet hth rfl rfl rfl rfl rfl rfl hready
  | overflowing => exact h.quiet hth rfl rfl rfl rfl rfl rfl hready
  | leaving result =>
      simp only [claimStep, if_pos hready]
      exact h.quiet hth rfl rfl rfl rfl rfl rfl hready
  | unlocking result =>
      have hholder : s.latch.holder = some t := (h.inSection_iff hth).mp rfl
      have hunlock : s.latch.unlock t = { s.latch with holder := none } := if_pos hholder
      have hgive : ∀ holds : Option Unit, holds = none →
          Locking.Move (fun _ => s.latch.holder) t (some ()) (fun _ => none) holds := by
        rintro _ rfl
        exact .give (l := ()) rfl
      cases result with
      | none => exact h.turns hth hunlock rfl rfl rfl rfl trivial (hgive _ rfl)
      | some i => exact h.turns hth hunlock rfl rfl rfl rfl trivial (hgive _ rfl)

theorem profThreadStep_latched {s : ProfState} (h : s.Latched) {t : Nat} {th : ProfThread}
    (hth : s.threads[t]? = some th) {ans : ProfAnswer} (hgranted : ans.granted = true) :
    (profThreadStep s t ans th).Latched := by
  cases th with
  | idle => exact h
  | gated name u =>
      cases name with
      | none => exact h.quiet hth rfl rfl rfl rfl rfl rfl trivial
      | some name =>
          simp only [profThreadStep]
          split_ifs <;> exact h.quiet hth rfl rfl rfl rfl rfl rfl trivial
  | looking r => exact h.quiet hth rfl rfl rfl rfl rfl rfl trivial
  | scanning r claimed i =>
      simp only [profThreadStep]
      split_ifs <;> exact h.quiet hth rfl rfl rfl rfl rfl rfl trivial
  | ensuring r p =>
      have hkeep := ensureStep_holder h hth ans.granted
      simp only [profThreadStep]
      refine h.elects hth rfl rfl ?_ hkeep.1 hkeep.2 rfl ?_
      · intro others hbefore
        rw [hgranted]
        exact ensureStep_elected hbefore
      · cases (ensureStep s.latch ans.granted p).2 with
        | none => rfl
        | some q => rfl
  | claiming r p => exact claimStep_latched h hth
  | updating r i p =>
      simp only [profThreadStep]
      cases (updateStep r.update (s.slots.getD i .unclaimed) ans.spurious p).2 with
      | none => exact h.quiet hth rfl rfl rfl rfl rfl rfl trivial
      | some q => exact h.quiet hth rfl rfl rfl rfl rfl rfl trivial

theorem profCallStep_latched {s : ProfState} (h : s.Latched) {t : Nat}
    (hth : s.threads[t]? = some .idle) (c : ProfCall) : (profCallStep s t c).Latched := by
  cases c with
  | counterAdd name delta => exact h.quiet hth rfl rfl rfl rfl rfl rfl trivial
  | event name value => exact h.quiet hth rfl rfl rfl rfl rfl rfl trivial
  | scopeEnd scope now =>
      simp only [profCallStep]
      split_ifs
      · cases scope.name with
        | none => exact h
        | some name => exact h.quiet hth rfl rfl rfl rfl rfl rfl trivial
      · exact h

theorem profStep_latched {s : ProfState} {a : ProfAction} (h : s.Latched) (ha : a.Granted) :
    (profStep s a).Latched := by
  cases a with
  | call t c =>
      simp only [profStep]
      split_ifs with hth
      · exact profCallStep_latched h hth c
      · exact h
  | thread t ans =>
      simp only [profStep]
      cases hth : s.threads[t]? with
      | none => exact h
      | some th => exact profThreadStep_latched h hth ha
  | setEnabled enabled => exact ⟨h.elected, h.agrees, h.fair⟩
  | reset =>
      simp only [profStep]
      split_ifs
      · exact ⟨h.elected, h.agrees, h.fair⟩
      · exact h

theorem ProfState.create_latched (numThreads : Nat) : (ProfState.create numThreads).Latched := by
  have hidle : ∀ th ∈ List.replicate numThreads ProfThread.idle, th = .idle :=
    fun th hth => List.eq_of_mem_replicate hth
  refine ⟨⟨?_, ?_, ?_, ?_⟩, ?_, rfl⟩
  · have hnone : (List.replicate numThreads ProfThread.idle).filterMap ProfThread.inHand = [] :=
      List.filterMap_eq_nil_iff.mpr fun th hth => hidle th hth ▸ rfl
    simp [ProfState.create, hnone]
  · exact List.countP_eq_zero.mpr fun th hth => hidle th hth ▸ Bool.false_ne_true
  · have hnone : (List.replicate numThreads ProfThread.idle).countP ProfThread.announces = 0 :=
      List.countP_eq_zero.mpr fun th hth => hidle th hth ▸ Bool.false_ne_true
    simp [ProfState.create, hnone]
  · exact fun th hth => hidle th hth ▸ trivial
  · intro l t
    constructor
    · intro hnone
      cases hnone
    · rintro ⟨th, hth, hholds⟩
      rw [hidle th (List.mem_of_getElem? hth)] at hholds
      cases hholds

/-- An invariant of granted steps holds in every reached state. -/
theorem ProfState.Reached.of_step {s : ProfState} (h : s.Reached) (inv : ProfState → Prop)
    (hcreate : ∀ n, inv (.create n))
    (hstep : ∀ s a, inv s → a.Granted → inv (profStep s a)) : inv s := by
  obtain ⟨numThreads, actions, hgranted, rfl⟩ := h
  exact Runs.final_of_along (P := fun _ a => a.Granted) hstep (hcreate numThreads)
    (Runs.along_of_mem hgranted)

theorem ProfState.Reached.latched {s : ProfState} (h : s.Reached) : s.Latched :=
  h.of_step ProfState.Latched ProfState.create_latched fun _ _ => profStep_latched

theorem ProfState.Reached.of_run {s : ProfState} (h : s.Reached) {actions : List ProfAction}
    (hgranted : ∀ a ∈ actions, a.Granted) : (Runs.final profStep s actions).Reached := by
  obtain ⟨numThreads, before, hbefore, rfl⟩ := h
  refine ⟨numThreads, before ++ actions, ?_, (Runs.final_append _ _ _).symm⟩
  intro a ha
  exact (List.mem_append.mp ha).elim (hbefore a) (hgranted a)

/-- A thread that is outside is at one place. -/
theorem ProfState.idle_of_quiescent {s : ProfState} (hq : s.quiescent = true) {t : Nat}
    {th : ProfThread} (hth : s.threads[t]? = some th) : th = .idle := by
  simpa using List.all_eq_true.mp hq th (List.mem_of_getElem? hth)

/-- The thread waits for what another one does. -/
def ProfThread.Waits (latch : ProfLatch) : ProfThread → Prop
  | .ensuring _ (.spinning _) => latch.mxReady = false
  | .claiming _ .acquiring => latch.holder.isSome = true
  | _ => False

/-- An update moves on, unless an exchange fails for no reason. -/
theorem updateStep_ne (u : ProfUpdate) (slot : ProfSlot) (p : UpdatePc) :
    (updateStep u slot false p).2 ≠ some p := by
  cases p with
  | adding => cases u <;> simp [updateStep]
  | lowering cur =>
      cases u with
      | scope ns =>
          simp only [updateStep, and_true]
          split_ifs with hlt heq
          · simp
          · simpa using heq
          · simp
      | _ => simp [updateStep]
  | raising cur =>
      cases u with
      | scope ns =>
          simp only [updateStep, and_true]
          split_ifs with hlt heq
          · simp
          · simpa using heq
          · simp
      | _ => simp [updateStep]
  | _ => simp [updateStep]

theorem ensureStep_ne {latch : ProfLatch} {p : EnsurePc} {r : Recording}
    (hwaits : ¬ (ProfThread.ensuring r p).Waits latch) (granted : Bool) :
    (ensureStep latch granted p).2 ≠ some p := by
  cases p with
  | loading =>
      simp only [ensureStep]
      split_ifs <;> simp
  | electing m =>
      simp only [ensureStep]
      split_ifs <;> simp
  | elected m =>
      simp only [ensureStep]
      split_ifs <;> simp
  | clearing spare => cases spare <;> simp [ensureStep]
  | spinning m =>
      have hready : latch.mxReady = true := by simpa [ProfThread.Waits] using hwaits
      simp [ensureStep, hready]
  | _ => simp [ensureStep]

theorem elim_ne {α β : Type} {f : α → β} {b : β} {next : Option α} {a : α}
    (hb : ∀ a, b ≠ f a) (hf : Function.Injective f) (hne : next ≠ some a) :
    next.elim b f ≠ f a := by
  cases next with
  | none => exact hb a
  | some a' => exact fun heq => hne (congrArg some (hf heq))

/-- A thread inside a call that does not wait leaves its place. -/
theorem profThreadStep_moves {s : ProfState} {t : Nat} {th : ProfThread}
    (hth : s.threads[t]? = some th) (hidle : th ≠ .idle) (hwaits : ¬ th.Waits s.latch)
    (granted : Bool) : (profThreadStep s t ⟨granted, false⟩ th).threads[t]? ≠ some th := by
  have hset : ∀ {s' : ProfState} {th' : ProfThread}, s'.threads = s.threads.set t th' →
      th' ≠ th → s'.threads[t]? ≠ some th := by
    intro s' th' hthreads hne
    rw [hthreads, Table.getElem?_set_of hth, if_pos rfl]
    exact fun heq => hne (Option.some.inj heq)
  have hreturns : ∀ {r : Recording} {result : Option Nat}, (∀ i p, th ≠ .updating r i p) →
      (s.returns t r result).threads[t]? ≠ some th := by
    intro r result hne
    cases result with
    | none => exact hset rfl hidle.symm
    | some i => exact hset rfl (hne i .bumping).symm
  cases th with
  | idle => exact absurd rfl hidle
  | gated name u =>
      cases name with
      | none => exact hset rfl nofun
      | some name =>
          simp only [profThreadStep]
          split_ifs
          · exact hset rfl nofun
          · exact hset rfl nofun
  | looking r => exact hset rfl nofun
  | scanning r claimed i =>
      simp only [profThreadStep]
      split_ifs
      · exact hreturns nofun
      · exact hset rfl (by simp)
      · exact hset rfl nofun
  | ensuring r p =>
      refine hset rfl (elim_ne nofun ?_ (ensureStep_ne hwaits granted))
      exact fun q q' heq => (ProfThread.ensuring.inj heq).2
  | claiming r p =>
      cases p with
      | acquiring =>
          have hfree : s.latch.holder = none := by simpa [ProfThread.Waits] using hwaits
          simp only [profThreadStep, claimStep, ProfLatch.lock, hfree]
          exact hset rfl nofun
      | locking =>
          refine hset rfl ?_
          split_ifs <;> nofun
      | rescanning claimed i =>
          simp only [profThreadStep, claimStep]
          split_ifs
          · exact hset rfl nofun
          · exact hset rfl (by simp)
          · exact hset rfl nofun
          · exact hset rfl nofun
      | leaving result =>
          simp only [profThreadStep, claimStep]
          split_ifs
          · exact hset rfl nofun
          · exact hreturns nofun
      | unlocking result =>
          cases result with
          | none => exact hset rfl nofun
          | some i => exact hset rfl nofun
      | _ => exact hset rfl nofun
  | updating r i p =>
      refine hset rfl (elim_ne nofun ?_ (updateStep_ne r.update (s.slots.getD i .unclaimed) p))
      exact fun q q' heq => (ProfThread.updating.inj heq).2.2

/-- While threads are inside calls, one of them does not wait: the elected one, or the one
that holds the mutex. -/
theorem ProfState.Latched.exists_moving {s : ProfState} (h : s.Latched)
    (hq : s.quiescent = false) :
    ∃ (t : Nat) (th : ProfThread),
      s.threads[t]? = some th ∧ th ≠ .idle ∧ ¬ th.Waits s.latch := by
  obtain ⟨th, hmem, hidle⟩ : ∃ th ∈ s.threads, th ≠ .idle := by
    simpa [ProfState.quiescent] using hq
  obtain ⟨t, hth⟩ := List.mem_iff_getElem?.mp hmem
  by_cases hwaits : th.Waits s.latch
  · cases th with
    | ensuring r p =>
        cases p with
        | spinning m =>
            have hready : s.latch.mxReady = false := hwaits
            have hcreating : s.latch.creating = true := by
              have hplaced : s.latch.mxReady = true ∨ s.latch.creating = true := h.placed hth
              simpa [hready] using hplaced
            have hcount : 0 < s.threads.countP ProfThread.elects := by
              rw [h.elected.flag, hcreating]
              decide
            obtain ⟨th', hmem', helects⟩ := List.countP_pos_iff.mp hcount
            obtain ⟨u, hu⟩ := List.mem_iff_getElem?.mp hmem'
            refine ⟨u, th', hu, ?_, ?_⟩
            · rintro rfl
              cases helects
            · intro hwaits'
              cases th' with
              | ensuring r' p' =>
                  cases p' with
                  | spinning m' => cases helects
                  | _ => exact hwaits'
              | _ => cases helects
        | _ => exact hwaits.elim
    | claiming r p =>
        cases p with
        | acquiring =>
            obtain ⟨u, hu⟩ := Option.isSome_iff_exists.mp hwaits
            obtain ⟨th', hth', hholds⟩ := (h.agrees () u).mp hu
            rw [ProfThread.holds_eq_some] at hholds
            refine ⟨u, th', hth', ?_, ?_⟩
            · rintro rfl
              cases hholds
            · intro hwaits'
              cases th' with
              | claiming r' p' =>
                  cases p' with
                  | acquiring => cases hholds
                  | _ => exact hwaits'
              | _ => cases hholds
        | _ => exact hwaits.elim
    | _ => exact hwaits.elim
  · exact ⟨t, th, hth, hidle, hwaits⟩

/-- A published mutex is not replaced. -/
theorem profStep_claimMx {s : ProfState} (h : s.Latched) {m : Nat}
    (hm : s.latch.claimMx = some m) (a : ProfAction) :
    (profStep s a).latch.claimMx = some m := by
  have hreturns : ∀ t r (result : Option Nat), (s.returns t r result).latch = s.latch := by
    intro t r result
    cases result <;> rfl
  cases a with
  | call t c =>
      simp only [profStep]
      split_ifs
      · cases c with
        | counterAdd name delta => exact hm
        | event name value => exact hm
        | scopeEnd scope now =>
            simp only [profCallStep]
            split_ifs
            · cases scope.name <;> exact hm
            · exact hm
      · exact hm
  | thread t ans =>
      simp only [profStep]
      cases hth : s.threads[t]? with
      | none => exact hm
      | some th =>
          cases th with
          | idle => exact hm
          | gated name u =>
              cases name with
              | none => exact hm
              | some name =>
                  simp only [profThreadStep]
                  split_ifs <;> exact hm
          | looking r => exact hm
          | scanning r claimed i =>
              simp only [profThreadStep]
              split_ifs <;> exact hm
          | ensuring r p =>
              cases p with
              | storing m' =>
                  obtain ⟨others, hbefore, -⟩ := Table.exists_others hth
                  rw [(h.elected.perm hbefore).store.1] at hm
                  cases hm
              | loading =>
                  simp only [profThreadStep, ensureStep]
                  split_ifs <;> exact hm
              | electing m' =>
                  simp only [profThreadStep, ensureStep]
                  split_ifs <;> exact hm
              | _ => exact hm
          | claiming r p =>
              cases p with
              | acquiring =>
                  simp only [profThreadStep, claimStep, ProfLatch.lock]
                  cases s.latch.holder <;> exact hm
              | rescanning claimed i =>
                  simp only [profThreadStep, claimStep]
                  split_ifs <;> exact hm
              | leaving result =>
                  simp only [profThreadStep, claimStep]
                  split_ifs
                  · exact hm
                  · exact (hreturns t r result).symm ▸ hm
              | unlocking result =>
                  simp only [profThreadStep, claimStep, ProfLatch.unlock]
                  split_ifs <;> exact hm
              | _ => exact hm
          | updating r i p => exact hm
  | setEnabled enabled => exact hm
  | reset =>
      simp only [profStep]
      split_ifs <;> exact hm

theorem ProfState.Latched.run {s : ProfState} (h : s.Latched) {actions : List ProfAction}
    (hgranted : ∀ a ∈ actions, a.Granted) : (Runs.final profStep s actions).Latched :=
  Runs.final_of_along (fun _ _ => profStep_latched) h (Runs.along_of_mem hgranted)

theorem ProfState.Latched.run_claimMx {s : ProfState} (h : s.Latched) {m : Nat}
    (hm : s.latch.claimMx = some m) {actions : List ProfAction}
    (hgranted : ∀ a ∈ actions, a.Granted) :
    (Runs.final profStep s actions).latch.claimMx = some m := by
  have hkept : ∀ (s' : ProfState) (a : ProfAction), s'.Latched ∧ s'.latch.claimMx = some m →
      a.Granted → (profStep s' a).Latched ∧ (profStep s' a).latch.claimMx = some m :=
    fun s' a hs ha => ⟨profStep_latched hs.1 ha, profStep_claimMx hs.1 hs.2 a⟩
  exact (Runs.final_of_along hkept ⟨h, hm⟩ (Runs.along_of_mem hgranted)).2

/-- A mutex that is published is not among the destroyed ones. -/
theorem ProfLatch.Elected.not_destroyed {latch : ProfLatch} {threads : List ProfThread}
    (h : latch.Elected threads) {m : Nat} (hm : latch.claimMx = some m) :
    m ∉ latch.destroyed := by
  have hnodup := h.ledger.nodup List.nodup_range
  rw [hm, List.append_assoc, Option.toList_some, List.singleton_append] at hnodup
  have hdisjoint := (List.nodup_cons.mp hnodup).1
  exact fun hmem => hdisjoint (List.mem_append_left _ hmem)

/-- However the threads interleave, one at a time stands in the section and nobody gives back
what it does not hold; each mutex that was made is published, destroyed or in the hands of
one thread; the published one stays and is not destroyed; when no thread is inside a call
nothing is left over; and otherwise some thread can move on. -/
theorem prof_claim_mutex_of_reached {s : ProfState} (h : s.Reached) :
    (∀ (t u : Nat) (th th' : ProfThread), s.threads[t]? = some th → s.threads[u]? = some th' →
      th.inSection = true → th'.inSection = true → t = u) ∧
    s.latch.misused = false ∧
    (List.range s.latch.made).Perm (s.latch.claimMx.toList ++ s.latch.destroyed ++
      s.threads.filterMap ProfThread.inHand) ∧
    (∀ m, s.latch.claimMx = some m → ∀ actions : List ProfAction, (∀ a ∈ actions, a.Granted) →
      (Runs.final profStep s actions).latch.claimMx = some m ∧
        m ∉ (Runs.final profStep s actions).latch.destroyed) ∧
    (s.quiescent = true → s.latch.holder = none ∧ s.latch.creating = false ∧
      s.latch.claimMx.isSome = s.latch.mxReady ∧
      (List.range s.latch.made).Perm (s.latch.claimMx.toList ++ s.latch.destroyed)) ∧
    (s.quiescent = false → ∃ (t : Nat) (th : ProfThread), s.threads[t]? = some th ∧
      ∀ granted, (profStep s (.thread t ⟨granted, false⟩)).threads[t]? ≠ some th) := by
  have hlatched := h.latched
  refine ⟨?_, hlatched.fair, hlatched.elected.ledger, ?_, ?_, ?_⟩
  · exact fun t u th th' hth hu => hlatched.exclusive hth hu
  · intro m hm actions hgranted
    have hafter := hlatched.run_claimMx hm hgranted
    exact ⟨hafter, (hlatched.run hgranted).elected.not_destroyed hafter⟩
  · intro hq
    have hidle : ∀ th ∈ s.threads, th = .idle := by
      intro th hmem
      obtain ⟨t, hth⟩ := List.mem_iff_getElem?.mp hmem
      exact s.idle_of_quiescent hq hth
    have hnone : s.threads.filterMap ProfThread.inHand = [] :=
      List.filterMap_eq_nil_iff.mpr fun th hth => hidle th hth ▸ rfl
    have hcount : ∀ f : ProfThread → Bool, f .idle = false → s.threads.countP f = 0 := by
      intro f hf
      rw [List.countP_eq_zero]
      exact fun th hth => hidle th hth ▸ hf ▸ Bool.false_ne_true
    have hflag := hlatched.elected.flag
    have hpublished := hlatched.elected.published
    have hledger := hlatched.elected.ledger
    rw [hcount _ rfl] at hflag hpublished
    rw [hnone, List.append_nil] at hledger
    refine ⟨?_, ?_, ?_, hledger⟩
    · cases hholder : s.latch.holder with
      | none => rfl
      | some u =>
          obtain ⟨th, hu, hholds⟩ := (hlatched.agrees () u).mp hholder
          rw [s.idle_of_quiescent hq hu] at hholds
          cases hholds
    · simpa using hflag.symm
    · cases hready : s.latch.mxReady with
      | false => simpa [hready] using hpublished
      | true => simpa [hready] using hpublished
  · intro hq
    obtain ⟨t, th, hth, hidle, hwaits⟩ := hlatched.exists_moving hq
    refine ⟨t, th, hth, ?_⟩
    intro granted
    simp only [profStep, hth]
    exact profThreadStep_moves hth hidle hwaits granted

/-- Two threads meet a name that has no slot yet, one of them at the end of a scope, and take
turns. -/
def profRace : List ProfAction :=
  [.setEnabled true, .call 0 (.counterAdd (some [97]) 5),
    .call 1 (.scopeEnd (hbiProfScopeBegin true (some [97]) 3) 10)] ++
    (List.range 50).map fun k => .thread (k % 2) ⟨true, false⟩

theorem profRace_reached (n : Nat) :
    (Runs.final profStep (.create 2) (profRace.take n)).Reached := by
  refine ⟨2, profRace.take n, ?_, rfl⟩
  intro a ha
  have hall : ∀ a ∈ profRace, a.Granted := by decide
  exact hall a (List.mem_of_mem_take ha)

/-- Each of the two has made a mutex, and one waits for the other to publish it. -/
theorem prof_claim_mutex_of_reached_race :
    (List.range 2).Perm [0, 1] ∧
      ∃ (t : Nat) (th : ProfThread),
        (Runs.final profStep (.create 2) (profRace.take 15)).threads[t]? = some th ∧
        ∀ granted, (profStep (Runs.final profStep (.create 2) (profRace.take 15))
          (.thread t ⟨granted, false⟩)).threads[t]? ≠ some th :=
  have h := prof_claim_mutex_of_reached (profRace_reached 15)
  ⟨h.2.2.1, h.2.2.2.2.2 (by decide +kernel)⟩

end Hummingbird

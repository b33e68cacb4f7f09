import Mathlib.Tactic

/-!
Objects that are created and destroyed on behalf of an owner. The ledger remembers every
object that was ever created and whether it is alive; to destroy or to use an object
that is not alive is a fault. The owner has one slot for each kind of object. What a
slot held when it is overwritten or forgotten is lost: alive, with nothing that points
to it. All that the operations do keeps the account: the objects alive are those in the
slots and the lost ones.
-/

namespace Ownership

variable {κ : Type}

structure Ledger (κ : Type) where
  objects : List (κ × Bool)
  faults : Nat

/-- Is the object alive? -/
def Ledger.alive (l : Ledger κ) (id : Nat) : Bool := ((l.objects[id]?).map Prod.snd).getD false

def Ledger.create (l : Ledger κ) (k : κ) : Ledger κ :=
  { l with objects := l.objects ++ [(k, true)] }

def Ledger.use (l : Ledger κ) (id : Nat) : Ledger κ :=
  if l.alive id then l else { l with faults := l.faults + 1 }

def Ledger.destroy (l : Ledger κ) (id : Nat) : Ledger κ :=
  if l.alive id then { l with objects := l.objects.modify id fun o => (o.1, false) }
  else { l with faults := l.faults + 1 }

/-- A new object is alive, and so is everything that was. -/
theorem Ledger.getElem?_create (l : Ledger κ) (k k' : κ) (id : Nat) :
    (l.create k).objects[id]? = some (k', true) ↔
      l.objects[id]? = some (k', true) ∨ id = l.objects.length ∧ k' = k := by
  unfold Ledger.create
  by_cases hlt : id < l.objects.length
  · rw [List.getElem?_append_left hlt]
    constructor
    · exact Or.inl
    · rintro (hget | ⟨rfl, -⟩)
      · exact hget
      · exact absurd hlt (lt_irrefl _)
  · rw [List.getElem?_append_right (not_lt.mp hlt), List.getElem?_singleton,
      List.getElem?_eq_none (not_lt.mp hlt)]
    split
    · rename_i hzero
      have hid : id = l.objects.length := by omega
      simp [hid, eq_comm]
    · rename_i hpos
      have hid : id ≠ l.objects.length := by omega
      simp [hid]

/-- Destroying an object that is alive leaves the others alive. -/
theorem Ledger.getElem?_destroy {l : Ledger κ} {id : Nat} (halive : l.alive id = true)
    (k : κ) (id' : Nat) : (l.destroy id).objects[id']? = some (k, true) ↔
      l.objects[id']? = some (k, true) ∧ id' ≠ id := by
  simp only [Ledger.destroy, halive, if_true, List.getElem?_modify]
  by_cases heq : id = id'
  · subst heq
    cases l.objects[id]? <;> simp
  · simp [heq, Ne.symm heq]

/-- Every object was destroyed, none twice, and none was used afterwards. -/
def Ledger.Settled (l : Ledger κ) : Prop := l.faults = 0 ∧ ∀ o ∈ l.objects, o.2 = false

theorem Ledger.settled_of_eq {l : Ledger κ} (ks : List κ)
    (h : l = ⟨ks.map fun k => (k, false), 0⟩) : l.Settled := by
  subst h
  refine ⟨rfl, ?_⟩
  intro o ho
  obtain ⟨k, -, rfl⟩ := List.mem_map.mp ho
  rfl

/-- What became of a ledger since an earlier state of it: nothing went wrong, the objects of
then are as they were, and of the later ones those in the list are alive, and no others. -/
structure Ledger.Since (base l : Ledger κ) (ids : List Nat) : Prop where
  faults : l.faults = base.faults
  grown : base.objects.length ≤ l.objects.length
  kept : ∀ id, id < base.objects.length → l.objects[id]? = base.objects[id]?
  nodup : ids.Nodup
  later : ∀ id ∈ ids, base.objects.length ≤ id
  alive_iff : ∀ id, base.objects.length ≤ id → (l.alive id = true ↔ id ∈ ids)

namespace Ledger.Since

variable {base l l' : Ledger κ} {ids ids' : List Nat} {id : Nat}

theorem refl (l : Ledger κ) : l.Since l [] := by
  refine ⟨rfl, le_rfl, fun _ _ => rfl, List.nodup_nil, by simp, ?_⟩
  intro id hid
  simp [Ledger.alive, List.getElem?_eq_none hid]

theorem perm (h : base.Since l ids) (hperm : ids.Perm ids') : base.Since l ids' :=
  ⟨h.faults, h.grown, h.kept, hperm.nodup h.nodup, fun id hid => h.later id (hperm.mem_iff.mpr hid),
    fun id hid => (h.alive_iff id hid).trans hperm.mem_iff⟩

theorem lt_length (h : base.Since l ids) (hid : id ∈ ids) : id < l.objects.length := by
  have halive := (h.alive_iff id (h.later id hid)).mpr hid
  by_contra hge
  simp [Ledger.alive, List.getElem?_eq_none (not_lt.mp hge)] at halive

theorem create (h : base.Since l ids) (k : κ) :
    base.Since (l.create k) (l.objects.length :: ids) := by
  have hlen : (l.create k).objects.length = l.objects.length + 1 := by simp [Ledger.create]
  refine ⟨h.faults, ?_, ?_, ?_, ?_, ?_⟩
  · rw [hlen]
    exact h.grown.trans (Nat.le_succ _)
  · intro id hid
    rw [Ledger.create, List.getElem?_append_left (hid.trans_le h.grown)]
    exact h.kept id hid
  · exact List.nodup_cons.mpr ⟨fun hmem => absurd (h.lt_length hmem) (lt_irrefl _), h.nodup⟩
  · intro id hid
    rcases List.mem_cons.mp hid with rfl | hid
    · exact h.grown
    · exact h.later id hid
  · intro id hid
    rw [List.mem_cons, ← h.alive_iff id hid]
    unfold Ledger.alive Ledger.create
    by_cases hlt : id < l.objects.length
    · rw [List.getElem?_append_left hlt]
      simp [Nat.ne_of_lt hlt]
    · rw [List.getElem?_append_right (not_lt.mp hlt), List.getElem?_eq_none (not_lt.mp hlt),
        List.getElem?_singleton]
      by_cases heq : id = l.objects.length
      · simp [heq]
      · rw [if_neg (by omega)]
        simp [heq]

theorem destroy (h : base.Since l (id :: ids)) : base.Since (l.destroy id) ids := by
  obtain ⟨hnot, hnodup⟩ := List.nodup_cons.mp h.nodup
  have hlater := h.later id (by simp)
  have halive := (h.alive_iff id hlater).mpr (by simp)
  have hdestroy : l.destroy id =
      { l with objects := l.objects.modify id fun o => (o.1, false) } := if_pos halive
  rw [hdestroy]
  refine ⟨h.faults, ?_, ?_, hnodup, fun k hk => h.later k (by simp [hk]), ?_⟩
  · rw [List.length_modify]
    exact h.grown
  · intro k hk
    rw [List.getElem?_modify_ne _ _ (by omega)]
    exact h.kept k hk
  · intro k hk
    have hold := h.alive_iff k hk
    unfold Ledger.alive at hold ⊢
    by_cases heq : id = k
    · subst heq
      rw [List.getElem?_modify_eq]
      cases l.objects[id]? <;> simp [hnot]
    · rw [List.getElem?_modify_ne _ _ heq, hold]
      simp [Ne.symm heq]

/-- What is alive since a state is what was alive at a later one and what came after. -/
theorem trans (h : base.Since l ids) (h' : l.Since l' ids') : base.Since l' (ids' ++ ids) := by
  have hmem : ∀ id ∈ ids, id ∉ ids' := fun id hid hid' =>
    absurd (h.lt_length hid) (not_lt.mpr (h'.later id hid'))
  refine ⟨h'.faults.trans h.faults, h.grown.trans h'.grown, ?_, ?_, ?_, ?_⟩
  · intro id hid
    rw [h'.kept id (hid.trans_le h.grown), h.kept id hid]
  · refine List.nodup_append.mpr ⟨h'.nodup, h.nodup, ?_⟩
    rintro id hid' id₂ hid rfl
    exact hmem id hid hid'
  · intro id hid
    rcases List.mem_append.mp hid with hid | hid
    · exact h.grown.trans (h'.later id hid)
    · exact h.later id hid
  · intro id hid
    rw [List.mem_append]
    by_cases hlt : id < l.objects.length
    · have hkept : l'.alive id = l.alive id := by
        unfold Ledger.alive
        rw [h'.kept id hlt]
      have hnew : id ∉ ids' := fun hid' => absurd hlt (not_lt.mpr (h'.later id hid'))
      rw [hkept, h.alive_iff id hid]
      simp [hnew]
    · have hold : id ∉ ids := fun hid => hlt (h.lt_length hid)
      rw [h'.alive_iff id (not_lt.mp hlt)]
      simp [hold]

end Ledger.Since

/-- A request for an object: granted with a new one, or refused. -/
def Ledger.request (l : Ledger κ) (k : κ) (granted : Bool) : Ledger κ × Option Nat :=
  if granted then (l.create k, some l.objects.length) else (l, none)

/-- Gives back what a pointer holds; `NULL` is passed over. -/
def Ledger.free (l : Ledger κ) : Option Nat → Ledger κ
  | none => l
  | some id => l.destroy id

namespace Ledger.Since

variable {base l : Ledger κ} {ids : List Nat}

theorem request (h : base.Since l ids) (k : κ) (granted : Bool) :
    base.Since (l.request k granted).1 ((l.request k granted).2.toList ++ ids) := by
  cases granted with
  | false => exact h
  | true => exact h.create k

theorem request_cases (h : base.Since l ids) (k : κ) (granted : Bool) :
    (∃ l', l.request k granted = (l', none) ∧ base.Since l' ids) ∨
    ∃ l' id, l.request k granted = (l', some id) ∧ base.Since l' (id :: ids) := by
  cases granted with
  | false => exact Or.inl ⟨l, rfl, h⟩
  | true => exact Or.inr ⟨_, _, rfl, h.create k⟩

theorem free {p : Option Nat} (h : base.Since l (p.toList ++ ids)) : base.Since (l.free p) ids := by
  cases p with
  | none => exact h
  | some id => exact h.destroy

theorem destroyAll {held : List Nat} (h : base.Since l (held ++ ids)) :
    base.Since (held.foldl Ledger.destroy l) ids := by
  induction held generalizing l with
  | nil => exact h
  | cons id held ih =>
      apply ih
      exact h.destroy

end Ledger.Since

/-- Something went wrong since an earlier state, or an object in the list, which somebody still
points to, is dead. -/
structure Ledger.Dangling (base l : Ledger κ) (ids : List Nat) : Prop where
  faults_le : base.faults ≤ l.faults
  dead : l.faults = base.faults → ∃ id ∈ ids, id < l.objects.length ∧ l.alive id = false

theorem Ledger.faults_le_destroy (l : Ledger κ) (id : Nat) : l.faults ≤ (l.destroy id).faults := by
  unfold Ledger.destroy
  split
  · exact le_rfl
  · exact Nat.le_succ _

theorem Ledger.length_destroy (l : Ledger κ) (id : Nat) :
    (l.destroy id).objects.length = l.objects.length := by
  unfold Ledger.destroy
  split
  · exact List.length_modify _ _ _
  · rfl

theorem Ledger.alive_destroy_self (l : Ledger κ) (id : Nat) : (l.destroy id).alive id = false := by
  unfold Ledger.destroy
  split
  · unfold Ledger.alive
    rw [List.getElem?_modify_eq]
    cases l.objects[id]? <;> rfl
  · rename_i hdead
    exact Bool.eq_false_of_not_eq_true hdead

/-- Nothing comes back to life. -/
theorem Ledger.alive_destroy_of_dead {l : Ledger κ} {id : Nat} (h : l.alive id = false)
    (id' : Nat) : (l.destroy id').alive id = false := by
  by_cases heq : id' = id
  · subst heq
    exact l.alive_destroy_self id'
  · unfold Ledger.destroy
    split
    · unfold Ledger.alive at h ⊢
      rw [List.getElem?_modify_ne _ _ heq]
      exact h
    · exact h

namespace Ledger.Dangling

variable {base l : Ledger κ} {ids ids' : List Nat} {id : Nat}

/-- Where something dangles the account is not kept. -/
theorem not_since (h : base.Dangling l ids) : ¬ base.Since l ids := by
  intro hs
  obtain ⟨id, hid, _, hdead⟩ := h.dead hs.faults
  rw [(hs.alive_iff id (hs.later id hid)).mpr hid] at hdead
  cases hdead

theorem mono (h : base.Dangling l ids) (hsub : ids ⊆ ids') : base.Dangling l ids' := by
  refine ⟨h.faults_le, fun hfaults => ?_⟩
  obtain ⟨id, hid, hdead⟩ := h.dead hfaults
  exact ⟨id, hsub hid, hdead⟩

theorem create (h : base.Dangling l ids) (k : κ) : base.Dangling (l.create k) ids := by
  refine ⟨h.faults_le, fun hfaults => ?_⟩
  obtain ⟨id, hid, hlt, hdead⟩ := h.dead hfaults
  refine ⟨id, hid, ?_, ?_⟩
  · rw [Ledger.create, List.length_append]
    exact hlt.trans_le (Nat.le_add_right _ _)
  · unfold Ledger.alive Ledger.create at *
    rw [List.getElem?_append_left hlt]
    exact hdead

/-- To destroy the dead object is what goes wrong. -/
theorem destroy (h : base.Dangling l (id :: ids)) : base.Dangling (l.destroy id) ids := by
  refine ⟨h.faults_le.trans (l.faults_le_destroy id), fun hfaults => ?_⟩
  have hsame : l.faults = base.faults :=
    le_antisymm ((l.faults_le_destroy id).trans_eq hfaults) h.faults_le
  obtain ⟨id', hid, hlt, hdead⟩ := h.dead hsame
  rcases List.mem_cons.mp hid with rfl | hid
  · have hfault : (l.destroy id').faults = l.faults + 1 := by
      rw [Ledger.destroy, if_neg (by rw [hdead]; exact Bool.false_ne_true)]
    omega
  · refine ⟨id', hid, ?_, Ledger.alive_destroy_of_dead hdead id⟩
    rw [l.length_destroy]
    exact hlt

/-- A pointer that outlives its object dangles. -/
theorem of_since (hs : base.Since l ids) (hid : id ∈ ids) : base.Dangling (l.destroy id) ids := by
  refine ⟨hs.faults.ge.trans (l.faults_le_destroy id), fun _ => ⟨id, hid, ?_, ?_⟩⟩
  · rw [l.length_destroy]
    exact hs.lt_length hid
  · exact l.alive_destroy_self id

end Ledger.Dangling

/-- One slot for each kind, with what is known of the object in it. -/
structure Owner (κ : Type) (P : κ → Type) where
  slot : (k : κ) → Option (Nat × P k)
  lost : List (κ × Nat)
  ledger : Ledger κ

/-- An owner of nothing. -/
def Owner.empty {P : κ → Type} : Owner κ P := ⟨fun _ => none, [], ⟨[], 0⟩⟩

namespace Owner

variable {P : κ → Type} [DecidableEq κ] (o : Owner κ P)

/-- The object in a slot, by its number. -/
def id? (k : κ) : Option Nat := (o.slot k).map Prod.fst

/-- What is known of the object in a slot. -/
def value? (k : κ) : Option (P k) := (o.slot k).map Prod.snd

/-- Creates an object for a slot; what the slot held is lost. -/
def acquire (k : κ) (v : P k) : Owner κ P where
  slot := Function.update o.slot k (some (o.ledger.objects.length, v))
  lost := o.lost ++ (o.id? k).toList.map (Prod.mk k)
  ledger := o.ledger.create k

/-- Creates an object that is kept nowhere. -/
def abandon (k : κ) : Owner κ P :=
  { o with lost := o.lost ++ [(k, o.ledger.objects.length)], ledger := o.ledger.create k }

def use (k : κ) : Owner κ P :=
  match o.id? k with
  | none => o
  | some id => { o with ledger := o.ledger.use id }

/-- Destroys the object in a slot, if there is one, and empties the slot. -/
def release (k : κ) : Owner κ P :=
  match o.id? k with
  | none => o
  | some id =>
      { o with slot := Function.update o.slot k none, ledger := o.ledger.destroy id }

/-- Empties a slot without destroying what it held. -/
def forget (k : κ) : Owner κ P :=
  { o with
    slot := Function.update o.slot k none
    lost := o.lost ++ (o.id? k).toList.map (Prod.mk k) }

/-- An object that is not alive is destroyed again. -/
def blame : Owner κ P := { o with ledger := { o.ledger with faults := o.ledger.faults + 1 } }

/-- Replaces what is known of the object in a slot. -/
def store (k : κ) (v : P k) : Owner κ P :=
  { o with slot := Function.update o.slot k ((o.id? k).map fun id => (id, v)) }

theorem slot_acquire_of_ne {k k' : κ} (hne : k' ≠ k) (v : P k) :
    (o.acquire k v).slot k' = o.slot k' :=
  Function.update_of_ne hne _ _

theorem slot_release_of_ne {k k' : κ} (hne : k' ≠ k) : (o.release k).slot k' = o.slot k' := by
  unfold release
  split
  · rfl
  · exact Function.update_of_ne hne _ _

theorem slot_forget_of_ne {k k' : κ} (hne : k' ≠ k) : (o.forget k).slot k' = o.slot k' :=
  Function.update_of_ne hne _ _

theorem slot_store_of_ne {k k' : κ} (hne : k' ≠ k) (v : P k) :
    (o.store k v).slot k' = o.slot k' :=
  Function.update_of_ne hne _ _

omit [DecidableEq κ] in
@[simp]
theorem slot_use (k : κ) : (o.use k).slot = o.slot := by
  unfold use
  split <;> rfl

@[simp]
theorem id?_acquire (k k' : κ) (v : P k) :
    (o.acquire k v).id? k' = if k' = k then some o.ledger.objects.length else o.id? k' := by
  unfold id? acquire
  by_cases h : k' = k
  · subst h
    simp
  · simp [h]

@[simp]
theorem id?_release (k k' : κ) :
    (o.release k).id? k' = if k' = k then none else o.id? k' := by
  unfold release
  cases hid : o.id? k with
  | none =>
      by_cases h : k' = k
      · simpa [h] using hid
      · simp [h]
  | some id =>
      by_cases h : k' = k
      · subst h
        simp [id?]
      · simp [id?, h]

@[simp]
theorem id?_forget (k k' : κ) :
    (o.forget k).id? k' = if k' = k then none else o.id? k' := by
  unfold id? forget
  by_cases h : k' = k
  · subst h
    simp
  · simp [h]

omit [DecidableEq κ] in
@[simp]
theorem id?_use (k k' : κ) : (o.use k).id? k' = o.id? k' := by
  unfold use
  split <;> rfl

@[simp]
theorem id?_store (k k' : κ) (v : P k) : (o.store k v).id? k' = o.id? k' := by
  unfold store
  by_cases h : k' = k
  · subst h
    unfold id?
    cases o.slot k' <;> simp
  · simp [id?, h]

theorem value?_acquire (k : κ) (v : P k) : (o.acquire k v).value? k = some v := by
  simp [value?, acquire]

theorem value?_store (k : κ) (v w : P k) (h : o.value? k = some w) :
    (o.store k v).value? k = some v := by
  obtain ⟨⟨id, w'⟩, hslot, -⟩ := Option.map_eq_some_iff.mp h
  simp [value?, store, id?, hslot]

theorem value?_release (k : κ) : (o.release k).value? k = none := by
  unfold release
  cases hid : o.id? k with
  | none =>
      have hslot := Option.map_eq_none_iff.mp hid
      simp [value?, hslot]
  | some id => simp [value?]

omit [DecidableEq κ] in
theorem id?_isSome_of_value? {k : κ} {v : P k} (h : o.value? k = some v) :
    (o.id? k).isSome = true := by
  obtain ⟨⟨id, w⟩, hslot, -⟩ := Option.map_eq_some_iff.mp h
  simp [id?, hslot]

omit [DecidableEq κ] in
theorem id?_eq_none_of_value? {k : κ} (h : o.value? k = none) : o.id? k = none := by
  have hslot := Option.map_eq_none_iff.mp h
  simp [id?, hslot]

/-- A slot that is emptied adds what it held to the lost objects. -/
theorem mem_lost_forget (k k' : κ) (id : Nat) :
    (k', id) ∈ (o.forget k).lost ↔ (k', id) ∈ o.lost ∨ k' = k ∧ o.id? k = some id := by
  cases hid : o.id? k with
  | none => simp [forget, hid]
  | some old =>
      simp only [forget, hid, Option.toList_some, List.map_cons, List.map_nil, List.mem_append,
        List.mem_singleton, Prod.mk.injEq, Option.some.injEq]
      tauto

/-- The account of an owner: nothing went wrong, and what is alive is in the slot of its
kind or lost, and not both. -/
structure Consistent : Prop where
  no_fault : o.ledger.faults = 0
  held_alive : ∀ k id, o.id? k = some id → o.ledger.objects[id]? = some (k, true)
  lost_alive : ∀ k id, (k, id) ∈ o.lost → o.ledger.objects[id]? = some (k, true)
  alive_known : ∀ k id, o.ledger.objects[id]? = some (k, true) →
    o.id? k = some id ∨ (k, id) ∈ o.lost
  apart : ∀ k id, o.id? k = some id → (k, id) ∉ o.lost

omit [DecidableEq κ] in
theorem Consistent.empty : (Owner.empty : Owner κ P).Consistent := by
  refine ⟨rfl, ?_, ?_, ?_, ?_⟩ <;> simp [Owner.empty, id?]

variable {o} (h : o.Consistent)

include h

omit [DecidableEq κ] in
theorem Consistent.id_lt {k : κ} {id : Nat} (hid : o.id? k = some id) :
    id < o.ledger.objects.length :=
  (List.getElem?_eq_some_iff.mp (h.held_alive k id hid)).1

omit [DecidableEq κ] in
theorem Consistent.lost_lt {k : κ} {id : Nat} (hid : (k, id) ∈ o.lost) :
    id < o.ledger.objects.length :=
  (List.getElem?_eq_some_iff.mp (h.lost_alive k id hid)).1

omit [DecidableEq κ] in
theorem Consistent.alive_of_id {k : κ} {id : Nat} (hid : o.id? k = some id) :
    o.ledger.alive id = true := by
  simp [Ledger.alive, h.held_alive k id hid]

omit [DecidableEq κ] in
theorem Consistent.use (k : κ) : (o.use k).Consistent := by
  unfold Owner.use
  cases hid : o.id? k with
  | none => exact h
  | some id =>
      simp only [Ledger.use, h.alive_of_id hid, if_true]
      exact h

/-- What a slot loses and a new object gains. -/
theorem Consistent.acquire (k : κ) (v : P k) : (o.acquire k v).Consistent := by
  have hlost : ∀ k' id, (k', id) ∈ (o.acquire k v).lost ↔ _ := o.mem_lost_forget k
  refine ⟨h.no_fault, ?_, ?_, ?_, ?_⟩
  · intro k' id hid
    rw [id?_acquire] at hid
    apply (Ledger.getElem?_create _ _ _ _).mpr
    split at hid
    · rename_i heq
      exact Or.inr ⟨(Option.some.inj hid).symm, heq⟩
    · exact Or.inl (h.held_alive k' id hid)
  · intro k' id hid
    apply (Ledger.getElem?_create _ _ _ _).mpr
    rcases (hlost k' id).mp hid with hid | ⟨rfl, hid⟩
    · exact Or.inl (h.lost_alive k' id hid)
    · exact Or.inl (h.held_alive k' id hid)
  · intro k' id halive
    rw [id?_acquire, hlost]
    rcases (Ledger.getElem?_create _ _ _ _).mp halive with halive | ⟨rfl, rfl⟩
    · rcases h.alive_known k' id halive with hid | hid
      · by_cases heq : k' = k
        · subst heq
          exact Or.inr (Or.inr ⟨rfl, hid⟩)
        · exact Or.inl (by rw [if_neg heq]; exact hid)
      · exact Or.inr (Or.inl hid)
    · exact Or.inl (if_pos rfl)
  · intro k' id hid hmem
    rw [id?_acquire] at hid
    have hlt : id < o.ledger.objects.length := by
      rcases (hlost k' id).mp hmem with hmem | ⟨-, hmem⟩
      · exact h.lost_lt hmem
      · exact h.id_lt hmem
    split at hid
    · rw [Option.some.inj hid] at hlt
      exact lt_irrefl _ hlt
    · rename_i hne
      rcases (hlost k' id).mp hmem with hmem | ⟨heq, -⟩
      · exact h.apart k' id hid hmem
      · exact hne heq

omit [DecidableEq κ] in
theorem Consistent.abandon (k : κ) : (o.abandon k).Consistent := by
  have hlost : ∀ k' id, (k', id) ∈ (o.abandon k).lost ↔
      (k', id) ∈ o.lost ∨ k' = k ∧ id = o.ledger.objects.length := by
    intro k' id
    simp [Owner.abandon]
  refine ⟨h.no_fault, ?_, ?_, ?_, ?_⟩
  · intro k' id hid
    exact (Ledger.getElem?_create _ _ _ _).mpr (Or.inl (h.held_alive k' id hid))
  · intro k' id hid
    apply (Ledger.getElem?_create _ _ _ _).mpr
    rcases (hlost k' id).mp hid with hid | ⟨rfl, rfl⟩
    · exact Or.inl (h.lost_alive k' id hid)
    · exact Or.inr ⟨rfl, rfl⟩
  · intro k' id halive
    rw [hlost]
    rcases (Ledger.getElem?_create _ _ _ _).mp halive with halive | ⟨rfl, rfl⟩
    · exact (h.alive_known k' id halive).imp_right Or.inl
    · exact Or.inr (Or.inr ⟨rfl, rfl⟩)
  · intro k' id hid hmem
    rcases (hlost k' id).mp hmem with hmem | ⟨-, rfl⟩
    · exact h.apart k' id hid hmem
    · exact lt_irrefl _ (h.id_lt hid)

theorem Consistent.release (k : κ) : (o.release k).Consistent := by
  cases hid : o.id? k with
  | none =>
      have : o.release k = o := by simp [Owner.release, hid]
      rw [this]
      exact h
  | some id =>
      have hlost : (o.release k).lost = o.lost := by simp [Owner.release, hid]
      have halive : ∀ k' id', (o.release k).ledger.objects[id']? = some (k', true) ↔
          o.ledger.objects[id']? = some (k', true) ∧ id' ≠ id := by
        intro k' id'
        have hledger : (o.release k).ledger = o.ledger.destroy id := by simp [Owner.release, hid]
        rw [hledger, Ledger.getElem?_destroy (h.alive_of_id hid)]
      have hkind : ∀ k' id', o.ledger.objects[id']? = some (k', true) → id' = id → k' = k := by
        rintro k' id' hget rfl
        rw [h.held_alive k id' hid] at hget
        simpa using hget.symm
      refine ⟨?_, ?_, ?_, ?_, ?_⟩
      · simp [Owner.release, hid, Ledger.destroy, h.alive_of_id hid, h.no_fault]
      · intro k' id' hid'
        rw [id?_release] at hid'
        split at hid'
        · cases hid'
        · rename_i hne
          have hget := h.held_alive k' id' hid'
          exact (halive k' id').mpr ⟨hget, fun heq => hne (hkind k' id' hget heq)⟩
      · intro k' id' hmem
        rw [hlost] at hmem
        have hget := h.lost_alive k' id' hmem
        refine (halive k' id').mpr ⟨hget, ?_⟩
        rintro rfl
        rw [hkind k' id' hget rfl] at hmem
        exact h.apart k id' hid hmem
      · intro k' id' hget
        obtain ⟨hget, hne⟩ := (halive k' id').mp hget
        rw [hlost, id?_release]
        rcases h.alive_known k' id' hget with hid' | hmem
        · refine Or.inl ?_
          rw [if_neg]
          · exact hid'
          · rintro rfl
            exact hne (Option.some.inj (hid'.symm.trans hid))
        · exact Or.inr hmem
      · intro k' id' hid' hmem
        rw [hlost] at hmem
        rw [id?_release] at hid'
        split at hid'
        · cases hid'
        · exact h.apart k' id' hid' hmem

theorem Consistent.forget (k : κ) : (o.forget k).Consistent := by
  have hlost := o.mem_lost_forget k
  refine ⟨h.no_fault, ?_, ?_, ?_, ?_⟩
  · intro k' id hid
    rw [id?_forget] at hid
    split at hid
    · cases hid
    · exact h.held_alive k' id hid
  · intro k' id hmem
    rcases (hlost k' id).mp hmem with hmem | ⟨rfl, hid⟩
    · exact h.lost_alive k' id hmem
    · exact h.held_alive k' id hid
  · intro k' id halive
    rw [hlost, id?_forget]
    rcases h.alive_known k' id halive with hid | hmem
    · by_cases heq : k' = k
      · subst heq
        exact Or.inr (Or.inr ⟨rfl, hid⟩)
      · exact Or.inl (by rw [if_neg heq]; exact hid)
    · exact Or.inr (Or.inl hmem)
  · intro k' id hid hmem
    rw [id?_forget] at hid
    split at hid
    · cases hid
    · rename_i hne
      rcases (hlost k' id).mp hmem with hmem | ⟨heq, -⟩
      · exact h.apart k' id hid hmem
      · exact hne heq

theorem Consistent.store (k : κ) (v : P k) : (o.store k v).Consistent := by
  refine ⟨h.no_fault, ?_, h.lost_alive, ?_, ?_⟩
  · intro k' id hid
    exact h.held_alive k' id (by simpa using hid)
  · intro k' id halive
    rw [id?_store]
    exact h.alive_known k' id halive
  · intro k' id hid
    exact h.apart k' id (by simpa using hid)

omit [DecidableEq κ] in
/-- Where the account is kept, everything is settled exactly when nothing is held and
nothing lost. -/
theorem Consistent.settled_iff :
    o.ledger.Settled ↔ (∀ k, o.id? k = none) ∧ o.lost = [] := by
  constructor
  · rintro ⟨-, hdead⟩
    have hnone : ∀ (k : κ) (id : Nat), o.ledger.objects[id]? ≠ some (k, true) := by
      intro k id hget
      have := hdead (k, true) (List.mem_of_getElem? hget)
      simp at this
    refine ⟨?_, List.eq_nil_iff_forall_not_mem.mpr ?_⟩
    · intro k
      cases hid : o.id? k with
      | none => rfl
      | some id => exact absurd (h.held_alive k id hid) (hnone k id)
    · rintro ⟨k, id⟩ hmem
      exact hnone k id (h.lost_alive k id hmem)
  · rintro ⟨hheld, hlost⟩
    refine ⟨h.no_fault, ?_⟩
    rintro ⟨k, alive⟩ hmem
    cases alive with
    | false => rfl
    | true =>
        obtain ⟨id, hid⟩ := List.mem_iff_getElem?.mp hmem
        rcases h.alive_known k id hid with hid | hid
        · simp [hheld k] at hid
        · simp [hlost] at hid

omit h

/-- Of an owner whose account is kept: what may be in its slots, and what may be lost. -/
structure Within (o : Owner κ P) (held lossy : Finset κ) : Prop where
  consistent : o.Consistent
  empty_of_notMem : ∀ k, k ∉ held → o.id? k = none
  lost_mem : ∀ k id, (k, id) ∈ o.lost → k ∈ lossy

namespace Within

variable {K K' L : Finset κ} {k₀ : κ}

omit [DecidableEq κ] in
theorem empty : (Owner.empty : Owner κ P).Within ∅ L := by
  refine ⟨Consistent.empty, fun _ _ => rfl, ?_⟩
  intro k id hmem
  cases hmem

omit [DecidableEq κ] in
theorem mono (h : o.Within K L) (hK : K ⊆ K') : o.Within K' L :=
  ⟨h.consistent, fun k hk => h.empty_of_notMem k fun hmem => hk (hK hmem), h.lost_mem⟩

omit [DecidableEq κ] in
theorem use (h : o.Within K L) (k : κ) : (o.use k).Within K L := by
  refine ⟨h.consistent.use k, ?_, ?_⟩
  · intro k' hk'
    rw [id?_use]
    exact h.empty_of_notMem k' hk'
  · have hlost : (o.use k).lost = o.lost := by
      unfold Owner.use
      split <;> rfl
    rw [hlost]
    exact h.lost_mem

/-- What an acquisition may lose is what the slot may hold. -/
theorem acquire (h : o.Within K L) (k : κ) (v : P k) (hfree : o.id? k = none ∨ k ∈ L) :
    (o.acquire k v).Within (insert k K) L := by
  refine ⟨h.consistent.acquire k v, ?_, ?_⟩
  · intro k' hk'
    rw [Finset.mem_insert, not_or] at hk'
    rw [id?_acquire, if_neg hk'.1]
    exact h.empty_of_notMem k' hk'.2
  · intro k' id hmem
    rcases (o.mem_lost_forget k k' id).mp hmem with hmem | ⟨rfl, hid⟩
    · exact h.lost_mem k' id hmem
    · rcases hfree with hfree | hfree
      · rw [hfree] at hid
        cases hid
      · exact hfree

omit [DecidableEq κ] in
theorem abandon (h : o.Within K L) {k : κ} (hk : k ∈ L) : (o.abandon k).Within K L := by
  refine ⟨h.consistent.abandon k, h.empty_of_notMem, ?_⟩
  intro k' id hmem
  simp only [Owner.abandon, List.mem_append, List.mem_singleton, Prod.mk.injEq] at hmem
  rcases hmem with hmem | ⟨rfl, -⟩
  · exact h.lost_mem k' id hmem
  · exact hk

/-- A slot that is known to be empty need not be counted. -/
theorem shrink (h : o.Within (insert k₀ K) L) (hnone : o.id? k₀ = none) : o.Within K L := by
  refine ⟨h.consistent, ?_, h.lost_mem⟩
  intro k hk
  by_cases heq : k = k₀
  · rw [heq]
    exact hnone
  · exact h.empty_of_notMem k (by simp [heq, hk])

theorem release (h : o.Within (insert k₀ K) L) : (o.release k₀).Within K L := by
  refine ⟨h.consistent.release k₀, ?_, ?_⟩
  · intro k' hk'
    rw [id?_release]
    split
    · rfl
    · rename_i hne
      exact h.empty_of_notMem k' (by simp [hne, hk'])
  · have hlost : (o.release k₀).lost = o.lost := by
      unfold Owner.release
      split <;> rfl
    rw [hlost]
    exact h.lost_mem

theorem forget (h : o.Within (insert k₀ K) L) (hfree : o.id? k₀ = none ∨ k₀ ∈ L) :
    (o.forget k₀).Within K L := by
  refine ⟨h.consistent.forget k₀, ?_, ?_⟩
  · intro k' hk'
    rw [id?_forget]
    split
    · rfl
    · rename_i hne
      exact h.empty_of_notMem k' (by simp [hne, hk'])
  · intro k' id hmem
    rcases (o.mem_lost_forget k₀ k' id).mp hmem with hmem | ⟨rfl, hid⟩
    · exact h.lost_mem k' id hmem
    · rcases hfree with hfree | hfree
      · rw [hfree] at hid
        cases hid
      · exact hfree

theorem store (h : o.Within K L) (k : κ) (v : P k) : (o.store k v).Within K L := by
  refine ⟨h.consistent.store k v, ?_, h.lost_mem⟩
  intro k' hk'
  rw [id?_store]
  exact h.empty_of_notMem k' hk'

omit [DecidableEq κ] in
/-- What is still alive is what may be held or lost. -/
theorem alive_mem (h : o.Within K L) {k : κ} (hmem : (k, true) ∈ o.ledger.objects) :
    k ∈ K ∨ k ∈ L := by
  obtain ⟨id, hid⟩ := List.mem_iff_getElem?.mp hmem
  rcases h.consistent.alive_known k id hid with hid | hid
  · refine Or.inl (by_contra fun hk => ?_)
    rw [h.empty_of_notMem k hk] at hid
    cases hid
  · exact Or.inr (h.lost_mem k id hid)

end Within

end Owner

end Ownership

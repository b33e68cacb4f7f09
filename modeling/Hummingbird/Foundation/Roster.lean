import Mathlib.Tactic

/-!
Tables with a bound in which every key has one holder. An entry is refused when the table is
full or when its key is taken. After any run of entries the table is what came first under
each key, cut at the bound.
-/

namespace Roster

variable {α κ : Type} [DecidableEq κ] {key : α → κ} {cap : Nat} {l as : List α} {a : α} {k : κ}

/-- Enters what has a free key while there is room. -/
def enter (key : α → κ) (cap : Nat) (l : List α) (a : α) : List α :=
  if l.length < cap ∧ ∀ e ∈ l, key e ≠ key a then l ++ [a] else l

/-- The test for the key before the one for room. -/
theorem enter_taken_full (l : List α) (a : α) : enter key cap l a =
    if l.any fun e => key e = key a then l else if l.length ≥ cap then l else l ++ [a] := by
  unfold enter
  by_cases htaken : l.any fun e => key e = key a
  · rw [if_pos htaken, if_neg]
    rintro ⟨-, hfree⟩
    obtain ⟨e, he, heq⟩ := List.any_eq_true.mp htaken
    exact hfree e he (of_decide_eq_true heq)
  · have hfree : ∀ e ∈ l, key e ≠ key a := by simpa using htaken
    rw [if_neg htaken]
    by_cases hfull : l.length ≥ cap
    · rw [if_pos hfull, if_neg fun h => not_lt.mpr hfull h.1]
    · rw [if_neg hfull, if_pos ⟨not_le.mp hfull, hfree⟩]

/-- The test for room before the one for the key. -/
theorem enter_full_taken (l : List α) (a : α) : enter key cap l a =
    if l.length ≥ cap then l else if l.any fun e => key e = key a then l else l ++ [a] := by
  rw [enter_taken_full]
  split_ifs <;> rfl

/-- What came first under each key. -/
def firsts (key : α → κ) : List α → List α
  | [] => []
  | a :: as => a :: (firsts key as).filter fun e => key e ≠ key a

/-- The table after a run: what is in it, and behind it the first of each key that is new. -/
theorem foldl_enter (hl : l.length ≤ cap) (as : List α) :
    as.foldl (enter key cap) l =
      (l ++ (firsts key as).filter fun a => ∀ e ∈ l, key e ≠ key a).take cap := by
  induction as generalizing l with
  | nil => simp [firsts, List.take_of_length_le hl]
  | cons a as ih =>
      rw [List.foldl_cons, enter]
      by_cases hin : l.length < cap ∧ ∀ e ∈ l, key e ≠ key a
      · have hlen : (l ++ [a]).length ≤ cap := by
          rw [List.length_append, List.length_singleton]
          exact hin.1
        have hfree : (firsts key as).filter (fun b => ∀ e ∈ l ++ [a], key e ≠ key b) =
            ((firsts key as).filter fun b => key b ≠ key a).filter fun b =>
              ∀ e ∈ l, key e ≠ key b := by
          rw [List.filter_filter]
          apply List.filter_congr
          intro b _
          simp [or_imp, forall_and, eq_comm]
        rw [if_pos hin, ih hlen, hfree, firsts, List.filter_cons_of_pos (by simpa using hin.2),
          List.append_assoc, List.singleton_append]
      · rw [if_neg hin, ih hl]
        by_cases hroom : l.length < cap
        · -- the key is taken, and the entry is not among those that are new
          have htaken : ¬ ∀ e ∈ l, key e ≠ key a := fun h => hin ⟨hroom, h⟩
          have hfree : (firsts key as).filter (fun b => ∀ e ∈ l, key e ≠ key b) =
              ((firsts key as).filter fun b => key b ≠ key a).filter fun b =>
                ∀ e ∈ l, key e ≠ key b := by
            rw [List.filter_filter]
            apply List.filter_congr
            intro b _
            obtain ⟨e, he, hea⟩ : ∃ e ∈ l, key e = key a := by simpa using htaken
            by_cases hb : ∀ e ∈ l, key e ≠ key b
            · have hne : key b ≠ key a := fun h => hb e he (hea.trans h.symm)
              simp [hne]
            · simp only [decide_eq_false hb, Bool.false_and]
          rw [firsts, List.filter_cons_of_neg (by simpa using htaken), ← hfree]
        · rw [List.take_append_of_le_length (not_lt.mp hroom),
            List.take_append_of_le_length (not_lt.mp hroom)]

theorem mem_firsts (h : a ∈ firsts key as) : a ∈ as := by
  induction as with
  | nil => exact h
  | cons b as ih =>
      rcases List.mem_cons.mp h with rfl | h
      · exact List.mem_cons_self
      · exact List.mem_cons_of_mem _ (ih (List.mem_of_mem_filter h))

theorem nodup_firsts (key : α → κ) (as : List α) : ((firsts key as).map key).Nodup := by
  induction as with
  | nil => exact List.nodup_nil
  | cons a as ih =>
      refine List.nodup_cons.mpr ⟨?_, ih.sublist (List.filter_sublist.map key)⟩
      simp

/-- As many as there are keys. -/
theorem length_firsts (key : α → κ) (as : List α) :
    (firsts key as).length = (as.map key).toFinset.card := by
  rw [← List.length_map key, ← List.toFinset_card_of_nodup (nodup_firsts key as)]
  congr 1
  induction as with
  | nil => rfl
  | cons a as ih =>
      ext k
      have hk := Finset.ext_iff.mp ih k
      simp only [List.mem_toFinset, List.mem_map] at hk
      simp only [firsts, List.map_cons, List.toFinset_cons, Finset.mem_insert, List.mem_toFinset,
        List.mem_map, List.mem_filter, decide_eq_true_eq, ← hk]
      by_cases heq : k = key a
      · simp [heq]
      · simp only [heq, false_or]
        constructor
        · rintro ⟨e, ⟨he, -⟩, rfl⟩
          exact ⟨e, he, rfl⟩
        · rintro ⟨e, he, rfl⟩
          exact ⟨e, ⟨he, heq⟩, rfl⟩

theorem foldl_enter_nil (as : List α) :
    as.foldl (enter key cap) [] = (firsts key as).take cap := by
  rw [foldl_enter (Nat.zero_le _)]
  simp

/-- No run gives a key two holders. -/
theorem nodup_foldl_enter (as : List α) : ((as.foldl (enter key cap) []).map key).Nodup := by
  rw [foldl_enter_nil]
  exact (nodup_firsts key as).sublist ((List.take_sublist _ _).map key)

/-- What stays after the rest of a run is what was there. -/
theorem isPrefix_foldl_enter (hl : l.length ≤ cap) (as : List α) :
    l <+: as.foldl (enter key cap) l := by
  rw [foldl_enter hl, List.take_append, List.take_of_length_le hl]
  exact List.prefix_append _ _

/-- What came first under a key holds it, if fewer keys than the bound came before. -/
theorem find?_of_first {before after : List α} (hbefore : ∀ e ∈ before, key e ≠ key a)
    (hcard : (before.map key).toFinset.card < cap) :
    ((before ++ a :: after).foldl (enter key cap) []).find? (fun e => key e = key a) = some a := by
  rw [← length_firsts] at hcard
  have htable : before.foldl (enter key cap) [] = firsts key before := by
    rw [foldl_enter_nil, List.take_of_length_le hcard.le]
  have hnew : ∀ e ∈ firsts key before, key e ≠ key a := fun e he => hbefore e (mem_firsts he)
  have hlen : (firsts key before ++ [a]).length ≤ cap := by
    rw [List.length_append, List.length_singleton]
    exact hcard
  rw [List.foldl_append, htable, List.foldl_cons, enter, if_pos ⟨hcard, hnew⟩]
  obtain ⟨rest, hrest⟩ : firsts key before ++ [a] <+:
      after.foldl (enter key cap) (firsts key before ++ [a]) := isPrefix_foldl_enter hlen after
  rw [← hrest, List.find?_append, List.find?_append,
    List.find?_eq_none.mpr fun e he => by simpa using hnew e he]
  simp

/-- The holder of a key is what came first under it, if fewer keys than the bound came
before. -/
theorem find?_foldl_enter : (as.foldl (enter key cap) []).find? (fun e => key e = k) = some a ↔
    key a = k ∧ ∃ before after, as = before ++ a :: after ∧ (∀ e ∈ before, key e ≠ k) ∧
      (before.map key).toFinset.card < cap := by
  constructor
  · intro h
    have hmem := List.mem_of_find?_eq_some h
    have hkey : key a = k := by simpa using List.find?_some h
    have hin : a ∈ as := by
      rw [foldl_enter_nil] at hmem
      exact mem_firsts (List.mem_of_mem_take hmem)
    obtain ⟨b, hb⟩ : ∃ b, as.find? (fun e => key e = k) = some b := by
      rw [← Option.isSome_iff_exists, List.find?_isSome]
      exact ⟨a, hin, by simpa using hkey⟩
    obtain ⟨hbk, before, after, rfl, hbefore⟩ := List.find?_eq_some_iff_append.mp hb
    obtain rfl : key b = k := by simpa using hbk
    have hfirst : ∀ e ∈ before, key e ≠ key b := fun e he => by simpa using hbefore e he
    by_cases hcard : (before.map key).toFinset.card < cap
    · rw [find?_of_first hfirst hcard] at h
      cases h
      exact ⟨rfl, before, after, rfl, hfirst, hcard⟩
    · -- the table is full before the first entry under the key
      have hlen : (before.foldl (enter key cap) []).length = cap := by
        rw [foldl_enter_nil, List.length_take, length_firsts]
        omega
      rw [List.foldl_append, foldl_enter hlen.le, List.take_append_of_le_length hlen.ge,
        foldl_enter_nil, List.take_take] at hmem
      exact absurd hkey (hfirst a (mem_firsts (List.mem_of_mem_take hmem)))
  · rintro ⟨rfl, before, after, rfl, hbefore, hcard⟩
    exact find?_of_first hbefore hcard

/-- Where every key has one holder, what is found by other means is found by its key. -/
theorem find?_key (hnodup : (l.map key).Nodup) {p : α → Bool} (h : l.find? p = some a) :
    l.find? (fun e => key e = key a) = some a := by
  have ha := List.mem_of_find?_eq_some h
  obtain ⟨b, hb⟩ : ∃ b, l.find? (fun e => key e = key a) = some b := by
    rw [← Option.isSome_iff_exists, List.find?_isSome]
    exact ⟨a, ha, by simp⟩
  have hkey : key b = key a := by simpa using List.find?_some hb
  rw [hb, List.inj_on_of_nodup_map hnodup (List.mem_of_find?_eq_some hb) ha hkey]

/-- A call on a table. -/
inductive Call (α : Type) where
  | enter (a : α)
  | clear

/-- The entries that were asked for since the table was last cleared. -/
def asked (as : List α) : List (Call α) → List α
  | [] => as
  | .enter a :: calls => asked (as ++ [a]) calls
  | .clear :: calls => asked [] calls

section Offers

variable {β : Type} (offer : β → Option α)

/-- A call that may offer something that is no entry, and then does nothing. -/
def Call.nextOffer (key : α → κ) (cap : Nat) (l : List α) : Call β → List α
  | .enter b => (offer b).elim l (Roster.enter key cap l)
  | .clear => []

/-- A table to which things are offered is the one of the offers that were entries. -/
theorem foldl_nextOffer (bs : List β) (calls : List (Call β)) :
    calls.foldl (Call.nextOffer offer key cap) ((bs.filterMap offer).foldl (enter key cap) []) =
      ((asked bs calls).filterMap offer).foldl (enter key cap) [] := by
  induction calls generalizing bs with
  | nil => rfl
  | cons call calls ih =>
      cases call with
      | clear => rw [List.foldl_cons, asked, ← ih]; rfl
      | enter b =>
          rw [List.foldl_cons, asked, ← ih, List.filterMap_append, List.foldl_append]
          congr 1
          cases hb : offer b with
          | none => simp [Call.nextOffer, hb]
          | some a => simp [Call.nextOffer, hb]

/-- So is one whose step does what a call does. -/
theorem foldl_step {step : List α → Call β → List α}
    (hstep : ∀ l call, step l call = call.nextOffer offer key cap l) (calls : List (Call β)) :
    calls.foldl step [] = ((asked [] calls).filterMap offer).foldl (enter key cap) [] := by
  rw [← foldl_nextOffer]
  exact List.foldl_ext _ _ _ fun l call _ => hstep l call

end Offers

end Roster

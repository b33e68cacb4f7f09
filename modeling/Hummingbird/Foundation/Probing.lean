import Mathlib.Tactic
import Mathlib.Data.List.GetD
import Hummingbird.Foundation.Ring

/-!
Open addressing with linear probing. A table is a list of slots, some of them
occupied by an entry with a key; the slots a key may use are visited from its hash on,
around the table once. Without deletions a search may stop at the first slot that is
free: no entry of the table stands behind a free slot of its own visit. The default
`d` stands for a free slot.
-/

namespace Probing

variable {ε κ : Type} (occ : ε → Bool) (key : ε → κ) (hash : κ → Nat) (d : ε)

/-- The slots of a table of `n` slots in the order a key visits them. -/
def probe (n : Nat) (k : κ) : List Nat := (List.range n).map fun i => (hash k + i) % n

/-- The search for a key along a visit: it ends at a free slot. -/
def find [DecidableEq κ] (table : List ε) (k : κ) : List Nat → Option Nat
  | [] => none
  | s :: slots =>
      if occ (table.getD s d) = false then none
      else if key (table.getD s d) = k then some s
      else find table k slots

/-- The first free slot along a visit. -/
def free (table : List ε) (slots : List Nat) : Option Nat :=
  slots.find? fun s => !occ (table.getD s d)

/-- Occupied slots have different keys, and what an entry's visit meets before the entry
is occupied. -/
structure Inv (table : List ε) : Prop where
  keys : ∀ s t, occ (table.getD s d) = true → occ (table.getD t d) = true →
    key (table.getD s d) = key (table.getD t d) → s = t
  chain : ∀ j < table.length, ∀ k,
    occ (table.getD ((hash k + j) % table.length) d) = true →
    key (table.getD ((hash k + j) % table.length) d) = k →
    ∀ i < j, occ (table.getD ((hash k + i) % table.length) d) = true

/-- A new entry enters the first free slot of its visit. -/
def insert (table : List ε) (e : ε) : List ε :=
  match free occ d table (probe hash table.length (key e)) with
  | some s => table.set s e
  | none => table

/-- The occupied slots of a table enter an empty one in turn. -/
def rehash (n : Nat) (old : List ε) : List ε :=
  old.foldl (fun table e => if occ e then insert occ key hash d table e else table)
    (List.replicate n d)

/-- An entry of a table. -/
def Entry (table : List ε) (x : ε) : Prop := x ∈ table ∧ occ x = true

variable {occ key hash d}

theorem lt_length_of_occ (hd : occ d = false) {table : List ε} {s : Nat}
    (h : occ (table.getD s d) = true) : s < table.length := by
  by_contra hge
  rw [List.getD_eq_default _ _ (not_lt.mp hge), hd] at h
  exact absurd h (by decide)

theorem entry_iff (hd : occ d = false) {table : List ε} {x : ε} :
    Entry occ table x ↔ ∃ s, occ (table.getD s d) = true ∧ table.getD s d = x := by
  constructor
  · rintro ⟨hx, hocc⟩
    obtain ⟨s, hs, rfl⟩ := List.getElem_of_mem hx
    rw [← List.getD_eq_getElem _ d hs] at hocc ⊢
    exact ⟨s, hocc, rfl⟩
  · rintro ⟨s, hocc, rfl⟩
    refine ⟨?_, hocc⟩
    rw [List.getD_eq_getElem _ d (lt_length_of_occ hd hocc)]
    exact List.getElem_mem _

/-- Every slot is visited. -/
theorem exists_visit (hash : κ → Nat) {n s : Nat} (k : κ) (hs : s < n) :
    ∃ j < n, (hash k + j) % n = s := by
  refine ⟨(s + (n - hash k % n)) % n, Nat.mod_lt _ (by omega), ?_⟩
  have hlt := Nat.mod_lt (hash k) (show 0 < n by omega)
  have hsum : hash k % n + (s + (n - hash k % n)) = s + n := by omega
  rw [Nat.add_mod_mod, ← Nat.mod_add_mod, hsum, Nat.add_mod_right, Nat.mod_eq_of_lt hs]

theorem probe_split (hash : κ → Nat) {n j : Nat} (k : κ) (hj : j < n) :
    ∃ later, probe hash n k =
      ((List.range j).map fun i => (hash k + i) % n) ++ (hash k + j) % n :: later := by
  refine ⟨(List.range' (j + 1) (n - (j + 1))).map fun i => (hash k + i) % n, ?_⟩
  have hsplit : List.range n = List.range j ++ j :: List.range' (j + 1) (n - (j + 1)) := by
    have happend := @List.range'_append_1 0 j (n - (j + 1) + 1)
    rw [Nat.zero_add, show j + (n - (j + 1) + 1) = n by omega] at happend
    rw [List.range_eq_range', List.range_eq_range', ← List.range'_succ, happend]
  rw [probe, hsplit, List.map_append, List.map_cons]

theorem find_skip [DecidableEq κ] {table : List ε} {k : κ} {slots later : List Nat}
    (h : ∀ s ∈ slots, occ (table.getD s d) = true ∧ key (table.getD s d) ≠ k) :
    find occ key d table k (slots ++ later) = find occ key d table k later := by
  induction slots with
  | nil => rfl
  | cons s slots ih =>
      obtain ⟨hocc, hne⟩ := h s (by simp)
      rw [List.cons_append, find, if_neg (by rw [hocc]; decide), if_neg hne]
      exact ih fun s' hs' => h s' (by simp [hs'])

/-- What a search returns holds the key. -/
theorem find_some [DecidableEq κ] {table : List ε} {k : κ} {slots : List Nat} {s : Nat}
    (h : find occ key d table k slots = some s) :
    occ (table.getD s d) = true ∧ key (table.getD s d) = k := by
  induction slots with
  | nil => simp [find] at h
  | cons s' slots ih =>
      rw [find] at h
      split at h
      · simp at h
      · rename_i hocc
        split at h
        · rename_i hkey
          obtain rfl := Option.some.inj h
          exact ⟨by simpa using hocc, hkey⟩
        · exact ih h

/-- The search along a key's visit finds the key wherever it is. -/
theorem Inv.find_iff [DecidableEq κ] {table : List ε} (hinv : Inv occ key hash d table)
    (hd : occ d = false) {k : κ} {s : Nat} :
    find occ key d table k (probe hash table.length k) = some s ↔
      occ (table.getD s d) = true ∧ key (table.getD s d) = k := by
  constructor
  · exact find_some
  · rintro ⟨hocc, hkey⟩
    obtain ⟨j, hj, rfl⟩ := exists_visit hash k (lt_length_of_occ hd hocc)
    obtain ⟨later, hprobe⟩ := probe_split hash k hj
    rw [hprobe, find_skip, find, if_neg (by rw [hocc]; decide), if_pos hkey]
    intro t ht
    obtain ⟨i, hi, rfl⟩ := List.mem_map.mp ht
    have hi := List.mem_range.mp hi
    have hocc' := hinv.chain j hj k hocc hkey i hi
    refine ⟨hocc', fun hkey' => ?_⟩
    exact Ring.slot_ne hi hj (hinv.keys _ _ hocc hocc' (hkey.trans hkey'.symm))

theorem free_some {table : List ε} {k : κ} {s : Nat}
    (h : free occ d table (probe hash table.length k) = some s) :
    ∃ j < table.length, s = (hash k + j) % table.length ∧ s < table.length ∧
      occ (table.getD s d) = false ∧
      ∀ i < j, occ (table.getD ((hash k + i) % table.length) d) = true := by
  obtain ⟨hfree, before, later, hsplit, hbefore⟩ := List.find?_eq_some_iff_append.mp h
  have hlen : before.length < table.length := by
    have hlen := congrArg List.length hsplit
    simp only [probe, List.length_map, List.length_range, List.length_append,
      List.length_cons] at hlen
    omega
  have hat : ∀ i < table.length, (probe hash table.length k)[i]? =
      some ((hash k + i) % table.length) := by
    intro i hi
    simp [probe, hi]
  have hs : s = (hash k + before.length) % table.length := by
    have hslot := hat before.length hlen
    rw [hsplit, List.getElem?_append_right le_rfl] at hslot
    simpa using hslot
  refine ⟨before.length, hlen, hs, ?_, by simpa using hfree, ?_⟩
  · rw [hs]
    exact Nat.mod_lt _ (by omega)
  · intro i hi
    have hslot := hat i (by omega)
    rw [hsplit, List.getElem?_append_left hi] at hslot
    simpa using hbefore _ (List.mem_of_getElem? hslot)

/-- A table with a free slot has one on every visit. -/
theorem exists_free {table : List ε} {k : κ} (h : table.countP occ < table.length) :
    ∃ s, free occ d table (probe hash table.length k) = some s := by
  obtain ⟨e, he, hocc⟩ : ∃ e ∈ table, occ e = false := by
    by_contra hall
    push Not at hall
    have hcount := List.countP_eq_length.mpr fun e he => (by simpa using hall e he)
    omega
  obtain ⟨s, hs, rfl⟩ := List.getElem_of_mem he
  obtain ⟨j, hj, hvisit⟩ := exists_visit hash k hs
  apply Option.isSome_iff_exists.mp
  apply List.find?_isSome.mpr
  refine ⟨s, List.mem_map.mpr ⟨j, List.mem_range.mpr hj, hvisit⟩, ?_⟩
  rw [List.getD_eq_getElem _ _ hs, hocc]
  rfl

section Occupy

variable {table : List ε} {e : ε} {s : Nat}

theorem entry_set_free (hs : s < table.length) (hfree : occ (table.getD s d) = false)
    (he : occ e = true) (x : ε) :
    Entry occ (table.set s e) x ↔ x = e ∨ Entry occ table x := by
  rw [List.getD_eq_getElem _ _ hs] at hfree
  constructor
  · rintro ⟨hx, hocc⟩
    rcases List.mem_or_eq_of_mem_set hx with hx | rfl
    · exact Or.inr ⟨hx, hocc⟩
    · exact Or.inl rfl
  · rintro (rfl | ⟨hx, hocc⟩)
    · exact ⟨List.mem_set hs x, he⟩
    · refine ⟨?_, hocc⟩
      obtain ⟨t, ht, rfl⟩ := List.getElem_of_mem hx
      have hne : s ≠ t := by
        rintro rfl
        rw [hfree] at hocc
        exact absurd hocc (by decide)
      apply List.mem_of_getElem?
      rw [List.getElem?_set_ne hne, List.getElem?_eq_getElem ht]

theorem countP_set_free (hs : s < table.length) (hfree : occ (table.getD s d) = false)
    (he : occ e = true) : (table.set s e).countP occ = table.countP occ + 1 := by
  rw [List.getD_eq_getElem _ _ hs] at hfree
  rw [List.countP_set hs, hfree, he]
  simp

theorem getD_set_of_ne {t : Nat} (hne : s ≠ t) :
    (table.set s e).getD t d = table.getD t d := by
  simp [List.getD_eq_getElem?_getD, List.getElem?_set_ne hne]

theorem getD_set_self (hs : s < table.length) : (table.set s e).getD s d = e := by
  simp [List.getD_eq_getElem?_getD, hs]

/-- An entry with a new key at the first free slot of its visit keeps the invariant. -/
theorem Inv.set_free (hinv : Inv occ key hash d table) (hd : occ d = false) (he : occ e = true)
    (hfresh : ∀ x, Entry occ table x → key x ≠ key e)
    (h : free occ d table (probe hash table.length (key e)) = some s) :
    Inv occ key hash d (table.set s e) := by
  obtain ⟨j, hj, hsj, hs, hfree, hbefore⟩ := free_some h
  have hnew : ∀ t, occ (table.getD t d) = true → key (table.getD t d) ≠ key e :=
    fun t ht => hfresh _ ((entry_iff hd).mpr ⟨t, ht, rfl⟩)
  have hgrow : ∀ t, occ (table.getD t d) = true → occ ((table.set s e).getD t d) = true := by
    intro t ht
    by_cases hst : s = t
    · subst hst
      rw [getD_set_self hs]
      exact he
    · rw [getD_set_of_ne hst]
      exact ht
  constructor
  · intro t u ht hu hkey
    by_cases hst : s = t
    · by_cases hsu : s = u
      · exact hst.symm.trans hsu
      · subst hst
        rw [getD_set_of_ne hsu] at hu hkey
        rw [getD_set_self hs] at hkey
        exact absurd hkey.symm (hnew u hu)
    · rw [getD_set_of_ne hst] at ht hkey
      by_cases hsu : s = u
      · subst hsu
        rw [getD_set_self hs] at hkey
        exact absurd hkey (hnew t ht)
      · rw [getD_set_of_ne hsu] at hu hkey
        exact hinv.keys t u ht hu hkey
  · intro i hi k hocc hkey i' hi'
    rw [List.length_set] at hi hocc hkey ⊢
    apply hgrow
    by_cases hst : s = (hash k + i) % table.length
    · rw [← hst, getD_set_self hs] at hkey
      rw [hsj, ← hkey] at hst
      have hij : i = j := by
        by_contra hne
        rcases Nat.lt_or_gt_of_ne hne with hlt | hlt
        · exact Ring.slot_ne hlt hj hst
        · exact Ring.slot_ne hlt hi hst.symm
      rw [← hkey]
      exact hbefore i' (by omega)
    · rw [getD_set_of_ne hst] at hocc hkey
      exact hinv.chain i hi k hocc hkey i' hi'

end Occupy

section Replace

variable {table : List ε} {e : ε} {s : Nat}

theorem occ_set_same (hd : occ d = false) (hs : occ (table.getD s d) = true)
    (he : occ e = true) (t : Nat) : occ ((table.set s e).getD t d) = occ (table.getD t d) := by
  by_cases hst : s = t
  · subst hst
    rw [getD_set_self (lt_length_of_occ hd hs), he, hs]
  · rw [getD_set_of_ne hst]

theorem key_set_same (hd : occ d = false) (hs : occ (table.getD s d) = true)
    (hkey : key e = key (table.getD s d)) (t : Nat) :
    key ((table.set s e).getD t d) = key (table.getD t d) := by
  by_cases hst : s = t
  · subst hst
    rw [getD_set_self (lt_length_of_occ hd hs), hkey]
  · rw [getD_set_of_ne hst]

/-- Replacing an entry by one with its key keeps the invariant. -/
theorem Inv.set_same (hinv : Inv occ key hash d table) (hd : occ d = false)
    (hs : occ (table.getD s d) = true) (he : occ e = true)
    (hkey : key e = key (table.getD s d)) : Inv occ key hash d (table.set s e) := by
  constructor
  · intro t u ht hu htu
    rw [occ_set_same hd hs he] at ht hu
    rw [key_set_same hd hs hkey, key_set_same hd hs hkey] at htu
    exact hinv.keys t u ht hu htu
  · intro j hj k hocc hk i hi
    rw [List.length_set] at hj hocc hk ⊢
    rw [occ_set_same hd hs he] at hocc ⊢
    rw [key_set_same hd hs hkey] at hk
    exact hinv.chain j hj k hocc hk i hi

theorem Inv.entry_set_same (hinv : Inv occ key hash d table) (hd : occ d = false)
    (hs : occ (table.getD s d) = true) (he : occ e = true)
    (hkey : key e = key (table.getD s d)) (x : ε) :
    Entry occ (table.set s e) x ↔ x = e ∨ (Entry occ table x ∧ key x ≠ key e) := by
  have hlt := lt_length_of_occ hd hs
  constructor
  · intro hx
    obtain ⟨t, hocc, rfl⟩ := (entry_iff hd).mp hx
    by_cases hst : s = t
    · subst hst
      exact Or.inl (getD_set_self hlt)
    · rw [getD_set_of_ne hst] at hocc ⊢
      refine Or.inr ⟨(entry_iff hd).mpr ⟨t, hocc, rfl⟩, fun htk => ?_⟩
      exact hst (hinv.keys s t hs hocc (hkey.symm.trans htk.symm))
  · rintro (rfl | ⟨hx, hne⟩)
    · exact ⟨List.mem_set hlt x, he⟩
    · obtain ⟨t, hocc, rfl⟩ := (entry_iff hd).mp hx
      have hst : s ≠ t := by
        rintro rfl
        exact hne hkey.symm
      refine (entry_iff hd).mpr ⟨t, ?_, getD_set_of_ne hst⟩
      rw [getD_set_of_ne hst]
      exact hocc

end Replace

/-- Keys of a table are told apart by their entries. -/
theorem Inv.key_inj {table : List ε} (hinv : Inv occ key hash d table) (hd : occ d = false)
    {x y : ε} (hx : Entry occ table x) (hy : Entry occ table y) (h : key x = key y) : x = y := by
  obtain ⟨s, hs, rfl⟩ := (entry_iff hd).mp hx
  obtain ⟨t, ht, rfl⟩ := (entry_iff hd).mp hy
  rw [hinv.keys s t hs ht h]

theorem Inv.pairwise {table : List ε} (hinv : Inv occ key hash d table) :
    table.Pairwise fun x y => occ x = true → occ y = true → key x ≠ key y := by
  rw [List.pairwise_iff_getElem]
  intro s t hs ht hst hx hy hkey
  rw [← List.getD_eq_getElem _ d hs] at hx hkey
  rw [← List.getD_eq_getElem _ d ht] at hy hkey
  have heq := hinv.keys s t hx hy hkey
  omega

theorem inv_replicate (hd : occ d = false) (n : Nat) :
    Inv occ key hash d (List.replicate n d) := by
  have hfree : ∀ s, occ ((List.replicate n d).getD s d) ≠ true := by
    intro s hs
    have hlt := lt_length_of_occ hd hs
    rw [List.getD_eq_getElem _ _ hlt, List.getElem_replicate, hd] at hs
    exact absurd hs (by decide)
  exact ⟨fun s _ hs => absurd hs (hfree s), fun _ _ _ hs => absurd hs (hfree _)⟩

theorem insert_spec {table : List ε} {e : ε} (hinv : Inv occ key hash d table)
    (hd : occ d = false) (he : occ e = true) (hroom : table.countP occ < table.length)
    (hfresh : ∀ x, Entry occ table x → key x ≠ key e) :
    Inv occ key hash d (insert occ key hash d table e) ∧
      (insert occ key hash d table e).length = table.length ∧
      (insert occ key hash d table e).countP occ = table.countP occ + 1 ∧
      ∀ x, Entry occ (insert occ key hash d table e) x ↔ x = e ∨ Entry occ table x := by
  obtain ⟨s, hs⟩ := @exists_free ε κ occ hash d table (key e) hroom
  obtain ⟨_, _, _, hlt, hfree, _⟩ := free_some hs
  rw [insert, hs]
  exact ⟨hinv.set_free hd he hfresh hs, by simp, countP_set_free hlt hfree he,
    entry_set_free hlt hfree he⟩

/-- Inserting the occupied slots of a list one after another. -/
theorem foldl_insert_spec {old table : List ε} (hd : occ d = false)
    (hinv : Inv occ key hash d table)
    (hold : old.Pairwise fun x y => occ x = true → occ y = true → key x ≠ key y)
    (hfresh : ∀ x, Entry occ table x → ∀ y, Entry occ old y → key x ≠ key y)
    (hroom : table.countP occ + old.countP occ ≤ table.length) :
    let grown := old.foldl
      (fun table e => if occ e then insert occ key hash d table e else table) table
    Inv occ key hash d grown ∧ grown.length = table.length ∧
      grown.countP occ = table.countP occ + old.countP occ ∧
      ∀ x, Entry occ grown x ↔ Entry occ table x ∨ Entry occ old x := by
  induction old generalizing table with
  | nil => exact ⟨hinv, rfl, rfl, fun x => by simp [Entry]⟩
  | cons e old ih =>
      obtain ⟨hhead, htail⟩ := List.pairwise_cons.mp hold
      rw [List.foldl_cons]
      by_cases he : occ e = true
      · rw [List.countP_cons_of_pos he] at hroom ⊢
        rw [if_pos he]
        obtain ⟨hinv', hlen, hcount, hentry⟩ := insert_spec hinv hd he (by omega)
          fun x hx => hfresh x hx e ⟨by simp, he⟩
        obtain ⟨hgrown, hlen', hcount', hentry'⟩ := ih hinv' htail
          (by
            intro x hx y hy
            rcases (hentry x).mp hx with rfl | hx
            · exact hhead y hy.1 he hy.2
            · exact hfresh x hx y ⟨by simp [hy.1], hy.2⟩)
          (by omega)
        refine ⟨hgrown, by omega, by omega, fun x => ?_⟩
        rw [hentry', hentry, Entry, Entry, Entry, List.mem_cons]
        constructor
        · rintro ((rfl | hx) | ⟨hx, hocc⟩)
          · exact Or.inr ⟨Or.inl rfl, he⟩
          · exact Or.inl hx
          · exact Or.inr ⟨Or.inr hx, hocc⟩
        · rintro (hx | ⟨rfl | hx, hocc⟩)
          · exact Or.inl (Or.inr hx)
          · exact Or.inl (Or.inl rfl)
          · exact Or.inr ⟨hx, hocc⟩
      · rw [List.countP_cons_of_neg he] at hroom ⊢
        rw [if_neg he]
        obtain ⟨hgrown, hlen, hcount, hentry⟩ := ih hinv htail
          (fun x hx y hy => hfresh x hx y ⟨by simp [hy.1], hy.2⟩) (by omega)
        refine ⟨hgrown, hlen, by omega, fun x => ?_⟩
        rw [hentry]
        refine or_congr_right ⟨fun hx => ⟨by simp [hx.1], hx.2⟩, ?_⟩
        rintro ⟨hx, hocc⟩
        rcases List.mem_cons.mp hx with rfl | hx
        · exact absurd hocc he
        · exact ⟨hx, hocc⟩

/-- Rehashing into a table that is large enough keeps every entry. -/
theorem Inv.rehash {old : List ε} {n : Nat} (hinv : Inv occ key hash d old)
    (hd : occ d = false) (hn : old.countP occ ≤ n) :
    Inv occ key hash d (rehash occ key hash d n old) ∧
      (rehash occ key hash d n old).length = n ∧
      (rehash occ key hash d n old).countP occ = old.countP occ ∧
      ∀ x, Entry occ (rehash occ key hash d n old) x ↔ Entry occ old x := by
  have hempty : ∀ x, ¬ Entry occ (List.replicate n d) x := by
    rintro x ⟨hx, hocc⟩
    rw [(List.mem_replicate.mp hx).2, hd] at hocc
    exact absurd hocc (by decide)
  have hcount : (List.replicate n d).countP occ = 0 := by
    simp [List.countP_replicate, hd]
  obtain ⟨hgrown, hlen, hsize, hentry⟩ := foldl_insert_spec hd
    (@inv_replicate ε κ occ key hash d hd n) hinv.pairwise (fun x hx => absurd hx (hempty x))
    (by rw [hcount, List.length_replicate, Nat.zero_add]; exact hn)
  rw [List.length_replicate] at hlen
  rw [hcount, Nat.zero_add] at hsize
  refine ⟨hgrown, hlen, hsize, fun x => ?_⟩
  rw [Probing.rehash, hentry]
  exact or_iff_right (hempty x)

end Probing

import Mathlib.Tactic

/-!
Straight-line programs over shared buffers. A step reads the contents of some
values and computes contents for others; a machine says where contents live. On the
private machine every value has its own buffer. A schedule that never writes over a
value still to be read shows every step the same contents on both machines, and one
that does is told apart by some semantics of the steps.
-/

namespace BufferReuse

variable {ι β γ ε M : Type}

/-- A step as seen from outside: what it read and what it computed. -/
structure Event (ι β γ : Type) where
  step : ι
  read : List γ
  result : List β
  deriving DecidableEq, Repr

section Machine

variable [Inhabited β] (inputs outputs : ι → List Nat) (get : M → Nat → γ) (put : M → Nat → β → M)

/-- Writes the results of a step to its outputs, in order. -/
def putAll (m : M) : List Nat → List β → M
  | [], _ => m
  | v :: vs, bs => putAll (put m v (bs.headD default)) vs bs.tail

/-- Runs steps in order; a failing step ends the run. -/
def run (sem : ι → List γ → Except ε (List β)) : List ι → M → List (Event ι β γ) × Except ε M
  | [], m => ([], .ok m)
  | x :: rest, m =>
      let read := (inputs x).map (get m)
      match sem x read with
      | .error e => ([⟨x, read, []⟩], .error e)
      | .ok res =>
          let next := run sem rest (putAll put m (outputs x) res)
          (⟨x, read, res⟩ :: next.1, next.2)

/-- Where the contents of the inputs do not decide whether a step succeeds, a run succeeds
exactly when every step does. -/
theorem run_succeeds_iff {sem : ι → List γ → Except ε (List β)} {succeeds : ι → Prop}
    {steps : List ι} (hsem : ∀ x ∈ steps, ∀ read, (∃ res, sem x read = .ok res) ↔ succeeds x)
    (m : M) :
    (∃ m', (run inputs outputs get put sem steps m).2 = .ok m') ↔ ∀ x ∈ steps, succeeds x := by
  induction steps generalizing m with
  | nil => simp [run]
  | cons x rest ih =>
      have hx := hsem x (by simp) ((inputs x).map (get m))
      have hrest := ih fun y hy => hsem y (by simp [hy])
      rw [run]
      cases hres : sem x ((inputs x).map (get m)) with
      | error e =>
          rw [hres] at hx
          have hnot : ¬ succeeds x := fun h => by simpa using hx.mpr h
          simp [hnot]
      | ok res =>
          have hok : succeeds x := hx.mp ⟨res, hres⟩
          simp only [hrest, List.forall_mem_cons, hok, true_and]

end Machine

/-- The observable part of a run: the events and how it ended. -/
def observe (r : List (Event ι β γ) × Except ε M) : List (Event ι β γ) × Except ε Unit :=
  (r.1, r.2.map fun _ => ())

/-- Writing on the machine with one buffer per value. -/
def privatePut (norm : Nat → β → γ) (s : Nat → γ) (v : Nat) (b : β) : Nat → γ :=
  Function.update s v (norm v b)

section Schedule

variable (inputs outputs : ι → List Nat)

/-- A value that is read later on and was written before. -/
def Needed (rest : List ι) (v : Nat) : Prop :=
  (∃ x ∈ rest, v ∈ inputs x) ∧ ∀ x ∈ rest, v ∉ outputs x

/-- No step reads a value that itself or a later step writes. -/
def Ordered (steps : List ι) : Prop :=
  ∀ pre x rest, steps = pre ++ x :: rest → ∀ v ∈ inputs x, ∀ y ∈ x :: rest, v ∉ outputs y

/-- No write goes over a value that is needed after the step and not written again by
a later output of it. -/
def Clean (apart : Nat → Nat → Prop) (steps : List ι) : Prop :=
  ∀ pre x rest, steps = pre ++ x :: rest → ∀ o₁ w o₂, outputs x = o₁ ++ w :: o₂ →
    ∀ v, Needed inputs outputs rest v → v ∉ w :: o₂ → apart v w

variable {inputs outputs}

theorem Ordered.tail {x : ι} {rest : List ι} (h : Ordered inputs outputs (x :: rest)) :
    Ordered inputs outputs rest := by
  intro pre y suf hsplit
  exact h (x :: pre) y suf (by rw [hsplit, List.cons_append])

theorem Clean.tail {apart : Nat → Nat → Prop} {x : ι} {rest : List ι}
    (h : Clean inputs outputs apart (x :: rest)) : Clean inputs outputs apart rest := by
  intro pre y suf hsplit
  exact h (x :: pre) y suf (by rw [hsplit, List.cons_append])

end Schedule

section Soundness

variable [Inhabited β] {inputs outputs : ι → List Nat} {get : M → Nat → γ} {put : M → Nat → β → M}
  {norm : Nat → β → γ} {apart : Nat → Nat → Prop}

/-- After the same writes a value has the same contents on both machines, if it had
before or is one of the values written. -/
theorem putAll_agree (hsame : ∀ m v b, get (put m v b) v = norm v b)
    (hother : ∀ m v w b, apart v w → get (put m w b) v = get m v) {vs : List Nat} {bs : List β}
    {m : M} {s : Nat → γ} {v : Nat} (hv : v ∈ vs ∨ get m v = s v)
    (hapart : ∀ o₁ w o₂, vs = o₁ ++ w :: o₂ → v ∉ w :: o₂ → apart v w) :
    get (putAll put m vs bs) v = putAll (privatePut norm) s vs bs v := by
  induction vs generalizing m s bs with
  | nil => exact hv.resolve_left (by simp)
  | cons w vs ih =>
      rw [putAll, putAll]
      apply ih
      · by_cases hmem : v ∈ vs
        · exact Or.inl hmem
        · refine Or.inr ?_
          by_cases hvw : v = w
          · subst hvw
            rw [hsame, privatePut, Function.update_self]
          · have hget := hv.resolve_left (by simp [hvw, hmem])
            rw [hother m v w _ (hapart [] w vs rfl (by simp [hvw, hmem])), hget, privatePut,
              Function.update_of_ne hvw]
      · intro o₁ u o₂ hsplit
        exact hapart (w :: o₁) u o₂ (by rw [hsplit, List.cons_append])

/-- A clean schedule cannot be told from one with private buffers. -/
theorem run_eq_private (hsame : ∀ m v b, get (put m v b) v = norm v b)
    (hother : ∀ m v w b, apart v w → get (put m w b) v = get m v)
    {sem : ι → List γ → Except ε (List β)} {steps : List ι} {m : M} {s : Nat → γ}
    (hord : Ordered inputs outputs steps) (hclean : Clean inputs outputs apart steps)
    (hagree : ∀ v, Needed inputs outputs steps v → get m v = s v) :
    observe (run inputs outputs get put sem steps m) =
      observe (run inputs outputs (fun s v => s v) (privatePut norm) sem steps s) := by
  induction steps generalizing m s with
  | nil => rfl
  | cons x rest ih =>
      have hreads := hord [] x rest rfl
      have hsafe := hclean [] x rest rfl
      have hread : (inputs x).map (get m) = (inputs x).map fun v => s v := by
        apply List.map_congr_left
        intro v hv
        exact hagree v ⟨⟨x, by simp, hv⟩, hreads v hv⟩
      simp only [run, hread]
      cases hsem : sem x ((inputs x).map fun v => s v) with
      | error e => rfl
      | ok res =>
          have hrest := @ih (putAll put m (outputs x) res)
            (putAll (privatePut norm) s (outputs x) res) hord.tail hclean.tail (by
              intro v hv
              apply putAll_agree hsame hother
              · by_cases hout : v ∈ outputs x
                · exact Or.inl hout
                · refine Or.inr (hagree v ⟨?_, ?_⟩)
                  · obtain ⟨y, hy, hvy⟩ := hv.1
                    exact ⟨y, by simp [hy], hvy⟩
                  · intro y hy
                    rcases List.mem_cons.mp hy with rfl | hy
                    · exact hout
                    · exact hv.2 y hy
              · exact fun o₁ w o₂ hsplit => hsafe o₁ w o₂ hsplit v hv)
          simp only [observe, Prod.mk.injEq] at hrest ⊢
          exact ⟨by rw [hrest.1], hrest.2⟩

end Soundness

section Completeness

variable {inputs outputs : ι → List Nat} {get : M → Nat → γ} {put : M → Nat → β → M}

/-- The semantics in which every value always gets the same contents. -/
def constSem (ε : Type) (outputs : ι → List Nat) (f : Nat → β) (x : ι) (_ : List γ) :
    Except ε (List β) :=
  .ok ((outputs x).map f)

/-- Writing constants to some values. -/
def putConst (put : M → Nat → β → M) (f : Nat → β) (m : M) (vs : List Nat) : M :=
  vs.foldl (fun m v => put m v (f v)) m

/-- A property of memories that every write of a constant keeps is kept by a step. -/
theorem putConst_keep {f : Nat → β} {P : M → Prop} {vs : List Nat} {m : M}
    (hkeep : ∀ m, ∀ u ∈ vs, P m → P (put m u (f u))) (hm : P m) : P (putConst put f m vs) :=
  List.foldlRecOn vs _ hm fun m hm u hu => hkeep m u hu hm

/-- The private contents of a value stay its constant. -/
theorem privatePut_keep {f : Nat → β} {norm : Nat → β → γ} {v : Nat} (s : Nat → γ) (u : Nat)
    (hs : s v = norm v (f v)) : privatePut norm s u (f u) v = norm v (f v) := by
  by_cases huv : v = u
  · subst huv
    rw [privatePut, Function.update_self]
  · rw [privatePut, Function.update_of_ne huv]
    exact hs

theorem putConst_private {f : Nat → β} {norm : Nat → β → γ} {v : Nat} {s : Nat → γ}
    {vs : List Nat} (hs : s v = norm v (f v)) :
    putConst (privatePut norm) f s vs v = norm v (f v) :=
  @putConst_keep _ _ (privatePut norm) f (fun s => s v = norm v (f v)) vs s
    (fun s u _ => privatePut_keep s u) hs

variable [Inhabited β]

theorem putAll_map (f : Nat → β) (vs : List Nat) (m : M) :
    putAll put m vs (vs.map f) = putConst put f m vs := by
  induction vs generalizing m with
  | nil => rfl
  | cons v vs ih =>
      rw [List.map_cons, putAll, List.headD_cons, List.tail_cons, ih]
      rfl

/-- Once the contents of a value differ from its private buffer for good, a later
reader sees the difference. -/
theorem run_const_ne {f : Nat → β} {norm : Nat → β → γ} {P : M → Prop} {v : Nat}
    (hbad : ∀ m, P m → get m v ≠ norm v (f v)) {steps : List ι} {m : M} {s : Nat → γ}
    (hkeep : ∀ m u, u ≠ v → P m → P (put m u (f u))) (hv : Needed inputs outputs steps v)
    (hm : P m) (hs : s v = norm v (f v)) :
    (run inputs outputs get put (constSem ε outputs f) steps m).1 ≠
      (run inputs outputs (fun s v => s v) (privatePut norm) (constSem ε outputs f)
        steps s).1 := by
  induction steps generalizing m s with
  | nil => simp [Needed] at hv
  | cons x rest ih =>
      obtain ⟨⟨y, hy, hvy⟩, hlast⟩ := hv
      simp only [run, constSem, putAll_map]
      intro heq
      obtain ⟨hhead, htail⟩ := List.cons.inj heq
      by_cases hx : v ∈ inputs x
      · have hmap : (inputs x).map (get m) = (inputs x).map fun v => s v :=
          congrArg Event.read hhead
        have hsame := List.map_inj_left.mp hmap v hx
        exact hbad m hm (hsame.trans hs)
      · have hy' : y ∈ rest := (List.mem_cons.mp hy).resolve_left fun h => hx (h ▸ hvy)
        have hrest : ∀ z ∈ rest, v ∉ outputs z := fun z hz => hlast z (by simp [hz])
        refine ih ⟨⟨y, hy', hvy⟩, hrest⟩ (putConst_keep ?_ hm) (putConst_private hs) htail
        intro m u hu
        exact hkeep m u fun h => hlast x (by simp) (h ▸ hu)

/-- A schedule that writes over a value before a reader of it is told apart. -/
theorem run_const_ne_of_overwrite {f : Nat → β} {norm : Nat → β → γ} {P : M → Prop}
    {pre rest : List ι} {x : ι} {v w : Nat} {o₁ o₂ : List Nat}
    (hout : outputs x = o₁ ++ w :: o₂) (hv : Needed inputs outputs rest v) (hvw : v ∉ w :: o₂)
    (hset : ∀ m, P (put m w (f w))) (hkeep : ∀ m u, u ≠ v → P m → P (put m u (f u)))
    (hbad : ∀ m, P m → get m v ≠ norm v (f v)) {m : M} {s : Nat → γ}
    (hs : s v = norm v (f v)) :
    (run inputs outputs get put (constSem ε outputs f) (pre ++ x :: rest) m).1 ≠
      (run inputs outputs (fun s v => s v) (privatePut norm) (constSem ε outputs f)
        (pre ++ x :: rest) s).1 := by
  induction pre generalizing m s with
  | nil =>
      simp only [List.nil_append, run, constSem, putAll_map, hout]
      intro heq
      refine run_const_ne hbad hkeep hv ?_ (putConst_private hs) (List.cons.inj heq).2
      rw [putConst, List.foldl_append, List.foldl_cons]
      refine putConst_keep ?_ (hset _)
      intro m u hu
      exact hkeep m u fun h => hvw (by simp [← h, hu])
  | cons y pre ih =>
      simp only [List.cons_append, run, constSem, putAll_map]
      intro heq
      exact ih (putConst_private hs) (List.cons.inj heq).2

/-- Some constants tell an overlap from private buffers: there is a memory with the
first value's constant in place, and the second write destroys it for good. -/
def Separates (get : M → Nat → γ) (put : M → Nat → β → M) (norm : Nat → β → γ) (v w : Nat) :
    Prop :=
  ∃ (f : Nat → β) (P : M → Prop) (m : M), get m v = norm v (f v) ∧ (∀ m, P (put m w (f w))) ∧
    (∀ m u, u ≠ v → P m → P (put m u (f u))) ∧ ∀ m, P m → get m v ≠ norm v (f v)

/-- An ordered schedule agrees with private buffers under every semantics and from
every memory exactly when it is clean. -/
theorem run_eq_private_iff_clean {norm : Nat → β → γ} {apart : Nat → Nat → Prop}
    (hsame : ∀ m v b, get (put m v b) v = norm v b)
    (hother : ∀ m v w b, apart v w → get (put m w b) v = get m v)
    (hsep : ∀ v w, v ≠ w → ¬ apart v w → Separates get put norm v w) {steps : List ι}
    (hord : Ordered inputs outputs steps) :
    (∀ (sem : ι → List γ → Except ε (List β)) (m : M),
      observe (run inputs outputs get put sem steps m) =
        observe (run inputs outputs (fun s v => s v) (privatePut norm) sem steps (get m))) ↔
      Clean inputs outputs apart steps := by
  constructor
  · rintro heq pre x rest rfl o₁ w o₂ hout v hv hvw
    by_contra happ
    obtain ⟨f, P, m, hm, hset, hkeep, hbad⟩ :=
      hsep v w (fun h => hvw (by simp [h])) happ
    exact run_const_ne_of_overwrite hout hv hvw hset hkeep hbad hm
      (congrArg Prod.fst (heq (constSem ε outputs f) m))
  · intro hclean sem m
    exact run_eq_private hsame hother hord hclean fun _ _ => rfl

end Completeness

end BufferReuse

import Hummingbird.Foundation.BufferReuse

/-!
The meaning of a straight-line program as a system of equations: the contents that every
step finds in its inputs determine the contents of its outputs, and what no step writes stays
as it was at the start. In any order in which nothing is read before it is written, a run
with private buffers computes the one solution. On shared buffers a value keeps its solution
to the end of a clean run exactly when nothing that is written after it goes over it.
-/

namespace Dataflow

open BufferReuse

variable {ι β γ ε M : Type} [Inhabited β]

/-- Contents that solve the equations of the steps, from the contents at the start. -/
structure Solves (inputs outputs : ι → List Nat) (norm : Nat → β → γ)
    (sem : ι → List γ → Except ε (List β)) (steps : List ι) (start val : Nat → γ) : Prop where
  outside : ∀ v, (∀ x ∈ steps, v ∉ outputs x) → val v = start v
  step : ∀ x ∈ steps, ∃ res, sem x ((inputs x).map val) = .ok res ∧
    ∀ j w, (outputs x)[j]? = some w → val w = norm w (res.getD j default)

/-- A value is written after every write of another is over. -/
def Lasting (outputs : ι → List Nat) (apart : Nat → Nat → Prop) (steps : List ι) (v : Nat) :
    Prop :=
  ∀ before w after, steps.flatMap outputs = before ++ w :: after → v ∉ w :: after → apart v w

variable {inputs outputs : ι → List Nat} {norm : Nat → β → γ}
  {sem : ι → List γ → Except ε (List β)} {steps steps' : List ι} {start val : Nat → γ}

/-- The order of the steps is no part of the equations. -/
theorem Solves.perm (h : Solves inputs outputs norm sem steps start val)
    (hperm : steps.Perm steps') : Solves inputs outputs norm sem steps' start val where
  outside v hv := h.outside v fun x hx => hv x (hperm.mem_iff.mp hx)
  step x hx := h.step x (hperm.mem_iff.mpr hx)

/-- Equations of steps that succeed in the same way have the same solutions. -/
theorem Solves.congr {ε' : Type} {sem' : ι → List γ → Except ε' (List β)}
    (h : Solves inputs outputs norm sem steps start val)
    (hsem : ∀ x ∈ steps, ∀ read res, sem x read = .ok res → sem' x read = .ok res) :
    Solves inputs outputs norm sem' steps start val where
  outside := h.outside
  step x hx := by
    obtain ⟨res, hres, hval⟩ := h.step x hx
    exact ⟨res, hsem x hx _ res hres, hval⟩

/-- Only what no step writes is taken from the start. -/
theorem Solves.of_start {start' : Nat → γ} (h : Solves inputs outputs norm sem steps start val)
    (hstart : ∀ v, (∀ x ∈ steps, v ∉ outputs x) → start v = start' v) :
    Solves inputs outputs norm sem steps start' val where
  outside v hv := (h.outside v hv).trans (hstart v hv)
  step := h.step

/-- Steps that succeed in the same way end in the same state. -/
theorem run_ok_congr {ε' : Type} {sem' : ι → List γ → Except ε' (List β)} {get : M → Nat → γ}
    {put : M → Nat → β → M}
    (hsem : ∀ x ∈ steps, ∀ read res, sem x read = .ok res → sem' x read = .ok res) {m m' : M}
    (hrun : (BufferReuse.run inputs outputs get put sem steps m).2 = .ok m') :
    (BufferReuse.run inputs outputs get put sem' steps m).2 = .ok m' := by
  induction steps generalizing m with
  | nil => exact congrArg _ (Except.ok.inj hrun)
  | cons x rest ih =>
      simp only [BufferReuse.run] at hrun ⊢
      cases hx : sem x ((inputs x).map (get m)) with
      | error e => simp [hx] at hrun
      | ok res =>
          simp only [hx] at hrun
          simp only [hsem x List.mem_cons_self _ res hx]
          exact ih (fun y hy => hsem y (List.mem_cons_of_mem _ hy)) hrun

theorem putAll_other {vs : List Nat} {bs : List β} {s : Nat → γ} {v : Nat} (hv : v ∉ vs) :
    putAll (privatePut norm) s vs bs v = s v := by
  induction vs generalizing s bs with
  | nil => rfl
  | cons w vs ih =>
      rw [List.mem_cons, not_or] at hv
      rw [putAll, ih hv.2, privatePut, Function.update_of_ne hv.1]

theorem putAll_at {vs : List Nat} {bs : List β} {s : Nat → γ} (hnodup : vs.Nodup) {j w : Nat}
    (hw : vs[j]? = some w) :
    putAll (privatePut norm) s vs bs w = norm w (bs.getD j default) := by
  induction vs generalizing s bs j with
  | nil => simp at hw
  | cons v vs ih =>
      obtain ⟨hv, hrest⟩ := List.nodup_cons.mp hnodup
      cases j with
      | zero =>
          obtain rfl : v = w := by simpa using hw
          rw [putAll, putAll_other hv, privatePut, Function.update_self]
          cases bs <;> rfl
      | succ j =>
          rw [putAll, ih hrest (by simpa using hw)]
          cases bs <;> rfl

/-- What the rest of a program sees after its first step. -/
theorem Solves.tail {x : ι} {rest : List ι} {res : List β}
    (h : Solves inputs outputs norm sem (x :: rest) start val) (hnodup : (outputs x).Nodup)
    (hres : ∀ j w, (outputs x)[j]? = some w → val w = norm w (res.getD j default)) :
    Solves inputs outputs norm sem rest (putAll (privatePut norm) start (outputs x) res) val where
  outside := by
    intro v hv
    by_cases hx : v ∈ outputs x
    · obtain ⟨j, hj⟩ := List.mem_iff_getElem?.mp hx
      rw [putAll_at hnodup hj, hres j v hj]
    · rw [putAll_other hx]
      exact h.outside v (List.forall_mem_cons.mpr ⟨hx, hv⟩)
  step y hy := h.step y (List.mem_cons_of_mem _ hy)

/-- An ordered run with private buffers computes the solution, and every step finds the
solution in its inputs. -/
theorem Solves.run (h : Solves inputs outputs norm sem steps start val)
    (hord : Ordered inputs outputs steps) (hsingle : (steps.flatMap outputs).Nodup) :
    (BufferReuse.run inputs outputs (fun s v => s v) (privatePut norm) sem steps start).2 =
        .ok val ∧
      (BufferReuse.run inputs outputs (fun s v => s v) (privatePut norm) sem steps start).1.map
          (fun e => (e.step, e.read)) = steps.map fun x => (x, (inputs x).map val) := by
  induction steps generalizing start with
  | nil => exact ⟨congrArg _ (funext fun v => (h.outside v (by simp)).symm), rfl⟩
  | cons x rest ih =>
      rw [List.flatMap_cons] at hsingle
      have hread : (inputs x).map start = (inputs x).map val := by
        refine List.map_congr_left ?_
        intro v hv
        exact (h.outside v (hord [] x rest rfl v hv)).symm
      obtain ⟨res, hsem, hres⟩ := h.step x List.mem_cons_self
      have hrest := ih (h.tail (List.nodup_append.mp hsingle).1 hres) hord.tail
        (List.nodup_append.mp hsingle).2.1
      simp only [BufferReuse.run, hread, hsem]
      exact ⟨hrest.1, congrArg _ hrest.2⟩

/-- What a run with private buffers ends with solves the equations. -/
theorem solves_of_run (hord : Ordered inputs outputs steps)
    (hsingle : (steps.flatMap outputs).Nodup)
    (hrun : (BufferReuse.run inputs outputs (fun s v => s v) (privatePut norm) sem steps
      start).2 = .ok val) : Solves inputs outputs norm sem steps start val := by
  induction steps generalizing start with
  | nil =>
      obtain rfl := Except.ok.inj hrun
      exact ⟨fun _ _ => rfl, by simp⟩
  | cons x rest ih =>
      rw [List.flatMap_cons] at hsingle
      obtain ⟨hnodup, hrest, hdisjoint⟩ := List.nodup_append.mp hsingle
      have hlater : ∀ v ∈ outputs x, ∀ y ∈ rest, v ∉ outputs y := by
        intro v hv y hy hvy
        exact hdisjoint v hv v (List.mem_flatMap.mpr ⟨y, hy, hvy⟩) rfl
      cases hsem : sem x ((inputs x).map start) with
      | error e => simp [BufferReuse.run, hsem] at hrun
      | ok res =>
          simp only [BufferReuse.run, hsem] at hrun
          have hsolves := ih hord.tail hrest hrun
          have hkept : ∀ v, (∀ y ∈ x :: rest, v ∉ outputs y) → val v = start v := by
            intro v hv
            obtain ⟨hx, hv⟩ := List.forall_mem_cons.mp hv
            rw [hsolves.outside v hv, putAll_other hx]
          refine ⟨hkept, ?_⟩
          intro y hy
          rcases List.mem_cons.mp hy with rfl | hy
          · refine ⟨res, ?_, ?_⟩
            · have hread : (inputs y).map val = (inputs y).map start :=
                List.map_congr_left fun v hv => hkept v (hord [] y rest rfl v hv)
              rw [hread, hsem]
            · intro j w hj
              have hw := List.mem_of_getElem? hj
              rw [hsolves.outside w (hlater w hw), putAll_at hnodup hj]
          · exact hsolves.step y hy

/-- The equations of an ordered program have one solution at most. -/
theorem Solves.unique {val' : Nat → γ} (h : Solves inputs outputs norm sem steps start val)
    (h' : Solves inputs outputs norm sem steps start val') (hord : Ordered inputs outputs steps)
    (hsingle : (steps.flatMap outputs).Nodup) : val = val' :=
  Except.ok.inj ((h.run hord hsingle).1.symm.trans (h'.run hord hsingle).1)

section Shared

variable {get : M → Nat → γ} {put : M → Nat → β → M} {apart : Nat → Nat → Prop}

theorem Lasting.tail {x : ι} {rest : List ι} {v : Nat} (h : Lasting outputs apart (x :: rest) v) :
    Lasting outputs apart rest v := by
  intro before w after hsplit
  refine h (outputs x ++ before) w after ?_
  rw [List.flatMap_cons, hsplit, List.append_assoc]

/-- A step of a clean program leaves what is still needed as it is with private buffers. -/
theorem needed_agree (hsame : ∀ m v b, get (put m v b) v = norm v b)
    (hother : ∀ m v w b, apart v w → get (put m w b) v = get m v) {x : ι} {rest : List ι}
    (hclean : Clean inputs outputs apart (x :: rest)) {m : M} {s : Nat → γ} (res : List β)
    (hagree : ∀ v, Needed inputs outputs (x :: rest) v → get m v = s v) (v : Nat)
    (hv : Needed inputs outputs rest v) :
    get (putAll put m (outputs x) res) v = putAll (privatePut norm) s (outputs x) res v := by
  refine putAll_agree hsame hother ?_ fun o₁ w o₂ hsplit => hclean [] x rest rfl o₁ w o₂ hsplit v hv
  by_cases hout : v ∈ outputs x
  · exact Or.inl hout
  · refine Or.inr (hagree v ⟨?_, List.forall_mem_cons.mpr ⟨hout, hv.2⟩⟩)
    obtain ⟨y, hy, hvy⟩ := hv.1
    exact ⟨y, List.mem_cons_of_mem _ hy, hvy⟩

/-- A clean run on shared buffers ends where the private one does, and the values that last
hold the same contents in both. -/
theorem run_lasting (hsame : ∀ m v b, get (put m v b) v = norm v b)
    (hother : ∀ m v w b, apart v w → get (put m w b) v = get m v)
    (hord : Ordered inputs outputs steps) (hclean : Clean inputs outputs apart steps) {m m' : M}
    {s : Nat → γ} (hagree : ∀ v, Needed inputs outputs steps v → get m v = s v)
    (hrun : (BufferReuse.run inputs outputs get put sem steps m).2 = .ok m') :
    ∃ s', (BufferReuse.run inputs outputs (fun s v => s v) (privatePut norm) sem steps s).2 =
        .ok s' ∧
      ∀ v, Lasting outputs apart steps v → v ∈ steps.flatMap outputs ∨ get m v = s v →
        get m' v = s' v := by
  induction steps generalizing m s with
  | nil =>
      obtain rfl := Except.ok.inj hrun
      exact ⟨s, rfl, fun v _ hv => hv.resolve_left (by simp)⟩
  | cons x rest ih =>
      have hread : (inputs x).map (get m) = (inputs x).map fun v => s v := by
        refine List.map_congr_left ?_
        intro v hv
        exact hagree v ⟨⟨x, List.mem_cons_self, hv⟩, hord [] x rest rfl v hv⟩
      simp only [BufferReuse.run, hread] at hrun ⊢
      cases hsem : sem x ((inputs x).map fun v => s v) with
      | error e => simp [hsem] at hrun
      | ok res =>
          simp only [hsem] at hrun ⊢
          obtain ⟨s', hs', hfinal⟩ := ih hord.tail hclean.tail
            (needed_agree hsame hother hclean res hagree) hrun
          refine ⟨s', hs', ?_⟩
          intro v hlasting hv
          refine hfinal v hlasting.tail ?_
          by_cases hlater : v ∈ rest.flatMap outputs
          · exact Or.inl hlater
          · refine Or.inr (putAll_agree hsame hother ?_ ?_)
            · rwa [List.flatMap_cons, List.mem_append, or_iff_left hlater] at hv
            · intro o₁ w o₂ hsplit hvw
              refine hlasting o₁ w (o₂ ++ rest.flatMap outputs) ?_ ?_
              · rw [List.flatMap_cons, hsplit, List.append_assoc, List.cons_append]
              · rw [← List.cons_append, List.mem_append, not_or]
                exact ⟨hvw, hlater⟩

/-- The solution is what a clean run on shared buffers leaves in a value that lasts. -/
theorem Solves.read_final (h : Solves inputs outputs norm sem steps start val)
    (hsame : ∀ m v b, get (put m v b) v = norm v b)
    (hother : ∀ m v w b, apart v w → get (put m w b) v = get m v)
    (hord : Ordered inputs outputs steps) (hsingle : (steps.flatMap outputs).Nodup)
    (hclean : Clean inputs outputs apart steps) {m m' : M} (hstart : get m = start)
    (hrun : (BufferReuse.run inputs outputs get put sem steps m).2 = .ok m') {v : Nat}
    (hv : Lasting outputs apart steps v) : get m' v = val v := by
  obtain ⟨s', hs', hfinal⟩ := run_lasting (s := start) hsame hother hord hclean
    (fun v _ => congrFun hstart v) hrun
  obtain rfl : s' = val := Except.ok.inj (hs'.symm.trans (h.run hord hsingle).1)
  exact hfinal v hv (Or.inr (congrFun hstart v))

theorem run_constSem (f : Nat → β) (m : M) :
    (BufferReuse.run inputs outputs get put (constSem ε outputs f) steps m).2 =
      .ok (putConst put f m (steps.flatMap outputs)) := by
  induction steps generalizing m with
  | nil => rfl
  | cons x rest ih =>
      simp only [BufferReuse.run, constSem, putAll_map, List.flatMap_cons]
      exact (ih _).trans (congrArg _ List.foldl_append.symm)

/-- If a value holds its solution at the end whatever the steps compute, then it lasts. -/
theorem lasting_of_read_final (hsep : ∀ v w, v ≠ w → ¬ apart v w → Separates get put norm v w)
    (hord : Ordered inputs outputs steps) (hsingle : (steps.flatMap outputs).Nodup) {v : Nat}
    (h : ∀ (sem : ι → List γ → Except ε (List β)) (m m' : M) (val : Nat → γ),
      (BufferReuse.run inputs outputs get put sem steps m).2 = .ok m' →
      Solves inputs outputs norm sem steps (get m) val → get m' v = val v) :
    Lasting outputs apart steps v := by
  intro before w after hsplit hvw
  by_contra happ
  obtain ⟨f, P, m, hm, hset, hkeep, hbad⟩ := hsep v w (fun heq => hvw (by simp [heq])) happ
  have hsolves : Solves inputs outputs norm (constSem ε outputs f) steps (get m)
      (putConst (privatePut norm) f (get m) (steps.flatMap outputs)) :=
    solves_of_run hord hsingle (run_constSem f (get m))
  refine hbad _ ?_ ((h _ m _ _ (run_constSem f m) hsolves).trans (putConst_private hm))
  rw [hsplit, putConst, List.foldl_append, List.foldl_cons]
  refine putConst_keep ?_ (hset _)
  intro m u hu
  exact hkeep m u fun heq => hvw (heq ▸ List.mem_cons_of_mem _ hu)

end Shared

end Dataflow

import Mathlib.Tactic

/-!
Programs that work on memory by loads and stores. Values of a type `F` fill words of four
cells each; a machine says what its states hold. A run gives a result and a final state, and
leaves a trace of the cells it touched. Two rules carry over loops: one for what a run leaves
in memory, and one for the cells it may touch, whatever values it meets.
-/

namespace Accesses

/-- An access to so many cells from an address on. -/
inductive Access where
  | read (addr : Int) (n : Nat)
  | write (addr : Int) (n : Nat)
  deriving DecidableEq, Repr

inductive Prog (F ρ : Type) where
  | ret (r : ρ)
  | load (addr : Int) (next : F → Prog F ρ)
  | store (addr : Int) (x : F) (next : Prog F ρ)
  | loadByte (addr : Int) (next : UInt8 → Prog F ρ)
  | storeByte (addr : Int) (b : UInt8) (next : Prog F ρ)
  | copy (dst src : Int) (n : Nat) (next : Prog F ρ)

def Prog.bind {F ρ τ : Type} (p : Prog F ρ) (f : ρ → Prog F τ) : Prog F τ :=
  match p with
  | .ret r => f r
  | .load addr next => .load addr fun x => (next x).bind f
  | .store addr x next => .store addr x (next.bind f)
  | .loadByte addr next => .loadByte addr fun b => (next b).bind f
  | .storeByte addr b next => .storeByte addr b (next.bind f)
  | .copy dst src n next => .copy dst src n (next.bind f)

instance {F : Type} : Monad (Prog F) where
  pure := .ret
  bind := .bind

section Statements

variable {F α : Type}

def load (addr : Int) : Prog F F := .load addr .ret

def store (addr : Int) (x : F) : Prog F Unit := .store addr x (.ret ())

def loadByte (addr : Int) : Prog F UInt8 := .loadByte addr .ret

def storeByte (addr : Int) (b : UInt8) : Prog F Unit := .storeByte addr b (.ret ())

def copy (dst src : Int) (n : Nat) : Prog F Unit := .copy dst src n (.ret ())

/-- `for (i = 0; i < n; ++i)` with a state that the body changes. -/
def loop : Nat → α → (Nat → α → Prog F α) → Prog F α
  | 0, a, _ => .ret a
  | n + 1, a, body => do
      let a ← loop n a body
      body n a

/-- `for (i = 0; i < n; ++i)`. -/
def each (n : Nat) (body : Nat → Prog F Unit) : Prog F Unit := loop n () fun i _ => body i

theorem Prog.bind_assoc {ρ τ υ : Type} (p : Prog F ρ) (f : ρ → Prog F τ) (g : τ → Prog F υ) :
    p >>= f >>= g = p >>= fun r => f r >>= g := by
  show (p.bind f).bind g = p.bind fun r => (f r).bind g
  induction p with
  | ret r => rfl
  | load addr next ih => exact congrArg (Prog.load addr) (funext ih)
  | store addr x next ih => exact congrArg (Prog.store addr x) ih
  | loadByte addr next ih => exact congrArg (Prog.loadByte addr) (funext ih)
  | storeByte addr b next ih => exact congrArg (Prog.storeByte addr b) ih
  | copy dst src n next ih => exact congrArg (Prog.copy dst src n) ih

theorem Prog.bind_pure {ρ : Type} (p : Prog F ρ) : (p >>= fun r => pure r) = p := by
  show p.bind .ret = p
  induction p with
  | ret r => rfl
  | load addr next ih => exact congrArg (Prog.load addr) (funext ih)
  | store addr x next ih => exact congrArg (Prog.store addr x) ih
  | loadByte addr next ih => exact congrArg (Prog.loadByte addr) (funext ih)
  | storeByte addr b next ih => exact congrArg (Prog.storeByte addr b) ih
  | copy dst src n next ih => exact congrArg (Prog.copy dst src n) ih

/-- A loop whose state is known before each turn is a loop without a state. -/
theorem loop_eq_each {n : Nat} {st : Nat → α} {body : Nat → α → Prog F α}
    {q : Nat → Prog F Unit}
    (h : ∀ i < n, body i (st i) = q i >>= fun _ => pure (st (i + 1))) :
    loop n (st 0) body = each n q >>= fun _ => pure (st n) := by
  unfold each
  induction n with
  | zero => rfl
  | succ n ih =>
      rw [loop, ih fun i hi => h i (by omega), loop, Prog.bind_assoc, Prog.bind_assoc]
      exact congrArg _ (funext fun _ => h n (by omega))

end Statements

/-- States of memory: a word that is stored is read back, and leaves the words apart from it. -/
structure Machine (F σ : Type) where
  load : σ → Int → F
  store : σ → Int → F → σ
  loadByte : σ → Int → UInt8
  storeByte : σ → Int → UInt8 → σ
  copy : σ → Int → Int → Nat → σ
  load_store : ∀ s a x, load (store s a x) a = x
  load_store_apart : ∀ s a b x, b + 4 ≤ a ∨ a + 4 ≤ b → load (store s a x) b = load s b

/-- A machine in which a value fills one cell, and bytes are not looked at. -/
def cellMachine (F : Type) : Machine F (Int → F) where
  load s a := s a
  store s a x := Function.update s a x
  loadByte _ _ := 0
  storeByte s _ _ := s
  copy s dst src n := fun a => if dst ≤ a ∧ a < dst + n then s (a - dst + src) else s a
  load_store s a x := Function.update_self a x s
  load_store_apart s a b x h := Function.update_of_ne (by omega) x s

section Runs

variable {F σ ρ τ α : Type} (M : Machine F σ)

def Machine.run : Prog F ρ → σ → ρ × σ
  | .ret r, s => (r, s)
  | .load addr next, s => Machine.run (next (M.load s addr)) s
  | .store addr x next, s => Machine.run next (M.store s addr x)
  | .loadByte addr next, s => Machine.run (next (M.loadByte s addr)) s
  | .storeByte addr b next, s => Machine.run next (M.storeByte s addr b)
  | .copy dst src n next, s => Machine.run next (M.copy s dst src n)

/-- The accesses of a run, in their order. -/
def Machine.trace : Prog F ρ → σ → List Access
  | .ret _, _ => []
  | .load addr next, s => .read addr 4 :: Machine.trace (next (M.load s addr)) s
  | .store addr x next, s => .write addr 4 :: Machine.trace next (M.store s addr x)
  | .loadByte addr next, s => .read addr 1 :: Machine.trace (next (M.loadByte s addr)) s
  | .storeByte addr b next, s => .write addr 1 :: Machine.trace next (M.storeByte s addr b)
  | .copy dst src n next, s =>
      .read src n :: .write dst n :: Machine.trace next (M.copy s dst src n)

@[simp]
theorem Machine.run_pure (r : ρ) (s : σ) : M.run (pure r) s = (r, s) := rfl

@[simp]
theorem Machine.run_load (addr : Int) (s : σ) :
    M.run (Accesses.load addr) s = (M.load s addr, s) := rfl

@[simp]
theorem Machine.run_store (addr : Int) (x : F) (s : σ) :
    M.run (Accesses.store addr x) s = ((), M.store s addr x) := rfl

@[simp]
theorem Machine.run_bind (p : Prog F ρ) (f : ρ → Prog F τ) (s : σ) :
    M.run (p >>= f) s = M.run (f (M.run p s).1) (M.run p s).2 := by
  show M.run (p.bind f) s = _
  induction p generalizing s with
  | ret r => rfl
  | load addr next ih => exact ih (M.load s addr) s
  | store addr x next ih => exact ih (M.store s addr x)
  | loadByte addr next ih => exact ih (M.loadByte s addr) s
  | storeByte addr b next ih => exact ih (M.storeByte s addr b)
  | copy dst src n next ih => exact ih (M.copy s dst src n)

@[simp]
theorem Machine.trace_pure (r : ρ) (s : σ) : M.trace (pure r) s = [] := rfl

@[simp]
theorem Machine.trace_load (addr : Int) (s : σ) :
    M.trace (Accesses.load addr) s = [.read addr 4] := rfl

@[simp]
theorem Machine.trace_store (addr : Int) (x : F) (s : σ) :
    M.trace (Accesses.store addr x) s = [.write addr 4] := rfl

@[simp]
theorem Machine.trace_bind (p : Prog F ρ) (f : ρ → Prog F τ) (s : σ) :
    M.trace (p >>= f) s = M.trace p s ++ M.trace (f (M.run p s).1) (M.run p s).2 := by
  show M.trace (p.bind f) s = _
  induction p generalizing s with
  | ret r => rfl
  | load addr next ih => exact congrArg (_ :: ·) (ih (M.load s addr) s)
  | store addr x next ih => exact congrArg (_ :: ·) (ih (M.store s addr x))
  | loadByte addr next ih => exact congrArg (_ :: ·) (ih (M.loadByte s addr) s)
  | storeByte addr b next ih => exact congrArg (_ :: ·) (ih (M.storeByte s addr b))
  | copy dst src n next ih => exact congrArg (_ :: _ :: ·) (ih (M.copy s dst src n))

@[simp]
theorem Machine.run_loop_zero (a : α) (body : Nat → α → Prog F α) (s : σ) :
    M.run (loop 0 a body) s = (a, s) := rfl

theorem Machine.run_loop_succ (n : Nat) (a : α) (body : Nat → α → Prog F α) (s : σ) :
    M.run (loop (n + 1) a body) s =
      M.run (body n (M.run (loop n a body) s).1) (M.run (loop n a body) s).2 := by
  rw [loop, Machine.run_bind]

/-- An invariant of the turns of a loop holds after it. -/
theorem Machine.run_loop {n : Nat} {a : α} {body : Nat → α → Prog F α} {s : σ}
    (I : Nat → α → σ → Prop) (hzero : I 0 a s)
    (hstep : ∀ i < n, ∀ a s, I i a s → I (i + 1) (M.run (body i a) s).1 (M.run (body i a) s).2) :
    I n (M.run (loop n a body) s).1 (M.run (loop n a body) s).2 := by
  induction n with
  | zero => exact hzero
  | succ n ih =>
      rw [Machine.run_loop_succ]
      exact hstep n (by omega) _ _ (ih fun i hi => hstep i (by omega))

/-- A loop without a state runs its turns one after the other. -/
theorem Machine.run_each (n : Nat) (body : Nat → Prog F Unit) (s : σ) :
    M.run (each n body) s =
      ((), (List.range n).foldl (fun s i => (M.run (body i) s).2) s) := by
  unfold each
  induction n with
  | zero => rfl
  | succ n ih =>
      rw [Machine.run_loop_succ, ih, List.range_succ, List.foldl_append]
      rfl

/-- The turns of a loop leave their traces one after the other. -/
theorem Machine.trace_each {n : Nat} {body : Nat → Prog F Unit} {f : Nat → List Access} {s : σ}
    (h : ∀ i < n, ∀ s, M.trace (body i) s = f i) :
    M.trace (each n body) s = (List.range n).flatMap f := by
  unfold each
  induction n with
  | zero => rfl
  | succ n ih =>
      rw [loop, Machine.trace_bind, ih fun i hi => h i (by omega), h n (by omega),
        List.range_succ, List.flatMap_append, List.flatMap_singleton]

end Runs

/-! What a run leaves in memory. -/

/-- Two words share no cell. -/
def WordsApart (a b : Int) : Prop := b + 4 ≤ a ∨ a + 4 ≤ b

/-- The second state has the given values in the words at the addresses `A`, and the words
apart from all of these are as they were. -/
structure Machine.Puts {F σ : Type} (M : Machine F σ) (A : Set Int) (v : Int → F) (s s' : σ) :
    Prop where
  put : ∀ a ∈ A, M.load s' a = v a
  kept : ∀ b, (∀ a ∈ A, WordsApart a b) → M.load s' b = M.load s b

section Puts

variable {F σ : Type} {M : Machine F σ} {A B : Set Int} {v : Int → F} {s s' s'' : σ}

theorem Machine.Puts.refl (M : Machine F σ) (v : Int → F) (s : σ) : M.Puts ∅ v s s where
  put := by simp
  kept := fun _ _ => rfl

theorem Machine.puts_store (M : Machine F σ) {a : Int} (s : σ) :
    M.Puts {a} v s (M.store s a (v a)) where
  put := by
    rintro b rfl
    exact M.load_store s _ _
  kept := fun b hb => M.load_store_apart s a b _ (hb a rfl)

theorem Machine.Puts.trans (h : M.Puts A v s s') (h' : M.Puts B v s' s'')
    (hapart : ∀ a ∈ A, ∀ b ∈ B, WordsApart b a) : M.Puts (A ∪ B) v s s'' where
  put := by
    rintro a (ha | ha)
    · rw [h'.kept a (hapart a ha)]
      exact h.put a ha
    · exact h'.put a ha
  kept := by
    intro b hb
    rw [h'.kept b fun a ha => hb a (Or.inr ha), h.kept b fun a ha => hb a (Or.inl ha)]

/-- A loop whose turns put values in words apart from each other puts them all. -/
theorem Machine.puts_each {n : Nat} {body : Nat → Prog F Unit} {T : Nat → Set Int}
    (hapart : ∀ i < n, ∀ j < i, ∀ a ∈ T j, ∀ b ∈ T i, WordsApart b a)
    (hturn : ∀ i < n, ∀ s', M.Puts {a | ∃ j < i, a ∈ T j} v s s' →
      M.Puts (T i) v s' (M.run (body i) s').2) :
    M.Puts {a | ∃ i < n, a ∈ T i} v s (M.run (each n body) s).2 := by
  refine M.run_loop (fun i _ s' => M.Puts {a | ∃ j < i, a ∈ T j} v s s') ?_ ?_
  · convert Machine.Puts.refl M v s
    simp
  · intro i hi _ s' hs'
    have hset : {a | ∃ j < i + 1, a ∈ T j} = {a | ∃ j < i, a ∈ T j} ∪ T i := by
      ext a
      constructor
      · rintro ⟨j, hj, ha⟩
        rcases Nat.lt_succ_iff_lt_or_eq.mp hj with hlt | rfl
        · exact Or.inl ⟨j, hlt, ha⟩
        · exact Or.inr ha
      · rintro (⟨j, hj, ha⟩ | ha)
        · exact ⟨j, by omega, ha⟩
        · exact ⟨i, by omega, ha⟩
    rw [hset]
    apply hs'.trans (hturn i hi s' hs')
    rintro a ⟨j, hj, ha⟩
    exact hapart i hi j hj a ha

/-- A loop that stores in words apart from each other what it reads from words apart from all
of these. -/
theorem Machine.puts_gather {n : Nat} {p : Nat → Prog F F} {dst : Nat → Int}
    (hapart : ∀ i < n, ∀ j < i, WordsApart (dst i) (dst j))
    (hread : ∀ i < n, ∀ s', (∀ b, (∀ j < n, WordsApart (dst j) b) → M.load s' b = M.load s b) →
      M.run (p i) s' = (v (dst i), s')) :
    M.Puts {a | ∃ i < n, a = dst i} v s
      (M.run (each n fun i => p i >>= Accesses.store (dst i)) s).2 := by
  apply M.puts_each (T := fun i => {dst i})
  · rintro i hi j hj a rfl b rfl
    exact hapart i hi j hj
  · intro i hi s' hs'
    have hrun := hread i hi s' fun b hb => hs'.kept b (by
      rintro a ⟨j, hj, rfl⟩
      exact hb j (by omega))
    rw [M.run_bind, hrun]
    exact M.puts_store s'

end Puts

/-! The cells that a run may touch. -/

/-- Every write lies in `W`, and every read in `R` or in cells of `B` that the run has written
itself; `own` is what it has written so far. -/
def Inside (R W B : Set Int) : Set Int → List Access → Prop
  | _, [] => True
  | own, .read addr n :: rest => Set.Ico addr (addr + n) ⊆ R ∪ B ∩ own ∧ Inside R W B own rest
  | own, .write addr n :: rest =>
      Set.Ico addr (addr + n) ⊆ W ∧ Inside R W B (own ∪ Set.Ico addr (addr + n)) rest

/-- Whatever values a program loads, its accesses are inside as those of a run must be, and it
ends with a result and with cells written for which the condition holds. -/
def Prog.Stays {F ρ : Type} (R W B : Set Int) : Set Int → Prog F ρ → (ρ → Set Int → Prop) → Prop
  | own, .ret r, Q => Q r own
  | own, .load addr next, Q =>
      Set.Ico addr (addr + 4) ⊆ R ∪ B ∩ own ∧ ∀ x, Prog.Stays R W B own (next x) Q
  | own, .store addr _ next, Q =>
      Set.Ico addr (addr + 4) ⊆ W ∧ Prog.Stays R W B (own ∪ Set.Ico addr (addr + 4)) next Q
  | own, .loadByte addr next, Q =>
      Set.Ico addr (addr + 1) ⊆ R ∪ B ∩ own ∧ ∀ b, Prog.Stays R W B own (next b) Q
  | own, .storeByte addr _ next, Q =>
      Set.Ico addr (addr + 1) ⊆ W ∧ Prog.Stays R W B (own ∪ Set.Ico addr (addr + 1)) next Q
  | own, .copy dst src n next, Q =>
      Set.Ico src (src + n) ⊆ R ∪ B ∩ own ∧ Set.Ico dst (dst + n) ⊆ W ∧
        Prog.Stays R W B (own ∪ Set.Ico dst (dst + n)) next Q

section Stays

variable {F σ ρ τ α : Type} {R W B own : Set Int} {Q : ρ → Set Int → Prop}

theorem Prog.Stays.inside {p : Prog F ρ} (h : p.Stays R W B own Q) (M : Machine F σ) (s : σ) :
    Inside R W B own (M.trace p s) := by
  induction p generalizing own s with
  | ret r => trivial
  | load addr next ih => exact ⟨h.1, ih _ (h.2 _) s⟩
  | store addr x next ih => exact ⟨h.1, ih h.2 _⟩
  | loadByte addr next ih => exact ⟨h.1, ih _ (h.2 _) s⟩
  | storeByte addr b next ih => exact ⟨h.1, ih h.2 _⟩
  | copy dst src n next ih => exact ⟨h.1, h.2.1, ih h.2.2 _⟩

theorem Prog.Stays.bind {p : Prog F τ} {f : τ → Prog F ρ}
    (h : p.Stays R W B own fun r own' => (f r).Stays R W B own' Q) :
    (p >>= f).Stays R W B own Q := by
  show (p.bind f).Stays R W B own Q
  induction p generalizing own with
  | ret r => exact h
  | load addr next ih => exact ⟨h.1, fun x => ih x (h.2 x)⟩
  | store addr x next ih => exact ⟨h.1, ih h.2⟩
  | loadByte addr next ih => exact ⟨h.1, fun b => ih b (h.2 b)⟩
  | storeByte addr b next ih => exact ⟨h.1, ih h.2⟩
  | copy dst src n next ih => exact ⟨h.1, h.2.1, ih h.2.2⟩

theorem Prog.Stays.mono {p : Prog F ρ} {P : ρ → Set Int → Prop} (h : p.Stays R W B own P)
    (himp : ∀ r own', P r own' → Q r own') : p.Stays R W B own Q := by
  induction p generalizing own with
  | ret r => exact himp r own h
  | load addr next ih => exact ⟨h.1, fun x => ih x (h.2 x)⟩
  | store addr x next ih => exact ⟨h.1, ih h.2⟩
  | loadByte addr next ih => exact ⟨h.1, fun b => ih b (h.2 b)⟩
  | storeByte addr b next ih => exact ⟨h.1, ih h.2⟩
  | copy dst src n next ih => exact ⟨h.1, h.2.1, ih h.2.2⟩

theorem stays_pure {r : ρ} (h : Q r own) : (pure r : Prog F ρ).Stays R W B own Q := h

theorem stays_load {addr : Int} {f : F → Prog F ρ} (hin : Set.Ico addr (addr + 4) ⊆ R ∪ B ∩ own)
    (h : ∀ x, (f x).Stays R W B own Q) : (load addr >>= f).Stays R W B own Q :=
  ⟨hin, h⟩

theorem stays_store {addr : Int} {x : F} {P : Unit → Set Int → Prop}
    (hin : Set.Ico addr (addr + 4) ⊆ W) (h : P () (own ∪ Set.Ico addr (addr + 4))) :
    (store addr x).Stays R W B own P :=
  ⟨hin, h⟩

/-- An invariant of the turns of a loop that stay inside. -/
theorem stays_loop {n : Nat} {a : α} {body : Nat → α → Prog F α}
    (I : Nat → Set Int → Prop) (hzero : I 0 own)
    (hstep : ∀ i < n, ∀ a own, I i own →
      (body i a).Stays R W B own fun _ own' => I (i + 1) own') :
    (loop n a body).Stays R W B own fun _ own' => I n own' := by
  induction n with
  | zero => exact hzero
  | succ n ih =>
      apply Prog.Stays.bind
      exact (ih fun i hi => hstep i (by omega)).mono fun a own' hI => hstep n (by omega) a own' hI

end Stays

/-- A program whose accesses are inside whatever was written before, and which need not read
back what it has written. -/
def Prog.Within {F ρ : Type} (R W : Set Int) (p : Prog F ρ) : Prop :=
  ∀ B own, p.Stays R W B own fun _ _ => True

section Within

variable {F ρ τ α : Type} {R W : Set Int} {addr : Int}

theorem within_pure (r : ρ) : (pure r : Prog F ρ).Within R W := fun _ _ => trivial

theorem within_load (h : Set.Ico addr (addr + 4) ⊆ R) : (load addr : Prog F F).Within R W :=
  fun _ _ => ⟨h.trans Set.subset_union_left, fun _ => trivial⟩

theorem within_store {x : F} (h : Set.Ico addr (addr + 4) ⊆ W) : (store addr x).Within R W :=
  fun _ _ => ⟨h, trivial⟩

theorem within_loadByte (h : Set.Ico addr (addr + 1) ⊆ R) :
    (loadByte addr : Prog F UInt8).Within R W :=
  fun _ _ => ⟨h.trans Set.subset_union_left, fun _ => trivial⟩

theorem within_storeByte {b : UInt8} (h : Set.Ico addr (addr + 1) ⊆ W) :
    (storeByte addr b : Prog F Unit).Within R W :=
  fun _ _ => ⟨h, trivial⟩

theorem within_copy {dst src : Int} {n : Nat} (hsrc : Set.Ico src (src + n) ⊆ R)
    (hdst : Set.Ico dst (dst + n) ⊆ W) : (copy dst src n : Prog F Unit).Within R W :=
  fun _ _ => ⟨hsrc.trans Set.subset_union_left, hdst, trivial⟩

theorem Prog.Within.bind {p : Prog F τ} {f : τ → Prog F ρ} (hp : p.Within R W)
    (hf : ∀ r, (f r).Within R W) : (p >>= f).Within R W :=
  fun B own => Prog.Stays.bind ((hp B own).mono fun r own' _ => hf r B own')

theorem within_loop {n : Nat} {a : α} {body : Nat → α → Prog F α}
    (hturn : ∀ i < n, ∀ a, (body i a).Within R W) : (loop n a body).Within R W :=
  fun B _ => stays_loop (fun _ _ => True) trivial fun i hi a own _ => hturn i hi a B own

theorem within_each {n : Nat} {body : Nat → Prog F Unit}
    (hturn : ∀ i < n, (body i).Within R W) : (each n body).Within R W :=
  within_loop fun i hi _ => hturn i hi

end Within

end Accesses

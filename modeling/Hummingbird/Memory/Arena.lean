import Hummingbird.Memory.Layout
import Hummingbird.Foundation.Intervals
import Hummingbird.Foundation.Runs

/-!
The arena allocator: one backing block and a cursor that moves up with every allocation.
A reallocation of the block that was carved last moves the cursor from that block's start,
up or down; any other one carves a new block. Pointers are addresses. The blocks that the
callers hold are kept beside the arena, which itself only remembers where the last one
starts.
-/

namespace Hummingbird

/-- `struct hbi_arena`, with the bytes of the backing block by their offset. -/
structure Arena where
  base : Nat
  capacity : Nat
  offset : Nat
  lastOffset : Nat
  mem : Nat → UInt8

/-- What `hbi_arena_create` makes of a backing block. -/
def Arena.create (base capacity : Nat) (mem : Nat → UInt8) : Arena :=
  ⟨base, capacity, 0, 0, mem⟩

/-- The address is aligned, not the offset; the sums are words. -/
def arenaAlloc (ar : Arena) (size alignment : Nat) : Arena × Result Nat :=
  if hbiIsPow2 (normalizeAlignment alignment) = false then
    (ar, errSet .invalidArg "arena_alloc: bad alignment")
  else
    let size := userSize size
    let curAddr := (ar.base + ar.offset) % sizeTSize
    let alignedAddr := hbiAlignUp curAddr (normalizeAlignment alignment)
    if alignedAddr = 0 ∧ curAddr ≠ 0 then (ar, errSet .oom "arena_alloc: alignment overflow")
    else
      let start := (alignedAddr + (sizeTSize - ar.base)) % sizeTSize
      let stop := (start + size) % sizeTSize
      if stop < start ∨ stop > ar.capacity then
        let used := ar.offset
        let capacity := ar.capacity
        (ar, errSet .oom s!"arena_alloc: {size} bytes exhausts arena (used {used}/{capacity})")
      else ({ ar with lastOffset := start, offset := stop }, .ok (ar.base + start))

/-- The old size of a block is not known: what is copied may go up to the cursor. -/
def arenaCopy (ar : Arena) (fresh ptr newSize : Nat) : Arena :=
  let copy := min newSize (ar.base + ar.offset - ptr)
  { ar with mem := fun k =>
      if ar.base + k < fresh ∨ fresh + copy ≤ ar.base + k then ar.mem k
      else ar.mem (ar.base + k - fresh + (ptr - ar.base)) }

/-- `arena_realloc`: a size of 0 answers `NULL` without an error. -/
def arenaRealloc (ar : Arena) (ptr : Option Nat) (newSize alignment : Nat) :
    Arena × Result (Option Nat) :=
  match ptr with
  | none => ((arenaAlloc ar newSize alignment).1, (arenaAlloc ar newSize alignment).2.map some)
  | some ptr =>
      if newSize = 0 then (ar, .ok none)
      else
        let stop := (ar.lastOffset + newSize) % sizeTSize
        if ptr = ar.base + ar.lastOffset ∧ ar.lastOffset ≤ stop ∧ stop ≤ ar.capacity then
          ({ ar with offset := stop }, .ok (some ptr))
        else
          match arenaAlloc ar newSize alignment with
          | (ar, .error e) => (ar, .error e)
          | (ar, .ok fresh) => (arenaCopy ar fresh ptr newSize, .ok (some fresh))

def hbiArenaReset (ar : Arena) : Arena := { ar with offset := 0, lastOffset := 0 }

def hbiArenaUsed (ar : Arena) : Nat := ar.offset

/-- A block that a caller holds, by its offset. -/
structure ArenaBlock where
  start : Nat
  size : Nat
  deriving DecidableEq, Repr

/-- An arena in use: what was carved since the last reset. -/
structure ArenaUse where
  arena : Arena
  live : List ArenaBlock

inductive ArenaCall where
  | alloc (size alignment : Nat)
  | realloc (ptr : Option Nat) (newSize alignment : Nat)
  | reset
  deriving DecidableEq, Repr

/-- The answer of a call. -/
def ArenaCall.answer (u : ArenaUse) : ArenaCall → Result (Option Nat)
  | .alloc size alignment => (arenaAlloc u.arena size alignment).2.map some
  | .realloc ptr newSize alignment => (arenaRealloc u.arena ptr newSize alignment).2
  | .reset => .ok none

def ArenaCall.after (u : ArenaUse) : ArenaCall → Arena
  | .alloc size alignment => (arenaAlloc u.arena size alignment).1
  | .realloc ptr newSize alignment => (arenaRealloc u.arena ptr newSize alignment).1
  | .reset => hbiArenaReset u.arena

/-- The blocks that are held after a call: a reallocated one replaces its old one. -/
def ArenaCall.held (u : ArenaUse) (answer : Option Nat) : ArenaCall → List ArenaBlock
  | .alloc size _ =>
      (answer.map fun ptr => ⟨ptr - u.arena.base, userSize size⟩).toList ++ u.live
  | .realloc none newSize _ =>
      (answer.map fun ptr => ⟨ptr - u.arena.base, userSize newSize⟩).toList ++ u.live
  | .realloc (some old) newSize _ =>
      match answer with
      | none => u.live
      | some ptr =>
          ⟨ptr - u.arena.base, newSize⟩ :: u.live.filter (u.arena.base + ·.start ≠ old)
  | .reset => []

def arenaStep (u : ArenaUse) (call : ArenaCall) : ArenaUse :=
  ⟨call.after u, call.held u (call.answer u).toOption.join⟩

/-- Sizes and alignments are words. -/
def ArenaCall.Words : ArenaCall → Prop
  | .alloc size alignment => size < sizeTSize ∧ alignment < sizeTSize
  | .realloc _ newSize alignment => newSize < sizeTSize ∧ alignment < sizeTSize
  | .reset => True

instance : (call : ArenaCall) → Decidable call.Words
  | .alloc _ _ => inferInstanceAs (Decidable (_ ∧ _))
  | .realloc _ _ _ => inferInstanceAs (Decidable (_ ∧ _))
  | .reset => inferInstanceAs (Decidable True)

/-- The held blocks lie in the arena and below the cursor, and do not overlap. -/
structure ArenaUse.Disjoint (u : ArenaUse) : Prop where
  inside : ∀ b ∈ u.live, b.start + b.size ≤ u.arena.capacity
  below : ∀ b ∈ u.live, b.start + b.size ≤ hbiArenaUsed u.arena
  apart : u.live.Pairwise (Intervals.Apart ArenaBlock.start ArenaBlock.size)

/-- The pointer that an allocation returns is aligned as it was asked to be. -/
def ArenaCall.AlignedAnswer (u : ArenaUse) (call : ArenaCall) : Prop :=
  match call with
  | .alloc _ alignment => ∀ ptr, call.answer u = .ok (some ptr) → normalizeAlignment alignment ∣ ptr
  | .realloc none _ alignment =>
      ∀ ptr, call.answer u = .ok (some ptr) → normalizeAlignment alignment ∣ ptr
  | _ => True

/-- A call that answers `NULL` leaves the cursor and the start of the last block where they
were, and the blocks as well. -/
def ArenaCall.RefusalKeeps (u : ArenaUse) (call : ArenaCall) : Prop :=
  call ≠ .reset → (∀ ptr, call.answer u ≠ .ok (some ptr)) →
    (arenaStep u call).arena.offset = u.arena.offset ∧
    (arenaStep u call).arena.lastOffset = u.arena.lastOffset ∧ (arenaStep u call).live = u.live

section Alloc

variable {ar : Arena} {size alignment : Nat}

theorem userSize_pos (size : Nat) : 0 < userSize size := by
  unfold userSize
  split <;> omega

theorem userSize_lt (hsize : size < sizeTSize) : userSize size < sizeTSize := by
  unfold userSize
  split
  · decide
  · exact hsize

theorem normalizeAlignment_lt (halign : alignment < sizeTSize) :
    normalizeAlignment alignment < sizeTSize := by
  unfold normalizeAlignment
  split
  · decide
  · exact halign

/-- The words of `arena_alloc` are the numbers that they stand for: an arena lies in the
address space, so that neither its cursor nor an aligned address behind it wraps unnoticed. A
block is carved at the first aligned address, when it fits there. -/
theorem arenaAlloc_up (hbacked : ar.base + ar.capacity ≤ sizeTSize)
    (hcap : ar.capacity < sizeTSize) (hoffset : ar.offset ≤ ar.capacity)
    (hsize : size < sizeTSize) (halign : alignment < sizeTSize) :
    (∃ e, arenaAlloc ar size alignment = (ar, .error e) ∧
      (hbiIsPow2 (normalizeAlignment alignment) = true → ar.base + ar.capacity <
        Alignment.up (ar.base + ar.offset) (normalizeAlignment alignment) + userSize size)) ∨
    ∃ start, ar.offset ≤ start ∧ start + userSize size ≤ ar.capacity ∧
      ar.base + start = Alignment.up (ar.base + ar.offset) (normalizeAlignment alignment) ∧
      arenaAlloc ar size alignment =
        ({ ar with lastOffset := start, offset := start + userSize size },
          .ok (ar.base + start)) := by
  unfold arenaAlloc
  by_cases hpow : hbiIsPow2 (normalizeAlignment alignment) = false
  · rw [if_pos hpow]
    exact Or.inl ⟨_, rfl, fun htrue => absurd (hpow.symm.trans htrue) (by decide)⟩
  · rw [if_neg hpow]
    rw [Bool.not_eq_false] at hpow
    have ha := normalizeAlignment_lt halign
    have huser := userSize_lt hsize
    have hpos := userSize_pos size
    have hle := Alignment.le_up (pos_of_hbiIsPow2 hpow) (ar.base + ar.offset)
    dsimp only
    by_cases hword : ar.base + ar.offset < sizeTSize
    · rw [Nat.mod_eq_of_lt hword, hbiAlignUp_eq hpow ha hword]
      by_cases hup : Alignment.up (ar.base + ar.offset) (normalizeAlignment alignment) < sizeTSize
      · rw [if_pos hup]
        generalize Alignment.up (ar.base + ar.offset) (normalizeAlignment alignment) = addr at *
        have hzero : ¬ (addr = 0 ∧ ar.base + ar.offset ≠ 0) := by omega
        have hstart : (addr + (sizeTSize - ar.base)) % sizeTSize = addr - ar.base := by
          rw [show addr + (sizeTSize - ar.base) = addr - ar.base + sizeTSize by omega,
            Nat.add_mod_right, Nat.mod_eq_of_lt (by omega)]
        rw [if_neg hzero, hstart]
        by_cases hfits : addr - ar.base + userSize size ≤ ar.capacity
        · rw [Nat.mod_eq_of_lt (by omega), if_neg (by omega)]
          exact Or.inr ⟨addr - ar.base, by omega, hfits, by omega, rfl⟩
        · have hrefused : (addr - ar.base + userSize size) % sizeTSize < addr - ar.base ∨
              (addr - ar.base + userSize size) % sizeTSize > ar.capacity := by
            unfold sizeTSize at *
            omega
          rw [if_pos hrefused]
          exact Or.inl ⟨_, rfl, fun _ => by omega⟩
      · rw [if_neg hup]
        by_cases hzero : ar.base + ar.offset = 0
        · rw [hzero] at hup
          exact absurd (by simp [Alignment.up, Nat.div_eq_of_lt, pos_of_hbiIsPow2 hpow,
            sizeTSize]) hup
        · rw [if_pos ⟨rfl, hzero⟩]
          exact Or.inl ⟨_, rfl, fun _ => by omega⟩
    · have htop : ar.base + ar.offset = sizeTSize := by omega
      have hzero : hbiAlignUp 0 (normalizeAlignment alignment) = 0 := by
        rw [hbiAlignUp_eq hpow ha (by decide)]
        simp [Alignment.up, Nat.div_eq_of_lt, pos_of_hbiIsPow2 hpow]
      rw [htop] at hle
      rw [htop, Nat.mod_self, hzero, if_neg (by simp)]
      have hrefused : ((0 + (sizeTSize - ar.base)) % sizeTSize + userSize size) % sizeTSize <
            (0 + (sizeTSize - ar.base)) % sizeTSize ∨
          ((0 + (sizeTSize - ar.base)) % sizeTSize + userSize size) % sizeTSize >
            ar.capacity := by
        unfold sizeTSize at *
        omega
      rw [if_pos hrefused]
      exact Or.inl ⟨_, rfl, fun _ => by omega⟩

theorem arenaAlloc_cases (hbacked : ar.base + ar.capacity ≤ sizeTSize)
    (hcap : ar.capacity < sizeTSize) (hoffset : ar.offset ≤ ar.capacity)
    (hsize : size < sizeTSize) (halign : alignment < sizeTSize) :
    (∃ e, arenaAlloc ar size alignment = (ar, .error e)) ∨
    ∃ start, ar.offset ≤ start ∧ start + userSize size ≤ ar.capacity ∧
      normalizeAlignment alignment ∣ ar.base + start ∧
      arenaAlloc ar size alignment =
        ({ ar with lastOffset := start, offset := start + userSize size },
          .ok (ar.base + start)) := by
  rcases arenaAlloc_up hbacked hcap hoffset hsize halign with
    ⟨e, heq, -⟩ | ⟨start, hstart, hstop, hup, heq⟩
  · exact Or.inl ⟨e, heq⟩
  · refine Or.inr ⟨start, hstart, hstop, ?_, heq⟩
    rw [hup]
    exact Alignment.dvd_up _ _

end Alloc

/-- What holds of an arena in use. Every block but the last one ends where the last one
starts, or before. -/
structure ArenaUse.Carved (u : ArenaUse) : Prop where
  backed : u.arena.base + u.arena.capacity ≤ sizeTSize
  capacity_lt : u.arena.capacity < sizeTSize
  offset_le : u.arena.offset ≤ u.arena.capacity
  last_le : u.arena.lastOffset ≤ u.arena.offset
  below : ∀ b ∈ u.live, b.start + b.size ≤ u.arena.offset
  last : ∀ b ∈ u.live, b.start = u.arena.lastOffset ∨ b.start + b.size ≤ u.arena.lastOffset
  pos : ∀ b ∈ u.live, 0 < b.size
  apart : u.live.Pairwise (Intervals.Apart ArenaBlock.start ArenaBlock.size)

namespace ArenaUse.Carved

variable {u : ArenaUse}

theorem create {base capacity : Nat} {mem : Nat → UInt8} (hbacked : base + capacity ≤ sizeTSize)
    (hcap : capacity < sizeTSize) : (ArenaUse.mk (.create base capacity mem) []).Carved := by
  refine ⟨hbacked, hcap, Nat.zero_le _, le_rfl, ?_, ?_, ?_, List.Pairwise.nil⟩
  all_goals
    intro b hb
    cases hb

theorem disjoint (h : u.Carved) : u.Disjoint :=
  ⟨fun b hb => (h.below b hb).trans h.offset_le, h.below, h.apart⟩

/-- Fewer blocks are held. -/
theorem sublist (h : u.Carved) {live : List ArenaBlock} (hsub : live.Sublist u.live) :
    (ArenaUse.mk u.arena live).Carved :=
  ⟨h.backed, h.capacity_lt, h.offset_le, h.last_le, fun b hb => h.below b (hsub.subset hb),
    fun b hb => h.last b (hsub.subset hb), fun b hb => h.pos b (hsub.subset hb),
    h.apart.sublist hsub⟩

/-- A block behind the cursor is carved. -/
theorem carve (h : u.Carved) {start size : Nat} {mem : Nat → UInt8}
    (hstart : u.arena.offset ≤ start) (hstop : start + size ≤ u.arena.capacity)
    (hpos : 0 < size) :
    (ArenaUse.mk { u.arena with lastOffset := start, offset := start + size, mem }
      (⟨start, size⟩ :: u.live)).Carved := by
  have hbelow := h.below
  have hback : ∀ b ∈ u.live, b.start + b.size ≤ start := fun b hb =>
    (hbelow b hb).trans hstart
  refine ⟨h.backed, h.capacity_lt, hstop, Nat.le_add_right _ _, ?_, ?_, ?_, ?_⟩
  · intro b hb
    rcases List.mem_cons.mp hb with rfl | hb
    · exact le_rfl
    · exact (hback b hb).trans (Nat.le_add_right _ _)
  · intro b hb
    rcases List.mem_cons.mp hb with rfl | hb
    · exact Or.inl rfl
    · exact Or.inr (hback b hb)
  · intro b hb
    rcases List.mem_cons.mp hb with rfl | hb
    · exact hpos
    · exact h.pos b hb
  · refine List.pairwise_cons.mpr ⟨?_, h.apart⟩
    intro b hb
    exact Or.inr (hback b hb)

/-- The last block gets a new size, and the cursor moves behind it. -/
theorem resize (h : u.Carved) {newSize : Nat} (hpos : 0 < newSize)
    (hstop : u.arena.lastOffset + newSize ≤ u.arena.capacity) :
    (ArenaUse.mk { u.arena with offset := u.arena.lastOffset + newSize }
      (⟨u.arena.lastOffset, newSize⟩ ::
        u.live.filter (·.start ≠ u.arena.lastOffset))).Carved := by
  have hback : ∀ b ∈ u.live.filter (·.start ≠ u.arena.lastOffset),
      b.start + b.size ≤ u.arena.lastOffset := by
    intro b hb
    obtain ⟨hb, hne⟩ := List.mem_filter.mp hb
    exact (h.last b hb).resolve_left (by simpa using hne)
  refine ⟨h.backed, h.capacity_lt, hstop, Nat.le_add_right _ _, ?_, ?_, ?_, ?_⟩
  · intro b hb
    rcases List.mem_cons.mp hb with rfl | hb
    · exact le_rfl
    · exact (hback b hb).trans (Nat.le_add_right _ _)
  · intro b hb
    rcases List.mem_cons.mp hb with rfl | hb
    · exact Or.inl rfl
    · exact Or.inr (hback b hb)
  · intro b hb
    rcases List.mem_cons.mp hb with rfl | hb
    · exact hpos
    · exact h.pos b (List.mem_of_mem_filter hb)
  · refine List.pairwise_cons.mpr ⟨?_, h.apart.sublist List.filter_sublist⟩
    intro b hb
    exact Or.inr (hback b hb)

/-- A call that answers with an allocation: refused, or a new block behind the cursor. -/
theorem of_alloc (h : u.Carved) {live : List ArenaBlock} (hsub : live.Sublist u.live)
    {size alignment : Nat} (hsize : size < sizeTSize) (halign : alignment < sizeTSize) :
    (∃ e, arenaAlloc u.arena size alignment = (u.arena, .error e)) ∨
    ∃ ptr, normalizeAlignment alignment ∣ ptr ∧
      (arenaAlloc u.arena size alignment).2 = .ok ptr ∧
      ∀ mem, (ArenaUse.mk { (arenaAlloc u.arena size alignment).1 with mem }
        (⟨ptr - u.arena.base, userSize size⟩ :: live)).Carved := by
  rcases arenaAlloc_cases h.backed h.capacity_lt h.offset_le hsize halign with
    hrefused | ⟨start, hstart, hstop, hdvd, heq⟩
  · exact Or.inl hrefused
  · refine Or.inr ⟨u.arena.base + start, hdvd, by rw [heq], ?_⟩
    intro mem
    rw [heq, Nat.add_sub_cancel_left]
    exact (h.sublist hsub).carve hstart hstop (userSize_pos size)

theorem step (h : u.Carved) {call : ArenaCall} (hwords : call.Words) :
    (arenaStep u call).Carved := by
  cases call with
  | reset =>
      refine ⟨h.backed, h.capacity_lt, Nat.zero_le _, le_rfl, ?_, ?_, ?_, List.Pairwise.nil⟩
      all_goals
        intro b hb
        cases hb
  | alloc size alignment =>
      unfold arenaStep ArenaCall.after ArenaCall.held ArenaCall.answer
      dsimp only
      rcases h.of_alloc (List.Sublist.refl _) hwords.1 hwords.2 with
        ⟨e, heq⟩ | ⟨ptr, -, heq, hcarved⟩
      · rw [heq]
        exact h
      · rw [heq]
        exact hcarved _
  | realloc ptr newSize alignment =>
      unfold arenaStep ArenaCall.after ArenaCall.answer arenaRealloc
      cases ptr with
      | none =>
          unfold ArenaCall.held
          dsimp only
          rcases h.of_alloc (List.Sublist.refl _) hwords.1 hwords.2 with
            ⟨e, heq⟩ | ⟨ptr, -, heq, hcarved⟩
          · rw [heq]
            exact h
          · rw [heq]
            exact hcarved _
      | some old =>
          dsimp only
          by_cases hzero : newSize = 0
          · rw [if_pos hzero]
            exact h
          · rw [if_neg hzero]
            by_cases hlast : old = u.arena.base + u.arena.lastOffset ∧
                u.arena.lastOffset ≤ (u.arena.lastOffset + newSize) % sizeTSize ∧
                (u.arena.lastOffset + newSize) % sizeTSize ≤ u.arena.capacity
            · rw [if_pos hlast]
              obtain ⟨rfl, hlow, hhigh⟩ := hlast
              have hsize : newSize < sizeTSize := hwords.1
              have hcap := h.capacity_lt
              have hle := h.last_le.trans h.offset_le
              have hstop : (u.arena.lastOffset + newSize) % sizeTSize =
                  u.arena.lastOffset + newSize := by
                unfold sizeTSize at *
                omega
              rw [hstop] at hhigh ⊢
              have hresized := h.resize (Nat.pos_of_ne_zero hzero) hhigh
              simpa [ArenaCall.held, Except.toOption] using hresized
            · rw [if_neg hlast]
              rcases h.of_alloc (List.filter_sublist (p := (u.arena.base + ·.start ≠ old)))
                hwords.1 hwords.2 with ⟨e, heq⟩ | ⟨ptr, -, hptr, hcarved⟩
              · rw [heq]
                exact h
              · cases halloc : arenaAlloc u.arena newSize alignment with
                | mk ar answer =>
                    rw [halloc] at hptr hcarved
                    dsimp only at hptr hcarved
                    subst hptr
                    have huser : userSize newSize = newSize := if_neg hzero
                    rw [huser] at hcarved
                    exact hcarved _

theorem alignedAnswer (h : u.Carved) {call : ArenaCall} (hwords : call.Words) :
    call.AlignedAnswer u := by
  have halloc : ∀ size alignment, size < sizeTSize → alignment < sizeTSize → ∀ ptr,
      (arenaAlloc u.arena size alignment).2.map some = .ok (some ptr) →
        normalizeAlignment alignment ∣ ptr := by
    intro size alignment hsize halign ptr hptr
    rcases h.of_alloc (List.Sublist.refl _) hsize halign with
      ⟨e, heq⟩ | ⟨ptr', hdvd, heq, -⟩
    · rw [heq] at hptr
      cases hptr
    · rw [heq] at hptr
      cases hptr
      exact hdvd
  cases call with
  | alloc size alignment => exact halloc size alignment hwords.1 hwords.2
  | reset => trivial
  | realloc ptr newSize alignment =>
      cases ptr with
      | none => exact halloc newSize alignment hwords.1 hwords.2
      | some ptr => trivial

end ArenaUse.Carved

/-- An allocation that fails leaves the arena alone. -/
theorem arenaAlloc_error {ar : Arena} {size alignment : Nat} {e : Failure}
    (herror : (arenaAlloc ar size alignment).2 = .error e) :
    (arenaAlloc ar size alignment).1 = ar := by
  unfold arenaAlloc at herror ⊢
  split
  · rfl
  · rename_i hpow
    rw [if_neg hpow] at herror
    dsimp only at herror ⊢
    split
    · rfl
    · rename_i hzero
      rw [if_neg hzero] at herror
      split
      · rfl
      · rename_i hfits
        rw [if_neg hfits] at herror
        cases herror

theorem arenaRefusalKeeps (u : ArenaUse) (call : ArenaCall) : call.RefusalKeeps u := by
  have hnew : ∀ size alignment,
      (∀ ptr, (arenaAlloc u.arena size alignment).2.map some ≠ .ok (some ptr)) →
        ∃ e, arenaAlloc u.arena size alignment = (u.arena, .error e) := by
    intro size alignment hnull
    cases hres : arenaAlloc u.arena size alignment with
    | mk ar answer =>
        rw [hres] at hnull
        cases answer with
        | error e =>
            have hsame := @arenaAlloc_error u.arena size alignment e (by rw [hres])
            rw [hres] at hsame
            exact ⟨e, by rw [← hsame]⟩
        | ok ptr => exact absurd rfl (hnull ptr)
  intro hreset hnull
  cases call with
  | reset => exact absurd rfl hreset
  | alloc size alignment =>
      obtain ⟨e, heq⟩ := hnew size alignment hnull
      unfold arenaStep ArenaCall.after ArenaCall.held ArenaCall.answer
      dsimp only
      rw [heq]
      exact ⟨rfl, rfl, rfl⟩
  | realloc ptr newSize alignment =>
      cases ptr with
      | none =>
          obtain ⟨e, heq⟩ := hnew newSize alignment hnull
          simp only [arenaStep, ArenaCall.after, ArenaCall.held, ArenaCall.answer, arenaRealloc]
          rw [heq]
          exact ⟨rfl, rfl, rfl⟩
      | some old =>
          simp only [ArenaCall.answer, arenaRealloc] at hnull
          simp only [arenaStep, ArenaCall.after, ArenaCall.held, ArenaCall.answer, arenaRealloc]
          by_cases hzero : newSize = 0
          · rw [if_pos hzero]
            exact ⟨rfl, rfl, rfl⟩
          · rw [if_neg hzero] at hnull ⊢
            split at hnull
            · exact absurd rfl (hnull old)
            · rename_i hlast
              rw [if_neg hlast]
              cases hres : arenaAlloc u.arena newSize alignment with
              | mk ar answer =>
                  rw [hres] at hnull
                  cases answer with
                  | error e =>
                      have hsame := @arenaAlloc_error u.arena newSize alignment e (by rw [hres])
                      rw [hres] at hsame
                      dsimp only at hsame
                      subst hsame
                      exact ⟨rfl, rfl, rfl⟩
                  | ok ptr => exact absurd rfl (hnull ptr)

/-- The buffer of an allocator that serves a request lies in the address space. -/
theorem backed_of_serves {buf : SysBuffer} {debug : Bool} {capacity alignment : Nat}
    (h : buf.Serves debug capacity alignment)
    (hblock : buf.backing.base + buf.backing.bytes ≤ sizeTSize) :
    buf.user + capacity ≤ sizeTSize := by
  have htail := h.tail_inside
  have huser : capacity ≤ userSize capacity := by
    unfold userSize
    split <;> omega
  omega

/-- For every arena on a backing block in the address space and every sequence of calls:
the blocks that are held lie in the arena, below the cursor and apart from each other, and
on the way every new block was aligned and every refusal left the cursor alone. -/
theorem arena_blocks_apart {base capacity : Nat} (mem : Nat → UInt8) {calls : List ArenaCall}
    (hbacked : base + capacity ≤ sizeTSize) (hcap : capacity < sizeTSize)
    (hwords : ∀ call ∈ calls, call.Words) :
    (Runs.final arenaStep ⟨.create base capacity mem, []⟩ calls).Disjoint ∧
    Runs.Along arenaStep (fun u call => call.AlignedAnswer u ∧ call.RefusalKeeps u)
      ⟨.create base capacity mem, []⟩ calls := by
  have hstart : (ArenaUse.mk (.create base capacity mem) []).Carved := .create hbacked hcap
  have hrun : Runs.Along arenaStep (fun _ call => call.Words)
      ⟨.create base capacity mem, []⟩ calls := Runs.along_of_mem hwords
  constructor
  · exact (Runs.final_of_along (fun u call h hw => h.step hw) hstart hrun).disjoint
  · exact Runs.along_of_inv
      (fun u call h hw => ⟨h.alignedAnswer hw, arenaRefusalKeeps u call⟩)
      (fun u call h hw => h.step hw) hstart hrun

/-- A small arena behind a header: two blocks, the last one shrunk and then grown, the first
one moved, a request that is refused, and one at a large alignment. -/
def arenaRun : List ArenaCall :=
  [.alloc 40 0, .alloc 100 64, .realloc (some 4224) 20 0, .realloc (some 4224) 60 0,
    .realloc (some 4144) 80 0, .alloc 4000 16, .alloc 1 256]

theorem arena_blocks_apart_arenaRun :
    4144 + 1000 ≤ sizeTSize ∧ 1000 < sizeTSize ∧ (∀ call ∈ arenaRun, call.Words) ∧
    (Runs.final arenaStep ⟨.create 4144 1000 fun _ => 0, []⟩ arenaRun).Disjoint ∧
    (Runs.final arenaStep ⟨.create 4144 1000 fun _ => 0, []⟩ arenaRun).live =
      [⟨464, 1⟩, ⟨144, 80⟩, ⟨80, 60⟩] := by
  have hbacked : 4144 + 1000 ≤ sizeTSize := by decide
  have hcap : 1000 < sizeTSize := by decide
  have hwords : ∀ call ∈ arenaRun, call.Words := by decide
  refine ⟨hbacked, hcap, hwords, (arena_blocks_apart _ hbacked hcap hwords).1, ?_⟩
  decide +kernel

end Hummingbird

import Hummingbird.Memory.Arena

/-!
Reallocation in an arena, against what an allocator promises of it: an aligned block that keeps
the bytes of the old one and disturbs no other. The last block is resized where it stands. Any
other one is copied into a new slice, and as the cursor has moved by then the copy has the new
size, whatever the old one was.
-/

namespace Hummingbird

/-- The arenas that the calls lead to, whatever the callers write into the memory. -/
inductive ArenaUse.Reached (base capacity : Nat) : ArenaUse → Prop
  | create (mem : Nat → UInt8) : Reached base capacity ⟨.create base capacity mem, []⟩
  | call {u : ArenaUse} {call : ArenaCall} (h : Reached base capacity u) (hwords : call.Words) :
      Reached base capacity (arenaStep u call)
  | write {u : ArenaUse} (h : Reached base capacity u) (mem : Nat → UInt8) :
      Reached base capacity ⟨{ u.arena with mem }, u.live⟩

/-- The arguments of a `memcpy`. -/
structure CopyRange where
  dst : Nat
  src : Nat
  len : Nat
  deriving DecidableEq, Repr

def CopyRange.Apart (c : CopyRange) : Prop := c.src + c.len ≤ c.dst ∨ c.dst + c.len ≤ c.src

/-- The `memcpy` of `arena_realloc`, when it comes to one. -/
def reallocCopy (ar : Arena) (ptr newSize alignment : Nat) : Option CopyRange :=
  let stop := (ar.lastOffset + newSize) % sizeTSize
  if ptr = ar.base + ar.lastOffset ∧ ar.lastOffset ≤ stop ∧ stop ≤ ar.capacity then none
  else
    match arenaAlloc ar newSize alignment with
    | (_, .error _) => none
    | (ar, .ok fresh) => some ⟨fresh, ptr, min newSize (ar.base + ar.offset - ptr)⟩

/-- What an allocator promises of a block that is reallocated. -/
structure ArenaUse.Reallocates (u : ArenaUse) (b : ArenaBlock) (newSize alignment ptr : Nat)
    (after : Arena) : Prop where
  aligned : alignment ∣ ptr
  kept : ∀ k < min b.size newSize,
    after.mem (ptr - u.arena.base + k) = u.arena.mem (b.start + k)
  others : ∀ c ∈ u.live, c ≠ b → ∀ k < c.size,
    after.mem (c.start + k) = u.arena.mem (c.start + k)
  copy_apart : ∀ c, reallocCopy u.arena (u.arena.base + b.start) newSize alignment = some c →
    c.Apart

def ArenaUse.ReallocKeeps (u : ArenaUse) (b : ArenaBlock) (newSize alignment : Nat) : Prop :=
  ∀ ptr, (arenaRealloc u.arena (some (u.arena.base + b.start)) newSize alignment).2 =
      .ok (some ptr) →
    u.Reallocates b newSize alignment ptr
      (arenaRealloc u.arena (some (u.arena.base + b.start)) newSize alignment).1

/-- The last block stands aligned already, when it is resized where it stands; any other block
has room for the new size in front of the slice that is carved for it. -/
def ArenaUse.ReallocRoom (u : ArenaUse) (b : ArenaBlock) (newSize alignment : Nat) : Prop :=
  if b.start = u.arena.lastOffset ∧ b.start + newSize ≤ u.arena.capacity then
    alignment ∣ u.arena.base + b.start
  else
    Alignment.up (u.arena.base + u.arena.offset) alignment + newSize ≤
        u.arena.base + u.arena.capacity →
      u.arena.base + b.start + newSize ≤ Alignment.up (u.arena.base + u.arena.offset) alignment

/-- The slice that a block was copied into. -/
def Arena.carved (ar : Arena) (start newSize source : Nat) : Arena :=
  ⟨ar.base, ar.capacity, start + newSize, start, fun k =>
    if k < start ∨ start + newSize ≤ k then ar.mem k else ar.mem (k - start + source)⟩

/-- Everything that a reallocation of a block can do. -/
inductive Reallocated (u : ArenaUse) (b : ArenaBlock) (newSize alignment : Nat) :
    Arena × Result (Option Nat) → Option CopyRange → Prop
  | inPlace (hlast : b.start = u.arena.lastOffset) (hstop : b.start + newSize ≤ u.arena.capacity) :
      Reallocated u b newSize alignment
        ({ u.arena with offset := b.start + newSize }, .ok (some (u.arena.base + b.start))) none
  | refused {e : Failure}
      (hmoves : ¬ (b.start = u.arena.lastOffset ∧ b.start + newSize ≤ u.arena.capacity))
      (hfull : u.arena.base + u.arena.capacity <
        Alignment.up (u.arena.base + u.arena.offset) alignment + newSize) :
      Reallocated u b newSize alignment (u.arena, .error e) none
  | moved {start : Nat}
      (hmoves : ¬ (b.start = u.arena.lastOffset ∧ b.start + newSize ≤ u.arena.capacity))
      (hstart : u.arena.offset ≤ start) (hstop : start + newSize ≤ u.arena.capacity)
      (hup : u.arena.base + start = Alignment.up (u.arena.base + u.arena.offset) alignment) :
      Reallocated u b newSize alignment
        (u.arena.carved start newSize b.start, .ok (some (u.arena.base + start)))
        (some ⟨u.arena.base + start, u.arena.base + b.start, newSize⟩)

/-- Behind the fresh slice there is always as much as is to be copied. -/
theorem arenaCopy_carved {ar : Arena} {start newSize source : Nat} (h : source ≤ start) :
    arenaCopy { ar with lastOffset := start, offset := start + newSize } (ar.base + start)
      (ar.base + source) newSize = ar.carved start newSize source := by
  have hcopy : min newSize (ar.base + (start + newSize) - (ar.base + source)) = newSize := by
    omega
  unfold arenaCopy Arena.carved
  dsimp only
  rw [hcopy]
  congr 1
  funext k
  by_cases hk : k < start ∨ start + newSize ≤ k
  · rw [if_pos hk, if_pos (by omega)]
  · rw [if_neg hk, if_neg (by omega)]
    congr 1
    omega

namespace ArenaUse

variable {u : ArenaUse} {b : ArenaBlock} {newSize alignment : Nat}

theorem arenaRealloc_cases (h : u.Carved) (hb : b ∈ u.live) (hpos : 0 < newSize)
    (hsize : newSize < sizeTSize) (hpow : hbiIsPow2 alignment = true)
    (halign : alignment < sizeTSize) :
    Reallocated u b newSize alignment
      (arenaRealloc u.arena (some (u.arena.base + b.start)) newSize alignment)
      (reallocCopy u.arena (u.arena.base + b.start) newSize alignment) := by
  have hlast := h.last_le.trans h.offset_le
  have hcap := h.capacity_lt
  have hbelow := h.below b hb
  have hnorm := normalizeAlignment_of_pow2 hpow
  have huser : userSize newSize = newSize := if_neg hpos.ne'
  have htest : (u.arena.base + b.start = u.arena.base + u.arena.lastOffset ∧
      u.arena.lastOffset ≤ (u.arena.lastOffset + newSize) % sizeTSize ∧
      (u.arena.lastOffset + newSize) % sizeTSize ≤ u.arena.capacity) ↔
      b.start = u.arena.lastOffset ∧ b.start + newSize ≤ u.arena.capacity := by
    unfold sizeTSize at *
    omega
  unfold arenaRealloc reallocCopy
  simp only [if_neg hpos.ne', htest]
  by_cases hmoves : b.start = u.arena.lastOffset ∧ b.start + newSize ≤ u.arena.capacity
  · have hstop : (u.arena.lastOffset + newSize) % sizeTSize = b.start + newSize := by
      unfold sizeTSize at *
      omega
    rw [if_pos hmoves, if_pos hmoves, hstop]
    exact .inPlace hmoves.1 hmoves.2
  · rw [if_neg hmoves, if_neg hmoves]
    rcases arenaAlloc_up h.backed h.capacity_lt h.offset_le hsize halign with
      ⟨e, heq, hfull⟩ | ⟨start, hstart, hstop, hup, heq⟩
    · rw [hnorm, huser] at hfull
      rw [heq]
      exact .refused hmoves (hfull hpow)
    · rw [huser] at hstop heq
      rw [hnorm] at hup
      rw [heq]
      dsimp only
      have hmin : min newSize (u.arena.base + (start + newSize) - (u.arena.base + b.start)) =
          newSize := by
        omega
      rw [hmin, arenaCopy_carved (by omega)]
      exact .moved hmoves hstart hstop hup

/-- The slice holds what the block held, and nothing in front of it has changed. -/
theorem carved_reallocates (h : u.Carved) {start : Nat}
    (hstart : u.arena.offset ≤ start) :
    (∀ k < min b.size newSize, (u.arena.carved start newSize b.start).mem
      (u.arena.base + start - u.arena.base + k) = u.arena.mem (b.start + k)) ∧
    ∀ c ∈ u.live, ∀ k < c.size, (u.arena.carved start newSize b.start).mem (c.start + k) =
      u.arena.mem (c.start + k) := by
  have hbelow := h.below
  constructor
  · intro k hk
    unfold Arena.carved
    dsimp only
    rw [if_neg (by omega)]
    congr 1
    omega
  · intro c hc k hk
    have hend := hbelow c hc
    exact if_pos (Or.inl (by omega))

/-- One reallocation, of a block that is held. -/
theorem reallocKeeps_iff (h : u.Carved) (hb : b ∈ u.live) (hpos : 0 < newSize)
    (hsize : newSize < sizeTSize) (hpow : hbiIsPow2 alignment = true)
    (halign : alignment < sizeTSize) :
    u.ReallocKeeps b newSize alignment ↔ u.ReallocRoom b newSize alignment := by
  have hcases := arenaRealloc_cases h hb hpos hsize hpow halign
  unfold ReallocKeeps ReallocRoom
  generalize hcopy : reallocCopy u.arena (u.arena.base + b.start) newSize alignment = copy
    at hcases
  generalize arenaRealloc u.arena (some (u.arena.base + b.start)) newSize alignment = result
    at hcases
  have hbelow := h.below b hb
  cases hcases with
  | inPlace hlast hstop =>
      rw [if_pos ⟨hlast, hstop⟩]
      constructor
      · intro hkeeps
        exact (hkeeps _ rfl).aligned
      · intro haligned ptr hptr
        obtain rfl := Option.some.inj (Except.ok.inj hptr)
        refine ⟨haligned, ?_, fun _ _ _ _ _ => rfl, ?_⟩
        · intro k hk
          rw [Nat.add_sub_cancel_left]
        · intro c hc
          rw [hcopy] at hc
          cases hc
  | refused hmoves hfull =>
      rw [if_neg hmoves]
      constructor
      · intro _ hfits
        omega
      · intro _ ptr hptr
        cases hptr
  | @moved start hmoves hstart hstop hup =>
      rw [if_neg hmoves, ← hup]
      constructor
      · intro hkeeps _
        have hapart : (CopyRange.mk (u.arena.base + start) (u.arena.base + b.start)
            newSize).Apart := (hkeeps _ rfl).copy_apart _ hcopy
        have hsizepos := h.pos b hb
        unfold CopyRange.Apart at hapart
        dsimp only at hapart
        omega
      · intro hroom ptr hptr
        obtain rfl := Option.some.inj (Except.ok.inj hptr)
        obtain ⟨hkept, hothers⟩ := @carved_reallocates u b newSize h start hstart
        refine ⟨?_, hkept, fun c hc _ => hothers c hc, ?_⟩
        · rw [hup]
          exact Alignment.dvd_up _ _
        · intro c hc
          rw [hcopy] at hc
          obtain rfl := Option.some.inj hc
          exact Or.inl (hroom (by omega))

theorem Reached.carved {base capacity : Nat} (hbacked : base + capacity ≤ sizeTSize)
    (hcap : capacity < sizeTSize) (h : Reached base capacity u) : u.Carved := by
  induction h with
  | create mem => exact .create hbacked hcap
  | call _ hwords ih => exact ih.step hwords
  | write _ mem ih =>
      exact ⟨ih.backed, ih.capacity_lt, ih.offset_le, ih.last_le, ih.below, ih.last, ih.pos,
        ih.apart⟩

end ArenaUse

/-- For every arena that the calls lead to, every block that is held, every new size and every
power of two: a reallocation keeps what an allocator promises exactly when the last block, if it
can be resized where it stands, is aligned as asked, and any other block for which a slice can be
carved has room for the new size in front of it. -/
theorem arena_realloc_keeps_iff {base capacity newSize alignment : Nat} {u : ArenaUse}
    {b : ArenaBlock} (hbacked : base + capacity ≤ sizeTSize) (hcap : capacity < sizeTSize)
    (h : u.Reached base capacity) (hb : b ∈ u.live) (hpos : 0 < newSize)
    (hsize : newSize < sizeTSize) (hpow : hbiIsPow2 alignment = true)
    (halign : alignment < sizeTSize) :
    u.ReallocKeeps b newSize alignment ↔ u.ReallocRoom b newSize alignment :=
  ArenaUse.reallocKeeps_iff (h.carved hbacked hcap) hb hpos hsize hpow halign

/-- A block of 40 bytes and one of 8 behind it. -/
def twoBlocks : ArenaUse :=
  Runs.final arenaStep ⟨.create 4096 1000 fun _ => 0, []⟩ [.alloc 40 16, .alloc 8 16]

theorem twoBlocks_reached : twoBlocks.Reached 4096 1000 := by
  have hfirst : ArenaCall.Words (.alloc 40 16) := by decide
  have hsecond : ArenaCall.Words (.alloc 8 16) := by decide
  exact .call (.call (.create _) hfirst) hsecond

theorem arena_realloc_keeps_twoBlocks : twoBlocks.ReallocKeeps ⟨0, 40⟩ 50 16 := by
  refine (arena_realloc_keeps_iff (by decide) (by decide) twoBlocks_reached (by decide +kernel)
    (by decide) (by decide) (by decide) (by decide)).mpr ?_
  unfold ArenaUse.ReallocRoom
  decide +kernel

/-- The first block is copied over itself when it grows to 100 bytes, and the second one stays
where it stands whatever the alignment. -/
theorem arena_realloc_overlaps :
    twoBlocks.Reached 4096 1000 ∧ ¬ twoBlocks.ReallocKeeps ⟨0, 40⟩ 100 16 ∧
      ¬ twoBlocks.ReallocKeeps ⟨48, 8⟩ 8 64 := by
  have hcarved := twoBlocks_reached.carved (by decide) (by decide)
  have hfirst : ¬ twoBlocks.ReallocRoom ⟨0, 40⟩ 100 16 := by
    unfold ArenaUse.ReallocRoom
    decide +kernel
  have hsecond : ¬ twoBlocks.ReallocRoom ⟨48, 8⟩ 8 64 := by
    unfold ArenaUse.ReallocRoom
    decide +kernel
  refine ⟨twoBlocks_reached, ?_, ?_⟩
  · rwa [ArenaUse.reallocKeeps_iff hcarved (by decide +kernel) (by decide) (by decide)
      (by decide) (by decide)]
  · rwa [ArenaUse.reallocKeeps_iff hcarved (by decide +kernel) (by decide) (by decide)
      (by decide) (by decide)]

end Hummingbird

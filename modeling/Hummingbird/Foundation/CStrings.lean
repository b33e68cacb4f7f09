import Mathlib.Tactic

/-!
Texts in a buffer of characters, each up to a terminator. A pointer is an index, and a read or a
write outside the buffer is a fault. Two buffers that agree up to an index hold the same texts in
front of it.
-/

namespace CStrings

inductive Fault where
  | outside
  | endless
  deriving DecidableEq, Repr

variable {α : Type}

def read (buf : List α) (i : Nat) : Except Fault α :=
  match buf[i]? with
  | none => .error .outside
  | some c => .ok c

def write (buf : List α) (i : Nat) (c : α) : Except Fault (List α) :=
  if i < buf.length then .ok (buf.set i c) else .error .outside

/-- A row of writes from an index on, and the index behind it. -/
def writeAll (buf : List α) (i : Nat) : List α → Except Fault (List α × Nat)
  | [] => .ok (buf, i)
  | c :: cs => do
      let buf ← write buf i c
      writeAll buf (i + 1) cs

/-- The first place where a scan stops, through the cells from `i` on. -/
def scan (stop : α → Bool) : List α → Nat → Except Fault Nat
  | [], _ => .error .outside
  | d :: ds, i => if stop d then .ok i else scan stop ds (i + 1)

theorem read_of_drop {buf rest : List α} {p : Nat} {c : α} (h : buf.drop p = c :: rest) :
    read buf p = .ok c := by
  have hget : buf[p]? = some c := by
    rw [← Nat.add_zero p, ← List.getElem?_drop, h]
    rfl
  unfold read
  rw [hget]

theorem scan_append {stop : α → Bool} {before rest : List α} {c : α} {i : Nat}
    (hbefore : ∀ d ∈ before, stop d = false) (hstop : stop c = true) :
    scan stop (before ++ c :: rest) i = .ok (i + before.length) := by
  induction before generalizing i with
  | nil => exact if_pos hstop
  | cons d ds ih =>
      have hd : ¬ stop d = true := by
        rw [hbefore d (by simp)]
        decide
      rw [List.cons_append, scan, if_neg hd, ih fun x hx => hbefore x (by simp [hx]),
        List.length_cons]
      congr 1
      omega

/-- A cell of the buffer is overwritten. -/
theorem write_of_drop {buf before rest : List α} {p : Nat} {c d : α}
    (h : buf.drop p = before ++ d :: rest) :
    ∃ buf', write buf (p + before.length) c = .ok buf' ∧ buf'.drop p = before ++ c :: rest ∧
      buf'.take (p + before.length) = buf.take (p + before.length) := by
  have hlen := congrArg List.length h
  simp only [List.length_drop, List.length_append, List.length_cons] at hlen
  refine ⟨buf.set (p + before.length) c, if_pos (by omega), ?_, ?_⟩
  · rw [List.drop_set, if_neg (by omega), h, Nat.add_sub_cancel_left,
      List.set_append_right _ _ le_rfl, Nat.sub_self, List.set_cons_zero]
  · rw [List.take_set]
    exact List.set_eq_of_length_le (by simp)

/-- A row goes behind what is written when there is room for it. -/
theorem writeAll_append {cs out tail : List α} (h : cs.length ≤ tail.length) :
    writeAll (out ++ tail) out.length cs =
      .ok (out ++ cs ++ tail.drop cs.length, (out ++ cs).length) := by
  induction cs generalizing out tail with
  | nil => simp [writeAll]
  | cons c cs ih =>
      cases tail with
      | nil => simp at h
      | cons d tail =>
          have hwrite : write (out ++ d :: tail) out.length c = .ok (out ++ [c] ++ tail) := by
            unfold write
            rw [if_pos (by simp), List.set_append_right _ _ le_rfl]
            simp
          have hrest := @ih (out ++ [c]) tail (by simpa using h)
          rw [List.length_append, List.length_singleton] at hrest
          unfold writeAll
          rw [hwrite]
          simpa [bind, Except.bind] using hrest

/-- From `p` on there is a text, its terminator, and something behind it. -/
structure Holds (nul : α) (buf : List α) (p : Nat) (s tail : List α) : Prop where
  drop_eq : buf.drop p = s ++ nul :: tail
  nul_notMem : nul ∉ s

namespace Holds

variable {nul : α} {buf : List α} {p : Nat} {s tail : List α}

/-- The suffix of a text. -/
theorem suffix {s' : List α} (h : Holds nul buf p (s ++ s') tail) :
    Holds nul buf (p + s.length) s' tail := by
  refine ⟨?_, fun hmem => h.nul_notMem (List.mem_append_right _ hmem)⟩
  rw [← List.drop_drop, h.drop_eq, List.append_assoc, List.drop_left]

theorem drop_behind (h : Holds nul buf p s tail) : buf.drop (p + s.length + 1) = tail := by
  rw [Nat.add_assoc, ← List.drop_drop, h.drop_eq, ← List.drop_drop, List.drop_left,
    List.drop_succ_cons, List.drop_zero]

/-- A terminator is written into a text. -/
theorem cut {c : α} {s' : List α} (h : Holds nul buf p (s ++ c :: s') tail) :
    ∃ buf', write buf (p + s.length) nul = .ok buf' ∧ Holds nul buf' p s (s' ++ nul :: tail) ∧
      buf'.take (p + s.length) = buf.take (p + s.length) := by
  obtain ⟨buf', hwrite, hdrop, htake⟩ := write_of_drop (c := nul)
    (show buf.drop p = s ++ c :: (s' ++ nul :: tail) by
      rw [h.drop_eq, List.append_assoc, List.cons_append])
  exact ⟨buf', hwrite, ⟨hdrop, fun hmem => h.nul_notMem (List.mem_append_left _ hmem)⟩, htake⟩

/-- What lies in front of a change is as it was. -/
theorem frame {buf' : List α} {q : Nat} (h : Holds nul buf p s tail)
    (hq : p + s.length < q) (htake : buf'.take q = buf.take q) :
    ∃ tail', Holds nul buf' p s tail' := by
  have hprefix : (buf'.drop p).take (s.length + 1) = s ++ [nul] := by
    have heq : (buf'.take q).drop p = (buf.take q).drop p := by rw [htake]
    rw [List.drop_take, List.drop_take, h.drop_eq] at heq
    have hle : s.length + 1 ≤ q - p := by omega
    rw [← Nat.min_eq_left hle, ← List.take_take, heq, List.take_take, Nat.min_eq_left hle,
      List.take_append, List.take_of_length_le (Nat.le_succ _), Nat.add_sub_cancel_left]
    rfl
  refine ⟨(buf'.drop p).drop (s.length + 1), ?_, h.nul_notMem⟩
  conv_lhs => rw [← List.take_append_drop (s.length + 1) (buf'.drop p), hprefix]
  simp

end Holds

variable [DecidableEq α] (nul : α)

/-- `strchr`. -/
def strchr (buf : List α) (p : Nat) (c : α) : Except Fault (Option Nat) := do
  let i ← scan (fun d => d = c || d = nul) (buf.drop p) p
  let d ← read buf i
  return if d = c then some i else none

/-- The address of the terminator, at `s + strlen(s)`. -/
def strEnd (buf : List α) (p : Nat) : Except Fault Nat := scan (· = nul) (buf.drop p) p

/-- The text at a pointer. -/
def text (buf : List α) (p : Nat) : Except Fault (List α) := do
  let stop ← strEnd nul buf p
  return (buf.drop p).take (stop - p)

variable {nul} {buf : List α} {p : Nat} {s tail : List α}

theorem strchr_of_drop {c x : α} {rest : List α} (hdrop : buf.drop p = s ++ x :: rest)
    (hc : c ∉ s) (hnul : nul ∉ s) (hx : x = c ∨ x = nul) :
    strchr nul buf p c = .ok (if x = c then some (p + s.length) else none) := by
  have hscan : scan (fun d => d = c || d = nul) (buf.drop p) p = .ok (p + s.length) := by
    rw [hdrop]
    refine scan_append ?_ (by simpa using hx)
    intro d hd
    have hdc : d ≠ c := fun heq => hc (heq ▸ hd)
    have hdn : d ≠ nul := fun heq => hnul (heq ▸ hd)
    simp [hdc, hdn]
  have hread : read buf (p + s.length) = .ok x := by
    apply read_of_drop
    rw [← List.drop_drop, hdrop, List.drop_left]
  unfold strchr
  rw [hscan]
  show (read buf (p + s.length) >>= fun d => pure (if d = c then some (p + s.length) else none)) =
    _
  rw [hread]
  rfl

namespace Holds

theorem strEnd_eq (h : Holds nul buf p s tail) : strEnd nul buf p = .ok (p + s.length) := by
  unfold strEnd
  rw [h.drop_eq]
  refine scan_append ?_ (by simp)
  intro d hd
  rw [decide_eq_false_iff_not]
  rintro rfl
  exact h.nul_notMem hd

theorem text_eq (h : Holds nul buf p s tail) : text nul buf p = .ok s := by
  unfold text
  rw [h.strEnd_eq, h.drop_eq]
  show Except.ok ((s ++ nul :: tail).take (p + s.length - p)) = Except.ok s
  rw [Nat.add_sub_cancel_left, List.take_left]

theorem strchr_eq_none {c : α} (h : Holds nul buf p s tail) (hc : c ∉ s) (hne : c ≠ nul) :
    strchr nul buf p c = .ok none := by
  rw [strchr_of_drop h.drop_eq hc h.nul_notMem (Or.inr rfl), if_neg (Ne.symm hne)]

theorem strchr_eq_some {c : α} {s' : List α} (h : Holds nul buf p (s ++ c :: s') tail)
    (hc : c ∉ s) : strchr nul buf p c = .ok (some (p + s.length)) := by
  have hdrop : buf.drop p = s ++ c :: (s' ++ nul :: tail) := by
    rw [h.drop_eq, List.append_assoc, List.cons_append]
  rw [strchr_of_drop hdrop hc (fun hmem => h.nul_notMem (List.mem_append_left _ hmem))
    (Or.inl rfl), if_pos rfl]

end Holds

end CStrings

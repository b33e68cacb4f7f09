import Hummingbird.Config.Store
import Hummingbird.Foundation.CStrings

/-!
The loop of `hbi_config_load_file` on its buffer. The file is read into a buffer that a `NUL`
ends; the loop puts more of them in place of line feeds, of the first `=` and behind what it
trims, and never looks behind the one that was last. What it does is to apply the lines of the
file one after the other.
-/

namespace Hummingbird

namespace ConfigBuffer

open CStrings

/-- The second loop of `trim`. -/
def trimEnd (buf : List Char) (s : Nat) : Nat → Except Fault Nat
  | 0 => .ok 0
  | stop + 1 =>
      if stop + 1 > s then do
        let c ← read buf stop
        if isTrimmed c then trimEnd buf s stop else .ok (stop + 1)
      else .ok (stop + 1)

/-- `trim`: the buffer and the new start. -/
def trim (buf : List Char) (p : Nat) : Except Fault (List Char × Nat) := do
  let s ← scan (fun c => !isTrimmed c) (buf.drop p) p
  let stop ← strEnd '\x00' buf s
  let stop ← trimEnd buf s stop
  let buf ← write buf stop '\x00'
  return (buf, s)

/-- One round of the loop up to the call of `apply_text`, on a line that ends with a `NUL`. -/
def lineAt (buf : List Char) (p : Nat) : Except Fault (List Char × ConfigLine) := do
  let (buf, line) ← trim buf p
  let first ← read buf line
  if first = '\x00' ∨ first = '#' then return (buf, .blank)
  else
    match ← strchr '\x00' buf line '=' with
    | none => return (buf, .malformed)
    | some eq => do
        let buf ← write buf eq '\x00'
        let (buf, key) ← trim buf line
        let (buf, value) ← trim buf (eq + 1)
        let key ← text '\x00' buf key
        let value ← text '\x00' buf value
        return (buf, .assign key value)

/-- The loop, with a number of rounds that it may take. -/
def loadLoop (path : List Char) (allocated : Nat → Bool) :
    Nat → Nat → ConfigStore → List Char → Option Nat →
      Except Fault (ConfigStore × Result Unit)
  | _, _, cfg, _, none => .ok (cfg, .ok ())
  | 0, _, _, _, some _ => .error .endless
  | fuel + 1, lineno, cfg, buf, some cursor => do
      let c ← read buf cursor
      if c = '\x00' then return (cfg, .ok ())
      else do
        let nl ← strchr '\x00' buf cursor '\n'
        let buf ← match nl with
          | some nl => write buf nl '\x00'
          | none => .ok buf
        let (buf, line) ← lineAt buf cursor
        match line with
        | .blank => loadLoop path allocated fuel (lineno + 1) cfg buf (nl.map (· + 1))
        | .malformed =>
            return (cfg,
              errSet .corrupt s!"config '{String.ofList path}' line {lineno}: missing '='")
        | .assign key value =>
            match applyText cfg key value .file (allocated lineno) with
            | (cfg, .error f) => return (cfg, .error f)
            | (cfg, .ok ()) =>
                loadLoop path allocated fuel (lineno + 1) cfg buf (nl.map (· + 1))

def hbiConfigLoadFile (cfg : ConfigStore) (path : List Char) (file : ConfigFile)
    (allocated : Nat → Bool) : Except Fault (ConfigStore × Result Unit) :=
  match file.opened with
  | .error f => .ok (cfg, .error f)
  | .ok () =>
      match file.size with
      | .error f => .ok (cfg, .error f)
      | .ok size =>
          if size > 16 * 1024 * 1024 then
            .ok (cfg, errSet .corrupt
              s!"config file '{String.ofList path}' too large ({size} bytes)")
          else if file.buffer = false then
            .ok (cfg, errSet .oom "config_load_file: buffer alloc failed")
          else
            match file.content with
            | .error f => .ok (cfg, .error f)
            | .ok content =>
                loadLoop path allocated (content.length + 1) 1 cfg (content ++ ['\x00'])
                  (some 0)

/-- What the second loop takes off. -/
theorem trimEnd_eq {buf core trailing rest : List Char} {s : Nat}
    (hdrop : buf.drop s = core ++ trailing ++ rest)
    (hcore : ∀ hne : core ≠ [], isTrimmed (core.getLast hne) = false)
    (htrailing : ∀ c ∈ trailing, isTrimmed c = true) :
    trimEnd buf s (s + core.length + trailing.length) = .ok (s + core.length) := by
  induction trailing using List.reverseRecOn generalizing rest with
  | nil =>
      rcases List.eq_nil_or_concat core with rfl | ⟨front, d, rfl⟩
      · rw [List.length_nil, Nat.add_zero]
        cases s with
        | zero => rfl
        | succ s => exact if_neg (lt_irrefl _)
      · have hd : isTrimmed d = false := by simpa using hcore (by simp)
        have hcell : buf.drop (s + front.length) = d :: rest := by
          rw [← List.drop_drop, hdrop]
          simp
        rw [List.concat_eq_append, List.length_append, List.length_singleton, List.length_nil,
          Nat.add_zero, ← Nat.add_assoc, trimEnd, if_pos (by omega), read_of_drop hcell]
        exact if_neg (by rw [hd]; decide)
  | append_singleton trailing c ih =>
      have hc : isTrimmed c = true := htrailing c (by simp)
      have hcell : buf.drop (s + core.length + trailing.length) = c :: rest := by
        rw [Nat.add_assoc, ← List.length_append, ← List.drop_drop, hdrop]
        simp
      have hih := @ih (c :: rest) (by rw [hdrop]; simp)
        fun x hx => htrailing x (by simp [hx])
      rw [List.length_append, List.length_singleton, ← Nat.add_assoc, trimEnd,
        if_pos (by omega), read_of_drop hcell]
      exact (if_pos hc).trans hih

theorem trim_split (s : List Char) : ∃ lead trailing,
    s = lead ++ (Hummingbird.trim s ++ trailing) ∧ (∀ c ∈ lead, isTrimmed c = true) ∧
      (∀ c ∈ trailing, isTrimmed c = true) ∧
      (∀ hne : Hummingbird.trim s ≠ [], isTrimmed ((Hummingbird.trim s).getLast hne) = false) ∧
      ∀ c ∈ (Hummingbird.trim s ++ trailing).head?, isTrimmed c = false := by
  refine ⟨s.takeWhile isTrimmed, (s.dropWhile isTrimmed).rtakeWhile isTrimmed, ?_, ?_, ?_, ?_, ?_⟩
  · unfold Hummingbird.trim
    rw [List.rdropWhile_append_rtakeWhile, List.takeWhile_append_dropWhile]
  · exact fun c hc => List.mem_takeWhile_imp hc
  · exact fun c hc => List.mem_rtakeWhile_imp hc
  · intro hne
    have hlast := List.rdropWhile_last_not _ _ hne
    exact Bool.eq_false_iff.mpr hlast
  · unfold Hummingbird.trim
    rw [List.rdropWhile_append_rtakeWhile]
    intro c hc
    have hhead := List.head?_dropWhile_not isTrimmed s
    rw [Option.mem_def.mp hc] at hhead
    simpa using hhead

/-- The first loop of `trim` stops where the text begins. -/
theorem scan_lead {buf lead body tail : List Char} {p : Nat}
    (hdrop : buf.drop p = lead ++ (body ++ '\x00' :: tail))
    (hlead : ∀ c ∈ lead, isTrimmed c = true) (hbody : ∀ c ∈ body.head?, isTrimmed c = false) :
    scan (fun c => !isTrimmed c) (buf.drop p) p = .ok (p + lead.length) := by
  have hlead' : ∀ c ∈ lead, (!isTrimmed c) = false := by
    intro c hc
    rw [hlead c hc]
    rfl
  rw [hdrop]
  cases body with
  | nil => exact scan_append hlead' (by decide)
  | cons x body => exact scan_append hlead' (by rw [hbody x rfl]; rfl)

/-- What `trim` leaves: the trimmed text further right, what was in front of it, and what was
behind its terminator. -/
theorem trim_holds {buf s tail : List Char} {p : Nat} (h : Holds '\x00' buf p s tail) :
    ∃ buf' start tail', trim buf p = .ok (buf', start) ∧
      Holds '\x00' buf' start (Hummingbird.trim s) tail' ∧ p ≤ start ∧
      start + (Hummingbird.trim s).length ≤ p + s.length ∧ buf'.take start = buf.take start ∧
      buf'.drop (p + s.length + 1) = tail := by
  obtain ⟨lead, trailing, hs, hlead, htrailing, hlast, hhead⟩ := trim_split s
  generalize Hummingbird.trim s = core at *
  subst hs
  have hscan := scan_lead (by rw [h.drop_eq, List.append_assoc]) hlead hhead
  have hbody := h.suffix
  have hend := hbody.strEnd_eq
  have htrim := @trimEnd_eq buf core trailing ('\x00' :: tail) (p + lead.length) hbody.drop_eq
    hlast htrailing
  obtain ⟨d, rest, hrest⟩ : ∃ d rest, trailing ++ '\x00' :: tail = d :: rest :=
    List.exists_cons_of_ne_nil (by simp)
  obtain ⟨buf', hwrite, hdrop, htake⟩ := write_of_drop (c := '\x00')
    (show buf.drop (p + lead.length) = core ++ d :: rest by
      rw [hbody.drop_eq, List.append_assoc, hrest])
  have hholds : Holds '\x00' buf' (p + lead.length) core rest :=
    ⟨hdrop, fun hmem => hbody.nul_notMem (List.mem_append_left _ hmem)⟩
  refine ⟨buf', p + lead.length, rest, ?_, hholds, by omega, ?_, ?_, ?_⟩
  · unfold trim
    rw [hscan]
    show (strEnd '\x00' buf (p + lead.length) >>= _) = _
    rw [hend, List.length_append, ← Nat.add_assoc]
    show (trimEnd buf (p + lead.length) _ >>= _) = _
    rw [htrim]
    show (write buf _ _ >>= _) = _
    rw [hwrite]
    rfl
  · simp only [List.length_append]
    omega
  · have htake' := congrArg (List.take (p + lead.length)) htake
    rwa [List.take_take, List.take_take, Nat.min_eq_left (by omega)] at htake'
  · have hbehind := hholds.drop_behind
    have htail := congrArg (List.drop (trailing.length + 1)) hrest
    rw [← List.drop_drop, List.drop_left, List.drop_succ_cons, List.drop_zero,
      List.drop_succ_cons] at htail
    rw [htail, ← hbehind, List.drop_drop]
    congr 1
    simp only [List.length_append]
    omega

/-- The parts of a line at its first `=`. -/
theorem split_at_eq {before after : List Char} (h : '=' ∉ before) :
    (before ++ '=' :: after).takeWhile (· ≠ '=') = before ∧
      (before ++ '=' :: after).dropWhile (· ≠ '=') = '=' :: after := by
  have hall : ∀ c ∈ before, decide (c ≠ '=') = true := by
    intro c hc
    rw [decide_eq_true_eq]
    rintro rfl
    exact h hc
  rw [List.takeWhile_append_of_pos hall, List.dropWhile_append_of_pos hall]
  simp

/-- A round reads a line as it is, and leaves what is behind the line alone. -/
theorem lineAt_holds {buf s tail : List Char} {p : Nat} (h : Holds '\x00' buf p s tail) :
    ∃ buf', lineAt buf p = .ok (buf', parseLine s) ∧ buf'.drop (p + s.length + 1) = tail := by
  obtain ⟨buf₁, start, tail₁, htrim, hline, -, hlen, -, hbehind⟩ := trim_holds h
  unfold lineAt parseLine
  rw [htrim]
  generalize Hummingbird.trim s = l at *
  dsimp only [bind, Except.bind]
  cases l with
  | nil =>
      rw [read_of_drop hline.drop_eq]
      exact ⟨buf₁, rfl, hbehind⟩
  | cons c cs =>
      rw [read_of_drop hline.drop_eq]
      have hc0 : c ≠ '\x00' := fun hc => hline.nul_notMem (by simp [hc])
      by_cases hhash : c = '#'
      · exact ⟨buf₁, by simp [hhash, pure, Except.pure], hbehind⟩
      · have hgo : ¬ (c = '\x00' ∨ c = '#') := by simp [hc0, hhash]
        have hgo' : ¬ (c :: cs = [] ∨ (c :: cs).head? = some '#') := by simp [hhash]
        dsimp only
        rw [if_neg hgo, if_neg hgo']
        by_cases heq : '=' ∈ c :: cs
        · obtain ⟨before, after, hl, hnot⟩ := List.eq_append_cons_of_mem heq
          generalize c :: cs = l at *
          subst hl
          obtain ⟨hbefore, hafter⟩ := @split_at_eq before after hnot
          obtain ⟨buf₂, hwrite, hkey, -⟩ := hline.cut
          obtain ⟨buf₃, key, tail₃, htrimKey, hkeyHolds, -, hkeyLen, -, hvalue⟩ := trim_holds hkey
          have hvalueHolds : Holds '\x00' buf₃ (start + before.length + 1) after tail₁ :=
            ⟨hvalue, fun hmem => hline.nul_notMem (by simp [hmem])⟩
          obtain ⟨buf₄, value, tail₄, htrimValue, hvalueText, hle, -, htake, hrest⟩ :=
            trim_holds hvalueHolds
          obtain ⟨tail₅, hkeyText⟩ := hkeyHolds.frame (by omega) htake
          rw [hline.strchr_eq_some hnot, hbefore, hafter]
          dsimp only
          rw [hwrite]
          dsimp only
          rw [htrimKey]
          dsimp only
          rw [htrimValue]
          dsimp only
          rw [hkeyText.text_eq, hvalueText.text_eq]
          refine ⟨buf₄, rfl, ?_⟩
          obtain ⟨d, hd⟩ : ∃ d, p + s.length + 1 =
              start + (before ++ '=' :: after).length + 1 + d :=
            ⟨p + s.length - (start + (before ++ '=' :: after).length), by omega⟩
          have hsame : start + before.length + 1 + after.length + 1 =
              start + (before ++ '=' :: after).length + 1 := by
            rw [List.length_append, List.length_cons]
            omega
          rw [hsame] at hrest
          rw [hd, ← List.drop_drop, hrest, ← hline.drop_behind, List.drop_drop, ← hd, hbehind]
        · have hnone : (c :: cs).dropWhile (· ≠ '=') = [] := by
            rw [List.dropWhile_eq_nil_iff]
            intro x hx
            rw [decide_eq_true_eq]
            rintro rfl
            exact heq hx
          rw [hline.strchr_eq_none heq (by decide), hnone]
          exact ⟨buf₁, rfl, hbehind⟩

theorem textLines_cons {line before after : List Char} (h : '\n' ∉ before) :
    textLines line (before ++ '\n' :: after) =
      (line.reverse ++ before) :: textLines [] after := by
  induction before generalizing line with
  | nil =>
      rw [List.append_nil]
      exact if_pos rfl
  | cons c before ih =>
      have hc : c ≠ '\n' := fun hc => h (by simp [hc])
      rw [List.cons_append, textLines, if_neg hc, ih fun hmem => h (by simp [hmem])]
      simp

theorem textLines_last {line s : List Char} (h : '\n' ∉ s) (hne : line.reverse ++ s ≠ []) :
    textLines line s = [line.reverse ++ s] := by
  induction s generalizing line with
  | nil =>
      rw [List.append_nil] at hne ⊢
      exact if_neg (by simpa using hne)
  | cons c s ih =>
      have hc : c ≠ '\n' := fun hc => h (by simp [hc])
      rw [textLines, if_neg hc, ih (fun hmem => h (by simp [hmem])) (by simp)]
      simp

theorem loadLoop_none {path : List Char} {allocated : Nat → Bool} {fuel lineno : Nat}
    {cfg : ConfigStore} {buf : List Char} :
    loadLoop path allocated fuel lineno cfg buf none = .ok (cfg, .ok ()) := by
  cases fuel with
  | zero => rfl
  | succ fuel => rfl

/-- From a cursor on the loop applies the lines of the text there. -/
theorem loadLoop_eq {path : List Char} {allocated : Nat → Bool} {fuel lineno : Nat}
    {cfg : ConfigStore} {buf s tail : List Char} {cursor : Nat}
    (h : Holds '\x00' buf cursor s tail) (hfuel : s.length < fuel) :
    loadLoop path allocated fuel lineno cfg buf (some cursor) =
      .ok (loadLines path allocated lineno cfg ((textLines [] s).map parseLine)) := by
  induction fuel generalizing lineno cfg buf s tail cursor with
  | zero => omega
  | succ fuel ih =>
      unfold loadLoop
      dsimp only [bind, Except.bind]
      cases s with
      | nil =>
          rw [read_of_drop h.drop_eq]
          rfl
      | cons c cs =>
          have hc0 : c ≠ '\x00' := fun hc => h.nul_notMem (by simp [hc])
          rw [read_of_drop h.drop_eq]
          dsimp only
          rw [if_neg hc0]
          by_cases hnl : '\n' ∈ c :: cs
          · obtain ⟨before, after, hs, hnot⟩ := List.eq_append_cons_of_mem hnl
            generalize c :: cs = s at *
            subst hs
            obtain ⟨buf₁, hwrite, hline, -⟩ := h.cut
            obtain ⟨buf₂, hparse, hrest⟩ := lineAt_holds hline
            have hafter : Holds '\x00' buf₂ (cursor + before.length + 1) after tail :=
              ⟨hrest, fun hmem => h.nul_notMem (by simp [hmem])⟩
            have hshort : after.length < fuel := by
              rw [List.length_append, List.length_cons] at hfuel
              omega
            rw [h.strchr_eq_some hnot, textLines_cons hnot, List.map_cons]
            dsimp only
            rw [hwrite]
            dsimp only
            rw [hparse, List.reverse_nil, List.nil_append]
            generalize parseLine before = line
            cases line with
            | blank => exact ih hafter hshort
            | malformed => rfl
            | assign key value =>
                rw [loadLines]
                dsimp only
                rcases applyText cfg key value .file (allocated lineno) with ⟨cfg', f | ⟨⟩⟩
                · rfl
                · exact ih hafter hshort
          · obtain ⟨buf₁, hparse, -⟩ := lineAt_holds h
            rw [h.strchr_eq_none hnl (by decide), textLines_last hnl (by simp), List.map_singleton]
            dsimp only
            rw [hparse, List.reverse_nil, List.nil_append]
            generalize parseLine (c :: cs) = line
            cases line with
            | blank => exact loadLoop_none
            | malformed => rfl
            | assign key value =>
                rw [loadLines]
                dsimp only
                rcases applyText cfg key value .file (allocated lineno) with ⟨cfg', f | ⟨⟩⟩
                · rfl
                · exact loadLoop_none

/-- A buffer that a `NUL` was put behind holds what is in front of the first one. -/
theorem content_holds (content : List Char) : ∃ tail,
    Holds '\x00' (content ++ ['\x00']) 0 (content.takeWhile (· ≠ '\x00')) tail := by
  have hnul : '\x00' ∉ content.takeWhile (· ≠ '\x00') := by
    intro hmem
    simpa using List.mem_takeWhile_imp hmem
  have hsplit := List.takeWhile_append_dropWhile (p := (· ≠ '\x00')) (l := content)
  cases hdrop : content.dropWhile (· ≠ '\x00') with
  | nil =>
      rw [hdrop, List.append_nil] at hsplit
      exact ⟨[], by rw [hsplit]; rfl, hnul⟩
  | cons d ds =>
      have hhead := List.head?_dropWhile_not (· ≠ '\x00') content
      rw [hdrop] at hhead hsplit
      obtain rfl : d = '\x00' := by simpa using hhead
      refine ⟨ds ++ ['\x00'], ?_, hnul⟩
      conv_lhs => rw [← hsplit]
      simp

/-- The loop on the buffer does what the loop over the lines does, without a fault. -/
theorem hbiConfigLoadFile_eq (cfg : ConfigStore) (path : List Char) (file : ConfigFile)
    (allocated : Nat → Bool) : hbiConfigLoadFile cfg path file allocated =
      .ok (Hummingbird.hbiConfigLoadFile cfg path file allocated) := by
  unfold hbiConfigLoadFile Hummingbird.hbiConfigLoadFile
  cases file.opened with
  | error f => rfl
  | ok u =>
      cases file.size with
      | error f => rfl
      | ok size =>
          dsimp only
          split
          · rfl
          · split
            · rfl
            · cases file.content with
              | error f => rfl
              | ok content =>
                  obtain ⟨tail, hholds⟩ := content_holds content
                  have hle := (List.takeWhile_prefix (l := content) (· ≠ '\x00')).length_le
                  exact loadLoop_eq hholds (by omega)

end ConfigBuffer

/-- One line of a file, when the lines in front of it have succeeded. -/
def applyLine (path : List Char) (allocated : Nat → Bool) (s : ConfigStore × Result Unit)
    (line : List Char × Nat) : ConfigStore × Result Unit :=
  match s.2 with
  | .error _ => s
  | .ok () =>
      match parseLine line.1 with
      | .blank => s
      | .malformed =>
          (s.1, errSet .corrupt s!"config '{String.ofList path}' line {line.2}: missing '='")
      | .assign key value => applyText s.1 key value .file (allocated line.2)

/-- The lines of a text from left to right, numbered from 1. -/
def applyLines (path : List Char) (allocated : Nat → Bool) (cfg : ConfigStore)
    (content : List Char) : ConfigStore × Result Unit :=
  ((content.splitOn '\n').zipIdx 1).foldl (applyLine path allocated) (cfg, .ok ())

section Fold

variable {path : List Char} {allocated : Nat → Bool}

theorem foldl_applyLine_error {cfg : ConfigStore} {f : Failure} (lines : List (List Char × Nat)) :
    lines.foldl (applyLine path allocated) (cfg, .error f) = (cfg, .error f) := by
  induction lines with
  | nil => rfl
  | cons line lines ih => exact ih

theorem foldl_applyLine {cfg : ConfigStore} {n : Nat} (lines : List (List Char)) :
    (lines.zipIdx n).foldl (applyLine path allocated) (cfg, .ok ()) =
      loadLines path allocated n cfg (lines.map parseLine) := by
  induction lines generalizing cfg n with
  | nil => rfl
  | cons line lines ih =>
      rw [List.zipIdx_cons, List.foldl_cons, List.map_cons, applyLine]
      dsimp only
      generalize parseLine line = parsed
      cases parsed with
      | blank => exact ih
      | malformed => exact foldl_applyLine_error _
      | assign key value =>
          rw [loadLines]
          dsimp only
          rcases applyText cfg key value .file (allocated n) with ⟨cfg', f | ⟨⟩⟩
          · exact foldl_applyLine_error _
          · exact ih

/-- Nothing is done for a last line that is blank. -/
theorem loadLines_append_blank {cfg : ConfigStore} {n : Nat} (lines : List ConfigLine) :
    loadLines path allocated n cfg (lines ++ [.blank]) = loadLines path allocated n cfg lines := by
  induction lines generalizing cfg n with
  | nil => rfl
  | cons line lines ih =>
      rw [List.cons_append]
      cases line with
      | blank => exact ih
      | malformed => rfl
      | assign key value =>
          rw [loadLines, loadLines]
          rcases applyText cfg key value .file (allocated n) with ⟨cfg', f | ⟨⟩⟩
          · rfl
          · exact ih

/-- A split at the line feeds has one more line than the loop sees when nothing follows the
last of them. -/
theorem splitOnPPrepend_eq (line cs : List Char) :
    cs.splitOnPPrepend (· == '\n') line = textLines line cs ∨
      cs.splitOnPPrepend (· == '\n') line = textLines line cs ++ [[]] := by
  induction cs generalizing line with
  | nil =>
      rw [List.splitOnPPrepend_nil, textLines]
      by_cases hline : line = []
      · subst hline
        exact Or.inr rfl
      · exact Or.inl (if_neg hline).symm
  | cons c cs ih =>
      rw [List.splitOnPPrepend_cons_eq_if, textLines]
      by_cases hc : c = '\n'
      · rw [if_pos (by simpa using hc), if_pos hc]
        rcases ih [] with h | h
        · left
          rw [← h]
          rfl
        · right
          rw [List.cons_append, ← h]
          rfl
      · rw [if_neg (by simpa using hc), if_neg hc]
        exact ih (c :: line)

theorem applyLines_eq (cfg : ConfigStore) (content : List Char) :
    applyLines path allocated cfg content =
      loadLines path allocated 1 cfg ((textLines [] content).map parseLine) := by
  unfold applyLines
  rw [foldl_applyLine]
  rcases splitOnPPrepend_eq [] content with h | h
  · exact congrArg (fun lines => loadLines path allocated 1 cfg (lines.map parseLine)) h
  · have heq := congrArg (fun lines => loadLines path allocated 1 cfg (lines.map parseLine)) h
    rw [List.map_append] at heq
    exact heq.trans (loadLines_append_blank _)

end Fold

/-- A file that is opened and read as a whole. -/
def ConfigFile.whole (content : List Char) : ConfigFile :=
  ⟨.ok (), .ok content.length, true, .ok content⟩

/-- Loading a file is applying its lines one after the other: the loop ends, and reads and
writes nothing behind the `NUL` that ends its buffer. -/
theorem config_load_file_folds (cfg : ConfigStore) (path : List Char) {content : List Char}
    (allocated : Nat → Bool) (hnul : '\x00' ∉ content)
    (hsize : content.length ≤ 16 * 1024 * 1024) :
    ConfigBuffer.hbiConfigLoadFile cfg path (.whole content) allocated =
      .ok (applyLines path allocated cfg content) := by
  have hall : content.takeWhile (· ≠ '\x00') = content := by
    rw [List.takeWhile_eq_self_iff]
    intro c hc
    rw [decide_eq_true_eq]
    rintro rfl
    exact hnul hc
  rw [ConfigBuffer.hbiConfigLoadFile_eq, applyLines_eq]
  unfold Hummingbird.hbiConfigLoadFile ConfigFile.whole fileLines
  dsimp only
  rw [if_neg (by omega), if_neg (by decide), hall]

/-- A configuration of one number. -/
def oneNumber (v : Int) (src : ConfigSource) : ConfigStore :=
  ⟨[⟨⟨"n".toList, .int, none, false, 0, 0, none, 0, 0, 0, 0⟩, src, .int v⟩]⟩

def numberLines : List Char := "n = 5\r\n # n = 7\n\n n=6".toList

theorem config_load_file_folds_numberLines :
    ConfigBuffer.hbiConfigLoadFile (oneNumber 0 .default) [] (.whole numberLines)
      (fun _ => true) = .ok (oneNumber 6 .file, .ok ()) := by
  have hlines : applyLines [] (fun _ => true) (oneNumber 0 .default) numberLines =
      (oneNumber 6 .file, .ok ()) := by
    rw [applyLines_eq]
    decide +kernel
  rw [← hlines]
  exact config_load_file_folds (oneNumber 0 .default) [] (fun _ => true) (by decide) (by decide)

end Hummingbird

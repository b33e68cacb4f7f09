import Mathlib.Data.List.Basic

/-!
Decoders that keep rows of earlier positions. A block gives every position a row and the next
hidden vector, which it takes from the rows up to that position. Decoding keeps one page of rows:
every block of a position puts its row in the same place. With a single block this is the pass
over the whole sequence, in which nothing is kept.
-/

namespace Decoding

variable {X R T Y : Type}

structure Block (X R : Type) where
  row : Nat → X → R
  next : Nat → List R → X → X

/-- The rows after a block at a position: those before it, and its own. -/
def Block.rows (b : Block X R) (past : List R) (x : X) : List R := past ++ [b.row past.length x]

def Block.apply (b : Block X R) (past : List R) (x : X) : X :=
  b.next past.length (b.rows past x) x

/-- The blocks of one position, one after the other: the last hidden vector, and the page. -/
def pass (past : List R) : List (Block X R) → X → List R → X × List R
  | [], x, page => (x, page)
  | b :: blocks, x, _ => pass past blocks (b.apply past x) (b.rows past x)

/-- Decoding of the tokens of a list, after the rows of the positions before. -/
def decode (embed : T → X) (choose : X → Y) (blocks : List (Block X R)) : List R → List T → List Y
  | _, [] => []
  | past, t :: ts =>
      choose (pass past blocks (embed t) past).1 ::
        decode embed choose blocks (pass past blocks (embed t) past).2 ts

/-- One block over a whole sequence: position `i` sees the rows of the positions up to `i`. -/
def Block.sequence (b : Block X R) (xs : List X) : List X :=
  xs.mapIdx fun i x => b.next i ((xs.mapIdx b.row).take (i + 1)) x

section Pass

variable {past page : List R} {b : Block X R} {blocks : List (Block X R)} {x : X}

/-- With a block at least, every position leaves one row. -/
theorem pass_length (h : blocks ≠ []) : (pass past blocks x page).2.length = past.length + 1 := by
  induction blocks generalizing x page with
  | nil => exact absurd rfl h
  | cons b blocks ih =>
      rw [pass]
      cases blocks with
      | nil => simp [pass, Block.rows]
      | cons b' blocks => exact ih (List.cons_ne_nil b' blocks)

end Pass

section Single

variable (b : Block X R) (embed : T → X) (choose : X → Y)

/-- The rows of the first positions are those of the sequence's first vectors. -/
theorem take_mapIdx (xs ys : List X) (f : Nat → X → R) :
    ((xs ++ ys).mapIdx f).take xs.length = xs.mapIdx f := by
  rw [List.mapIdx_append]
  exact List.take_left' (by simp)

/-- What the pass over a sequence gives at a position depends on the prefix up to it. -/
theorem sequence_getElem (pre rest : List X) (x : X) (h : pre.length < (b.sequence
    (pre ++ x :: rest)).length) :
    (b.sequence (pre ++ x :: rest))[pre.length] = b.apply (pre.mapIdx b.row) x := by
  have hrows : ((pre ++ x :: rest).mapIdx b.row).take (pre.length + 1) =
      pre.mapIdx b.row ++ [b.row pre.length x] := by
    have htake := take_mapIdx (pre ++ [x]) rest b.row
    rw [List.append_assoc, List.length_append] at htake
    rw [show pre ++ x :: rest = pre ++ ([x] ++ rest) from rfl,
      show pre.length + 1 = pre.length + [x].length from rfl, htake, List.mapIdx_concat]
  simp [Block.sequence, Block.apply, Block.rows, hrows]

/-- What is decoded after a prefix is the rest of the pass over the sequence. -/
theorem decode_single_after (pre ts : List T) :
    decode embed choose [b] ((pre.map embed).mapIdx b.row) ts =
      ((b.sequence ((pre ++ ts).map embed)).map choose).drop pre.length := by
  induction ts generalizing pre with
  | nil => simp [decode, Block.sequence]
  | cons t ts ih =>
      have hlen : pre.length < ((b.sequence ((pre ++ t :: ts).map embed)).map choose).length := by
        simp [Block.sequence]
      have hpage : b.rows ((pre.map embed).mapIdx b.row) (embed t) =
          ((pre ++ [t]).map embed).mapIdx b.row := by
        rw [List.map_append, List.map_singleton, List.mapIdx_concat, Block.rows]
        simp
      have hrest := ih (pre ++ [t])
      rw [List.append_assoc, List.length_append, List.length_singleton] at hrest
      rw [decode, pass, pass, hpage, hrest, List.drop_eq_getElem_cons hlen]
      congr 1
      have hfirst := sequence_getElem b (pre.map embed) (ts.map embed) (embed t)
        (by simp [Block.sequence])
      simp only [List.length_map] at hfirst
      simp [hfirst]

/-- With one block, decoding by rows is the pass over the whole sequence. -/
theorem decode_single (ts : List T) :
    decode embed choose [b] [] ts = (b.sequence (ts.map embed)).map choose := by
  have h := decode_single_after b embed choose [] ts
  simpa using h

end Single

end Decoding

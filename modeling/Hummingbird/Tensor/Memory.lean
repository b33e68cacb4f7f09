import Hummingbird.Tensor.Tensor

/-!
A flat byte memory under the tensors: whole buffers are read and written, and blocks
are moved as `memcpy` moves them.
-/

namespace Hummingbird

abbrev Bytes := List UInt8

abbrev Memory := Int → UInt8

/-- The bytes a tensor descriptor covers. -/
def Tensor.Covers (t : Tensor) (a : Int) : Prop := t.data ≤ a ∧ a < t.data + t.nbytes

instance (t : Tensor) (a : Int) : Decidable (t.Covers a) := inferInstanceAs (Decidable (_ ∧ _))

/-- No byte is covered by both tensors. -/
def Tensor.Apart (t u : Tensor) : Prop := ∀ a, ¬ (t.Covers a ∧ u.Covers a)

def readBytes (m : Memory) (t : Tensor) : Bytes :=
  (List.range t.nbytes).map fun k : Nat => m (t.data + (k : Int))

/-- Overwrites all bytes of a tensor; a result that is too short is padded. -/
def writeBytes (m : Memory) (t : Tensor) (bs : Bytes) : Memory := fun a =>
  if t.Covers a then bs.getD (a - t.data).toNat 0 else m a

/-- Contents cut or padded to a size. -/
def fitBytes (n : Nat) (bs : Bytes) : Bytes := (List.range n).map fun k => bs.getD k 0

/-- `memcpy` between blocks that do not overlap. -/
def memcpy (m : Memory) (dst src : Int) (n : Nat) : Memory := fun a =>
  if dst ≤ a ∧ a < dst + n then m (src + (a - dst)) else m a

theorem readBytes_writeBytes (m : Memory) (t : Tensor) (bs : Bytes) :
    readBytes (writeBytes m t bs) t = fitBytes t.nbytes bs := by
  unfold readBytes fitBytes
  apply List.map_congr_left
  intro k hk
  have hlt := List.mem_range.mp hk
  have hcovers : t.Covers (t.data + k) := ⟨by omega, by omega⟩
  rw [writeBytes, if_pos hcovers]
  congr 1
  omega

theorem readBytes_writeBytes_of_apart {m : Memory} {t u : Tensor} {bs : Bytes}
    (h : ∀ a, ¬ (t.Covers a ∧ u.Covers a)) :
    readBytes (writeBytes m u bs) t = readBytes m t := by
  unfold readBytes
  apply List.map_congr_left
  intro k hk
  have hlt := List.mem_range.mp hk
  have hcovers : t.Covers (t.data + k) := ⟨by omega, by omega⟩
  rw [writeBytes, if_neg fun hu => h _ ⟨hcovers, hu⟩]

theorem memcpy_inside {m : Memory} {dst src a : Int} {n : Nat} (hlo : dst ≤ a)
    (hhi : a < dst + n) : memcpy m dst src n a = m (src + (a - dst)) :=
  if_pos ⟨hlo, hhi⟩

theorem memcpy_outside {m : Memory} {dst src a : Int} {n : Nat}
    (h : ¬ (dst ≤ a ∧ a < dst + n)) : memcpy m dst src n a = m a :=
  if_neg h

end Hummingbird

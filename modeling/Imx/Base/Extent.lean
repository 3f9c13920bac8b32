import Imx.Base.Mem

/-!
# Files in blocks

A file is cut into blocks of one size, and each block has its place on a disk. An `Extent` is a row
of blocks that lie behind one another there, so that their bytes can be moved at once. `Filled` says
how far a buffer has got.
-/

namespace Imx.Base

variable {B a i n p k s : Nat} {place : Nat → Nat} {f : Nat → UInt8} {m old src : Mem}
  {bs : List UInt8}

/-- The address of a byte of the file. -/
def locate (B : Nat) (place : Nat → Nat) (q : Nat) : Nat := place (q / B) + q % B

/-- The blocks from block `a` on and in front of block `i` lie behind one another. -/
structure Extent (B : Nat) (place : Nat → Nat) (a i : Nat) : Prop where
  lt : a < i
  next : ∀ j, a ≤ j → j < i → place j = place a + (j - a) * B

/-- The bytes lie behind one another. -/
lemma Extent.locate {q : Nat} (ext : Extent B place a i) (ge : a * B ≤ q) (lt : q < i * B) :
    locate B place q = place a + (q - a * B) := by
  have pos : 0 < B := Nat.pos_of_ne_zero fun zero => by
    rw [zero, Nat.mul_zero] at lt
    exact Nat.not_lt_zero q lt
  have low : a ≤ q / B := (Nat.le_div_iff_mul_le pos).mpr ge
  have high : q / B < i := (Nat.div_lt_iff_lt_mul pos).mpr lt
  have split := Nat.div_add_mod' q B
  have le : a * B ≤ q / B * B := Nat.mul_le_mul_right _ low
  rw [Base.locate, ext.next _ low high, Nat.sub_mul, Nat.add_assoc]
  congr 1
  omega

/-- A byte that was copied from another memory. -/
lemma copied {b : Nat} (lt : i < n) : (m.write b (src.read s n)) (b + i) = src (s + i) := by
  rw [Mem.write_at (by rw [Mem.length_read]; exact lt)]
  simp only [Mem.read, List.getElem_map, List.getElem_range]

/-- The first `n` bytes of a content are stored at `p`, and the other bytes are as they were. -/
def Filled (f : Nat → UInt8) (p n : Nat) (old m : Mem) : Prop :=
  ∀ a, m a = if p ≤ a ∧ a < p + n then f (a - p) else old a

lemma Filled.zero : Filled f p 0 m m := fun a => by
  rw [if_neg (by omega)]

/-- The bytes that come next are stored. -/
lemma Filled.write (filled : Filled f p n old m)
    (eq : ∀ j, (h : j < bs.length) → bs[j] = f (n + j)) :
    Filled f p (n + bs.length) old (m.write (p + n) bs) := by
  intro a
  by_cases below : a < p + n
  case pos =>
    rw [Mem.write_below below, filled a]
    by_cases low : p ≤ a
    · rw [if_pos ⟨low, below⟩, if_pos ⟨low, by omega⟩]
    · rw [if_neg (fun h => low h.1), if_neg (fun h => low h.1)]
  obtain ⟨j, rfl⟩ := Nat.exists_eq_add_of_le (Nat.le_of_not_lt below)
  by_cases inside : j < bs.length
  · rw [Mem.write_at inside, eq j inside, if_pos (by omega),
      show p + n + j - p = n + j by omega]
  · rw [Mem.write_above (by omega), filled _, if_neg (by omega), if_neg (by omega)]

/-- The bytes that come next are copied from another memory. -/
lemma Filled.copy (filled : Filled f p n old m) (eq : ∀ j < k, src (s + j) = f (n + j)) :
    Filled f p (n + k) old (m.write (p + n) (src.read s k)) := by
  have len : (src.read s k).length = k := Mem.length_read
  have next : Filled f p (n + (src.read s k).length) old (m.write (p + n) (src.read s k)) := by
    refine filled.write fun j h => ?_
    simp only [Mem.read, List.getElem_map, List.getElem_range]
    exact eq j (len ▸ h)
  rwa [len] at next

end Imx.Base

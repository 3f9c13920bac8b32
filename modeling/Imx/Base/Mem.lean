import Mathlib.Algebra.Order.Ring.Int
import Mathlib.Data.List.Basic
import Mathlib.Tactic.Common

/-!
# Byte memory

A byte-addressed memory as a total function, with the range operations a C program performs on it:
`Mem.read` and `Mem.write` move a list of bytes, `Mem.memmove` reads the whole source before it
writes, `Mem.memcpy` copies forwards one byte at a time. `Mem.memcpy_eq_memmove` shows that the two
agree whenever the destination does not start above the source.
-/

namespace Imx.Base

/-- A byte-addressed memory. -/
abbrev Mem := Nat → UInt8

namespace Mem

/-- The memory holding zero everywhere. -/
def zero : Mem := fun _ => 0

/-- The `n` bytes at address `a`. -/
def read (m : Mem) (a n : Nat) : List UInt8 :=
  (List.range n).map fun i => m (a + i)

/-- Store `bs` at address `a`. -/
def write (m : Mem) (a : Nat) (bs : List UInt8) : Mem :=
  fun i => if i < a then m i else (bs[i - a]?).getD (m i)

/-- Copy `n` bytes from `src` to `dst`, the source being read before anything is written. -/
def memmove (m : Mem) (dst src n : Nat) : Mem :=
  m.write dst (m.read src n)

/-- Copy `n` bytes from `src` to `dst`, forwards and one at a time. -/
def memcpy (m : Mem) (dst src : Nat) : Nat → Mem
  | 0 => m
  | n + 1 => memcpy (m.write dst [m src]) (dst + 1) (src + 1) n

/-- The contents of a block of `n` bytes after it was reallocated: the bytes it had, followed by
whatever the new place held. -/
def realloc (m junk : Mem) (n : Nat) : Mem :=
  fun i => if i < n then m i else junk i

/-- The little-endian 16-bit number at an address. -/
def get16 (m : Mem) (a : Nat) : Nat := (m a).toNat + 256 * (m (a + 1)).toNat

/-- The little-endian 32-bit number at an address. -/
def get32 (m : Mem) (a : Nat) : Nat := m.get16 a + 65536 * m.get16 (a + 2)

/-- Store a number as a little-endian 16-bit one. -/
def set16 (m : Mem) (a v : Nat) : Mem := m.write a [UInt8.ofNat v, UInt8.ofNat (v / 256)]

/-- The big-endian 16-bit number at an address. -/
def be16 (m : Mem) (a : Nat) : Nat := 256 * (m a).toNat + (m (a + 1)).toNat

/-- Store a number as a big-endian 16-bit one. -/
def setBe16 (m : Mem) (a v : Nat) : Mem := m.write a [UInt8.ofNat (v / 256), UInt8.ofNat v]

variable {m m' : Mem} {a b n k : Nat} {bs cs : List UInt8}

@[simp]
lemma read_zero : m.read a 0 = [] := rfl

@[simp]
lemma length_read : (m.read a n).length = n := by
  simp [read]

lemma getElem?_read {i : Nat} : (m.read a n)[i]? = if i < n then some (m (a + i)) else none := by
  simp only [read, List.getElem?_map]
  split <;> simp_all

/-- A range is its first byte followed by the rest. -/
lemma read_succ : m.read a (n + 1) = m a :: m.read (a + 1) n := by
  simp only [read, List.range_succ_eq_map, List.map_cons, List.map_map, Nat.add_zero]
  congr 1
  apply List.map_congr_left
  intro i _
  simp only [Function.comp]
  congr 1
  omega

/-- Two adjacent ranges read as one. -/
lemma read_add : m.read a (n + k) = m.read a n ++ m.read (a + n) k := by
  induction n generalizing a with
  | zero => simp
  | succ n ih =>
    rw [show n + 1 + k = n + k + 1 from by omega, read_succ, read_succ, ih]
    rw [show a + 1 + n = a + (n + 1) from by omega]
    rfl

/-- Only the bytes of the range matter. -/
lemma read_congr (h : ∀ i, i < n → m (a + i) = m' (b + i)) : m.read a n = m'.read b n := by
  simp only [read]
  apply List.map_congr_left
  intro i hi
  exact h i (List.mem_range.mp hi)

lemma read_take : (m.read a n).take k = m.read a (min k n) := by
  apply List.ext_getElem?
  intro i
  simp only [List.getElem?_take, getElem?_read]
  split <;> split <;> first | rfl | (split <;> first | rfl | omega) | omega

lemma read_drop : (m.read a n).drop k = m.read (a + k) (n - k) := by
  apply List.ext_getElem?
  intro i
  simp only [List.getElem?_drop, getElem?_read, Nat.add_assoc]
  split <;> split <;> first | rfl | omega

@[simp]
lemma write_nil : m.write a [] = m := by
  funext i
  simp [write]

/-- A byte below the range is kept. -/
lemma write_below {i : Nat} (h : i < a) : m.write a bs i = m i := by
  simp [write, h]

/-- A byte above the range is kept. -/
lemma write_above {i : Nat} (h : a + bs.length ≤ i) : m.write a bs i = m i := by
  have e : bs[i - a]? = none := List.getElem?_eq_none (by omega)
  simp [write, e]

/-- A byte of the range holds what was stored. -/
lemma write_at {i : Nat} (h : i < bs.length) : m.write a bs (a + i) = bs[i] := by
  simp [write, h, show ¬ a + i < a from by omega]

/-- A read that does not meet the range is kept. -/
lemma read_write_disjoint (h : b + n ≤ a ∨ a + bs.length ≤ b) :
    (m.write a bs).read b n = m.read b n := by
  apply read_congr
  intro i hi
  obtain h | h := h
  · exact write_below (by omega)
  · exact write_above (by omega)

/-- What was stored is read back. -/
lemma read_write_self (h : bs.length = n) : (m.write a bs).read a n = bs := by
  subst h
  apply List.ext_getElem?
  intro i
  rw [getElem?_read]
  split
  · rename_i h
    rw [write_at h, List.getElem?_eq_getElem h]
  · rename_i h
    rw [List.getElem?_eq_none (by omega)]

/-- The destination of a move reads as the source did. -/
lemma read_memmove_self {dst src : Nat} : (m.memmove dst src n).read dst n = m.read src n :=
  read_write_self length_read

/-- A read that does not meet the destination of a move is kept. -/
lemma read_memmove_disjoint {dst src : Nat} (h : b + k ≤ dst ∨ dst + n ≤ b) :
    (m.memmove dst src n).read b k = m.read b k :=
  read_write_disjoint (by simpa using h)

/-- Storing a list is storing its two halves. -/
lemma write_append : m.write a (bs ++ cs) = (m.write a bs).write (a + bs.length) cs := by
  funext i
  simp only [write, List.getElem?_append]
  by_cases h1 : i < a
  · simp [h1, show i < a + bs.length from by omega]
  · by_cases h2 : i - a < bs.length
    · simp [h1, h2, show i < a + bs.length from by omega]
    · simp [h1, h2, show ¬ i < a + bs.length from by omega,
        show i - a - bs.length = i - (a + bs.length) from by omega]

lemma get16_congr (h0 : m a = m' b) (h1 : m (a + 1) = m' (b + 1)) : m.get16 a = m'.get16 b := by
  rw [get16, get16, h0, h1]

/-- A byte outside of the number is kept. -/
lemma set16_of_ne {i v : Nat} (h0 : i ≠ a) (h1 : i ≠ a + 1) : m.set16 a v i = m i := by
  obtain lt | gt := Nat.lt_or_gt_of_ne h0
  · exact write_below lt
  · exact write_above (by simp; omega)

/-- A 16-bit number is read back. -/
lemma get16_set16 {v : Nat} (h : v < 65536) : (m.set16 a v).get16 a = v := by
  have e0 : m.set16 a v a = UInt8.ofNat v := by simp [set16, write]
  have e1 : m.set16 a v (a + 1) = UInt8.ofNat (v / 256) := by
    simp [set16, write, show ¬ a + 1 < a from by omega]
  rw [get16, e0, e1, UInt8.toNat_ofNat', UInt8.toNat_ofNat']
  omega

/-- A 16-bit number that lies elsewhere is kept. -/
lemma get16_set16_of_disjoint {v : Nat} (h : b + 2 ≤ a ∨ a + 2 ≤ b) :
    (m.set16 a v).get16 b = m.get16 b :=
  get16_congr (set16_of_ne (by omega) (by omega)) (set16_of_ne (by omega) (by omega))

/-- Reallocation keeps the bytes of the block. -/
lemma read_realloc {junk : Mem} (h : a + k ≤ n) : (m.realloc junk n).read a k = m.read a k := by
  apply read_congr
  intro i hi
  exact if_pos (by omega)

/-- A forward copy to a destination not above the source moves the source as it was. -/
lemma memcpy_eq_memmove {dst src : Nat} (h : dst ≤ src) :
    m.memcpy dst src n = m.memmove dst src n := by
  induction n generalizing m dst src with
  | zero => simp [memcpy, memmove]
  | succ n ih =>
    rw [memcpy, ih (by omega), memmove, memmove]
    -- the byte just stored lies below what is still to be read
    rw [read_write_disjoint (by simp; omega), read_succ]
    rw [show m src :: m.read (src + 1) n = [m src] ++ m.read (src + 1) n from rfl, write_append]
    rfl

end Mem

end Imx.Base

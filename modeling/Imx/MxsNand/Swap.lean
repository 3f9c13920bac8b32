import Imx.MxsNand.Defs

/-!
# Swapping the mark

A swap seen bit by bit. The byte at the mark is spread over two bytes of the data, and it is put
together from and taken apart into these by shifts.
-/

namespace Imx.MxsNand
open Imx.Base

variable {mark : Nat} {p q : Page} {data data' : Mem}

/-! ## Bits -/

/-- Memories with the same bits are the same. -/
lemma mem_ext (eq : ∀ b, dataBit data b = dataBit data' b) : data = data' := by
  funext a
  refine UInt8.toBitVec_inj.1 (BitVec.eq_of_getLsbD_eq fun i lt => ?_)
  have here := eq (a * 8 + i)
  rw [dataBit, dataBit] at here
  have div : (a * 8 + i) / 8 = a := by omega
  have mod : (a * 8 + i) % 8 = i := by omega
  rwa [div, mod] at here

/-- The lower part of the mark is the upper part of its first byte. -/
lemma getLsbD_low {d0 dst : BitVec 8} {bit i : Nat} (lt : i < 8) :
    (d0 &&& ~~~(0xff#8 <<< bit) ||| dst <<< bit).getLsbD i =
      if i < bit then d0.getLsbD i else dst.getLsbD (i - bit) := by
  have ones : ∀ j < 8, (0xff#8).getLsbD j = true := by decide
  simp only [BitVec.getLsbD_or, BitVec.getLsbD_and, BitVec.getLsbD_not, BitVec.getLsbD_shiftLeft, lt,
    decide_true, Bool.true_and]
  split_ifs with low
  · simp only [low, decide_true, Bool.not_true, Bool.false_and, Bool.not_false, Bool.and_true,
      Bool.or_false]
  · simp only [low, decide_false, Bool.not_false, Bool.true_and, ones _ (by omega : i - bit < 8),
      Bool.not_true, Bool.and_false, Bool.false_or]

/-- The upper part of the mark is the lower part of its second byte. -/
lemma getLsbD_high {d1 dst : BitVec 8} {bit i : Nat} (lt : i < 8) (le : bit ≤ 8) :
    (d1 &&& 0xff#8 <<< bit ||| dst >>> (8 - bit)).getLsbD i =
      if i < bit then dst.getLsbD (8 - bit + i) else d1.getLsbD i := by
  have ones : ∀ j < 8, (0xff#8).getLsbD j = true := by decide
  simp only [BitVec.getLsbD_or, BitVec.getLsbD_and, BitVec.getLsbD_shiftLeft,
    BitVec.getLsbD_ushiftRight, lt, decide_true, Bool.true_and]
  split_ifs with low
  · simp only [low, decide_true, Bool.not_true, Bool.false_and, Bool.and_false, Bool.false_or]
  · have out : dst.getLsbD (8 - bit + i) = false := BitVec.getLsbD_of_ge _ _ (by omega)
    simp only [low, decide_false, Bool.not_false, ones _ (by omega : i - bit < 8), Bool.and_true, out,
      Bool.or_false]

/-- The byte that is put together from two. -/
lemma getLsbD_both {d0 d1 : BitVec 8} {bit i : Nat} (lt : i < 8) (le : bit ≤ 8) :
    (d0 >>> bit ||| d1 <<< (8 - bit)).getLsbD i =
      if bit + i < 8 then d0.getLsbD (bit + i) else d1.getLsbD (bit + i - 8) := by
  simp only [BitVec.getLsbD_or, BitVec.getLsbD_shiftLeft, BitVec.getLsbD_ushiftRight, lt,
    decide_true, Bool.true_and]
  split_ifs with low
  · simp only [show i < 8 - bit from by omega, decide_true, Bool.not_true, Bool.false_and,
      Bool.or_false]
  · have out : d0.getLsbD (bit + i) = false := BitVec.getLsbD_of_ge _ _ (by omega)
    simp only [show ¬ i < 8 - bit from by omega, decide_false, Bool.not_false, Bool.true_and, out,
      Bool.false_or, show i - (8 - bit) = bit + i - 8 from by omega]

/-! ## The swap -/

/-- The first byte of the mark after a swap. -/
lemma swap_first : (swapBlockMark mark p).data (mark / 8) =
    ⟨(p.data (mark / 8)).toBitVec &&& ~~~(0xff#8 <<< (mark % 8)) |||
      (p.oob 0).toBitVec <<< (mark % 8)⟩ := by
  rw [swapBlockMark]
  exact Mem.write_at (i := 0) (by simp)

/-- The second byte of the mark after a swap. -/
lemma swap_second : (swapBlockMark mark p).data (mark / 8 + 1) =
    ⟨(p.data (mark / 8 + 1)).toBitVec &&& 0xff#8 <<< (mark % 8) |||
      (p.oob 0).toBitVec >>> (8 - mark % 8)⟩ := by
  rw [swapBlockMark]
  exact Mem.write_at (i := 1) (by simp)

/-- The other bytes of the data are kept. -/
lemma swap_other {a : Nat} (first : a ≠ mark / 8) (second : a ≠ mark / 8 + 1) :
    (swapBlockMark mark p).data a = p.data a := by
  rw [swapBlockMark]
  by_cases below : a < mark / 8
  · exact Mem.write_below below
  · exact Mem.write_above (by simp only [List.length_cons, List.length_nil]; omega)

/-- The bits of the data after a swap. -/
lemma dataBit_swap {b : Nat} : dataBit (swapBlockMark mark p).data b =
    if mark ≤ b ∧ b < mark + 8 then (p.oob 0).toBitVec.getLsbD (b - mark) else dataBit p.data b := by
  have lt : b % 8 < 8 := Nat.mod_lt _ (by decide)
  have le : mark % 8 ≤ 8 := Nat.le_of_lt (Nat.mod_lt _ (by decide))
  rw [dataBit, dataBit]
  by_cases first : b / 8 = mark / 8
  · rw [first, swap_first, getLsbD_low lt]
    by_cases low : b % 8 < mark % 8
    · rw [if_pos low, if_neg (by omega)]
    · rw [if_neg low, if_pos (by omega), show b % 8 - mark % 8 = b - mark from by omega]
  · by_cases second : b / 8 = mark / 8 + 1
    · rw [second, swap_second, getLsbD_high lt le]
      by_cases low : b % 8 < mark % 8
      · rw [if_pos low, if_pos (by omega), show 8 - mark % 8 + b % 8 = b - mark from by omega]
      · rw [if_neg low, if_neg (by omega)]
    · rw [swap_other first second, if_neg (by omega)]

/-- The bits of the first out-of-band byte after a swap. -/
lemma oobBit_swap {i : Nat} (lt : i < 8) :
    ((swapBlockMark mark p).oob 0).toBitVec.getLsbD i = dataBit p.data (mark + i) := by
  have le : mark % 8 ≤ 8 := Nat.le_of_lt (Nat.mod_lt _ (by decide))
  have here : (swapBlockMark mark p).oob 0 = ⟨(p.data (mark / 8)).toBitVec >>> (mark % 8) |||
      (p.data (mark / 8 + 1)).toBitVec <<< (8 - mark % 8)⟩ := rfl
  rw [here, getLsbD_both lt le, dataBit]
  by_cases low : mark % 8 + i < 8
  · rw [if_pos low, show (mark + i) / 8 = mark / 8 from by omega,
      show (mark + i) % 8 = mark % 8 + i from by omega]
  · rw [if_neg low, show (mark + i) / 8 = mark / 8 + 1 from by omega,
      show (mark + i) % 8 = mark % 8 + i - 8 from by omega]

/-- The other out-of-band bytes are kept. -/
lemma oob_swap {a : Nat} (ne : a ≠ 0) : (swapBlockMark mark p).oob a = p.oob a := by
  simp only [swapBlockMark]
  exact Mem.write_above (Nat.pos_of_ne_zero ne)

/-- Swapping twice restores a page. -/
lemma swap_swap : swapBlockMark mark (swapBlockMark mark p) = p := by
  have data : (swapBlockMark mark (swapBlockMark mark p)).data = p.data := by
    refine mem_ext fun b => ?_
    rw [dataBit_swap]
    by_cases there : mark ≤ b ∧ b < mark + 8
    · rw [if_pos there, oobBit_swap (by omega), Nat.add_sub_cancel' there.1]
    · rw [if_neg there, dataBit_swap, if_neg there]
  have oob : (swapBlockMark mark (swapBlockMark mark p)).oob = p.oob := by
    funext a
    by_cases zero : a = 0
    · subst zero
      refine UInt8.toBitVec_inj.1 (BitVec.eq_of_getLsbD_eq fun i lt => ?_)
      rw [oobBit_swap lt, dataBit_swap, if_pos (by omega), Nat.add_sub_cancel_left]
    · rw [oob_swap zero, oob_swap zero]
  exact congrArg₂ Page.mk data oob

/-- The swap exchanges the byte at any offset with the first out-of-band byte. -/
lemma swaps (mark : Nat) (p : Page) : Swaps mark p where
  stored i lt := by
    rw [dataBit_swap, if_pos (by omega), Nat.add_sub_cancel_left]
  oob i lt := oobBit_swap lt
  data b out := by
    rw [dataBit_swap, if_neg (by omega)]
  rest a ne := oob_swap ne
  again := swap_swap

end Imx.MxsNand

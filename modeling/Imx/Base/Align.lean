import Mathlib.Data.Nat.Bitwise
import Mathlib.Tactic.Common

/-!
# Alignment

Numbers and machine words rounded up to a multiple of an alignment.
-/

namespace Imx.Base

variable {w k size align x : Nat}

/-- The least multiple of `align` that is not below `size`. -/
def roundUp (size align : Nat) : Nat := (size + align - 1) / align * align

lemma le_roundUp (pos : 0 < align) : size ≤ roundUp size align := by
  have h := Nat.div_add_mod (size + align - 1) align
  have lt := Nat.mod_lt (size + align - 1) pos
  rw [Nat.mul_comm] at h
  rw [roundUp]
  omega

lemma roundUp_le : roundUp size align ≤ size + align - 1 :=
  Nat.div_mul_le_self ..

lemma roundUp_lt (pos : 0 < align) : size + align - 1 < roundUp size align + align := by
  have h := Nat.div_add_mod (size + align - 1) align
  have lt := Nat.mod_lt (size + align - 1) pos
  rw [Nat.mul_comm] at h
  rw [roundUp]
  omega

lemma dvd_roundUp : align ∣ roundUp size align :=
  Nat.dvd_mul_left align _

/-- It is the least one. -/
lemma roundUp_le_of_dvd (pos : 0 < align) (dvd : align ∣ x) (le : size ≤ x) :
    roundUp size align ≤ x := by
  obtain ⟨m, rfl⟩ := dvd
  rw [roundUp, Nat.mul_comm align m]
  refine Nat.mul_le_mul_right _ (Nat.le_of_lt_succ ?_)
  rw [Nat.div_lt_iff_lt_mul pos, Nat.succ_mul, Nat.mul_comm m align]
  omega

/-- C `ALIGN`, on words. -/
def alignWord (x a : BitVec w) : BitVec w := (x + (a - 1)) &&& ~~~(a - 1)

/-- Clearing the low bits. -/
lemma toNat_and_not_mask (x : BitVec w) :
    (x &&& ~~~BitVec.ofNat w (2 ^ k - 1)).toNat = x.toNat / 2 ^ k * 2 ^ k := by
  apply Nat.eq_of_testBit_eq
  intro j
  rw [Nat.testBit_mul_two_pow, Nat.testBit_div_two_pow]
  change (x &&& ~~~BitVec.ofNat w (2 ^ k - 1)).getLsbD j = (decide (k ≤ j) && x.getLsbD (j - k + k))
  rw [BitVec.getLsbD_and, BitVec.getLsbD_not, BitVec.getLsbD_ofNat, Nat.testBit_two_pow_sub_one]
  by_cases inside : j < w
  case neg =>
    have out : x.getLsbD j = false := BitVec.getLsbD_of_ge x j (Nat.le_of_not_lt inside)
    by_cases high : k ≤ j
    case pos => simp [inside, out, Nat.sub_add_cancel high]
    case neg => simp [inside, high]
  case pos =>
    by_cases high : k ≤ j
    case pos => simp [inside, high, Nat.not_lt.2 high, Nat.sub_add_cancel high]
    case neg => simp [inside, high, Nat.lt_of_not_le high]

/-- Rounding up a number and then wrapping it is rounding up the wrapped one. -/
lemma alignWord_ofNat (kw : k < w) (x : Nat) :
    alignWord (BitVec.ofNat w x) (BitVec.ofNat w (2 ^ k)) =
      BitVec.ofNat w (roundUp x (2 ^ k)) := by
  have pos : 0 < 2 ^ k := Nat.two_pow_pos k
  have low : BitVec.ofNat w (2 ^ k) - 1 = BitVec.ofNat w (2 ^ k - 1) := by
    refine BitVec.eq_of_toNat_eq ?_
    have lt : 2 ^ k < 2 ^ w := Nat.pow_lt_pow_right (by decide) kw
    have one : 1 < 2 ^ w := Nat.lt_of_le_of_lt pos lt
    have le : (1 : BitVec w) ≤ BitVec.ofNat w (2 ^ k) := by
      rw [BitVec.le_def, BitVec.toNat_ofNat, Nat.mod_eq_of_lt lt]
      exact Nat.le_trans (Nat.mod_le 1 _) pos
    rw [BitVec.toNat_sub_of_le le, BitVec.toNat_ofNat, BitVec.toNat_ofNat, Nat.mod_eq_of_lt lt,
      Nat.mod_eq_of_lt (by omega)]
    congr 1
    exact Nat.mod_eq_of_lt one
  rw [alignWord, low]
  refine BitVec.eq_of_toNat_eq ?_
  rw [toNat_and_not_mask, ← BitVec.ofNat_add, BitVec.toNat_ofNat,
    BitVec.toNat_ofNat, roundUp, Nat.add_sub_assoc pos]
  -- both are a multiple of `2 ^ k`, with the higher bits cut off
  have split : 2 ^ w = 2 ^ k * 2 ^ (w - k) := by
    rw [← Nat.pow_add]
    congr 1
    omega
  rw [split, Nat.mod_mul_right_div_self, Nat.mul_comm, Nat.mul_comm (_ / _),
    Nat.mul_mod_mul_left]

end Imx.Base

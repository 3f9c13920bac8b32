import Mathlib.Algebra.Order.Ring.Nat
import Mathlib.Tactic.Common

/-!
# Dividing a number of 64 bits

Model of `do_div` and of `lib/div64.c`: the divisor is doubled until it is not below the remainder,
and is then subtracted on the way back.
-/

namespace Imx.Time

/-- The loop of `__div64_32` that doubles the divisor. The sum does not wrap, nor does that of `d`,
which is not above the divisor. -/
def doubleUp (rem b d : Nat) : Nat × Nat :=
  if 0 < b ∧ b < 2 ^ 63 ∧ b < rem then doubleUp rem (b + b) (d + d) else (b, d)
termination_by rem - b

/-- The loop that subtracts it. -/
def subtractDown (rem res b d : Nat) : Nat × Nat :=
  let s := if b ≤ rem then (rem - b, res + d) else (rem, res)
  if d / 2 = 0 then (s.2, s.1) else subtractDown s.1 s.2 (b / 2) (d / 2)
termination_by d
decreasing_by omega

/-- C `__div64_32`: the quotient and the remainder. -/
def div64_32 (n base : Nat) : Nat × Nat :=
  let high := n / 2 ^ 32
  -- reduce the thing a bit first
  let s :=
    if base ≤ high then (high / base * 2 ^ 32, n - high / base * base * 2 ^ 32) else (0, n)
  let scaled := doubleUp s.2 base 1
  subtractDown s.2 s.1 scaled.1 scaled.2

/-- C `do_div`, of which the quotient is used. -/
def doDiv (n base : Nat) : Nat :=
  if n / 2 ^ 32 = 0 then n / base else (div64_32 n base).1

variable {rem res b d base i n : Nat}

/-- The divisor and `d` are doubled alike, until twice the divisor is above the remainder. -/
lemma doubleUp_spec (rem_lt : rem < 2 ^ 64) (pos : 0 < base) (b_eq : b = base * d)
    (d_eq : d = 2 ^ i) :
    ∃ k, doubleUp rem b d = (base * 2 ^ k, 2 ^ k) ∧ rem < 2 * (base * 2 ^ k) := by
  induction h : rem - b using Nat.strong_induction_on generalizing b d i with
  | _ m ih =>
    rw [doubleUp]
    have b_pos : 0 < b := by
      rw [b_eq, d_eq]
      exact Nat.mul_pos pos (Nat.two_pow_pos i)
    by_cases more : 0 < b ∧ b < 2 ^ 63 ∧ b < rem
    case neg =>
      rw [if_neg more]
      refine ⟨i, by rw [b_eq, d_eq], ?_⟩
      rw [← d_eq, ← b_eq]
      omega
    case pos =>
      rw [if_pos more]
      refine ih _ ?_ ?_ ?_ rfl (i := i + 1)
      · omega
      · rw [b_eq, Nat.mul_add]
      · rw [d_eq, Nat.pow_succ]
        omega

/-- Going back, the quotient and the remainder are what is left to find. -/
lemma subtractDown_eq (lt : rem < 2 * (base * 2 ^ i)) :
    subtractDown rem res (base * 2 ^ i) (2 ^ i) = (res + rem / base, rem % base) := by
  induction i generalizing rem res with
  | zero =>
    rw [Nat.pow_zero, Nat.mul_one] at lt ⊢
    rw [subtractDown]
    by_cases ge : base ≤ rem
    case pos =>
      have less : rem - base < base := by omega
      have pos : 0 < base := by omega
      rw [if_pos ge, Nat.div_eq_sub_div pos ge, Nat.mod_eq_sub_mod ge, Nat.div_eq_of_lt less,
        Nat.mod_eq_of_lt less]
      rfl
    case neg =>
      have less := Nat.lt_of_not_le ge
      rw [if_neg ge, Nat.div_eq_of_lt less, Nat.mod_eq_of_lt less]
      rfl
  | succ i ih =>
    have half : base * 2 ^ (i + 1) / 2 = base * 2 ^ i := by
      rw [Nat.pow_succ, ← Nat.mul_assoc, Nat.mul_div_cancel _ (by decide)]
    have half' : 2 ^ (i + 1) / 2 = 2 ^ i := by
      rw [Nat.pow_succ, Nat.mul_div_cancel _ (by decide)]
    have more : 2 ^ i ≠ 0 := Nat.ne_of_gt (Nat.two_pow_pos i)
    have double : base * 2 ^ (i + 1) = 2 * (base * 2 ^ i) := by
      rw [Nat.pow_succ, ← Nat.mul_assoc, Nat.mul_comm]
    rw [subtractDown, half, half']
    by_cases ge : base * 2 ^ (i + 1) ≤ rem
    case pos =>
      rw [if_pos ge]
      dsimp only
      rw [if_neg more, ih (by omega)]
      obtain ⟨k, rfl⟩ := Nat.exists_eq_add_of_le' ge
      have pos : 0 < base := Nat.pos_of_ne_zero fun zero => by
        rw [zero, Nat.zero_mul] at lt
        omega
      rw [Nat.add_sub_cancel, Nat.add_mul_div_left _ _ pos, Nat.add_mul_mod_self_left,
        Nat.add_assoc, Nat.add_comm (2 ^ (i + 1))]
    case neg =>
      rw [if_neg ge]
      dsimp only
      rw [if_neg more, ih (by omega)]

lemma div64_32_eq (n_lt : n < 2 ^ 64) (pos : 0 < base) :
    div64_32 n base = (n / base, n % base) := by
  have find {rem res : Nat} (rem_lt : rem < 2 ^ 64) :
      subtractDown rem res (doubleUp rem base 1).1 (doubleUp rem base 1).2 =
        (res + rem / base, rem % base) := by
    obtain ⟨k, eq, lt⟩ := doubleUp_spec rem_lt pos (Nat.mul_one base).symm (Nat.pow_zero 2).symm
    rw [eq]
    exact subtractDown_eq lt
  rw [div64_32]
  by_cases large : base ≤ n / 2 ^ 32
  case neg =>
    rw [if_neg large]
    dsimp only
    rw [find n_lt, Nat.zero_add]
  case pos =>
    have le : n / 2 ^ 32 / base * base * 2 ^ 32 ≤ n := by
      refine Nat.le_trans (Nat.mul_le_mul_right _ (Nat.div_mul_le_self _ base)) ?_
      exact Nat.div_mul_le_self n _
    obtain ⟨r, split⟩ := Nat.exists_eq_add_of_le le
    have moved : n / 2 ^ 32 / base * base * 2 ^ 32 = base * (n / 2 ^ 32 / base * 2 ^ 32) := by
      rw [Nat.mul_comm _ base, Nat.mul_assoc]
    have rest : n - n / 2 ^ 32 / base * base * 2 ^ 32 = r := by omega
    rw [if_pos large]
    dsimp only
    rw [rest, find (by omega)]
    have whole {q : Nat} (eq : n = base * q + r) :
        (q + r / base, r % base) = (n / base, n % base) := by
      rw [eq, Nat.mul_add_div pos, Nat.mul_add_mod]
    exact whole (split.trans (by rw [moved]))

/-- A number is split into what the divisor goes into and a remainder below it. -/
theorem div64_32_split (n_lt : n < 2 ^ 64) (pos : 0 < base) :
    base * (div64_32 n base).1 + (div64_32 n base).2 = n ∧ (div64_32 n base).2 < base := by
  rw [div64_32_eq n_lt pos]
  exact ⟨Nat.div_add_mod n base, Nat.mod_lt n pos⟩

theorem div64_32_split_large :
    7 * (div64_32 (2 ^ 63) 7).1 + (div64_32 (2 ^ 63) 7).2 = 2 ^ 63 ∧ (div64_32 (2 ^ 63) 7).2 < 7 :=
  div64_32_split (by decide) (by decide)

/-- The division is exact. -/
lemma doDiv_eq (n_lt : n < 2 ^ 64) (pos : 0 < base) : doDiv n base = n / base := by
  rw [doDiv]
  by_cases small : n / 2 ^ 32 = 0
  case pos => rw [if_pos small]
  case neg => rw [if_neg small, div64_32_eq n_lt pos]

end Imx.Time

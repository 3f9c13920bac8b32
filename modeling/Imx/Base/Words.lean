import Mathlib.Data.List.Induction
import Mathlib.Data.Nat.Digits.Defs
import Mathlib.Tactic.Common
import Mathlib.Tactic.LinearCombination
import Mathlib.Tactic.Linarith
import Mathlib.Tactic.Ring

/-!
# Numbers as lists of words

Long arithmetic on lists of digits to a base `B`, the lowest digit first, as it is done with
accumulators of two words: subtraction with a signed borrow, comparison from the top, and the loop
that adds two multiples to a number and drops the lowest word. The value of a list is Mathlib's
`Nat.ofDigits`. An accumulator that would need more than two words gives `none`.
-/

namespace Imx.Base.Words

variable {B a d accA accB : Nat} {xs ms bs rs : List Nat}

/-- Every word is below the base. -/
def Below (B : Nat) (xs : List Nat) : Prop := ∀ x ∈ xs, x < B

instance : Decidable (Below B xs) := inferInstanceAs (Decidable (∀ x ∈ xs, _))

lemma Below.nil : Below B [] := List.forall_mem_nil _

lemma Below.cons {x : Nat} (hx : x < B) (h : Below B xs) : Below B (x :: xs) :=
  List.forall_mem_cons.2 ⟨hx, h⟩

lemma Below.value_lt (one : 1 < B) (h : Below B xs) : Nat.ofDigits B xs < B ^ xs.length :=
  Nat.ofDigits_lt_base_pow_length one h

/-! ## Subtraction -/

/-- Subtract word by word; `acc` is the borrow, an arithmetic shift carries it on. -/
def sub (B : Nat) : Int → List Nat → List Nat → List Nat
  | acc, x :: xs, m :: ms =>
    let acc := acc + x - m
    (acc % B).toNat :: sub B (acc / B) xs ms
  | _, _, _ => []

lemma length_sub {acc : Int} (len : xs.length = ms.length) : (sub B acc xs ms).length = xs.length := by
  induction xs generalizing acc ms with
  | nil => rfl
  | cons x xs ih =>
    cases ms with
    | nil => cases len
    | cons m ms =>
      rw [sub, List.length_cons, List.length_cons, ih (by simpa using len)]

lemma below_sub {acc : Int} (pos : 0 < B) : Below B (sub B acc xs ms) := by
  induction xs generalizing acc ms with
  | nil => exact .nil
  | cons x xs ih =>
    cases ms with
    | nil => exact .nil
    | cons m ms =>
      refine .cons ?_ ih
      have lt := Int.emod_lt_of_pos (acc + x - m) (Int.natCast_pos.2 pos)
      have nonneg := Int.emod_nonneg (acc + x - m) (Int.natCast_ne_zero.2 pos.ne')
      omega

/-- The difference comes out up to a multiple of the power of the base the words span. -/
lemma value_sub {acc : Int} (pos : 0 < B) (len : xs.length = ms.length) :
    ∃ c : Int, ((Nat.ofDigits B (sub B acc xs ms) : Nat) : Int) + c * B ^ xs.length =
      acc + (Nat.ofDigits B xs : Nat) - (Nat.ofDigits B ms : Nat) := by
  induction xs generalizing acc ms with
  | nil =>
    cases ms with
    | nil => exact ⟨acc, by simp [sub]⟩
    | cons m ms => cases len
  | cons x xs ih =>
    cases ms with
    | nil => cases len
    | cons m ms =>
      obtain ⟨c, eq⟩ := @ih ms ((acc + x - m) / B) (by simpa using len)
      refine ⟨c, ?_⟩
      have nonneg := Int.emod_nonneg (acc + x - m) (Int.natCast_ne_zero.2 pos.ne')
      have split := Int.emod_add_mul_ediv (acc + x - m) B
      simp only [sub, Nat.ofDigits_cons, Nat.cast_add, Nat.cast_mul, Int.toNat_of_nonneg nonneg,
        List.length_cons, pow_succ]
      linear_combination split + (B : Int) * eq

/-- What subtraction leaves is the difference modulo that power. -/
lemma sub_eq_emod (one : 1 < B) (len : xs.length = ms.length) :
    ((Nat.ofDigits B (sub B 0 xs ms) : Nat) : Int) =
      (((Nat.ofDigits B xs : Nat) : Int) - (Nat.ofDigits B ms : Nat)) % (B : Int) ^ xs.length := by
  obtain ⟨c, eq⟩ := @value_sub B xs ms 0 (by omega) len
  have lt : Nat.ofDigits B (sub B 0 xs ms) < B ^ xs.length := by
    have h := (@below_sub B xs ms 0 (by omega)).value_lt one
    rwa [length_sub len] at h
  have lt' : ((Nat.ofDigits B (sub B 0 xs ms) : Nat) : Int) < (B : Int) ^ xs.length := by
    exact_mod_cast lt
  rw [zero_add] at eq
  rw [← eq, Int.add_mul_emod_self_right, Int.emod_eq_of_lt (Int.natCast_nonneg _) lt']

/-! ## Comparison -/

/-- Compare from the top; the lists have their highest words first. -/
def ge : List Nat → List Nat → Bool
  | x :: xs, m :: ms => if x < m then false else if x > m then true else ge xs ms
  | _, _ => true

lemma ge_append_singleton {x m : Nat} : ge ((xs ++ [x]).reverse) ((ms ++ [m]).reverse) =
    if x < m then false else if x > m then true else ge xs.reverse ms.reverse := by
  simp only [List.reverse_append, List.reverse_singleton, List.singleton_append, ge]

/-- Comparing the words from the top compares the numbers. -/
lemma ge_iff (one : 1 < B) (len : xs.length = ms.length) (hx : Below B xs) (hm : Below B ms) :
    ge xs.reverse ms.reverse = true ↔ Nat.ofDigits B ms ≤ Nat.ofDigits B xs := by
  induction xs using List.reverseRecOn generalizing ms with
  | nil =>
    obtain rfl : ms = [] := by simpa using len.symm
    simp [ge]
  | append_singleton xs x ih =>
    rcases List.eq_nil_or_concat ms with rfl | ⟨ms, m, rfl⟩
    · simp at len
    rw [List.concat_eq_append] at *
    have len' : xs.length = ms.length := by simpa using len
    have hx' : Below B xs := fun y hy => hx y (by simp [hy])
    have hm' : Below B ms := fun y hy => hm y (by simp [hy])
    have ltx := hx'.value_lt one
    have ltm := hm'.value_lt one
    have low := ih len' hx' hm'
    rw [ge_append_singleton, Nat.ofDigits_append, Nat.ofDigits_append, Nat.ofDigits_singleton,
      Nat.ofDigits_singleton, len']
    rw [len'] at ltx
    generalize B ^ ms.length = P at *
    generalize Nat.ofDigits B xs = X at *
    generalize Nat.ofDigits B ms = M at *
    rcases Nat.lt_trichotomy x m with lt | rfl | gt
    · have step : P * x + P ≤ P * m := by
        rw [← Nat.mul_succ]
        exact Nat.mul_le_mul_left P lt
      rw [if_pos lt]
      constructor
      · intro h
        cases h
      · intro h
        omega
    · rw [if_neg (Nat.lt_irrefl x), if_neg (Nat.lt_irrefl x), low]
      omega
    · have step : P * m + P ≤ P * x := by
        rw [← Nat.mul_succ]
        exact Nat.mul_le_mul_left P gt
      rw [if_neg (by omega), if_pos gt]
      constructor
      · intro _
        omega
      · intro _
        rfl

/-! ## Adding two multiples -/

/-- An accumulator of two words. -/
def fit (B n : Nat) : Option Nat := if n < B * B then some n else none

lemma fit_of_lt {n : Nat} (lt : n < B * B) : fit B n = some n := if_pos lt

/-- Add `a` times `bs` and `d` times `ms` to `rs`, word by word with two accumulators: the words of
the sum and what the accumulators end with. -/
def mulAdd (B a d : Nat) : Nat → Nat → List Nat → List Nat → List Nat →
    Option (List Nat × Nat × Nat)
  | accA, accB, b :: bs, m :: ms, r :: rs => do
    let accA ← fit B (accA / B + a * b + r)
    let accB ← fit B (accB / B + d * m + accA % B)
    let (out, accA', accB') ← mulAdd B a d accA accB bs ms rs
    some (accB % B :: out, accA', accB')
  | accA, accB, _, _, _ => some ([], accA, accB)

/-- A carry, a product of two words and a word fit in two words. -/
lemma carry_mul_add_lt {c x y z : Nat} (hc : c < B) (hx : x < B) (hy : y < B) (hz : z < B) :
    c + x * y + z < B * B := by
  obtain ⟨k, rfl⟩ : ∃ k, B = k + 1 := ⟨B - 1, by omega⟩
  have le : x * y ≤ k * k := Nat.mul_le_mul (by omega) (by omega)
  have sq : (k + 1) * (k + 1) = k * k + 2 * k + 1 := by ring
  omega

/-- No accumulator overflows, and the words and the carries that are left make up the sum. -/
lemma mulAdd_spec (ha : a < B) (hd : d < B) (hA : accA < B * B) (hB : accB < B * B)
    (lenM : ms.length = bs.length) (lenR : rs.length = bs.length)
    (hb : Below B bs) (hm : Below B ms) (hr : Below B rs) :
    ∃ out accA' accB', mulAdd B a d accA accB bs ms rs = some (out, accA', accB') ∧
      out.length = bs.length ∧ Below B out ∧ accA' < B * B ∧ accB' < B * B ∧
      Nat.ofDigits B out + B ^ bs.length * (accA' / B + accB' / B) =
        accA / B + accB / B + a * Nat.ofDigits B bs + d * Nat.ofDigits B ms + Nat.ofDigits B rs := by
  induction bs generalizing accA accB ms rs with
  | nil =>
    obtain rfl : ms = [] := by simpa using lenM
    obtain rfl : rs = [] := by simpa using lenR
    exact ⟨[], accA, accB, rfl, rfl, .nil, hA, hB, by simp⟩
  | cons b bs ih =>
    cases ms with
    | nil => cases lenM
    | cons m ms =>
      cases rs with
      | nil => cases lenR
      | cons r rs =>
        obtain ⟨hb0, hb⟩ := List.forall_mem_cons.1 hb
        obtain ⟨hm0, hm⟩ := List.forall_mem_cons.1 hm
        obtain ⟨hr0, hr⟩ := List.forall_mem_cons.1 hr
        have pos : 0 < B := by omega
        have ltA := carry_mul_add_lt (Nat.div_lt_of_lt_mul hA) ha hb0 hr0
        have fitA := fit_of_lt ltA
        generalize eqA : accA / B + a * b + r = accA1 at ltA fitA
        have ltB := carry_mul_add_lt (Nat.div_lt_of_lt_mul hB) hd hm0 (Nat.mod_lt accA1 pos)
        have fitB := fit_of_lt ltB
        generalize eqB : accB / B + d * m + accA1 % B = accB1 at ltB fitB
        obtain ⟨out, accA', accB', loop, len, below, ltA', ltB', value⟩ := ih ltA ltB
          (by simpa using lenM) (by simpa using lenR) hb hm hr
        refine ⟨accB1 % B :: out, accA', accB', ?_, by simp [len], .cons (Nat.mod_lt _ pos) below,
          ltA', ltB', ?_⟩
        · simp only [mulAdd, eqA, fitA, eqB, fitB, loop, Option.bind_eq_bind, Option.bind_some]
        · -- the low word is kept, the rest is the sum of the higher words
          have splitA := Nat.mod_add_div accA1 B
          have splitB := Nat.mod_add_div accB1 B
          have shifted := congrArg (B * ·) value
          simp only [Nat.ofDigits_cons, List.length_cons, pow_succ] at shifted ⊢
          linarith only [shifted, splitA, splitB, eqA, eqB]

end Imx.Base.Words

import Mathlib.Data.Nat.ModEq
import Mathlib.Data.Nat.Prime.Basic
import Imx.Rsa.Defs

/-!
# Montgomery multiplication

One step of the multiplication adds a multiple of the multiplicand and a multiple of the modulus
that makes the lowest word zero, and drops that word (`montgomeryMulAddStep_spec`). The sum may
reach past the words by less than the modulus, and then the modulus is subtracted once. A whole
multiplication is the product up to the factor `R`, the power of the base the words span
(`montgomeryMul_spec`). Operands need not be reduced.
-/

namespace Imx.Rsa
open Imx.Base

/-- The number in a list of words. -/
def value (words : List Nat) : Nat := Nat.ofDigits base words

/-- The power of the base that the words of a key span. -/
def Key.R (key : Key) : Nat := base ^ key.len

/-- The modulus of a key as a number. -/
def Key.N (key : Key) : Nat := value key.modulus

/-- What a key for `pow_mod` has: an odd modulus with its top bit set, the two numbers derived from
it, and an odd exponent of at least two bits. -/
structure Key.Valid (key : Key) : Prop where
  lenModulus : key.modulus.length = key.len
  lenRr : key.rr.length = key.len
  belowModulus : Words.Below base key.modulus
  belowRr : Words.Below base key.rr
  odd : key.N % 2 = 1
  top : 2 ^ (32 * key.len - 1) ≤ key.N
  n0inv : (key.n0inv * key.N + 1) % base = 0
  rr : value key.rr = 2 ^ (64 * key.len) % key.N
  exponentOdd : key.exponent % 2 = 1
  exponentBits : 2 ≤ key.exponent
  exponentLt : key.exponent < 2 ^ 64

/-- An array of the size of the key. -/
structure IsArray (key : Key) (words : List Nat) : Prop where
  len : words.length = key.len
  below : Words.Below base words

variable {key : Key} {r b as : List Nat} {a : Nat}

lemma one_lt_base : 1 < base := by decide

lemma IsArray.value_lt (h : IsArray key r) : value r < key.R := by
  have lt := h.below.value_lt one_lt_base
  rwa [h.len] at lt

/-- A key whose numbers have its size; it need not be valid. -/
structure Key.Shaped (key : Key) : Prop where
  modulus : IsArray key key.modulus
  rr : IsArray key key.rr
  pos : 0 < key.len

/-- For any key of its size a step overflows nothing. What it makes of the arrays is their sum with
a multiple of the modulus, without its lowest word. -/
lemma montgomeryMulAddStep_sum (shaped : key.Shaped) (hr : IsArray key r) (ha : a < base)
    (hb : IsArray key b) :
    ∃ words carry s m0 ms, key.modulus = m0 :: ms ∧
      montgomeryMulAddStep key r a b =
        (if carry ≠ 0 then some (subtractModulus key words) else some words) ∧
      IsArray key words ∧
      base * (value words + key.R * carry) + (s * key.n0inv % base * m0 + s) % base =
        value r + a * value b + s * key.n0inv % base * key.N := by
  have pos := shaped.pos
  have hm := shaped.modulus
  obtain ⟨n, hn⟩ : ∃ n, key.len = n + 1 := ⟨key.len - 1, by omega⟩
  obtain ⟨m0, ms, em⟩ := List.exists_cons_of_length_eq_add_one (hm.len.trans hn)
  obtain ⟨b0, bs, rfl⟩ := List.exists_cons_of_length_eq_add_one (hb.len.trans hn)
  obtain ⟨r0, rs, rfl⟩ := List.exists_cons_of_length_eq_add_one (hr.len.trans hn)
  have eN : key.N = m0 + base * Nat.ofDigits base ms := by
    rw [Key.N, value, em, Nat.ofDigits_cons]
  rw [em] at hm
  obtain ⟨hm0, hms⟩ := List.forall_mem_cons.1 hm.below
  obtain ⟨hb0, hbs⟩ := List.forall_mem_cons.1 hb.below
  obtain ⟨hr0, hrs⟩ := List.forall_mem_cons.1 hr.below
  have lenM : ms.length = n := by simpa [hn] using hm.len
  have lenB : bs.length = n := by simpa [hn] using hb.len
  have lenR : rs.length = n := by simpa [hn] using hr.len
  have bpos : 0 < base := by decide
  -- the two accumulators of the lowest word
  have ltA : a * b0 + r0 < base * base := by
    simpa using Words.carry_mul_add_lt bpos ha hb0 hr0
  have fitA := Words.fit_of_lt ltA
  generalize eA : a * b0 + r0 = accA at ltA fitA
  have hd : accA % base * key.n0inv % base < base := Nat.mod_lt _ bpos
  generalize ed : accA % base * key.n0inv % base = d at hd
  have ltB : d * m0 + accA % base < base * base := by
    simpa using Words.carry_mul_add_lt bpos hd hm0 (Nat.mod_lt accA bpos)
  have fitB := Words.fit_of_lt ltB
  generalize eB : d * m0 + accA % base = accB at ltB fitB
  obtain ⟨out, accA', accB', loop, len, below, ltA', ltB', sum⟩ := Words.mulAdd_spec ha hd ltA ltB
    (lenM.trans lenB.symm) (lenR.trans lenB.symm) hbs hms hrs
  have ltC : accA' / base + accB' / base < base * base := by
    have h1 : accA' / base < base := Nat.div_lt_of_lt_mul ltA'
    have h2 : accB' / base < base := Nat.div_lt_of_lt_mul ltB'
    have h3 : base + base ≤ base * base := by decide
    omega
  have fitC := Words.fit_of_lt ltC
  generalize eC : accA' / base + accB' / base = C at sum ltC fitC
  -- what the words and the carry make up, times the base
  have total : base * (Nat.ofDigits base out + base ^ bs.length * C) + accB % base =
      value (r0 :: rs) + a * value (b0 :: bs) + d * key.N := by
    have shifted := congrArg (base * ·) sum
    have splitA := Nat.mod_add_div accA base
    have splitB := Nat.mod_add_div accB base
    simp only [value, Nat.ofDigits_cons, eN] at shifted ⊢
    linarith only [shifted, splitA, splitB, eA, eB]
  have words : value (out ++ [C % base]) + key.R * (C / base) =
      Nat.ofDigits base out + base ^ bs.length * C := by
    have split := Nat.mod_add_div C base
    rw [value, Nat.ofDigits_append, Nat.ofDigits_singleton, len, Key.R, hn, ← lenB, pow_succ]
    calc
      Nat.ofDigits base out + base ^ bs.length * (C % base) + base ^ bs.length * base * (C / base) =
          Nat.ofDigits base out + base ^ bs.length * (C % base + base * (C / base)) := by ring
      _ = Nat.ofDigits base out + base ^ bs.length * C := by rw [split]
  refine ⟨out ++ [C % base], C / base, accA % base, m0, ms, em, ?_, ⟨?_, ?_⟩, ?_⟩
  · simp only [montgomeryMulAddStep, em, eA, fitA, ed, eB, fitB, loop, eC, fitC,
      Option.bind_eq_bind, Option.bind_some]
  · rw [List.length_append, len, lenB, hn]
    rfl
  · intro x hx
    rcases List.mem_append.1 hx with h | h
    · exact below x h
    · rw [List.mem_singleton.1 h]
      exact Nat.mod_lt _ bpos
  · rw [words, ed, eB]
    exact total

/-- Subtracting the modulus keeps the size. -/
lemma Key.Shaped.sub (shaped : key.Shaped) (array : IsArray key r) :
    IsArray key (subtractModulus key r) where
  len := by
    rw [subtractModulus, Words.length_sub (array.len.trans shaped.modulus.len.symm), array.len]
  below := Words.below_sub (by decide)

/-- A step makes an array out of arrays. -/
lemma montgomeryMulAddStep_array (shaped : key.Shaped) (hr : IsArray key r) (ha : a < base)
    (hb : IsArray key b) : ∃ r', montgomeryMulAddStep key r a b = some r' ∧ IsArray key r' := by
  obtain ⟨words, carry, -, -, -, -, step, array, -⟩ := montgomeryMulAddStep_sum shaped hr ha hb
  by_cases zero : carry = 0
  · exact ⟨words, step.trans (if_neg (not_not.2 zero)), array⟩
  · exact ⟨_, step.trans (if_pos zero), shaped.sub array⟩

/-- A product of arrays is an array. -/
lemma montgomeryMul_array (shaped : key.Shaped) (ha : IsArray key as) (hb : IsArray key b) :
    ∃ r', montgomeryMul key as b = some r' ∧ IsArray key r' := by
  have loop : ∀ as r, Words.Below base as → IsArray key r → ∃ r',
      as.foldlM (fun result ai => montgomeryMulAddStep key result ai b) r = some r' ∧
        IsArray key r' := by
    intro as
    induction as with
    | nil => exact fun r _ hr => ⟨r, rfl, hr⟩
    | cons a as ih =>
      intro r has hr
      obtain ⟨ha, has⟩ := List.forall_mem_cons.1 has
      obtain ⟨r1, eq1, hr1⟩ := montgomeryMulAddStep_array shaped hr ha hb
      obtain ⟨r', eq, hr'⟩ := ih r1 has hr1
      rw [List.foldlM_cons, eq1]
      exact ⟨r', eq, hr'⟩
  refine loop as _ ha.below ⟨List.length_replicate, fun x hx => ?_⟩
  rw [(List.mem_replicate.1 hx).2]
  decide

section Key

variable (valid : key.Valid)
include valid

lemma Key.Valid.modulus : IsArray key key.modulus := ⟨valid.lenModulus, valid.belowModulus⟩

lemma Key.Valid.len_pos : 0 < key.len := by
  rcases Nat.eq_zero_or_pos key.len with zero | pos
  · have nil : key.modulus = [] := List.eq_nil_of_length_eq_zero (valid.lenModulus.trans zero)
    have odd := valid.odd
    rw [Key.N, nil] at odd
    cases odd
  · exact pos

lemma Key.Valid.shaped : key.Shaped where
  modulus := valid.modulus
  rr := ⟨valid.lenRr, valid.belowRr⟩
  pos := valid.len_pos

lemma Key.Valid.N_lt : key.N < key.R := valid.modulus.value_lt

lemma Key.Valid.R_le : key.R ≤ 2 * key.N := by
  have top := valid.top
  have pos := valid.len_pos
  have pow : key.R = 2 * 2 ^ (32 * key.len - 1) := by
    rw [Key.R, base, ← pow_mul, ← pow_succ']
    congr 1
    omega
  omega

lemma Key.Valid.coprime : Nat.Coprime key.N key.R := by
  have two : Nat.Coprime key.N 2 := Nat.coprime_two_right.2 (Nat.odd_iff.2 valid.odd)
  rw [Key.R, base, ← pow_mul]
  exact two.pow_right _

/-- The multiple of the modulus makes the lowest word zero. -/
lemma low_word_zero {s m0 : Nat} {ms : List Nat} (modulus : key.modulus = m0 :: ms) :
    (s * key.n0inv % base * m0 + s) % base = 0 := by
  have m0N : m0 ≡ key.N [MOD base] := by
    rw [Key.N, value, modulus, Nat.ofDigits_cons]
    exact (Nat.modEq_zero_iff_dvd.2 ⟨_, rfl⟩ : base * Nat.ofDigits base ms ≡ 0 [MOD base]).symm.add_left m0
  have inv : key.n0inv * key.N + 1 ≡ 0 [MOD base] := valid.n0inv
  calc
    s * key.n0inv % base * m0 + s ≡ s * key.n0inv * key.N + s [MOD base] :=
      ((Nat.mod_modEq _ _).mul m0N).add_right s
    _ = s * (key.n0inv * key.N + 1) := by ring
    _ ≡ s * 0 [MOD base] := inv.mul_left s
    _ = 0 := Nat.mul_zero s

/-- A sum below `R + N` fits in the words after one subtraction of the modulus, if it does not
before. -/
lemma reduce_spec {words : List Nat} {carry T : Nat} (array : IsArray key words)
    (sum : value words + key.R * carry = T) (lt : T < key.R + key.N) :
    ∃ r', (if carry ≠ 0 then some (subtractModulus key words) else some words) = some r' ∧
      IsArray key r' ∧ value r' ≡ T [MOD key.N] := by
  by_cases zero : carry = 0
  · subst zero
    refine ⟨words, rfl, array, ?_⟩
    rw [Nat.mul_zero, Nat.add_zero] at sum
    rw [sum]
  · have ltN := valid.N_lt
    have ltR := array.value_lt
    have one : carry = 1 := by
      have le : key.R * carry < key.R * 2 := by omega
      have := Nat.lt_of_mul_lt_mul_left le
      omega
    subst one
    rw [Nat.mul_one] at sum
    have lens : words.length = key.modulus.length := array.len.trans valid.lenModulus.symm
    have diff := Words.sub_eq_emod one_lt_base lens
    have exact' : value (subtractModulus key words) = T - key.N := by
      have shift : ((value words : Int) - key.N) % (key.R : Int) = ((T - key.N : Nat) : Int) := by
        have eq : (value words : Int) - key.N = ((T - key.N : Nat) : Int) + (-1) * key.R := by
          rw [Nat.cast_sub (by omega), ← sum]
          push_cast
          ring
        rw [eq, Int.add_mul_emod_self_right]
        refine Int.emod_eq_of_lt (Int.natCast_nonneg _) ?_
        exact_mod_cast (by omega : T - key.N < key.R)
      rw [array.len] at diff
      have pow : ((key.R : Nat) : Int) = (base : Int) ^ key.len := by
        rw [Key.R]
        push_cast
        rfl
      rw [← Nat.cast_inj (R := Int), ← shift, pow]
      exact diff
    refine ⟨_, if_pos (by decide), ⟨?_, Words.below_sub (by decide)⟩, ?_⟩
    · rw [subtractModulus, Words.length_sub lens, array.len]
    · rw [exact']
      exact (Nat.modEq_iff_dvd' (Nat.sub_le T key.N)).2 ⟨1, by omega⟩

/-- A step adds `a` times `b` and divides by the base, modulo the modulus, and overflows nothing. -/
lemma montgomeryMulAddStep_spec (hr : IsArray key r) (ha : a < base) (hb : IsArray key b) :
    ∃ r', montgomeryMulAddStep key r a b = some r' ∧ IsArray key r' ∧
      base * value r' ≡ value r + a * value b [MOD key.N] := by
  have ltr := hr.value_lt
  have ltb := hb.value_lt
  obtain ⟨words, carry, s, m0, ms, em, step, array, total⟩ :=
    montgomeryMulAddStep_sum valid.shaped hr ha hb
  rw [low_word_zero valid em, Nat.add_zero] at total
  have hd : s * key.n0inv % base < base := Nat.mod_lt _ (by decide)
  generalize s * key.n0inv % base = d at hd total
  have lt : value words + key.R * carry < key.R + key.N := by
    have h1 : a * value b + value r < base * key.R := by
      have le : a * value b ≤ (base - 1) * value b := Nat.mul_le_mul_right _ (by omega)
      have le' : (base - 1) * value b ≤ (base - 1) * (key.R - 1) :=
        Nat.mul_le_mul_left _ (by omega)
      have eq : (base - 1) * (key.R - 1) + key.R + (base - 1) = base * key.R := by
        obtain ⟨k, hk⟩ : ∃ k, key.R = k + 1 := ⟨key.R - 1, by omega⟩
        rw [hk, show base = (base - 1) + 1 from rfl]
        simp only [Nat.add_sub_cancel]
        ring
      omega
    have h2 : d * key.N ≤ base * key.N := Nat.mul_le_mul_right _ (by omega)
    have h3 : base * (value words + key.R * carry) < base * (key.R + key.N) := by
      rw [total, Nat.mul_add]
      omega
    exact Nat.lt_of_mul_lt_mul_left h3
  obtain ⟨r', eq, array', mod⟩ := reduce_spec valid array rfl lt
  refine ⟨r', step.trans eq, array', ?_⟩
  calc
    base * value r' ≡ base * (value words + key.R * carry) [MOD key.N] := mod.mul_left base
    _ = value r + a * value b + d * key.N := total
    _ ≡ value r + a * value b + 0 [MOD key.N] :=
      (Nat.modEq_zero_iff_dvd.2 ⟨d, Nat.mul_comm ..⟩ : d * key.N ≡ 0 [MOD key.N]).add_left _

/-- The steps over the words of a number add its product and divide by as many powers of the base. -/
lemma foldlM_step_spec (hr : IsArray key r) (has : Words.Below base as) (hb : IsArray key b) :
    ∃ r', as.foldlM (fun result ai => montgomeryMulAddStep key result ai b) r = some r' ∧
      IsArray key r' ∧ base ^ as.length * value r' ≡ value r + value as * value b [MOD key.N] := by
  induction as generalizing r with
  | nil => exact ⟨r, rfl, hr, by simp [value, Nat.ModEq.refl]⟩
  | cons a as ih =>
    obtain ⟨ha, has⟩ := List.forall_mem_cons.1 has
    obtain ⟨r1, eq1, hr1, mod1⟩ := montgomeryMulAddStep_spec valid hr ha hb
    obtain ⟨r', eq, hr', mod⟩ := ih hr1 has
    refine ⟨r', ?_, hr', ?_⟩
    · rw [List.foldlM_cons, eq1]
      exact eq
    · calc
        base ^ (as.length + 1) * value r' = base * (base ^ as.length * value r') := by ring
        _ ≡ base * (value r1 + value as * value b) [MOD key.N] := mod.mul_left base
        _ = base * value r1 + base * value as * value b := by ring
        _ ≡ value r + a * value b + base * value as * value b [MOD key.N] := mod1.add_right _
        _ = value r + value (a :: as) * value b := by
          rw [value, value, value, value, Nat.ofDigits_cons]
          ring

/-- A Montgomery product is the product divided by `R`, modulo the modulus. -/
lemma montgomeryMul_spec (ha : IsArray key as) (hb : IsArray key b) :
    ∃ r', montgomeryMul key as b = some r' ∧ IsArray key r' ∧
      key.R * value r' ≡ value as * value b [MOD key.N] := by
  have zeros : IsArray key (List.replicate key.len 0) := by
    refine ⟨List.length_replicate, fun x hx => ?_⟩
    rw [(List.mem_replicate.1 hx).2]
    decide
  obtain ⟨r', eq, hr', mod⟩ := foldlM_step_spec valid zeros ha.below hb
  refine ⟨r', eq, hr', ?_⟩
  rw [ha.len, ← Key.R] at mod
  simpa [value, Nat.ofDigits_replicate_zero] using mod

end Key

end Imx.Rsa

import Mathlib.Data.Nat.Bitwise
import Imx.Rsa.Montgomery

/-!
# Exponentiation

`pow_mod` keeps the power reached so far times `R`, squares it for each bit of the exponent and
multiplies where the bit is set; the last multiplication takes the factor `R` out again. The bits
are read through a function that returns an `int`, so that a bit from position 32 on is never seen
except for the top one, which is not read at all: `seen` is the exponent that is computed with.
`powMod_correct_iff` says when the result is the power asked for.
-/

namespace Imx.Rsa
open Imx.Base

variable {key : Key} {val acc b r : List Nat} {bytes inout : List UInt8}

/-! ## Byte strings -/

/-- The number in a byte string, the highest byte first. -/
def number (bytes : List UInt8) : Nat := bytes.foldl (fun n b => 2 ^ 8 * n + b.toNat) 0

lemma value_reverse {words : List Nat} :
    value words.reverse = words.foldl (fun n w => base * n + w) 0 := by
  rw [value, Nat.ofDigits_eq_foldr, List.foldr_reverse]
  congr 1
  funext n w
  exact Nat.add_comm ..

lemma foldl_beWords {n : Nat} {bytes : List UInt8} (four : 4 ∣ bytes.length) :
    (beWords bytes).foldl (fun n w => base * n + w) n =
      bytes.foldl (fun n b => 2 ^ 8 * n + b.toNat) n := by
  induction bytes using beWords.induct generalizing n with
  | case1 b0 b1 b2 b3 bytes ih =>
    have four' : 4 ∣ bytes.length := by
      simp only [List.length_cons] at four
      omega
    simp only [beWords, List.foldl_cons]
    rw [ih four']
    congr 1
    simp only [base]
    ring
  | case2 bytes short =>
    rcases bytes with - | ⟨b0, - | ⟨b1, - | ⟨b2, - | ⟨b3, rest⟩⟩⟩⟩
    · rfl
    · simp at four
    · simp at four
    · simp at four
    · exact absurd rfl (short b0 b1 b2 b3 rest)

/-- The words of a byte string, the lowest first, make up its number. -/
lemma value_beWords (four : 4 ∣ bytes.length) : value (beWords bytes).reverse = number bytes := by
  rw [value_reverse, foldl_beWords four, number]

lemma length_beWords {n : Nat} (len : bytes.length = 4 * n) : (beWords bytes).length = n := by
  induction bytes using beWords.induct generalizing n with
  | case1 b0 b1 b2 b3 bytes ih =>
    simp only [List.length_cons] at len
    obtain ⟨n, rfl⟩ : ∃ k, n = k + 1 := ⟨n - 1, by omega⟩
    rw [beWords, List.length_cons, @ih n (by omega)]
  | case2 bytes short =>
    cases bytes with
    | nil =>
      simp only [List.length_nil] at len
      rw [beWords]
      · exact (by omega : 0 = n)
      · exact short
    | cons b0 bytes =>
      match bytes, short, len with
      | [], _, len => simp only [List.length_cons, List.length_nil] at len; omega
      | [_], _, len => simp only [List.length_cons, List.length_nil] at len; omega
      | [_, _], _, len => simp only [List.length_cons, List.length_nil] at len; omega
      | b1 :: b2 :: b3 :: rest, short, _ => exact absurd rfl (short b0 b1 b2 b3 rest)

lemma below_beWords : Words.Below base (beWords bytes) := by
  induction bytes using beWords.induct with
  | case1 b0 b1 b2 b3 bytes ih =>
    rw [beWords]
    refine .cons ?_ ih
    have h0 := b0.toNat_lt
    have h1 := b1.toNat_lt
    have h2 := b2.toNat_lt
    have h3 := b3.toNat_lt
    simp only [base]
    omega
  | case2 bytes short =>
    rw [beWords]
    · exact .nil
    · exact short

/-- The bytes of words make up their number. -/
lemma number_beBytes {words : List Nat} {n : Nat} (below : Words.Below base words) :
    (beBytes words).foldl (fun n b => 2 ^ 8 * n + b.toNat) n =
      words.foldl (fun n w => base * n + w) n := by
  induction words generalizing n with
  | nil => rfl
  | cons w words ih =>
    obtain ⟨hw, below⟩ := List.forall_mem_cons.1 below
    simp only [beBytes, List.flatMap_cons, List.foldl_append, List.foldl_cons, List.foldl_nil,
      UInt8.toNat_ofNat']
    rw [← beBytes, ih below]
    congr 1
    simp only [base] at hw ⊢
    omega

lemma length_beBytes {words : List Nat} : (beBytes words).length = 4 * words.length := by
  induction words with
  | nil => rfl
  | cons w words ih =>
    rw [beBytes, List.flatMap_cons, List.length_append, ← beBytes, ih]
    simp only [List.length_cons, List.length_nil]
    omega

/-! ## The exponent -/

/-- The exponent computed with: the bits from 32 on, the top one excepted, count as zero. -/
def seen (e : Nat) : Nat := if e < 2 ^ 32 then e else 2 ^ e.log2 + e % 2 ^ 32

lemma isPublicExponentBitSet_iff {pos : Nat} :
    isPublicExponentBitSet key pos = (decide (pos < 32) && key.exponent.testBit pos) := by
  rw [isPublicExponentBitSet, Nat.and_two_pow]
  cases key.exponent.testBit pos with
  | false => simp
  | true =>
    rw [Bool.toNat_true, Nat.one_mul, Bool.and_true]
    by_cases lt : pos < 32
    · have pow : 2 ^ pos < 2 ^ 32 := Nat.pow_lt_pow_right (by decide) lt
      rw [Nat.mod_eq_of_lt pow, decide_eq_true lt]
      exact decide_eq_true (Nat.two_pow_pos pos).ne'
    · have dvd : 2 ^ pos % 2 ^ 32 = 0 :=
        Nat.mod_eq_zero_of_dvd (Nat.pow_dvd_pow 2 (by omega))
      rw [dvd, decide_eq_false lt]
      rfl

/-- The bits that are read are those of the exponent computed with. -/
lemma testBit_seen {e pos : Nat} (lt : pos < e.log2) :
    (seen e).testBit pos = (decide (pos < 32) && e.testBit pos) := by
  rw [seen]
  split
  case isTrue small =>
    have ne : e ≠ 0 := by
      rintro rfl
      simp at lt
    have lt32 : e.log2 < 32 := (Nat.log2_lt ne).2 small
    rw [decide_eq_true (by omega), Bool.true_and]
  case isFalse => rw [Nat.testBit_two_pow_add_gt lt, Nat.testBit_mod_two_pow]

lemma seen_bounds {e : Nat} (ne : e ≠ 0) : 2 ^ e.log2 ≤ seen e ∧ seen e < 2 ^ (e.log2 + 1) := by
  rw [seen]
  split
  case isTrue => exact ⟨Nat.log2_self_le ne, Nat.lt_log2_self⟩
  case isFalse big =>
    have log : 32 ≤ e.log2 := (Nat.le_log2 ne).2 (by omega)
    have pow : 2 ^ 32 ≤ 2 ^ e.log2 := Nat.pow_le_pow_right (by decide) log
    have low := Nat.mod_lt e (Nat.two_pow_pos 32)
    refine ⟨Nat.le_add_right .., ?_⟩
    rw [pow_succ]
    omega

lemma seen_odd {e : Nat} (odd : e % 2 = 1) : seen e % 2 = 1 := by
  rw [seen]
  split
  case isTrue => exact odd
  case isFalse big =>
    have ne : e ≠ 0 := by omega
    have log : 32 ≤ e.log2 := (Nat.le_log2 ne).2 (by omega)
    obtain ⟨k, hk⟩ : ∃ k, e.log2 = k + 1 := ⟨e.log2 - 1, by omega⟩
    rw [hk, pow_succ]
    omega

lemma exponentBitsLoop_spec {fuel bits e : Nat} (ne : e ≠ 0) (lt : e < 2 ^ fuel) :
    exponentBitsLoop fuel bits e = some (bits + e.log2) := by
  induction fuel generalizing bits e with
  | zero => omega
  | succ fuel ih =>
    rw [exponentBitsLoop]
    by_cases one : e / 2 = 0
    · have log : e.log2 = 0 := by
        rw [Nat.log2_def, if_neg (by omega)]
      rw [if_pos one, log]
      rfl
    · have log : e.log2 = (e / 2).log2 + 1 := by
        rw [Nat.log2_def, if_pos (by omega)]
      rw [if_neg one, ih one (by rw [pow_succ] at lt; omega), log]
      congr 1
      omega

/-- The exponent reached from `p` with the bits from `j` down to 1. -/
def loopExponent (key : Key) : Nat → Nat → Nat
  | 0, p => p
  | j + 1, p => loopExponent key j (2 * p + (isPublicExponentBitSet key (j + 1)).toNat)

/-- The loop reads the exponent computed with, all but its lowest bit. -/
lemma loopExponent_eq {j : Nat} (le : j < key.exponent.log2) :
    loopExponent key j (seen key.exponent / 2 ^ (j + 1)) = seen key.exponent / 2 := by
  induction j with
  | zero => rfl
  | succ j ih =>
    rw [loopExponent, isPublicExponentBitSet_iff, ← testBit_seen le]
    have step : 2 * (seen key.exponent / 2 ^ (j + 1 + 1)) +
        ((seen key.exponent).testBit (j + 1)).toNat = seen key.exponent / 2 ^ (j + 1) := by
      rw [pow_succ 2 (j + 1), ← Nat.div_div_eq_div_mul, Nat.testBit_eq_decide_div_mod_eq]
      generalize seen key.exponent / 2 ^ (j + 1) = q
      rcases Nat.mod_two_eq_zero_or_one q with h | h
      · simp only [h]
        simp
        omega
      · simp only [h]
        simp
        omega
    rw [step]
    exact ih (by omega)

/-! ## The power -/

section Power

variable (valid : key.Valid)
include valid

/-- From `R * r ≡ x * (y * R)` the factor `R` can be taken out. -/
lemma cancel_R {x y : Nat} (h : key.R * x ≡ y * key.R [MOD key.N]) : x ≡ y [MOD key.N] := by
  rw [Nat.mul_comm y] at h
  exact h.cancel_left_of_coprime valid.coprime

/-- The Montgomery product of two scaled powers is the scaled product. -/
lemma mul_scaled {x y : Nat} (ha : IsArray key acc) (hb : IsArray key b)
    (hx : value acc ≡ x * key.R [MOD key.N]) (hy : value b ≡ y * key.R [MOD key.N]) :
    ∃ r, montgomeryMul key acc b = some r ∧ IsArray key r ∧
      value r ≡ x * y * key.R [MOD key.N] := by
  obtain ⟨r, eq, array, mod⟩ := montgomeryMul_spec valid ha hb
  refine ⟨r, eq, array, cancel_R valid ?_⟩
  calc
    key.R * value r ≡ value acc * value b [MOD key.N] := mod
    _ ≡ x * key.R * (y * key.R) [MOD key.N] := hx.mul hy
    _ = x * y * key.R * key.R := by ring

/-- The loop raises a scaled power to the exponent its bits lead to. -/
lemma powLoop_spec {x p j : Nat} (hv : IsArray key val) (ha : IsArray key acc)
    (hx : value val ≡ x * key.R [MOD key.N]) (hp : value acc ≡ x ^ p * key.R [MOD key.N]) :
    ∃ r, powLoop key val j acc = some r ∧ IsArray key r ∧
      value r ≡ x ^ loopExponent key j p * key.R [MOD key.N] := by
  induction j generalizing acc p with
  | zero => exact ⟨acc, rfl, ha, hp⟩
  | succ j ih =>
    obtain ⟨tmp, eq1, array1, mod1⟩ := mul_scaled valid ha ha hp hp
    rw [← pow_add, ← Nat.two_mul] at mod1
    simp only [powLoop, eq1, Option.bind_eq_bind, Option.bind_some, loopExponent]
    cases isPublicExponentBitSet key (j + 1) with
    | true =>
      obtain ⟨acc', eq2, array2, mod2⟩ := mul_scaled valid array1 hv mod1 hx
      rw [← pow_succ] at mod2
      simp only [if_true, eq2, Option.bind_some]
      exact ih array2 mod2
    | false => exact ih array1 mod1

/-- The exponent the whole computation ends with. -/
lemma final_exponent :
    2 * loopExponent key (key.exponent.log2 + 1 - 2) 1 + 1 = seen key.exponent := by
  have ge := valid.exponentBits
  have odd := seen_odd valid.exponentOdd
  obtain ⟨low, high⟩ := @seen_bounds key.exponent (by omega)
  have log : 1 ≤ key.exponent.log2 := (Nat.le_log2 (by omega)).2 (by omega)
  obtain ⟨j, hj⟩ : ∃ j, key.exponent.log2 = j + 1 := ⟨key.exponent.log2 - 1, by omega⟩
  have top : seen key.exponent / 2 ^ (j + 1) = 1 := by
    rw [hj, pow_succ 2 (j + 1)] at high
    rw [hj] at low
    exact Nat.div_eq_of_lt_le (by omega) (by omega)
  have loop := @loopExponent_eq key j (by omega)
  rw [top] at loop
  rw [hj, show j + 1 + 1 - 2 = j from by omega, loop]
  omega

/-- `pow_mod` computes the power to the exponent it sees, reduced. -/
lemma powWords_spec (hv : IsArray key val) :
    ∃ r, powWords key (key.exponent.log2 + 1) val = some r ∧ IsArray key r ∧
      value r = value val ^ seen key.exponent % key.N := by
  have hrr : IsArray key key.rr := ⟨valid.lenRr, valid.belowRr⟩
  have rr : value key.rr ≡ key.R * key.R [MOD key.N] := by
    rw [valid.rr, Key.R, base, ← pow_mul, ← pow_add]
    have e : 32 * key.len + 32 * key.len = 64 * key.len := by omega
    rw [e]
    exact Nat.mod_modEq _ _
  obtain ⟨scaled, eq1, array1, mod1⟩ := montgomeryMul_spec valid hv hrr
  have mod1' : value scaled ≡ value val * key.R [MOD key.N] := by
    apply cancel_R valid
    calc
      key.R * value scaled ≡ value val * value key.rr [MOD key.N] := mod1
      _ ≡ value val * (key.R * key.R) [MOD key.N] := rr.mul_left _
      _ = value val * key.R * key.R := by ring
  obtain ⟨acc, eq2, array2, mod2⟩ := powLoop_spec valid (p := 1) (j := key.exponent.log2 + 1 - 2)
    array1 array1 mod1' (by simpa using mod1')
  obtain ⟨tmp, eq3, array3, mod3⟩ := mul_scaled valid array2 array2 mod2 mod2
  obtain ⟨r, eq4, array4, mod4⟩ := montgomeryMul_spec valid array3 hv
  -- the last factor is not scaled, so that `R` goes away
  have mod4' : value r ≡ value val ^ seen key.exponent [MOD key.N] := by
    rw [← final_exponent valid]
    apply cancel_R valid
    calc
      key.R * value r ≡ value tmp * value val [MOD key.N] := mod4
      _ ≡ value val ^ loopExponent key (key.exponent.log2 + 1 - 2) 1 *
            value val ^ loopExponent key (key.exponent.log2 + 1 - 2) 1 * key.R * value val
            [MOD key.N] := mod3.mul_right _
      _ = value val ^ (2 * loopExponent key (key.exponent.log2 + 1 - 2) 1 + 1) * key.R := by ring
  have lens : r.length = key.modulus.length := array4.len.trans valid.lenModulus.symm
  have cmp := Words.ge_iff one_lt_base lens array4.below valid.belowModulus
  have ltR := array4.value_lt
  have leN := valid.R_le
  simp only [powWords, eq1, eq2, eq3, eq4, Option.bind_eq_bind, Option.bind_some]
  by_cases ge : key.N ≤ value r
  · have sub := Words.sub_eq_emod one_lt_base lens
    have diff : value (subtractModulus key r) = value r - key.N := by
      rw [← Nat.cast_inj (R := Int), Nat.cast_sub ge, value, subtractModulus, sub]
      refine Int.emod_eq_of_lt ?_ ?_
      · exact Int.sub_nonneg_of_le (by exact_mod_cast ge)
      · have lt : ((value r : Nat) : Int) < (base : Int) ^ r.length := by
          exact_mod_cast array4.below.value_lt one_lt_base
        have nonneg : (0 : Int) ≤ (key.N : Nat) := Int.natCast_nonneg _
        exact lt_of_le_of_lt (Int.sub_le_self _ nonneg) lt
    refine ⟨subtractModulus key r, if_pos (cmp.2 ge), ⟨?_, Words.below_sub (by decide)⟩, ?_⟩
    · rw [subtractModulus, Words.length_sub lens, array4.len]
    · rw [diff, ← mod4', Nat.mod_eq_sub_mod ge, Nat.mod_eq_of_lt (by omega)]
  · refine ⟨r, if_neg fun h => ge (cmp.1 h), array4, ?_⟩
    rw [← mod4', Nat.mod_eq_of_lt (by omega)]

end Power

/-! ## Keys that need not be valid -/

lemma powLoop_array (shaped : key.Shaped) {scaled : List Nat} {j : Nat} (hs : IsArray key scaled)
    (ha : IsArray key acc) : ∃ r, powLoop key scaled j acc = some r ∧ IsArray key r := by
  induction j generalizing acc with
  | zero => exact ⟨acc, rfl, ha⟩
  | succ j ih =>
    obtain ⟨tmp, eq1, array1⟩ := montgomeryMul_array shaped ha ha
    obtain ⟨acc', eq2, array2⟩ := montgomeryMul_array shaped array1 hs
    simp only [powLoop, eq1, Option.bind_eq_bind, Option.bind_some]
    cases isPublicExponentBitSet key (j + 1) with
    | true =>
      simp only [if_true, eq2, Option.bind_some]
      exact ih array2
    | false => exact ih array1

lemma powWords_array (shaped : key.Shaped) {k : Nat} (hv : IsArray key val) :
    ∃ r, powWords key k val = some r ∧ IsArray key r := by
  obtain ⟨scaled, eq1, array1⟩ := montgomeryMul_array shaped hv shaped.rr
  obtain ⟨acc, eq2, array2⟩ := powLoop_array (j := k - 2) shaped array1 array1
  obtain ⟨tmp, eq3, array3⟩ := montgomeryMul_array shaped array2 array2
  obtain ⟨r, eq4, array4⟩ := montgomeryMul_array shaped array3 hv
  simp only [powWords, eq1, eq2, eq3, eq4, Option.bind_eq_bind, Option.bind_some]
  split
  · exact ⟨_, rfl, shaped.sub array4⟩
  · exact ⟨r, rfl, array4⟩

/-- For any key of its size `pow_mod` comes to an end, inside of its arrays. -/
lemma powMod_array (shaped : key.Shaped) (len : inout.length = 4 * key.len) :
    ∃ ret out, powMod key inout = some (ret, out) ∧ out.length = 4 * key.len := by
  have array : IsArray key (beWords inout).reverse := by
    refine ⟨?_, fun x hx => below_beWords x (List.mem_reverse.1 hx)⟩
    rw [List.length_reverse, length_beWords len]
  unfold powMod
  split
  case isTrue => exact ⟨_, _, rfl, len⟩
  case isFalse =>
    dsimp only
    cases numPublicExponentBits key with
    | none => exact ⟨_, _, rfl, len⟩
    | some k =>
      obtain ⟨r, eq, array'⟩ := powWords_array (k := k) shaped array
      dsimp only
      split_ifs
      · exact ⟨_, _, rfl, len⟩
      · exact ⟨_, _, rfl, len⟩
      · rw [eq]
        refine ⟨_, _, rfl, ?_⟩
        rw [length_beBytes, List.length_reverse, array'.len]

/-- The arrays that can come up on the way: the signature, the constant of the key, and what the
steps of the multiplications and the subtractions of the modulus make of them. -/
inductive Intermediate (key : Key) (inout : List UInt8) : List Nat → Prop where
  | val : Intermediate key inout (beWords inout).reverse
  | rr : Intermediate key inout key.rr
  | zero : Intermediate key inout (List.replicate key.len 0)
  | step {r as b r' : List Nat} {a : Nat} : Intermediate key inout r → Intermediate key inout as →
      a ∈ as → Intermediate key inout b → montgomeryMulAddStep key r a b = some r' →
      Intermediate key inout r'
  | sub {r : List Nat} : Intermediate key inout r → Intermediate key inout (subtractModulus key r)

/-- Every intermediate array has the size of the key. -/
lemma Intermediate.isArray (valid : key.Valid) (len : inout.length = 4 * key.len)
    (h : Intermediate key inout r) : IsArray key r := by
  induction h with
  | val =>
    refine ⟨?_, fun x hx => below_beWords x (List.mem_reverse.1 hx)⟩
    rw [List.length_reverse, length_beWords len]
  | rr => exact ⟨valid.lenRr, valid.belowRr⟩
  | zero =>
    refine ⟨List.length_replicate, fun x hx => ?_⟩
    rw [(List.mem_replicate.1 hx).2]
    decide
  | step _ _ mem _ eq ihr ihas ihb =>
    obtain ⟨r', eq', array, -⟩ := montgomeryMulAddStep_spec valid ihr (ihas.below _ mem) ihb
    obtain rfl := Option.some.inj (eq.symm.trans eq')
    exact array
  | sub _ ih =>
    refine ⟨?_, Words.below_sub (by decide)⟩
    rw [subtractModulus, Words.length_sub (ih.len.trans valid.lenModulus.symm), ih.len]

/-- What is asked of `pow_mod`: it writes the signature raised to the public exponent, reduced and
in the same format, and every array on the way is a number below `2 ^ (32 * len)`. That no
accumulator overflows is that there is a result at all. -/
def PowerWritten (key : Key) (inout : List UInt8) : Prop :=
  (∃ out, powMod key inout = some (0, out) ∧ out.length = 4 * key.len ∧
      number out = number inout ^ key.exponent % key.N) ∧
    ∀ r, Intermediate key inout r → value r < 2 ^ (32 * key.len)

/-- What `pow_mod` writes is the power to the exponent it sees. -/
lemma powMod_eq (valid : key.Valid) (len : inout.length = 4 * key.len)
    (words : key.len ≤ maxKeyWords) :
    ∃ out, powMod key inout = some (0, out) ∧ out.length = 4 * key.len ∧
      number out = number inout ^ seen key.exponent % key.N := by
  have ge := valid.exponentBits
  have array : IsArray key (beWords inout).reverse := Intermediate.isArray valid len .val
  obtain ⟨r, eq, arrayr, power⟩ := powWords_spec valid array
  have bits : numPublicExponentBits key = some (1 + key.exponent.log2) := by
    rw [numPublicExponentBits, if_neg (by omega),
      exponentBitsLoop_spec (by omega) valid.exponentLt]
  have log : 1 ≤ key.exponent.log2 := (Nat.le_log2 (by omega)).2 (by omega)
  have odd : isPublicExponentBitSet key 0 = true := by
    rw [isPublicExponentBitSet_iff, Nat.testBit_zero, valid.exponentOdd]
    rfl
  refine ⟨beBytes r.reverse, ?_, ?_, ?_⟩
  · rw [Nat.add_comm] at bits
    simp only [powMod, bits, odd]
    rw [if_neg (by omega), if_neg (by omega), if_neg (by decide), eq]
    rfl
  · rw [length_beBytes, List.length_reverse, arrayr.len]
  · have below : Words.Below base r.reverse := fun x hx => arrayr.below x (List.mem_reverse.1 hx)
    have back := @value_reverse r.reverse
    rw [List.reverse_reverse] at back
    rw [number, number_beBytes below, ← back, power, value_beWords ⟨key.len, len⟩]

/-- For every valid key and every signature of its size, reduced or not, `pow_mod` writes the power
asked for exactly when the key has at most 128 words and the signature has the same power, modulo
the modulus, to the exponent without its bits from 32 on below the top one. -/
theorem powMod_correct_iff (valid : key.Valid) (len : inout.length = 4 * key.len) :
    PowerWritten key inout ↔ key.len ≤ maxKeyWords ∧
      number inout ^ seen key.exponent % key.N = number inout ^ key.exponent % key.N := by
  constructor
  · rintro ⟨⟨out, eq, -, power⟩, -⟩
    have words : key.len ≤ maxKeyWords := by
      by_contra big
      rw [powMod, if_pos (by omega)] at eq
      cases eq
    obtain ⟨out', eq', -, power'⟩ := powMod_eq valid len words
    rw [eq'] at eq
    obtain rfl : out' = out := by simpa using eq
    exact ⟨words, power'.symm.trans power⟩
  · rintro ⟨words, same⟩
    obtain ⟨out, eq, lenOut, power⟩ := powMod_eq valid len words
    refine ⟨⟨out, eq, lenOut, power.trans same⟩, fun r h => ?_⟩
    have lt := (h.isArray valid len).value_lt
    rwa [Key.R, base, ← pow_mul] at lt

/-- A key of one word, with the prime modulus `2 ^ 32 - 5`. -/
def sampleKey (exponent : Nat) : Key where
  len := 1
  n0inv := 3435973837
  modulus := [4294967291]
  rr := [25]
  exponent

/-- The sample keys are valid. -/
lemma sampleKey_valid {e : Nat} (odd : e % 2 = 1) (ge : 2 ≤ e) (lt : e < 2 ^ 64) :
    (sampleKey e).Valid where
  lenModulus := rfl
  lenRr := rfl
  belowModulus := (by decide : Words.Below base [4294967291])
  belowRr := (by decide : Words.Below base [25])
  odd := (by decide : value [4294967291] % 2 = 1)
  top := (by decide : 2 ^ (32 * 1 - 1) ≤ value [4294967291])
  n0inv := (by decide : (3435973837 * value [4294967291] + 1) % base = 0)
  rr := (by decide : value [25] = 2 ^ (64 * 1) % value [4294967291])
  exponentOdd := odd
  exponentBits := ge
  exponentLt := lt

/-- With the exponent 3 the cube is written. -/
theorem powMod_correct_cube : PowerWritten (sampleKey 3) [7, 0x5b, 0xcd, 0x15] :=
  (powMod_correct_iff (sampleKey_valid rfl (by decide) (by decide)) rfl).2
    ⟨by decide, by rw [show seen (sampleKey 3).exponent = 3 from by decide]; rfl⟩

/-- The signature 149005400 has order 5 modulo `2 ^ 32 - 5`. -/
lemma fourth_power (q : Nat) : 149005400 ^ (5 * q + 4) % 4294967291 = 1998511013 := by
  have order : 149005400 ^ 5 ≡ 1 [MOD 4294967291] := by decide
  have power : 149005400 ^ (5 * q + 4) ≡ 1 ^ q * 149005400 ^ 4 [MOD 4294967291] := by
    rw [pow_add, pow_mul]
    exact (order.pow q).mul_right _
  rw [one_pow, Nat.one_mul] at power
  exact power

/-- With the exponent `2 ^ 33 + 2 ^ 32 + 1`, bit 32 is not seen: for a signature of order 5 the
third power is written in place of the fourth. -/
theorem powMod_misses_bit :
    (sampleKey (2 ^ 33 + 2 ^ 32 + 1)).Valid ∧
      ¬ PowerWritten (sampleKey (2 ^ 33 + 2 ^ 32 + 1)) [0x08, 0xe1, 0xa4, 0x58] := by
  refine ⟨sampleKey_valid rfl (by decide) (by decide), ?_⟩
  rintro ⟨⟨out, eq, -, power⟩, -⟩
  have run : powMod (sampleKey (2 ^ 33 + 2 ^ 32 + 1)) [0x08, 0xe1, 0xa4, 0x58] =
      some (0, [0xb2, 0x44, 0x3b, 0xf5]) := by decide
  rw [run] at eq
  obtain rfl : [0xb2, 0x44, 0x3b, 0xf5] = out := by simpa using eq
  have written : number [0xb2, 0x44, 0x3b, 0xf5] = 2990816245 := by decide
  have sig : number [0x08, 0xe1, 0xa4, 0x58] = 149005400 := by decide
  have modulus : (sampleKey (2 ^ 33 + 2 ^ 32 + 1)).N = 4294967291 := by decide
  obtain ⟨q, exponent⟩ : ∃ q, (sampleKey (2 ^ 33 + 2 ^ 32 + 1)).exponent = 5 * q + 4 :=
    ⟨2576980377, rfl⟩
  rw [written, sig, modulus, exponent, fourth_power] at power
  exact absurd power (by decide)

end Imx.Rsa

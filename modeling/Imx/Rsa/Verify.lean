import Imx.Rsa.PowMod

/-!
# Checking a signature

Model of `rsa_mod_exp_sw` of `lib/rsa/rsa-mod-exp.c`, of `rsa_verify_key` of `lib/rsa/rsa-verify.c`
and of the checksum algorithms of `common/image-sig.c` and `lib/rsa/rsa-checksum.c`. The padding
comes from the algorithm, which the image chooses, and the size of the decrypted block from the key.
Nothing compares the two: `key_verifies_iff` is what the check does for any pair of them.

The pointers are all given but those of a key, and `rsa_mod_exp` is the software implementation. A
negative `num_bits` is rejected like one too large.
-/

namespace Imx.Rsa
open Imx.Base

/-! ## Modular exponentiation -/

/-- C `EFAULT`. -/
def efault : Int := 14
/-- C `EACCES`. -/
def eacces : Int := 13

/-- C `RSA_DEFAULT_PUBEXP`. -/
def rsaDefaultPubexp : UInt64 := 65537
/-- C `RSA_MIN_KEY_BITS`. -/
def rsaMinKeyBits : Nat := 2048
/-- C `RSA_MAX_KEY_BITS`. -/
def rsaMaxKeyBits : Nat := 4096
/-- C `RSA_MAX_SIG_BITS`. -/
def rsaMaxSigBits : Nat := 4096

/-- The properties of a key (C `struct key_prop`), whose numbers have the words of the key. -/
structure KeyProp where
  rr : Option (List UInt8)
  modulus : Option (List UInt8)
  publicExponent : Option UInt64
  n0inv : UInt32
  numBits : Nat
  wholeRr : ∀ bytes ∈ rr, 4 * (numBits / 32) ≤ bytes.length
  wholeModulus : ∀ bytes ∈ modulus, 4 * (numBits / 32) ≤ bytes.length

/-- The words of a number, the lowest first (C `rsa_convert_big_endian`). -/
def rsaConvertBigEndian (src : List UInt8) (len : Nat) : List Nat :=
  (beWords (src.take (4 * len))).reverse

/-- The key of some properties. -/
def KeyProp.key (prop : KeyProp) (modulus rr : List UInt8) : Key where
  len := prop.numBits / 32
  n0inv := prop.n0inv.toNat
  modulus := rsaConvertBigEndian modulus (prop.numBits / 32)
  rr := rsaConvertBigEndian rr (prop.numBits / 32)
  exponent := (prop.publicExponent.getD rsaDefaultPubexp).toNat

/-- Raise a signature to the public exponent (C `rsa_mod_exp_sw`): the block, or another return
value. The signature is copied to an array of whole words. -/
def rsaModExpSw (prop : KeyProp) (sig : List UInt8) : Option (Except Int (List UInt8)) :=
  match prop.modulus, prop.rr with
  | some modulus, some rr =>
    if prop.numBits > rsaMaxKeyBits ∨ prop.numBits < rsaMinKeyBits then some (.error (-efault))
    else if sig.length > 4 * (sig.length / 4) then none
    else do
      let (ret, buf) ← powMod (prop.key modulus rr) sig
      if ret ≠ 0 then some (.error ret) else some (.ok buf)
  | _, _ => some (.error (-efault))

/-! ## Checksum algorithms -/

/-- A checksum algorithm (C `struct checksum_algo`). -/
structure ChecksumAlgo where
  name : String
  checksumLen : Nat
  padLen : Nat
  rsaPadding : List UInt8
deriving DecidableEq, Repr

/-- C `padding_sha256_rsa2048`. -/
def paddingSha256Rsa2048 : List UInt8 :=
  [0x00, 0x01] ++ List.replicate 202 0xff ++
    [0x00, 0x30, 0x31, 0x30, 0x0d, 0x06, 0x09, 0x60, 0x86, 0x48, 0x01, 0x65, 0x03, 0x04, 0x02,
      0x01, 0x05, 0x00, 0x04, 0x20]

/-- C `padding_sha1_rsa2048`. -/
def paddingSha1Rsa2048 : List UInt8 :=
  [0x00, 0x01] ++ List.replicate 218 0xff ++
    [0x00, 0x30, 0x21, 0x30, 0x09, 0x06, 0x05, 0x2b, 0x0e, 0x03, 0x02, 0x1a, 0x05, 0x00, 0x04,
      0x14]

/-- C `padding_sha256_rsa4096`. -/
def paddingSha256Rsa4096 : List UInt8 :=
  [0x00, 0x01] ++ List.replicate 458 0xff ++
    [0x00, 0x30, 0x31, 0x30, 0x0d, 0x06, 0x09, 0x60, 0x86, 0x48, 0x01, 0x65, 0x03, 0x04, 0x02,
      0x01, 0x05, 0x00, 0x04, 0x20]

/-- C `checksum_algos`. -/
def checksumAlgos : List ChecksumAlgo := [
  ⟨"sha1", 20, 2048 / 8, paddingSha1Rsa2048⟩,
  ⟨"sha256", 32, 2048 / 8, paddingSha256Rsa2048⟩,
  ⟨"sha256", 32, 4096 / 8, paddingSha256Rsa4096⟩]

/-! ## The check -/

/-- Compare bytes (C `memcmp`): the difference of the first two that differ. `none` is a read
behind the end of an array. -/
def memcmp : List UInt8 → List UInt8 → Nat → Option Int
  | _, _, 0 => some 0
  | x :: xs, y :: ys, n + 1 => if x ≠ y then some (x.toNat - y.toNat) else memcmp xs ys n
  | _, _, _ + 1 => none

/-- Compare a decrypted block with the padding and the hash. -/
def comparePadded (algo : ChecksumAlgo) (hash buf : List UInt8) : Option Int := do
  let padLen := algo.padLen - algo.checksumLen
  let res ← memcmp buf algo.rsaPadding padLen
  if res ≠ 0 then some (-einval)
  else
    let res ← memcmp (buf.drop padLen) hash ((buf.length + 2 ^ 32 - padLen) % 2 ^ 32)
    if res ≠ 0 then some (-eacces) else some 0

/-- Check a signature (C `rsa_verify_key`). -/
def rsaVerifyKey (prop : KeyProp) (sig hash : List UInt8) (algo : ChecksumAlgo) : Option Int :=
  if sig.length ≠ prop.numBits / 8 then some (-einval)
  else if sig.length > rsaMaxSigBits / 8 then some (-einval)
  else do
    match ← rsaModExpSw prop sig with
    | .error ret => some ret
    | .ok buf => comparePadded algo hash buf

/-! ## The standard -/

/-- What PKCS#1 puts in front of a hash. -/
def digestInfo (name : String) : List UInt8 :=
  if name = "sha1" then
    [0x30, 0x21, 0x30, 0x09, 0x06, 0x05, 0x2b, 0x0e, 0x03, 0x02, 0x1a, 0x05, 0x00, 0x04, 0x14]
  else
    [0x30, 0x31, 0x30, 0x0d, 0x06, 0x09, 0x60, 0x86, 0x48, 0x01, 0x65, 0x03, 0x04, 0x02, 0x01,
      0x05, 0x00, 0x04, 0x20]

/-- The padded encoding of a hash for a length. -/
def encoding (algo : ChecksumAlgo) (len : Nat) (hash : List UInt8) : List UInt8 :=
  let t := digestInfo algo.name ++ hash
  [0x00, 0x01] ++ List.replicate (len - t.length - 3) 0xff ++ 0x00 :: t

/-- The check comes to an end inside of its arrays and accepts exactly the signatures that the
standard does. -/
def Verifies (prop : KeyProp) (sig hash : List UInt8) (algo : ChecksumAlgo) : Prop :=
  ∃ ret, rsaVerifyKey prop sig hash algo = some ret ∧
    (ret = 0 ↔ sig.length = prop.numBits / 8 ∧
      rsaModExpSw prop sig = some (.ok (encoding algo sig.length hash)))

/-! ## Comparing -/

variable {xs ys buf hash sig out : List UInt8} {algo : ChecksumAlgo} {n : Nat}

/-- The bytes are the same. -/
lemma memcmp_eq_zero :
    memcmp xs ys n = some 0 ↔ n ≤ xs.length ∧ n ≤ ys.length ∧ xs.take n = ys.take n := by
  fun_induction memcmp xs ys n with
  | case1 xs ys => simp
  | case2 x xs y ys n ne =>
    have differ : (x.toNat : Int) - y.toNat ≠ 0 := by
      intro zero
      exact ne (UInt8.toNat_inj.mp (by omega))
    simp [differ, ne]
  | case3 x xs y ys n same ih =>
    rw [not_not] at same
    simp [ih, same]
  | case4 xs ys n short =>
    constructor
    case mp => exact fun eq => nomatch eq
    case mpr =>
      rintro ⟨lenX, lenY, -⟩
      obtain ⟨x, xs, rfl⟩ := List.exists_cons_of_length_pos (Nat.zero_lt_of_lt lenX)
      obtain ⟨y, ys, rfl⟩ := List.exists_cons_of_length_pos (Nat.zero_lt_of_lt lenY)
      exact (short x xs y ys rfl rfl).elim

/-- One of the arrays ends before there is a difference. -/
lemma memcmp_eq_none : memcmp xs ys n = none ↔
    xs.length < n ∧ xs <+: ys ∨ ys.length < n ∧ ys <+: xs := by
  fun_induction memcmp xs ys n with
  | case1 xs ys => simp
  | case2 x xs y ys n ne => simp [List.cons_prefix_cons, ne, Ne.symm ne]
  | case3 x xs y ys n same ih =>
    rw [not_not] at same
    simp [List.cons_prefix_cons, ih, same]
  | case4 xs ys n short =>
    simp only [true_iff]
    cases xs with
    | nil => exact .inl ⟨Nat.succ_pos n, List.nil_prefix⟩
    | cons x xs =>
      cases ys with
      | nil => exact .inr ⟨Nat.succ_pos n, List.nil_prefix⟩
      | cons y ys => exact (short x xs y ys rfl rfl).elim

/-- An algorithm whose padding leaves the room that the hash takes. -/
structure Fits (algo : ChecksumAlgo) (hash : List UInt8) : Prop where
  padding : algo.rsaPadding.length + algo.checksumLen = algo.padLen
  hash : hash.length = algo.checksumLen

lemma Fits.length (fits : Fits algo hash) : (algo.rsaPadding ++ hash).length = algo.padLen := by
  rw [List.length_append, fits.hash, fits.padding]

/-- The comparisons run as far as the block and what is expected agree: they read too far when one
of them ends where it should not, and accept a block that ends behind the padding. -/
lemma comparePadded_spec (fits : Fits algo hash) (small : buf.length < 2 ^ 32) :
    (comparePadded algo hash buf = none ↔
      buf.length < algo.rsaPadding.length ∧ buf <+: algo.rsaPadding ++ hash ∨
        algo.padLen < buf.length ∧ algo.rsaPadding ++ hash <+: buf) ∧
    (comparePadded algo hash buf = some 0 ↔
      algo.rsaPadding.length ≤ buf.length ∧ buf <+: algo.rsaPadding ++ hash) := by
  have len : algo.padLen - algo.checksumLen = algo.rsaPadding.length := by
    rw [← fits.padding, Nat.add_sub_cancel]
  have zero := @memcmp_eq_zero buf algo.rsaPadding algo.rsaPadding.length
  have none := @memcmp_eq_none buf algo.rsaPadding algo.rsaPadding.length
  have shorter : buf.length < algo.rsaPadding.length →
      (buf <+: algo.rsaPadding ++ hash ↔ buf <+: algo.rsaPadding) := fun short =>
    ⟨fun agree => List.prefix_of_prefix_length_le agree (List.prefix_append _ _) short.le,
      fun agree => agree.trans (List.prefix_append _ _)⟩
  rw [comparePadded, len]
  cases first : memcmp buf algo.rsaPadding algo.rsaPadding.length with
  | none =>
    obtain ⟨short, agree⟩ | ⟨short, -⟩ := none.mp first
    case inr => exact absurd short (Nat.lt_irrefl _)
    case inl => simp [short, (shorter short).mpr agree]
  | some res =>
    by_cases same : res = 0
    case pos =>
      subst same
      obtain ⟨long, -, eq⟩ := zero.mp first
      rw [List.take_length] at eq
      obtain ⟨rest, rfl⟩ : ∃ rest, buf = algo.rsaPadding ++ rest :=
        ⟨buf.drop algo.rsaPadding.length, by
          conv_rhs => rw [← eq]
          rw [List.length_take_of_le long, List.take_append_drop]⟩
      have count : ((algo.rsaPadding ++ rest).length + 2 ^ 32 - algo.rsaPadding.length) % 2 ^ 32 =
          rest.length := by
        rw [List.length_append] at small ⊢
        omega
      have zero' := @memcmp_eq_zero rest hash rest.length
      have none' := @memcmp_eq_none rest hash rest.length
      have longer : algo.padLen < (algo.rsaPadding ++ rest).length ↔ hash.length < rest.length := by
        rw [← fits.length, List.length_append, List.length_append]
        omega
      have fitting : rest.length ≤ hash.length ∧ rest = hash.take rest.length ↔ rest <+: hash := by
        rw [List.prefix_iff_eq_take]
        refine ⟨fun both => both.2, fun eq => ⟨?_, eq⟩⟩
        rw [eq, List.length_take]
        exact Nat.min_le_right _ _
      simp only [Option.bind_eq_bind, Option.bind_some, ne_eq, not_true_eq_false, if_false,
        List.drop_left, count, List.prefix_append_right_inj, longer, long, true_and,
        Nat.not_lt.mpr long, false_and, false_or]
      simp only [Nat.le_refl, Nat.lt_irrefl, true_and, List.take_length, false_and, false_or]
        at zero' none'
      rw [← none', ← fitting, ← zero']
      cases memcmp rest hash rest.length with
      | none => simp
      | some res => by_cases same : res = 0 <;> simp [same, eacces]
    case neg =>
      have behind : ¬algo.rsaPadding <+: buf := by
        intro agree
        have whole : buf.take algo.rsaPadding.length =
            algo.rsaPadding.take algo.rsaPadding.length := by
          rw [List.take_length]
          exact (List.prefix_iff_eq_take.mp agree).symm
        have equal := zero.mpr ⟨agree.length_le, Nat.le_refl _, whole⟩
        exact same (Option.some.inj (first.symm.trans equal))
      have before : ¬(buf.length < algo.rsaPadding.length ∧ buf <+: algo.rsaPadding ++ hash) := by
        rintro ⟨short, agree⟩
        cases first.symm.trans (none.mpr (.inl ⟨short, (shorter short).mp agree⟩))
      simp only [Option.bind_eq_bind, Option.bind_some, ne_eq, same, not_false_eq_true, if_true]
      refine ⟨⟨(nomatch ·), fun outside => ?_⟩, ⟨(nomatch ·), fun inside => ?_⟩⟩
      · obtain short | ⟨-, agree⟩ := outside
        · exact absurd short before
        · exact absurd ((List.prefix_append _ _).trans agree) behind
      · exact absurd (List.prefix_of_prefix_length_le (List.prefix_append _ _) inside.2 inside.1)
          behind

/-! ## The encodings of two lengths -/

lemma replicate_begins {a b : UInt8} {i j : Nat} {s t : List UInt8} (ne : a ≠ b)
    (agree : List.replicate i a ++ b :: s <+: List.replicate j a ++ b :: t) : i = j := by
  induction i generalizing j with
  | zero =>
    cases j with
    | zero => rfl
    | succ j => exact absurd (List.cons_prefix_cons.mp agree).1.symm ne
  | succ i ih =>
    cases j with
    | zero => exact absurd (List.cons_prefix_cons.mp agree).1 ne
    | succ j => rw [ih (List.cons_prefix_cons.mp agree).2]

/-- The length that an encoding has at least. -/
def minLen (algo : ChecksumAlgo) (hash : List UInt8) : Nat :=
  (digestInfo algo.name ++ hash).length + 3

/-- No encoding begins another one. -/
lemma encoding_begins {len len' : Nat} (le : minLen algo hash ≤ len) (le' : minLen algo hash ≤ len')
    (agree : encoding algo len hash <+: encoding algo len' hash) : len = len' := by
  simp only [encoding, List.append_assoc, List.prefix_append_right_inj] at agree
  have same := replicate_begins (by decide) agree
  simp only [minLen] at le le'
  omega

/-- What the code expects of an algorithm is the encoding for the length of the algorithm. -/
lemma checksumAlgos_spec (mem : algo ∈ checksumAlgos) (len : hash.length = algo.checksumLen) :
    Fits algo hash ∧ algo.rsaPadding ++ hash = encoding algo algo.padLen hash ∧
      minLen algo hash ≤ rsaMinKeyBits / 8 ∧ 4 ∣ algo.padLen := by
  have pads : ∀ algo ∈ checksumAlgos, algo.rsaPadding.length + algo.checksumLen = algo.padLen ∧
      (digestInfo algo.name).length + algo.checksumLen + 3 ≤ rsaMinKeyBits / 8 ∧ 4 ∣ algo.padLen ∧
      algo.rsaPadding = [0x00, 0x01] ++ List.replicate
        (algo.padLen - ((digestInfo algo.name).length + algo.checksumLen) - 3) 0xff ++
        0x00 :: digestInfo algo.name := by decide +kernel
  obtain ⟨padding, short, four, eq⟩ := pads algo mem
  refine ⟨⟨padding, len⟩, ?_, ?_, four⟩
  · rw [eq, encoding, List.length_append, len, List.append_assoc]
    rfl
  · rw [minLen, List.length_append, len]
    exact short

/-! ## The exponentiation -/

variable {prop : KeyProp}

lemma rsaConvertBigEndian_array {src : List UInt8} {len : Nat} (whole : 4 * len ≤ src.length) :
    (rsaConvertBigEndian src len).length = len ∧
      Words.Below base (rsaConvertBigEndian src len) := by
  refine ⟨?_, fun x mem => below_beWords x (List.mem_reverse.mp mem)⟩
  rw [rsaConvertBigEndian, List.length_reverse, length_beWords (List.length_take_of_le whole)]

lemma KeyProp.shaped {modulus rr : List UInt8} (hm : prop.modulus = some modulus)
    (hr : prop.rr = some rr) (pos : 0 < prop.numBits / 32) : (prop.key modulus rr).Shaped := by
  obtain ⟨len, below⟩ := rsaConvertBigEndian_array (prop.wholeModulus modulus hm)
  obtain ⟨len', below'⟩ := rsaConvertBigEndian_array (prop.wholeRr rr hr)
  exact ⟨⟨len, below⟩, ⟨len', below'⟩, pos⟩

/-- A signature of whole words gives a block of its length, or an error. -/
lemma rsaModExpSw_whole (four : 4 ∣ sig.length) (size : sig.length = prop.numBits / 8) :
    ∃ res, rsaModExpSw prop sig = some res ∧ ∀ out, res = .ok out → out.length = sig.length := by
  unfold rsaModExpSw
  split
  case h_2 => exact ⟨_, rfl, fun out eq => nomatch eq⟩
  case h_1 modulus rr hm hr =>
    split
    case isTrue => exact ⟨_, rfl, fun out eq => nomatch eq⟩
    case isFalse range =>
      simp only [rsaMaxKeyBits, rsaMinKeyBits] at range
      have len : sig.length = 4 * (prop.key modulus rr).len := by
        simp only [KeyProp.key]
        omega
      obtain ⟨ret, out, eq, len'⟩ := powMod_array (prop.shaped hm hr (by omega)) len
      rw [if_neg (by omega), eq]
      simp only [Option.bind_eq_bind, Option.bind_some]
      split
      · exact ⟨_, rfl, fun out eq => nomatch eq⟩
      · refine ⟨_, rfl, fun out' eq => ?_⟩
        cases eq
        rw [len', len]

/-- A block comes of a signature of whole words and has its length. -/
lemma rsaModExpSw_ok (size : sig.length = prop.numBits / 8)
    (eq : rsaModExpSw prop sig = some (.ok out)) :
    out.length = sig.length ∧ rsaMinKeyBits / 8 ≤ sig.length ∧ sig.length < 2 ^ 32 := by
  have range : 4 ∣ sig.length ∧ rsaMinKeyBits ≤ prop.numBits ∧ prop.numBits ≤ rsaMaxKeyBits := by
    unfold rsaModExpSw at eq
    split at eq
    case h_2 => cases eq
    case h_1 =>
      split at eq
      case isTrue => cases eq
      case isFalse range =>
        split at eq
        case isTrue => cases eq
        case isFalse whole => exact ⟨by omega, by omega, by omega⟩
  obtain ⟨four, low, high⟩ := range
  obtain ⟨res, eq', len⟩ := rsaModExpSw_whole four size
  refine ⟨len out (Option.some.inj (eq'.symm.trans eq)), ?_, ?_⟩
  · exact size ▸ Nat.div_le_div_right low
  · simp only [rsaMaxKeyBits] at high
    omega

/-- The error is never 0. -/
lemma rsaModExpSw_error {ret : Int} (eq : rsaModExpSw prop sig = some (.error ret)) : ret ≠ 0 := by
  unfold rsaModExpSw at eq
  split at eq
  case h_2 =>
    cases eq
    decide
  case h_1 =>
    split at eq
    · cases eq
      decide
    · split at eq
      · cases eq
      · obtain ⟨⟨ret', out⟩, -, eq⟩ := Option.bind_eq_some_iff.mp eq
        dsimp only at eq
        split at eq
        case isTrue ne =>
          cases eq
          exact ne
        case isFalse => cases eq

/-- A signature that is too large for the stack belongs to a key that is rejected. -/
lemma rsaModExpSw_large (size : sig.length = prop.numBits / 8)
    (large : rsaMaxSigBits / 8 < sig.length) :
    rsaModExpSw prop sig = some (.error (-efault)) := by
  unfold rsaModExpSw
  split
  case h_2 => rfl
  case h_1 =>
    simp only [rsaMaxSigBits] at large
    have range : prop.numBits > rsaMaxKeyBits := by
      rw [rsaMaxKeyBits]
      omega
    exact if_pos (.inl range)

/-- The block of a signature of the right length is compared. -/
lemma rsaVerifyKey_eq (size : sig.length = prop.numBits / 8) :
    rsaVerifyKey prop sig hash algo = (rsaModExpSw prop sig).bind fun
      | .error ret => some (if rsaMaxSigBits / 8 < sig.length then -einval else ret)
      | .ok buf => comparePadded algo hash buf := by
  rw [rsaVerifyKey, if_neg (not_not.mpr size)]
  split
  case isTrue large =>
    rw [rsaModExpSw_large size large]
    rfl
  case isFalse small =>
    cases rsaModExpSw prop sig with
    | none => rfl
    | some res =>
      cases res with
      | error ret => rfl
      | ok buf => rfl

/-! ## Which signatures are checked right -/

/-- What the comparison makes of a block of the length of the signature. -/
lemma compare_iff (mem : algo ∈ checksumAlgos) (len : hash.length = algo.checksumLen)
    (whole : rsaMinKeyBits / 8 ≤ out.length) (small : out.length < 2 ^ 32) :
    (∃ ret, comparePadded algo hash out = some ret ∧
        (ret = 0 ↔ out = encoding algo out.length hash)) ↔
      out.length = algo.padLen ∨ out ≠ encoding algo out.length hash ∧
        ¬out <+: encoding algo algo.padLen hash ∧ ¬encoding algo algo.padLen hash <+: out := by
  obtain ⟨fits, expected, least, -⟩ := checksumAlgos_spec mem len
  obtain ⟨none, zero⟩ := comparePadded_spec fits small
  rw [expected] at none zero
  have lenE : (encoding algo algo.padLen hash).length = algo.padLen := by
    rw [← expected, fits.length]
  have padding : algo.rsaPadding.length ≤ algo.padLen := by
    rw [← fits.padding]
    exact Nat.le_add_right _ _
  have leA : minLen algo hash ≤ algo.padLen := by
    rw [← lenE, encoding, minLen]
    simp only [List.length_append, List.length_cons, List.length_nil]
    omega
  constructor
  case mp =>
    rintro ⟨ret, eq, right⟩
    by_cases same : out.length = algo.padLen
    case pos => exact .inl same
    case neg =>
      have ne : out ≠ encoding algo out.length hash := by
        intro encoded
        rw [right.mpr encoded] at eq
        have agree := (zero.mp eq).2
        rw [encoded] at agree
        exact same (encoding_begins (least.trans whole) leA agree)
      refine .inr ⟨ne, fun agree => ?_, fun agree => ?_⟩
      · obtain short | long := Nat.lt_or_ge out.length algo.rsaPadding.length
        · cases eq.symm.trans (none.mpr (.inl ⟨short, agree⟩))
        · have accepted := eq.symm.trans (zero.mpr ⟨long, agree⟩)
          exact ne (right.mp (Option.some.inj accepted))
      · have le := agree.length_le
        cases eq.symm.trans (none.mpr (.inr ⟨by omega, agree⟩))
  case mpr =>
    rintro (same | ⟨ne, no, no'⟩)
    · cases eq : comparePadded algo hash out with
      | none =>
        obtain ⟨short, -⟩ | ⟨long, -⟩ := none.mp eq <;> omega
      | some ret =>
        refine ⟨ret, rfl, ?_⟩
        rw [eq, Option.some_inj] at zero
        rw [zero, same]
        constructor
        case mp => exact fun inside => inside.2.eq_of_length (same.trans lenE.symm)
        case mpr =>
          rintro encoded
          exact ⟨padding, encoded ▸ List.prefix_rfl⟩
    · cases eq : comparePadded algo hash out with
      | none => exact absurd (none.mp eq) (by simp [no, no'])
      | some ret =>
        refine ⟨ret, rfl, fun accepted => ?_, fun encoded => absurd encoded ne⟩
        rw [eq, accepted] at zero
        exact absurd (zero.mp rfl).2 no

/-- A signature is checked right when it has not the length of the key, when it cannot be raised to
the exponent, when the key has the length of the algorithm, and when the block differs from what the
algorithm expects before either of them ends, and is not the encoding for its length either. -/
theorem key_verifies_iff (mem : algo ∈ checksumAlgos) (len : hash.length = algo.checksumLen) :
    Verifies prop sig hash algo ↔ sig.length ≠ prop.numBits / 8 ∨
      (∃ ret, rsaModExpSw prop sig = some (.error ret)) ∨ sig.length = algo.padLen ∨
      ∃ out, rsaModExpSw prop sig = some (.ok out) ∧ out ≠ encoding algo sig.length hash ∧
        ¬out <+: encoding algo algo.padLen hash ∧ ¬encoding algo algo.padLen hash <+: out := by
  by_cases size : sig.length = prop.numBits / 8
  case neg =>
    have rejected : rsaVerifyKey prop sig hash algo = some (-einval) := by
      rw [rsaVerifyKey, if_pos size]
    refine ⟨fun _ => .inl size, fun _ => ⟨_, rejected, fun zero => ?_, fun both => ?_⟩⟩
    · exact absurd zero (by decide)
    · exact absurd both.1 size
  case pos =>
    rw [Verifies, rsaVerifyKey_eq size]
    cases exp : rsaModExpSw prop sig with
    | none =>
      constructor
      case mp =>
        rintro ⟨ret, eq, -⟩
        cases eq
      case mpr =>
        rintro (other | ⟨ret, eq⟩ | same | ⟨out, eq, -⟩)
        · exact absurd size other
        · cases eq
        · obtain ⟨-, -, -, four⟩ := checksumAlgos_spec mem len
          obtain ⟨res, eq, -⟩ := rsaModExpSw_whole (same ▸ four) size
          cases exp.symm.trans eq
        · cases eq
    | some res =>
      cases res with
      | error ret =>
        refine ⟨fun _ => .inr (.inl ⟨ret, rfl⟩), fun _ => ⟨_, rfl, fun zero => ?_, fun both => ?_⟩⟩
        · split at zero
          · exact absurd zero (by decide)
          · exact absurd zero (rsaModExpSw_error exp)
        · cases both.2
      | ok out =>
        obtain ⟨len', least, small⟩ := rsaModExpSw_ok size exp
        rw [← len'] at least small size ⊢
        have compared := compare_iff mem len least small
        simp only [size, true_and, Option.bind_some, Option.some_inj, Except.ok.injEq,
          exists_eq_left', reduceCtorEq, exists_const, ne_eq, not_true_eq_false, false_or]
          at compared ⊢
        exact compared

/-- A key of 2048 bits. -/
def plainKey : KeyProp where
  rr := some (List.replicate 256 0x00)
  modulus := some (List.replicate 256 0xff)
  publicExponent := none
  n0inv := 1
  numBits := 2048
  wholeRr := by
    rintro bytes ⟨⟩
    decide +kernel
  wholeModulus := by
    rintro bytes ⟨⟩
    decide +kernel

/-- With the key of the length of the algorithm a signature of that length is checked right. -/
theorem verifies_plain :
    Verifies plainKey (List.replicate 256 0x01) (List.replicate 32 0x00)
      ⟨"sha256", 32, 2048 / 8, paddingSha256Rsa2048⟩ :=
  (key_verifies_iff (List.mem_cons_of_mem _ List.mem_cons_self) List.length_replicate).mpr
    (.inr (.inr (.inl List.length_replicate)))

/-! ## A key of another length -/

/-- The lowest words of a number, the lowest first. -/
def wordsOf : Nat → Nat → List Nat
  | 0, _ => []
  | n + 1, v => v % base :: wordsOf n (v / base)

/-- The bytes of a number of 3840 bits. -/
def bytesOf (v : Nat) : List UInt8 := beBytes (wordsOf 120 v).reverse

/-- The number of the block that is only the padding. -/
def barePadding : Nat := number paddingSha256Rsa4096

/-- A number whose cube has 3840 bits. -/
def cubeRoot : Nat := 7 * 2 ^ 1277 + 1

/-- A modulus that leaves the padding of the cube. -/
def oddModulus : Nat := cubeRoot ^ 3 - barePadding

/-- A key of 3840 bits and the exponent 3. -/
def oddKey : KeyProp where
  rr := some (bytesOf (2 ^ 7680 % oddModulus))
  modulus := some (bytesOf oddModulus)
  publicExponent := some 3
  n0inv := 1789818847
  numBits := 3840
  wholeRr := by
    rintro bytes ⟨⟩
    decide +kernel
  wholeModulus := by
    rintro bytes ⟨⟩
    decide +kernel

/-- The key of these properties. -/
def oddKeyWords : Key where
  len := 120
  n0inv := 1789818847
  modulus := wordsOf 120 oddModulus
  rr := wordsOf 120 (2 ^ 7680 % oddModulus)
  exponent := 3

lemma oddKey_key :
    oddKey.key (bytesOf oddModulus) (bytesOf (2 ^ 7680 % oddModulus)) = oddKeyWords := by
  decide +kernel

lemma oddKeyWords_valid : oddKeyWords.Valid where
  lenModulus := by decide
  lenRr := by decide
  belowModulus := by decide +kernel
  belowRr := by decide +kernel
  odd := by decide +kernel
  top := by decide +kernel
  n0inv := by decide +kernel
  rr := by decide +kernel
  exponentOdd := by decide
  exponentBits := by decide
  exponentLt := by decide

/-- A number has one byte string of each length. -/
lemma number_inj (len : xs.length = ys.length) (eq : number xs = number ys) : xs = ys := by
  induction xs using List.reverseRecOn generalizing ys with
  | nil => exact (List.length_eq_zero_iff.mp len.symm).symm
  | append_singleton xs x ih =>
    cases ys using List.reverseRecOn with
    | nil =>
      rw [List.length_append] at len
      cases len
    | append_singleton ys y =>
      have lt := x.toNat_lt
      have lt' := y.toNat_lt
      rw [List.length_append, List.length_append] at len
      simp only [number, List.foldl_append, List.foldl_cons, List.foldl_nil] at eq
      have front : number xs = number ys := by
        simp only [number]
        omega
      have last : x = y := UInt8.toNat_inj.mp (by omega)
      rw [ih (Nat.add_right_cancel len) front, last]

/-- The block of the signature is the padding and nothing behind it. -/
lemma oddKey_block : rsaModExpSw oddKey (bytesOf cubeRoot) = some (.ok paddingSha256Rsa4096) := by
  have len : (bytesOf cubeRoot).length = 4 * oddKeyWords.len := by decide +kernel
  obtain ⟨out, eq, len', power⟩ := powMod_eq oddKeyWords_valid len (by decide)
  have cube : number (bytesOf cubeRoot) ^ seen oddKeyWords.exponent % oddKeyWords.N =
      number paddingSha256Rsa4096 := by decide +kernel
  have block : out = paddingSha256Rsa4096 :=
    number_inj (len'.trans (by decide +kernel)) (power.trans cube)
  have whole : ¬(bytesOf cubeRoot).length > 4 * ((bytesOf cubeRoot).length / 4) := by
    rw [len]
    decide
  rw [rsaModExpSw]
  change (if oddKey.numBits > rsaMaxKeyBits ∨ oddKey.numBits < rsaMinKeyBits then _ else _) = _
  rw [if_neg (by decide), if_neg whole, oddKey_key, eq, block]
  rfl

/-- With a key of 3840 bits the check for 4096 bits accepts a block without the hash. -/
theorem not_verifies_bare :
    ¬Verifies oddKey (bytesOf cubeRoot) (List.replicate 32 0)
      ⟨"sha256", 32, 4096 / 8, paddingSha256Rsa4096⟩ := by
  rintro ⟨ret, eq, right⟩
  have size : (bytesOf cubeRoot).length = oddKey.numBits / 8 := by decide +kernel
  have fits : Fits ⟨"sha256", 32, 4096 / 8, paddingSha256Rsa4096⟩ (List.replicate 32 0) :=
    ⟨by decide +kernel, by decide⟩
  have small : paddingSha256Rsa4096.length < 2 ^ 32 := by decide +kernel
  have accepted := (comparePadded_spec fits small).2.mpr ⟨Nat.le_refl _, List.prefix_append _ _⟩
  rw [rsaVerifyKey_eq size, oddKey_block, Option.bind_some] at eq
  have zero : ret = 0 := Option.some.inj (eq.symm.trans accepted)
  have block := (right.mp zero).2
  rw [oddKey_block] at block
  have same := Except.ok.inj (Option.some.inj block)
  revert same
  decide +kernel

end Imx.Rsa

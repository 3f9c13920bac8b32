import Imx.Base.Words

/-!
# RSA public exponentiation

Model of `lib/rsa/rsa-mod-exp.c` up to `pow_mod`. A number is a list of `len` words of 32 bits, the
lowest first; signatures come and go as byte strings with the highest byte first. The 64-bit
accumulators are checked: `none` stands for one that would overflow, or for an access outside of an
array. The exponent has 64 bits.
-/

namespace Imx.Rsa
open Imx.Base

/-- The base of the words. -/
def base : Nat := 2 ^ 32

/-- A public key (C `struct rsa_public_key`). -/
structure Key where
  len : Nat
  n0inv : Nat
  modulus : List Nat
  rr : List Nat
  exponent : Nat
deriving DecidableEq, Repr

/-- The most words of a key (C `RSA_MAX_KEY_BITS / 32`). -/
def maxKeyWords : Nat := 128

/-- C `EINVAL`. -/
def einval : Int := 22

variable (key : Key)

/-- Subtract the modulus (C `subtract_modulus`). -/
def subtractModulus (num : List Nat) : List Nat := Words.sub base 0 num key.modulus

/-- Is a number at least the modulus (C `greater_equal_modulus`). -/
def greaterEqualModulus (num : List Nat) : Bool := Words.ge num.reverse key.modulus.reverse

/-- Add `a` times `b` to the result and divide by the base, modulo the modulus
(C `montgomery_mul_add_step`). -/
def montgomeryMulAddStep (result : List Nat) (a : Nat) (b : List Nat) : Option (List Nat) :=
  match b, key.modulus, result with
  | b0 :: bs, m0 :: ms, r0 :: rs => do
    let accA ← Words.fit base (a * b0 + r0)
    let d0 := accA % base * key.n0inv % base
    let accB ← Words.fit base (d0 * m0 + accA % base)
    let (out, accA, accB) ← Words.mulAdd base a d0 accA accB bs ms rs
    let accA ← Words.fit base (accA / base + accB / base)
    let result := out ++ [accA % base]
    if accA / base ≠ 0 then some (subtractModulus key result) else some result
  | _, _, _ => none

/-- The product of two numbers divided by a power of the base, modulo the modulus
(C `montgomery_mul`). -/
def montgomeryMul (a b : List Nat) : Option (List Nat) :=
  a.foldlM (fun result ai => montgomeryMulAddStep key result ai b) (List.replicate key.len 0)

/-- The loop over the bits of an exponent, at most `fuel` of them. -/
def exponentBitsLoop : Nat → Nat → Nat → Option Nat
  | 0, _, _ => none
  | fuel + 1, bits, e => if e / 2 = 0 then some bits else exponentBitsLoop fuel (bits + 1) (e / 2)

/-- The number of bits of the exponent (C `num_public_exponent_bits`). -/
def numPublicExponentBits : Option Nat :=
  if key.exponent = 0 then some 0 else exponentBitsLoop 64 1 key.exponent

/-- Is a bit of the exponent set (C `is_public_exponent_bit_set`): the masked exponent is returned
as an `int`, which keeps its low 32 bits. -/
def isPublicExponentBitSet (pos : Nat) : Bool := (key.exponent &&& 2 ^ pos) % 2 ^ 32 ≠ 0

/-- The words of a byte string, the highest first. -/
def beWords : List UInt8 → List Nat
  | b0 :: b1 :: b2 :: b3 :: bytes =>
    (2 ^ 24 * b0.toNat + 2 ^ 16 * b1.toNat + 2 ^ 8 * b2.toNat + b3.toNat) :: beWords bytes
  | _ => []

/-- The bytes of words, the highest first. -/
def beBytes (words : List Nat) : List UInt8 :=
  words.flatMap fun w =>
    [UInt8.ofNat (w / 2 ^ 24), UInt8.ofNat (w / 2 ^ 16), UInt8.ofNat (w / 2 ^ 8), UInt8.ofNat w]

/-- The loop over the bits of the exponent, from bit `j` down to bit 1. -/
def powLoop (aScaled : List Nat) : Nat → List Nat → Option (List Nat)
  | 0, acc => some acc
  | j + 1, acc => do
    let tmp ← montgomeryMul key acc acc
    let acc ← if isPublicExponentBitSet key (j + 1) then montgomeryMul key tmp aScaled else some tmp
    powLoop aScaled j acc

/-- The exponentiation itself, on words, for an exponent of `k` bits. -/
def powWords (k : Nat) (val : List Nat) : Option (List Nat) := do
  let acc ← montgomeryMul key val key.rr
  let aScaled := acc
  let acc ← powLoop key aScaled (k - 2) acc
  let tmp ← montgomeryMul key acc acc
  let result ← montgomeryMul key tmp val
  if greaterEqualModulus key result then some (subtractModulus key result) else some result

/-- Raise a number of `len` words to the public exponent, in place: the return value and what the
buffer holds then (C `pow_mod`). -/
def powMod (inout : List UInt8) : Option (Int × List UInt8) :=
  if key.len > maxKeyWords then some (-einval, inout)
  else
    let val := (beWords inout).reverse
    match numPublicExponentBits key with
    | none => some (-einval, inout)
    | some k =>
      if k < 2 then some (-einval, inout)
      else if isPublicExponentBitSet key 0 = false then some (-einval, inout)
      else (powWords key k val).map fun result => (0, beBytes result.reverse)

end Imx.Rsa

import Mathlib.Data.List.OfFn
import Imx.Base.Mem

/-!
# Numbers as bytes

A number is laid out in memory as its digits to the base 256, the lowest first (`bytesLe`) or last
(`bytesBe`). `putLe` and `getLe` do the same for a machine integer at an offset of a record;
`getLe_of_drop` is the round trip every record of the development is read back by.
-/

namespace Imx.Base

variable {k n off : Nat} {bs rest : List UInt8} {α β : Type*}

/-- The `k` lowest bytes of a number, the lowest first. -/
def bytesLe : Nat → Nat → List UInt8
  | 0, _ => []
  | k + 1, n => UInt8.ofNat n :: bytesLe k (n / 256)

/-- The `k` lowest bytes of a number, the lowest last. -/
def bytesBe (k n : Nat) : List UInt8 := (bytesLe k n).reverse

/-- The number of some bytes, the lowest first. -/
def ofLe : List UInt8 → Nat
  | [] => 0
  | b :: bs => b.toNat + 256 * ofLe bs

/-- What holds of the 256 values holds of every byte. -/
lemma forall_byte {P : UInt8 → Prop} (all : ∀ n : Fin 256, P (UInt8.ofNat n)) (c : UInt8) : P c := by
  have here := all ⟨c.toNat, c.toNat_lt⟩
  rwa [UInt8.ofNat_toNat] at here

@[simp] lemma length_bytesLe : (bytesLe k n).length = k := by
  induction k generalizing n with
  | zero => rfl
  | succ k ih => rw [bytesLe, List.length_cons, ih]

@[simp] lemma length_bytesBe : (bytesBe k n).length = k := by
  rw [bytesBe, List.length_reverse, length_bytesLe]

/-- A number with at most `k` bytes is read back. -/
lemma ofLe_bytesLe (h : n < 256 ^ k) : ofLe (bytesLe k n) = n := by
  induction k generalizing n with
  | zero =>
    rw [Nat.pow_zero] at h
    rw [bytesLe, ofLe]
    omega
  | succ k ih =>
    have high : n / 256 < 256 ^ k := by
      rw [Nat.pow_succ'] at h
      exact Nat.div_lt_of_lt_mul h
    have low : (UInt8.ofNat n).toNat = n % 256 := UInt8.toNat_ofNat'
    rw [bytesLe, ofLe, ih high, low]
    omega

/-- The lowest byte comes last. -/
lemma bytesBe_succ : bytesBe (k + 1) n = bytesBe k (n / 256) ++ [UInt8.ofNat n] := by
  rw [bytesBe, bytesLe, List.reverse_cons, bytesBe]

/-! ## Fields of records -/

/-- The bytes of a machine integer. -/
def putLe (x : BitVec n) : List UInt8 := bytesLe (n / 8) x.toNat

/-- The machine integer at an offset. -/
def getLe (n : Nat) (bs : List UInt8) (off : Nat) : BitVec n :=
  BitVec.ofNat n (ofLe ((bs.drop off).take (n / 8)))

@[simp] lemma length_putLe {x : BitVec n} : (putLe x).length = n / 8 := length_bytesLe

/-- An integer is read back where it was put. -/
lemma getLe_of_drop {x : BitVec n} (whole : 8 ∣ n) (h : bs.drop off = putLe x ++ rest) :
    getLe n bs off = x := by
  have range : x.toNat < 256 ^ (n / 8) := by
    have bits : (256 : Nat) ^ (n / 8) = 2 ^ n := by
      rw [show (256 : Nat) = 2 ^ 8 from rfl, ← Nat.pow_mul, Nat.mul_div_cancel' whole]
    rw [bits]
    exact x.isLt
  rw [getLe, h, List.take_left' length_putLe, putLe, ofLe_bytesLe range, BitVec.ofNat_toNat,
    BitVec.setWidth_eq]

/-! ## Arrays of records -/

/-- The record with index `off` begins after that many records of the size `k`. -/
lemma drop_flatMap {f : α → List β} (size : ∀ a, (f a).length = k) (as : List α) (i : Nat) :
    (as.flatMap f).drop (k * i) = (as.drop i).flatMap f := by
  induction i generalizing as with
  | zero => rfl
  | succ i ih =>
    cases as with
    | nil => simp
    | cons a as =>
      have next : k * (i + 1) = k + k * i := by
        rw [Nat.mul_succ, Nat.add_comm]
      rw [List.flatMap_cons, List.drop_succ_cons, next, ← List.drop_drop,
        List.drop_left' (size a), ih]

/-- The size of an array of records. -/
lemma length_flatMap_eq {f : α → List β} (size : ∀ a, (f a).length = k) (as : List α) :
    (as.flatMap f).length = k * as.length := by
  induction as with
  | nil => rfl
  | cons a as ih =>
    rw [List.flatMap_cons, List.length_append, size, ih, List.length_cons, Nat.mul_succ,
      Nat.add_comm]

end Imx.Base
